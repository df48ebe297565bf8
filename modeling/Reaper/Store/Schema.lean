import Reaper.Library.Patch
import Mathlib.Data.Finset.Basic
import Mathlib.Data.Finset.Card

/-! The promise store: its three tables, and the changes a transaction holds back until it commits. -/

namespace Reaper.Store

open Reaper.Library

abbrev Id := String

abbrev Time := ℤ

def millisecond : Time := 1000

structure Json where
  text : String
  deriving DecidableEq, Repr

/-- A root has a time after which its graph may be deleted, and any other promise has a root. -/
inductive Place
  | root (deleteAfter : Time)
  | child (rootId : Id)
  deriving DecidableEq, Repr

/-- A timer has due_at and a call has expires_at, and no promise has both. -/
inductive Deadline
  | dueAt (time : Time)
  | expiresAt (time : Time)
  deriving DecidableEq, Repr

inductive PromiseState
  | pending | resolved | rejected | timedOut
  deriving DecidableEq, Repr

/-- The columns state, result, error and settled_at, as the table's checks allow them together. -/
inductive Outcome
  | pending
  | resolved (result : Option Json) (settledAt : Time)
  | rejected (error : Json) (settledAt : Time)
  | timedOut (error : Json) (settledAt : Time)
  deriving DecidableEq, Repr

structure Promise where
  idempotencyKey : String
  place : Place
  deadline : Deadline
  outcome : Outcome := .pending
  deriving DecidableEq, Repr

structure Task where
  function : String
  version : ℕ
  topic : String
  input : Json
  depth : ℕ
  pendingWaits : ℕ := 0
  priority : ℤ
  availableAt : Time
  failures : ℕ := 0
  maxFailures : ℕ
  executionTimeoutMs : ℕ
  failures_lt : failures < maxFailures
  deriving DecidableEq, Repr

def Outcome.state : Outcome → PromiseState
  | .pending => .pending
  | .resolved _ _ => .resolved
  | .rejected _ _ => .rejected
  | .timedOut _ _ => .timedOut

namespace Promise

def state (p : Promise) : PromiseState := p.outcome.state

def graphId (id : Id) (p : Promise) : Id :=
  match p.place with
  | .root _ => id
  | .child root => root

def Pending (p : Promise) : Prop := p.outcome = .pending

def IsCall (p : Promise) : Prop := ∃ t, p.deadline = .expiresAt t

instance (p : Promise) : Decidable p.Pending := inferInstanceAs (Decidable (_ = _))

instance (p : Promise) : Decidable p.IsCall :=
  match h : p.deadline with
  | .expiresAt t => isTrue ⟨t, h⟩
  | .dueAt _ => isFalse fun ⟨_, ht⟩ => by rw [h] at ht; cases ht

def settle (p : Promise) (outcome : Outcome) : Promise := { p with outcome := outcome }

end Promise

/-- The tables. A wait is a pair of a waiter and a promise it awaits. -/
structure Db where
  promises : Dict Id Promise := Dict.empty
  tasks : Dict Id Task := Dict.empty
  waits : Finset (Id × Id) := ∅

structure Delta where
  promises : Dict Id (Option Promise) := Dict.empty
  tasks : Dict Id (Option Task) := Dict.empty
  waits : Finset (Id × Id) := ∅

namespace Db

/-- The newest rows that a transaction with these writes sees. Deleting a task deletes its waits. -/
def patch (db : Db) (x : Delta) : Db where
  promises := db.promises.patch x.promises
  tasks := db.tasks.patch x.tasks
  waits := (db.waits ∪ x.waits).filter fun e => x.tasks.get e.1 ≠ some none

def pending (db : Db) (id : Id) : Bool := (db.promises.get id).any fun p => p.Pending

def pendingAwaited (db : Db) (waiter : Id) : Finset (Id × Id) :=
  db.waits.filter fun e => e.1 = waiter ∧ db.pending e.2

end Db

namespace Delta

def setPromise (x : Delta) (id : Id) (p : Promise) : Delta :=
  { x with promises := x.promises.set id (some p) }

def setTask (x : Delta) (id : Id) (t : Task) : Delta := { x with tasks := x.tasks.set id (some t) }

def deleteTask (x : Delta) (id : Id) : Delta := { x with tasks := x.tasks.set id none }

end Delta

end Reaper.Store
