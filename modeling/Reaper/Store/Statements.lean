import Reaper.Store.Schema
import Mathlib.Data.List.Sort

/-! What each statement of the store selects and writes, as functions of the rows it reads. -/

namespace Reaper.Store

open Reaper.Library

structure CallRequest where
  id : Id
  idempotencyKey : String
  rootId : Option Id := none
  expiresAt : Time
  retentionMs : ℕ
  function : String
  version : ℕ
  topic : String
  input : Json
  depth : ℕ := 0
  priority : ℤ := 0
  availableAt : Time
  maxFailures : ℕ := 100
  executionTimeoutMs : ℕ := 30000
  maxFailures_pos : 0 < maxFailures := by decide
  root_ne : rootId ≠ some id := by decide
  deriving DecidableEq

structure TimerRequest where
  id : Id
  idempotencyKey : String
  rootId : Option Id := none
  dueAt : Time
  retentionMs : ℕ
  root_ne : rootId ≠ some id := by decide
  deriving DecidableEq

structure Insert where
  id : Id
  promise : Promise
  task : Option Task
  deriving DecidableEq

def place (rootId : Option Id) (deadline : Time) (retentionMs : ℕ) : Place :=
  match rootId with
  | none => .root (deadline + retentionMs * millisecond)
  | some root => .child root

def CallRequest.insert (r : CallRequest) : Insert where
  id := r.id
  promise := {
    idempotencyKey := r.idempotencyKey
    place := place r.rootId r.expiresAt r.retentionMs
    deadline := .expiresAt r.expiresAt }
  task := some {
    function := r.function
    version := r.version
    topic := r.topic
    input := r.input
    depth := r.depth
    priority := r.priority
    availableAt := r.availableAt
    maxFailures := r.maxFailures
    executionTimeoutMs := r.executionTimeoutMs
    failures_lt := r.maxFailures_pos }

def TimerRequest.insert (r : TimerRequest) : Insert where
  id := r.id
  promise := {
    idempotencyKey := r.idempotencyKey
    place := place r.rootId r.dueAt r.retentionMs
    deadline := .dueAt r.dueAt }
  task := none

/-- The foreign key of a child: its root is stored, and is a root. -/
def rootStored (db : Db) (p : Promise) : Bool :=
  match p.place with
  | .root _ => true
  | .child root => (db.promises.get root).any fun r => r.graphId root = root

structure WaitedPromise where
  id : Id
  state : PromiseState
  result : Option Json
  error : Option Json
  settledAtMs : Option ℤ
  deriving DecidableEq, Repr

structure ClaimedTask where
  id : Id
  rootId : Option Id
  function : String
  version : ℕ
  topic : String
  input : Json
  depth : ℕ
  maxFailures : ℕ
  executionTimeoutMs : ℕ
  waits : List WaitedPromise
  deriving DecidableEq, Repr

def Outcome.result : Outcome → Option Json
  | .resolved r _ => r
  | _ => none

def Outcome.error : Outcome → Option Json
  | .rejected e _ | .timedOut e _ => some e
  | _ => none

def Outcome.settledAt : Outcome → Option Time
  | .pending => none
  | .resolved _ t | .rejected _ t | .timedOut _ t => some t

def waitedPromise (e : Id × Promise) : WaitedPromise where
  id := e.1
  state := e.2.state
  result := e.2.outcome.result
  error := e.2.outcome.error
  settledAtMs := e.2.outcome.settledAt.map (· / millisecond)

def byId (es : List (Id × Promise)) : List (Id × Promise) := es.insertionSort fun a b => a.1 ≤ b.1

def claimedTask (snap : Db) (id : Id) (t : Task) : ClaimedTask where
  id := id
  rootId := (snap.promises.get id).bind fun p =>
    match p.place with
    | .root _ => none
    | .child root => some root
  function := t.function
  version := t.version
  topic := t.topic
  input := t.input
  depth := t.depth
  maxFailures := t.maxFailures
  executionTimeoutMs := t.executionTimeoutMs
  waits := (byId (snap.promises.entries.filter fun e => (id, e.1) ∈ snap.waits)).map waitedPromise

lemma claimedTask_graph {db : Db} {id : Id} {t : Task} {p : Promise}
    (hp : db.promises.get id = some p) :
    (claimedTask db id t).rootId.getD id = p.graphId id := by
  change ((db.promises.get id).bind _).getD id = _
  rw [hp, Option.bind_some, Promise.graphId]
  cases p.place <;> rfl

def claimable (topic : String) (excluded : List (String × ℕ)) (now : Time) (t : Task) : Bool :=
  t.topic = topic ∧ (t.function, t.version) ∉ excluded ∧ t.pendingWaits = 0 ∧ t.availableAt ≤ now

def unexpired (now : Time) (p : Promise) : Bool :=
  p.Pending && match p.deadline with
    | .expiresAt e => now < e
    | .dueAt _ => false

def ClaimBefore (a b : Id × Task) : Prop :=
  b.2.priority < a.2.priority ∨ a.2.priority = b.2.priority ∧
    (a.2.availableAt < b.2.availableAt ∨ a.2.availableAt = b.2.availableAt ∧ a.1 ≤ b.1)

instance : DecidableRel ClaimBefore := fun _ _ => inferInstanceAs (Decidable (_ ∨ _ ∧ (_ ∨ _ ∧ _)))

def claimCandidates (snap : Db) (topic : String) (excluded : List (String × ℕ)) (now : Time) :
    List Id :=
  ((snap.tasks.entries.filter fun e => claimable topic excluded now e.2 ∧
    (snap.promises.get e.1).any (unexpired now)).insertionSort ClaimBefore).map Prod.fst

/-- The count of waiter_changes: how many of the settled promises a waiter has waits rows for. -/
def settledCount (snap : Db) (settled : List Id) (waiter : Id) : ℕ :=
  (settled.filter fun a => (waiter, a) ∈ snap.waits).length

def lockedWaiters (snap : Db) (settled : List Id) : List Id :=
  (snap.tasks.keys.filter fun w => 0 < settledCount snap settled w).insertionSort (· ≤ ·)

/-- The update of ready: fewer waits, and claimable at once when none is left. -/
def Task.ready (t : Task) (count : ℕ) (now : Time) : Task :=
  { t with
    pendingWaits := t.pendingWaits - count
    availableAt := if t.pendingWaits ≤ count then now else t.availableAt }

def expired (now : Time) (p : Promise) : Bool :=
  p.Pending && match p.deadline with
    | .expiresAt e => e ≤ now
    | .dueAt _ => false

def due (now : Time) (p : Promise) : Bool :=
  p.Pending && match p.deadline with
    | .dueAt d => d ≤ now
    | .expiresAt _ => false

def Deadline.time : Deadline → Time
  | .dueAt t | .expiresAt t => t

def DueBefore (a b : Id × Promise) : Prop :=
  a.2.deadline.time < b.2.deadline.time ∨ a.2.deadline.time = b.2.deadline.time ∧ a.1 ≤ b.1

instance : DecidableRel DueBefore := fun _ _ => inferInstanceAs (Decidable (_ ∨ _ ∧ _))

def expiredTasks (snap : Db) (now : Time) : List Id :=
  ((snap.promises.entries.filter fun e => snap.tasks.get e.1 ≠ none ∧ expired now e.2).insertionSort
    DueBefore).map Prod.fst

def timerDue (snap : Db) (now : Time) : List Id :=
  ((snap.promises.entries.filter fun e => due now e.2).insertionSort DueBefore).map Prod.fst

def timerResult : Json := ⟨"null"⟩

def promiseTimeout : Json := ⟨"\x7b\"type\":\"PromiseTimeout\"\x7d"⟩

inductive Settlement
  | complete (result : Option Json)
  | reject (error : Json)
  deriving DecidableEq, Repr

def Settlement.outcome (now : Time) : Settlement → Outcome
  | .complete result => .resolved result now
  | .reject error => .rejected error now

/-- DELETE_EXPIRED: the settled roots whose time has come and whose graph has no pending child. -/
def doomed (db : Db) (before : Time) (limit : ℕ) : List Id :=
  let ready := db.promises.entries.filterMap fun e =>
    match e.2.place with
    | .root deleteAfter =>
      if deleteAfter ≤ before ∧ ¬ e.2.Pending ∧
          ∀ c ∈ db.promises.entries, c.2.place = .child e.1 → ¬ c.2.Pending
      then some (deleteAfter, e.1) else none
    | .child _ => none
  ((ready.insertionSort fun a b => a.1 < b.1 ∨ a.1 = b.1 ∧ a.2 ≤ b.2).take limit).map Prod.snd

/-- Deleting a root deletes its graph: the foreign keys cascade to children, tasks and waits. A task
that would be left waiting for a deleted promise makes the statement fail. -/
def Db.deleteGraphs (db : Db) (roots : List Id) : Db :=
  let gone := fun id => (db.promises.get id).any fun p => p.graphId id ∈ roots
  if ∃ e ∈ db.waits, gone e.2 ∧ ¬ gone e.1 then db
  else {
    promises := db.promises.filter fun id _ => !gone id
    tasks := db.tasks.filter fun id _ => !gone id
    waits := db.waits.filter fun e => !gone e.1 }

def deleteExpired (db : Db) (before : Time) (limit : ℕ) : Db := db.deleteGraphs (doomed db before limit)

end Reaper.Store
