import Reaper.Store.Statements
import Mathlib.Algebra.Group.Int.Defs

/-! What the columns of the two tables take, and which requests PostgreSQL refuses for their data. -/

namespace Reaper.Store

open Reaper.Library

def Storable (s : String) : Prop := Char.ofNat 0 ∉ s.toList

instance (s : String) : Decidable (Storable s) := inferInstanceAs (Decidable (_ ∉ _))

def Timestamp (t : Time) : Prop := -210866803200000000 ≤ t ∧ t < 9224318016000000000

instance (t : Time) : Decidable (Timestamp t) := inferInstanceAs (Decidable (_ ∧ _))

def Smallint (n : ℤ) : Prop := -2 ^ 15 ≤ n ∧ n < 2 ^ 15
def Integer (n : ℤ) : Prop := -2 ^ 31 ≤ n ∧ n < 2 ^ 31

instance (n : ℤ) : Decidable (Smallint n) := inferInstanceAs (Decidable (_ ∧ _))
instance (n : ℤ) : Decidable (Integer n) := inferInstanceAs (Decidable (_ ∧ _))

def isHexDigit (c : Char) : Bool := c ∈ "0123456789abcdef".toList

structure RequestRow where
  id : String
  idempotencyKey : String
  rootId : Option String
  expiresAt : Time
  retentionMs : ℤ
  function : String
  version : ℤ
  topic : String
  input : Json
  depth : ℤ
  priority : ℤ
  availableAt : Time
  maxFailures : ℤ
  executionTimeoutMs : ℤ

structure PromiseRow where
  id : String
  idempotencyKey : String
  state : PromiseState := .pending
  rootId : Option String
  result : Option Json := none
  error : Option Json := none
  dueAt : Option Time := none
  expiresAt : Option Time := none
  deleteAfter : Option Time := none
  settledAt : Option Time := none

structure TaskRow where
  promiseId : String
  function : String
  version : ℤ
  topic : String
  input : Json
  depth : ℤ
  pendingWaits : ℤ := 0
  priority : ℤ
  availableAt : Time
  failures : ℤ := 0
  maxFailures : ℤ
  executionTimeoutMs : ℤ

/-- The types of the recordset, where `jsonb` tells which inputs the type jsonb takes. Each request of
a batch is read before any row is stored. -/
@[mk_iff] structure RequestRow.Reads (jsonb : Json → Bool) (r : RequestRow) : Prop where
  text : Storable r.id ∧ Storable r.idempotencyKey ∧ (∀ root ∈ r.rootId, Storable root) ∧
    Storable r.function ∧ Storable r.topic
  input : jsonb r.input
  smallint : Smallint r.depth ∧ Smallint r.priority
  integer : Integer r.retentionMs ∧ Integer r.version ∧ Integer r.maxFailures ∧ Integer r.executionTimeoutMs
  time : Timestamp r.expiresAt ∧ Timestamp r.availableAt

@[mk_iff] structure PromiseRow.Fits (r : PromiseRow) : Prop where
  text : Storable r.id ∧ Storable r.idempotencyKey ∧ ∀ root ∈ r.rootId, Storable root
  times : ∀ column ∈ [r.dueAt, r.expiresAt, r.deleteAfter, r.settledAt], ∀ t ∈ column, Timestamp t
  key : r.idempotencyKey.toList.length = 64 ∧ r.idempotencyKey.toList.all isHexDigit
  id : r.id ≠ "" ∧ r.id.utf8ByteSize ≤ 1024
  root_ne : ∀ root ∈ r.rootId, root ≠ r.id
  deadline : r.dueAt.isSome ∧ r.expiresAt = none ∨ r.dueAt = none ∧ r.expiresAt.isSome
  outcome : r.state = .pending ∧ r.settledAt = none ∧ r.result = none ∧ r.error = none ∨
    r.state = .resolved ∧ r.settledAt.isSome ∧ r.error = none ∨
    (r.state = .rejected ∨ r.state = .timedOut) ∧ r.settledAt.isSome ∧ r.result = none ∧ r.error.isSome
  deletion : r.rootId = none ∧ (∀ d ∈ r.deleteAfter, ∀ t ∈ r.expiresAt.or r.dueAt, t < d) ∨
    r.rootId.isSome ∧ r.deleteAfter = none

@[mk_iff] structure TaskRow.Fits (jsonb : Json → Bool) (r : TaskRow) : Prop where
  text : Storable r.promiseId ∧ Storable r.function ∧ Storable r.topic
  input : jsonb r.input
  smallint : Smallint r.depth ∧ Smallint r.priority
  integer : Integer r.version ∧ Integer r.pendingWaits ∧ Integer r.failures ∧ Integer r.maxFailures ∧
    Integer r.executionTimeoutMs
  time : Timestamp r.availableAt
  version : 0 < r.version
  depth : 0 ≤ r.depth ∧ r.depth ≤ 256
  pendingWaits : 0 ≤ r.pendingWaits
  failures : 0 ≤ r.failures
  maxFailures : 1 ≤ r.maxFailures ∧ r.maxFailures ≤ 100
  executionTimeoutMs : 1 ≤ r.executionTimeoutMs ∧ r.executionTimeoutMs ≤ 86400000
  function : r.function ≠ "" ∧ r.function.utf8ByteSize ≤ 1024
  topic : r.topic ≠ "" ∧ r.topic.utf8ByteSize ≤ 255
  failures_lt : r.failures < r.maxFailures

section Decidable

variable {jsonb : Json → Bool}

instance (r : RequestRow) : Decidable (r.Reads jsonb) := decidable_of_iff _ (r.reads_iff jsonb).symm

instance (r : PromiseRow) : Decidable r.Fits := decidable_of_iff _ r.fits_iff.symm

instance (r : TaskRow) : Decidable (r.Fits jsonb) := decidable_of_iff _ (r.fits_iff jsonb).symm

end Decidable

namespace RequestRow

def promise (r : RequestRow) : PromiseRow where
  id := r.id
  idempotencyKey := r.idempotencyKey
  rootId := r.rootId
  expiresAt := some r.expiresAt
  deleteAfter := if r.rootId = none then some (r.expiresAt + r.retentionMs * millisecond) else none

def task (r : RequestRow) : TaskRow where
  promiseId := r.id
  function := r.function
  version := r.version
  topic := r.topic
  input := r.input
  depth := r.depth
  priority := r.priority
  availableAt := r.availableAt
  maxFailures := r.maxFailures
  executionTimeoutMs := r.executionTimeoutMs

lemma deleteAfter_root {r : RequestRow} (h : r.rootId = none) :
    r.promise.deleteAfter = some (r.expiresAt + r.retentionMs * millisecond) := if_pos h

lemma deleteAfter_child {r : RequestRow} (h : r.rootId ≠ none) : r.promise.deleteAfter = none := if_neg h

end RequestRow

def CallRequest.row (r : CallRequest) : RequestRow where
  id := r.id
  idempotencyKey := r.idempotencyKey
  rootId := r.rootId
  expiresAt := r.expiresAt
  retentionMs := r.retentionMs
  function := r.function
  version := r.version
  topic := r.topic
  input := r.input
  depth := r.depth
  priority := r.priority
  availableAt := r.availableAt
  maxFailures := r.maxFailures
  executionTimeoutMs := r.executionTimeoutMs

/-- The promise that submit_timer inserts. Its retention_ms is a double precision parameter. -/
def TimerRequest.promiseRow (r : TimerRequest) : PromiseRow where
  id := r.id
  idempotencyKey := r.idempotencyKey
  rootId := r.rootId
  dueAt := some r.dueAt
  deleteAfter := if r.rootId = none then some (r.dueAt + r.retentionMs * millisecond) else none

/-- What a request needs to be stored next to these rows. The CHECK constraints of the promise come before
ON CONFLICT, and a promise that is there already gets no task. -/
def CallRequest.Takes (jsonb : Json → Bool) (db : Db) (r : CallRequest) : Prop :=
  r.row.Reads jsonb ∧ r.row.promise.Fits ∧ (db.promises.get r.id = none → r.row.task.Fits jsonb)

instance (jsonb : Json → Bool) (db : Db) (r : CallRequest) : Decidable (r.Takes jsonb db) :=
  inferInstanceAs (Decidable (_ ∧ _ ∧ _))

def datetimeMax : Time := 253402300799999999

def datetimeMin : Time := -62135596800000000

def Promise.times (p : Promise) : List Time :=
  (match p.place with | .root t => [t] | .child _ => []) ++
  (match p.deadline with | .dueAt t | .expiresAt t => [t]) ++ p.outcome.settledAt.toList

def Promise.Readable (p : Promise) : Prop := ∀ t ∈ p.times, datetimeMin ≤ t ∧ t ≤ datetimeMax

instance (p : Promise) : Decidable p.Readable := inferInstanceAs (Decidable (∀ t ∈ p.times, _))

section Takes

variable {jsonb : Json → Bool} {db db' : Db} {r : CallRequest}

lemma CallRequest.Takes.mono (h : r.Takes jsonb db)
    (hk : db.promises.get r.id ≠ none → db'.promises.get r.id ≠ none) : r.Takes jsonb db' :=
  ⟨h.1, h.2.1, fun hnone => h.2.2 (by_contra fun hs => hk hs hnone)⟩

end Takes

end Reaper.Store
