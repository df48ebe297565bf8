import Reaper.Workflow.Storage

/-! How a worker runs a claimed task and records an outcome for it, whatever its body returns or
raises. What pydantic and PostgreSQL make of a value is a parameter. -/

namespace Reaper.Worker.Claimed

open Reaper.Library Reaper.Store

abbrev Text := List ℕ

def text (s : String) : Text := s.toList.map Char.toNat

inductive JsonValue
  | null
  | bool (b : Bool)
  | number (digits : String)
  | string (s : Text)
  | array (items : List JsonValue)
  | object (fields : List (Text × JsonValue))

structure Error where
  type : Text
  text : Text

def Error.modelDump (e : Error) : JsonValue :=
  .object [(Claimed.text "type", .string e.type), (Claimed.text "text", .string e.text)]

def timeoutError : Error := ⟨text "builtins.TimeoutError", text "local task run timed out"⟩

def resourceLimitError : Error :=
  ⟨text "reaper.promise.ResourceLimitError", text "promise result is too large"⟩

structure SuspendTask where
  awaited : List Id
  unique : awaited.Nodup

/-- What the call of a function raises, by what execute asks about it. It has no error when its text
cannot be had. -/
structure Raised where
  isTimeout : Bool := false
  isCancelled : Bool := false
  isRetryable : Bool := false
  suspend : Option SuspendTask := none
  error : Option Error

inductive ResultState
  | resolved | rejected | retry | suspended
  deriving DecidableEq

inductive Result
  | resolved (value : JsonValue)
  | rejected (error : Error)
  | retry (error : Error)
  | suspended (awaited : List Id)

inductive Escape
  | cancelled
  | undescribed
  | unserializable
  | unreadable
  | unencodable
  | inputNotObject
  | alreadyFinished
  | invalidWait
  | transactionRequired
  | database
  | taskNotFound (id : Id)
  | promiseNotFound
  | crossGraphWait
  deriving DecidableEq

def escapedNul : List Char → Bool
  | '\\' :: 'u' :: '0' :: '0' :: '0' :: '0' :: _ => true
  | '\\' :: _ :: cs => escapedNul cs
  | _ :: cs => escapedNul cs
  | [] => false

structure Codec where
  validateJson : String → Option JsonValue
  encodeJson : JsonValue → Option Json
  jsonb : Json → Bool
  jsonb_nul : ∀ j, escapedNul j.text.toList = true → jsonb j = false
  own_errors : ∀ e ∈ [timeoutError, resourceLimitError],
    ∃ j, encodeJson e.modelDump = some j ∧ jsonb j = true

def Codec.Stores (c : Codec) (value : JsonValue) : Prop :=
  ∃ j, c.encodeJson value = some j ∧ c.jsonb j = true

inductive Recorded
  | completed (result : Option Json)
  | rejected (error : Json)
  | retried (error : Json)
  | suspended (awaited : List Id)
  deriving DecidableEq

/-- A claimed task, and the transaction of its claim with the rows that it sees. A transaction in
which a statement has failed takes no more. -/
structure TaskExecution where
  task : ClaimedTask
  recorded : List Recorded := []
  inTransaction : Bool := true
  aborted : Bool := false
  db : Db

structure DurableFunction (V : Type) where
  version : ℕ
  dumpJson : V → Option String
  callOnce : Json → TaskExecution → Except Raised V × TaskExecution

section Execute

variable {V : Type}

def Raised.fromException (e : Raised) : Except Escape Error :=
  match e.error with
  | some error => .ok error
  | none => .error .undescribed

def execute (c : Codec) (dumpJson : V → Option String) : Except Raised V → Except Escape Result
  | .error e =>
    if e.isTimeout then .ok (.retry timeoutError)
    else if e.isCancelled then .error .cancelled
    else if e.isRetryable then do
      let error ← e.fromException
      return .retry error
    else match e.suspend with
      | some s => .ok (.suspended s.awaited)
      | none => do
        let error ← e.fromException
        return .rejected error
  | .ok value =>
    match dumpJson value with
    | none => .error .unserializable
    | some encoded =>
      if Workflow.maxPromiseBytes < encoded.utf8ByteSize then .ok (.rejected resourceLimitError)
      else match c.validateJson encoded with
        | none => .error .unreadable
        | some value => .ok (.resolved value)

end Execute

section Settle

variable (c : Codec) (now : Time)

def Codec.encode (value : JsonValue) : Except Escape Json :=
  match c.encodeJson value with
  | some j => .ok j
  | none => .error .unencodable

def Codec.encodeResult (result : JsonValue) : Except Escape (Option Json) :=
  match result with
  | .null => .ok none
  | result => (c.encode result).map some

namespace TaskExecution

def ensureOpen (x : TaskExecution) : Except Escape Unit :=
  if x.recorded ≠ [] then .error .alreadyFinished else .ok ()

def requireTransaction (x : TaskExecution) : Except Escape Unit :=
  if x.inTransaction then .ok () else .error .transactionRequired

def fetch {A : Type} (x : TaskExecution) (argument : Option Json) (rows : A) : Except Escape A :=
  if x.aborted ∨ ¬ argument.all c.jsonb then .error .database else .ok rows

def finish (x : TaskExecution) (db : Db) (outcome : Recorded) : TaskExecution :=
  { x with db := db, recorded := x.recorded ++ [outcome] }

def stored (x : TaskExecution) : Bool := x.db.pending x.task.id ∧ x.db.tasks.get x.task.id ≠ none

def settleTask {A : Type} (x : TaskExecution) (argument : Except Escape A) (json : A → Option Json)
    (outcome : A → Outcome) : Except Escape (Db × A) := do
  x.requireTransaction
  let locked ← x.fetch c none x.stored
  if locked then
    let a ← argument
    match ← x.fetch c (json a) (Workflow.settlePromise x.db x.task.id (outcome a) now) with
    | none => .error (.taskNotFound x.task.id)
    | some db => .ok (db, a)
  else .error (.taskNotFound x.task.id)

def complete (x : TaskExecution) (result : JsonValue) : Except Escape TaskExecution := do
  x.ensureOpen
  let (db, result) ← x.settleTask c now (c.encodeResult result) id fun result => .resolved result now
  return x.finish db (.completed result)

def reject (x : TaskExecution) (error : Error) : Except Escape TaskExecution := do
  x.ensureOpen
  let (db, error) ← x.settleTask c now (c.encode error.modelDump) some fun error => .rejected error now
  return x.finish db (.rejected error)

def retry (x : TaskExecution) (error : Error) : Except Escape (TaskExecution × Bool) := do
  x.ensureOpen
  x.requireTransaction
  let error ← c.encode error.modelDump
  match ← x.fetch c (some error) (Workflow.retryTask x.db x.task.id error now) with
  | none => .error (.taskNotFound x.task.id)
  | some db => .ok (x.finish db (.retried error), (x.db.tasks.get x.task.id).any fun t =>
      t.maxFailures ≤ t.failures + 1)

def suspend (x : TaskExecution) (awaited : List Id) : Except Escape TaskExecution := do
  x.ensureOpen
  if awaited = [] ∨ 1024 < awaited.length ∨ x.task.id ∈ awaited ∨ ¬ awaited.Nodup then
    .error .invalidWait
  else
    x.requireTransaction
    let waiter ← x.fetch c none (x.db.tasks.get x.task.id ≠ none ∧ x.db.promises.get x.task.id ≠ none : Bool)
    if ¬ waiter then .error (.taskNotFound x.task.id)
    else if ∃ a ∈ awaited, x.db.promises.get a = none then .error .promiseNotFound
    else match Workflow.suspendTask x.db x.task.id awaited now with
      | none => .error .crossGraphWait
      | some db => .ok (x.finish db (.suspended awaited))

end TaskExecution

def settleExecution (x : TaskExecution) : Result → Except Escape (ResultState × TaskExecution)
  | .resolved value => do return (.resolved, ← x.complete c now value)
  | .rejected error => do return (.rejected, ← x.reject c now error)
  | .suspended awaited => do return (.suspended, ← x.suspend c now awaited)
  | .retry error => do
    let (x, rejected) ← x.retry c now error
    return (if rejected then .rejected else .retry, x)

variable {V : Type}

/-- run_claimed_task. The task is released without an outcome when this worker does not have its
function in its version. -/
def runClaimedTask (loadTask : String → Option (DurableFunction V)) (isMapping : Json → Bool)
    (x : TaskExecution) : Except Escape (Option ResultState × TaskExecution) :=
  match (loadTask x.task.function).filter fun f => f.version = x.task.version with
  | none => .ok (none, x)
  | some f =>
    if ¬ isMapping x.task.input then .error .inputNotObject
    else do
      let (item, x) := f.callOnce x.task.input x
      let result ← execute c f.dumpJson item
      let (state, x) ← settleExecution c now x result
      return (some state, x)

end Settle

section Spec

variable {V : Type} {c : Codec} {now : Time} {x x' : TaskExecution} {i : Id}

structure Usable (x : TaskExecution) : Prop where
  recorded : x.recorded = []
  inTransaction : x.inTransaction = true
  aborted : x.aborted = false

structure Awaitable (db : Db) (id : Id) (awaited : List Id) : Prop where
  nonempty : awaited ≠ []
  bounded : awaited.length ≤ 1024
  other : id ∉ awaited
  waiter : db.tasks.get id ≠ none
  graph : ∃ w, db.promises.get id = some w ∧
    ∀ a ∈ awaited, ∃ p, db.promises.get a = some p ∧ p.graphId a = w.graphId id

inductive Settles (c : Codec) (dumpJson : V → Option String) (x : TaskExecution) :
    Except Raised V → Prop
  | timeout {e : Raised} (ht : e.isTimeout = true) (hs : x.stored = true) : Settles c dumpJson x (.error e)
  | fault {e : Raised} {error : Error} (ht : e.isTimeout = false)
      (hk : e.isRetryable = true ∨ e.suspend = none) (he : e.error = some error)
      (hc : c.Stores error.modelDump) (hs : x.stored = true) : Settles c dumpJson x (.error e)
  | suspend {e : Raised} {s : SuspendTask} (ht : e.isTimeout = false) (hk : e.isRetryable = false)
      (he : e.suspend = some s) (ha : Awaitable x.db x.task.id s.awaited) :
      Settles c dumpJson x (.error e)
  | large {value : V} {encoded : String} (hd : dumpJson value = some encoded)
      (hl : Workflow.maxPromiseBytes < encoded.utf8ByteSize) (hs : x.stored = true) :
      Settles c dumpJson x (.ok value)
  | value {value : V} {encoded : String} {read : JsonValue} (hd : dumpJson value = some encoded)
      (hl : encoded.utf8ByteSize ≤ Workflow.maxPromiseBytes) (hv : c.validateJson encoded = some read)
      (hc : read = .null ∨ c.Stores read) (hs : x.stored = true) : Settles c dumpJson x (.ok value)

def RecordsOne (r : Except Escape (Option ResultState × TaskExecution)) : Prop :=
  ∃ state x' outcome, r = .ok (some state, x') ∧ x'.recorded = [outcome]

lemma not_recordsOne_error (e : Escape) : ¬ RecordsOne (.error e) := by
  rintro ⟨state, x, outcome, h, -⟩
  cases h

lemma bind_eq_ok {A B : Type} {r : Except Escape A} {f : A → Except Escape B} {b : B} :
    r >>= f = .ok b ↔ ∃ a, r = .ok a ∧ f a = .ok b := by
  cases r with
  | error e => exact ⟨nofun, fun ⟨_, h, _⟩ => (by cases h)⟩
  | ok a => exact ⟨fun h => ⟨a, rfl, h⟩, fun ⟨_, h, hb⟩ => (by cases h; exact hb)⟩

lemma ensureOpen_ok {u : Unit} : x.ensureOpen = .ok u ↔ x.recorded = [] := by
  rw [TaskExecution.ensureOpen]
  split_ifs with h
  · simp [h]
  · simpa using h

lemma requireTransaction_ok {u : Unit} : x.requireTransaction = .ok u ↔ x.inTransaction = true := by
  rw [TaskExecution.requireTransaction]
  split_ifs with h
  · simp [h]
  · simp [h]

lemma fetch_ok {A : Type} {argument : Option Json} {rows r : A} :
    x.fetch c argument rows = .ok r ↔
      x.aborted = false ∧ argument.all c.jsonb = true ∧ r = rows := by
  rw [TaskExecution.fetch]
  split_ifs with h
  · refine ⟨nofun, fun ⟨ha, hj, _⟩ => ?_⟩
    simp [ha, hj] at h
  · simp only [not_or, Bool.not_eq_true] at h
    simp [h, eq_comm]

lemma encode_ok {value : JsonValue} {j : Json} :
    c.encode value = .ok j ↔ c.encodeJson value = some j := by
  rw [Codec.encode]
  split
  · next k hk => simp [hk]
  · next hk => simp [hk]

lemma stored_iff : x.stored = true ↔
    x.db.pending x.task.id = true ∧ x.db.tasks.get x.task.id ≠ none := by
  rw [TaskExecution.stored, decide_eq_true_eq]

lemma settlePromise_some {db : Db} (hp : db.pending i = true) (ht : db.tasks.get i ≠ none)
    (outcome : Outcome) : ∃ db', Workflow.settlePromise db i outcome now = some db' := by
  obtain ⟨p, hget, hpending⟩ := Db.pending_iff.mp hp
  rw [Workflow.settlePromise, hget, Option.bind_some, if_neg]
  · exact ⟨_, rfl⟩
  · simp [hpending, ht]

lemma retryTask_some {db : Db} (hp : db.pending i = true) (ht : db.tasks.get i ≠ none)
    (error : Json) : ∃ db', Workflow.retryTask db i error now = some db' := by
  obtain ⟨t, hget⟩ := Option.ne_none_iff_exists'.mp ht
  rw [Workflow.retryTask, hget, Option.bind_some, if_neg (by simp [hp])]
  split_ifs
  · exact ⟨_, rfl⟩
  · exact settlePromise_some hp ht _

lemma retryTask_stored {db db' : Db} {error : Json}
    (h : Workflow.retryTask db i error now = some db') :
    db.pending i = true ∧ db.tasks.get i ≠ none := by
  obtain ⟨t, hget, h⟩ := Option.bind_eq_some_iff.mp h
  refine ⟨?_, by simp [hget]⟩
  by_contra hp
  rw [if_pos hp] at h
  cases h

lemma suspendTask_some {db : Db} {awaited : List Id} (hu : awaited.Nodup)
    (ha : Awaitable db i awaited) : ∃ db', Workflow.suspendTask db i awaited now = some db' := by
  obtain ⟨w, hw, hall⟩ := ha.graph
  obtain ⟨t, ht⟩ := Option.ne_none_iff_exists'.mp ha.waiter
  have hlength : (awaited.filterMap fun a => (db.promises.get a).map fun p => (a, p)).length =
      awaited.length := by
    refine List.filterMap_length_eq_length.mpr fun a hmem => ?_
    obtain ⟨p, hp, -⟩ := hall a hmem
    simp [hp]
  have hroot : Txn.sameRoot db i
      (awaited.filterMap fun a => (db.promises.get a).map fun p => (a, p)) = true := by
    rw [Txn.sameRoot, hw, Option.any_some, List.all_eq_true]
    intro e he
    obtain ⟨a, hmem, he⟩ := List.mem_filterMap.mp he
    obtain ⟨p, hp, hg⟩ := hall a hmem
    rw [hp] at he
    cases he
    exact decide_eq_true hg
  rw [Workflow.suspendTask, ht, Option.bind_some]
  dsimp only
  rw [if_neg]
  · exact ⟨_, rfl⟩
  · simp [ha.nonempty, hu, ha.other, hlength, hroot]

lemma suspendTask_awaitable {db db' : Db} {awaited : List Id} (hb : awaited.length ≤ 1024)
    (h : Workflow.suspendTask db i awaited now = some db') : Awaitable db i awaited := by
  obtain ⟨t, ht, h⟩ := Option.bind_eq_some_iff.mp h
  dsimp only at h
  split_ifs at h with hn
  simp only [not_or, not_not] at hn
  obtain ⟨hne, -, hother, hlength, hroot⟩ := hn
  obtain ⟨w, hw, hall⟩ := (Option.any_eq_true ..).mp hroot
  refine ⟨hne, hb, hother, by simp [ht], w, hw, fun a ha => ?_⟩
  have hget := List.filterMap_length_eq_length.mp hlength a ha
  obtain ⟨p, hp⟩ := Option.isSome_iff_exists.mp (Option.isSome_map.symm.trans hget)
  refine ⟨p, hp, ?_⟩
  have hmem : (a, p) ∈ awaited.filterMap fun a => (db.promises.get a).map fun p => (a, p) :=
    List.mem_filterMap.mpr ⟨a, ha, by simp [hp]⟩
  exact of_decide_eq_true (List.all_eq_true.mp hall _ hmem)

lemma settleTask_ok {A : Type} {argument : Except Escape A} {json : A → Option Json}
    {outcome : A → Outcome} : (∃ r, x.settleTask c now argument json outcome = .ok r) ↔
      x.inTransaction = true ∧ x.aborted = false ∧ x.stored = true ∧
        ∃ a, argument = .ok a ∧ (json a).all c.jsonb = true := by
  rw [TaskExecution.settleTask]
  simp only [bind_eq_ok, requireTransaction_ok, fetch_ok]
  constructor
  · rintro ⟨r, _, ht, locked, ⟨ha, -, rfl⟩, h⟩
    by_cases hs : x.stored = true
    · rw [if_pos hs] at h
      obtain ⟨a, harg, h⟩ := bind_eq_ok.mp h
      obtain ⟨db, hfetch, -⟩ := bind_eq_ok.mp h
      exact ⟨ht, ha, hs, a, harg, (fetch_ok.mp hfetch).2.1⟩
    · rw [if_neg hs] at h
      cases h
  · rintro ⟨ht, ha, hs, a, harg, hj⟩
    obtain ⟨hp, hstored⟩ := stored_iff.mp hs
    obtain ⟨db, hdb⟩ : ∃ db, Workflow.settlePromise x.db x.task.id (outcome a) now = some db :=
      settlePromise_some hp hstored (outcome a)
    refine ⟨(db, a), (), ht, true, ⟨ha, rfl, hs.symm⟩, ?_⟩
    rw [if_pos rfl]
    refine bind_eq_ok.mpr ⟨a, harg, bind_eq_ok.mpr ⟨some db, fetch_ok.mpr ⟨ha, hj, hdb.symm⟩, rfl⟩⟩

def Ends (r : Except Escape TaskExecution) : Prop := ∃ x' outcome, r = .ok x' ∧ x'.recorded = [outcome]

lemma settleTask_ends {A : Type} {argument : Except Escape A} {json : A → Option Json}
    {outcome : A → Outcome} (record : A → Recorded) :
    Ends (do
      x.ensureOpen
      let (db, a) ← x.settleTask c now argument json outcome
      return x.finish db (record a)) ↔
    Usable x ∧ x.stored = true ∧ ∃ a, argument = .ok a ∧ (json a).all c.jsonb = true := by
  rw [Ends]
  constructor
  · rintro ⟨x', outcome, h, -⟩
    obtain ⟨_, hopen, h⟩ := bind_eq_ok.mp h
    obtain ⟨r, hr, -⟩ := bind_eq_ok.mp h
    obtain ⟨ht, ha, hs, hargument⟩ := settleTask_ok.mp ⟨r, hr⟩
    exact ⟨⟨ensureOpen_ok.mp hopen, ht, ha⟩, hs, hargument⟩
  · rintro ⟨hu, hs, hargument⟩
    obtain ⟨⟨db, a⟩, hr⟩ := settleTask_ok.mpr ⟨hu.inTransaction, hu.aborted, hs, hargument⟩
    refine ⟨x.finish db (record a), record a, bind_eq_ok.mpr ⟨(), ensureOpen_ok.mpr hu.recorded,
      bind_eq_ok.mpr ⟨(db, a), hr, rfl⟩⟩, ?_⟩
    rw [TaskExecution.finish, hu.recorded]
    rfl

lemma encodeResult_ok {read : JsonValue} :
    (∃ a, c.encodeResult read = .ok a ∧ (id a : Option Json).all c.jsonb = true) ↔
      read = .null ∨ c.Stores read := by
  have hencode : ∀ {value : JsonValue}, (∃ a, (c.encode value).map some = Except.ok a ∧
      (id a : Option Json).all c.jsonb = true) ↔ c.Stores value := by
    intro value
    constructor
    · rintro ⟨a, ha, hok⟩
      cases he : c.encode value with
      | error e =>
        rw [he] at ha
        cases ha
      | ok j =>
        rw [he] at ha
        cases ha
        exact ⟨j, encode_ok.mp he, hok⟩
    · rintro ⟨j, hj, hok⟩
      exact ⟨some j, by rw [encode_ok.mpr hj]; rfl, hok⟩
  cases read with
  | null => exact ⟨fun _ => Or.inl rfl, fun _ => ⟨none, rfl, rfl⟩⟩
  | bool | number | string | array | object => exact hencode.trans (or_iff_right nofun).symm

lemma complete_ends {read : JsonValue} : Ends (x.complete c now read) ↔
    Usable x ∧ x.stored = true ∧ (read = .null ∨ c.Stores read) := by
  rw [← encodeResult_ok]
  exact settleTask_ends .completed

lemma reject_ends {error : Error} : Ends (x.reject c now error) ↔
    Usable x ∧ x.stored = true ∧ c.Stores error.modelDump := by
  refine (settleTask_ends .rejected).trans (and_congr_right fun _ => and_congr_right fun _ => ?_)
  simp only [encode_ok, Option.all_some, Codec.Stores]

lemma retry_ends {error : Error} : Ends ((x.retry c now error).map Prod.fst) ↔
    Usable x ∧ x.stored = true ∧ c.Stores error.modelDump := by
  rw [stored_iff]
  constructor
  · rintro ⟨x', outcome, h, -⟩
    cases hr : x.retry c now error with
    | error e =>
      rw [hr] at h
      cases h
    | ok r =>
      rw [TaskExecution.retry] at hr
      obtain ⟨_, hopen, hr⟩ := bind_eq_ok.mp hr
      obtain ⟨_, ht, hr⟩ := bind_eq_ok.mp hr
      obtain ⟨j, hj, hr⟩ := bind_eq_ok.mp hr
      obtain ⟨rows, hrows, hr⟩ := bind_eq_ok.mp hr
      obtain ⟨ha, hok, rfl⟩ := fetch_ok.mp hrows
      refine ⟨⟨ensureOpen_ok.mp hopen, requireTransaction_ok.mp ht, ha⟩, ?_, j, encode_ok.mp hj, hok⟩
      split at hr
      · cases hr
      · next db hdb => exact retryTask_stored hdb
  · rintro ⟨hu, ⟨hp, ht⟩, j, hj, hok⟩
    obtain ⟨db, hdb⟩ : ∃ db, Workflow.retryTask x.db x.task.id j now = some db :=
      retryTask_some hp ht j
    have hr : x.retry c now error = .ok (x.finish db (.retried j),
        (x.db.tasks.get x.task.id).any fun t => t.maxFailures ≤ t.failures + 1) :=
      bind_eq_ok.mpr ⟨(), ensureOpen_ok.mpr hu.recorded, bind_eq_ok.mpr ⟨(),
        requireTransaction_ok.mpr hu.inTransaction, bind_eq_ok.mpr ⟨j, encode_ok.mpr hj,
        bind_eq_ok.mpr ⟨some db, fetch_ok.mpr ⟨hu.aborted, hok, hdb.symm⟩, rfl⟩⟩⟩⟩
    refine ⟨x.finish db (.retried j), .retried j, by rw [hr]; rfl, ?_⟩
    rw [TaskExecution.finish, hu.recorded]
    rfl

lemma suspend_ends {awaited : List Id} : Ends (x.suspend c now awaited) ↔
    Usable x ∧ awaited.Nodup ∧ Awaitable x.db x.task.id awaited := by
  constructor
  · rintro ⟨x', outcome, h, -⟩
    rw [TaskExecution.suspend] at h
    obtain ⟨_, hopen, h⟩ := bind_eq_ok.mp h
    by_cases hids : awaited = [] ∨ 1024 < awaited.length ∨ x.task.id ∈ awaited ∨ ¬ awaited.Nodup
    · rw [if_pos hids] at h
      cases h
    · rw [if_neg hids] at h
      obtain ⟨_, ht, h⟩ := bind_eq_ok.mp h
      obtain ⟨waiter, hrows, h⟩ := bind_eq_ok.mp h
      cases hs : Workflow.suspendTask x.db x.task.id awaited now with
      | none =>
        rw [hs] at h
        split_ifs at h
      | some db =>
        simp only [not_or, not_lt, not_not] at hids
        exact ⟨⟨ensureOpen_ok.mp hopen, requireTransaction_ok.mp ht, (fetch_ok.mp hrows).1⟩,
          hids.2.2.2, suspendTask_awaitable hids.2.1 hs⟩
  · rintro ⟨hu, hn, ha⟩
    obtain ⟨db, hdb⟩ : ∃ db, Workflow.suspendTask x.db x.task.id awaited now = some db :=
      suspendTask_some hn ha
    obtain ⟨w, hw, hall⟩ := ha.graph
    have hids : ¬ (awaited = [] ∨ 1024 < awaited.length ∨ x.task.id ∈ awaited ∨ ¬ awaited.Nodup) := by
      simp [ha.nonempty, ha.bounded, ha.other, hn]
    have hpresent : ¬ ∃ a ∈ awaited, x.db.promises.get a = none := by
      rintro ⟨a, hmem, hnone⟩
      obtain ⟨p, hp, -⟩ := hall a hmem
      cases hnone.symm.trans hp
    refine ⟨x.finish db (.suspended awaited), .suspended awaited, ?_, ?_⟩
    · have hwaiter : x.db.tasks.get x.task.id ≠ none ∧ x.db.promises.get x.task.id ≠ none :=
        ⟨ha.waiter, by simp [hw]⟩
      rw [TaskExecution.suspend, if_neg hids, hdb, if_neg hpresent, decide_eq_true hwaiter]
      refine bind_eq_ok.mpr ⟨(), ensureOpen_ok.mpr hu.recorded, bind_eq_ok.mpr ⟨(),
        requireTransaction_ok.mpr hu.inTransaction, bind_eq_ok.mpr ⟨true,
        fetch_ok.mpr ⟨hu.aborted, rfl, rfl⟩, rfl⟩⟩⟩
    · rw [TaskExecution.finish, hu.recorded]
      rfl

def Recordable (c : Codec) (x : TaskExecution) : Result → Prop
  | .resolved read => x.stored = true ∧ (read = .null ∨ c.Stores read)
  | .rejected error | .retry error => x.stored = true ∧ c.Stores error.modelDump
  | .suspended awaited => awaited.Nodup ∧ Awaitable x.db x.task.id awaited

lemma settleExecution_ends {result : Result} :
    Ends ((settleExecution c now x result).map Prod.snd) ↔ Usable x ∧ Recordable c x result := by
  have hmap : ∀ (state : ResultState) (r : Except Escape TaskExecution),
      (do return (state, ← r) : Except Escape (ResultState × TaskExecution)).map Prod.snd = r := by
    intro state r
    cases r <;> rfl
  cases result with
  | resolved read =>
    rw [settleExecution, hmap]
    exact complete_ends
  | rejected error =>
    rw [settleExecution, hmap]
    exact reject_ends
  | suspended awaited =>
    rw [settleExecution, hmap]
    exact suspend_ends
  | retry error =>
    have hretry : (settleExecution c now x (.retry error)).map Prod.snd =
        (x.retry c now error).map Prod.fst := by
      rw [settleExecution]
      cases x.retry c now error <;> rfl
    rw [hretry]
    exact retry_ends

lemma fromException_ok {e : Raised} {error : Error} :
    e.fromException = .ok error ↔ e.error = some error := by
  rw [Raised.fromException]
  split
  · next d hd => simp [hd]
  · next hd => simp [hd]

lemma fault_settles {dumpJson : V → Option String} {e : Raised} {result : Error → Result}
    (hresult : ∀ error, Recordable c x (result error) ↔ x.stored = true ∧ c.Stores error.modelDump)
    (ht : e.isTimeout = false) (hk : e.isRetryable = true ∨ e.suspend = none) :
    (∃ r, (do return result (← e.fromException) : Except Escape Result) = .ok r ∧
      Recordable c x r) ↔ Settles c dumpJson x (.error e) := by
  constructor
  · rintro ⟨r, hr, hrec⟩
    obtain ⟨error, he, hr⟩ := bind_eq_ok.mp hr
    cases hr
    obtain ⟨hs, hc⟩ := (hresult error).mp hrec
    exact .fault ht hk (fromException_ok.mp he) hc hs
  · intro h
    cases h with
    | timeout ht' => cases ht.symm.trans ht'
    | fault _ _ he hc hs =>
      exact ⟨_, bind_eq_ok.mpr ⟨_, fromException_ok.mpr he, rfl⟩, (hresult _).mpr ⟨hs, hc⟩⟩
    | suspend _ hk' he => simp [hk', he] at hk

lemma raised_settles {dumpJson : V → Option String} {e : Raised} (hc : e.isCancelled = false) :
    (∃ result, execute c dumpJson (.error e) = .ok result ∧ Recordable c x result) ↔
      Settles c dumpJson x (.error e) := by
  rw [execute]
  by_cases ht : e.isTimeout = true
  · rw [if_pos ht]
    have htimeout : c.Stores timeoutError.modelDump := c.own_errors _ (by simp)
    constructor
    · rintro ⟨result, hr, hrec⟩
      cases hr
      exact .timeout ht hrec.1
    · intro h
      refine ⟨_, rfl, ?_, htimeout⟩
      cases h with
      | timeout _ hs | fault _ _ _ _ hs => exact hs
      | suspend hf => cases ht.symm.trans hf
  · rw [if_neg ht, if_neg (by simp [hc])]
    rw [Bool.not_eq_true] at ht
    by_cases hr : e.isRetryable = true
    · rw [if_pos hr]
      exact fault_settles (fun _ => Iff.rfl) ht (Or.inl hr)
    · rw [if_neg hr]
      cases hs : e.suspend with
      | none => exact fault_settles (fun _ => Iff.rfl) ht (Or.inr hs)
      | some s =>
        constructor
        · rintro ⟨result, hres, hrec⟩
          cases hres
          exact .suspend ht (Bool.eq_false_iff.mpr hr) hs hrec.2
        · intro h
          cases h with
          | timeout ht' => cases ht.symm.trans ht'
          | fault _ hk => simp [hr, hs] at hk
          | suspend _ _ he ha =>
            cases hs.symm.trans he
            exact ⟨_, rfl, s.unique, ha⟩

lemma returned_settles {dumpJson : V → Option String} {value : V} :
    (∃ result, execute c dumpJson (.ok value) = .ok result ∧ Recordable c x result) ↔
      Settles c dumpJson x (.ok value) := by
  have hlimit : c.Stores resourceLimitError.modelDump := c.own_errors _ (by simp)
  rw [execute]
  cases hd : dumpJson value with
  | none =>
    refine ⟨fun ⟨_, h, _⟩ => (by cases h), fun h => ?_⟩
    cases h with
    | large hd' | value hd' => cases hd.symm.trans hd'
  | some encoded =>
    dsimp only
    by_cases hl : Workflow.maxPromiseBytes < encoded.utf8ByteSize
    · rw [if_pos hl]
      constructor
      · rintro ⟨result, hr, hrec⟩
        cases hr
        exact .large hd hl hrec.1
      · intro h
        refine ⟨_, rfl, ?_, hlimit⟩
        cases h with
        | large _ _ hs => exact hs
        | value _ _ _ _ hs => exact hs
    · rw [if_neg hl]
      cases hv : c.validateJson encoded with
      | none =>
        refine ⟨fun ⟨_, h, _⟩ => (by cases h), fun h => ?_⟩
        cases h with
        | large hd' hl' =>
          cases hd.symm.trans hd'
          exact absurd hl' hl
        | value hd' _ hv' =>
          cases hd.symm.trans hd'
          cases hv.symm.trans hv'
      | some read =>
        constructor
        · rintro ⟨result, hr, hrec⟩
          cases hr
          exact .value hd (Nat.le_of_not_lt hl) hv hrec.2 hrec.1
        · intro h
          cases h with
          | large hd' hl' =>
            cases hd.symm.trans hd'
            exact absurd hl' hl
          | value hd' _ hv' hc hs =>
            cases hd.symm.trans hd'
            cases hv.symm.trans hv'
            exact ⟨_, rfl, hs, hc⟩

lemma execute_settles {dumpJson : V → Option String} {item : Except Raised V}
    (hc : ∀ e, item = .error e → e.isCancelled = false) :
    (∃ result, execute c dumpJson item = .ok result ∧ Recordable c x result) ↔
      Settles c dumpJson x item := by
  cases item with
  | error e => exact raised_settles (hc e rfl)
  | ok value => exact returned_settles

end Spec

section Samples

def encodeText (s : Text) : Option String :=
  if s.all fun n => n.isValidChar then some (Workflow.quote (String.ofList (s.map Char.ofNat))) else none

def sampleEncode : JsonValue → Option Json
  | .string s => (encodeText s).map Json.mk
  | .object [(type, .string t), (text, .string s)] => do
    let fields ← [type, t, text, s].mapM encodeText
    match fields with
    | [type, t, text, s] => some ⟨"\x7b" ++ type ++ ":" ++ t ++ "," ++ text ++ ":" ++ s ++ "\x7d"⟩
    | _ => none
  | _ => none

def sampleCodec : Codec where
  validateJson encoded := if encoded = "\"ok\"" then some (.string (text "ok")) else none
  encodeJson := sampleEncode
  jsonb j := !escapedNul j.text.toList
  jsonb_nul j h := by simp [h]
  own_errors e he := by
    obtain rfl | rfl : e = timeoutError ∨ e = resourceLimitError := by simpa using he
    · exact ⟨_, rfl, by decide +kernel⟩
    · exact ⟨_, rfl, by decide +kernel⟩

def claimedRoot : TaskExecution where
  task := {
    id := "root"
    rootId := none
    function := "jobs.report"
    version := 1
    topic := "default"
    input := ⟨"\x7b\x7d"⟩
    depth := 0
    maxFailures := 1
    executionTimeoutMs := 1000
    waits := [] }
  db := {
    promises := Dict.empty.set "root"
      { idempotencyKey := "", place := .root 2, deadline := .expiresAt 1 }
    tasks := Dict.empty.set "root" {
      function := "jobs.report"
      version := 1
      topic := "default"
      input := ⟨"\x7b\x7d"⟩
      depth := 0
      priority := 0
      availableAt := 0
      maxFailures := 1
      executionTimeoutMs := 1000
      failures_lt := Nat.one_pos } }

def ending (item : Except Raised (Option String)) : String → Option (DurableFunction (Option String)) :=
  fun _ => some {
    version := 1
    dumpJson := Option.map Workflow.quote
    callOnce := fun _ x => (item, x) }

end Samples

end Reaper.Worker.Claimed
