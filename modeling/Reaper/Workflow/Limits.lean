import Reaper.Workflow.Reads
import Reaper.Workflow.Attempts

/-! The limits of a durable call: those of the decorator and of invoke, those of the request, and those of the
columns that store it. -/

namespace Reaper.Workflow.Limits

open Reaper.Store Reaper.Library

inductive PyFloat
  | nan
  | infinite (negative : Bool)
  | finite (q : ℚ)
  deriving DecidableEq

inductive PyObject
  | bool (b : Bool)
  | int (n : ℤ)
  | float (x : PyFloat)
  | str (s : String)
  | other
  deriving DecidableEq

def typeError (text : String) : Error := ⟨"builtins.TypeError", text⟩
def overflowError (text : String) : Error := ⟨"builtins.OverflowError", text⟩

namespace PyFloat

def maxDouble : ℚ := (2 ^ 53 - 1) * 2 ^ 971

def le : PyFloat → ℚ → Bool
  | nan, _ => false
  | infinite negative, _ => negative
  | finite r, q => r ≤ q

def gt : PyFloat → ℚ → Bool
  | nan, _ => false
  | infinite negative, _ => !negative
  | finite r, q => q < r

def thousandfold : PyFloat → PyFloat
  | nan => nan
  | infinite negative => infinite negative
  | finite q =>
    let product := double (q * 1000)
    if maxDouble < |product| then infinite (product < 0) else finite product

def round : PyFloat → Except Error ℤ
  | nan => .error (valueError "cannot convert float NaN to integer")
  | infinite _ => .error (overflowError "cannot convert float infinity to integer")
  | finite q => .ok (roundEven q)

/-- timedelta(seconds=x), which rounds the part of a second. -/
def timedelta : PyFloat → Except Error Time
  | nan => .error (valueError "cannot convert float NaN to integer")
  | infinite _ => .error (overflowError "cannot convert float infinity to integer")
  | finite q => .ok (⌊q⌋ * 10 ^ 6 + roundEven (double ((q - ⌊q⌋) * 10 ^ 6)))

end PyFloat

namespace PyObject

/-- isinstance(x, int), which a bool is too. -/
def asInt : PyObject → Option ℤ
  | int n => some n
  | bool b => some (if b then 1 else 0)
  | _ => none

def strictInt : PyObject → Option ℤ
  | int n => some n
  | _ => none

def strictStr : PyObject → Option String
  | str s => some s
  | _ => none

lemma strictInt_eq {x : PyObject} {n : ℤ} : x.strictInt = some n ↔ x = .int n := by
  cases x <;> simp [strictInt]

lemma strictStr_eq {x : PyObject} {s : String} : x.strictStr = some s ↔ x = .str s := by
  cases x <;> simp [strictStr]

end PyObject

def maxPromiseDuration : ℚ := 365 * 24 * 60 * 60
def maxAttempts : ℤ := 100
def maxPromiseLifetimeMs : ℤ := 365 * 24 * 60 * 60 * 1000
def maxIdBytes : ℕ := 1024
def maxFunctionBytes : ℕ := 1024
def maxTopicBytes : ℕ := 255
def maxDepth : ℕ := 256

structure PyFunction where
  coroutine : Bool := true
  /-- the name of its spec, for a module that is run as __main__ -/
  module : String
  qualname : String
  firstParameter : Option String := none
  returnType : Bool := true
  refused : Option Error := none

def functionName (fn : PyFunction) : String := fn.module ++ "." ++ fn.qualname

structure DurableFunction where
  name : String
  executionTimeout : PyFloat
  promiseDuration : PyFloat
  topic : PyObject
  version : PyObject
  maxAttempts : PyObject

def DurableFunction.inspect (fn : PyFunction) (f : DurableFunction) : Except Error DurableFunction :=
  if fn.firstParameter = some "self" ∨ fn.firstParameter = some "cls" then
    .error (typeError "durable requires an importable function, not a bound method")
  else if '.' ∈ fn.qualname.toList then
    .error (typeError "durable requires a module-level importable function")
  else if !fn.returnType then .error (typeError (f.name ++ " needs a return type"))
  else match fn.refused with
    | some e => .error e
    | none => .ok f

def DurableFunction.init (fn : PyFunction) (executionTimeout promiseDuration topic version attempts : PyObject) :
    Except Error DurableFunction :=
  if !fn.coroutine then .error (typeError "durable needs an async def")
  else match executionTimeout with
  | .float timeout =>
    if timeout.le 0 then .error (valueError "execution_timeout must be more than zero")
    else match promiseDuration with
    | .float duration =>
      if duration.le 0 then .error (valueError "promise_duration must be more than zero")
      else if duration.gt maxPromiseDuration then
        .error (valueError "promise_duration cannot exceed one year")
      else match attempts.asInt with
        | none => .error (typeError "max_attempts must be an int")
        | some n =>
          if n ≤ 0 ∨ Limits.maxAttempts < n then .error (valueError "max_attempts must be from 1 through 100")
          else inspect fn
            { name := functionName fn
              executionTimeout := timeout
              promiseDuration := duration
              topic := topic
              version := version
              maxAttempts := attempts }
    | _ => .error (typeError "promise_duration must be a float")
  | _ => .error (typeError "execution_timeout must be a float")

def Sized (n : ℕ) (s : String) : Prop := 1 ≤ s.length ∧ s.length ≤ n

instance (n : ℕ) (s : String) : Decidable (Sized n s) := inferInstanceAs (Decidable (_ ∧ _))

structure CallFields where
  id : String
  function : String
  input : Json
  topic : String
  version : ℤ
  depth : ℤ
  priority : ℤ := 0
  availableAt : Datetime
  executionTimeoutMs : ℤ
  expiresAt : Datetime
  retentionMs : ℤ
  maxFailures : ℤ
  rootId : Option String

/-- The constraints of SubmitCall, whose lengths are in characters. -/
structure CallFields.Valid (c : CallFields) : Prop where
  id : Sized maxIdBytes c.id
  function : Sized maxFunctionBytes c.function
  topic : Sized maxTopicBytes c.topic
  version : 0 < c.version
  depth : 0 ≤ c.depth ∧ c.depth ≤ maxDepth
  priority : -32768 ≤ c.priority ∧ c.priority ≤ 32767
  executionTimeoutMs : 1 ≤ c.executionTimeoutMs ∧ c.executionTimeoutMs ≤ 86400000
  retentionMs : 60000 ≤ c.retentionMs ∧ c.retentionMs ≤ maxPromiseLifetimeMs
  maxFailures : 1 ≤ c.maxFailures ∧ c.maxFailures ≤ 100
  rootId : ∀ root ∈ c.rootId, Sized maxIdBytes root
  root_ne : c.rootId ≠ some c.id

instance (c : CallFields) : Decidable c.Valid :=
  decidable_of_iff
    (Sized maxIdBytes c.id ∧ Sized maxFunctionBytes c.function ∧ Sized maxTopicBytes c.topic ∧ 0 < c.version ∧
      (0 ≤ c.depth ∧ c.depth ≤ maxDepth) ∧ (-32768 ≤ c.priority ∧ c.priority ≤ 32767) ∧
      (1 ≤ c.executionTimeoutMs ∧ c.executionTimeoutMs ≤ 86400000) ∧
      (60000 ≤ c.retentionMs ∧ c.retentionMs ≤ maxPromiseLifetimeMs) ∧
      (1 ≤ c.maxFailures ∧ c.maxFailures ≤ 100) ∧ (∀ root ∈ c.rootId, Sized maxIdBytes root) ∧
      c.rootId ≠ some c.id)
    ⟨fun ⟨h₁, h₂, h₃, h₄, h₅, h₆, h₇, h₈, h₉, h₁₀, h₁₁⟩ => ⟨h₁, h₂, h₃, h₄, h₅, h₆, h₇, h₈, h₉, h₁₀, h₁₁⟩,
      fun ⟨h₁, h₂, h₃, h₄, h₅, h₆, h₇, h₈, h₉, h₁₀, h₁₁⟩ => ⟨h₁, h₂, h₃, h₄, h₅, h₆, h₇, h₈, h₉, h₁₀, h₁₁⟩⟩

abbrev SubmitCall := { c : CallFields // c.Valid }

def submitCall (c : CallFields) : Option SubmitCall := if h : c.Valid then some ⟨c, h⟩ else none

def hex (bytes : List UInt8) : String :=
  String.ofList (bytes.flatMap fun b => [Nat.digitChar (b.toNat / 16), Nat.digitChar (b.toNat % 16)])

abbrev Retention := { ms : ℤ // 60000 ≤ ms ∧ ms ≤ maxPromiseLifetimeMs }

structure Caller where
  context : Option Context := none
  rootId : String := ""
  uuid : Vector UInt8 16
  now : Datetime
  retention : Retention

inductive Refusal
  | raised (error : Error)
  | invalid

def Caller.depth (c : Caller) : ℕ :=
  match c.context with
  | some x => x.depth + 1
  | none => 0

def Caller.promiseId (c : Caller) (name : String) : Except Error (Id × Option Context) :=
  match c.context with
  | some x => (x.nextId name).map fun r => (r.1, some r.2)
  | none => .ok (if c.rootId = "" then hex c.uuid.toList else c.rootId, none)

def expiry (now : Datetime) (duration : Time) : Except Error Datetime :=
  if h : datetimeMin ≤ now.1 + duration ∧ now.1 + duration ≤ datetimeMax then .ok ⟨now.1 + duration, h⟩
  else .error (overflowError "date value out of range")

namespace DurableFunction

def request (f : DurableFunction) (c : Caller) (input : Json) (id : Id) (rootId : Option String) :
    Except Refusal SubmitCall :=
  match f.executionTimeout.thousandfold.round, f.promiseDuration.timedelta.bind (expiry c.now) with
  | .error e, _ => .error (.raised e)
  | _, .error e => .error (.raised e)
  | .ok timeout, .ok expiresAt =>
    match f.topic.strictStr, f.version.strictInt, f.maxAttempts.strictInt with
    | some topic, some version, some attempts =>
      match submitCall
        { id := id
          function := f.name
          input := input
          topic := topic
          version := version
          depth := c.depth
          availableAt := c.now
          executionTimeoutMs := timeout
          expiresAt := expiresAt
          retentionMs := c.retention.1
          maxFailures := attempts
          rootId := rootId } with
      | some call => .ok call
      | none => .error .invalid
    | _, _, _ => .error .invalid

/-- DurableFunction.invoke up to its submission, which a promise of the memo does not need. -/
def invoke (f : DurableFunction) (c : Caller) (input : Json) : Except Refusal (Option SubmitCall) :=
  if maxPromiseBytes < jsonSize input then .error (.raised (valueError "promise input is too large"))
  else if maxPromiseDepth < c.depth then .error (.raised (runtimeError "promise ancestry is too deep"))
  else match c.promiseId f.name with
    | .error e => .error (.raised e)
    | .ok (id, x) =>
      if (x.bind fun x => x.find id).isSome then .ok none
      else (f.request c input id (c.context.map Context.rootId)).map some

end DurableFunction

namespace CallFields

def row (sha256 : CallFields → Vector UInt8 32) (c : CallFields) : RequestRow where
  id := c.id
  idempotencyKey := hex (sha256 c).toList
  rootId := c.rootId
  expiresAt := c.expiresAt.1
  retentionMs := c.retentionMs
  function := c.function
  version := c.version
  topic := c.topic
  input := c.input
  depth := c.depth
  priority := c.priority
  availableAt := c.availableAt.1
  maxFailures := c.maxFailures
  executionTimeoutMs := c.executionTimeoutMs

/-- The statement reads the request, and its two rows are in the ranges of their columns and pass the CHECK
constraints. -/
def Fits (jsonb : Json → Bool) (sha256 : CallFields → Vector UInt8 32) (c : CallFields) : Prop :=
  (c.row sha256).Reads jsonb ∧ (c.row sha256).promise.Fits ∧ (c.row sha256).task.Fits jsonb

structure Clean (c : CallFields) : Prop where
  id : Storable c.id
  function : Storable c.function
  topic : Storable c.topic
  rootId : ∀ root ∈ c.rootId, Storable root

structure InRoom (jsonb : Json → Bool) (c : CallFields) : Prop where
  id : c.id.utf8ByteSize ≤ 1024
  function : c.function.utf8ByteSize ≤ 1024
  topic : c.topic.utf8ByteSize ≤ 255
  version : c.version < 2 ^ 31
  retentionMs : c.retentionMs < 2 ^ 31
  input : jsonb c.input

end CallFields

section Columns

variable {jsonb : Json → Bool} {sha256 : CallFields → Vector UInt8 32} {c : CallFields}

lemma isHexDigit_digitChar {n : ℕ} (h : n < 16) : isHexDigit (Nat.digitChar n) = true := by
  revert n
  decide

lemma hex_toList (bytes : List UInt8) : (hex bytes).toList.length = 2 * bytes.length ∧
    (hex bytes).toList.all isHexDigit = true := by
  rw [hex, String.toList_ofList]
  induction bytes with
  | nil => exact ⟨rfl, rfl⟩
  | cons b bytes ih =>
    have hb := b.toNat_lt
    rw [List.flatMap_cons, List.length_append, ih.1, List.all_append, ih.2]
    refine ⟨by simp; omega, ?_⟩
    simp only [List.all_cons, List.all_nil, Bool.and_true, Bool.and_eq_true]
    exact ⟨isHexDigit_digitChar (by omega), isHexDigit_digitChar (Nat.mod_lt _ (by norm_num))⟩

lemma Sized.ne_empty {n : ℕ} {s : String} (h : Sized n s) : s ≠ "" := by
  rintro rfl
  exact absurd h.1 (by decide)

lemma storable_hex (bytes : List UInt8) : Storable (hex bytes) := by
  intro h
  have hdigit := List.all_eq_true.mp (hex_toList bytes).2 _ h
  revert hdigit
  decide

lemma timestamp_of_datetime (t : Datetime) : Timestamp t.1 := by
  obtain ⟨hlow, hhigh⟩ := t.2
  simp only [datetimeMin, datetimeMax] at hlow hhigh
  exact ⟨by linarith, by linarith⟩

lemma integer_of_bounds {n m : ℤ} (hlow : 0 ≤ n) (hhigh : n ≤ m) (hm : m < 2 ^ 31) : Integer n :=
  ⟨by omega, by omega⟩

lemma integer_zero : Integer 0 := by decide

lemma row_reads (hv : c.Valid) (hc : c.Clean) : (c.row sha256).Reads jsonb ↔
    jsonb c.input ∧ c.version < 2 ^ 31 ∧ c.retentionMs < 2 ^ 31 := by
  refine ⟨fun h => ⟨h.input, h.integer.2.1.2, h.integer.1.2⟩, fun ⟨hinput, hversion, hretention⟩ => ?_⟩
  have hpos := hv.version
  have hminute := hv.retentionMs.1
  have hdepth := hv.depth
  have hpriority := hv.priority
  have hlimit : ((maxDepth : ℕ) : ℤ) = 256 := rfl
  have hattempts := hv.maxFailures
  have htimeout := hv.executionTimeoutMs
  exact
    { text := ⟨hc.id, storable_hex _, hc.rootId, hc.function, hc.topic⟩
      input := hinput
      smallint := by
        simp only [Smallint, CallFields.row]
        omega
      integer := ⟨⟨by simp only [CallFields.row]; omega, hretention⟩,
        ⟨by simp only [CallFields.row]; omega, hversion⟩,
        integer_of_bounds (by simp only [CallFields.row]; omega) hattempts.2 (by norm_num),
        integer_of_bounds (by simp only [CallFields.row]; omega) htimeout.2 (by norm_num)⟩
      time := ⟨timestamp_of_datetime _, timestamp_of_datetime _⟩ }

lemma promise_fits (hv : c.Valid) (hc : c.Clean) :
    (c.row sha256).promise.Fits ↔ c.id.utf8ByteSize ≤ 1024 := by
  refine ⟨fun h => h.id.2, fun h => ?_⟩
  have hlater : 0 < c.retentionMs * millisecond := by
    have := hv.retentionMs.1
    rw [millisecond_eq]
    omega
  have hdelete : Timestamp (c.expiresAt.1 + c.retentionMs * millisecond) := by
    obtain ⟨hlow, hhigh⟩ := c.expiresAt.2
    have hmax := hv.retentionMs.2
    simp only [datetimeMin, datetimeMax, maxPromiseLifetimeMs, millisecond_eq] at hlow hhigh hmax hlater ⊢
    exact ⟨by linarith, by linarith⟩
  refine
    { text := ⟨hc.id, storable_hex _, hc.rootId⟩
      times := ?_
      key := by
        obtain ⟨hlength, hall⟩ := hex_toList (sha256 c).toList
        exact ⟨by rw [RequestRow.promise, CallFields.row, hlength, Vector.length_toList], hall⟩
      id := ⟨hv.id.ne_empty, h⟩
      root_ne := fun root hroot heq => hv.root_ne (hroot.trans (congrArg some heq))
      deadline := Or.inr ⟨rfl, rfl⟩
      outcome := Or.inl ⟨rfl, rfl, rfl, rfl⟩
      deletion := ?_ }
  · intro column hcolumn t ht
    simp only [List.mem_cons, List.not_mem_nil, or_false] at hcolumn
    obtain rfl | rfl | rfl | rfl := hcolumn
    · cases ht
    · cases ht
      exact timestamp_of_datetime _
    · by_cases hroot : (c.row sha256).rootId = none
      · rw [RequestRow.deleteAfter_root hroot] at ht
        cases ht
        exact hdelete
      · rw [RequestRow.deleteAfter_child hroot] at ht
        cases ht
    · cases ht
  · by_cases hroot : (c.row sha256).rootId = none
    · refine Or.inl ⟨hroot, fun d hd t ht => ?_⟩
      rw [RequestRow.deleteAfter_root hroot] at hd
      cases hd
      cases ht
      exact lt_add_of_pos_right _ hlater
    · exact Or.inr ⟨Option.isSome_iff_ne_none.mpr hroot, RequestRow.deleteAfter_child hroot⟩

lemma task_fits (hv : c.Valid) (hc : c.Clean) (hr : (c.row sha256).Reads jsonb) :
    (c.row sha256).task.Fits jsonb ↔ c.function.utf8ByteSize ≤ 1024 ∧ c.topic.utf8ByteSize ≤ 255 := by
  refine ⟨fun h => ⟨h.function.2, h.topic.2⟩, fun ⟨hfunction, htopic⟩ => ?_⟩
  obtain ⟨-, hversion, hattempts, htimeout⟩ := hr.integer
  exact
    { text := ⟨hc.id, hc.function, hc.topic⟩
      input := hr.input
      smallint := hr.smallint
      integer := ⟨hversion, integer_zero, integer_zero, hattempts, htimeout⟩
      time := timestamp_of_datetime _
      version := hv.version
      depth := hv.depth
      pendingWaits := le_rfl
      failures := le_rfl
      maxFailures := hv.maxFailures
      executionTimeoutMs := hv.executionTimeoutMs
      function := ⟨hv.function.ne_empty, hfunction⟩
      topic := ⟨hv.topic.ne_empty, htopic⟩
      failures_lt := lt_of_lt_of_le Int.zero_lt_one hv.maxFailures.1 }

lemma fits_iff (hv : c.Valid) (hc : c.Clean) : c.Fits jsonb sha256 ↔ c.InRoom jsonb := by
  rw [CallFields.Fits, promise_fits hv hc]
  constructor
  · rintro ⟨hreads, hid, htask⟩
    obtain ⟨hinput, hversion, hretention⟩ := (row_reads hv hc).mp hreads
    obtain ⟨hfunction, htopic⟩ := (task_fits hv hc hreads).mp htask
    exact ⟨hid, hfunction, htopic, hversion, hretention, hinput⟩
  · intro h
    have hreads : (c.row sha256).Reads jsonb :=
      (row_reads hv hc).mpr ⟨h.input, h.version, h.retentionMs⟩
    exact ⟨hreads, h.id, (task_fits hv hc hreads).mpr ⟨h.function, h.topic⟩⟩

end Columns

/-- What invoke itself checks, of a call whose promise is not in the memo. A root id is one that SubmitCall
accepts, and a claimed task has an id and a root id that its model accepts. -/
structure Accepts (f : DurableFunction) (c : Caller) (input : Json) : Prop where
  input : jsonSize input ≤ maxPromiseBytes
  depth : c.depth ≤ maxPromiseDepth
  index : ∀ x ∈ c.context, x.callIndex + 1 ≤ maxChildPromises
  rootId : c.context = none → c.rootId ≠ "" → Sized maxIdBytes c.rootId
  task : ∀ x ∈ c.context, Sized maxIdBytes x.taskId ∧ Sized maxIdBytes x.rootId
  fresh : ∀ id x, c.promiseId f.name = .ok (id, some x) → x.find id = none

structure Requestable (f : DurableFunction) (c : Caller) : Prop where
  executionTimeout : ∃ q, f.executionTimeout = .finite q ∧ 1 / 2 + 1 / 2 ^ 54 < q * 1000 ∧
    q * 1000 ≤ 86400000 + 1 / 2 + 1 / 2 ^ 27
  promiseDuration : ∃ q, f.promiseDuration = .finite q ∧
    c.now.1 + (⌊q⌋ * 10 ^ 6 + roundEven (double ((q - ⌊q⌋) * 10 ^ 6))) ≤ datetimeMax
  topic : ∃ topic, f.topic = .str topic ∧ Sized maxTopicBytes topic
  version : ∃ version, f.version = .int version ∧ 0 < version
  maxAttempts : ∃ attempts, f.maxAttempts = .int attempts
  name : f.name.length ≤ maxFunctionBytes
  child : ∀ x ∈ c.context,
    (x.taskId ++ ":" ++ toString (x.callIndex + 1) ++ ":" ++ f.name).length ≤ maxIdBytes ∧
      x.taskId ++ ":" ++ toString (x.callIndex + 1) ++ ":" ++ f.name ≠ x.rootId

section Requests

variable {fn : PyFunction} {executionTimeout promiseDuration topic version attempts : PyObject}
  {f : DurableFunction} {c : Caller} {input : Json} {x : ℚ}

lemma timeout_iff (hx : 0 < x) : (1 ≤ roundEven (double x) ∧ roundEven (double x) ≤ 86400000) ↔
    1 / 2 + 1 / 2 ^ 54 < x ∧ x ≤ 86400000 + 1 / 2 + 1 / 2 ^ 27 := by
  have hzero := roundEven_double_le_iff (m := 0) (k := 2 ^ 52) (e := -53) hx rfl rfl (by norm_num)
    (by norm_num) (by norm_num)
  have hday := roundEven_double_le_iff (m := 86400000) (k := 172800001 * 2 ^ 25) (e := -26) hx rfl rfl
    (by norm_num) (by norm_num) (by norm_num)
  rw [hday, ← not_lt, Int.lt_iff_add_one_le, add_le_iff_nonpos_left, hzero, not_le]
  norm_num
  constructor <;> rintro ⟨hlow, hhigh⟩ <;> constructor <;> linarith

structure Made (f : DurableFunction) : Prop where
  name : 1 ≤ f.name.length
  executionTimeout : f.executionTimeout.le 0 = false
  promiseDuration : f.promiseDuration.le 0 = false ∧ f.promiseDuration.gt maxPromiseDuration = false
  maxAttempts : ∃ n, f.maxAttempts.asInt = some n ∧ 1 ≤ n ∧ n ≤ 100

lemma inspect_eq {f g : DurableFunction} (h : DurableFunction.inspect fn f = .ok g) : g = f := by
  rw [DurableFunction.inspect] at h
  split_ifs at h
  split at h
  · cases h
  · cases h
    rfl

lemma init_made (h : DurableFunction.init fn executionTimeout promiseDuration topic version attempts = .ok f) :
    Made f := by
  rw [DurableFunction.init.eq_def] at h
  split_ifs at h with hcoroutine
  split at h
  · rename_i timeout
    split_ifs at h with htimeout
    split at h
    · rename_i duration
      split_ifs at h with hpositive hyear
      split at h
      · cases h
      · rename_i n hn
        split_ifs at h with hrange
        have heq := inspect_eq h
        subst heq
        rw [not_or, not_le, not_lt] at hrange
        exact
          { name := by
              simp only [functionName, String.length_append]
              have : ".".length = 1 := rfl
              omega
            executionTimeout := by simpa using htimeout
            promiseDuration := ⟨by simpa using hpositive, by simpa using hyear⟩
            maxAttempts := ⟨n, hn, by omega, hrange.2⟩ }
    · cases h
  · cases h

lemma timeout_ok_iff {t : PyFloat} (h : t.le 0 = false) :
    (∃ ms, t.thousandfold.round = .ok ms ∧ 1 ≤ ms ∧ ms ≤ 86400000) ↔
      ∃ q, t = .finite q ∧ 1 / 2 + 1 / 2 ^ 54 < q * 1000 ∧ q * 1000 ≤ 86400000 + 1 / 2 + 1 / 2 ^ 27 := by
  cases t with
  | nan => simp [PyFloat.thousandfold, PyFloat.round]
  | infinite negative => simp [PyFloat.thousandfold, PyFloat.round]
  | finite q =>
    have hq : 0 < q * 1000 := by
      rw [PyFloat.le, decide_eq_false_iff_not, not_le] at h
      linarith
    rw [PyFloat.thousandfold]
    simp only [PyFloat.finite.injEq, exists_eq_left', ← timeout_iff hq]
    split_ifs with hlarge
    · -- a product past the largest double is past a day too
      refine ⟨fun ⟨ms, hms, _⟩ => (by cases hms), fun ⟨_, hday⟩ => ?_⟩
      have hround := (abs_le.mp (abs_roundEven_sub_le (double (q * 1000)))).1
      have hle : ((roundEven (double (q * 1000)) : ℤ) : ℚ) ≤ 86400000 := by exact_mod_cast hday
      have hpos : 0 ≤ double (q * 1000) := (zpow_pos two_pos _).le.trans (zpow_log_le_double hq)
      have hmax : (2 : ℚ) ^ 53 - 1 ≤ PyFloat.maxDouble :=
        le_mul_of_one_le_right (by norm_num) (one_le_pow₀ (by norm_num))
      rw [abs_of_nonneg hpos] at hlarge
      linarith
    · exact ⟨fun ⟨ms, hms, hrange⟩ => (by cases hms; exact hrange), fun hrange => ⟨_, rfl, hrange⟩⟩

lemma expiry_ok_iff {d : PyFloat} (h : d.le 0 = false) (hyear : d.gt maxPromiseDuration = false)
    (now : Datetime) : (∃ t, d.timedelta.bind (expiry now) = .ok t) ↔
      ∃ q, d = .finite q ∧
        now.1 + (⌊q⌋ * 10 ^ 6 + roundEven (double ((q - ⌊q⌋) * 10 ^ 6))) ≤ datetimeMax := by
  cases d with
  | nan => simp [PyFloat.timedelta, Except.bind]
  | infinite negative => simp [PyFloat.timedelta, Except.bind]
  | finite q =>
    rw [PyFloat.le, decide_eq_false_iff_not, not_le] at h
    have hfloor : 0 ≤ ⌊q⌋ := Int.floor_nonneg.mpr h.le
    have hpart : 0 ≤ (q - ⌊q⌋) * 10 ^ 6 := mul_nonneg (sub_nonneg.mpr (Int.floor_le q)) (by norm_num)
    have hround : 0 ≤ roundEven (double ((q - ⌊q⌋) * 10 ^ 6)) :=
      le_roundEven (by rw [Int.cast_zero]; exact double_nonneg hpart)
    have hlow : datetimeMin ≤ now.1 + (⌊q⌋ * 10 ^ 6 + roundEven (double ((q - ⌊q⌋) * 10 ^ 6))) := by
      have := now.2.1
      have : 0 ≤ ⌊q⌋ * 10 ^ 6 := mul_nonneg hfloor (by norm_num)
      linarith
    rw [PyFloat.timedelta, Except.bind, expiry]
    simp only [PyFloat.finite.injEq, exists_eq_left']
    split_ifs with hrange
    · exact ⟨fun _ => hrange.2, fun _ => ⟨_, rfl⟩⟩
    · exact ⟨fun ⟨t, ht⟩ => (by cases ht), fun hhigh => absurd ⟨hlow, hhigh⟩ hrange⟩

lemma submitCall_ok_iff {d : CallFields} : (∃ call, submitCall d = some call) ↔ d.Valid := by
  rw [submitCall]
  split_ifs with h
  · exact ⟨fun _ => h, fun _ => ⟨_, rfl⟩⟩
  · exact ⟨fun ⟨call, hcall⟩ => (by cases hcall), fun hv => absurd hv h⟩

lemma request_ok_iff {id : Id} {root : Option String} : (∃ call, f.request c input id root = .ok call) ↔
    ∃ ms t topic version attempts, f.executionTimeout.thousandfold.round = .ok ms ∧
      f.promiseDuration.timedelta.bind (expiry c.now) = .ok t ∧ f.topic.strictStr = some topic ∧
      f.version.strictInt = some version ∧ f.maxAttempts.strictInt = some attempts ∧
      CallFields.Valid
        { id := id
          function := f.name
          input := input
          topic := topic
          version := version
          depth := c.depth
          availableAt := c.now
          executionTimeoutMs := ms
          expiresAt := t
          retentionMs := c.retention.1
          maxFailures := attempts
          rootId := root } := by
  rw [DurableFunction.request]
  constructor
  · rintro ⟨call, h⟩
    split at h
    · cases h
    · cases h
    · rename_i ms t hms ht
      split at h
      · rename_i topic version attempts htopic hversion hattempts
        refine ⟨ms, t, topic, version, attempts, hms, ht, htopic, hversion, hattempts, ?_⟩
        split at h
        · rename_i hcall
          exact submitCall_ok_iff.mp ⟨_, hcall⟩
        · cases h
      · cases h
  · rintro ⟨ms, t, topic, version, attempts, hms, ht, htopic, hversion, hattempts, hvalid⟩
    obtain ⟨call, hcall⟩ := submitCall_ok_iff.mpr hvalid
    simp only [hms, ht, htopic, hversion, hattempts, hcall]
    exact ⟨call, rfl⟩

lemma promiseId_spec (h : Accepts f c input) : ∃ id x, c.promiseId f.name = .ok (id, x) ∧
    (x.bind fun x => x.find id).isSome = false ∧
    (Sized maxIdBytes id ∧ c.context.map Context.rootId ≠ some id ↔ ∀ x ∈ c.context,
      (x.taskId ++ ":" ++ toString (x.callIndex + 1) ++ ":" ++ f.name).length ≤ maxIdBytes ∧
        x.taskId ++ ":" ++ toString (x.callIndex + 1) ++ ":" ++ f.name ≠ x.rootId) := by
  cases hx : c.context with
  | none =>
    refine ⟨_, none, by rw [Caller.promiseId, hx], rfl, ?_⟩
    simp only [Option.map_none, ne_eq, reduceCtorEq, not_false_eq_true, and_true, Option.mem_def,
      IsEmpty.forall_iff, implies_true, iff_true]
    split_ifs with hroot
    · have hlength := (hex_toList c.uuid.toList).1
      rw [String.length_toList, Vector.length_toList] at hlength
      exact ⟨by omega, by rw [hlength]; decide⟩
    · exact h.rootId hx hroot
  | some x =>
    have hid : c.promiseId f.name = .ok (x.taskId ++ ":" ++ toString (x.callIndex + 1) ++ ":" ++ f.name,
        some { x with callIndex := x.callIndex + 1 }) := by
      rw [Caller.promiseId, hx]
      simp only [Context.nextId, if_neg (not_lt.mpr (h.index x hx))]
      rfl
    refine ⟨_, _, hid, ?_, ?_⟩
    · have hfresh := h.fresh _ _ hid
      rw [Option.bind_some, hfresh]
      rfl
    · have hone := (h.task x hx).1.1
      simp only [Option.map_some, ne_eq, Option.some_inj, Option.mem_def, forall_eq']
      constructor
      · rintro ⟨hsized, hne⟩
        exact ⟨hsized.2, Ne.symm hne⟩
      · rintro ⟨hlength, hne⟩
        refine ⟨⟨?_, hlength⟩, Ne.symm hne⟩
        simp only [String.length_append]
        omega

lemma invoke_ok_iff (hm : Made f) (h : Accepts f c input) :
    (∃ call, f.invoke c input = .ok (some call)) ↔ Requestable f c := by
  obtain ⟨id, x, hid, hfresh, hroom⟩ := promiseId_spec h
  have hinvoke : f.invoke c input = (f.request c input id (c.context.map Context.rootId)).map some := by
    rw [DurableFunction.invoke, if_neg (not_lt.mpr h.input), if_neg (not_lt.mpr h.depth), hid]
    simp only [hfresh, Bool.false_eq_true, if_false]
  have hmap : (∃ call, f.invoke c input = .ok (some call)) ↔
      ∃ call, f.request c input id (c.context.map Context.rootId) = .ok call := by
    rw [hinvoke]
    cases f.request c input id (c.context.map Context.rootId) with
    | error e => exact ⟨fun ⟨call, hcall⟩ => (by cases hcall), fun ⟨call, hcall⟩ => (by cases hcall)⟩
    | ok call => exact ⟨fun _ => ⟨call, rfl⟩, fun _ => ⟨call, rfl⟩⟩
  rw [hmap, request_ok_iff]
  have htimeout := timeout_ok_iff hm.executionTimeout
  have hexpiry := expiry_ok_iff hm.promiseDuration.1 hm.promiseDuration.2 c.now
  have hdepth : ((c.depth : ℕ) : ℤ) ≤ maxDepth := by exact_mod_cast h.depth
  constructor
  · rintro ⟨ms, t, topic, version, attempts, hms, ht, htopic, hversion, hattempts, hv⟩
    exact
      { executionTimeout := htimeout.mp ⟨ms, hms, hv.executionTimeoutMs⟩
        promiseDuration := hexpiry.mp ⟨t, ht⟩
        topic := ⟨topic, PyObject.strictStr_eq.mp htopic, hv.topic⟩
        version := ⟨version, PyObject.strictInt_eq.mp hversion, hv.version⟩
        maxAttempts := ⟨attempts, PyObject.strictInt_eq.mp hattempts⟩
        name := hv.function.2
        child := hroom.mp ⟨hv.id, hv.root_ne⟩ }
  · intro hr
    obtain ⟨ms, hms, hday⟩ := htimeout.mpr hr.executionTimeout
    obtain ⟨t, ht⟩ := hexpiry.mpr hr.promiseDuration
    obtain ⟨topic, htopic, hsized⟩ := hr.topic
    obtain ⟨version, hversion, hpos⟩ := hr.version
    obtain ⟨attempts, hattempts⟩ := hr.maxAttempts
    obtain ⟨n, hn, hrange⟩ := hm.maxAttempts
    obtain ⟨hidSized, hroot⟩ := hroom.mpr hr.child
    have heq : n = attempts := by
      rw [hattempts] at hn
      exact (Option.some.inj hn).symm
    refine ⟨ms, t, topic, version, attempts, hms, ht, PyObject.strictStr_eq.mpr htopic,
      PyObject.strictInt_eq.mpr hversion, PyObject.strictInt_eq.mpr hattempts, ?_⟩
    exact
      { id := hidSized
        function := ⟨hm.name, hr.name⟩
        topic := hsized
        version := hpos
        depth := ⟨Int.natCast_nonneg _, hdepth⟩
        priority := (by decide : (-32768 : ℤ) ≤ 0 ∧ (0 : ℤ) ≤ 32767)
        executionTimeoutMs := hday
        retentionMs := c.retention.2
        maxFailures := heq ▸ hrange
        rootId := by
          rintro root hroot'
          obtain ⟨x, hx, rfl⟩ := Option.map_eq_some_iff.mp hroot'
          exact (h.task x hx).2
        root_ne := hroot }

end Requests

/-- What invoke submits for a function and a call that are accepted is a valid request if and only if its numbers
and lengths fit the request, and a valid request fits the columns if and only if its octets, its version and its retention
do. -/
theorem limits_agree_iff (jsonb : Json → Bool) (sha256 : CallFields → Vector UInt8 32) :
    (∀ fn executionTimeout promiseDuration topic version attempts f c input,
      DurableFunction.init fn executionTimeout promiseDuration topic version attempts = .ok f →
      Accepts f c input →
      ((∃ call, f.invoke c input = .ok (some call)) ↔ Requestable f c)) ∧
    ∀ call : SubmitCall, call.1.Clean → (call.1.Fits jsonb sha256 ↔ call.1.InRoom jsonb) :=
  ⟨fun _ _ _ _ _ _ _ _ _ hf h => invoke_ok_iff (init_made hf) h, fun call hc => fits_iff call.2 hc⟩

section Sample

def noon : Datetime := ⟨1700000000000000, by decide⟩

def outside : Caller where
  rootId := "r"
  uuid := Vector.replicate 16 0
  now := noon
  retention := ⟨60000, by decide⟩

def timed (executionTimeout : ℚ) : DurableFunction where
  name := "m.f"
  executionTimeout := .finite executionTimeout
  promiseDuration := .finite 60
  topic := .str "default"
  version := .int 1
  maxAttempts := .int 100

lemma init_timed {q : ℚ} (h : 0 < q) :
    DurableFunction.init { module := "m", qualname := "f" } (.float (.finite q)) (.float (.finite 60))
      (.str "default") (.int 1) (.int 100) = .ok (timed q) := by
  have hpos : (PyFloat.finite q).le 0 = false := by simpa [PyFloat.le] using h
  have hminute : (PyFloat.finite 60).le 0 = false := by simp [PyFloat.le]
  have hyear : (PyFloat.finite 60).gt maxPromiseDuration = false := by
    rw [PyFloat.gt, maxPromiseDuration]
    norm_num
  rw [DurableFunction.init.eq_def]
  simp only [hpos, hminute, hyear]
  rfl

lemma outside_accepts (f : DurableFunction) : Accepts f outside ⟨"\x7b\x7d"⟩ where
  input := by decide +kernel
  depth := by decide
  index := nofun
  rootId := fun _ _ => by decide
  task := nofun
  fresh := fun id x h => by cases h

def callOn (topic : String) (retentionMs : ℤ) : CallFields where
  id := "r"
  function := "m.f"
  input := ⟨"\x7b\x7d"⟩
  topic := topic
  version := 1
  depth := 0
  availableAt := noon
  executionTimeoutMs := 30000
  expiresAt := noon
  retentionMs := retentionMs
  maxFailures := 100
  rootId := none

lemma callOn_valid {topic : String} (h : Sized maxTopicBytes topic) : (callOn topic 60000).Valid := by
  have hd : (callOn "default" 60000).Valid := by decide
  exact ⟨hd.id, hd.function, h, hd.version, hd.depth, hd.priority, hd.executionTimeoutMs, hd.retentionMs,
    hd.maxFailures, hd.rootId, hd.root_ne⟩

theorem limits_agree_iff_sample :
    (∃ call, (timed 30).invoke outside ⟨"\x7b\x7d"⟩ = .ok (some call)) ∧
      (callOn "default" 60000).Fits (fun _ => true) (fun _ => Vector.replicate 32 0) := by
  have h := limits_agree_iff (fun _ => true) (fun _ => Vector.replicate 32 0)
  refine ⟨(h.1 _ _ _ _ _ _ _ outside _ (init_timed (by norm_num)) (outside_accepts _)).mpr ?_,
    (h.2 ⟨callOn "default" 60000, by decide⟩ ?_).mpr ?_⟩
  · exact ⟨⟨30, rfl, by norm_num, by norm_num⟩, ⟨60, rfl, by decide +kernel⟩, ⟨_, rfl, by decide⟩, ⟨_, rfl, by decide⟩,
      ⟨_, rfl⟩, by decide, nofun⟩
  · exact ⟨by decide, by decide, by decide, nofun⟩
  · exact ⟨by decide, by decide, by decide, by decide, by decide, rfl⟩

def wide : String := String.ofList (List.replicate 128 (Char.ofNat 233))

lemma wide_toList : wide.toList = List.replicate 128 (Char.ofNat 233) := String.toList_ofList

lemma wide_sized : Sized maxTopicBytes wide := by
  rw [Sized, ← String.length_toList, wide_toList, List.length_replicate]
  decide

lemma wide_clean : (callOn wide 60000).Clean := by
  have hstorable : Storable wide := by
    rw [Storable, wide_toList, List.mem_replicate]
    decide
  exact ⟨by decide, by decide, hstorable, nofun⟩

lemma wide_unfit : ¬ (callOn wide 60000).Fits (fun _ => true) (fun _ => Vector.replicate 32 0) := by
  intro h
  have := h.2.2.topic.2
  revert this
  decide +kernel

def month : ℤ := 2592000000

lemma month_unfit : ¬ (callOn "default" month).Fits (fun _ => true) (fun _ => Vector.replicate 32 0) := by
  intro h
  have := h.1.integer.1.2
  revert this
  decide

/-- A function with a timeout of a quarter of a millisecond is accepted, and none of its calls is. A topic of 128
characters and 256 octets is accepted, and its column takes 255. A retention of 30 days is accepted, and the
statement reads it as an integer. -/
theorem limits_disagree :
    (DurableFunction.init { module := "m", qualname := "f" } (.float (.finite (1 / 4096))) (.float (.finite 60))
        (.str "default") (.int 1) (.int 100) = .ok (timed (1 / 4096)) ∧
      Accepts (timed (1 / 4096)) outside ⟨"\x7b\x7d"⟩ ∧
      ¬ ∃ call, (timed (1 / 4096)).invoke outside ⟨"\x7b\x7d"⟩ = .ok (some call)) ∧
    (∃ call : SubmitCall, call.1.topic = wide ∧ call.1.Clean ∧
      ¬ call.1.Fits (fun _ => true) (fun _ => Vector.replicate 32 0)) ∧
    ∃ call : SubmitCall, call.1.retentionMs = month ∧ call.1.Clean ∧
      ¬ call.1.Fits (fun _ => true) (fun _ => Vector.replicate 32 0) := by
  refine ⟨⟨init_timed (by norm_num), outside_accepts _, ?_⟩,
    ⟨⟨callOn wide 60000, callOn_valid wide_sized⟩, rfl, wide_clean, wide_unfit⟩,
    ⟨callOn "default" month, by decide⟩, rfl, ⟨by decide, by decide, by decide, nofun⟩, month_unfit⟩
  intro hcall
  obtain ⟨q, hq, hlow, -⟩ :=
    ((invoke_ok_iff (init_made (init_timed (by norm_num))) (outside_accepts _)).mp hcall).executionTimeout
  cases hq
  norm_num at hlow

end Sample

end Reaper.Workflow.Limits
