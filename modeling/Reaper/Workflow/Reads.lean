import Reaper.Store.Columns
import Reaper.Workflow.First

/-! The two ways in which a body reads a stored promise: from what its claim preloads, and from a record of
the row. -/

namespace Reaper.Workflow

open Reaper.Store Reaper.Library

abbrev Datetime := { t : Time // datetimeMin ≤ t ∧ t ≤ datetimeMax }

/-- A value of type JsonValue: None, or what any other JSON text decodes to. -/
inductive JsonValue
  | none
  | decoded (value : Json)
  deriving DecidableEq

def decodeJson (value : Json) : JsonValue := if value = jsonNull then .none else .decoded value

def decodeOptionalJson : Option Json → JsonValue
  | none => .none
  | some value => decodeJson value

structure PromiseRecord where
  id : Id
  idempotencyKey : String
  state : PromiseState
  rootId : Option Id
  result : JsonValue
  error : JsonValue
  dueAt : Option Datetime
  expiresAt : Option Datetime
  deleteAfter : Option Datetime
  settledAt : Option Datetime

def readTime : Option Time → Option (Option Datetime)
  | none => some none
  | some t => if h : datetimeMin ≤ t ∧ t ≤ datetimeMax then some (some ⟨t, h⟩) else none

def promiseFromRow (e : Id × Promise) : Option PromiseRecord := do
  let dueAt ← readTime (match e.2.deadline with | .dueAt t => some t | .expiresAt _ => none)
  let expiresAt ← readTime (match e.2.deadline with | .dueAt _ => none | .expiresAt t => some t)
  let deleteAfter ← readTime (match e.2.place with | .root t => some t | .child _ => none)
  let settledAt ← readTime e.2.outcome.settledAt
  return {
    id := e.1
    idempotencyKey := e.2.idempotencyKey
    state := e.2.state
    rootId := match e.2.place with | .root _ => none | .child root => some root
    result := decodeOptionalJson e.2.outcome.result
    error := decodeOptionalJson e.2.outcome.error
    dueAt := dueAt
    expiresAt := expiresAt
    deleteAfter := deleteAfter
    settledAt := settledAt }

def jsonField (column : Option Json) : Json := column.getD jsonNull

structure Preload where
  id : Id
  state : PromiseState
  result : JsonValue
  error : JsonValue
  settledAtMs : Option ℕ

def validMs : Option ℤ → Option (Option ℕ)
  | none => some none
  | some ms => if 0 ≤ ms then some (some ms.toNat) else none

def preload (w : WaitedPromise) : Option Preload := do
  let settledAtMs ← validMs w.settledAtMs
  return {
    id := w.id
    state := w.state
    result := decodeJson (jsonField w.result)
    error := decodeJson (jsonField w.error)
    settledAtMs := settledAtMs }

inductive Stored
  | record (r : PromiseRecord)
  | waited (w : Preload)

namespace Stored

def id : Stored → Id
  | record r => r.id
  | waited w => w.id

def state : Stored → PromiseState
  | record r => r.state
  | waited w => w.state

def value : Stored → JsonValue
  | record r => r.result
  | waited w => w.result

def settledOrder : Stored → ℤ
  | waited w => match w.settledAtMs with
    | some ms => if ms = 0 then 2 ^ 63 else ms
    | none => 2 ^ 63
  | record r => match r.settledAt with
    | some t => timestampMs t
    | none => 2 ^ 63

end Stored

def stateText : PromiseState → String
  | .pending => "pending"
  | .resolved => "resolved"
  | .rejected => "rejected"
  | .timedOut => "timed_out"

def Stored.result {V : Type} (dumpJson : JsonValue → String) (validateJson : String → Option V)
    (p : Stored) : Except Error V :=
  if p.state ≠ .resolved then
    .error (reaperError ("promise " ++ p.id ++ " is " ++ stateText p.state))
  else
    let encoded := dumpJson p.value
    if maxPromiseBytes < encoded.utf8ByteSize then .error (reaperError "promise result is too large")
    else match validateJson encoded with
      | some value => .ok value
      | none => .error (reaperError ("promise " ++ p.id ++ " contains an invalid result"))

structure Agree (p q : Stored) : Prop where
  id : p.id = q.id
  state : p.state = q.state
  result : ∀ (V : Type) dumpJson (validateJson : String → Option V),
    p.result dumpJson validateJson = q.result dumpJson validateJson
  settledOrder : p.settledOrder = q.settledOrder

def RoundsDown (t : Time) : Prop :=
  let ms := double (double ((t : ℚ) / 10 ^ 6) * 1000)
  2 * ms < 2 * (t / millisecond : ℤ) + 1 ∨
    2 * ms = 2 * (t / millisecond : ℤ) + 1 ∧ t / millisecond % 2 = 0

instance (t : Time) : Decidable (RoundsDown t) := inferInstanceAs (Decidable (_ ∨ _ ∧ _))

section Rounding

variable {t : ℤ}

lemma millisecond_eq : millisecond = (1000 : ℤ) := rfl

lemma abs_timestampMs_sub_le (h : 0 ≤ t) :
    |double (double ((t : ℚ) / 10 ^ 6) * 1000) - t / 1000| ≤
      t / 1000 * (2 ^ (-52 : ℤ) + 2 ^ (-106 : ℤ)) := by
  have ht : (0 : ℚ) ≤ t := by exact_mod_cast h
  have hsec : (0 : ℚ) ≤ t / 10 ^ 6 := by positivity
  have hs := abs_double_sub_le hsec
  have hnonneg : 0 ≤ double ((t : ℚ) / 10 ^ 6) * 1000 := by
    have := (abs_le.mp hs).1
    have : (t : ℚ) / 10 ^ 6 * 2 ^ (-53 : ℤ) ≤ t / 10 ^ 6 := mul_le_of_le_one_right hsec (by norm_num)
    linarith
  have hv := abs_double_sub_le hnonneg
  rw [abs_le] at hs hv ⊢
  have h53 : (2 : ℚ) ^ (-53 : ℤ) = 1 / 9007199254740992 := by norm_num
  have h52 : (2 : ℚ) ^ (-52 : ℤ) = 1 / 4503599627370496 := by norm_num
  have h106 : (2 : ℚ) ^ (-106 : ℤ) = 1 / 9007199254740992 ^ 2 := by norm_num
  rw [h53] at hs hv
  rw [h52, h106]
  constructor <;> linarith

lemma timestampMs_eq_iff (h : 0 ≤ t) (hmax : t ≤ datetimeMax) :
    timestampMs t = t / millisecond ↔ RoundsDown t := by
  have hfloor : ((t / millisecond : ℤ) : ℚ) ≤ t / 1000 := by
    rw [le_div_iff₀ (by norm_num)]
    exact_mod_cast Int.ediv_mul_le t (by norm_num [millisecond_eq] : (millisecond : ℤ) ≠ 0)
  have hclose := (abs_le.mp (abs_timestampMs_sub_le h)).1
  have ht : (t : ℚ) ≤ 253402300799999999 := by exact_mod_cast hmax
  refine roundEven_eq_iff ?_
  norm_num at hclose ⊢
  linarith

lemma roundsDown_iff (h : 0 ≤ t) (hlt : t < 2 ^ 52) (hmiddle : t % millisecond ≠ 500) :
    RoundsDown t ↔ t % millisecond < 500 := by
  have hsplit : (t : ℚ) / 1000 = (t / millisecond : ℤ) + ((t % millisecond : ℤ) : ℚ) / 1000 := by
    rw [eq_comm, ← eq_sub_iff_add_eq', div_eq_iff (by norm_num), sub_mul, div_mul_cancel₀ _ (by norm_num)]
    rw [Int.emod_def, millisecond_eq]
    push_cast
    ring
  have hclose : |double (double ((t : ℚ) / 10 ^ 6) * 1000) - t / 1000| < 1 / 1000 := by
    refine (abs_timestampMs_sub_le h).trans_lt ?_
    have ht : (t : ℚ) ≤ 2 ^ 52 - 1 := by exact_mod_cast (show t ≤ 2 ^ 52 - 1 by omega)
    norm_num at ht ⊢
    linarith
  rw [abs_lt, hsplit] at hclose
  rw [RoundsDown]
  rw [millisecond_eq] at hmiddle
  constructor
  · intro hdown
    by_contra hnot
    have hpast : (501 : ℚ) ≤ (t % millisecond : ℤ) := by exact_mod_cast (show 501 ≤ t % 1000 by rw [millisecond_eq] at hnot; omega)
    rcases hdown with hdown | ⟨hdown, -⟩ <;> linarith
  · intro hbelow
    have : ((t % millisecond : ℤ) : ℚ) ≤ 499 := by
      exact_mod_cast (show t % 1000 ≤ 499 by rw [millisecond_eq] at hbelow; omega)
    exact Or.inl (by linarith)

lemma timestampMs_lt (h : 0 ≤ t) (hlt : t < millisecond) : timestampMs t < 2 ^ 63 := by
  have hclose := (abs_le.mp (abs_timestampMs_sub_le h)).2
  have hround := (abs_le.mp (abs_roundEven_sub_le (double (double ((t : ℚ) / 10 ^ 6) * 1000)))).2
  have ht : (t : ℚ) < 1000 := by exact_mod_cast hlt
  have hsmall : ((timestampMs t : ℤ) : ℚ) < 3 := by
    rw [timestampMs]
    norm_num at hclose
    linarith
  have : timestampMs t < 3 := by exact_mod_cast hsmall
  omega

end Rounding

section Reads

variable {e : Id × Promise} {w : Preload} {r : PromiseRecord} {t : Time}

lemma preload_isSome_iff : (preload (waitedPromise e)).isSome ↔
    ∀ t, e.2.outcome.settledAt = some t → 0 ≤ t := by
  rw [preload, waitedPromise]
  cases h : e.2.outcome.settledAt with
  | none => simp [validMs]
  | some t =>
    have hms : 0 ≤ t / millisecond ↔ 0 ≤ t := Int.ediv_nonneg_iff_of_pos (by norm_num [millisecond_eq])
    by_cases ht : 0 ≤ t <;> simp [validMs, hms, ht]

lemma preload_eq (h : preload (waitedPromise e) = some w) :
    (∀ t, e.2.outcome.settledAt = some t → 0 ≤ t) ∧
      w = { id := e.1, state := e.2.state, result := decodeJson (jsonField e.2.outcome.result),
            error := decodeJson (jsonField e.2.outcome.error),
            settledAtMs := e.2.outcome.settledAt.map fun t => (t / millisecond).toNat } := by
  have hpast := preload_isSome_iff.mp (Option.isSome_iff_exists.mpr ⟨w, h⟩)
  refine ⟨hpast, ?_⟩
  rw [preload, waitedPromise] at h
  cases hs : e.2.outcome.settledAt with
  | none =>
    rw [hs] at h
    exact (Option.some.inj h).symm
  | some t =>
    rw [hs, Option.map_some, validMs, if_pos (Int.ediv_nonneg (hpast t hs) (by norm_num [millisecond_eq]))] at h
    exact (Option.some.inj h).symm

lemma promiseFromRow_eq (h : promiseFromRow e = some r) :
    r.id = e.1 ∧ r.state = e.2.state ∧ r.result = decodeOptionalJson e.2.outcome.result ∧
      readTime e.2.outcome.settledAt = some r.settledAt := by
  simp only [promiseFromRow, Option.bind_eq_bind, Option.bind_eq_some_iff] at h
  obtain ⟨dueAt, -, expiresAt, -, deleteAfter, -, settledAt, hs, h⟩ := h
  cases h
  exact ⟨rfl, rfl, rfl, hs⟩

lemma decodeJson_jsonField (column : Option Json) :
    decodeJson (jsonField column) = decodeOptionalJson column := by
  cases column with
  | none => exact if_pos rfl
  | some value => rfl

lemma readTime_eq_some {d : Option Datetime} (h : readTime (some t) = some d) :
    ∃ x : Datetime, d = some x ∧ x.1 = t := by
  rw [readTime] at h
  split_ifs at h with hrange
  exact ⟨⟨t, hrange⟩, (Option.some.inj h).symm, rfl⟩

lemma settledOrder_eq_iff (hw : preload (waitedPromise e) = some w) (hr : promiseFromRow e = some r) :
    (Stored.waited w).settledOrder = (Stored.record r).settledOrder ↔
      ∀ t, e.2.outcome.settledAt = some t → millisecond ≤ t ∧ RoundsDown t := by
  obtain ⟨hpast, rfl⟩ := preload_eq hw
  obtain ⟨-, -, -, hread⟩ := promiseFromRow_eq hr
  rw [Stored.settledOrder, Stored.settledOrder]
  cases hs : e.2.outcome.settledAt with
  | none =>
    rw [hs, readTime, Option.some_inj] at hread
    simp [← hread]
  | some t =>
    rw [hs] at hread
    obtain ⟨x, hx, rfl⟩ := readTime_eq_some hread
    have h0 := hpast _ hs
    have hms : 0 ≤ x.1 / millisecond := Int.ediv_nonneg h0 (by norm_num [millisecond_eq])
    rw [hx]
    simp only [Option.map_some, Option.some_inj, forall_eq']
    by_cases hfirst : x.1 < millisecond
    · -- the first millisecond of the epoch counts as missing
      have hzero : x.1 / millisecond = 0 := Int.ediv_eq_zero_of_lt h0 hfirst
      have hlt := timestampMs_lt h0 hfirst
      rw [hzero, Int.toNat_zero, if_pos rfl]
      exact ⟨fun heq => absurd heq.symm hlt.ne, fun h => absurd h.1 (not_le.mpr hfirst)⟩
    · have hpos : 0 < x.1 / millisecond :=
        (Int.le_ediv_iff_mul_le (by norm_num [millisecond_eq])).mpr (by
          rw [zero_add, one_mul]
          exact not_lt.mp hfirst)
      rw [if_neg (by simpa using hpos), Int.toNat_of_nonneg hms, eq_comm, timestampMs_eq_iff h0 x.2.2]
      exact ⟨fun h => ⟨not_lt.mp hfirst, h⟩, fun h => h.2⟩

/-- Both reads of a stored promise agree if and only if it has not settled, or has settled after the first
millisecond of the epoch and in the first half of its own. -/
theorem reads_agree_iff (e : Id × Promise) (w : Preload) (r : PromiseRecord)
    (hw : preload (waitedPromise e) = some w) (hr : promiseFromRow e = some r) :
    Agree (.waited w) (.record r) ↔
      ∀ t, e.2.outcome.settledAt = some t → millisecond ≤ t ∧ RoundsDown t := by
  rw [← settledOrder_eq_iff hw hr]
  refine ⟨Agree.settledOrder, fun h => ?_⟩
  obtain ⟨-, rfl⟩ := preload_eq hw
  obtain ⟨hid, hstate, hresult, -⟩ := promiseFromRow_eq hr
  have hvalue : (Stored.record r).value =
      decodeJson (jsonField e.2.outcome.result) := by rw [decodeJson_jsonField, ← hresult]; rfl
  refine ⟨hid.symm, hstate.symm, fun V dumpJson validateJson => ?_, h⟩
  simp only [Stored.result, hvalue, Stored.state, Stored.id, hstate, hid]
  rfl

def resolvedAt (t : Time) : Id × Promise where
  fst := "r:1:f"
  snd := {
    idempotencyKey := ""
    place := .child "r"
    deadline := .expiresAt 2000000000000000
    outcome := .resolved none t }

theorem reads_agree_iff_early : ∃ w r, preload (waitedPromise (resolvedAt 1700000000000400)) = some w ∧
    promiseFromRow (resolvedAt 1700000000000400) = some r ∧
    (Agree (.waited w) (.record r) ↔
      ∀ t, (resolvedAt 1700000000000400).2.outcome.settledAt = some t → millisecond ≤ t ∧ RoundsDown t) :=
  ⟨_, _, rfl, rfl, reads_agree_iff _ _ _ rfl rfl⟩

theorem reads_disagree : ∃ w r, preload (waitedPromise (resolvedAt 1700000000000600)) = some w ∧
    promiseFromRow (resolvedAt 1700000000000600) = some r ∧ ¬ Agree (.waited w) (.record r) := by
  refine ⟨_, _, rfl, rfl, fun h => ?_⟩
  have horder := h.settledOrder
  revert horder
  decide +kernel

end Reads

end Reaper.Workflow
