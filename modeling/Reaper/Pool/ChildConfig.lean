import Mathlib.Tactic

/-! The configuration of a child: the parent writes it into a pipe before the spawn, and the child reads it back. -/

namespace Reaper.Pool.ChildConfig

def maxChildConfig : ℕ := 8 * 1024

def encode (text : String) : List UInt8 := text.toByteArray.data.toList

def decode (bytes : List UInt8) : Option String := String.fromUTF8? ⟨bytes.toArray⟩

inductive InjectedWrite
  | nothing
  | size (k : ℤ)
  | other

structure Writer where
  injected : ℕ → InjectedWrite := fun _ => .nothing
  takes : ℕ → ℕ

inductive SpawnError
  | tooLarge | badOverride | noProgress
  deriving DecidableEq

namespace Writer

variable (w : Writer)

/-- A slice up to a place, which a negative number counts from the end. -/
def upTo (config : List UInt8) (k : ℤ) : List UInt8 :=
  if 0 ≤ k then config.take k.toNat else config.take (config.length - (-k).toNat)

def offered (n : ℕ) (config : List UInt8) : Option (List UInt8) :=
  match w.injected n with
  | .nothing => some config
  | .size k => some (upTo config k)
  | .other => none

def written (n : ℕ) (data : List UInt8) : ℕ := min data.length (w.takes n)

/-- The write loop. It returns what the pipe holds when the writing end is closed. -/
def writeLoop (n : ℕ) (config pipe : List UInt8) : Except SpawnError (List UInt8) :=
  if _hdone : config = [] then .ok pipe
  else match w.offered n config with
    | none => .error .badOverride
    | some data =>
      if _hstuck : w.written n data = 0 then .error .noProgress
      else writeLoop (n + 1) (config.drop (w.written n data)) (pipe ++ data.take (w.written n data))
termination_by config.length
decreasing_by
  have hlength := List.length_pos_iff.mpr _hdone
  rw [List.length_drop]
  omega

def spawnConfig (text : String) : Except SpawnError (List UInt8) :=
  if maxChildConfig < (encode text).length then .error .tooLarge else w.writeLoop 0 (encode text) []

inductive Reaches : ℕ → List UInt8 → ℕ → List UInt8 → Prop
  | refl (n : ℕ) (config : List UInt8) : Reaches n config n config
  | head {n m : ℕ} {config data rest : List UInt8} (left : config ≠ []) (offers : w.offered n config = some data)
    (later : Reaches (n + 1) (config.drop (w.written n data)) m rest) : Reaches n config m rest

def Positive (config : List UInt8) : Prop :=
  ∀ n rest, w.Reaches 0 config n rest → rest ≠ [] → ∃ data ∈ w.offered n rest, 0 < w.written n data

end Writer

inductive ReadTurn
  | interrupted
  | failed
  /-- as many bytes as there are, up to the size asked for and up to this number and one more -/
  | part (k : ℕ)
  deriving DecidableEq

structure Reader where
  unread : List UInt8
  turn : ℕ → ReadTurn
  calls : ℕ := 0
  sizes : List ℤ := []
  closes : ℕ := 0

inductive ReadError
  | tooLarge | system | badText
  deriving DecidableEq

namespace Reader

def size (data : List UInt8) : ℤ := maxChildConfig + 1 - data.length

def asks (s : Reader) (size : ℤ) : Reader := { s with calls := s.calls + 1, sizes := s.sizes ++ [size] }

def close (s : Reader) : Reader := { s with closes := s.closes + 1 }

/-- So many turns of the read loop; none where it has not ended by then. -/
def readLoop : ℕ → List UInt8 → Reader → Option (Except ReadError (List UInt8)) × Reader
  | 0, _, s => (none, s)
  | fuel + 1, data, s =>
    match s.turn s.calls with
    | .interrupted => readLoop fuel data (s.asks (size data))
    | .failed => (some (.error .system), s.asks (size data))
    | .part k =>
      if size data < 0 then (some (.error .system), s.asks (size data))
      else
        let part := s.unread.take (min (size data).toNat (k + 1))
        let s := { s.asks (size data) with unread := s.unread.drop part.length }
        if part = [] then (some (.ok data), s)
        else if maxChildConfig < (data ++ part).length then (some (.error .tooLarge), s)
        else readLoop fuel (data ++ part) s

def readChildConfig (fuel : ℕ) (s : Reader) : Option (Except ReadError String) × Reader :=
  match readLoop fuel [] s with
  | (none, s) => (none, s)
  | (some (.error e), s) => (some (.error e), s.close)
  | (some (.ok data), s) =>
    match decode data with
    | none => (some (.error .badText), s.close)
    | some text => (some (.ok text), s.close)

end Reader

lemma decode_encode (text : String) : decode (encode text) = some text := by
  have hbytes : (⟨(encode text).toArray⟩ : ByteArray) = text.toByteArray := by
    rw [encode, Array.toArray_toList]
  rw [decode, hbytes, String.fromUTF8?, dif_pos text.isValidUTF8]
  rfl

namespace Writer

variable {w : Writer} {n : ℕ} {config data pipe : List UInt8}

lemma offered_prefix (ho : w.offered n config = some data) : data <+: config := by
  rw [offered] at ho
  split at ho
  · cases ho
    exact List.prefix_rfl
  · cases ho
    rw [upTo]
    split_ifs
    · exact List.take_prefix _ _
    · exact List.take_prefix _ _
  · cases ho

lemma written_take (ho : w.offered n config = some data) :
    data.take (w.written n data) = config.take (w.written n data) := by
  obtain ⟨rest, rfl⟩ := offered_prefix ho
  rw [List.take_append_of_le_length]
  exact min_le_left _ _

lemma writeLoop_spec (hpos : ∀ m rest, w.Reaches n config m rest → rest ≠ [] →
    ∃ data ∈ w.offered m rest, 0 < w.written m data) : w.writeLoop n config pipe = .ok (pipe ++ config) := by
  induction hlength : config.length using Nat.strong_induction_on generalizing n config pipe with
  | _ length ih =>
    rw [writeLoop]
    split_ifs with hdone
    · rw [hdone, List.append_nil]
    · obtain ⟨data, ho, hk⟩ := hpos n config (.refl n config) hdone
      have hdata : w.offered n config = some data := ho
      have hshorter : (config.drop (w.written n data)).length < length := by
        have := List.length_pos_iff.mpr hdone
        rw [List.length_drop]
        omega
      simp only [hdata]
      rw [dif_neg hk.ne', ih _ hshorter (fun m rest hr => hpos m rest (.head hdone hdata hr)) rfl,
        written_take hdata, List.append_assoc, List.take_append_drop]

lemma spawnConfig_ok {text : String} (hsize : (encode text).length ≤ maxChildConfig) (hpos : w.Positive (encode text)) :
    w.spawnConfig text = .ok (encode text) := by
  rw [spawnConfig, if_neg (not_lt.mpr hsize)]
  exact writeLoop_spec hpos

lemma spawnConfig_tooLarge {text : String} (hsize : maxChildConfig < (encode text).length) :
    w.spawnConfig text = .error .tooLarge := if_pos hsize

lemma positive_of_takes (hi : ∀ n, w.injected n = .nothing) (ht : ∀ n, 0 < w.takes n) : w.Positive config := by
  intro n rest _ hrest
  refine ⟨rest, ?_, lt_min (List.length_pos_iff.mpr hrest) (ht n)⟩
  rw [offered, hi n]
  rfl

end Writer

namespace Reader

variable {s s' : Reader} {data stream : List UInt8} {fuel : ℕ} {r : Except ReadError (List UInt8)}

def got (s : Reader) (data : List UInt8) (k : ℕ) : List UInt8 := s.unread.take (min (size data).toNat (k + 1))

def after (s : Reader) (data : List UInt8) (k : ℕ) : Reader :=
  { s.asks (size data) with unread := s.unread.drop (s.got data k).length }

lemma size_pos (hd : data.length ≤ maxChildConfig) : 1 ≤ size data := by
  rw [size]
  omega

lemma readLoop_interrupted (hturn : s.turn s.calls = .interrupted) :
    readLoop (fuel + 1) data s = readLoop fuel data (s.asks (size data)) := by
  rw [readLoop]
  simp only [hturn]

lemma readLoop_part {k : ℕ} (hd : data.length ≤ maxChildConfig) (hturn : s.turn s.calls = .part k) :
    readLoop (fuel + 1) data s =
      if s.got data k = [] then (some (.ok data), s.after data k)
      else if maxChildConfig < (data ++ s.got data k).length then (some (.error .tooLarge), s.after data k)
      else readLoop fuel (data ++ s.got data k) (s.after data k) := by
  have hsize := size_pos hd
  rw [readLoop]
  simp only [hturn]
  rw [if_neg (not_lt.mpr (zero_le_one.trans hsize))]
  rfl

lemma readLoop_failed (hturn : s.turn s.calls = .failed) :
    readLoop (fuel + 1) data s = (some (.error .system), s.asks (size data)) := by
  rw [readLoop]
  simp only [hturn]

lemma got_nil {k : ℕ} (hd : data.length ≤ maxChildConfig) : s.got data k = [] ↔ s.unread = [] := by
  have hsize := size_pos hd
  rw [got, List.take_eq_nil_iff, or_iff_right]
  omega

lemma got_append (s : Reader) (data : List UInt8) (k : ℕ) : s.got data k ++ (s.after data k).unread = s.unread := by
  obtain ⟨rest, hrest⟩ := List.take_prefix (min (size data).toNat (k + 1)) s.unread
  have hdrop : s.unread.drop (s.got data k).length = rest := by
    conv_lhs => rw [← hrest]
    exact List.drop_left
  rw [after, hdrop]
  exact hrest

def Asks (s : Reader) : Prop := ∀ k ∈ s.sizes, 1 ≤ k

lemma Asks.next (h : Asks s) (hd : data.length ≤ maxChildConfig) : Asks (s.asks (size data)) := by
  intro k hk
  rcases List.mem_append.mp hk with hk | hk
  · exact h k hk
  · exact List.mem_singleton.mp hk ▸ size_pos hd

lemma readLoop_asks (h : Asks s) (hd : data.length ≤ maxChildConfig) :
    Asks (readLoop fuel data s).2 ∧ (readLoop fuel data s).2.closes = s.closes := by
  induction fuel generalizing data s with
  | zero => exact ⟨h, rfl⟩
  | succ fuel ih =>
    cases hturn : s.turn s.calls with
    | interrupted =>
      rw [readLoop_interrupted hturn]
      exact ih (h.next hd) hd
    | failed =>
      rw [readLoop_failed hturn]
      exact ⟨h.next hd, rfl⟩
    | part k =>
      rw [readLoop_part hd hturn]
      split_ifs with _ hlong
      · exact ⟨h.next hd, rfl⟩
      · exact ⟨h.next hd, rfl⟩
      · exact ih (s := s.after data k) (h.next hd) (not_lt.mp hlong)

inductive Ends (stream : List UInt8) : Except ReadError (List UInt8) → Prop
  | whole (fits : stream.length ≤ maxChildConfig) : Ends stream (.ok stream)
  | tooLarge (long : maxChildConfig < stream.length) : Ends stream (.error .tooLarge)

lemma readLoop_ends (hh : ∀ n, s.turn n ≠ .failed) (hd : data.length ≤ maxChildConfig)
    (hr : (readLoop fuel data s).1 = some r) : Ends (data ++ s.unread) r := by
  induction fuel generalizing data s with
  | zero => cases hr
  | succ fuel ih =>
    cases hturn : s.turn s.calls with
    | interrupted =>
      rw [readLoop_interrupted hturn] at hr
      exact ih (s := s.asks (size data)) hh hd hr
    | failed => exact absurd hturn (hh _)
    | part k =>
      rw [readLoop_part hd hturn] at hr
      have hstream := got_append s data k
      split_ifs at hr with hnone hlong
      · rw [(got_nil hd).mp hnone, List.append_nil]
        cases hr
        exact .whole hd
      · cases hr
        refine .tooLarge (hlong.trans_le ?_)
        rw [← hstream, ← List.append_assoc]
        exact (List.sublist_append_left _ _).length_le
      · rw [← hstream, ← List.append_assoc]
        exact ih (s := s.after data k) hh (not_lt.mp hlong) hr

def Answers (s : Reader) : Prop := ∀ n, ∃ m ≥ n, s.turn m ≠ .interrupted

lemma readLoop_answer (hd : data.length ≤ maxChildConfig) (hturn : s.turn s.calls ≠ .interrupted)
    (hnext : ∀ k, s.got data k ≠ [] → (data ++ s.got data k).length ≤ maxChildConfig →
      ∃ fuel r, (readLoop fuel (data ++ s.got data k) (s.after data k)).1 = some r) :
    ∃ fuel r, (readLoop fuel data s).1 = some r := by
  cases hs : s.turn s.calls with
  | interrupted => exact absurd hs hturn
  | failed => exact ⟨1, _, by rw [readLoop_failed hs]⟩
  | part k =>
    by_cases hnone : s.got data k = []
    · exact ⟨1, _, by rw [readLoop_part hd hs, if_pos hnone]⟩
    · by_cases hlong : maxChildConfig < (data ++ s.got data k).length
      · exact ⟨1, _, by rw [readLoop_part hd hs, if_neg hnone, if_pos hlong]⟩
      · obtain ⟨fuel, r, hr⟩ := hnext k hnone (not_lt.mp hlong)
        exact ⟨fuel + 1, r, by rw [readLoop_part hd hs, if_neg hnone, if_neg hlong]; exact hr⟩

lemma readLoop_returns (ha : Answers s) (hd : data.length ≤ maxChildConfig) :
    ∃ fuel r, (readLoop fuel data s).1 = some r := by
  induction hlength : s.unread.length using Nat.strong_induction_on generalizing data s with
  | _ length ih =>
    have hnow : ∀ s : Reader, Answers s → s.unread.length = length → s.turn s.calls ≠ .interrupted →
        ∃ fuel r, (readLoop fuel data s).1 = some r := by
      intro s ha hlength hturn
      refine readLoop_answer hd hturn fun k hnone hfits => ?_
      have hgot := List.length_pos_iff.mpr hnone
      have hsum := congrArg List.length (got_append s data k)
      rw [List.length_append] at hsum
      exact ih _ (by omega) (s := s.after data k) ha hfits rfl
    obtain ⟨m, hm, hanswer⟩ := ha s.calls
    obtain ⟨d, rfl⟩ := Nat.exists_eq_add_of_le hm
    -- on the interruptions before the next answer
    induction d generalizing s with
    | zero => exact hnow s ha hlength hanswer
    | succ d ihd =>
      by_cases hturn : s.turn s.calls = .interrupted
      · have hlater : s.turn (s.calls + 1 + d) ≠ .interrupted := by rwa [Nat.add_right_comm, Nat.add_assoc]
        obtain ⟨fuel, r, hr⟩ := ihd (s := s.asks (size data)) ha hlength (Nat.le_add_right _ _) hlater
        exact ⟨fuel + 1, r, by rw [readLoop_interrupted hturn]; exact hr⟩
      · exact hnow s ha hlength hturn

def opened (stream : List UInt8) (turn : ℕ → ReadTurn) : Reader := { unread := stream, turn := turn }

lemma opened_asks (stream : List UInt8) (turn : ℕ → ReadTurn) : Asks (opened stream turn) := by
  intro k hk
  cases hk

def decoded (r : Except ReadError (List UInt8)) : Except ReadError String :=
  match r with
  | .error e => .error e
  | .ok data => match decode data with
    | none => .error .badText
    | some text => .ok text

lemma readChildConfig_eq (fuel : ℕ) (s : Reader) : readChildConfig fuel s =
    match readLoop fuel [] s with
    | (none, s) => (none, s)
    | (some r, s) => (some (decoded r), s.close) := by
  rw [readChildConfig]
  split
  · next hr => rw [hr]
  · next hr =>
    rw [hr]
    rfl
  · next hr =>
    rw [hr]
    dsimp only
    split
    · next hd => rw [decoded, hd]
    · next hd => rw [decoded, hd]

/-- What the child makes of a stream: nothing else, however its reads are cut up and interrupted, and this in the
end where no read is interrupted for ever. Its descriptor is closed once. -/
structure Yields (stream : List UInt8) (turn : ℕ → ReadTurn) (r : Except ReadError String) : Prop where
  only : ∀ fuel r', (readChildConfig fuel (opened stream turn)).1 = some r' →
    r' = r ∧ (readChildConfig fuel (opened stream turn)).2.closes = 1
  ends : Answers (opened stream turn) → ∃ fuel, (readChildConfig fuel (opened stream turn)).1 = some r

lemma Yields.of_ends {turn : ℕ → ReadTurn} (hh : ∀ n, turn n ≠ .failed)
    (hunique : ∀ r', Ends stream r' → r' = r) : Yields stream turn (decoded r) := by
  have hends : ∀ fuel r', (readLoop fuel [] (opened stream turn)).1 = some r' → r' = r := fun fuel r' hr =>
    hunique r' (readLoop_ends (s := opened stream turn) hh (Nat.zero_le _) hr)
  refine ⟨fun fuel r' hr => ?_, fun ha => ?_⟩
  · have hcloses : (readLoop fuel [] (opened stream turn)).2.closes = 0 :=
      (readLoop_asks (opened_asks stream turn) (Nat.zero_le _)).2
    rw [readChildConfig_eq] at hr ⊢
    cases hloop : readLoop fuel [] (opened stream turn) with
    | mk r₀ s =>
      rw [hloop] at hr hcloses
      cases r₀ with
      | none => cases hr
      | some r₀ =>
        have hsame := hends fuel r₀ (by rw [hloop])
        exact ⟨hsame ▸ (Option.some.inj hr).symm, congrArg Nat.succ hcloses⟩
  · obtain ⟨fuel, r', hr⟩ : ∃ fuel r', (readLoop fuel [] (opened stream turn)).1 = some r' :=
      readLoop_returns ha (Nat.zero_le _)
    refine ⟨fuel, ?_⟩
    rw [readChildConfig_eq]
    cases hloop : readLoop fuel [] (opened stream turn) with
    | mk r₀ s =>
      rw [hloop] at hr
      obtain rfl : r₀ = some r' := hr
      exact congrArg (fun r => some (decoded r)) (hends fuel r' (by rw [hloop]))

lemma readChildConfig_asks (fuel : ℕ) (turn : ℕ → ReadTurn) : Asks (readChildConfig fuel (opened stream turn)).2 := by
  have hasks : Asks (readLoop fuel [] (opened stream turn)).2 :=
    (readLoop_asks (opened_asks stream turn) (Nat.zero_le _)).1
  rw [readChildConfig_eq]
  cases hloop : readLoop fuel [] (opened stream turn) with
  | mk r s =>
    rw [hloop] at hasks
    cases r with
    | none => exact hasks
    | some r => exact hasks

end Reader

open Writer Reader

/-- A configuration that is not too large crosses the pipe as it is, a longer stream raises, and no read asks for
nothing. -/
theorem child_config_crosses (w : Writer) (turn : ℕ → ReadTurn) (hh : ∀ n, turn n ≠ .failed) :
    (∀ text, (encode text).length ≤ maxChildConfig → w.Positive (encode text) →
      w.spawnConfig text = .ok (encode text) ∧ Yields (encode text) turn (.ok text)) ∧
    (∀ text, maxChildConfig < (encode text).length → w.spawnConfig text = .error .tooLarge) ∧
    (∀ stream : List UInt8, maxChildConfig < stream.length → Yields stream turn (.error .tooLarge)) ∧
    ∀ stream fuel, Asks (readChildConfig fuel (opened stream turn)).2 := by
  refine ⟨fun text hsize hpos => ⟨spawnConfig_ok hsize hpos, ?_⟩, fun text hsize => spawnConfig_tooLarge hsize,
    fun stream hlong => ?_, fun stream fuel => readChildConfig_asks fuel turn⟩
  · have hyields := Yields.of_ends (r := .ok (encode text)) hh fun r' he => by
      cases he with
      | whole _ => rfl
      | tooLarge long => exact absurd long (not_lt.mpr hsize)
    rwa [decoded, decode_encode] at hyields
  · refine Yields.of_ends (r := .error .tooLarge) hh fun r' he => ?_
    cases he with
    | whole fits => exact absurd hlong (not_lt.mpr fits)
    | tooLarge _ => rfl

def sampleConfig : String := "\x7b\"role\": \"tasks\", \"beat_rate\": 1.0\x7d"

def sampleWriter : Writer := { takes := fun _ => 3 }

def sampleTurns (n : ℕ) : ReadTurn := if n % 2 = 0 then .interrupted else .part 0

theorem child_config_crosses_sample : sampleWriter.spawnConfig sampleConfig = .ok (encode sampleConfig) ∧
    Yields (encode sampleConfig) sampleTurns (.ok sampleConfig) := by
  refine (child_config_crosses sampleWriter sampleTurns fun n => ?_).1 sampleConfig (by decide +kernel)
    (positive_of_takes (fun _ => rfl) fun _ => Nat.zero_lt_succ 2)
  rw [sampleTurns]
  split_ifs <;> simp

end Reaper.Pool.ChildConfig
