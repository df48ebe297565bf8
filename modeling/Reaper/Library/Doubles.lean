import Mathlib.Data.Int.Log
import Mathlib.Algebra.Order.Floor.Ring
import Mathlib.Data.Rat.Floor
import Mathlib.Tactic

/-! Doubles, as rationals rounded to 53 significant bits, and how they round to integers. -/

namespace Reaper.Library

/-- Python's round: the nearest integer, and the even one of two. -/
def roundEven (q : ℚ) : ℤ :=
  if q - ⌊q⌋ < 1 / 2 ∨ q - ⌊q⌋ = 1 / 2 ∧ ⌊q⌋ % 2 = 0 then ⌊q⌋ else ⌊q⌋ + 1

/-- The nearest number of 53 significant bits. -/
def double (q : ℚ) : ℚ :=
  let ulp : ℚ := 2 ^ (Int.log 2 |q| - 52)
  if q = 0 then 0 else roundEven (q / ulp) * ulp

variable {q x y : ℚ} {k m n e : ℤ}

lemma abs_roundEven_sub_le (q : ℚ) : |(roundEven q : ℚ) - q| ≤ 1 / 2 := by
  have hlow := Int.floor_le q
  have hhigh := Int.lt_floor_add_one q
  rw [roundEven, abs_le]
  split_ifs with h
  · rcases h with h | ⟨h, -⟩ <;> constructor <;> linarith
  · rw [not_or, not_lt] at h
    push_cast
    constructor <;> linarith

lemma roundEven_le_iff : roundEven q ≤ m ↔ 2 * q < 2 * m + 1 ∨ 2 * q = 2 * m + 1 ∧ m % 2 = 0 := by
  have hlow := Int.floor_le q
  have hhigh := Int.lt_floor_add_one q
  have hround : ⌊q⌋ ≤ roundEven q ∧ roundEven q ≤ ⌊q⌋ + 1 := by
    rw [roundEven]
    split_ifs <;> omega
  rcases lt_trichotomy ⌊q⌋ m with hlt | rfl | hlt
  · have hq : (⌊q⌋ : ℚ) + 1 ≤ m := by exact_mod_cast hlt
    exact ⟨fun _ => Or.inl (by linarith), fun _ => by omega⟩
  · rw [roundEven]
    split_ifs with hc
    · refine ⟨fun _ => ?_, fun _ => le_rfl⟩
      rcases hc with hc | ⟨hc, heven⟩
      · exact Or.inl (by linarith)
      · exact Or.inr ⟨by linarith, heven⟩
    · rw [not_or, not_and] at hc
      refine ⟨fun hle => by omega, fun h => ?_⟩
      rcases h with h | ⟨h, heven⟩
      · exact absurd (by linarith) hc.1
      · exact absurd heven (hc.2 (by linarith))
  · have hq : (m : ℚ) + 1 ≤ ⌊q⌋ := by exact_mod_cast hlt
    refine ⟨fun hle => by omega, fun h => ?_⟩
    rcases h with h | ⟨h, -⟩ <;> linarith

lemma roundEven_le (h : q ≤ n) : roundEven q ≤ n := roundEven_le_iff.mpr (Or.inl (by linarith))

lemma le_roundEven (h : (n : ℚ) ≤ q) : n ≤ roundEven q := by
  by_contra hlt
  have hle : roundEven q ≤ n - 1 := by omega
  rw [roundEven_le_iff] at hle
  push_cast at hle
  rcases hle with hle | ⟨hle, -⟩ <;> linarith

lemma roundEven_eq_iff (h : (m : ℚ) < q + 1 / 2) :
    roundEven q = m ↔ 2 * q < 2 * m + 1 ∨ 2 * q = 2 * m + 1 ∧ m % 2 = 0 := by
  have hge : m ≤ roundEven q := by
    by_contra hlt
    have hle : roundEven q ≤ m - 1 := by omega
    rw [roundEven_le_iff] at hle
    push_cast at hle
    rcases hle with hle | ⟨hle, -⟩ <;> linarith
  rw [← roundEven_le_iff]
  exact ⟨fun heq => heq.le, fun hle => le_antisymm hle hge⟩

lemma double_eq (hx : 0 < x) :
    double x = roundEven (x / 2 ^ (Int.log 2 x - 52)) * 2 ^ (Int.log 2 x - 52) := by
  rw [double]
  simp only [if_neg hx.ne', abs_of_pos hx]

lemma double_le_iff (hx : 0 < x) (hlog : Int.log 2 x = e + 52) :
    double x ≤ k * 2 ^ e ↔ 2 * x < (2 * k + 1) * 2 ^ e ∨ 2 * x = (2 * k + 1) * 2 ^ e ∧ k % 2 = 0 := by
  have he : (0 : ℚ) < 2 ^ e := by positivity
  rw [double_eq hx, hlog, add_sub_cancel_right, mul_le_mul_iff_left₀ he, Int.cast_le, roundEven_le_iff,
    mul_div_assoc', div_lt_iff₀ he, div_eq_iff he.ne']

lemma double_le_zpow (hx : 0 < x) (h : x ≤ 2 ^ e) : double x ≤ 2 ^ e := by
  have hlog : Int.log 2 x ≤ e := by
    have := Int.log_mono_right (b := 2) hx h
    rwa [show ((2 : ℚ) ^ e) = ((2 : ℕ) : ℚ) ^ e by norm_num, Int.log_zpow (by norm_num)] at this
  obtain ⟨n, hn⟩ := Int.eq_ofNat_of_zero_le (show 0 ≤ e - (Int.log 2 x - 52) by omega)
  have hunit : (2 : ℚ) ^ e = ((2 ^ n : ℤ) : ℚ) * 2 ^ (Int.log 2 x - 52) := by
    rw [Int.cast_pow, Int.cast_ofNat, ← zpow_natCast, ← zpow_add₀ two_ne_zero]
    congr 1
    omega
  have hpos : (0 : ℚ) < 2 ^ (Int.log 2 x - 52) := by positivity
  rw [double_eq hx, hunit]
  refine mul_le_mul_of_nonneg_right ?_ hpos.le
  exact Int.cast_le.mpr (roundEven_le (by rwa [div_le_iff₀ hpos, ← hunit]))

lemma zpow_log_le_double (hx : 0 < x) : (2 : ℚ) ^ Int.log 2 x ≤ double x := by
  have hpos : (0 : ℚ) < 2 ^ (Int.log 2 x - 52) := by positivity
  have hunit : (2 : ℚ) ^ Int.log 2 x = ((2 ^ 52 : ℤ) : ℚ) * 2 ^ (Int.log 2 x - 52) := by
    rw [Int.cast_pow, Int.cast_ofNat, ← zpow_natCast, ← zpow_add₀ two_ne_zero]
    congr 1
    push_cast
    ring
  have hself : (2 : ℚ) ^ Int.log 2 x ≤ x := by exact_mod_cast Int.zpow_log_le_self (b := 2) (by norm_num) hx
  rw [double_eq hx]
  conv_lhs => rw [hunit]
  refine mul_le_mul_of_nonneg_right ?_ hpos.le
  exact Int.cast_le.mpr (le_roundEven (by rwa [le_div_iff₀ hpos, ← hunit]))

lemma log_eq (hlow : (2 : ℚ) ^ e ≤ x) (hhigh : x < 2 ^ (e + 1)) : Int.log 2 x = e := by
  have hx : 0 < x := lt_of_lt_of_le (by positivity) hlow
  refine le_antisymm ?_ ?_
  · exact Int.lt_add_one_iff.mp ((Int.lt_zpow_iff_log_lt (by norm_num) hx).mp (by exact_mod_cast hhigh))
  · exact (Int.zpow_le_iff_le_log (by norm_num) hx).mp (by exact_mod_cast hlow)

/-- An even integer with the middle above it an even number of units: what rounds to it, or to less, as a double
goes half a unit past that middle. -/
lemma roundEven_double_le_iff (hx : 0 < x) (hm : m % 2 = 0) (hk : k % 2 = 0)
    (hy : (m : ℚ) + 1 / 2 = k * 2 ^ e) (hlow : 2 ^ (e + 52) ≤ (m : ℚ) + 1 / 2)
    (hhigh : (m : ℚ) + 1 / 2 < 2 ^ (e + 52 + 1)) :
    roundEven (double x) ≤ m ↔ 2 * x ≤ (2 * k + 1) * 2 ^ e := by
  have he : (0 : ℚ) < 2 ^ e := by positivity
  have hmiddle : roundEven (double x) ≤ m ↔ double x ≤ k * 2 ^ e := by
    rw [roundEven_le_iff, ← hy, le_iff_lt_or_eq]
    simp only [hm, and_true]
    constructor <;> rintro (h | h)
    · exact Or.inl (by linarith)
    · exact Or.inr (by linarith)
    · exact Or.inl (by linarith)
    · exact Or.inr (by linarith)
  rw [hmiddle]
  rcases lt_or_ge x (2 ^ (e + 52)) with hsmall | hbig
  · have hle := double_le_zpow hx hsmall.le
    exact ⟨fun _ => by linarith, fun _ => by linarith⟩
  · rcases lt_or_ge x (2 ^ (e + 52 + 1)) with hlt | hge
    · rw [double_le_iff hx (log_eq hbig hlt), le_iff_lt_or_eq]
      simp only [hk, and_true]
    · have hlog : e + 52 + 1 ≤ Int.log 2 x := (Int.zpow_le_iff_le_log (by norm_num) hx).mp (by exact_mod_cast hge)
      have hdouble := (zpow_le_zpow_right₀ (by norm_num : (1 : ℚ) ≤ 2) hlog).trans (zpow_log_le_double hx)
      have hunits : (2 : ℚ) ^ (e + 52 + 1) = ((2 ^ 53 : ℤ) : ℚ) * 2 ^ e := by
        rw [add_assoc, zpow_add₀ two_ne_zero, mul_comm]
        norm_num
      have hlast : (k : ℚ) + 1 ≤ ((2 ^ 53 : ℤ) : ℚ) := by
        rw [hy, hunits, mul_lt_mul_iff_left₀ he, Int.cast_lt] at hhigh
        exact_mod_cast hhigh
      have hroom := mul_le_mul_of_nonneg_right hlast he.le
      exact ⟨fun h => by linarith, fun h => by linarith⟩

lemma abs_double_sub_le (h : 0 ≤ q) : |double q - q| ≤ q * 2 ^ (-53 : ℤ) := by
  rcases h.eq_or_lt with rfl | hpos
  · simp [double]
  · have hulp : (0 : ℚ) < 2 ^ (Int.log 2 |q| - 52) := by positivity
    have hhalf := abs_roundEven_sub_le (q / 2 ^ (Int.log 2 |q| - 52))
    have hlog : (2 : ℚ) ^ Int.log 2 |q| ≤ q := by
      rw [abs_of_pos hpos]
      exact_mod_cast Int.zpow_log_le_self (b := 2) (by norm_num) hpos
    rw [double]
    simp only [if_neg hpos.ne']
    calc |(roundEven (q / 2 ^ (Int.log 2 |q| - 52)) : ℚ) * 2 ^ (Int.log 2 |q| - 52) - q|
        = |(roundEven (q / 2 ^ (Int.log 2 |q| - 52)) : ℚ) - q / 2 ^ (Int.log 2 |q| - 52)| *
            2 ^ (Int.log 2 |q| - 52) := by
          rw [← abs_of_pos hulp, ← abs_mul, sub_mul, abs_of_pos hulp, div_mul_cancel₀ _ hulp.ne']
      _ ≤ 1 / 2 * 2 ^ (Int.log 2 |q| - 52) := mul_le_mul_of_nonneg_right hhalf hulp.le
      _ = 2 ^ Int.log 2 |q| * 2 ^ (-53 : ℤ) := by
          rw [show Int.log 2 |q| - 52 = Int.log 2 |q| + (-53) + 1 by ring, zpow_add₀ two_ne_zero,
            zpow_add₀ two_ne_zero]
          ring
      _ ≤ q * 2 ^ (-53 : ℤ) := mul_le_mul_of_nonneg_right hlog (by positivity)

lemma double_zero : double 0 = 0 := by rw [double, if_pos rfl]

lemma double_nonneg (h : 0 ≤ x) : 0 ≤ double x := by
  rcases h.eq_or_lt with rfl | hpos
  · exact double_zero.ge
  · exact (zpow_pos two_pos _).le.trans (zpow_log_le_double hpos)

lemma roundEven_mono (h : q ≤ x) : roundEven q ≤ roundEven x := by
  rw [roundEven_le_iff]
  rcases roundEven_le_iff.mp (le_refl (roundEven x)) with hx | ⟨hx, heven⟩
  · exact Or.inl (by linarith)
  · rcases h.lt_or_eq with hlt | rfl
    · exact Or.inl (by linarith)
    · exact Or.inr ⟨hx, heven⟩

/-- Rounding to a double keeps the order: within one power of two the unit is the same, and powers are exact. -/
lemma double_mono (hx : 0 ≤ x) (h : x ≤ y) : double x ≤ double y := by
  rcases hx.eq_or_lt with rfl | hpos
  · rw [double_zero]
    exact double_nonneg h
  have hy := hpos.trans_le h
  rcases (Int.log_mono_right (b := 2) hpos h).eq_or_lt with hlog | hlog
  · rw [double_eq hpos, double_eq hy, hlog]
    have hunit : (0 : ℚ) < 2 ^ (Int.log 2 y - 52) := by positivity
    refine mul_le_mul_of_nonneg_right (Int.cast_le.mpr (roundEven_mono ?_)) hunit.le
    exact div_le_div_of_nonneg_right h hunit.le
  · have hbelow : x ≤ 2 ^ (Int.log 2 x + 1) := by
      exact_mod_cast (Int.lt_zpow_succ_log_self (b := 2) (by norm_num) x).le
    calc double x ≤ 2 ^ (Int.log 2 x + 1) := double_le_zpow hpos hbelow
      _ ≤ 2 ^ Int.log 2 y := zpow_le_zpow_right₀ (by norm_num) hlog
      _ ≤ double y := zpow_log_le_double hy

end Reaper.Library
