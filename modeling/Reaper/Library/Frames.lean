import Mathlib.Tactic

/-! Numbers as big-endian bytes, and what a prefix of a concatenation has of its blocks. -/

namespace Reaper.Library

def bigEndian : ℕ → ℕ → List UInt8
  | 0, _ => []
  | w + 1, n => bigEndian w (n / 256) ++ [UInt8.ofNat n]

def ofBigEndian (bytes : List UInt8) : ℕ := bytes.foldl (fun acc b => acc * 256 + b.toNat) 0

@[simp] lemma bigEndian_length (w n : ℕ) : (bigEndian w n).length = w := by
  induction w generalizing n with
  | zero => rfl
  | succ w ih => rw [bigEndian, List.length_append, ih, List.length_singleton]

lemma ofBigEndian_concat (bytes : List UInt8) (b : UInt8) :
    ofBigEndian (bytes ++ [b]) = ofBigEndian bytes * 256 + b.toNat := by
  rw [ofBigEndian, List.foldl_append]
  rfl

lemma ofBigEndian_bigEndian (w n : ℕ) (h : n < 256 ^ w) : ofBigEndian (bigEndian w n) = n := by
  induction w generalizing n with
  | zero =>
    rw [pow_zero] at h
    simp [bigEndian, ofBigEndian, Nat.lt_one_iff.mp h]
  | succ w ih =>
    have hdiv : n / 256 < 256 ^ w := Nat.div_lt_of_lt_mul (by rwa [pow_succ'] at h)
    rw [bigEndian, ofBigEndian_concat, ih _ hdiv, UInt8.toNat_ofNat']
    omega

section Blocks

variable {α : Type}

def complete : ℕ → List (List α) → ℕ
  | _, [] => 0
  | n, block :: blocks => if block.length ≤ n then complete (n - block.length) blocks + 1 else 0

lemma complete_le (n : ℕ) (blocks : List (List α)) : complete n blocks ≤ blocks.length := by
  induction blocks generalizing n with
  | nil => exact le_rfl
  | cons block blocks ih =>
    rw [complete]
    split_ifs
    · exact Nat.succ_le_succ (ih _)
    · exact Nat.zero_le _

lemma take_flatten (n : ℕ) (blocks : List (List α)) :
    ∃ cut, blocks.flatten.take n = (blocks.take (complete n blocks)).flatten ++ cut ∧
      (cut = [] ∨ ∃ block, blocks[complete n blocks]? = some block ∧ cut <+: block ∧
        cut.length < block.length) := by
  induction blocks generalizing n with
  | nil => exact ⟨[], by simp [complete], Or.inl rfl⟩
  | cons block blocks ih =>
    by_cases hfits : block.length ≤ n
    · obtain ⟨cut, htake, hcut⟩ := ih (n - block.length)
      refine ⟨cut, ?_, by simpa [complete, hfits] using hcut⟩
      rw [List.flatten_cons, List.take_append, List.take_of_length_le hfits, htake]
      simp [complete, hfits]
    · refine ⟨block.take n, ?_, Or.inr ⟨block, by simp [complete, hfits], List.take_prefix n block, ?_⟩⟩
      · rw [List.flatten_cons, List.take_append_of_le_length (by omega)]
        simp [complete, hfits]
      · rw [List.length_take]
        omega

lemma flatMap_take {ι : Type} (block : ι → List α) (size : ι → ℕ) (order : List ι)
    (hsize : ∀ i ∈ order, size i ≤ (block i).length)
    (hparts : order.Pairwise fun i j => 0 < size i → size i < (block i).length → size j = 0) :
    ∃ (kept : List ι) (cut : List α), kept.Sublist order ∧
      order.flatMap (fun i => (block i).take (size i)) = kept.flatMap block ++ cut ∧
      (cut = [] ∨ ∃ i ∈ order, cut <+: block i ∧ cut.length < (block i).length) := by
  induction order with
  | nil => exact ⟨[], [], .slnil, rfl, Or.inl rfl⟩
  | cons i order ih =>
    obtain ⟨hlater, hrest⟩ := List.pairwise_cons.mp hparts
    obtain ⟨kept, cut, hkept, hstream, hcut⟩ :=
      ih (fun j hj => hsize j (List.mem_cons_of_mem _ hj)) hrest
    have hcut' : cut = [] ∨ ∃ j ∈ i :: order, cut <+: block j ∧ cut.length < (block j).length :=
      hcut.imp_right fun ⟨j, hj, hprefix⟩ => ⟨j, List.mem_cons_of_mem _ hj, hprefix⟩
    rw [List.flatMap_cons]
    by_cases hnone : size i = 0
    · exact ⟨kept, cut, hkept.cons i, by rw [hnone, List.take_zero, List.nil_append, hstream], hcut'⟩
    · by_cases hwhole : size i = (block i).length
      · refine ⟨i :: kept, cut, hkept.cons_cons i, ?_, hcut'⟩
        rw [hwhole, List.take_length, hstream, List.flatMap_cons, List.append_assoc]
      · have hlt := lt_of_le_of_ne (hsize i List.mem_cons_self) hwhole
        refine ⟨[], (block i).take (size i), List.nil_sublist _, ?_, Or.inr ⟨i, List.mem_cons_self, ?_⟩⟩
        · have hempty : order.flatMap (fun j => (block j).take (size j)) = [] := by
            rw [List.flatMap_eq_nil_iff]
            intro j hj
            rw [hlater j hj (Nat.pos_of_ne_zero hnone) hlt, List.take_zero]
          rw [hempty, List.append_nil, List.flatMap_nil, List.nil_append]
        · exact ⟨List.take_prefix _ _, by rw [List.length_take]; omega⟩

end Blocks

end Reaper.Library
