import Mathlib.Tactic

/-! Progress along an infinite run: a bound that fair occurrences bring down. -/

namespace Reaper.Library

def WeaklyFair (enabled occurs : ℕ → Prop) : Prop := ∀ k, (∀ m ≥ k, enabled m) → ∃ m ≥ k, occurs m

def Lasts (stage : ℕ → ℕ → Prop) (k m : ℕ) : Prop := ∀ l, k ≤ l → l ≤ m → ∃ n, stage l n

structure Descends (enabled occurs goal : ℕ → Prop) (stage : ℕ → ℕ → Prop) : Prop where
  able : ∀ m n, stage m n → enabled m
  next : ∀ m n, stage m n → goal m ∨ ∃ n' ≤ n, stage (m + 1) n' ∧ (occurs m → n' < n)

variable {enabled occurs goal : ℕ → Prop} {stage : ℕ → ℕ → Prop} {k l m n : ℕ}

lemma Lasts.refl (h : stage k n) : Lasts stage k k := by
  intro l hk hm
  obtain rfl := Nat.le_antisymm hm hk
  exact ⟨n, h⟩

lemma Lasts.trans (h : Lasts stage k l) (h' : Lasts stage (l + 1) m) : Lasts stage k m := by
  intro j hk hm
  by_cases hj : j ≤ l
  · exact h j hk hj
  · exact h' j (Nat.lt_of_not_le hj) hm

lemma Lasts.succ (h : Lasts stage k m) (hm : stage (m + 1) n) : Lasts stage k (m + 1) := h.trans (.refl hm)

lemma Descends.lasts (h : Descends enabled occurs goal stage) (hs : stage k n) (hm : k ≤ m) :
    Lasts stage k m ∨ ∃ l, k ≤ l ∧ l < m ∧ goal l ∧ Lasts stage k l := by
  induction m, hm using Nat.le_induction with
  | base => exact Or.inl (.refl hs)
  | succ m hm ih =>
    rcases ih with hlasts | ⟨l, hk, hl, hgoal⟩
    · obtain ⟨n', hn'⟩ := hlasts m hm le_rfl
      rcases h.next m n' hn' with hgoal | ⟨n'', -, hnext, -⟩
      · exact Or.inr ⟨m, hm, Nat.lt_succ_self m, hgoal, hlasts⟩
      · exact Or.inl (hlasts.succ hnext)
    · exact Or.inr ⟨l, hk, Nat.lt_succ_of_lt hl, hgoal⟩

lemma Descends.stays (h : Descends enabled occurs goal stage) (hs : stage k n) (hm : k ≤ m)
    (hnone : ∀ l, k ≤ l → l < m → ¬ goal l) : Lasts stage k m ∧ ∃ n' ≤ n, stage m n' := by
  induction m, hm using Nat.le_induction with
  | base => exact ⟨.refl hs, n, le_rfl, hs⟩
  | succ m hm ih =>
    obtain ⟨hlasts, n', hle, hn'⟩ := ih fun l hk hl => hnone l hk (Nat.lt_succ_of_lt hl)
    obtain ⟨n'', hle', hnext, -⟩ := (h.next m n' hn').resolve_left (hnone m hm (Nat.lt_succ_self m))
    exact ⟨hlasts.succ hnext, n'', hle'.trans hle, hnext⟩

lemma Descends.reaches (h : Descends enabled occurs goal stage) (hfair : WeaklyFair enabled occurs) (hs : stage k n) :
    ∃ m ≥ k, goal m ∧ Lasts stage k m := by
  induction n using Nat.strong_induction_on generalizing k with
  | _ n ih =>
    by_cases hsome : ∃ m, k ≤ m ∧ (goal m ∨ occurs m)
    · classical
      -- the first moment with the goal or an occurrence
      obtain ⟨hk, hfirst⟩ := Nat.find_spec hsome
      set m := Nat.find hsome with hm
      have hnone : ∀ l, k ≤ l → l < m → ¬ goal l := fun l hkl hl hgoal =>
        Nat.find_min hsome hl ⟨hkl, Or.inl hgoal⟩
      obtain ⟨hlasts, n', hle, hn'⟩ := h.stays hs hk hnone
      rcases h.next m n' hn' with hgoal | ⟨n'', -, hnext, hless⟩
      · exact ⟨m, hk, hgoal, hlasts⟩
      · rcases hfirst with hgoal | hoccurs
        · exact ⟨m, hk, hgoal, hlasts⟩
        · obtain ⟨m', hm', hgoal, hlasts'⟩ := ih n'' ((hless hoccurs).trans_le hle) hnext
          exact ⟨m', hk.trans ((Nat.le_succ m).trans hm'), hgoal, hlasts.trans hlasts'⟩
    · have hnone : ∀ l, k ≤ l → ¬ goal l ∧ ¬ occurs l := fun l hl =>
        not_or.mp fun hno => hsome ⟨l, hl, hno⟩
      have henabled : ∀ m ≥ k, enabled m := fun m hm => by
        obtain ⟨-, n', -, hn'⟩ := h.stays hs hm fun l hl _ => (hnone l hl).1
        exact h.able m n' hn'
      obtain ⟨m, hm, hoccurs⟩ := hfair k henabled
      exact absurd hoccurs (hnone m hm).2

end Reaper.Library
