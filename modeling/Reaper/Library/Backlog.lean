import Mathlib.Data.List.Sort
import Mathlib.Tactic.Linarith

/-! A backlog that is served from its front, some of it in each round, while other steps only shrink it. -/

namespace Reaper.Library.Backlog

variable {α σ : Type}

lemma countP_drop {l : List α} {p : α → Bool} (h : l.Pairwise fun a b => p b = true → p a = true) (n : ℕ) :
    (l.drop n).countP p = l.countP p - n := by
  induction l generalizing n with
  | nil => simp
  | cons a l ih =>
    obtain ⟨ha, hl⟩ := List.pairwise_cons.mp h
    cases n with
    | zero => simp
    | succ n =>
      rw [List.drop_succ_cons, ih hl n, List.countP_cons]
      split_ifs with hp
      · omega
      · have hnone : l.countP p = 0 := List.countP_eq_zero.mpr fun b hb hpb => hp (ha b hb hpb)
        omega

inductive Rounds (round other : σ → σ → Prop) : σ → ℕ → σ → Prop
  | done {s : σ} : Rounds round other s 0 s
  | round {s s₁ s' : σ} {n : ℕ} (first : round s s₁) (rest : Rounds round other s₁ n s') :
    Rounds round other s (n + 1) s'
  | other {s s₁ s' : σ} {n : ℕ} (first : other s s₁) (rest : Rounds round other s₁ n s') :
    Rounds round other s n s'

variable {round other : σ → σ → Prop} {s s' : σ} {n : ℕ}

lemma Rounds.keeps {P : σ → Prop} (hround : ∀ s s', P s → round s s' → P s')
    (hother : ∀ s s', P s → other s s' → P s') (hs : P s) (h : Rounds round other s n s') : P s' := by
  induction h with
  | done => exact hs
  | round first _ ih => exact ih (hround _ _ hs first)
  | other first _ ih => exact ih (hother _ _ hs first)

lemma Rounds.backlog {P : σ → Prop} {m : σ → ℕ} {limit : ℕ}
    (hround : ∀ s s', P s → round s s' → P s' ∧ m s' ≤ m s - limit)
    (hother : ∀ s s', P s → other s s' → P s' ∧ m s' ≤ m s) (hs : P s)
    (h : Rounds round other s n s') : m s' ≤ m s - n * limit := by
  induction h with
  | done => omega
  | round first _ ih =>
    obtain ⟨hs₁, hle⟩ := hround _ _ hs first
    have hrest := ih hs₁
    rw [Nat.add_mul]
    omega
  | other first _ ih =>
    obtain ⟨hs₁, hle⟩ := hother _ _ hs first
    have hrest := ih hs₁
    omega

end Reaper.Library.Backlog
