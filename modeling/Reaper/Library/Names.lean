import Mathlib.Data.Nat.Digits.Defs
import Mathlib.Data.List.Basic
import Mathlib.Data.List.Induction
import Mathlib.Tactic.IntervalCases

/-! Texts that join a printed counter and a name with a separator can be taken apart again. -/

namespace Reaper.Library.Names

lemma digitChar_inj {m n : ℕ} (hm : m < 16) (hn : n < 16) (h : m.digitChar = n.digitChar) : m = n := by
  revert h
  interval_cases m <;> interval_cases n <;> decide

lemma digitChar_alphanum {n : ℕ} (hn : n < 16) : n.digitChar.isAlphanum := by
  interval_cases n <;> decide

lemma mem_toDigits {b : ℕ} (hb : 1 < b) (hb' : b ≤ 16) (n : ℕ) :
    ∀ c ∈ Nat.toDigits b n, c.isAlphanum := by
  induction n using Nat.strongRecOn with
  | ind n ih =>
    rw [Nat.toDigits_eq_if hb]
    split_ifs with h
    · simpa using digitChar_alphanum (by omega)
    · intro c hc
      rw [List.mem_append, List.mem_singleton] at hc
      rcases hc with hc | rfl
      · exact ih _ (Nat.div_lt_self (by omega) hb) c hc
      · exact digitChar_alphanum ((Nat.mod_lt _ (by omega)).trans_le hb')

lemma toDigits_inj {b : ℕ} (hb : 1 < b) (hb' : b ≤ 16) {m n : ℕ}
    (h : Nat.toDigits b m = Nat.toDigits b n) : m = n := by
  induction m using Nat.strongRecOn generalizing n with
  | ind m ih =>
    have hpos : ∀ k, Nat.toDigits b k ≠ [] := fun k => Nat.toDigits_ne_nil
    have hdig : ∀ k, Nat.toDigits b k =
        if k < b then [k.digitChar] else Nat.toDigits b (k / b) ++ [(k % b).digitChar] :=
      fun k => Nat.toDigits_eq_if hb
    rw [hdig m, hdig n] at h
    split_ifs at h with hm hn hn
    · exact digitChar_inj (by omega) (by omega) (List.cons.inj h).1
    · have hl := congrArg List.length h
      simp [hpos] at hl
    · have hl := congrArg List.length h
      simp [hpos] at hl
    · obtain ⟨hd, hc⟩ := List.append_inj' h rfl
      have hq := ih _ (Nat.div_lt_self (by omega) hb) hd
      have hr : m % b = n % b := digitChar_inj ((Nat.mod_lt _ (by omega)).trans_le hb')
        ((Nat.mod_lt _ (by omega)).trans_le hb') (List.cons.inj hc).1
      rw [← Nat.div_add_mod m b, ← Nat.div_add_mod n b, hq, hr]

lemma append_first {α : Type} {s : α} {xs xs' ys ys' : List α} (hx : s ∉ xs) (hx' : s ∉ xs')
    (h : xs ++ s :: ys = xs' ++ s :: ys') : xs = xs' ∧ ys = ys' := by
  induction xs generalizing xs' with
  | nil =>
    cases xs' with
    | nil => exact ⟨rfl, (List.cons.inj h).2⟩
    | cons x xs' =>
      rw [List.mem_cons, not_or] at hx'
      exact absurd (List.cons.inj h).1 hx'.1
  | cons x xs ih =>
    rw [List.mem_cons, not_or] at hx
    cases xs' with
    | nil => exact absurd (List.cons.inj h).1.symm hx.1
    | cons x' xs' =>
      rw [List.mem_cons, not_or] at hx'
      obtain ⟨he, ht⟩ := List.cons.inj h
      obtain ⟨hxs, hys⟩ := ih hx.2 hx'.2 ht
      exact ⟨by rw [he, hxs], hys⟩

lemma append_last {α : Type} {s : α} {xs xs' ys ys' : List α} (hy : s ∉ ys) (hy' : s ∉ ys')
    (h : xs ++ s :: ys = xs' ++ s :: ys') : xs = xs' ∧ ys = ys' := by
  have hr := congrArg List.reverse h
  simp only [List.reverse_append, List.reverse_cons, List.append_assoc, List.singleton_append] at hr
  obtain ⟨h₁, h₂⟩ := append_first (by simpa using hy) (by simpa using hy') hr
  exact ⟨List.reverse_injective h₂, List.reverse_injective h₁⟩

def joined {α : Type} (s : α) (p : List (List α × List α)) : List α :=
  p.flatMap fun e => s :: e.1 ++ s :: e.2

def Plain {α : Type} (s : α) (p : List (List α × List α)) : Prop := ∀ e ∈ p, s ∉ e.1 ∧ s ∉ e.2

lemma joined_append {α : Type} (s : α) (p q : List (List α × List α)) :
    joined s (p ++ q) = joined s p ++ joined s q := List.flatMap_append

lemma joined_split {α : Type} {s : α} {r r' : List α} {p p' : List (List α × List α)}
    (hp : Plain s p) (hp' : Plain s p') (h : r ++ joined s p = r' ++ joined s p') :
    ∃ q, (p = q ++ p' ∧ r' = r ++ joined s q) ∨ (p' = q ++ p ∧ r = r' ++ joined s q) := by
  induction p using List.reverseRecOn generalizing p' with
  | nil => exact ⟨p', Or.inr ⟨by simp, by simpa [joined] using h⟩⟩
  | append_singleton p e ih =>
    induction p' using List.reverseRecOn with
    | nil => exact ⟨p ++ [e], Or.inl ⟨by simp, by simpa [joined] using h.symm⟩⟩
    | append_singleton p' e' =>
      have he := hp e (by simp)
      have he' := hp' e' (by simp)
      have hone : ∀ e : List α × List α, joined s [e] = s :: e.1 ++ s :: e.2 := fun e => by
        simp [joined]
      rw [joined_append, joined_append, hone, hone, ← List.append_assoc, ← List.append_assoc,
        ← List.append_assoc, ← List.append_assoc] at h
      obtain ⟨h₁, hsecond⟩ := append_last he.2 he'.2 h
      obtain ⟨h₂, hfirst⟩ := append_last he.1 he'.1 h₁
      have heq : e = e' := Prod.ext hfirst hsecond
      subst heq
      obtain ⟨q, hq⟩ := ih (fun a ha => hp a (by simp [ha])) (fun a ha => hp' a (by simp [ha])) h₂
      refine ⟨q, hq.imp (fun hh => ⟨?_, hh.2⟩) fun hh => ⟨?_, hh.2⟩⟩
      · rw [hh.1, List.append_assoc]
      · rw [hh.1, List.append_assoc]

end Reaper.Library.Names
