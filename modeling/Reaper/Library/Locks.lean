import Mathlib.Logic.Function.Basic
import Mathlib.Data.List.Basic
import Mathlib.Tactic.Tauto

/-! Row locks of three strengths. Two holders never have conflicting locks on one row. -/

namespace Reaper.Library.Locks

inductive Mode
  | keyShare | noKeyUpdate | update
  deriving DecidableEq, Repr

def Mode.conflicts : Mode → Mode → Bool
  | .keyShare, .keyShare | .keyShare, .noKeyUpdate | .noKeyUpdate, .keyShare => false
  | _, _ => true

structure Lock (R : Type) where
  row : R
  mode : Mode
  deriving DecidableEq, Repr

variable {R I : Type}

def Owns (ls : List (Lock R)) (r : R) : Prop := ∃ l ∈ ls, l.row = r ∧ l.mode ≠ .keyShare

def Free (held : I → List (Lock R)) (k : I) (l : Lock R) : Prop :=
  ∀ j, j ≠ k → ∀ m ∈ held j, m.row = l.row → m.mode.conflicts l.mode = false

def Exclusive (held : I → List (Lock R)) : Prop := ∀ k, ∀ l ∈ held k, Free held k l

lemma Mode.conflicts_comm (m n : Mode) : m.conflicts n = n.conflicts m := by
  cases m <;> cases n <;> rfl

lemma Mode.conflicts_of_write {m n : Mode} (hm : m ≠ .keyShare) (hn : n ≠ .keyShare) :
    m.conflicts n = true := by
  cases m <;> cases n <;> first | rfl | contradiction

lemma Owns.cons {ls : List (Lock R)} {r : R} (h : Owns ls r) (l : Lock R) : Owns (l :: ls) r := by
  obtain ⟨m, hm, hr⟩ := h
  exact ⟨m, List.mem_cons_of_mem l hm, hr⟩

lemma Owns.head (ls : List (Lock R)) {l : Lock R} (h : l.mode ≠ .keyShare) : Owns (l :: ls) l.row :=
  ⟨l, List.mem_cons_self, rfl, h⟩

lemma Exclusive.not_owns {held : I → List (Lock R)} (h : Exclusive held) {j k : I} (hjk : j ≠ k)
    {r : R} (hj : Owns (held j) r) : ¬ Owns (held k) r := by
  rintro ⟨l, hl, hlr, hlm⟩
  obtain ⟨m, hm, hmr, hmm⟩ := hj
  have hf := h k l hl j hjk m hm (hmr.trans hlr.symm)
  rw [Mode.conflicts_of_write hmm hlm] at hf
  cases hf

variable [DecidableEq I]

lemma Exclusive.grant {held : I → List (Lock R)} (h : Exclusive held) {k : I} {new : List (Lock R)}
    (hf : ∀ l ∈ new, Free held k l) : Exclusive (Function.update held k (new ++ held k)) := by
  intro i m hm j hji n hn hr
  by_cases hi : i = k
  · subst hi
    rw [Function.update_self] at hm
    rw [Function.update_of_ne hji] at hn
    rcases List.mem_append.mp hm with hm | hm
    · exact hf m hm j hji n hn hr
    · exact h i m hm j hji n hn hr
  · rw [Function.update_of_ne hi] at hm
    by_cases hj : j = k
    · subst hj
      rw [Function.update_self] at hn
      rcases List.mem_append.mp hn with hn | hn
      · rw [Mode.conflicts_comm]
        exact hf n hn i hi m hm hr.symm
      · exact h i m hm j hji n hn hr
    · rw [Function.update_of_ne hj] at hn
      exact h i m hm j hji n hn hr

lemma Exclusive.release {held : I → List (Lock R)} (h : Exclusive held) (k : I) :
    Exclusive (Function.update held k []) := by
  intro i m hm j hji n hn hr
  by_cases hi : i = k
  · subst hi
    rw [Function.update_self] at hm
    cases hm
  · rw [Function.update_of_ne hi] at hm
    by_cases hj : j = k
    · subst hj
      rw [Function.update_self] at hn
      cases hn
    · rw [Function.update_of_ne hj] at hn
      exact h i m hm j hji n hn hr

end Reaper.Library.Locks
