import Mathlib.Logic.Relation
import Mathlib.Tactic

/-! Wait-for graphs: where a chain of waits ends, and which orders exclude a cycle. -/

namespace Reaper.Library.WaitFor

open Relation

variable {α : Type} {r : α → α → Prop} {live ready : α → Prop}

theorem reaches_ready (rank : α → ℕ) (bound : ℕ) (hb : ∀ a, live a → rank a ≤ bound)
    (h : ∀ a, live a → ready a ∨ ∃ b, r a b ∧ live b ∧ rank a < rank b) {a : α} (ha : live a) :
    ∃ b, ReflTransGen r a b ∧ live b ∧ ready b := by
  induction hn : bound - rank a using Nat.strong_induction_on generalizing a with
  | _ n ih =>
    rcases h a ha with hr | ⟨b, hab, hlb, hlt⟩
    · exact ⟨a, .refl, ha, hr⟩
    · have hle := hb b hlb
      obtain ⟨c, hbc, hc⟩ := ih (bound - rank b) (by omega) hlb rfl
      exact ⟨c, .head hab hbc, hc⟩

theorem acyclic {β : Type} [Preorder β] (rank : α → β)
    (h : ∀ a b c, r a b → r b c → rank a < rank b) (a : α) : ¬ TransGen r a a := by
  have hrise : ∀ {b c}, TransGen r a b → r b c → rank a < rank b := by
    intro b c hab
    induction hab generalizing c with
    | single hab => exact h a _ c hab
    | tail _ hbc ih => exact fun hcd => (ih hbc).trans (h _ _ _ hbc hcd)
  intro hcycle
  obtain ⟨b, hab, -⟩ := TransGen.head'_iff.mp hcycle
  exact lt_irrefl _ (hrise hcycle hab)

end Reaper.Library.WaitFor
