import Mathlib.Tactic

/-! Programs that deliver events to a reducer, which may refuse one by raising. A program that keeps
to the stages of a protocol has every event accepted. -/

namespace Reaper.Library.Protocol

structure Program (L A E : Type) where
  start : L × Option E
  resume : L → A → Option (L × Option E)

variable {L A E C S : Type}

def deliver (apply : C → E → Option C) (c : C) : Option E → Option C
  | none => some c
  | some e => apply c e

inductive Reaches (p : Program L A E) (apply : C → E → Option C) (c₀ : C) : List E → L → C → Prop
  | start {c} (hd : deliver apply c₀ p.start.2 = some c) :
    Reaches p apply c₀ p.start.2.toList p.start.1 c
  | step {es l c a r c'} (h : Reaches p apply c₀ es l c) (hr : p.resume l a = some r)
    (hd : deliver apply c r.2 = some c') : Reaches p apply c₀ (es ++ r.2.toList) r.1 c'

def run (p : Program L A E) (apply : C → E → Option C) (c₀ : C) : List A → Option (List E × L × C)
  | [] => (deliver apply c₀ p.start.2).map fun c => (p.start.2.toList, p.start.1, c)
  | a :: as => do
    let (es, l, c) ← run p apply c₀ as
    let r ← p.resume l a
    let c' ← deliver apply c r.2
    return (es ++ r.2.toList, r.1, c')

lemma reaches_of_run {p : Program L A E} {apply : C → E → Option C} {c₀ : C} {as : List A}
    {x : List E × L × C} (h : run p apply c₀ as = some x) : Reaches p apply c₀ x.1 x.2.1 x.2.2 := by
  induction as generalizing x with
  | nil =>
    obtain ⟨c, hd, rfl⟩ := Option.map_eq_some_iff.mp h
    exact .start hd
  | cons a as ih =>
    simp only [run, Option.bind_eq_bind, Option.bind_eq_some_iff, Option.pure_def,
      Option.some.injEq] at h
    obtain ⟨⟨es, l, c⟩, hrun, r, hr, c', hd, rfl⟩ := h
    exact (ih hrun).step hr hd

def Moves (accepts : S → E → S → Prop) (s : S) : Option E → S → Prop
  | none, s' => s' = s
  | some e, s' => accepts s e s'

inductive Path (accepts : S → E → S → Prop) (s₀ : S) : List E → S → Prop
  | nil : Path accepts s₀ [] s₀
  | snoc {es s e s'} (h : Path accepts s₀ es s) (ha : accepts s e s') : Path accepts s₀ (es ++ [e]) s'

structure Speaks (p : Program L A E) (accepts : S → E → S → Prop) (s₀ : S) (I : L → S → Prop) :
    Prop where
  start : ∃ s, Moves accepts s₀ p.start.2 s ∧ I p.start.1 s
  step : ∀ {l s a r}, I l s → p.resume l a = some r → ∃ s', Moves accepts s r.2 s' ∧ I r.1 s'

def Follows (apply : C → E → Option C) (accepts : S → E → S → Prop) (R : S → C → Prop) : Prop :=
  ∀ {s e s' c}, R s c → accepts s e s' → ∃ c', apply c e = some c' ∧ R s' c'

section Speaks

variable {p : Program L A E} {apply : C → E → Option C} {accepts : S → E → S → Prop} {s₀ s s' : S}
  {c₀ c : C} {I : L → S → Prop} {R : S → C → Prop} {es : List E} {l : L}

lemma Path.move {e : Option E} (h : Path accepts s₀ es s) (hm : Moves accepts s e s') :
    Path accepts s₀ (es ++ e.toList) s' := by
  cases e with
  | none =>
    cases hm
    simpa using h
  | some e => exact h.snoc hm

lemma Follows.move {e : Option E} (hf : Follows apply accepts R) (hr : R s c)
    (hm : Moves accepts s e s') : ∃ c', deliver apply c e = some c' ∧ R s' c' := by
  cases e with
  | none =>
    cases hm
    exact ⟨c, rfl, hr⟩
  | some e => exact hf hr hm

lemma Speaks.reaches (hp : Speaks p accepts s₀ I) (hf : Follows apply accepts R) (hr : R s₀ c₀)
    (h : Reaches p apply c₀ es l c) : ∃ s, Path accepts s₀ es s ∧ I l s ∧ R s c := by
  induction h with
  | start hd =>
    obtain ⟨s, hm, hi⟩ := hp.start
    obtain ⟨c', hd', hr'⟩ := hf.move hr hm
    cases hd.symm.trans hd'
    exact ⟨s, Path.nil.move hm, hi, hr'⟩
  | step _ hstep hd ih =>
    obtain ⟨s, hpath, hi, hrel⟩ := ih
    obtain ⟨s', hm, hi'⟩ := hp.step hi hstep
    obtain ⟨c', hd', hr'⟩ := hf.move hrel hm
    cases hd.symm.trans hd'
    exact ⟨s', hpath.move hm, hi', hr'⟩

lemma Speaks.accepted (hp : Speaks p accepts s₀ I) (hf : Follows apply accepts R) (hr : R s₀ c₀) :
    deliver apply c₀ p.start.2 ≠ none ∧ ∀ es l c a r, Reaches p apply c₀ es l c →
      p.resume l a = some r → deliver apply c r.2 ≠ none := by
  constructor
  · obtain ⟨s, hm, -⟩ := hp.start
    obtain ⟨c, hd, -⟩ := hf.move hr hm
    simp [hd]
  · intro es l c a r h hstep
    obtain ⟨s, -, hi, hrel⟩ := hp.reaches hf hr h
    obtain ⟨s', hm, -⟩ := hp.step hi hstep
    obtain ⟨c', hd, -⟩ := hf.move hrel hm
    simp [hd]

end Speaks

end Reaper.Library.Protocol
