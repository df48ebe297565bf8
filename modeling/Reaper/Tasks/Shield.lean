import Mathlib.Logic.Function.Iterate
import Reaper.Tasks.Cleanup

/-! shield_cleanup under any number of cancellations. The first wait is on a shield of the operation,
the second one on the operation itself. -/

namespace Reaper.Tasks

variable {σ A : Type}

structure Operation (σ A : Type) where
  progress : σ → σ ⊕ Except Failure A
  cancel : σ → σ

inductive Caller (A : Type)
  | shielded
  /-- in await cleanup, with the cancellation that it will raise again -/
  | waiting (cancellation : Failure)
  | left (outcome : Except Failure A)

structure Shield (σ A : Type) where
  cleanup : σ ⊕ Except Failure A
  outer : Option (Except Failure A) := none
  mustCancel : Bool := false
  caller : Caller A := .shielded
  /-- how many cancellations the caller and the operation have got -/
  arrived : ℕ := 0
  passedOn : ℕ := 0

inductive Moment
  | cancel
  | progress
  /-- the shield learns that the operation is done -/
  | propagate
  | resume
  deriving DecidableEq

def thrown (mustCancel : Bool) (r : Except Failure A) : Except Failure A :=
  match mustCancel, r with
  | false, r => r
  | true, .error e => if e.isCancelled then .error e else .error cancelledError
  | true, .ok _ => .error cancelledError

def noted (cancellation : Failure) : Except Failure A → Failure
  | .ok _ => cancellation
  | .error failure => noteCleanupFailure cancellation failure "cancelled operation"

def afterShield (cleanup : σ ⊕ Except Failure A) : Except Failure A → Caller A
  | .ok a => .left (.ok a)
  | .error e =>
    if e.isCancelled then
      match cleanup with
      | .inl _ => .waiting e
      | .inr r => .left (.error (noted e r))
    else .left (.error e)

namespace Shield

def enter : σ ⊕ Except Failure A → Shield σ A
  | .inl t => { cleanup := .inl t }
  | .inr r => { cleanup := .inr r, caller := afterShield (.inr r : σ ⊕ Except Failure A) r }

def cancel (op : Operation σ A) (s : Shield σ A) : Option (Shield σ A) :=
  let s : Shield σ A := { s with arrived := s.arrived + 1 }
  match s.caller, s.outer, s.cleanup with
  | .shielded, none, _ => some { s with outer := some (.error cancelledError) }
  | .shielded, some _, _ => some { s with mustCancel := true }
  | .waiting _, _, .inl t => some { s with cleanup := .inl (op.cancel t), passedOn := s.passedOn + 1 }
  | .waiting _, _, .inr _ => some { s with mustCancel := true }
  | .left _, _, _ => none

def propagate (s : Shield σ A) : Option (Shield σ A) :=
  match s.cleanup, s.outer with
  | .inr (.ok a), none => some { s with outer := some (.ok a) }
  | .inr (.error e), none =>
    some { s with outer := some (.error (if e.isCancelled then cancelledError else e)) }
  | _, _ => none

def resume (s : Shield σ A) : Option (Shield σ A) :=
  match s.caller, s.outer, s.cleanup with
  | .shielded, some r, cleanup =>
    some { s with mustCancel := false, caller := afterShield cleanup (thrown s.mustCancel r) }
  | .waiting e, _, .inr r =>
    some { s with mustCancel := false, caller := .left (.error (noted e (thrown s.mustCancel r))) }
  | _, _, _ => none

def step (op : Operation σ A) (s : Shield σ A) : Moment → Option (Shield σ A)
  | .cancel => s.cancel op
  | .progress =>
    match s.cleanup with
    | .inl t => some { s with cleanup := op.progress t }
    | .inr _ => none
  | .propagate => s.propagate
  | .resume => s.resume

def run (op : Operation σ A) : Shield σ A → List Moment → Option (Shield σ A)
  | s, [] => some s
  | s, m :: ms => (s.step op m).bind fun s' => run op s' ms

def exposed (s : Shield σ A) : Bool :=
  match s.caller, s.cleanup with
  | .waiting _, .inl _ => true
  | _, _ => false

end Shield

def Operation.next (op : Operation σ A) : σ ⊕ Except Failure A → σ ⊕ Except Failure A
  | .inl t => op.progress t
  | .inr r => .inr r

/-- The operation is not cancelled and runs on by itself, the caller has not left it unfinished, and
it raises a cancellation if one has arrived. -/
structure Shields (op : Operation σ A) (start : σ ⊕ Except Failure A) (s : Shield σ A) : Prop where
  passedOn : s.passedOn = 0
  undisturbed : ∃ n, s.cleanup = op.next^[n] start
  finished : ∀ r, s.caller = .left r → ∃ outcome, s.cleanup = .inr outcome
  cancelled : 0 < s.arrived → ∀ r, s.caller = .left r → ∃ e, r = .error e ∧ e.isCancelled = true

structure Held (s : Shield σ A) : Prop where
  finished : ∀ r, s.caller = .left r → ∃ outcome, s.cleanup = .inr outcome
  outer : ∀ r, s.outer = some r → (∃ outcome, s.cleanup = .inr outcome) ∨
    ∃ e, r = .error e ∧ e.isCancelled = true
  waiting : ∀ e, s.caller = .waiting e → e.isCancelled = true
  cancelled : 0 < s.arrived →
    match s.caller with
    | .shielded => s.mustCancel = true ∨ ∃ e, s.outer = some (.error e) ∧ e.isCancelled = true
    | .waiting _ => True
    | .left r => ∃ e, r = .error e ∧ e.isCancelled = true

section Held

variable {op : Operation σ A} {s s' : Shield σ A} {m : Moment} {ms : List Moment}
  {start : σ ⊕ Except Failure A} {r : Except Failure A} {e : Failure} {b : Bool}

lemma noted_isCancelled (h : e.isCancelled = true) (r : Except Failure A) :
    (noted e r).isCancelled = true := by
  cases r with
  | ok a => exact h
  | error failure => exact h

lemma thrown_cancelled (h : b = true ∨ ∃ e, r = .error e ∧ e.isCancelled = true) :
    ∃ e, thrown b r = .error e ∧ e.isCancelled = true := by
  cases b with
  | false =>
    obtain h | ⟨e, rfl, he⟩ := h
    · cases h
    · exact ⟨e, rfl, he⟩
  | true =>
    cases r with
    | ok a => exact ⟨_, rfl, rfl⟩
    | error e =>
      rw [thrown]
      split_ifs with he
      · exact ⟨e, rfl, he⟩
      · exact ⟨_, rfl, rfl⟩

lemma thrown_eq (b : Bool) (r : Except Failure A) :
    (∃ e, thrown b r = .error e ∧ e.isCancelled = true) ∨ thrown b r = r := by
  cases b with
  | false => exact Or.inr rfl
  | true => exact Or.inl (thrown_cancelled (Or.inl rfl))

lemma afterShield_cancelled {cleanup : σ ⊕ Except Failure A} (h : ∃ e, r = .error e ∧ e.isCancelled = true) :
    (∃ t e, cleanup = .inl t ∧ afterShield cleanup r = .waiting e ∧ e.isCancelled = true) ∨
    ∃ outcome e, cleanup = .inr outcome ∧ afterShield cleanup r = .left (.error e) ∧
      e.isCancelled = true := by
  obtain ⟨e, rfl, he⟩ := h
  cases cleanup with
  | inl t => exact Or.inl ⟨t, e, rfl, by rw [afterShield, if_pos he], he⟩
  | inr outcome =>
    exact Or.inr ⟨outcome, _, rfl, by rw [afterShield, if_pos he], noted_isCancelled he outcome⟩

lemma afterShield_finished {outcome : Except Failure A} :
    ∃ r', afterShield (.inr outcome : σ ⊕ Except Failure A) r = .left r' := by
  cases r with
  | ok a => exact ⟨_, rfl⟩
  | error e =>
    rw [afterShield]
    split_ifs
    · exact ⟨_, rfl⟩
    · exact ⟨_, rfl⟩

lemma enter_held : Held (Shield.enter start) := by
  cases start with
  | inl t => exact ⟨nofun, nofun, nofun, nofun⟩
  | inr r =>
    obtain ⟨r', hr⟩ : ∃ r', afterShield (.inr r : σ ⊕ Except Failure A) r = .left r' :=
      afterShield_finished
    refine ⟨fun _ _ => ⟨r, rfl⟩, nofun, fun e he => ?_, nofun⟩
    cases hr.symm.trans he

lemma Held.cancel (h : Held s) (hs : s.cancel op = some s') : Held s' := by
  rw [Shield.cancel] at hs
  dsimp only at hs
  split at hs
  · next hc _ =>
    cases hs
    refine ⟨h.finished, fun r hr => ?_, h.waiting, fun _ => ?_⟩
    · cases hr
      exact Or.inr ⟨_, rfl, rfl⟩
    · rw [hc]
      exact Or.inr ⟨_, rfl, rfl⟩
  · next hc _ =>
    cases hs
    refine ⟨h.finished, h.outer, h.waiting, fun _ => ?_⟩
    rw [hc]
    exact Or.inl rfl
  · next t hc ht =>
    cases hs
    refine ⟨fun r hr => ?_, fun r hr => ?_, h.waiting, fun _ => ?_⟩
    · cases hc.symm.trans hr
    · refine (h.outer r hr).imp_left ?_
      rintro ⟨outcome, ho⟩
      cases ht.symm.trans ho
    · rw [hc]
      trivial
  · next hc _ =>
    cases hs
    refine ⟨h.finished, h.outer, h.waiting, fun _ => ?_⟩
    rw [hc]
    trivial
  · cases hs

lemma Held.progress (h : Held s) {t : σ} (ht : s.cleanup = .inl t) :
    Held { s with cleanup := op.progress t } := by
  refine ⟨fun r hr => ?_, fun r hr => ?_, h.waiting, h.cancelled⟩
  · obtain ⟨outcome, ho⟩ := h.finished r hr
    cases ht.symm.trans ho
  · refine (h.outer r hr).imp_left ?_
    rintro ⟨outcome, ho⟩
    cases ht.symm.trans ho

lemma Held.propagate (h : Held s) (hs : s.propagate = some s') : Held s' := by
  have hset : ∀ outcome r, s.cleanup = .inr outcome → s.outer = none → Held { s with outer := some r } := by
    intro outcome r hi ho
    refine ⟨h.finished, fun _ _ => Or.inl ⟨outcome, hi⟩, h.waiting, fun ha => ?_⟩
    have hcan := h.cancelled ha
    cases hc : s.caller with
    | shielded =>
      rw [hc] at hcan
      obtain hm | ⟨e, he, -⟩ := hcan
      · exact Or.inl hm
      · cases ho.symm.trans he
    | waiting e => trivial
    | left r =>
      rw [hc] at hcan
      exact hcan
  rw [Shield.propagate] at hs
  split at hs
  · next a hi ho =>
    cases hs
    exact hset _ _ hi ho
  · next e hi ho =>
    cases hs
    exact hset _ _ hi ho
  · cases hs

lemma Held.resume (h : Held s) (hs : s.resume = some s') : Held s' := by
  rw [Shield.resume] at hs
  split at hs
  · next r hc ho =>
    cases hs
    -- either a cancellation is thrown, or the operation is done and its outcome is thrown
    have hthrown : (∃ e, thrown s.mustCancel r = .error e ∧ e.isCancelled = true) ∨
        ∃ outcome, s.cleanup = .inr outcome := by
      obtain he | he := thrown_eq s.mustCancel r
      · exact Or.inl he
      · obtain ho | hcan := h.outer r ho
        · exact Or.inr ho
        · rw [he]
          exact Or.inl hcan
    have hleft : ∀ r', afterShield s.cleanup (thrown s.mustCancel r) = .left r' →
        ∃ outcome, s.cleanup = .inr outcome := by
      intro r' hr'
      obtain hcan | ho := hthrown
      · obtain ⟨t, e, -, hw, -⟩ | ⟨outcome, e, hi, -, -⟩ := afterShield_cancelled hcan
        · cases hw.symm.trans hr'
        · exact ⟨outcome, hi⟩
      · exact ho
    refine ⟨hleft, h.outer, fun e he => ?_, fun ha => ?_⟩
    · obtain hcan | ⟨outcome, hi⟩ := hthrown
      · obtain ⟨t, e', -, hw, he'⟩ | ⟨outcome, e', -, hl, -⟩ := afterShield_cancelled hcan
        · cases hw.symm.trans he
          exact he'
        · cases hl.symm.trans he
      · obtain ⟨r', hr'⟩ := afterShield_finished (σ := σ) (r := thrown s.mustCancel r)
        dsimp only at he
        rw [hi, hr'] at he
        cases he
    · have hcan := h.cancelled ha
      rw [hc] at hcan
      have hthrow : ∃ e, thrown s.mustCancel r = .error e ∧ e.isCancelled = true := by
        refine thrown_cancelled (hcan.imp_right ?_)
        rintro ⟨e, he, hec⟩
        cases ho.symm.trans he
        exact ⟨e, rfl, hec⟩
      dsimp only
      obtain ⟨t, e, -, hw, he⟩ | ⟨outcome, e, -, hl, he⟩ := afterShield_cancelled hthrow
      · rw [hw]
        trivial
      · rw [hl]
        exact ⟨e, rfl, he⟩
  · next e r hc hi =>
    cases hs
    exact ⟨fun _ _ => ⟨r, hi⟩, h.outer, nofun, fun _ => ⟨_, rfl, noted_isCancelled (h.waiting e hc) _⟩⟩
  · cases hs

lemma step_held (h : Held s) (hs : s.step op m = some s') : Held s' := by
  cases m with
  | cancel => exact h.cancel hs
  | progress =>
    rw [Shield.step] at hs
    split at hs
    · next t ht =>
      cases hs
      exact h.progress ht
    · cases hs
  | propagate => exact h.propagate hs
  | resume => exact h.resume hs

lemma run_held (h : Held s) (hr : s.run op ms = some s') : Held s' := by
  induction ms generalizing s with
  | nil =>
    cases hr
    exact h
  | cons m ms ih =>
    obtain ⟨u, hs, hr⟩ := Option.bind_eq_some_iff.mp hr
    exact ih (step_held h hs) hr

end Held

section Exposed

variable {op : Operation σ A} {s s' : Shield σ A} {m : Moment} {ms : List Moment}

def Unexposed (op : Operation σ A) (s : Shield σ A) (ms : List Moment) : Prop :=
  ∀ before after, ms = before ++ .cancel :: after → ∀ u, s.run op before = some u → u.exposed = false

lemma step_exposed (hs : s.step op m = some s') :
    m = .cancel ∧ s.exposed = true ∧ s'.passedOn = s.passedOn + 1 ∨
    (m = .cancel → s.exposed = false) ∧ s'.passedOn = s.passedOn ∧
      (s'.cleanup = s.cleanup ∨ s'.cleanup = op.next s.cleanup) := by
  cases m with
  | cancel =>
    rw [Shield.step, Shield.cancel] at hs
    dsimp only at hs
    split at hs
    · next hc _ =>
      cases hs
      exact Or.inr ⟨fun _ => by rw [Shield.exposed, hc], rfl, Or.inl rfl⟩
    · next hc _ =>
      cases hs
      exact Or.inr ⟨fun _ => by rw [Shield.exposed, hc], rfl, Or.inl rfl⟩
    · next hc ht =>
      cases hs
      exact Or.inl ⟨rfl, by rw [Shield.exposed, hc, ht], rfl⟩
    · next hc hi =>
      cases hs
      exact Or.inr ⟨fun _ => by rw [Shield.exposed, hc, hi], rfl, Or.inl rfl⟩
    · cases hs
  | progress =>
    rw [Shield.step] at hs
    split at hs
    · next t ht =>
      cases hs
      exact Or.inr ⟨nofun, rfl, Or.inr (by rw [ht]; rfl)⟩
    · cases hs
  | propagate =>
    rw [Shield.step, Shield.propagate] at hs
    split at hs
    · cases hs
      exact Or.inr ⟨nofun, rfl, Or.inl rfl⟩
    · cases hs
      exact Or.inr ⟨nofun, rfl, Or.inl rfl⟩
    · cases hs
  | resume =>
    rw [Shield.step, Shield.resume] at hs
    split at hs
    · cases hs
      exact Or.inr ⟨nofun, rfl, Or.inl rfl⟩
    · cases hs
      exact Or.inr ⟨nofun, rfl, Or.inl rfl⟩
    · cases hs

lemma unexposed_cons {u : Shield σ A} (hs : s.step op m = some u) :
    Unexposed op s (m :: ms) ↔ (m = .cancel → s.exposed = false) ∧ Unexposed op u ms := by
  constructor
  · refine fun h => ⟨fun hm => h [] ms (by rw [hm]; rfl) s rfl, fun before after hms v hv => ?_⟩
    refine h (m :: before) after (by rw [hms]; rfl) v ?_
    rw [Shield.run, hs]
    exact hv
  · rintro ⟨hm, h⟩ before after hms v hv
    cases before with
    | nil =>
      cases hv
      exact hm (List.cons.inj hms).1
    | cons m' before =>
      obtain ⟨rfl, hrest⟩ := List.cons.inj hms
      rw [Shield.run, hs] at hv
      exact h before after hrest v hv

lemma run_passedOn (hr : s.run op ms = some s') : s.passedOn ≤ s'.passedOn ∧
    (s'.passedOn = s.passedOn ↔ Unexposed op s ms) ∧
    (Unexposed op s ms → ∃ n, s'.cleanup = op.next^[n] s.cleanup) := by
  induction ms generalizing s with
  | nil =>
    cases hr
    refine ⟨le_rfl, iff_of_true rfl fun before after h => ?_, fun _ => ⟨0, rfl⟩⟩
    cases before <;> cases h
  | cons m ms ih =>
    obtain ⟨u, hs, hr⟩ := Option.bind_eq_some_iff.mp hr
    obtain ⟨hle, hiff, hrun⟩ := ih hr
    rw [unexposed_cons hs]
    obtain ⟨hm, hexp, hpass⟩ | ⟨hm, hpass, hnext⟩ := step_exposed hs
    · refine ⟨by omega, iff_of_false (by omega) fun h => ?_, fun h => ?_⟩
      · cases hexp.symm.trans (h.1 hm)
      · cases hexp.symm.trans (h.1 hm)
    · refine ⟨by omega, ?_, fun h => ?_⟩
      · rw [← hpass, hiff, and_iff_right hm]
      · obtain ⟨n, hn⟩ := hrun h.2
        obtain heq | heq := hnext
        · exact ⟨n, heq ▸ hn⟩
        · exact ⟨n + 1, by rw [Function.iterate_succ_apply, ← heq, hn]⟩

/-- shield_cleanup shields its operation exactly if no cancellation arrives in its second wait, while
the operation is unfinished. -/
theorem shields_iff {start : σ ⊕ Except Failure A} (h : (Shield.enter start).run op ms = some s) :
    Shields op start s ↔ ∀ before after, ms = before ++ .cancel :: after →
      ∀ u, (Shield.enter start).run op before = some u → u.exposed = false := by
  have hheld := run_held enter_held h
  obtain ⟨-, hiff, hrun⟩ := run_passedOn h
  have hzero : (Shield.enter start).passedOn = 0 := by cases start <;> rfl
  have hstart : (Shield.enter start).cleanup = start := by cases start <;> rfl
  rw [hzero] at hiff
  rw [hstart] at hrun
  constructor
  · exact fun hs => hiff.mp hs.passedOn
  · intro hun
    refine ⟨hiff.mpr hun, hrun hun, hheld.finished, fun ha r hr => ?_⟩
    have hcan := hheld.cancelled ha
    rw [hr] at hcan
    exact hcan

def countdown : Operation (Option ℕ) Unit where
  progress
    | none => .inr (.error cancelledError)
    | some 0 => .inr (.ok ())
    | some (n + 1) => .inl (some n)
  cancel _ := none

def afterOne : Shield (Option ℕ) Unit where
  cleanup := .inr (.ok ())
  outer := some (.error cancelledError)
  caller := .left (.error cancelledError)
  arrived := 1

theorem shields_iff_countdown : Shields countdown (.inl (some 0)) afterOne ↔
    ∀ before after, [Moment.cancel, .resume, .progress, .resume] = before ++ .cancel :: after →
      ∀ u, (Shield.enter (.inl (some 0))).run countdown before = some u → u.exposed = false :=
  shields_iff rfl

theorem second_cancellation_passed_on : ∃ s : Shield (Option ℕ) Unit,
    (Shield.enter (.inl (some 3))).run countdown [.cancel, .resume, .cancel, .progress, .resume] =
      some s ∧ s.passedOn = 1 ∧ s.cleanup = .inr (.error cancelledError) ∧
    ¬ Shields countdown (.inl (some 3)) s :=
  ⟨_, rfl, rfl, rfl, fun h => by cases h.passedOn⟩

end Exposed

end Reaper.Tasks
