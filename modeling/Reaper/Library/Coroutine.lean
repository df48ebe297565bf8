import Mathlib.Tactic.Common

/-! Coroutines that may be cancelled once. A cancellation is delivered at one await of the coroutine
and raises there. An operation run as a task of its own is not reached by it. -/

namespace Reaper.Library

abbrev Coroutine (P E S : Type) := ExceptT E (StateM (Option P × S))

namespace Coroutine

variable {P E S A B : Type}

def read : Coroutine P E S S := fun s => (.ok s.2, s)

def update (f : S → S) : Coroutine P E S Unit := fun s => (.ok (), s.1, f s.2)

def spawn (x : Coroutine P E S A) : Coroutine P E S (Except E A) := fun s =>
  let y := x (none, s.2)
  (.ok y.1, s.1, y.2.2)

def join (r : Except E A) : Coroutine P E S A := fun s => (r, s)

def await [DecidableEq P] (cancelled : E) (p : P) (x : Coroutine P E S A) : Coroutine P E S A :=
  fun s =>
    let y := x s
    if y.2.1 = some p then (.error cancelled, none, y.2.2) else y

/-- Run f after x, whether x fails or not. A failure of f takes the place of the outcome. -/
def always (x : Coroutine P E S A) (f : Coroutine P E S Unit) : Coroutine P E S A := fun s =>
  match f (x s).2 with
  | (.ok (), t) => ((x s).1, t)
  | (.error e, t) => (.error e, t)

def Ends (x : Coroutine P E S A) (s : Option P × S) (Q : Except E A → Option P × S → Prop) : Prop :=
  Q (x s).1 (x s).2

lemma tryCatch_eq (x : Coroutine P E S A) (g : E → Coroutine P E S A) (s : Option P × S) :
    (tryCatch x g : Coroutine P E S A) s =
      match (x s).1 with
      | .ok a => (.ok a, (x s).2)
      | .error e => g e (x s).2 := by
  simp only [tryCatch, tryCatchThe, MonadExceptOf.tryCatch, ExceptT.tryCatch, ExceptT.mk, bind,
    StateT.bind]
  cases hx : x s with
  | mk r t => cases r <;> rfl

section Rules

variable {x : Coroutine P E S A} {f : A → Coroutine P E S B} {s : Option P × S}
  {Q R : Except E A → Option P × S → Prop}

lemma ends_of_eq {r : Except E A} {t : Option P × S} (h : x s = (r, t)) (hq : Q r t) : Ends x s Q := by
  rw [Ends]
  rw [h]
  exact hq

lemma Ends.mono (h : Ends x s Q) (hqr : ∀ r t, Q r t → R r t) : Ends x s R := hqr _ _ h

lemma Ends.and (h : Ends x s Q) (h' : Ends x s R) : Ends x s fun r t => Q r t ∧ R r t := ⟨h, h'⟩

lemma ends_self (x : Coroutine P E S A) (s : Option P × S) : Ends x s fun r t => x s = (r, t) := rfl

lemma ends_pure {a : A} (h : Q (.ok a) s) : Ends (pure a) s Q := h

lemma ends_throw {e : E} (h : Q (.error e) s) : Ends (throw e) s Q := h

lemma ends_read {Q : Except E S → Option P × S → Prop} (h : Q (.ok s.2) s) : Ends read s Q := h

lemma ends_update {g : S → S} {Q : Except E Unit → Option P × S → Prop}
    (h : Q (.ok ()) (s.1, g s.2)) : Ends (update g) s Q := h

lemma ends_join {r : Except E A} (h : Q r s) : Ends (join r) s Q := h

lemma ends_bind {Q : Except E B → Option P × S → Prop}
    (h : Ends x s fun r t => (∀ a, r = .ok a → Ends (f a) t Q) ∧ ∀ e, r = .error e → Q (.error e) t) :
    Ends (x >>= f) s Q := by
  rw [Ends] at *
  change Q (ExceptT.bindCont f (x s).1 (x s).2).1 (ExceptT.bindCont f (x s).1 (x s).2).2
  cases hr : (x s).1 with
  | ok a => exact h.1 a hr
  | error e => exact h.2 e hr

lemma ends_tryCatch {g : E → Coroutine P E S A}
    (h : Ends x s fun r t => (∀ a, r = .ok a → Q (.ok a) t) ∧ ∀ e, r = .error e → Ends (g e) t Q) :
    Ends (tryCatch x g) s Q := by
  rw [Ends] at *
  rw [tryCatch_eq]
  cases hr : (x s).1 with
  | ok a => exact h.1 a hr
  | error e => exact h.2 e hr

lemma ends_spawn {Q : Except E (Except E A) → Option P × S → Prop}
    (h : Ends x (none, s.2) fun r t => Q (.ok r) (s.1, t.2)) : Ends (spawn x) s Q := h

lemma ends_await [DecidableEq P] {c : E} {p : P}
    (h : Ends x s fun r t =>
      (t.1 = some p → Q (.error c) (none, t.2)) ∧ (t.1 ≠ some p → Q r t)) :
    Ends (await c p x) s Q := by
  rw [Ends, await] at *
  by_cases hp : (x s).2.1 = some p
  · simpa only [hp, if_true] using h.1 hp
  · simpa only [hp, if_false] using h.2 hp

lemma ends_always {f : Coroutine P E S Unit}
    (h : Ends x s fun r t => Ends f t fun q u =>
      (q = .ok () → Q r u) ∧ ∀ e, q = .error e → Q (.error e) u) : Ends (always x f) s Q := by
  unfold Ends always at *
  dsimp only at h
  cases hf : f (x s).2 with
  | mk q u =>
    rw [hf] at h
    cases q with
    | ok a => exact h.1 rfl
    | error e => exact h.2 e rfl

end Rules

end Coroutine

end Reaper.Library
