import Reaper.Store.Wakeups

/-! The counts over whole runs. RETRY and PROCESS_DUE settle with a snapshot that they took before
they locked the promise, and lose a wake-up when a wait on it was committed in between. Suspending
and settling in two statements lose none. -/

namespace Reaper.Store

open Reaper.Library Reaper.Library.Locks

namespace Action

def rejects : Action → Bool
  | .act (.reject _) => true
  | _ => false

def settlesDue : Action → Bool
  | .act .settleDue => true
  | _ => false

end Action

instance (db : Db) (s : Stage) : Decidable (RetrySees db s) :=
  match s with
  | .retrying task snap _ => inferInstanceAs (Decidable (SeesAll db snap [task.id]))
  | .opened | .claiming .. | .holding _ | .inserting .. | .suspending .. | .locking .. | .locked ..
  | .due _ | .timingOut _ | .waking .. | .done | .failed => isTrue trivial

instance (db : Db) (s : Stage) : Decidable (DueSees db s) :=
  match s with
  | .timingOut d => inferInstanceAs (Decidable (SeesAll db d.snap (d.timerDue ++ d.timeoutDue)))
  | .opened | .claiming .. | .holding _ | .inserting .. | .suspending .. | .locking .. | .locked ..
  | .retrying .. | .due _ | .waking .. | .done | .failed => isTrue trivial

namespace Sys

def along (p : Sys → ℕ → Action → Bool) : Sys → List (ℕ × Action) → Bool
  | _, [] => true
  | s, (k, a) :: as => p s k a && (s.step k a).all fun s' => along p s' as

def retrySees (s : Sys) (k : ℕ) (a : Action) : Bool :=
  !a.rejects || (s.txns.get k).all fun x => RetrySees s.committed x.stage

def dueSees (s : Sys) (k : ℕ) (a : Action) : Bool :=
  !a.settlesDue || (s.txns.get k).all fun x => DueSees s.committed x.stage

structure Counted (s : Sys) : Prop extends Sound s where
  exact : Exact s.committed
  tally : ∀ k x, s.txns.get k = some x → Tally s.committed x

variable {s s' : Sys} {k : ℕ} {a : Action} {as : List (ℕ × Action)}

lemma Counted.start {db : Db} (hw : Wf db) (he : Exact db) : Counted { committed := db } :=
  ⟨.start hw, he, fun _ _ hx => (by cases hx)⟩

lemma Counted.step (h : Counted s) (hs : s.step k a = some s')
    (hsees : ∀ b x, a = .act b → s.txns.get k = some x → Sees s.committed x.stage b) : Counted s' := by
  have hsound := (h.toSound.step hs).1
  obtain ⟨-, -, rfl⟩ | ⟨b, x, y, rfl, hx, hy, rfl⟩ | ⟨x, -, hx, hst, rfl⟩ | ⟨-, rfl⟩ := step_cases hs
  · exact ⟨hsound, h.exact, Dict.forall_set (fun j u _ hj => h.tally j u hj) (Tally.opened h.exact)⟩
  · exact ⟨hsound, h.exact, Dict.forall_set (fun j u _ hj => h.tally j u hj)
      ((h.tally k x hx).step h.wf h.exact (h.safe k x hx) (hsees b x rfl hx) hy)⟩
  · -- the writes of a finished transaction are exact, and others keep theirs
    have hex : Exact (x.view s.committed) := fun id =>
      (h.tally k x hx).exact id (by rw [hst]; exact List.not_mem_nil)
    refine ⟨hsound, hex, Dict.forall_erase fun j u hjk hj => ?_⟩
    exact (h.tally j u hj).stable h.wf hsound.wf (h.safe j u hj) (h.frame hjk hj hx) h.exact hex
  · exact ⟨hsound, h.exact, Dict.forall_erase fun j u _ hj => h.tally j u hj⟩

lemma Counted.run (h : Counted s) (hr : s.run as = some s')
    (hretry : (∀ e ∈ as, e.2.rejects = false) ∨ along retrySees s as = true)
    (hdue : (∀ e ∈ as, e.2.settlesDue = false) ∨ along dueSees s as = true) : Counted s' := by
  induction as generalizing s with
  | nil =>
    cases hr
    exact h
  | cons e as ih =>
    obtain ⟨k, a⟩ := e
    obtain ⟨s₁, hs, hr⟩ := Option.bind_eq_some_iff.mp hr
    have hsplit : ∀ {p : Sys → ℕ → Action → Bool}, along p s ((k, a) :: as) = true →
        p s k a = true ∧ along p s₁ as = true := by
      intro p hp
      simpa only [along, hs, Option.all_some, Bool.and_eq_true] using hp
    refine ih (h.step hs fun b x ha hx => ?_) hr ?_ ?_
    · subst ha
      cases b with
      | reject clock =>
        rcases hretry with hn | hp
        · have hfalse : true = false := hn _ List.mem_cons_self
          cases hfalse
        · have hp := (hsplit hp).1
          rw [retrySees, hx] at hp
          exact of_decide_eq_true (p := RetrySees s.committed x.stage) hp
      | settleDue =>
        rcases hdue with hn | hp
        · have hfalse : true = false := hn _ List.mem_cons_self
          cases hfalse
        · have hp := (hsplit hp).1
          rw [dueSees, hx] at hp
          exact of_decide_eq_true (p := DueSees s.committed x.stage) hp
      | _ => trivial
    · exact hretry.imp (fun hn u hu => hn u (List.mem_cons_of_mem _ hu)) fun hp => (hsplit hp).2
    · exact hdue.imp (fun hn u hu => hn u (List.mem_cons_of_mem _ hu)) fun hp => (hsplit hp).2

/-- Suspending and settling in two statements lose no wake-up, in any order of steps. -/
theorem settle_keeps_counts {db : Db} (hw : Wf db) (he : Exact db)
    (hr : run { committed := db } as = some s) (hretry : ∀ e ∈ as, e.2.rejects = false)
    (hdue : ∀ e ∈ as, e.2.settlesDue = false) : Exact s.committed :=
  ((Counted.start hw he).run hr (Or.inl hretry) (Or.inl hdue)).exact

def settledInTurn : List (ℕ × Action) :=
  stored [.submitCalls [childCall]] ++
    opening 0 (claimNth 1 2 ++ [.settleTask (.complete none), .lockPromise]) ++
    opening 1 (claimNth 2 3 ++ [.suspendTask ["child"]]) ++ closing 0 [.settle 5, .wakeEnd []] ++
    closing 1 [.suspendNext, .suspendEnd 6]

lemma settledInTurn_runs : (run {} settledInTurn).isSome = true := by decide +kernel

theorem settle_keeps_counts_in_turn : Exact ((run {} settledInTurn).get settledInTurn_runs).committed :=
  settle_keeps_counts .empty .empty (Option.some_get _).symm (by decide) (by decide)

/-- No wake-up is lost in a run where RETRY sees every waits row on each promise it rejects. -/
theorem retry_keeps_counts {db : Db} (hw : Wf db) (he : Exact db)
    (hr : run { committed := db } as = some s)
    (hretry : along retrySees { committed := db } as = true)
    (hdue : ∀ e ∈ as, e.2.settlesDue = false) : Exact s.committed :=
  ((Counted.start hw he).run hr (Or.inr hretry) (Or.inl hdue)).exact

def waitedBeforeRetry : List (ℕ × Action) :=
  stored [.submitCalls [childCall]] ++ opening 0 (claimNth 1 2) ++
    session 1 (claimNth 2 4 ++ awaits "child") ++
    closing 0 [.retryTask failure 0 6, .reject 7, .wake 8, .wakeEnd []]

lemma waitedBeforeRetry_runs : (run {} waitedBeforeRetry).isSome = true := by decide +kernel

theorem retry_keeps_counts_waited :
    Exact ((run {} waitedBeforeRetry).get waitedBeforeRetry_runs).committed :=
  retry_keeps_counts .empty .empty (Option.some_get _).symm (by decide +kernel) (by decide)

/-- RETRY takes its snapshot, the root starts to wait for the child, and RETRY rejects the child. -/
def waitedBeforeReject : List (ℕ × Action) :=
  stored [.submitCalls [childCall]] ++ opening 0 (claimNth 1 2 ++ [.retryTask failure 0 3]) ++
    session 1 (claimNth 2 4 ++ awaits "child") ++ closing 0 [.reject 5, .wakeEnd []]

lemma waitedBeforeReject_runs : (run {} waitedBeforeReject).isSome = true := by decide +kernel

theorem retry_loses_wakeup : ¬ ∀ (as : List (ℕ × Action)) (s : Sys),
    (∀ e ∈ as, e.2.settlesDue = false) → run {} as = some s → s.txns.entries = [] →
      Exact s.committed := by
  intro h
  have hall := h waitedBeforeReject _ (by decide) (Option.some_get waitedBeforeReject_runs).symm
    (List.isEmpty_iff.mp (by decide +kernel))
  exact absurd (hall "root").check (by decide +kernel)

/-- No wake-up is lost in a run where PROCESS_DUE sees every waits row on each promise it settles. -/
theorem due_keeps_counts {db : Db} (hw : Wf db) (he : Exact db)
    (hr : run { committed := db } as = some s) (hretry : ∀ e ∈ as, e.2.rejects = false)
    (hdue : along dueSees { committed := db } as = true) : Exact s.committed :=
  ((Counted.start hw he).run hr (Or.inl hretry) (Or.inr hdue)).exact

def waitedBeforeDue : List (ℕ × Action) :=
  stored [.submitTimer childTimer] ++ session 1 (claimNth 1 4 ++ awaits "timer") ++
    session 0 [.processDue 10 30, .lockTimer, .expiredEnd, .settleDue, .wake 31, .wakeEnd []]

lemma waitedBeforeDue_runs : (run {} waitedBeforeDue).isSome = true := by decide +kernel

theorem due_keeps_counts_waited : Exact ((run {} waitedBeforeDue).get waitedBeforeDue_runs).committed :=
  due_keeps_counts .empty .empty (Option.some_get _).symm (by decide) (by decide +kernel)

/-- PROCESS_DUE takes its snapshot, the root starts to wait for the timer, and the timer is settled. -/
def waitedBeforeTimer : List (ℕ × Action) :=
  stored [.submitTimer childTimer] ++ opening 0 [.processDue 10 30] ++
    session 1 (claimNth 1 4 ++ awaits "timer") ++
    closing 0 [.lockTimer, .expiredEnd, .settleDue, .wakeEnd []]

lemma waitedBeforeTimer_runs : (run {} waitedBeforeTimer).isSome = true := by decide +kernel

theorem due_loses_wakeup : ¬ ∀ (as : List (ℕ × Action)) (s : Sys),
    (∀ e ∈ as, e.2.rejects = false) → run {} as = some s → s.txns.entries = [] →
      ∀ id, s.committed.pending id = true → ExactAt s.committed id := by
  intro h
  have hall := h waitedBeforeTimer _ (by decide) (Option.some_get waitedBeforeTimer_runs).symm
    (List.isEmpty_iff.mp (by decide +kernel)) "root" (by decide +kernel)
  exact absurd hall.check (by decide +kernel)

end Sys

end Reaper.Store
