import Reaper.Store.Readiness

/-! Retries run out. Whatever is interleaved, every committed RETRY of a task counts one failure, no
other statement counts any, and the one that reaches max_failures rejects the promise. DELETE_EXPIRED is
not among the statements. -/

namespace Reaper.Store

open Reaper.Library Reaper.Library.Locks

variable {db db' : Db} {grant : Lock Row → Bool} {x y : Txn} {id : Id}

def Sys.retries (s : Sys) (id : Id) (k : ℕ) : Action → Bool
  | .act (.retryTask _ _ _) => (s.txns.get k).any fun x => x.stage.claimed = some id
  | _ => false

structure Tried where
  sys : Sys
  trying : List ℕ := []
  retries : ℕ := 0

namespace Tried

def after (id : Id) (s : Tried) (k : ℕ) (a : Action) (sys : Sys) : Tried :=
  match a with
  | .commit => {
      sys := sys
      trying := s.trying.filter (· ≠ k)
      retries := s.retries + if k ∈ s.trying then 1 else 0 }
  | .rollback => { s with sys := sys, trying := s.trying.filter (· ≠ k) }
  | a => { s with sys := sys, trying := if s.sys.retries id k a then k :: s.trying else s.trying }

def step (id : Id) (s : Tried) (k : ℕ) (a : Action) : Option Tried :=
  (s.sys.step k a).map (s.after id k a)

def run (id : Id) : Tried → List (ℕ × Action) → Option Tried
  | s, [] => some s
  | s, (k, a) :: as => (s.step id k a).bind fun s' => run id s' as

end Tried

def Rejected (db : Db) (id : Id) : Prop :=
  ∃ p error at', db.promises.get id = some (Promise.settle p (.rejected error at'))

def Untried (db : Db) (id : Id) (x : Txn) : Prop :=
  ∀ u, x.delta.tasks.get id = some (some u) → ∃ t, db.tasks.get id = some t ∧
    u.failures = t.failures ∧ u.maxFailures = t.maxFailures

inductive Tries (db : Db) (id : Id) (x : Txn) : Prop
  | retried (t t' : Task) (row : db.tasks.get id = some t) (pending : db.pending id = true)
      (stage : x.stage = .done) (written : x.delta.tasks.get id = some (some t'))
      (failures : t'.failures = t.failures + 1) (max : t'.maxFailures = t.maxFailures)
  | rejecting (t : Task) (row : db.tasks.get id = some t) (pending : db.pending id = true)
      (task : ClaimedTask) (snap : Db) (error : Json) (stage : x.stage = .retrying task snap error)
      (claimed : task.id = id) (last : t.failures + 1 = t.maxFailures)
  | rejected (t : Task) (row : db.tasks.get id = some t) (pending : db.pending id = true)
      (stage : x.stage = .done ∨ ∃ snap stamp settled removed left,
        x.stage = .waking snap stamp settled removed left)
      (p : Promise) (error : Json) (at' : Time)
      (written : x.delta.promises.get id = some (some (p.settle (.rejected error at'))))
      (last : t.failures + 1 = t.maxFailures)
  | failed (stage : x.stage = .failed)

section Step

lemma Untried.view (h : Untried db id x) {t : Task} (ht : (x.view db).tasks.get id = some t) :
    ∃ t', db.tasks.get id = some t' ∧ t.failures = t'.failures ∧ t.maxFailures = t'.maxFailures := by
  rw [Txn.view, Db.patch_tasks] at ht
  cases hd : x.delta.tasks.get id with
  | some v =>
    rw [hd, Option.getD_some] at ht
    exact h t (by rw [hd, ht])
  | none =>
    rw [hd, Option.getD_none] at ht
    exact ⟨t, ht, rfl, rfl⟩

def KeepsFailures (db : Db) (id : Id) (x y : Txn) : Prop :=
  ∀ u, y.delta.tasks.get id = some (some u) → ∃ t, (x.view db).tasks.get id = some t ∧
    u.failures = t.failures ∧ u.maxFailures = t.maxFailures

lemma KeepsFailures.same (hd : y.delta.tasks = x.delta.tasks) : KeepsFailures db id x y := by
  intro u hu
  refine ⟨u, ?_, rfl, rfl⟩
  rw [Txn.view, Db.patch_tasks, ← hd, hu, Option.getD_some]

lemma KeepsFailures.setTask {w : Id} {t t' : Task} (ht : (x.view db).tasks.get w = some t)
    (hd : y.delta.tasks = x.delta.tasks.set w (some t')) (hf : t'.failures = t.failures)
    (hm : t'.maxFailures = t.maxFailures) : KeepsFailures db id x y := by
  intro u hu
  rw [hd, Dict.get_set] at hu
  split_ifs at hu with hw
  · cases hu
    exact ⟨t, hw ▸ ht, hf, hm⟩
  · exact ⟨u, by rw [Txn.view, Db.patch_tasks, hu, Option.getD_some], rfl, rfl⟩

lemma Txn.Step.keepsFailures {a : Act} (hstored : (x.view db).promises.get id ≠ none)
    (h : Txn.Step db grant x a y) : KeepsFailures db id x y ∨
      ∃ task error delayMs clock, a = .retryTask error delayMs clock ∧ x.stage = .holding task ∧
        task.id = id ∧ y = x.retryTask db task error delayMs clock := by
  cases h with
  | claim | claimNone | submit | processDue => exact Or.inl (.same rfl)
  | claimNext =>
    refine Or.inl ?_
    rw [Txn.claimNext]
    split_ifs
    · split <;> exact .same rfl
    · exact .same rfl
  | insertNext hs hy =>
    obtain ⟨-, hd | ⟨hnone, -, -, ht⟩⟩ := insertNext_writes hy
    · exact Or.inl (.same (by rw [hd]))
    · refine Or.inl fun u hu => ?_
      rw [ht] at hu
      split_ifs at hu with he
      · exact absurd (he.1 ▸ hnone) hstored
      · exact ⟨u, by rw [Txn.view, Db.patch_tasks, hu, Option.getD_some], rfl, rfl⟩
  | insertEnd hs hy =>
    rw [Txn.insertEnd] at hy
    split_ifs at hy <;> cases hy
    · exact Or.inl (.same rfl)
    · exact Or.inl (.same (congrArg Delta.tasks (foldl_lock_delta _ x)))
  | suspendTask hs hy =>
    rw [Txn.suspendTask] at hy
    split_ifs at hy <;> cases hy <;> exact Or.inl (.same rfl)
  | suspendNext hs hy =>
    rw [Txn.suspendNext] at hy
    split_ifs at hy
    split at hy <;> cases hy <;> exact Or.inl (.same rfl)
  | suspendEnd hs hy =>
    rw [Txn.suspendEnd] at hy
    split_ifs at hy
    · cases hy
      exact Or.inl (.same rfl)
    · split at hy
      · cases hy
        exact Or.inl (.same rfl)
      · rename_i t ht
        cases hy
        exact Or.inl (.setTask ht rfl rfl rfl)
  | settleTask =>
    rw [Txn.settleTask]
    split_ifs <;> exact Or.inl (.same rfl)
  | lockPromise hs hy =>
    rw [Txn.lockPromise] at hy
    split_ifs at hy <;> cases hy <;> exact Or.inl (.same rfl)
  | @settle task settlement clock hs =>
    rw [Txn.settle]
    split_ifs
    · exact Or.inl (.same (Txn.foldl_settlePromise_rest db [task.id] x (settlement.outcome clock)).1)
    · exact Or.inl (.same rfl)
  | @retryTask task error delayMs clock hs =>
    by_cases hid : task.id = id
    · exact Or.inr ⟨task, error, delayMs, clock, rfl, hs, hid, rfl⟩
    · refine Or.inl fun u hu => ⟨u, ?_, rfl, rfl⟩
      rw [Txn.view, Db.patch_tasks]
      rw [Txn.retryTask] at hu
      have hsame : x.delta.tasks.get id = some (some u) := by
        split at hu
        · exact hu
        · split_ifs at hu
          · exact (Dict.get_set_ne x.delta.tasks _ (Ne.symm hid)).symm.trans hu
          · exact hu
          · exact hu
      rw [hsame, Option.getD_some]
  | @reject task snap error clock y hs hy =>
    rw [Txn.reject] at hy
    split_ifs at hy
    cases hy
    exact Or.inl (.same (Txn.foldl_settlePromise_rest db [task.id]
      (x.lock (.promise task.id) .noKeyUpdate) (.rejected error clock)).1)
  | lockExpired hs hy =>
    rw [Txn.lockExpired] at hy
    split at hy
    · cases hy
    · split_ifs at hy <;> cases hy <;> exact Or.inl (.same rfl)
  | lockTimer hs hy =>
    rw [Txn.lockTimer] at hy
    split at hy
    · cases hy
    · rw [Option.ite_none_left_eq_some] at hy
      obtain ⟨-, hy⟩ := hy
      split_ifs at hy <;> cases hy <;> exact Or.inl (.same rfl)
  | expiredEnd hs hy =>
    rw [Txn.expiredEnd] at hy
    split_ifs at hy
    cases hy
    exact Or.inl (.same rfl)
  | lockTimeout hs hy =>
    rw [Txn.lockTimeout] at hy
    split at hy
    · cases hy
    · split_ifs at hy <;> cases hy <;> exact Or.inl (.same rfl)
  | @settleDue s y hs hy =>
    rw [Txn.settleDue, Option.ite_none_left_eq_some] at hy
    obtain ⟨-, hy⟩ := hy
    cases hy
    have ht := (Txn.foldl_settlePromise_rest db s.timerDue x (.resolved (some timerResult) s.now)).1
    have ht' := (Txn.foldl_settlePromise_rest db s.timeoutDue
      (s.timerDue.foldl (fun y id => y.settlePromise db id (.resolved (some timerResult) s.now)) x)
      (.timedOut promiseTimeout s.now)).1
    exact Or.inl (.same (ht'.trans ht))
  | wake hs hy =>
    rw [Txn.wake] at hy
    split_ifs at hy
    split at hy
    · cases hy
      exact Or.inl (.same rfl)
    · rename_i t ht
      split_ifs at hy <;> cases hy
      · exact Or.inl (.setTask ht rfl rfl rfl)
      · exact Or.inl (.same rfl)
  | @wakeEnd snap stamp settled removed kept hs =>
    refine Or.inl fun u hu => ⟨u, ?_, rfl, rfl⟩
    have hu' : ((removed.filter fun id => ¬ (id ∈ kept ∧ (x.delta.tasks.get id).isSome)).foldl
      Delta.deleteTask x.delta).tasks.get id = some (some u) := hu
    rw [Delta.foldl_deleteTask] at hu'
    split_ifs at hu'
    · cases hu'
    · rw [Txn.view, Db.patch_tasks, hu', Option.getD_some]

lemma Txn.Step.not_ended {a : Act} (hst : x.stage = .done ∨ x.stage = .failed) :
    ¬ Txn.Step db grant x a y := by
  intro h
  have hno : ∀ s, x.stage = s → s = .done ∨ s = .failed := fun s hs => hs ▸ hst
  cases h with
  | submit ha hs => rcases hs with ⟨hs, -⟩ | ⟨task, hs, -⟩ <;> simpa using hno _ hs
  | claim hs | claimNext hs | claimNone hs | settleTask hs | settle hs | retryTask hs | processDue hs
  | wakeEnd hs => simpa using hno _ hs
  | insertNext hs _ | insertEnd hs _ | suspendTask hs _ | suspendNext hs _ | suspendEnd hs _
  | lockPromise hs _ | reject hs _ | lockExpired hs _ | lockTimer hs _ | expiredEnd hs _
  | lockTimeout hs _ | settleDue hs _ | wake hs _ => simpa using hno _ hs

lemma Tries.start {task : ClaimedTask} {error : Json} {delayMs : ℕ} {clock : Time} (hw : Wf db)
    (hs : Holds db x task.id) : Tries db task.id (x.retryTask db task error delayMs clock) := by
  obtain ⟨t, ht, -⟩ := hs.task
  obtain ⟨hv, hvp⟩ := hs.view hw
  rw [Txn.retryTask]
  split
  · exact .failed rfl
  · rename_i u hu
    have hut : u = t := Option.some.inj (hu.symm.trans (hv.trans ht))
    subst hut
    split_ifs with hp hf
    · have hpend : db.pending task.id = true := (Db.pending_congr hvp.symm).trans hp
      exact .retried u _ ht hpend rfl (Dict.get_set_self _ _ _) rfl rfl
    · have hpend : db.pending task.id = true := (Db.pending_congr hvp.symm).trans hp
      have hlt := u.failures_lt
      exact .rejecting u ht hpend task _ error rfl rfl (by omega)
    · exact .failed rfl

lemma Tries.step {a : Act} (hw : Wf db) (hx : Safe db x) (h : Tries db id x)
    (hy : Txn.Step db grant x a y) : Tries db id y := by
  cases h with
  | retried t t' row pending stage => exact absurd hy (Txn.Step.not_ended (Or.inl stage))
  | failed stage => exact absurd hy (Txn.Step.not_ended (Or.inr stage))
  | rejecting t row pending task snap error stage claimed last =>
    subst claimed
    have hst := hx.stage
    rw [stage] at hst
    obtain ⟨-, hvp⟩ := (Retrying.holds hst).view hw
    cases hy with
    | @reject task' snap' error' clock y hs hy =>
      rw [stage] at hs
      cases hs
      rw [Txn.reject] at hy
      split_ifs at hy
      cases hy
      obtain ⟨p, hp, -⟩ := Db.pending_iff.mp pending
      have hlock : ((x.lock (.promise task.id) .noKeyUpdate).view db).promises.get task.id = some p :=
        hvp.trans hp
      refine .rejected t row pending (Or.inr ⟨_, _, _, _, _, rfl⟩) p error clock ?_ last
      have hset := Txn.settlePromise_promises db (x.lock (.promise task.id) .noKeyUpdate)
        (.rejected error clock) task.id task.id
      rw [if_pos rfl, Txn.settledRow, hlock] at hset
      exact hset
    | submit ha hs => rcases hs with ⟨hs, -⟩ | ⟨task, hs, -⟩ <;> rw [stage] at hs <;> cases hs
    | claim hs | claimNext hs | claimNone hs | settleTask hs | settle hs | retryTask hs | processDue hs
    | wakeEnd hs =>
      rw [stage] at hs
      cases hs
    | insertNext hs _ | insertEnd hs _ | suspendTask hs _ | suspendNext hs _ | suspendEnd hs _
    | lockPromise hs _ | lockExpired hs _ | lockTimer hs _ | expiredEnd hs _ | lockTimeout hs _
    | settleDue hs _ | wake hs _ =>
      rw [stage] at hs
      cases hs
  | rejected t row pending stage p error at' written last =>
    obtain stage | ⟨snap, stamp, settled, removed, left, stage⟩ := stage
    · exact absurd hy (Txn.Step.not_ended (Or.inl stage))
    cases hy with
    | wake hs hy =>
      rw [Txn.wake] at hy
      split_ifs at hy
      split at hy
      · cases hy
        exact .rejected t row pending (Or.inr ⟨_, _, _, _, _, rfl⟩) p error at' written last
      · split_ifs at hy <;> cases hy <;>
          exact .rejected t row pending (Or.inr ⟨_, _, _, _, _, rfl⟩) p error at' written last
    | @wakeEnd snap stamp settled removed kept hs =>
      refine .rejected t row pending (Or.inl rfl) p error at' ?_ last
      rw [← written]
      exact congrArg (Dict.get · id) (Delta.foldl_deleteTask_rest _ x.delta).1
    | submit ha hs => rcases hs with ⟨hs, -⟩ | ⟨task, hs, -⟩ <;> rw [stage] at hs <;> cases hs
    | claim hs | claimNext hs | claimNone hs | settleTask hs | settle hs | retryTask hs
    | processDue hs =>
      rw [stage] at hs
      cases hs
    | insertNext hs _ | insertEnd hs _ | suspendTask hs _ | suspendNext hs _ | suspendEnd hs _
    | lockPromise hs _ | reject hs _ | lockExpired hs _ | lockTimer hs _ | expiredEnd hs _
    | lockTimeout hs _ | settleDue hs _ =>
      rw [stage] at hs
      cases hs

end Step

section Stable

lemma Rejected.later (hl : Later db db') (h : Rejected db id) : Rejected db' id := by
  obtain ⟨p, error, at', hp⟩ := h
  obtain ⟨q, hq, -, -, hkeep⟩ := hl.promise id _ hp
  refine ⟨p, error, at', ?_⟩
  rw [hq, hkeep (p.settle_not_pending (by simp))]

lemma Tries.stable (hw : Wf db) (hx : Safe db x) (hf : Frame x.Owns db db') (h : Tries db id x) :
    Tries db' id x := by
  have hkeep : ∀ t, db.tasks.get id = some t → db.pending id = true → x.Owns (.task id) →
      db'.tasks.get id = some t ∧ db'.pending id = true := by
    intro t ht hp ho
    obtain ⟨p, hpr, hc⟩ := hw.call id (by simp [ht])
    refine ⟨(hf.task id ho).trans ht, ?_⟩
    rw [← hp]
    exact Db.pending_congr ((hf.call id p ho hpr hc).trans hpr.symm)
  cases h with
  | retried t t' row pending stage written failures max =>
    obtain ⟨row, pending⟩ := hkeep t row pending (hx.covered.tasks id _ written).1
    exact .retried t t' row pending stage written failures max
  | rejecting t row pending task snap error stage claimed last =>
    have hst := hx.stage
    rw [stage] at hst
    obtain ⟨row, pending⟩ := hkeep t row pending (claimed ▸ (Retrying.holds hst).owns)
    exact .rejecting t row pending task snap error stage claimed last
  | rejected t row pending stage p error at' written last =>
    have ho : x.Owns (.task id) := by
      obtain ⟨-, -, -, ⟨-, ho, -⟩ | ⟨q, -, hq, -, -, -, hcall⟩⟩ := hx.covered.promises id _ written
      · exact ho
      · obtain ⟨r, hr, hc⟩ := hw.call id (by simp [row])
        rw [hq] at hr
        cases hr
        exact hcall hc
    obtain ⟨row, pending⟩ := hkeep t row pending ho
    exact .rejected t row pending stage p error at' written last
  | failed stage => exact .failed stage

lemma Untried.stable (hx : Safe db x) (hf : Frame x.Owns db db') (h : Untried db id x) :
    Untried db' id x := by
  intro u hu
  rw [hf.task id (hx.covered.tasks id _ hu).1]
  exact h u hu

lemma Untried.step {a : Act} (hc : Covered db x) (hstored : db.promises.get id ≠ none)
    (h : Untried db id x) (hy : Txn.Step db grant x a y) : Untried db id y ∨
      ∃ task error delayMs clock, a = .retryTask error delayMs clock ∧ x.stage = .holding task ∧
        task.id = id ∧ y = x.retryTask db task error delayMs clock := by
  obtain ⟨p, hp⟩ := Option.ne_none_iff_exists'.mp hstored
  obtain ⟨q, hq, -⟩ := hc.later.promise id p hp
  have hview : (x.view db).promises.get id ≠ none := by simp [hq]
  refine (hy.keepsFailures hview).imp_left fun hk u hu => ?_
  obtain ⟨t, ht, hf, hm⟩ := hk u hu
  obtain ⟨t', ht', hf', hm'⟩ := h.view ht
  exact ⟨t', ht', hf.trans hf', hm.trans hm'⟩

end Stable

namespace Tried

structure Spent (id : Id) (t₀ : Task) (s : Tried) : Prop where
  sound : Sys.Sound s.sys
  stored : s.sys.committed.promises.get id ≠ none
  row : ∀ t, s.sys.committed.tasks.get id = some t → s.sys.committed.pending id = true →
    t.failures = t₀.failures + s.retries ∧ t.maxFailures = t₀.maxFailures
  budget : t₀.failures + s.retries < t₀.maxFailures ∨
    t₀.failures + s.retries = t₀.maxFailures ∧ Rejected s.sys.committed id
  tried : ∀ k ∈ s.trying, ∃ x, s.sys.txns.get k = some x ∧ Tries s.sys.committed id x
  untried : ∀ k x, s.sys.txns.get k = some x → k ∉ s.trying → Untried s.sys.committed id x

variable {s s' : Tried} {t₀ : Task} {k : ℕ} {a : Action} {as bs : List (ℕ × Action)}

lemma Spent.start {sys : Sys} {t₀ : Task} (hs : sys.Sound) (ht : sys.committed.tasks.get id = some t₀)
    (hfree : ∀ k x, sys.txns.get k = some x → ¬ x.Owns (.task id)) : Spent id t₀ { sys := sys } := by
  obtain ⟨p, hp, -⟩ := hs.wf.call id (by simp [ht])
  refine ⟨hs, by simp [hp], fun t htt _ => ?_, Or.inl t₀.failures_lt, fun k hk => (by cases hk),
    fun k x hx _ u hu => ?_⟩
  · rw [ht] at htt
    cases htt
    exact ⟨rfl, rfl⟩
  · exact absurd ((hs.safe k x hx).covered.tasks id _ hu).1 (hfree k x hx)

lemma Spent.commit {x : Txn} (h : Spent id t₀ s) (hx : s.sys.txns.get k = some x) (hst : x.stage = .done)
    (hsound : Sys.Sound { committed := x.view s.sys.committed, txns := s.sys.txns.erase k })
    (hl : Later s.sys.committed (x.view s.sys.committed)) :
    Spent id t₀ (s.after id k .commit { committed := x.view s.sys.committed, txns := s.sys.txns.erase k }) := by
  have hretries : ∀ sys, (s.after id k .commit sys).retries = s.retries + if k ∈ s.trying then 1 else 0 :=
    fun _ => rfl
  have hstored : (x.view s.sys.committed).promises.get id ≠ none := by
    obtain ⟨p, hp⟩ := Option.ne_none_iff_exists'.mp h.stored
    obtain ⟨q, hq, -⟩ := hl.promise id p hp
    simp [hq]
  have htried : ∀ j ∈ s.trying.filter (· ≠ k), ∃ u, (s.sys.txns.erase k).get j = some u ∧
      Tries (x.view s.sys.committed) id u := by
    intro j hj
    obtain ⟨hj, hjk⟩ := List.mem_filter.mp hj
    have hjk := of_decide_eq_true hjk
    obtain ⟨u, hu, htr⟩ := h.tried j hj
    exact ⟨u, (Dict.get_erase_ne _ hjk).trans hu, htr.stable h.sound.wf (h.sound.safe j u hu)
      (h.sound.frame hjk hu hx)⟩
  have huntried : ∀ j u, (s.sys.txns.erase k).get j = some u → j ∉ s.trying.filter (· ≠ k) →
      Untried (x.view s.sys.committed) id u := by
    refine Dict.forall_erase fun j u hjk hu hj => ?_
    have hnj : j ∉ s.trying := fun hm => hj (List.mem_filter.mpr ⟨hm, decide_eq_true hjk⟩)
    exact (h.untried j u hu hnj).stable (h.sound.safe j u hu) (h.sound.frame hjk hu hx)
  by_cases hk : k ∈ s.trying
  · obtain ⟨x', hx', htr⟩ := h.tried k hk
    rw [hx] at hx'
    cases hx'
    cases htr with
    | retried t t' row pending stage written failures max =>
      obtain ⟨hf, hm⟩ := h.row t row pending
      have hview : (x.view s.sys.committed).tasks.get id = some t' := by
        rw [Txn.view, Db.patch_tasks, written, Option.getD_some]
      refine ⟨hsound, hstored, fun u hu _ => ?_, Or.inl ?_, htried, huntried⟩
      · change (x.view s.sys.committed).tasks.get id = some u at hu
        rw [hview] at hu
        cases hu
        rw [hretries, if_pos hk]
        exact ⟨by omega, max.trans hm⟩
      · have hlt := t'.failures_lt
        rw [hretries, if_pos hk]
        omega
    | rejecting t row pending task snap error stage =>
      rw [stage] at hst
      cases hst
    | rejected t row pending stage p error at' written last =>
      obtain ⟨hf, hm⟩ := h.row t row pending
      have hview : (x.view s.sys.committed).promises.get id = some (p.settle (.rejected error at')) := by
        rw [Txn.view, Db.patch_promises, written, Option.getD_some]
      refine ⟨hsound, hstored, fun u _ hp => ?_, Or.inr ⟨?_, p, error, at', hview⟩, htried, huntried⟩
      · obtain ⟨q, hq, hqp⟩ := Db.pending_iff.mp hp
        change (x.view s.sys.committed).promises.get id = some q at hq
        rw [hview] at hq
        cases hq
        exact absurd hqp (p.settle_not_pending (by simp))
      · rw [hretries, if_pos hk]
        omega
    | failed stage =>
      rw [stage] at hst
      cases hst
  · have hu := h.untried k x hx hk
    have hsame : ∀ sys, (s.after id k .commit sys).retries = s.retries := fun sys => by
      rw [hretries, if_neg hk, Nat.add_zero]
    refine ⟨hsound, hstored, fun u hview hp => ?_, ?_, htried, huntried⟩
    swap
    · rw [hsame]
      exact h.budget.imp_right fun hb => ⟨hb.1, hb.2.later hl⟩
    rw [hsame]
    obtain ⟨t, ht, hf, hm⟩ := hu.view hview
    obtain ⟨hf', hm'⟩ := h.row t ht (hl.pending h.stored hp)
    exact ⟨hf.trans hf', hm.trans hm'⟩

lemma Spent.act {b : Act} {x y : Txn} (h : Spent id t₀ s) (hx : s.sys.txns.get k = some x)
    (hy : Txn.Step s.sys.committed (s.sys.grant k) x b y)
    (hsound : Sys.Sound { s.sys with txns := s.sys.txns.set k y }) :
    Spent id t₀ (s.after id k (.act b) { s.sys with txns := s.sys.txns.set k y }) := by
  have hsafe := h.sound.safe k x hx
  have hflag : s.sys.retries id k (.act b) = true →
      k ∉ s.trying → Tries s.sys.committed id y := by
    intro hf hk
    cases hy with
    | @retryTask task error delayMs clock hs =>
      have hc : some task.id = some id := by
        simpa [Sys.retries, hx, hs, Stage.claimed] using hf
      have hholds := hsafe.stage
      rw [hs] at hholds
      rw [← Option.some.inj hc]
      exact .start h.sound.wf hholds
    | submit asked _ => obtain ⟨rs, rfl, -⟩ | ⟨r, rfl, -⟩ := asked <;> cases hf
    | _ => cases hf
  have hmine : ∀ j, j ∈ (if s.sys.retries id k (.act b) then k :: s.trying else s.trying) ↔
      j ∈ s.trying ∨ j = k ∧ s.sys.retries id k (.act b) = true := by
    intro j
    split_ifs with hf
    · simp [hf, or_comm]
    · simp [hf]
  refine ⟨hsound, h.stored, h.row, h.budget, fun j hj => ?_, ?_⟩
  · by_cases hjk : j = k
    · subst hjk
      refine ⟨y, Dict.get_set_self _ _ _, ?_⟩
      by_cases hk : j ∈ s.trying
      · obtain ⟨x', hx', htr⟩ := h.tried j hk
        rw [hx] at hx'
        cases hx'
        exact htr.step h.sound.wf hsafe hy
      · exact hflag (((hmine j).mp hj).resolve_left hk).2 hk
    · obtain ⟨u, hu, htr⟩ := h.tried j (((hmine j).mp hj).resolve_right fun hh => hjk hh.1)
      exact ⟨u, (Dict.get_set_ne _ _ hjk).trans hu, htr⟩
  · refine Dict.forall_set (fun j u _ hu hj => h.untried j u hu fun hm => hj ((hmine j).mpr (Or.inl hm)))
      fun hj => ?_
    have hk : k ∉ s.trying := fun hm => hj ((hmine k).mpr (Or.inl hm))
    refine ((h.untried k x hx hk).step hsafe.covered h.stored hy).resolve_right ?_
    rintro ⟨task, error, delayMs, clock, rfl, hs, hid, -⟩
    refine hj ((hmine k).mpr (Or.inr ⟨rfl, ?_⟩))
    simp [Sys.retries, hx, hs, Stage.claimed, hid]

lemma Spent.step (h : Spent id t₀ s) (hs : s.step id k a = some s') : Spent id t₀ s' := by
  obtain ⟨sys, hsys, rfl⟩ := Option.map_eq_some_iff.mp hs
  obtain ⟨hsound, hl⟩ := h.sound.step hsys
  obtain ⟨rfl, hnone, rfl⟩ | ⟨b, x, y, rfl, hx, hy, rfl⟩ | ⟨x, rfl, hx, hst, rfl⟩ | ⟨rfl, rfl⟩ :=
    Sys.step_cases hsys
  · refine ⟨hsound, h.stored, h.row, h.budget, fun j hj => ?_, ?_⟩
    · obtain ⟨u, hu, htr⟩ := h.tried j hj
      refine ⟨u, ?_, htr⟩
      rw [← hu]
      refine Dict.get_set_ne _ _ ?_
      rintro rfl
      rw [hnone] at hu
      cases hu
    · exact Dict.forall_set (fun j u _ hu hj => h.untried j u hu hj) fun _ u hu => (by cases hu)
  · exact h.act hx hy hsound
  · exact h.commit hx hst hsound hl
  · refine ⟨hsound, h.stored, h.row, h.budget, fun j hj => ?_, Dict.forall_erase fun j u hjk hu hj => ?_⟩
    · obtain ⟨hj, hjk⟩ := List.mem_filter.mp hj
      obtain ⟨u, hu, htr⟩ := h.tried j hj
      exact ⟨u, (Dict.get_erase_ne _ (of_decide_eq_true hjk)).trans hu, htr⟩
    · exact h.untried j u hu fun hm => hj (List.mem_filter.mpr ⟨hm, decide_eq_true hjk⟩)

lemma Spent.run (h : Spent id t₀ s) (hr : s.run id as = some s') : Spent id t₀ s' := by
  induction as generalizing s with
  | nil =>
    cases hr
    exact h
  | cons e as ih =>
    obtain ⟨s₁, hs, hr⟩ := Option.bind_eq_some_iff.mp hr
    exact ih (h.step hs) hr

/-- From any state in which nobody holds a task, at most max_failures of its attempts end in a RETRY
that is committed, in any order of steps. Its failures are those RETRYs, and the last one rejects. -/
theorem retries_bounded {db : Db} {sys : Sys} (hw : Wf db) (hr : Sys.run { committed := db } as = some sys)
    (ht : sys.committed.tasks.get id = some t₀) (hfree : ∀ k x, sys.txns.get k = some x → ¬ x.Owns (.task id))
    (hr' : run id { sys := sys } bs = some s') :
    t₀.failures + s'.retries ≤ t₀.maxFailures ∧
      (t₀.failures + s'.retries = t₀.maxFailures → Rejected s'.sys.committed id) ∧
      ∀ t, s'.sys.committed.tasks.get id = some t → s'.sys.committed.pending id = true →
        t.failures = t₀.failures + s'.retries := by
  have h := (Spent.start ((Sys.Sound.start hw).run hr).1 ht hfree).run hr'
  refine ⟨?_, fun hlast => ?_, fun t htt hp => (h.row t htt hp).1⟩
  · rcases h.budget with hb | ⟨hb, -⟩ <;> omega
  · rcases h.budget with hb | ⟨-, hb⟩
    · omega
    · exact hb

open Sys (session rootCall claimNth failure)

def rootStored : List (ℕ × Action) := session 0 [.submitCalls [rootCall], .insertNext, .insertEnd]

def rootFails : List (ℕ × Action) :=
  session 1 (claimNth 1 0 ++ [.retryTask failure 0 1]) ++ session 2 (claimNth 1 2 ++ [.retryTask failure 0 3]) ++
    session 1 (claimNth 1 4 ++ [.retryTask failure 0 5, .reject 6, .wakeEnd []])

lemma rootStored_runs : (Sys.run {} rootStored).isSome = true := by decide +kernel

def rootReady : Sys := (Sys.run {} rootStored).get rootStored_runs

lemma rootReady_task : (rootReady.committed.tasks.get "root").isSome = true := by decide +kernel

lemma rootReady_free : rootReady.txns.entries = [] := List.isEmpty_iff.mp (by decide +kernel)

lemma rootFails_runs : (run "root" { sys := rootReady } rootFails).isSome = true := by decide +kernel

theorem retries_bounded_root :
    Rejected ((run "root" { sys := rootReady } rootFails).get rootFails_runs).sys.committed "root" :=
  (retries_bounded .empty (Option.some_get rootStored_runs).symm (Option.some_get rootReady_task).symm
    (fun k x hx => by
      have hm := (Dict.mem_entries _ _ _).mpr hx
      rw [show (Sys.run {} rootStored).get rootStored_runs = rootReady from rfl, rootReady_free] at hm
      cases hm)
    (Option.some_get rootFails_runs).symm).2.1 (by decide +kernel)

end Tried

end Reaper.Store
