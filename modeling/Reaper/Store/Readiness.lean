import Reaper.Store.Writes
import Reaper.Store.Interleavings

/-! No wake-up comes early. In any order of steps a task's pending_waits is at least the number of
promises it waits for that are still pending: a wake-up that is lost only leaves the count too high.
Nor is a claimed task touched by anyone but its worker. DELETE_EXPIRED is not among the steps. -/

namespace Reaper.Store

open Reaper.Library Reaper.Library.Locks

/-- A task's pending_waits covers the promises it waits for that are still pending. -/
def CoversAt (db : Db) (id : Id) : Prop :=
  ∀ t, db.tasks.get id = some t → (db.pendingAwaited id).card ≤ t.pendingWaits

def Covers (db : Db) : Prop := ∀ id, CoversAt db id

def Txn.Covers (db : Db) (x : Txn) : Prop :=
  ∀ id t, x.delta.tasks.get id = some (some t) → ((x.view db).pendingAwaited id).card ≤ t.pendingWaits

def Stage.claimed : Stage → Option Id
  | .holding task | .locking task _ | .locked task _ | .inserting (some task) _ _
  | .suspending task _ _ _ _ | .retrying task _ _ => some task.id
  | _ => none

variable {db db' : Db} {grant : Lock Row → Bool} {x y : Txn} {id : Id}

lemma Covers.empty : Covers {} := fun _ _ ht => (by cases ht)

lemma Safe.claimed (h : Safe db x) (hc : x.stage.claimed = some id) : Holds db x id := by
  have hst := h.stage
  revert hst hc
  cases x.stage with
  | holding task | locking task settlement =>
    intro hc hst
    cases hc
    exact hst
  | inserting task left inserted =>
    cases task with
    | none => simp [Stage.claimed]
    | some task =>
      intro hc hst
      cases hc
      exact hst.2.2 task rfl
  | suspending task snap awaited left found =>
    intro hc hst
    cases hc
    exact Suspending.holds hst
  | locked task settlement =>
    intro hc hst
    cases hc
    exact hst.1
  | retrying task snap error =>
    intro hc hst
    cases hc
    exact Retrying.holds hst
  | _ => simp [Stage.claimed]

namespace Txn

lemma pendingAwaited_subset (hn : x.delta.tasks.get id ≠ some none)
    (hw : ∀ e ∈ y.delta.waits, e.1 = id → e ∈ x.delta.waits)
    (hp : ∀ e ∈ (x.view db).waits, (y.view db).pending e.2 = true → (x.view db).pending e.2 = true) :
    (y.view db).pendingAwaited id ⊆ (x.view db).pendingAwaited id := by
  intro e he
  obtain ⟨hm, h₁, hpe⟩ := Db.mem_pendingAwaited.mp he
  have hx : e ∈ (x.view db).waits :=
    (Db.mem_patch_waits e).mpr ⟨((Db.mem_patch_waits e).mp hm).1.imp_right fun h => hw e h h₁, h₁ ▸ hn⟩
  exact Db.mem_pendingAwaited.mpr ⟨hx, h₁, hp e hx hpe⟩

lemma Covers.kept (h : Txn.Covers db x)
    (ht : ∀ id t, y.delta.tasks.get id = some (some t) → x.delta.tasks.get id = some (some t))
    (hw : y.delta.waits = x.delta.waits)
    (hp : ∀ e ∈ (x.view db).waits, (y.view db).pending e.2 = true → (x.view db).pending e.2 = true) :
    Txn.Covers db y := by
  intro id t hid
  have hx := ht id t hid
  refine (Finset.card_le_card ?_).trans (h id t hx)
  exact pendingAwaited_subset (by simp [hx]) (fun e he _ => hw ▸ he) hp

lemma Covers.same (h : Txn.Covers db x) (hd : y.delta = x.delta) : Txn.Covers db y := by
  have hv : y.view db = x.view db := by rw [Txn.view, Txn.view, hd]
  rw [Covers, hv, hd]
  exact h

lemma Covers.empty (h : x.delta = {}) : Txn.Covers db x := by
  intro id t hid
  rw [h] at hid
  cases hid

lemma Covers.view (hw : Wf db) (hc : Covered db x) (hb : Store.Covers db) (h : Txn.Covers db x) :
    Store.Covers (x.view db) := by
  intro id t ht
  rw [Txn.view, Db.patch_tasks] at ht
  cases hd : x.delta.tasks.get id with
  | some v =>
    rw [hd, Option.getD_some] at ht
    exact h id t (by rw [hd, ht])
  | none =>
    rw [hd, Option.getD_none] at ht
    refine (Finset.card_le_card fun e he => ?_).trans (hb id t ht)
    obtain ⟨hm, h₁, hp⟩ := Db.mem_pendingAwaited.mp he
    have hm := (hc.mem_view_waits hd db e h₁).mp hm
    exact Db.mem_pendingAwaited.mpr ⟨hm, h₁, hc.later.pending (hw.stored hm) hp⟩

lemma Covers.stable (hw : Wf db) (hc : Covered db x) (hf : Frame x.Owns db db')
    (h : Txn.Covers db x) : Txn.Covers db' x := by
  intro id t hid
  have ho := (hc.tasks id _ hid).1
  refine (Finset.card_le_card fun e he => ?_).trans (h id t hid)
  obtain ⟨hm, h₁, hp⟩ := Db.mem_pendingAwaited.mp he
  rw [Txn.view, Db.mem_patch_waits, hf.waitsOf e (h₁ ▸ ho), ← Db.mem_patch_waits] at hm
  refine Db.mem_pendingAwaited.mpr ⟨hm, h₁, ?_⟩
  cases hv : x.delta.promises.get e.2 with
  | some v =>
    rw [← hp]
    refine Db.pending_congr ?_
    rw [Txn.view, Txn.view, Db.patch_promises, Db.patch_promises, hv, Option.getD_some, Option.getD_some]
  | none =>
    rw [view_pending_of_none hv] at hp ⊢
    rcases ((Db.mem_patch_waits e).mp hm).1 with hm | hm
    · exact hf.later.pending (hw.stored hm) hp
    · rwa [pending_stable hf (hc.waits e hm).2.1] at hp

section Step

variable {snap : Db} {stamp : Option Time} {settled removed left : List Id} {w : Id}

lemma Covers.insertNext {task : Option ClaimedTask} {e : Insert} {left : List Insert} {inserted : List Id}
    (hw : Wf db) (hc : Covered db x) (h : Txn.Covers db x)
    (hy : x.insertNext db grant task e left inserted = some y) : Txn.Covers db y := by
  obtain ⟨-, hd | ⟨hnone, hyw, hyp, hyt⟩⟩ := insertNext_writes hy
  · exact h.same hd
  obtain ⟨-, hxt, hwaits⟩ := hc.absent hw hnone
  have hpend : ∀ u ∈ (x.view db).waits, (y.view db).pending u.2 = true → (x.view db).pending u.2 = true := by
    intro u hu hp
    rw [← hp]
    refine (Db.pending_congr ?_).symm
    rw [Txn.view, Txn.view, Db.patch_promises, Db.patch_promises, hyp, if_neg (hwaits u hu).2]
  intro id t hid
  by_cases hne : id = e.id
  · subst hne
    have hsub := pendingAwaited_subset (y := y) hxt (fun u hu _ => hyw ▸ hu) hpend
    have hempty : (y.view db).pendingAwaited e.id = ∅ := by
      rw [Finset.eq_empty_iff_forall_notMem]
      intro u hu
      obtain ⟨hm, h₁, -⟩ := Db.mem_pendingAwaited.mp (hsub hu)
      exact (hwaits u hm).1 h₁
    rw [hempty, Finset.card_empty]
    exact Nat.zero_le _
  · rw [hyt, if_neg fun hh => hne hh.1] at hid
    refine (Finset.card_le_card ?_).trans (h id t hid)
    exact pendingAwaited_subset (by simp [hid]) (fun u hu _ => hyw ▸ hu) hpend

lemma Covers.settles {ids : List Id} (h : Txn.Covers db x) (hs : Settles db ids x y)
    (ht : y.delta.tasks = x.delta.tasks) (hw : y.delta.waits = x.delta.waits) : Txn.Covers db y := by
  refine h.kept (fun id t hid => ht ▸ hid) hw fun e _ hp => ?_
  rcases hs e.2 with hsame | ⟨-, p, o, -, hne, hset⟩
  · rw [← hp]
    refine (Db.pending_congr ?_).symm
    rw [Txn.view, Txn.view, Db.patch_promises, Db.patch_promises, hsame]
  · obtain ⟨q, hq, hqp⟩ := Db.pending_iff.mp hp
    rw [Txn.view, Db.patch_promises, hset, Option.getD_some, Option.some_inj] at hq
    exact absurd (hq ▸ hqp) (p.settle_not_pending hne)

lemma setTask_pendingAwaited {d : Delta} {t : Task} (hd : d.tasks.get w ≠ some none) (id : Id) :
    (db.patch (d.setTask w t)).pendingAwaited id = (db.patch d).pendingAwaited id := by
  have hwaits : ∀ e, e ∈ (db.patch (d.setTask w t)).waits ↔ e ∈ (db.patch d).waits := by
    intro e
    rw [Db.mem_patch_waits, Db.mem_patch_waits, Delta.setTask]
    dsimp only
    rw [Dict.get_set]
    split_ifs with he
    · simp [he, hd]
    · rfl
  ext e
  rw [Db.mem_pendingAwaited, Db.mem_pendingAwaited, hwaits]
  exact Iff.rfl

lemma Covers.setTask {t : Task} (h : Txn.Covers db x) (hn : x.delta.tasks.get w ≠ some none)
    (hd : y.delta = x.delta.setTask w t)
    (ht : ((x.view db).pendingAwaited w).card ≤ t.pendingWaits) : Txn.Covers db y := by
  intro id u hid
  rw [Txn.view, hd, setTask_pendingAwaited hn]
  rw [hd, Delta.setTask] at hid
  dsimp only at hid
  rw [Dict.get_set] at hid
  split_ifs at hid with hw
  · cases hid
    rw [hw]
    exact ht
  · exact h id u hid

lemma Covers.retryTask {task : ClaimedTask} {error : Json} {delayMs : ℕ} {clock : Time} (hw : Wf db)
    (hc : Covered db x) (hb : Store.Covers db) (hs : Holds db x task.id) (h : Txn.Covers db x) :
    Txn.Covers db (x.retryTask db task error delayMs clock) := by
  unfold Txn.retryTask
  dsimp only
  split
  · exact h.same rfl
  · rename_i t ht
    split_ifs with hp hf
    · refine h.setTask ?_ rfl (h.view hw hc hb task.id t ht)
      rw [(hs.untouched hw).1]
      simp
    · exact h.same rfl
    · exact h.same rfl

lemma Covers.suspendEnd {task : ClaimedTask} {snap : Db} {awaited : List Id}
    {found : List (Id × Promise)} {clock : Time} (hw : Wf db) (hc : Covered db x)
    (hs : Suspending db x task.id snap awaited [] found) (hb : Store.Covers db) (h : Txn.Covers db x)
    (hy : x.suspendEnd db grant task snap awaited found clock = some y) : Txn.Covers db y := by
  obtain ⟨hnt, -⟩ := hs.holds.untouched hw
  rw [Txn.suspendEnd] at hy
  dsimp only at hy
  split_ifs at hy with hf hg
  · cases hy
    exact h.same rfl
  split at hy
  · cases hy
    exact h.same rfl
  rename_i t htv
  cases hy
  set pending := found.filter fun e => e.2.Pending with hpending
  set t' : Task := { t with pendingWaits := pending.length, availableAt := clock } with ht'
  set y := (x.lock (.promise task.id) .keyShare).write fun d =>
    { d.setTask task.id t' with waits := d.waits ∪ (found.map fun e => (task.id, e.1)).toFinset } with hyd
  change Txn.Covers db y
  have htask : ∀ j, y.delta.tasks.get j = if j = task.id then some (some t') else x.delta.tasks.get j :=
    fun j => Dict.get_set _ _ _ _
  have hwaits : ∀ e, e ∈ y.delta.waits ↔ e ∈ x.delta.waits ∨ ∃ f ∈ found, (task.id, f.1) = e := by
    intro e
    simp [hyd]
  intro id u hid
  rw [htask] at hid
  split_ifs at hid with hj
  · cases hid
    subst hj
    have hzero : (db.pendingAwaited task.id).card = 0 := by
      obtain ⟨t₀, ht₀, hz⟩ := hs.holds.task
      have hle := hb task.id t₀ ht₀
      omega
    have hsub : (y.view db).pendingAwaited task.id ⊆ (pending.map fun e => (task.id, e.1)).toFinset := by
      intro e he
      obtain ⟨hm, h₁, hp⟩ := Db.mem_pendingAwaited.mp he
      rw [Txn.view, Db.mem_patch_waits, hwaits, hs.holds.inserts.waits] at hm
      rcases hm.1 with hm | hm | ⟨f, hf, rfl⟩
      · have hold : e ∈ db.pendingAwaited task.id :=
          Db.mem_pendingAwaited.mpr ⟨hm, h₁, hc.later.pending (hw.stored hm) hp⟩
        rw [Finset.card_eq_zero.mp hzero] at hold
        cases hold
      · cases hm
      · obtain ⟨p, hp, hpend⟩ := Db.pending_iff.mp hp
        have hpf := (hs.locked f hf).2.symm.trans hp
        refine List.mem_toFinset.mpr (List.mem_map.mpr ⟨f, List.mem_filter.mpr ⟨hf, ?_⟩, rfl⟩)
        rw [Option.some.inj hpf]
        exact decide_eq_true hpend
    calc ((y.view db).pendingAwaited task.id).card
        ≤ (pending.map fun e => (task.id, e.1)).toFinset.card := Finset.card_le_card hsub
      _ ≤ (pending.map fun e => (task.id, e.1)).length := List.toFinset_card_le _
      _ = pending.length := List.length_map _
  · refine (Finset.card_le_card ?_).trans (h id u hid)
    refine pendingAwaited_subset (by simp [hid]) (fun e he h₁ => ?_) fun _ _ hp => hp
    rcases (hwaits e).mp he with hm | ⟨f, -, rfl⟩
    · exact hm
    · exact absurd h₁.symm hj

lemma Covers.wakeEnd (kept : List Id) (h : Txn.Covers db x) : Txn.Covers db (x.wakeEnd removed kept) := by
  rw [Txn.wakeEnd]
  set deleted := removed.filter fun id => ¬ (id ∈ kept ∧ (x.delta.tasks.get id).isSome)
  have hdel := Delta.foldl_deleteTask deleted x.delta
  obtain ⟨hp, hw⟩ := Delta.foldl_deleteTask_rest deleted x.delta
  refine h.kept (fun id t hid => ?_) hw fun e _ hpe => ?_
  · change (deleted.foldl Delta.deleteTask x.delta).tasks.get id = _ at hid
    rw [hdel] at hid
    split_ifs at hid
    · cases hid
    · exact hid
  · rw [← hpe]
    refine Db.pending_congr ?_
    change _ = (db.patch (deleted.foldl Delta.deleteTask x.delta)).promises.get e.2
    rw [Txn.view, Db.patch_promises, Db.patch_promises, hp]

end Step

end Txn

variable {snap : Db} {stamp : Option Time} {settled removed left : List Id} {w : Id}

lemma Waking.owes (hw : Wf db) (hc : Covered db x) (hs : Waking db x snap settled removed left)
    (hn : x.delta.tasks.get w = none) (hex : db.tasks.get w ≠ none) :
    ((x.view db).pendingAwaited w).card + settledCount snap settled w ≤ (db.pendingAwaited w).card := by
  set awaited := settled.filter fun a => (w, a) ∈ snap.waits with hawaited
  have hcount : (awaited.map fun a => (w, a)).toFinset.card = settledCount snap settled w := by
    rw [List.toFinset_card_of_nodup, List.length_map, settledCount]
    exact (hs.nodup.filter _).map fun a b hab => (Prod.mk.inj hab).2
  have hmem : ∀ e ∈ (awaited.map fun a => (w, a)).toFinset, e.1 = w ∧ e.2 ∈ settled ∧ e ∈ snap.waits := by
    intro e he
    obtain ⟨a, ha, rfl⟩ := List.mem_map.mp (List.mem_toFinset.mp he)
    obtain ⟨ha, hm⟩ := List.mem_filter.mp ha
    exact ⟨rfl, ha, of_decide_eq_true hm⟩
  have hdisj : Disjoint ((x.view db).pendingAwaited w) (awaited.map fun a => (w, a)).toFinset := by
    rw [Finset.disjoint_left]
    intro e he hes
    obtain ⟨-, -, p, o, -, -, hne, hset⟩ := hs.written e.2 (hmem e hes).2.1
    obtain ⟨q, hq, hqp⟩ := Db.pending_iff.mp (Db.mem_pendingAwaited.mp he).2.2
    rw [Txn.view, Db.patch_promises, hset, Option.getD_some, Option.some_inj] at hq
    exact absurd (hq ▸ hqp) (p.settle_not_pending hne)
  rw [← hcount, ← Finset.card_union_of_disjoint hdisj]
  refine Finset.card_le_card (Finset.union_subset (fun e he => ?_) fun e he => ?_)
  · obtain ⟨hm, h₁, hp⟩ := Db.mem_pendingAwaited.mp he
    have hdb := (hc.mem_view_waits hn db e h₁).mp hm
    exact Db.mem_pendingAwaited.mpr ⟨hdb, h₁, hc.later.pending (hw.stored hdb) hp⟩
  · obtain ⟨h₁, hset, hm⟩ := hmem e he
    obtain ⟨-, -, p, o, hp, hpend, -⟩ := hs.written e.2 hset
    refine Db.mem_pendingAwaited.mpr ⟨(hc.mem_view_waits hn db e h₁).mp
      (hs.snapshot.later.waits e hm ?_), h₁, Db.pending_iff.mpr ⟨p, hp, hpend⟩⟩
    rwa [h₁, view_task_of_none hn]

namespace Txn

lemma Covers.wake {clock : Time} (hw : Wf db) (hc : Covered db x) (hb : Store.Covers db)
    (hs : Waking db x snap settled removed (w :: left)) (h : Txn.Covers db x)
    (hy : x.wake db grant snap stamp settled removed w left clock = some y) : Txn.Covers db y := by
  obtain ⟨hn, -, -⟩ := hs.untouched w List.mem_cons_self
  rw [Txn.wake] at hy
  dsimp only at hy
  rw [Option.ite_none_right_eq_some] at hy
  obtain ⟨-, hy⟩ := hy
  split at hy
  · cases hy
    exact h.same rfl
  rename_i t htv
  have hdb : db.tasks.get w = some t := by rwa [view_task_of_none hn] at htv
  split_ifs at hy
  · cases hy
    refine h.setTask (w := w) (by simp [hn]) rfl ?_
    have howed := hs.owes hw hc hn (by simp [hdb])
    have hcov := hb w t hdb
    change _ ≤ t.pendingWaits - settledCount snap settled w
    omega
  · cases hy
    exact h.same rfl

lemma Covers.settleOne {o : Outcome} (ho : o ≠ .pending) (h : Txn.Covers db x) :
    Txn.Covers db ((x.settlePromise db id o).wakeFor snap none [id] [id]) := by
  obtain ⟨ht, hw, -⟩ := Txn.foldl_settlePromise_rest db [id] x o
  exact h.settles (settlePromise_settles db x id ho) ht hw

lemma Covers.settleDue {s : Due} (h : Txn.Covers db x) (hy : x.settleDue db s = some y) :
    Txn.Covers db y := by
  rw [Txn.settleDue, Option.ite_none_left_eq_some] at hy
  obtain ⟨-, hy⟩ := hy
  cases hy
  obtain ⟨ht, hw, -⟩ := Txn.foldl_settlePromise_rest db s.timerDue x (.resolved (some timerResult) s.now)
  obtain ⟨ht', hw', -⟩ := Txn.foldl_settlePromise_rest db s.timeoutDue
    (s.timerDue.foldl (fun y id => y.settlePromise db id (.resolved (some timerResult) s.now)) x)
    (.timedOut promiseTimeout s.now)
  have hfired : Txn.Covers db (s.timerDue.foldl
      (fun y id => y.settlePromise db id (.resolved (some timerResult) s.now)) x) :=
    h.settles (foldl_settles db s.timerDue x (by simp)) ht hw
  have hne : Outcome.timedOut promiseTimeout s.now ≠ .pending := by simp
  exact hfired.settles (foldl_settles db s.timeoutDue _ hne) ht' hw'

lemma Covers.scan {s : Due} (h : Txn.Covers db x)
    (hy : x.lockExpired db grant s = some y ∨ x.lockTimer db grant s = some y ∨
      x.lockTimeout db grant s = some y) : Txn.Covers db y := by
  rcases hy with hy | hy | hy
  · rw [Txn.lockExpired] at hy
    split at hy
    · cases hy
    · split_ifs at hy <;> cases hy <;> exact h.same rfl
  · rw [Txn.lockTimer] at hy
    split at hy
    · cases hy
    · rw [Option.ite_none_left_eq_some] at hy
      obtain ⟨-, hy⟩ := hy
      split_ifs at hy <;> cases hy <;> exact h.same rfl
  · rw [Txn.lockTimeout] at hy
    split at hy
    · cases hy
    · split_ifs at hy <;> cases hy <;> exact h.same rfl

lemma Covers.step {a : Act} (hw : Wf db) (hb : Store.Covers db) (hx : Safe db x) (h : Txn.Covers db x)
    (hy : Txn.Step db grant x a y) : Txn.Covers db y := by
  obtain ⟨hc, hst⟩ := hx
  cases hy with
  | claim | claimNone | submit | processDue => exact h.same rfl
  | claimNext =>
    rw [Txn.claimNext]
    split_ifs
    · split <;> exact h.same rfl
    · exact h.same rfl
  | insertNext hs hy => exact h.insertNext hw hc hy
  | insertEnd hs hy =>
    rw [Txn.insertEnd] at hy
    split_ifs at hy <;> cases hy
    · exact h.same rfl
    · exact h.same (foldl_lock_delta _ x)
  | suspendTask hs hy =>
    rw [Txn.suspendTask] at hy
    split_ifs at hy <;> cases hy <;> exact h.same rfl
  | suspendNext hs hy =>
    rw [Txn.suspendNext] at hy
    split_ifs at hy
    split at hy <;> cases hy <;> exact h.same rfl
  | suspendEnd hs hy =>
    rw [hs] at hst
    exact h.suspendEnd hw hc hst hb hy
  | settleTask =>
    rw [Txn.settleTask]
    split_ifs <;> exact h.same rfl
  | lockPromise hs hy =>
    rw [Txn.lockPromise] at hy
    split_ifs at hy <;> cases hy <;> exact h.same rfl
  | @settle task settlement clock hs =>
    rw [Txn.settle]
    split_ifs
    · exact h.settleOne (settlement.outcome_ne clock)
    · exact h.same rfl
  | retryTask hs =>
    rw [hs] at hst
    exact h.retryTask hw hc hb hst
  | @reject task snap error clock y hs hy =>
    rw [Txn.reject] at hy
    split_ifs at hy
    cases hy
    have hlock : Txn.Covers db (x.lock (.promise task.id) .noKeyUpdate) := h.same rfl
    exact hlock.settleOne (by simp)
  | lockExpired hs hy => exact h.scan (Or.inl hy)
  | lockTimer hs hy => exact h.scan (Or.inr (Or.inl hy))
  | expiredEnd hs hy =>
    rw [Txn.expiredEnd] at hy
    split_ifs at hy
    cases hy
    exact h.same rfl
  | lockTimeout hs hy => exact h.scan (Or.inr (Or.inr hy))
  | settleDue hs hy => exact h.settleDue hy
  | wake hs hy =>
    rw [hs] at hst
    exact h.wake hw hc hb hst hy
  | wakeEnd hs => exact h.wakeEnd _

end Txn

namespace Sys

structure Covering (s : Sys) : Prop extends Sound s where
  committed : Covers s.committed
  written : ∀ k x, s.txns.get k = some x → Txn.Covers s.committed x

variable {s s' : Sys} {k : ℕ} {a : Action} {as : List (ℕ × Action)}

lemma Covering.start (hw : Wf db) (hb : Covers db) : Covering { committed := db } :=
  ⟨.start hw, hb, fun _ _ hx => (by cases hx)⟩

lemma Covering.step (h : Covering s) (hs : s.step k a = some s') : Covering s' := by
  have hsound := (h.toSound.step hs).1
  obtain ⟨-, -, rfl⟩ | ⟨b, x, y, rfl, hx, hy, rfl⟩ | ⟨x, -, hx, -, rfl⟩ | ⟨-, rfl⟩ := step_cases hs
  · exact ⟨hsound, h.committed, Dict.forall_set (fun j u _ hj => h.written j u hj) (.empty rfl)⟩
  · exact ⟨hsound, h.committed, Dict.forall_set (fun j u _ hj => h.written j u hj)
      ((h.written k x hx).step h.wf h.committed (h.safe k x hx) hy)⟩
  · refine ⟨hsound, (h.written k x hx).view h.wf (h.safe k x hx).covered h.committed,
      Dict.forall_erase fun j u hjk hj => ?_⟩
    exact (h.written j u hj).stable h.wf (h.safe j u hj).covered (h.frame hjk hj hx)
  · exact ⟨hsound, h.committed, Dict.forall_erase fun j u _ hj => h.written j u hj⟩

lemma Covering.run (h : Covering s) (hr : s.run as = some s') : Covering s' := by
  induction as generalizing s with
  | nil =>
    cases hr
    exact h
  | cons e as ih =>
    obtain ⟨s₁, hs, hr⟩ := Option.bind_eq_some_iff.mp hr
    exact ih (h.step hs) hr

def Ready (s : Sys) : Prop :=
  (∀ id t, s.committed.tasks.get id = some t → t.pendingWaits = 0 → s.committed.pendingAwaited id = ∅) ∧
    ∀ k x id, s.txns.get k = some x → x.stage.claimed = some id → s.committed.pendingAwaited id = ∅

/-- In any order of steps, no task is woken while something it waits for is pending. -/
theorem never_woken_early (hw : Wf db) (hb : Covers db) (hr : run { committed := db } as = some s) :
    s.Ready := by
  have h := (Covering.start hw hb).run hr
  have hready : ∀ id t, s.committed.tasks.get id = some t → t.pendingWaits = 0 →
      s.committed.pendingAwaited id = ∅ := by
    intro id t ht hz
    have hle := h.committed id t ht
    exact Finset.card_eq_zero.mp (by omega)
  refine ⟨hready, fun k x id hx hc => ?_⟩
  obtain ⟨t, ht, hz⟩ := ((h.safe k x hx).claimed hc).task
  exact hready id t ht hz

theorem never_woken_early_rejected : ((run {} waitedBeforeReject).get waitedBeforeReject_runs).Ready :=
  never_woken_early .empty .empty (Option.some_get waitedBeforeReject_runs).symm

section Isolated

variable {id : Id}

structure Untouched (id : Id) (db db' : Db) : Prop where
  task : db'.tasks.get id = db.tasks.get id
  call : db'.promises.get id = db.promises.get id
  waits : ∀ e : Id × Id, e.1 = id → (e ∈ db'.waits ↔ e ∈ db.waits)

lemma Untouched.refl (id : Id) (db : Db) : Untouched id db db := ⟨rfl, rfl, fun _ _ => Iff.rfl⟩

lemma Untouched.trans {a b c : Db} (h : Untouched id a b) (h' : Untouched id b c) : Untouched id a c :=
  ⟨h'.task.trans h.task, h'.call.trans h.call, fun e he => (h'.waits e he).trans (h.waits e he)⟩

lemma Sound.step_other {x : Txn} (h : Sound s) (hx : s.txns.get k = some x)
    (hc : x.stage.claimed = some id) {e : ℕ × Action} (hk : e.1 ≠ k) (hs : s.step e.1 e.2 = some s') :
    s'.txns.get k = some x ∧ Untouched id s.committed s'.committed := by
  have hholds := (h.safe k x hx).claimed hc
  obtain ⟨-, -, rfl⟩ | ⟨b, y, z, -, -, -, rfl⟩ | ⟨y, -, hy, -, rfl⟩ | ⟨-, rfl⟩ := step_cases hs
  · exact ⟨(Dict.get_set_ne _ _ hk.symm).trans hx, .refl id _⟩
  · exact ⟨(Dict.get_set_ne _ _ hk.symm).trans hx, .refl id _⟩
  · have hf := h.frame hk.symm hx hy
    obtain ⟨t, ht, -⟩ := hholds.task
    obtain ⟨p, hp, hcall⟩ := h.wf.call id (by simp [ht])
    refine ⟨(Dict.get_erase_ne _ hk.symm).trans hx, hf.task id hholds.owns, ?_, fun e he => ?_⟩
    · rw [hf.call id p hholds.owns hp hcall, hp]
    · exact hf.waitsOf e (he ▸ hholds.owns)
  · exact ⟨(Dict.get_erase_ne _ hk.symm).trans hx, .refl id _⟩

/-- While a worker has claimed a task nobody else has, and nobody changes its row, its promise or what
it waits for, in any order of the steps of the others. -/
theorem claim_isolated {db : Db} {bs : List (ℕ × Action)} {x : Txn} (hw : Wf db)
    (hr : run { committed := db } as = some s) (hx : s.txns.get k = some x)
    (hc : x.stage.claimed = some id) (hr' : s.run bs = some s') (hk : ∀ e ∈ bs, e.1 ≠ k) :
    Untouched id s.committed s'.committed ∧
      ∀ j y, s'.txns.get j = some y → y.stage.claimed = some id → j = k := by
  have hrun : Sound s' ∧ s'.txns.get k = some x ∧ Untouched id s.committed s'.committed := by
    have h := ((Sound.start hw).run hr).1
    clear hr
    induction bs generalizing s with
    | nil =>
      cases hr'
      exact ⟨h, hx, .refl id _⟩
    | cons e bs ih =>
      obtain ⟨s₁, hs, hr'⟩ := Option.bind_eq_some_iff.mp hr'
      obtain ⟨hx₁, hsame⟩ := h.step_other hx hc (hk e List.mem_cons_self) hs
      obtain ⟨h', hx', hsame'⟩ := ih hx₁ hr' (fun e he => hk e (List.mem_cons_of_mem _ he)) (h.step hs).1
      exact ⟨h', hx', hsame.trans hsame'⟩
  obtain ⟨h', hx', hsame⟩ := hrun
  refine ⟨hsame, fun j y hy hcy => ?_⟩
  by_contra hne
  have hmine := ((h'.safe k x hx').claimed hc).owns
  have htheirs := ((h'.safe j y hy).claimed hcy).owns
  rw [Txn.Owns, ← held_of_get hx'] at hmine
  rw [Txn.Owns, ← held_of_get hy] at htheirs
  exact h'.exclusive.not_owns hne htheirs hmine

def rootClaimed : List (ℕ × Action) :=
  session 0 [.submitCalls [rootCall], .insertNext, .insertEnd] ++ opening 1 (claimNth 1 0)

/-- PROCESS_DUE finds the root past its deadline, and another worker finds no task to claim. -/
def rootPassedOver : List (ℕ × Action) :=
  session 2 [.processDue 10 200, .lockExpired, .expiredEnd, .settleDue, .wakeEnd []] ++
    opening 3 (claimNth 2 50)

lemma rootClaimed_runs : (run {} rootClaimed).isSome = true := by decide +kernel

lemma rootPassedOver_runs :
    (((run {} rootClaimed).get rootClaimed_runs).run rootPassedOver).isSome = true := by decide +kernel

lemma rootClaimed_open : (((run {} rootClaimed).get rootClaimed_runs).txns.get 1).isSome = true := by
  decide +kernel

theorem claim_isolated_root : Untouched "root" ((run {} rootClaimed).get rootClaimed_runs).committed
      ((((run {} rootClaimed).get rootClaimed_runs).run rootPassedOver).get rootPassedOver_runs).committed ∧
    ∀ j y, ((((run {} rootClaimed).get rootClaimed_runs).run rootPassedOver).get
        rootPassedOver_runs).txns.get j = some y → y.stage.claimed = some "root" → j = 1 :=
  claim_isolated .empty (Option.some_get rootClaimed_runs).symm (Option.some_get rootClaimed_open).symm
    (by decide +kernel) (Option.some_get rootPassedOver_runs).symm (by decide)

end Isolated

end Sys

end Reaper.Store
