import Reaper.Store.Serial

/-! Which promises have a task row. A settled call loses its row, unless the statement that settles
it also updates the row as a waiter's. -/

namespace Reaper.Store

open Reaper.Library Reaper.Library.Locks

variable {db : Db} {x y : Txn} {id : Id}

def LiveAt (db : Db) (id : Id) : Prop :=
  db.tasks.get id ≠ none ↔ ∃ p, db.promises.get id = some p ∧ p.IsCall ∧ p.Pending

def Live (db : Db) : Prop := ∀ id, LiveAt db id

def Stage.removing : Stage → List Id
  | .waking _ _ _ removed _ => removed
  | _ => []

def Unwoken (x : Txn) : Stage → Prop
  | .waking snap _ settled removed _ =>
    ∀ id ∈ removed, x.delta.tasks.get id = none ∧ settledCount snap settled id = 0
  | _ => True

structure Rows (db : Db) (x : Txn) : Prop where
  live : ∀ id ∉ x.stage.removing, LiveAt (x.view db) id
  removing : Unwoken x x.stage

lemma LiveAt.congr {a b : Db} (h : LiveAt a id)
    (ht : b.tasks.get id ≠ none ↔ a.tasks.get id ≠ none)
    (hp : b.promises.get id = a.promises.get id) : LiveAt b id := by
  rw [LiveAt, ht, hp]
  exact h

lemma Rows.same (h : Rows db x) (hd : y.delta = x.delta) (ho : x.stage.removing = [])
    (hs : Unwoken y y.stage) : Rows db y := by
  refine ⟨fun id _ => ?_, hs⟩
  have hv : y.view db = x.view db := by rw [Txn.view, Txn.view, hd]
  rw [hv]
  exact h.live id (by rw [ho]; exact List.not_mem_nil)

lemma Rows.all (h : Rows db x) (ho : x.stage.removing = []) : Live (x.view db) :=
  fun id => h.live id (by rw [ho]; exact List.not_mem_nil)

lemma Rows.insertNext {task : Option ClaimedTask} {e : Insert} {left : List Insert}
    {inserted : List Id} {grant : Lock Row → Bool} (hw : Wf db) (hc : Covered db x)
    (hs : StageInv db x (.inserting task (e :: left) inserted)) (ho : x.stage.removing = [])
    (hr : Rows db x) (h : x.insertNext db grant task e left inserted = some y) : Rows db y := by
  obtain ⟨hpend, hcall, -⟩ := hs.1 e List.mem_cons_self
  obtain ⟨⟨ids, hst⟩, hd | ⟨hnone, -, hyp, hyt⟩⟩ := insertNext_writes h
  · exact hr.same hd ho (by rw [hst]; trivial)
  refine ⟨fun id _ => ?_, by rw [hst]; trivial⟩
  obtain ⟨htask, -, -⟩ := hc.absent hw hnone
  by_cases hid : id = e.id
  · subst hid
    have hp : (y.view db).promises.get e.id = some e.promise := by
      rw [Txn.view, Db.patch_promises, hyp, if_pos rfl, Option.getD_some]
    have ht : (y.view db).tasks.get e.id ≠ none ↔ e.task ≠ none := by
      rw [Txn.view, Db.patch_tasks, hyt]
      by_cases hte : e.task = none
      · rw [if_neg (fun hh => hh.2 hte), ← Db.patch_tasks, hte]
        exact iff_of_false (fun hh => hh htask) (fun hh => hh rfl)
      · rw [if_pos ⟨rfl, hte⟩, Option.getD_some]
    rw [LiveAt, ht, hp, ← hcall]
    constructor
    · exact fun hc => ⟨_, rfl, hc, hpend⟩
    · rintro ⟨p, hp, hc, -⟩
      exact Option.some.inj hp ▸ hc
  · refine (hr.all ho id).congr (Eq.to_iff ?_) ?_
    · rw [Txn.view, Txn.view, Db.patch_tasks, Db.patch_tasks, hyt, if_neg fun hh => hid hh.1]
    · rw [Txn.view, Txn.view, Db.patch_promises, Db.patch_promises, hyp, if_neg hid]

lemma Rows.setTask {t : Task} (ho : x.stage.removing = []) (hr : Rows db x) (hs : Unwoken y y.stage)
    (hp : y.delta.promises = x.delta.promises)
    (hd : y.delta.tasks = x.delta.tasks.set id (some t)) (ht : (x.view db).tasks.get id ≠ none) :
    Rows db y := by
  refine ⟨fun j _ => (hr.all ho j).congr ?_ ?_, hs⟩
  · rw [Txn.view, Db.patch_tasks, hd, Dict.get_set]
    split_ifs with hj
    · rw [Option.getD_some, hj]
      exact iff_of_true (by simp) ht
    · rw [← Db.patch_tasks]
      rfl
  · rw [Txn.view, Txn.view, Db.patch_promises, Db.patch_promises, hp]

lemma Rows.suspendEnd {grant : Lock Row → Bool} {task : ClaimedTask} {snap : Db}
    {awaited : List Id} {found : List (Id × Promise)} {clock : Time} (ho : x.stage.removing = [])
    (hr : Rows db x) (h : x.suspendEnd db grant task snap awaited found clock = some y) :
    Rows db y := by
  rw [Txn.suspendEnd] at h
  dsimp only at h
  split_ifs at h with hf hg
  · cases h
    exact hr.same rfl ho trivial
  split at h
  · cases h
    exact hr.same rfl ho trivial
  · rename_i t htv
    cases h
    exact .setTask ho hr trivial rfl rfl (by simp [htv])

lemma Rows.retryTask {task : ClaimedTask} {error : Json} {delayMs : ℕ} {clock : Time}
    (ho : x.stage.removing = []) (hr : Rows db x) :
    Rows db (x.retryTask db task error delayMs clock) := by
  unfold Txn.retryTask
  dsimp only
  split
  · exact hr.same rfl ho trivial
  · rename_i t htv
    split_ifs
    · exact .setTask ho hr trivial rfl rfl (by simp [htv])
    · exact hr.same rfl ho trivial
    · exact hr.same rfl ho trivial

lemma Holds.not_self_waiting {snap : Db} (hw : Wf db) (hh : Holds db x id) (hs : Snapshot db x snap)
    (he : ExactAt (x.view db) id) (hp : db.pending id = true) : (id, id) ∉ snap.waits := by
  intro hm
  obtain ⟨hnt, -⟩ := hh.untouched hw
  obtain ⟨t, ht, hz⟩ := hh.task
  have htv : (x.view db).tasks.get id = some t := by rw [view_task_of_none hnt, ht]
  have hin : (id, id) ∈ (x.view db).pendingAwaited id :=
    Db.mem_pendingAwaited.mpr ⟨hs.later.waits _ hm (by simp [htv]), rfl,
      (Db.pending_congr (hh.view hw).2).trans hp⟩
  rw [Finset.card_eq_zero.mp ((he t htv).symm.trans hz)] at hin
  cases hin

lemma Rows.settles {snap : Db} {stamp : Option Time} {settled removed : List Id}
    (hr : Live (x.view db)) (ht : y.delta.tasks = x.delta.tasks)
    (hp : ∀ id, id ∉ settled → y.delta.promises.get id = x.delta.promises.get id)
    (hcalls : ∀ id ∈ settled, id ∉ removed → ∃ p o, (x.view db).promises.get id = some p ∧
      ¬ p.IsCall ∧ (y.view db).promises.get id = some (p.settle o))
    (hun : ∀ id ∈ removed, x.delta.tasks.get id = none ∧ settledCount snap settled id = 0) :
    Rows db (y.wakeFor snap stamp settled removed) := by
  refine ⟨fun id hid => ?_, fun id hm => ⟨?_, (hun id hm).2⟩⟩
  · change LiveAt (y.view db) id
    have htask : (y.view db).tasks.get id = (x.view db).tasks.get id := by
      rw [Txn.view, Txn.view, Db.patch_tasks, Db.patch_tasks, ht]
    by_cases hs : id ∈ settled
    · obtain ⟨p, o, hget, hnc, hset⟩ := hcalls id hs hid
      have hnt : ¬ (x.view db).tasks.get id ≠ none := fun hne => by
        obtain ⟨q, hq, hqc, -⟩ := (hr id).mp hne
        rw [hget, Option.some_inj] at hq
        exact hnc (hq ▸ hqc)
      rw [LiveAt, htask, hset]
      refine iff_of_false hnt ?_
      rintro ⟨q, hq, hqc, -⟩
      cases hq
      exact hnc ((p.settle_isCall o).mp hqc)
    · refine (hr id).congr (by rw [htask]) ?_
      rw [Txn.view, Txn.view, Db.patch_promises, Db.patch_promises, hp id hs]
  · change y.delta.tasks.get id = none
    rw [ht]
    exact (hun id hm).1

lemma Rows.wakeFor {o : Outcome} {snap : Db} (hw : Wf db) (hh : Holds db x id)
    (hs : Snapshot db x snap) (he : ExactAt (x.view db) id) (hp : db.pending id = true)
    (hr : Live (x.view db)) : Rows db ((x.settlePromise db id o).wakeFor snap none [id] [id]) := by
  obtain ⟨hdt, -, -⟩ := Txn.foldl_settlePromise_rest db [id] x o
  refine Rows.settles hr hdt (fun j hj => ?_) (fun j hj hn => absurd hj hn) fun j hj => ?_
  · rw [Txn.settlePromise_promises, if_neg fun h => hj (List.mem_singleton.mpr h)]
  · rw [List.mem_singleton.mp hj]
    refine ⟨(hh.untouched hw).1, Nat.eq_zero_of_not_pos fun hpos => ?_⟩
    obtain ⟨a, ha, haw⟩ := settledCount_pos.mp hpos
    rw [List.mem_singleton.mp ha] at haw
    exact hh.not_self_waiting hw hs he hp haw

def Undisturbed (db : Db) (limit : ℕ) (now : Time) : Bool :=
  ((expiredTasks db now).take limit).all fun id =>
    settledCount db ((timerDue db now).take limit ++ (expiredTasks db now).take limit) id = 0

lemma mem_take_of_append {as bs cs : List Id} {n : ℕ} (h : as ++ bs = cs) (hn : as.length ≤ n) :
    ∀ a ∈ as, a ∈ cs.take n := by
  intro a ha
  rw [← h, List.take_append, List.take_of_length_le hn]
  exact List.mem_append_left _ ha

lemma Picks.undisturbed {s : Due} (hs : Scan db x s) (h : Picks db s)
    (hC : Undisturbed db s.limit s.now = true) :
    ∀ id ∈ s.timeoutDue, settledCount s.snap (s.timerDue ++ s.timeoutDue) id = 0 := by
  intro id hid
  have hexp : ∀ j ∈ s.timeoutDue, j ∈ (expiredTasks db s.now).take s.limit := fun j hj =>
    mem_take_of_append h.tasks h.tasks_le j (hs.timeoutDue j (List.mem_append_left _ hj))
  have hzero := of_decide_eq_true (List.all_eq_true.mp hC id (hexp id hid))
  refine Nat.eq_zero_of_not_pos fun hpos => ?_
  obtain ⟨a, ha, haw⟩ := settledCount_pos.mp hpos
  refine absurd hzero (Nat.pos_iff_ne_zero.mp (settledCount_pos.mpr ⟨a, ?_, h.snap ▸ haw⟩))
  refine List.mem_append.mpr ((List.mem_append.mp ha).imp (fun hm => ?_) fun hm => hexp a hm)
  exact mem_take_of_append h.timers h.timers_le a hm

lemma Rows.settleDue {s : Due} (hs : Scan db x s) (hsolo : Picks db s)
    (hC : Undisturbed db s.limit s.now = true) (hr : Live (x.view db))
    (h : x.settleDue db s = some y) : Rows db y := by
  rw [Txn.settleDue] at h
  rw [Option.ite_none_left_eq_some] at h
  obtain ⟨-, h⟩ := h
  cases h
  have hp := settleDue_promises hs
  have hx : ∀ id, x.delta.promises.get id = none := fun id => by rw [hs.delta]; rfl
  obtain ⟨ht₁, -, -⟩ := Txn.foldl_settlePromise_rest db s.timerDue x
    (.resolved (some timerResult) s.now)
  obtain ⟨ht₂, -, -⟩ := Txn.foldl_settlePromise_rest db s.timeoutDue
    (s.timerDue.foldl (fun y id => y.settlePromise db id (.resolved (some timerResult) s.now)) x)
    (.timedOut promiseTimeout s.now)
  refine Rows.settles hr (ht₂.trans ht₁) (fun id hid => ?_) (fun id hid hn => ?_) fun id hid => ⟨?_, ?_⟩
  · rcases hp id with ⟨-, hn⟩ | ⟨p, o, hm, -⟩
    · exact hn.trans (hx id).symm
    · exact absurd hm hid
  · -- what is settled and not timed out is a timer
    have hm := (List.mem_append.mp hid).resolve_right hn
    obtain ⟨q, hq, -, hqc⟩ := hs.timerDue id (List.mem_append_left _ hm)
    rcases hp id with ⟨hno, -⟩ | ⟨p, o, -, hget, -, -, hset⟩
    · exact absurd hid hno
    · rw [hsolo.snap, hget, Option.some_inj] at hq
      subst hq
      refine ⟨p, o, by rw [Txn.view_empty hs.delta, hget], fun hc => hqc.mp hc, ?_⟩
      rw [Txn.view, Db.patch_promises, hset, Option.getD_some]
  · rw [hs.delta]
    rfl
  · exact hsolo.undisturbed hs hC id hid

section Wake

variable {snap : Db} {stamp : Option Time} {settled removed left : List Id} {w : Id}

lemma Rows.wake {grant : Lock Row → Bool} {clock : Time}
    (hs : Waking db x snap settled removed (w :: left))
    (hst : x.stage = .waking snap stamp settled removed (w :: left)) (hr : Rows db x)
    (h : x.wake db grant snap stamp settled removed w left clock = some y) : Rows db y := by
  obtain ⟨hn, -, hcount⟩ := hs.untouched w List.mem_cons_self
  have hun : ∀ id ∈ removed, x.delta.tasks.get id = none ∧ settledCount snap settled id = 0 := by
    have hh := hr.removing
    rwa [hst] at hh
  have hlive : ∀ id ∉ removed, LiveAt (x.view db) id := fun id hid =>
    hr.live id (by rw [hst]; exact hid)
  rw [Txn.wake] at h
  dsimp only at h
  rw [Option.ite_none_right_eq_some] at h
  obtain ⟨hg, h⟩ := h
  split at h
  · cases h
    exact ⟨hlive, hun⟩
  · rename_i t htv
    split_ifs at h <;> cases h
    · have hw : ∀ id ∈ removed, id ≠ w := by
        rintro id hm rfl
        have hz := (hun id hm).2
        omega
      set t' := t.ready (settledCount snap settled w) (stamp.getD clock)
      have htask : ∀ j, (x.delta.setTask w t').tasks.get j =
          if j = w then some (some t') else x.delta.tasks.get j := fun j => Dict.get_set _ _ _ _
      refine ⟨fun id hid => (hlive id hid).congr ?_ rfl, fun id hm => ⟨?_, (hun id hm).2⟩⟩
      · change (db.patch (x.delta.setTask w t')).tasks.get id ≠ none ↔ _
        rw [Db.patch_tasks, htask]
        split_ifs with hid
        · rw [hid]
          exact iff_of_true (by simp) (by simp [htv])
        · rw [← Db.patch_tasks]
          rfl
      · exact (htask id).trans ((if_neg (hw id hm)).trans (hun id hm).1)
    · exact ⟨hlive, hun⟩

lemma Rows.wakeEnd (kept : List Id) (hs : Waking db x snap settled removed [])
    (hst : x.stage = .waking snap stamp settled removed []) (hr : Rows db x) :
    Rows db (x.wakeEnd removed kept) := by
  have hun : ∀ id ∈ removed, x.delta.tasks.get id = none ∧ settledCount snap settled id = 0 := by
    have hh := hr.removing
    rwa [hst] at hh
  rw [Txn.wakeEnd]
  set deleted := removed.filter fun id => ¬ (id ∈ kept ∧ (x.delta.tasks.get id).isSome)
  have hdel : ∀ id, id ∈ deleted ↔ id ∈ removed := by
    intro id
    refine ⟨fun h => (List.mem_filter.mp h).1, fun h => List.mem_filter.mpr ⟨h, ?_⟩⟩
    simp [(hun id h).1]
  have htask := Delta.foldl_deleteTask deleted x.delta
  obtain ⟨hp, -⟩ := Delta.foldl_deleteTask_rest deleted x.delta
  refine ⟨fun id _ => ?_, trivial⟩
  change LiveAt (db.patch (deleted.foldl Delta.deleteTask x.delta)) id
  have hprom : (db.patch (deleted.foldl Delta.deleteTask x.delta)).promises.get id =
      (x.view db).promises.get id := by
    rw [Txn.view, Db.patch_promises, Db.patch_promises, hp]
  by_cases hid : id ∈ removed
  · obtain ⟨-, -, p, o, -, -, hne, hset⟩ := hs.written id (hs.ownTask id hid).1
    have hview : (x.view db).promises.get id = some (p.settle o) := by
      rw [Txn.view, Db.patch_promises, hset, Option.getD_some]
    rw [LiveAt, hprom, hview, Db.patch_tasks, htask, if_pos ((hdel id).mpr hid)]
    refine iff_of_false (fun h => h rfl) ?_
    rintro ⟨q, hq, -, hqp⟩
    cases hq
    exact p.settle_not_pending hne hqp
  · refine (hr.live id (by rw [hst]; exact hid)).congr ?_ hprom
    rw [Db.patch_tasks, htask, if_neg fun h => hid ((hdel id).mp h), ← Db.patch_tasks]
    rfl

end Wake

section Steps

variable {grant : Lock Row → Bool}

lemma Rows.settle {task : ClaimedTask} {settlement : Settlement} {clock : Time} (hw : Wf db)
    (hc : Covered db x) (hh : Holds db x task.id) (hp : db.pending task.id = true)
    (he : Exact (x.view db)) (ho : x.stage.removing = []) (hr : Rows db x) :
    Rows db (x.settle db task settlement clock) := by
  unfold Txn.settle
  dsimp only
  split_ifs
  · exact Rows.wakeFor hw hh (.now hw hc) (he _) hp (hr.all ho)
  · exact hr.same rfl ho trivial

lemma Rows.reject {task : ClaimedTask} {snap : Db} {error : Json} {clock : Time} (hw : Wf db)
    (hs : Retrying db x task.id snap) (he : Exact (x.view db)) (ho : x.stage.removing = [])
    (hr : Rows db x) (h : x.reject db grant task snap error clock = some y) : Rows db y := by
  rw [Txn.reject] at h
  rw [Option.ite_none_right_eq_some] at h
  obtain ⟨-, h⟩ := h
  cases h
  have hl := hs.holds.lock (.promise task.id) .noKeyUpdate
  exact Rows.wakeFor hw hl ⟨hs.snapshot.wf, hs.snapshot.later⟩ (he _) hs.pending (hr.all ho)

lemma Rows.claimNext {snap : Db} {topic : String} {excluded : List (String × ℕ)} {now : Time}
    {left : List Id} (ho : x.stage.removing = []) (hr : Rows db x) :
    Rows db (x.claimNext db grant snap topic excluded now id left) := by
  unfold Txn.claimNext
  dsimp only
  split_ifs with hg
  · split
    · exact hr.same rfl ho trivial
    · split_ifs <;> exact hr.same rfl ho trivial
  · exact hr.same rfl ho trivial

lemma Rows.insertEnd {task : Option ClaimedTask} {inserted : List Id} (ho : x.stage.removing = [])
    (hr : Rows db x) (h : x.insertEnd db grant task inserted = some y) : Rows db y := by
  rw [Txn.insertEnd] at h
  split_ifs at h
  · cases h
    exact hr.same rfl ho trivial
  · cases h
    refine hr.same (foldl_lock_delta _ x) ho ?_
    cases task <;> trivial

lemma Rows.scan {s : Due} (ho : x.stage.removing = []) (hr : Rows db x)
    (h : x.lockExpired db grant s = some y ∨ x.lockTimer db grant s = some y ∨
      x.lockTimeout db grant s = some y) : Rows db y := by
  rcases h with h | h | h
  · rw [Txn.lockExpired] at h
    split at h
    · cases h
    · dsimp only at h
      split_ifs at h <;> cases h <;> exact hr.same rfl ho trivial
  · rw [Txn.lockTimer] at h
    split at h
    · cases h
    · dsimp only at h
      rw [Option.ite_none_left_eq_some] at h
      obtain ⟨-, h⟩ := h
      split_ifs at h <;> cases h <;> exact hr.same rfl ho trivial
  · rw [Txn.lockTimeout] at h
    split at h
    · cases h
    · dsimp only at h
      split_ifs at h <;> cases h <;> exact hr.same rfl ho trivial

lemma Rows.step {a : Act} (hw : Wf db) (hx : Safe db x) (ht : Tally db x)
    (hsolo : Solo db (fun limit now => Undisturbed db limit now = true) x.stage) (h : Rows db x)
    (hy : Txn.Step db grant x a y) : Rows db y := by
  obtain ⟨hc, hst⟩ := hx
  have ho : ∀ s : Stage, x.stage = s → s.removing = [] → x.stage.removing = [] :=
    fun s hs hh => hs ▸ hh
  have hexact : ∀ s : Stage, x.stage = s → s.owed = [] → Exact (x.view db) := by
    rintro s rfl hh id
    exact ht.exact id (by rw [hh]; exact List.not_mem_nil)
  cases hy with
  | claim hs | claimNone hs | processDue hs => exact h.same rfl (ho _ hs rfl) trivial
  | claimNext hs => exact h.claimNext (ho _ hs rfl)
  | submit ha hs =>
    obtain ⟨hs, -⟩ | ⟨task, hs, -⟩ := hs <;> exact h.same rfl (ho _ hs rfl) trivial
  | insertNext hs hy => exact .insertNext hw hc (hs ▸ hst) (ho _ hs rfl) h hy
  | insertEnd hs hy => exact h.insertEnd (ho _ hs rfl) hy
  | suspendTask hs hy =>
    rw [Txn.suspendTask] at hy
    dsimp only at hy
    split_ifs at hy <;> cases hy <;> exact h.same rfl (ho _ hs rfl) trivial
  | suspendNext hs hy =>
    rw [Txn.suspendNext] at hy
    rw [Option.ite_none_right_eq_some] at hy
    obtain ⟨-, hy⟩ := hy
    split at hy <;> cases hy <;> exact h.same rfl (ho _ hs rfl) trivial
  | suspendEnd hs hy => exact .suspendEnd (ho _ hs rfl) h hy
  | settleTask hs =>
    unfold Txn.settleTask
    dsimp only
    split_ifs <;> exact h.same rfl (ho _ hs rfl) trivial
  | lockPromise hs hy =>
    rw [Txn.lockPromise] at hy
    rw [Option.ite_none_right_eq_some] at hy
    obtain ⟨-, hy⟩ := hy
    cases hy
    refine h.same rfl (ho _ hs rfl) ?_
    split_ifs <;> trivial
  | settle hs =>
    rw [hs] at hst
    exact .settle hw hc hst.1 hst.2.2 (hexact _ hs rfl) (ho _ hs rfl) h
  | retryTask hs => exact .retryTask (ho _ hs rfl) h
  | reject hs hy =>
    rw [hs] at hst
    exact .reject hw hst (hexact _ hs rfl) (ho _ hs rfl) h hy
  | lockExpired hs hy => exact h.scan (ho _ hs rfl) (Or.inl hy)
  | lockTimer hs hy => exact h.scan (ho _ hs rfl) (Or.inr (Or.inl hy))
  | expiredEnd hs hy =>
    rw [Txn.expiredEnd] at hy
    rw [Option.ite_none_right_eq_some] at hy
    obtain ⟨-, hy⟩ := hy
    cases hy
    exact h.same rfl (ho _ hs rfl) trivial
  | lockTimeout hs hy => exact h.scan (ho _ hs rfl) (Or.inr (Or.inr hy))
  | settleDue hs hy =>
    rw [hs] at hst hsolo
    exact .settleDue hst hsolo.1 hsolo.2 (h.all (ho _ hs rfl)) hy
  | wake hs hy =>
    rw [hs] at hst
    exact .wake hst hs h hy
  | wakeEnd hs =>
    rw [hs] at hst
    exact .wakeEnd _ hst hs h

end Steps

section Runs

def calmAct (db : Db) : Act → Bool
  | .processDue limit now => Undisturbed db limit now
  | _ => true

def Operation.calm (db : Db) : Operation → Bool
  | .transaction acts => acts.all (calmAct db)
  | .deleteExpired .. => true

def calm : Db → List Operation → Bool
  | _, [] => true
  | db, op :: ops => op.calm db && (op.apply db).all fun db' => calm db' ops

lemma alone_rows {acts : List Act} (hw : Wf db) (he : Exact db) (hx : Safe db x) (ht : Tally db x)
    (hs : Solo db (fun limit now => Undisturbed db limit now = true) x.stage) (hr : Rows db x)
    (hcalm : acts.all (calmAct db) = true) (h : Txn.alone db x acts = some y) : Rows db y := by
  induction acts generalizing x with
  | nil =>
    cases h
    exact hr
  | cons a acts ih =>
    obtain ⟨z, hz, h⟩ := Option.bind_eq_some_iff.mp h
    rw [List.all_cons, Bool.and_eq_true] at hcalm
    have hz := Txn.Step.of_advance hz
    refine ih (hx.step hw hz) (ht.step hw he hx (hs.sees a) hz) (hs.step hw hx (fun l n ha => ?_) hz)
      (hr.step hw hx ht hs hz) hcalm.2 h
    subst ha
    exact hcalm.1

lemma Live.deleteGraphs (h : Live db) (roots : List Id) : Live (db.deleteGraphs roots) := by
  rw [Db.deleteGraphs]
  dsimp only
  split_ifs
  · exact h
  intro id
  rw [LiveAt, Dict.get_filter, Dict.get_filter]
  cases hg : (db.promises.get id).any fun p => p.graphId id ∈ roots with
  | true =>
    refine iff_of_false (by simp) ?_
    rintro ⟨p, hp, -⟩
    simp at hp
  | false => simpa [LiveAt, Option.ne_none_iff_exists'] using h id

lemma apply_live {op : Operation} {db' : Db} (hw : Wf db) (he : Exact db) (hl : Live db)
    (hcalm : op.calm db = true) (h : op.apply db = some db') : Live db' := by
  cases op with
  | transaction acts =>
    obtain ⟨x, hx, rfl⟩ := Option.map_eq_some_iff.mp h
    have hopen : Rows db {} := ⟨fun id _ => by rw [Txn.view_empty rfl]; exact hl id, trivial⟩
    have hr := alone_rows hw he (.opened db) (.opened he) trivial hopen hcalm hx
    rw [Txn.outcome]
    split
    · rename_i hst
      exact hr.all (by rw [hst]; rfl)
    · exact hl
  | deleteExpired before limit =>
    cases h
    exact hl.deleteGraphs _

lemma serve_live {ops : List Operation} {db' : Db} (hw : Wf db) (he : Exact db) (hl : Live db)
    (hcalm : calm db ops = true) (h : serve db ops = some db') : Live db' := by
  induction ops generalizing db with
  | nil =>
    cases h
    exact hl
  | cons op ops ih =>
    obtain ⟨db₁, h₁, h⟩ := Option.bind_eq_some_iff.mp h
    obtain ⟨hw₁, he₁⟩ := apply_keeps hw he h₁
    rw [calm, h₁, Option.all_some, Bool.and_eq_true] at hcalm
    exact ih hw₁ he₁ (apply_live hw he hl hcalm.1 h₁) hcalm.2 h

/-- After serial operations whose runs of PROCESS_DUE are calm, the calls with a task row are the
pending ones. -/
theorem serial_rows {ops : List Operation} (hcalm : calm {} ops = true)
    (h : serve {} ops = some db) : Live db :=
  serve_live .empty .empty (fun _ => iff_of_false (fun h => h rfl) (fun ⟨_, hp, _⟩ => by cases hp))
    hcalm h

def expiredInTurn : List Operation :=
  waitedFor ++ [
    .transaction [.processDue 1 200, .lockExpired, .expiredEnd, .lockTimeout, .settleDue, .wake 200,
      .wakeEnd []],
    .transaction [.processDue 1 200, .lockExpired, .expiredEnd, .lockTimeout, .settleDue, .wakeEnd []]]

lemma expiredInTurn_serves : (serve {} expiredInTurn).isSome = true := by decide +kernel

theorem serial_rows_expired : Live ((serve {} expiredInTurn).get expiredInTurn_serves) :=
  serial_rows (by decide +kernel) (Option.some_get _).symm

def expiredTogether : List Operation :=
  waitedFor ++ [
    .transaction [.processDue 2 200, .lockExpired, .lockExpired, .expiredEnd, .lockTimeout,
      .lockTimeout, .settleDue, .wake 200, .wakeEnd ["root"]]]

lemma expiredTogether_serves : (serve {} expiredTogether).isSome = true := by decide +kernel

/-- The root's row stays: the update of its count in the same statement came first. -/
theorem due_keeps_settled_row : ¬ ∀ ops db, serve {} ops = some db → Live db := by
  intro h
  have hlive := h expiredTogether _ (Option.some_get expiredTogether_serves).symm "root"
  obtain ⟨p, hp, -, hpend⟩ := hlive.mp (by decide +kernel)
  exact absurd (Db.pending_iff.mpr ⟨p, hp, hpend⟩) (by decide +kernel)

end Runs

end Reaper.Store
