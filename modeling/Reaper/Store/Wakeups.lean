import Reaper.Store.Tally

/-! Each step keeps the tally: inserts and suspensions set a count that is right, and a settlement
owes one decrement for each of its waits rows until the waiter is locked. -/

namespace Reaper.Store

open Reaper.Library Reaper.Library.Locks

variable {db : Db} {grant : Lock Row → Bool} {x y : Txn} {id : Id}

def RetrySees (db : Db) : Stage → Prop
  | .retrying task snap _ => SeesAll db snap [task.id]
  | _ => True

def DueSees (db : Db) : Stage → Prop
  | .timingOut s => SeesAll db s.snap (s.timerDue ++ s.timeoutDue)
  | _ => True

def Sees (db : Db) (s : Stage) : Act → Prop
  | .reject _ => RetrySees db s
  | .settleDue => DueSees db s
  | _ => True

lemma Tally.same (h : Tally db x) (hd : y.delta = x.delta) (ho : x.stage.owed = [])
    (hs : SnapshotExact db y.stage) : Tally db y := by
  refine ⟨fun id _ => ?_, hs⟩
  have hv : y.view db = x.view db := by rw [Txn.view, Txn.view, hd]
  rw [hv]
  exact h.exact id (by rw [ho]; exact List.not_mem_nil)

lemma ExactAt.view_congr (h : ExactAt (x.view db) id)
    (ht : ∀ u, (y.view db).tasks.get id = some u →
      ∃ t, (x.view db).tasks.get id = some t ∧ t.pendingWaits = u.pendingWaits)
    (hw : ∀ e : Id × Id, e.1 = id → (e ∈ y.delta.waits ↔ e ∈ x.delta.waits))
    (hn : x.delta.tasks.get id ≠ some none)
    (hp : ∀ e ∈ (x.view db).waits, e.1 = id → (y.view db).pending e.2 = (x.view db).pending e.2) :
    ExactAt (y.view db) id := by
  intro u hu
  have hny : y.delta.tasks.get id ≠ some none := by
    intro hd
    rw [Txn.view, Db.patch_tasks, hd] at hu
    cases hu
  refine h.congr ht (fun e he => ?_) hp u hu
  rw [Txn.view, Txn.view, Db.mem_patch_waits, Db.mem_patch_waits, hw e he, he]
  simp only [ne_eq, hn, hny]

section Insert

lemma Covered.absent (hw : Wf db) (hc : Covered db x) (h : (x.view db).promises.get id = none) :
    (x.view db).tasks.get id = none ∧ x.delta.tasks.get id ≠ some none ∧
      ∀ u ∈ (x.view db).waits, u.1 ≠ id ∧ u.2 ≠ id := by
  have hwx := hc.wf hw
  refine ⟨?_, fun hd => ?_, fun u hu => ⟨?_, ?_⟩⟩
  · by_contra hne
    obtain ⟨p, hp, -⟩ := hwx.call id hne
    rw [h] at hp
    cases hp
  · rcases (hc.tasks id none hd).2 with hdb | ⟨-, hne, -⟩
    · obtain ⟨p, hp, -⟩ := hw.call id hdb
      rw [(view_none h hc).2] at hp
      cases hp
    · exact hne rfl
  · rintro rfl
    obtain ⟨w, -, hwt, -⟩ := hwx.awaited u hu
    rw [h] at hwt
    cases hwt
  · rintro rfl
    exact hwx.stored hu h

lemma Tally.insertNext {task : Option ClaimedTask} {e : Insert} {left : List Insert}
    {inserted : List Id} (hw : Wf db) (hc : Covered db x)
    (hs : StageInv db x (.inserting task (e :: left) inserted)) (ho : x.stage.owed = [])
    (ht : Tally db x) (h : x.insertNext db grant task e left inserted = some y) : Tally db y := by
  have hfresh := hs.1 e List.mem_cons_self
  have hall : ∀ id, ExactAt (x.view db) id := fun id =>
    ht.exact id (by rw [ho]; exact List.not_mem_nil)
  obtain ⟨⟨ids, hst⟩, hd | ⟨hnone, hyw, hyp, hyt⟩⟩ := insertNext_writes h
  · exact ht.same hd ho (by rw [hst]; trivial)
  refine ⟨fun id _ => ?_, by rw [hst]; trivial⟩
  obtain ⟨htask, hxt, hwaits⟩ := hc.absent hw hnone
  by_cases hid : id = e.id
  · subst hid
    intro u hu
    have hempty : (y.view db).pendingAwaited e.id = ∅ := by
      rw [Finset.eq_empty_iff_forall_notMem]
      intro v hv
      obtain ⟨hv, hv₁, -⟩ := Db.mem_pendingAwaited.mp hv
      obtain ⟨hm, -⟩ := (Db.mem_patch_waits v).mp hv
      exact (hwaits v ((Db.mem_patch_waits v).mpr ⟨by rwa [← hyw], hv₁ ▸ hxt⟩)).1 hv₁
    rw [Txn.view, Db.patch_tasks, hyt] at hu
    rw [hempty, Finset.card_empty]
    split_ifs at hu with hte
    · exact hfresh.2.2 u hu
    · rw [← Db.patch_tasks] at hu
      have hno := htask.symm.trans hu
      cases hno
  · have hyt' : y.delta.tasks.get id = x.delta.tasks.get id := by
      rw [hyt, if_neg fun hh => hid hh.1]
    by_cases hxn : x.delta.tasks.get id = some none
    · intro u hu
      rw [Txn.view, Db.patch_tasks, hyt', hxn] at hu
      cases hu
    · refine (hall id).view_congr (fun u hu => ⟨u, ?_, rfl⟩) (fun u _ => by rw [hyw]) hxn
        fun u hu _ => Db.pending_congr ?_
      · rw [Txn.view, Db.patch_tasks, hyt'] at hu
        rw [Txn.view, Db.patch_tasks, hu]
      · rw [Txn.view, Txn.view, Db.patch_promises, Db.patch_promises, hyp,
          if_neg (hwaits u hu).2]

end Insert

section Suspend

lemma Tally.suspendEnd {task : ClaimedTask} {snap : Db} {awaited : List Id}
    {found : List (Id × Promise)} {clock : Time} (hw : Wf db) (hc : Covered db x)
    (hs : Suspending db x task.id snap awaited [] found) (ho : x.stage.owed = []) (ht : Tally db x)
    (h : x.suspendEnd db grant task snap awaited found clock = some y) : Tally db y := by
  have hall : ∀ id, ExactAt (x.view db) id := fun id =>
    ht.exact id (by rw [ho]; exact List.not_mem_nil)
  obtain ⟨hnt, -⟩ := hs.holds.untouched hw
  rw [Txn.suspendEnd] at h
  dsimp only at h
  split_ifs at h with hf hg
  · cases h
    exact ht.same rfl ho trivial
  split at h
  · cases h
    exact ht.same rfl ho trivial
  · rename_i t htv
    cases h
    refine ⟨fun id _ => ?_, trivial⟩
    set y := (x.lock (.promise task.id) .keyShare).write fun d =>
      { d.setTask task.id { t with
          pendingWaits := (found.filter fun e => e.2.Pending).length, availableAt := clock } with
        waits := d.waits ∪ (found.map fun e => (task.id, e.1)).toFinset } with hy
    change ExactAt (y.view db) id
    have hyt : ∀ j, j ≠ task.id → y.delta.tasks.get j = x.delta.tasks.get j := fun j hj =>
      Dict.get_set_ne _ _ hj
    have hyself : y.delta.tasks.get task.id = some (some { t with
        pendingWaits := (found.filter fun e => e.2.Pending).length, availableAt := clock }) :=
      Dict.get_set_self _ _ _
    have hyp : ∀ j, (y.view db).pending j = (x.view db).pending j := fun j => rfl
    have hyw : ∀ e, e ∈ y.delta.waits ↔ e ∈ x.delta.waits ∨ ∃ f ∈ found, (task.id, f.1) = e := by
      intro e
      simp [hy]
    by_cases hid : id = task.id
    · subst hid
      intro u hu
      rw [Txn.view, Db.patch_tasks, hyself, Option.getD_some, Option.some_inj] at hu
      rw [← hu]
      -- nothing was pending before, so exactly the pending ones of found are counted
      have hzero : (x.view db).pendingAwaited task.id = ∅ := by
        obtain ⟨t₀, ht₀, hz⟩ := hs.holds.task
        have htt := hall task.id t₀ (by rw [view_task_of_none hnt, ht₀])
        exact Finset.card_eq_zero.mp (htt.symm.trans hz)
      have hnew : (y.view db).pendingAwaited task.id =
          ((found.filter fun e => e.2.Pending).map fun e => (task.id, e.1)).toFinset := by
        ext e
        rw [Db.mem_pendingAwaited, List.mem_toFinset, List.mem_map, Txn.view, Db.mem_patch_waits,
          hyw, hs.holds.inserts.waits]
        constructor
        · rintro ⟨⟨hm, -⟩, he, hpe⟩
          rcases hm with hm | hm | ⟨f, hf, rfl⟩
          · have hin : e ∈ (x.view db).pendingAwaited task.id :=
              Db.mem_pendingAwaited.mpr ⟨(hc.mem_view_waits hnt db e he).mpr hm, he, hpe⟩
            rw [hzero] at hin
            cases hin
          · cases hm
          · obtain ⟨p, hp, hpend⟩ := Db.pending_iff.mp hpe
            have hpf := (hs.locked f hf).2.symm.trans hp
            refine ⟨f, List.mem_filter.mpr ⟨hf, ?_⟩, rfl⟩
            rw [Option.some.inj hpf]
            exact decide_eq_true hpend
        · rintro ⟨f, hf, rfl⟩
          obtain ⟨hf, hpend⟩ := List.mem_filter.mp hf
          refine ⟨⟨Or.inr (Or.inr ⟨f, hf, rfl⟩), by rw [hyself]; simp⟩, rfl, ?_⟩
          exact Db.pending_iff.mpr ⟨f.2, (hs.locked f hf).2, of_decide_eq_true hpend⟩
      have hn : ((found.filter fun e => e.2.Pending).map fun e => (task.id, e.1)).Nodup := by
        have hsub : ((found.filter fun e => e.2.Pending).map Prod.fst).Nodup :=
          (List.nodup_append.mp hs.nodup).1.sublist (List.filter_sublist.map Prod.fst)
        have hmm := hsub.map (f := fun a => (task.id, a)) fun a b hab => (Prod.mk.inj hab).2
        rwa [List.map_map] at hmm
      rw [hnew, List.toFinset_card_of_nodup hn, List.length_map]
    · by_cases hxn : x.delta.tasks.get id = some none
      · intro u hu
        rw [Txn.view, Db.patch_tasks, hyt id hid, hxn] at hu
        cases hu
      · refine (hall id).view_congr (fun u hu => ⟨u, ?_, rfl⟩) (fun e he => ?_) hxn fun e _ _ => hyp e.2
        · rw [Txn.view, Db.patch_tasks, hyt id hid] at hu
          rw [Txn.view, Db.patch_tasks, hu]
        · rw [hyw]
          refine ⟨fun hm => hm.resolve_right ?_, Or.inl⟩
          rintro ⟨f, -, rfl⟩
          exact hid he.symm

end Suspend

section Settle

lemma Tally.retryTask {task : ClaimedTask} {error : Json} {delayMs : ℕ} {clock : Time} (hw : Wf db)
    (hs : Holds db x task.id) (ho : x.stage.owed = []) (ht : Tally db x) :
    Tally db (x.retryTask db task error delayMs clock) := by
  have hall : ∀ id, ExactAt (x.view db) id := fun id =>
    ht.exact id (by rw [ho]; exact List.not_mem_nil)
  obtain ⟨hnt, -⟩ := hs.untouched hw
  unfold Txn.retryTask
  dsimp only
  split
  · exact ht.same rfl ho trivial
  · rename_i t htv
    split_ifs with hp hf
    · -- only failures and available_at change
      refine ⟨fun id _ => ?_, trivial⟩
      set t' : Task := { t with
        failures := t.failures + 1, availableAt := clock + delayMs * millisecond, failures_lt := hf }
      have htask : ∀ j, (x.delta.setTask task.id t').tasks.get j =
          if j = task.id then some (some t') else x.delta.tasks.get j := fun j => Dict.get_set _ _ _ _
      by_cases hxn : x.delta.tasks.get id = some none
      · intro u hu
        have hid : id ≠ task.id := by
          rintro rfl
          rw [hnt] at hxn
          cases hxn
        have hu' : (db.patch (x.delta.setTask task.id t')).tasks.get id = some u := hu
        rw [Db.patch_tasks, htask, if_neg hid, hxn] at hu'
        cases hu'
      · refine (hall id).view_congr (fun u hu => ?_) (fun _ _ => Iff.rfl) hxn fun _ _ _ => rfl
        have hu' : (db.patch (x.delta.setTask task.id t')).tasks.get id = some u := hu
        rw [Db.patch_tasks, htask] at hu'
        split_ifs at hu' with hid
        · subst hid
          exact ⟨t, htv, by rw [← Option.some.inj hu']⟩
        · exact ⟨u, by rw [Txn.view, Db.patch_tasks, hu'], rfl⟩
    · exact ht.same rfl ho (fun id => hall id)
    · exact ht.same rfl ho trivial

lemma Tally.settles {snap : Db} {stamp : Option Time} {settled removed : List Id}
    (hall : ∀ id, ExactAt (x.view db) id) (hws : Wf snap) (hwaits : x.delta.waits = ∅)
    (htasks : ∀ id v, x.delta.tasks.get id = some v → v ≠ none)
    (hd : y.delta.tasks = x.delta.tasks ∧ y.delta.waits = x.delta.waits)
    (hp : ∀ id, id ∉ settled → y.delta.promises.get id = x.delta.promises.get id)
    (hsnap : Exact snap) (hsees : SeesAll db snap settled) :
    Tally db (y.wakeFor snap stamp settled removed) := by
  refine ⟨fun id hid => ?_, hsnap, hsees⟩
  change ExactAt (y.view db) id
  change id ∉ lockedWaiters snap settled at hid
  have hnone : ∀ e ∈ snap.waits, e.1 = id → e.2 ∉ settled := by
    intro e he h₁ hm
    refine hid (mem_lockedWaiters.mpr ⟨h₁ ▸ hws.waiter e he, ?_⟩)
    exact settledCount_pos.mpr ⟨e.2, hm, h₁ ▸ he⟩
  refine (hall id).view_congr (fun u hu => ⟨u, ?_, rfl⟩) (fun e _ => by rw [hd.2])
    (fun hn => htasks id none hn rfl) fun e he h₁ => ?_
  · rw [Txn.view, Db.patch_tasks, hd.1, ← Db.patch_tasks] at hu
    exact hu
  · have hm : e ∈ db.waits := by
      rcases ((Db.mem_patch_waits e).mp he).1 with hm | hm
      · exact hm
      · rw [hwaits] at hm
        cases hm
    have hns : e.2 ∉ settled := fun hse => hnone e (hsees e hm hse) h₁ hse
    refine Db.pending_congr ?_
    rw [Txn.view, Txn.view, Db.patch_promises, Db.patch_promises, hp e.2 hns]

lemma Inserts.tasks_ne (hw : Wf db) (hc : Covered db x) (h : Inserts db x) :
    ∀ id v, x.delta.tasks.get id = some v → v ≠ none := by
  intro id v hv
  rcases (hc.tasks id v hv).2 with hd | ⟨-, hn, -⟩
  · obtain ⟨p, hp, -⟩ := hw.call id hd
    rw [h.tasks id v hv] at hp
    cases hp
  · exact hn

lemma Tally.wakeFor {o : Outcome} {snap : Db} (hw : Wf db) (hc : Covered db x)
    (hs : Holds db x id) (hws : Wf snap) (ho : x.stage.owed = []) (ht : Tally db x)
    (hsnap : Exact snap) (hsees : SeesAll db snap [id]) :
    Tally db ((x.settlePromise db id o).wakeFor snap none [id] [id]) := by
  have hall : ∀ j, ExactAt (x.view db) j := fun j =>
    ht.exact j (by rw [ho]; exact List.not_mem_nil)
  obtain ⟨hdt, hdw, -⟩ := Txn.foldl_settlePromise_rest db [id] x o
  refine Tally.settles hall hws hs.inserts.waits (hs.inserts.tasks_ne hw hc) ⟨hdt, hdw⟩
    (fun j hj => ?_) hsnap hsees
  rw [Txn.settlePromise_promises, if_neg fun h => hj (List.mem_singleton.mpr h)]

/-- SETTLE takes its snapshot after LOCK_PROMISE, so it sees every waits row on its promise. -/
lemma Inserts.seesAll (hw : Wf db) (hc : Covered db x) (h : Inserts db x) (settled : List Id) :
    SeesAll db (x.view db) settled :=
  fun e he _ => (Db.mem_patch_waits e).mpr ⟨Or.inl he, fun hn => h.tasks_ne hw hc _ _ hn rfl⟩

lemma Tally.settle {task : ClaimedTask} {settlement : Settlement} {clock : Time} (hw : Wf db)
    (hc : Covered db x) (hs : Holds db x task.id) (ho : x.stage.owed = []) (ht : Tally db x) :
    Tally db (x.settle db task settlement clock) := by
  unfold Txn.settle
  dsimp only
  split_ifs
  · refine Tally.wakeFor hw hc hs (hc.wf hw) ho ht (fun j => ht.exact j ?_)
      (hs.inserts.seesAll hw hc _)
    rw [ho]
    exact List.not_mem_nil
  · exact ht.same rfl ho trivial

lemma Tally.reject {task : ClaimedTask} {snap : Db} {error : Json} {clock : Time} (hw : Wf db)
    (hc : Covered db x) (hs : Retrying db x task.id snap) (hst : x.stage = .retrying task snap error)
    (ht : Tally db x) (hsees : SeesAll db snap [task.id])
    (h : x.reject db grant task snap error clock = some y) : Tally db y := by
  rw [Txn.reject] at h
  rw [Option.ite_none_right_eq_some] at h
  obtain ⟨hg, h⟩ := h
  cases h
  have hsnap := ht.snapshot
  rw [hst] at hsnap
  have hlock : Tally db (x.lock (.promise task.id) .noKeyUpdate) := ⟨ht.exact, ht.snapshot⟩
  refine Tally.wakeFor hw (hc.lock _ _) (hs.holds.lock _ _) hs.snapshot.wf ?_ hlock hsnap hsees
  change x.stage.owed = []
  rw [hst]
  rfl

lemma Tally.settleDue {s : Due} (hs : Scan db x s) (hst : x.stage = .timingOut s) (ht : Tally db x)
    (hsees : SeesAll db s.snap (s.timerDue ++ s.timeoutDue)) (h : x.settleDue db s = some y) :
    Tally db y := by
  rw [Txn.settleDue] at h
  rw [Option.ite_none_left_eq_some] at h
  obtain ⟨-, h⟩ := h
  cases h
  have hp := settleDue_promises hs
  obtain ⟨ht₁, hw₁, -⟩ := Txn.foldl_settlePromise_rest db s.timerDue x
    (.resolved (some timerResult) s.now)
  obtain ⟨ht₂, hw₂, -⟩ := Txn.foldl_settlePromise_rest db s.timeoutDue
    (s.timerDue.foldl (fun y id => y.settlePromise db id (.resolved (some timerResult) s.now)) x)
    (.timedOut promiseTimeout s.now)
  have hsnap := ht.snapshot
  rw [hst] at hsnap
  refine Tally.settles (fun j => ht.exact j ?_) hs.wf (by rw [hs.delta]) (fun id v hv => ?_)
    ⟨ht₂.trans ht₁, hw₂.trans hw₁⟩ (fun id hid => ?_) hsnap hsees
  · rw [hst]
    exact List.not_mem_nil
  · rw [hs.delta] at hv
    cases hv
  · rcases hp id with ⟨-, hn⟩ | ⟨p, o, hm, -⟩
    · rw [hs.delta]
      exact hn
    · exact absurd hm hid

end Settle

section Wake

variable {snap : Db} {stamp : Option Time} {settled removed left : List Id} {w : Id}

lemma Waking.owed (hw : Wf db) (hc : Covered db x) (hs : Waking db x snap settled removed left)
    (hsees : SeesAll db snap settled) (hn : x.delta.tasks.get w = none)
    (hex : db.tasks.get w ≠ none) :
    (db.pendingAwaited w).card = ((x.view db).pendingAwaited w).card + settledCount snap settled w := by
  set s := ((settled.filter fun a => (w, a) ∈ snap.waits).map fun a => (w, a)).toFinset with hset
  have hmem : ∀ e, e ∈ s ↔ e.1 = w ∧ e.2 ∈ settled ∧ e ∈ snap.waits := by
    rintro ⟨v, a⟩
    simp only [hset, List.mem_toFinset, List.mem_map, List.mem_filter, decide_eq_true_eq,
      Prod.mk.injEq]
    constructor
    · rintro ⟨b, ⟨hb, hbw⟩, rfl, rfl⟩
      exact ⟨rfl, hb, hbw⟩
    · rintro ⟨rfl, ha, haw⟩
      exact ⟨a, ⟨ha, haw⟩, rfl, rfl⟩
  have hcard : s.card = settledCount snap settled w := by
    rw [hset, List.toFinset_card_of_nodup, List.length_map, settledCount]
    exact (hs.nodup.filter _).map fun a b hab => (Prod.mk.inj hab).2
  have hsettled : ∀ a ∈ settled, (x.view db).pending a = false := by
    intro a ha
    obtain ⟨-, -, p, o, -, -, hne, hset⟩ := hs.written a ha
    rw [Bool.eq_false_iff]
    intro hpe
    obtain ⟨q, hq, hqp⟩ := Db.pending_iff.mp hpe
    rw [Txn.view, Db.patch_promises, hset, Option.getD_some, Option.some_inj] at hq
    exact absurd (hq ▸ hqp) (p.settle_not_pending hne)
  have hunion : db.pendingAwaited w = (x.view db).pendingAwaited w ∪ s := by
    ext e
    rw [Finset.mem_union, Db.mem_pendingAwaited, Db.mem_pendingAwaited, hmem]
    constructor
    · rintro ⟨hm, h₁, hp⟩
      by_cases hse : e.2 ∈ settled
      · exact Or.inr ⟨h₁, hse, hsees e hm hse⟩
      · refine Or.inl ⟨(hc.mem_view_waits hn db e h₁).mpr hm, h₁, ?_⟩
        rw [view_pending_of_none, hp]
        cases hv : x.delta.promises.get e.2 with
        | none => rfl
        | some v =>
          rcases hs.others e.2 v hv with h | h
          · exact absurd h hse
          · exact absurd h (hw.stored hm)
    · rintro (⟨hm, h₁, hp⟩ | ⟨h₁, hse, hm⟩)
      · have hdb := (hc.mem_view_waits hn db e h₁).mp hm
        exact ⟨hdb, h₁, hc.later.pending (hw.stored hdb) hp⟩
      · obtain ⟨-, -, p, o, hp, hpend, -⟩ := hs.written e.2 hse
        refine ⟨(hc.mem_view_waits hn db e h₁).mp (hs.snapshot.later.waits e hm ?_), h₁,
          Db.pending_iff.mpr ⟨p, hp, hpend⟩⟩
        rwa [h₁, view_task_of_none hn]
  have hdisj : Disjoint ((x.view db).pendingAwaited w) s := by
    rw [Finset.disjoint_left]
    intro e he hes
    have hfalse := hsettled e.2 ((hmem e).mp hes).2.1
    rw [(Db.mem_pendingAwaited.mp he).2.2] at hfalse
    cases hfalse
  rw [hunion, Finset.card_union_of_disjoint hdisj, hcard]

lemma Waking.counted (hs : Waking db x snap settled removed (w :: left)) (hsnap : Exact snap) :
    (snap.tasks.get w).any (fun t => 0 < t.pendingWaits) = true := by
  obtain ⟨-, hex, hcount⟩ := hs.untouched w List.mem_cons_self
  obtain ⟨t, ht⟩ := Option.ne_none_iff_exists'.mp hex
  obtain ⟨a, ha, haw⟩ := settledCount_pos.mp hcount
  have hmem : (w, a) ∈ snap.pendingAwaited w :=
    Db.mem_pendingAwaited.mpr ⟨haw, rfl, (hs.written a ha).2.1⟩
  rw [ht, Option.any_some, decide_eq_true_eq, hsnap w t ht]
  exact Finset.card_pos.mpr ⟨_, hmem⟩

lemma Tally.wake {clock : Time} (hw : Wf db) (he : Exact db) (hc : Covered db x)
    (hs : Waking db x snap settled removed (w :: left))
    (hst : x.stage = .waking snap stamp settled removed (w :: left)) (ht : Tally db x)
    (h : x.wake db grant snap stamp settled removed w left clock = some y) : Tally db y := by
  obtain ⟨hsnap, hsees⟩ : Exact snap ∧ SeesAll db snap settled := by
    have hh := ht.snapshot
    rwa [hst] at hh
  obtain ⟨hn, hex, hcount⟩ := hs.untouched w List.mem_cons_self
  have hothers : ∀ id, id ≠ w → id ∉ left → ExactAt (x.view db) id := by
    intro id hne hid
    refine ht.exact id ?_
    rw [hst]
    exact fun hm => (List.mem_cons.mp hm).elim hne hid
  rw [Txn.wake] at h
  dsimp only at h
  rw [Option.ite_none_right_eq_some] at h
  obtain ⟨hg, h⟩ := h
  split at h
  · rename_i hnone
    cases h
    refine ⟨fun id hid => ?_, hsnap, hsees⟩
    by_cases hne : id = w
    · subst hne
      intro u hu
      have hu' : (x.view db).tasks.get id = some u := hu
      rw [hnone] at hu'
      cases hu'
    · exact hothers id hne hid
  · rename_i t htv
    have hdb : db.tasks.get w = some t := by rwa [view_task_of_none hn] at htv
    have howed := hs.owed hw hc hsees hn (by simp [hdb])
    have hpw : t.pendingWaits =
        ((x.view db).pendingAwaited w).card + settledCount snap settled w := (he w t hdb).trans howed
    rw [if_pos ⟨hs.counted hsnap, by omega⟩] at h
    cases h
    refine ⟨fun id hid => ?_, hsnap, hsees⟩
    set t' := t.ready (settledCount snap settled w) (stamp.getD clock) with ht'
    have htask : ∀ j, (x.delta.setTask w t').tasks.get j =
        if j = w then some (some t') else x.delta.tasks.get j := fun j => Dict.get_set _ _ _ _
    have hwaits : ∀ e : Id × Id, e ∈ (db.patch (x.delta.setTask w t')).waits ↔ e ∈ (x.view db).waits := by
      intro e
      rw [Txn.view, Db.mem_patch_waits, Db.mem_patch_waits, htask]
      split_ifs with he
      · rw [he, hn]
        simp [Delta.setTask]
      · rfl
    have hsame : ∀ j, (db.patch (x.delta.setTask w t')).pendingAwaited j =
        (x.view db).pendingAwaited j := by
      intro j
      ext e
      rw [Db.mem_pendingAwaited, Db.mem_pendingAwaited, hwaits]
      exact Iff.rfl
    change ExactAt (db.patch (x.delta.setTask w t')) id
    intro u hu
    rw [hsame]
    rw [Db.patch_tasks, htask] at hu
    split_ifs at hu with hne
    · rw [Option.getD_some, Option.some_inj] at hu
      subst hne
      rw [← hu, ht', Task.ready]
      change t.pendingWaits - settledCount snap settled id = _
      omega
    · rw [← Db.patch_tasks] at hu
      exact hothers id hne hid u hu

lemma Tally.wakeEnd (kept : List Id) (hst : x.stage = .waking snap stamp settled removed [])
    (ht : Tally db x) : Tally db (x.wakeEnd removed kept) := by
  rw [Txn.wakeEnd]
  set deleted := removed.filter fun id => ¬ (id ∈ kept ∧ (x.delta.tasks.get id).isSome)
  have hdel := Delta.foldl_deleteTask deleted x.delta
  obtain ⟨hp, hw⟩ := Delta.foldl_deleteTask_rest deleted x.delta
  refine ⟨fun id _ => ?_, trivial⟩
  have hx : ExactAt (x.view db) id := ht.exact id (by rw [hst]; exact List.not_mem_nil)
  change ExactAt (db.patch (deleted.foldl Delta.deleteTask x.delta)) id
  intro u hu
  rw [Db.patch_tasks, hdel] at hu
  split_ifs at hu with hm
  · cases hu
  · refine hx.congr (fun v hv => ⟨v, ?_, rfl⟩) (fun e he => ?_) (fun e _ _ => Db.pending_congr ?_) u ?_
    · rwa [Db.patch_tasks, hdel, if_neg hm, ← Db.patch_tasks] at hv
    · rw [Txn.view, Db.mem_patch_waits, Db.mem_patch_waits, hw, he, hdel, if_neg hm]
    · rw [Txn.view, Db.patch_promises, Db.patch_promises, hp]
    · rwa [Db.patch_tasks, hdel, if_neg hm]

end Wake

lemma Tally.claimNext {snap : Db} {topic : String} {excluded : List (String × ℕ)} {now : Time}
    {left : List Id} (ho : x.stage.owed = []) (ht : Tally db x) :
    Tally db (x.claimNext db grant snap topic excluded now id left) := by
  unfold Txn.claimNext
  dsimp only
  split_ifs with hg
  · split
    · exact ht.same rfl ho trivial
    · split_ifs <;> exact ht.same rfl ho trivial
  · exact ht.same rfl ho trivial

lemma Tally.insertEnd {task : Option ClaimedTask} {inserted : List Id} (ho : x.stage.owed = [])
    (ht : Tally db x) (h : x.insertEnd db grant task inserted = some y) : Tally db y := by
  rw [Txn.insertEnd] at h
  split_ifs at h
  · cases h
    exact ht.same rfl ho trivial
  · cases h
    refine ht.same (foldl_lock_delta _ x) ho ?_
    cases task <;> trivial

lemma Tally.suspendNext {task : ClaimedTask} {snap : Db} {awaited left : List Id} {a : Id}
    {found : List (Id × Promise)} (ho : x.stage.owed = []) (ht : Tally db x)
    (h : x.suspendNext db grant task snap awaited a left found = some y) : Tally db y := by
  rw [Txn.suspendNext] at h
  rw [Option.ite_none_right_eq_some] at h
  obtain ⟨-, h⟩ := h
  split at h <;> cases h <;> exact ht.same rfl ho trivial

lemma Tally.scan {s : Due} (ho : x.stage.owed = []) (ht : Tally db x) (hs : Exact s.snap)
    (h : x.lockExpired db grant s = some y ∨ x.lockTimer db grant s = some y ∨
      x.lockTimeout db grant s = some y) : Tally db y := by
  rcases h with h | h | h
  · rw [Txn.lockExpired] at h
    split at h
    · cases h
    · dsimp only at h
      split_ifs at h <;> cases h <;> exact ht.same rfl ho hs
  · rw [Txn.lockTimer] at h
    split at h
    · cases h
    · dsimp only at h
      rw [Option.ite_none_left_eq_some] at h
      obtain ⟨-, h⟩ := h
      split_ifs at h <;> cases h
      · exact ht.same rfl ho hs
      · exact ht.same rfl ho hs
      · exact ht.same rfl ho hs
  · rw [Txn.lockTimeout] at h
    split at h
    · cases h
    · dsimp only at h
      split_ifs at h <;> cases h
      · exact ht.same rfl ho hs
      · exact ht.same rfl ho hs
      · exact ht.same rfl ho hs

lemma Tally.step {a : Act} (hw : Wf db) (he : Exact db) (hx : Safe db x) (h : Tally db x)
    (hsees : Sees db x.stage a) (hy : Txn.Step db grant x a y) : Tally db y := by
  obtain ⟨hc, hst⟩ := hx
  have hsnap := h.snapshot
  have ho : ∀ s : Stage, x.stage = s → s.owed = [] → x.stage.owed = [] := fun s hs hh => hs ▸ hh
  cases hy with
  | claim hs | claimNone hs => exact h.same rfl (ho _ hs rfl) trivial
  | claimNext hs => exact h.claimNext (ho _ hs rfl)
  | submit ha hs =>
    obtain ⟨hs, -⟩ | ⟨task, hs, -⟩ := hs <;> exact h.same rfl (ho _ hs rfl) trivial
  | insertNext hs hy => exact .insertNext hw hc (hs ▸ hst) (ho _ hs rfl) h hy
  | insertEnd hs hy => exact h.insertEnd (ho _ hs rfl) hy
  | suspendTask hs hy =>
    rw [Txn.suspendTask] at hy
    dsimp only at hy
    split_ifs at hy <;> cases hy <;> exact h.same rfl (ho _ hs rfl) trivial
  | suspendNext hs hy => exact h.suspendNext (ho _ hs rfl) hy
  | suspendEnd hs hy =>
    rw [hs] at hst
    exact .suspendEnd hw hc hst (ho _ hs rfl) h hy
  | settleTask hs =>
    unfold Txn.settleTask
    dsimp only
    split_ifs <;> exact h.same rfl (ho _ hs rfl) trivial
  | lockPromise hs hy =>
    rw [Txn.lockPromise] at hy
    rw [Option.ite_none_right_eq_some] at hy
    obtain ⟨-, hy⟩ := hy
    cases hy
    refine h.same rfl (ho _ hs rfl) ?_
    split_ifs <;> trivial
  | settle hs =>
    rw [hs] at hst
    exact .settle hw hc hst.1 (ho _ hs rfl) h
  | retryTask hs =>
    rw [hs] at hst
    exact .retryTask hw hst (ho _ hs rfl) h
  | reject hs hy =>
    rw [hs] at hst
    rw [hs] at hsees
    exact .reject hw hc hst hs h hsees hy
  | processDue hs =>
    refine h.same rfl (ho _ hs rfl) fun id => h.exact id ?_
    rw [ho _ hs rfl]
    exact List.not_mem_nil
  | lockExpired hs hy =>
    rw [hs] at hsnap
    exact h.scan (ho _ hs rfl) hsnap (Or.inl hy)
  | lockTimer hs hy =>
    rw [hs] at hsnap
    exact h.scan (ho _ hs rfl) hsnap (Or.inr (Or.inl hy))
  | expiredEnd hs hy =>
    rw [hs] at hsnap
    rw [Txn.expiredEnd] at hy
    rw [Option.ite_none_right_eq_some] at hy
    obtain ⟨-, hy⟩ := hy
    cases hy
    exact h.same rfl (ho _ hs rfl) hsnap
  | lockTimeout hs hy =>
    rw [hs] at hsnap
    exact h.scan (ho _ hs rfl) hsnap (Or.inr (Or.inr hy))
  | settleDue hs hy =>
    rw [hs] at hst
    rw [hs] at hsees
    exact .settleDue hst hs h hsees hy
  | wake hs hy =>
    rw [hs] at hst
    exact .wake hw he hc hst hs h hy
  | wakeEnd hs => exact .wakeEnd _ hs h

end Reaper.Store
