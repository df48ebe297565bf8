import Reaper.Store.Steps

/-! PROCESS_DUE settles only pending promises it has locked, and every statement wakes the waiters
of its snapshot. With this each step of a transaction keeps it safe. -/

namespace Reaper.Store

open Reaper.Library Reaper.Library.Locks

variable {db : Db} {grant : Lock Row → Bool} {x y : Txn}

section Scan

lemma nodup_map_entries (es : List (Id × Promise)) (h : (es.map Prod.fst).Nodup)
    (f : Id × Promise → Bool) :
    (((es.filter f).insertionSort DueBefore).map Prod.fst).Nodup := by
  have hp := (List.perm_insertionSort DueBefore (es.filter f)).map Prod.fst
  exact hp.nodup_iff.mpr (h.sublist (List.filter_sublist.map Prod.fst))

lemma expiredTasks_spec (snap : Db) (now : Time) :
    (expiredTasks snap now).Nodup ∧ ∀ id ∈ expiredTasks snap now, DueIn snap True id := by
  refine ⟨nodup_map_entries _ snap.promises.nodup _, fun id hm => ?_⟩
  obtain ⟨⟨j, p⟩, he, rfl⟩ := List.mem_map.mp hm
  obtain ⟨hmem, hf⟩ := List.mem_filter.mp ((List.mem_insertionSort _).mp he)
  simp only [decide_eq_true_eq, expired, Bool.and_eq_true] at hf
  refine ⟨p, (Dict.mem_entries _ _ _).mp hmem, hf.2.1, iff_true_intro ?_⟩
  cases hd : p.deadline with
  | expiresAt t => exact ⟨t, hd⟩
  | dueAt t => simp [hd] at hf

lemma timerDue_spec (snap : Db) (now : Time) :
    (timerDue snap now).Nodup ∧ ∀ id ∈ timerDue snap now, DueIn snap False id := by
  refine ⟨nodup_map_entries _ snap.promises.nodup _, fun id hm => ?_⟩
  obtain ⟨⟨j, p⟩, he, rfl⟩ := List.mem_map.mp hm
  obtain ⟨hmem, hf⟩ := List.mem_filter.mp ((List.mem_insertionSort _).mp he)
  simp only [due, Bool.and_eq_true, decide_eq_true_eq] at hf
  refine ⟨p, (Dict.mem_entries _ _ _).mp hmem, hf.1, iff_false_intro ?_⟩
  rintro ⟨t, ht⟩
  simp [ht] at hf

lemma Safe.processDue (hw : Wf db) (h : x.delta = {}) (limit : ℕ) (now : Time) :
    Safe db (x.processDue db limit now) := by
  obtain ⟨hen, hed⟩ := expiredTasks_spec (x.view db) now
  obtain ⟨htn, htd⟩ := timerDue_spec (x.view db) now
  refine ⟨.empty h, ⟨?_, rfl, rfl⟩⟩
  exact {
    delta := h
    wf := (Covered.empty h).wf hw
    later := Later.of_empty h |>.mp (.refl (x.view db))
    expired := fun id hm => by cases hm
    expiredNodup := hen
    expiredDue := hed
    timer := fun id hm => by cases hm
    timerNodup := htn
    timerDue := htd
    timeout := fun id hm => by cases hm
    timeoutNodup := List.nodup_nil
    timeoutDue := fun id hm => by cases hm }

lemma Scan.mono {s : Due} (h : Scan db x s) (hd : y.delta = x.delta)
    (hl : ∀ l ∈ x.locks, l ∈ y.locks) : Scan db y s :=
  { h with
    delta := hd.trans h.delta
    expired := fun id hm => ⟨(h.expired id hm).1.mono hl, (h.expired id hm).2⟩
    timer := fun id hm => ⟨(h.timer id hm).1.mono hl, (h.timer id hm).2⟩
    timeout := fun id hm => ⟨(h.timeout id hm).1.mono hl, (h.timeout id hm).2⟩ }

lemma append_cons_sublist (xs ys : List Id) (a : Id) : (xs ++ ys).Sublist (xs ++ a :: ys) :=
  List.Sublist.append_left (List.sublist_cons_self a ys) _

lemma Safe.lockExpired {s : Due} (hs : StageInv db x (.due s))
    (h : x.lockExpired db grant s = some y) : Safe db y := by
  obtain ⟨hs, h₁, h₂⟩ := hs
  rw [Txn.lockExpired] at h
  split at h
  · cases h
  · rename_i id left hleft
    have hn := hs.expiredNodup
    have hd := hs.expiredDue
    rw [hleft] at hn hd
    dsimp only at h
    rw [Option.ite_none_left_eq_some] at h
    obtain ⟨-, h⟩ := h
    by_cases hg : grant ⟨.task id, .update⟩ = true ∧ (x.view db).tasks.get id ≠ none
    · rw [if_pos hg] at h
      cases h
      have hm : Scan db (x.lock (.task id) .update) s :=
        hs.mono rfl fun l hl => List.mem_cons_of_mem _ hl
      have heq : (s.expiredTasks ++ [id]) ++ left = s.expiredTasks ++ id :: left := by simp
      refine ⟨.empty hs.delta, ⟨{ hm with
        expired := fun j hj => ?_
        expiredNodup := heq ▸ hn
        expiredDue := heq ▸ hd
        timeoutDue := fun j hj => ?_ }, h₁, h₂⟩⟩
      · rcases List.mem_append.mp hj with hj | hj
        · exact hm.expired j hj
        · rw [List.mem_singleton.mp hj]
          exact ⟨x.lock_owns _ (by simp), by rw [← (view_empty hs.delta id).2]; exact hg.2⟩
      · exact List.mem_append_left _ (hm.timeoutDue j hj)
    · rw [if_neg hg] at h
      cases h
      have hsub := append_cons_sublist s.expiredTasks left id
      exact ⟨.empty hs.delta, ⟨{ hs with
        expiredNodup := hn.sublist hsub
        expiredDue := fun j hj => hd j (hsub.subset hj) }, h₁, h₂⟩⟩

lemma Safe.lockTimer {s : Due} (hs : StageInv db x (.due s))
    (h : x.lockTimer db grant s = some y) : Safe db y := by
  obtain ⟨hs, h₁, h₂⟩ := hs
  rw [Txn.lockTimer] at h
  split at h
  · cases h
  · rename_i id left hleft
    have hn := hs.timerNodup
    have hd := hs.timerDue
    rw [hleft] at hn hd
    have hsub := append_cons_sublist s.timerDue left id
    have hskip : ∀ z : Txn, Scan db z s → Scan db z { s with timersLeft := left } := fun z hz =>
      { hz with
        timerNodup := hn.sublist hsub
        timerDue := fun j hj => hd j (hsub.subset hj) }
    dsimp only at h
    rw [Option.ite_none_left_eq_some] at h
    obtain ⟨-, h⟩ := h
    by_cases hg : grant ⟨.promise id, .update⟩ = true
    · rw [if_pos hg] at h
      cases h
      have hm : Scan db (x.lock (.promise id) .update) s :=
        hs.mono rfl fun l hl => List.mem_cons_of_mem _ hl
      refine ⟨.empty hs.delta, ?_⟩
      change StageInv db _ (.due _)
      split_ifs with hdue
      · have heq : (s.timerDue ++ [id]) ++ left = s.timerDue ++ id :: left := by simp
        refine ⟨{ hm with
          timer := fun j hj => ?_
          timerNodup := heq ▸ hn
          timerDue := heq ▸ hd }, h₁, h₂⟩
        rcases List.mem_append.mp hj with hj | hj
        · exact hm.timer j hj
        · rw [List.mem_singleton.mp hj]
          refine ⟨x.lock_owns _ (by simp), ?_⟩
          rw [(view_empty hs.delta id).1] at hdue
          obtain ⟨p, hp, hdue⟩ := (Option.any_eq_true ..).mp hdue
          simp only [Store.due, Bool.and_eq_true, decide_eq_true_eq] at hdue
          exact Db.pending_iff.mpr ⟨p, hp, hdue.1⟩
      · exact ⟨hskip _ (hm.mono rfl fun _ hl => hl), h₁, h₂⟩
    · rw [if_neg hg] at h
      cases h
      exact ⟨.empty hs.delta, ⟨hskip _ (hs.mono rfl fun _ hl => hl), h₁, h₂⟩⟩

lemma Safe.expiredEnd {s : Due} (hs : StageInv db x (.due s)) (h : x.expiredEnd s = some y) :
    Safe db y := by
  obtain ⟨hs, h₁, h₂⟩ := hs
  rw [Txn.expiredEnd] at h
  rw [Option.ite_none_right_eq_some] at h
  obtain ⟨-, h⟩ := h
  cases h
  have hperm := List.perm_insertionSort (· ≤ ·) (s.expiredTasks.filter fun id => s.snap.pending id)
  have hn : s.expiredTasks.Nodup := (List.nodup_append.mp hs.expiredNodup).1
  refine ⟨.empty hs.delta, ?_⟩
  exact { hs with
    timeoutNodup := by
      simp only [h₁, List.nil_append]
      exact hperm.nodup_iff.mpr (hn.filter _)
    timeoutDue := fun id hm => by
      simp only [h₁, List.nil_append] at hm
      exact (List.mem_filter.mp (hperm.mem_iff.mp hm)).1 }

lemma Safe.lockTimeout {s : Due} (hs : Scan db x s) (h : x.lockTimeout db grant s = some y) :
    Safe db y := by
  rw [Txn.lockTimeout] at h
  split at h
  · cases h
  · rename_i id left hleft
    have hn := hs.timeoutNodup
    have hd := hs.timeoutDue
    rw [hleft] at hn hd
    have hsub := append_cons_sublist s.timeoutDue left id
    have hskip : ∀ z : Txn, Scan db z s → Scan db z { s with timeoutsLeft := left } := fun z hz =>
      { hz with
        timeoutNodup := hn.sublist hsub
        timeoutDue := fun j hj => hd j (hsub.subset hj) }
    dsimp only at h
    by_cases hg : grant ⟨.promise id, .update⟩ = true
    · rw [if_pos hg] at h
      cases h
      have hm : Scan db (x.lock (.promise id) .update) s :=
        hs.mono rfl fun l hl => List.mem_cons_of_mem _ hl
      refine ⟨.empty hs.delta, ?_⟩
      change StageInv db _ (.timingOut _)
      split_ifs with hp
      · have heq : (s.timeoutDue ++ [id]) ++ left = s.timeoutDue ++ id :: left := by simp
        refine { hm with
          timeout := fun j hj => ?_
          timeoutNodup := heq ▸ hn
          timeoutDue := heq ▸ hd }
        rcases List.mem_append.mp hj with hj | hj
        · exact hm.timeout j hj
        · rw [List.mem_singleton.mp hj]
          rw [Db.pending_congr (view_empty hs.delta id).1] at hp
          exact ⟨x.lock_owns _ (by simp), hp⟩
      · exact hskip _ (hm.mono rfl fun _ hl => hl)
    · rw [if_neg hg] at h
      cases h
      exact ⟨.empty hs.delta, hskip _ (hs.mono rfl fun _ hl => hl)⟩

lemma Scan.batch {s : Due} (hs : Scan db x s) : (s.timerDue ++ s.timeoutDue).Nodup := by
  refine List.nodup_append.mpr ⟨(List.nodup_append.mp hs.timerNodup).1,
    (List.nodup_append.mp hs.timeoutNodup).1, fun a ha b hb => ?_⟩
  rintro rfl
  obtain ⟨p, hp, -, hc⟩ := hs.timerDue a (List.mem_append_left _ ha)
  obtain ⟨q, hq, -, hc'⟩ := hs.expiredDue a
    (List.mem_append_left _ (hs.timeoutDue a (List.mem_append_left _ hb)))
  rw [hp, Option.some_inj] at hq
  subst hq
  exact hc.mp (hc'.mpr trivial)

lemma settleDue_promises {s : Due} (hs : Scan db x s) (id : Id) :
    let z := s.timeoutDue.foldl
      (fun z id => z.settlePromise db id (.timedOut promiseTimeout s.now))
      (s.timerDue.foldl (fun y id => y.settlePromise db id (.resolved (some timerResult) s.now)) x)
    (id ∉ s.timerDue ++ s.timeoutDue ∧ z.delta.promises.get id = none) ∨
      ∃ p o, id ∈ s.timerDue ++ s.timeoutDue ∧ db.promises.get id = some p ∧ p.Pending ∧
        o ≠ .pending ∧ z.delta.promises.get id = some (some (p.settle o)) := by
  intro z
  set y := s.timerDue.foldl
    (fun y id => y.settlePromise db id (.resolved (some timerResult) s.now)) x with hy
  have hyp := Txn.foldl_settlePromise db s.timerDue x (.resolved (some timerResult) s.now) id
  have hzp := Txn.foldl_settlePromise db s.timeoutDue y (.timedOut promiseTimeout s.now) id
  have hx : x.delta.promises.get id = none := by rw [hs.delta]; rfl
  have hview : (x.view db).promises.get id = db.promises.get id := (view_empty hs.delta id).1
  rw [← hy, hx] at hyp
  by_cases ht : id ∈ s.timeoutDue
  · have hnt : id ∉ s.timerDue := fun hm =>
      (List.nodup_append.mp hs.batch).2.2 id hm id ht rfl
    rw [if_neg hnt] at hyp
    rw [if_pos ht] at hzp
    obtain ⟨p, hp, hpend⟩ := Db.pending_iff.mp (hs.timeout id ht).2
    have hyv : (y.view db).promises.get id = some p := by
      rw [Txn.view, Db.patch_promises, hyp, Option.getD_none, hp]
    refine Or.inr ⟨p, .timedOut promiseTimeout s.now, List.mem_append_right _ ht, hp, hpend, ?_, ?_⟩
    · simp
    · rw [hzp]
      simp only [Txn.settledRow, hyv]
  · rw [if_neg ht] at hzp
    by_cases hm : id ∈ s.timerDue
    · rw [if_pos hm] at hyp
      obtain ⟨p, hp, hpend⟩ := Db.pending_iff.mp (hs.timer id hm).2
      refine Or.inr ⟨p, .resolved (some timerResult) s.now, List.mem_append_left _ hm, hp, hpend, ?_, ?_⟩
      · simp
      · rw [hzp, hyp]
        simp only [Txn.settledRow, hview, hp]
    · rw [if_neg hm] at hyp
      exact Or.inl ⟨by simp [hm, ht], by rw [hzp, hyp]⟩

lemma Safe.settleDue {s : Due} (hs : Scan db x s) (h : x.settleDue db s = some y) :
    Safe db y := by
  rw [Txn.settleDue] at h
  rw [Option.ite_none_left_eq_some] at h
  obtain ⟨-, h⟩ := h
  cases h
  have hp := settleDue_promises hs
  obtain ⟨ht₁, hw₁, hl₁⟩ := Txn.foldl_settlePromise_rest db s.timerDue x
    (.resolved (some timerResult) s.now)
  set y := s.timerDue.foldl
    (fun y id => y.settlePromise db id (.resolved (some timerResult) s.now)) x
  obtain ⟨ht₂, hw₂, hl₂⟩ := Txn.foldl_settlePromise_rest db s.timeoutDue y
    (.timedOut promiseTimeout s.now)
  set z := s.timeoutDue.foldl
    (fun z id => z.settlePromise db id (.timedOut promiseTimeout s.now)) y
  have hxp : ∀ id, x.delta.promises.get id = none := fun id => by rw [hs.delta]; rfl
  have htasks : z.delta.tasks = x.delta.tasks := ht₂.trans ht₁
  have hwaits : z.delta.waits = x.delta.waits := hw₂.trans hw₁
  have hlocks : z.locks = x.locks := hl₂.trans hl₁
  have hxw : x.delta.waits = ∅ := by rw [hs.delta]
  have howns : ∀ r, x.Owns r → z.Owns r := fun r hr => hr.mono (hlocks ▸ fun _ h => h)
  -- every promise of the batch is locked, and a call's task too
  have hown : ∀ id ∈ s.timerDue ++ s.timeoutDue, z.Owns (.promise id) ∧ s.snap.pending id = true ∧
      ∀ p, db.promises.get id = some p → p.IsCall →
        id ∈ s.timeoutDue ∧ z.Owns (.task id) ∧ db.tasks.get id ≠ none := by
    intro id hm
    rcases List.mem_append.mp hm with hm | hm
    · obtain ⟨q, hq, hqp, hqc⟩ := hs.timerDue id (List.mem_append_left _ hm)
      refine ⟨howns _ (hs.timer id hm).1, Db.pending_iff.mpr ⟨q, hq, hqp⟩, fun p hget hcall => ?_⟩
      obtain ⟨p', hp', -, hdl, -⟩ := hs.later.promise id q hq
      rw [hget, Option.some_inj] at hp'
      subst hp'
      exact absurd ((Promise.isCall_congr hdl).mp hcall) (fun hc => hqc.mp hc)
    · have hexp := hs.timeoutDue id (List.mem_append_left _ hm)
      obtain ⟨q, hq, hqp, -⟩ := hs.expiredDue id (List.mem_append_left _ hexp)
      exact ⟨howns _ (hs.timeout id hm).1, Db.pending_iff.mpr ⟨q, hq, hqp⟩,
        fun p _ _ => ⟨hm, howns _ (hs.expired id hexp).1, (hs.expired id hexp).2⟩⟩
  have hcov : Covered db z := by
    refine settle_covered (.empty hs.delta) howns ⟨htasks, hwaits⟩ (fun id => ?_) hxw
    rcases hp id with ⟨-, hn⟩ | ⟨p, o, hm, hget, hpend, ho, hset⟩
    · exact Or.inl (hn.trans (hxp id).symm)
    · obtain ⟨ho₁, -, ho₂⟩ := hown id hm
      exact Or.inr ⟨p, o, hget, hpend, ho, ho₁, fun hc => (ho₂ p hget hc).2.1, hset⟩
  refine ⟨hcov.enter _, ?_⟩
  exact {
    snapshot := ⟨hs.wf, settle_later ((Later.of_empty hs.delta).mpr hs.later) hs.wf ⟨htasks, hwaits⟩
      fun id => by
        rcases hp id with ⟨-, hn⟩ | ⟨p, o, -, hget, hpend, -, hset⟩
        · exact Or.inl (hn.trans (hxp id).symm)
        · exact Or.inr ⟨p, o, (view_empty hs.delta id).1.trans hget, hpend, hset⟩⟩
    nodup := hs.batch
    written := fun id hm => by
      obtain ⟨ho, hsp, -⟩ := hown id hm
      rcases hp id with ⟨hn, -⟩ | ⟨p, o, -, hget, hpend, hne, hset⟩
      · exact absurd hm hn
      · exact ⟨ho, hsp, p, o, hget, hpend, hne, hset⟩
    others := fun id v hv => by
      rcases hp id with ⟨-, hn⟩ | ⟨p, o, hm, -⟩
      · have hv' := hn.symm.trans hv
        cases hv'
      · exact Or.inl hm
    ownTask := fun id hm => by
      have hexp := hs.timeoutDue id (List.mem_append_left _ hm)
      exact ⟨List.mem_append_right _ hm, howns _ (hs.expired id hexp).1, (hs.expired id hexp).2⟩
    calls := fun id hm p hget hc => ((hown id hm).2.2 p hget hc).1
    waits := hwaits.trans hxw
    tasks := fun id v hv => by
      have hv' : x.delta.tasks.get id = some v := htasks ▸ hv
      rw [hs.delta] at hv'
      cases hv'
    untouched := fun w hm => by
      refine ⟨?_, mem_lockedWaiters.mp hm⟩
      change z.delta.tasks.get w = none
      rw [htasks, hs.delta]
      rfl
    leftNodup := lockedWaiters_nodup _ _ }

end Scan

section Wake

variable {snap : Db} {stamp : Option Time} {settled removed left : List Id}

lemma Waking.mono (h : Waking db x snap settled removed left) (hd : y.delta = x.delta)
    (hl : ∀ l ∈ x.locks, l ∈ y.locks) : Waking db y snap settled removed left := by
  have hv : y.view db = x.view db := by rw [Txn.view, Txn.view, hd]
  exact { h with
    snapshot := ⟨h.snapshot.wf, hv ▸ h.snapshot.later⟩
    written := fun a ha => ⟨(h.written a ha).1.mono hl, (h.written a ha).2.1,
      hd ▸ (h.written a ha).2.2⟩
    others := hd ▸ h.others
    ownTask := fun id hm => ⟨(h.ownTask id hm).1, (h.ownTask id hm).2.1.mono hl, (h.ownTask id hm).2.2⟩
    waits := hd ▸ h.waits
    tasks := hd ▸ h.tasks
    untouched := hd ▸ h.untouched }

lemma Waking.tail {w : Id} (h : Waking db x snap settled removed (w :: left)) :
    Waking db x snap settled removed left :=
  { h with
    untouched := fun v hv => h.untouched v (List.mem_cons_of_mem _ hv)
    leftNodup := (List.nodup_cons.mp h.leftNodup).2 }

lemma Safe.wake {w : Id} {clock : Time} (hc : Covered db x)
    (hs : Waking db x snap settled removed (w :: left))
    (h : x.wake db grant snap stamp settled removed w left clock = some y) : Safe db y := by
  rw [Txn.wake] at h
  dsimp only at h
  rw [Option.ite_none_right_eq_some] at h
  obtain ⟨hg, h⟩ := h
  split at h
  · cases h
    exact ⟨hc.enter _, hs.tail.mono rfl fun _ hl => hl⟩
  · rename_i t ht
    have hlock := hc.lock (.task w) .update
    have hm : Waking db (x.lock (.task w) .update) snap settled removed (w :: left) :=
      hs.mono rfl fun l hl => List.mem_cons_of_mem _ hl
    split_ifs at h with hr
    · cases h
      obtain ⟨hnone, -, hcount⟩ := hs.untouched w List.mem_cons_self
      have hdb : db.tasks.get w = some t := by
        rwa [Txn.view, Db.patch_tasks, hnone, Option.getD_none] at ht
      set t' := t.ready (settledCount snap settled w) (stamp.getD clock)
      have htask : ∀ id, (x.delta.setTask w t').tasks.get id =
          if id = w then some (some t') else x.delta.tasks.get id := fun id => Dict.get_set _ _ _ _
      refine ⟨⟨hlock.promises, fun id v hv => ?_, fun e he => ?_⟩, ?_⟩
      · have hv' : (x.delta.setTask w t').tasks.get id = some v := hv
        rw [htask] at hv'
        split_ifs at hv' with hid
        · subst hid
          exact ⟨x.lock_owns _ (by simp), Or.inl (by simp [hdb])⟩
        · exact hlock.tasks id v hv'
      · have he' : e ∈ x.delta.waits := he
        rw [hs.waits] at he'
        cases he'
      · refine { hm.tail with
          snapshot := ⟨hs.snapshot.wf, hs.snapshot.later.trans hs.snapshot.wf ⟨fun id p hp => ?_,
            fun id _ hd => ?_, fun e he _ => ?_⟩⟩
          tasks := fun id v hv => ?_
          untouched := fun v hv => ?_ }
        · exact ⟨p, hp, rfl, rfl, fun _ => rfl⟩
        · have hd' : (db.patch (x.delta.setTask w t')).tasks.get id ≠ none := hd
          rw [Db.patch_tasks, htask] at hd'
          rw [Txn.view, Db.patch_tasks]
          split_ifs at hd' with hid
          · rw [hid, hnone, Option.getD_none, hdb]
            simp
          · exact hd'
        · obtain ⟨hmem, hn⟩ := (Db.mem_patch_waits e).mp he
          refine (Db.mem_patch_waits e).mpr ⟨hmem, ?_⟩
          change (x.delta.setTask w t').tasks.get e.1 ≠ some none
          rw [htask]
          split_ifs
          · simp
          · exact hn
        · have hv' : (x.delta.setTask w t').tasks.get id = some v := hv
          rw [htask] at hv'
          split_ifs at hv' with hid
          · subst hid
            exact ⟨by rw [← Option.some.inj hv']; simp, Or.inr hcount⟩
          · exact hs.tasks id v hv'
        · obtain ⟨hv₁, hv₂⟩ := hs.untouched v (List.mem_cons_of_mem _ hv)
          refine ⟨?_, hv₂⟩
          change (x.delta.setTask w t').tasks.get v = none
          rw [htask, if_neg, hv₁]
          rintro rfl
          exact (List.nodup_cons.mp hs.leftNodup).1 hv
    · cases h
      exact ⟨hlock.enter _, hm.tail.mono rfl fun _ hl => hl⟩

lemma Safe.wakeEnd (kept : List Id) (hc : Covered db x)
    (hs : Waking db x snap settled removed []) : Safe db (x.wakeEnd removed kept) := by
  rw [Txn.wakeEnd]
  set deleted := removed.filter fun id => ¬ (id ∈ kept ∧ (x.delta.tasks.get id).isSome)
  have hsub : ∀ id ∈ deleted, id ∈ removed := fun id hm => (List.mem_filter.mp hm).1
  obtain ⟨hp, hw⟩ := Delta.foldl_deleteTask_rest deleted x.delta
  have ht := Delta.foldl_deleteTask deleted x.delta
  refine ⟨⟨fun id v hv => ?_, fun id v hv => ?_, fun e he => ?_⟩, trivial⟩
  · exact hc.promises id v (hp ▸ hv)
  · have hv' : (deleted.foldl Delta.deleteTask x.delta).tasks.get id = some v := hv
    rw [ht] at hv'
    split_ifs at hv' with hm
    · obtain ⟨-, ho, hd⟩ := hs.ownTask id (hsub id hm)
      exact ⟨ho, Or.inl hd⟩
    · obtain ⟨h₁, hh⟩ := hc.tasks id v hv'
      refine ⟨h₁, hh.imp_right ?_⟩
      rintro ⟨hn, hne, p', hp', hcall⟩
      refine ⟨hn, hne, p', ?_, hcall⟩
      exact (congrArg (fun d => Dict.get d id) hp).trans hp'
  · have he' : e ∈ (deleted.foldl Delta.deleteTask x.delta).waits := he
    rw [hw, hs.waits] at he'
    cases he'

end Wake

lemma Safe.opened (db : Db) : Safe db {} := ⟨.empty rfl, rfl⟩

lemma Safe.step {a : Act} (hw : Wf db) (h : Safe db x) (hy : Txn.Step db grant x a y) : Safe db y := by
  obtain ⟨hc, hst⟩ := h
  cases hy with
  | claimNone hs => exact .fail hc
  | submit ha hs =>
    have hf : ∀ {es : List Insert}, ((∃ rs, a = .submitCalls rs ∧ es = rs.map CallRequest.insert) ∨
        ∃ r, a = .submitTimer r ∧ es = [r.insert]) → ∀ e ∈ es, Fresh e := by
      rintro es (⟨rs, -, rfl⟩ | ⟨r, -, rfl⟩) e he
      · obtain ⟨r, -, rfl⟩ := List.mem_map.mp he
        exact r.fresh
      · rw [List.mem_singleton.mp he]
        exact r.fresh
    obtain ⟨hs, rfl⟩ | ⟨task, hs, rfl⟩ := hs
    · rw [hs] at hst
      exact ⟨hc.enter _, hf ha, .empty hst, fun t ht => by cases ht⟩
    · rw [hs] at hst
      exact ⟨hc.enter _, hf ha, (Holds.inserts hst).mono rfl, fun t ht => by cases ht; exact hst.enter _⟩
  | claim hs =>
    rw [hs] at hst
    exact .claim hst ..
  | claimNext hs =>
    rw [hs] at hst
    exact .claimNext hst ..
  | insertNext hs hy =>
    rw [hs] at hst
    exact .insertNext hc hst hy
  | insertEnd hs hy =>
    rw [hs] at hst
    exact .insertEnd hc hst hy
  | suspendTask hs hy =>
    rw [hs] at hst
    exact .suspendTask hw hc hst hy
  | suspendNext hs hy =>
    rw [hs] at hst
    exact .suspendNext hc hst hy
  | suspendEnd hs hy =>
    rw [hs] at hst
    exact .suspendEnd hc hst hy
  | settleTask hs =>
    rw [hs] at hst
    exact .settleTask _ hc hst
  | lockPromise hs hy =>
    rw [hs] at hst
    exact .lockPromise hw hc hst hy
  | settle hs =>
    rw [hs] at hst
    exact .settle hw hc hst.1 hst.2.1 hst.2.2
  | retryTask hs =>
    rw [hs] at hst
    exact .retryTask _ _ _ hw hc hst
  | reject hs hy =>
    rw [hs] at hst
    exact .reject hw hc hst hy
  | processDue hs =>
    rw [hs] at hst
    exact .processDue hw hst _ _
  | lockExpired hs hy =>
    rw [hs] at hst
    exact .lockExpired hst hy
  | lockTimer hs hy =>
    rw [hs] at hst
    exact .lockTimer hst hy
  | expiredEnd hs hy =>
    rw [hs] at hst
    exact .expiredEnd hst hy
  | lockTimeout hs hy =>
    rw [hs] at hst
    exact .lockTimeout hst hy
  | settleDue hs hy =>
    rw [hs] at hst
    exact .settleDue hst hy
  | wake hs hy =>
    rw [hs] at hst
    exact .wake hc hst hy
  | wakeEnd hs =>
    rw [hs] at hst
    exact .wakeEnd _ hc hst

end Reaper.Store
