import Reaper.Store.Consistency

/-! What is true of a transaction at each stage, and that no commit of another one changes it. -/

namespace Reaper.Store

open Reaper.Library Reaper.Library.Locks

structure Inserts (db : Db) (x : Txn) : Prop where
  promises : ∀ id v, x.delta.promises.get id = some v → db.promises.get id = none
  tasks : ∀ id v, x.delta.tasks.get id = some v → db.promises.get id = none
  waits : x.delta.waits = ∅

structure Holds (db : Db) (x : Txn) (id : Id) : Prop where
  owns : x.Owns (.task id)
  task : ∃ t, db.tasks.get id = some t ∧ t.pendingWaits = 0
  inserts : Inserts db x

structure Snapshot (db : Db) (x : Txn) (snap : Db) : Prop where
  wf : Wf snap
  later : Later snap (x.view db)

def Fresh (e : Insert) : Prop :=
  e.promise.Pending ∧ (e.promise.IsCall ↔ e.task ≠ none) ∧ ∀ t, e.task = some t → t.pendingWaits = 0

structure Suspending (db : Db) (x : Txn) (id : Id) (snap : Db) (awaited left : List Id)
    (found : List (Id × Promise)) : Prop where
  holds : Holds db x id
  snapshot : Snapshot db x snap
  locked : ∀ e ∈ found, x.Owns (.promise e.1) ∧ (x.view db).promises.get e.1 = some e.2
  nodup : (found.map Prod.fst ++ left).Nodup
  requested : ∀ a ∈ found.map Prod.fst ++ left, a ∈ awaited
  ne : id ∉ awaited

structure Retrying (db : Db) (x : Txn) (id : Id) (snap : Db) : Prop where
  holds : Holds db x id
  snapshot : Snapshot db x snap
  snapPending : snap.pending id = true
  pending : db.pending id = true
  waiters : ∀ e ∈ snap.waits, x.delta.tasks.get e.1 = none

def DueIn (snap : Db) (call : Prop) (id : Id) : Prop :=
  ∃ p, snap.promises.get id = some p ∧ p.Pending ∧ (p.IsCall ↔ call)

structure Scan (db : Db) (x : Txn) (s : Due) : Prop where
  delta : x.delta = {}
  wf : Wf s.snap
  later : Later s.snap db
  expired : ∀ id ∈ s.expiredTasks, x.Owns (.task id) ∧ db.tasks.get id ≠ none
  expiredNodup : (s.expiredTasks ++ s.tasksLeft).Nodup
  expiredDue : ∀ id ∈ s.expiredTasks ++ s.tasksLeft, DueIn s.snap True id
  timer : ∀ id ∈ s.timerDue, x.Owns (.promise id) ∧ db.pending id = true
  timerNodup : (s.timerDue ++ s.timersLeft).Nodup
  timerDue : ∀ id ∈ s.timerDue ++ s.timersLeft, DueIn s.snap False id
  timeout : ∀ id ∈ s.timeoutDue, x.Owns (.promise id) ∧ db.pending id = true
  timeoutNodup : (s.timeoutDue ++ s.timeoutsLeft).Nodup
  timeoutDue : ∀ id ∈ s.timeoutDue ++ s.timeoutsLeft, id ∈ s.expiredTasks

structure Waking (db : Db) (x : Txn) (snap : Db) (settled removed left : List Id) : Prop where
  snapshot : Snapshot db x snap
  nodup : settled.Nodup
  written : ∀ a ∈ settled, x.Owns (.promise a) ∧ snap.pending a = true ∧ ∃ p o,
    db.promises.get a = some p ∧ p.Pending ∧ o ≠ .pending ∧
      x.delta.promises.get a = some (some (p.settle o))
  others : ∀ id v, x.delta.promises.get id = some v → id ∈ settled ∨ db.promises.get id = none
  ownTask : ∀ id ∈ removed, id ∈ settled ∧ x.Owns (.task id) ∧ db.tasks.get id ≠ none
  calls : ∀ a ∈ settled, ∀ p, db.promises.get a = some p → p.IsCall → a ∈ removed
  waits : x.delta.waits = ∅
  tasks : ∀ id v, x.delta.tasks.get id = some v → v ≠ none ∧
    (db.promises.get id = none ∨ 0 < settledCount snap settled id)
  untouched : ∀ w ∈ left, x.delta.tasks.get w = none ∧ snap.tasks.get w ≠ none ∧
    0 < settledCount snap settled w
  leftNodup : left.Nodup

def StageInv (db : Db) (x : Txn) : Stage → Prop
  | .opened | .claiming _ _ _ _ _ => x.delta = {}
  | .holding task | .locking task _ => Holds db x task.id
  | .inserting task left _ =>
    (∀ e ∈ left, Fresh e) ∧ Inserts db x ∧ ∀ t, task = some t → Holds db x t.id
  | .suspending task snap awaited left found => Suspending db x task.id snap awaited left found
  | .locked task _ => Holds db x task.id ∧ x.Owns (.promise task.id) ∧ db.pending task.id = true
  | .retrying task snap _ => Retrying db x task.id snap
  | .due s => Scan db x s ∧ s.timeoutDue = [] ∧ s.timeoutsLeft = []
  | .timingOut s => Scan db x s
  | .waking snap _ settled removed left => Waking db x snap settled removed left
  | .done | .failed => True

structure Safe (db : Db) (x : Txn) : Prop where
  covered : Covered db x
  stage : StageInv db x x.stage

section Stable

variable {db db' : Db} {x : Txn}

lemma view_empty (h : x.delta = {}) (id : Id) :
    (x.view db).promises.get id = db.promises.get id ∧ (x.view db).tasks.get id = db.tasks.get id := by
  rw [Txn.view, Db.patch_promises, Db.patch_tasks, h]
  exact ⟨rfl, rfl⟩

lemma mem_view_waits_empty (h : x.delta = {}) (e : Id × Id) : e ∈ (x.view db).waits ↔ e ∈ db.waits := by
  rw [Txn.view, Db.mem_patch_waits, h]
  simp

lemma Later.of_empty (h : x.delta = {}) {snap : Db} : Later snap (x.view db) ↔ Later snap db := by
  have hp : ∀ id, (x.view db).promises.get id = db.promises.get id := fun id => (view_empty h id).1
  have ht : ∀ id, (x.view db).tasks.get id = db.tasks.get id := fun id => (view_empty h id).2
  have hw : ∀ e, e ∈ (x.view db).waits ↔ e ∈ db.waits := mem_view_waits_empty h
  constructor
  · intro hl
    refine ⟨fun id p hs => ?_, fun id hs hd => ?_, fun e he hd => ?_⟩
    · rw [← hp]
      exact hl.promise id p hs
    · exact hl.task id hs (by rwa [ht])
    · exact (hw e).mp (hl.waits e he (by rwa [ht]))
  · intro hl
    refine ⟨fun id p hs => ?_, fun id hs hd => ?_, fun e he hd => ?_⟩
    · rw [hp]
      exact hl.promise id p hs
    · exact hl.task id hs (by rwa [← ht])
    · exact (hw e).mpr (hl.waits e he (by rwa [← ht]))

lemma Db.pending_congr {a b : Db} {id : Id} (h : a.promises.get id = b.promises.get id) :
    a.pending id = b.pending id := by rw [pending, pending, h]

lemma Holds.untouched (hw : Wf db) {id : Id} (h : Holds db x id) :
    x.delta.tasks.get id = none ∧ x.delta.promises.get id = none ∧
      ∃ p, db.promises.get id = some p ∧ p.IsCall := by
  obtain ⟨t, ht, -⟩ := h.task
  obtain ⟨p, hp, hc⟩ := hw.call id (by simp [ht])
  refine ⟨?_, ?_, p, hp, hc⟩
  · cases hv : x.delta.tasks.get id with
    | none => rfl
    | some v => exact absurd (h.inserts.tasks id v hv) (by simp [hp])
  · cases hv : x.delta.promises.get id with
    | none => rfl
    | some v => exact absurd (h.inserts.promises id v hv) (by simp [hp])

lemma Holds.view (hw : Wf db) {id : Id} (h : Holds db x id) :
    (x.view db).tasks.get id = db.tasks.get id ∧
      (x.view db).promises.get id = db.promises.get id := by
  obtain ⟨ht, hp, -⟩ := h.untouched hw
  rw [Txn.view, Db.patch_tasks, Db.patch_promises, ht, hp]
  exact ⟨rfl, rfl⟩

lemma Inserts.stable (hw : Wf db) (hc : Covered db x) (hf : Frame x.Owns db db') (h : Inserts db x) :
    Inserts db' x := by
  refine ⟨fun id v hv => ?_, fun id v hv => ?_, h.waits⟩
  · rw [hf.promise id (hc.promises id v hv).1]
    exact h.promises id v hv
  · have hn := h.tasks id v hv
    rcases (hc.tasks id v hv).2 with hd | ⟨-, -, p', hp', -⟩
    · obtain ⟨p, hp, -⟩ := hw.call id hd
      rw [hn] at hp
      cases hp
    · rw [hf.promise id (hc.promises id _ hp').1]
      exact hn

lemma Holds.stable (hw : Wf db) (hc : Covered db x) (hf : Frame x.Owns db db') {id : Id}
    (h : Holds db x id) : Holds db' x id := by
  refine ⟨h.owns, ?_, h.inserts.stable hw hc hf⟩
  rw [hf.task id h.owns]
  exact h.task

lemma Snapshot.stable (hw' : Wf db') (hc : Covered db x) (hf : Frame x.Owns db db') {snap : Db}
    (h : Snapshot db x snap) : Snapshot db' x snap :=
  ⟨h.wf, h.later.trans h.wf (hc.view_later hw' hf)⟩

lemma view_promise_stable (hf : Frame x.Owns db db') {id : Id} (ho : x.Owns (.promise id)) :
    (x.view db').promises.get id = (x.view db).promises.get id := by
  rw [Txn.view, Txn.view, Db.patch_promises, Db.patch_promises, hf.promise id ho]

lemma pending_stable (hf : Frame x.Owns db db') {id : Id} (ho : x.Owns (.promise id)) :
    db'.pending id = db.pending id := Db.pending_congr (hf.promise id ho)

lemma Scan.stable (hf : Frame x.Owns db db') {s : Due} (h : Scan db x s) : Scan db' x s := by
  refine { h with
    later := h.later.trans h.wf hf.later
    expired := fun id hm => ?_
    timer := fun id hm => ?_
    timeout := fun id hm => ?_ }
  · obtain ⟨ho, ht⟩ := h.expired id hm
    exact ⟨ho, by rwa [hf.task id ho]⟩
  · obtain ⟨ho, hp⟩ := h.timer id hm
    exact ⟨ho, by rwa [pending_stable hf ho]⟩
  · obtain ⟨ho, hp⟩ := h.timeout id hm
    exact ⟨ho, by rwa [pending_stable hf ho]⟩

lemma Waking.stable (hw : Wf db) (hw' : Wf db') (hc : Covered db x) (hf : Frame x.Owns db db')
    {snap : Db} {settled removed left : List Id} (h : Waking db x snap settled removed left) :
    Waking db' x snap settled removed left := by
  refine { h with
    snapshot := h.snapshot.stable hw' hc hf
    written := fun a hm => ?_
    others := fun id v hv => ?_
    ownTask := fun id hm => ?_
    calls := fun a hm p hp hcall => ?_
    tasks := fun id v hv => ?_ }
  · obtain ⟨ho, hs, hh⟩ := h.written a hm
    exact ⟨ho, hs, by rwa [hf.promise a ho]⟩
  · rw [hf.promise id (hc.promises id v hv).1]
    exact h.others id v hv
  · obtain ⟨hm, ho, ht⟩ := h.ownTask id hm
    exact ⟨hm, ho, by rwa [hf.task id ho]⟩
  · rw [hf.promise a (h.written a hm).1] at hp
    exact h.calls a hm p hp hcall
  · obtain ⟨hne, hh⟩ := h.tasks id v hv
    refine ⟨hne, hh.imp (fun hn => ?_) fun hs => hs⟩
    rcases (hc.tasks id v hv).2 with hd | ⟨-, -, p', hp', -⟩
    · obtain ⟨p, hp, -⟩ := hw.call id hd
      rw [hn] at hp
      cases hp
    · rw [hf.promise id (hc.promises id _ hp').1]
      exact hn

lemma Safe.stable (hw : Wf db) (hw' : Wf db') (hf : Frame x.Owns db db') (h : Safe db x) :
    Safe db' x := by
  have hc := h.covered
  refine ⟨hc.stable hf, ?_⟩
  have hs := h.stage
  revert hs
  cases x.stage with
  | opened | claiming => exact fun hs => hs
  | holding task | locking task settlement => exact fun hs => Holds.stable hw hc hf hs
  | inserting task left inserted =>
    exact fun ⟨h₁, h₂, h₃⟩ => ⟨h₁, h₂.stable hw hc hf, fun t ht => (h₃ t ht).stable hw hc hf⟩
  | suspending task snap awaited left found =>
    exact fun hs => { hs with
      holds := hs.holds.stable hw hc hf
      snapshot := hs.snapshot.stable hw' hc hf
      locked := fun e he => ⟨(hs.locked e he).1, by
        rw [view_promise_stable hf (hs.locked e he).1, (hs.locked e he).2]⟩ }
  | locked task settlement =>
    exact fun ⟨h₁, h₂, h₃⟩ => ⟨h₁.stable hw hc hf, h₂, by rwa [pending_stable hf h₂]⟩
  | retrying task snap error =>
    refine fun hs => { hs with
      holds := hs.holds.stable hw hc hf
      snapshot := hs.snapshot.stable hw' hc hf
      pending := ?_ }
    -- the claimed task's row guards the promise until RETRY locks it
    obtain ⟨-, -, p, hp, hcall⟩ := hs.holds.untouched hw
    rw [Db.pending_congr ((hf.call _ p hs.holds.owns hp hcall).trans hp.symm)]
    exact hs.pending
  | due s => exact fun ⟨h₁, h₂⟩ => ⟨h₁.stable hf, h₂⟩
  | timingOut s => exact fun hs => Scan.stable hf hs
  | waking snap stamp settled removed left => exact fun hs => Waking.stable hw hw' hc hf hs
  | done | failed => exact fun _ => trivial

end Stable

end Reaper.Store
