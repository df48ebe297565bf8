import Reaper.Store.Immutable

/-! The count pending_waits of a task, against the waits rows. A transaction that is waking waiters
owes a decrement to each waiter it has yet to lock; every other task is exact in its own view. -/

namespace Reaper.Store

open Reaper.Library Reaper.Library.Locks

def ExactAt (db : Db) (id : Id) : Prop :=
  ∀ t, db.tasks.get id = some t → t.pendingWaits = (db.pendingAwaited id).card

def Exact (db : Db) : Prop := ∀ id, ExactAt db id

def SeesAll (db snap : Db) (settled : List Id) : Prop := ∀ e ∈ db.waits, e.2 ∈ settled → e ∈ snap.waits

instance (db snap : Db) (settled : List Id) : Decidable (SeesAll db snap settled) :=
  inferInstanceAs (Decidable (∀ e ∈ db.waits, e.2 ∈ settled → e ∈ snap.waits))

def Stage.owed : Stage → List Id
  | .waking _ _ _ _ left => left
  | _ => []

def SnapshotExact (db : Db) : Stage → Prop
  | .retrying _ snap _ => Exact snap
  | .due s | .timingOut s => Exact s.snap
  | .waking snap _ settled _ _ => Exact snap ∧ SeesAll db snap settled
  | _ => True

structure Tally (db : Db) (x : Txn) : Prop where
  exact : ∀ id ∉ x.stage.owed, ExactAt (x.view db) id
  snapshot : SnapshotExact db x.stage

lemma Exact.empty : Exact {} := fun _ _ ht => (by cases ht)

lemma ExactAt.check {db : Db} {id : Id} (h : ExactAt db id) :
    ((db.tasks.get id).all fun t => t.pendingWaits = (db.pendingAwaited id).card) = true := by
  cases ht : db.tasks.get id with
  | none => rfl
  | some t => exact decide_eq_true (h t ht)

section Counting

variable {a b : Db} {id : Id}

lemma ExactAt.congr (h : ExactAt a id)
    (ht : ∀ u, b.tasks.get id = some u → ∃ t, a.tasks.get id = some t ∧ t.pendingWaits = u.pendingWaits)
    (hw : ∀ e : Id × Id, e.1 = id → (e ∈ b.waits ↔ e ∈ a.waits))
    (hp : ∀ e ∈ a.waits, e.1 = id → b.pending e.2 = a.pending e.2) : ExactAt b id := by
  intro u hu
  obtain ⟨t, hta, hpw⟩ := ht u hu
  have heq : b.pendingAwaited id = a.pendingAwaited id := by
    ext e
    rw [Db.mem_pendingAwaited, Db.mem_pendingAwaited]
    constructor
    · rintro ⟨he, h₁, h₂⟩
      have hea := (hw e h₁).mp he
      exact ⟨hea, h₁, hp e hea h₁ ▸ h₂⟩
    · rintro ⟨he, h₁, h₂⟩
      exact ⟨(hw e h₁).mpr he, h₁, (hp e he h₁).symm ▸ h₂⟩
  rw [heq, ← hpw]
  exact h t hta

lemma Later.pending (h : Later a b) (hp : a.promises.get id ≠ none) (hb : b.pending id = true) :
    a.pending id = true := by
  obtain ⟨p, hp⟩ := Option.ne_none_iff_exists'.mp hp
  obtain ⟨q, hq, -, -, hk⟩ := h.promise id p hp
  obtain ⟨r, hr, hrp⟩ := Db.pending_iff.mp hb
  by_contra hn
  have hnp : ¬ p.Pending := fun hpp => hn (Db.pending_iff.mpr ⟨p, hp, hpp⟩)
  have hqr : q = r := Option.some.inj (hq.symm.trans hr)
  rw [← hqr, hk hnp] at hrp
  exact hnp hrp

lemma ExactAt.pending_eq (ha : ExactAt a id) (hb : ExactAt b id) {t : Task}
    (hta : a.tasks.get id = some t) (htb : b.tasks.get id = some t)
    (hw : ∀ e : Id × Id, e.1 = id → (e ∈ b.waits ↔ e ∈ a.waits))
    (hp : ∀ e ∈ a.waits, e.1 = id → b.pending e.2 = true → a.pending e.2 = true) :
    ∀ e ∈ a.waits, e.1 = id → b.pending e.2 = a.pending e.2 := by
  have hsub : b.pendingAwaited id ⊆ a.pendingAwaited id := by
    intro e he
    obtain ⟨he, h₁, h₂⟩ := Db.mem_pendingAwaited.mp he
    have hea := (hw e h₁).mp he
    exact Db.mem_pendingAwaited.mpr ⟨hea, h₁, hp e hea h₁ h₂⟩
  have hcard : (a.pendingAwaited id).card ≤ (b.pendingAwaited id).card := by
    rw [← ha t hta, ← hb t htb]
  have heq := Finset.eq_of_subset_of_card_le hsub hcard
  intro e he h₁
  have hiff : e ∈ b.pendingAwaited id ↔ e ∈ a.pendingAwaited id := by rw [heq]
  rw [Db.mem_pendingAwaited, Db.mem_pendingAwaited] at hiff
  have heb := (hw e h₁).mpr he
  rw [Bool.eq_iff_iff]
  exact ⟨fun h => (hiff.mp ⟨heb, h₁, h⟩).2.2, fun h => (hiff.mpr ⟨he, h₁, h⟩).2.2⟩

end Counting

section Stable

variable {db db' : Db} {x : Txn} {id : Id}

lemma Tally.opened (he : Exact db) : Tally db {} := by
  refine ⟨fun id _ => (he id).congr (fun u hu => ⟨u, ?_, rfl⟩) (fun e _ => ?_) fun e _ _ => ?_, trivial⟩
  · rwa [(view_empty rfl id).2] at hu
  · exact mem_view_waits_empty rfl e
  · exact Db.pending_congr (view_empty rfl e.2).1

lemma Wf.stored (h : Wf db) {e : Id × Id} (he : e ∈ db.waits) : db.promises.get e.2 ≠ none := by
  obtain ⟨-, a, -, ha, -⟩ := h.awaited e he
  simp [ha]

lemma view_pending_of_none (h : x.delta.promises.get id = none) :
    (x.view db).pending id = db.pending id := by
  refine Db.pending_congr ?_
  rw [Txn.view, Db.patch_promises, h, Option.getD_none]

lemma view_task_of_none (h : x.delta.tasks.get id = none) :
    (x.view db).tasks.get id = db.tasks.get id := by
  rw [Txn.view, Db.patch_tasks, h, Option.getD_none]

lemma Covered.mem_view_waits (hc : Covered db x) (h : x.delta.tasks.get id = none) (db' : Db)
    (e : Id × Id) (he : e.1 = id) : e ∈ (x.view db').waits ↔ e ∈ db'.waits := by
  rw [Txn.view, Db.mem_patch_waits, he, h]
  refine ⟨fun hw => ?_, fun hm => ⟨Or.inl hm, by simp⟩⟩
  rcases hw.1 with hm | hm
  · exact hm
  · exact absurd h (he ▸ (hc.waits e hm).2.2.2.1)

lemma Frame.awaited_kept (hw : Wf db) (hf : Frame x.Owns db db') (he : Exact db) (he' : Exact db')
    (ho : x.Owns (.task id)) : ∀ e ∈ db.waits, e.1 = id → db'.pending e.2 = db.pending e.2 := by
  intro e hm h₁
  obtain ⟨t, ht⟩ := Option.ne_none_iff_exists'.mp (hw.waiter e hm)
  rw [h₁] at ht
  refine (he id).pending_eq (he' id) ht ?_ (fun u hu => ?_) (fun u hu _ hp => ?_) e hm h₁
  · rw [hf.task id ho, ht]
  · exact hf.waitsOf u (hu ▸ ho)
  · exact hf.later.pending (hw.stored hu) hp

lemma Tally.unsettled (hw : Wf db) (hc : Covered db x) (he : Exact db) (h : ExactAt (x.view db) id)
    (hn : x.delta.tasks.get id = none) :
    ∀ e ∈ db.waits, e.1 = id → (x.view db).pending e.2 = db.pending e.2 := by
  intro e hm h₁
  obtain ⟨t, ht⟩ := Option.ne_none_iff_exists'.mp (hw.waiter e hm)
  rw [h₁] at ht
  refine (he id).pending_eq h ht ?_ (hc.mem_view_waits hn db) (fun u hu _ hp => ?_) e hm h₁
  · rw [view_task_of_none hn, ht]
  · exact hc.later.pending (hw.stored hu) hp

lemma ExactAt.stable (hw : Wf db) (hw' : Wf db') (hc : Covered db x) (hf : Frame x.Owns db db')
    (he : Exact db) (he' : Exact db') (h : ExactAt (x.view db) id) : ExactAt (x.view db') id := by
  cases hd : x.delta.tasks.get id with
  | some v =>
    -- the task is owned, so no other transaction has changed what it waits for
    have ho := (hc.tasks id v hd).1
    have hwaits : ∀ e : Id × Id, e.1 = id → (e ∈ (x.view db').waits ↔ e ∈ (x.view db).waits) := by
      intro e h₁
      rw [Txn.view, Txn.view, Db.mem_patch_waits, Db.mem_patch_waits, hf.waitsOf e (h₁ ▸ ho)]
    refine h.congr (fun u hu => ⟨u, ?_, rfl⟩) hwaits fun e hm h₁ => ?_
    · rw [Txn.view, Db.patch_tasks, hd, Option.getD_some] at hu ⊢
      exact hu
    · cases hp : x.delta.promises.get e.2 with
      | some v =>
        refine Db.pending_congr ?_
        rw [Txn.view, Txn.view, Db.patch_promises, Db.patch_promises, hp, Option.getD_some,
          Option.getD_some]
      | none =>
        rw [view_pending_of_none hp, view_pending_of_none hp]
        rcases ((Db.mem_patch_waits e).mp hm).1 with hm | hm
        · exact hf.awaited_kept hw he he' ho e hm h₁
        · exact pending_stable hf (hc.waits e hm).2.1
  | none =>
    -- the committed row is exact, and what the transaction has settled is not awaited
    refine (he' id).congr (fun u hu => ⟨u, ?_, rfl⟩) (hc.mem_view_waits hd db') fun e hm h₁ => ?_
    · rwa [view_task_of_none hd] at hu
    · cases hp : x.delta.promises.get e.2 with
      | none => exact view_pending_of_none hp
      | some v =>
        obtain ⟨ho, p', rfl, ⟨hn, -⟩ | ⟨p, o, hq, hpend, rfl, hne, -⟩⟩ := hc.promises e.2 v hp
        · rw [← hf.promise e.2 ho] at hn
          exact absurd hn (hw'.stored hm)
        · have hkept := Tally.unsettled hw hc he h hd e (hf.waitsOn e ho hm) h₁
          rw [Db.pending_iff.mpr ⟨p, hq, hpend⟩] at hkept
          obtain ⟨r, hr, hrp⟩ := Db.pending_iff.mp hkept
          rw [Txn.view, Db.patch_promises, hp, Option.getD_some, Option.some_inj] at hr
          exact absurd (hr ▸ hrp) (p.settle_not_pending hne)

lemma SnapshotExact.stable {s : Stage} (hs : StageInv db x s) (hf : Frame x.Owns db db')
    (h : SnapshotExact db s) : SnapshotExact db' s := by
  cases s with
  | waking snap stamp settled removed left =>
    refine ⟨h.1, fun e he hm => h.2 e (hf.waitsOn e ?_ he) hm⟩
    exact (Waking.written hs e.2 hm).1
  | _ => exact h

lemma Tally.stable (hw : Wf db) (hw' : Wf db') (hx : Safe db x) (hf : Frame x.Owns db db')
    (he : Exact db) (he' : Exact db') (h : Tally db x) : Tally db' x :=
  ⟨fun id hid => (h.exact id hid).stable hw hw' hx.covered hf he he',
    h.snapshot.stable hx.stage hf⟩

end Stable

end Reaper.Store
