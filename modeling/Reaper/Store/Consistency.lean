import Reaper.Store.Locking
import Mathlib.Tactic

/-! What a transaction may write, seen from the rows it owns, and what its commit leaves alone. -/

namespace Reaper.Store

open Reaper.Library Reaper.Library.Locks

structure Wf (db : Db) : Prop where
  call : ∀ id, db.tasks.get id ≠ none → ∃ p, db.promises.get id = some p ∧ p.IsCall
  waiter : ∀ e ∈ db.waits, db.tasks.get e.1 ≠ none
  awaited : ∀ e ∈ db.waits, ∃ w a, db.promises.get e.1 = some w ∧ db.promises.get e.2 = some a ∧
    a.graphId e.2 = w.graphId e.1

/-- What any run of transactions preserves: settled promises stay as they are, a deleted task does
not come back, and waits go only with their waiter. -/
structure Later (db db' : Db) : Prop where
  promise : ∀ id p, db.promises.get id = some p → ∃ p', db'.promises.get id = some p' ∧
    p'.place = p.place ∧ p'.deadline = p.deadline ∧ (¬ p.Pending → p' = p)
  task : ∀ id, db.promises.get id ≠ none → db'.tasks.get id ≠ none → db.tasks.get id ≠ none
  waits : ∀ e ∈ db.waits, db'.tasks.get e.1 ≠ none → e ∈ db'.waits

/-- A change of the tables by others, seen by the owner of some rows. The row of a call's task
guards its promise too. -/
structure Frame (own : Row → Prop) (db db' : Db) : Prop where
  promise : ∀ id, own (.promise id) → db'.promises.get id = db.promises.get id
  task : ∀ id, own (.task id) → db'.tasks.get id = db.tasks.get id
  call : ∀ id p, own (.task id) → db.promises.get id = some p → p.IsCall →
    db'.promises.get id = some p
  waitsOf : ∀ e : Id × Id, own (.task e.1) → (e ∈ db'.waits ↔ e ∈ db.waits)
  waitsOn : ∀ e : Id × Id, own (.promise e.2) → e ∈ db'.waits → e ∈ db.waits
  later : Later db db'

/-- Every write of the transaction is to a row it owns: an inserted call or timer, the settlement of
a pending promise, or a task row. -/
structure Covered (db : Db) (x : Txn) : Prop where
  promises : ∀ id v, x.delta.promises.get id = some v → x.Owns (.promise id) ∧ ∃ p', v = some p' ∧
    (db.promises.get id = none ∧ x.Owns (.task id) ∧ p'.Pending ∨
      ∃ p o, db.promises.get id = some p ∧ p.Pending ∧ p' = p.settle o ∧ o ≠ .pending ∧
        (p.IsCall → x.Owns (.task id)))
  tasks : ∀ id v, x.delta.tasks.get id = some v → x.Owns (.task id) ∧
    (db.tasks.get id ≠ none ∨ db.promises.get id = none ∧ v ≠ none ∧
      ∃ p', x.delta.promises.get id = some (some p') ∧ p'.IsCall)
  waits : ∀ e ∈ x.delta.waits, x.Owns (.task e.1) ∧ x.Owns (.promise e.2) ∧
    db.tasks.get e.1 ≠ none ∧ x.delta.tasks.get e.1 ≠ none ∧ x.delta.tasks.get e.1 ≠ some none ∧
    ∃ w a, (x.view db).promises.get e.1 = some w ∧ (x.view db).promises.get e.2 = some a ∧
      a.graphId e.2 = w.graphId e.1

namespace Db

variable {db : Db} {d : Delta}

lemma patch_promises (db : Db) (d : Delta) (id : Id) :
    (db.patch d).promises.get id = (d.promises.get id).getD (db.promises.get id) :=
  Dict.get_patch _ _ _

lemma patch_tasks (db : Db) (d : Delta) (id : Id) :
    (db.patch d).tasks.get id = (d.tasks.get id).getD (db.tasks.get id) := Dict.get_patch _ _ _

lemma mem_patch_waits (e : Id × Id) :
    e ∈ (db.patch d).waits ↔ (e ∈ db.waits ∨ e ∈ d.waits) ∧ d.tasks.get e.1 ≠ some none := by
  simp only [patch, Finset.mem_filter, Finset.mem_union]

lemma pending_iff {id : Id} :
    db.pending id = true ↔ ∃ p, db.promises.get id = some p ∧ p.Pending := by
  simp [pending, Option.any_eq_true]

lemma mem_pendingAwaited {w : Id} {e : Id × Id} :
    e ∈ db.pendingAwaited w ↔ e ∈ db.waits ∧ e.1 = w ∧ db.pending e.2 = true := by
  simp [pendingAwaited]

end Db

lemma Promise.settle_not_pending (p : Promise) {o : Outcome} (h : o ≠ .pending) :
    ¬ (p.settle o).Pending := h

lemma Promise.settle_isCall (p : Promise) (o : Outcome) : (p.settle o).IsCall ↔ p.IsCall := Iff.rfl

lemma Promise.isCall_congr {p q : Promise} (h : p.deadline = q.deadline) : p.IsCall ↔ q.IsCall := by
  rw [IsCall, IsCall, h]

lemma Promise.graphId_congr {p q : Promise} (h : p.place = q.place) (id : Id) :
    p.graphId id = q.graphId id := by rw [graphId, graphId, h]

lemma Wf.empty : Wf {} :=
  ⟨fun _ h => absurd rfl h, fun _ he => (by cases he), fun _ he => (by cases he)⟩

lemma Later.refl (db : Db) : Later db db :=
  ⟨fun _ p h => ⟨p, h, rfl, rfl, fun _ => rfl⟩, fun _ _ h => h, fun _ h _ => h⟩

lemma Later.trans {a b c : Db} (hw : Wf a) (h : Later a b) (hh : Later b c) : Later a c := by
  have hexists : ∀ id, a.promises.get id ≠ none → b.promises.get id ≠ none := by
    intro id hp
    obtain ⟨p, hp⟩ := Option.ne_none_iff_exists'.mp hp
    obtain ⟨q, hq, -⟩ := h.promise id p hp
    simp [hq]
  refine ⟨fun id p hp => ?_, fun id hp ht => ?_, fun e he ht => ?_⟩
  · obtain ⟨q, hq, hpl, hdl, hk⟩ := h.promise id p hp
    obtain ⟨r, hr, hpl', hdl', hk'⟩ := hh.promise id q hq
    refine ⟨r, hr, hpl'.trans hpl, hdl'.trans hdl, fun hs => ?_⟩
    have hqp := hk hs
    subst hqp
    exact hk' hs
  · exact h.task id hp (hh.task id (hexists id hp) ht)
  · obtain ⟨w, -, hw, -⟩ := hw.awaited e he
    exact hh.waits e (h.waits e he (hh.task e.1 (hexists e.1 (by simp [hw])) ht)) ht

section View

variable {db db' : Db} {x : Txn}

lemma Covered.promise_kept (h : Covered db x) {id : Id} {p : Promise}
    (hp : db.promises.get id = some p) : ∃ p', (x.view db).promises.get id = some p' ∧
      p'.place = p.place ∧ p'.deadline = p.deadline ∧ (¬ p.Pending → p' = p) := by
  rw [Txn.view, Db.patch_promises]
  cases hv : x.delta.promises.get id with
  | none => exact ⟨p, by rw [Option.getD_none, hp], rfl, rfl, fun _ => rfl⟩
  | some v =>
    obtain ⟨-, p', rfl, ⟨hn, -⟩ | ⟨q, o, hq, hpend, rfl, -⟩⟩ := h.promises id v hv
    · rw [hp] at hn
      cases hn
    · rw [hp, Option.some_inj] at hq
      subst hq
      exact ⟨_, rfl, rfl, rfl, fun hs => absurd hpend hs⟩

lemma Covered.later (h : Covered db x) : Later db (x.view db) := by
  refine ⟨fun id p hp => h.promise_kept hp, fun id hp ht => ?_, fun e he ht => ?_⟩
  · rw [Txn.view, Db.patch_tasks] at ht
    cases hv : x.delta.tasks.get id with
    | none => rwa [hv, Option.getD_none] at ht
    | some v =>
      rcases (h.tasks id v hv).2 with hd | ⟨hn, -⟩
      · exact hd
      · exact absurd hn hp
  · refine (Db.mem_patch_waits e).mpr ⟨Or.inl he, fun hd => ?_⟩
    rw [Txn.view, Db.patch_tasks, hd] at ht
    exact ht rfl

lemma Covered.wf (hw : Wf db) (h : Covered db x) : Wf (x.view db) := by
  refine ⟨fun id ht => ?_, fun e he => ?_, fun e he => ?_⟩
  · have hkept : db.tasks.get id ≠ none → ∃ p, (x.view db).promises.get id = some p ∧ p.IsCall := by
      intro hd
      obtain ⟨p, hp, hc⟩ := hw.call id hd
      obtain ⟨p', hp', -, hdl, -⟩ := h.promise_kept hp
      exact ⟨p', hp', (Promise.isCall_congr hdl).mpr hc⟩
    rw [Txn.view, Db.patch_tasks] at ht
    cases hv : x.delta.tasks.get id with
    | none =>
      rw [hv, Option.getD_none] at ht
      exact hkept ht
    | some v =>
      rcases (h.tasks id v hv).2 with hd | ⟨-, -, p', hp', hc⟩
      · exact hkept hd
      · exact ⟨p', by rw [Txn.view, Db.patch_promises, hp', Option.getD_some], hc⟩
  · obtain ⟨hm, hnd⟩ := (Db.mem_patch_waits e).mp he
    rw [Txn.view, Db.patch_tasks]
    cases hv : x.delta.tasks.get e.1 with
    | none =>
      rcases hm with hm | hm
      · exact hw.waiter e hm
      · exact absurd hv (h.waits e hm).2.2.2.1
    | some v =>
      rw [Option.getD_some]
      rintro rfl
      exact hnd hv
  · obtain ⟨hm | hm, hnd⟩ := (Db.mem_patch_waits e).mp he
    · obtain ⟨w, a, hwt, ha, hg⟩ := hw.awaited e hm
      obtain ⟨w', hw', hwp, -⟩ := h.promise_kept hwt
      obtain ⟨a', ha', hap, -⟩ := h.promise_kept ha
      exact ⟨w', a', hw', ha', by
        rw [Promise.graphId_congr hap, Promise.graphId_congr hwp, hg]⟩
    · exact (h.waits e hm).2.2.2.2.2

lemma Covered.frame {own : Row → Prop} (h : Covered db x)
    (hown : ∀ r, own r → ¬ x.Owns r) : Frame own db (x.view db) := by
  have hprom : ∀ id, own (.promise id) → x.delta.promises.get id = none := by
    intro id ho
    by_contra hne
    obtain ⟨v, hv⟩ := Option.ne_none_iff_exists'.mp hne
    exact hown _ ho (h.promises id v hv).1
  have htask : ∀ id, own (.task id) → x.delta.tasks.get id = none := by
    intro id ho
    by_contra hne
    obtain ⟨v, hv⟩ := Option.ne_none_iff_exists'.mp hne
    exact hown _ ho (h.tasks id v hv).1
  refine ⟨fun id ho => ?_, fun id ho => ?_, fun id p ho hp hc => ?_, fun e ho => ?_, fun e ho he => ?_,
    h.later⟩
  · rw [Txn.view, Db.patch_promises, hprom id ho, Option.getD_none]
  · rw [Txn.view, Db.patch_tasks, htask id ho, Option.getD_none]
  · rw [Txn.view, Db.patch_promises]
    cases hv : x.delta.promises.get id with
    | none => rw [Option.getD_none, hp]
    | some v =>
      obtain ⟨-, p', -, ⟨-, hot, -⟩ | ⟨q, o, hq, -, -, -, hot⟩⟩ := h.promises id v hv
      · exact absurd hot (hown _ ho)
      · rw [hp, Option.some_inj] at hq
        exact absurd (hot (hq ▸ hc)) (hown _ ho)
  · rw [Txn.view, Db.mem_patch_waits, htask e.1 ho]
    refine ⟨fun ⟨hm, _⟩ => ?_, fun hm => ⟨Or.inl hm, by simp⟩⟩
    rcases hm with hm | hm
    · exact hm
    · exact absurd (h.waits e hm).1 (hown _ ho)
  · rcases ((Db.mem_patch_waits e).mp he).1 with hm | hm
    · exact hm
    · exact absurd (h.waits e hm).2.1 (hown _ ho)

lemma Covered.stable (h : Covered db x) (hf : Frame x.Owns db db') : Covered db' x := by
  refine ⟨fun id v hv => ?_, fun id v hv => ?_, fun e he => ?_⟩
  · obtain ⟨ho, hh⟩ := h.promises id v hv
    refine ⟨ho, ?_⟩
    rw [hf.promise id ho]
    exact hh
  · obtain ⟨ho, hh⟩ := h.tasks id v hv
    refine ⟨ho, ?_⟩
    rw [hf.task id ho]
    refine hh.imp (fun hd => hd) fun ⟨hn, hv', p', hp', hc⟩ => ⟨?_, hv', p', hp', hc⟩
    rw [hf.promise id (h.promises id _ hp').1]
    exact hn
  · obtain ⟨h₁, h₂, h₃, h₄, h₅, w, a, hwt, ha, hg⟩ := h.waits e he
    have hview : ∀ id p, (x.view db).promises.get id = some p →
        ∃ p', (x.view db').promises.get id = some p' ∧ p'.place = p.place := by
      intro id p hp
      rw [Txn.view, Db.patch_promises] at hp ⊢
      cases hv : x.delta.promises.get id with
      | some v => exact ⟨p, by rwa [hv] at hp, rfl⟩
      | none =>
        rw [hv, Option.getD_none] at hp
        obtain ⟨p', hp', hpl, -⟩ := hf.later.promise id p hp
        exact ⟨p', hp', hpl⟩
    obtain ⟨w', hw', hwp⟩ := hview _ _ hwt
    obtain ⟨a', ha', hap⟩ := hview _ _ ha
    refine ⟨h₁, h₂, by rwa [hf.task _ h₁], h₄, h₅, w', a', hw', ha', ?_⟩
    rw [Promise.graphId_congr hap, Promise.graphId_congr hwp, hg]

lemma Covered.view_later (h : Covered db x) (hw : Wf db') (hf : Frame x.Owns db db') :
    Later (x.view db) (x.view db') := by
  have hpromise : ∀ id p, (x.view db).promises.get id = some p →
      ∃ p', (x.view db').promises.get id = some p' ∧ p'.place = p.place ∧ p'.deadline = p.deadline ∧
        (¬ p.Pending → p' = p) := by
    intro id p hp
    rw [Txn.view, Db.patch_promises] at hp ⊢
    cases hv : x.delta.promises.get id with
    | some v => exact ⟨p, by rwa [hv] at hp, rfl, rfl, fun _ => rfl⟩
    | none =>
      rw [hv, Option.getD_none] at hp
      exact hf.later.promise id p hp
  refine ⟨hpromise, fun id hp ht => ?_, fun e he ht => ?_⟩
  · rw [Txn.view, Db.patch_tasks] at ht ⊢
    cases hv : x.delta.tasks.get id with
    | some v => rwa [hv] at ht
    | none =>
      rw [hv, Option.getD_none] at ht
      refine hf.later.task id (fun hn => ?_) ht
      obtain ⟨p, hp', hc⟩ := hw.call id ht
      rw [Txn.view, Db.patch_promises, hn] at hp
      cases hd : x.delta.promises.get id with
      | none => exact hp (by rw [hd]; rfl)
      | some v =>
        rw [hf.promise id (h.promises id v hd).1, hn] at hp'
        cases hp'
  · obtain ⟨hm, hnd⟩ := (Db.mem_patch_waits e).mp he
    refine (Db.mem_patch_waits e).mpr ⟨hm.imp (fun hm => ?_) id, hnd⟩
    cases hv : x.delta.tasks.get e.1 with
    | some v => exact (hf.waitsOf e (h.tasks e.1 v hv).1).mpr hm
    | none =>
      rw [Txn.view, Db.patch_tasks, hv, Option.getD_none] at ht
      exact hf.later.waits e hm ht

end View

end Reaper.Store
