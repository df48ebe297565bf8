import Reaper.Store.Stages

/-! Each step of a transaction writes only to rows it owns. -/

namespace Reaper.Store

open Reaper.Library Reaper.Library.Locks

variable {db : Db} {grant : Lock Row → Bool} {x y : Txn}

namespace Txn

@[simp] lemma enter_stage (x : Txn) (s : Stage) : (x.enter s).stage = s := rfl

@[simp] lemma enter_delta (x : Txn) (s : Stage) : (x.enter s).delta = x.delta := rfl

@[simp] lemma lock_delta (x : Txn) (r : Row) (m : Mode) : (x.lock r m).delta = x.delta := rfl

@[simp] lemma write_delta (x : Txn) (f : Delta → Delta) : (x.write f).delta = f x.delta := rfl

@[simp] lemma enter_view (x : Txn) (s : Stage) (db : Db) : (x.enter s).view db = x.view db := rfl

@[simp] lemma lock_view (x : Txn) (r : Row) (m : Mode) (db : Db) :
    (x.lock r m).view db = x.view db := rfl

lemma Owns.mono (h : ∀ l ∈ x.locks, l ∈ y.locks) {r : Row} (ho : x.Owns r) : y.Owns r := by
  obtain ⟨l, hl, hr⟩ := ho
  exact ⟨l, h l hl, hr⟩

lemma lock_owns (x : Txn) (r : Row) {m : Mode} (h : m ≠ .keyShare) : (x.lock r m).Owns r :=
  Locks.Owns.head _ h

lemma Owns.lock {r : Row} (h : x.Owns r) (s : Row) (m : Mode) : (x.lock s m).Owns r :=
  Locks.Owns.cons h _

def settledRow (x : Txn) (db : Db) (o : Outcome) (id : Id) : Option (Option Promise) :=
  match (x.view db).promises.get id with
  | some p => some (some (p.settle o))
  | none => x.delta.promises.get id

lemma settlePromise_promises (db : Db) (x : Txn) (o : Outcome) (j id : Id) :
    (x.settlePromise db j o).delta.promises.get id =
      if id = j then x.settledRow db o id else x.delta.promises.get id := by
  rw [settlePromise, settledRow]
  split_ifs with hj
  · subst hj
    cases (x.view db).promises.get id <;> simp [Delta.setPromise]
  · cases (x.view db).promises.get j
    · rfl
    · exact Dict.get_set_ne _ _ hj

lemma settlePromise_settledRow (db : Db) (x : Txn) (o : Outcome) (j id : Id) :
    (x.settlePromise db j o).settledRow db o id = x.settledRow db o id := by
  by_cases hj : id = j
  · subst hj
    have hd := settlePromise_promises db x o id id
    rw [if_pos rfl] at hd
    cases h : (x.view db).promises.get id with
    | none =>
      have hr : x.settledRow db o id = x.delta.promises.get id := by simp only [settledRow, h]
      have hv : ((x.settlePromise db id o).view db).promises.get id = none := by
        rw [view, Db.patch_promises, hd, hr, ← Db.patch_promises]
        exact h
      rw [settledRow, hv]
      exact hd
    | some p =>
      have hr : x.settledRow db o id = some (some (p.settle o)) := by simp only [settledRow, h]
      have hv : ((x.settlePromise db id o).view db).promises.get id = some (p.settle o) := by
        rw [view, Db.patch_promises, hd, hr, Option.getD_some]
      rw [settledRow, hv, hr]
      rfl
  · have hd := settlePromise_promises db x o j id
    rw [if_neg hj] at hd
    rw [settledRow, settledRow, view, view, Db.patch_promises, Db.patch_promises, hd]

lemma foldl_settlePromise (db : Db) (ids : List Id) (x : Txn) (o : Outcome) (id : Id) :
    (ids.foldl (fun y id => y.settlePromise db id o) x).delta.promises.get id =
      if id ∈ ids then x.settledRow db o id else x.delta.promises.get id := by
  induction ids generalizing x with
  | nil => simp
  | cons j ids ih =>
    rw [List.foldl_cons, ih, settlePromise_settledRow, settlePromise_promises]
    by_cases hj : id = j
    · simp [hj]
    · simp [hj]

lemma foldl_settlePromise_rest (db : Db) (ids : List Id) (x : Txn) (o : Outcome) :
    let y := ids.foldl (fun y id => y.settlePromise db id o) x
    y.delta.tasks = x.delta.tasks ∧ y.delta.waits = x.delta.waits ∧ y.locks = x.locks := by
  induction ids generalizing x with
  | nil => exact ⟨rfl, rfl, rfl⟩
  | cons id ids ih =>
    have hone : (x.settlePromise db id o).delta.tasks = x.delta.tasks ∧
        (x.settlePromise db id o).delta.waits = x.delta.waits ∧
        (x.settlePromise db id o).locks = x.locks := by
      rw [settlePromise]
      split <;> exact ⟨rfl, rfl, rfl⟩
    obtain ⟨h₁, h₂, h₃⟩ := ih (x.settlePromise db id o)
    exact ⟨h₁.trans hone.1, h₂.trans hone.2.1, h₃.trans hone.2.2⟩

end Txn

lemma Delta.foldl_deleteTask (ids : List Id) (d : Delta) (id : Id) :
    (ids.foldl Delta.deleteTask d).tasks.get id = if id ∈ ids then some none else d.tasks.get id := by
  induction ids generalizing d with
  | nil => simp
  | cons j ids ih =>
    simp only [List.foldl_cons, ih, List.mem_cons]
    by_cases hm : id ∈ ids
    · simp [hm]
    · by_cases hj : id = j
      · subst hj
        simp [hm, deleteTask]
      · simp [hm, hj, deleteTask, Dict.get_set_ne]

lemma Delta.foldl_deleteTask_rest (ids : List Id) (d : Delta) :
    (ids.foldl Delta.deleteTask d).promises = d.promises ∧
      (ids.foldl Delta.deleteTask d).waits = d.waits := by
  induction ids generalizing d with
  | nil => exact ⟨rfl, rfl⟩
  | cons j ids ih => exact ih (d.deleteTask j)

lemma Covered.mono (h : Covered db x) (hd : y.delta = x.delta) (hl : ∀ l ∈ x.locks, l ∈ y.locks) :
    Covered db y := by
  have ho : ∀ r, x.Owns r → y.Owns r := fun r hr => hr.mono hl
  have hv : y.view db = x.view db := by rw [Txn.view, Txn.view, hd]
  refine ⟨fun id v hg => ?_, fun id v hg => ?_, fun e he => ?_⟩
  · rw [hd] at hg
    obtain ⟨h₁, p', h₂, hh⟩ := h.promises id v hg
    refine ⟨ho _ h₁, p', h₂, hh.imp (And.imp_right (And.imp_left (ho _))) ?_⟩
    rintro ⟨p, o, a, b, c, d, e⟩
    exact ⟨p, o, a, b, c, d, fun hc => ho _ (e hc)⟩
  · rw [hd] at hg ⊢
    obtain ⟨h₁, h₂⟩ := h.tasks id v hg
    exact ⟨ho _ h₁, h₂⟩
  · rw [hd] at he ⊢
    rw [hv]
    obtain ⟨h₁, h₂, hh⟩ := h.waits e he
    exact ⟨ho _ h₁, ho _ h₂, hh⟩

lemma Covered.empty (h : x.delta = {}) : Covered db x := by
  refine ⟨fun id v hv => ?_, fun id v hv => ?_, fun e he => ?_⟩
  · rw [h] at hv
    cases hv
  · rw [h] at hv
    cases hv
  · rw [h] at he
    cases he

lemma Inserts.empty (h : x.delta = {}) : Inserts db x := by
  refine ⟨fun id v hv => ?_, fun id v hv => ?_, by rw [h]⟩
  · rw [h] at hv
    cases hv
  · rw [h] at hv
    cases hv

lemma Inserts.mono (h : Inserts db x) (hd : y.delta = x.delta) : Inserts db y :=
  ⟨hd ▸ h.promises, hd ▸ h.tasks, hd ▸ h.waits⟩

lemma Holds.mono {id : Id} (h : Holds db x id) (hd : y.delta = x.delta)
    (hl : ∀ l ∈ x.locks, l ∈ y.locks) : Holds db y id :=
  ⟨h.owns.mono hl, h.task, h.inserts.mono hd⟩

lemma Holds.enter {id : Id} (h : Holds db x id) (s : Stage) : Holds db (x.enter s) id :=
  h.mono rfl fun _ hl => hl

lemma Covered.enter (h : Covered db x) (s : Stage) : Covered db (x.enter s) :=
  h.mono rfl fun _ hl => hl

lemma Covered.lock (h : Covered db x) (r : Row) (m : Mode) : Covered db (x.lock r m) :=
  h.mono rfl fun _ hl => List.mem_cons_of_mem _ hl

lemma Holds.lock {id : Id} (h : Holds db x id) (r : Row) (m : Mode) : Holds db (x.lock r m) id :=
  h.mono rfl fun _ hl => List.mem_cons_of_mem _ hl

lemma Safe.fail (h : Covered db x) : Safe db (x.enter .failed) := ⟨h.enter _, trivial⟩

lemma Snapshot.now (hw : Wf db) (h : Covered db x) : Snapshot db x (x.view db) :=
  ⟨h.wf hw, .refl _⟩

section Claim

lemma Safe.claim (h : x.delta = {}) (topic : String) (excluded : List (String × ℕ)) (now : Time)
    (snap : Db) (left : List Id) : Safe db (x.enter (.claiming snap topic excluded now left)) :=
  ⟨.empty h, h⟩

lemma Safe.claimNext (h : x.delta = {}) (snap : Db) (topic : String)
    (excluded : List (String × ℕ)) (now : Time) (id : Id) (left : List Id) :
    Safe db (x.claimNext db grant snap topic excluded now id left) := by
  unfold Txn.claimNext
  dsimp only
  split_ifs with hg
  · split
    · exact .claim h ..
    · rename_i t ht
      split_ifs with hc
      · refine ⟨.empty h, (x.lock_owns _ (by simp)), ?_, .empty h⟩
        rw [(view_empty h id).2] at ht
        simp only [claimable, decide_eq_true_eq] at hc
        exact ⟨t, ht, hc.2.2.1⟩
      · exact ⟨.empty h, h⟩
  · exact .claim h ..

end Claim

section Insert

lemma CallRequest.fresh (r : CallRequest) : Fresh r.insert :=
  ⟨rfl, ⟨fun _ => by simp [insert], fun _ => ⟨_, rfl⟩⟩, fun t ht => by cases ht; rfl⟩

lemma TimerRequest.fresh (r : TimerRequest) : Fresh r.insert :=
  ⟨rfl, ⟨fun ⟨_, h⟩ => (by cases h), fun h => absurd rfl h⟩, fun t ht => (by cases ht)⟩

lemma view_none {id : Id} (h : (x.view db).promises.get id = none) (hc : Covered db x) :
    x.delta.promises.get id = none ∧ db.promises.get id = none := by
  rw [Txn.view, Db.patch_promises] at h
  cases hv : x.delta.promises.get id with
  | none => exact ⟨rfl, by rwa [hv] at h⟩
  | some v =>
    obtain ⟨-, p', rfl, -⟩ := hc.promises id v hv
    rw [hv] at h
    cases h

lemma insert_covered {e : Insert} (hc : Covered db x) (hi : Inserts db x) (hf : Fresh e)
    (hn : (x.view db).promises.get e.id = none) (ho : x.Owns (.promise e.id) ∧ x.Owns (.task e.id))
    (hd : y.delta = match e.task with
      | some t => (x.delta.setPromise e.id e.promise).setTask e.id t
      | none => x.delta.setPromise e.id e.promise) (hl : y.locks = x.locks) :
    Covered db y ∧ Inserts db y := by
  obtain ⟨hxn, hdn⟩ := view_none hn hc
  have howns : ∀ r, x.Owns r → y.Owns r := fun r hr => hr.mono (hl ▸ fun _ h => h)
  have hp : ∀ id, y.delta.promises.get id =
      if id = e.id then some (some e.promise) else x.delta.promises.get id := by
    intro id
    rw [hd]
    cases e.task <;> exact Dict.get_set _ _ _ _
  have ht : ∀ id v, y.delta.tasks.get id = some v →
      (id = e.id ∧ e.task ≠ none ∧ v ≠ none) ∨ x.delta.tasks.get id = some v := by
    intro id v hv
    rw [hd] at hv
    cases htask : e.task with
    | none =>
      rw [htask] at hv
      exact Or.inr hv
    | some t =>
      rw [htask] at hv
      simp only [Delta.setTask, Delta.setPromise, Dict.get_set] at hv
      split_ifs at hv with hid
      · exact Or.inl ⟨hid, by simp, by rw [← Option.some.inj hv]; simp⟩
      · exact Or.inr hv
  have hw : y.delta.waits = ∅ := by
    rw [hd, ← hi.waits]
    cases e.task <;> rfl
  refine ⟨⟨fun id v hv => ?_, fun id v hv => ?_, fun e' he => ?_⟩, fun id v hv => ?_, fun id v hv => ?_, hw⟩
  · rw [hp] at hv
    split_ifs at hv with hid
    · subst hid
      cases hv
      exact ⟨howns _ ho.1, _, rfl, Or.inl ⟨hdn, howns _ ho.2, hf.1⟩⟩
    · obtain ⟨h₁, p', h₂, hh⟩ := hc.promises id v hv
      refine ⟨howns _ h₁, p', h₂, hh.imp (And.imp_right (And.imp_left (howns _))) ?_⟩
      rintro ⟨p, o, a, b, c, d, f⟩
      exact ⟨p, o, a, b, c, d, fun hcall => howns _ (f hcall)⟩
  · rw [hp]
    rcases ht id v hv with ⟨rfl, hts, hv'⟩ | hv
    · exact ⟨howns _ ho.2, Or.inr ⟨hdn, hv', _, if_pos rfl, hf.2.1.mpr hts⟩⟩
    · obtain ⟨h₁, hh⟩ := hc.tasks id v hv
      refine ⟨howns _ h₁, hh.imp (fun hd => hd) ?_⟩
      rintro ⟨h₂, h₃, p', h₄, h₅⟩
      refine ⟨h₂, h₃, p', ?_, h₅⟩
      rw [if_neg, h₄]
      rintro rfl
      rw [hxn] at h₄
      cases h₄
  · rw [hw] at he
    cases he
  · rw [hp] at hv
    split_ifs at hv with hid
    · rw [hid, hdn]
    · exact hi.promises id v hv
  · rcases ht id v hv with ⟨rfl, -, -⟩ | hv
    · exact hdn
    · exact hi.tasks id v hv

lemma insertNext_writes {task : Option ClaimedTask} {e : Insert} {left : List Insert}
    {inserted : List Id} (h : x.insertNext db grant task e left inserted = some y) :
    (∃ ids, y.stage = .inserting task left ids) ∧ (y.delta = x.delta ∨
      (x.view db).promises.get e.id = none ∧ y.delta.waits = x.delta.waits ∧
      (∀ id, y.delta.promises.get id =
        if id = e.id then some (some e.promise) else x.delta.promises.get id) ∧
      ∀ id, y.delta.tasks.get id =
        if id = e.id ∧ e.task ≠ none then some e.task else x.delta.tasks.get id) := by
  rw [Txn.insertNext] at h
  split_ifs at h with hp hg
  · cases h
    exact ⟨⟨_, rfl⟩, Or.inl rfl⟩
  · cases h
    refine ⟨⟨_, rfl⟩, Or.inr ⟨not_not.mp hp, ?_, fun id => ?_, fun id => ?_⟩⟩
    · cases e.task <;> rfl
    · cases e.task <;> exact Dict.get_set _ _ _ _
    · cases e.task with
      | none =>
        rw [if_neg (by simp)]
        rfl
      | some t =>
        simp only [ne_eq, reduceCtorEq, not_false_eq_true, and_true]
        exact Dict.get_set _ _ _ _

lemma Safe.insertNext {task : Option ClaimedTask} {e : Insert} {left : List Insert}
    {inserted : List Id} (hc : Covered db x)
    (hs : StageInv db x (.inserting task (e :: left) inserted))
    (h : x.insertNext db grant task e left inserted = some y) : Safe db y := by
  obtain ⟨hf, hi, hh⟩ := hs
  have hleft : ∀ e' ∈ left, Fresh e' := fun e' he => hf e' (List.mem_cons_of_mem _ he)
  rw [Txn.insertNext] at h
  split_ifs at h with hp hg
  · cases h
    exact ⟨hc.enter _, hleft, hi.mono rfl, fun t ht => (hh t ht).enter _⟩
  · cases h
    set z := (x.lock (.promise e.id) .update).lock (.task e.id) .update with hz
    have hzl : ∀ l ∈ x.locks, l ∈ z.locks := fun l hl =>
      List.mem_cons_of_mem _ (List.mem_cons_of_mem _ hl)
    have hzo : z.Owns (.promise e.id) ∧ z.Owns (.task e.id) :=
      ⟨(x.lock_owns _ (by simp)).lock _ _, Txn.lock_owns _ _ (by simp)⟩
    have hcz : Covered db z := hc.mono rfl hzl
    obtain ⟨hcy, hiy⟩ := insert_covered (y := match e.task with
        | some t => (z.write fun d => d.setPromise e.id e.promise).write fun d => d.setTask e.id t
        | none => z.write fun d => d.setPromise e.id e.promise)
      hcz (hi.mono rfl) (hf e List.mem_cons_self) (not_not.mp hp) hzo
      (by cases e.task <;> rfl) (by cases e.task <;> rfl)
    refine ⟨hcy.enter _, hleft, hiy.mono rfl, fun t ht => ⟨?_, (hh t ht).task, hiy.mono rfl⟩⟩
    refine (hh t ht).owns.mono fun l hl => ?_
    have := hzl l hl
    cases e.task <;> exact this

lemma foldl_lock_delta (roots : List Id) (x : Txn) :
    (roots.foldl (fun y root => y.lock (.promise root) .keyShare) x).delta = x.delta := by
  induction roots generalizing x with
  | nil => rfl
  | cons r roots ih => exact ih (x.lock (.promise r) .keyShare)

lemma Safe.insertEnd {task : Option ClaimedTask} {inserted : List Id} (hc : Covered db x)
    (hs : StageInv db x (.inserting task [] inserted))
    (h : x.insertEnd db grant task inserted = some y) : Safe db y := by
  rw [Txn.insertEnd] at h
  split_ifs at h with hf hg
  · cases h
    exact .fail hc
  · cases h
    have hlocks : ∀ l ∈ x.locks, l ∈ ((x.rootsOf db inserted).foldl
        (fun y root => y.lock (.promise root) .keyShare) x).locks := by
      intro l hl
      rw [Txn.foldl_lock_locks]
      exact List.mem_append_right _ hl
    refine ⟨hc.mono (foldl_lock_delta _ x) hlocks, ?_⟩
    cases task with
    | none => trivial
    | some t => exact (hs.2.2 t rfl).mono (foldl_lock_delta _ x) hlocks

end Insert

section Suspend

lemma Safe.suspendTask {task : ClaimedTask} {awaited : List Id} (hw : Wf db) (hc : Covered db x)
    (hs : Holds db x task.id) (h : x.suspendTask db task awaited = some y) : Safe db y := by
  rw [Txn.suspendTask] at h
  dsimp only at h
  split_ifs at h with hv hmiss
  · cases h
    exact .fail hc
  · cases h
    obtain ⟨-, hn, hne⟩ : awaited ≠ [] ∧ awaited.Nodup ∧ task.id ∉ awaited := by tauto
    have hperm := List.perm_insertionSort (· ≤ ·)
      (awaited.filter fun a => (x.view db).promises.get a ≠ none)
    refine ⟨hc.enter _, ?_⟩
    exact {
      holds := hs.enter _
      snapshot := ⟨hc.wf hw, .refl _⟩
      locked := fun e he => (by cases he)
      nodup := hperm.nodup_iff.mpr (hn.filter _)
      requested := fun a ha => (List.mem_filter.mp (hperm.mem_iff.mp ha)).1
      ne := hne }

lemma Safe.suspendNext {task : ClaimedTask} {snap : Db} {awaited left : List Id} {a : Id}
    {found : List (Id × Promise)} (hc : Covered db x)
    (hs : Suspending db x task.id snap awaited (a :: left) found)
    (h : x.suspendNext db grant task snap awaited a left found = some y) : Safe db y := by
  rw [Txn.suspendNext] at h
  rw [Option.ite_none_right_eq_some] at h
  obtain ⟨hg, h⟩ := h
  split at h
  · cases h
    have hsub : (found.map Prod.fst ++ left).Sublist (found.map Prod.fst ++ a :: left) :=
      List.Sublist.append_left (List.sublist_cons_self a left) _
    exact ⟨hc.enter _, { hs with
      holds := hs.holds.enter _
      snapshot := ⟨hs.snapshot.wf, hs.snapshot.later⟩
      nodup := hs.nodup.sublist hsub
      requested := fun b hb => hs.requested b (hsub.subset hb) }⟩
  · rename_i p hp
    cases h
    have heq : (found ++ [(a, p)]).map Prod.fst ++ left = found.map Prod.fst ++ a :: left := by
      rw [List.map_append, List.append_assoc]
      rfl
    refine ⟨(hc.lock _ _).enter _, {
      holds := (hs.holds.lock _ _).enter _
      snapshot := ⟨hs.snapshot.wf, hs.snapshot.later⟩
      locked := fun e he => ?_
      nodup := heq ▸ hs.nodup
      requested := heq ▸ hs.requested
      ne := hs.ne }⟩
    rcases List.mem_append.mp he with he | he
    · exact ⟨(hs.locked e he).1.lock _ _, (hs.locked e he).2⟩
    · rw [List.mem_singleton.mp he]
      exact ⟨x.lock_owns _ (by simp), hp⟩

lemma Safe.suspendEnd {task : ClaimedTask} {snap : Db} {awaited : List Id}
    {found : List (Id × Promise)} {clock : Time} (hc : Covered db x)
    (hs : Suspending db x task.id snap awaited [] found)
    (h : x.suspendEnd db grant task snap awaited found clock = some y) : Safe db y := by
  rw [Txn.suspendEnd] at h
  dsimp only at h
  split_ifs at h with hf hg
  · cases h
    exact .fail hc
  · split at h
    · cases h
      exact .fail hc
    · rename_i t ht
      cases h
      refine ⟨?_, trivial⟩
      obtain ⟨-, hroot⟩ := not_or.mp hf
      obtain ⟨w, hwp, hall⟩ := (Option.any_eq_true ..).mp (not_not.mp hroot)
      obtain ⟨w', hw', hwpl, -⟩ := hs.snapshot.later.promise _ w hwp
      have hdb : db.tasks.get task.id ≠ none := by
        obtain ⟨t₀, ht₀, -⟩ := hs.holds.task
        simp [ht₀]
      have howns : x.Owns (.task task.id) := hs.holds.owns
      refine ⟨fun id v hv => ?_, fun id v hv => ?_, fun e he => ?_⟩
      · obtain ⟨h₁, p', h₂, hh⟩ := hc.promises id v hv
        refine ⟨h₁.lock _ _, p', h₂, hh.imp (And.imp_right (And.imp_left fun ho => ho.lock _ _)) ?_⟩
        rintro ⟨p, o, a, b, c, d, f⟩
        exact ⟨p, o, a, b, c, d, fun hcall => (f hcall).lock _ _⟩
      · simp only [Txn.enter_delta, Txn.write_delta, Delta.setTask, Dict.get_set] at hv
        split_ifs at hv with hid
        · subst hid
          exact ⟨howns.lock _ _, Or.inl hdb⟩
        · obtain ⟨h₁, hh⟩ := hc.tasks id v hv
          exact ⟨h₁.lock _ _, hh⟩
      · have he' : e ∈ (found.map fun f => (task.id, f.1)) := by
          simpa [hs.holds.inserts.waits] using he
        obtain ⟨f, hfm, rfl⟩ := List.mem_map.mp he'
        obtain ⟨ho, hp⟩ := hs.locked f hfm
        refine ⟨howns.lock _ _, ho.lock _ _, hdb, ?_, ?_, w', f.2, hw', hp, ?_⟩
        · simp [Delta.setTask]
        · simp [Delta.setTask]
        · rw [Promise.graphId_congr hwpl]
          exact of_decide_eq_true (List.all_eq_true.mp hall f hfm)

end Suspend

section Settle

lemma settle_covered (hc : Covered db x) (hl : ∀ r, x.Owns r → y.Owns r)
    (hd : y.delta.tasks = x.delta.tasks ∧ y.delta.waits = x.delta.waits)
    (hp : ∀ id, y.delta.promises.get id = x.delta.promises.get id ∨
      ∃ p o, db.promises.get id = some p ∧ p.Pending ∧ o ≠ .pending ∧ y.Owns (.promise id) ∧
        (p.IsCall → y.Owns (.task id)) ∧ y.delta.promises.get id = some (some (p.settle o)))
    (hw : x.delta.waits = ∅) : Covered db y := by
  refine ⟨fun id v hv => ?_, fun id v hv => ?_, fun e he => ?_⟩
  · rcases hp id with hsame | ⟨p, o, hdb, hpend, ho, h₁, h₂, hset⟩
    · rw [hsame] at hv
      obtain ⟨h₁, p', h₂, hh⟩ := hc.promises id v hv
      refine ⟨hl _ h₁, p', h₂, hh.imp (fun ⟨a, b, c⟩ => ⟨a, hl _ b, c⟩) ?_⟩
      rintro ⟨p, o, a, b, c, d, f⟩
      exact ⟨p, o, a, b, c, d, fun hcall => hl _ (f hcall)⟩
    · rw [hset] at hv
      cases hv
      exact ⟨h₁, _, rfl, Or.inr ⟨p, o, hdb, hpend, rfl, ho, h₂⟩⟩
  · rw [hd.1] at hv
    obtain ⟨h₁, hh⟩ := hc.tasks id v hv
    refine ⟨hl _ h₁, hh.imp (fun h => h) ?_⟩
    rintro ⟨hn, hv', p', hp', hcall⟩
    refine ⟨hn, hv', p', ?_, hcall⟩
    rcases hp id with hsame | ⟨p, o, hdb, -⟩
    · rw [hsame, hp']
    · rw [hn] at hdb
      cases hdb
  · rw [hd.2, hw] at he
    cases he

lemma mem_lockedWaiters {snap : Db} {settled : List Id} {w : Id} :
    w ∈ lockedWaiters snap settled ↔ snap.tasks.get w ≠ none ∧ 0 < settledCount snap settled w := by
  rw [lockedWaiters, List.mem_insertionSort, List.mem_filter, Dict.mem_keys, decide_eq_true_eq,
    Option.ne_none_iff_exists']

lemma lockedWaiters_nodup (snap : Db) (settled : List Id) : (lockedWaiters snap settled).Nodup :=
  (List.perm_insertionSort _ _).nodup_iff.mpr (snap.tasks.nodup.filter _)

lemma settledCount_pos {snap : Db} {settled : List Id} {w : Id} :
    0 < settledCount snap settled w ↔ ∃ a ∈ settled, (w, a) ∈ snap.waits := by
  simp [settledCount, List.length_pos_iff, List.filter_eq_nil_iff]

lemma settle_later {snap : Db} (hs : Later snap (x.view db)) (hwf : Wf snap)
    (hd : y.delta.tasks = x.delta.tasks ∧ y.delta.waits = x.delta.waits)
    (hp : ∀ id, y.delta.promises.get id = x.delta.promises.get id ∨
      ∃ p o, (x.view db).promises.get id = some p ∧ p.Pending ∧
        y.delta.promises.get id = some (some (p.settle o))) : Later snap (y.view db) := by
  have htask : ∀ id, (y.view db).tasks.get id = (x.view db).tasks.get id := fun id => by
    rw [Txn.view, Txn.view, Db.patch_tasks, Db.patch_tasks, hd.1]
  refine hs.trans hwf ⟨fun id p h => ?_, fun id _ ht => by rwa [htask] at ht, fun e he _ => ?_⟩
  · rcases hp id with hsame | ⟨q, o, hq, hpend, hset⟩
    · refine ⟨p, ?_, rfl, rfl, fun _ => rfl⟩
      rw [Txn.view, Db.patch_promises, hsame, ← Db.patch_promises]
      exact h
    · rw [h, Option.some_inj] at hq
      subst hq
      refine ⟨p.settle o, ?_, rfl, rfl, fun hn => absurd hpend hn⟩
      rw [Txn.view, Db.patch_promises, hset, Option.getD_some]
  · obtain ⟨hm, hn⟩ := (Db.mem_patch_waits e).mp he
    exact (Db.mem_patch_waits e).mpr ⟨by rwa [hd.2], by rwa [hd.1]⟩

lemma Safe.wakeFor {id : Id} {snap : Db} {o : Outcome} (hw : Wf db) (hc : Covered db x)
    (hh : Holds db x id) (hs : Snapshot db x snap) (hsp : snap.pending id = true)
    (hp : db.pending id = true) (ho : x.Owns (.promise id)) (hne : o ≠ .pending)
    (huntouched : ∀ e ∈ snap.waits, x.delta.tasks.get e.1 = none) :
    Safe db ((x.settlePromise db id o).wakeFor snap none [id] [id]) := by
  obtain ⟨p, hget, hpend⟩ := Db.pending_iff.mp hp
  obtain ⟨t, ht, -⟩ := hh.task
  have hview := (hh.view hw).2
  have hrow : x.settledRow db o id = some (some (p.settle o)) := by
    simp only [Txn.settledRow, hview, hget]
  obtain ⟨hdt, hdw, hdl⟩ := Txn.foldl_settlePromise_rest db [id] x o
  simp only [List.foldl_cons, List.foldl_nil] at hdt hdw hdl
  have hprom : ∀ j, (x.settlePromise db id o).delta.promises.get j =
      if j = id then some (some (p.settle o)) else x.delta.promises.get j := by
    intro j
    rw [Txn.settlePromise_promises]
    split_ifs with hj
    · rw [hj, hrow]
    · rfl
  have howns : ∀ r, x.Owns r → ((x.settlePromise db id o).wakeFor snap none [id] [id]).Owns r :=
    fun r hr => hr.mono (by
      intro l hl
      change l ∈ (x.settlePromise db id o).locks
      rwa [hdl])
  refine ⟨settle_covered hc howns ⟨hdt, hdw⟩ (fun j => ?_) hh.inserts.waits, ?_⟩
  · by_cases hj : j = id
    · subst hj
      exact Or.inr ⟨p, o, hget, hpend, hne, howns _ ho, fun _ => howns _ hh.owns,
        (hprom j).trans (if_pos rfl)⟩
    · exact Or.inl ((hprom j).trans (if_neg hj))
  · refine {
      snapshot := ⟨hs.wf, settle_later hs.later hs.wf ⟨hdt, hdw⟩ fun j => ?_⟩
      nodup := List.nodup_singleton id
      written := fun a ha => ?_
      others := fun j v hv => ?_
      ownTask := fun j hj => ?_
      calls := fun a ha _ _ _ => ha
      waits := hdw.trans hh.inserts.waits
      tasks := fun j v hv => ?_
      untouched := fun w hm => ?_
      leftNodup := lockedWaiters_nodup _ _ }
    · by_cases hj : j = id
      · subst hj
        exact Or.inr ⟨p, o, hview.trans hget, hpend, (hprom j).trans (if_pos rfl)⟩
      · exact Or.inl ((hprom j).trans (if_neg hj))
    · rw [List.mem_singleton.mp ha]
      exact ⟨howns _ ho, hsp, p, o, hget, hpend, hne, (hprom id).trans (if_pos rfl)⟩
    · by_cases hj : j = id
      · exact Or.inl (List.mem_singleton.mpr hj)
      · have hv' := ((hprom j).trans (if_neg hj)).symm.trans hv
        exact Or.inr (hh.inserts.promises j v hv')
    · rw [List.mem_singleton.mp hj]
      exact ⟨List.mem_singleton_self id, howns _ hh.owns, by simp [ht]⟩
    · have hv' : x.delta.tasks.get j = some v := by
        rw [← hdt]
        exact hv
      refine ⟨?_, Or.inl (hh.inserts.tasks j v hv')⟩
      rcases (hc.tasks j v hv').2 with hd | ⟨-, hn, -⟩
      · obtain ⟨q, hq, -⟩ := hw.call j hd
        rw [hh.inserts.tasks j v hv'] at hq
        cases hq
      · exact hn
    · obtain ⟨hsn, hcount⟩ := mem_lockedWaiters.mp hm
      obtain ⟨a, -, ha⟩ := settledCount_pos.mp hcount
      refine ⟨?_, hsn, hcount⟩
      change (x.settlePromise db id o).delta.tasks.get w = none
      rw [hdt]
      exact huntouched (w, a) ha

lemma Inserts.waiters (hw : Wf db) (h : Inserts db x) :
    ∀ e ∈ (x.view db).waits, x.delta.tasks.get e.1 = none := by
  intro e he
  have hm : e ∈ db.waits := by
    rcases ((Db.mem_patch_waits e).mp he).1 with hm | hm
    · exact hm
    · rw [h.waits] at hm
      cases hm
  obtain ⟨w, -, hwt, -⟩ := hw.awaited e hm
  cases hv : x.delta.tasks.get e.1 with
  | none => rfl
  | some v => exact absurd (h.tasks _ _ hv) (by simp [hwt])

lemma Safe.settleTask {task : ClaimedTask} (settlement : Settlement) (hc : Covered db x)
    (hs : Holds db x task.id) : Safe db (x.settleTask db task settlement) := by
  unfold Txn.settleTask
  dsimp only
  split_ifs
  · exact ⟨hc.enter _, hs.enter _⟩
  · exact .fail hc

lemma Safe.lockPromise {task : ClaimedTask} {settlement : Settlement} (hw : Wf db)
    (hc : Covered db x) (hs : Holds db x task.id)
    (h : x.lockPromise db grant task settlement = some y) : Safe db y := by
  rw [Txn.lockPromise] at h
  rw [Option.ite_none_right_eq_some] at h
  obtain ⟨hg, h⟩ := h
  cases h
  have hlock := hc.lock (.promise task.id) .update
  split_ifs with hp
  · refine ⟨hlock.enter _, (hs.lock _ _).enter _, x.lock_owns _ (by simp), ?_⟩
    rwa [Db.pending_congr (hs.view hw).2] at hp
  · exact .fail hlock

lemma Safe.settle {task : ClaimedTask} {settlement : Settlement} {clock : Time} (hw : Wf db)
    (hc : Covered db x) (hs : Holds db x task.id) (ho : x.Owns (.promise task.id))
    (hp : db.pending task.id = true) : Safe db (x.settle db task settlement clock) := by
  unfold Txn.settle
  dsimp only
  split_ifs with hsn
  · refine Safe.wakeFor hw hc hs (.now hw hc) hsn.1 hp ho ?_ (hs.inserts.waiters hw)
    cases settlement <;> simp [Settlement.outcome]
  · exact .fail hc

lemma Safe.retryTask {task : ClaimedTask} (error : Json) (delayMs : ℕ) (clock : Time) (hw : Wf db)
    (hc : Covered db x) (hs : Holds db x task.id) :
    Safe db (x.retryTask db task error delayMs clock) := by
  unfold Txn.retryTask
  dsimp only
  obtain ⟨t₀, ht₀, -⟩ := hs.task
  split
  · exact .fail hc
  · split_ifs with hp hf
    · refine ⟨⟨hc.promises, fun id v hv => ?_, fun e he => ?_⟩, trivial⟩
      · simp only [Txn.enter_delta, Txn.write_delta, Delta.setTask, Dict.get_set] at hv
        split_ifs at hv with hid
        · subst hid
          exact ⟨hs.owns, Or.inl (by simp [ht₀])⟩
        · exact hc.tasks id v hv
      · have he' : e ∈ x.delta.waits := he
        rw [hs.inserts.waits] at he'
        cases he'
    · exact ⟨hc.enter _, {
        holds := hs.enter _
        snapshot := ⟨hc.wf hw, .refl _⟩
        snapPending := hp
        pending := by rwa [Db.pending_congr (hs.view hw).2] at hp
        waiters := hs.inserts.waiters hw }⟩
    · exact .fail hc

lemma Safe.reject {task : ClaimedTask} {snap : Db} {error : Json} {clock : Time} (hw : Wf db)
    (hc : Covered db x) (hs : Retrying db x task.id snap)
    (h : x.reject db grant task snap error clock = some y) : Safe db y := by
  rw [Txn.reject] at h
  rw [Option.ite_none_right_eq_some] at h
  obtain ⟨hg, h⟩ := h
  cases h
  have hlock := hc.lock (.promise task.id) .noKeyUpdate
  exact Safe.wakeFor hw hlock (hs.holds.lock _ _) ⟨hs.snapshot.wf, hs.snapshot.later⟩ hs.snapPending
    hs.pending (x.lock_owns _ (by simp)) (by simp) hs.waiters

end Settle

end Reaper.Store
