import Reaper.Store.Writes
import Reaper.Workflow.First

/-! What a suspended task waits for, over serial operations on the store, and when a task that
durable.first has suspended can be claimed again. -/

namespace Reaper.Workflow

open Reaper.Library Reaper.Store

def suspension (db : Db) : Txn → List Act → Option (Id × List Id)
  | _, [] => none
  | x, a :: as => (x.advance db (fun _ => true) a).bind fun y =>
    match x.stage, y.stage with
    | .suspending task _ awaited _ _, .done => some (task.id, awaited)
    | _, _ => suspension db y as

def suspends (db : Db) : Store.Operation → Option (Id × List Id)
  | .transaction acts => suspension db {} acts
  | .deleteExpired _ _ => none

/-- The store after serial operations, of which one has suspended the task. It has been neither
suspended again nor deleted since. -/
inductive Suspended (w : Id) (awaited : List Id) : Db → Prop
  | now {ops : List Store.Operation} {op : Store.Operation} {a b : Db} (ha : serve {} ops = some a)
      (hs : suspends a op = some (w, awaited)) (hb : op.apply a = some b) : Suspended w awaited b
  | later {op : Store.Operation} {a b : Db} (ha : Suspended w awaited a)
      (hs : ∀ ids, suspends a op ≠ some (w, ids)) (hb : op.apply a = some b)
      (ht : b.tasks.get w ≠ none) : Suspended w awaited b

section Rows

variable {db : Db} {x y : Txn} {a : Act} {acts : List Act} {w : Id} {ids : List Id}

lemma suspending_waits {grant : Locks.Lock Row → Bool} {task : ClaimedTask} {snap : Db}
    {awaited left : List Id} {found : List (Id × Promise)}
    (hs : x.stage = .suspending task snap awaited left found) (h : x.advance db grant a = some y) :
    (y.stage = .done ∧ left = [] ∧ (∀ id ∈ awaited, id ∈ found.map Prod.fst) ∧
      y.delta.waits = x.delta.waits ∪ (found.map fun e => (task.id, e.1)).toFinset) ∨
    y.stage ≠ .done ∧ y.delta.waits = x.delta.waits := by
  cases a with
  | suspendEnd clock =>
    cases left with
    | cons b left => simp [Txn.advance, hs] at h
    | nil =>
      simp only [Txn.advance, hs, Txn.suspendEnd] at h
      split_ifs at h with hmissing
      · cases h
        exact Or.inr ⟨by simp, rfl⟩
      · split at h
        · cases h
          exact Or.inr ⟨by simp, rfl⟩
        · cases h
          refine Or.inl ⟨rfl, rfl, fun id hid => ?_, rfl⟩
          by_contra hn
          exact hmissing (Or.inl (List.ne_nil_of_mem (List.mem_filter.mpr ⟨hid, by simpa using hn⟩)))
  | suspendNext =>
    cases left with
    | nil => simp [Txn.advance, hs] at h
    | cons b left =>
      simp only [Txn.advance, hs, Txn.suspendNext] at h
      split_ifs at h
      split at h
      all_goals
        cases h
        exact Or.inr ⟨by simp, rfl⟩
  | submitCalls requests =>
    simp only [Txn.advance, hs] at h
    split_ifs at h
  | _ => simp [Txn.advance, hs] at h

lemma step_waits {grant : Locks.Lock Row → Bool} (h : x.advance db grant a = some y)
    (hn : ∀ task snap awaited left found, x.stage ≠ .suspending task snap awaited left found) :
    y.delta.waits = x.delta.waits := by
  cases (Txn.Step.of_advance h).writes with
  | none hd => rw [hd]
  | insert task e left inserted hs hnone hw => exact hw
  | task id t t' ht hp hw => exact hw
  | suspend task snap awaited found t t' hs => exact absurd hs (hn _ _ _ _ _)
  | settle snap stamp settled removed hs ht hw => exact hw
  | delete snap stamp settled removed kept hs hy =>
    rw [hy]
    exact (Delta.foldl_deleteTask_rest _ x.delta).2

lemma alone_done (hst : x.stage = .done) (h : Txn.alone db x acts = some y) : y = x := by
  cases acts with
  | nil =>
    cases h
    rfl
  | cons a acts =>
    obtain ⟨z, hz, -⟩ := Option.bind_eq_some_iff.mp h
    cases a with
    | submitCalls requests =>
      simp only [Txn.advance, hst] at hz
      split_ifs at hz
    | _ => simp [Txn.advance, hst] at hz

lemma alone_waits (hw : Wf db) (hx : Safe db x) (h : Txn.alone db x acts = some y) :
    (∃ w ids, suspension db x acts = some (w, ids) ∧ y.stage = .done ∧
      (∀ e, e ∈ y.delta.waits ↔ e ∈ x.delta.waits ∨ e.1 = w ∧ e.2 ∈ ids) ∧
      ∃ t, db.tasks.get w = some t ∧ t.pendingWaits = 0) ∨
    suspension db x acts = none ∧ y.delta.waits = x.delta.waits := by
  induction acts generalizing x with
  | nil =>
    cases h
    exact Or.inr ⟨rfl, rfl⟩
  | cons a acts ih =>
    obtain ⟨z, hz, h⟩ := Option.bind_eq_some_iff.mp h
    have hnext := ih (hx.step hw (Txn.Step.of_advance hz)) h
    by_cases hsus : ∃ task snap awaited left found, x.stage = .suspending task snap awaited left found
    · obtain ⟨task, snap, awaited, left, found, hxs⟩ := hsus
      obtain ⟨hdone, rfl, hall, hrows⟩ | ⟨hgoing, hrows⟩ := suspending_waits hxs hz
      · obtain rfl := alone_done hdone h
        have hinv : Suspending db x task.id snap awaited [] found := by
          have hstage := hx.stage
          rw [hxs] at hstage
          exact hstage
        refine Or.inl ⟨task.id, awaited, ?_, hdone, fun e => ?_, hinv.holds.task⟩
        · rw [suspension, hz, Option.bind_some]
          simp only [hxs, hdone]
        · have hreq : ∀ id, id ∈ awaited ↔ id ∈ found.map Prod.fst :=
            fun id => ⟨hall id, fun hid => hinv.requested id (List.mem_append_left _ hid)⟩
          rw [hrows, Finset.mem_union, List.mem_toFinset, hreq, List.mem_map, List.mem_map]
          constructor
          · rintro (he | ⟨f, hf, rfl⟩)
            · exact Or.inl he
            · exact Or.inr ⟨rfl, f, hf, rfl⟩
          · rintro (he | ⟨h₁, f, hf, h₂⟩)
            · exact Or.inl he
            · exact Or.inr ⟨f, hf, Prod.ext h₁.symm h₂⟩
      · have hsame : suspension db x (a :: acts) = suspension db z acts := by
          rw [suspension, hz, Option.bind_some]
          split
          · next hd => exact absurd hd hgoing
          · rfl
        rw [hsame, ← hrows]
        exact hnext
    · have hgoing : ∀ task snap awaited left found,
          x.stage ≠ .suspending task snap awaited left found := by
        simpa using hsus
      have hsame : suspension db x (a :: acts) = suspension db z acts := by
        rw [suspension, hz, Option.bind_some]
        split
        · next hs _ => exact absurd hs (hgoing _ _ _ _ _)
        · rfl
      rw [hsame, ← step_waits hz hgoing]
      exact hnext

end Rows

structure WaitsFor (w : Id) (awaited : List Id) (db : Db) : Prop where
  wf : Wf db
  exact : Exact db
  rows : ∀ id ∈ awaited, (w, id) ∈ db.waits
  others : ∀ e ∈ db.waits, e.1 = w → e.2 ∈ awaited ∨ db.pending e.2 = false

section WaitsFor

variable {a b db : Db} {w : Id} {awaited : List Id} {op : Store.Operation} {t : Task}

lemma Later.settled (hw : Wf a) (h : Later a b) {e : Id × Id} (he : e ∈ a.waits)
    (hs : a.pending e.2 = false) : b.pending e.2 = false := by
  obtain ⟨-, p, -, hp, -⟩ := hw.awaited e he
  have hnot : ¬ p.Pending := by simpa [Db.pending, hp] using hs
  obtain ⟨p', hp', -, -, hkeep⟩ := h.promise e.2 p hp
  simpa [Db.pending, hp', hkeep hnot] using hnot

lemma apply_transaction {acts : List Act} (hw : Wf a) (he : Exact a)
    (h : (Store.Operation.transaction acts).apply a = some b) : ∃ y, Txn.alone a {} acts = some y ∧
      Safe a y ∧ (b = a ∨ b = y.view a ∧ Later a b) ∧ (y.stage = .done → b = y.view a) := by
  obtain ⟨y, hy, hb⟩ := Option.map_eq_some_iff.mp h
  obtain ⟨hs, -, -⟩ := alone_counts (C := fun _ _ => True) hw he (.opened a) (.opened he) trivial
    (fun _ _ _ => trivial) hy
  refine ⟨y, hy, hs, ?_⟩
  rw [Txn.outcome] at hb
  split at hb
  · exact ⟨Or.inr ⟨hb.symm, hb ▸ hs.covered.later⟩, fun _ => hb.symm⟩
  · next hgoing => exact ⟨Or.inl hb.symm, fun hdone => absurd hdone hgoing⟩

lemma WaitsFor.start (hw : Wf a) (he : Exact a) (hs : suspends a op = some (w, awaited))
    (hb : op.apply a = some b) : WaitsFor w awaited b := by
  obtain ⟨hwb, heb⟩ := apply_keeps hw he hb
  cases op with
  | deleteExpired before limit => cases hs
  | transaction acts =>
    obtain ⟨y, hy, hsafe, -, hdone⟩ := apply_transaction hw he hb
    obtain ⟨w', ids, hsus, hst, hrows, t, ht, hz⟩ | ⟨hnone, -⟩ := alone_waits hw (.opened a) hy
    · cases hs.symm.trans hsus
      obtain rfl := hdone hst
      have hnew : ∀ e : Id × Id, e ∈ y.delta.waits ↔ e.1 = w ∧ e.2 ∈ awaited := by
        intro e
        rw [hrows e, or_iff_right]
        exact Finset.notMem_empty e
      refine ⟨hwb, heb, fun id hid => ?_, fun e hm hew => ?_⟩
      · have hmem := (hnew (w, id)).mpr ⟨rfl, hid⟩
        exact Db.mem_patch_waits _ |>.mpr ⟨Or.inr hmem, (hsafe.covered.waits _ hmem).2.2.2.2.1⟩
      · obtain ⟨hm | hm, -⟩ := (Db.mem_patch_waits e).mp hm
        · refine Or.inr (Later.settled hw hsafe.covered.later hm ?_)
          have hnone : a.pendingAwaited w = ∅ := Finset.card_eq_zero.mp ((he w t ht).symm.trans hz)
          by_contra hp
          have hmem : e ∈ a.pendingAwaited w :=
            Db.mem_pendingAwaited.mpr ⟨hm, hew, Bool.eq_true_of_not_eq_false hp⟩
          rw [hnone] at hmem
          exact absurd hmem (Finset.notMem_empty e)
        · exact Or.inl ((hnew e).mp hm).2
    · cases hs.symm.trans hnone

lemma WaitsFor.deleteGraphs (h : WaitsFor w awaited a) {roots : List Id}
    (ht : (a.deleteGraphs roots).tasks.get w ≠ none) : WaitsFor w awaited (a.deleteGraphs roots) := by
  obtain ⟨hw, he⟩ := deleteGraphs_keeps roots h.wf h.exact
  rw [Db.deleteGraphs] at hw he ht ⊢
  dsimp only at hw he ht ⊢
  split_ifs at hw he ht ⊢
  · exact h
  · have hkept : (a.promises.get w).any (fun p => decide (p.graphId w ∈ roots)) = false := by
      by_contra hgone
      rw [Dict.get_filter, Option.ne_none_iff_exists'] at ht
      obtain ⟨t, ht⟩ := ht
      simp [hgone] at ht
    refine ⟨hw, he, fun id hid => ?_, fun e hm hew => ?_⟩
    · exact Finset.mem_filter.mpr ⟨h.rows id hid, by simpa using hkept⟩
    · refine (h.others e (Finset.mem_filter.mp hm).1 hew).imp_right fun hs => ?_
      rw [Db.pending, Dict.get_filter]
      rw [Db.pending] at hs
      cases hp : a.promises.get e.2 with
      | none => rfl
      | some p =>
        rw [hp] at hs
        rw [Option.filter_some]
        split_ifs
        · exact hs
        · rfl

lemma WaitsFor.later (h : WaitsFor w awaited a) (hs : ∀ ids, suspends a op ≠ some (w, ids))
    (hb : op.apply a = some b) (ht : b.tasks.get w ≠ none) : WaitsFor w awaited b := by
  obtain ⟨hwb, heb⟩ := apply_keeps h.wf h.exact hb
  cases op with
  | deleteExpired before limit =>
    cases hb
    exact h.deleteGraphs ht
  | transaction acts =>
    obtain ⟨y, hy, hsafe, rfl | ⟨rfl, hlater⟩, -⟩ := apply_transaction h.wf h.exact hb
    · exact h
    · have hold : ∀ e ∈ y.delta.waits, e.1 ≠ w := by
        obtain ⟨w', ids, hsus, -, hrows, -⟩ | ⟨-, hrows⟩ := alone_waits h.wf (.opened a) hy
        · rintro e hm rfl
          obtain hm | ⟨hew, -⟩ := (hrows e).mp hm
          · exact Finset.notMem_empty e hm
          · exact hs ids (hew ▸ hsus)
        · intro e hm
          rw [hrows] at hm
          exact absurd hm (Finset.notMem_empty e)
      refine ⟨hwb, heb, fun id hid => ?_, fun e hm hew => ?_⟩
      · refine (Db.mem_patch_waits _).mpr ⟨Or.inl (h.rows id hid), fun hnone => ht ?_⟩
        rw [Txn.view, Db.patch_tasks, hnone]
        rfl
      · obtain ⟨hm | hm, -⟩ := (Db.mem_patch_waits e).mp hm
        · exact (h.others e hm hew).imp_right (Later.settled h.wf hlater hm)
        · exact absurd hew (hold e hm)

lemma Suspended.waitsFor (h : Suspended w awaited db) : WaitsFor w awaited db := by
  induction h with
  | now ha hs hb =>
    obtain ⟨hw, he⟩ := serve_keeps .empty .empty ha
    exact .start hw he hs hb
  | later _ hs hb ht ih => exact ih.later hs hb ht

lemma WaitsFor.ready_iff (h : WaitsFor w awaited db) (ht : db.tasks.get w = some t) :
    t.pendingWaits = 0 ↔ ∀ id ∈ awaited, db.pending id = false := by
  rw [h.exact w t ht, Finset.card_eq_zero, Finset.eq_empty_iff_forall_notMem]
  constructor
  · intro hnone id hid
    by_contra hp
    exact hnone (w, id) (Db.mem_pendingAwaited.mpr
      ⟨h.rows id hid, rfl, Bool.eq_true_of_not_eq_false hp⟩)
  · intro hall e he
    obtain ⟨hm, hew, hp⟩ := Db.mem_pendingAwaited.mp he
    obtain hid | hs := h.others e hm hew
    · cases hp.symm.trans (hall e.2 hid)
    · cases hp.symm.trans hs

/-- A task that durable.first has suspended is resumed by the first completion of a child exactly if
no child or every child is settled: it waits for all of them. -/
theorem first_wakes_iff {promises : List Seen} {ids : List Id}
    (hfirst : first promises = .suspended ids) (h : Suspended w ids.eraseDups db)
    (ht : db.tasks.get w = some t) :
    ((∃ s ∈ promises, db.pending s.id = false) → t.pendingWaits = 0) ↔
      (∀ s ∈ promises, db.pending s.id = true) ∨ ∀ s ∈ promises, db.pending s.id = false := by
  have hids : ids = promises.map Seen.id := by
    rw [first] at hfirst
    split_ifs at hfirst
    split at hfirst
    · cases hfirst
    · cases hfirst
      rfl
  have hready : t.pendingWaits = 0 ↔ ∀ s ∈ promises, db.pending s.id = false := by
    rw [h.waitsFor.ready_iff ht, hids]
    simp [List.mem_eraseDups]
  rw [hready]
  constructor
  · intro himp
    by_cases hany : ∃ s ∈ promises, db.pending s.id = false
    · exact Or.inr (himp hany)
    · refine Or.inl fun s hs => Bool.eq_true_of_not_eq_false fun hp => hany ⟨s, hs, hp⟩
  · rintro (hall | hall) ⟨s, hs, hp⟩
    · cases hp.symm.trans (hall s hs)
    · exact hall

end WaitsFor

section Samples

open Sys (rootCall childCall claimNth)

def siblingCall : CallRequest := Sys.sampleCall "sibling" (some "root") 1 (by decide) Nat.one_pos

def storesRoot : List Store.Operation := [.transaction [.submitCalls [rootCall], .insertNext, .insertEnd]]

def awaitsBoth : Store.Operation := .transaction (claimNth 1 0 ++
  [.submitCalls [childCall, siblingCall], .insertNext, .insertNext, .insertEnd,
    .suspendTask ["child", "sibling"], .suspendNext, .suspendNext, .suspendEnd 4])

def completesChild : Store.Operation := .transaction (claimNth 1 10 ++
  [.settleTask (.complete none), .lockPromise, .settle 11, .wake 11, .wakeEnd []])

lemma storesRoot_serves : (serve {} storesRoot).isSome = true := by decide +kernel

def beforeFirst : Db := (serve {} storesRoot).get storesRoot_serves

lemma awaitsBoth_applies : (awaitsBoth.apply beforeFirst).isSome = true := by decide +kernel

def afterFirst : Db := (awaitsBoth.apply beforeFirst).get awaitsBoth_applies

lemma completesChild_applies : (completesChild.apply afterFirst).isSome = true := by decide +kernel

def afterChild : Db := (completesChild.apply afterFirst).get completesChild_applies

def bothPending : List Seen :=
  [⟨"child", childCall.insert.promise, false⟩, ⟨"sibling", siblingCall.insert.promise, false⟩]

lemma bothPending_suspended : first bothPending = .suspended ["child", "sibling"] := by
  rfl

lemma afterFirst_suspended : Suspended "root" ["child", "sibling"] afterFirst :=
  .now (Option.some_get storesRoot_serves).symm (by decide +kernel)
    (Option.some_get awaitsBoth_applies).symm

lemma afterChild_suspended : Suspended "root" ["child", "sibling"] afterChild := by
  have hnone : suspends afterFirst completesChild = none := by decide +kernel
  refine .later afterFirst_suspended (fun ids => ?_) (Option.some_get completesChild_applies).symm
    (by decide +kernel)
  rw [hnone]
  nofun

lemma afterChild_task : (afterChild.tasks.get "root").isSome = true := by decide +kernel

lemma both_eraseDups : ["child", "sibling"].eraseDups = ["child", "sibling"] := by decide +kernel

theorem first_wakes_iff_child :
    ((∃ s ∈ bothPending, afterChild.pending s.id = false) →
      ((afterChild.tasks.get "root").get afterChild_task).pendingWaits = 0) ↔
    (∀ s ∈ bothPending, afterChild.pending s.id = true) ∨
      ∀ s ∈ bothPending, afterChild.pending s.id = false :=
  first_wakes_iff bothPending_suspended (both_eraseDups.symm ▸ afterChild_suspended)
    (Option.some_get afterChild_task).symm

theorem first_waits_for_second : first bothPending = .suspended ["child", "sibling"] ∧
    Suspended "root" (["child", "sibling"].eraseDups) afterChild ∧
    afterChild.pending "child" = false ∧
    (afterChild.tasks.get "root").map Task.pendingWaits = some 1 :=
  ⟨bothPending_suspended, both_eraseDups.symm ▸ afterChild_suspended, by decide +kernel,
    by decide +kernel⟩

end Samples

end Reaper.Workflow
