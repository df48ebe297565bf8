import Reaper.Store.Upkeep

/-! The collection of expired roots in batches. Some batches in a row delete what one batch with the sum of
their limits would delete. -/

namespace Reaper.Store

open Reaper.Library

def gc (db : Db) (before : Time) (limit : ℕ) : Db × ℕ :=
  (deleteExpired db before limit, (doomed db before limit).length)

/-- The batches of poll_maintenance. A batch below the limit is the last one. -/
def collect (before : Time) (limit : ℕ) : ℕ → Db → Db × ℕ
  | 0, db => (db, 0)
  | batches + 1, db =>
    let batch := gc db before limit
    if batch.2 < limit then batch
    else
      let rest := collect before limit batches batch.1
      (rest.1, batch.2 + rest.2)

def Db.keep (db : Db) (f : Id → Bool) : Db where
  promises := db.promises.filter fun id _ => f id
  tasks := db.tasks.filter fun id _ => f id
  waits := db.waits.filter fun e => f e.1

section Graphs

variable {db : Db} {f g : Id → Bool} {roots : List Id} {id : Id}

lemma keep_get : (db.keep f).promises.get id = if f id then db.promises.get id else none := by
  rw [Db.keep, Dict.get_filter]
  cases f id <;> cases db.promises.get id <;> rfl

lemma keep_goneWith : (db.keep f).goneWith roots id = (f id && db.goneWith roots id) := by
  rw [Db.goneWith, keep_get, Db.goneWith]
  cases f id <;> rfl

lemma keep_keep : (db.keep f).keep g = db.keep fun id => f id && g id := by
  simp only [Db.keep, Dict.filter_filter, Finset.filter_filter, Bool.and_eq_true]

lemma goneWith_append (roots' : List Id) :
    db.goneWith (roots ++ roots') id = (db.goneWith roots id || db.goneWith roots' id) := by
  rw [Db.goneWith, Db.goneWith, Db.goneWith]
  cases db.promises.get id with
  | none => rfl
  | some p => simp

lemma deleteGraphs_eq (hw : Wf db) (roots : List Id) :
    db.deleteGraphs roots = db.keep fun id => !db.goneWith roots id := by
  rw [Db.deleteGraphs]
  refine if_neg ?_
  rintro ⟨e, he, hgone, hleft⟩
  dsimp only at hgone hleft
  obtain ⟨w, a, hwp, ha, hgraph⟩ := hw.awaited e he
  rw [hwp] at hleft
  rw [ha, Option.any_some, hgraph] at hgone
  exact hleft hgone

lemma deleteGraphs_append (hw : Wf db) (he : Exact db) (roots roots' : List Id) :
    (db.deleteGraphs roots).deleteGraphs roots' = db.deleteGraphs (roots ++ roots') := by
  rw [deleteGraphs_eq (deleteGraphs_keeps roots hw he).1, deleteGraphs_eq hw, deleteGraphs_eq hw, keep_keep]
  congr 1
  funext id
  rw [keep_goneWith, goneWith_append]
  cases db.goneWith roots id <;> simp

lemma deleteGraphs_nil (hw : Wf db) : db.deleteGraphs [] = db := by
  have hkept : ∀ id, (!db.goneWith [] id) = true := by
    intro id
    rw [Db.goneWith]
    cases db.promises.get id <;> rfl
  rw [deleteGraphs_eq hw, Db.keep]
  simp only [hkept, Dict.filter, List.filter_true, Finset.filter_true]

end Graphs

def ExpiresBefore (a b : Time × Id) : Prop := a.1 < b.1 ∨ a.1 = b.1 ∧ a.2 ≤ b.2

instance : DecidableRel ExpiresBefore := fun _ _ => inferInstanceAs (Decidable (_ ∨ _ ∧ _))

instance : Std.Total ExpiresBefore := ⟨fun a b => by
  rcases lt_trichotomy a.1 b.1 with h | h | h
  · exact Or.inl (Or.inl h)
  · rcases le_total a.2 b.2 with hid | hid
    · exact Or.inl (Or.inr ⟨h, hid⟩)
    · exact Or.inr (Or.inr ⟨h.symm, hid⟩)
  · exact Or.inr (Or.inl h)⟩

instance : IsTrans (Time × Id) ExpiresBefore := ⟨fun a b c hab hbc => by
  rcases hab with hab | ⟨hab, hid⟩ <;> rcases hbc with hbc | ⟨hbc, hid'⟩
  · exact Or.inl (hab.trans hbc)
  · exact Or.inl (hbc ▸ hab)
  · exact Or.inl (hab ▸ hbc)
  · exact Or.inr ⟨hab.trans hbc, hid.trans hid'⟩⟩

lemma ExpiresBefore.antisymm {a b : Time × Id} (h : ExpiresBefore a b) (h' : ExpiresBefore b a) : a = b := by
  rcases h with h | ⟨h, hid⟩ <;> rcases h' with h' | ⟨h', hid'⟩
  · exact absurd h (not_lt.mpr h'.le)
  · exact absurd h (not_lt.mpr h'.le)
  · exact absurd h' (not_lt.mpr h.le)
  · exact Prod.ext h (le_antisymm hid hid')

def eligible (db : Db) (before : Time) (e : Id × Promise) : Option (Time × Id) :=
  match e.2.place with
  | .root deleteAfter =>
    if deleteAfter ≤ before ∧ ¬ e.2.Pending ∧
        ∀ c ∈ db.promises.entries, c.2.place = .child e.1 → ¬ c.2.Pending
    then some (deleteAfter, e.1) else none
  | .child _ => none

def eligibles (db : Db) (before : Time) : List (Time × Id) :=
  (db.promises.entries.filterMap (eligible db before)).insertionSort ExpiresBefore

section Batches

variable {db : Db} {before : Time} {roots : List Id}

lemma doomed_eq (limit : ℕ) : doomed db before limit = ((eligibles db before).take limit).map Prod.snd := rfl

lemma eligible_id {e : Id × Promise} {r : Time × Id} (h : eligible db before e = some r) :
    r.2 = e.1 ∧ e.2.graphId e.1 = e.1 := by
  rw [eligible] at h
  rw [Promise.graphId]
  split at h
  · split_ifs at h
    cases h
    simp_all
  · cases h

lemma filterMap_keys {f : Id × Promise → Option (Time × Id)} (hf : ∀ e r, f e = some r → r.2 = e.1)
    (es : List (Id × Promise)) : ((es.filterMap f).map Prod.snd).Sublist (es.map Prod.fst) := by
  induction es with
  | nil => exact List.Sublist.slnil
  | cons e es ih =>
    rw [List.filterMap_cons, List.map_cons]
    cases hr : f e with
    | none => exact ih.cons _
    | some r =>
      rw [List.map_cons, hf e r hr]
      exact ih.cons_cons _

lemma eligibles_nodup (db : Db) (before : Time) : ((eligibles db before).map Prod.snd).Nodup := by
  have hperm := (List.perm_insertionSort ExpiresBefore (db.promises.entries.filterMap (eligible db before))).map
    Prod.snd
  refine hperm.nodup_iff.mpr (db.promises.nodup.sublist ?_)
  exact filterMap_keys (fun e r h => (eligible_id h).1) _

lemma not_gone {e : Id × Promise} (he : e ∈ db.promises.entries) :
    db.goneWith roots e.1 = false ↔ e.2.graphId e.1 ∉ roots := by
  rw [Db.goneWith, (Dict.mem_entries _ _ _).mp he, Option.any_some, decide_eq_false_iff_not]

lemma eligible_deleteGraphs (hw : Wf db) {e : Id × Promise} (he : e ∈ db.promises.entries)
    (hkept : db.goneWith roots e.1 = false) :
    eligible (db.deleteGraphs roots) before e = eligible db before e := by
  rw [not_gone he, Promise.graphId] at hkept
  rw [deleteGraphs_eq hw, eligible, eligible]
  cases hplace : e.2.place with
  | child root => rfl
  | root deleteAfter =>
    rw [hplace] at hkept
    have hchildren : (∀ c ∈ (db.keep fun id => !db.goneWith roots id).promises.entries,
        c.2.place = .child e.1 → ¬ c.2.Pending) ↔
        ∀ c ∈ db.promises.entries, c.2.place = .child e.1 → ¬ c.2.Pending := by
      constructor
      · intro h c hc hchild
        refine h c (List.mem_filter.mpr ⟨hc, ?_⟩) hchild
        rw [Bool.not_eq_true', not_gone hc, Promise.graphId, hchild]
        exact hkept
      · exact fun h c hc => h c (List.mem_filter.mp hc).1
    simp only [hchildren]

lemma eligibles_deleteGraphs (hw : Wf db) (roots : List Id) :
    eligibles (db.deleteGraphs roots) before = (eligibles db before).filter fun r => r.2 ∉ roots := by
  have hentries : (db.deleteGraphs roots).promises.entries.filterMap
      (eligible (db.deleteGraphs roots) before) =
      (db.promises.entries.filterMap (eligible db before)).filter fun r => r.2 ∉ roots := by
    have hkeep : (db.deleteGraphs roots).promises.entries =
        db.promises.entries.filter fun e => !db.goneWith roots e.1 := by
      rw [deleteGraphs_eq hw]
      rfl
    rw [hkeep, List.filterMap_filter, List.filter_filterMap]
    refine List.filterMap_congr fun e he => ?_
    cases hgone : db.goneWith roots e.1 with
    | false =>
      simp only [Bool.not_false, if_true]
      rw [eligible_deleteGraphs hw he hgone]
      cases hr : eligible db before e with
      | none => rfl
      | some r =>
        obtain ⟨hid, hgraph⟩ := eligible_id hr
        rw [not_gone he, hgraph, ← hid] at hgone
        exact (if_pos (decide_eq_true hgone)).symm
    | true =>
      simp only [Bool.not_true]
      cases hr : eligible db before e with
      | none => rfl
      | some r =>
        obtain ⟨hid, hgraph⟩ := eligible_id hr
        have hmem : r.2 ∈ roots := by
          by_contra hout
          rw [hid, ← hgraph, ← not_gone he, hgone] at hout
          cases hout
        exact (if_neg (by simpa using hmem)).symm
  have hsorted : (eligibles db before).Pairwise ExpiresBefore := List.pairwise_insertionSort _ _
  refine List.Perm.eq_of_pairwise (fun a b _ _ => ExpiresBefore.antisymm) ?_ (hsorted.filter _) ?_
  · exact List.pairwise_insertionSort _ _
  · rw [eligibles, eligibles]
    refine (List.perm_insertionSort _ _).trans ?_
    rw [hentries]
    exact (List.perm_insertionSort _ _).symm.filter _

lemma filter_taken {l : List (Time × Id)} (hn : (l.map Prod.snd).Nodup) (m : ℕ) :
    l.filter (fun r => r.2 ∉ (l.take m).map Prod.snd) = l.drop m := by
  have hsplit : (l.take m).map Prod.snd ++ (l.drop m).map Prod.snd = l.map Prod.snd := by
    rw [← List.map_append, List.take_append_drop]
  have hapart : ∀ r ∈ l.drop m, r.2 ∉ (l.take m).map Prod.snd := by
    intro r hr hmem
    rw [← hsplit, List.nodup_append] at hn
    exact hn.2.2 r.2 hmem r.2 (List.mem_map_of_mem hr) rfl
  calc l.filter (fun r => r.2 ∉ (l.take m).map Prod.snd)
      = (l.take m ++ l.drop m).filter (fun r => r.2 ∉ (l.take m).map Prod.snd) := by
        rw [List.take_append_drop]
    _ = l.drop m := by
        rw [List.filter_append, List.filter_eq_nil_iff.mpr, List.filter_eq_self.mpr, List.nil_append]
        · exact fun r hr => decide_eq_true (hapart r hr)
        · intro r hr
          rw [decide_eq_true_eq, not_not]
          exact List.mem_map_of_mem hr

lemma doomed_append (hw : Wf db) (m n : ℕ) :
    doomed db before (m + n) = doomed db before m ++ doomed (deleteExpired db before m) before n := by
  rw [deleteExpired, doomed_eq, doomed_eq, doomed_eq, eligibles_deleteGraphs hw,
    filter_taken (eligibles_nodup db before), ← List.map_append, List.take_add]

lemma deleteExpired_append (hw : Wf db) (he : Exact db) (m n : ℕ) :
    deleteExpired (deleteExpired db before m) before n = deleteExpired db before (m + n) := by
  rw [deleteExpired, deleteExpired, deleteExpired, doomed_append hw, ← deleteGraphs_append hw he]
  rfl

lemma gc_append (hw : Wf db) (he : Exact db) (m n : ℕ) :
    gc db before (m + n) = ((gc (gc db before m).1 before n).1,
      (gc db before m).2 + (gc (gc db before m).1 before n).2) := by
  simp only [gc, deleteExpired_append hw he, doomed_append hw, List.length_append]

lemma gc_rest {m : ℕ} (h : (gc db before m).2 < m) (n : ℕ) :
    gc db before (m + n) = gc db before m := by
  have hall : (eligibles db before).length ≤ m := by
    rw [gc, doomed_eq, List.length_map, List.length_take] at h
    omega
  have hsame : doomed db before (m + n) = doomed db before m := by
    rw [doomed_eq, doomed_eq, List.take_of_length_le hall, List.take_of_length_le (by omega)]
  simp only [gc, deleteExpired, hsame]

/-- At one time, the batches of poll_maintenance delete what one batch with all their room would. -/
theorem collect_eq_gc {ops : List Operation} (h : serve {} ops = some db) (before : Time) (limit batches : ℕ) :
    collect before limit batches db = gc db before (batches * limit) := by
  obtain ⟨hw, he⟩ := serve_keeps .empty .empty h
  clear h
  induction batches generalizing db with
  | zero =>
    rw [Nat.zero_mul, collect, gc, deleteExpired, doomed_eq, List.take_zero, List.map_nil,
      deleteGraphs_nil hw]
    rfl
  | succ batches ih =>
    rw [collect, Nat.add_mul, Nat.one_mul, Nat.add_comm]
    split_ifs with hlast
    · exact (gc_rest hlast _).symm
    · obtain ⟨hw', he'⟩ := deleteGraphs_keeps (doomed db before limit) hw he
      rw [gc_append hw he]
      simp only [ih (show Wf (gc db before limit).1 from hw') he']

def rootExpires : List Operation := rootServed ++ [.transaction timesOut]

lemma rootExpires_serves : (serve {} rootExpires).isSome = true := by decide +kernel

theorem collect_eq_gc_root : collect 100000 1 2 ((serve {} rootExpires).get rootExpires_serves) =
    gc ((serve {} rootExpires).get rootExpires_serves) 100000 (2 * 1) :=
  collect_eq_gc (Option.some_get rootExpires_serves).symm 100000 1 2

example : (collect 100000 1 2 ((serve {} rootExpires).get rootExpires_serves)).2 = 1 := by decide +kernel

end Batches

end Reaper.Store
