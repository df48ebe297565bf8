import Reaper.Workflow.Bodies
import Reaper.Store.Consistency

/-! The operations of the store as single steps on the tables, for runs in which each is atomic. -/

namespace Reaper.Workflow

open Reaper.Store Reaper.Library

section Submit

def insert (db : Db) (x : Delta) (e : Insert) : Delta :=
  if (db.patch x).promises.get e.id ≠ none then x
  else match e.task with
    | some t => (x.setPromise e.id e.promise).setTask e.id t
    | none => x.setPromise e.id e.promise

/-- The rows stored under the requested ids. A row of other work is a conflict, found after the
statement has inserted what was missing. -/
def submit (db : Db) (x : Delta) (es : List Insert) : Delta × Except Error (List WaitedPromise) :=
  let y := es.foldl (insert db) x
  let found := es.filterMap fun e => ((db.patch y).promises.get e.id).map fun p => (e, p)
  match found.find? fun r => r.1.promise.idempotencyKey ≠ r.2.idempotencyKey with
  | some r => (y, .error (conflictError r.1.id))
  | none => (y, .ok (found.map fun r => waitedPromise (r.1.id, r.2)))

def duplicate : List Id → List Id → Option Id
  | _, [] => none
  | seen, id :: ids => if id ∈ seen then some id else duplicate (id :: seen) ids

def submitCalls (db : Db) (x : Delta) (requests : List CallRequest) :
    Delta × Except Error (List WaitedPromise) :=
  match duplicate [] (requests.map CallRequest.id) with
  | some id => (x, .error (conflictError id))
  | none => submit db x (requests.map CallRequest.insert)

end Submit

section Outcomes

def suspendTask (db : Db) (id : Id) (awaited : List Id) (now : Time) : Option Db :=
  (db.tasks.get id).bind fun t =>
    let found := awaited.filterMap fun a => (db.promises.get a).map fun p => (a, p)
    if awaited = [] ∨ ¬ awaited.Nodup ∨ id ∈ awaited ∨ found.length ≠ awaited.length ∨
        ¬ Txn.sameRoot db id found then none
    else some { db with
      tasks := db.tasks.set id { t with
        pendingWaits := (found.filter fun e => e.2.Pending).length
        availableAt := now }
      waits := db.waits ∪ (awaited.map fun a => (id, a)).toFinset }

def wake (db : Db) (id : Id) (now : Time) (tasks : Dict Id Task) (w : Id) : Dict Id Task :=
  match tasks.get w with
  | some t =>
    if 0 < t.pendingWaits then tasks.set w (t.ready (settledCount db [id] w) now) else tasks
  | none => tasks

def settlePromise (db : Db) (id : Id) (outcome : Outcome) (now : Time) : Option Db :=
  (db.promises.get id).bind fun p =>
    if ¬ p.Pending ∨ db.tasks.get id = none then none
    else some {
      promises := db.promises.set id (p.settle outcome)
      tasks := ((lockedWaiters db [id]).foldl (wake db id now) db.tasks).erase id
      waits := db.waits.filter fun e => e.1 ≠ id }

def retryTask (db : Db) (id : Id) (error : Json) (now : Time) : Option Db :=
  (db.tasks.get id).bind fun t =>
    if ¬ db.pending id then none
    else if h : t.failures + 1 < t.maxFailures then
      some { db with tasks := db.tasks.set id { t with
        failures := t.failures + 1
        availableAt := now
        failures_lt := h } }
    else settlePromise db id (.rejected error now) now

end Outcomes

def SameWork (tasks tasks' : Dict Id Task) : Prop :=
  ∀ j t', tasks'.get j = some t' → ∃ t, tasks.get j = some t ∧
    t'.function = t.function ∧ t'.version = t.version ∧ t'.input = t.input ∧ t'.depth = t.depth

structure Leaves (db db' : Db) (id : Id) (outcome : Option Outcome) : Prop where
  promise : ∀ j p', db'.promises.get j = some p' → ∃ p, db.promises.get j = some p ∧
    (p' = p ∨ j = id ∧ ∃ o, outcome = some o ∧ p' = p.settle o)
  stored : ∀ j, db.promises.get j ≠ none → db'.promises.get j ≠ none
  task : SameWork db.tasks db'.tasks

section Spec

variable {db db' : Db} {x : Delta} {id : Id} {now : Time}

lemma insert_promises (e : Insert) (h : (db.patch x).promises.get e.id = none) (j : Id) :
    (insert db x e).promises.get j = if j = e.id then some (some e.promise) else x.promises.get j := by
  rw [insert, if_neg (not_not_intro h)]
  cases e.task <;> exact Dict.get_set _ _ _ _

lemma insert_kept (e : Insert) {p : Promise} (h : (db.patch x).promises.get id = some p) :
    (db.patch (insert db x e)).promises.get id = some p := by
  by_cases he : (db.patch x).promises.get e.id = none
  · have hne : id ≠ e.id := by
      rintro rfl
      rw [he] at h
      cases h
    rw [Db.patch_promises, insert_promises e he, if_neg hne, ← Db.patch_promises, h]
  · rwa [insert, if_pos he]

lemma insert_stored (e : Insert) : (db.patch (insert db x e)).promises.get e.id ≠ none := by
  by_cases he : (db.patch x).promises.get e.id = none
  · rw [Db.patch_promises, insert_promises e he, if_pos rfl]
    nofun
  · rwa [insert, if_pos he]

structure Adds (db : Db) (x y : Delta) (es : List Insert) : Prop where
  kept : ∀ id p, (db.patch x).promises.get id = some p → (db.patch y).promises.get id = some p
  stored : ∀ e ∈ es, (db.patch y).promises.get e.id ≠ none
  promise : ∀ id v, y.promises.get id = some v → x.promises.get id = some v ∨
    (db.patch x).promises.get id = none ∧ ∃ e ∈ es, e.id = id ∧ v = some e.promise
  task : ∀ id v, y.tasks.get id = some v → x.tasks.get id = some v ∨
    ∃ e ∈ es, e.id = id ∧ e.task ≠ none ∧ v = e.task
  waits : y.waits = x.waits

lemma insert_adds (e : Insert) : Adds db x (insert db x e) [e] := by
  refine ⟨fun _ _ => insert_kept e, fun d hd => ?_, fun id v hv => ?_, fun id v hv => ?_, ?_⟩
  · rw [List.mem_singleton.mp hd]
    exact insert_stored e
  · by_cases he : (db.patch x).promises.get e.id = none
    · rw [insert_promises e he] at hv
      split_ifs at hv with hid
      · cases hv
        exact Or.inr ⟨hid ▸ he, e, List.mem_singleton.mpr rfl, hid.symm, rfl⟩
      · exact Or.inl hv
    · rw [insert, if_pos he] at hv
      exact Or.inl hv
  · rw [insert] at hv
    split_ifs at hv with he
    · exact Or.inl hv
    · cases ht : e.task with
      | none =>
        rw [ht] at hv
        exact Or.inl hv
      | some t =>
        rw [ht] at hv
        change (x.tasks.set e.id (some t)).get id = some v at hv
        rw [Dict.get_set] at hv
        split_ifs at hv with hid
        · cases hv
          exact Or.inr ⟨e, List.mem_singleton.mpr rfl, hid.symm, by simp [ht], ht.symm⟩
        · exact Or.inl hv
  · rw [insert]
    split_ifs
    · rfl
    · cases e.task <;> rfl

lemma foldl_insert_adds (es : List Insert) : Adds db x (es.foldl (insert db) x) es := by
  induction es generalizing x with
  | nil => exact ⟨fun _ _ h => h, fun _ he => absurd he List.not_mem_nil, fun _ _ h => Or.inl h,
      fun _ _ h => Or.inl h, rfl⟩
  | cons e es ih =>
    have h₁ : Adds db x _ _ := insert_adds e
    have h₂ := ih (x := insert db x e)
    refine ⟨fun id p hp => h₂.kept id p (h₁.kept id p hp), fun d hd => ?_, fun id v hv => ?_,
      fun id v hv => ?_, h₂.waits.trans h₁.waits⟩
    · rcases List.mem_cons.mp hd with rfl | hd
      · obtain ⟨p, hp⟩ := Option.ne_none_iff_exists'.mp (h₁.stored d (List.mem_singleton.mpr rfl))
        rw [List.foldl_cons, h₂.kept _ _ hp]
        nofun
      · exact h₂.stored d hd
    · rcases h₂.promise id v hv with hv | ⟨hn, d, hd, hid, rfl⟩
      · rcases h₁.promise id v hv with hv | ⟨hn, d, hd, hid, rfl⟩
        · exact Or.inl hv
        · exact Or.inr ⟨hn, d, List.mem_cons.mpr (Or.inl (List.mem_singleton.mp hd)), hid, rfl⟩
      · refine Or.inr ⟨?_, d, List.mem_cons_of_mem _ hd, hid, rfl⟩
        by_contra hp
        obtain ⟨p, hp⟩ := Option.ne_none_iff_exists'.mp hp
        rw [h₁.kept id p hp] at hn
        cases hn
    · rcases h₂.task id v hv with hv | ⟨d, hd, hid, hne, hvt⟩
      · rcases h₁.task id v hv with hv | ⟨d, hd, hid, hne, hvt⟩
        · exact Or.inl hv
        · exact Or.inr ⟨d, List.mem_cons.mpr (Or.inl (List.mem_singleton.mp hd)), hid, hne, hvt⟩
      · exact Or.inr ⟨d, List.mem_cons_of_mem _ hd, hid, hne, hvt⟩

lemma submit_delta (es : List Insert) : (submit db x es).1 = es.foldl (insert db) x := by
  rw [submit]
  split <;> rfl

lemma submit_rows (es : List Insert)
    (hkey : ∀ e ∈ es, ∀ p, (db.patch (submit db x es).1).promises.get e.id = some p →
      p.idempotencyKey = e.promise.idempotencyKey) :
    ∃ rows, (submit db x es).2 = .ok rows ∧ ∀ w, w ∈ rows ↔ ∃ e ∈ es, ∃ p,
      (db.patch (submit db x es).1).promises.get e.id = some p ∧ w = waitedPromise (e.id, p) := by
  rw [submit_delta] at hkey ⊢
  rw [submit, List.find?_eq_none.mpr]
  · refine ⟨_, rfl, fun w => ?_⟩
    simp only [List.mem_map, List.mem_filterMap, Option.map_eq_some_iff]
    constructor
    · rintro ⟨_, ⟨e, he, p, hp, rfl⟩, rfl⟩
      exact ⟨e, he, p, hp, rfl⟩
    · rintro ⟨e, he, p, hp, rfl⟩
      exact ⟨_, ⟨e, he, p, hp, rfl⟩, rfl⟩
  · intro r hr
    obtain ⟨e, he, p, hp, rfl⟩ : ∃ e ∈ es, ∃ p,
        (db.patch (es.foldl (insert db) x)).promises.get e.id = some p ∧ (e, p) = r := by
      simpa only [List.mem_filterMap, Option.map_eq_some_iff] using hr
    simpa using (hkey e he p hp).symm

lemma duplicate_eq_none {seen ids : List Id} (h : ids.Nodup) (hd : seen.Disjoint ids) :
    duplicate seen ids = none := by
  induction ids generalizing seen with
  | nil => rfl
  | cons id ids ih =>
    rw [List.nodup_cons] at h
    rw [duplicate, if_neg fun hm => hd hm List.mem_cons_self]
    refine ih h.2 fun j hj hm => ?_
    rcases List.mem_cons.mp hj with rfl | hj
    · exact h.1 hm
    · exact hd hj (List.mem_cons_of_mem _ hm)

lemma SameWork.set {tasks tasks' : Dict Id Task} {t u : Task} (h : SameWork tasks tasks')
    (ht : tasks'.get id = some t) (hu : u.function = t.function ∧ u.version = t.version ∧
      u.input = t.input ∧ u.depth = t.depth) : SameWork tasks (tasks'.set id u) := by
  refine Dict.forall_set (fun j t' _ hj => h j t' hj) ?_
  obtain ⟨t₀, h₀, hf, hv, hi, hd⟩ := h id t ht
  exact ⟨t₀, h₀, hu.1.trans hf, hu.2.1.trans hv, hu.2.2.1.trans hi, hu.2.2.2.trans hd⟩

lemma SameWork.refl (tasks : Dict Id Task) : SameWork tasks tasks :=
  fun _ t h => ⟨t, h, rfl, rfl, rfl, rfl⟩

lemma foldl_wake_work (ws : List Id) {tasks tasks' : Dict Id Task} (h : SameWork tasks tasks') :
    SameWork tasks (ws.foldl (wake db id now) tasks') := by
  induction ws generalizing tasks' with
  | nil => exact h
  | cons w ws ih =>
    refine ih ?_
    rw [wake]
    split
    · rename_i t ht
      split_ifs
      · exact h.set ht ⟨rfl, rfl, rfl, rfl⟩
      · exact h
    · exact h

lemma suspendTask_leaves {awaited : List Id} (h : suspendTask db id awaited now = some db') :
    Leaves db db' id none := by
  obtain ⟨t, ht, h⟩ := Option.bind_eq_some_iff.mp h
  dsimp only at h
  split_ifs at h
  cases h
  exact ⟨fun j p hp => ⟨p, hp, Or.inl rfl⟩, fun _ h => h,
    (SameWork.refl _).set ht ⟨rfl, rfl, rfl, rfl⟩⟩

lemma settlePromise_leaves {outcome : Outcome} (h : settlePromise db id outcome now = some db') :
    Leaves db db' id (some outcome) := by
  obtain ⟨p, hp, h⟩ := Option.bind_eq_some_iff.mp h
  split_ifs at h
  cases h
  refine ⟨Dict.forall_set (fun j q _ hq => ⟨q, hq, Or.inl rfl⟩)
    ⟨p, hp, Or.inr ⟨rfl, outcome, rfl, rfl⟩⟩, fun j hj => ?_, fun j t' hj => ?_⟩
  · rw [Dict.get_set]
    split_ifs
    · exact Option.some_ne_none _
    · exact hj
  · rw [Dict.get_erase] at hj
    split_ifs at hj
    exact foldl_wake_work _ (.refl _) j t' hj

lemma retryTask_leaves {error : Json} (h : retryTask db id error now = some db')
    (hlimit : ∀ t, db.tasks.get id = some t → t.failures + 1 < t.maxFailures) :
    Leaves db db' id none := by
  obtain ⟨t, ht, h⟩ := Option.bind_eq_some_iff.mp h
  split_ifs at h with _ hf
  · cases h
    exact ⟨fun j p hp => ⟨p, hp, Or.inl rfl⟩, fun _ h => h,
      (SameWork.refl _).set ht ⟨rfl, rfl, rfl, rfl⟩⟩
  · exact absurd (hlimit t ht) hf

end Spec

end Reaper.Workflow
