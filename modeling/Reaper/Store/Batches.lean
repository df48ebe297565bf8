import Reaper.Store.Columns
import Reaper.Store.Serial
import Reaper.Store.Submissions

/-! A batch of submit_calls that no other transaction disturbs: what it stores and what it returns. -/

namespace Reaper.Store

open Reaper.Library

def readCalls (db : Db) (requests : List CallRequest) (rows : List (Id × Promise)) :
    Except SubmitError (List (Id × Promise)) :=
  if ∀ e ∈ rows, e.2.Readable then finishCalls db requests rows else .error .unreadable

/-- SUBMIT_CALLS, once it has begun. One request whose data PostgreSQL refuses fails the statement. -/
def runCalls (jsonb : Json → Bool) (db snap : Db) (x : Txn) (requests : List CallRequest) :
    Option (Txn × Except SubmitError (List (Id × Promise))) :=
  if ∃ r ∈ requests, ¬ r.Takes jsonb snap then some (x.enter .failed, .error .refused)
  else (Txn.alone db x (requests.map fun _ => .insertNext)).bind fun y =>
    match y.stage with
    | .inserting _ [] inserted =>
      (y.advance db (fun _ => true) .insertEnd).map fun z =>
        match z.stage with
        | .failed => (z, .error .foreignKeyViolation)
        | _ => (z, readCalls (z.view db) requests (returnedRows (z.view db) snap requests inserted))
    | _ => none

def submitCalls (jsonb : Json → Bool) (db : Db) (x : Txn) (requests : List CallRequest) :
    Option (Txn × Except SubmitError (List (Id × Promise))) :=
  if requests = [] then some (x, .ok [])
  else match duplicate [] (requestIds requests) with
    | some id => some (x, .error (.idempotencyConflict id))
    | none =>
      match x.stage with
      | .failed => some (x, .error .transactionAborted)
      | _ =>
        (x.advance db (fun _ => true) (.submitCalls requests)).bind fun y =>
          runCalls jsonb db (x.view db) y requests

def submitMany (jsonb : Json → Bool) (db : Db) (requests : List CallRequest) :
    Option (Db × Except SubmitError (List (Id × Promise))) :=
  (submitCalls jsonb db {} requests).map fun e => (e.1.outcome db, e.2)

def Delta.insert (db : Db) (d : Delta) (e : Insert) : Delta :=
  if (db.patch d).promises.get e.id ≠ none then d
  else match e.task with
    | some t => (d.setPromise e.id e.promise).setTask e.id t
    | none => d.setPromise e.id e.promise

section Inserts

variable {db : Db} {d : Delta} {es : List Insert} {e : Insert} {id : Id}

lemma patch_insert_self (hn : (db.patch d).promises.get e.id = none) :
    (db.patch (d.insert db e)).promises.get e.id = some e.promise := by
  rw [Delta.insert, if_neg (not_not.mpr hn), Db.patch_promises]
  cases e.task <;> simp [Delta.setPromise, Delta.setTask]

lemma patch_insert_ne (hid : id ≠ e.id) :
    (db.patch (d.insert db e)).promises.get id = (db.patch d).promises.get id := by
  rw [Delta.insert]
  split_ifs
  · rfl
  · rw [Db.patch_promises, Db.patch_promises]
    cases e.task <;> simp [Delta.setPromise, Delta.setTask, Dict.get_set_ne _ _ hid]

lemma insert_of_stored (hs : (db.patch d).promises.get e.id ≠ none) : d.insert db e = d :=
  if_pos hs

lemma patch_inserts (hn : (es.map Insert.id).Nodup) :
    ((db.patch d).promises.get id ≠ none →
      (db.patch (es.foldl (Delta.insert db) d)).promises.get id = (db.patch d).promises.get id) ∧
    ((db.patch d).promises.get id = none → ∀ e ∈ es, e.id = id →
      (db.patch (es.foldl (Delta.insert db) d)).promises.get id = some e.promise) ∧
    ((∀ e ∈ es, e.id ≠ id) →
      (db.patch (es.foldl (Delta.insert db) d)).promises.get id = (db.patch d).promises.get id) := by
  induction es generalizing d with
  | nil => simp
  | cons e es ih =>
    rw [List.map_cons, List.nodup_cons] at hn
    obtain ⟨hstored, hnew, hother⟩ := ih (d := d.insert db e) hn.2
    rw [List.foldl_cons]
    by_cases hid : id = e.id
    · have hnone : ∀ e' ∈ es, e'.id ≠ id := fun e' he' hh =>
        hn.1 (List.mem_map.mpr ⟨e', he', hh.trans hid⟩)
      refine ⟨fun hs => ?_, fun hs e' he' hid' => ?_, fun hall => ?_⟩
      · rw [hother hnone, insert_of_stored (hid ▸ hs)]
      · rw [hother hnone]
        rcases List.mem_cons.mp he' with rfl | he'
        · rw [hid] at hs ⊢
          exact patch_insert_self hs
        · exact absurd hid' (hnone e' he')
      · exact absurd hid.symm (hall e List.mem_cons_self)
    · have hsame : (db.patch (d.insert db e)).promises.get id = (db.patch d).promises.get id :=
        patch_insert_ne hid
      rw [hsame] at hstored hnew hother
      refine ⟨hstored, fun hs e' he' hid' => ?_, fun hall => ?_⟩
      · rcases List.mem_cons.mp he' with rfl | he'
        · exact absurd hid'.symm hid
        · exact hnew hs e' he' hid'
      · exact hother fun e' he' => hall e' (List.mem_cons_of_mem e he')

lemma inserts_of_stored (hs : ∀ e ∈ es, (db.patch d).promises.get e.id ≠ none) :
    es.foldl (Delta.insert db) d = d := by
  induction es with
  | nil => rfl
  | cons e es ih =>
    rw [List.foldl_cons, insert_of_stored (hs e List.mem_cons_self)]
    exact ih fun e' he' => hs e' (List.mem_cons_of_mem e he')

end Inserts

section Statement

variable {jsonb : Json → Bool} {db : Db} {x y z : Txn} {es : List Insert} {ids : List Id}
  {task : Option ClaimedTask} {requests : List CallRequest}

lemma insertNext_alone (e : Insert) (left : List Insert) :
    ∃ y, x.insertNext db (fun _ => true) task e left ids = some y ∧
      y.delta = x.delta.insert db e ∧
      y.stage = .inserting task left
        (ids ++ if (x.view db).promises.get e.id = none then [e.id] else []) := by
  rw [Txn.insertNext, Delta.insert]
  by_cases hn : (x.view db).promises.get e.id = none
  · rw [if_neg (not_not.mpr hn), if_pos ⟨rfl, rfl⟩]
    have hd : ¬ (db.patch x.delta).promises.get e.id ≠ none := not_not.mpr hn
    refine ⟨_, rfl, ?_, ?_⟩
    · rw [if_neg hd]
      cases e.task <;> rfl
    · rw [if_pos hn]
      rfl
  · rw [if_pos hn]
    have hd : (db.patch x.delta).promises.get e.id ≠ none := hn
    refine ⟨_, rfl, ?_, ?_⟩
    · rw [if_pos hd]
      rfl
    · rw [if_neg hn, List.append_nil]
      rfl

lemma inserts_alone (db : Db) (hs : x.stage = .inserting task es ids) :
    ∃ y ids', Txn.alone db x (es.map fun _ => .insertNext) = some y ∧
      y.delta = es.foldl (Delta.insert db) x.delta ∧ y.stage = .inserting task [] ids' ∧
      ∀ id ∈ ids', id ∈ ids ∨ (x.view db).promises.get id = none ∧ ∃ e ∈ es, e.id = id := by
  induction es generalizing x ids with
  | nil => exact ⟨x, ids, rfl, rfl, hs, fun id hid => Or.inl hid⟩
  | cons e es ih =>
    obtain ⟨y, hy, hd, hst⟩ := @insertNext_alone db x ids task e es
    obtain ⟨z, ids', hz, hdz, hsz, hids⟩ := ih hst
    refine ⟨z, ids', ?_, ?_, hsz, fun id hid => ?_⟩
    · have ha : x.advance db (fun _ => true) .insertNext = some y := by
        simp only [Txn.advance, hs]
        exact hy
      simp only [List.map_cons, Txn.alone, ha]
      exact hz
    · rw [hdz, hd, List.foldl_cons]
    · have hback : (y.view db).promises.get id = none → (x.view db).promises.get id = none := by
        intro hn
        by_cases hs' : (x.view db).promises.get e.id = none
        · by_cases hid' : id = e.id
          · rw [hid']
            exact hs'
          · rw [Txn.view, hd, patch_insert_ne hid'] at hn
            exact hn
        · rw [Txn.view, hd, insert_of_stored hs'] at hn
          exact hn
      rcases hids id hid with hid | ⟨hn, e', he', hid'⟩
      · rcases List.mem_append.mp hid with hid | hid
        · exact Or.inl hid
        · split_ifs at hid with hs'
          · cases List.mem_singleton.mp hid
            exact Or.inr ⟨hs', e, List.mem_cons_self, rfl⟩
          · cases hid
      · exact Or.inr ⟨hback hn, e', List.mem_cons_of_mem e he', hid'⟩

lemma duplicate_none {before ids : List Id} (h : duplicate before ids = none)
    (hb : before.Nodup) : (before ++ ids).Nodup := by
  induction ids generalizing before with
  | nil => simpa using hb
  | cons id ids ih =>
    rw [duplicate] at h
    split_ifs at h with hm
    have hnew : (before ++ [id]).Nodup := by
      simpa [List.nodup_append, hb] using fun a ha => (ne_of_mem_of_not_mem ha hm)
    simpa using ih h hnew

lemma finishCalls_error {rows : List (Id × Promise)}
    {error : SubmitError}
    (h : finishCalls db requests rows = .error error) :
    (∃ id, error = .idempotencyConflict id) ∨ ∃ id, error = .promiseNotFound id := by
  rw [finishCalls] at h
  dsimp only at h
  split at h
  · cases h
    exact Or.inr ⟨_, rfl⟩
  · split at h
    · cases h
      exact Or.inl ⟨_, rfl⟩
    · cases h

lemma requests_nodup (hn : (requestIds requests).Nodup) :
    ((requests.map CallRequest.insert).map Insert.id).Nodup := by
  rw [List.map_map]
  exact hn

def stores (db : Db) (d : Delta) (requests : List CallRequest) : Delta :=
  (requests.map CallRequest.insert).foldl (Delta.insert db) d

def recordOf (db : Db) (r : CallRequest) : Promise := (db.promises.get r.id).getD r.insert.promise

lemma stores_record (hn : (requestIds requests).Nodup) {r : CallRequest} (hr : r ∈ requests) :
    (db.patch (stores db x.delta requests)).promises.get r.id = some (recordOf (x.view db) r) := by
  obtain ⟨hstored, hnew, -⟩ := @patch_inserts db x.delta _ r.id (requests_nodup hn)
  cases hv : (x.view db).promises.get r.id with
  | none =>
    rw [recordOf, hv]
    exact hnew hv _ (List.mem_map_of_mem hr) rfl
  | some p =>
    have hne : (db.patch x.delta).promises.get r.id ≠ none := by
      change (x.view db).promises.get r.id ≠ none
      rw [hv]
      exact Option.some_ne_none p
    rw [recordOf, hv]
    exact (hstored hne).trans hv

lemma stores_keeps (hn : (requestIds requests).Nodup) :
    (x.view db).Keeps (db.patch (stores db x.delta requests)) := by
  intro id p hp
  have hne : (db.patch x.delta).promises.get id ≠ none := by
    change (x.view db).promises.get id ≠ none
    rw [hp]
    exact Option.some_ne_none p
  exact ((patch_inserts (requests_nodup hn)).1 hne).trans hp

lemma rootStored_keeps {a b : Db} (hk : a.Keeps b) {p : Promise} (h : rootStored a p = true) :
    rootStored b p = true := by
  rw [rootStored] at h ⊢
  split at h
  · rfl
  · obtain ⟨q, hq, hg⟩ := (Option.any_eq_true _ _).mp h
    exact (Option.any_eq_true _ _).mpr ⟨q, hk _ q hq, hg⟩

lemma returnedRows_records {snap view : Db} (hk : snap.Keeps view)
    (hids : ∀ id ∈ ids, id ∈ requestIds requests)
    (hrow : ∀ r ∈ requests, view.promises.get r.id = some (recordOf snap r)) :
    ∀ e ∈ returnedRows view snap requests ids, ∃ r ∈ requests, e = (r.id, recordOf snap r) := by
  intro e he
  have hget := mem_returnedRows hk he
  have hid : e.1 ∈ requestIds requests := by
    rcases List.mem_append.mp (mem_byId.mp he) with he | he
    · exact hids _ (Db.mem_existing.mp he).2
    · exact (Db.mem_existing.mp he).2
  obtain ⟨r, hr, hrid⟩ := List.mem_map.mp hid
  rw [← hrid, hrow r hr] at hget
  exact ⟨r, hr, Prod.ext hrid.symm (Option.some_inj.mp hget.symm)⟩

/-- What SUBMIT_CALLS comes to: it is refused, or fails at the foreign key, or has stored its rows and
returned those of its requests. -/
inductive CallsEnd (jsonb : Json → Bool) (db : Db) (x : Txn) (task : Option ClaimedTask)
    (requests : List CallRequest) (z : Txn) : Except SubmitError (List (Id × Promise)) → Prop
  | refused (stage : z.stage = .failed) (data : ∃ r ∈ requests, ¬ r.Takes jsonb (x.view db)) :
      CallsEnd jsonb db x task requests z (.error .refused)
  | foreignKey (stage : z.stage = .failed)
      (roots : ¬ ∀ r ∈ requests, rootStored (x.view db) r.insert.promise = true) :
      CallsEnd jsonb db x task requests z (.error .foreignKeyViolation)
  | stored (rows : List (Id × Promise)) (taken : ∀ r ∈ requests, r.Takes jsonb (x.view db))
      (delta : z.delta = stores db x.delta requests) (stage : z.stage = task.elim .done .holding)
      (reads : Call.Holds (z.view db) none (.reading requests rows))
      (records : ∀ e ∈ rows, ∃ r ∈ requests, e = (r.id, recordOf (x.view db) r)) :
      CallsEnd jsonb db x task requests z (readCalls (z.view db) requests rows)

lemma runCalls_end (hs : x.stage = .inserting task (requests.map CallRequest.insert) [])
    (hn : (requestIds requests).Nodup) : ∃ z r,
      runCalls jsonb db (x.view db) x requests = some (z, r) ∧
        CallsEnd jsonb db x task requests z r := by
  rw [runCalls]
  split_ifs with hdata
  · exact ⟨_, _, rfl, .refused rfl hdata⟩
  have htaken : ∀ r ∈ requests, r.Takes jsonb (x.view db) := by simpa using hdata
  obtain ⟨y, ids, hy, hd, hst, hids⟩ := inserts_alone db hs
  rw [List.map_map] at hy
  have hd : y.delta = stores db x.delta requests := hd
  have hview : y.view db = db.patch (stores db x.delta requests) := by rw [Txn.view, hd]
  have hkeeps : (x.view db).Keeps (y.view db) := hview ▸ stores_keeps hn
  have hrow : ∀ r ∈ requests, (y.view db).promises.get r.id = some (recordOf (x.view db) r) :=
    fun r hr => hview ▸ stores_record hn hr
  have halone : Txn.alone db x (requests.map fun _ => .insertNext) = some y := hy
  simp only [halone, Option.bind_some, hst, Txn.advance, Txn.insertEnd]
  split_ifs with hfail hgrant
  · refine ⟨_, _, rfl, .foreignKey rfl fun hroots => ?_⟩
    obtain ⟨id, hid, hbad⟩ := hfail
    obtain hid | ⟨hnew, e, he, rfl⟩ := hids id hid
    · cases hid
    · obtain ⟨r, hr, rfl⟩ := List.mem_map.mp he
      refine hbad ?_
      rw [show r.insert.id = r.id from rfl, hrow r hr, Option.all_some]
      have hrec : recordOf (x.view db) r = r.insert.promise := by
        rw [recordOf, show (x.view db).promises.get r.id = none from hnew]
        rfl
      rw [hrec]
      exact rootStored_keeps hkeeps (hroots r hr)
  · set z := (y.rootsOf db ids).foldl (fun y root => y.lock (.promise root) .keyShare) y
    have hz : z.delta = stores db x.delta requests := (foldl_lock_delta _ y).trans hd
    have hzv : (z.enter (task.elim .done .holding)).view db = y.view db := by
      change db.patch z.delta = _
      rw [hz, hview]
    have hreads : Call.Holds (y.view db) none (.reading requests
        (returnedRows (y.view db) (x.view db) requests ids)) := by
      refine ⟨fun r hr => ?_, fun e he => mem_returnedRows hkeeps he⟩
      rw [hrow r hr]
      exact Option.some_ne_none _
    have hmem : ∀ id ∈ ids, id ∈ requestIds requests := by
      intro id hid
      obtain hid | ⟨-, e, he, rfl⟩ := hids id hid
      · cases hid
      · obtain ⟨r, hr, rfl⟩ := List.mem_map.mp he
        exact List.mem_map_of_mem hr
    have hrecords := returnedRows_records hkeeps hmem hrow
    rw [Option.map_some]
    cases task with
    | none => exact ⟨_, _, rfl, .stored _ htaken hz rfl (hzv.symm ▸ hreads) (hzv.symm ▸ hrecords)⟩
    | some t => exact ⟨_, _, rfl, .stored _ htaken hz rfl (hzv.symm ▸ hreads) (hzv.symm ▸ hrecords)⟩
  · exact absurd (fun _ _ => trivial) hgrant

lemma submitCalls_begins
    (hs : x.stage = .opened ∧ task = none ∨ ∃ t, x.stage = .holding t ∧ task = some t)
    (hne : requests ≠ []) (hn : (requestIds requests).Nodup) :
    submitCalls jsonb db x requests = runCalls jsonb db (x.view db)
      (x.enter (.inserting task (requests.map CallRequest.insert) [])) requests := by
  have hdup : duplicate [] (requestIds requests) = none := by
    cases hd : duplicate [] (requestIds requests) with
    | none => rfl
    | some id => exact (Submitting.duplicate_mem hd (by simpa using hn)).elim
  have hids : (requests.map CallRequest.id).Nodup := hn
  obtain ⟨hst, rfl⟩ | ⟨t, hst, rfl⟩ := hs <;> simp [submitCalls, hne, hdup, Txn.advance, hst, hids]

lemma submitCalls_statement
    (hs : x.stage = .opened ∧ task = none ∨ ∃ t, x.stage = .holding t ∧ task = some t)
    (hne : requests ≠ []) (hn : (requestIds requests).Nodup) : ∃ z r,
      submitCalls jsonb db x requests = some (z, r) ∧ CallsEnd jsonb db x task requests z r := by
  rw [submitCalls_begins hs hne hn]
  obtain ⟨z, r, hr, hend⟩ := @runCalls_end jsonb db
    (x.enter (.inserting task (requests.map CallRequest.insert) [])) task _ rfl hn
  refine ⟨z, r, hr, ?_⟩
  cases hend with
  | refused stage data => exact .refused stage data
  | foreignKey stage roots => exact .foreignKey stage roots
  | stored rows taken delta stage reads records => exact .stored rows taken delta stage reads records

lemma submitCalls_refused
    (hs : x.stage = .opened ∧ task = none ∨ ∃ t, x.stage = .holding t ∧ task = some t)
    (hn : (requestIds requests).Nodup) (hdata : ∃ r ∈ requests, ¬ r.Takes jsonb (x.view db)) :
    submitCalls jsonb db x requests = some (x.enter .failed, .error .refused) := by
  have hne : requests ≠ [] := by
    rintro rfl
    obtain ⟨r, hr, -⟩ := hdata
    cases hr
  rw [submitCalls_begins hs hne hn, runCalls, if_pos hdata]
  rfl

lemma submitCalls_duplicate (hn : ¬ (requestIds requests).Nodup) :
    ∃ id, submitCalls jsonb db x requests = some (x, .error (.idempotencyConflict id)) := by
  have hne : requests ≠ [] := by
    rintro rfl
    exact hn List.nodup_nil
  cases hd : duplicate [] (requestIds requests) with
  | none => exact absurd (by simpa using duplicate_none hd List.nodup_nil) hn
  | some id => exact ⟨id, by rw [submitCalls, if_neg hne, hd]⟩

theorem submitMany_total (jsonb : Json → Bool) (db : Db) (requests : List CallRequest) :
    ∃ db' r, submitMany jsonb db requests = some (db', r) := by
  by_cases hne : requests = []
  · exact ⟨db, .ok [], by rw [submitMany, submitCalls, if_pos hne]; rfl⟩
  · by_cases hn : (requestIds requests).Nodup
    · obtain ⟨z, r, h, -⟩ := @submitCalls_statement jsonb db {} none _
        (Or.inl ⟨rfl, rfl⟩) hne hn
      exact ⟨_, _, by rw [submitMany, h]; rfl⟩
    · obtain ⟨id, h⟩ := @submitCalls_duplicate jsonb db {} _ hn
      exact ⟨_, _, by rw [submitMany, h]; rfl⟩

lemma CallsEnd.stored_of_conflict {id : Id}
    (h : CallsEnd jsonb db x task requests z (.error (.idempotencyConflict id))) :
    z.delta = stores db x.delta requests ∧ z.stage = task.elim .done .holding := by
  generalize hr : Except.error (SubmitError.idempotencyConflict id) = r at h
  cases h with
  | refused => cases hr
  | foreignKey => cases hr
  | stored rows taken delta stage => exact ⟨delta, stage⟩

/-- A batch that is rejected for its keys has changed the store, unless it repeats an id or has no
new one. The statement has committed before its rows are compared. -/
theorem rejected_batch_unchanged_iff {db db' : Db} {requests : List CallRequest} {id : Id}
    (h : submitMany jsonb db requests = some (db', .error (.idempotencyConflict id))) :
    db' = db ↔ ¬ (requestIds requests).Nodup ∨ ∀ r ∈ requests, db.promises.get r.id ≠ none := by
  obtain ⟨⟨z, res⟩, hs, he⟩ := Option.map_eq_some_iff.mp h
  obtain ⟨hdb, rfl⟩ := Prod.mk.inj he
  by_cases hn : (requestIds requests).Nodup
  · have hne : requests ≠ [] := by
      rintro rfl
      rw [submitCalls, if_pos rfl] at hs
      cases hs
    obtain ⟨z', r', hs', hend⟩ := @submitCalls_statement jsonb db {} none _
      (Or.inl ⟨rfl, rfl⟩) hne hn
    rw [hs] at hs'
    obtain ⟨rfl, rfl⟩ := Prod.mk.inj (Option.some_inj.mp hs')
    obtain ⟨hd, hst⟩ := hend.stored_of_conflict
    have hdb' : db' = db.patch (stores db {} requests) := by
      rw [← hdb, Txn.outcome, hst]
      exact congrArg db.patch hd
    constructor
    · refine fun heq => Or.inr fun r hr hnone => ?_
      have hrow : (db.patch (stores db {} requests)).promises.get r.id = some _ :=
        @stores_record db {} _ hn r hr
      have hnone' : db'.promises.get r.id = none := heq ▸ hnone
      rw [hdb', hrow] at hnone'
      cases hnone'
    · rintro (hdup | hall)
      · exact absurd hn hdup
      · have hsame : stores db {} requests = {} := by
          refine inserts_of_stored fun e he => ?_
          obtain ⟨r, hr, rfl⟩ := List.mem_map.mp he
          rw [Db.patch_empty]
          exact hall r hr
        rw [hdb', hsame, Db.patch_empty]
  · obtain ⟨id', hd⟩ := @submitCalls_duplicate jsonb db {} _ hn
    rw [hs] at hd
    obtain ⟨rfl, -⟩ := Prod.mk.inj (Option.some_inj.mp hd)
    exact iff_of_true hdb.symm (Or.inl hn)

end Statement

section Samples

open Sys (rootCall sampleCall)

def anyJson : Json → Bool := fun _ => true

lemma root_answers : (submitMany anyJson {} [rootCall]).isSome = true := by decide +kernel

def stored : Db := ((submitMany anyJson {} [rootCall]).get root_answers).1

def clashingCall : CallRequest := { rootCall with idempotencyKey := "ca978112ca1bbdcafac231b39a23dc4da786eff8147c4e72b9807785afee48bb" }

def newCall : CallRequest := sampleCall "new" none 1 (by decide) Nat.one_pos

lemma eq_some_of_parts {A B : Type} {o : Option (A × B)} (h : o.isSome = true) {b : B}
    (hb : (o.get h).2 = b) : o = some ((o.get h).1, b) := by
  rw [← hb]
  exact (Option.some_get h).symm

lemma clash_answers : (submitMany anyJson stored [clashingCall]).isSome = true := by decide +kernel

def clashed : Db := ((submitMany anyJson stored [clashingCall]).get clash_answers).1

lemma clash_rejected : submitMany anyJson stored [clashingCall] =
    some (clashed, .error (.idempotencyConflict "root")) :=
  eq_some_of_parts clash_answers (by decide +kernel)

theorem rejected_batch_unchanged_clash : clashed = stored ↔
    ¬ (requestIds [clashingCall]).Nodup ∨ ∀ r ∈ [clashingCall], stored.promises.get r.id ≠ none :=
  rejected_batch_unchanged_iff clash_rejected

lemma mixed_answers : (submitMany anyJson stored [newCall, clashingCall]).isSome = true := by decide +kernel

def mixed : Db := ((submitMany anyJson stored [newCall, clashingCall]).get mixed_answers).1

theorem rejected_batch_stores : submitMany anyJson stored [newCall, clashingCall] =
      some (mixed, .error (.idempotencyConflict "root")) ∧
    stored.promises.get "new" = none ∧ mixed.promises.get "new" ≠ none ∧
    mixed.tasks.get "new" ≠ none :=
  ⟨eq_some_of_parts mixed_answers (by decide +kernel), by decide +kernel, by decide +kernel,
    by decide +kernel⟩

end Samples

end Reaper.Store
