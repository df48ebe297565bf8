import Reaper.Store.Immutable
import Reaper.Store.Writes

/-! submit_calls by any number of clients, in a transaction of their own or in one for each statement.
What a call returns comes from what SUBMIT_CALLS has inserted, from its snapshot, and from
GET_PROMISES, which sees the rows that were inserted meanwhile. -/

namespace Reaper.Store

open Reaper.Library Reaper.Library.Locks

inductive SubmitError
  | idempotencyConflict (id : Id)
  | promiseNotFound (id : Id)
  | foreignKeyViolation
  /-- PostgreSQL does not take the data of a row -/
  | refused
  /-- the driver has no datetime for a time of a row -/
  | unreadable
  /-- an earlier statement of the transaction has failed -/
  | transactionAborted
  deriving DecidableEq, Repr

/-- Where a client's call of submit_calls is. With auto, each statement is a transaction. -/
inductive Call
  | idle
  | inserting (auto : Bool) (requests : List CallRequest) (snap : Db)
  | reading (requests : List CallRequest) (rows : List (Id × Promise))
  | returned (requests : List CallRequest) (records : List (Id × Promise))
  | raised (requests : List CallRequest) (error : SubmitError)

def Call.running : Call → Bool
  | .inserting .. | .reading .. => true
  | .idle | .returned .. | .raised .. => false

structure Client where
  call : Call := .idle
  inserted : List Insert := []

structure Submitting where
  sys : Sys := {}
  clients : Dict ℕ Client := Dict.empty
  created : List (ℕ × Insert) := []

inductive ClientAction
  | begin
  | submitCalls (requests : List CallRequest)
  | insertNext
  | insertEnd
  | refuse
  | finish
  | commit
  | rollback
  deriving DecidableEq

def requestIds (requests : List CallRequest) : List Id := requests.map CallRequest.id

def Db.existing (db : Db) (ids : List Id) : List (Id × Promise) :=
  db.promises.entries.filter fun e => e.1 ∈ ids

def returnedRows (view snap : Db) (requests : List CallRequest) (inserted : List Id) :
    List (Id × Promise) := byId (view.existing inserted ++ snap.existing (requestIds requests))

def getPromises (db : Db) (ids : List Id) : List (Id × Promise) := byId (db.existing ids)

def updateAll (promises : Dict Id Promise) (rows : List (Id × Promise)) : Dict Id Promise :=
  rows.foldl (fun d e => d.set e.1 e.2) promises

def missingIds (promises : Dict Id Promise) (ids : List Id) : List Id :=
  ids.filter fun id => promises.get id = none

def finishCalls (db : Db) (requests : List CallRequest) (rows : List (Id × Promise)) :
    Except SubmitError (List (Id × Promise)) :=
  let ids := requestIds requests
  let promises := updateAll Dict.empty rows
  let missing := missingIds promises ids
  let promises := if missing = [] then promises else updateAll promises (getPromises db missing)
  match missingIds promises ids with
  | id :: _ => .error (.promiseNotFound id)
  | [] =>
    let conflicts := fun r : CallRequest =>
      (promises.get r.id).any fun p => r.idempotencyKey ≠ p.idempotencyKey
    match requests.find? conflicts with
    | some r => .error (.idempotencyConflict r.id)
    | none => .ok (ids.filterMap fun id => (promises.get id).map fun p => (id, p))

def duplicate : List Id → List Id → Option Id
  | _, [] => none
  | before, id :: ids => if id ∈ before then some id else duplicate (before ++ [id]) ids

namespace Submitting

def client (s : Submitting) (k : ℕ) : Client := (s.clients.get k).getD {}

def view (s : Submitting) (k : ℕ) : Db :=
  ((s.sys.txns.get k).map fun x => x.view s.sys.committed).getD s.sys.committed

def answer (s : Submitting) (k : ℕ) (call : Call) : Submitting :=
  { s with clients := s.clients.set k { s.client k with call := call } }

def put (s : Submitting) (k : ℕ) (x : Txn) (c : Client) : Submitting :=
  { s with sys := { s.sys with txns := s.sys.txns.set k x }, clients := s.clients.set k c }

def discard (s : Submitting) (k : ℕ) (call : Call) : Submitting :=
  { s with sys := { s.sys with txns := s.sys.txns.erase k }, clients := s.clients.set k { call := call } }

def commit (s : Submitting) (k : ℕ) (x : Txn) (call : Call) : Submitting where
  sys := { committed := x.view s.sys.committed, txns := s.sys.txns.erase k }
  clients := s.clients.set k { call := call }
  created := s.created ++ (s.client k).inserted.map fun e => (k, e)

def execute (s : Submitting) (k : ℕ) (auto : Bool) (x : Txn) (c : Client)
    (requests : List CallRequest) : Submitting :=
  s.put k (x.enter (.inserting none (requests.map CallRequest.insert) []))
    { c with call := .inserting auto requests (x.view s.sys.committed) }

def submitCalls (s : Submitting) (k : ℕ) (requests : List CallRequest) : Option Submitting :=
  if (s.client k).call.running then none
  else if requests = [] then some (s.answer k (.returned [] []))
  else match duplicate [] (requestIds requests) with
    | some id => some (s.answer k (.raised requests (.idempotencyConflict id)))
    | none =>
      match s.sys.txns.get k with
      | none => some (s.execute k true {} {} requests)
      | some x =>
        match x.stage with
        | .opened => some (s.execute k false x (s.client k) requests)
        | _ => none

def insertNext (s : Submitting) (k : ℕ) (x : Txn) : Option Submitting :=
  match x.stage with
  | .inserting none (e :: left) inserted =>
    (x.insertNext s.sys.committed (s.sys.grant k) none e left inserted).map fun y =>
      s.put k y { s.client k with
        inserted := (s.client k).inserted ++
          if (x.view s.sys.committed).promises.get e.id = none then [e] else [] }
  | _ => none

def fail (s : Submitting) (k : ℕ) (x : Txn) (auto : Bool) (failure : Call) : Submitting :=
  if auto then s.discard k failure else s.put k x { s.client k with call := failure }

def insertEnd (s : Submitting) (k : ℕ) (x : Txn) (auto : Bool) (requests : List CallRequest)
    (snap : Db) : Option Submitting :=
  match x.stage with
  | .inserting none [] inserted =>
    (x.insertEnd s.sys.committed (s.sys.grant k) none inserted).map fun y =>
      match y.stage with
      | .failed => s.fail k y auto (.raised requests .foreignKeyViolation)
      | _ =>
        let rows := returnedRows (y.view s.sys.committed) snap requests inserted
        if auto then s.commit k y (.reading requests rows)
        else s.put k (y.enter .opened) { s.client k with call := .reading requests rows }
  | _ => none

def step (s : Submitting) (k : ℕ) : ClientAction → Option Submitting
  | .begin =>
    if s.sys.txns.get k ≠ none ∨ (s.client k).call.running then none
    else some (s.put k {} { call := (s.client k).call })
  | .submitCalls requests => s.submitCalls k requests
  | .insertNext =>
    match (s.client k).call with
    | .inserting .. => (s.sys.txns.get k).bind fun x => s.insertNext k x
    | _ => none
  | .insertEnd =>
    match (s.client k).call with
    | .inserting auto requests snap =>
      (s.sys.txns.get k).bind fun x => s.insertEnd k x auto requests snap
    | _ => none
  | .refuse =>
    match (s.client k).call with
    | .inserting auto requests _ =>
      (s.sys.txns.get k).map fun x => s.fail k (x.enter .failed) auto (.raised requests .refused)
    | _ => none
  | .finish =>
    match (s.client k).call with
    | .reading requests rows =>
      some <| s.answer k <|
        match finishCalls (s.view k) requests rows with
        | .ok records => .returned requests records
        | .error error => .raised requests error
    | _ => none
  | .commit =>
    (s.sys.txns.get k).bind fun x =>
      match x.stage with
      | .opened => if (s.client k).call.running then none else some (s.commit k x (s.client k).call)
      | _ => none
  | .rollback => if s.sys.txns.get k = none then none else some (s.discard k .idle)

def run : Submitting → List (ℕ × ClientAction) → Option Submitting
  | s, [] => some s
  | s, (k, a) :: as => (s.step k a).bind fun s' => run s' as

end Submitting

def Db.Keeps (db db' : Db) : Prop :=
  ∀ id p, db.promises.get id = some p → db'.promises.get id = some p

structure Adds (db : Db) (x : Txn) (es : List Insert) : Prop where
  promises : ∀ id v, x.delta.promises.get id = some v ↔ ∃ e ∈ es, e.id = id ∧ v = some e.promise
  tasks : ∀ id v, x.delta.tasks.get id = some v ↔ ∃ e ∈ es, e.id = id ∧ v = e.task
  fresh : ∀ e ∈ es, x.Owns (.promise e.id) ∧ db.promises.get e.id = none ∧ e.task ≠ none
  nodup : (es.map Insert.id).Nodup

def Call.Answered (db : Db) : Call → Prop
  | .returned requests records => List.Forall₂ (fun r e => e.1 = r.id ∧
      db.promises.get r.id = some e.2 ∧ e.2.idempotencyKey = r.idempotencyKey) requests records
  | .raised requests (.idempotencyConflict id) => (requestIds requests).Nodup →
      ∃ r ∈ requests, r.id = id ∧ ∃ p, db.promises.get id = some p ∧
        p.idempotencyKey ≠ r.idempotencyKey
  | .raised _ (.promiseNotFound _) => False
  | .raised _ .foreignKeyViolation | .raised _ .refused | .raised _ .unreadable |
    .raised _ .transactionAborted | .idle | .inserting .. | .reading .. => True

def Call.Holds (db : Db) (x : Option Txn) : Call → Prop
  | .inserting _ requests snap => snap.Keeps db ∧ ∃ y done left inserted, x = some y ∧
      y.stage = .inserting none (left.map CallRequest.insert) inserted ∧ requests = done ++ left ∧
      ∀ r ∈ done, db.promises.get r.id ≠ none
  | .reading requests rows => (∀ r ∈ requests, db.promises.get r.id ≠ none) ∧
      ∀ e ∈ rows, db.promises.get e.1 = some e.2
  | c => c.Answered db

section Rows

variable {db db' : Db} {x y : Txn} {es : List Insert} {id : Id} {promises : Dict Id Promise}
  {rows : List (Id × Promise)}

lemma mem_byId {e : Id × Promise} : e ∈ byId rows ↔ e ∈ rows := List.mem_insertionSort _

lemma Db.mem_existing {ids : List Id} {e : Id × Promise} :
    e ∈ db.existing ids ↔ db.promises.get e.1 = some e.2 ∧ e.1 ∈ ids := by
  rw [Db.existing, List.mem_filter, decide_eq_true_eq]
  exact and_congr_left fun _ => Dict.mem_entries _ _ _

lemma mem_returnedRows {snap : Db} {requests : List CallRequest} {inserted : List Id}
    (hs : snap.Keeps db) {e : Id × Promise} (h : e ∈ returnedRows db snap requests inserted) :
    db.promises.get e.1 = some e.2 := by
  rcases List.mem_append.mp (mem_byId.mp h) with he | he
  · exact (Db.mem_existing.mp he).1
  · exact hs _ _ (Db.mem_existing.mp he).1

lemma updateAll_agrees (hd : ∀ id p, promises.get id = some p → db.promises.get id = some p)
    (hr : ∀ e ∈ rows, db.promises.get e.1 = some e.2) {p : Promise}
    (h : (updateAll promises rows).get id = some p) : db.promises.get id = some p := by
  induction rows generalizing promises with
  | nil => exact hd id p h
  | cons e rows ih =>
    refine ih ?_ (fun f hf => hr f (List.mem_cons_of_mem e hf)) h
    exact Dict.forall_set (fun j u _ hj => hd j u hj) (hr e List.mem_cons_self)

lemma updateAll_get (h : promises.get id ≠ none ∨ id ∈ rows.map Prod.fst) :
    (updateAll promises rows).get id ≠ none := by
  induction rows generalizing promises with
  | nil => exact h.resolve_right List.not_mem_nil
  | cons e rows ih =>
    refine ih ?_
    rw [Dict.get_set]
    rw [List.map_cons, List.mem_cons] at h
    by_cases he : id = e.1
    · rw [if_pos he]
      exact Or.inl nofun
    · rw [if_neg he]
      exact h.imp_right fun hh => hh.resolve_left he

lemma missingIds_eq_nil {ids : List Id} :
    missingIds promises ids = [] ↔ ∀ id ∈ ids, promises.get id ≠ none := by
  rw [missingIds, List.filter_eq_nil_iff]
  simp only [decide_eq_true_eq, ne_eq]

lemma finishCalls_promises {ids : List Id} (hrows : ∀ e ∈ rows, db.promises.get e.1 = some e.2)
    (hstored : ∀ id ∈ ids, db.promises.get id ≠ none) :
    ∃ promises : Dict Id Promise,
      (let first := updateAll Dict.empty rows
       let missing := missingIds first ids
       if missing = [] then first else updateAll first (getPromises db missing)) = promises ∧
      (∀ id p, promises.get id = some p → db.promises.get id = some p) ∧
      missingIds promises ids = [] := by
  have hfirst : ∀ id p, (updateAll Dict.empty rows).get id = some p → db.promises.get id = some p :=
    fun id p => updateAll_agrees (fun j u hj => (by cases hj)) hrows
  refine ⟨_, rfl, fun id p hp => ?_, ?_⟩
  · dsimp only at hp
    split_ifs at hp with hm
    · exact hfirst id p hp
    · exact updateAll_agrees hfirst (fun e he => (Db.mem_existing.mp (mem_byId.mp he)).1) hp
  · dsimp only
    split_ifs with hm
    · exact hm
    · refine missingIds_eq_nil.mpr fun id hid => updateAll_get ?_
      by_contra hn
      rw [not_or, not_not] at hn
      obtain ⟨p, hp⟩ := Option.ne_none_iff_exists'.mp (hstored id hid)
      have hmissing : id ∈ missingIds (updateAll Dict.empty rows) ids :=
        List.mem_filter.mpr ⟨hid, decide_eq_true hn.1⟩
      exact hn.2 (List.mem_map.mpr ⟨(id, p), mem_byId.mpr (Db.mem_existing.mpr ⟨hp, hmissing⟩), rfl⟩)

lemma finishCalls_holds {requests : List CallRequest} {t : Option Txn}
    (h : Call.Holds db t (.reading requests rows)) :
    Call.Holds db t (match finishCalls db requests rows with
      | .ok records => .returned requests records
      | .error error => .raised requests error) := by
  have hstored : ∀ id ∈ requestIds requests, db.promises.get id ≠ none := by
    intro id hid
    obtain ⟨r, hr, rfl⟩ := List.mem_map.mp hid
    exact h.1 r hr
  obtain ⟨promises, heq, hagree, hnone⟩ := finishCalls_promises h.2 hstored
  have hfound : ∀ r ∈ requests, ∃ p, promises.get r.id = some p := fun r hr =>
    Option.ne_none_iff_exists'.mp (missingIds_eq_nil.mp hnone r.id (List.mem_map_of_mem hr))
  rw [finishCalls]
  dsimp only at heq ⊢
  rw [heq, hnone]
  dsimp only
  cases hf : requests.find? fun r => (promises.get r.id).any fun p =>
      decide (r.idempotencyKey ≠ p.idempotencyKey) with
  | some r =>
    have hr := List.mem_of_find?_eq_some hf
    have hconflict := List.find?_some hf
    obtain ⟨p, hp⟩ := hfound r hr
    rw [hp, Option.any_some, decide_eq_true_eq] at hconflict
    exact fun _ => ⟨r, hr, rfl, p, hagree _ _ hp, hconflict.symm⟩
  | none =>
    rw [List.find?_eq_none] at hf
    change List.Forall₂ _ requests ((requests.map CallRequest.id).filterMap _)
    clear heq hnone hstored h
    induction requests with
    | nil => exact .nil
    | cons r requests ih =>
      obtain ⟨p, hp⟩ := hfound r List.mem_cons_self
      have hsame := hf r List.mem_cons_self
      rw [hp, Option.any_some, decide_eq_true_eq, not_not] at hsame
      rw [List.map_cons, List.filterMap_cons, hp, Option.map_some]
      exact .cons ⟨rfl, hagree _ _ hp, hsame.symm⟩
        (ih (fun r' hr' => hfound r' (List.mem_cons_of_mem r hr')) fun r' hr' =>
          hf r' (List.mem_cons_of_mem r hr'))

lemma Call.Holds.mono {c : Call} {t : Option Txn} (hk : db.Keeps db') (h : c.Holds db t) :
    c.Holds db' t := by
  have hstored : ∀ id, db.promises.get id ≠ none → db'.promises.get id ≠ none := by
    intro id hn
    obtain ⟨p, hp⟩ := Option.ne_none_iff_exists'.mp hn
    rw [hk id p hp]
    nofun
  cases c with
  | idle => trivial
  | inserting auto requests snap =>
    obtain ⟨hs, y, done, left, inserted, hx, hst, hr, hdone⟩ := h
    exact ⟨fun id p hp => hk id p (hs id p hp), y, done, left, inserted, hx, hst, hr,
      fun r hm => hstored _ (hdone r hm)⟩
  | reading requests rows =>
    exact ⟨fun r hr => hstored _ (h.1 r hr), fun e he => hk _ _ (h.2 e he)⟩
  | returned requests records =>
    exact List.Forall₂.imp (fun r e hh => ⟨hh.1, hk _ _ hh.2.1, hh.2.2⟩) h
  | raised requests error =>
    cases error with
    | idempotencyConflict id =>
      intro hn
      obtain ⟨r, hr, hid, p, hp, hne⟩ := h hn
      exact ⟨r, hr, hid, p, hk _ _ hp, hne⟩
    | promiseNotFound id => exact h
    | foreignKeyViolation | refused | unreadable | transactionAborted => trivial

lemma Call.Holds.of_not_inserting {c : Call} {t t' : Option Txn}
    (hc : ∀ auto requests snap, c ≠ .inserting auto requests snap) (h : c.Holds db t) :
    c.Holds db t' := by
  cases c with
  | inserting auto requests snap => exact absurd rfl (hc auto requests snap)
  | idle | reading | returned => exact h
  | raised requests error => cases error <;> exact h

lemma Adds.empty (db : Db) : Adds db {} [] := by
  refine ⟨fun id v => ?_, fun id v => ?_, fun e he => absurd he List.not_mem_nil, List.nodup_nil⟩ <;>
    · constructor
      · intro h
        cases h
      · rintro ⟨e, he, -⟩
        cases he

lemma Adds.mono (h : Adds db x es) (hd : y.delta = x.delta) (hl : ∀ r, x.Owns r → y.Owns r) :
    Adds db y es := by
  refine ⟨?_, ?_, fun e he => (h.fresh e he).imp_left (hl _), h.nodup⟩ <;> rw [hd]
  · exact h.promises
  · exact h.tasks

lemma Adds.view_mem (h : Adds db x es) {e : Insert} (he : e ∈ es) :
    (x.view db).promises.get e.id = some e.promise ∧ (x.view db).tasks.get e.id = e.task := by
  rw [Txn.view, Db.patch_promises, Db.patch_tasks, (h.promises e.id _).mpr ⟨e, he, rfl, rfl⟩,
    (h.tasks e.id _).mpr ⟨e, he, rfl, rfl⟩]
  exact ⟨rfl, rfl⟩

lemma Adds.view_other (h : Adds db x es) (hn : ∀ e ∈ es, e.id ≠ id) :
    (x.view db).promises.get id = db.promises.get id ∧
      (x.view db).tasks.get id = db.tasks.get id := by
  rw [Txn.view, Db.patch_promises, Db.patch_tasks]
  constructor
  · cases hv : x.delta.promises.get id with
    | none => rfl
    | some v =>
      obtain ⟨e, he, hid, -⟩ := (h.promises id v).mp hv
      exact absurd hid (hn e he)
  · cases hv : x.delta.tasks.get id with
    | none => rfl
    | some v =>
      obtain ⟨e, he, hid, -⟩ := (h.tasks id v).mp hv
      exact absurd hid (hn e he)

lemma Adds.keeps (h : Adds db x es) : db.Keeps (x.view db) := by
  intro id p hp
  refine (h.view_other fun e he hid => ?_).1.trans hp
  rw [← hid, (h.fresh e he).2.1] at hp
  cases hp

lemma Db.Keeps.view (h : db.Keeps db') (x : Txn) : (x.view db).Keeps (x.view db') := by
  intro id p hp
  rw [Txn.view, Db.patch_promises] at hp ⊢
  cases hv : x.delta.promises.get id with
  | none =>
    rw [hv] at hp
    exact h id p hp
  | some v =>
    rw [hv] at hp
    exact hp

lemma Adds.insert {e : Insert} (h : Adds db x es) (he : e.task ≠ none)
    (hn : (x.view db).promises.get e.id = none) (hl : ∀ r, x.Owns r → y.Owns r)
    (ho : y.Owns (.promise e.id)) (hp : y.delta.promises = x.delta.promises.set e.id (some e.promise))
    (ht : y.delta.tasks = x.delta.tasks.set e.id e.task) : Adds db y (es ++ [e]) := by
  have hother : ∀ e' ∈ es, e'.id ≠ e.id := by
    intro e' he' hid
    rw [← hid, (h.view_mem he').1] at hn
    cases hn
  have hmem : ∀ (P : Insert → Prop), (∃ e' ∈ es ++ [e], P e') ↔ (∃ e' ∈ es, P e') ∨ P e := by
    intro P
    simp only [List.mem_append, List.mem_singleton, or_and_right, exists_or, exists_eq_left]
  refine ⟨fun id v => ?_, fun id v => ?_, fun e' he' => ?_, ?_⟩
  · rw [hp, Dict.get_set, hmem, ← h.promises]
    split_ifs with hid
    · subst hid
      have hnone : x.delta.promises.get e.id ≠ some v := fun hv => by
        obtain ⟨e', he', hid, -⟩ := (h.promises _ v).mp hv
        exact hother e' he' hid
      simp only [hnone, Option.some_inj, true_and, false_or, eq_comm]
    · simp only [Ne.symm hid, false_and, or_false]
  · rw [ht, Dict.get_set, hmem, ← h.tasks]
    split_ifs with hid
    · subst hid
      have hnone : x.delta.tasks.get e.id ≠ some v := fun hv => by
        obtain ⟨e', he', hid, -⟩ := (h.tasks _ v).mp hv
        exact hother e' he' hid
      simp only [hnone, Option.some_inj, true_and, false_or, eq_comm]
    · simp only [Ne.symm hid, false_and, or_false]
  · rcases List.mem_append.mp he' with he' | he'
    · exact (h.fresh e' he').imp_left (hl _)
    · cases List.mem_singleton.mp he'
      exact ⟨ho, (h.view_other hother).1.symm.trans hn, he⟩
  · rw [List.map_append, List.nodup_append]
    refine ⟨h.nodup, List.nodup_singleton _, fun i hi j hj => ?_⟩
    obtain ⟨e', he', rfl⟩ := List.mem_map.mp hi
    cases List.mem_singleton.mp hj
    exact hother e' he'

lemma Adds.insertNext {grant : Lock Row → Bool} {e : Insert} {left : List Insert}
    {inserted : List Id} (h : Adds db x es) (he : e.task ≠ none)
    (hy : x.insertNext db grant none e left inserted = some y) :
    (∃ inserted', y.stage = .inserting none left inserted') ∧ (x.view db).Keeps (y.view db) ∧
      (y.view db).promises.get e.id ≠ none ∧
      Adds db y (es ++ if (x.view db).promises.get e.id = none then [e] else []) := by
  have howns : ∀ r, x.Owns r → y.Owns r := fun r => (Txn.insertNext_gains hy).owns
  rw [Txn.insertNext] at hy
  split_ifs at hy with hn hg
  · cases hy
    rw [if_neg hn, List.append_nil]
    exact ⟨⟨inserted, rfl⟩, fun id p hp => hp, hn, h.mono rfl fun _ ho => ho⟩
  · rw [not_not] at hn
    obtain ⟨t, ht⟩ := Option.ne_none_iff_exists'.mp he
    rw [ht] at hy
    cases hy
    have howned := ((x.lock_owns (.promise e.id) (m := .update) (by simp)).lock (.task e.id) .update)
    have hadds := h.insert he hn howns howned rfl (by rw [ht]; rfl)
    rw [if_pos hn]
    refine ⟨⟨_, rfl⟩, fun id p hp => ?_, ?_, hadds⟩
    · rw [Txn.view, Db.patch_promises]
      change ((x.delta.promises.set e.id (some e.promise)).get id).getD (db.promises.get id) = some p
      rw [Dict.get_set]
      split_ifs with hid
      · rw [hid, hn] at hp
        cases hp
      · rw [← Db.patch_promises]
        exact hp
    · rw [(hadds.view_mem (List.mem_append_right es List.mem_cons_self)).1]
      exact Option.some_ne_none _

end Rows

structure OneCreator (db : Db) (s : Submitting) : Prop where
  nodup : (s.created.map fun e => e.2.id).Nodup
  stored : ∀ e ∈ s.created, db.promises.get e.2.id = none ∧ e.2.task ≠ none ∧
    s.sys.committed.promises.get e.2.id = some e.2.promise ∧
    s.sys.committed.tasks.get e.2.id = e.2.task
  others : ∀ id, (∀ e ∈ s.created, e.2.id ≠ id) →
    s.sys.committed.promises.get id = db.promises.get id ∧
    s.sys.committed.tasks.get id = db.tasks.get id

namespace Submitting

structure Sound (db : Db) (s : Submitting) : Prop where
  exclusive : Exclusive s.sys.held
  adds : ∀ k x, s.sys.txns.get k = some x → Adds s.sys.committed x (s.client k).inserted
  calls : ∀ k, (s.client k).call.Holds (s.view k) (s.sys.txns.get k)
  creator : OneCreator db s

variable {db : Db} {s s' : Submitting} {k j : ℕ} {x y : Txn} {c : Client} {call : Call}

lemma Sound.start (db : Db) : Sound db { sys := { committed := db } } := by
  refine ⟨fun k l hl => (by cases hl), fun k x hx => (by cases hx), fun k => trivial,
    List.nodup_nil, fun e he => absurd he List.not_mem_nil, fun id _ => ⟨rfl, rfl⟩⟩

lemma view_of_get (h : s.sys.txns.get k = some x) : s.view k = x.view s.sys.committed := by
  rw [view, h]
  rfl

lemma view_of_none (h : s.sys.txns.get k = none) : s.view k = s.sys.committed := by
  rw [view, h]
  rfl

lemma client_set (s : Submitting) (sys : Sys) (created : List (ℕ × Insert)) (k j : ℕ) (c : Client) :
    client { sys := sys, clients := s.clients.set k c, created := created } j =
      if j = k then c else s.client j := by
  rw [client, Dict.get_set]
  split_ifs <;> rfl

lemma Sound.answer (h : Sound db s) (hc : call.Holds (s.view k) (s.sys.txns.get k)) :
    Sound db (s.answer k call) := by
  refine ⟨h.exclusive, fun j x hx => ?_, fun j => ?_, h.creator.nodup, h.creator.stored,
    h.creator.others⟩
  · rw [Submitting.answer, client_set]
    split_ifs with hj
    · exact hj ▸ h.adds j x hx
    · exact h.adds j x hx
  · rw [Submitting.answer, client_set]
    split_ifs with hj
    · exact hj ▸ hc
    · exact h.calls j

lemma Sound.put (h : Sound db s) {new : List (Lock Row)} (hlocks : y.locks = new ++ s.sys.held k)
    (hfree : ∀ l ∈ new, Free s.sys.held k l) (hadds : Adds s.sys.committed y c.inserted)
    (hcall : c.call.Holds (y.view s.sys.committed) (some y)) : Sound db (s.put k y c) := by
  refine ⟨?_, fun j x hx => ?_, fun j => ?_, h.creator.nodup, h.creator.stored, h.creator.others⟩
  · rw [Submitting.put, Sys.held_set, hlocks]
    exact h.exclusive.grant hfree
  · rw [Submitting.put, client_set]
    change (s.sys.txns.set k y).get j = some x at hx
    rw [Dict.get_set] at hx
    split_ifs at hx ⊢ with hj
    · cases hx
      exact hadds
    · exact h.adds j x hx
  · by_cases hj : j = k
    · subst hj
      have hget : (s.put j y c).sys.txns.get j = some y := Dict.get_set_self _ _ _
      rw [view_of_get hget, hget, Submitting.put, client_set, if_pos rfl]
      exact hcall
    · have hget : (s.put k y c).sys.txns.get j = s.sys.txns.get j := Dict.get_set_ne _ _ hj
      have hview : (s.put k y c).view j = s.view j := by rw [view, view, hget]; rfl
      rw [hview, hget, Submitting.put, client_set, if_neg hj]
      exact h.calls j

lemma Sound.replace (h : Sound db s) (hlocks : y.locks = s.sys.held k)
    (hadds : Adds s.sys.committed y c.inserted)
    (hcall : c.call.Holds (y.view s.sys.committed) (some y)) : Sound db (s.put k y c) := by
  have hnew : y.locks = [] ++ s.sys.held k := hlocks
  exact h.put hnew (fun l hl => absurd hl List.not_mem_nil) hadds hcall

lemma Sound.discard (h : Sound db s) (hc : call.Holds s.sys.committed none) :
    Sound db (s.discard k call) := by
  refine ⟨?_, fun j x hx => ?_, fun j => ?_, h.creator.nodup, h.creator.stored, h.creator.others⟩
  · rw [Submitting.discard, Sys.held_erase]
    exact h.exclusive.release k
  · rw [Submitting.discard, client_set]
    change (s.sys.txns.erase k).get j = some x at hx
    rw [Dict.get_erase] at hx
    split_ifs at hx ⊢ with hj
    exact h.adds j x hx
  · by_cases hj : j = k
    · subst hj
      have hget : (s.discard j call).sys.txns.get j = none := Dict.get_erase_self _ _
      rw [view_of_none hget, hget, Submitting.discard, client_set, if_pos rfl]
      exact hc
    · have hget : (s.discard k call).sys.txns.get j = s.sys.txns.get j := Dict.get_erase_ne _ hj
      have hview : (s.discard k call).view j = s.view j := by rw [view, view, hget]; rfl
      rw [hview, hget, Submitting.discard, client_set, if_neg hj]
      exact h.calls j

lemma Sound.owned (h : Sound db s) (hx : s.sys.txns.get k = some x) :
    ∀ e ∈ (s.client k).inserted, Locks.Owns (s.sys.held k) (.promise e.id) := by
  rw [Sys.held_of_get hx]
  exact fun e he => ((h.adds k x hx).fresh e he).1

lemma Sound.fail {auto : Bool} {new : List (Lock Row)} {requests : List CallRequest} {error : SubmitError}
    (h : Sound db s) (hlocks : y.locks = new ++ s.sys.held k) (hfree : ∀ l ∈ new, Free s.sys.held k l)
    (hadds : Adds s.sys.committed y (s.client k).inserted)
    (he : error = .foreignKeyViolation ∨ error = .refused) :
    Sound db (s.fail k y auto (.raised requests error)) := by
  rw [Submitting.fail]
  have hcall : ∀ db t, Call.Holds db t (.raised requests error) := by
    obtain rfl | rfl := he <;> exact fun _ _ => trivial
  cases auto with
  | true => exact h.discard (hcall _ _)
  | false => exact h.put hlocks hfree hadds (hcall _ _)

lemma Sound.commit (h : Sound db s) (hadds : Adds s.sys.committed x (s.client k).inserted)
    (howned : ∀ e ∈ (s.client k).inserted, Locks.Owns (s.sys.held k) (.promise e.id))
    (hc : call.Holds (x.view s.sys.committed) none) : Sound db (s.commit k x call) := by
  have hkeeps := hadds.keeps
  refine ⟨?_, fun j y hy => ?_, fun j => ?_, ?_, fun e he => ?_, fun id hid => ?_⟩
  · rw [Submitting.commit, Sys.held_erase]
    exact h.exclusive.release k
  · rw [Submitting.commit, client_set]
    change (s.sys.txns.erase k).get j = some y at hy
    rw [Dict.get_erase] at hy
    split_ifs at hy ⊢ with hj
    have hy' := h.adds j y hy
    refine ⟨hy'.promises, hy'.tasks, fun e he => ?_, hy'.nodup⟩
    obtain ⟨ho, hn, ht⟩ := hy'.fresh e he
    refine ⟨ho, ?_, ht⟩
    refine (hadds.view_other fun e' he' hid => ?_).1.trans hn
    -- the key of an inserted row is locked
    rw [Txn.Owns, ← Sys.held_of_get hy] at ho
    exact h.exclusive.not_owns hj ho (hid ▸ howned e' he')
  · by_cases hj : j = k
    · subst hj
      have hget : (s.commit j x call).sys.txns.get j = none := Dict.get_erase_self _ _
      rw [view_of_none hget, hget, Submitting.commit, client_set, if_pos rfl]
      exact hc
    · have hget : (s.commit k x call).sys.txns.get j = s.sys.txns.get j := Dict.get_erase_ne _ hj
      rw [hget, Submitting.commit, client_set, if_neg hj]
      refine (h.calls j).mono ?_
      rw [view, view, ← Submitting.commit, hget]
      cases hy : s.sys.txns.get j with
      | none => exact hkeeps
      | some y => exact hkeeps.view y
  · rw [Submitting.commit, List.map_append, List.nodup_append]
    refine ⟨h.creator.nodup, ?_, fun i hi i' hi' => ?_⟩
    · rw [List.map_map]
      exact hadds.nodup
    · rw [List.map_map] at hi'
      obtain ⟨e, he, rfl⟩ := List.mem_map.mp hi
      obtain ⟨e', he', rfl⟩ := List.mem_map.mp hi'
      intro hid
      have hstored := (h.creator.stored e he).2.2.1
      have hfresh := (hadds.fresh e' he').2.1
      change e.2.id = e'.id at hid
      rw [hid, hfresh] at hstored
      cases hstored
  · rcases List.mem_append.mp he with he | he
    · obtain ⟨hn, ht, hp, htask⟩ := h.creator.stored e he
      have hother : ∀ e' ∈ (s.client k).inserted, e'.id ≠ e.2.id := by
        intro e' he' hid
        rw [← hid, (hadds.fresh e' he').2.1] at hp
        cases hp
      obtain ⟨hp', ht'⟩ := hadds.view_other hother
      exact ⟨hn, ht, hp'.trans hp, ht'.trans htask⟩
    · obtain ⟨e', he', rfl⟩ := List.mem_map.mp he
      obtain ⟨-, hn, ht⟩ := hadds.fresh e' he'
      refine ⟨?_, ht, hadds.view_mem he'⟩
      have hnew : ∀ e ∈ s.created, e.2.id ≠ e'.id := by
        intro e hm hid
        have hp := (h.creator.stored e hm).2.2.1
        rw [hid, hn] at hp
        cases hp
      exact (h.creator.others _ hnew).1.symm.trans hn
  · have hold : ∀ e ∈ s.created, e.2.id ≠ id := fun e he => hid e (List.mem_append_left _ he)
    have hnew : ∀ e ∈ (s.client k).inserted, e.id ≠ id := fun e he =>
      hid (k, e) (List.mem_append_right _ (List.mem_map_of_mem he))
    obtain ⟨hp, ht⟩ := hadds.view_other hnew
    obtain ⟨hp', ht'⟩ := h.creator.others id hold
    exact ⟨hp.trans hp', ht.trans ht'⟩

lemma duplicate_mem {before ids : List Id} {id : Id} (h : duplicate before ids = some id)
    (hn : (before ++ ids).Nodup) : False := by
  induction ids generalizing before with
  | nil => cases h
  | cons i ids ih =>
    rw [duplicate] at h
    split_ifs at h with hi
    · exact (List.nodup_append.mp hn).2.2 i hi i List.mem_cons_self rfl
    · refine ih h ?_
      rwa [List.append_assoc]

lemma Sound.execute {auto : Bool} {requests : List CallRequest} (h : Sound db s)
    (hlocks : s.sys.held k = x.locks) (hadds : Adds s.sys.committed x c.inserted) :
    Sound db (s.execute k auto x c requests) := by
  refine h.replace hlocks.symm (hadds.mono rfl fun _ ho => ho) ?_
  exact ⟨fun id p hp => hp, _, [], requests, [], rfl, rfl, rfl,
    fun r hr => absurd hr List.not_mem_nil⟩

lemma Sound.submitCalls {requests : List CallRequest} (h : Sound db s)
    (hs : s.submitCalls k requests = some s') : Sound db s' := by
  rw [Submitting.submitCalls, Option.ite_none_left_eq_some] at hs
  obtain ⟨-, hs⟩ := hs
  split_ifs at hs with hempty
  · cases hs
    exact h.answer .nil
  · split at hs
    · rename_i id hdup
      cases hs
      exact h.answer fun hn => (duplicate_mem hdup hn).elim
    · split at hs
      · rename_i hnone
        cases hs
        refine h.execute ?_ (.empty _)
        rw [Sys.held, hnone]
        rfl
      · rename_i x hx
        split at hs
        · cases hs
          exact h.execute (Sys.held_of_get hx) (h.adds k x hx)
        · cases hs

lemma Sound.insertNext {auto : Bool} {requests : List CallRequest} {snap : Db} (h : Sound db s)
    (hx : s.sys.txns.get k = some x) (hc : (s.client k).call = .inserting auto requests snap)
    (hs : s.insertNext k x = some s') : Sound db s' := by
  have hcall := h.calls k
  rw [view_of_get hx, hx, hc] at hcall
  rw [Submitting.insertNext] at hs
  split at hs
  · rename_i e left inserted hst
    obtain ⟨y, hy, rfl⟩ := Option.map_eq_some_iff.mp hs
    obtain ⟨new, hnew, hg⟩ := Txn.insertNext_gains hy
    obtain ⟨hsnap, x', done, rest, ids, hx', hst', hreq, hdone⟩ := hcall
    cases hx'
    rw [hst] at hst'
    injection hst' with _ hrest _
    obtain ⟨r, rest, rfl, rfl, rfl⟩ := List.map_eq_cons_iff.mp hrest.symm
    obtain ⟨⟨ids', hst'⟩, hkeeps, hstored, hadds⟩ :=
      (h.adds k x hx).insertNext (Option.some_ne_none _) hy
    have hlocks : y.locks = new ++ s.sys.held k := by rw [hnew, Sys.held_of_get hx]
    refine h.put hlocks (fun l hl => Sys.free_of_grant (hg l hl)) hadds ?_
    rw [hc]
    refine ⟨fun id p hp => hkeeps id p (hsnap id p hp), y, done ++ [r], rest, ids', rfl, hst', ?_,
      fun r' hr' => ?_⟩
    · rw [hreq, List.append_assoc]
      rfl
    · rcases List.mem_append.mp hr' with hr' | hr'
      · obtain ⟨p, hp⟩ := Option.ne_none_iff_exists'.mp (hdone r' hr')
        rw [hkeeps _ _ hp]
        nofun
      · cases List.mem_singleton.mp hr'
        exact hstored
  · cases hs

lemma Sound.insertEnd {auto : Bool} {requests : List CallRequest} {snap : Db} (h : Sound db s)
    (hx : s.sys.txns.get k = some x) (hc : (s.client k).call = .inserting auto requests snap)
    (hs : s.insertEnd k x auto requests snap = some s') : Sound db s' := by
  have hcall := h.calls k
  rw [view_of_get hx, hx, hc] at hcall
  rw [Submitting.insertEnd] at hs
  split at hs
  · rename_i inserted hst
    obtain ⟨y, hy, rfl⟩ := Option.map_eq_some_iff.mp hs
    obtain ⟨new, hnew, hg⟩ := Txn.insertEnd_gains hy
    have hd : y.delta = x.delta := by
      rw [Txn.insertEnd] at hy
      split_ifs at hy <;> cases hy
      · rfl
      · exact foldl_lock_delta _ x
    have hview : y.view s.sys.committed = x.view s.sys.committed := by rw [Txn.view, Txn.view, hd]
    have hadds : Adds s.sys.committed y (s.client k).inserted :=
      (h.adds k x hx).mono hd fun r => (Txn.insertEnd_gains hy).owns
    have hlocks : y.locks = new ++ s.sys.held k := by rw [hnew, Sys.held_of_get hx]
    have hfree : ∀ l ∈ new, Free s.sys.held k l := fun l hl => Sys.free_of_grant (hg l hl)
    obtain ⟨hsnap, x', done, rest, ids, hx', hst', hreq, hdone⟩ := hcall
    cases hx'
    rw [hst] at hst'
    injection hst' with _ hrest _
    rw [List.map_eq_nil_iff.mp hrest.symm, List.append_nil] at hreq
    subst hreq
    have hrows : ∀ t : Option Txn, Call.Holds (y.view s.sys.committed) t
        (.reading requests (returnedRows (y.view s.sys.committed) snap requests inserted)) := by
      rw [hview]
      exact fun t => ⟨hdone, fun e he => mem_returnedRows hsnap he⟩
    split
    · exact h.fail hlocks hfree hadds (Or.inl rfl)
    · cases auto with
      | true => exact h.commit hadds (h.owned hx) (hrows none)
      | false =>
        exact h.put hlocks hfree (hadds.mono rfl fun _ ho => ho) (hrows _)
  · cases hs

lemma Sound.step {a : ClientAction} (h : Sound db s) (hs : s.step k a = some s') : Sound db s' := by
  have hcall := h.calls k
  -- a call that is over does not depend on the transaction
  have hover : (s.client k).call.running = false → ∀ t, (s.client k).call.Holds (s.view k) t := by
    intro hr t
    refine hcall.of_not_inserting fun auto requests snap hc => ?_
    rw [hc] at hr
    cases hr
  cases a with
  | begin =>
    rw [Submitting.step, Option.ite_none_left_eq_some, not_or, not_not, Bool.not_eq_true] at hs
    obtain ⟨⟨hnone, hrun⟩, hs⟩ := hs
    cases hs
    have hheld : s.sys.held k = [] := by
      rw [Sys.held, hnone]
      rfl
    refine h.replace hheld.symm (.empty _) ?_
    rw [Txn.view_empty rfl, ← view_of_none hnone]
    exact hover hrun _
  | submitCalls requests => exact h.submitCalls hs
  | insertNext =>
    rw [Submitting.step] at hs
    split at hs
    · rename_i hc
      obtain ⟨x, hx, hs⟩ := Option.bind_eq_some_iff.mp hs
      exact h.insertNext hx hc hs
    · cases hs
  | insertEnd =>
    rw [Submitting.step] at hs
    split at hs
    · rename_i hc
      obtain ⟨x, hx, hs⟩ := Option.bind_eq_some_iff.mp hs
      exact h.insertEnd hx hc hs
    · cases hs
  | refuse =>
    rw [Submitting.step] at hs
    split at hs
    · obtain ⟨x, hx, rfl⟩ := Option.map_eq_some_iff.mp hs
      have hlocks : (x.enter .failed).locks = [] ++ s.sys.held k := (Sys.held_of_get hx).symm
      exact h.fail hlocks (fun l hl => absurd hl List.not_mem_nil)
        ((h.adds k x hx).mono rfl fun _ ho => ho) (Or.inr rfl)
    · cases hs
  | finish =>
    rw [Submitting.step] at hs
    split at hs
    · rename_i hc
      cases hs
      rw [hc] at hcall
      exact h.answer (finishCalls_holds hcall)
    · cases hs
  | commit =>
    obtain ⟨x, hx, hs⟩ := Option.bind_eq_some_iff.mp hs
    split at hs
    · rw [Option.ite_none_left_eq_some, Bool.not_eq_true] at hs
      obtain ⟨hrun, hs⟩ := hs
      cases hs
      exact h.commit (h.adds k x hx) (h.owned hx) (view_of_get hx ▸ hover hrun none)
    · cases hs
  | rollback =>
    rw [Submitting.step, Option.ite_none_left_eq_some] at hs
    obtain ⟨-, hs⟩ := hs
    cases hs
    exact h.discard trivial

lemma Sound.run {as : List (ℕ × ClientAction)} (h : Sound db s) (hr : s.run as = some s') :
    Sound db s' := by
  induction as generalizing s with
  | nil =>
    cases hr
    exact h
  | cons e as ih =>
    obtain ⟨k, a⟩ := e
    obtain ⟨s₁, hs, hr⟩ := Option.bind_eq_some_iff.mp hr
    exact ih (h.step hs) hr

/-- In every run of clients, each row has one creator, and every answer is about the stored rows. -/
theorem submit_calls_idempotent {as : List (ℕ × ClientAction)}
    (hr : run { sys := { committed := db } } as = some s) :
    OneCreator db s ∧ ∀ k, (s.client k).call.Answered (s.view k) := by
  have h := (Sound.start db).run hr
  refine ⟨h.creator, fun k => ?_⟩
  have hcall := h.calls k
  cases hc : (s.client k).call with
  | idle | inserting | reading => trivial
  | returned | raised =>
    rw [hc] at hcall
    exact hcall

open Sys (rootCall)

/-- The first client's rows are stored while the statement of the second one runs. -/
def overlapping : List (ℕ × ClientAction) :=
  [(0, .begin), (0, .submitCalls [rootCall]), (0, .insertNext), (0, .insertEnd),
    (1, .submitCalls [rootCall]), (0, .finish), (0, .commit), (1, .insertNext), (1, .insertEnd),
    (1, .finish)]

lemma overlapping_runs : (run {} overlapping).isSome = true := by decide +kernel

theorem submit_calls_idempotent_overlapping :
    OneCreator {} ((run {} overlapping).get overlapping_runs) ∧
      ∀ k, (((run {} overlapping).get overlapping_runs).client k).call.Answered
        (((run {} overlapping).get overlapping_runs).view k) :=
  submit_calls_idempotent (Option.some_get overlapping_runs).symm

example : (((run {} overlapping).get overlapping_runs).client 1).call =
    .returned [rootCall] [("root", rootCall.insert.promise)] := rfl

end Submitting

end Reaper.Store
