import Reaper.Store.Batches
import Reaper.Tasks.Submissions

/-! Concurrent submits of one execution, sent in batches. Each caller gets what a batch of its own
request would have returned, and the rows are those of the requests one by one. -/

namespace Reaper.Tasks.Submissions

open Reaper.Library Reaper.Store

variable {σ ε R : Type}

section Calls

variable {jsonb : Json → Bool} {db : Db} {x y : Txn} {requests : List CallRequest}

lemma finishCalls_length {rows records : List (Id × Promise)}
    (h : finishCalls db requests rows = .ok records) : records.length = requests.length := by
  rw [finishCalls] at h
  dsimp only at h
  split at h
  · cases h
  · next hnone =>
    split at h
    · cases h
    · cases h
      have hfound := missingIds_eq_nil.mp hnone
      rw [List.filterMap_length_eq_length.mpr, requestIds, List.length_map]
      intro id hid
      rw [Option.isSome_map]
      exact Option.isSome_iff_ne_none.mpr (hfound id hid)

lemma runCalls_length {snap : Db} {records : List (Id × Promise)}
    (h : runCalls jsonb db snap x requests = some (y, .ok records)) : records.length = requests.length := by
  rw [runCalls] at h
  split_ifs at h
  · cases h
  · obtain ⟨z, -, h⟩ := Option.bind_eq_some_iff.mp h
    split at h
    · obtain ⟨w, -, h⟩ := Option.map_eq_some_iff.mp h
      split at h
      · cases h
      · have hread := (Prod.mk.inj h).2
        rw [readCalls] at hread
        split_ifs at hread
        exact finishCalls_length hread
    · cases h

lemma submitCalls_length {records : List (Id × Promise)}
    (h : submitCalls jsonb db x requests = some (y, .ok records)) : records.length = requests.length := by
  rw [submitCalls] at h
  split_ifs at h with hnil
  · cases h
    rw [hnil]
    rfl
  · split at h
    · cases h
    · split at h
      · cases h
      · obtain ⟨z, -, h⟩ := Option.bind_eq_some_iff.mp h
        exact runCalls_length h

def sendCalls (jsonb : Json → Bool) (db : Db) : SubmitCalls Txn SubmitError (Id × Promise) := fun x requests =>
  match h : submitCalls jsonb db x requests with
  | none => none
  | some (y, .error error) => some (y, .error error)
  | some (y, .ok records) => some (y, .ok ⟨records, submitCalls_length h⟩)

lemma sendCalls_ok {records : List (Id × Promise)}
    (h : submitCalls jsonb db x requests = some (y, .ok records)) :
    ∃ hlen, sendCalls jsonb db x requests = some (y, .ok ⟨records, hlen⟩) := by
  refine ⟨submitCalls_length h, ?_⟩
  rw [sendCalls]
  split
  · next h' => cases h.symm.trans h'
  · next h' => cases h.symm.trans h'
  · next h' =>
    cases h.symm.trans h'
    rfl

structure Fit (jsonb : Json → Bool) (db : Db) (x : Txn) (requests : List CallRequest) : Prop where
  distinct : (requestIds requests).Nodup
  taken : ∀ r ∈ requests, r.Takes jsonb (x.view db)
  readable : ∀ r ∈ requests, (recordOf (x.view db) r).Readable
  roots : ∀ r ∈ requests, rootStored (x.view db) r.insert.promise = true
  keys : ∀ r ∈ requests, ∀ p, (x.view db).promises.get r.id = some p →
    p.idempotencyKey = r.idempotencyKey

lemma Fit.sublist {requests' : List CallRequest} (h : Fit jsonb db x requests)
    (hs : requests'.Sublist requests) : Fit jsonb db x requests' where
  distinct := h.distinct.sublist (hs.map _)
  taken := fun r hr => h.taken r (hs.subset hr)
  readable := fun r hr => h.readable r (hs.subset hr)
  roots := fun r hr => h.roots r (hs.subset hr)
  keys := fun r hr => h.keys r (hs.subset hr)

def answerOf (db : Db) (r : CallRequest) : Id × Promise := (r.id, recordOf db r)

lemma records_eq {view : Db} {records : List (Id × Promise)}
    (h : Call.Answered view (.returned requests records))
    (hrow : ∀ r ∈ requests, view.promises.get r.id = some (recordOf db r)) :
    records = requests.map (answerOf db) := by
  change List.Forall₂ _ requests records at h
  induction h with
  | nil => rfl
  | @cons r e requests records hr hrest ih =>
    obtain ⟨hid, hget, -⟩ := hr
    have he : e = answerOf db r :=
      Prod.ext hid (Option.some_inj.mp (hget.symm.trans (hrow r List.mem_cons_self)))
    rw [List.map_cons, ← he, ← ih fun r' hr' => hrow r' (List.mem_cons_of_mem r hr')]

lemma submitCalls_fit {task : ClaimedTask} (hx : x.stage = .holding task) (h : Fit jsonb db x requests) :
    ∃ z, submitCalls jsonb db x requests = some (z, .ok (requests.map (answerOf (x.view db)))) ∧
      z.delta = stores db x.delta requests ∧ z.stage = .holding task := by
  by_cases hne : requests = []
  · subst hne
    exact ⟨x, by rw [submitCalls, if_pos rfl]; rfl, rfl, hx⟩
  obtain ⟨z, r, hz, hend⟩ := @submitCalls_statement jsonb db x (some task) _ (Or.inr ⟨task, hx, rfl⟩) hne
    h.distinct
  cases hend with
  | refused hst hdata =>
    obtain ⟨r, hr, hdata⟩ := hdata
    exact absurd (h.taken r hr) hdata
  | foreignKey hst hroots => exact absurd h.roots hroots
  | stored rows htaken hd hst hreads hrecords =>
    have hreadable : ∀ e ∈ rows, e.2.Readable := by
      intro e he
      obtain ⟨r, hr, rfl⟩ := hrecords e he
      exact h.readable r hr
    have hrow : ∀ r ∈ requests, (z.view db).promises.get r.id = some (recordOf (x.view db) r) := by
      intro r hr
      rw [Txn.view, hd]
      exact stores_record h.distinct hr
    have hkey : ∀ r ∈ requests, (recordOf (x.view db) r).idempotencyKey = r.idempotencyKey := by
      intro r hr
      rw [recordOf]
      cases hg : (x.view db).promises.get r.id with
      | none => rfl
      | some p => exact h.keys r hr p hg
    have hanswer := finishCalls_holds hreads
    refine ⟨z, ?_, hd, hst⟩
    rw [hz, readCalls, if_pos hreadable]
    cases hf : finishCalls (z.view db) requests rows with
    | error error =>
      rw [hf] at hanswer
      obtain ⟨id, rfl⟩ | ⟨id, rfl⟩ := finishCalls_error hf
      · obtain ⟨r, hr, rfl, p, hp, hkeys⟩ := hanswer h.distinct
        cases (hrow r hr).symm.trans hp
        exact absurd (hkey r hr) hkeys
      · cases hanswer
    | ok records =>
      rw [hf] at hanswer
      rw [records_eq hanswer hrow]

end Calls

def Event.coalesces : Event σ → Bool
  | .submit _ | .resume _ | .enter | .answer => true
  | _ => false

def Event.call : Event σ → Option CallRequest
  | .submit params => some params
  | _ => none

def calls (es : List (Event σ)) : List CallRequest := es.filterMap Event.call

def numbered (requests : List CallRequest) : List Submission :=
  requests.zipIdx.map fun e => ⟨e.1, e.2⟩

lemma numbered_params (requests : List CallRequest) :
    (numbered requests).map Submission.params = requests := by
  rw [numbered, List.map_map]
  exact List.zipIdx_map_fst 0 requests

lemma numbered_futures (requests : List CallRequest) :
    ((numbered requests).map Submission.future).Nodup := by
  have h : (numbered requests).map Submission.future = List.range' 0 requests.length := by
    rw [numbered, List.map_map]
    exact List.zipIdx_map_snd 0 requests
  rw [h]
  exact List.nodup_range'

lemma numbered_concat (requests : List CallRequest) (params : CallRequest) :
    numbered (requests ++ [params]) = numbered requests ++ [⟨params, requests.length⟩] := by
  simp [numbered, List.zipIdx_append]

def TaskExecution.queued (s : TaskExecution σ ε R) : List (List Submission) :=
  s.line.map Operation.batch

def TaskExecution.work (s : TaskExecution σ ε R) : ℕ :=
  3 * s.flushes.countP (fun flush => decide (flush = .sleeping false)) + 2 * s.waiters.length +
    s.lock.toList.length

section Line

variable {s s' : TaskExecution σ ε R} {o : Operation}

lemma hold_open (hf : s.finished = false) : s.hold o = { s with lock := some o } := by
  cases o with
  | flush task batch => rw [TaskExecution.hold, if_neg (by simp [hf])]
  | other n => rfl

lemma acquire_open (hf : s.finished = false) : ∃ lock waiters,
    s.acquire o = { s with lock := lock, waiters := waiters } ∧
      lock.toList ++ waiters = s.line ++ [o] ∧
      2 * waiters.length + lock.toList.length ≤ 2 * s.waiters.length + s.lock.toList.length + 2 := by
  rw [TaskExecution.acquire]
  split_ifs with hfree
  · refine ⟨some o, s.waiters, hold_open hf, ?_, ?_⟩
    · rw [TaskExecution.line, hfree.1, hfree.2]
      rfl
    · simp [hfree.1]
  · refine ⟨s.lock, s.waiters ++ [o], rfl, ?_, ?_⟩
    · rw [TaskExecution.line, List.append_assoc]
    · simp
      omega

end Line

section Settle

variable {futures : List (Future ε R)} {batch : List Submission} {g : Submission → Future ε R}

lemma settleAll_other {outcomes : List (Future ε R)} {i : ℕ}
    (hi : i ∉ batch.map Submission.future) : (settleAll futures batch outcomes)[i]? = futures[i]? := by
  induction batch generalizing futures outcomes with
  | nil => rfl
  | cons e batch ih =>
    cases outcomes with
    | nil => rfl
    | cons f outcomes =>
      rw [List.map_cons, List.mem_cons, not_or] at hi
      exact (ih hi.2).trans (List.getElem?_modify_ne _ _ (Ne.symm hi.1))

lemma settleAll_self (hn : (batch.map Submission.future).Nodup) {e : Submission} (he : e ∈ batch)
    (hp : futures[e.future]? = some .pending) :
    (settleAll futures batch (batch.map g))[e.future]? = some (g e) := by
  induction batch generalizing futures with
  | nil => cases he
  | cons e' batch ih =>
    rw [List.map_cons, List.nodup_cons] at hn
    obtain rfl | he := List.mem_cons.mp he
    · refine (settleAll_other hn.1).trans ?_
      rw [List.getElem?_modify_eq, hp]
      rfl
    · have hne : e'.future ≠ e.future := fun heq => hn.1 (heq ▸ List.mem_map_of_mem he)
      exact ih hn.2 he ((List.getElem?_modify_ne _ _ hne).trans hp)

end Settle

def submitInOrder (jsonb : Json → Bool) (db : Db) : Txn → List CallRequest → Option Txn
  | x, [] => some x
  | x, r :: rs => (submitCalls jsonb db x [r]).bind fun e => submitInOrder jsonb db e.1 rs

section Order

variable {jsonb : Json → Bool} {db : Db} {x y : Txn} {task : ClaimedTask} {requests : List CallRequest}

lemma stores_other {before : List CallRequest} (hy : y.delta = stores db x.delta before)
    (hn : (requestIds before).Nodup) {id : Id} (hid : id ∉ requestIds before) :
    (y.view db).promises.get id = (x.view db).promises.get id := by
  rw [Txn.view, hy]
  refine (patch_inserts (requests_nodup hn)).2.2 fun e he heq => hid ?_
  obtain ⟨r, hr, rfl⟩ := List.mem_map.mp he
  exact heq ▸ List.mem_map_of_mem hr

lemma recordOf_stores {before : List CallRequest} (hy : y.delta = stores db x.delta before)
    (hn : (requestIds before).Nodup) {r : CallRequest} (hr : r.id ∉ requestIds before) :
    recordOf (y.view db) r = recordOf (x.view db) r := by
  rw [recordOf, recordOf, stores_other hy hn hr]

lemma Fit.after {before : List CallRequest} (h : Fit jsonb db x (before ++ requests))
    (hy : y.delta = stores db x.delta before) : Fit jsonb db y requests := by
  have hn : (requestIds before ++ requestIds requests).Nodup := by
    rw [requestIds, requestIds, ← List.map_append]
    exact h.distinct
  obtain ⟨hnb, hnr, hdisjoint⟩ := List.nodup_append.mp hn
  have hnew : ∀ r ∈ requests, r.id ∉ requestIds before := fun r hr hid =>
    hdisjoint _ hid _ (List.mem_map_of_mem hr) rfl
  have hsame : ∀ r ∈ requests, (y.view db).promises.get r.id = (x.view db).promises.get r.id :=
    fun r hr => stores_other hy hnb (hnew r hr)
  refine ⟨hnr, fun r hr => ?_, fun r hr => ?_, fun r hr => ?_, fun r hr p hp => ?_⟩
  · refine (h.taken r (List.mem_append_right _ hr)).mono fun hs => ?_
    rwa [hsame r hr]
  · rw [recordOf_stores hy hnb (hnew r hr)]
    exact h.readable r (List.mem_append_right _ hr)
  · rw [Txn.view, hy]
    exact rootStored_keeps (stores_keeps hnb) (h.roots r (List.mem_append_right _ hr))
  · exact h.keys r (List.mem_append_right _ hr) p (hsame r hr ▸ hp)

lemma submitInOrder_fit (hx : x.stage = .holding task) (h : Fit jsonb db x requests) :
    ∃ y, submitInOrder jsonb db x requests = some y ∧ y.delta = stores db x.delta requests := by
  induction requests generalizing x with
  | nil => exact ⟨x, rfl, rfl⟩
  | cons r rs ih =>
    obtain ⟨y, hy, hd, hst⟩ := submitCalls_fit hx
      (h.sublist (List.singleton_sublist.mpr List.mem_cons_self) : Fit jsonb db x [r])
    obtain ⟨z, hz, hdz⟩ := ih hst (Fit.after (h : Fit jsonb db x ([r] ++ rs)) hd)
    refine ⟨z, ?_, ?_⟩
    · rw [submitInOrder, hy]
      exact hz
    · rw [hdz, hd]
      rfl

end Order

structure Coalesced (db : Db) (x : Txn) (requests : List CallRequest)
    (s : TaskExecution Txn SubmitError (Id × Promise)) : Prop where
  opened : s.finished = false
  idle : s.canceller = .idle
  order : s.sent.flatten ++ s.queued.flatten ++ s.pendingSubmissions = numbered requests
  calls : s.futures.length = requests.length
  awaited : ∀ e ∈ s.queued.flatten ++ s.pendingSubmissions, s.futures[e.future]? = some .pending
  answered : ∀ e ∈ s.sent.flatten,
    s.futures[e.future]? = some (.result (answerOf (x.view db) e.params))
  stored : s.connection.delta = stores db x.delta (s.sent.flatten.map Submission.params)
  holding : s.connection.stage = x.stage
  tracked : s.pendingSubmissions ≠ [] → s.submissionTask ≠ none
  flushes : ∀ o ∈ s.line, o.task ≠ none

section Coalesced

variable {jsonb : Json → Bool} {db : Db} {x : Txn} {task : ClaimedTask} {requests : List CallRequest}
  {s s' : TaskExecution Txn SubmitError (Id × Promise)} {e : Event Txn} {params : CallRequest}

lemma start_coalesced : Coalesced db x [] (TaskExecution.start x) := by
  constructor <;> simp [TaskExecution.start, TaskExecution.queued, TaskExecution.line, numbered, stores]

lemma Coalesced.sleeping (h : Coalesced db x requests s) (hk : Kept s s.line) {t : ℕ}
    (ht : s.submissionTask = some t) : s.flushes[t]? = some (.sleeping false) := by
  obtain ⟨-, hf⟩ | ⟨hw, -⟩ := hk.tracked t ht
  · exact hf
  · cases h.idle.symm.trans hw

lemma Coalesced.submit (h : Coalesced db x requests s) (hs : s.submit params = some s') :
    Coalesced db x (requests ++ [params]) s' := by
  rw [TaskExecution.submit] at hs
  split_ifs at hs
  have horder : s.sent.flatten ++ s.queued.flatten ++
      (s.pendingSubmissions ++ [⟨params, s.futures.length⟩]) = numbered (requests ++ [params]) := by
    rw [numbered_concat, ← h.order, ← h.calls, List.append_assoc _ _ [_]]
  have hcalls : (s.futures ++ [Future.pending]).length = (requests ++ [params]).length := by
    rw [List.length_append, List.length_append, h.calls]
    rfl
  have hold : ∀ {i : ℕ} {f}, s.futures[i]? = some f → (s.futures ++ [Future.pending])[i]? = some f :=
    fun hf => (List.getElem?_append_left (List.getElem?_eq_some_iff.mp hf).1).trans hf
  have hawaited : ∀ e ∈ s.queued.flatten ++
      (s.pendingSubmissions ++ [Submission.mk params s.futures.length]),
      (s.futures ++ [Future.pending])[e.future]? = some .pending := by
    intro e he
    rw [← List.append_assoc, List.mem_append, List.mem_singleton] at he
    obtain he | rfl := he
    · exact hold (h.awaited e he)
    · exact List.getElem?_concat_length
  have hanswered := fun e he => hold (h.answered e he)
  dsimp only at hs
  split at hs
  · next hsub =>
    cases hs
    refine { h with order := horder, calls := hcalls, awaited := hawaited, answered := hanswered,
                    tracked := fun _ => ?_ }
    rw [hsub]
    exact Option.some_ne_none _
  · cases hs
    exact { h with order := horder, calls := hcalls, awaited := hawaited, answered := hanswered,
                   tracked := fun _ => Option.some_ne_none _ }

lemma Coalesced.resume (h : Coalesced db x requests s) (hk : Kept s s.line) {t : ℕ}
    (hs : s.resume t = some s') : Coalesced db x requests s' := by
  rw [TaskExecution.resume] at hs
  split at hs
  · next hf => cases hf.symm.trans (h.sleeping hk (hk.sleeping t true hf))
  · cases hs
    obtain ⟨lock, waiters, ha, hline, -⟩ := acquire_open (o := .flush t s.pendingSubmissions)
      (s := { s with
        flushes := s.flushes.set t .collected
        pendingSubmissions := []
        submissionTask := none }) h.opened
    have hqueued : ((lock.toList ++ waiters).map Operation.batch).flatten =
        s.queued.flatten ++ s.pendingSubmissions := by
      rw [hline, List.map_append, List.flatten_append]
      exact congrArg _ (List.append_nil _)
    rw [ha]
    refine { h with order := ?_, awaited := ?_, tracked := fun hne => absurd rfl hne, flushes := ?_ }
    · rw [TaskExecution.queued, TaskExecution.line, hqueued, List.append_nil, ← List.append_assoc]
      exact h.order
    · rw [TaskExecution.queued, TaskExecution.line, hqueued, List.append_nil]
      exact h.awaited
    · intro o ho
      rw [TaskExecution.line, hline] at ho
      obtain ho | ho := List.mem_append.mp ho
      · exact h.flushes o ho
      · rw [List.mem_singleton.mp ho]
        exact Option.some_ne_none t
  · cases hs

lemma Coalesced.enter (h : Coalesced db x requests s) (hs : s.enter = some s') :
    Coalesced db x requests s' := by
  rw [TaskExecution.enter] at hs
  split at hs
  · next o rest hl hw =>
    cases hs
    rw [hold_open (s := { s with waiters := rest }) h.opened]
    have hline : s.line = (some o).toList ++ rest := by
      rw [TaskExecution.line, hl, hw]
      rfl
    have horder := h.order
    have hawaited := h.awaited
    have hflushes := h.flushes
    rw [TaskExecution.queued, hline] at horder hawaited
    rw [hline] at hflushes
    exact { h with order := horder, awaited := hawaited, flushes := hflushes }
  · cases hs

lemma Coalesced.answer (h : Coalesced db x requests s) (hx : x.stage = .holding task)
    (hfit : Fit jsonb db x requests) (hs : s.answer (sendCalls jsonb db) = some s') :
    Coalesced db x requests s' := by
  rw [TaskExecution.answer] at hs
  split at hs
  · next t batch hl =>
    have hqueued : s.queued = batch :: s.waiters.map Operation.batch := by
      rw [TaskExecution.queued, TaskExecution.line, hl]
      rfl
    have horder := h.order
    have hawaited := h.awaited
    rw [hqueued, List.flatten_cons] at horder hawaited
    have hrequests : requests = s.sent.flatten.map Submission.params ++ batch.map Submission.params ++
        ((s.waiters.map Operation.batch).flatten ++ s.pendingSubmissions).map Submission.params := by
      rw [← numbered_params requests, ← horder]
      simp
    have hfit' : Fit jsonb db x (s.sent.flatten.map Submission.params ++ batch.map Submission.params) :=
      hfit.sublist (hrequests ▸ List.sublist_append_left _ _)
    have hnodup := numbered_futures requests
    rw [← horder, List.append_assoc, List.append_assoc, List.map_append, List.map_append,
      List.nodup_append, List.nodup_append] at hnodup
    obtain ⟨-, ⟨hbatch, -, hlater⟩, hearlier⟩ := hnodup
    obtain ⟨y, hy, hd, hst⟩ := submitCalls_fit (h.holding.trans hx) (hfit'.after h.stored)
    obtain ⟨hlen, hsend⟩ := sendCalls_ok hy
    simp only [hsend, Option.map_some, Option.some_inj] at hs
    subst hs
    have hsent : (s.sent ++ [batch]).flatten = s.sent.flatten ++ batch := by simp
    have hoverall : ∀ e ∈ batch, answerOf (s.connection.view db) e.params =
        answerOf (x.view db) e.params := by
      intro e he
      have hids := hfit'.distinct
      rw [requestIds, List.map_append, List.nodup_append] at hids
      have hnew : e.params.id ∉ requestIds (s.sent.flatten.map Submission.params) := fun hmem =>
        hids.2.2 _ hmem _ (List.mem_map_of_mem (List.mem_map_of_mem he)) rfl
      rw [answerOf, answerOf, recordOf_stores h.stored hids.1 hnew]
    have houtcomes : (TaskExecution.outcomes batch (.ok ⟨_, hlen⟩ : Except SubmitError _) :
        List (Future SubmitError (Id × Promise))) =
        batch.map fun e => .result (answerOf (x.view db) e.params) := by
      change List.map _ (List.map _ (batch.map Submission.params)) = _
      rw [List.map_map, List.map_map]
      exact List.map_congr_left fun e he => congrArg Future.result (hoverall e he)
    refine ⟨h.opened, h.idle, ?_, ?_, fun e he => ?_, fun e he => ?_, ?_, ?_, h.tracked, ?_⟩
    · rw [hsent, ← horder, TaskExecution.queued, TaskExecution.line]
      simp
    · exact settleAll_length.trans h.calls
    · rw [settleAll_other]
      · exact hawaited e (by
          rw [List.append_assoc]
          exact List.mem_append_right _ he)
      · intro hmem
        exact hlater _ hmem _ (List.mem_map_of_mem he) rfl
    · rw [houtcomes]
      rw [hsent] at he
      obtain he | he := List.mem_append.mp he
      · rw [settleAll_other]
        · exact h.answered e he
        · intro hmem
          exact hearlier _ (List.mem_map_of_mem he) _ (List.mem_append_left _ hmem) rfl
      · exact settleAll_self hbatch he (hawaited e (by
          rw [List.append_assoc]
          exact List.mem_append_left _ he))
    · rw [hsent, List.map_append]
      change y.delta = _
      rw [hd, h.stored, stores, stores, stores, List.map_append, List.foldl_append]
    · exact hst.trans hx.symm
    · exact fun o ho => h.flushes o (List.mem_append_right _ ho)
  · cases hs

lemma step_coalesced (h : Coalesced db x requests s) (hk : Kept s s.line)
    (hx : x.stage = .holding task) (he : e.coalesces = true)
    (hfit : Fit jsonb db x (requests ++ e.call.toList)) (hs : s.step (sendCalls jsonb db) e = some s') :
    Coalesced db x (requests ++ e.call.toList) s' := by
  cases e with
  | submit params => exact h.submit hs
  | resume t =>
    rw [show (Event.resume t : Event Txn).call.toList = [] from rfl, List.append_nil]
    exact h.resume hk hs
  | enter =>
    rw [show (Event.enter : Event Txn).call.toList = [] from rfl, List.append_nil]
    exact h.enter hs
  | answer =>
    rw [show (Event.answer : Event Txn).call.toList = [] from rfl, List.append_nil] at hfit ⊢
    exact h.answer hx hfit hs
  | _ => cases he

lemma run_coalesced {es : List (Event Txn)} (h : Coalesced db x requests s) (hk : Kept s s.line)
    (hx : x.stage = .holding task) (hes : ∀ e ∈ es, e.coalesces = true)
    (hfit : Fit jsonb db x (requests ++ calls es)) (hr : s.run (sendCalls jsonb db) es = some s') :
    Coalesced db x (requests ++ calls es) s' ∧ Kept s' s'.line := by
  induction es generalizing s requests with
  | nil =>
    cases hr
    exact ⟨(List.append_nil requests).symm ▸ h, hk⟩
  | cons e es ih =>
    obtain ⟨u, hs, hr⟩ := Option.bind_eq_some_iff.mp hr
    have hcalls : requests ++ calls (e :: es) = requests ++ e.call.toList ++ calls es := by
      rw [calls, List.filterMap_cons, List.append_assoc]
      cases e.call <;> rfl
    rw [hcalls] at hfit ⊢
    exact ih (step_coalesced h hk hx (hes e List.mem_cons_self)
      (hfit.sublist (List.sublist_append_left _ _)) hs) (step_kept hk hs)
      (fun e' he' => hes e' (List.mem_cons_of_mem e he')) hfit hr

end Coalesced

def Event.internal (e : Event σ) : Bool := e.coalesces && e.call.isNone

section Progress

variable {jsonb : Json → Bool} {db : Db} {x : Txn} {task : ClaimedTask} {requests : List CallRequest}
  {s s' : TaskExecution Txn SubmitError (Id × Promise)} {e : Event Txn} {es : List (Event Txn)}

lemma sendCalls_total (hx : x.stage = .holding task) : sendCalls jsonb db x requests ≠ none := by
  have htotal : ∃ e, submitCalls jsonb db x requests = some e := by
    by_cases hne : requests = []
    · exact ⟨_, by rw [submitCalls, if_pos hne]⟩
    · by_cases hn : (requestIds requests).Nodup
      · obtain ⟨z, r, h, -⟩ := @submitCalls_statement jsonb db x _ _ (Or.inr ⟨task, hx, rfl⟩) hne hn
        exact ⟨_, h⟩
      · obtain ⟨id, h⟩ := @submitCalls_duplicate jsonb db x _ hn
        exact ⟨_, h⟩
  obtain ⟨e, he⟩ := htotal
  rw [sendCalls]
  split
  · next hnone => cases he.symm.trans hnone
  · exact Option.some_ne_none _
  · exact Option.some_ne_none _

lemma step_work (h : Coalesced db x requests s) (hk : Kept s s.line) (he : e.internal = true)
    (hs : s.step (sendCalls jsonb db) e = some s') : s'.work < s.work := by
  cases e with
  | resume t =>
    change s.resume t = some s' at hs
    rw [TaskExecution.resume] at hs
    split at hs
    · next hf => cases hf.symm.trans (h.sleeping hk (hk.sleeping t true hf))
    · next hf =>
      cases hs
      obtain ⟨lock, waiters, ha, -, hlen⟩ := acquire_open (o := .flush t s.pendingSubmissions)
        (s := { s with
          flushes := s.flushes.set t .collected
          pendingSubmissions := []
          submissionTask := none }) h.opened
      obtain ⟨hlt, hget⟩ := List.getElem?_eq_some_iff.mp hf
      have hpos : 0 < s.flushes.countP (fun flush => decide (flush = .sleeping false)) :=
        List.countP_pos_iff.mpr ⟨_, List.getElem_mem hlt, by rw [hget, decide_eq_true rfl]⟩
      rw [ha, TaskExecution.work, TaskExecution.work]
      simp only [List.countP_set hlt, hget] at hlen ⊢
      simp
      omega
    · cases hs
  | enter =>
    change s.enter = some s' at hs
    rw [TaskExecution.enter] at hs
    split at hs
    · next o rest hl hw =>
      cases hs
      rw [hold_open (s := { s with waiters := rest }) h.opened]
      simp [TaskExecution.work, hl, hw]
      omega
    · cases hs
  | answer =>
    change s.answer (sendCalls jsonb db) = some s' at hs
    rw [TaskExecution.answer] at hs
    split at hs
    · next t batch hl =>
      obtain ⟨r, -, rfl⟩ := Option.map_eq_some_iff.mp hs
      obtain ⟨hlt, hget⟩ := List.getElem?_eq_some_iff.mp ((hk.collected t).mpr
        (mem_collectors.mpr ⟨_, List.mem_append_left _ (Option.mem_toList.mpr hl), rfl⟩))
      simp [TaskExecution.work, hl, List.countP_set hlt, hget]
    · cases hs
  | _ => cases he

lemma stuck_sent (h : Coalesced db x requests s) (hk : Kept s s.line) (hx : x.stage = .holding task)
    (hstuck : ∀ e : Event Txn, e.internal = true → s.step (sendCalls jsonb db) e = none) :
    s.sent.flatten = numbered requests := by
  have hpending : s.pendingSubmissions = [] := by
    by_contra hne
    obtain ⟨t, ht⟩ := Option.ne_none_iff_exists'.mp (h.tracked hne)
    have hnone : s.resume t = none := hstuck (.resume t) rfl
    rw [TaskExecution.resume, h.sleeping hk ht] at hnone
    cases hnone
  have hlock : s.lock = none := by
    cases hl : s.lock with
    | none => rfl
    | some o =>
      cases o with
      | other n => exact absurd rfl (h.flushes _ (List.mem_append_left _ (Option.mem_toList.mpr hl)))
      | flush t batch =>
        have hnone : s.answer (sendCalls jsonb db) = none := hstuck .answer rfl
        rw [TaskExecution.answer, hl] at hnone
        exact absurd (Option.map_eq_none_iff.mp hnone) (sendCalls_total (h.holding.trans hx))
  have hwaiters : s.waiters = [] := by
    cases hw : s.waiters with
    | nil => rfl
    | cons o rest =>
      have hnone : s.enter = none := hstuck .enter rfl
      rw [TaskExecution.enter, hlock, hw] at hnone
      cases hnone
  have hqueued : s.queued = [] := by
    rw [TaskExecution.queued, TaskExecution.line, hlock, hwaiters]
    rfl
  have horder := h.order
  rw [hpending, hqueued] at horder
  simpa using horder

lemma run_work (h : Coalesced db x requests s) (hk : Kept s s.line) (hx : x.stage = .holding task)
    (hfit : Fit jsonb db x requests) (hes : ∀ e ∈ es, e.internal = true)
    (hr : s.run (sendCalls jsonb db) es = some s') :
    es.length ≤ s.work ∧ Coalesced db x requests s' ∧ Kept s' s'.line := by
  induction es generalizing s with
  | nil =>
    cases hr
    exact ⟨Nat.zero_le _, h, hk⟩
  | cons e es ih =>
    obtain ⟨u, hs, hr⟩ := Option.bind_eq_some_iff.mp hr
    have he := hes e List.mem_cons_self
    obtain ⟨hc, hcall⟩ : e.coalesces = true ∧ e.call = none := by
      simpa [Event.internal] using he
    have hu : Coalesced db x requests u := by
      have hstep := step_coalesced h hk hx hc (by simpa [hcall] using hfit) hs
      simpa [hcall] using hstep
    obtain ⟨hlen, hrest⟩ := ih hu (step_kept hk hs) (fun e' he' => hes e' (List.mem_cons_of_mem e he')) hr
    have hwork := step_work h hk he hs
    rw [List.length_cons]
    exact ⟨by omega, hrest⟩

end Progress

section Transparent

variable {jsonb : Json → Bool} {db : Db} {x : Txn} {task : ClaimedTask} {es : List (Event Txn)}
  {s : TaskExecution Txn SubmitError (Id × Promise)}

def holdingParent : Txn := ({} : Txn).enter (.holding
  { id := "parent", rootId := some "root", function := "work", version := 1, topic := "default",
    input := ⟨"null"⟩, depth := 1, maxFailures := 3, executionTimeoutMs := 30000, waits := [] })

def twoBatches : List (Event Txn) :=
  [.submit Sys.childCall, .resume 0, .submit Sys.rootCall, .resume 1, .answer, .enter, .answer]

lemma twoBatches_runs :
    ((TaskExecution.start holdingParent).run (sendCalls anyJson stored) twoBatches).isSome = true := by
  decide +kernel

lemma twoBatches_fit : Fit anyJson stored holdingParent (calls twoBatches) := by
  have hkeys : ∀ r ∈ calls twoBatches, ((holdingParent.view stored).promises.get r.id).all
      fun p => p.idempotencyKey = r.idempotencyKey := by decide +kernel
  refine ⟨by decide +kernel, by decide +kernel, by decide +kernel, by decide +kernel, fun r hr p hp => ?_⟩
  have hkey := hkeys r hr
  rw [hp] at hkey
  simpa using hkey

theorem refused_batch_raises {s : TaskExecution Txn SubmitError (Id × Promise)} {t : ℕ}
    {batch : List Submission} (hl : s.lock = some (.flush t batch))
    (hs : s.connection.stage = .holding task) (hn : (requestIds (batch.map Submission.params)).Nodup)
    (hf : (batch.map Submission.future).Nodup)
    (hdata : ∃ e ∈ batch, ¬ e.params.Takes jsonb (s.connection.view db)) :
    ∃ s', s.answer (sendCalls jsonb db) = some s' ∧ s'.connection.stage = .failed ∧
      ∀ e ∈ batch, s.futures[e.future]? = some .pending →
        s'.futures[e.future]? = some (.exception (.raised .refused)) := by
  have hdata' : ∃ r ∈ batch.map Submission.params, ¬ r.Takes jsonb (s.connection.view db) := by
    obtain ⟨e, he, hdata⟩ := hdata
    exact ⟨_, List.mem_map_of_mem he, hdata⟩
  have hcalls := submitCalls_refused (Or.inr ⟨task, hs, rfl⟩) hn hdata'
  have hsend : sendCalls jsonb db s.connection (batch.map Submission.params) =
      some (s.connection.enter .failed, .error .refused) := by
    rw [sendCalls]
    split
    · next h => cases hcalls.symm.trans h
    · next h =>
      cases hcalls.symm.trans h
      rfl
    · next h => cases hcalls.symm.trans h
  rw [TaskExecution.answer, hl]
  simp only [hsend, Option.map_some]
  exact ⟨_, rfl, rfl, fun e he hp => settleAll_self hf he hp⟩

def strictJson (input : Json) : Bool := input ≠ ⟨"\"\\u0000\""⟩

def refusedCall : CallRequest :=
  { Sys.sampleCall "other" (some "root") 1 (by decide) Nat.one_pos with input := ⟨"\"\\u0000\""⟩ }

def oneBatch : List (Event Txn) := [.submit Sys.childCall, .submit refusedCall, .resume 0, .answer]

lemma oneBatch_runs :
    ((TaskExecution.start holdingParent).run (sendCalls strictJson stored) oneBatch).isSome = true := by
  decide +kernel

end Transparent

end Reaper.Tasks.Submissions
