import Mathlib.Data.String.Basic
import Reaper.Library.Backlog
import Reaper.Store.Notifications

/-! PROCESS_DUE and DELETE_EXPIRED take what is oldest, up to a limit. Run often enough they leave nothing
that is due, whatever other transactions come between. -/

namespace Reaper.Store

open Reaper.Library Reaper.Library.Locks Reaper.Library.Backlog

section Queues

variable {db : Db}

instance : Std.Total DueBefore := ⟨fun a b => by
  rcases lt_trichotomy a.2.deadline.time b.2.deadline.time with h | h | h
  · exact Or.inl (Or.inl h)
  · rcases le_total a.1 b.1 with hid | hid
    · exact Or.inl (Or.inr ⟨h, hid⟩)
    · exact Or.inr (Or.inr ⟨h.symm, hid⟩)
  · exact Or.inr (Or.inl h)⟩

instance : IsTrans (Id × Promise) DueBefore := ⟨fun a b c hab hbc => by
  rcases hab with hab | ⟨hab, hid⟩ <;> rcases hbc with hbc | ⟨hbc, hid'⟩
  · exact Or.inl (hab.trans hbc)
  · exact Or.inl (hbc ▸ hab)
  · exact Or.inl (hab ▸ hbc)
  · exact Or.inr ⟨hab.trans hbc, hid.trans hid'⟩⟩

lemma DueBefore.time_le {a b : Id × Promise} (h : DueBefore a b) : a.2.deadline.time ≤ b.2.deadline.time := by
  rcases h with h | ⟨h, -⟩
  · exact h.le
  · exact h.le

def queue (db : Db) (f : Id × Promise → Bool) : List (Id × Promise) :=
  (db.promises.entries.filter f).insertionSort DueBefore

lemma mem_queue {f : Id × Promise → Bool} {e : Id × Promise} :
    e ∈ queue db f ↔ db.promises.get e.1 = some e.2 ∧ f e = true := by
  rw [queue, List.mem_insertionSort, List.mem_filter]
  exact and_congr_left fun _ => Dict.mem_entries _ _ _

lemma queue_taken {f g : Id × Promise → Bool} {t : Time} {limit : ℕ} {ids : List Id}
    (hf : ∀ e, f e = (g e && decide (e.2.deadline.time ≤ t))) (hn : ids.Nodup)
    (hids : ∀ id ∈ ids, id ∈ (queue db f).map Prod.fst)
    (htaken : ∀ id ∈ ids, id ∉ ((queue db g).map Prod.fst).take limit) :
    ids.length ≤ ((queue db f).map Prod.fst).length - limit := by
  have hsorted : (queue db g).Pairwise fun a b =>
      decide (b.2.deadline.time ≤ t) = true → decide (a.2.deadline.time ≤ t) = true := by
    refine (List.pairwise_insertionSort DueBefore _).imp fun hab hb => ?_
    rw [decide_eq_true_eq] at hb ⊢
    exact hab.time_le.trans hb
  have hcount : (queue db g).countP (fun e => e.2.deadline.time ≤ t) = (queue db f).length := by
    rw [queue, (List.perm_insertionSort DueBefore _).countP_eq, List.countP_filter, queue,
      List.length_insertionSort, List.countP_eq_length_filter]
    congr 1
    exact List.filter_congr fun e _ => by rw [hf e, Bool.and_comm]
  have hsub : ids ⊆ (((queue db g).drop limit).filter fun e => e.2.deadline.time ≤ t).map Prod.fst := by
    intro id hid
    obtain ⟨e, he, rfl⟩ := List.mem_map.mp (hids id hid)
    obtain ⟨hget, hfe⟩ := mem_queue.mp he
    rw [hf, Bool.and_eq_true] at hfe
    refine List.mem_map_of_mem (List.mem_filter.mpr ⟨?_, hfe.2⟩)
    have hmem : e ∈ (queue db g).take limit ++ (queue db g).drop limit := by
      rw [List.take_append_drop]
      exact mem_queue.mpr ⟨hget, hfe.1⟩
    refine (List.mem_append.mp hmem).resolve_left fun htake => htaken _ hid ?_
    rw [← List.map_take]
    exact List.mem_map_of_mem htake
  calc ids.length ≤ ((((queue db g).drop limit).filter fun e => e.2.deadline.time ≤ t).map Prod.fst).length :=
        (hn.subperm hsub).length_le
    _ = ((queue db g).drop limit).countP fun e => e.2.deadline.time ≤ t := by
        rw [List.length_map, List.countP_eq_length_filter]
    _ = ((queue db f).map Prod.fst).length - limit := by
        rw [countP_drop hsorted, hcount, List.length_map]

end Queues

def Act.inserts : Act → List Insert
  | .submitCalls requests => requests.map CallRequest.insert
  | .submitTimer request => [request.insert]
  | _ => []

structure Ahead (t : Time) (db : Db) (x : Txn) : Prop where
  promises : ∀ id p, x.delta.promises.get id = some (some p) → db.promises.get id = none →
    t < p.deadline.time
  inserts : ∀ e ∈ x.stage.inserts, t < e.promise.deadline.time

def Manned (db : Db) : Prop :=
  ∀ id p, db.promises.get id = some p → p.Pending → p.IsCall → db.tasks.get id ≠ none

section Steps

variable {t : Time} {db : Db} {grant : Lock Row → Bool} {x y : Txn} {a : Act}

lemma Ahead.opened : Ahead t db {} :=
  ⟨fun _ _ hp => (by cases hp), fun _ he => (by cases he)⟩

lemma Ahead.step (h : Ahead t db x) (ha : ∀ e ∈ a.inserts, t < e.promise.deadline.time)
    (hy : Txn.Step db grant x a y) : Ahead t db y := by
  refine ⟨fun id p hp hnone => ?_, fun e he => ?_⟩
  · cases hy.writes with
    | none hd => exact h.promises id p (hd ▸ hp) hnone
    | insert task e left inserted hs hn hw hps ht =>
      rw [hps] at hp
      split_ifs at hp
      · cases hp
        exact h.inserts e (by rw [hs]; exact List.mem_cons_self)
      · exact h.promises id p hp hnone
    | task j u u' ht hps hw hd hle => exact h.promises id p (hps ▸ hp) hnone
    | suspend task snap awaited found u u' hs ht hps hw hd => exact h.promises id p (hps ▸ hp) hnone
    | settle snap stamp settled removed hs ht hw hps =>
      rcases hps id with hsame | ⟨-, q, o, hq, -, hset⟩
      · exact h.promises id p (hsame ▸ hp) hnone
      · rw [hset] at hp
        cases hp
        rw [Txn.view, Db.patch_promises, hnone] at hq
        cases hd : x.delta.promises.get id with
        | none =>
          rw [hd] at hq
          cases hq
        | some v =>
          rw [hd] at hq
          exact h.promises id q (by rw [hd]; exact congrArg some hq) hnone
    | delete snap stamp settled removed kept hs hy =>
      subst hy
      exact h.promises id p ((Delta.foldl_deleteTask_rest _ x.delta).1 ▸ hp) hnone
  · cases hy.enters with
    | submits asked stage =>
      rw [stage] at he
      refine ha e ?_
      obtain ⟨rs, rfl, rfl⟩ | ⟨r, rfl, rfl⟩ := asked
      · exact he
      · exact he
    | inserts before stage =>
      rw [stage] at he
      exact h.inserts e (by rw [before]; exact List.mem_cons_of_mem _ he)
    | suspends before stage | locks before stage =>
      rw [stage] at he
      cases he
    | elsewhere plain =>
      rw [Stage.inserts_of_plain plain] at he
      cases he

lemma Manned.step (hx : Safe db x) (h : Manned (x.view db)) (hy : Txn.Step db grant x a y) :
    Manned (y.view db) := by
  have hset : ∀ {j id : Id} {u : Task}, y.delta.tasks = x.delta.tasks.set j (some u) →
      (x.view db).tasks.get id ≠ none → (y.view db).tasks.get id ≠ none := by
    intro j id u hd hn
    rw [Txn.view, Db.patch_tasks, hd, Dict.get_set]
    split_ifs
    · exact Option.some_ne_none _
    · rwa [← Db.patch_tasks]
  intro id p hp hpend hcall
  have hpatch := hp
  rw [Txn.view, Db.patch_promises] at hp
  cases hy.writes with
  | none hd =>
    rw [Txn.view, hd] at hpatch ⊢
    exact h id p hpatch hpend hcall
  | insert task e left inserted hs hn hw hps hts =>
    rw [hps] at hp
    rw [Txn.view, Db.patch_tasks, hts]
    split_ifs at hp with hid
    · cases hp
      have hst := hx.stage
      rw [hs] at hst
      have htask := (hst.1 e List.mem_cons_self).2.1.mp hcall
      rw [if_pos ⟨hid, htask⟩]
      simpa using htask
    · rw [if_neg fun hh => hid hh.1, ← Db.patch_tasks]
      exact h id p (by rwa [Txn.view, Db.patch_promises]) hpend hcall
  | task j u u' ht hps hw hd hle =>
    rw [hps, ← Db.patch_promises] at hp
    exact hset hd (h id p hp hpend hcall)
  | suspend task snap awaited found u u' hs ht hps hw hd =>
    rw [hps, ← Db.patch_promises] at hp
    exact hset hd (h id p hp hpend hcall)
  | settle snap stamp settled removed hs hts hw hps =>
    rw [Txn.view, Db.patch_tasks, hts, ← Db.patch_tasks]
    rcases hps id with hsame | ⟨-, q, o, -, ho, hq⟩
    · rw [hsame, ← Db.patch_promises] at hp
      exact h id p hp hpend hcall
    · rw [hq] at hp
      cases hp
      exact absurd hpend (q.settle_not_pending ho)
  | delete snap stamp settled removed kept hs hy =>
    subst hy
    have hst := hx.stage
    rw [hs] at hst
    have hprom : (x.wakeEnd removed kept).delta.promises = x.delta.promises :=
      (Delta.foldl_deleteTask_rest _ x.delta).1
    rw [hprom] at hp
    have hkept : id ∉ removed := by
      intro hid
      obtain ⟨-, -, q, o, -, -, ho, hq⟩ := hst.written id (hst.ownTask id hid).1
      rw [hq] at hp
      cases hp
      exact q.settle_not_pending ho hpend
    rw [← Db.patch_promises] at hp
    have htask := h id p hp hpend hcall
    change (db.patch (List.foldl Delta.deleteTask x.delta _)).tasks.get id ≠ none
    rw [Db.patch_tasks, Delta.foldl_deleteTask, if_neg fun hm => hkept (List.mem_filter.mp hm).1,
      ← Db.patch_tasks]
    exact htask

end Steps

def Polling (db : Db) (limit : ℕ) (now : Time) (x : Txn) : Stage → Prop
  | .due s => s.limit = limit ∧ s.now = now
  | .timingOut s => s.limit = limit ∧ s.now = now ∧ s.timerDue = (timerDue db now).take limit ∧
      ∀ id ∈ (expiredTasks db now).take limit, id ∈ s.timeoutDue ++ s.timeoutsLeft
  | .waking _ _ settled _ _ =>
      ∀ id ∈ (timerDue db now).take limit ++ (expiredTasks db now).take limit, id ∈ settled
  | .done => ∀ id ∈ (timerDue db now).take limit ++ (expiredTasks db now).take limit,
      (x.view db).pending id = false
  | _ => False

section Polls

variable {db : Db} {x y : Txn} {a : Act} {limit : ℕ} {now : Time} {C : ℕ → Time → Prop}

lemma take_of_append {xs ys zs : List Id} (h : xs ++ ys = zs) (hle : xs.length ≤ limit)
    (hend : ys = [] ∨ limit ≤ xs.length) : xs = zs.take limit := by
  subst h
  rcases hend with rfl | hge
  · rw [List.append_nil, List.take_of_length_le hle]
  · rw [List.take_append_of_le_length hge, List.take_of_length_le hle]

lemma Polling.step (hx : Safe db x) (hsolo : Solo db C x.stage) (h : Polling db limit now x x.stage)
    (hy : Txn.Step db (fun _ => true) x a y) : Polling db limit now y y.stage := by
  have hst := hx.stage
  cases hy with
  | claim hs | claimNext hs | claimNone hs | insertNext hs | insertEnd hs | suspendTask hs | suspendNext hs
  | suspendEnd hs | settleTask hs | lockPromise hs | settle hs | retryTask hs | reject hs
  | processDue hs =>
    rw [hs] at h
    exact h.elim
  | submit _ hs =>
    obtain ⟨hs, -⟩ | ⟨task, hs, -⟩ := hs <;>
    · rw [hs] at h
      exact h.elim
  | lockExpired hs hy =>
    rw [hs] at h
    rw [Txn.lockExpired] at hy
    split at hy
    · cases hy
    · split_ifs at hy <;> cases hy <;> exact h
  | lockTimer hs hy =>
    rw [hs] at h
    rw [Txn.lockTimer] at hy
    split at hy
    · cases hy
    · rw [Option.ite_none_left_eq_some] at hy
      obtain ⟨-, hy⟩ := hy
      split_ifs at hy <;> cases hy <;> exact h
  | expiredEnd hs hy =>
    rw [hs] at h hsolo hst
    obtain ⟨rfl, rfl⟩ := h
    obtain ⟨hpicks, -⟩ := hsolo
    rw [Txn.expiredEnd, Option.ite_none_right_eq_some] at hy
    obtain ⟨⟨htasks, htimers⟩, hy⟩ := hy
    cases hy
    refine ⟨rfl, rfl, take_of_append hpicks.timers hpicks.timers_le htimers, fun id hid => ?_⟩
    rw [← take_of_append hpicks.tasks hpicks.tasks_le htasks] at hid
    refine List.mem_append_right _ ((List.mem_insertionSort _).mpr (List.mem_filter.mpr ⟨hid, ?_⟩))
    obtain ⟨p, hp, hpend, -⟩ := hst.1.expiredDue id (List.mem_append_left _ hid)
    rw [Db.pending, hp]
    simpa using hpend
  | @lockTimeout s _ hs hy =>
    rw [hs] at h hsolo hst
    obtain ⟨hlimit, hnow, htimers, hcalls⟩ := h
    obtain ⟨hpicks, -⟩ := hsolo
    rw [Txn.lockTimeout] at hy
    split at hy
    · cases hy
    · rename_i id left hleft
      rw [if_pos rfl] at hy
      have hpend : (x.view db).pending id = true := by
        have hmem : id ∈ s.timeoutDue ++ s.timeoutsLeft := by simp [hleft]
        obtain ⟨p, hp, hpend, -⟩ := hst.expiredDue id (List.mem_append_left _ (hst.timeoutDue id hmem))
        rw [hpicks.snap] at hp
        rw [Txn.view_empty hst.delta, Db.pending, hp]
        simpa using hpend
      rw [if_pos hpend] at hy
      cases hy
      refine ⟨hlimit, hnow, htimers, fun j hj => ?_⟩
      have hmem := hcalls j hj
      rw [hleft] at hmem
      simpa using hmem
  | @settleDue s _ hs hy =>
    rw [hs] at h
    obtain ⟨-, -, htimers, hcalls⟩ := h
    rw [Txn.settleDue, Option.ite_none_left_eq_some] at hy
    obtain ⟨hleft, hy⟩ := hy
    cases hy
    intro id hid
    obtain hid | hid := List.mem_append.mp hid
    · exact List.mem_append_left _ (htimers ▸ hid)
    · have hmem := hcalls id hid
      rw [not_not.mp hleft, List.append_nil] at hmem
      exact List.mem_append_right _ hmem
  | wake hs hy =>
    rw [hs] at h
    rw [Txn.wake] at hy
    rw [if_pos rfl] at hy
    split at hy
    · cases hy
      exact h
    · dsimp only at hy
      split_ifs at hy <;> cases hy <;> exact h
  | @wakeEnd snap stamp settled removed kept hs =>
    rw [hs] at h hst
    intro id hid
    obtain ⟨-, -, p, o, -, -, ho, hset⟩ := hst.written id (h id hid)
    have hprom : (x.wakeEnd removed kept).delta.promises = x.delta.promises :=
      (Delta.foldl_deleteTask_rest _ x.delta).1
    rw [Db.pending, Txn.view, Db.patch_promises, hprom, hset]
    simpa using p.settle_not_pending ho

lemma Polling.inserts (h : Polling db limit now x x.stage) (hy : Txn.Step db (fun _ => true) x a y) :
    a.inserts = [] := by
  cases hy with
  | submit _ hs =>
    obtain ⟨hs, -⟩ | ⟨task, hs, -⟩ := hs <;>
    · rw [hs] at h
      exact h.elim
  | _ => rfl

lemma alone_induct {P : Txn → Prop} {acts : List Act} (hx : P x)
    (hstep : ∀ x a y, a ∈ acts → P x → Txn.Step db (fun _ => true) x a y → P y)
    (h : Txn.alone db x acts = some y) : P y := by
  induction acts generalizing x with
  | nil =>
    cases h
    exact hx
  | cons a acts ih =>
    obtain ⟨z, hz, h⟩ := Option.bind_eq_some_iff.mp h
    have hz := hstep x a z List.mem_cons_self hx (.of_advance hz)
    exact ih hz (fun x b y hb => hstep x b y (List.mem_cons_of_mem a hb)) h

end Polls

def Polls (t : Time) (limit : ℕ) (db db' : Db) : Prop :=
  ∃ limit' now acts y, limit ≤ limit' ∧ t ≤ now ∧ Txn.alone db {} (.processDue limit' now :: acts) = some y ∧
    y.stage = .done ∧ db' = y.view db

def Operation.Ahead (t : Time) : Operation → Prop
  | .transaction acts => ∀ a ∈ acts, ∀ e ∈ a.inserts, t < e.promise.deadline.time
  | .deleteExpired _ _ => True

def Elsewhere (t : Time) (db db' : Db) : Prop :=
  ∃ op : Operation, op.apply db = some db' ∧ op.Ahead t

section Deadlines

variable {t : Time} {db db' : Db} {x y : Txn} {limit : ℕ} {id : Id}

lemma mem_expiredTasks_iff : id ∈ expiredTasks db t ↔
    ∃ p, db.promises.get id = some p ∧ db.tasks.get id ≠ none ∧ expired t p = true := by
  constructor
  · intro h
    obtain ⟨⟨j, p⟩, he, rfl⟩ := List.mem_map.mp h
    obtain ⟨hm, hf⟩ := mem_queue.mp he
    exact ⟨p, hm, by simpa using hf⟩
  · rintro ⟨p, hp, hf⟩
    exact List.mem_map.mpr ⟨(id, p), mem_queue.mpr ⟨hp, by simpa using hf⟩, rfl⟩

lemma mem_timerDue_iff : id ∈ timerDue db t ↔ ∃ p, db.promises.get id = some p ∧ due t p = true := by
  constructor
  · intro h
    obtain ⟨⟨j, p⟩, he, rfl⟩ := List.mem_map.mp h
    obtain ⟨hm, hf⟩ := mem_queue.mp he
    exact ⟨p, hm, hf⟩
  · rintro ⟨p, hp, hf⟩
    exact List.mem_map.mpr ⟨(id, p), mem_queue.mpr ⟨hp, hf⟩, rfl⟩

lemma expired_iff {p : Promise} : expired t p = true ↔ p.Pending ∧ p.IsCall ∧ p.deadline.time ≤ t := by
  rw [expired, Bool.and_eq_true, decide_eq_true_eq, Promise.IsCall]
  cases p.deadline <;> simp [Deadline.time]

lemma due_iff {p : Promise} : due t p = true ↔ p.Pending ∧ ¬ p.IsCall ∧ p.deadline.time ≤ t := by
  rw [due, Bool.and_eq_true, decide_eq_true_eq, Promise.IsCall]
  cases p.deadline <;> simp [Deadline.time]

lemma expiredTasks_taken {now : Time} {ids : List Id} (hnow : t ≤ now) (hn : ids.Nodup)
    (hids : ∀ id ∈ ids, id ∈ expiredTasks db t) (htaken : ∀ id ∈ ids, id ∉ (expiredTasks db now).take limit) :
    ids.length ≤ (expiredTasks db t).length - limit := by
  refine queue_taken (t := t) (g := fun e => db.tasks.get e.1 ≠ none ∧ expired now e.2) (fun e => ?_) hn hids htaken
  rw [Bool.eq_iff_iff, Bool.and_eq_true, decide_eq_true_eq, decide_eq_true_eq, decide_eq_true_eq,
    expired_iff, expired_iff]
  constructor
  · rintro ⟨htask, hpend, hcall, ht⟩
    exact ⟨⟨htask, hpend, hcall, ht.trans hnow⟩, ht⟩
  · rintro ⟨⟨htask, hpend, hcall, -⟩, ht⟩
    exact ⟨htask, hpend, hcall, ht⟩

lemma timerDue_taken {now : Time} {ids : List Id} (hnow : t ≤ now) (hn : ids.Nodup)
    (hids : ∀ id ∈ ids, id ∈ timerDue db t) (htaken : ∀ id ∈ ids, id ∉ (timerDue db now).take limit) :
    ids.length ≤ (timerDue db t).length - limit := by
  refine queue_taken (t := t) (g := fun e => due now e.2) (fun e => ?_) hn hids htaken
  rw [Bool.eq_iff_iff, Bool.and_eq_true, decide_eq_true_eq, due_iff, due_iff]
  constructor
  · rintro ⟨hpend, hcall, ht⟩
    exact ⟨⟨hpend, hcall, ht.trans hnow⟩, ht⟩
  · rintro ⟨⟨hpend, hcall, -⟩, ht⟩
    exact ⟨hpend, hcall, ht⟩

lemma Ahead.was_stored (hx : Safe db x) (h : Ahead t db x) {p : Promise}
    (hp : (x.view db).promises.get id = some p) (ht : p.deadline.time ≤ t) (hpend : p.Pending) :
    ∃ q, db.promises.get id = some q ∧ q.deadline = p.deadline ∧ q.Pending := by
  cases hq : db.promises.get id with
  | none =>
    rw [Txn.view, Db.patch_promises, hq] at hp
    cases hd : x.delta.promises.get id with
    | none =>
      rw [hd] at hp
      cases hp
    | some v =>
      rw [hd] at hp
      have hlate := h.promises id p (by rw [hd]; exact congrArg some hp) hq
      exact absurd ht (not_le.mpr hlate)
  | some q =>
    obtain ⟨p', hp', -, hdeadline, hsame⟩ := hx.covered.later.promise id q hq
    rw [hp] at hp'
    cases hp'
    refine ⟨q, rfl, hdeadline.symm, ?_⟩
    by_contra hsettled
    exact hsettled (hsame hsettled ▸ hpend)

lemma Ahead.expiredTasks (hx : Safe db x) (h : Ahead t db x) (hid : id ∈ expiredTasks (x.view db) t) :
    id ∈ expiredTasks db t := by
  obtain ⟨p, hp, htask, hexp⟩ := mem_expiredTasks_iff.mp hid
  obtain ⟨hpend, hcall, ht⟩ := expired_iff.mp hexp
  obtain ⟨q, hq, hdeadline, hqpend⟩ := h.was_stored hx hp ht hpend
  refine mem_expiredTasks_iff.mpr ⟨q, hq, ?_, expired_iff.mpr ⟨hqpend, ?_, ?_⟩⟩
  · exact hx.covered.later.task id (by simp [hq]) htask
  · exact (Promise.isCall_congr hdeadline).mpr hcall
  · rwa [hdeadline]

lemma Ahead.timerDue (hx : Safe db x) (h : Ahead t db x) (hid : id ∈ timerDue (x.view db) t) :
    id ∈ timerDue db t := by
  obtain ⟨p, hp, hdue⟩ := mem_timerDue_iff.mp hid
  obtain ⟨hpend, hcall, ht⟩ := due_iff.mp hdue
  obtain ⟨q, hq, hdeadline, hqpend⟩ := h.was_stored hx hp ht hpend
  refine mem_timerDue_iff.mpr ⟨q, hq, due_iff.mpr ⟨hqpend, ?_, ?_⟩⟩
  · rwa [Promise.isCall_congr hdeadline]
  · rwa [hdeadline]

structure Sturdy (db : Db) : Prop where
  wf : Wf db
  exact : Exact db
  manned : Manned db

structure Drained (t : Time) (limit : ℕ) (db db' : Db) : Prop where
  sturdy : Sturdy db'
  calls : (expiredTasks db' t).length ≤ (expiredTasks db t).length - limit
  timers : (timerDue db' t).length ≤ (timerDue db t).length - limit

lemma Sturdy.opened (h : Sturdy db) : Manned (({} : Txn).view db) := by
  rw [Txn.view_empty rfl]
  exact h.manned

lemma Sturdy.deleteGraphs (h : Sturdy db) (roots : List Id) : Sturdy (db.deleteGraphs roots) := by
  obtain ⟨hw, he⟩ := deleteGraphs_keeps roots h.wf h.exact
  refine ⟨hw, he, fun id p hp hpend hcall => ?_⟩
  cases hg : db.goneWith roots id with
  | true =>
    obtain hsame | hnone := Db.deleteGraphs_gone hg
    · rw [hsame] at hp ⊢
      exact h.manned id p hp hpend hcall
    · rw [hnone] at hp
      cases hp
  | false =>
    rw [(Db.deleteGraphs_kept hg).2]
    exact h.manned id p (Db.deleteGraphs_promise hp) hpend hcall

lemma deleteGraphs_task {roots : List Id} (h : (db.deleteGraphs roots).tasks.get id ≠ none) :
    db.tasks.get id ≠ none := by
  cases hg : db.goneWith roots id with
  | false => rwa [(Db.deleteGraphs_kept hg).2] at h
  | true =>
    rw [Db.deleteGraphs] at h
    dsimp only at h
    split_ifs at h
    · exact h
    · intro hnone
      rw [Dict.get_filter, hnone] at h
      exact h rfl

lemma Txn.outcome_cases (db : Db) (x : Txn) : x.outcome db = x.view db ∨ x.outcome db = db := by
  rw [Txn.outcome]
  split
  · exact Or.inl rfl
  · exact Or.inr rfl

lemma Txn.done_of_outcome_ne {x : Txn} (h : x.outcome db ≠ db) : x.stage = .done := by
  rw [Txn.outcome] at h
  split at h
  · assumption
  · exact absurd rfl h

lemma apply_sturdy {op : Operation} (hs : Sturdy db) (h : op.apply db = some db') : Sturdy db' := by
  obtain ⟨hw, he⟩ := apply_keeps hs.wf hs.exact h
  cases op with
  | transaction acts =>
    obtain ⟨y, hy, rfl⟩ := Option.map_eq_some_iff.mp h
    obtain ⟨-, hmanned⟩ : Safe db y ∧ Manned (y.view db) :=
      alone_induct (P := fun x => Safe db x ∧ Manned (x.view db)) ⟨.opened db, hs.opened⟩
        (fun x a y _ hx hstep => ⟨hx.1.step hs.wf hstep, hx.2.step hx.1 hstep⟩) hy
    obtain hout | hout := y.outcome_cases db
    · exact ⟨hw, he, hout ▸ hmanned⟩
    · rw [hout]
      exact hs
  | deleteExpired before bound =>
    cases h
    exact hs.deleteGraphs _

lemma serve_sturdy {ops : List Operation} (hs : Sturdy db) (h : serve db ops = some db') : Sturdy db' := by
  induction ops generalizing db with
  | nil =>
    cases h
    exact hs
  | cons op ops ih =>
    obtain ⟨db₁, h₁, h⟩ := Option.bind_eq_some_iff.mp h
    exact ih (apply_sturdy hs h₁) h

lemma Elsewhere.drained (hs : Sturdy db) (h : Elsewhere t db db') : Drained t 0 db db' := by
  obtain ⟨op, hop, hahead⟩ := h
  suffices hle : (expiredTasks db' t).length ≤ (expiredTasks db t).length ∧
      (timerDue db' t).length ≤ (timerDue db t).length from ⟨apply_sturdy hs hop, hle.1, hle.2⟩
  cases op with
  | transaction acts =>
    obtain ⟨y, hy, rfl⟩ := Option.map_eq_some_iff.mp hop
    obtain ⟨hsafe, hy'⟩ : Safe db y ∧ Ahead t db y :=
      alone_induct (P := fun x => Safe db x ∧ Ahead t db x) ⟨.opened db, .opened⟩
        (fun x a y ha hx hstep => ⟨hx.1.step hs.wf hstep, hx.2.step (hahead a ha) hstep⟩) hy
    obtain hout | hout := y.outcome_cases db
    · rw [hout]
      constructor
      · exact ((expiredTasks_spec _ t).1.subperm fun _ => hy'.expiredTasks hsafe).length_le
      · exact ((timerDue_spec _ t).1.subperm fun _ => hy'.timerDue hsafe).length_le
    · rw [hout]
      exact ⟨le_rfl, le_rfl⟩
  | deleteExpired before bound =>
    cases hop
    constructor
    · refine ((expiredTasks_spec _ t).1.subperm fun id hid => ?_).length_le
      obtain ⟨p, hp, htask, hexp⟩ := mem_expiredTasks_iff.mp hid
      exact mem_expiredTasks_iff.mpr ⟨p, Db.deleteGraphs_promise hp, deleteGraphs_task htask, hexp⟩
    · refine ((timerDue_spec _ t).1.subperm fun id hid => ?_).length_le
      obtain ⟨p, hp, hdue⟩ := mem_timerDue_iff.mp hid
      exact mem_timerDue_iff.mpr ⟨p, Db.deleteGraphs_promise hp, hdue⟩

lemma Polls.drained (hs : Sturdy db) (h : Polls t limit db db') : Drained t limit db db' := by
  obtain ⟨bound, now, acts, y, hbound, hnow, hy, hst, rfl⟩ := h
  have hop : (Operation.transaction (.processDue bound now :: acts)).apply db = some (y.view db) := by
    rw [Operation.apply, hy, Option.map_some, Txn.outcome, hst]
  obtain ⟨z, hz, hy⟩ := Option.bind_eq_some_iff.mp hy
  have hstep := Txn.Step.of_advance hz
  have hfirst : Polling db bound now z z.stage := by
    cases hz
    exact ⟨rfl, rfl⟩
  obtain ⟨hsafe, -, hpoll, hy'⟩ : Safe db y ∧ Solo db (fun _ _ => True) y.stage ∧
      Polling db bound now y y.stage ∧ Ahead t db y := by
    refine alone_induct (P := fun x => Safe db x ∧ Solo db (fun _ _ => True) x.stage ∧
      Polling db bound now x x.stage ∧ Ahead t db x) ⟨(Safe.opened db).step hs.wf hstep, ?_, hfirst,
        Ahead.opened.step (fun e he => by cases he) hstep⟩ (fun x a y _ hx hstep => ?_) hy
    · exact Solo.step hs.wf (.opened db) trivial (fun _ _ _ => trivial) hstep
    · obtain ⟨hsafe, hsolo, hpoll, hx'⟩ := hx
      refine ⟨hsafe.step hs.wf hstep, hsolo.step hs.wf hsafe (fun _ _ _ => trivial) hstep,
        hpoll.step hsafe hsolo hstep, hx'.step (fun e he => ?_) hstep⟩
      rw [hpoll.inserts hstep] at he
      cases he
  rw [hst] at hpoll
  have hsettled : ∀ id ∈ (timerDue db now).take bound ++ (expiredTasks db now).take bound, ∀ p,
      (y.view db).promises.get id = some p → ¬ p.Pending := by
    intro id hid p hp hpend
    have hpending := hpoll id hid
    rw [Db.pending, hp] at hpending
    simp [hpend] at hpending
  refine ⟨apply_sturdy hs hop, ?_, ?_⟩
  · refine (expiredTasks_taken hnow (expiredTasks_spec _ t).1 (fun id hid => hy'.expiredTasks hsafe hid)
      fun id hid htaken => ?_).trans (Nat.sub_le_sub_left hbound _)
    obtain ⟨p, hp, -, hexp⟩ := mem_expiredTasks_iff.mp hid
    exact hsettled id (List.mem_append_right _ htaken) p hp (expired_iff.mp hexp).1
  · refine (timerDue_taken hnow (timerDue_spec _ t).1 (fun id hid => hy'.timerDue hsafe hid)
      fun id hid htaken => ?_).trans (Nat.sub_le_sub_left hbound _)
    obtain ⟨p, hp, hdue⟩ := mem_timerDue_iff.mp hid
    exact hsettled id (List.mem_append_left _ htaken) p hp (due_iff.mp hdue).1

/-- Once PROCESS_DUE has run often enough since t, whatever was due by then is settled. -/
theorem deadlines_met {ops : List Operation} {n : ℕ} (h₀ : serve {} ops = some db)
    (h : Rounds (Polls t limit) (Elsewhere t) db n db') (hcalls : (expiredTasks db t).length ≤ n * limit)
    (htimers : (timerDue db t).length ≤ n * limit) {p : Promise} (hp : db'.promises.get id = some p)
    (hpend : p.Pending) : t < p.deadline.time := by
  have hs : Sturdy db := serve_sturdy ⟨.empty, .empty, fun _ _ hp => (by cases hp)⟩ h₀
  have hround : ∀ a b, Sturdy a → Polls t limit a b → Drained t limit a b := fun _ _ hs h => h.drained hs
  have hother : ∀ a b, Sturdy a → Elsewhere t a b → Drained t 0 a b := fun _ _ hs h => h.drained hs
  have hs' : Sturdy db' :=
    h.keeps (fun a b hs h => (hround a b hs h).sturdy) (fun a b hs h => (hother a b hs h).sturdy) hs
  have hleft : (expiredTasks db' t).length ≤ (expiredTasks db t).length - n * limit :=
    h.backlog (m := fun db => (expiredTasks db t).length)
      (fun a b hs h => ⟨(hround a b hs h).sturdy, (hround a b hs h).calls⟩)
      (fun a b hs h => ⟨(hother a b hs h).sturdy, (hother a b hs h).calls⟩) hs
  have hleft' : (timerDue db' t).length ≤ (timerDue db t).length - n * limit :=
    h.backlog (m := fun db => (timerDue db t).length)
      (fun a b hs h => ⟨(hround a b hs h).sturdy, (hround a b hs h).timers⟩)
      (fun a b hs h => ⟨(hother a b hs h).sturdy, (hother a b hs h).timers⟩) hs
  by_contra hlate
  rw [not_lt] at hlate
  by_cases hcall : p.IsCall
  · have hmem : id ∈ expiredTasks db' t :=
      mem_expiredTasks_iff.mpr ⟨p, hp, hs'.manned id p hp hpend hcall, expired_iff.mpr ⟨hpend, hcall, hlate⟩⟩
    have hpos := List.length_pos_of_mem hmem
    omega
  · have hmem : id ∈ timerDue db' t := mem_timerDue_iff.mpr ⟨p, hp, due_iff.mpr ⟨hpend, hcall, hlate⟩⟩
    have hpos := List.length_pos_of_mem hmem
    omega

end Deadlines

section Samples

open Sys (rootCall sampleCall)

def rootServed : List Operation := [.transaction [.submitCalls [rootCall], .insertNext, .insertEnd]]

lemma rootServed_serves : (serve {} rootServed).isSome = true := by decide +kernel

def rootDb : Db := (serve {} rootServed).get rootServed_serves

def timesOut : List Act :=
  [.processDue 1 200, .lockExpired, .expiredEnd, .lockTimeout, .settleDue, .wakeEnd []]

lemma timesOut_runs : (Txn.alone rootDb {} timesOut).isSome = true := by decide +kernel

def timedOutTxn : Txn := (Txn.alone rootDb {} timesOut).get timesOut_runs

lemma timedOutTxn_done : timedOutTxn.stage = .done :=
  Txn.done_of_outcome_ne fun h : timedOutTxn.outcome rootDb = rootDb => by
    have hroot : (timedOutTxn.outcome rootDb).promises.get "root" ≠ rootDb.promises.get "root" := by
      decide +kernel
    exact hroot (congrArg (fun db => db.promises.get "root") h)

def laterCall : CallRequest := { sampleCall "later" none 1 (by decide) Nat.one_pos with expiresAt := 900 }

def storesLater : Operation := .transaction [.submitCalls [laterCall], .insertNext, .insertEnd]

lemma storesLater_applies : (storesLater.apply (timedOutTxn.view rootDb)).isSome = true := by decide +kernel

def laterDb : Db := (storesLater.apply (timedOutTxn.view rootDb)).get storesLater_applies

lemma laterDb_rounds : Rounds (Polls 200 1) (Elsewhere 200) rootDb 1 laterDb := by
  refine .round ⟨1, 200, timesOut.tail, timedOutTxn, le_rfl, le_rfl, (Option.some_get timesOut_runs).symm,
    timedOutTxn_done, rfl⟩ (.other ⟨storesLater, (Option.some_get storesLater_applies).symm, ?_⟩ .done)
  intro a ha e he
  obtain rfl | rfl | rfl : a = .submitCalls [laterCall] ∨ a = .insertNext ∨ a = .insertEnd := by
    simpa [storesLater] using ha
  · cases List.mem_singleton.mp he
    decide
  · cases he
  · cases he

theorem deadlines_met_later : (200 : Time) < laterCall.insert.promise.deadline.time :=
  deadlines_met (Option.some_get rootServed_serves).symm laterDb_rounds (by decide +kernel) (by decide +kernel)
    (show laterDb.promises.get "later" = some laterCall.insert.promise by decide +kernel) rfl

end Samples

end Reaper.Store
