import Reaper.Store.Sweep

/-! The notifications of a transaction. Every statement that leaves a task claimable calls pg_notify
with the channel of its topic, and the notifications are sent when the transaction commits. -/

namespace Reaper.Store

open Reaper.Library Reaper.Library.Locks

def taskChannel (md5 : String → String) (topic : String) : String := "reaper_task_" ++ md5 topic

/-- What CLAIM asks of the rows of a task, but for its available_at and for the time of its promise. -/
def Db.ready (db : Db) (topic : String) (id : Id) : Bool :=
  (db.tasks.get id).any (fun t => t.topic = topic ∧ t.pendingWaits = 0) &&
    (db.promises.get id).any fun p => p.Pending ∧ p.IsCall

namespace Txn

def told (x : Txn) (p : Task → Bool) (id : Id) : List (Id × String) :=
  (((x.delta.tasks.get id).join.filter p).map fun t => (id, t.topic)).toList

/-- The rows of a statement's notified, as the statement returns them. A notification has no
payload, and it is known here for which task it is sent. -/
def notifies (db : Db) (x : Txn) (a : Act) (y : Txn) : List (Id × String) :=
  match x.stage, a with
  | .inserting _ (e :: _) _, .insertNext =>
    if (x.view db).promises.get e.id = none then y.told (fun _ => true) e.id else []
  | .suspending task _ _ _ _, .suspendEnd _ => y.told (fun t => t.pendingWaits = 0) task.id
  | .holding task, .retryTask _ _ _ => y.told (fun t => t.failures < t.maxFailures) task.id
  | .waking _ _ _ _ (w :: _), .wake _ =>
    if ((x.view db).tasks.get w).any fun t => 0 < t.pendingWaits then
      y.told (fun t => t.pendingWaits = 0) w
    else []
  | _, _ => []

end Txn

section Ready

variable {db : Db} {topic : String} {id : Id}

lemma Db.ready_iff : db.ready topic id = true ↔
    (∃ t, db.tasks.get id = some t ∧ t.topic = topic ∧ t.pendingWaits = 0) ∧
      ∃ p, db.promises.get id = some p ∧ p.Pending ∧ p.IsCall := by
  simp only [Db.ready, Bool.and_eq_true, Option.any_eq_true, decide_eq_true_eq]

lemma mem_claimCandidates_iff {excluded : List (String × ℕ)} {now : Time} :
    id ∈ claimCandidates db topic excluded now ↔ db.ready topic id = true ∧
      (∃ t, db.tasks.get id = some t ∧ (t.function, t.version) ∉ excluded ∧ t.availableAt ≤ now) ∧
      ∃ p e, db.promises.get id = some p ∧ p.deadline = .expiresAt e ∧ now < e := by
  have hcall : ∀ p : Promise, unexpired now p = true ↔
      p.Pending ∧ ∃ e, p.deadline = .expiresAt e ∧ now < e := by
    intro p
    rw [unexpired, Bool.and_eq_true, decide_eq_true_eq]
    cases hd : p.deadline <;> simp
  have hrow : ∀ t : Task, claimable topic excluded now t = true ↔ t.topic = topic ∧
      (t.function, t.version) ∉ excluded ∧ t.pendingWaits = 0 ∧ t.availableAt ≤ now := fun t =>
    decide_eq_true_iff
  rw [claimCandidates, List.mem_map, Db.ready_iff]
  constructor
  · rintro ⟨⟨j, t⟩, he, rfl⟩
    obtain ⟨hm, hf⟩ := List.mem_filter.mp ((List.mem_insertionSort _).mp he)
    have ht := (Dict.mem_entries _ _ _).mp hm
    obtain ⟨hc, hp⟩ := of_decide_eq_true hf
    obtain ⟨htopic, hex, hz, hav⟩ := (hrow t).mp hc
    obtain ⟨p, hp, hun⟩ := (Option.any_eq_true _ _).mp hp
    obtain ⟨hpend, e, hd, hlt⟩ := (hcall p).mp hun
    exact ⟨⟨⟨t, ht, htopic, hz⟩, p, hp, hpend, e, hd⟩, ⟨t, ht, hex, hav⟩, p, e, hp, hd, hlt⟩
  · rintro ⟨⟨⟨t, ht, htopic, hz⟩, p, hp, hpend, -⟩, ⟨t', ht', hex, hav⟩, p', e, hp', hd, hlt⟩
    cases ht.symm.trans ht'
    cases hp.symm.trans hp'
    refine ⟨(id, t), (List.mem_insertionSort _).mpr (List.mem_filter.mpr ⟨?_, ?_⟩), rfl⟩
    · exact (Dict.mem_entries _ _ _).mpr ht
    · refine decide_eq_true ⟨(hrow t).mpr ⟨htopic, hex, hz, hav⟩, ?_⟩
      exact (Option.any_eq_true _ _).mpr ⟨p, hp, (hcall p).mpr ⟨hpend, e, hd, hlt⟩⟩

end Ready

def Stage.inserts : Stage → List Insert
  | .inserting _ left _ => left
  | _ => []

lemma Stage.inserts_of_plain {s : Stage} (h : s.plain = true) : s.inserts = [] := by
  cases s <;> first | rfl | cases h

structure Noted (x : Txn) (notes : List (Id × String)) : Prop where
  tasks : ∀ id t, x.delta.tasks.get id = some (some t) → t.pendingWaits = 0 → (id, t.topic) ∈ notes
  calls : ∀ id p, x.delta.promises.get id = some (some p) → p.Pending → p.IsCall →
    x.delta.tasks.get id ≠ none
  inserts : ∀ e ∈ x.stage.inserts, e.promise.IsCall → e.task ≠ none

section Steps

variable {db : Db} {grant : Lock Row → Bool} {x y : Txn} {a : Act} {notes : List (Id × String)}

lemma Txn.mem_told {p : Task → Bool} {id : Id} {t : Task} (ht : x.delta.tasks.get id = some (some t))
    (hp : p t = true) : (id, t.topic) ∈ x.told p id := by
  rw [Txn.told, ht, Option.join_some, Option.filter_some, if_pos hp]
  exact List.mem_singleton.mpr rfl

lemma Txn.Step.tells (h : Txn.Step db grant x a y) {id : Id} {t : Task}
    (ht : y.delta.tasks.get id = some (some t)) (hz : t.pendingWaits = 0) :
    x.delta.tasks.get id = some (some t) ∨ (id, t.topic) ∈ x.notifies db a y := by
  cases h with
  | claim | claimNone | submit | processDue => exact Or.inl ht
  | claimNext =>
    rw [Txn.claimNext] at ht
    split_ifs at ht
    · split at ht <;> exact Or.inl ht
    · exact Or.inl ht
  | @insertNext task e left inserted y hs hy =>
    obtain ⟨-, hd | ⟨hn, -, -, hw⟩⟩ := insertNext_writes hy
    · rw [hd] at ht
      exact Or.inl ht
    · rw [hw] at ht
      split_ifs at ht with hid
      · refine Or.inr ?_
        rw [hid.1]
        simp only [Txn.notifies, hs, if_pos hn]
        refine Txn.mem_told ?_ rfl
        rw [hw, if_pos ⟨rfl, hid.2⟩, ht]
      · exact Or.inl ht
  | insertEnd hs hy =>
    rw [Txn.insertEnd] at hy
    split_ifs at hy <;> cases hy
    · exact Or.inl ht
    · exact Or.inl ((foldl_lock_delta _ x) ▸ ht)
  | suspendTask hs hy =>
    rw [Txn.suspendTask] at hy
    split_ifs at hy <;> cases hy <;> exact Or.inl ht
  | suspendNext hs hy =>
    rw [Txn.suspendNext] at hy
    split_ifs at hy
    split at hy <;> cases hy <;> exact Or.inl ht
  | @suspendEnd task snap awaited found clock y hs hy =>
    have hy' := hy
    rw [Txn.suspendEnd] at hy
    split_ifs at hy
    · cases hy
      exact Or.inl ht
    · split at hy <;> cases hy
      · exact Or.inl ht
      · by_cases hid : id = task.id
        · subst hid
          refine Or.inr ?_
          simp only [Txn.notifies, hs]
          exact Txn.mem_told ht (decide_eq_true hz)
        · exact Or.inl ((Dict.get_set_ne _ _ hid).symm.trans ht)
  | settleTask =>
    rw [Txn.settleTask] at ht
    split_ifs at ht <;> exact Or.inl ht
  | lockPromise hs hy =>
    rw [Txn.lockPromise] at hy
    split_ifs at hy <;> cases hy <;> exact Or.inl ht
  | @settle task settlement clock hs =>
    obtain ⟨hsame, -⟩ := Txn.foldl_settlePromise_rest db [task.id] x (settlement.outcome clock)
    rw [Txn.settle] at ht
    split_ifs at ht
    · exact Or.inl (hsame ▸ ht)
    · exact Or.inl ht
  | @retryTask task error delayMs clock hs =>
    by_cases hid : id = task.id
    · subst hid
      refine Or.inr ?_
      simp only [Txn.notifies, hs]
      exact Txn.mem_told ht (decide_eq_true t.failures_lt)
    · rw [Txn.retryTask] at ht
      split at ht
      · exact Or.inl ht
      · split_ifs at ht
        · exact Or.inl ((Dict.get_set_ne _ _ hid).symm.trans ht)
        · exact Or.inl ht
        · exact Or.inl ht
  | @reject task snap error clock y hs hy =>
    rw [Txn.reject] at hy
    split_ifs at hy
    cases hy
    obtain ⟨hsame, -⟩ := Txn.foldl_settlePromise_rest db [task.id]
      (x.lock (.promise task.id) .noKeyUpdate) (.rejected error clock)
    exact Or.inl (hsame ▸ ht)
  | lockExpired hs hy =>
    rw [Txn.lockExpired] at hy
    split at hy
    · cases hy
    · split_ifs at hy <;> cases hy <;> exact Or.inl ht
  | lockTimer hs hy =>
    rw [Txn.lockTimer] at hy
    split at hy
    · cases hy
    · rw [Option.ite_none_left_eq_some] at hy
      obtain ⟨-, hy⟩ := hy
      split_ifs at hy <;> cases hy <;> exact Or.inl ht
  | expiredEnd hs hy =>
    rw [Txn.expiredEnd] at hy
    split_ifs at hy
    cases hy
    exact Or.inl ht
  | lockTimeout hs hy =>
    rw [Txn.lockTimeout] at hy
    split at hy
    · cases hy
    · split_ifs at hy <;> cases hy <;> exact Or.inl ht
  | @settleDue s y hs hy =>
    rw [Txn.settleDue, Option.ite_none_left_eq_some] at hy
    obtain ⟨-, hy⟩ := hy
    cases hy
    obtain ⟨hsame, -⟩ := Txn.foldl_settlePromise_rest db s.timerDue x
      (.resolved (some timerResult) s.now)
    obtain ⟨hsame', -⟩ := Txn.foldl_settlePromise_rest db s.timeoutDue
      (s.timerDue.foldl (fun y id => y.settlePromise db id (.resolved (some timerResult) s.now)) x)
      (.timedOut promiseTimeout s.now)
    exact Or.inl (hsame ▸ hsame' ▸ ht)
  | @wake snap stamp settled removed left w clock y hs hy =>
    rw [Txn.wake] at hy
    split_ifs at hy
    split at hy
    · cases hy
      exact Or.inl ht
    · rename_i t₀ ht₀
      split_ifs at hy with hc <;> cases hy
      · by_cases hid : id = w
        · subst hid
          refine Or.inr ?_
          have hpos : ((x.view db).tasks.get id).any (fun t => 0 < t.pendingWaits) = true := by
            rw [ht₀]
            exact decide_eq_true hc.2
          simp only [Txn.notifies, hs, if_pos hpos]
          exact Txn.mem_told ht (decide_eq_true hz)
        · exact Or.inl ((Dict.get_set_ne _ _ hid).symm.trans ht)
      · exact Or.inl ht
  | @wakeEnd snap stamp settled removed kept hs =>
    change (List.foldl Delta.deleteTask x.delta _).tasks.get id = _ at ht
    rw [Delta.foldl_deleteTask] at ht
    split_ifs at ht
    · cases ht
    · exact Or.inl ht

lemma Txn.Step.inserts (h : Txn.Step db grant x a y) : ∀ e ∈ y.stage.inserts,
    e ∈ x.stage.inserts ∨ (e.promise.IsCall → e.task ≠ none) := by
  intro e he
  cases h.enters with
  | submits asked stage =>
    rw [stage] at he
    refine Or.inr fun hcall => ?_
    obtain ⟨rs, -, rfl⟩ | ⟨r, -, rfl⟩ := asked
    · obtain ⟨r, -, rfl⟩ := List.mem_map.mp he
      exact Option.some_ne_none _
    · cases List.mem_singleton.mp he
      obtain ⟨t, ht⟩ := hcall
      cases ht
  | inserts before stage =>
    rw [stage] at he
    rw [before]
    exact Or.inl (List.mem_cons_of_mem _ he)
  | suspends _ stage | locks _ stage =>
    rw [stage] at he
    cases he
  | elsewhere plain =>
    rw [Stage.inserts_of_plain plain] at he
    cases he

lemma Noted.empty (hd : x.delta = {}) (hs : ∀ e, e ∉ x.stage.inserts) : Noted x notes := by
  refine ⟨fun id t ht => ?_, fun id p hp => ?_, fun e he => absurd he (hs e)⟩
  · rw [hd] at ht
    cases ht
  · rw [hd] at hp
    cases hp

lemma Noted.same (h : Noted x notes) (hd : y.delta = x.delta) (hs : y.stage = x.stage) :
    Noted y notes := by
  refine ⟨?_, ?_, ?_⟩
  · rw [hd]
    exact h.tasks
  · rw [hd]
    exact h.calls
  · rw [hs]
    exact h.inserts

lemma Noted.step (h : Noted x notes) (hs : Txn.Step db grant x a y) :
    Noted y (notes ++ x.notifies db a y) := by
  have hset : ∀ {j id : Id} {t : Task}, y.delta.tasks = x.delta.tasks.set j (some t) →
      x.delta.tasks.get id ≠ none → y.delta.tasks.get id ≠ none := by
    intro j id t hd hn
    rw [hd, Dict.get_set]
    split_ifs
    · exact Option.some_ne_none _
    · exact hn
  refine ⟨fun id t ht hz => ?_, fun id p hp hpend hcall => ?_, fun e he => ?_⟩
  · rcases hs.tells ht hz with hx | hn
    · exact List.mem_append_left _ (h.tasks id t hx hz)
    · exact List.mem_append_right _ hn
  · cases hs.writes with
    | none hd =>
      rw [hd] at hp ⊢
      exact h.calls id p hp hpend hcall
    | insert task e left inserted hst hn hw hps hts =>
      rw [hps] at hp
      rw [hts]
      split_ifs at hp with hid
      · cases hp
        have htask := h.inserts e (by rw [hst]; exact List.mem_cons_self) hcall
        rw [if_pos ⟨hid, htask⟩]
        exact Option.some_ne_none _
      · rw [if_neg fun hh => hid hh.1]
        exact h.calls id p hp hpend hcall
    | task j t t' ht hps hw hd hle =>
      exact hset hd (h.calls id p (hps ▸ hp) hpend hcall)
    | suspend task snap awaited found t t' hst ht hps hw hd =>
      exact hset hd (h.calls id p (hps ▸ hp) hpend hcall)
    | settle snap stamp settled removed hst ht hw hps =>
      rw [ht]
      rcases hps id with hsame | ⟨-, q, o, -, ho, hq⟩
      · exact h.calls id p (hsame ▸ hp) hpend hcall
      · rw [hq] at hp
        cases hp
        exact absurd hpend (q.settle_not_pending ho)
    | delete snap stamp settled removed kept hst hy =>
      subst hy
      have hn := h.calls id p ((Delta.foldl_deleteTask_rest _ x.delta).1 ▸ hp) hpend hcall
      change (List.foldl Delta.deleteTask x.delta _).tasks.get id ≠ none
      rw [Delta.foldl_deleteTask]
      split_ifs
      · exact Option.some_ne_none _
      · exact hn
  · rcases hs.inserts e he with hx | hn
    · exact h.inserts e hx
    · exact hn

lemma Noted.forget (h : Noted x notes) (gone : Id → Bool) : Noted (x.forget gone) notes := by
  obtain ⟨stage, locks, delta⟩ := x
  cases stage <;> exact ⟨h.tasks, h.calls, h.inserts⟩

lemma Noted.commit (h : Noted x notes) {topic : String} {id : Id}
    (hr : (x.view db).ready topic id = true) : (id, topic) ∈ notes ∨
      x.delta.tasks.get id = none ∧ db.ready topic id = true ∧
        (x.view db).tasks.get id = db.tasks.get id := by
  obtain ⟨⟨t, ht, htopic, hz⟩, p, hp, hpend, hcall⟩ := Db.ready_iff.mp hr
  have hview := ht
  rw [Txn.view, Db.patch_tasks] at ht
  rw [Txn.view, Db.patch_promises] at hp
  cases hd : x.delta.tasks.get id with
  | some v =>
    rw [hd, Option.getD_some] at ht
    subst ht
    exact Or.inl (htopic ▸ h.tasks id t hd hz)
  | none =>
    rw [hd, Option.getD_none] at ht
    refine Or.inr ⟨rfl, Db.ready_iff.mpr ⟨⟨t, ht, htopic, hz⟩, p, ?_, hpend, hcall⟩, ?_⟩
    · cases hv : x.delta.promises.get id with
      | none =>
        rw [hv] at hp
        exact hp
      | some v =>
        rw [hv, Option.getD_some] at hp
        subst hp
        exact absurd hd (h.calls id p hv hpend hcall)
    · rw [hview, ht]

lemma Db.ready_deleteGraphs {topic : String} {id : Id} {roots : List Id}
    (h : (db.deleteGraphs roots).ready topic id = true) : db.ready topic id = true ∧
      (db.deleteGraphs roots).tasks.get id = db.tasks.get id := by
  cases hg : db.goneWith roots id with
  | false =>
    obtain ⟨hp, ht⟩ := Db.deleteGraphs_kept hg
    rw [Db.ready, hp, ht] at h
    exact ⟨h, ht⟩
  | true =>
    rcases Db.deleteGraphs_gone hg with hsame | hn
    · rw [hsame] at h ⊢
      exact ⟨h, rfl⟩
    · obtain ⟨-, p, hp, -⟩ := Db.ready_iff.mp h
      rw [hn] at hp
      cases hp

end Steps

end Reaper.Store
