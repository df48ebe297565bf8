import Reaper.Store.Serial

/-! What one step of a transaction does to its writes, and which stage it leaves. -/

namespace Reaper.Store

open Reaper.Library Reaper.Library.Locks

def Settles (db : Db) (ids : List Id) (x y : Txn) : Prop :=
  ∀ id, y.delta.promises.get id = x.delta.promises.get id ∨ id ∈ ids ∧ ∃ p o,
    (x.view db).promises.get id = some p ∧ o ≠ .pending ∧
      y.delta.promises.get id = some (some (p.settle o))

/-- The six things a step may do: nothing to the rows, the insert of a promise, the update of one
task, the waits of a task that suspends, the settlement of promises, and the end of a settlement. -/
inductive Writes (db : Db) (x y : Txn) : Prop
  | none (hd : y.delta = x.delta)
  | insert (task : Option ClaimedTask) (e : Insert) (left : List Insert) (inserted : List Id)
      (hs : x.stage = .inserting task (e :: left) inserted)
      (hn : (x.view db).promises.get e.id = none) (hw : y.delta.waits = x.delta.waits)
      (hp : ∀ id, y.delta.promises.get id =
        if id = e.id then some (some e.promise) else x.delta.promises.get id)
      (ht : ∀ id, y.delta.tasks.get id =
        if id = e.id ∧ e.task ≠ none then some e.task else x.delta.tasks.get id)
  | task (id : Id) (t t' : Task) (ht : (x.view db).tasks.get id = some t)
      (hp : y.delta.promises = x.delta.promises) (hw : y.delta.waits = x.delta.waits)
      (hd : y.delta.tasks = x.delta.tasks.set id (some t'))
      (hle : t'.pendingWaits ≤ t.pendingWaits)
  | suspend (task : ClaimedTask) (snap : Db) (awaited : List Id) (found : List (Id × Promise))
      (t t' : Task) (hs : x.stage = .suspending task snap awaited [] found)
      (ht : (x.view db).tasks.get task.id = some t) (hp : y.delta.promises = x.delta.promises)
      (hw : y.delta.waits = x.delta.waits ∪ (found.map fun e => (task.id, e.1)).toFinset)
      (hd : y.delta.tasks = x.delta.tasks.set task.id (some t'))
  | settle (snap : Db) (stamp : Option Time) (settled removed : List Id)
      (hs : y.stage = .waking snap stamp settled removed (lockedWaiters snap settled))
      (ht : y.delta.tasks = x.delta.tasks) (hw : y.delta.waits = x.delta.waits)
      (hp : Settles db settled x y)
  | delete (snap : Db) (stamp : Option Time) (settled removed kept : List Id)
      (hs : x.stage = .waking snap stamp settled removed []) (hy : y = x.wakeEnd removed kept)

def Stage.awaits : Stage → Option (Id × List Id)
  | .suspending task _ awaited _ _ => some (task.id, awaited)
  | _ => none

def Stage.plain : Stage → Bool
  | .inserting _ _ _ | .suspending _ _ _ _ _ => false
  | _ => true

lemma Stage.awaits_of_plain {s : Stage} (h : s.plain = true) : s.awaits = none := by
  cases s <;> first | rfl | cases h

inductive Enters (x y : Txn) : Act → Prop
  | submits {a : Act} {es : List Insert} {task : Option ClaimedTask}
    (asked : (∃ rs, a = .submitCalls rs ∧ es = rs.map CallRequest.insert) ∨
      ∃ r, a = .submitTimer r ∧ es = [r.insert]) (stage : y.stage = .inserting task es []) : Enters x y a
  | inserts {a : Act} {task : Option ClaimedTask} {e : Insert} {left : List Insert} {inserted inserted' : List Id}
    (before : x.stage = .inserting task (e :: left) inserted) (stage : y.stage = .inserting task left inserted') :
    Enters x y a
  | suspends {task : ClaimedTask} {snap : Db} {awaited left : List Id} (before : x.stage = .holding task)
    (stage : y.stage = .suspending task snap awaited left []) : Enters x y (.suspendTask awaited)
  | locks {a : Act} {task : ClaimedTask} {snap : Db} {awaited left left' : List Id}
    {found found' : List (Id × Promise)} (before : x.stage = .suspending task snap awaited left found)
    (stage : y.stage = .suspending task snap awaited left' found') : Enters x y a
  | elsewhere {a : Act} (plain : y.stage.plain = true) : Enters x y a

section Steps

variable {db : Db} {grant : Lock Row → Bool} {x y : Txn} {a : Act}

lemma Settlement.outcome_ne (s : Settlement) (now : Time) : s.outcome now ≠ .pending := by
  cases s <;> nofun

lemma settlePromise_settles (db : Db) (x : Txn) (id : Id) {o : Outcome} (h : o ≠ .pending) :
    Settles db [id] x (x.settlePromise db id o) := by
  intro j
  rw [Txn.settlePromise_promises]
  split_ifs with hj
  · rw [Txn.settledRow]
    cases hp : (x.view db).promises.get j with
    | none => exact Or.inl rfl
    | some p => exact Or.inr ⟨List.mem_singleton.mpr hj, p, o, rfl, h, rfl⟩
  · exact Or.inl rfl

lemma Settles.refl (db : Db) (ids : List Id) (x : Txn) : Settles db ids x x := fun _ => Or.inl rfl

lemma Settles.mono {ids ids' : List Id} (h : Settles db ids x y) (hsub : ids ⊆ ids') :
    Settles db ids' x y := fun id => (h id).imp_right fun hh => ⟨hsub hh.1, hh.2⟩

lemma Settles.trans {ids : List Id} {z : Txn} (h : Settles db ids x y) (h' : Settles db ids y z) :
    Settles db ids x z := by
  intro id
  rcases h' id with hz | ⟨hm, p', o', hp', ho', hz⟩
  · rw [hz]
    exact h id
  · refine Or.inr ⟨hm, ?_⟩
    rcases h id with hy | ⟨-, p, o, hp, -, hy⟩
    · rw [Txn.view, Db.patch_promises, hy, ← Db.patch_promises] at hp'
      exact ⟨p', o', hp', ho', hz⟩
    · rw [Txn.view, Db.patch_promises, hy] at hp'
      cases hp'
      exact ⟨p, o', hp, ho', hz⟩

lemma foldl_settles (db : Db) (ids : List Id) (x : Txn) {o : Outcome} (h : o ≠ .pending) :
    Settles db ids x (ids.foldl (fun y id => y.settlePromise db id o) x) := by
  induction ids generalizing x with
  | nil => exact .refl db [] x
  | cons id ids ih =>
    have hone := (settlePromise_settles db x id h).mono (List.cons_subset_cons id (List.nil_subset ids))
    exact hone.trans ((ih _).mono (List.subset_cons_self id ids))

lemma Writes.settle_one {snap : Db} {id : Id} {o : Outcome} (h : o ≠ .pending) :
    Writes db x ((x.settlePromise db id o).wakeFor snap Option.none [id] [id]) := by
  obtain ⟨ht, hw, -⟩ := Txn.foldl_settlePromise_rest db [id] x o
  exact .settle snap Option.none [id] [id] rfl ht hw (settlePromise_settles db x id h)

lemma Txn.Step.writes (h : Txn.Step db grant x a y) : Writes db x y := by
  cases h with
  | claim | claimNone | submit | processDue => exact .none rfl
  | claimNext =>
    rw [Txn.claimNext]
    split_ifs
    · split <;> exact .none rfl
    · exact .none rfl
  | insertNext hs hy =>
    obtain ⟨-, hd | ⟨hn, hw, hp, ht⟩⟩ := insertNext_writes hy
    · exact .none hd
    · exact .insert _ _ _ _ hs hn hw hp ht
  | insertEnd hs hy =>
    rw [Txn.insertEnd] at hy
    split_ifs at hy <;> cases hy
    · exact .none rfl
    · exact .none (foldl_lock_delta _ x)
  | suspendTask hs hy =>
    rw [Txn.suspendTask] at hy
    split_ifs at hy <;> cases hy <;> exact .none rfl
  | suspendNext hs hy =>
    rw [Txn.suspendNext] at hy
    split_ifs at hy
    split at hy <;> cases hy <;> exact .none rfl
  | suspendEnd hs hy =>
    rw [Txn.suspendEnd] at hy
    split_ifs at hy
    · cases hy
      exact .none rfl
    · split at hy
      · cases hy
        exact .none rfl
      · rename_i t ht
        cases hy
        exact .suspend _ _ _ _ t _ hs ht rfl rfl rfl
  | settleTask =>
    rw [Txn.settleTask]
    split_ifs <;> exact .none rfl
  | lockPromise hs hy =>
    rw [Txn.lockPromise] at hy
    split_ifs at hy <;> cases hy <;> exact .none rfl
  | @settle task settlement clock hs =>
    rw [Txn.settle]
    split_ifs
    · exact .settle_one (settlement.outcome_ne clock)
    · exact .none rfl
  | retryTask hs =>
    rw [Txn.retryTask]
    split
    · exact .none rfl
    · rename_i t ht
      split_ifs
      · exact .task _ t _ ht rfl rfl rfl le_rfl
      · exact .none rfl
      · exact .none rfl
  | @reject task snap error clock y hs hy =>
    rw [Txn.reject] at hy
    split_ifs at hy
    cases hy
    obtain ⟨ht, hw, -⟩ := Txn.foldl_settlePromise_rest db [task.id]
      (x.lock (.promise task.id) .noKeyUpdate) (.rejected error clock)
    exact .settle snap Option.none [task.id] [task.id] rfl ht hw
      (settlePromise_settles db (x.lock (.promise task.id) .noKeyUpdate) task.id (by simp))
  | lockExpired hs hy =>
    rw [Txn.lockExpired] at hy
    split at hy
    · cases hy
    · split_ifs at hy <;> cases hy <;> exact .none rfl
  | lockTimer hs hy =>
    rw [Txn.lockTimer] at hy
    split at hy
    · cases hy
    · rw [Option.ite_none_left_eq_some] at hy
      obtain ⟨-, hy⟩ := hy
      split_ifs at hy <;> cases hy <;> exact .none rfl
  | expiredEnd hs hy =>
    rw [Txn.expiredEnd] at hy
    split_ifs at hy
    cases hy
    exact .none rfl
  | lockTimeout hs hy =>
    rw [Txn.lockTimeout] at hy
    split at hy
    · cases hy
    · split_ifs at hy <;> cases hy <;> exact .none rfl
  | @settleDue s y hs hy =>
    rw [Txn.settleDue] at hy
    rw [Option.ite_none_left_eq_some] at hy
    obtain ⟨-, hy⟩ := hy
    cases hy
    set y := s.timerDue.foldl
      (fun y id => y.settlePromise db id (.resolved (some timerResult) s.now)) x
    obtain ⟨ht, hw, -⟩ := Txn.foldl_settlePromise_rest db s.timerDue x
      (.resolved (some timerResult) s.now)
    obtain ⟨ht', hw', -⟩ := Txn.foldl_settlePromise_rest db s.timeoutDue y
      (.timedOut promiseTimeout s.now)
    have hfired : Settles db s.timerDue x y := foldl_settles db s.timerDue x (by simp)
    have hne : Outcome.timedOut promiseTimeout s.now ≠ .pending := by simp
    have htimed := foldl_settles db s.timeoutDue y hne
    exact .settle s.snap (some s.now) (s.timerDue ++ s.timeoutDue) s.timeoutDue rfl (ht'.trans ht)
      (hw'.trans hw) ((hfired.mono (List.subset_append_left _ _)).trans
        (htimed.mono (List.subset_append_right _ _)))
  | wake hs hy =>
    rw [Txn.wake] at hy
    split_ifs at hy
    split at hy
    · cases hy
      exact .none rfl
    · rename_i t ht
      split_ifs at hy <;> cases hy
      · exact .task _ t _ ht rfl rfl rfl (Nat.sub_le _ _)
      · exact .none rfl
  | wakeEnd hs => exact .delete _ _ _ _ _ hs rfl

lemma Txn.Step.enters (h : Txn.Step db grant x a y) : Enters x y a := by
  cases h with
  | claim | claimNone | processDue | wakeEnd => exact .elsewhere rfl
  | submit asked _ => exact .submits asked rfl
  | claimNext =>
    rw [Txn.claimNext]
    split_ifs
    · split
      · exact .elsewhere rfl
      · refine .elsewhere ?_
        change Stage.plain (if _ then _ else _) = true
        split_ifs <;> rfl
    · exact .elsewhere rfl
  | insertNext hs hy =>
    obtain ⟨⟨ids, hst⟩, -⟩ := insertNext_writes hy
    exact .inserts hs hst
  | @insertEnd task inserted y hs hy =>
    rw [Txn.insertEnd] at hy
    split_ifs at hy <;> cases hy
    · exact .elsewhere rfl
    · cases task <;> exact .elsewhere rfl
  | suspendTask hs hy =>
    rw [Txn.suspendTask] at hy
    split_ifs at hy <;> cases hy
    · exact .elsewhere rfl
    · exact .suspends hs rfl
  | suspendNext hs hy =>
    rw [Txn.suspendNext] at hy
    split_ifs at hy
    split at hy <;> cases hy <;> exact .locks hs rfl
  | suspendEnd hs hy =>
    rw [Txn.suspendEnd] at hy
    split_ifs at hy
    · cases hy
      exact .elsewhere rfl
    · split at hy <;> cases hy <;> exact .elsewhere rfl
  | settleTask =>
    rw [Txn.settleTask]
    split_ifs <;> exact .elsewhere rfl
  | lockPromise hs hy =>
    rw [Txn.lockPromise] at hy
    split_ifs at hy <;> cases hy <;> exact .elsewhere rfl
  | settle =>
    rw [Txn.settle]
    split_ifs <;> exact .elsewhere rfl
  | retryTask =>
    rw [Txn.retryTask]
    split
    · exact .elsewhere rfl
    · split_ifs <;> exact .elsewhere rfl
  | reject hs hy =>
    rw [Txn.reject] at hy
    split_ifs at hy
    cases hy
    exact .elsewhere rfl
  | lockExpired hs hy =>
    rw [Txn.lockExpired] at hy
    split at hy
    · cases hy
    · split_ifs at hy <;> cases hy <;> exact .elsewhere rfl
  | lockTimer hs hy =>
    rw [Txn.lockTimer] at hy
    split at hy
    · cases hy
    · rw [Option.ite_none_left_eq_some] at hy
      obtain ⟨-, hy⟩ := hy
      split_ifs at hy <;> cases hy <;> exact .elsewhere rfl
  | expiredEnd hs hy =>
    rw [Txn.expiredEnd] at hy
    split_ifs at hy
    cases hy
    exact .elsewhere rfl
  | lockTimeout hs hy =>
    rw [Txn.lockTimeout] at hy
    split at hy
    · cases hy
    · split_ifs at hy <;> cases hy <;> exact .elsewhere rfl
  | settleDue hs hy =>
    rw [Txn.settleDue, Option.ite_none_left_eq_some] at hy
    obtain ⟨-, hy⟩ := hy
    cases hy
    exact .elsewhere rfl
  | wake hs hy =>
    rw [Txn.wake] at hy
    split_ifs at hy
    split at hy
    · cases hy
      exact .elsewhere rfl
    · split_ifs at hy <;> cases hy <;> exact .elsewhere rfl

lemma Txn.Step.awaits (h : Txn.Step db grant x a y) : y.stage.awaits = none ∨
    y.stage.awaits = x.stage.awaits ∨ ∃ task awaited, a = .suspendTask awaited ∧
      x.stage = .holding task ∧ y.stage.awaits = some (task.id, awaited) := by
  cases h.enters with
  | submits _ stage | inserts _ stage =>
    rw [stage]
    exact Or.inl rfl
  | suspends before stage => exact Or.inr (Or.inr ⟨_, _, rfl, before, by rw [stage]; rfl⟩)
  | locks before stage =>
    rw [before, stage]
    exact Or.inr (Or.inl rfl)
  | elsewhere plain => exact Or.inl (Stage.awaits_of_plain plain)

end Steps

end Reaper.Store
