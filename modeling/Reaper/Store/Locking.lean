import Reaper.Store.Transactions

/-! Every lock a transaction takes was free, so no two transactions own one row. -/

namespace Reaper.Store

open Reaper.Library Reaper.Library.Locks

namespace Txn

def Owns (x : Txn) (r : Row) : Prop := Locks.Owns x.locks r

variable {db : Db} {grant : Lock Row → Bool} {x y : Txn}

def Gains (grant : Lock Row → Bool) (x y : Txn) : Prop :=
  ∃ new, y.locks = new ++ x.locks ∧ ∀ l ∈ new, grant l = true

lemma Gains.same (h : y.locks = x.locks) : Gains grant x y := ⟨[], h, by simp⟩

lemma Gains.one {l : Lock Row} (h : y.locks = l :: x.locks) (hl : grant l = true) : Gains grant x y :=
  ⟨[l], h, by simpa using hl⟩

lemma Gains.owns (h : Gains grant x y) {r : Row} (hx : x.Owns r) : y.Owns r := by
  obtain ⟨new, hn, -⟩ := h
  obtain ⟨l, hl, hr⟩ := hx
  exact ⟨l, hn ▸ List.mem_append_right new hl, hr⟩

@[simp] lemma enter_locks (x : Txn) (s : Stage) : (x.enter s).locks = x.locks := rfl

@[simp] lemma write_locks (x : Txn) (f : Delta → Delta) : (x.write f).locks = x.locks := rfl

@[simp] lemma lock_locks (x : Txn) (r : Row) (m : Mode) : (x.lock r m).locks = ⟨r, m⟩ :: x.locks := rfl

@[simp] lemma settlePromise_locks (x : Txn) (db : Db) (id : Id) (o : Outcome) :
    (x.settlePromise db id o).locks = x.locks := by
  rw [settlePromise]
  split <;> rfl

lemma foldl_settlePromise_locks (ids : List Id) (x : Txn) (o : Outcome) :
    (ids.foldl (fun y id => y.settlePromise db id o) x).locks = x.locks := by
  induction ids generalizing x with
  | nil => rfl
  | cons id ids ih => rw [List.foldl_cons, ih, settlePromise_locks]

lemma foldl_lock_locks (roots : List Id) (x : Txn) :
    (roots.foldl (fun y root => y.lock (.promise root) .keyShare) x).locks =
      (roots.map fun root => ⟨.promise root, .keyShare⟩).reverse ++ x.locks := by
  induction roots generalizing x with
  | nil => rfl
  | cons root roots ih =>
    rw [List.foldl_cons, ih, List.map_cons, List.reverse_cons, lock_locks, List.append_assoc]
    rfl

lemma claimNext_gains (snap : Db) (topic : String) (excluded : List (String × ℕ)) (now : Time)
    (id : Id) (left : List Id) :
    Gains grant x (x.claimNext db grant snap topic excluded now id left) := by
  unfold claimNext
  dsimp only
  split_ifs with hg
  · split
    · exact .same rfl
    · exact .one rfl hg
  · exact .same rfl

lemma insertNext_gains {task : Option ClaimedTask} {e : Insert} {left : List Insert}
    {inserted : List Id} (h : x.insertNext db grant task e left inserted = some y) :
    Gains grant x y := by
  rw [insertNext] at h
  split_ifs at h with hp hg
  · cases h
    exact .same rfl
  · cases h
    refine ⟨[⟨.task e.id, .update⟩, ⟨.promise e.id, .update⟩], ?_, by simp [hg.1, hg.2]⟩
    cases e.task <;> rfl

lemma insertEnd_gains {task : Option ClaimedTask} {inserted : List Id}
    (h : x.insertEnd db grant task inserted = some y) : Gains grant x y := by
  rw [insertEnd] at h
  split_ifs at h with hf hg
  · cases h
    exact .same rfl
  · cases h
    refine ⟨_, foldl_lock_locks _ x, fun l hl => ?_⟩
    obtain ⟨root, hr, rfl⟩ := List.mem_map.mp (List.mem_reverse.mp hl)
    exact hg root hr

lemma suspendEnd_gains {task : ClaimedTask} {snap : Db} {awaited : List Id}
    {found : List (Id × Promise)} {clock : Time}
    (h : x.suspendEnd db grant task snap awaited found clock = some y) : Gains grant x y := by
  rw [suspendEnd] at h
  dsimp only at h
  split_ifs at h with hf hg
  · cases h
    exact .same rfl
  · split at h
    · cases h
      exact .same rfl
    · cases h
      exact .one rfl hg

lemma lockExpired_gains {s : Due} (h : x.lockExpired db grant s = some y) : Gains grant x y := by
  rw [lockExpired] at h
  split at h
  · cases h
  · dsimp only at h
    split_ifs at h with hl hg
    · cases h
      exact .one rfl hg.1
    · cases h
      exact .same rfl

lemma lockTimer_gains {s : Due} (h : x.lockTimer db grant s = some y) : Gains grant x y := by
  rw [lockTimer] at h
  split at h
  · cases h
  · rename_i id left hl
    dsimp only at h
    rw [Option.ite_none_left_eq_some] at h
    obtain ⟨-, h⟩ := h
    by_cases hg : grant ⟨.promise id, .update⟩ = true
    · rw [if_pos hg] at h
      cases h
      exact .one rfl hg
    · rw [if_neg hg] at h
      cases h
      exact .same rfl

lemma lockTimeout_gains {s : Due} (h : x.lockTimeout db grant s = some y) : Gains grant x y := by
  rw [lockTimeout] at h
  split at h
  · cases h
  · rename_i id left hl
    dsimp only at h
    by_cases hg : grant ⟨.promise id, .update⟩ = true
    · rw [if_pos hg] at h
      cases h
      exact .one rfl hg
    · rw [if_neg hg] at h
      cases h
      exact .same rfl

lemma wake_gains {snap : Db} {stamp : Option Time} {settled removed left : List Id} {w : Id}
    {clock : Time} (h : x.wake db grant snap stamp settled removed w left clock = some y) :
    Gains grant x y := by
  rw [wake] at h
  dsimp only at h
  split_ifs at h with hg
  split at h
  · cases h
    exact .same rfl
  · split_ifs at h <;> cases h <;> exact .one rfl hg

lemma suspendNext_gains {task : ClaimedTask} {snap : Db} {awaited left : List Id} {a : Id}
    {found : List (Id × Promise)} (h : x.suspendNext db grant task snap awaited a left found = some y) :
    Gains grant x y := by
  rw [suspendNext] at h
  split_ifs at h with hg
  split at h
  · cases h
    exact .same rfl
  · cases h
    exact .one rfl hg

lemma Step.gains {a : Act} (h : Step db grant x a y) : Gains grant x y := by
  cases h with
  | claim | claimNone | submit | processDue | wakeEnd => exact .same rfl
  | claimNext => exact claimNext_gains ..
  | insertNext hs hy => exact insertNext_gains hy
  | insertEnd hs hy => exact insertEnd_gains hy
  | suspendTask hs hy =>
    rw [Txn.suspendTask] at hy
    dsimp only at hy
    split_ifs at hy <;> cases hy <;> exact .same rfl
  | suspendNext hs hy => exact suspendNext_gains hy
  | suspendEnd hs hy => exact suspendEnd_gains hy
  | settleTask =>
    unfold Txn.settleTask
    dsimp only
    split_ifs <;> exact .same rfl
  | lockPromise hs hy =>
    rw [Txn.lockPromise] at hy
    rw [Option.ite_none_right_eq_some] at hy
    obtain ⟨hg, hy⟩ := hy
    cases hy
    exact .one rfl hg
  | settle =>
    unfold Txn.settle
    dsimp only
    split_ifs
    · exact .same (settlePromise_locks ..)
    · exact .same rfl
  | retryTask =>
    unfold Txn.retryTask
    dsimp only
    split
    · exact .same rfl
    · split_ifs <;> exact .same rfl
  | reject hs hy =>
    rw [Txn.reject] at hy
    split_ifs at hy with hg
    cases hy
    exact .one (settlePromise_locks ..) hg
  | lockExpired hs hy => exact lockExpired_gains hy
  | lockTimer hs hy => exact lockTimer_gains hy
  | expiredEnd hs hy =>
    rw [Txn.expiredEnd] at hy
    split_ifs at hy
    cases hy
    exact .same rfl
  | lockTimeout hs hy => exact lockTimeout_gains hy
  | settleDue hs hy =>
    rw [Txn.settleDue] at hy
    split_ifs at hy
    cases hy
    refine .same ?_
    simp only [wakeFor, enter_locks, foldl_settlePromise_locks]
  | wake hs hy => exact wake_gains hy

end Txn

namespace Sys

def held (s : Sys) (k : ℕ) : List (Lock Row) := ((s.txns.get k).map Txn.locks).getD []

lemma held_of_get {s : Sys} {k : ℕ} {x : Txn} (h : s.txns.get k = some x) : s.held k = x.locks := by
  rw [held, h, Option.map_some, Option.getD_some]

lemma free_of_grant {s : Sys} {k : ℕ} {l : Lock Row} (h : s.grant k l = true) : Free s.held k l := by
  intro j hj m hm hr
  cases hx : s.txns.get j with
  | none => simp [held, hx] at hm
  | some x =>
    rw [held_of_get hx] at hm
    have he := List.all_eq_true.mp h (j, x) ((Dict.mem_entries _ _ _).mpr hx)
    simp only [hj, decide_false, Bool.false_or, List.all_eq_true] at he
    simpa [hr] using he m hm

lemma held_set (s : Sys) (k : ℕ) (x : Txn) :
    held { s with txns := s.txns.set k x } = Function.update s.held k x.locks := by
  funext j
  by_cases hj : j = k
  · subst hj
    simp [held]
  · rw [Function.update_of_ne hj, held, Dict.get_set_ne _ _ hj, held]

lemma held_erase (s : Sys) (db : Db) (k : ℕ) :
    held { committed := db, txns := s.txns.erase k } = Function.update s.held k [] := by
  funext j
  by_cases hj : j = k
  · subst hj
    simp [held]
  · rw [Function.update_of_ne hj, held, Dict.get_erase_ne _ hj, held]

lemma exclusive_step {s s' : Sys} {k : ℕ} {a : Action} (h : Exclusive s.held)
    (hs : s.step k a = some s') : Exclusive s'.held := by
  cases a with
  | begin =>
    simp only [step, Option.ite_none_right_eq_some, Option.some_inj] at hs
    rw [← hs.2, held_set]
    exact h.release k
  | act a =>
    obtain ⟨x, hx, hs⟩ := Option.bind_eq_some_iff.mp hs
    obtain ⟨y, hy, rfl⟩ := Option.map_eq_some_iff.mp hs
    obtain ⟨new, hnew, hg⟩ := (Txn.Step.of_advance hy).gains
    rw [held_set, hnew, ← held_of_get hx]
    exact h.grant fun l hl => free_of_grant (hg l hl)
  | commit =>
    simp only [step] at hs
    split at hs
    · cases hs
      rw [held_erase]
      exact h.release k
    · cases hs
  | rollback =>
    simp only [step, Option.ite_none_left_eq_some, Option.some_inj] at hs
    rw [← hs.2, held_erase]
    exact h.release k

end Sys

end Reaper.Store
