import Reaper.Store.Interleavings

/-! Store operations one after another. A transaction that runs alone gets every lock and every
snapshot it takes is of the committed tables and its own writes. -/

namespace Reaper.Store

open Reaper.Library Reaper.Library.Locks

def Txn.alone (db : Db) : Txn → List Act → Option Txn
  | x, [] => some x
  | x, a :: as => (x.advance db (fun _ => true) a).bind fun y => alone db y as

def Txn.outcome (db : Db) (x : Txn) : Db :=
  match x.stage with
  | .done => x.view db
  | _ => db

inductive Operation
  | transaction (acts : List Act)
  | deleteExpired (before : Time) (limit : ℕ)

def Operation.apply (db : Db) : Operation → Option Db
  | .transaction acts => (Txn.alone db {} acts).map (Txn.outcome db)
  | .deleteExpired before limit => some (Store.deleteExpired db before limit)

def serve : Db → List Operation → Option Db
  | db, [] => some db
  | db, op :: ops => (op.apply db).bind fun db' => serve db' ops

lemma Db.patch_empty (db : Db) : db.patch {} = db := by
  have hw : (db.patch {}).waits = db.waits := by
    ext e
    rw [Db.mem_patch_waits]
    simp
  calc db.patch {} = ⟨db.promises, db.tasks, (db.patch {}).waits⟩ := rfl
    _ = db := by rw [hw]

lemma Txn.view_empty {db : Db} {x : Txn} (h : x.delta = {}) : x.view db = db := by
  rw [view, h, Db.patch_empty]

section Delete

variable {db : Db} (roots : List Id)

lemma deleteGraphs_keeps (hw : Wf db) (he : Exact db) :
    Wf (db.deleteGraphs roots) ∧ Exact (db.deleteGraphs roots) := by
  rw [Db.deleteGraphs]
  dsimp only
  split_ifs with hdangling
  · exact ⟨hw, he⟩
  set gone := fun id => (db.promises.get id).any fun p => p.graphId id ∈ roots
  have hin : ∀ e ∈ db.waits, gone e.1 = false → gone e.2 = false := by
    intro e hm h₁
    by_contra h₂
    exact hdangling ⟨e, hm, by simpa using h₂, by simpa using h₁⟩
  have hprom : ∀ id p, gone id = false → db.promises.get id = some p →
      (db.promises.filter fun id _ => !gone id).get id = some p := by
    intro id p hg hp
    rw [Dict.get_filter, hp, Option.filter_some, if_pos]
    simpa using hg
  have htask : ∀ id t, (db.tasks.filter fun id _ => !gone id).get id = some t →
      gone id = false ∧ db.tasks.get id = some t := by
    intro id t ht
    rw [Dict.get_filter, Option.filter_eq_some_iff] at ht
    exact ⟨by simpa using ht.2, ht.1⟩
  have hwait : ∀ e : Id × Id, e ∈ db.waits.filter (fun e => !gone e.1) ↔ e ∈ db.waits ∧ gone e.1 = false := by
    intro e
    simp
  constructor
  · refine ⟨fun id ht => ?_, fun e hm => ?_, fun e hm => ?_⟩
    · obtain ⟨t, ht⟩ := Option.ne_none_iff_exists'.mp ht
      obtain ⟨hg, ht⟩ := htask id t ht
      obtain ⟨p, hp, hc⟩ := hw.call id (by simp [ht])
      exact ⟨p, hprom id p hg hp, hc⟩
    · obtain ⟨hm, hg⟩ := (hwait e).mp hm
      obtain ⟨t, ht⟩ := Option.ne_none_iff_exists'.mp (hw.waiter e hm)
      rw [Dict.get_filter, ht, Option.filter_some, if_pos (by simpa using hg)]
      simp
    · obtain ⟨hm, hg⟩ := (hwait e).mp hm
      obtain ⟨w, a, hwp, ha, hgr⟩ := hw.awaited e hm
      exact ⟨w, a, hprom _ w hg hwp, hprom _ a (hin e hm hg) ha, hgr⟩
  · intro id t ht
    obtain ⟨hg, ht⟩ := htask id t ht
    refine (he id).congr (fun u hu => ⟨u, (htask id u hu).2, rfl⟩) (fun e h₁ => ?_) (fun e hm h₁ => ?_) t ?_
    · rw [hwait]
      exact ⟨fun h => h.1, fun h => ⟨h, h₁ ▸ hg⟩⟩
    · obtain ⟨-, a, -, ha, -⟩ := hw.awaited e hm
      exact Db.pending_congr ((hprom e.2 a (hin e hm (h₁ ▸ hg)) ha).trans ha.symm)
    · rw [Dict.get_filter, ht, Option.filter_some, if_pos (by simpa using hg)]

end Delete

section Solo

variable {db : Db} {x y : Txn} {C : ℕ → Time → Prop}

structure Picks (db : Db) (s : Due) : Prop where
  snap : s.snap = db
  tasks : s.expiredTasks ++ s.tasksLeft = expiredTasks db s.now
  tasks_le : s.expiredTasks.length ≤ s.limit
  timers : s.timerDue ++ s.timersLeft = timerDue db s.now
  timers_le : s.timerDue.length ≤ s.limit

def Solo (db : Db) (C : ℕ → Time → Prop) : Stage → Prop
  | .retrying _ snap _ => db.waits ⊆ snap.waits
  | .due s | .timingOut s => Picks db s ∧ C s.limit s.now
  | _ => True

lemma mem_expiredTasks {id : Id} {now : Time} (h : id ∈ expiredTasks db now) :
    db.tasks.get id ≠ none := by
  obtain ⟨⟨j, p⟩, he, rfl⟩ := List.mem_map.mp h
  have hf := (List.mem_filter.mp ((List.mem_insertionSort _).mp he)).2
  simp only [decide_eq_true_eq] at hf
  exact hf.1

lemma mem_timerDue {id : Id} {now : Time} (h : id ∈ timerDue db now) :
    ((db.promises.get id).any (due now)) = true := by
  obtain ⟨⟨j, p⟩, he, rfl⟩ := List.mem_map.mp h
  obtain ⟨hm, hf⟩ := List.mem_filter.mp ((List.mem_insertionSort _).mp he)
  rw [(Dict.mem_entries _ _ _).mp hm]
  exact hf

lemma Picks.lockExpired {s : Due} (hx : x.delta = {}) (h : Picks db s) (hC : C s.limit s.now)
    (hy : x.lockExpired db (fun _ => true) s = some y) : Solo db C y.stage := by
  rw [Txn.lockExpired] at hy
  split at hy
  · cases hy
  · rename_i id left hleft
    have htasks := h.tasks
    rw [hleft] at htasks
    have hstored := mem_expiredTasks (htasks ▸ List.mem_append_right s.expiredTasks List.mem_cons_self)
    dsimp only at hy
    rw [Option.ite_none_left_eq_some] at hy
    obtain ⟨hlimit, hy⟩ := hy
    rw [Txn.view_empty hx, if_pos ⟨rfl, hstored⟩] at hy
    cases hy
    refine ⟨{ h with tasks := ?_, tasks_le := ?_ }, hC⟩
    · rw [List.append_assoc]
      exact htasks
    · rw [List.length_append, List.length_singleton]
      exact Nat.lt_of_not_le hlimit

lemma Picks.lockTimer {s : Due} (hx : x.delta = {}) (h : Picks db s) (hC : C s.limit s.now)
    (hy : x.lockTimer db (fun _ => true) s = some y) : Solo db C y.stage := by
  rw [Txn.lockTimer] at hy
  split at hy
  · cases hy
  · rename_i id left hleft
    have htimers := h.timers
    rw [hleft] at htimers
    have hdue := mem_timerDue (htimers ▸ List.mem_append_right s.timerDue List.mem_cons_self)
    dsimp only at hy
    rw [Option.ite_none_left_eq_some] at hy
    obtain ⟨hlimit, hy⟩ := hy
    rw [Txn.view_empty hx, if_pos rfl, if_pos hdue] at hy
    cases hy
    refine ⟨{ h with timers := ?_, timers_le := ?_ }, hC⟩
    · rw [List.append_assoc]
      exact htimers
    · rw [List.length_append, List.length_singleton]
      exact Nat.lt_of_not_le hlimit

lemma Picks.lockTimeout {s : Due} (h : Picks db s) (hC : C s.limit s.now)
    (hy : x.lockTimeout db (fun _ => true) s = some y) : Solo db C y.stage := by
  rw [Txn.lockTimeout] at hy
  split at hy
  · cases hy
  · dsimp only at hy
    rw [if_pos rfl] at hy
    split_ifs at hy <;> cases hy
    · exact ⟨{ h with }, hC⟩
    · exact ⟨{ h with }, hC⟩

lemma Solo.step {a : Act} (hw : Wf db) (hx : Safe db x) (h : Solo db C x.stage)
    (hC : ∀ limit now, a = .processDue limit now → C limit now)
    (hy : Txn.Step db (fun _ => true) x a y) : Solo db C y.stage := by
  obtain ⟨hc, hst⟩ := hx
  cases hy with
  | claim | claimNone | submit | wakeEnd => trivial
  | claimNext =>
    unfold Txn.claimNext
    dsimp only
    rw [if_pos rfl]
    split
    · trivial
    · change Solo db C (ite _ _ _)
      split_ifs <;> trivial
  | insertNext hs hy =>
    rw [Txn.insertNext] at hy
    split_ifs at hy <;> cases hy <;> trivial
  | @insertEnd task inserted y hs hy =>
    rw [Txn.insertEnd] at hy
    split_ifs at hy <;> cases hy
    · trivial
    · cases task <;> trivial
  | suspendTask hs hy =>
    rw [Txn.suspendTask] at hy
    dsimp only at hy
    split_ifs at hy <;> cases hy <;> trivial
  | suspendNext hs hy =>
    rw [Txn.suspendNext] at hy
    rw [if_pos rfl] at hy
    split at hy <;> cases hy <;> trivial
  | suspendEnd hs hy =>
    rw [Txn.suspendEnd] at hy
    dsimp only at hy
    split_ifs at hy
    · cases hy
      trivial
    · split at hy <;> cases hy <;> trivial
  | settleTask =>
    unfold Txn.settleTask
    dsimp only
    split_ifs <;> trivial
  | lockPromise hs hy =>
    rw [Txn.lockPromise] at hy
    rw [if_pos rfl] at hy
    cases hy
    change Solo db C (ite _ _ _)
    split_ifs <;> trivial
  | settle =>
    unfold Txn.settle
    dsimp only
    split_ifs <;> trivial
  | retryTask hs =>
    rw [hs] at hst
    unfold Txn.retryTask
    dsimp only
    split
    · trivial
    · split_ifs
      · trivial
      · exact fun e he => (Holds.inserts hst).seesAll hw hc [e.2] e he List.mem_cons_self
      · trivial
  | reject hs hy =>
    rw [Txn.reject] at hy
    rw [if_pos rfl] at hy
    cases hy
    trivial
  | processDue hs =>
    rw [hs] at hst
    have hv : x.view db = db := Txn.view_empty hst
    refine ⟨⟨hv, ?_, Nat.zero_le _, ?_, Nat.zero_le _⟩, hC _ _ rfl⟩
    · exact congrArg (expiredTasks · _) hv
    · exact congrArg (timerDue · _) hv
  | lockExpired hs hy =>
    rw [hs] at h hst
    exact h.1.lockExpired hst.1.delta h.2 hy
  | lockTimer hs hy =>
    rw [hs] at h hst
    exact h.1.lockTimer hst.1.delta h.2 hy
  | expiredEnd hs hy =>
    rw [hs] at h
    rw [Txn.expiredEnd] at hy
    rw [Option.ite_none_right_eq_some] at hy
    obtain ⟨-, hy⟩ := hy
    cases hy
    exact ⟨{ h.1 with }, h.2⟩
  | lockTimeout hs hy =>
    rw [hs] at h
    exact h.1.lockTimeout h.2 hy
  | settleDue hs hy =>
    rw [Txn.settleDue] at hy
    rw [Option.ite_none_left_eq_some] at hy
    obtain ⟨-, hy⟩ := hy
    cases hy
    trivial
  | wake hs hy =>
    rw [Txn.wake] at hy
    dsimp only at hy
    rw [if_pos rfl] at hy
    split at hy
    · cases hy
      trivial
    · split_ifs at hy <;> cases hy <;> trivial

lemma Solo.sees {s : Stage} (h : Solo db C s) (a : Act) : Sees db s a := by
  have hretry : RetrySees db s := by
    cases s with
    | retrying task snap error => exact fun e he _ => h he
    | _ => trivial
  have hdue : DueSees db s := by
    cases s with
    | timingOut s => exact fun e he _ => h.1.snap ▸ he
    | _ => trivial
  cases a with
  | reject => exact hretry
  | settleDue => exact hdue
  | _ => trivial

end Solo

section Counts

variable {db : Db} {x y : Txn}

lemma alone_counts {C : ℕ → Time → Prop} {acts : List Act} (hw : Wf db) (he : Exact db)
    (hx : Safe db x) (ht : Tally db x) (hs : Solo db C x.stage)
    (hC : ∀ limit now, .processDue limit now ∈ acts → C limit now)
    (h : Txn.alone db x acts = some y) : Safe db y ∧ Tally db y ∧ Solo db C y.stage := by
  induction acts generalizing x with
  | nil =>
    cases h
    exact ⟨hx, ht, hs⟩
  | cons a acts ih =>
    obtain ⟨z, hz, h⟩ := Option.bind_eq_some_iff.mp h
    have hz := Txn.Step.of_advance hz
    refine ih (hx.step hw hz) (ht.step hw he hx (hs.sees a) hz) (hs.step hw hx (fun l n ha => ?_) hz)
      (fun l n hm => hC l n (List.mem_cons_of_mem _ hm)) h
    exact hC l n (ha ▸ List.mem_cons_self)

lemma outcome_keeps (hw : Wf db) (he : Exact db) (hx : Safe db x) (ht : Tally db x) :
    Wf (x.outcome db) ∧ Exact (x.outcome db) := by
  rw [Txn.outcome]
  split
  · rename_i hst
    refine ⟨hx.covered.wf hw, fun id => ht.exact id ?_⟩
    rw [hst]
    exact List.not_mem_nil
  · exact ⟨hw, he⟩

lemma apply_keeps {op : Operation} {db' : Db} (hw : Wf db) (he : Exact db)
    (h : op.apply db = some db') : Wf db' ∧ Exact db' := by
  cases op with
  | transaction acts =>
    obtain ⟨x, hx, rfl⟩ := Option.map_eq_some_iff.mp h
    obtain ⟨hs, ht, -⟩ := alone_counts (C := fun _ _ => True) hw he (.opened db)
      (.opened he) trivial (fun _ _ _ => trivial) hx
    exact outcome_keeps hw he hs ht
  | deleteExpired before limit =>
    cases h
    exact deleteGraphs_keeps _ hw he

lemma serve_keeps {ops : List Operation} {db' : Db} (hw : Wf db) (he : Exact db)
    (h : serve db ops = some db') : Wf db' ∧ Exact db' := by
  induction ops generalizing db with
  | nil =>
    cases h
    exact ⟨hw, he⟩
  | cons op ops ih =>
    obtain ⟨db₁, h₁, h⟩ := Option.bind_eq_some_iff.mp h
    obtain ⟨hw₁, he₁⟩ := apply_keeps hw he h₁
    exact ih hw₁ he₁ h

/-- After any serial operations every count is exact: a task that waits for nothing has no pending
awaited promise, and neither has a task that a transaction then claims. -/
theorem serial_counts {ops : List Operation} (h : serve {} ops = some db) :
    (∀ id t, db.tasks.get id = some t → t.pendingWaits = (db.pendingAwaited id).card) ∧
    (∀ id t, db.tasks.get id = some t → t.pendingWaits = 0 → db.pendingAwaited id = ∅) ∧
    ∀ acts x task, Txn.alone db {} acts = some x → x.stage = .holding task →
      db.pendingAwaited task.id = ∅ := by
  obtain ⟨hw, he⟩ := serve_keeps .empty .empty h
  have hzero : ∀ id t, db.tasks.get id = some t → t.pendingWaits = 0 → db.pendingAwaited id = ∅ :=
    fun id t ht hz => Finset.card_eq_zero.mp ((he id t ht).symm.trans hz)
  refine ⟨he, hzero, fun acts x task hx hst => ?_⟩
  obtain ⟨hs, -, -⟩ := alone_counts (C := fun _ _ => True) hw he (Safe.opened db)
    (Tally.opened he) trivial (fun _ _ _ => trivial) hx
  have hholds := hs.stage
  rw [hst] at hholds
  obtain ⟨t, ht, hz⟩ := Holds.task hholds
  exact hzero task.id t ht hz

def waitedFor : List Operation := [
  .transaction [.submitCalls [Sys.rootCall], .insertNext, .insertEnd],
  .transaction (Sys.claimNth 1 0 ++ [.submitCalls [Sys.childCall], .insertNext, .insertEnd] ++
    Sys.awaits "child")]

lemma waitedFor_serves : (serve {} waitedFor).isSome = true := by decide +kernel

theorem serial_counts_waiting : Exact ((serve {} waitedFor).get waitedFor_serves) :=
  (serial_counts (Option.some_get waitedFor_serves).symm).1

end Counts

end Reaper.Store
