import Reaper.Library.WaitFor
import Reaper.Store.Writes
import Mathlib.Data.String.Basic

/-! Which transactions wait for each other's row locks. Settlements take waiters in one order, and what
they have locked before is never what another settlement is to wake. PROCESS_DUE locks expired tasks
in another order first. -/

namespace Reaper.Store

open Reaper.Library Reaper.Library.Locks Relation

def Txn.wants (x : Txn) : Option (Lock Row) :=
  match x.stage with
  | .locking task _ => some ⟨.promise task.id, .update⟩
  | .retrying task _ _ => some ⟨.promise task.id, .noKeyUpdate⟩
  | .waking _ _ _ _ (w :: _) => some ⟨.task w, .update⟩
  | _ => none

namespace Sys

def waitsFor (s : Sys) (j k : ℕ) : Bool :=
  j ≠ k && (s.txns.get j).any fun x => (s.txns.get k).any fun y => x.wants.any fun l =>
    y.locks.any fun m => m.row = l.row && m.mode.conflicts l.mode

def target (s : Sys) (k : ℕ) : Id :=
  match (s.txns.get k).bind Txn.wants with
  | some ⟨.task w, _⟩ => w
  | _ => ""

def NoDeadlock (s : Sys) : Prop := ∀ k, ¬ TransGen (fun j k => s.waitsFor j k = true) k k

end Sys

def Act.settles : Act → Bool
  | .claim .. | .claimNext | .settleTask _ | .lockPromise | .settle _ | .retryTask .. | .reject _
  | .wake _ | .wakeEnd _ => true
  | _ => false

def Act.maintains : Act → Bool
  | .processDue .. | .lockExpired | .lockTimer | .expiredEnd | .lockTimeout | .settleDue | .wake _
  | .wakeEnd _ => true
  | _ => false

namespace Action

def settles : Action → Bool
  | .act a => a.settles
  | _ => true

def maintains : Action → Bool
  | .act a => a.maintains
  | _ => true

end Action

/-- What one transaction has yet to wake comes before what the other has, wherever it is a task that
the other one's PROCESS_DUE has locked as expired. -/
def Txn.precedes (x y : Txn) : Bool :=
  match x.stage, y.stage with
  | .waking _ _ _ _ left, .waking snap (some now) _ _ left' =>
    left.all fun w => !(w ∈ expiredTasks snap now && y.locks.any fun l => l.row = .task w) ||
      left'.all fun v => w < v
  | _, _ => true

def Stage.stamped : Stage → Bool
  | .due _ | .timingOut _ => true
  | .waking _ stamp _ _ _ => stamp.isSome
  | _ => false

namespace Sys

def apart (s : Sys) : Bool :=
  s.txns.entries.all fun e => s.txns.entries.all fun f => e.1 = f.1 || e.2.precedes f.2

def staysApart (s : Sys) (k : ℕ) (a : Action) : Bool := (s.step k a).all apart

end Sys

def Idle (db : Db) (id : Id) : Prop := ∀ t, db.tasks.get id = some t → t.pendingWaits = 0

def Rested (db : Db) (id : Id) : Prop := ∃ t, db.tasks.get id = some t ∧ t.pendingWaits = 0

structure Falls (db db' : Db) : Prop where
  waits : db'.waits ⊆ db.waits
  tasks : ∀ id t', db'.tasks.get id = some t' → ∃ t, db.tasks.get id = some t ∧
    (t.pendingWaits = 0 → t'.pendingWaits = 0)

def Taken (db snap : Db) (stamp : Option Time) (w : Id) : Prop :=
  match stamp with
  | none => Rested db w
  | some now => w ∈ expiredTasks snap now

/-- Which task rows a transaction has locked at each stage. What a claim has locked waits for nothing.
Waiters are locked in order, so those locked are before those left. -/
def Ordered (db : Db) (x : Txn) : Stage → Prop
  | .opened => x.locks = []
  | .claiming _ _ _ _ left => (∀ id ∈ left, Idle db id) ∧ ∀ w, x.Owns (.task w) → Rested db w
  | .holding _ | .locking _ _ | .locked _ _ => ∀ w, x.Owns (.task w) → Rested db w
  | .retrying _ snap _ => db.waits ⊆ snap.waits ∧ ∀ w, x.Owns (.task w) → Rested db w
  | .due s | .timingOut s => db.waits ⊆ s.snap.waits ∧
      (∀ w ∈ s.tasksLeft, w ∈ expiredTasks s.snap s.now) ∧
      ∀ w, x.Owns (.task w) → w ∈ expiredTasks s.snap s.now
  | .waking snap stamp _ _ left => left.Pairwise (· < ·) ∧ ∀ w, x.Owns (.task w) →
      (∀ v ∈ left, w < v) ∨ Taken db snap stamp w
  | .inserting .. | .suspending .. => False
  | .done | .failed => True

def Guarded (db : Db) (x : Txn) : Prop := ∀ l ∈ x.locks, l.mode ≠ .keyShare ∧
  ∀ id, l.row = .promise id → x.Owns (.task id) ∨ ∃ p, db.promises.get id = some p ∧ ¬ p.IsCall

structure Orderly (db : Db) (x : Txn) : Prop where
  falls : Falls db (x.view db)
  waits : x.delta.waits = ∅
  guarded : Guarded db x
  stage : Ordered db x x.stage

section Stable

variable {db db' : Db} {x y : Txn} {id : Id}

lemma Falls.idle (h : Falls db db') (hi : Idle db id) : Idle db' id := by
  intro t' ht'
  obtain ⟨t, ht, hz⟩ := h.tasks id t' ht'
  exact hz (hi t ht)

lemma Falls.refl (db : Db) : Falls db db := ⟨Finset.Subset.refl _, fun _ t h => ⟨t, h, fun hz => hz⟩⟩

lemma Rested.frame {own : Row → Prop} (hf : Frame own db db') (ho : own (.task id))
    (h : Rested db id) : Rested db' id := by
  obtain ⟨t, ht, hz⟩ := h
  exact ⟨t, by rw [hf.task id ho, ht], hz⟩

lemma Ordered.stable {s : Stage} (hf : Frame x.Owns db db') (hfall : Falls db db')
    (h : Ordered db x s) : Ordered db' x s := by
  have hrest : (∀ w, x.Owns (.task w) → Rested db w) → ∀ w, x.Owns (.task w) → Rested db' w :=
    fun hr w ho => (hr w ho).frame hf ho
  cases s with
  | opened | done | failed | inserting | suspending => exact h
  | claiming => exact ⟨fun id hid => hfall.idle (h.1 id hid), hrest h.2⟩
  | holding | locking | locked => exact hrest h
  | retrying => exact ⟨hfall.waits.trans h.1, hrest h.2⟩
  | due | timingOut => exact ⟨hfall.waits.trans h.1, h.2⟩
  | waking snap stamp settled removed left =>
    refine ⟨h.1, fun w ho => (h.2 w ho).imp_right fun hh => ?_⟩
    cases stamp with
    | none => exact Rested.frame hf ho hh
    | some now => exact hh

lemma Orderly.stable (hc : Covered db x) (hf : Frame x.Owns db db') (hfall : Falls db db')
    (h : Orderly db x) : Orderly db' x := by
  refine ⟨⟨fun e he => ?_, fun id t' ht' => ?_⟩, h.waits, fun l hl =>
    ⟨(h.guarded l hl).1, fun id hid => ?_⟩, h.stage.stable hf hfall⟩
  · rcases ((Db.mem_patch_waits e).mp he).1 with he | he
    · exact he
    · rw [h.waits] at he
      exact absurd he (Finset.notMem_empty e)
  · cases hv : x.delta.tasks.get id with
    | none =>
      rw [view_task_of_none hv] at ht'
      exact ⟨t', ht', fun hz => hz⟩
    | some v =>
      have hsame : (x.view db').tasks.get id = (x.view db).tasks.get id := by
        rw [Txn.view, Txn.view, Db.patch_tasks, Db.patch_tasks, hv, Option.getD_some, Option.getD_some]
      rw [hf.task id (hc.tasks id v hv).1]
      exact h.falls.tasks id t' (hsame ▸ ht')
  · refine ((h.guarded l hl).2 id hid).imp_right ?_
    rintro ⟨p, hp, hn⟩
    obtain ⟨p', hp', -, hd, -⟩ := hf.later.promise id p hp
    exact ⟨p', hp', fun hc' => hn ((Promise.isCall_congr hd).mp hc')⟩

lemma Orderly.opened (db : Db) : Orderly db {} := by
  refine ⟨?_, rfl, fun l hl => absurd hl List.not_mem_nil, rfl⟩
  rw [Txn.view_empty rfl]
  exact .refl db

end Stable

section Steps

variable {db : Db} {grant : Lock Row → Bool} {x y : Txn} {a : Act} {id : Id}

lemma Orderly.falls_step (h : Orderly db x) (hw : Writes db x y) :
    Falls db (y.view db) ∧ y.delta.waits = ∅ := by
  have hwaits : y.delta.waits = ∅ → (y.view db).waits ⊆ db.waits := by
    intro hn e he
    rcases ((Db.mem_patch_waits e).mp he).1 with he | he
    · exact he
    · rw [hn] at he
      exact absurd he (Finset.notMem_empty e)
  cases hw with
  | none hd =>
    have hv : y.view db = x.view db := by rw [Txn.view, Txn.view, hd]
    exact ⟨hv ▸ h.falls, hd ▸ h.waits⟩
  | insert task e left inserted hs hn hw hp ht =>
    have hst := h.stage
    rw [hs] at hst
    exact hst.elim
  | task id t t' ht hp hw hd hle =>
    refine ⟨⟨hwaits (hw.trans h.waits), fun j u hu => ?_⟩, hw.trans h.waits⟩
    rw [Txn.view, Db.patch_tasks, hd, Dict.get_set] at hu
    split_ifs at hu with hj
    · cases hu
      obtain ⟨t₀, ht₀, hz⟩ := h.falls.tasks id t ht
      exact ⟨t₀, hj ▸ ht₀, fun h₀ => Nat.eq_zero_of_le_zero (hz h₀ ▸ hle)⟩
    · exact h.falls.tasks j u (by rw [Txn.view, Db.patch_tasks, hu])
  | suspend task snap awaited found t t' hs ht hp hw hd =>
    have hst := h.stage
    rw [hs] at hst
    exact hst.elim
  | settle snap stamp settled removed hs ht hw hp =>
    refine ⟨⟨hwaits (hw.trans h.waits), fun j u hu => h.falls.tasks j u ?_⟩, hw.trans h.waits⟩
    rwa [Txn.view, Db.patch_tasks, ht, ← Db.patch_tasks] at hu
  | delete snap stamp settled removed kept hs hy =>
    subst hy
    set deleted := removed.filter fun id => ¬ (id ∈ kept ∧ (x.delta.tasks.get id).isSome)
    obtain ⟨-, hw⟩ := Delta.foldl_deleteTask_rest deleted x.delta
    refine ⟨⟨hwaits (hw.trans h.waits), fun j u hu => ?_⟩, hw.trans h.waits⟩
    change (db.patch (deleted.foldl Delta.deleteTask x.delta)).tasks.get j = some u at hu
    rw [Db.patch_tasks, Delta.foldl_deleteTask] at hu
    split_ifs at hu
    · cases hu
    · exact h.falls.tasks j u (by rw [Txn.view, Db.patch_tasks, hu])

lemma Guarded.same (h : Guarded db x) (hl : y.locks = x.locks) : Guarded db y := by
  intro l hm
  refine ⟨(h l (hl ▸ hm)).1, fun id hid => ?_⟩
  rw [Txn.Owns, hl]
  exact (h l (hl ▸ hm)).2 id hid

lemma Guarded.lock (h : Guarded db x) (r : Row) {m : Mode} (hm : m ≠ .keyShare)
    (hr : ∀ id, r = .promise id →
      x.Owns (.task id) ∨ ∃ p, db.promises.get id = some p ∧ ¬ p.IsCall) :
    Guarded db (x.lock r m) := by
  intro l hl
  rcases List.mem_cons.mp hl with rfl | hl
  · exact ⟨hm, fun id hid => (hr id hid).imp_left fun ho => ho.lock r m⟩
  · exact ⟨(h l hl).1, fun id hid => ((h l hl).2 id hid).imp_left fun ho => ho.lock r m⟩

lemma Txn.owns_lock {r r' : Row} {m : Mode} (h : (x.lock r m).Owns r') : r' = r ∨ x.Owns r' := by
  obtain ⟨l, hl, hr, hm⟩ := h
  rcases List.mem_cons.mp hl with rfl | hl
  · exact Or.inl hr.symm
  · exact Or.inr ⟨l, hl, hr, hm⟩

lemma Txn.owns_lock_promise {m : Mode} {w : Id} (h : (x.lock (.promise id) m).Owns (.task w)) :
    x.Owns (.task w) := (owns_lock h).resolve_left nofun

lemma Txn.not_owns {r : Row} (h : x.locks = []) : ¬ x.Owns r := by
  rintro ⟨l, hl, -⟩
  rw [h] at hl
  cases hl

lemma lockedWaiters_sorted (snap : Db) (settled : List Id) :
    (lockedWaiters snap settled).Pairwise (· < ·) := by
  have hle : (lockedWaiters snap settled).Pairwise (· ≤ ·) := List.pairwise_insertionSort _ _
  exact (hle.and (lockedWaiters_nodup snap settled)).imp fun ⟨h, hne⟩ => lt_of_le_of_ne h hne

lemma mem_claimCandidates {topic : String} {excluded : List (String × ℕ)} {now : Time}
    (h : id ∈ claimCandidates db topic excluded now) : Idle db id := by
  obtain ⟨⟨j, t⟩, he, rfl⟩ := List.mem_map.mp h
  obtain ⟨hm, hf⟩ := List.mem_filter.mp ((List.mem_insertionSort _).mp he)
  intro t' ht'
  rw [(Dict.mem_entries _ _ _).mp hm] at ht'
  cases ht'
  simp only [claimable, decide_eq_true_eq, Bool.decide_and, Bool.and_eq_true] at hf
  exact hf.1.2.2.1

lemma Ordered.wakeFor {snap : Db} {stamp : Option Time} {settled removed : List Id}
    (h : ∀ w, x.Owns (.task w) → Taken db snap stamp w) :
    Ordered db (x.wakeFor snap stamp settled removed)
      (.waking snap stamp settled removed (lockedWaiters snap settled)) :=
  ⟨lockedWaiters_sorted snap settled, fun w ho => Or.inr (h w ho)⟩

def LocksInOrder (db : Db) (y : Txn) : Prop := Guarded db y ∧ Ordered db y y.stage

lemma LocksInOrder.over (h : Guarded db x) (hl : y.locks = x.locks)
    (hs : y.stage = .done ∨ y.stage = .failed) : LocksInOrder db y := by
  refine ⟨h.same hl, ?_⟩
  rcases hs with hs | hs <;> rw [hs] <;> trivial

lemma Orderly.claimNext {snap : Db} {topic : String} {excluded : List (String × ℕ)} {now : Time}
    {left : List Id} (hx : Safe db x) (h : Orderly db x)
    (hs : x.stage = .claiming snap topic excluded now (id :: left)) :
    LocksInOrder db (x.claimNext db grant snap topic excluded now id left) := by
  have hst := hx.stage
  have hord := h.stage
  rw [hs] at hst hord
  obtain ⟨hidle, hrest⟩ := hord
  have hleft : ∀ j ∈ left, Idle db j := fun j hj => hidle j (List.mem_cons_of_mem _ hj)
  rw [Txn.claimNext]
  split_ifs with hg
  · split
    · exact ⟨h.guarded.same rfl, hleft, hrest⟩
    · rename_i t ht
      have hget : db.tasks.get id = some t := (view_empty hst id).2 ▸ ht
      have hrest' : ∀ w, (x.lock (.task id) .update).Owns (.task w) → Rested db w := by
        intro w ho
        rcases Txn.owns_lock ho with heq | ho
        · cases heq
          exact ⟨t, hget, hidle id List.mem_cons_self t hget⟩
        · exact hrest w ho
      have hguard : Guarded db (x.lock (.task id) .update) :=
        h.guarded.lock _ (by simp) fun j hj => (by cases hj)
      split_ifs
      · exact ⟨hguard.same rfl, hrest'⟩
      · exact ⟨hguard.same rfl, hleft, hrest'⟩
  · exact ⟨h.guarded.same rfl, hleft, hrest⟩

lemma Orderly.settleFor {snap : Db} {o : Outcome} (h : Guarded db x)
    (hrest : ∀ w, x.Owns (.task w) → Rested db w) :
    LocksInOrder db ((x.settlePromise db id o).wakeFor snap none [id] [id]) := by
  have hl : (x.settlePromise db id o).locks = x.locks := Txn.settlePromise_locks x db id o
  refine ⟨h.same hl, Ordered.wakeFor fun w ho => hrest w ?_⟩
  rwa [Txn.Owns, hl] at ho

lemma Orderly.lockExpired {s : Due} (h : Orderly db x) (hs : x.stage = .due s)
    (hy : x.lockExpired db grant s = some y) : LocksInOrder db y := by
  have hord := h.stage
  rw [hs] at hord
  obtain ⟨hwaits, hleft, howns⟩ := hord
  rw [Txn.lockExpired] at hy
  split at hy
  · cases hy
  · rename_i id left htasks
    rw [htasks] at hleft
    have hrest : ∀ w ∈ left, w ∈ expiredTasks s.snap s.now := fun w hw =>
      hleft w (List.mem_cons_of_mem _ hw)
    split_ifs at hy with hlimit hg <;> cases hy
    · have hguard : Guarded db (x.lock (.task id) .update) :=
        h.guarded.lock _ (by simp) fun j hj => (by cases hj)
      refine ⟨hguard.same rfl, hwaits, hrest, fun w ho => ?_⟩
      rcases Txn.owns_lock ho with heq | ho
      · cases heq
        exact hleft id List.mem_cons_self
      · exact howns w ho
    · exact ⟨h.guarded.same rfl, hwaits, hrest, howns⟩

lemma Orderly.lockTimer {s : Due} (hx : Safe db x) (h : Orderly db x) (hs : x.stage = .due s)
    (hy : x.lockTimer db grant s = some y) : LocksInOrder db y := by
  have hst := hx.stage
  have hord := h.stage
  rw [hs] at hst hord
  rw [Txn.lockTimer] at hy
  split at hy
  · cases hy
  · rename_i id left htimers
    rw [Option.ite_none_left_eq_some] at hy
    obtain ⟨-, hy⟩ := hy
    have hguard : Guarded db (x.lock (.promise id) .update) := by
      refine h.guarded.lock _ (by simp) fun j hj => Or.inr ?_
      cases hj
      obtain ⟨p, hp, -, hcall⟩ := hst.1.timerDue id (by rw [htimers]; simp)
      obtain ⟨p', hp', -, hd, -⟩ := hst.1.later.promise id p hp
      exact ⟨p', hp', fun hc => hcall.mp ((Promise.isCall_congr hd).mp hc)⟩
    have howns : ∀ w, (x.lock (.promise id) .update).Owns (.task w) →
        w ∈ expiredTasks s.snap s.now := fun w ho => hord.2.2 w (Txn.owns_lock_promise ho)
    split_ifs at hy <;> cases hy
    · exact ⟨hguard.same rfl, hord.1, hord.2.1, howns⟩
    · exact ⟨hguard.same rfl, hord.1, hord.2.1, howns⟩
    · exact ⟨h.guarded.same rfl, hord⟩

lemma Orderly.lockTimeout {s : Due} (hx : Safe db x) (h : Orderly db x) (hs : x.stage = .timingOut s)
    (hy : x.lockTimeout db grant s = some y) : LocksInOrder db y := by
  have hst := hx.stage
  have hord := h.stage
  rw [hs] at hst hord
  rw [Txn.lockTimeout] at hy
  split at hy
  · cases hy
  · rename_i id left htimeouts
    have hguard : Guarded db (x.lock (.promise id) .update) := by
      refine h.guarded.lock _ (by simp) fun j hj => Or.inl ?_
      cases hj
      exact (hst.expired id (hst.timeoutDue id (by rw [htimeouts]; simp))).1
    have howns : ∀ w, (x.lock (.promise id) .update).Owns (.task w) →
        w ∈ expiredTasks s.snap s.now := fun w ho => hord.2.2 w (Txn.owns_lock_promise ho)
    split_ifs at hy <;> cases hy
    · exact ⟨hguard.same rfl, hord.1, hord.2.1, howns⟩
    · exact ⟨hguard.same rfl, hord.1, hord.2.1, howns⟩
    · exact ⟨h.guarded.same rfl, hord⟩

lemma Orderly.settleDue {s : Due} (h : Orderly db x) (hs : x.stage = .timingOut s)
    (hy : x.settleDue db s = some y) : LocksInOrder db y := by
  have hord := h.stage
  rw [hs] at hord
  rw [Txn.settleDue, Option.ite_none_left_eq_some] at hy
  obtain ⟨-, hy⟩ := hy
  cases hy
  obtain ⟨-, -, hl⟩ := Txn.foldl_settlePromise_rest db s.timerDue x
    (.resolved (some timerResult) s.now)
  obtain ⟨-, -, hl'⟩ := Txn.foldl_settlePromise_rest db s.timeoutDue
    (s.timerDue.foldl (fun y id => y.settlePromise db id (.resolved (some timerResult) s.now)) x)
    (.timedOut promiseTimeout s.now)
  refine ⟨h.guarded.same (hl'.trans hl), Ordered.wakeFor fun w ho => hord.2.2 w ?_⟩
  rwa [Txn.Owns, hl', hl] at ho

lemma Orderly.wake {snap : Db} {stamp : Option Time} {settled removed left : List Id} {w : Id}
    {clock : Time} (h : Orderly db x)
    (hs : x.stage = .waking snap stamp settled removed (w :: left))
    (hy : x.wake db grant snap stamp settled removed w left clock = some y) : LocksInOrder db y := by
  have hord := h.stage
  rw [hs] at hord
  obtain ⟨hsorted, howns⟩ := hord
  rw [List.pairwise_cons] at hsorted
  have hkept : ∀ v, x.Owns (.task v) → (∀ u ∈ left, v < u) ∨ Taken db snap stamp v := fun v ho =>
    (howns v ho).imp_left fun hlt u hu => hlt u (List.mem_cons_of_mem _ hu)
  have hlock : ∀ v, (x.lock (.task w) .update).Owns (.task v) →
      (∀ u ∈ left, v < u) ∨ Taken db snap stamp v := by
    intro v ho
    rcases Txn.owns_lock ho with heq | ho
    · cases heq
      exact Or.inl hsorted.1
    · exact hkept v ho
  have hguard : Guarded db (x.lock (.task w) .update) :=
    h.guarded.lock _ nofun fun j hj => (by cases hj)
  rw [Txn.wake] at hy
  split_ifs at hy
  split at hy
  · cases hy
    exact ⟨h.guarded.same rfl, hsorted.2, hkept⟩
  · split_ifs at hy <;> cases hy <;> exact ⟨hguard.same rfl, hsorted.2, hlock⟩

lemma Orderly.step (hw : Wf db) (hx : Safe db x) (h : Orderly db x)
    (ha : a.settles = true ∨ a.maintains = true) (hs : Txn.Step db grant x a y) : Orderly db y := by
  obtain ⟨hfalls, hwaits⟩ := h.falls_step hs.writes
  have hst := hx.stage
  have hord := h.stage
  suffices hl : LocksInOrder db y from ⟨hfalls, hwaits, hl.1, hl.2⟩
  cases hs with
  | submit hsub =>
    obtain ⟨rs, rfl, -⟩ | ⟨r, rfl, -⟩ := hsub <;> rcases ha with ha | ha <;> cases ha
  | insertNext | insertEnd | suspendTask | suspendNext | suspendEnd =>
    rcases ha with ha | ha <;> cases ha
  | claim hs =>
    rw [hs] at hst hord
    have hv : x.view db = db := Txn.view_empty hst
    exact ⟨h.guarded.same rfl, fun id hid => mem_claimCandidates (hv ▸ hid),
      fun w ho => absurd ho (Txn.not_owns hord)⟩
  | claimNext hs => exact h.claimNext hx hs
  | claimNone hs => exact .over h.guarded rfl (Or.inr rfl)
  | settleTask hs =>
    rw [hs] at hord
    rw [Txn.settleTask]
    split_ifs
    · exact ⟨h.guarded.same rfl, hord⟩
    · exact .over h.guarded rfl (Or.inr rfl)
  | @lockPromise task settlement y hs hy =>
    rw [hs] at hst hord
    have hguard : Guarded db (x.lock (.promise task.id) .update) := by
      refine h.guarded.lock _ (by simp) fun j hj => Or.inl ?_
      cases hj
      exact Holds.owns hst
    rw [Txn.lockPromise] at hy
    split_ifs at hy <;> cases hy
    · exact ⟨hguard.same rfl, fun w ho => hord w (Txn.owns_lock_promise ho)⟩
    · exact .over hguard rfl (Or.inr rfl)
  | settle hs =>
    rw [hs] at hord
    rw [Txn.settle]
    split_ifs
    · exact Orderly.settleFor h.guarded hord
    · exact .over h.guarded rfl (Or.inr rfl)
  | retryTask hs =>
    rw [hs] at hst hord
    rw [Txn.retryTask]
    split
    · exact .over h.guarded rfl (Or.inr rfl)
    · split_ifs
      · exact .over h.guarded rfl (Or.inl rfl)
      · refine ⟨h.guarded.same rfl, fun e he => ?_, hord⟩
        exact (Holds.inserts hst).seesAll hw hx.covered [e.2] e he List.mem_cons_self
      · exact .over h.guarded rfl (Or.inr rfl)
  | @reject task snap error clock y hs hy =>
    rw [hs] at hst hord
    rw [Txn.reject] at hy
    split_ifs at hy
    cases hy
    have hguard : Guarded db (x.lock (.promise task.id) .noKeyUpdate) := by
      refine h.guarded.lock _ (by simp) fun j hj => Or.inl ?_
      cases hj
      exact (Retrying.holds hst).owns
    exact Orderly.settleFor hguard fun w ho => hord.2 w (Txn.owns_lock_promise ho)
  | processDue hs =>
    rw [hs] at hst hord
    refine ⟨h.guarded.same rfl, ?_, fun w hw => hw, fun w ho => absurd ho (Txn.not_owns hord)⟩
    change db.waits ⊆ (x.view db).waits
    rw [Txn.view_empty hst]
  | lockExpired hs hy => exact h.lockExpired hs hy
  | lockTimer hs hy => exact h.lockTimer hx hs hy
  | expiredEnd hs hy =>
    rw [hs] at hord
    rw [Txn.expiredEnd] at hy
    split_ifs at hy
    cases hy
    exact ⟨h.guarded.same rfl, hord⟩
  | lockTimeout hs hy => exact h.lockTimeout hx hs hy
  | settleDue hs hy => exact h.settleDue hs hy
  | wake hs hy => exact h.wake hs hy
  | wakeEnd hs => exact .over h.guarded rfl (Or.inl rfl)

lemma Txn.Step.unstamped (hs : Txn.Step db grant x a y) (ha : a.settles = true)
    (h : x.stage.stamped = false) : y.stage.stamped = false := by
  cases hs with
  | submit hsub =>
    obtain ⟨rs, rfl, -⟩ | ⟨r, rfl, -⟩ := hsub <;> cases ha
  | insertNext | insertEnd | suspendTask | suspendNext | suspendEnd | processDue | lockExpired
  | lockTimer | expiredEnd | lockTimeout | settleDue => cases ha
  | claim | claimNone | wakeEnd => rfl
  | claimNext =>
    rw [Txn.claimNext]
    split_ifs
    · split
      · rfl
      · split_ifs <;> rfl
    · rfl
  | settleTask =>
    rw [Txn.settleTask]
    split_ifs <;> rfl
  | lockPromise hs hy =>
    rw [Txn.lockPromise] at hy
    split_ifs at hy <;> cases hy <;> rfl
  | settle =>
    rw [Txn.settle]
    split_ifs <;> rfl
  | retryTask =>
    rw [Txn.retryTask]
    split
    · rfl
    · split_ifs <;> rfl
  | reject hs hy =>
    rw [Txn.reject] at hy
    split_ifs at hy
    cases hy
    rfl
  | wake hs hy =>
    rw [hs] at h
    rw [Txn.wake] at hy
    split_ifs at hy
    split at hy
    · cases hy
      exact h
    · split_ifs at hy <;> cases hy <;> exact h

lemma Orderly.sees (h : Orderly db x) (a : Act) : Sees db x.stage a := by
  have hord := h.stage
  cases a with
  | reject clock =>
    change RetrySees db x.stage
    cases hs : x.stage with
    | retrying task snap error =>
      rw [hs] at hord
      exact fun e he _ => hord.1 he
    | _ => trivial
  | settleDue =>
    change DueSees db x.stage
    cases hs : x.stage with
    | timingOut s =>
      rw [hs] at hord
      exact fun e he _ => hord.1 he
    | _ => trivial
  | _ => trivial

end Steps

namespace Sys

structure Quiet (s : Sys) : Prop extends Counted s where
  orderly : ∀ k x, s.txns.get k = some x → Orderly s.committed x

variable {s s' : Sys} {j k : ℕ} {a : Action} {as : List (ℕ × Action)}

lemma Quiet.start {db : Db} (hw : Wf db) (he : Exact db) : Quiet { committed := db } :=
  ⟨.start hw he, fun _ _ hx => (by cases hx)⟩

lemma Quiet.step (h : Quiet s) (ha : a.settles = true ∨ a.maintains = true)
    (hs : s.step k a = some s') : Quiet s' := by
  have hcounted : Counted s' := h.toCounted.step hs fun b x _ hx => (h.orderly k x hx).sees b
  obtain ⟨-, -, rfl⟩ | ⟨b, x, y, rfl, hx, hy, rfl⟩ | ⟨x, -, hx, -, rfl⟩ | ⟨-, rfl⟩ := step_cases hs
  · exact ⟨hcounted, Dict.forall_set (fun j u _ hj => h.orderly j u hj) (.opened _)⟩
  · exact ⟨hcounted, Dict.forall_set (fun j u _ hj => h.orderly j u hj)
      ((h.orderly k x hx).step h.wf (h.safe k x hx) ha hy)⟩
  · refine ⟨hcounted, Dict.forall_erase fun j u hjk hj => ?_⟩
    exact (h.orderly j u hj).stable (h.safe j u hj).covered (h.frame hjk hj hx) (h.orderly k x hx).falls
  · exact ⟨hcounted, Dict.forall_erase fun j u _ hj => h.orderly j u hj⟩

lemma Quiet.not_locked (h : Quiet s) {x y : Txn} (hx : s.txns.get j = some x)
    (hy : s.txns.get k = some y) (hjk : j ≠ k) {id : Id} (hh : Holds s.committed x id)
    {m : Lock Row} (hm : m ∈ y.locks) : m.row ≠ .promise id := by
  intro hrow
  rcases ((h.orderly k y hy).guarded m hm).2 id hrow with ho | ⟨p, hp, hn⟩
  · refine h.exclusive.not_owns hjk (j := j) (k := k) (r := .task id) ?_ ?_
    · rw [held_of_get hx]
      exact hh.owns
    · rwa [held_of_get hy]
  · obtain ⟨-, -, p', hp', hc⟩ := hh.untouched h.wf
    rw [hp] at hp'
    cases hp'
    exact hn hc

lemma Quiet.waking (h : Quiet s) (hjk : s.waitsFor j k = true) :
    j ≠ k ∧ ∃ x y snap stamp settled removed w left, s.txns.get j = some x ∧ s.txns.get k = some y ∧
      x.stage = .waking snap stamp settled removed (w :: left) ∧ s.target j = w ∧
      (∃ m ∈ y.locks, m.row = .task w) ∧ y.Owns (.task w) := by
  rw [waitsFor, Bool.and_eq_true, decide_eq_true_eq, Option.any_eq_true] at hjk
  obtain ⟨hjk, x, hx, hw⟩ := hjk
  obtain ⟨y, hy, hw⟩ := (Option.any_eq_true _ _).mp hw
  obtain ⟨l, hl, hw⟩ := (Option.any_eq_true _ _).mp hw
  obtain ⟨m, hm, hw⟩ := List.any_eq_true.mp hw
  rw [Bool.and_eq_true, decide_eq_true_eq] at hw
  refine ⟨hjk, x, y, ?_⟩
  have hst := (h.safe j x hx).stage
  have htarget : s.target j = match x.wants with
      | some ⟨.task w, _⟩ => w
      | _ => "" := by rw [target, hx, Option.bind_some]
  rw [hl] at htarget
  rw [Txn.wants] at hl
  split at hl
  · rename_i hs
    cases hl
    rw [hs] at hst
    exact absurd hw.1 (h.not_locked hx hy hjk hst hm)
  · rename_i hs
    cases hl
    rw [hs] at hst
    exact absurd hw.1 (h.not_locked hx hy hjk (Retrying.holds hst) hm)
  · rename_i snap stamp settled removed w left hs
    cases hl
    refine ⟨snap, stamp, settled, removed, w, left, hx, hy, hs, htarget, ⟨m, hm, hw.1⟩, m, hm,
      hw.1, ((h.orderly k y hy).guarded m hm).1⟩
  · cases hl

lemma Quiet.not_rested (h : Quiet s) {x : Txn} (hx : s.txns.get j = some x) {snap : Db}
    {stamp : Option Time} {settled removed left : List Id} {w : Id}
    (hs : x.stage = .waking snap stamp settled removed (w :: left)) : ¬ Rested s.committed w := by
  rintro ⟨t, ht, hz⟩
  have hst := (h.safe j x hx).stage
  rw [hs] at hst
  obtain ⟨hn, -, hcount⟩ := hst.untouched w List.mem_cons_self
  obtain ⟨a, ha, hwait⟩ := settledCount_pos.mp hcount
  obtain ⟨-, -, p, o, hp, hpend, -⟩ := hst.written a ha
  have hview : (w, a) ∈ (x.view s.committed).waits := by
    refine hst.snapshot.later.waits _ hwait ?_
    rw [view_task_of_none hn, ht]
    nofun
  have hin : (w, a) ∈ s.committed.pendingAwaited w :=
    Db.mem_pendingAwaited.mpr ⟨(h.orderly j x hx).falls.waits hview, rfl, Db.pending_iff.mpr ⟨p, hp, hpend⟩⟩
  rw [Finset.card_eq_zero.mp ((h.exact w t ht).symm.trans hz)] at hin
  cases hin

lemma Quiet.target_lt (h : Quiet s) (hapart : s.apart = true) {i : ℕ} (hjk : s.waitsFor j k = true)
    (hki : s.waitsFor k i = true) : s.target j < s.target k := by
  obtain ⟨hne, x, y, snap, stamp, settled, removed, w, left, hx, hy, hs, htj, ⟨m, hm, hrow⟩, ho⟩ :=
    h.waking hjk
  obtain ⟨-, y', -, snap', stamp', settled', removed', v, left', hy', -, hs', htk, -, -⟩ := h.waking hki
  rw [hy] at hy'
  cases hy'
  rw [htj, htk]
  have hord := (h.orderly k y hy).stage
  rw [hs'] at hord
  rcases hord.2 w ho with hlt | htaken
  · exact hlt v List.mem_cons_self
  · cases stamp' with
    | none => exact absurd htaken (h.not_rested hx hs)
    | some now =>
      have hpair := List.all_eq_true.mp (List.all_eq_true.mp hapart (j, x)
        ((Dict.mem_entries _ _ _).mpr hx)) (k, y) ((Dict.mem_entries _ _ _).mpr hy)
      have hprec : x.precedes y = true := by simpa [hne] using hpair
      rw [Txn.precedes, hs, hs'] at hprec
      have hw := List.all_eq_true.mp hprec w List.mem_cons_self
      have hexp : w ∈ expiredTasks snap' now := htaken
      have hlocked : (y.locks.any fun l => l.row = .task w) = true :=
        List.any_eq_true.mpr ⟨m, hm, decide_eq_true hrow⟩
      rw [hlocked, decide_eq_true hexp] at hw
      exact of_decide_eq_true (List.all_eq_true.mp hw v List.mem_cons_self)

lemma Quiet.noDeadlock (h : Quiet s) (hapart : s.apart = true) : s.NoDeadlock :=
  WaitFor.acyclic s.target fun _ _ _ hjk hki => h.target_lt hapart hjk hki

lemma Quiet.run (h : Quiet s) (hr : s.run as = some s')
    (hscope : ∀ e ∈ as, e.2.settles = true ∨ e.2.maintains = true) : Quiet s' := by
  induction as generalizing s with
  | nil =>
    cases hr
    exact h
  | cons e as ih =>
    obtain ⟨s₁, hs, hr⟩ := Option.bind_eq_some_iff.mp hr
    exact ih (h.step (hscope e List.mem_cons_self) hs) hr fun f hf =>
      hscope f (List.mem_cons_of_mem _ hf)

lemma apart_run (h : s.apart = true) (hr : s.run as = some s') (ha : along staysApart s as = true) :
    s'.apart = true := by
  induction as generalizing s with
  | nil =>
    cases hr
    exact h
  | cons e as ih =>
    obtain ⟨s₁, hs, hr⟩ := Option.bind_eq_some_iff.mp hr
    rw [along, Bool.and_eq_true, staysApart, hs] at ha
    exact ih ha.1 hr ha.2

/-- PROCESS_DUE and settlements do not deadlock in a run that keeps them apart: whenever two of them
are waking tasks, and one is to wake a task that the other has locked as expired, it does so before
the other wants its next row. -/
theorem due_no_deadlock {db : Db} (hw : Wf db) (he : Exact db)
    (hr : run { committed := db } as = some s)
    (hscope : ∀ e ∈ as, e.2.settles = true ∨ e.2.maintains = true)
    (hapart : along staysApart { committed := db } as = true) : s.NoDeadlock :=
  ((Quiet.start hw he).run hr hscope).noDeadlock (apart_run rfl hr hapart)

def sleeper (id : Id) : CallRequest := sampleCall id none 3 nofun rootCall.maxFailures_pos

def sleepTimer (id : Id) (dueAt : Time) (h : some id ≠ some (id ++ ":timer")) : TimerRequest where
  id := id ++ ":timer"
  idempotencyKey := id
  rootId := some id
  dueAt := dueAt
  retentionMs := 1
  root_ne := h

def twoSleepers : List (ℕ × Action) :=
  session 0 [.submitCalls [sleeper "x"], .insertNext, .insertEnd] ++
    session 0 [.submitCalls [sleeper "y"], .insertNext, .insertEnd] ++
    session 0 (claimNth 1 0 ++ [.submitTimer (sleepTimer "x" 20 (by decide)), .insertNext, .insertEnd] ++
      awaits "x:timer") ++
    session 0 (claimNth 1 0 ++ [.submitTimer (sleepTimer "y" 10 (by decide)), .insertNext, .insertEnd] ++
      awaits "y:timer")

lemma twoSleepers_runs : (run {} twoSleepers).isSome = true := by decide +kernel

def asleep : Db := ((run {} twoSleepers).get twoSleepers_runs).committed

lemma asleep_wf : Wf asleep :=
  ((Sound.start .empty).run (Option.some_get twoSleepers_runs).symm).1.wf

lemma asleep_exact : Exact asleep :=
  ((Counted.start .empty .empty).run (Option.some_get twoSleepers_runs).symm
    (Or.inl (by decide)) (Or.inl (by decide))).exact

/-- One PROCESS_DUE locks x and the timer of y, and the other one y and the timer of x. -/
def crossedScans : List (ℕ × Action) :=
  opening 1 [.processDue 1 200, .lockExpired, .lockTimer, .expiredEnd] ++
    opening 2 [.processDue 1 200, .lockExpired, .lockExpired, .lockTimer, .lockTimer, .expiredEnd] ++
    [(1, .act .lockTimeout), (1, .act .settleDue)]

lemma crossedScans_runs : (run { committed := asleep } crossedScans).isSome = true := by decide +kernel

theorem due_no_deadlock_crossed :
    ((run { committed := asleep } crossedScans).get crossedScans_runs).NoDeadlock :=
  due_no_deadlock asleep_wf asleep_exact (Option.some_get crossedScans_runs).symm (by decide)
    (by decide +kernel)

def crossed : List (ℕ × Action) := crossedScans ++ [(2, .act .lockTimeout), (2, .act .settleDue)]

lemma crossed_runs : (run { committed := asleep } crossed).isSome = true := by decide +kernel

theorem due_deadlocks : ¬ ∀ (db : Db) (as : List (ℕ × Action)) (s : Sys), Wf db → Exact db →
    run { committed := db } as = some s →
      (∀ e ∈ as, e.2.settles = true ∨ e.2.maintains = true) → s.NoDeadlock := by
  intro h
  have hnone := h asleep crossed _ asleep_wf asleep_exact (Option.some_get crossed_runs).symm (by decide)
  refine hnone 1 (.tail (.single (b := 2) ?_) ?_)
  · decide +kernel
  · decide +kernel

def Settling (s : Sys) : Prop := ∀ k x, s.txns.get k = some x → x.stage.stamped = false

lemma Settling.step (h : Settling s) (ha : a.settles = true) (hs : s.step k a = some s') :
    Settling s' := by
  obtain ⟨-, -, rfl⟩ | ⟨b, x, y, rfl, hx, hy, rfl⟩ | ⟨x, -, hx, -, rfl⟩ | ⟨-, rfl⟩ := step_cases hs
  · exact Dict.forall_set (fun j u _ hj => h j u hj) rfl
  · exact Dict.forall_set (fun j u _ hj => h j u hj) (hy.unstamped ha (h k x hx))
  · exact Dict.forall_erase fun j u _ hj => h j u hj
  · exact Dict.forall_erase fun j u _ hj => h j u hj

lemma Settling.run (h : Settling s) (hr : s.run as = some s')
    (hscope : ∀ e ∈ as, e.2.settles = true) : Settling s' := by
  induction as generalizing s with
  | nil =>
    cases hr
    exact h
  | cons e as ih =>
    obtain ⟨s₁, hs, hr⟩ := Option.bind_eq_some_iff.mp hr
    exact ih (h.step (hscope e List.mem_cons_self) hs) hr fun f hf =>
      hscope f (List.mem_cons_of_mem _ hf)

lemma Settling.apart (h : Settling s) : s.apart = true := by
  refine List.all_eq_true.mpr fun e he => List.all_eq_true.mpr fun f hf => ?_
  rw [Bool.or_eq_true]
  refine Or.inr ?_
  have hst := h f.1 f.2 ((Dict.mem_entries _ _ _).mp hf)
  rw [Txn.precedes]
  split
  · rename_i hs
    rw [hs] at hst
    cases hst
  · rfl

/-- From exact counts, workers that each claim a task and settle it never deadlock, whatever waits
for what and in whatever order they take their locks. -/
theorem settle_no_deadlock {db : Db} (hw : Wf db) (he : Exact db)
    (hr : run { committed := db } as = some s) (hscope : ∀ e ∈ as, e.2.settles = true) :
    s.NoDeadlock := by
  have hsettling : Settling { committed := db } := fun _ _ hx => (by cases hx)
  exact ((Quiet.start hw he).run hr fun e he => Or.inl (hscope e he)).noDeadlock
    (hsettling.run hr hscope).apart

def joined : List (ℕ × Action) :=
  session 0 [.submitCalls [rootCall], .insertNext, .insertEnd] ++
    session 0 (claimNth 1 0 ++ [.submitCalls [sampleCall "a" (some "root") 1 (by decide) Nat.one_pos,
      sampleCall "b" (some "root") 1 (by decide) Nat.one_pos], .insertNext, .insertNext,
      .insertEnd, .suspendTask ["a", "b"], .suspendNext, .suspendNext, .suspendEnd 4])

lemma joined_runs : (run {} joined).isSome = true := by decide +kernel

def joining : Db := ((run {} joined).get joined_runs).committed

lemma joining_wf : Wf joining := ((Sound.start .empty).run (Option.some_get joined_runs).symm).1.wf

lemma joining_exact : Exact joining :=
  ((Counted.start .empty .empty).run (Option.some_get joined_runs).symm
    (Or.inl (by decide)) (Or.inl (by decide))).exact

def settling : List Act := [.settleTask (.complete none), .lockPromise, .settle 6]

def fanIn : List (ℕ × Action) :=
  opening 1 (claimNth 1 5 ++ settling) ++ opening 2 (claimNth 2 5 ++ settling) ++ [(1, .act (.wake 7))]

lemma fanIn_runs : (run { committed := joining } fanIn).isSome = true := by decide +kernel

theorem settle_no_deadlock_joined :
    ((run { committed := joining } fanIn).get fanIn_runs).NoDeadlock :=
  settle_no_deadlock joining_wf joining_exact (Option.some_get fanIn_runs).symm (by decide)

end Sys

end Reaper.Store
