import Reaper.Library.WaitFor
import Reaper.Store.Writes
import Reaper.Workflow.Attempts

/-! No graph gets stuck: behind every pending promise there is a timer or a task that can be claimed. -/

namespace Reaper.Workflow

open Reaper.Store Reaper.Library Relation

def numbered (taskId id : Id) : Bool :=
  (List.range maxChildPromises).any fun n =>
    (taskId ++ ":" ++ toString (n + 1) ++ ":").toList.isPrefixOf id.toList

def submits (s : Stage) (id : Id) (rootId : Option Id) : Bool :=
  match s with
  | .holding task => numbered task.id id && rootId = some (task.rootId.getD task.id)
  | _ => rootId = none

/-- Through the durable API, a task submits what next_id numbers, and awaits only that. -/
def byApi (s : Stage) : Act → Bool
  | .submitCalls requests => requests.all fun r => submits s r.id r.rootId
  | .submitTimer request => submits s request.id request.rootId
  | .suspendTask awaited =>
    match s with
    | .holding task => awaited.all (numbered task.id)
    | _ => true
  | _ => true

def actsByApi (db : Db) : Txn → List Act → Bool
  | _, [] => true
  | x, a :: as =>
    byApi x.stage a && (x.advance db (fun _ => true) a).all fun y => actsByApi db y as

def operationByApi (db : Db) : Operation → Bool
  | .transaction acts => actsByApi db {} acts
  | .deleteExpired _ _ => true

def runByApi : Db → List Operation → Bool
  | _, [] => true
  | db, op :: ops => operationByApi db op && (op.apply db).all fun db' => runByApi db' ops

def Backed (db : Db) : Prop :=
  ∀ id p, db.promises.get id = some p → p.Pending → p.IsCall → db.tasks.get id ≠ none

/-- Tasks wait for what they have numbered themselves. -/
def Descends (waits : Finset (Id × Id)) : Prop := ∀ e ∈ waits, numbered e.1 e.2 = true

structure Shaped (db : Db) (x : Txn) : Prop where
  backed : Backed (x.view db)
  waits : Descends x.delta.waits
  awaits : ∀ id awaited, x.stage.awaits = some (id, awaited) →
    ∀ a ∈ awaited, numbered id a = true

variable {db db' : Db} {x y : Txn} {a : Act} {grant : Locks.Lock Row → Bool}

lemma numbered_iff {taskId id : Id} : numbered taskId id = true ↔
    ∃ (x y : Context) (func : String), x.taskId = taskId ∧ x.nextId func = .ok (id, y) := by
  rw [numbered, List.any_eq_true]
  constructor
  · rintro ⟨n, hn, hpre⟩
    obtain ⟨s, hs⟩ := List.isPrefixOf_iff_prefix.mp hpre
    refine ⟨{ taskId := taskId, rootId := taskId, depth := 0, callIndex := n },
      { taskId := taskId, rootId := taskId, depth := 0, callIndex := n + 1 },
      String.ofList s, rfl, ?_⟩
    rw [Context.nextId, if_neg (not_lt.mpr (List.mem_range.mp hn))]
    have hid : taskId ++ ":" ++ toString (n + 1) ++ ":" ++ String.ofList s = id := by
      apply String.toList_inj.mp
      rw [String.toList_append, String.toList_ofList, hs]
    rw [hid]
  · rintro ⟨x, y, func, rfl, hnext⟩
    obtain ⟨hi, rfl, -⟩ := nextId_ok hnext
    refine ⟨x.callIndex, List.mem_range.mpr hi, ?_⟩
    refine List.isPrefixOf_iff_prefix.mpr ⟨func.toList, ?_⟩
    rw [← String.toList_append]

lemma numbered_length {taskId id : Id} (h : numbered taskId id = true) :
    taskId.toList.length < id.toList.length := by
  obtain ⟨x, y, func, rfl, hnext⟩ := numbered_iff.mp h
  obtain ⟨-, rfl, -⟩ := nextId_ok hnext
  simp only [String.toList_append, List.length_append]
  have hcolon : ":".toList.length = 1 := rfl
  omega

section Step

lemma Backed.congr {a b : Db} (h : Backed a) (hp : b.promises = a.promises)
    (ht : ∀ id, a.tasks.get id ≠ none → b.tasks.get id ≠ none) : Backed b :=
  fun id p hget hpend hcall => ht id (h id p (hp ▸ hget) hpend hcall)

lemma view_task_set {id : Id} {t : Task} (hd : y.delta.tasks = x.delta.tasks.set id (some t)) (j : Id)
    (h : (x.view db).tasks.get j ≠ none) : (y.view db).tasks.get j ≠ none := by
  rw [Txn.view, Db.patch_tasks, hd, Dict.get_set]
  split_ifs
  · exact Option.some_ne_none _
  · rwa [Txn.view, Db.patch_tasks] at h

lemma Shaped.backed_step (hx : Safe db x) (h : Shaped db x) (hw : Writes db x y) :
    Backed (y.view db) := by
  cases hw with
  | none hd =>
    have hv : y.view db = x.view db := by rw [Txn.view, Txn.view, hd]
    exact hv ▸ h.backed
  | insert task e left inserted hs hn hw hp ht =>
    have hst := hx.stage
    rw [hs] at hst
    obtain ⟨-, hcall, -⟩ := hst.1 e List.mem_cons_self
    intro id p hget hpend hc
    rw [Txn.view, Db.patch_promises, hp] at hget
    rw [Txn.view, Db.patch_tasks, ht]
    by_cases hid : id = e.id
    · rw [if_pos hid] at hget
      cases hget
      rw [if_pos ⟨hid, hcall.mp hc⟩]
      exact hcall.mp hc
    · rw [if_neg hid] at hget
      rw [if_neg fun hh => hid hh.1]
      have hb := h.backed id p
      rw [Txn.view, Db.patch_promises, Db.patch_tasks] at hb
      exact hb hget hpend hc
  | task id t t' ht hp hw hd hle =>
    exact h.backed.congr (by rw [Txn.view, Txn.view, Db.patch, Db.patch, hp]) (view_task_set hd)
  | suspend task snap awaited found t t' hs ht hp hw hd =>
    exact h.backed.congr (by rw [Txn.view, Txn.view, Db.patch, Db.patch, hp]) (view_task_set hd)
  | settle snap stamp settled removed hs ht hw hp =>
    intro id p hget hpend hc
    rw [Txn.view, Db.patch_promises] at hget
    rw [Txn.view, Db.patch_tasks, ht, ← Db.patch_tasks]
    rcases hp id with hkept | ⟨-, q, o, -, ho, hset⟩
    · rw [hkept, ← Db.patch_promises] at hget
      exact h.backed id p hget hpend hc
    · rw [hset] at hget
      cases hget
      exact absurd hpend (q.settle_not_pending ho)
  | delete snap stamp settled removed kept hs hy =>
    have hst := hx.stage
    rw [hs] at hst
    subst hy
    set deleted := removed.filter fun id => ¬ (id ∈ kept ∧ (x.delta.tasks.get id).isSome)
    obtain ⟨hp, -⟩ := Delta.foldl_deleteTask_rest deleted x.delta
    intro id p hget hpend hc
    change (db.patch (deleted.foldl Delta.deleteTask x.delta)).promises.get id = some p at hget
    rw [Db.patch_promises, hp] at hget
    change (db.patch (deleted.foldl Delta.deleteTask x.delta)).tasks.get id ≠ none
    rw [Db.patch_tasks, Delta.foldl_deleteTask]
    split_ifs with hdel
    · -- what is deleted is the task of a promise that this transaction has settled
      have hrem : id ∈ removed := (List.mem_filter.mp hdel).1
      obtain ⟨-, -, q, o, -, -, ho, hset⟩ := hst.written id (hst.ownTask id hrem).1
      rw [hset] at hget
      cases hget
      exact absurd hpend (q.settle_not_pending ho)
    · rw [← Db.patch_tasks]
      exact h.backed id p (by rw [Txn.view, Db.patch_promises, hget]) hpend hc

lemma Shaped.waits_step (hx : Safe db x) (h : Shaped db x) (hw : Writes db x y) :
    Descends y.delta.waits := by
  cases hw with
  | none hd => exact hd ▸ h.waits
  | insert task e left inserted hs hn hw hp ht => exact hw ▸ h.waits
  | task id t t' ht hp hw hd hle => exact hw ▸ h.waits
  | suspend task snap awaited found t t' hs ht hp hw hd =>
    have hst := hx.stage
    rw [hs] at hst
    intro e he
    rw [hw] at he
    rcases Finset.mem_union.mp he with he | he
    · exact h.waits e he
    · obtain ⟨f, hf, rfl⟩ := List.mem_map.mp (List.mem_toFinset.mp he)
      have hreq := hst.requested f.1 (List.mem_append_left _ (List.mem_map_of_mem hf))
      exact h.awaits task.id awaited (by rw [hs]; rfl) f.1 hreq
  | settle snap stamp settled removed hs ht hw hp => exact hw ▸ h.waits
  | delete snap stamp settled removed kept hs hy =>
    subst hy
    have hrest : (x.wakeEnd removed kept).delta.waits = x.delta.waits :=
      (Delta.foldl_deleteTask_rest _ x.delta).2
    exact hrest ▸ h.waits

lemma Shaped.step (hx : Safe db x) (h : Shaped db x) (hs : Txn.Step db grant x a y)
    (ha : byApi x.stage a = true) : Shaped db y := by
  refine ⟨h.backed_step hx hs.writes, h.waits_step hx hs.writes, fun id awaited hy => ?_⟩
  rcases hs.awaits with hn | heq | ⟨task, as, rfl, hst, hnew⟩
  · rw [hn] at hy
    cases hy
  · exact h.awaits id awaited (heq ▸ hy)
  · rw [hnew] at hy
    cases hy
    rw [hst] at ha
    exact List.all_eq_true.mp ha

end Step

section Runs

structure Flowing (db : Db) : Prop where
  wf : Wf db
  exact : Exact db
  backed : Backed db
  waits : Descends db.waits

lemma Flowing.opened (h : Flowing db) : Shaped db {} := by
  have hv : (Txn.view {} db : Db) = db := Txn.view_empty rfl
  exact ⟨hv.symm ▸ h.backed, fun e he => absurd he (Finset.notMem_empty e), nofun⟩

lemma alone_shaped {acts : List Act} (hw : Wf db) (hx : Safe db x) (h : Shaped db x)
    (ha : actsByApi db x acts = true) (hr : Txn.alone db x acts = some y) : Safe db y ∧ Shaped db y := by
  induction acts generalizing x with
  | nil =>
    cases hr
    exact ⟨hx, h⟩
  | cons a acts ih =>
    obtain ⟨z, hz, hr⟩ := Option.bind_eq_some_iff.mp hr
    have hstep := Txn.Step.of_advance hz
    rw [actsByApi, Bool.and_eq_true, hz] at ha
    exact ih (hx.step hw hstep) (h.step hx hstep ha.1) ha.2 hr

lemma Backed.deleteGraphs (h : Backed db) (roots : List Id) : Backed (db.deleteGraphs roots) := by
  rw [Db.deleteGraphs]
  split_ifs
  · exact h
  · intro id p hget hpend hc
    rw [Dict.get_filter, Option.filter_eq_some_iff] at hget
    obtain ⟨t, ht⟩ := Option.ne_none_iff_exists'.mp (h id p hget.1 hpend hc)
    rw [Dict.get_filter, ht, Option.filter_some, if_pos hget.2]
    exact Option.some_ne_none _

lemma Descends.deleteGraphs (h : Descends db.waits) (roots : List Id) :
    Descends (db.deleteGraphs roots).waits := by
  rw [Db.deleteGraphs]
  split_ifs
  · exact h
  · exact fun e he => h e (Finset.mem_filter.mp he).1

lemma Flowing.apply {op : Operation} (h : Flowing db)
    (ha : operationByApi db op = true) (hop : op.apply db = some db') : Flowing db' := by
  obtain ⟨hwf, hexact⟩ := apply_keeps h.wf h.exact hop
  cases op with
  | transaction acts =>
    obtain ⟨y, hy, rfl⟩ := Option.map_eq_some_iff.mp hop
    obtain ⟨-, hshape⟩ := alone_shaped h.wf (.opened db) h.opened ha hy
    revert hwf hexact
    rw [Txn.outcome]
    split
    · refine fun hwf hexact => ⟨hwf, hexact, hshape.backed, fun e he => ?_⟩
      rcases ((Db.mem_patch_waits e).mp he).1 with he | he
      · exact h.waits e he
      · exact hshape.waits e he
    · exact fun _ _ => h
  | deleteExpired before limit =>
    cases hop
    exact ⟨hwf, hexact, h.backed.deleteGraphs _, h.waits.deleteGraphs _⟩

lemma Flowing.serve {ops : List Operation} (h : Flowing db) (ha : runByApi db ops = true)
    (hs : serve db ops = some db') : Flowing db' := by
  induction ops generalizing db with
  | nil =>
    cases hs
    exact h
  | cons op ops ih =>
    obtain ⟨db₁, h₁, hs⟩ := Option.bind_eq_some_iff.mp hs
    rw [runByApi, Bool.and_eq_true, h₁] at ha
    exact ih (h.apply ha.1 h₁) ha.2 hs

lemma Flowing.empty : Flowing {} :=
  ⟨.empty, .empty, fun _ _ h => (by cases h), fun e he => absurd he (Finset.notMem_empty e)⟩

end Runs

section Progress

def PendingIn (db : Db) (root id : Id) : Prop :=
  ∃ p, db.promises.get id = some p ∧ p.Pending ∧ p.graphId id = root

def Moves (db : Db) (id : Id) : Prop :=
  (∃ p, db.promises.get id = some p ∧ ¬ p.IsCall) ∨
    ∃ t, db.tasks.get id = some t ∧ t.pendingWaits = 0

/-- A pending promise moves, or its task waits for a pending one of its graph with a longer id. -/
lemma Flowing.moves_or_waits (h : Flowing db) {root id : Id} (hp : PendingIn db root id) :
    Moves db id ∨ ∃ id', (id, id') ∈ db.waits ∧ PendingIn db root id' ∧
      id.toList.length < id'.toList.length := by
  obtain ⟨p, hget, hpend, hroot⟩ := hp
  by_cases hc : p.IsCall
  · obtain ⟨t, ht⟩ := Option.ne_none_iff_exists'.mp (h.backed id p hget hpend hc)
    rcases Nat.eq_zero_or_pos t.pendingWaits with hz | hpos
    · exact Or.inl (Or.inr ⟨t, ht, hz⟩)
    · rw [h.exact id t ht] at hpos
      obtain ⟨e, he⟩ := Finset.card_pos.mp hpos
      obtain ⟨hm, rfl, hpe⟩ := Db.mem_pendingAwaited.mp he
      obtain ⟨w, q, hw, hq, hgraph⟩ := h.wf.awaited e hm
      obtain ⟨q', hq', hqp⟩ := Db.pending_iff.mp hpe
      rw [hget] at hw
      cases hw
      rw [hq] at hq'
      cases hq'
      exact Or.inr ⟨e.2, hm, ⟨q, hq, hqp, hgraph.trans hroot⟩, numbered_length (h.waits e hm)⟩
  · exact Or.inl (Or.inl ⟨p, hget, hc⟩)

/-- After any serial transactions through the durable API, every pending promise is, or waits through
its graph for, a pending timer or a pending call whose task waits for nothing. -/
theorem never_stuck {ops : List Operation} (hs : serve {} ops = some db) (ha : runByApi {} ops = true)
    {root id : Id} (hp : PendingIn db root id) :
    ∃ id', ReflTransGen (fun a b => (a, b) ∈ db.waits) id id' ∧ PendingIn db root id' ∧
      Moves db id' := by
  have hflow := Flowing.empty.serve ha hs
  refine WaitFor.reaches_ready (fun id : Id => id.toList.length)
    ((db.promises.keys.map fun id : Id => id.toList.length).sum) (fun j hj => ?_)
    (fun j hj => hflow.moves_or_waits hj) hp
  obtain ⟨p, hget, -⟩ := hj
  exact List.single_le_sum (by simp) _
    (List.mem_map_of_mem ((Dict.mem_keys _ _).mpr ⟨p, hget⟩))

def numberedCall : CallRequest := Sys.sampleCall "root:1:work" (some "root") 1 (by decide) Nat.one_pos

def waitsForCall : List Operation := [
  .transaction [.submitCalls [Sys.rootCall], .insertNext, .insertEnd],
  .transaction (Sys.claimNth 1 0 ++ [.submitCalls [numberedCall], .insertNext, .insertEnd] ++
    Sys.awaits "root:1:work")]

lemma waitsForCall_serves : (serve {} waitsForCall).isSome = true := by decide +kernel

theorem never_stuck_waiting : ∃ id', ReflTransGen
    (fun a b => (a, b) ∈ ((serve {} waitsForCall).get waitsForCall_serves).waits) "root" id' ∧
      PendingIn ((serve {} waitsForCall).get waitsForCall_serves) "root" id' ∧
      Moves ((serve {} waitsForCall).get waitsForCall_serves) id' := by
  refine never_stuck (Option.some_get waitsForCall_serves).symm (by decide +kernel) ?_
  exact ⟨Sys.rootCall.insert.promise, by decide +kernel, rfl, rfl⟩

end Progress

end Reaper.Workflow
