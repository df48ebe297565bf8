import Reaper.Store.Deadlock

/-! DELETE_EXPIRED next to the claims of tasks. Its snapshot may be old when it deletes, and the foreign
keys delete every child that is there by then. A graph that had nothing pending has gained nothing. -/

namespace Reaper.Store

open Reaper.Library Reaper.Library.Locks

structure Sweep where
  limit : ℕ
  left : List Id
  locked : List Id := []

structure Swept where
  sys : Sys := {}
  sweeps : Dict ℕ Sweep := Dict.empty

inductive SweepAction
  | act (a : Action)
  | begin (before : Time) (limit : ℕ)
  | lockNext
  | delete

def Db.goneWith (db : Db) (roots : List Id) (id : Id) : Bool :=
  (db.promises.get id).any fun p => p.graphId id ∈ roots

/-- A deleted row is not found again, also where its id is used for another one later. -/
def Txn.forget (gone : Id → Bool) (x : Txn) : Txn :=
  match x.stage with
  | .claiming snap topic excluded now left =>
    x.enter (.claiming snap topic excluded now (left.filter fun id => !gone id))
  | .suspending task snap awaited left found =>
    x.enter (.suspending task snap awaited (left.filter fun id => !gone id) found)
  | .waking snap stamp settled removed left =>
    x.enter (.waking snap stamp settled removed (left.filter fun id => !gone id))
  | _ => x

def Sweep.forget (gone : Id → Bool) (w : Sweep) : Sweep :=
  { w with left := w.left.filter fun id => !gone id }

namespace Swept

def expiredRoots (db : Db) (before : Time) : List Id := doomed db before db.promises.entries.length

def begin (s : Swept) (k : ℕ) (before : Time) (limit : ℕ) : Option Swept :=
  if s.sys.txns.get k ≠ none then none
  else some {
    sys := { s.sys with txns := s.sys.txns.set k { stage := .failed } }
    sweeps := s.sweeps.set k { limit := limit, left := expiredRoots s.sys.committed before } }

/-- FOR UPDATE SKIP LOCKED on the next root. A child's insert has the key of its root locked. -/
def lockNext (s : Swept) (k : ℕ) : Option Swept :=
  (s.sys.txns.get k).bind fun x => (s.sweeps.get k).bind fun w =>
    match w.left with
    | [] => none
    | id :: left =>
      if w.limit ≤ w.locked.length then none
      else if s.sys.grant k ⟨.promise id, .update⟩ then
        some {
          sys := { s.sys with txns := s.sys.txns.set k (x.lock (.promise id) .update) }
          sweeps := s.sweeps.set k { w with left := left, locked := w.locked ++ [id] } }
      else some { s with sweeps := s.sweeps.set k { w with left := left } }

def delete (s : Swept) (k : ℕ) : Option Swept :=
  (s.sweeps.get k).bind fun w =>
    if w.left ≠ [] ∧ w.locked.length < w.limit then none
    else
      let gone := s.sys.committed.goneWith w.locked
      some {
        sys := {
          committed := s.sys.committed.deleteGraphs w.locked
          txns := (s.sys.txns.erase k).map (Txn.forget gone) }
        sweeps := (s.sweeps.erase k).map (Sweep.forget gone) }

def step (s : Swept) (k : ℕ) : SweepAction → Option Swept
  | .act a =>
    if s.sweeps.get k ≠ none then none
    else (s.sys.step k a).map fun sys => { s with sys := sys }
  | .begin before limit => s.begin k before limit
  | .lockNext => s.lockNext k
  | .delete => s.delete k

def run : Swept → List (ℕ × SweepAction) → Option Swept
  | s, [] => some s
  | s, (k, a) :: as => (s.step k a).bind fun s' => run s' as

end Swept

def ClaimedTask.graphId (task : ClaimedTask) : Id := task.rootId.getD task.id

/-- What the transaction of a claim does: it submits children and timers into its own graph, and
completes, rejects, retries or suspends. -/
def Act.claims (s : Stage) : Act → Bool
  | .submitCalls requests =>
    match s with
    | .holding task => requests.all fun r => r.rootId = some task.graphId
    | _ => false
  | .submitTimer request =>
    match s with
    | .holding task => request.rootId = some task.graphId
    | _ => false
  | .processDue .. | .lockExpired | .lockTimer | .expiredEnd | .lockTimeout | .settleDue => false
  | _ => true

namespace Swept

def sweepsOrClaims (s : Swept) (k : ℕ) : SweepAction → Bool
  | .act (.act a) => (s.sys.txns.get k).all fun x => a.claims x.stage
  | _ => true

def along (p : Swept → ℕ → SweepAction → Bool) : Swept → List (ℕ × SweepAction) → Bool
  | _, [] => true
  | s, (k, a) :: as => p s k a && (s.step k a).all fun s' => along p s' as

end Swept

structure Working (db : Db) (x : Txn) (id graph : Id) : Prop where
  owns : x.Owns (.task id)
  rested : Rested db id
  pending : ∃ p, db.promises.get id = some p ∧ p.Pending ∧ p.graphId id = graph

structure Writing (db : Db) (x : Txn) (graph : Id) : Prop where
  promises : ∀ id v, x.delta.promises.get id = some v → x.Owns (.task id) ∧
    ∃ q, v = some q ∧ q.graphId id = graph ∧ ∀ p, db.promises.get id = some p → ∃ o, q = p.settle o
  tasks : ∀ id v, x.delta.tasks.get id = some v →
    x.Owns (.task id) ∧ (db.tasks.get id ≠ none ∨ db.promises.get id = none)

structure Unsettled (x : Txn) (id : Id) (settled : Id → Prop) : Prop where
  promises : ∀ j q, x.delta.promises.get j = some (some q) → ¬ q.Pending → settled j
  task : x.delta.tasks.get id = none

/-- A row of CLAIM's snapshot. If the task is still there then its promise is still pending. -/
def Candidate (db snap : Db) (id : Id) : Prop :=
  ∃ p q, db.promises.get id = some p ∧ snap.promises.get id = some q ∧ p.place = q.place ∧
    (db.tasks.get id ≠ none → p.Pending)

def Holding (db : Db) (x : Txn) (task : ClaimedTask) : Prop :=
  Working db x task.id task.graphId ∧ Writing db x task.graphId ∧ Unsettled x task.id fun _ => False

def Claims (db : Db) (x : Txn) : Stage → Prop
  | .opened => x.delta = {}
  | .claiming snap _ _ _ left => x.delta = {} ∧ ∀ id ∈ left, Candidate db snap id
  | .holding task | .locking task _ | .locked task _ | .retrying task _ _ | .suspending task _ _ _ _ =>
    Holding db x task
  | .inserting task left _ => ∃ t, task = some t ∧ Holding db x t ∧
      ∀ e ∈ left, e.promise.Pending ∧ e.promise.graphId e.id = t.graphId
  | .waking _ _ _ removed _ => ∃ id graph, removed = [id] ∧ Working db x id graph ∧
      Writing db x graph ∧ Unsettled x id (· = id)
  | .done => ∃ id graph, Working db x id graph ∧ Writing db x graph ∧
      ∀ j q, x.delta.promises.get j = some (some q) → ¬ q.Pending → x.delta.tasks.get j = some none
  | .failed => True
  | .due _ | .timingOut _ => False

structure Around (gone : Id → Bool) (x : Txn) (db db' : Db) : Prop where
  owned : ∀ id, x.Owns (.task id) →
    db'.promises.get id = db.promises.get id ∧ db'.tasks.get id = db.tasks.get id ∨
    db'.promises.get id = none ∧ ∀ p, db.promises.get id = some p → ¬ p.Pending
  kept : ∀ id p, gone id = false → db.promises.get id = some p →
    ∃ p', db'.promises.get id = some p' ∧ p'.place = p.place ∧
      (db'.tasks.get id ≠ none → db.tasks.get id ≠ none ∧ (p.Pending → p'.Pending))

section Stable

variable {db db' : Db} {x y : Txn} {id graph : Id} {gone : Id → Bool}

lemma Around.working (h : Around gone x db db') (hw : Working db x id graph) :
    Working db' x id graph := by
  obtain ⟨p, hp, hpend, hg⟩ := hw.pending
  obtain ⟨t, ht, hz⟩ := hw.rested
  rcases h.owned id hw.owns with ⟨hp', ht'⟩ | ⟨-, hn⟩
  · exact ⟨hw.owns, ⟨t, ht'.trans ht, hz⟩, p, hp'.trans hp, hpend, hg⟩
  · exact absurd hpend (hn p hp)

lemma Around.writing (h : Around gone x db db') (hw : Writing db x graph) : Writing db' x graph := by
  refine ⟨fun id v hv => ?_, fun id v hv => ?_⟩
  · obtain ⟨ho, q, rfl, hg, hq⟩ := hw.promises id v hv
    refine ⟨ho, q, rfl, hg, fun p hp => ?_⟩
    rcases h.owned id ho with ⟨hp', -⟩ | ⟨hn, -⟩
    · exact hq p (hp' ▸ hp)
    · rw [hn] at hp
      cases hp
  · obtain ⟨ho, ht⟩ := hw.tasks id v hv
    refine ⟨ho, ?_⟩
    rcases h.owned id ho with ⟨hp', ht'⟩ | ⟨hn, -⟩
    · rwa [hp', ht']
    · exact Or.inr hn

lemma Around.candidate {snap : Db} (h : Around gone x db db') (hg : gone id = false)
    (hc : Candidate db snap id) : Candidate db' snap id := by
  obtain ⟨p, q, hp, hq, hplace, hpend⟩ := hc
  obtain ⟨p', hp', hplace', ht⟩ := h.kept id p hg hp
  exact ⟨p', q, hp', hq, hplace'.trans hplace, fun hn => (ht hn).2 (hpend (ht hn).1)⟩

lemma Around.holding {task : ClaimedTask} (h : Around gone x db db') (hh : Holding db x task) :
    Holding db' x task := ⟨h.working hh.1, h.writing hh.2.1, hh.2.2⟩

lemma Working.mono (h : Working db x id graph) (hl : ∀ r, x.Owns r → y.Owns r) :
    Working db y id graph := ⟨hl _ h.owns, h.rested, h.pending⟩

lemma Writing.mono (h : Writing db x graph) (hd : y.delta = x.delta)
    (hl : ∀ r, x.Owns r → y.Owns r) : Writing db y graph := by
  refine ⟨fun id v hv => ?_, fun id v hv => ?_⟩
  · rw [hd] at hv
    exact (h.promises id v hv).imp_left (hl _)
  · rw [hd] at hv
    exact (h.tasks id v hv).imp_left (hl _)

lemma Unsettled.mono {settled : Id → Prop} (h : Unsettled x id settled) (hd : y.delta = x.delta) :
    Unsettled y id settled := by
  refine ⟨?_, ?_⟩ <;> rw [hd]
  · exact h.promises
  · exact h.task

lemma Holding.mono {task : ClaimedTask} (h : Holding db x task) (hd : y.delta = x.delta)
    (hl : ∀ r, x.Owns r → y.Owns r) : Holding db y task :=
  ⟨h.1.mono hl, h.2.1.mono hd hl, h.2.2.mono hd⟩

lemma Claims.mono {s : Stage} (h : Claims db x s) (hd : y.delta = x.delta)
    (hl : ∀ r, x.Owns r → y.Owns r) : Claims db y s := by
  cases s with
  | opened => exact hd.trans h
  | claiming => exact ⟨hd.trans h.1, h.2⟩
  | holding | locking | locked | retrying | suspending => exact Holding.mono h hd hl
  | inserting =>
    obtain ⟨t, ht, hh, he⟩ := h
    exact ⟨t, ht, hh.mono hd hl, he⟩
  | waking =>
    obtain ⟨id, graph, hr, hw, hwr, hu⟩ := h
    exact ⟨id, graph, hr, hw.mono hl, hwr.mono hd hl, hu.mono hd⟩
  | done =>
    obtain ⟨id, graph, hw, hwr, hu⟩ := h
    refine ⟨id, graph, hw.mono hl, hwr.mono hd hl, ?_⟩
    rwa [hd]
  | failed => trivial
  | due | timingOut => exact h.elim

lemma Claims.around (h : Claims db x x.stage) (ha : Around gone x db db') :
    Claims db' (x.forget gone) (x.forget gone).stage := by
  rw [Txn.forget]
  cases hs : x.stage with
  | opened | failed =>
    rw [hs] at h
    simp only [hs]
    exact h
  | claiming snap topic excluded now left =>
    rw [hs] at h
    refine ⟨h.1, fun id hid => ?_⟩
    obtain ⟨hid, hg⟩ := List.mem_filter.mp hid
    rw [Bool.not_eq_true'] at hg
    exact ha.candidate hg (h.2 id hid)
  | holding | locking | locked | retrying =>
    rw [hs] at h
    simp only [hs]
    exact ha.holding h
  | suspending =>
    rw [hs] at h
    exact (ha.holding h).mono rfl fun _ ho => ho
  | inserting =>
    rw [hs] at h
    obtain ⟨t, ht, hh, he⟩ := h
    simp only [hs]
    exact ⟨t, ht, ha.holding hh, he⟩
  | waking =>
    rw [hs] at h
    obtain ⟨id, graph, hr, hw, hwr, hu⟩ := h
    exact ⟨id, graph, hr, (ha.working hw).mono fun _ ho => ho,
      (ha.writing hwr).mono rfl fun _ ho => ho, hu.mono rfl⟩
  | done =>
    rw [hs] at h
    obtain ⟨id, graph, hw, hwr, hu⟩ := h
    simp only [hs]
    exact ⟨id, graph, ha.working hw, ha.writing hwr, hu⟩
  | due | timingOut =>
    rw [hs] at h
    exact h.elim

end Stable

section Steps

variable {db : Db} {grant : Lock Row → Bool} {x y : Txn} {a : Act} {id graph : Id}

lemma Writing.empty (h : x.delta = {}) : Writing db x graph := by
  refine ⟨fun id v hv => ?_, fun id v hv => ?_⟩ <;>
    · rw [h] at hv
      cases hv

lemma Unsettled.empty (h : x.delta = {}) (settled : Id → Prop) : Unsettled x id settled := by
  refine ⟨fun j q hq => ?_, ?_⟩
  · rw [h] at hq
    cases hq
  · rw [h]
    rfl

lemma Writing.view_none (h : Writing db x graph) (hn : (x.view db).promises.get id = none) :
    db.promises.get id = none := by
  rw [Txn.view, Db.patch_promises] at hn
  cases hv : x.delta.promises.get id with
  | none =>
    rw [hv] at hn
    exact hn
  | some v =>
    obtain ⟨-, q, rfl, -⟩ := h.promises id v hv
    rw [hv] at hn
    cases hn

lemma Working.ne (h : Working db x id graph) (hw : Writing db x graph) {j : Id}
    (hn : (x.view db).promises.get j = none) : j ≠ id := by
  rintro rfl
  obtain ⟨p, hp, -⟩ := h.pending
  rw [hw.view_none hn] at hp
  cases hp

lemma mem_claimCandidates_pending {topic : String} {excluded : List (String × ℕ)} {now : Time}
    (h : id ∈ claimCandidates db topic excluded now) : Candidate db db id := by
  obtain ⟨⟨j, t⟩, he, rfl⟩ := List.mem_map.mp h
  obtain ⟨-, hf⟩ := List.mem_filter.mp ((List.mem_insertionSort _).mp he)
  simp only [Bool.decide_and, Bool.and_eq_true, Option.any_eq_true, decide_eq_true_eq] at hf
  obtain ⟨-, p, hp, hun⟩ := hf
  rw [unexpired, Bool.and_eq_true, decide_eq_true_eq] at hun
  exact ⟨p, p, hp, hp, rfl, fun _ => hun.1⟩

lemma Claims.claimNext {snap : Db} {topic : String} {excluded : List (String × ℕ)} {now : Time}
    {left : List Id} (hd : x.delta = {}) (h : ∀ j ∈ id :: left, Candidate db snap j) :
    Claims db (x.claimNext db grant snap topic excluded now id left)
      (x.claimNext db grant snap topic excluded now id left).stage := by
  have hleft : ∀ j ∈ left, Candidate db snap j := fun j hj => h j (List.mem_cons_of_mem _ hj)
  rw [Txn.claimNext]
  split_ifs with hg
  · split
    · exact ⟨hd, hleft⟩
    · rename_i t ht
      rw [(view_empty hd id).2] at ht
      by_cases hc : claimable topic excluded now t = true
      · simp only [hc, if_true]
        obtain ⟨p, q, hp, hq, hplace, hpend⟩ := h id List.mem_cons_self
        have hgraph : p.graphId id = (claimedTask snap id t).graphId :=
          (Promise.graphId_congr hplace id).trans (claimedTask_graph hq).symm
        have hpen : p.Pending := hpend (by simp [ht])
        have hrest : t.pendingWaits = 0 := by
          simp only [claimable, decide_eq_true_eq, Bool.decide_and, Bool.and_eq_true] at hc
          exact hc.2.2.1
        exact ⟨⟨x.lock_owns (.task id) (by simp), ⟨t, ht, hrest⟩, p, hp, hpen, hgraph⟩, .empty hd,
          (Unsettled.empty hd _).mono rfl⟩
      · simp only [hc]
        exact ⟨hd, hleft⟩
  · exact ⟨hd, hleft⟩

lemma Claims.submit {task : ClaimedTask} {es : List Insert} (h : Holding db x task)
    (he : ∀ e ∈ es, e.promise.Pending ∧ e.promise.graphId e.id = task.graphId) :
    Claims db (x.enter (.inserting (some task) es []))
      (x.enter (.inserting (some task) es [])).stage :=
  ⟨task, rfl, h.mono rfl fun _ ho => ho, he⟩

lemma CallRequest.insert_graph {r : CallRequest} {root : Id} (h : r.rootId = some root) :
    r.insert.promise.Pending ∧ r.insert.promise.graphId r.insert.id = root := by
  refine ⟨rfl, ?_⟩
  rw [CallRequest.insert, Promise.graphId, h]
  rfl

lemma TimerRequest.insert_graph {r : TimerRequest} {root : Id} (h : r.rootId = some root) :
    r.insert.promise.Pending ∧ r.insert.promise.graphId r.insert.id = root := by
  refine ⟨rfl, ?_⟩
  rw [TimerRequest.insert, Promise.graphId, h]
  rfl

lemma Claims.insertNext {task : ClaimedTask} {e : Insert} {left : List Insert}
    {inserted : List Id} (h : Holding db x task)
    (he : ∀ e' ∈ e :: left, e'.promise.Pending ∧ e'.promise.graphId e'.id = task.graphId)
    (hy : x.insertNext db grant (some task) e left inserted = some y) : Claims db y y.stage := by
  have hleft := fun e' hm => he e' (List.mem_cons_of_mem e hm)
  obtain ⟨hpend, hgraph⟩ := he e List.mem_cons_self
  obtain ⟨hw, hwr, hu⟩ := h
  have howns : ∀ r, x.Owns r → y.Owns r := fun r => (Txn.insertNext_gains hy).owns
  obtain ⟨⟨ids, hst⟩, hcases⟩ := insertNext_writes hy
  rw [hst]
  refine ⟨task, rfl, ?_, hleft⟩
  rcases hcases with hd | ⟨hn, -, hp, ht⟩
  · exact Holding.mono ⟨hw, hwr, hu⟩ hd howns
  · have hnew := hwr.view_none hn
    have hne := hw.ne hwr hn
    have hown : y.Owns (.task e.id) := by
      rw [Txn.insertNext, if_neg (not_not.mpr hn)] at hy
      split_ifs at hy
      cases hy
      cases e.task <;> exact Txn.lock_owns _ _ (by simp)
    refine ⟨hw.mono howns, ⟨fun id v hv => ?_, fun id v hv => ?_⟩, fun j q hq hnp => ?_, ?_⟩
    · rw [hp] at hv
      split_ifs at hv with hid
      · subst hid
        cases hv
        refine ⟨hown, e.promise, rfl, hgraph, fun p hp' => ?_⟩
        rw [hnew] at hp'
        cases hp'
      · exact (hwr.promises id v hv).imp_left (howns _)
    · rw [ht] at hv
      split_ifs at hv with hid
      · rw [hid.1]
        exact ⟨hown, Or.inr hnew⟩
      · exact (hwr.tasks id v hv).imp_left (howns _)
    · rw [hp] at hq
      split_ifs at hq with hj
      · cases hq
        exact hnp hpend
      · exact hu.promises j q hq hnp
    · rw [ht, if_neg fun hh => hne hh.1.symm]
      exact hu.task

lemma Holding.finish {task : ClaimedTask} {t : Task} (h : Holding db x task)
    (hl : ∀ r, x.Owns r → y.Owns r) (hp : y.delta.promises = x.delta.promises)
    (ht : y.delta.tasks = x.delta.tasks.set task.id (some t)) : Claims db y .done := by
  obtain ⟨hw, hwr, hu⟩ := h
  refine ⟨task.id, task.graphId, hw.mono hl, ⟨fun id v hv => ?_, fun id v hv => ?_⟩,
    fun j q hq hn => ?_⟩
  · rw [hp] at hv
    exact (hwr.promises id v hv).imp_left (hl _)
  · rw [ht, Dict.get_set] at hv
    split_ifs at hv with hid
    · obtain ⟨t₀, ht₀, -⟩ := hw.rested
      subst hid
      exact ⟨hl _ hw.owns, Or.inl (by simp [ht₀])⟩
    · exact (hwr.tasks id v hv).imp_left (hl _)
  · rw [hp] at hq
    exact (hu.promises j q hq hn).elim

lemma Holding.settle {task : ClaimedTask} {snap : Db} {stamp : Option Time} {left : List Id}
    (h : Holding db x task) (hl : ∀ r, x.Owns r → y.Owns r) (ht : y.delta.tasks = x.delta.tasks)
    (hp : Settles db [task.id] x y) : Claims db y (.waking snap stamp [task.id] [task.id] left) := by
  obtain ⟨hw, hwr, hu⟩ := h
  refine ⟨task.id, task.graphId, rfl, hw.mono hl, ⟨fun id v hv => ?_, fun id v hv => ?_⟩,
    fun j q hq hn => ?_, ht ▸ hu.task⟩
  · rcases hp id with hsame | ⟨hid, p, o, hview, -, hset⟩
    · exact (hwr.promises id v (hsame ▸ hv)).imp_left (hl _)
    · cases List.mem_singleton.mp hid
      rw [hset] at hv
      cases hv
      refine ⟨hl _ hw.owns, p.settle o, rfl, ?_⟩
      rw [Txn.view, Db.patch_promises] at hview
      cases hd : x.delta.promises.get task.id with
      | none =>
        rw [hd, Option.getD_none] at hview
        obtain ⟨p', hp', -, hg⟩ := hw.pending
        rw [hview] at hp'
        cases hp'
        refine ⟨hg, fun p' hp' => ?_⟩
        rw [hview] at hp'
        cases hp'
        exact ⟨o, rfl⟩
      | some v =>
        obtain ⟨-, q, rfl, hg, hq⟩ := hwr.promises _ v hd
        rw [hd, Option.getD_some] at hview
        cases hview
        refine ⟨hg, fun p' hp' => ?_⟩
        obtain ⟨o', rfl⟩ := hq p' hp'
        exact ⟨o, rfl⟩
  · rw [ht] at hv
    exact (hwr.tasks id v hv).imp_left (hl _)
  · rcases hp j with hsame | ⟨hj, -⟩
    · exact (hu.promises j q (hsame ▸ hq) hn).elim
    · exact List.mem_singleton.mp hj

lemma Claims.wake {snap : Db} {stamp : Option Time} {settled removed left : List Id} {w : Id}
    {clock : Time} (h : Claims db x (.waking snap stamp settled removed (w :: left)))
    (hy : x.wake db grant snap stamp settled removed w left clock = some y) :
    Claims db y y.stage := by
  have howns : ∀ r, x.Owns r → y.Owns r := fun r => (Txn.wake_gains hy).owns
  obtain ⟨id, graph, hr, hw, hwr, hu⟩ := h
  have hsame : y.delta = x.delta → Claims db y (.waking snap stamp settled removed left) := fun hd =>
    ⟨id, graph, hr, hw.mono howns, hwr.mono hd howns, hu.mono hd⟩
  rw [Txn.wake] at hy
  split_ifs at hy with hg
  split at hy
  · cases hy
    exact hsame rfl
  · rename_i t ht
    split_ifs at hy with hc
    · cases hy
      -- the claimed task itself waits for nothing
      have hne : w ≠ id := by
        rintro rfl
        obtain ⟨t₀, ht₀, hz⟩ := hw.rested
        rw [Txn.view, Db.patch_tasks, hu.task, Option.getD_none, ht₀] at ht
        cases ht
        exact absurd hc.2 (by omega)
      refine ⟨id, graph, hr, hw.mono howns, ⟨fun j v hv => ?_, fun j v hv => ?_⟩,
        hu.promises, ?_⟩
      · exact (hwr.promises j v hv).imp_left (howns _)
      · change (x.delta.tasks.set w _).get j = some v at hv
        rw [Dict.get_set] at hv
        split_ifs at hv with hj
        · subst hj
          refine ⟨Txn.lock_owns _ _ (by simp), ?_⟩
          cases hd : x.delta.tasks.get j with
          | some v => exact (hwr.tasks j v hd).2
          | none =>
            rw [Txn.view, Db.patch_tasks, hd, Option.getD_none] at ht
            exact Or.inl (by simp [ht])
        · exact (hwr.tasks j v hv).imp_left (howns _)
      · change (x.delta.tasks.set w _).get id = none
        rw [Dict.get_set_ne _ _ hne.symm]
        exact hu.task
    · cases hy
      exact hsame rfl

lemma Claims.wakeEnd {snap : Db} {stamp : Option Time} {settled removed left kept : List Id}
    (h : Claims db x (.waking snap stamp settled removed left)) :
    Claims db (x.wakeEnd removed kept) .done := by
  obtain ⟨id, graph, rfl, hw, hwr, hu⟩ := h
  have hone : ([id].filter fun j => ¬ (j ∈ kept ∧ (x.delta.tasks.get j).isSome)) = [id] := by
    simp [hu.task]
  have hd : (x.wakeEnd [id] kept).delta = x.delta.deleteTask id := by
    rw [Txn.wakeEnd, hone]
    rfl
  refine ⟨id, graph, hw.mono fun _ ho => ho, ⟨fun j v hv => ?_, fun j v hv => ?_⟩,
    fun j q hq hn => ?_⟩
  · rw [hd] at hv
    exact hwr.promises j v hv
  · rw [hd, Delta.deleteTask, Dict.get_set] at hv
    split_ifs at hv with hj
    · obtain ⟨t, ht, -⟩ := hw.rested
      subst hj
      exact ⟨hw.owns, Or.inl (by simp [ht])⟩
    · exact hwr.tasks j v hv
  · rw [hd] at hq ⊢
    cases hu.promises j q hq hn
    exact Dict.get_set_self _ _ _

lemma Claims.step (h : Claims db x x.stage) (ha : a.claims x.stage = true)
    (hs : Txn.Step db grant x a y) : Claims db y y.stage := by
  have howns : ∀ r, x.Owns r → y.Owns r := fun r => hs.gains.owns
  cases hs with
  | processDue | lockExpired | lockTimer | expiredEnd | lockTimeout | settleDue => cases ha
  | claim hs =>
    rw [hs] at h
    have hv : x.view db = db := Txn.view_empty h
    rw [hv]
    exact ⟨h, fun id hid => mem_claimCandidates_pending hid⟩
  | claimNext hs =>
    rw [hs] at h
    exact .claimNext h.1 h.2
  | claimNone => trivial
  | submit hsub hs =>
    rcases hs with ⟨hs, rfl⟩ | ⟨t, hs, rfl⟩ <;> rw [hs] at ha h
    · obtain ⟨rs, rfl, -⟩ | ⟨r, rfl, -⟩ := hsub <;> cases ha
    · refine .submit h fun e he => ?_
      obtain ⟨rs, rfl, rfl⟩ | ⟨r, rfl, rfl⟩ := hsub
      · obtain ⟨r, hr, rfl⟩ := List.mem_map.mp he
        exact CallRequest.insert_graph (of_decide_eq_true (List.all_eq_true.mp ha r hr))
      · cases List.mem_singleton.mp he
        exact TimerRequest.insert_graph (of_decide_eq_true ha)
  | insertNext hs hy =>
    rw [hs] at h
    obtain ⟨t, rfl, hh, he⟩ := h
    exact .insertNext hh he hy
  | insertEnd hs hy =>
    rw [hs] at h
    obtain ⟨t, rfl, hh, -⟩ := h
    rw [Txn.insertEnd] at hy
    split_ifs at hy <;> cases hy
    · trivial
    · exact hh.mono (foldl_lock_delta _ x) howns
  | suspendTask hs hy =>
    rw [hs] at h
    rw [Txn.suspendTask] at hy
    split_ifs at hy <;> cases hy
    · trivial
    · exact Holding.mono h rfl howns
  | suspendNext hs hy =>
    rw [hs] at h
    rw [Txn.suspendNext] at hy
    split_ifs at hy
    split at hy <;> cases hy <;> exact Holding.mono h rfl howns
  | suspendEnd hs hy =>
    rw [hs] at h
    rw [Txn.suspendEnd] at hy
    split_ifs at hy
    · cases hy
      trivial
    · split at hy <;> cases hy
      · trivial
      · exact Holding.finish h howns rfl rfl
  | settleTask hs =>
    rw [hs] at h
    rw [Txn.settleTask]
    split_ifs
    · exact h.mono rfl fun _ ho => ho
    · trivial
  | lockPromise hs hy =>
    rw [hs] at h
    rw [Txn.lockPromise] at hy
    split_ifs at hy <;> cases hy
    · exact Holding.mono h rfl howns
    · trivial
  | @settle task settlement clock hs =>
    rw [hs] at h
    obtain ⟨ht, -, hl⟩ := Txn.foldl_settlePromise_rest db [task.id] x (settlement.outcome clock)
    rw [Txn.settle]
    split_ifs
    · exact Holding.settle h (fun r ho => by rwa [Txn.Owns, ← hl] at ho) ht
        (settlePromise_settles db x task.id (settlement.outcome_ne clock))
    · trivial
  | retryTask hs =>
    rw [hs] at h
    rw [Txn.retryTask]
    split
    · trivial
    · split_ifs
      · exact Holding.finish h (fun _ ho => ho) rfl rfl
      · exact h.mono rfl fun _ ho => ho
      · trivial
  | @reject task snap error clock y hs hy =>
    rw [hs] at h
    rw [Txn.reject] at hy
    split_ifs at hy
    cases hy
    set z := x.lock (.promise task.id) .noKeyUpdate
    obtain ⟨ht, -, hl⟩ := Txn.foldl_settlePromise_rest db [task.id] z (.rejected error clock)
    have hz : Holding db z task := Holding.mono h rfl fun _ ho => ho.lock _ _
    have hne : Outcome.rejected error clock ≠ .pending := by simp
    exact hz.settle (fun r ho => by rwa [Txn.Owns, ← hl] at ho) ht
      (settlePromise_settles db z task.id hne)
  | wake hs hy =>
    rw [hs] at h
    exact h.wake hy
  | wakeEnd hs =>
    rw [hs] at h
    exact h.wakeEnd

end Steps

section Others

variable {db : Db} {x z : Txn} {roots : List Id} {id : Id}

lemma Txn.forget_none (x : Txn) : x.forget (fun _ => false) = x := by
  obtain ⟨stage, locks, delta⟩ := x
  cases stage <;> simp [Txn.forget, Txn.enter]

@[simp] lemma Txn.forget_locks (gone : Id → Bool) (x : Txn) : (x.forget gone).locks = x.locks := by
  rw [Txn.forget]
  split <;> rfl

lemma Claims.commit (h : Claims db z .done) (hx : ∀ r, x.Owns r → ¬ z.Owns r) :
    Around (fun _ => false) x db (z.view db) := by
  obtain ⟨own, graph, hw, hwr, hsettled⟩ := h
  refine ⟨fun id ho => Or.inl ?_, fun id p _ hp => ?_⟩
  · rw [Txn.view, Db.patch_promises, Db.patch_tasks]
    constructor
    · cases hv : z.delta.promises.get id with
      | none => rfl
      | some v => exact absurd (hwr.promises id v hv).1 (hx _ ho)
    · cases hv : z.delta.tasks.get id with
      | none => rfl
      | some v => exact absurd (hwr.tasks id v hv).1 (hx _ ho)
  · have htask : (z.view db).tasks.get id ≠ none → db.tasks.get id ≠ none := by
      intro hn
      rw [Txn.view, Db.patch_tasks] at hn
      cases hv : z.delta.tasks.get id with
      | none =>
        rw [hv] at hn
        exact hn
      | some v =>
        refine (hwr.tasks id v hv).2.resolve_right ?_
        simp [hp]
    rw [Txn.view, Db.patch_promises]
    cases hv : z.delta.promises.get id with
    | none => exact ⟨p, hp, rfl, fun hn => ⟨htask hn, fun hh => hh⟩⟩
    | some v =>
      obtain ⟨-, q, rfl, -, hq⟩ := hwr.promises id v hv
      obtain ⟨o, rfl⟩ := hq p hp
      refine ⟨p.settle o, rfl, rfl, fun hn => ⟨htask hn, fun _ => ?_⟩⟩
      -- a promise that is settled loses its task in the same commit
      by_contra hnp
      refine hn ?_
      change (z.view db).tasks.get id = none
      rw [Txn.view, Db.patch_tasks, hsettled id _ hv hnp]
      rfl

lemma Db.goneWith_eq_true :
    db.goneWith roots id = true ↔ ∃ p, db.promises.get id = some p ∧ p.graphId id ∈ roots := by
  rw [Db.goneWith, Option.any_eq_true]
  simp only [decide_eq_true_eq]

lemma Db.deleteGraphs_kept (h : db.goneWith roots id = false) :
    (db.deleteGraphs roots).promises.get id = db.promises.get id ∧
      (db.deleteGraphs roots).tasks.get id = db.tasks.get id := by
  rw [Db.deleteGraphs]
  dsimp only
  split_ifs with hw
  · exact ⟨rfl, rfl⟩
  · rw [Dict.get_filter, Dict.get_filter]
    change db.goneWith roots id = false at h
    rw [Db.goneWith] at h
    have hall : ∀ {V : Type} (o : Option V), o.filter (fun _ => true) = o := fun o => by
      cases o <;> rfl
    simp only [h, Bool.not_false, hall, and_self]

lemma Db.deleteGraphs_gone (h : db.goneWith roots id = true) :
    db.deleteGraphs roots = db ∨ (db.deleteGraphs roots).promises.get id = none := by
  rw [Db.deleteGraphs]
  dsimp only
  split_ifs with hw
  · exact Or.inl rfl
  · refine Or.inr ?_
    rw [Dict.get_filter]
    change db.goneWith roots id = true at h
    rw [Db.goneWith] at h
    simp only [h, Bool.not_true]
    cases db.promises.get id <;> rfl

lemma Db.deleteGraphs_promise {p : Promise} (h : (db.deleteGraphs roots).promises.get id = some p) :
    db.promises.get id = some p := by
  rw [Db.deleteGraphs] at h
  dsimp only at h
  split_ifs at h with hw
  · exact h
  · rw [Dict.get_filter] at h
    exact (Option.filter_eq_some_iff.mp h).1

/-- Nothing that is deleted is pending, so no row that a claim has locked is left half deleted. -/
lemma Around.sweep (x : Txn)
    (h : ∀ root ∈ roots, ∀ id p, db.promises.get id = some p → p.graphId id = root → ¬ p.Pending) :
    Around (db.goneWith roots) x db (db.deleteGraphs roots) := by
  refine ⟨fun id _ => ?_, fun id p hg hp => ?_⟩
  · cases hg : db.goneWith roots id with
    | false => exact Or.inl (Db.deleteGraphs_kept hg)
    | true =>
      obtain ⟨p, hp, hm⟩ := Db.goneWith_eq_true.mp hg
      rcases Db.deleteGraphs_gone hg with hsame | hn
      · rw [hsame]
        exact Or.inl ⟨rfl, rfl⟩
      · refine Or.inr ⟨hn, fun p' hp' => ?_⟩
        rw [hp] at hp'
        cases hp'
        exact h _ hm id p hp rfl
  · obtain ⟨hpr, ht⟩ := Db.deleteGraphs_kept hg
    exact ⟨p, hpr.trans hp, rfl, fun hn => ⟨ht ▸ hn, fun hh => hh⟩⟩

end Others

namespace Swept

structure Sparing (s : Swept) : Prop where
  exclusive : Exclusive s.sys.held
  claims : ∀ k x, s.sys.txns.get k = some x → Claims s.sys.committed x x.stage
  settled : ∀ k w, s.sweeps.get k = some w → ∀ root ∈ w.left ++ w.locked, ∀ id p,
    s.sys.committed.promises.get id = some p → p.graphId id = root → ¬ p.Pending

variable {s s' : Swept} {k : ℕ} {a : SweepAction} {as : List (ℕ × SweepAction)}

lemma Sparing.start (db : Db) : Sparing { sys := { committed := db } } := by
  refine ⟨fun k l hl => ?_, fun k x hx => ?_, fun k w hw => ?_⟩
  · cases hl
  · cases hx
  · cases hw

lemma mem_expiredRoots {db : Db} {before : Time} {root id : Id} {p : Promise}
    (h : root ∈ expiredRoots db before) (hp : db.promises.get id = some p)
    (hg : p.graphId id = root) : ¬ p.Pending := by
  obtain ⟨⟨t, r⟩, he, rfl⟩ := List.mem_map.mp h
  have he := (List.mem_insertionSort _).mp (List.mem_of_mem_take he)
  obtain ⟨⟨j, q⟩, hm, hf⟩ := List.mem_filterMap.mp he
  have hget := (Dict.mem_entries _ _ _).mp hm
  dsimp only at hf
  split at hf
  · rename_i deleteAfter hplace
    split_ifs at hf with hc
    cases hf
    rw [Promise.graphId] at hg
    cases hp' : p.place with
    | root d =>
      rw [hp'] at hg
      dsimp only at hg
      subst hg
      rw [hp] at hget
      cases hget
      exact hc.2.1
    | child root =>
      rw [hp'] at hg
      dsimp only at hg
      subst hg
      exact hc.2.2 (id, p) ((Dict.mem_entries _ _ _).mpr hp) hp'
  · cases hf

lemma Sparing.begin {before : Time} {limit : ℕ} (h : Sparing s)
    (hs : s.begin k before limit = some s') : Sparing s' := by
  rw [Swept.begin, Option.ite_none_left_eq_some] at hs
  obtain ⟨-, hs⟩ := hs
  cases hs
  refine ⟨?_, ?_, ?_⟩
  · rw [Sys.held_set]
    exact h.exclusive.release k
  · exact Dict.forall_set (fun j x _ hj => h.claims j x hj) trivial
  · refine Dict.forall_set (fun j w _ hj => h.settled j w hj) fun root hroot id p hp hg => ?_
    rw [List.append_nil] at hroot
    exact mem_expiredRoots hroot hp hg

lemma Sparing.lockNext (h : Sparing s) (hs : s.lockNext k = some s') : Sparing s' := by
  obtain ⟨x, hx, hs⟩ := Option.bind_eq_some_iff.mp hs
  obtain ⟨w, hw, hs⟩ := Option.bind_eq_some_iff.mp hs
  dsimp only at hs
  split at hs
  · cases hs
  · rename_i root left hleft
    have hold := h.settled k w hw
    rw [hleft] at hold
    rw [Option.ite_none_left_eq_some] at hs
    obtain ⟨-, hs⟩ := hs
    split_ifs at hs with hg <;> cases hs
    · refine ⟨?_, ?_, ?_⟩
      · rw [Sys.held_set]
        have hfree : ∀ l ∈ [(⟨.promise root, .update⟩ : Lock Row)], Free s.sys.held k l :=
          fun l hl => List.mem_singleton.mp hl ▸ Sys.free_of_grant hg
        have hgrant := h.exclusive.grant hfree
        rwa [Sys.held_of_get hx] at hgrant
      · exact Dict.forall_set (fun j y _ hj => h.claims j y hj)
          ((h.claims k x hx).mono rfl fun _ ho => ho.lock _ _)
      · refine Dict.forall_set (fun j w _ hj => h.settled j w hj) fun r hr => hold r ?_
        simp only [List.mem_append, List.mem_cons, List.not_mem_nil, or_false] at hr ⊢
        tauto
    · refine ⟨h.exclusive, h.claims, ?_⟩
      refine Dict.forall_set (fun j w _ hj => h.settled j w hj) fun r hr => hold r ?_
      exact List.mem_cons_of_mem root hr

lemma Sparing.delete (h : Sparing s) (hs : s.delete k = some s') : Sparing s' := by
  obtain ⟨w, hw, hs⟩ := Option.bind_eq_some_iff.mp hs
  rw [Option.ite_none_left_eq_some] at hs
  obtain ⟨-, hs⟩ := hs
  cases hs
  have hspare := fun root hr => h.settled k w hw root (List.mem_append_right w.left hr)
  refine ⟨?_, fun j y hy => ?_, fun j v hv => ?_⟩
  · have hheld : Sys.held
        { committed := s.sys.committed.deleteGraphs w.locked
          txns := (s.sys.txns.erase k).map (Txn.forget (s.sys.committed.goneWith w.locked)) } =
        Function.update s.sys.held k [] := by
      rw [← Sys.held_erase s.sys s.sys.committed k]
      funext j
      rw [Sys.held, Sys.held, Dict.get_map, Option.map_map]
      simp only [Function.comp_def, Txn.forget_locks]
    rw [hheld]
    exact h.exclusive.release k
  · rw [Dict.get_map, Option.map_eq_some_iff] at hy
    obtain ⟨x, hx, rfl⟩ := hy
    rw [Dict.get_erase] at hx
    split_ifs at hx with hj
    exact (h.claims j x hx).around (Around.sweep x hspare)
  · rw [Dict.get_map, Option.map_eq_some_iff] at hv
    obtain ⟨u, hu, rfl⟩ := hv
    rw [Dict.get_erase] at hu
    split_ifs at hu with hj
    intro root hr id p hp hg
    refine h.settled j u hu root ?_ id p (Db.deleteGraphs_promise hp) hg
    rcases List.mem_append.mp hr with hr | hr
    · exact List.mem_append_left _ (List.mem_filter.mp hr).1
    · exact List.mem_append_right _ hr

lemma Sparing.commit {x : Txn} (h : Sparing s) (hx : s.sys.txns.get k = some x)
    (hst : x.stage = .done) :
    Sparing { s with sys := { committed := x.view s.sys.committed, txns := s.sys.txns.erase k } } := by
  have hclaims := h.claims k x hx
  rw [hst] at hclaims
  refine ⟨?_, Dict.forall_erase fun j y hj hy => ?_, fun j w hw root hr id p hp hg => ?_⟩
  · rw [Sys.held_erase]
    exact h.exclusive.release k
  · have hapart : ∀ r, y.Owns r → ¬ x.Owns r := by
      intro r ho
      rw [Txn.Owns, ← Sys.held_of_get hy] at ho
      rw [Txn.Owns, ← Sys.held_of_get hx]
      exact h.exclusive.not_owns hj ho
    have haround := (h.claims j y hy).around (hclaims.commit hapart)
    rwa [Txn.forget_none] at haround
  · obtain ⟨own, graph, hw', hwr, -⟩ := hclaims
    rw [Txn.view, Db.patch_promises] at hp
    cases hv : x.delta.promises.get id with
    | none =>
      rw [hv] at hp
      exact h.settled j w hw root hr id p hp hg
    | some v =>
      obtain ⟨-, q, rfl, hq, -⟩ := hwr.promises id v hv
      rw [hv] at hp
      cases hp
      obtain ⟨p₀, hp₀, hpend, hg₀⟩ := hw'.pending
      exact absurd hpend (h.settled j w hw root hr own p₀ hp₀ (hg₀.trans (hq.symm.trans hg)))

lemma Sparing.step (h : Sparing s) (ha : s.sweepsOrClaims k a = true)
    (hs : s.step k a = some s') : Sparing s' := by
  cases a with
  | begin before limit => exact h.begin hs
  | lockNext => exact h.lockNext hs
  | delete => exact h.delete hs
  | act b =>
    rw [Swept.step, Option.ite_none_left_eq_some] at hs
    obtain ⟨-, hs⟩ := hs
    obtain ⟨sys, hsys, rfl⟩ := Option.map_eq_some_iff.mp hs
    have hex := Sys.exclusive_step h.exclusive hsys
    obtain ⟨-, -, rfl⟩ | ⟨c, x, y, rfl, hx, hy, rfl⟩ | ⟨x, -, hx, hst, rfl⟩ | ⟨-, rfl⟩ :=
      Sys.step_cases hsys
    · exact ⟨hex, Dict.forall_set (fun j u _ hj => h.claims j u hj) rfl, h.settled⟩
    · rw [sweepsOrClaims, hx] at ha
      exact ⟨hex, Dict.forall_set (fun j u _ hj => h.claims j u hj) ((h.claims k x hx).step ha hy),
        h.settled⟩
    · exact h.commit hx hst
    · exact ⟨hex, Dict.forall_erase fun j u _ hj => h.claims j u hj, h.settled⟩

lemma Sparing.run (h : Sparing s) (hr : s.run as = some s')
    (hscope : along sweepsOrClaims s as = true) : Sparing s' := by
  induction as generalizing s with
  | nil =>
    cases hr
    exact h
  | cons e as ih =>
    obtain ⟨k, a⟩ := e
    obtain ⟨s₁, hs, hr⟩ := Option.bind_eq_some_iff.mp hr
    rw [along, hs, Option.all_some, Bool.and_eq_true] at hscope
    exact ih (h.step hscope.1 hs) hr hscope.2

/-- In every run of sweeps and claims, what a sweep deletes has nothing pending in it. -/
theorem sweep_spares_pending {db : Db} {id : Id} {p : Promise}
    (hr : run { sys := { committed := db } } as = some s)
    (hscope : along sweepsOrClaims { sys := { committed := db } } as = true)
    (hs : s.step k .delete = some s') (hp : s.sys.committed.promises.get id = some p)
    (hpend : p.Pending) : s'.sys.committed.promises.get id = some p ∧
      s'.sys.committed.tasks.get id = s.sys.committed.tasks.get id := by
  have h := (Sparing.start db).run hr hscope
  obtain ⟨w, hw, hs⟩ := Option.bind_eq_some_iff.mp hs
  rw [Option.ite_none_left_eq_some] at hs
  obtain ⟨-, hs⟩ := hs
  cases hs
  have hkept : s.sys.committed.goneWith w.locked id = false := by
    rw [Bool.eq_false_iff]
    intro hg
    obtain ⟨p', hp', hm⟩ := Db.goneWith_eq_true.mp hg
    rw [hp] at hp'
    cases hp'
    exact h.settled k w hw _ (List.mem_append_right _ hm) id p hp rfl hpend
  obtain ⟨hpr, ht⟩ := Db.deleteGraphs_kept hkept
  exact ⟨hpr.trans hp, ht⟩

open Sys (session opening closing claimNth sampleCall rootCall childCall failure)

def halfDone : List (ℕ × Action) :=
  session 0 [.submitCalls [sampleCall "done" none 1 (by decide) Nat.one_pos, rootCall], .insertNext,
    .insertNext, .insertEnd] ++
    session 0 (claimNth 1 0 ++ Sys.settling ++ [.wakeEnd []])

lemma halfDone_runs : (Sys.run {} halfDone).isSome = true := by decide +kernel

def halfDoneDb : Db := ((Sys.run {} halfDone).get halfDone_runs).committed

def claiming (as : List (ℕ × Action)) : List (ℕ × SweepAction) := as.map fun e => (e.1, .act e.2)

/-- A sweep takes its snapshot before the claim of the other root stores a child. -/
def sweeping : List (ℕ × SweepAction) :=
  (9, .begin 100000 10) :: claiming (opening 1 (claimNth 1 5 ++ [.submitCalls [childCall], .insertNext,
    .insertEnd])) ++ (9, .lockNext) :: claiming (closing 1 [.retryTask failure 0 6])

lemma sweeping_runs : (run { sys := { committed := halfDoneDb } } sweeping).isSome = true := by
  decide +kernel

def swept : Swept := (run { sys := { committed := halfDoneDb } } sweeping).get sweeping_runs

lemma swept_deletes : (swept.step 9 .delete).isSome = true := by decide +kernel

lemma swept_child : (swept.sys.committed.promises.get "child").isSome = true := by decide +kernel

theorem sweep_spares_pending_child :
    ((swept.step 9 .delete).get swept_deletes).sys.committed.promises.get "child" =
      some ((swept.sys.committed.promises.get "child").get swept_child) ∧
    ((swept.step 9 .delete).get swept_deletes).sys.committed.tasks.get "child" =
      swept.sys.committed.tasks.get "child" :=
  sweep_spares_pending (Option.some_get sweeping_runs).symm (by decide +kernel)
    (Option.some_get swept_deletes).symm (Option.some_get swept_child).symm (by decide +kernel)

end Swept

end Reaper.Store
