import Reaper.Workflow.Attempts
import Reaper.Workflow.Naming

/-! Replaying does not change what a workflow computes: every attempt follows the direct evaluation of
its call, and finds or makes the promises of the calls that the evaluation makes. -/

namespace Reaper.Workflow

open Reaper.Store Reaper.Library Relation

section Context

variable {x : Context}

lemma invokeAll_eq {c : Call} {ds : List DurableCall} (ht : x.taskId = c.id) (hd : x.depth = c.depth)
    (hcount : x.callIndex + ds.length ≤ maxChildPromises)
    (hsize : ∀ d ∈ ds, x.depth < maxPromiseDepth ∧ jsonSize d.input ≤ maxPromiseBytes) :
    x.invokeAll ds =
      .ok (c.children x.callIndex ds, { x with callIndex := x.callIndex + ds.length }) := by
  induction ds generalizing x with
  | nil => rfl
  | cons d ds ih =>
    obtain ⟨hdepth, hbytes⟩ := hsize d List.mem_cons_self
    rw [List.length_cons] at hcount
    have hnext : x.invoke d = .ok (c.child (x.callIndex + 1) d,
        { x with callIndex := x.callIndex + 1 }) := by
      rw [Context.invoke, if_neg (by omega), if_neg (by omega), Context.nextId,
        if_neg (by omega), Except.map, ht, hd]
      rfl
    have hrest := ih (x := { x with callIndex := x.callIndex + 1 }) ht hd (by dsimp only; omega)
      fun e he => hsize e (List.mem_cons_of_mem _ he)
    rw [Context.invokeAll, hnext]
    dsimp only
    rw [hrest, List.length_cons, Call.children]
    dsimp only
    rw [Nat.add_assoc, Nat.add_comm 1]

end Context

lemma mapM_some {α β : Type} {f : α → Option β} {l : List α} {l' : List β}
    (h : l.mapM f = some l') : List.Forall₂ (fun a b => f a = some b) l l' := by
  induction l generalizing l' with
  | nil =>
    cases h
    exact .nil
  | cons a l ih =>
    rw [List.mapM_cons] at h
    obtain ⟨b, hb, h⟩ := Option.bind_eq_some_iff.mp h
    obtain ⟨bs, hbs, h⟩ := Option.bind_eq_some_iff.mp h
    cases h
    exact .cons hb (ih hbs)

lemma mem_of_forall₂ {α β : Type} {R : α → β → Prop} {l : List α} {l' : List β}
    (h : List.Forall₂ R l l') {b : β} (hb : b ∈ l') : ∃ a ∈ l, R a b := by
  induction h with
  | nil => cases hb
  | cons hr _ ih =>
    rcases List.mem_cons.mp hb with rfl | hb
    · exact ⟨_, List.mem_cons_self, hr⟩
    · obtain ⟨a, ha, hr⟩ := ih hb
      exact ⟨a, List.mem_cons_of_mem _ ha, hr⟩

section Invariant

variable (P : Program) (root : Call)

def graphOf (c : Call) : Option Id := if c.id = root.id then none else some root.id

def Ends (db : Db) (c : Call) (v : Verdict) : Prop :=
  ∃ log, P.tree.Evaluates (P.tree.start c) v log ∧ ∀ d ∈ log, db.promises.get d.id ≠ none

def Known (db : Db) (id : Id) (v : Verdict) : Prop :=
  db.promises.get id ≠ none ∧ ∃ c, P.tree.Below root c ∧ c.id = id ∧ Ends P db c v

def IsRow (c : Call) (p : Promise) : Prop :=
  p.idempotencyKey = P.fingerprint (P.work (graphOf root c) c) ∧ p.graphId c.id = root.id

def IsTask (c : Call) (t : Task) : Prop :=
  t.function = c.function ∧ t.input = c.input ∧ t.depth = c.depth

def settledAs (p : Promise) : Option Verdict := verdictOf p.state p.outcome.result p.outcome.error

structure Faithful (db : Db) : Prop where
  promise : ∀ id p, db.promises.get id = some p → ∃ c, P.tree.Below root c ∧ c.id = id ∧
    IsRow P root c p ∧ ∀ v, settledAs p = some v → Known P root db id v
  task : ∀ id t, db.tasks.get id = some t → ∃ c, P.tree.Below root c ∧ c.id = id ∧ IsTask c t

structure Inserts (db : Db) (c : Call) (x : Delta) : Prop where
  promise : ∀ id v, x.promises.get id = some v → db.promises.get id = none ∧
    ∃ d p, P.tree.Calls c d ∧ d.id = id ∧ v = some p ∧ settledAs p = none ∧ IsRow P root d p
  task : ∀ id v, x.tasks.get id = some v →
    ∃ d t, P.tree.Calls c d ∧ d.id = id ∧ v = some t ∧ IsTask d t

/-- The attempt is where the direct evaluation of its call has come. -/
structure Running (db : Db) (c : Call) (x : Context) (b : Body) : Prop where
  taskId : x.taskId = c.id
  rootId : x.rootId = root.id
  depth : x.depth = c.depth
  memo : ∀ id w, x.memo.get id = some w → w.id = id ∧ ∀ v, verdict w = some v → Known P root db id v
  reaches : ∃ log, P.tree.Reaches (P.tree.start c) ⟨c, x.callIndex, b⟩ log ∧
    ∀ d ∈ log, db.promises.get d.id ≠ none

def Follows (db : Db) (c : Call) (x : Context) : Phase → Prop
  | .running b => Running P root db c x b
  | .ended (.resolved v) => Ends P db c (.resolved v)
  | .ended (.rejected e) => Ends P db c (.rejected e.json)
  | .ended _ => True

structure Sound (db : Db) (c : Call) (a : Attempt) : Prop where
  below : P.tree.Below root c
  taskId : a.task.id = c.id
  inserts : Inserts P root db c a.delta
  follows : Follows P root db c a.context a.phase

structure Inv (s : System) : Prop where
  faithful : Faithful P root s.committed
  sound : ∀ k a, s.attempts.get k = some a → ∃ c, Sound P root s.committed c a
  apart : ∀ j k a b, s.attempts.get j = some a → s.attempts.get k = some b →
    a.task.id = b.task.id → j = k
  nodup : s.created.Nodup
  created : ∀ id, id ∈ s.created ↔ s.committed.promises.get id ≠ none

end Invariant

section Grow

variable {P : Program} {root c d : Call} {db db' : Db} {id : Id} {v : Verdict} {x : Context}

def Grows (db db' : Db) : Prop := ∀ id, db.promises.get id ≠ none → db'.promises.get id ≠ none

lemma Ends.grow (h : Ends P db c v) (hg : Grows db db') : Ends P db' c v :=
  let ⟨log, he, hl⟩ := h
  ⟨log, he, fun d hd => hg _ (hl d hd)⟩

lemma Known.grow (h : Known P root db id v) (hg : Grows db db') : Known P root db' id v :=
  let ⟨hs, c, hb, hid, he⟩ := h
  ⟨hg _ hs, c, hb, hid, he.grow hg⟩

lemma Known.ends (h : Known P root db c.id v) (hc : P.tree.Below root c) : Ends P db c v := by
  obtain ⟨-, d, hd, hid, he⟩ := h
  rwa [below_unique hd hc hid] at he

lemma Follows.grow {phase : Phase} (h : Follows P root db c x phase) (hg : Grows db db') :
    Follows P root db' c x phase := by
  cases phase with
  | running b =>
    obtain ⟨log, hr, hl⟩ := h.reaches
    exact { h with
      memo := fun id w hw => ⟨(h.memo id w hw).1, fun v hv => ((h.memo id w hw).2 v hv).grow hg⟩
      reaches := ⟨log, hr, fun d hd => hg _ (hl d hd)⟩ }
  | ended result =>
    cases result with
    | resolved v => exact Ends.grow h hg
    | rejected e => exact Ends.grow h hg
    | retry e => trivial
    | suspended ids => trivial

lemma calls_ne_root (hc : P.tree.Below root c) (hd : P.tree.Calls c d) : d.id ≠ root.id := by
  intro hid
  have heq := below_unique (hc.tail hd) .refl hid
  obtain ⟨i, hm⟩ := Made.of_calls hd
  obtain ⟨s, hs⟩ := below_toList hc
  obtain ⟨s', hs'⟩ := hm.under
  rw [heq, hs] at hs'
  have hl := congrArg List.length hs'
  simp at hl

lemma graphOf_child (hc : P.tree.Below root c) (hd : P.tree.Calls c d) :
    graphOf root d = some root.id := if_neg (calls_ne_root hc hd)

end Grow

section Submission

variable {P : Program} {root c d : Call} {db : Db} {x : Delta} {now : Time}

lemma request_insert {r : CallRequest} (hc : P.tree.Below root c) (hd : P.tree.Calls c d)
    (h : P.request (some root.id) d now = some r) : r.insert.id = d.id ∧
      IsRow P root d r.insert.promise ∧ settledAs r.insert.promise = none ∧
      ∃ t, r.insert.task = some t ∧ IsTask d t := by
  rw [Program.request] at h
  split_ifs at h
  cases h
  refine ⟨rfl, ⟨?_, rfl⟩, rfl, _, rfl, rfl, rfl, rfl⟩
  rw [graphOf_child hc hd]
  rfl

lemma view_row (hf : Faithful P root db) (hc : P.tree.Below root c) (hi : Inserts P root db c x)
    {id : Id} {p : Promise} (hp : (db.patch x).promises.get id = some p) :
    ∃ d, P.tree.Below root d ∧ d.id = id ∧ IsRow P root d p ∧
      ∀ v, settledAs p = some v → Known P root db id v := by
  rw [Db.patch_promises] at hp
  cases hx : x.promises.get id with
  | none =>
    rw [hx, Option.getD_none] at hp
    exact hf.promise id p hp
  | some v =>
    rw [hx, Option.getD_some] at hp
    subst hp
    obtain ⟨-, d, q, hd, hid, hq, hpend, hrow⟩ := hi.promise id _ hx
    cases hq
    exact ⟨d, hc.tail hd, hid, hrow, fun v hv => by rw [hpend] at hv; cases hv⟩

lemma view_task (hf : Faithful P root db) (hc : P.tree.Below root c) (hi : Inserts P root db c x)
    {id : Id} {t : Task} (ht : (db.patch x).tasks.get id = some t) :
    ∃ d, P.tree.Below root d ∧ d.id = id ∧ IsTask d t := by
  rw [Db.patch_tasks] at ht
  cases hx : x.tasks.get id with
  | none =>
    rw [hx, Option.getD_none] at ht
    exact hf.task id t ht
  | some v =>
    rw [hx, Option.getD_some] at ht
    subst ht
    obtain ⟨d, u, hd, hid, hu, htask⟩ := hi.task id _ hx
    cases hu
    exact ⟨d, hc.tail hd, hid, htask⟩

lemma Inserts.empty : Inserts P root db c {} :=
  ⟨fun _ _ h => (by cases h), fun _ _ h => (by cases h)⟩

lemma children_ids_nodup (c : Call) (n : ℕ) (ds : List DurableCall) :
    ((c.children n ds).map Call.id).Nodup := by
  refine List.pairwise_map.mpr ((children_pairwise c n ds).imp ?_)
  rintro _ _ ⟨i, j, a, b, hij, rfl, rfl⟩ hid
  exact hij.ne ((under_child c i a).index_unique (hid ▸ under_child c j b))

lemma submit_children {ds : List Call} {requests : List CallRequest} (hf : Faithful P root db)
    (hc : P.tree.Below root c) (hi : Inserts P root db c x) (hds : ∀ d ∈ ds, P.tree.Calls c d)
    (hn : (ds.map Call.id).Nodup)
    (hr : ds.mapM (fun d => P.request (some root.id) d now) = some requests) :
    ∃ y rows, submitCalls db x requests = (y, .ok rows) ∧ Inserts P root db c y ∧
      (∀ w ∈ rows, ∀ v, verdict w = some v → Known P root db w.id v) ∧
      ∀ d ∈ ds, ∃ w ∈ rows, w.id = d.id := by
  have hall := mapM_some hr
  have hids : requests.map CallRequest.id = ds.map Call.id := by
    clear hn hr
    induction hall with
    | nil => rfl
    | @cons d r ds rs hdr _ ih =>
      rw [List.map_cons, List.map_cons, ih fun d hd => hds d (List.mem_cons_of_mem _ hd)]
      rw [← (request_insert hc (hds d List.mem_cons_self) hdr).1]
      rfl
  have hreq : ∀ e ∈ requests.map CallRequest.insert, ∃ d ∈ ds, e.id = d.id ∧
      IsRow P root d e.promise ∧ settledAs e.promise = none ∧ ∃ t, e.task = some t ∧ IsTask d t := by
    intro e he
    obtain ⟨r, hm, rfl⟩ := List.mem_map.mp he
    obtain ⟨d, hd, hdr⟩ := mem_of_forall₂ hall hm
    exact ⟨d, hd, request_insert hc (hds d hd) hdr⟩
  have hadds : Adds db x _ _ := foldl_insert_adds (requests.map CallRequest.insert)
  set y := (requests.map CallRequest.insert).foldl (insert db) x with hy
  have hiy : Inserts P root db c y := by
    refine ⟨fun id v hv => ?_, fun id v hv => ?_⟩
    · rcases hadds.promise id v hv with hv | ⟨hnone, e, he, rfl, rfl⟩
      · exact hi.promise id v hv
      · obtain ⟨d, hd, hid, hrow, hpend, -⟩ := hreq e he
        refine ⟨?_, d, e.promise, hds d hd, hid.symm, rfl, hpend, hrow⟩
        by_contra hp
        rw [Db.patch_promises] at hnone
        cases hx : x.promises.get e.id with
        | none =>
          rw [hx, Option.getD_none] at hnone
          exact hp hnone
        | some u => exact hp (hi.promise e.id u hx).1
    · rcases hadds.task id v hv with hv | ⟨e, he, rfl, -, rfl⟩
      · exact hi.task id v hv
      · obtain ⟨d, hd, hid, -, -, t, ht, htask⟩ := hreq e he
        exact ⟨d, t, hds d hd, hid.symm, ht, htask⟩
  have hdelta : (submit db x (requests.map CallRequest.insert)).1 = y := submit_delta _
  obtain ⟨rows, hrows, hmem⟩ := submit_rows (requests.map CallRequest.insert) fun e he p hp => by
    rw [hdelta] at hp
    obtain ⟨d, hd, hid, hrow, -⟩ := hreq e he
    obtain ⟨d', hb, hid', hrow', -⟩ := view_row hf hc hiy hp
    have heq := below_unique hb (hc.tail (hds d hd)) (hid'.trans hid)
    rw [hrow.1, hrow'.1, heq]
  refine ⟨y, rows, ?_, hiy, fun w hw v hv => ?_, fun d hd => ?_⟩
  · rw [submitCalls, duplicate_eq_none (hids ▸ hn) (List.disjoint_nil_left _)]
    exact Prod.ext hdelta hrows
  · obtain ⟨e, he, p, hp, rfl⟩ := (hmem w).mp hw
    rw [hdelta] at hp
    obtain ⟨-, -, -, -, hknown⟩ := view_row hf hc hiy hp
    exact hknown v hv
  · have hm : d.id ∈ requests.map CallRequest.id := hids ▸ List.mem_map_of_mem hd
    obtain ⟨r, hr, hrd⟩ := List.mem_map.mp hm
    have he : r.insert ∈ requests.map CallRequest.insert := List.mem_map_of_mem hr
    obtain ⟨p, hp⟩ := Option.ne_none_iff_exists'.mp (hadds.stored _ he)
    exact ⟨_, (hmem _).mpr ⟨_, he, p, hdelta ▸ hp, rfl⟩, hrd⟩

end Submission

section Run

variable {P : Program} {root c : Call} {db : Db} {a a' : Attempt} {now : Time}

lemma filterMap_eq_map {α β : Type} {f : α → Option β} {g : α → β} {l : List α}
    (h : ∀ a ∈ l, f a = some (g a)) : l.filterMap f = l.map g := by
  rw [List.filterMap_congr h]
  exact congrFun List.filterMap_eq_map l

lemma Running.advance {ds : List DurableCall} {next : Except Error (List Settled) → Body}
    {x : Context} {index : ℕ} {log : List Call} (hc : P.tree.Below root c)
    (hr : P.tree.Reaches (P.tree.start c) ⟨c, index, .gather ds next⟩ log)
    (hlog : ∀ d ∈ log, db.promises.get d.id ≠ none)
    (hmemo : ∀ id w, x.memo.get id = some w →
      w.id = id ∧ ∀ v, verdict w = some v → Known P root db id v)
    (hfound : ∀ d ∈ c.children index ds, ∃ w v, x.find d.id = some w ∧ verdict w = some v)
    (hids : x.taskId = c.id ∧ x.rootId = root.id ∧ x.depth = c.depth)
    (hindex : x.callIndex = index + ds.length) :
    Running P root db c x (next (.ok (((c.children index ds).filterMap fun d => x.find d.id).filterMap
      fun w => (verdict w).map (⟨w.id, ·⟩)))) := by
  have hcalls : ∀ d ∈ c.children index ds, P.tree.Calls c d := fun d hd =>
    ⟨_, log, _, _, hr, rfl, hd⟩
  have hall : ∀ d ∈ c.children index ds, ∃ vl : Verdict × List Call,
      ((x.find d.id).bind fun w => (verdict w).map fun v => (⟨w.id, v⟩ : Settled)) =
        some ⟨d.id, vl.1⟩ ∧
      P.tree.Evaluates (P.tree.start d) vl.1 vl.2 ∧ db.promises.get d.id ≠ none ∧
      ∀ e ∈ vl.2, db.promises.get e.id ≠ none := by
    intro d hd
    obtain ⟨w, v, hw, hv⟩ := hfound d hd
    obtain ⟨hid, hknown⟩ := hmemo d.id w hw
    have hk := hknown v hv
    obtain ⟨log, he, hl⟩ := hk.ends (hc.tail (hcalls d hd))
    refine ⟨(v, log), ?_, he, hk.1, hl⟩
    rw [hw, Option.bind_some, hv, Option.map_some, hid]
  have : Nonempty (Verdict × List Call) := ⟨(.resolved jsonNull, [])⟩
  choose! vl hvl using hall
  have hlist : ((c.children index ds).filterMap fun d => x.find d.id).filterMap
      (fun w => (verdict w).map fun v => (⟨w.id, v⟩ : Settled)) =
      settled (c.children index ds) ((c.children index ds).map fun d => (vl d).1) := by
    rw [List.filterMap_filterMap, filterMap_eq_map (g := fun d => ⟨d.id, (vl d).1⟩)
      fun d hd => (hvl d hd).1, settled, List.zipWith_map_right, List.zipWith_self]
  have hadv := hr.advance (fun d => (vl d).1) (fun d => (vl d).2) rfl fun d hd => (hvl d hd).2.1
  refine ⟨hids.1, hids.2.1, hids.2.2, hmemo,
    log ++ (c.children index ds).flatMap fun d => d :: (vl d).2, ?_, ?_⟩
  · rw [hlist, hindex]
    exact hadv
  · intro e he
    rcases List.mem_append.mp he with he | he
    · exact hlog e he
    · obtain ⟨d, hd, he⟩ := List.mem_flatMap.mp he
      rcases List.mem_cons.mp he with rfl | he
      · exact (hvl e hd).2.2.1
      · exact (hvl d hd).2.2.2 e he

lemma Sound.gather {ds : List DurableCall} {next : Except Error (List Settled) → Body}
    (hf : Faithful P root db) (hs : Sound P root db c a) (hp : a.phase = .running (.gather ds next))
    (hl : a.withinLimits = true) (h : a.gather P db now ds next = some a') :
    Sound P root db c a' ∧ a'.task = a.task := by
  obtain ⟨hbelow, htask, hins, hfol⟩ := hs
  rw [hp] at hfol
  obtain ⟨hid, hroot, hdepth, hmemo, log, hreach, hlog⟩ := hfol
  have hcalls : ∀ d ∈ c.children a.context.callIndex ds, P.tree.Calls c d := fun d hd =>
    ⟨_, log, _, _, hreach, rfl, hd⟩
  simp only [Attempt.withinLimits, hp, decide_eq_true_eq] at hl
  rw [Attempt.gather, invokeAll_eq hid hdepth hl.1 hl.2] at h
  generalize hx : ({ a.context with callIndex := a.context.callIndex + ds.length } : Context) = x at h
  have hxroot : x.rootId = root.id := hx ▸ hroot
  have hxmemo : x.memo = a.context.memo := hx ▸ rfl
  dsimp only at h
  rw [hxroot] at h
  obtain ⟨requests, hreq, h⟩ := Option.bind_eq_some_iff.mp h
  obtain ⟨y, rows, hsub, hiy, hknown, hrows⟩ := submit_children hf hbelow hins
    (fun d hd => hcalls d (List.mem_of_mem_filter hd))
    ((children_ids_nodup c _ ds).sublist (List.filter_sublist.map _)) hreq
  rw [hsub] at h
  dsimp only at h
  obtain ⟨ht, hr, hd, hci, hfind, hmem⟩ := foldl_save rows x
  generalize rows.foldl Context.save x = z at *
  have hmemo' : ∀ id w, z.memo.get id = some w →
      w.id = id ∧ ∀ v, verdict w = some v → Known P root db id v := by
    intro id w hw
    rcases hfind id w hw with ⟨hm, rfl⟩ | hw
    · exact ⟨rfl, hknown w hm⟩
    · exact hmemo id w (hxmemo ▸ hw)
  have hfound : ∀ d ∈ c.children a.context.callIndex ds, z.find d.id ≠ none := by
    intro d hd
    refine hmem d.id ?_
    by_cases hnone : x.find d.id = none
    · obtain ⟨w, hw, hwd⟩ := hrows d (List.mem_filter.mpr ⟨hd, by simpa using hnone⟩)
      exact Or.inl ⟨w, hw, hwd⟩
    · exact Or.inr hnone
  split_ifs at h with hpend
  · cases h
    exact ⟨⟨hbelow, htask, hiy, trivial⟩, rfl⟩
  · cases h
    refine ⟨⟨hbelow, htask, hiy, ?_⟩, rfl⟩
    refine Running.advance hbelow hreach hlog hmemo' (fun d hd => ?_)
      ⟨ht.trans (hx ▸ hid), hr.trans hxroot, hd.trans (hx ▸ hdepth)⟩ (hci.trans (hx ▸ rfl))
    obtain ⟨w, hw⟩ := Option.ne_none_iff_exists'.mp (hfound d hd)
    have hnone : verdict w ≠ none := by
      intro hv
      have hm : w ∈ ((c.children a.context.callIndex ds).filterMap fun d => z.find d.id).filter
          fun w => verdict w = none :=
        List.mem_filter.mpr ⟨List.mem_filterMap.mpr ⟨d, hd, hw⟩, by simpa using hv⟩
      rw [not_ne_iff.mp hpend] at hm
      cases hm
    obtain ⟨v, hv⟩ := Option.ne_none_iff_exists'.mp hnone
    exact ⟨w, v, hw, hv⟩

lemma Sound.run (hf : Faithful P root db) (hs : Sound P root db c a) (hl : a.withinLimits = true)
    (h : a.run P db now = some a') : Sound P root db c a' ∧ a'.task = a.task := by
  cases hp : a.phase with
  | ended result =>
    rw [Attempt.run, hp] at h
    cases h
  | running b =>
    have hfol := hs.follows
    rw [hp] at hfol
    obtain ⟨log, hreach, hlog⟩ := hfol.reaches
    have hends : ∀ {v}, P.tree.pause ⟨c, a.context.callIndex, b⟩ = .verdict v → Ends P db c v := by
      intro v hv
      have he := hreach.evaluates (.verdict hv)
      rw [List.append_nil] at he
      exact ⟨log, he, hlog⟩
    rw [Attempt.run, hp] at h
    cases b with
    | ret value =>
      cases h
      simp only [Attempt.withinLimits, hp, decide_eq_true_eq] at hl
      refine ⟨{ hs with follows := ?_ }, rfl⟩
      rw [returned, if_neg (not_lt.mpr hl)]
      exact hends rfl
    | raise fault =>
      cases h
      refine ⟨{ hs with follows := ?_ }, rfl⟩
      cases fault with
      | error e => exact hends rfl
      | timeout => trivial
      | retryable text => trivial
    | gather ds next => exact hs.gather hf hp hl h

lemma Sound.claimed {id : Id} {t : Task} (hf : Faithful P root db)
    (ht : db.tasks.get id = some t) (hp : db.promises.get id ≠ none) :
    ∃ c, Sound P root db c {
      task := claimedTask db id t
      context := Context.load (claimedTask db id t)
      phase := .running ((P.function t.function).body t.input) } := by
  obtain ⟨c, hc, hid, hfn, hin, hdep⟩ := hf.task id t ht
  obtain ⟨p, hp⟩ := Option.ne_none_iff_exists'.mp hp
  obtain ⟨c', hc', hid', hrow, -⟩ := hf.promise id p hp
  obtain rfl := below_unique hc hc' (hid.trans hid'.symm)
  obtain ⟨htask, hroot, hdepth, hindex, hfind, -⟩ := foldl_save (claimedTask db id t).waits
    { taskId := id, rootId := (claimedTask db id t).rootId.getD id, depth := t.depth }
  have hgraph : (claimedTask db id t).rootId.getD id = root.id := by
    rw [claimedTask_graph hp, ← hid]
    exact hrow.2
  refine ⟨c, hc, hid.symm, .empty, ?_⟩
  refine ⟨htask.trans hid.symm, hroot.trans hgraph, hdepth.trans hdep, fun j w hw => ?_, [], ?_, nofun⟩
  · rcases hfind j w hw with ⟨hm, rfl⟩ | hw
    · refine ⟨rfl, fun v hv => ?_⟩
      obtain ⟨e, he, rfl⟩ := List.mem_map.mp hm
      have hget := (Dict.mem_entries _ _ _).mp
        (List.mem_of_mem_filter ((List.mem_insertionSort _).mp he))
      obtain ⟨-, -, -, -, hknown⟩ := hf.promise e.1 e.2 hget
      exact hknown v hv
    · cases hw
  · change ReflTransGen _ _ _
    have hbody : (P.function t.function).body t.input = P.body c := by rw [hfn, hin, Program.body]
    have hcall : (Context.load (claimedTask db id t)).callIndex = 0 := hindex
    rw [hbody, hcall]
    exact .refl

end Run

section Commit

variable {P : Program} {root c c' : Call} {db db' : Db} {a b : Attempt} {now : Time} {x : Delta}

lemma settleExecution_leaves {result : Result} (hs : Sound P root db c a)
    (hp : a.phase = .ended result)
    (hlimit : ∀ e, result = .retry e →
      ∀ t, (db.patch a.delta).tasks.get a.task.id = some t → t.failures + 1 < t.maxFailures)
    (h : settleExecution (db.patch a.delta) a.task result now = some db') :
    ∃ outcome, Leaves (db.patch a.delta) db' c.id outcome ∧ ∀ o, outcome = some o →
      ∀ p v, settledAs (Promise.settle p o) = some v → Ends P db c v := by
  obtain ⟨-, hid, -, hfol⟩ := hs
  rw [hp] at hfol
  rw [← hid]
  cases result with
  | resolved value =>
    refine ⟨_, settlePromise_leaves h, ?_⟩
    rintro _ ⟨⟩ p v hv
    have hval : v = .resolved value := by
      rw [settledAs] at hv
      change some (Verdict.resolved ((if value = jsonNull then none else some value).getD jsonNull)) =
        some v at hv
      split_ifs at hv with hnull
      · rw [hnull]
        exact (Option.some.inj hv).symm
      · exact (Option.some.inj hv).symm
    exact hval ▸ hfol
  | rejected e =>
    refine ⟨_, settlePromise_leaves h, ?_⟩
    rintro _ ⟨⟩ p v hv
    obtain rfl : Verdict.rejected e.json = v := Option.some.inj hv
    exact hfol
  | retry e => exact ⟨none, retryTask_leaves h (hlimit e rfl), nofun⟩
  | suspended ids => exact ⟨none, suspendTask_leaves h, nofun⟩

lemma Faithful.commit {outcome : Option Outcome} (hf : Faithful P root db)
    (hc : P.tree.Below root c) (hi : Inserts P root db c x) (hl : Leaves (db.patch x) db' c.id outcome)
    (ho : ∀ o, outcome = some o → ∀ p v, settledAs (Promise.settle p o) = some v → Ends P db c v) :
    Faithful P root db' ∧ Grows db db' := by
  have hview : Grows db (db.patch x) := by
    intro id hid
    rw [Db.patch_promises]
    cases hx : x.promises.get id with
    | none => exact hid
    | some v => exact absurd (hi.promise id v hx).1 hid
  have hgrow : Grows db db' := fun id hid => hl.stored id (hview id hid)
  refine ⟨⟨fun id p' hp' => ?_, fun id t' ht' => ?_⟩, hgrow⟩
  · obtain ⟨p, hp, hsame⟩ := hl.promise id p' hp'
    obtain ⟨d, hd, hid, hrow, hknown⟩ := view_row hf hc hi hp
    rcases hsame with rfl | ⟨rfl, o, hout, rfl⟩
    · exact ⟨d, hd, hid, hrow, fun v hv => (hknown v hv).grow hgrow⟩
    · refine ⟨d, hd, hid, hrow, fun v hv => ?_⟩
      exact ⟨by rw [hp']; nofun, c, hc, rfl, (ho o hout p v hv).grow hgrow⟩
  · obtain ⟨t, ht, hfn, -, hin, hdep⟩ := hl.task id t' ht'
    obtain ⟨d, hd, hid, htask⟩ := view_task hf hc hi ht
    exact ⟨d, hd, hid, hfn.trans htask.1, hin.trans htask.2.1, hdep.trans htask.2.2⟩

lemma Sound.commit {outcome : Option Outcome} (hc : P.tree.Below root c)
    (hi : Inserts P root db c x) (hl : Leaves (db.patch x) db' c.id outcome) (hg : Grows db db')
    (hs : Sound P root db c' b) (hne : c ≠ c') : Sound P root db' c' b := by
  refine { hs with
    inserts := ⟨fun id v hv => ?_, hs.inserts.task⟩
    follows := hs.follows.grow hg }
  obtain ⟨hnone, d, p, hd, hid, hrest⟩ := hs.inserts.promise id v hv
  refine ⟨?_, d, p, hd, hid, hrest⟩
  by_contra hstored
  obtain ⟨p', hp'⟩ := Option.ne_none_iff_exists'.mp hstored
  obtain ⟨q, hq, -⟩ := hl.promise id p' hp'
  rw [Db.patch_promises] at hq
  cases hx : x.promises.get id with
  | none =>
    rw [hx, Option.getD_none, hnone] at hq
    cases hq
  | some u =>
    obtain ⟨-, e, -, he, hide, -⟩ := hi.promise id u hx
    obtain rfl := below_unique (hc.tail he) (hs.below.tail hd) (hide.trans hid.symm)
    exact hne (caller_unique hc hs.below he hd)

lemma created_commit {id : Id} {outcome : Option Outcome} {created : List Id}
    (hi : ∀ id v, x.promises.get id = some v → db.promises.get id = none ∧ ∃ p, v = some p)
    (hn : created.Nodup) (hm : ∀ id, id ∈ created ↔ db.promises.get id ≠ none)
    (hl : Leaves (db.patch x) db' id outcome) : (created ++ x.promises.keys).Nodup ∧
      ∀ id, id ∈ created ++ x.promises.keys ↔ db'.promises.get id ≠ none := by
  have hkeys : ∀ id, id ∈ x.promises.keys → id ∉ created := by
    intro id hid hcr
    obtain ⟨v, hv⟩ := (Dict.mem_keys _ _).mp hid
    exact (hm id).mp hcr (hi id v hv).1
  refine ⟨List.nodup_append.mpr ⟨hn, x.promises.nodup, ?_⟩, fun id => ?_⟩
  · rintro a ha _ hb rfl
    exact hkeys a hb ha
  · rw [List.mem_append, hm, Dict.mem_keys]
    constructor
    · rintro (hid | ⟨v, hv⟩)
      · refine hl.stored id ?_
        rw [Db.patch_promises]
        cases hx : x.promises.get id with
        | none => exact hid
        | some v => exact absurd (hi id v hx).1 hid
      · obtain ⟨-, p, rfl⟩ := hi id v hv
        refine hl.stored id ?_
        rw [Db.patch_promises, hv]
        nofun
    · intro hid
      obtain ⟨p', hp'⟩ := Option.ne_none_iff_exists'.mp hid
      obtain ⟨p, hp, -⟩ := hl.promise id p' hp'
      rw [Db.patch_promises] at hp
      cases hx : x.promises.get id with
      | none =>
        rw [hx, Option.getD_none] at hp
        exact Or.inl (by rw [hp]; nofun)
      | some v => exact Or.inr ⟨v, rfl⟩

lemma Inserts.promises_new (hi : Inserts P root db c x) : ∀ id v, x.promises.get id = some v →
    db.promises.get id = none ∧ ∃ p, v = some p := by
  intro id v hv
  obtain ⟨hnone, d, p, -, -, hvp, -⟩ := hi.promise id v hv
  exact ⟨hnone, p, hvp⟩

end Commit

namespace Inv

variable {P : Program} {root : Call} {s s' : System} {k : ℕ} {now : Time}

lemma start : Inv P root {} :=
  ⟨⟨fun _ _ h => (by cases h), fun _ _ h => (by cases h)⟩, fun _ _ h => (by cases h),
    fun _ _ _ _ h => (by cases h), List.nodup_nil,
    fun _ => iff_of_false List.not_mem_nil (not_not_intro rfl)⟩

lemma set {a a' : Attempt} {c : Call} (h : Inv P root s) (ha : s.attempts.get k = some a)
    (hs : Sound P root s.committed c a') (ht : a'.task = a.task) :
    Inv P root { s with attempts := s.attempts.set k a' } := by
  have hold : ∀ j b, (s.attempts.set k a').get j = some b →
      ∃ b₀, s.attempts.get j = some b₀ ∧ b₀.task = b.task := by
    refine Dict.forall_set (fun j u _ hj => ⟨u, hj, rfl⟩) ⟨a, ha, ht.symm⟩
  refine { h with
    sound := Dict.forall_set (fun j b _ hj => h.sound j b hj) ⟨c, hs⟩
    apart := fun i j b b' hi hj hid => ?_ }
  obtain ⟨b₀, hb₀, ht₀⟩ := hold i b hi
  obtain ⟨b₁, hb₁, ht₁⟩ := hold j b' hj
  exact h.apart i j b₀ b₁ hb₀ hb₁ (by rw [ht₀, ht₁, hid])

lemma erase (h : Inv P root s) : Inv P root { s with attempts := s.attempts.erase k } := by
  have hold : ∀ j b, (s.attempts.erase k).get j = some b → s.attempts.get j = some b :=
    Dict.forall_erase fun j u _ hj => hj
  exact { h with
    sound := fun j b hj => h.sound j b (hold j b hj)
    apart := fun i j b b' hi hj => h.apart i j b b' (hold i b hi) (hold j b' hj) }

lemma client (h : Inv P root s) (hs : s.client P root now = some s') : Inv P root s' := by
  obtain ⟨r, hr, rfl⟩ := Option.map_eq_some_iff.mp hs
  have hadds : Adds s.committed {} _ _ := insert_adds r.insert
  have hdelta : (submitCalls s.committed {} [r]).1 = insert s.committed {} r.insert := by
    rw [submitCalls, List.map_singleton, duplicate_eq_none (List.nodup_singleton _) (List.disjoint_nil_left _)]
    exact submit_delta _
  rw [hdelta]
  set y := insert s.committed {} r.insert
  have hroot : r.insert.id = root.id ∧ IsRow P root root r.insert.promise ∧
      settledAs r.insert.promise = none ∧ ∀ t, r.insert.task = some t → IsTask root t := by
    rw [Program.request, dif_pos nofun] at hr
    cases hr
    refine ⟨rfl, ⟨?_, rfl⟩, rfl, fun t ht => ?_⟩
    · rw [graphOf, if_pos rfl]
      rfl
    · cases ht
      exact ⟨rfl, rfl, rfl⟩
  have hnew : ∀ id v, y.promises.get id = some v → s.committed.promises.get id = none ∧
      id = root.id ∧ v = some r.insert.promise := by
    intro id v hv
    rcases hadds.promise id v hv with hv | ⟨hnone, e, he, hid, rfl⟩
    · cases hv
    · rw [List.mem_singleton.mp he] at hid ⊢
      rw [Db.patch_promises] at hnone
      exact ⟨hnone, hid.symm.trans hroot.1, rfl⟩
  have hrow : ∀ id p, (s.committed.patch y).promises.get id = some p →
      s.committed.promises.get id = some p ∨ id = root.id ∧ p = r.insert.promise := by
    intro id p hp
    rw [Db.patch_promises] at hp
    cases hv : y.promises.get id with
    | none =>
      rw [hv] at hp
      exact Or.inl hp
    | some v =>
      obtain ⟨-, hid, rfl⟩ := hnew id v hv
      rw [hv] at hp
      exact Or.inr ⟨hid, (Option.some.inj hp).symm⟩
  have hgrow : Grows s.committed (s.committed.patch y) := by
    intro id hid
    obtain ⟨p, hp⟩ := Option.ne_none_iff_exists'.mp hid
    rw [hadds.kept id p (by rw [Db.patch_promises]; exact hp)]
    nofun
  have hsame : Leaves (s.committed.patch y) (s.committed.patch y) root.id none :=
    ⟨fun j p hp => ⟨p, hp, Or.inl rfl⟩, fun _ hj => hj, .refl _⟩
  obtain ⟨hn, hm⟩ := created_commit (fun id v hv => ⟨(hnew id v hv).1, _, (hnew id v hv).2.2⟩)
    h.nodup h.created hsame
  refine ⟨⟨fun id p hp => ?_, fun id t ht => ?_⟩, fun j a ha => ?_, h.apart, hn, hm⟩
  · rcases hrow id p hp with hp | ⟨rfl, rfl⟩
    · obtain ⟨c, hc, hid, hr, hknown⟩ := h.faithful.promise id p hp
      exact ⟨c, hc, hid, hr, fun v hv => (hknown v hv).grow hgrow⟩
    · exact ⟨root, .refl, rfl, hroot.2.1, fun v hv => by rw [hroot.2.2.1] at hv; cases hv⟩
  · rw [Db.patch_tasks] at ht
    cases hv : y.tasks.get id with
    | none =>
      rw [hv] at ht
      exact h.faithful.task id t ht
    | some v =>
      rw [hv, Option.getD_some] at ht
      rcases hadds.task id v hv with hv | ⟨e, he, hid, -, rfl⟩
      · cases hv
      · rw [List.mem_singleton.mp he] at hid ht
        exact ⟨root, .refl, hroot.1.symm.trans hid, hroot.2.2.2 t ht⟩
  · obtain ⟨c, hc⟩ := h.sound j a ha
    refine ⟨c, { hc with
      inserts := ⟨fun id v hv => ?_, hc.inserts.task⟩
      follows := hc.follows.grow hgrow }⟩
    obtain ⟨hnone, d, p, hd, hid, hrest⟩ := hc.inserts.promise id v hv
    refine ⟨?_, d, p, hd, hid, hrest⟩
    by_contra hstored
    obtain ⟨q, hq⟩ := Option.ne_none_iff_exists'.mp hstored
    rcases hrow id q hq with hq | ⟨hidr, -⟩
    · rw [hnone] at hq
      cases hq
    · exact calls_ne_root hc.below hd (hid.trans hidr)

lemma claim {topic : String} {excluded : List (String × ℕ)} {id : Id} (h : Inv P root s)
    (hs : s.claim P k topic excluded now id = some s') : Inv P root s' := by
  rw [System.claim] at hs
  split_ifs at hs with hfree
  obtain ⟨t, ht, hs⟩ := Option.bind_eq_some_iff.mp hs
  split_ifs at hs
  cases hs
  rw [not_or, not_or, not_not, not_not] at hfree
  obtain ⟨hfree, hheld, hcand⟩ := hfree
  have hp : s.committed.promises.get id ≠ none := by
    intro hnone
    obtain ⟨e, he, heid⟩ := List.mem_map.mp hcand
    have hf := (List.mem_filter.mp ((List.mem_insertionSort _).mp he)).2
    rw [heid, hnone] at hf
    simp at hf
  obtain ⟨c, hc⟩ := Sound.claimed h.faithful ht hp
  have hother : ∀ j b, s.attempts.get j = some b → b.task.id ≠ id := by
    intro j b hb hid
    refine hheld ?_
    rw [System.holds, List.any_eq_true]
    exact ⟨b, (Dict.mem_values _ _).mpr ⟨j, hb⟩, by simpa using hid⟩
  refine { h with
    sound := Dict.forall_set (fun j b _ hj => h.sound j b hj) ⟨c, hc⟩
    apart := fun i j b b' hi hj hid => ?_ }
  dsimp only at hi hj
  rw [Dict.get_set] at hi hj
  split_ifs at hi hj with hik hjk hjk
  · rw [hik, hjk]
  · cases hi
    exact absurd hid.symm (hother j b' hj)
  · cases hj
    exact absurd hid (hother i b hi)
  · exact h.apart i j b b' hi hj hid

lemma settle (h : Inv P root s) (hl : s.withinLimits k (.settle now) = true)
    (hs : s.settle k now = some s') : Inv P root s' := by
  obtain ⟨a, ha, hs⟩ := Option.bind_eq_some_iff.mp hs
  cases hp : a.phase with
  | running b =>
    rw [hp] at hs
    cases hs
  | ended result =>
    rw [hp] at hs
    dsimp only at hs
    split_ifs at hs
    obtain ⟨db, hdb, rfl⟩ := Option.map_eq_some_iff.mp hs
    obtain ⟨c, hc⟩ := h.sound k a ha
    obtain ⟨outcome, hleaves, hout⟩ := settleExecution_leaves hc hp (by
      rintro e rfl t ht
      rw [System.withinLimits, ha, Option.all_some, hp] at hl
      have hcommitted : s.committed.tasks.get a.task.id = some t := by
        rw [Db.patch_tasks] at ht
        cases hx : a.delta.tasks.get a.task.id with
        | none => rwa [hx, Option.getD_none] at ht
        | some v =>
          obtain ⟨d, -, hd, hid, -⟩ := hc.inserts.task _ v hx
          obtain ⟨i, hm⟩ := Made.of_calls hd
          exact absurd (hid.trans hc.taskId) hm.under.ne
      rw [hcommitted] at hl
      simpa using hl) hdb
    obtain ⟨hf, hg⟩ := h.faithful.commit hc.below hc.inserts hleaves hout
    obtain ⟨hn, hm⟩ := created_commit hc.inserts.promises_new h.nodup h.created hleaves
    refine ⟨hf, ?_, fun i j b b' hi hj => ?_, hn, hm⟩
    · refine Dict.forall_erase fun j b hj hb => ?_
      obtain ⟨c', hc'⟩ := h.sound j b hb
      refine ⟨c', hc'.commit hc.below hc.inserts hleaves hg ?_⟩
      rintro rfl
      exact hj (h.apart j k b a hb ha (hc'.taskId.trans hc.taskId.symm))
    · rw [Dict.get_erase] at hi hj
      split_ifs at hi hj
      exact h.apart i j b b' hi hj

lemma step {act : Action} (h : Inv P root s) (hl : s.withinLimits k act = true)
    (hs : s.step P root k act = some s') : Inv P root s' := by
  cases act with
  | submit now => exact h.client hs
  | claim topic excluded now id => exact h.claim hs
  | run now =>
    obtain ⟨a, ha, hs⟩ := Option.bind_eq_some_iff.mp hs
    obtain ⟨a', ha', rfl⟩ := Option.map_eq_some_iff.mp hs
    rw [System.withinLimits, ha, Option.all_some] at hl
    obtain ⟨c, hc⟩ := h.sound k a ha
    obtain ⟨hc', ht⟩ := hc.run h.faithful hl ha'
    exact h.set ha hc' ht
  | interrupt e =>
    obtain ⟨a, ha, hs⟩ := Option.bind_eq_some_iff.mp hs
    cases hp : a.phase with
    | ended result =>
      rw [hp] at hs
      cases hs
    | running b =>
      rw [hp] at hs
      cases hs
      obtain ⟨c, hc⟩ := h.sound k a ha
      exact h.set ha { hc with follows := trivial } rfl
  | settle now => exact h.settle hl hs
  | rollback =>
    cases hs
    exact h.erase
  | expire id now => cases hl

lemma run {as : List (ℕ × Action)} (h : Inv P root s) (hl : s.limited P root as = true)
    (hr : s.run P root as = some s') : Inv P root s' := by
  induction as generalizing s with
  | nil =>
    cases hr
    exact h
  | cons e as ih =>
    obtain ⟨k, a⟩ := e
    obtain ⟨s₁, hs, hr⟩ := Option.bind_eq_some_iff.mp hr
    rw [System.limited, hs, Option.all_some, Bool.and_eq_true] at hl
    exact ih (h.step hl.1 hs) hl.2 hr

end Inv

/-- In every run within the limits, a root that is resolved has the value of the direct evaluation,
and each call that the evaluation makes has created one promise. -/
theorem replay_faithful {P : Program} {id : Id} {call : DurableCall} {s : System}
    {as : List (ℕ × Action)} (hl : System.limited P (.root id call) {} as = true)
    (hr : System.run P (.root id call) {} as = some s) {p : Promise} {result : Option Json} {t : Time}
    (hp : s.committed.promises.get id = some p) (hres : p.outcome = .resolved result t) :
    ∃ log, P.tree.Evaluates (P.tree.start (.root id call)) (.resolved (result.getD jsonNull)) log ∧
      (log.map Call.id).Nodup ∧ s.created.Perm (id :: log.map Call.id) := by
  have h := Inv.start.run hl hr
  obtain ⟨c, hc, hid, -, hknown⟩ := h.faithful.promise id p hp
  have hv : settledAs p = some (.resolved (result.getD jsonNull)) := by
    rw [settledAs, Promise.state, hres]
    rfl
  obtain ⟨log, he, hlog⟩ := Known.ends (c := Call.root id call) (hknown _ hv) .refl
  refine ⟨log, he, log_nodup he, ?_⟩
  have hroot : id ∉ log.map Call.id := by
    intro hm
    obtain ⟨d, hd, hid⟩ := List.mem_map.mp hm
    obtain ⟨i, -, hu⟩ := log_under he d hd
    exact hu.ne hid
  refine (List.perm_ext_iff_of_nodup h.nodup (List.nodup_cons.mpr ⟨hroot, log_nodup he⟩)).mpr fun j => ?_
  rw [h.created j]
  constructor
  · intro hj
    obtain ⟨q, hq⟩ := Option.ne_none_iff_exists'.mp hj
    obtain ⟨d, hd, rfl, -⟩ := h.faithful.promise j q hq
    rcases List.mem_cons.mp (he.mem_log hd) with rfl | hm
    · exact List.mem_cons_self
    · exact List.mem_cons_of_mem _ (List.mem_map_of_mem hm)
  · intro hj
    rcases List.mem_cons.mp hj with rfl | hj
    · rw [hp]
      nofun
    · obtain ⟨d, hd, rfl⟩ := List.mem_map.mp hj
      exact hlog d hd

section Sample

def sampleBody (function : String) (input : Json) : Body :=
  if function = "main" then
    .mapreduce (fun v => ⟨"item", v⟩) (fun vs => ⟨"total", ⟨String.join (vs.map Json.text)⟩⟩)
      [⟨"1"⟩, ⟨"2"⟩] fun reduced =>
        match reduced.bind Settled.result with
        | .ok value => .ret value
        | .error e => .raise (.error e)
  else .ret input

def sampleProgram : Program where
  function name := { executionTimeoutMs := 1000, body := sampleBody name }
  fingerprint w := w.id ++ w.function ++ w.input.text
  retentionMs := 1000

def sampleCall : DurableCall := ⟨"main", ⟨"null"⟩⟩

def attempt (k : ℕ) (id : Id) (runs : List Action) (last : Action) : List (ℕ × Action) :=
  (k, .claim "default" [] 9 id) :: (runs ++ [last]).map fun a => (k, a)

def sampleRun : List (ℕ × Action) :=
  [(0, .submit 0)] ++ attempt 0 "r" [.run 1] (.settle 2) ++
    [(1, .claim "default" [] 9 "r:2:item")] ++ attempt 0 "r:1:item" [.run 3] (.settle 4) ++
    [(1, .run 4), (1, .rollback)] ++ attempt 1 "r:2:item" [.interrupt (timeoutError "")] (.settle 5) ++
    attempt 1 "r:2:item" [.run 5] (.settle 6) ++
    attempt 0 "r" [.run 6, .run 6] .rollback ++
    attempt 0 "r" [.run 6] (.interrupt (retryableError "")) ++ [(0, .settle 6)] ++
    attempt 0 "r" [.run 6, .run 6] (.settle 7) ++
    attempt 1 "r:3:total" [.run 7] (.settle 8) ++
    attempt 1 "r" [.run 8, .run 8, .run 8] (.settle 9)

lemma sampleRun_runs : (System.run sampleProgram (.root "r" sampleCall) {} sampleRun).isSome = true := by
  decide +kernel

def sampleEnd : System := (System.run sampleProgram (.root "r" sampleCall) {} sampleRun).get sampleRun_runs

theorem replay_faithful_sample : ∃ log, sampleProgram.tree.Evaluates
    (sampleProgram.tree.start (.root "r" sampleCall)) (.resolved ((some ⟨"12"⟩).getD jsonNull)) log ∧
      (log.map Call.id).Nodup ∧ sampleEnd.created.Perm ("r" :: log.map Call.id) :=
  replay_faithful (p := (sampleEnd.committed.promises.get "r").get (by decide +kernel)) (t := 9)
    (by decide +kernel) (Option.some_get sampleRun_runs).symm (Option.some_get _).symm
    (by decide +kernel)

end Sample

end Reaper.Workflow
