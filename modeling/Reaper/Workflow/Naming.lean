import Reaper.Workflow.Bodies
import Reaper.Library.Names
import Mathlib.Tactic

/-! The id of a promise tells which call of the tree it belongs to. -/

namespace Reaper.Workflow

open Reaper.Store Reaper.Library Relation

variable {P : Program} {c d e : Call} {i j n : ℕ}

def Under (c : Call) (i : ℕ) (id : Id) : Prop :=
  ∃ s, id.toList = c.id.toList ++ ':' :: (Nat.toDigits 10 i ++ ':' :: s)

lemma child_toList (c : Call) (i : ℕ) (a : DurableCall) : (c.child i a).id.toList =
    c.id.toList ++ ':' :: (Nat.toDigits 10 i ++ ':' :: a.function.toList) := by
  have h : (toString i).toList = Nat.toDigits 10 i := by
    rw [Nat.toString_eq_repr, Nat.repr, String.toList_ofList]
  simp only [Call.child, String.toList_append, h]
  simp

lemma under_child (c : Call) (i : ℕ) (a : DurableCall) : Under c i (c.child i a).id :=
  ⟨_, child_toList c i a⟩

lemma Under.index_unique {id : Id} (h : Under c i id) (h' : Under c j id) : i = j := by
  obtain ⟨s, hs⟩ := h
  obtain ⟨s', hs'⟩ := h'
  have hdigits : ∀ k, ':' ∉ Nat.toDigits 10 k := by
    intro k hk
    have ha := Names.mem_toDigits (by omega) (by omega) k _ hk
    exact absurd ha (by decide)
  rw [hs] at hs'
  have heq := (List.cons.inj (List.append_cancel_left hs')).2
  exact Names.toDigits_inj (by omega) (by omega)
    (Names.append_first (hdigits i) (hdigits j) heq).1

lemma Under.ne {id : Id} (h : Under c i id) : id ≠ c.id := by
  rintro rfl
  obtain ⟨s, hs⟩ := h
  have hl := congrArg List.length hs
  simp at hl

lemma Under.above {a : DurableCall} {id : Id} (h : Under (c.child i a) j id) : Under c i id := by
  obtain ⟨s, hs⟩ := h
  rw [child_toList] at hs
  exact ⟨_, by rw [hs, List.append_assoc, List.cons_append, List.append_assoc, List.cons_append]⟩

lemma mem_children {ds : List DurableCall} :
    e ∈ c.children n ds ↔ ∃ k a, ds[k]? = some a ∧ e = c.child (n + 1 + k) a := by
  induction ds generalizing n with
  | nil => simp [Call.children]
  | cons a ds ih =>
    rw [Call.children, List.mem_cons, ih]
    constructor
    · rintro (rfl | ⟨k, b, hb, rfl⟩)
      · exact ⟨0, a, rfl, rfl⟩
      · exact ⟨k + 1, b, by simpa using hb, by congr 1; omega⟩
    · rintro ⟨k, b, hb, rfl⟩
      cases k with
      | zero =>
        simp only [List.getElem?_cons_zero, Option.some_inj] at hb
        exact Or.inl (by rw [hb])
      | succ k => exact Or.inr ⟨k, b, by simpa using hb, by congr 1; omega⟩

lemma index_of_mem {ds : List DurableCall} (h : e ∈ c.children n ds) :
    ∃ i a, n < i ∧ i ≤ n + ds.length ∧ e = c.child i a := by
  obtain ⟨k, a, ha, rfl⟩ := mem_children.mp h
  have hk := (List.getElem?_eq_some_iff.mp ha).1
  exact ⟨n + 1 + k, a, by omega, by omega, rfl⟩

lemma children_pairwise (c : Call) (n : ℕ) (ds : List DurableCall) :
    (c.children n ds).Pairwise fun d e =>
      ∃ i j a b, i < j ∧ d = c.child i a ∧ e = c.child j b := by
  induction ds generalizing n with
  | nil => exact .nil
  | cons a ds ih =>
    refine .cons (fun e he => ?_) (ih (n + 1))
    obtain ⟨j, b, hj, -, rfl⟩ := index_of_mem he
    exact ⟨n + 1, j, a, b, hj, rfl, rfl⟩

section Tree

lemma pause_batch {p : Point} {calls : List Call} {resume : List Verdict → Point}
    (h : P.tree.pause p = .batch calls resume) : ∃ ds next, p.body = .gather ds next ∧
      calls = p.call.children p.index ds ∧
      resume = fun vs => ⟨p.call, p.index + ds.length, next (.ok (settled calls vs))⟩ := by
  obtain ⟨c, n, b⟩ := p
  cases b with
  | ret v => cases h
  | raise f => cases f <;> cases h
  | gather ds next =>
    cases h
    exact ⟨ds, next, rfl, rfl, rfl⟩

def Made (P : Program) (c : Call) (i : ℕ) (d : Call) : Prop :=
  ∃ p log ds next, P.tree.Reaches (P.tree.start c) p log ∧ p.body = .gather ds next ∧
    d ∈ c.children p.index ds ∧ ∃ a, d = c.child i a

lemma advance_index {a b : Point × List Call} (h : ReflTransGen P.tree.Advance a b) :
    b.1.call = a.1.call ∧ (a = b ∨ ∃ ds next, a.1.body = .gather ds next ∧
      a.1.index + ds.length ≤ b.1.index) := by
  induction h using ReflTransGen.head_induction_on with
  | refl => exact ⟨rfl, Or.inl rfl⟩
  | head hab _ ih =>
    obtain ⟨calls, resume, vs, logs, hp, -, rfl⟩ := hab
    obtain ⟨ds, next, hb, -, rfl⟩ := pause_batch hp
    refine ⟨ih.1, Or.inr ⟨ds, next, hb, ?_⟩⟩
    rcases ih.2 with rfl | ⟨es, _, _, hle⟩
    · exact le_rfl
    · exact (Nat.le_add_right _ _).trans hle

lemma reaches_call {p : Point} {log : List Call} (h : P.tree.Reaches (P.tree.start c) p log) :
    p.call = c := (advance_index h).1

lemma Made.of_calls (h : P.tree.Calls c d) : ∃ i, Made P c i d := by
  obtain ⟨p, log, calls, resume, hr, hp, hd⟩ := h
  obtain ⟨ds, next, hb, rfl, -⟩ := pause_batch hp
  rw [reaches_call hr] at hd
  obtain ⟨i, a, -, -, he⟩ := index_of_mem hd
  exact ⟨i, p, log, ds, next, hr, hb, hd, a, he⟩

lemma Made.under (h : Made P c i d) : Under c i d.id := by
  obtain ⟨-, -, -, -, -, -, -, a, rfl⟩ := h
  exact under_child c i a

lemma Made.unique (h : Made P c i d) (h' : Made P c i e) : d = e := by
  obtain ⟨p, log, ds, next, hr, hb, hd, a, rfl⟩ := h
  obtain ⟨p', log', ds', next', hr', hb', he, b, rfl⟩ := h'
  obtain ⟨k, a', ha, hk⟩ := mem_children.mp hd
  obtain ⟨k', b', hb₂, hk'⟩ := mem_children.mp he
  have hi := Under.index_unique (hk ▸ under_child c i a) (under_child c _ a')
  have hi' := Under.index_unique (hk' ▸ under_child c i b) (under_child c _ b')
  have hlt := (List.getElem?_eq_some_iff.mp ha).1
  have hlt' := (List.getElem?_eq_some_iff.mp hb₂).1
  have hsame : p = p' := by
    rcases ReflTransGen.total_of_right_unique CallTree.advance_unique hr hr' with hpp | hpp
    · rcases (advance_index hpp).2 with heq | ⟨es, _, hbody, hle⟩
      · exact congrArg Prod.fst heq
      · rw [hb] at hbody
        cases hbody
        dsimp only at hle
        omega
    · rcases (advance_index hpp).2 with heq | ⟨es, _, hbody, hle⟩
      · exact (congrArg Prod.fst heq).symm
      · rw [hb'] at hbody
        cases hbody
        dsimp only at hle
        omega
  subst hsame
  rw [hb] at hb'
  cases hb'
  have hkk : k = k' := by omega
  subst hkk
  rw [ha] at hb₂
  cases hb₂
  rw [hk, hk']

lemma below_toList (h : P.tree.Below c d) : ∃ s, d.id.toList = c.id.toList ++ s := by
  induction h with
  | refl => exact ⟨[], (List.append_nil _).symm⟩
  | tail _ hd ih =>
    obtain ⟨s, hs⟩ := ih
    obtain ⟨i, hm⟩ := Made.of_calls hd
    obtain ⟨s', hs'⟩ := hm.under
    exact ⟨_, by rw [hs', hs, List.append_assoc]⟩

lemma Under.below {id : Id} (h : Under c i d.id) (hs : ∃ s, id.toList = d.id.toList ++ s) :
    Under c i id := by
  obtain ⟨s, hs⟩ := hs
  obtain ⟨s', hs'⟩ := h
  exact ⟨s' ++ s, by rw [hs, hs', List.append_assoc, List.cons_append, List.append_assoc, List.cons_append]⟩

theorem below_unique {r : Call} (h : P.tree.Below r c) (h' : P.tree.Below r d)
    (hid : c.id = d.id) : c = d := by
  induction h using ReflTransGen.head_induction_on with
  | refl =>
    rcases h'.cases_head with rfl | ⟨r', hr', hd⟩
    · rfl
    · obtain ⟨i, hm⟩ := Made.of_calls hr'
      exact absurd hid.symm (hm.under.below (below_toList hd)).ne
  | @head r r₁ hr hc ih =>
    obtain ⟨i, hm⟩ := Made.of_calls hr
    have hi := hm.under.below (below_toList hc)
    rcases h'.cases_head with rfl | ⟨r₂, hr', hd⟩
    · exact absurd hid hi.ne
    · obtain ⟨j, hm'⟩ := Made.of_calls hr'
      have hj := hm'.under.below (below_toList hd)
      obtain rfl := hi.index_unique (hid ▸ hj)
      obtain rfl := hm.unique hm'
      exact ih hd

lemma not_calls_below {a b : Call} (had : P.tree.Calls a d) (hab : P.tree.Calls a b)
    (hb : P.tree.Below b e) (hed : P.tree.Calls e d) : False := by
  obtain ⟨i, hm⟩ := Made.of_calls had
  obtain ⟨j, hm'⟩ := Made.of_calls hab
  obtain ⟨k, hmk⟩ := Made.of_calls hed
  obtain rfl := hm.under.index_unique (hm'.under.below (below_toList (hb.tail hed)))
  obtain rfl := hm.unique hm'
  obtain ⟨s, hs⟩ := below_toList hb
  obtain ⟨s', hs'⟩ := hmk.under
  rw [hs] at hs'
  have hl := congrArg List.length hs'
  simp at hl

theorem caller_unique {r c' : Call} (h : P.tree.Below r c) (h' : P.tree.Below r c')
    (hd : P.tree.Calls c d) (hd' : P.tree.Calls c' d) : c = c' := by
  induction h using ReflTransGen.head_induction_on with
  | refl =>
    rcases h'.cases_head with rfl | ⟨r', hr', hc'⟩
    · rfl
    · exact (not_calls_below hd hr' hc' hd').elim
  | @head r r₁ hr hc ih =>
    rcases h'.cases_head with rfl | ⟨r₂, hr', hc'⟩
    · exact (not_calls_below hd' hr hc hd).elim
    · obtain ⟨i, hm⟩ := Made.of_calls hr
      obtain ⟨j, hm'⟩ := Made.of_calls hr'
      have hi := hm.under.below (below_toList (hc.tail hd))
      have hj := hm'.under.below (below_toList (hc'.tail hd'))
      obtain rfl := hi.index_unique hj
      obtain rfl := hm.unique hm'
      exact ih hc'

lemma log_under {p : Point} {v : Verdict} {log : List Call} (h : P.tree.Evaluates p v log) :
    ∀ d ∈ log, ∃ i, p.index < i ∧ Under p.call i d.id := by
  induction h with
  | verdict => nofun
  | @batch p calls resume v log vs logs hp hc hr ih ihr =>
    obtain ⟨ds, next, -, rfl, rfl⟩ := pause_batch hp
    intro d hd
    rw [List.mem_append, List.mem_flatMap] at hd
    rcases hd with ⟨e, he, hd⟩ | hd
    · obtain ⟨i, a, hi, -, rfl⟩ := index_of_mem he
      refine ⟨i, hi, ?_⟩
      rcases List.mem_cons.mp hd with rfl | hd
      · exact under_child _ i a
      · obtain ⟨j, -, hj⟩ := ih _ he d hd
        exact hj.above
    · obtain ⟨i, hi, hu⟩ := ihr d hd
      exact ⟨i, (Nat.le_add_right _ _).trans_lt hi, hu⟩

theorem log_nodup {p : Point} {v : Verdict} {log : List Call} (h : P.tree.Evaluates p v log) :
    (log.map Call.id).Nodup := by
  induction h with
  | verdict => exact List.nodup_nil
  | @batch p calls resume v log vs logs hp hc hr ih ihr =>
    obtain ⟨ds, next, -, rfl, rfl⟩ := pause_batch hp
    have hunder : ∀ {i a e}, p.call.child i a ∈ p.call.children p.index ds →
        e ∈ p.call.child i a :: logs (p.call.child i a) → Under p.call i e.id := by
      intro i a e hm he
      rcases List.mem_cons.mp he with rfl | he
      · exact under_child _ i a
      · obtain ⟨j, -, hj⟩ := log_under (hc _ hm) e he
        exact hj.above
    rw [List.map_append, List.map_flatMap, List.nodup_append]
    refine ⟨List.nodup_flatMap.mpr ⟨fun d hd => ?_, ?_⟩, ihr, ?_⟩
    · refine List.nodup_cons.mpr ⟨fun hm => ?_, ih d hd⟩
      obtain ⟨e, he, hid⟩ := List.mem_map.mp hm
      obtain ⟨j, -, hj⟩ := log_under (hc d hd) e he
      exact hj.ne hid
    · refine (children_pairwise p.call p.index ds).imp_of_mem ?_
      rintro _ _ hd hd' ⟨i, j, a, b, hij, rfl, rfl⟩ x hx hy
      obtain ⟨e, he, rfl⟩ := List.mem_map.mp hx
      obtain ⟨e', he', heq⟩ := List.mem_map.mp hy
      exact hij.ne ((hunder hd he).index_unique (heq ▸ hunder hd' he'))
    · intro x hx y hy hxy
      obtain ⟨d, hd, hx⟩ := List.mem_flatMap.mp hx
      obtain ⟨e, he, rfl⟩ := List.mem_map.mp hx
      obtain ⟨e', he', rfl⟩ := List.mem_map.mp hy
      obtain ⟨i, a, -, hi, rfl⟩ := index_of_mem hd
      obtain ⟨j, hj, hu⟩ := log_under hr e' he'
      have hij := (hunder hd he).index_unique (hxy ▸ hu)
      dsimp only at hj
      omega

end Tree

section Paths

structure FunctionName where
  text : String
  plain : ':' ∉ text.toList

def nextId (taskId : Id) (callIndex : ℕ) (func : String) : Id :=
  taskId ++ ":" ++ toString callIndex ++ ":" ++ func

def pathId (root : Id) (path : List (ℕ × FunctionName)) : Id :=
  path.foldl (fun id s => nextId id s.1 s.2.text) root

def MAX_ID_BYTES : ℕ := 1024

def acceptedId (id : Id) : Bool := 1 ≤ id.length ∧ id.length ≤ MAX_ID_BYTES

def steps (path : List (ℕ × FunctionName)) : List (List Char × List Char) :=
  path.map fun s => (Nat.toDigits 10 s.1, s.2.text.toList)

lemma steps_plain (path : List (ℕ × FunctionName)) : Names.Plain ':' (steps path) := by
  intro e he
  obtain ⟨s, -, rfl⟩ := List.mem_map.mp he
  refine ⟨fun hm => ?_, s.2.plain⟩
  have ha := Names.mem_toDigits (by omega) (by omega) s.1 _ hm
  exact absurd ha (by decide)

lemma steps_injective : Function.Injective steps := by
  apply List.map_injective_iff.mpr
  rintro ⟨i, f, hf⟩ ⟨j, g, hg⟩ h
  obtain ⟨hi, hs⟩ := Prod.mk.inj h
  obtain rfl := Names.toDigits_inj (by omega) (by omega) hi
  obtain rfl := String.toList_inj.mp hs
  rfl

lemma nextId_toList (id : Id) (i : ℕ) (func : String) : (nextId id i func).toList =
    id.toList ++ (':' :: Nat.toDigits 10 i ++ ':' :: func.toList) := by
  have h : (toString i).toList = Nat.toDigits 10 i := by
    rw [Nat.toString_eq_repr, Nat.repr, String.toList_ofList]
  simp only [nextId, String.toList_append, h]
  simp

lemma pathId_toList (root : Id) (path : List (ℕ × FunctionName)) :
    (pathId root path).toList = root.toList ++ Names.joined ':' (steps path) := by
  induction path generalizing root with
  | nil => simp [pathId, steps, Names.joined]
  | cons s path ih =>
    have h : (pathId root (s :: path)).toList =
        (nextId root s.1 s.2.text).toList ++ Names.joined ':' (steps path) := ih _
    rw [h, nextId_toList, List.append_assoc]
    simp [steps, Names.joined]

lemma pathId_append (root : Id) (p q : List (ℕ × FunctionName)) :
    pathId root (p ++ q) = pathId (pathId root p) q := List.foldl_append

/-- The last steps of a path are those of any path to the same id, as many as there are of it. -/
lemma pathId_split {r r' : Id} {p p' : List (ℕ × FunctionName)} (h : pathId r p = pathId r' p') :
    ∃ q, (p = q ++ p' ∧ r' = pathId r q) ∨ (p' = q ++ p ∧ r = pathId r' q) := by
  have hl := congrArg String.toList h
  rw [pathId_toList, pathId_toList] at hl
  have hroot : ∀ {t t' : Id} {u u' : List (ℕ × FunctionName)} {q : List (List Char × List Char)},
      steps u = q ++ steps u' → t'.toList = t.toList ++ Names.joined ':' q →
      ∃ v, u = v ++ u' ∧ t' = pathId t v := by
    intro t t' u u' q hs ht
    obtain ⟨v, w, rfl, hv, hw⟩ := List.map_eq_append_iff.mp hs
    obtain rfl := steps_injective hw
    refine ⟨v, rfl, String.toList_inj.mp ?_⟩
    rw [pathId_toList, ht, ← hv]
    rfl
  obtain ⟨q, ⟨hs, ht⟩ | ⟨hs, ht⟩⟩ := Names.joined_split (steps_plain p) (steps_plain p') hl
  · obtain ⟨v, hv⟩ := hroot hs ht
    exact ⟨v, Or.inl hv⟩
  · obtain ⟨v, hv⟩ := hroot hs ht
    exact ⟨v, Or.inr hv⟩

/-- Two calls have one id only if they are one call, or if one root id is the id of a step of the
other root's path and what follows that step is the same. -/
theorem path_ids_unique {r r' : Id} {p p' : List (ℕ × FunctionName)} :
    pathId r p = pathId r' p' ↔ (r = r' ∧ p = p') ∨
      (∃ q, q ≠ [] ∧ r' = pathId r q ∧ p = q ++ p') ∨
        ∃ q, q ≠ [] ∧ r = pathId r' q ∧ p' = q ++ p := by
  constructor
  · intro h
    obtain ⟨q, ⟨hp, hr⟩ | ⟨hp, hr⟩⟩ := pathId_split h
    · cases q with
      | nil => exact Or.inl ⟨hr.symm, hp⟩
      | cons s q => exact Or.inr (Or.inl ⟨s :: q, List.cons_ne_nil s q, hr, hp⟩)
    · cases q with
      | nil => exact Or.inl ⟨hr, hp.symm⟩
      | cons s q => exact Or.inr (Or.inr ⟨s :: q, List.cons_ne_nil s q, hr, hp⟩)
  · rintro (⟨rfl, rfl⟩ | ⟨q, -, rfl, rfl⟩ | ⟨q, -, rfl, rfl⟩)
    · rfl
    · exact pathId_append r q p'
    · exact (pathId_append r' q p).symm

def shopPay : FunctionName := ⟨"shop.pay", by decide⟩

/-- A caller may take the id of another workflow's step for a root. -/
theorem root_takes_step_id : acceptedId "order" = true ∧ acceptedId "order:1:shop.pay" = true ∧
    ("order", [(1, shopPay)]) ≠ ("order:1:shop.pay", []) ∧
    pathId "order" [(1, shopPay)] = pathId "order:1:shop.pay" [] :=
  ⟨by decide, by decide, fun h => absurd (Prod.mk.inj h).1 (by decide), by decide⟩

end Paths

end Reaper.Workflow
