import Mathlib.Algebra.GroupWithZero.Nat
import Mathlib.Data.List.Nodup
import Mathlib.Data.List.Basic

/-! Finite maps that remember insertion order. Assigning to a present key keeps its place, as a
dictionary of the source language does, and every map carries the proof that its keys differ. -/

namespace Reaper.Library

structure Dict (K V : Type) where
  entries : List (K × V)
  nodup : (entries.map Prod.fst).Nodup

namespace Dict

variable {K V W : Type}

def empty : Dict K V := ⟨[], List.nodup_nil⟩

def keys (d : Dict K V) : List K := d.entries.map Prod.fst

def values (d : Dict K V) : List V := d.entries.map Prod.snd

def map (f : V → V) (d : Dict K V) : Dict K V where
  entries := d.entries.map (fun e => (e.1, f e.2))
  nodup := by simpa only [List.map_map, Function.comp_def] using d.nodup

def filter (f : K → V → Bool) (d : Dict K V) : Dict K V where
  entries := d.entries.filter (fun e => f e.1 e.2)
  nodup := d.nodup.sublist (List.filter_sublist.map Prod.fst)

lemma filter_filter (p q : K → V → Bool) (d : Dict K V) :
    (d.filter p).filter q = d.filter fun k v => p k v && q k v := by
  simp only [filter, List.filter_filter, Bool.and_comm]

variable [DecidableEq K]

def get (d : Dict K V) (k : K) : Option V :=
  (d.entries.find? (fun e => e.1 = k)).map Prod.snd

def assign (k : K) (v : V) : List (K × V) → List (K × V)
  | [] => [(k, v)]
  | e :: es => if e.1 = k then (k, v) :: es else e :: assign k v es

lemma mem_keys_assign (k : K) (v : V) (es : List (K × V)) (j : K) :
    j ∈ (assign k v es).map Prod.fst ↔ j = k ∨ j ∈ es.map Prod.fst := by
  induction es with
  | nil => simp [assign]
  | cons e es ih =>
    by_cases h : e.1 = k
    · simp only [assign, h, if_true, List.map_cons, List.mem_cons]
      tauto
    · simp only [assign, h, if_false, List.map_cons, List.mem_cons, ih]
      tauto

lemma nodup_assign (k : K) (v : V) (es : List (K × V)) (h : (es.map Prod.fst).Nodup) :
    ((assign k v es).map Prod.fst).Nodup := by
  induction es with
  | nil => simp [assign]
  | cons e es ih =>
    rw [List.map_cons, List.nodup_cons] at h
    by_cases he : e.1 = k
    · simpa only [assign, he, if_true, List.map_cons, List.nodup_cons] using he ▸ h
    · simp only [assign, he, if_false, List.map_cons, List.nodup_cons, mem_keys_assign]
      exact ⟨by tauto, ih h.2⟩

def set (d : Dict K V) (k : K) (v : V) : Dict K V := ⟨assign k v d.entries, nodup_assign k v _ d.nodup⟩

def erase (d : Dict K V) (k : K) : Dict K V where
  entries := d.entries.filter (fun e => e.1 ≠ k)
  nodup := d.nodup.sublist ((List.filter_sublist).map _)

lemma mem_entries (d : Dict K V) (k : K) (v : V) : (k, v) ∈ d.entries ↔ d.get k = some v := by
  obtain ⟨es, h⟩ := d
  simp only [get]
  induction es with
  | nil => simp
  | cons e es ih =>
    rw [List.map_cons, List.nodup_cons] at h
    by_cases he : e.1 = k
    · have hk : (k, v) ∉ es := fun hm => h.1 (he ▸ List.mem_map_of_mem hm)
      simp only [List.mem_cons, hk, or_false, List.find?_cons, he, decide_true, Option.map_some,
        Option.some.injEq]
      exact ⟨fun hh => hh ▸ rfl, fun hh => by rw [← he, ← hh]⟩
    · have hne : (k, v) ≠ e := fun hh => he (hh ▸ rfl)
      simpa only [List.mem_cons, hne, false_or, List.find?_cons, he, decide_false] using ih h.2

lemma mem_keys (d : Dict K V) (k : K) : k ∈ d.keys ↔ ∃ v, d.get k = some v := by
  simp only [keys, List.mem_map, Prod.exists, mem_entries]
  exact ⟨fun ⟨_, v, hv, he⟩ => ⟨v, he ▸ hv⟩, fun ⟨v, hv⟩ => ⟨k, v, hv, rfl⟩⟩

lemma mem_values (d : Dict K V) (v : V) : v ∈ d.values ↔ ∃ k, d.get k = some v := by
  simp only [values, List.mem_map, Prod.exists, mem_entries]
  exact ⟨fun ⟨k, _, hv, he⟩ => ⟨k, he ▸ hv⟩, fun ⟨k, hv⟩ => ⟨k, v, hv, rfl⟩⟩

lemma get_eq_none (d : Dict K V) (k : K) : d.get k = none ↔ k ∉ d.keys := by
  rw [mem_keys]
  cases d.get k <;> simp

@[simp] lemma get_empty (k : K) : (empty : Dict K V).get k = none := rfl

lemma mem_assign (k : K) (v : V) (es : List (K × V)) (h : (es.map Prod.fst).Nodup) (j : K) (u : V) :
    (j, u) ∈ assign k v es ↔ if j = k then u = v else (j, u) ∈ es := by
  induction es with
  | nil => by_cases hj : j = k <;> simp [assign, hj]
  | cons e es ih =>
    rw [List.map_cons, List.nodup_cons] at h
    by_cases he : e.1 = k
    · have hm : ∀ u, (k, u) ∉ es := fun u hu => h.1 (he ▸ List.mem_map_of_mem hu)
      by_cases hj : j = k
      · simp [assign, he, hj, hm]
      · have hne : (j, u) ≠ e := fun hh => hj (by rw [← he, ← hh])
        simp [assign, he, hj, hne]
    · by_cases hj : j = k
      · have hne : (j, u) ≠ e := fun hh => he (by rw [← hh, hj])
        simp only [assign, he, if_false, List.mem_cons, hne, false_or, ih h.2]
      · simp [assign, he, hj, ih h.2]

lemma get_set (d : Dict K V) (k : K) (v : V) (j : K) :
    (d.set k v).get j = if j = k then some v else d.get j := by
  apply Option.ext
  intro u
  rw [← mem_entries, set, mem_assign k v _ d.nodup]
  by_cases hj : j = k
  · simp [hj, eq_comm]
  · simp only [hj, if_false, mem_entries]

@[simp] lemma get_set_self (d : Dict K V) (k : K) (v : V) : (d.set k v).get k = some v := by
  rw [get_set, if_pos rfl]

lemma set_set (d : Dict K V) (k : K) (u v : V) : (d.set k u).set k v = d.set k v := by
  have hassign : ∀ es : List (K × V), assign k v (assign k u es) = assign k v es := by
    intro es
    induction es with
    | nil => simp [assign]
    | cons e es ih =>
      by_cases he : e.1 = k
      · simp [assign, he]
      · simp [assign, he, ih]
  simp only [set, hassign]

lemma get_set_ne (d : Dict K V) {k j : K} (v : V) (h : j ≠ k) : (d.set k v).get j = d.get j := by
  rw [get_set, if_neg h]

lemma get_erase (d : Dict K V) (k j : K) :
    (d.erase k).get j = if j = k then none else d.get j := by
  apply Option.ext
  intro u
  rw [← mem_entries, erase, List.mem_filter, mem_entries]
  by_cases hj : j = k <;> simp [hj]

@[simp] lemma get_erase_self (d : Dict K V) (k : K) : (d.erase k).get k = none := by
  rw [get_erase, if_pos rfl]

lemma get_erase_ne (d : Dict K V) {k j : K} (h : j ≠ k) : (d.erase k).get j = d.get j := by
  rw [get_erase, if_neg h]

lemma forall_set {P : K → V → Prop} {d : Dict K V} {k : K} {v : V}
    (h : ∀ j u, j ≠ k → d.get j = some u → P j u) (hv : P k v) :
    ∀ j u, (d.set k v).get j = some u → P j u := by
  intro j u hj
  rw [get_set] at hj
  split_ifs at hj with hk
  · cases hj
    exact hk ▸ hv
  · exact h j u hk hj

lemma forall_erase {P : K → V → Prop} {d : Dict K V} {k : K}
    (h : ∀ j u, j ≠ k → d.get j = some u → P j u) :
    ∀ j u, (d.erase k).get j = some u → P j u := by
  intro j u hj
  rw [get_erase] at hj
  split_ifs at hj with hk
  exact h j u hk hj

lemma get_filter (f : K → V → Bool) (d : Dict K V) (k : K) :
    (d.filter f).get k = (d.get k).filter (f k) := by
  have hiff : ∀ v, (d.filter f).get k = some v ↔ (d.get k).filter (f k) = some v := by
    intro v
    rw [← mem_entries, filter, List.mem_filter, mem_entries, Option.filter_eq_some_iff]
  exact Option.ext fun v => hiff v

lemma get_map (f : V → V) (d : Dict K V) (k : K) : (d.map f).get k = (d.get k).map f := by
  simp only [get, map, List.find?_map, Function.comp_def, Option.map_map]

omit [DecidableEq K] in
lemma values_map (f : V → V) (d : Dict K V) : (d.map f).values = d.values.map f := by
  simp only [values, map, List.map_map, Function.comp_def]

lemma split_get (d : Dict K V) {k : K} {v : V} (h : d.get k = some v) :
    ∃ xs ys, d.entries = xs ++ (k, v) :: ys ∧
      (∀ u, (d.set k u).entries = xs ++ (k, u) :: ys) ∧ (d.erase k).entries = xs ++ ys := by
  obtain ⟨xs, ys, he⟩ := List.append_of_mem ((mem_entries d k v).mpr h)
  have hd := d.nodup
  rw [he, List.map_append, List.map_cons, List.nodup_append] at hd
  obtain ⟨-, hy, hxy⟩ := hd
  have hx : ∀ e ∈ xs, e.1 ≠ k := fun e hm => hxy _ (List.mem_map_of_mem hm) _ List.mem_cons_self
  have hy' : ∀ e ∈ ys, e.1 ≠ k := fun e hm hk =>
    (List.nodup_cons.mp hy).1 (List.mem_map.mpr ⟨e, hm, hk⟩)
  refine ⟨xs, ys, he, fun u => ?_, ?_⟩
  · simp only [set, he]
    clear he hxy
    induction xs with
    | nil => simp [assign]
    | cons x xs ih =>
      rw [List.cons_append, assign, if_neg (hx x List.mem_cons_self),
        ih (fun e hm => hx e (List.mem_cons_of_mem _ hm)), List.cons_append]
  · have hf : ∀ zs : List (K × V), (∀ e ∈ zs, e.1 ≠ k) → zs.filter (fun e => e.1 ≠ k) = zs :=
      fun zs hz => List.filter_eq_self.mpr (fun e hm => by simpa using hz e hm)
    simp only [erase, he, List.filter_append, List.filter_cons]
    rw [hf xs hx, hf ys hy']
    simp

lemma set_entries_of_get_none (d : Dict K V) {k : K} (v : V) (h : d.get k = none) :
    (d.set k v).entries = d.entries ++ [(k, v)] := by
  have hk := (get_eq_none d k).mp h
  obtain ⟨es, hn⟩ := d
  simp only [keys, set] at hk ⊢
  clear hn h
  induction es with
  | nil => rfl
  | cons e es ih =>
    rw [List.map_cons, List.mem_cons, not_or] at hk
    rw [assign, if_neg (Ne.symm hk.1), ih hk.2, List.cons_append]

lemma length_set (d : Dict K V) {k : K} {u : V} (v : V) (h : d.get k = some u) :
    (d.set k v).entries.length = d.entries.length := by
  obtain ⟨xs, ys, he, hs, -⟩ := split_get d h
  rw [he, hs, List.length_append, List.length_append, List.length_cons, List.length_cons]

lemma length_set_new (d : Dict K V) {k : K} (v : V) (h : d.get k = none) :
    (d.set k v).entries.length = d.entries.length + 1 := by
  rw [set_entries_of_get_none d v h, List.length_append, List.length_singleton]

lemma length_erase (d : Dict K V) {k : K} {u : V} (h : d.get k = some u) :
    (d.erase k).entries.length + 1 = d.entries.length := by
  obtain ⟨xs, ys, he, -, hr⟩ := split_get d h
  rw [he, hr, List.length_append, List.length_append, List.length_cons]
  omega

lemma length_congr {d : Dict K V} {d' : Dict K W}
    (h : ∀ k, (d.get k).isSome = (d'.get k).isSome) : d.entries.length = d'.entries.length := by
  have hperm : d.keys.Perm d'.keys := by
    refine (List.perm_ext_iff_of_nodup d.nodup d'.nodup).mpr fun k => ?_
    change k ∈ d.keys ↔ k ∈ d'.keys
    rw [mem_keys, mem_keys, ← Option.isSome_iff_exists, ← Option.isSome_iff_exists, h]
  simpa only [keys, List.length_map] using hperm.length_eq

lemma mem_values_set (d : Dict K V) {k : K} {v u : V} (h : u ∈ (d.set k v).values) :
    u = v ∨ u ∈ d.values := by
  obtain ⟨j, hj⟩ := (mem_values _ u).mp h
  rw [get_set] at hj
  split_ifs at hj with hk
  · exact Or.inl (Option.some.inj hj).symm
  · exact Or.inr ((mem_values d u).mpr ⟨j, hj⟩)

lemma mem_values_erase (d : Dict K V) {k : K} {u : V} (h : u ∈ (d.erase k).values) :
    u ∈ d.values := by
  obtain ⟨j, hj⟩ := (mem_values _ u).mp h
  rw [get_erase] at hj
  split_ifs at hj with hk
  exact (mem_values d u).mpr ⟨j, hj⟩

section Counting

variable [DecidableEq W] (f : V → Option W)

/-! How often a projection of the values occurs, before and after an update. -/

lemma count_set (d : Dict K V) {k : K} {v : V} (u : V) (h : d.get k = some v) (w : W) :
    ((d.set k u).values.filterMap f).count w + (f v).toList.count w =
      (d.values.filterMap f).count w + (f u).toList.count w := by
  obtain ⟨xs, ys, he, hs, -⟩ := split_get d h
  have hc : ∀ x : V, (x :: ys.map Prod.snd).filterMap f = (f x).toList ++ (ys.map Prod.snd).filterMap f := by
    intro x
    cases hx : f x <;> simp [hx]
  simp only [values, he, hs, List.map_append, List.map_cons, List.filterMap_append, hc,
    List.count_append]
  omega

lemma count_set_new (d : Dict K V) {k : K} (u : V) (h : d.get k = none) (w : W) :
    ((d.set k u).values.filterMap f).count w =
      (d.values.filterMap f).count w + (f u).toList.count w := by
  have hu : [u].filterMap f = (f u).toList := by cases hx : f u <;> simp [hx]
  simp only [values, set_entries_of_get_none d u h, List.map_append, List.map_cons, List.map_nil,
    List.filterMap_append, hu, List.count_append]

lemma count_erase (d : Dict K V) {k : K} {v : V} (h : d.get k = some v) (w : W) :
    ((d.erase k).values.filterMap f).count w + (f v).toList.count w =
      (d.values.filterMap f).count w := by
  obtain ⟨xs, ys, he, -, hr⟩ := split_get d h
  have hc : (v :: ys.map Prod.snd).filterMap f = (f v).toList ++ (ys.map Prod.snd).filterMap f := by
    cases hx : f v <;> simp [hx]
  simp only [values, he, hr, List.map_append, List.map_cons, List.filterMap_append, hc,
    List.count_append]
  omega

end Counting

section Totals

/-! A sum over the entries, before and after an update. -/

def total (f : K → V → ℕ) (d : Dict K V) : ℕ := (d.entries.map fun e => f e.1 e.2).sum

lemma total_set {f g : K → V → ℕ} (d : Dict K V) (k : K) (v : V) (hg : ∀ j ≠ k, ∀ u, g j u = f j u) :
    (d.set k v).total g + (d.get k).elim 0 (f k) = d.total f + g k v := by
  have hsame : ∀ es : List (K × V), k ∉ es.map Prod.fst →
      (es.map fun e => g e.1 e.2) = es.map fun e => f e.1 e.2 := fun es hes =>
    List.map_congr_left fun e he => hg e.1 (fun heq => hes (heq ▸ List.mem_map_of_mem he)) e.2
  cases h : d.get k with
  | none =>
    have hk : k ∉ d.entries.map Prod.fst := (get_eq_none d k).mp h
    rw [total, total, set_entries_of_get_none d v h, List.map_append, hsame _ hk]
    simp
  | some u =>
    obtain ⟨xs, ys, he, hs, -⟩ := split_get d h
    have hn := d.nodup
    rw [he, List.map_append, List.map_cons, List.nodup_append, List.nodup_cons] at hn
    have hx : k ∉ xs.map Prod.fst := fun hm => hn.2.2 k hm k List.mem_cons_self rfl
    simp only [total, he, hs, List.map_append, List.map_cons, hsame _ hx, hsame _ hn.2.1.1, List.sum_append,
      List.sum_cons, Option.elim_some]
    omega

end Totals

end Dict

end Reaper.Library
