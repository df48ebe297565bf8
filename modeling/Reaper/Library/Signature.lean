import Reaper.Library.Dict

/-! How Python binds the arguments of a call to the parameters of a function, and the call that
spreads given values over them. -/

namespace Reaper.Library.Inspect

inductive Kind
  | positionalOnly | positionalOrKeyword | varPositional | keywordOnly | varKeyword
  deriving DecidableEq

namespace Kind

def rank : Kind → ℕ
  | positionalOnly => 0
  | positionalOrKeyword => 1
  | varPositional => 2
  | keywordOnly => 3
  | varKeyword => 4

def variadic : Kind → Bool
  | varPositional | varKeyword => true
  | _ => false

def named : Kind → Bool
  | positionalOrKeyword | keywordOnly => true
  | _ => false

end Kind

structure Parameter (V : Type) where
  name : String
  kind : Kind
  default : Option V := none

variable {V : Type}

structure Parameter.Before (p q : Parameter V) : Prop where
  name : p.name ≠ q.name
  rank : p.kind.rank ≤ q.kind.rank
  variadic : p.kind.variadic = true → p.kind ≠ q.kind
  default : p.default.isSome = true → q.kind.rank ≤ Kind.positionalOrKeyword.rank →
    q.default.isSome = true

structure Signature (V : Type) where
  parameters : List (Parameter V)
  ordered : parameters.Pairwise Parameter.Before
  variadic : ∀ p ∈ parameters, p.kind.variadic = true → p.default = none

inductive Value (V : Type)
  | one (v : V)
  | tuple (vs : List V)
  | mapping (kwargs : Dict String V)

def Value.fits : Kind → Value V → Bool
  | .varPositional, .tuple _ | .varKeyword, .mapping _ => true
  | .positionalOnly, .one _ | .positionalOrKeyword, .one _ | .keywordOnly, .one _ => true
  | _, _ => false

/-- Each parameter with its value, or none where Python raises a TypeError. -/
def bind : List (Parameter V) → List V → Dict String V → Option (List (String × Value V))
  | [], [], kwargs => if kwargs.entries = [] then some [] else none
  | [], _ :: _, _ => none
  | p :: ps, args, kwargs =>
    match p.kind, args with
    | .positionalOnly, v :: args => (bind ps args kwargs).map ((p.name, .one v) :: ·)
    | .positionalOnly, [] =>
      p.default.bind fun v => (bind ps [] kwargs).map ((p.name, .one v) :: ·)
    | .positionalOrKeyword, v :: args =>
      if (kwargs.get p.name).isSome then none
      else (bind ps args kwargs).map ((p.name, .one v) :: ·)
    | .varPositional, args => (bind ps [] kwargs).map ((p.name, .tuple args) :: ·)
    | .positionalOrKeyword, [] | .keywordOnly, [] =>
      ((kwargs.get p.name).or p.default).bind fun v =>
        (bind ps [] (kwargs.erase p.name)).map ((p.name, .one v) :: ·)
    | .varKeyword, [] => (bind ps [] Dict.empty).map ((p.name, .mapping kwargs) :: ·)
    | .keywordOnly, _ :: _ | .varKeyword, _ :: _ => none

def keywordNames (ps : List (Parameter V)) : List String :=
  (ps.filter fun p => p.kind.named).map Parameter.name

def positional (e : Parameter V × Value V) : List V :=
  match e.1.kind, e.2 with
  | .positionalOnly, .one v | .positionalOrKeyword, .one v => [v]
  | .varPositional, .tuple vs => vs
  | _, _ => []

def keywords (e : Parameter V × Value V) : List (String × V) :=
  match e.1.kind, e.2 with
  | .keywordOnly, .one v => [(e.1.name, v)]
  | .varKeyword, .mapping kwargs => kwargs.entries
  | _, _ => []

section Bind

variable {ps : List (Parameter V)} {p : Parameter V} {args : List V} {kwargs : Dict String V}
  {bound : List (String × Value V)} {es : List (Parameter V × Value V)} {e : Parameter V × Value V}

lemma Parameter.Before.last {q : Parameter V} (h : p.Before q) : p.kind ≠ .varKeyword := by
  intro hp
  have hrank := h.rank
  have hne := h.variadic (by rw [hp]; rfl)
  rw [hp] at hrank hne
  cases hq : q.kind <;> simp [hq, Kind.rank] at hrank hne

/-- The **kwargs of a bound call are the keywords that name no other parameter. -/
structure Binds (ps : List (Parameter V)) (kwargs : Dict String V)
    (es : List (Parameter V × Value V)) : Prop where
  parameters : es.map Prod.fst = ps
  fits : ∀ e ∈ es, e.2.fits e.1.kind = true
  mapping : ∀ e ∈ es, ∀ m, e.2 = .mapping m → ∀ k, m.get k =
    if k ∈ keywordNames ps then none else kwargs.get k
  taken : ∀ k, kwargs.get k ≠ none → k ∈ keywordNames ps ∨ ∃ e ∈ es, ∃ m, e.2 = .mapping m

lemma keywordNames_cons (p : Parameter V) (ps : List (Parameter V)) :
    keywordNames (p :: ps) = (if p.kind.named then [p.name] else []) ++ keywordNames ps := by
  rw [keywordNames, List.filter_cons]
  split_ifs <;> rfl

lemma Binds.cons_unnamed {v : Value V} (h : Binds ps kwargs es) (hn : p.kind.named = false)
    (hf : v.fits p.kind = true) (hv : ∀ m, v ≠ .mapping m) : Binds (p :: ps) kwargs ((p, v) :: es) := by
  have hnames : keywordNames (p :: ps) = keywordNames ps := by
    rw [keywordNames_cons, hn]
    rfl
  refine ⟨congrArg (p :: ·) h.parameters, ?_, ?_, ?_⟩
  · exact List.forall_mem_cons.mpr ⟨hf, h.fits⟩
  · rw [hnames]
    exact List.forall_mem_cons.mpr ⟨fun m hm => absurd hm (hv m), h.mapping⟩
  · rw [hnames]
    intro k hk
    refine (h.taken k hk).imp_right ?_
    rintro ⟨e, he, m, hm⟩
    exact ⟨e, List.mem_cons_of_mem _ he, m, hm⟩

lemma Binds.cons_named {v : V} {kwargs' : Dict String V} (h : Binds ps kwargs' es)
    (hn : p.kind.named = true)
    (hget : ∀ k, kwargs'.get k = if k = p.name then none else kwargs.get k) :
    Binds (p :: ps) kwargs ((p, .one v) :: es) := by
  have hnames : keywordNames (p :: ps) = p.name :: keywordNames ps := by
    rw [keywordNames_cons, hn]
    rfl
  refine ⟨congrArg (p :: ·) h.parameters, ?_, ?_, ?_⟩
  · refine List.forall_mem_cons.mpr ⟨?_, h.fits⟩
    cases hk : p.kind <;> simp [hk, Kind.named] at hn <;> rfl
  · refine List.forall_mem_cons.mpr ⟨fun m hm => (by cases hm), fun e he m hm k => ?_⟩
    rw [h.mapping e he m hm k, hget, hnames]
    by_cases hkp : k = p.name
    · simp [hkp]
    · simp [hkp]
  · intro k hk
    rw [hnames, List.mem_cons]
    by_cases hkp : k = p.name
    · exact Or.inl (Or.inl hkp)
    · obtain hmem | ⟨e, he, m, hm⟩ := h.taken k (by rwa [hget, if_neg hkp])
      · exact Or.inl (Or.inr hmem)
      · exact Or.inr ⟨e, List.mem_cons_of_mem _ he, m, hm⟩

lemma bind_binds (hps : ps.Pairwise Parameter.Before) (h : bind ps args kwargs = some bound) :
    ∃ es, Binds ps kwargs es ∧ bound = es.map fun e => (e.1.name, e.2) := by
  induction ps generalizing args kwargs bound with
  | nil =>
    cases args with
    | cons v args => cases h
    | nil =>
      rw [bind, Option.ite_none_right_eq_some] at h
      obtain ⟨hnil, h⟩ := h
      cases h
      refine ⟨[], ⟨rfl, nofun, nofun, fun k hk => ?_⟩, rfl⟩
      obtain ⟨v, hv⟩ := Option.ne_none_iff_exists'.mp hk
      have hmem := (Dict.mem_entries kwargs k v).mpr hv
      rw [hnil] at hmem
      cases hmem
  | cons p ps ih =>
    obtain ⟨hp, hps⟩ := List.pairwise_cons.mp hps
    have hunnamed : ∀ {v : Value V} {args' : List V} {bound' : List (String × Value V)},
        p.kind.named = false → v.fits p.kind = true → (∀ m, v ≠ .mapping m) →
        bind ps args' kwargs = some bound' → ∃ es, Binds (p :: ps) kwargs es ∧
          (p.name, v) :: bound' = es.map fun e => (e.1.name, e.2) := by
      intro v args' bound' hn hf hv hb
      obtain ⟨es, hes, rfl⟩ := ih hps hb
      exact ⟨_, hes.cons_unnamed hn hf hv, rfl⟩
    have hnamed : ∀ {v : V} {args' : List V} {kwargs' : Dict String V}
        {bound' : List (String × Value V)}, p.kind.named = true →
        (∀ k, kwargs'.get k = if k = p.name then none else kwargs.get k) →
        bind ps args' kwargs' = some bound' → ∃ es, Binds (p :: ps) kwargs es ∧
          (p.name, .one v) :: bound' = es.map fun e => (e.1.name, e.2) := by
      intro v args' kwargs' bound' hn hget hb
      obtain ⟨es, hes, rfl⟩ := ih hps hb
      exact ⟨_, hes.cons_named hn hget, rfl⟩
    cases hk : p.kind with
    | positionalOnly =>
      cases args with
      | nil =>
        simp only [bind, hk] at h
        obtain ⟨v, -, h⟩ := Option.bind_eq_some_iff.mp h
        obtain ⟨bound', hb, rfl⟩ := Option.map_eq_some_iff.mp h
        exact hunnamed (by rw [hk]; rfl) (by rw [hk]; rfl) nofun hb
      | cons v args =>
        simp only [bind, hk] at h
        obtain ⟨bound', hb, rfl⟩ := Option.map_eq_some_iff.mp h
        exact hunnamed (by rw [hk]; rfl) (by rw [hk]; rfl) nofun hb
    | positionalOrKeyword =>
      cases args with
      | nil =>
        simp only [bind, hk] at h
        obtain ⟨v, -, h⟩ := Option.bind_eq_some_iff.mp h
        obtain ⟨bound', hb, rfl⟩ := Option.map_eq_some_iff.mp h
        exact hnamed (by rw [hk]; rfl) (Dict.get_erase kwargs p.name) hb
      | cons v args =>
        simp only [bind, hk] at h
        rw [Option.ite_none_left_eq_some] at h
        obtain ⟨hnone, h⟩ := h
        obtain ⟨bound', hb, rfl⟩ := Option.map_eq_some_iff.mp h
        refine hnamed (by rw [hk]; rfl) (fun k => ?_) hb
        split_ifs with hkp
        · rw [hkp]
          simpa using hnone
        · rfl
    | varPositional =>
      simp only [bind, hk] at h
      obtain ⟨bound', hb, rfl⟩ := Option.map_eq_some_iff.mp h
      exact hunnamed (by rw [hk]; rfl) (by rw [hk]; rfl) nofun hb
    | keywordOnly =>
      cases args with
      | cons v args => simp [bind, hk] at h
      | nil =>
        simp only [bind, hk] at h
        obtain ⟨v, -, h⟩ := Option.bind_eq_some_iff.mp h
        obtain ⟨bound', hb, rfl⟩ := Option.map_eq_some_iff.mp h
        exact hnamed (by rw [hk]; rfl) (Dict.get_erase kwargs p.name) hb
    | varKeyword =>
      cases args with
      | cons v args => simp [bind, hk] at h
      | nil =>
        have hnil : ps = [] := by
          cases ps with
          | nil => rfl
          | cons q ps => exact absurd hk (hp q List.mem_cons_self).last
        subst hnil
        simp only [bind, hk] at h
        cases h
        have hnames : keywordNames [p] = [] := by
          rw [keywordNames_cons, hk]
          rfl
        refine ⟨[(p, .mapping kwargs)], ⟨rfl, ?_, ?_, ?_⟩, rfl⟩
        · simp [hk, Value.fits]
        · rw [hnames]
          intro e he m hm k
          cases List.mem_singleton.mp he
          cases hm
          rfl
        · exact fun k _ => Or.inr ⟨_, List.mem_cons_self, kwargs, rfl⟩

lemma later_positional (hk : 2 ≤ p.kind.rank) (hp : ∀ e ∈ es, p.Before e.1) :
    es.flatMap positional = [] := by
  rw [List.flatMap_eq_nil_iff]
  rintro ⟨q, v⟩ he
  have hbefore := hp _ he
  have hrank : 2 ≤ q.kind.rank := Nat.le_trans hk hbefore.rank
  cases hq : q.kind with
  | positionalOnly | positionalOrKeyword =>
    rw [hq] at hrank
    exact absurd hrank (by decide)
  | varPositional =>
    have hle := hbefore.rank
    have hne := hbefore.variadic
    rw [hq] at hle hne
    cases hpk : p.kind with
    | positionalOnly | positionalOrKeyword =>
      rw [hpk] at hk
      exact absurd hk (by decide)
    | varPositional => exact absurd hpk (hne (by rw [hpk]; rfl))
    | keywordOnly | varKeyword =>
      rw [hpk] at hle
      exact absurd hle (by decide)
  | keywordOnly | varKeyword => simp [positional, hq]

lemma keywords_fresh (hp : ∀ e ∈ es, p.Before e.1)
    (hm : ∀ e ∈ es, ∀ m, e.2 = .mapping m → m.get p.name = none) :
    p.name ∉ (es.flatMap keywords).map Prod.fst := by
  intro hmem
  obtain ⟨kv, hkv, hname⟩ := List.mem_map.mp hmem
  obtain ⟨e, he, hin⟩ := List.mem_flatMap.mp hkv
  rw [keywords] at hin
  split at hin
  · rw [List.mem_singleton.mp hin] at hname
    exact (hp e he).name hname.symm
  · next m _ hmap =>
    have hget : m.get kv.1 = some kv.2 := (Dict.mem_entries m kv.1 kv.2).mp hin
    rw [hname, hm e he m hmap] at hget
    cases hget
  · cases hin

lemma bind_spread (hps : (es.map Prod.fst).Pairwise Parameter.Before)
    (hf : ∀ e ∈ es, e.2.fits e.1.kind = true)
    (hm : ∀ e ∈ es, ∀ m, e.2 = .mapping m → ∀ k ∈ keywordNames (es.map Prod.fst), m.get k = none)
    (hk : kwargs.entries = es.flatMap keywords) :
    bind (es.map Prod.fst) (es.flatMap positional) kwargs =
      some (es.map fun e => (e.1.name, e.2)) := by
  induction es generalizing kwargs with
  | nil => exact if_pos hk
  | cons e es ih =>
    obtain ⟨p, v⟩ := e
    rw [List.map_cons, List.pairwise_cons] at hps
    have hp : ∀ e ∈ es, p.Before e.1 := fun e he => hps.1 e.1 (List.mem_map_of_mem he)
    have hnames : ∀ k ∈ keywordNames (es.map Prod.fst), k ∈ keywordNames (p :: es.map Prod.fst) :=
      fun k hk => by
        rw [keywordNames_cons]
        exact List.mem_append_right _ hk
    have hrest : ∀ kwargs' : Dict String V, kwargs'.entries = es.flatMap keywords →
        bind (es.map Prod.fst) (es.flatMap positional) kwargs' =
          some (es.map fun e => (e.1.name, e.2)) := fun kwargs' => ih hps.2
      (fun e he => hf e (List.mem_cons_of_mem _ he))
      (fun e he m hem k hkn => hm e (List.mem_cons_of_mem _ he) m hem k (hnames k hkn))
    have hfresh : p.kind.named = true → p.name ∉ (es.flatMap keywords).map Prod.fst := fun hn =>
      keywords_fresh hp fun e he m hem => hm e (List.mem_cons_of_mem _ he) m hem p.name (by
        rw [List.map_cons, keywordNames_cons, hn]
        exact List.mem_cons_self)
    have hfit := hf _ List.mem_cons_self
    rw [List.flatMap_cons] at hk ⊢
    rw [List.map_cons, List.map_cons]
    cases hkind : p.kind with
    | positionalOnly =>
      cases v with
      | one v =>
        simp only [keywords, hkind, List.nil_append] at hk
        simp only [positional, hkind, List.singleton_append, bind, hrest kwargs hk, Option.map_some]
      | tuple | mapping => simp [hkind, Value.fits] at hfit
    | positionalOrKeyword =>
      cases v with
      | one v =>
        simp only [keywords, hkind, List.nil_append] at hk
        have hnone : kwargs.get p.name = none := by
          rw [Dict.get_eq_none, Dict.keys, hk]
          exact hfresh (by rw [hkind]; rfl)
        simp [positional, hkind, bind, hnone, hrest kwargs hk]
      | tuple | mapping => simp [hkind, Value.fits] at hfit
    | varPositional =>
      cases v with
      | tuple vs =>
        have hnil : es.flatMap positional = [] := later_positional (by rw [hkind]; decide) hp
        simp only [keywords, hkind, List.nil_append] at hk
        have hb := hrest kwargs hk
        rw [hnil] at hb ⊢
        simp [positional, hkind, bind, hb]
      | one | mapping => simp [hkind, Value.fits] at hfit
    | keywordOnly =>
      cases v with
      | one v =>
        have hnil : es.flatMap positional = [] := later_positional (by rw [hkind]; decide) hp
        simp only [keywords, hkind, List.singleton_append] at hk
        have hget : kwargs.get p.name = some v := by
          rw [← Dict.mem_entries, hk]
          exact List.mem_cons_self
        have herase : (kwargs.erase p.name).entries = es.flatMap keywords := by
          change kwargs.entries.filter _ = _
          rw [hk, List.filter_cons_of_neg (by simp), List.filter_eq_self]
          intro kv hkv
          have hne : kv.1 ≠ p.name := fun heq =>
            hfresh (by rw [hkind]; rfl) (heq ▸ List.mem_map_of_mem hkv)
          simpa using hne
        have hb := hrest (kwargs.erase p.name) herase
        rw [hnil] at hb ⊢
        simp [positional, hkind, bind, hget, hb]
      | tuple | mapping => simp [hkind, Value.fits] at hfit
    | varKeyword =>
      cases v with
      | mapping m =>
        have hes : es = [] := by
          cases es with
          | nil => rfl
          | cons e es => exact absurd hkind (hp e List.mem_cons_self).last
        subst hes
        have hkwargs : kwargs = m := by
          simp only [keywords, hkind, List.flatMap_nil, List.append_nil] at hk
          obtain ⟨entries, hn⟩ := kwargs
          obtain rfl : entries = m.entries := hk
          rfl
        simp [positional, hkind, bind, hkwargs, Dict.empty]
      | one | tuple => simp [hkind, Value.fits] at hfit

lemma keywords_nodup (hps : (es.map Prod.fst).Pairwise Parameter.Before)
    (hm : ∀ e ∈ es, ∀ m, e.2 = .mapping m → ∀ k ∈ keywordNames (es.map Prod.fst), m.get k = none) :
    ((es.flatMap keywords).map Prod.fst).Nodup := by
  induction es with
  | nil => exact List.nodup_nil
  | cons e es ih =>
    rw [List.map_cons, List.pairwise_cons] at hps
    have hp : ∀ e' ∈ es, e.1.Before e'.1 := fun e' he => hps.1 e'.1 (List.mem_map_of_mem he)
    have hrest := ih hps.2 fun e' he m hem k hk => hm e' (List.mem_cons_of_mem _ he) m hem k (by
      rw [List.map_cons, keywordNames_cons]
      exact List.mem_append_right _ hk)
    rw [List.flatMap_cons, List.map_append]
    rw [keywords]
    split
    · next v hk hv =>
      refine List.nodup_cons.mpr ⟨keywords_fresh hp fun e' he m hem => ?_, hrest⟩
      refine hm e' (List.mem_cons_of_mem _ he) m hem _ ?_
      rw [List.map_cons, keywordNames_cons, hk]
      exact List.mem_cons_self
    · next m hk hv =>
      have hnil : es = [] := by
        cases es with
        | nil => rfl
        | cons e' es => exact absurd hk (hp e' List.mem_cons_self).last
      subst hnil
      rw [List.flatMap_nil, List.map_nil, List.append_nil]
      exact m.nodup
    · exact hrest

end Bind

section Update

variable {d : Dict String V} {es fs : List (String × V)}

def update (d : Dict String V) (es : List (String × V)) : Dict String V :=
  es.foldl (fun d e => d.set e.1 e.2) d

lemma update_append : update d (es ++ fs) = update (update d es) fs := List.foldl_append

lemma update_entries (h : ((d.entries ++ es).map Prod.fst).Nodup) :
    (update d es).entries = d.entries ++ es := by
  induction es generalizing d with
  | nil => exact (List.append_nil _).symm
  | cons e es ih =>
    have hnone : d.get e.1 = none := by
      rw [Dict.get_eq_none, Dict.keys]
      rw [List.map_append, List.nodup_append] at h
      exact fun hmem => h.2.2 _ hmem _ List.mem_cons_self rfl
    have hset := Dict.set_entries_of_get_none d e.2 hnone
    have happ : d.entries ++ e :: es = (d.set e.1 e.2).entries ++ es := by
      rw [hset, List.append_assoc]
      rfl
    rw [happ] at h ⊢
    exact ih h

end Update

end Reaper.Library.Inspect
