import Reaper.Library.Signature

/-! The arguments of a durable function. invoke binds them to the public signature and stores them by
name. call gives them back to the function, and the Context with them. -/

namespace Reaper.Workflow.Arguments

open Reaper.Library Reaper.Library.Inspect

variable {V : Type}

def findContextArg (ps : List (Parameter V)) (marked : String → Bool) : Except String (Option String) :=
  match (ps.map Parameter.name).filter marked with
  | [] => .ok none
  | [name] => .ok (some name)
  | _ => .error "a task can have one Context"

/-- The Context as Python has it: an object, with a value for each field of the model, and the tuples
in which iteration gives a field's name and value. -/
structure Context (V : Type) where
  object : V
  field : String → V
  tuple : String → V → V

namespace Context

def fieldNames : List String :=
  ["store", "execution", "task_id", "preload", "memo", "call_index", "depth"]

/-- BaseModel.__iter__, with a tuple for each field. -/
def iter (c : Context V) : List V := fieldNames.map fun name => c.tuple name (c.field name)

def items (c : Context V) : Dict String V :=
  update Dict.empty (fieldNames.map fun name => (name, c.field name))

/-- The Context as call passes it on: iterated over for *args and **kwargs. -/
def spread (c : Context V) : Kind → Value V
  | .varPositional => .tuple c.iter
  | .varKeyword => .mapping c.items
  | _ => .one c.object

end Context

structure DurableFunction (V : Type) where
  signature : Signature V
  marked : String → Bool
  contextArg : Option String
  found : findContextArg signature.parameters marked = .ok contextArg

namespace DurableFunction

def publicSignature (f : DurableFunction V) : Signature V where
  parameters := f.signature.parameters.filter fun p => some p.name ≠ f.contextArg
  ordered := f.signature.ordered.sublist List.filter_sublist
  variadic p hp := f.signature.variadic p (List.mem_of_mem_filter hp)

def valueOf (f : DurableFunction V) (context : Context V) (stored : List (String × Value V))
    (p : Parameter V) : Option (Value V) :=
  if some p.name = f.contextArg then some (context.spread p.kind) else stored.lookup p.name

/-- The loop of call, with call_args and call_kwargs so far. -/
def callArguments (f : DurableFunction V) (context : Context V) (stored : List (String × Value V)) :
    List (Parameter V) → List V → Dict String V → Option (List V × Dict String V)
  | [], args, kwargs => some (args, kwargs)
  | p :: ps, args, kwargs =>
    (f.valueOf context stored p).bind fun value =>
      match p.kind, value with
      | .varPositional, .tuple vs => callArguments f context stored ps (args ++ vs) kwargs
      | .varKeyword, .mapping m => callArguments f context stored ps args (update kwargs m.entries)
      | .positionalOnly, .one v | .positionalOrKeyword, .one v =>
        callArguments f context stored ps (args ++ [v]) kwargs
      | .keywordOnly, .one v => callArguments f context stored ps args (kwargs.set p.name v)
      | _, _ => none

def promised (f : DurableFunction V) (context : Context V) (stored : List (String × Value V))
    (p : Parameter V) : Option (Value V) :=
  if some p.name = f.contextArg then some (.one context.object) else stored.lookup p.name

def Survives (f : DurableFunction V) (context : Context V) (stored : List (String × Value V)) : Prop :=
  ∃ args kwargs bound, f.callArguments context stored f.signature.parameters [] Dict.empty =
      some (args, kwargs) ∧
    bind f.signature.parameters args kwargs = some bound ∧
    ∀ p ∈ f.signature.parameters, bound.lookup p.name = f.promised context stored p

end DurableFunction

section Calls

variable {f : DurableFunction V} {context : Context V} {stored : List (String × Value V)}
  {ps : List (Parameter V)} {p : Parameter V} {args : List V} {kwargs : Dict String V}
  {es : List (Parameter V × Value V)} {v : Value V}

lemma lookup_bound (hps : (es.map Prod.fst).Pairwise Parameter.Before) (he : (p, v) ∈ es) :
    (es.map fun e => (e.1.name, e.2)).lookup p.name = some v := by
  induction es with
  | nil => cases he
  | cons e es ih =>
    rw [List.map_cons, List.pairwise_cons] at hps
    rw [List.map_cons, List.lookup_cons]
    obtain rfl | he := List.mem_cons.mp he
    · simp
    · have hne : p.name ≠ e.1.name := ((hps.1 p (List.mem_map_of_mem (f := Prod.fst) he)).name).symm
      rw [beq_false_of_ne hne]
      exact ih hps.2 he

lemma callArguments_spread (h : ∀ e ∈ es, f.valueOf context stored e.1 = some e.2 ∧
    e.2.fits e.1.kind = true) :
    f.callArguments context stored (es.map Prod.fst) args kwargs =
      some (args ++ es.flatMap positional, update kwargs (es.flatMap keywords)) := by
  induction es generalizing args kwargs with
  | nil => simp [DurableFunction.callArguments, update]
  | cons e es ih =>
    obtain ⟨⟨hv, hf⟩, hrest⟩ := List.forall_mem_cons.mp h
    obtain ⟨p, v⟩ := e
    rw [List.map_cons, DurableFunction.callArguments, hv, Option.bind_some, List.flatMap_cons,
      List.flatMap_cons, update_append]
    cases hk : p.kind with
    | positionalOnly | positionalOrKeyword | keywordOnly =>
      cases v with
      | one v => simp [ih hrest, positional, keywords, hk, update]
      | tuple | mapping => simp [hk, Value.fits] at hf
    | varPositional =>
      cases v with
      | tuple vs => simp [ih hrest, positional, keywords, hk, update]
      | one | mapping => simp [hk, Value.fits] at hf
    | varKeyword =>
      cases v with
      | mapping m => simp [ih hrest, positional, keywords, hk]
      | one | tuple => simp [hk, Value.fits] at hf

end Calls

section RoundTrip

variable {f : DurableFunction V} {args : List V} {kwargs : Dict String V}
  {stored : List (String × Value V)} {es : List (Parameter V × Value V)}

lemma mem_public {p : Parameter V} : p ∈ f.publicSignature.parameters ↔
    p ∈ f.signature.parameters ∧ some p.name ≠ f.contextArg := by
  rw [DurableFunction.publicSignature, List.mem_filter, decide_eq_true_eq]

lemma mem_keywordNames {ps : List (Parameter V)} {k : String} :
    k ∈ keywordNames ps ↔ ∃ p ∈ ps, p.kind.named = true ∧ p.name = k := by
  simp [keywordNames, and_assoc]

def ContextFits (f : DurableFunction V) (kwargs : Dict String V) : Prop :=
  ∀ p ∈ f.signature.parameters, some p.name = f.contextArg →
    p.kind = .positionalOnly ∨ p.kind.named = true ∧ kwargs.get p.name = none

lemma fits_one {v : V} {k : Kind} (h : (Value.one v).fits k = true) :
    k = .positionalOnly ∨ k.named = true := by
  cases k with
  | positionalOnly => exact Or.inl rfl
  | positionalOrKeyword | keywordOnly => exact Or.inr rfl
  | varPositional | varKeyword => cases h

lemma spread_single (context : Context V) {k : Kind} (h : k = .positionalOnly ∨ k.named = true) :
    context.spread k = .one context.object ∧ (context.spread k).fits k = true := by
  cases k with
  | positionalOnly | positionalOrKeyword | keywordOnly => exact ⟨rfl, rfl⟩
  | varPositional | varKeyword =>
    obtain h | h := h
    · cases h
    · cases h

lemma valueOf_bound (hb : Binds f.publicSignature.parameters kwargs es)
    (hordered : (es.map Prod.fst).Pairwise Parameter.Before) (context : Context V) (hfit : ContextFits f kwargs)
    {p : Parameter V} (hp : p ∈ f.signature.parameters) :
    ∃ v, f.valueOf context (es.map fun e => (e.1.name, e.2)) p = some v ∧
      f.promised context (es.map fun e => (e.1.name, e.2)) p = some v ∧ v.fits p.kind = true ∧
      ((p, v) ∈ es ∨ v = .one context.object) := by
  rw [DurableFunction.valueOf, DurableFunction.promised]
  by_cases hc : some p.name = f.contextArg
  · obtain ⟨hone, hfits⟩ := spread_single context ((hfit p hp hc).imp_right And.left)
    rw [if_pos hc, if_pos hc]
    exact ⟨_, rfl, by rw [hone], hfits, Or.inr hone⟩
  · rw [if_neg hc, if_neg hc]
    have hmem : p ∈ es.map Prod.fst := hb.parameters ▸ mem_public.mpr ⟨hp, hc⟩
    obtain ⟨⟨q, v⟩, he, rfl⟩ := List.mem_map.mp hmem
    exact ⟨v, lookup_bound hordered he, lookup_bound hordered he, hb.fits _ he, Or.inl he⟩

lemma Survives.of_fits (h : bind f.publicSignature.parameters args kwargs = some stored) (context : Context V)
    (hfit : ContextFits f kwargs) : f.Survives context stored := by
  obtain ⟨es, hb, rfl⟩ := bind_binds f.publicSignature.ordered h
  have hordered : (es.map Prod.fst).Pairwise Parameter.Before :=
    hb.parameters ▸ f.publicSignature.ordered
  have hvalue := fun p => valueOf_bound (p := p) hb hordered context hfit
  set stored := es.map fun e => (e.1.name, e.2)
  have : Inhabited (Value V) := ⟨.one context.object⟩
  choose! value hval hpromised hfits hfrom using hvalue
  set all := f.signature.parameters.map fun p => (p, value p) with hall
  have hparams : all.map Prod.fst = f.signature.parameters := by
    rw [hall, List.map_map]
    exact List.map_id _
  have hmem : ∀ e ∈ all, e.1 ∈ f.signature.parameters ∧ e.2 = value e.1 := by
    intro e he
    obtain ⟨p, hp, rfl⟩ := List.mem_map.mp he
    exact ⟨hp, rfl⟩
  -- no keyword of **kwargs names another parameter of the function
  have hfree : ∀ e ∈ all, ∀ m, e.2 = .mapping m → ∀ k ∈ keywordNames (all.map Prod.fst),
      m.get k = none := by
    intro e he m hm k hk
    obtain ⟨hp, hv⟩ := hmem e he
    obtain hes | hone := hfrom e.1 hp
    · rw [hb.mapping _ hes m (hv ▸ hm)]
      split_ifs with hpub
      · rfl
      · rw [hparams] at hk
        obtain ⟨q, hq, hnamed, rfl⟩ := mem_keywordNames.mp hk
        have hc : some q.name = f.contextArg := by
          by_contra hc
          exact hpub (mem_keywordNames.mpr ⟨q, mem_public.mpr ⟨hq, hc⟩, hnamed, rfl⟩)
        obtain hpos | ⟨-, hnone⟩ := hfit q hq hc
        · rw [hpos] at hnamed
          cases hnamed
        · exact hnone
    · cases hm.symm.trans (hv.trans hone)
  have hcall : f.callArguments context stored (all.map Prod.fst) [] Dict.empty =
      some (all.flatMap positional, update Dict.empty (all.flatMap keywords)) :=
    callArguments_spread fun e he => by
      obtain ⟨hp, hv⟩ := hmem e he
      rw [hv]
      exact ⟨hval e.1 hp, hfits e.1 hp⟩
  have hpairwise : (all.map Prod.fst).Pairwise Parameter.Before := hparams ▸ f.signature.ordered
  have hkwargs : (update Dict.empty (all.flatMap keywords)).entries = all.flatMap keywords :=
    update_entries (keywords_nodup hpairwise hfree)
  have hbind := bind_spread hpairwise (fun e he => by
    obtain ⟨hp, hv⟩ := hmem e he
    rw [hv]
    exact hfits e.1 hp) hfree hkwargs
  rw [hparams] at hcall hbind
  refine ⟨_, _, _, hcall, hbind, fun p hp => ?_⟩
  rw [hpromised p hp]
  exact lookup_bound hpairwise (List.mem_map_of_mem (f := fun p => (p, value p)) hp)

lemma Survives.single {context : Context V} {bound : List (String × Value V)} {args : List V}
    {kwargs : Dict String V} {p : Parameter V} (hbind : bind f.signature.parameters args kwargs = some bound)
    (hp : p ∈ f.signature.parameters) (hc : some p.name = f.contextArg)
    (hvalue : bound.lookup p.name = f.promised context stored p) :
    p.kind = .positionalOnly ∨ p.kind.named = true := by
  obtain ⟨es, hb, rfl⟩ := bind_binds f.signature.ordered hbind
  have hordered : (es.map Prod.fst).Pairwise Parameter.Before := hb.parameters ▸ f.signature.ordered
  have hmem : p ∈ es.map Prod.fst := hb.parameters ▸ hp
  obtain ⟨⟨p, v⟩, he, rfl⟩ := List.mem_map.mp hmem
  rw [lookup_bound hordered he, DurableFunction.promised, if_pos hc, Option.some.injEq] at hvalue
  exact fits_one (hvalue ▸ hb.fits _ he)

lemma Survives.fits (h : bind f.publicSignature.parameters args kwargs = some stored)
    {context : Context V} (hs : f.Survives context stored) : ContextFits f kwargs := by
  obtain ⟨args', kwargs', bound, hcall, hbind, hvalues⟩ := hs
  intro p hp hc
  refine (Survives.single hbind hp hc (hvalues p hp)).imp_right fun hnamed => ⟨hnamed, ?_⟩
  by_contra hgiven
  obtain ⟨es, hb, rfl⟩ := bind_binds f.publicSignature.ordered h
  have hordered : (es.map Prod.fst).Pairwise Parameter.Before :=
    hb.parameters ▸ f.publicSignature.ordered
  have hpublic : p.name ∉ keywordNames f.publicSignature.parameters := by
    intro hmem
    obtain ⟨q, hq, -, hname⟩ := mem_keywordNames.mp hmem
    exact (mem_public.mp hq).2 (hname ▸ hc)
  -- the keyword with the name of the Context is stored in **kwargs
  obtain hmem | ⟨⟨q, u⟩, he, m, hm⟩ := hb.taken p.name hgiven
  · exact hpublic hmem
  cases hm
  have hm := hb.mapping _ he m rfl p.name
  rw [if_neg hpublic] at hm
  have hq : q ∈ f.publicSignature.parameters := hb.parameters ▸ List.mem_map_of_mem (f := Prod.fst) he
  obtain ⟨hq, hqc⟩ := mem_public.mp hq
  have hlookup := hvalues q hq
  rw [DurableFunction.promised, if_neg hqc, lookup_bound hordered he] at hlookup
  obtain ⟨es', hb', rfl⟩ := bind_binds f.signature.ordered hbind
  have hordered' : (es'.map Prod.fst).Pairwise Parameter.Before :=
    hb'.parameters ▸ f.signature.ordered
  have hq' : q ∈ es'.map Prod.fst := hb'.parameters ▸ hq
  obtain ⟨⟨q, w⟩, he', rfl⟩ := List.mem_map.mp hq'
  rw [lookup_bound hordered' he'] at hlookup
  cases hlookup
  have hm' := hb'.mapping _ he' m rfl p.name
  rw [if_pos (mem_keywordNames.mpr ⟨p, hp, hnamed, rfl⟩)] at hm'
  exact hgiven (hm.symm.trans hm')

/-- The arguments of a durable call survive the round trip exactly if the Context fits them. -/
theorem arguments_survive_iff (h : bind f.publicSignature.parameters args kwargs = some stored)
    (context : Context V) : f.Survives context stored ↔ ContextFits f kwargs :=
  ⟨Survives.fits h, Survives.of_fits h context⟩

end RoundTrip

section Samples

def report : DurableFunction ℕ where
  signature := {
    parameters := [⟨"ctx", .positionalOrKeyword, none⟩, ⟨"labels", .varKeyword, none⟩]
    ordered := by
      refine List.pairwise_pair.mpr ⟨?_, ?_, ?_, ?_⟩ <;> simp [Kind.rank, Kind.variadic]
    variadic := by simp }
  marked name := name = "ctx"
  contextArg := some "ctx"
  found := rfl

def labelled (name : String) : Dict String ℕ := Dict.empty.set name 1

def numbered : Context ℕ where
  object := 7
  field name := name.length
  tuple name v := name.length + v

theorem arguments_survive_iff_label :
    report.Survives numbered [("labels", .mapping (labelled "a"))] ↔
      ContextFits report (labelled "a") := by
  have h : bind report.publicSignature.parameters [] (labelled "a") =
      some [("labels", .mapping (labelled "a"))] := rfl
  exact arguments_survive_iff h numbered

/-- A keyword argument with the name of the Context is stored, and the call then raises. -/
theorem context_name_clashes :
    bind report.publicSignature.parameters [] (labelled "ctx") =
      some [("labels", .mapping (labelled "ctx"))] ∧
    report.callArguments numbered [("labels", .mapping (labelled "ctx"))] report.signature.parameters
      [] Dict.empty = some ([7], labelled "ctx") ∧
    bind report.signature.parameters [7] (labelled "ctx") = none :=
  ⟨rfl, rfl, rfl⟩

def collect : DurableFunction ℕ where
  signature := {
    parameters := [⟨"ctx", .varPositional, none⟩]
    ordered := List.pairwise_singleton _ _
    variadic := by simp }
  marked name := name = "ctx"
  contextArg := some "ctx"
  found := rfl

-- the body runs, with the fields of the Context as its arguments
example : collect.callArguments numbered [] collect.signature.parameters [] Dict.empty =
      some (numbered.iter, Dict.empty) ∧
    bind collect.signature.parameters numbered.iter Dict.empty =
      some [("ctx", .tuple numbered.iter)] := ⟨rfl, rfl⟩

end Samples

end Reaper.Workflow.Arguments
