import Mathlib.Data.Char
import Mathlib.Data.List.Lex
import Reaper.Library.Names

/-! JSON values, what a path finds in them, and the text that is written for them with sorted keys. -/

namespace Reaper.Library.JsonText

def plain (c : Char) : Bool := c.isAlphanum || c == '-' || c == '+' || c == '.'

structure Literal where
  text : List Char
  text_ne : text ≠ []
  text_plain : ∀ c ∈ text, plain c = true
  deriving DecidableEq

mutual
inductive Value
  | literal (l : Literal)
  | text (s : List Char)
  | array (items : Items)
  | object (fields : Fields)
inductive Items
  | nil
  | cons (v : Value) (rest : Items)
inductive Fields
  | nil
  | cons (key : List Char) (v : Value) (rest : Fields)
end

inductive Step
  | index (i : ℕ)
  | key (k : List Char)

inductive Kind
  | literal (l : Literal)
  | text (s : List Char)
  | array
  | object

mutual
def Value.find : Value → List Step → Option Kind
  | .literal l, [] => some (.literal l)
  | .text s, [] => some (.text s)
  | .array _, [] => some .array
  | .object _, [] => some .object
  | .array items, .index i :: path => items.find i path
  | .object fields, .key k :: path => fields.find k path
  | _, _ => none
def Items.find : Items → ℕ → List Step → Option Kind
  | .nil, _, _ => none
  | .cons v _, 0, path => v.find path
  | .cons _ rest, i + 1, path => rest.find i path
def Fields.find : Fields → List Char → List Step → Option Kind
  | .nil, _, _ => none
  | .cons key v rest, k, path => if k = key then v.find path else rest.find k path
end

def Value.Same (v w : Value) : Prop := ∀ path, v.find path = w.find path

def Items.Same (v w : Items) : Prop := ∀ i path, v.find i path = w.find i path

def Fields.Same (v w : Fields) : Prop := ∀ k path, v.find k path = w.find k path

def Fields.keys : Fields → List (List Char)
  | .nil => []
  | .cons key _ rest => key :: rest.keys

mutual
def Value.Distinct : Value → Prop
  | .literal _ => True
  | .text _ => True
  | .array items => items.Distinct
  | .object fields => fields.Distinct
def Items.Distinct : Items → Prop
  | .nil => True
  | .cons v rest => v.Distinct ∧ rest.Distinct
def Fields.Distinct : Fields → Prop
  | .nil => True
  | .cons key v rest => key ∉ rest.keys ∧ v.Distinct ∧ rest.Distinct
end

def Fields.insert (key : List Char) (v : Value) : Fields → Fields
  | .nil => .cons key v .nil
  | .cons key' v' rest =>
    if key < key' then .cons key v (.cons key' v' rest) else .cons key' v' (rest.insert key v)

mutual
def Value.sorted : Value → Value
  | .literal l => .literal l
  | .text s => .text s
  | .array items => .array items.sorted
  | .object fields => .object fields.sorted
def Items.sorted : Items → Items
  | .nil => .nil
  | .cons v rest => .cons v.sorted rest.sorted
def Fields.sorted : Fields → Fields
  | .nil => .nil
  | .cons key v rest => rest.sorted.insert key v.sorted
end

def shortEscape : Char → Option Char
  | '\x22' => some '\x22'
  | '\\' => some '\\'
  | '\n' => some 'n'
  | '\r' => some 'r'
  | '\t' => some 't'
  | '\x08' => some 'b'
  | '\x0c' => some 'f'
  | _ => none

def escape (c : Char) : List Char :=
  match shortEscape c with
  | some l => ['\\', l]
  | none =>
    if c.toNat < 32 then
      ['\\', 'u', '0', '0', (c.toNat / 16).digitChar, (c.toNat % 16).digitChar]
    else [c]

def quote (s : List Char) : List Char := '\x22' :: (s.flatMap escape ++ ['\x22'])

mutual
def Value.render : Value → List Char
  | .literal l => l.text
  | .text s => quote s
  | .array .nil => ['[', ']']
  | .array (.cons v rest) => '[' :: (v.render ++ rest.render)
  | .object .nil => ['\x7b', '\x7d']
  | .object (.cons key v rest) => '\x7b' :: (quote key ++ ':' :: (v.render ++ rest.render))
def Items.render : Items → List Char
  | .nil => [']']
  | .cons v rest => ',' :: (v.render ++ rest.render)
def Fields.render : Fields → List Char
  | .nil => ['\x7d']
  | .cons key v rest => ',' :: (quote key ++ ':' :: (v.render ++ rest.render))
end

/-- json.dumps without spaces, with sorted keys, and only such characters escaped as must be. -/
def dumps (v : Value) : List Char := v.sorted.render

section Sorting

lemma mem_keys_insert (k key : List Char) (v : Value) (fields : Fields) :
    k ∈ (fields.insert key v).keys ↔ k = key ∨ k ∈ fields.keys := by
  match fields with
  | .nil => simp [Fields.insert, Fields.keys]
  | .cons key' v' rest =>
    have ih := mem_keys_insert k key v rest
    rw [Fields.insert]
    split_ifs
    · simp [Fields.keys]
    · simp only [Fields.keys, List.mem_cons, ih]
      tauto

lemma mem_keys_sorted (k : List Char) (fields : Fields) : k ∈ fields.sorted.keys ↔ k ∈ fields.keys := by
  match fields with
  | .nil => exact Iff.rfl
  | .cons key v rest =>
    have ih := mem_keys_sorted k rest
    rw [Fields.sorted, mem_keys_insert, ih, Fields.keys, List.mem_cons]

lemma find_insert {key : List Char} (v : Value) {fields : Fields} (hk : key ∉ fields.keys)
    (k : List Char) (path : List Step) :
    (fields.insert key v).find k path = if k = key then v.find path else fields.find k path := by
  match fields with
  | .nil => rfl
  | .cons key' v' rest =>
    rw [Fields.keys, List.mem_cons, not_or] at hk
    have ih := find_insert v hk.2 k path
    rw [Fields.insert]
    split_ifs with hlt hkey hkey
    · rw [Fields.find, if_pos hkey]
    · rw [Fields.find, if_neg hkey]
    · rw [Fields.find, if_neg (hkey ▸ hk.1), ih, if_pos hkey]
    · rw [Fields.find, Fields.find, ih, if_neg hkey]

mutual
lemma Value.find_sorted : ∀ {v : Value}, v.Distinct → ∀ path, v.sorted.find path = v.find path
  | .literal _, _, _ => rfl
  | .text _, _, _ => rfl
  | .array _, _, [] => rfl
  | .array _, h, .index i :: path => Items.find_sorted (by simpa [Value.Distinct] using h) i path
  | .array _, _, .key _ :: _ => rfl
  | .object _, _, [] => rfl
  | .object _, _, .index _ :: _ => rfl
  | .object _, h, .key k :: path => Fields.find_sorted (by simpa [Value.Distinct] using h) k path
lemma Items.find_sorted : ∀ {items : Items}, items.Distinct → ∀ i path,
    items.sorted.find i path = items.find i path
  | .nil, _, _, _ => rfl
  | .cons _ _, h, 0, path => Value.find_sorted h.1 path
  | .cons _ _, h, i + 1, path => Items.find_sorted h.2 i path
lemma Fields.find_sorted : ∀ {fields : Fields}, fields.Distinct → ∀ k path,
    fields.sorted.find k path = fields.find k path
  | .nil, _, _, _ => rfl
  | .cons key v rest, h, k, path => by
    have hk : key ∉ rest.sorted.keys := by
      rw [mem_keys_sorted]
      exact h.1
    rw [Fields.sorted, find_insert _ hk, Value.find_sorted h.2.1 path, Fields.find_sorted h.2.2 k path]
    rfl
end

mutual
def Value.Ordered : Value → Prop
  | .literal _ => True
  | .text _ => True
  | .array items => items.Ordered
  | .object fields => fields.Ordered
def Items.Ordered : Items → Prop
  | .nil => True
  | .cons v rest => v.Ordered ∧ rest.Ordered
def Fields.Ordered : Fields → Prop
  | .nil => True
  | .cons key v rest => (∀ k ∈ rest.keys, key < k) ∧ v.Ordered ∧ rest.Ordered
end

lemma insert_ordered {key : List Char} {v : Value} {fields : Fields} (hv : v.Ordered)
    (hf : fields.Ordered) (hk : key ∉ fields.keys) : (fields.insert key v).Ordered := by
  match fields with
  | .nil => exact ⟨fun k hk => (by cases hk), hv, trivial⟩
  | .cons key' v' rest =>
    rw [Fields.keys, List.mem_cons, not_or] at hk
    obtain ⟨hleast, hv', hrest⟩ := hf
    have ih := insert_ordered hv hrest hk.2
    rw [Fields.insert]
    split_ifs with hlt
    · refine ⟨fun k hmem => ?_, hv, hleast, hv', hrest⟩
      obtain rfl | hmem := List.mem_cons.mp hmem
      · exact hlt
      · exact hlt.trans (hleast k hmem)
    · refine ⟨fun k hmem => ?_, hv', ih⟩
      obtain rfl | hmem := (mem_keys_insert k key v rest).mp hmem
      · exact lt_of_le_of_ne (not_lt.mp hlt) (Ne.symm hk.1)
      · exact hleast k hmem

mutual
lemma Value.sorted_ordered : ∀ {v : Value}, v.Distinct → v.sorted.Ordered
  | .literal _, _ => trivial
  | .text _, _ => trivial
  | .array _, h => Items.sorted_ordered (by simpa [Value.Distinct] using h)
  | .object _, h => Fields.sorted_ordered (by simpa [Value.Distinct] using h)
lemma Items.sorted_ordered : ∀ {items : Items}, items.Distinct → items.sorted.Ordered
  | .nil, _ => trivial
  | .cons _ _, h => ⟨Value.sorted_ordered h.1, Items.sorted_ordered h.2⟩
lemma Fields.sorted_ordered : ∀ {fields : Fields}, fields.Distinct → fields.sorted.Ordered
  | .nil, _ => trivial
  | .cons key _ rest, h => by
    have hk : key ∉ rest.sorted.keys := by
      rw [mem_keys_sorted]
      exact h.1
    exact insert_ordered (Value.sorted_ordered h.2.1) (Fields.sorted_ordered h.2.2) hk
end

lemma Value.find_nil (v : Value) : v.find [] ≠ none := by
  cases v <;> exact Option.some_ne_none _

lemma mem_keys_iff (k : List Char) (fields : Fields) : k ∈ fields.keys ↔ ∃ path, fields.find k path ≠ none := by
  match fields with
  | .nil => simp [Fields.keys, Fields.find]
  | .cons key v rest =>
    have ih := mem_keys_iff k rest
    rw [Fields.keys, List.mem_cons, ih]
    simp only [Fields.find]
    split_ifs with hk
    · exact iff_of_true (Or.inl hk) ⟨[], v.find_nil⟩
    · exact or_iff_right hk

lemma Fields.Same.mem {v w : Fields} (h : v.Same w) {k : List Char} (hk : k ∈ v.keys) : k ∈ w.keys := by
  obtain ⟨path, hp⟩ := (mem_keys_iff k v).mp hk
  exact (mem_keys_iff k w).mpr ⟨path, h k path ▸ hp⟩

lemma find_fresh {k : List Char} {fields : Fields} (hk : k ∉ fields.keys) (path : List Step) :
    fields.find k path = none := by
  by_contra hne
  exact hk ((mem_keys_iff k fields).mpr ⟨path, hne⟩)

lemma same_cons_iff {key : List Char} {v w : Value} {rest rest' : Fields} (hk : key ∉ rest.keys)
    (hk' : key ∉ rest'.keys) :
    (Fields.cons key v rest).Same (.cons key w rest') ↔ v.Same w ∧ rest.Same rest' := by
  constructor
  · intro h
    refine ⟨fun path => ?_, fun k path => ?_⟩
    · simpa [Fields.find] using h key path
    · by_cases he : k = key
      · rw [he, find_fresh hk, find_fresh hk']
      · simpa [Fields.find, he] using h k path
  · rintro ⟨hv, hrest⟩ k path
    rw [Fields.find, Fields.find, hv path, hrest k path]

lemma Fields.Same.head {key key' : List Char} {v v' : Value} {rest rest' : Fields}
    (h : (Fields.cons key v rest).Same (.cons key' v' rest')) (hleast : ∀ k ∈ rest.keys, key < k)
    (hleast' : ∀ k ∈ rest'.keys, key' < k) : key = key' ∧ v.Same v' ∧ rest.Same rest' := by
  have hback : (Fields.cons key' v' rest').Same (.cons key v rest) := fun k path => (h k path).symm
  have hkey : key = key' := by
    obtain hk | hk := List.mem_cons.mp (h.mem List.mem_cons_self)
    · exact hk
    · obtain hk' | hk' := List.mem_cons.mp (hback.mem List.mem_cons_self)
      · exact hk'.symm
      · exact absurd (hleast key' hk') (not_lt.mpr (hleast' key hk).le)
  subst hkey
  refine ⟨rfl, (same_cons_iff ?_ ?_).mp h⟩
  · exact fun hmem => lt_irrefl _ (hleast _ hmem)
  · exact fun hmem => lt_irrefl _ (hleast' _ hmem)

lemma literal_same_iff {l m : Literal} : (Value.literal l).Same (.literal m) ↔ l = m := by
  constructor
  · intro h
    cases h []
    rfl
  · rintro rfl path
    rfl

lemma text_same_iff {xs ys : List Char} : (Value.text xs).Same (.text ys) ↔ xs = ys := by
  constructor
  · intro h
    cases h []
    rfl
  · rintro rfl path
    rfl

lemma object_same_iff {v w : Fields} : (Value.object v).Same (.object w) ↔ v.Same w := by
  constructor
  · exact fun h k path => h (.key k :: path)
  · intro h path
    match path with
    | [] => rfl
    | .index _ :: _ => rfl
    | .key k :: path => exact h k path

mutual
lemma Value.Same.eq : ∀ {v w : Value}, v.Ordered → w.Ordered → v.Same w → v = w
  | .literal l, w, _, _, h => by
    have hroot := h []
    cases w <;> cases hroot
    rfl
  | .text s, w, _, _, h => by
    have hroot := h []
    cases w <;> cases hroot
    rfl
  | .array items, w, hv, hw, h => by
    have hroot := h []
    cases w with
    | array items' =>
      exact congrArg Value.array (Items.Same.eq hv hw fun i path => h (.index i :: path))
    | _ => cases hroot
  | .object fields, w, hv, hw, h => by
    have hroot := h []
    cases w with
    | object fields' =>
      exact congrArg Value.object (Fields.Same.eq hv hw fun k path => h (.key k :: path))
    | _ => cases hroot
lemma Items.Same.eq : ∀ {v w : Items}, v.Ordered → w.Ordered → v.Same w → v = w
  | .nil, .nil, _, _, _ => rfl
  | .nil, .cons w _, _, _, h => absurd (h 0 []).symm w.find_nil
  | .cons v _, .nil, _, _, h => absurd (h 0 []) v.find_nil
  | .cons _ _, .cons _ _, hv, hw, h => by
    rw [Value.Same.eq hv.1 hw.1 fun path => h 0 path,
      Items.Same.eq hv.2 hw.2 fun i path => h (i + 1) path]
lemma Fields.Same.eq : ∀ {v w : Fields}, v.Ordered → w.Ordered → v.Same w → v = w
  | .nil, .nil, _, _, _ => rfl
  | .nil, .cons key w _, _, _, h => by
    have hk := h key []
    rw [Fields.find, Fields.find, if_pos rfl] at hk
    exact absurd hk.symm w.find_nil
  | .cons key v _, .nil, _, _, h => by
    have hk := h key []
    rw [Fields.find, Fields.find, if_pos rfl] at hk
    exact absurd hk v.find_nil
  | .cons _ _ _, .cons _ _ _, hv, hw, h => by
    obtain ⟨rfl, hvalue, hrest⟩ := h.head hv.1 hw.1
    rw [Value.Same.eq hv.2.1 hw.2.1 hvalue, Fields.Same.eq hv.2.2 hw.2.2 hrest]
end

lemma sorted_eq_iff {v w : Value} (hv : v.Distinct) (hw : w.Distinct) : v.sorted = w.sorted ↔ v.Same w := by
  constructor
  · intro h path
    rw [← Value.find_sorted hv path, h, Value.find_sorted hw path]
  · intro h
    refine Value.Same.eq (Value.sorted_ordered hv) (Value.sorted_ordered hw) fun path => ?_
    rw [Value.find_sorted hv path, Value.find_sorted hw path, h path]

end Sorting

section Rendering

variable {s t : List Char}

def Ends (s : List Char) : Prop := ∀ c, s.head? = some c → plain c = false

lemma ends_nil : Ends [] := fun _ h => (by cases h)

lemma ends_cons {c : Char} (hc : plain c = false) (s : List Char) : Ends (c :: s) := by
  intro d hd
  cases hd
  exact hc

lemma Ends.takeWhile (h : Ends s) : s.takeWhile plain = [] := by
  cases s with
  | nil => rfl
  | cons c s => exact List.takeWhile_cons_of_neg (by simp [h c rfl])

lemma Literal.takeWhile (l : Literal) (h : Ends s) : (l.text ++ s).takeWhile plain = l.text := by
  rw [List.takeWhile_append_of_pos l.text_plain, h.takeWhile, List.append_nil]

lemma Literal.cancel {l m : Literal} (hs : Ends s) (ht : Ends t) (h : l.text ++ s = m.text ++ t) :
    l = m ∧ s = t := by
  have htext : l.text = m.text := by rw [← l.takeWhile hs, h, m.takeWhile ht]
  refine ⟨?_, ?_⟩
  · cases l
    cases m
    cases htext
    rfl
  · rw [htext] at h
    exact List.append_cancel_left h

lemma Literal.ne_cons (l : Literal) {c : Char} (hc : plain c = false) : l.text ++ s ≠ c :: t := by
  intro h
  cases htext : l.text with
  | nil => exact l.text_ne htext
  | cons d text =>
    rw [htext, List.cons_append, List.cons_eq_cons] at h
    have hd := l.text_plain d (by rw [htext]; exact List.mem_cons_self)
    rw [h.1, hc] at hd
    cases hd

lemma shortEscape_inj {c d l : Char} (hc : shortEscape c = some l) (hd : shortEscape d = some l) : c = d := by
  unfold shortEscape at hc hd
  split at hc <;> cases hc <;> split at hd <;> first | rfl | cases hd

lemma shortEscape_ne {c l : Char} (hc : shortEscape c = some l) : l ≠ 'u' := by
  unfold shortEscape at hc
  split at hc <;> cases hc <;> decide

lemma escape_cases (c : Char) : (∃ l, shortEscape c = some l ∧ escape c = ['\\', l]) ∨
    (c.toNat < 32 ∧ escape c =
      ['\\', 'u', '0', '0', (c.toNat / 16).digitChar, (c.toNat % 16).digitChar]) ∨
    (escape c = [c] ∧ c ≠ '\\' ∧ c ≠ '\x22') := by
  rw [escape]
  cases hs : shortEscape c with
  | some l => exact Or.inl ⟨l, rfl, rfl⟩
  | none =>
    refine Or.inr ?_
    simp only
    split_ifs with hc
    · exact Or.inl ⟨hc, rfl⟩
    · refine Or.inr ⟨rfl, ?_, ?_⟩
      · rintro rfl
        cases hs
      · rintro rfl
        cases hs

lemma escape_cancel {c d : Char} (h : escape c ++ s = escape d ++ t) : c = d ∧ s = t := by
  obtain ⟨l, hl, hc⟩ | ⟨hc', hc⟩ | ⟨hc, hback, -⟩ := escape_cases c <;>
    obtain ⟨m, hm, hd⟩ | ⟨hd', hd⟩ | ⟨hd, hback', -⟩ := escape_cases d <;>
    simp only [hc, hd, List.cons_append, List.nil_append, List.cons_eq_cons] at h
  · obtain ⟨-, rfl, hst⟩ := h
    exact ⟨shortEscape_inj hl hm, hst⟩
  · exact absurd h.2.1 (shortEscape_ne hl)
  · exact absurd h.1.symm hback'
  · exact absurd h.2.1.symm (shortEscape_ne hm)
  · obtain ⟨-, -, -, -, hhigh, hlow, hst⟩ := h
    have hhigh := Names.digitChar_inj (by omega) (by omega) hhigh
    have hlow := Names.digitChar_inj (by omega) (by omega) hlow
    exact ⟨Char.toNat_inj.mp (by omega), hst⟩
  · exact absurd h.1.symm hback'
  · exact absurd h.1 hback
  · exact absurd h.1 hback
  · exact h

lemma escape_ne_quote (c : Char) : escape c ++ s ≠ '\x22' :: t := by
  intro h
  obtain ⟨l, -, hc⟩ | ⟨-, hc⟩ | ⟨hc, -, hne⟩ := escape_cases c <;>
    simp only [hc, List.cons_append, List.nil_append, List.cons_eq_cons] at h
  · exact absurd h.1 (by decide)
  · exact absurd h.1 (by decide)
  · exact hne h.1

lemma flatMap_escape_cancel {xs ys : List Char}
    (h : xs.flatMap escape ++ '\x22' :: s = ys.flatMap escape ++ '\x22' :: t) : xs = ys ∧ s = t := by
  induction xs generalizing ys with
  | nil =>
    cases ys with
    | nil => exact ⟨rfl, (List.cons.inj h).2⟩
    | cons y ys =>
      rw [List.flatMap_cons, List.append_assoc] at h
      exact absurd h.symm (escape_ne_quote y)
  | cons x xs ih =>
    cases ys with
    | nil =>
      rw [List.flatMap_cons, List.append_assoc] at h
      exact absurd h (escape_ne_quote x)
    | cons y ys =>
      rw [List.flatMap_cons, List.append_assoc, List.flatMap_cons, List.append_assoc] at h
      obtain ⟨rfl, hrest⟩ := escape_cancel h
      obtain ⟨rfl, hst⟩ := ih hrest
      exact ⟨rfl, hst⟩

lemma quote_cancel {xs ys : List Char} (h : quote xs ++ s = quote ys ++ t) : xs = ys ∧ s = t := by
  simp only [quote, List.cons_append, List.append_assoc, List.nil_append, List.cons_eq_cons] at h
  exact flatMap_escape_cancel h.2

lemma Items.ends (items : Items) (s : List Char) : Ends (items.render ++ s) := by
  cases items <;> exact ends_cons (by decide) _

lemma Fields.ends (fields : Fields) (s : List Char) : Ends (fields.render ++ s) := by
  cases fields <;> exact ends_cons (by decide) _

lemma Value.render_ne (v : Value) : v.render ++ s ≠ ']' :: t := by
  intro h
  match v with
  | .literal l => exact l.ne_cons (by decide) h
  | .text _ => exact absurd (List.cons.inj h).1 (by decide)
  | .array .nil => exact absurd (List.cons.inj h).1 (by decide)
  | .array (.cons _ _) => exact absurd (List.cons.inj h).1 (by decide)
  | .object .nil => exact absurd (List.cons.inj h).1 (by decide)
  | .object (.cons _ _ _) => exact absurd (List.cons.inj h).1 (by decide)

mutual
lemma Value.cancel : ∀ {v w : Value} {s t : List Char}, Ends s → Ends t →
    v.render ++ s = w.render ++ t → v = w ∧ s = t
  | .literal l, w, _, _, hs, ht, h => by
    match w with
    | .literal m =>
      obtain ⟨rfl, hst⟩ := Literal.cancel hs ht h
      exact ⟨rfl, hst⟩
    | .text _ => exact absurd h (l.ne_cons (by decide))
    | .array .nil => exact absurd h (l.ne_cons (by decide))
    | .array (.cons _ _) => exact absurd h (l.ne_cons (by decide))
    | .object .nil => exact absurd h (l.ne_cons (by decide))
    | .object (.cons _ _ _) => exact absurd h (l.ne_cons (by decide))
  | .text xs, w, _, _, _, _, h => by
    match w with
    | .literal m => exact absurd h.symm (m.ne_cons (by decide))
    | .text _ =>
      obtain ⟨rfl, hst⟩ := quote_cancel h
      exact ⟨rfl, hst⟩
    | .array .nil => exact absurd (List.cons.inj h).1 (by decide)
    | .array (.cons _ _) => exact absurd (List.cons.inj h).1 (by decide)
    | .object .nil => exact absurd (List.cons.inj h).1 (by decide)
    | .object (.cons _ _ _) => exact absurd (List.cons.inj h).1 (by decide)
  | .array .nil, w, _, _, _, _, h => by
    match w with
    | .literal m => exact absurd h.symm (m.ne_cons (by decide))
    | .text _ => exact absurd (List.cons.inj h).1 (by decide)
    | .array .nil => exact ⟨rfl, (List.cons.inj (List.cons.inj h).2).2⟩
    | .array (.cons _ _) =>
      simp only [Value.render, List.cons_append, List.append_assoc, List.cons_eq_cons] at h
      exact absurd h.2.symm (Value.render_ne _)
    | .object .nil => exact absurd (List.cons.inj h).1 (by decide)
    | .object (.cons _ _ _) => exact absurd (List.cons.inj h).1 (by decide)
  | .array (.cons v rest), w, _, _, _, _, h => by
    match w with
    | .literal m => exact absurd h.symm (m.ne_cons (by decide))
    | .text _ => exact absurd (List.cons.inj h).1 (by decide)
    | .array .nil =>
      simp only [Value.render, List.cons_append, List.append_assoc, List.cons_eq_cons] at h
      exact absurd h.2 (Value.render_ne _)
    | .array (.cons w rest') =>
      simp only [Value.render, List.cons_append, List.append_assoc, List.cons_eq_cons] at h
      obtain ⟨rfl, hrest⟩ := Value.cancel (v := v) (rest.ends _) (rest'.ends _) h.2
      obtain ⟨rfl, hst⟩ := Items.cancel (v := rest) hrest
      exact ⟨rfl, hst⟩
    | .object .nil => exact absurd (List.cons.inj h).1 (by decide)
    | .object (.cons _ _ _) => exact absurd (List.cons.inj h).1 (by decide)
  | .object .nil, w, _, _, _, _, h => by
    match w with
    | .literal m => exact absurd h.symm (m.ne_cons (by decide))
    | .text _ => exact absurd (List.cons.inj h).1 (by decide)
    | .array .nil => exact absurd (List.cons.inj h).1 (by decide)
    | .array (.cons _ _) => exact absurd (List.cons.inj h).1 (by decide)
    | .object .nil => exact ⟨rfl, (List.cons.inj (List.cons.inj h).2).2⟩
    | .object (.cons _ _ _) => exact absurd (List.cons.inj (List.cons.inj h).2).1 (by decide)
  | .object (.cons key v rest), w, _, _, _, _, h => by
    match w with
    | .literal m => exact absurd h.symm (m.ne_cons (by decide))
    | .text _ => exact absurd (List.cons.inj h).1 (by decide)
    | .array .nil => exact absurd (List.cons.inj h).1 (by decide)
    | .array (.cons _ _) => exact absurd (List.cons.inj h).1 (by decide)
    | .object .nil => exact absurd (List.cons.inj (List.cons.inj h).2).1 (by decide)
    | .object (.cons key' w rest') =>
      simp only [Value.render, List.cons_append, List.append_assoc, List.cons_eq_cons] at h
      obtain ⟨rfl, hkey⟩ := quote_cancel h.2
      obtain ⟨rfl, hrest⟩ := Value.cancel (v := v) (rest.ends _) (rest'.ends _) (List.cons.inj hkey).2
      obtain ⟨rfl, hst⟩ := Fields.cancel (v := rest) hrest
      exact ⟨rfl, hst⟩
lemma Items.cancel : ∀ {v w : Items} {s t : List Char}, v.render ++ s = w.render ++ t → v = w ∧ s = t
  | .nil, .nil, _, _, h => ⟨rfl, (List.cons.inj h).2⟩
  | .nil, .cons _ _, _, _, h => absurd (List.cons.inj h).1 (by decide)
  | .cons _ _, .nil, _, _, h => absurd (List.cons.inj h).1 (by decide)
  | .cons v rest, .cons w rest', _, _, h => by
    simp only [Items.render, List.cons_append, List.append_assoc, List.cons_eq_cons] at h
    obtain ⟨rfl, hrest⟩ := Value.cancel (v := v) (rest.ends _) (rest'.ends _) h.2
    obtain ⟨rfl, hst⟩ := Items.cancel (v := rest) hrest
    exact ⟨rfl, hst⟩
lemma Fields.cancel : ∀ {v w : Fields} {s t : List Char}, v.render ++ s = w.render ++ t → v = w ∧ s = t
  | .nil, .nil, _, _, h => ⟨rfl, (List.cons.inj h).2⟩
  | .nil, .cons _ _ _, _, _, h => absurd (List.cons.inj h).1 (by decide)
  | .cons _ _ _, .nil, _, _, h => absurd (List.cons.inj h).1 (by decide)
  | .cons key v rest, .cons key' w rest', _, _, h => by
    simp only [Fields.render, List.cons_append, List.append_assoc, List.cons_eq_cons] at h
    obtain ⟨rfl, hkey⟩ := quote_cancel h.2
    obtain ⟨rfl, hrest⟩ := Value.cancel (v := v) (rest.ends _) (rest'.ends _) (List.cons.inj hkey).2
    obtain ⟨rfl, hst⟩ := Fields.cancel (v := rest) hrest
    exact ⟨rfl, hst⟩
end

lemma render_inj {v w : Value} (h : v.render = w.render) : v = w := by
  have happ : v.render ++ [] = w.render ++ [] := by rw [h]
  exact (Value.cancel ends_nil ends_nil happ).1

lemma dumps_eq_iff {v w : Value} (hv : v.Distinct) (hw : w.Distinct) : dumps v = dumps w ↔ v.Same w := by
  rw [← sorted_eq_iff hv hw]
  constructor
  · exact render_inj
  · exact congrArg Value.render

end Rendering

end Reaper.Library.JsonText
