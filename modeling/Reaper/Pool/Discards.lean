import Reaper.Pool.Effects

/-! Each child that the core is given is discarded once, and a closed core asks for nothing more. -/

namespace Reaper.Pool.ReaperCore

open Reaper.Library

def naming (i : SkeletonID) (fx : List ControlEffect) : List ControlEffect :=
  fx.filter fun x => x.identity = some i

def Discards (x : ControlEffect) : Prop :=
  x.kind = .drop ∨ x.kind = .closeControl ∨ x.kind = .closeDeath ∨ x.kind = .reap

def answered (es : List ControlEvent) : List ℤ :=
  es.filterMap fun e => if e.kind = .spawned ∨ e.kind = .spawnFailed then e.gen else none

def Delivered (i : SkeletonID) (es : List ControlEvent) : Prop :=
  ∃ e ∈ es, e.kind = .spawned ∧ e.identity = some i

structure Answers (target : ℕ) (es : List ControlEvent) (e : ControlEvent) : Prop where
  named : e.kind = .submit → e.job ≠ some ""
  asked : e.kind = .spawned ∨ e.kind = .spawnFailed →
    ∃ gen ∈ spawnGens (run { target := target } es).2, e.gen = some gen ∧ gen ∉ answered es
  carries : e.kind = .spawned → ∃ i ∈ e.identity, e.gen = some i.gen ∧
    (run { target := target } es).1.slots.get i.fd = none

def Answered (target : ℕ) (es : List ControlEvent) : Prop :=
  ∀ n (h : n < es.length), Answers target (es.take n) es[n]

def Retained (i : SkeletonID) (c : ReaperCore) (fx : List ControlEffect) : Prop :=
  Live c i ∧ ∀ x ∈ naming i fx, ¬ Discards x

def Discarded (i : SkeletonID) (c : ReaperCore) (fx : List ControlEffect) : Prop :=
  ¬ Live c i ∧ ∃ before, naming i fx = before ++ discard i ∧ ∀ x ∈ before, ¬ Discards x

section Step

variable {c c' : ReaperCore} {e : ControlEvent} {fx : List ControlEffect} {i : SkeletonID}

structure Tells (c : ReaperCore) (e : ControlEvent) (c' : ReaperCore) (fx : List ControlEffect) :
    Prop where
  live : ∀ i, Live c' i → Live c i ∨ e.kind = .spawned ∧ e.identity = some i
  absent : ∀ i, ¬ Live c i → ¬ (e.kind = .spawned ∧ e.identity = some i) → naming i fx = []
  kept : ∀ i, Live c' i → ∀ x ∈ naming i fx, ¬ Discards x
  gone : ∀ i, Live c i ∨ e.kind = .spawned ∧ e.identity = some i → ¬ Live c' i →
    naming i fx = discard i

@[simp] lemma naming_append (i : SkeletonID) (xs ys : List ControlEffect) :
    naming i (xs ++ ys) = naming i xs ++ naming i ys := List.filter_append ..

lemma naming_eq_nil : naming i fx = [] ↔ ∀ x ∈ fx, x.identity ≠ some i := by
  simp [naming, List.filter_eq_nil_iff]

@[simp] lemma naming_discard (i : SkeletonID) : naming i (discard i) = discard i := by
  simp [naming, discard]

lemma naming_discard_ne {j : SkeletonID} (h : j ≠ i) : naming j (discard i) = [] := by
  simp [naming, discard, h.symm]

@[simp] lemma naming_failed (i : SkeletonID) (reason : FailureReason) (jobs : List String) :
    naming i (jobs.map (failed reason)) = [] := by
  simp [naming, failed]

lemma naming_fill (c : ReaperCore) (i : SkeletonID) : naming i c.fill.2 = [] := by
  have hloop : ∀ n c, naming i (fillLoop n c).2 = [] := by
    intro n
    induction n with
    | zero => exact fun _ => rfl
    | succ n ih => exact fun c => ih _
  rw [fill]
  split_ifs
  · rfl
  · exact hloop _ c

lemma Live.set_iff {slot new : ControlSlot} (hg : c.slots.get slot.identity.fd = some slot)
    (hn : new.identity = slot.identity) :
    Live { c with slots := c.slots.set slot.identity.fd new } i ↔ Live c i := by
  refine ⟨?_, live_set hg hn⟩
  rintro ⟨s, hs, rfl⟩
  rw [Dict.get_set] at hs
  split_ifs at hs with hfd
  · cases hs
    exact ⟨slot, by rw [hfd, hg], hn.symm⟩
  · exact ⟨s, hs, rfl⟩

lemma Tells.of_same (hl : ∀ i, Live c' i ↔ Live c i)
    (hx : ∀ x ∈ fx, ∀ i, x.identity = some i → Live c i ∧ ¬ Discards x) (hk : e.kind ≠ .spawned) :
    Tells c e c' fx := by
  refine ⟨fun i hi => Or.inl ((hl i).mp hi), fun i hi _ => ?_, fun i _ x hin => ?_, fun i hi hn => ?_⟩
  · exact naming_eq_nil.mpr fun x hin hid => hi (hx x hin i hid).1
  · obtain ⟨hin, hid⟩ := List.mem_filter.mp hin
    exact (hx x hin i (of_decide_eq_true hid)).2
  · obtain hi | ⟨hsp, -⟩ := hi
    · exact absurd ((hl i).mpr hi) hn
    · exact absurd hsp hk

lemma live_slot (hp : Placed c) {slot : ControlSlot} (hs : slot ∈ c.slots.values) :
    Live c slot.identity := by
  obtain ⟨fd, hg⟩ := (Dict.mem_values _ _).mp hs
  exact ⟨slot, by rwa [hp fd slot hg], rfl⟩

lemma spawned_tells (hk : e.kind = .spawned) (hf : ∀ i, e.identity = some i → c.slots.get i.fd = none)
    (hg : e.gen ≠ none) : Tells c e (c.spawned e).1 (c.spawned e).2 := by
  have hrefused : ∀ {c' i}, e.identity = some i → c'.slots = c.slots → Tells c e c' (discard i) := by
    intro c' i hi hs
    have hlive : ∀ j, Live c' j ↔ Live c j := fun j => by rw [Live, Live, hs]
    have hnot : ∀ j, Live c j → j ≠ i := by
      rintro j ⟨s, hs, -⟩ rfl
      cases hs.symm.trans (hf j hi)
    refine ⟨fun j hj => Or.inl ((hlive j).mp hj), fun j _ hj => ?_, fun j hj => ?_, fun j hj hn => ?_⟩
    · exact naming_discard_ne fun hji => hj ⟨hk, hji ▸ hi⟩
    · rw [naming_discard_ne (hnot j ((hlive j).mp hj))]
      exact fun x hx => by cases hx
    · obtain hj | ⟨-, hj⟩ := hj
      · exact absurd ((hlive j).mpr hj) hn
      · cases hi.symm.trans hj
        exact naming_discard i
  rw [spawned]
  split
  · next gen i _ hi =>
    dsimp only
    split_ifs
    · exact hrefused hi rfl
    · have hlive : ∀ j, Live { c with
          pendingSpawns := c.pendingSpawns.erase gen
          slots := c.slots.set i.fd { identity := i, state := .starting } } j ↔ Live c j ∨ j = i := by
        intro j
        rw [Live]
        dsimp only
        rw [Dict.get_set]
        split_ifs with hfd
        · constructor
          · rintro ⟨s, hs, hsj⟩
            cases hs
            exact Or.inr hsj.symm
          · rintro (⟨s, hs, rfl⟩ | rfl)
            · rw [hfd, hf i hi] at hs
              cases hs
            · exact ⟨_, rfl, rfl⟩
        · refine ⟨fun h => Or.inl h, fun h => h.resolve_right ?_⟩
          rintro rfl
          exact hfd rfl
      refine ⟨fun j hj => ?_, fun j _ _ => naming_fill _ j, fun j _ x hx => ?_, fun j hj hn => ?_⟩
      · obtain hj | rfl := (hlive j).mp (live_fill.mp hj)
        · exact Or.inl hj
        · exact Or.inr ⟨hk, hi⟩
      · rw [naming_fill] at hx
        cases hx
      · refine absurd (live_fill.mpr ((hlive j).mpr (hj.imp_right fun h => ?_))) hn
        exact Option.some.inj (h.2.symm.trans hi)
    · exact hrefused hi rfl
  · next hnone =>
    refine ⟨fun j hj => Or.inl hj, fun j _ _ => rfl, fun j _ x hx => ?_, fun j hj hn => ?_⟩
    · cases hx
    obtain hj | ⟨-, hj⟩ := hj
    · exact absurd hj hn
    · obtain ⟨gen, hg⟩ := Option.ne_none_iff_exists'.mp hg
      exact absurd hj (hnone gen j hg)

lemma lost_tells (hk : e.kind ≠ .spawned) : Tells c e (c.lost e).1 (c.lost e).2 := by
  rw [lost]
  split
  · exact .of_same (fun _ => Iff.rfl) (fun x hx => by cases hx) hk
  · next slot hslot =>
    have hget := find_spec hslot
    have hlive : ∀ j, Live { c with slots := c.slots.erase slot.identity.fd } j ↔
        Live c j ∧ j ≠ slot.identity := by
      intro j
      rw [Live, Live]
      dsimp only
      rw [Dict.get_erase]
      split_ifs with hfd
      · constructor
        · rintro ⟨s, hs, -⟩
          cases hs
        · rintro ⟨⟨s, hs, hsj⟩, hne⟩
          rw [hfd, hget] at hs
          cases hs
          exact absurd hsj.symm hne
      · refine ⟨fun h => ⟨h, ?_⟩, And.left⟩
        rintro rfl
        exact hfd rfl
    have hne : ∀ j, j ≠ slot.identity → naming j (discard slot.identity ++
        slot.held.toList.map (failed .workerDied)) = [] := fun j hj => by
      rw [naming_append, naming_discard_ne hj, naming_failed, List.append_nil]
    refine ⟨fun j hj => Or.inl ((hlive j).mp hj).1, fun j hj _ => hne j fun hji => hj ?_,
      fun j hj => ?_, fun j hj hn => ?_⟩
    · exact ⟨slot, by rw [hji, hget], hji.symm⟩
    · rw [hne j ((hlive j).mp hj).2]
      exact fun x hx => by cases hx
    · have hj := hj.resolve_right fun h => hk h.1
      obtain rfl : j = slot.identity := by
        by_contra hne
        exact hn ((hlive j).mpr ⟨hj, hne⟩)
      rw [naming_append, naming_discard, naming_failed, List.append_nil]

lemma handle_tells (hp : Placed c) (hf : e.kind = .spawned → e.gen ≠ none ∧
    ∀ i, e.identity = some i → c.slots.get i.fd = none) :
    Tells c e (c.handle e).1 (c.handle e).2 := by
  have hquiet : ∀ {c' fx}, e.kind ≠ .spawned → (∀ i, Live c' i ↔ Live c i) →
      (∀ x ∈ fx, x.identity = none) → Tells c e c' fx := by
    intro c' fx hk hl hx
    refine .of_same hl (fun x hin i hi => ?_) hk
    cases (hx x hin).symm.trans hi
  have hnil : ∀ x ∈ ([] : List ControlEffect), x.identity = none := fun x hx => by cases hx
  have hsame : e.kind ≠ .spawned → Tells c e c [] := fun hk => hquiet hk (fun _ => Iff.rfl) hnil
  have hset : ∀ {slot new : ControlSlot} {fx : List ControlEffect}, e.kind ≠ .spawned →
      c.find e.identity = some slot → new.identity = slot.identity → (∀ x ∈ fx, x.identity = none) →
      Tells c e { c with slots := c.slots.set slot.identity.fd new } fx := by
    intro slot new fx hk hs hn hx
    exact hquiet hk (fun i => Live.set_iff (find_spec hs) hn) hx
  rw [handle]
  cases hk : e.kind with
  | start | recover =>
    refine hquiet (by simp [hk]) (fun i => live_fill) fun x hx => ?_
    exact Option.eq_none_iff_forall_ne_some.mpr fun i => naming_eq_nil.mp (naming_fill c i) x hx
  | spawned => exact spawned_tells hk (hf hk).2 (hf hk).1
  | spawnFailed =>
    have hne : e.kind ≠ .spawned := by simp [hk]
    simp only [spawnFailed]
    split
    · exact hquiet hne (fun _ => Iff.rfl) hnil
    · exact hsame hne
  | ready =>
    have hne : e.kind ≠ .spawned := by simp [hk]
    simp only [ready]
    split
    · exact hsame hne
    · next slot hslot =>
      split_ifs
      · exact hsame hne
      · exact hset hne hslot rfl hnil
  | submit =>
    have hne : e.kind ≠ .spawned := by simp [hk]
    simp only [submit]
    split
    · exact hsame hne
    · split_ifs
      · exact hsame hne
      · exact hsame hne
      · exact hquiet hne (fun _ => Iff.rfl) hnil
  | result =>
    have hne : e.kind ≠ .spawned := by simp [hk]
    simp only [result]
    split
    · exact hsame hne
    · next slot hslot =>
      split_ifs
      · exact hsame hne
      · exact hsame hne
      · exact hset hne hslot rfl (by simp)
      · exact hset hne hslot rfl (by simp)
  | eof | sendFailed => exact lost_tells (by simp [hk])
  | close =>
    have hne : e.kind ≠ .spawned := by simp [hk]
    simp only [close]
    split_ifs
    · exact hsame hne
    · refine .of_same (fun i => ?_) (fun x hx i hi => ?_) hne
      · rw [Live, Live]
        dsimp only
        rw [Dict.get_map]
        cases hg : c.slots.get i.fd with
        | none => simp
        | some s => simp
      · obtain hx | hx := List.mem_append.mp hx
        · obtain ⟨job, -, rfl⟩ := List.mem_map.mp hx
          cases hi
        · obtain ⟨slot, hs, hx⟩ := List.mem_flatMap.mp hx
          obtain hx | hx := List.mem_append.mp hx
          · obtain ⟨job, -, rfl⟩ := List.mem_map.mp hx
            cases hi
          · obtain rfl := List.mem_singleton.mp hx
            cases hi
            exact ⟨live_slot hp hs, by simp [Discards]⟩
  | deadline =>
    have hne : e.kind ≠ .spawned := by simp [hk]
    simp only [deadline]
    split_ifs
    · refine .of_same (fun _ => Iff.rfl) (fun x hx i hi => ?_) hne
      obtain ⟨slot, hs, rfl⟩ := List.mem_map.mp hx
      cases hi
      exact ⟨live_slot hp hs, by simp [Discards]⟩
    · exact hsame hne

lemma live_dispatch : Live c.dispatch.1 i ↔ Live c i := by
  refine ⟨?_, dispatch_live⟩
  rintro ⟨s, hs, rfl⟩
  obtain ⟨t, ht, hid⟩ := (dispatch_slots c).1 _ s hs
  exact ⟨t, ht, hid⟩

lemma Reduces.placed (h : Reduces c e c' fx) (hp : Placed c) : Placed c' := by
  intro fd s hs
  obtain ⟨t, ht, hid⟩ | ⟨-, -, hfd⟩ := h.slots fd s hs
  · rw [← hid]
    exact hp fd t ht
  · exact hfd.symm

lemma apply_tells (hp : Placed c) (hf : e.kind = .spawned → e.gen ≠ none ∧
    ∀ i, e.identity = some i → c.slots.get i.fd = none) :
    Tells c e (c.apply e).1 (c.apply e).2 := by
  have h := handle_tells hp hf
  have hsends : ∀ i, ∀ x ∈ naming i (c.handle e).1.dispatch.2,
      Live (c.handle e).1 i ∧ ¬ Discards x := by
    intro i x hx
    obtain ⟨hx, hid⟩ := List.mem_filter.mp hx
    obtain ⟨hk, fd, slot, hget, hslot⟩ := (dispatch_handsOut _).sends x hx
    cases hslot.symm.trans (of_decide_eq_true hid)
    refine ⟨live_slot ((handle_reduces c e).placed hp) ((Dict.mem_values _ _).mpr ⟨fd, hget⟩), ?_⟩
    simp [Discards, hk]
  have hgone : ∀ i, ¬ Live (c.handle e).1 i → naming i (c.apply e).2 = naming i (c.handle e).2 := by
    intro i hi
    have hnil : naming i (c.handle e).1.dispatch.2 = [] :=
      List.eq_nil_iff_forall_not_mem.mpr fun x hx => hi (hsends i x hx).1
    rw [apply, naming_append, hnil, List.append_nil]
  refine ⟨fun i hi => h.live i (live_dispatch.mp hi), fun i hi hn => ?_, fun i hi x hx => ?_,
    fun i hi hn => ?_⟩
  · rw [hgone i fun hl => (h.live i hl).elim hi hn]
    exact h.absent i hi hn
  · rw [apply, naming_append] at hx
    obtain hx | hx := List.mem_append.mp hx
    · exact h.kept i (live_dispatch.mp hi) x hx
    · exact (hsends i x hx).2
  · have hn := fun hl => hn (live_dispatch.mpr hl)
    rw [hgone i hn]
    exact h.gone i hi hn

end Step

section History

variable {target : ℕ} {es : List ControlEvent} {e : ControlEvent} {c : ReaperCore}
  {fx : List ControlEffect}

structure Accounted (es : List ControlEvent) (c : ReaperCore) (fx : List ControlEffect) : Prop where
  placed : Placed c
  live : ∀ i, Live c i → Delivered i es
  absent : ∀ i, ¬ Delivered i es → naming i fx = []
  gens : ∀ i, Delivered i es → i.gen ∈ answered es
  fate : ∀ i, Delivered i es → Retained i c fx ∨ Discarded i c fx

lemma run_append (c : ReaperCore) (es : List ControlEvent) (e : ControlEvent) :
    c.run (es ++ [e]) = (((c.run es).1.apply e).1, (c.run es).2 ++ ((c.run es).1.apply e).2) := by
  induction es generalizing c with
  | nil => simp [run]
  | cons d es ih =>
    rw [List.cons_append, run, ih, run]
    simp

lemma delivered_append {i : SkeletonID} : Delivered i (es ++ [e]) ↔
    Delivered i es ∨ e.kind = .spawned ∧ e.identity = some i := by
  simp [Delivered, or_and_right, exists_or]

lemma Answered.append (h : Answered target (es ++ [e])) : Answered target es ∧ Answers target es e := by
  refine ⟨fun n hn => ?_, ?_⟩
  · have hlt : n < (es ++ [e]).length := by
      rw [List.length_append]
      omega
    have ha := h n hlt
    rwa [List.take_append_of_le_length hn.le, List.getElem_append_left hn] at ha
  · have ha := h es.length (by simp)
    simpa using ha

lemma Accounted.step (h : Accounted es c fx) (hc : c = (run { target := target } es).1)
    (ha : Answers target es e) : Accounted (es ++ [e]) (c.apply e).1 (fx ++ (c.apply e).2) := by
  have hf : e.kind = .spawned → e.gen ≠ none ∧
      ∀ i, e.identity = some i → c.slots.get i.fd = none := by
    intro hk
    obtain ⟨i, hi, hg, hnone⟩ := ha.carries hk
    refine ⟨by simp [hg], fun j hj => ?_⟩
    cases hi.symm.trans hj
    rw [hc, hnone]
  have ht := apply_tells h.placed hf
  have hnew : ∀ i, e.kind = .spawned ∧ e.identity = some i → ¬ Delivered i es ∧
      i.gen ∈ answered (es ++ [e]) := by
    rintro i ⟨hk, hi⟩
    obtain ⟨j, hj, hg, -⟩ := ha.carries hk
    cases hi.symm.trans hj
    obtain ⟨gen, -, hgen, hnot⟩ := ha.asked (Or.inl hk)
    cases hg.symm.trans hgen
    refine ⟨fun hd => hnot (h.gens i hd), ?_⟩
    simp [answered, hk, hg]
  refine ⟨(apply_reduces c e).placed h.placed, fun i hi => ?_, fun i hi => ?_, fun i hi => ?_,
    fun i hi => ?_⟩
  · exact delivered_append.mpr ((ht.live i hi).imp_left (h.live i))
  · rw [delivered_append, not_or] at hi
    rw [naming_append, h.absent i hi.1, ht.absent i (fun hl => hi.1 (h.live i hl)) hi.2]
    rfl
  · obtain hi | hi := delivered_append.mp hi
    · rw [answered, List.filterMap_append]
      exact List.mem_append_left _ (h.gens i hi)
    · exact (hnew i hi).2
  · -- one that has not been discarded before is kept or discarded now
    have hfate : (∀ x ∈ naming i fx, ¬ Discards x) →
        (Live c i ∨ e.kind = .spawned ∧ e.identity = some i) →
        Retained i (c.apply e).1 (fx ++ (c.apply e).2) ∨
          Discarded i (c.apply e).1 (fx ++ (c.apply e).2) := by
      intro hx hl
      by_cases hlive : Live (c.apply e).1 i
      · refine Or.inl ⟨hlive, ?_⟩
        rw [naming_append]
        exact List.forall_mem_append.mpr ⟨hx, ht.kept i hlive⟩
      · refine Or.inr ⟨hlive, naming i fx, ?_, hx⟩
        rw [naming_append, ht.gone i hl hlive]
    by_cases hd : Delivered i es
    · obtain ⟨hl, hx⟩ | ⟨hl, before, heq, hx⟩ := h.fate i hd
      · exact hfate hx (Or.inl hl)
      · have hb : ¬ (e.kind = .spawned ∧ e.identity = some i) := fun hb => (hnew i hb).1 hd
        refine Or.inr ⟨fun hlive => (ht.live i hlive).elim hl hb, before, ?_, hx⟩
        rw [naming_append, ht.absent i hl hb, List.append_nil, heq]
    · refine hfate ?_ (Or.inr ((delivered_append.mp hi).resolve_left hd))
      rw [h.absent i hd]
      exact fun x hx => by cases hx

lemma run_accounted (h : Answered target es) :
    Accounted es (run { target := target } es).1 (run { target := target } es).2 := by
  induction es using List.reverseRecOn with
  | nil =>
    refine ⟨fun fd s hs => ?_, fun i hi => ?_, fun i _ => rfl, fun i hi => ?_, fun i hi => ?_⟩
    · cases hs
    · obtain ⟨s, hs, -⟩ := hi
      cases hs
    · obtain ⟨e, he, -⟩ := hi
      cases he
    · obtain ⟨e, he, -⟩ := hi
      cases he
  | append_singleton es e ih =>
    obtain ⟨hes, he⟩ := h.append
    rw [run_append]
    exact (ih hes).step rfl he

end History

section Closed

variable {c : ReaperCore}

def Asks (x : ControlEffect) : Prop := x.kind = .spawn ∨ x.kind = .sendRun

lemma dispatch_idle (hq : c.queue = []) : c.dispatch = (c, []) := by
  rw [dispatch]
  cases c.slots.entries with
  | nil => rfl
  | cons entry rest =>
    obtain ⟨fd, slot⟩ := entry
    rw [dispatchLoop]
    split
    · rfl
    · next hjob => cases hq.symm.trans hjob

lemma dispatch_closing (c : ReaperCore) : c.dispatch.1.closing = c.closing := (dispatch_handsOut c).frame.2.1

lemma fill_closed (hc : c.closing = true) : c.fill = (c, []) := by
  rw [fill]
  exact if_pos hc

lemma closed_close (c : ReaperCore) (hs : c.closing = true → c.queue = []) :
    c.close.1.closing = true ∧ c.close.1.queue = [] ∧ ∀ x ∈ c.close.2, ¬ Asks x := by
  rw [close]
  split_ifs with hc
  · exact ⟨hc, hs hc, fun x hx => by cases hx⟩
  · refine ⟨rfl, rfl, fun x hx => ?_⟩
    obtain hx | hx := List.mem_append.mp hx
    · obtain ⟨job, -, rfl⟩ := List.mem_map.mp hx
      simp [Asks, failed]
    · obtain ⟨slot, -, hx⟩ := List.mem_flatMap.mp hx
      obtain hx | hx := List.mem_append.mp hx
      · obtain ⟨job, -, rfl⟩ := List.mem_map.mp hx
        simp [Asks, failed]
      · obtain rfl := List.mem_singleton.mp hx
        simp [Asks]

lemma handle_closed (e : ControlEvent) (hc : c.closing = true) (hq : c.queue = []) :
    (c.handle e).1.closing = true ∧ (c.handle e).1.queue = [] ∧ ∀ x ∈ (c.handle e).2, ¬ Asks x := by
  have hnil : ∀ x ∈ ([] : List ControlEffect), ¬ Asks x := fun x hx => by cases hx
  have hdiscard : ∀ i, ∀ x ∈ discard i, ¬ Asks x := by
    intro i
    simp [Asks, discard]
  rw [handle]
  cases e.kind with
  | start | recover =>
    dsimp only
    rw [fill_closed hc]
    exact ⟨hc, hq, hnil⟩
  | spawned =>
    simp only [spawned]
    split
    · split_ifs
      · exact ⟨hc, hq, hdiscard _⟩
      · exact ⟨hc, hq, hdiscard _⟩
    · exact ⟨hc, hq, hnil⟩
  | spawnFailed =>
    simp only [spawnFailed]
    split <;> exact ⟨hc, hq, hnil⟩
  | ready =>
    simp only [ready]
    split
    · exact ⟨hc, hq, hnil⟩
    · split_ifs <;> exact ⟨hc, hq, hnil⟩
  | submit =>
    simp only [submit]
    split
    · exact ⟨hc, hq, hnil⟩
    · rw [if_pos hc]
      exact ⟨hc, hq, hnil⟩
  | result =>
    simp only [result]
    split
    · exact ⟨hc, hq, hnil⟩
    · split_ifs
      · exact ⟨hc, hq, hnil⟩
      · exact ⟨hc, hq, hnil⟩
      · exact ⟨hc, hq, by simp [Asks]⟩
      · exact ⟨hc, hq, by simp [Asks]⟩
  | eof | sendFailed =>
    simp only [lost]
    split
    · exact ⟨hc, hq, hnil⟩
    · refine ⟨hc, hq, List.forall_mem_append.mpr ⟨hdiscard _, ?_⟩⟩
      simp [Asks, failed]
  | close => exact closed_close c fun _ => hq
  | deadline =>
    simp only [deadline]
    rw [if_pos hc]
    exact ⟨hc, hq, by simp [Asks]⟩

lemma apply_closed (e : ControlEvent) (hs : c.closing = true → c.queue = [])
    (hc : c.closing = true ∨ e.kind = .close) :
    (c.apply e).1.closing = true ∧ (c.apply e).1.queue = [] ∧ ∀ x ∈ (c.apply e).2, ¬ Asks x := by
  have hh : (c.handle e).1.closing = true ∧ (c.handle e).1.queue = [] ∧
      ∀ x ∈ (c.handle e).2, ¬ Asks x := by
    obtain hc | hk := hc
    · exact handle_closed e hc (hs hc)
    · rw [handle, hk]
      exact closed_close c hs
  rw [apply, dispatch_idle hh.2.1]
  simpa using hh

lemma run_closed (es : List ControlEvent) (hc : c.closing = true) (hq : c.queue = []) :
    ∀ x ∈ (c.run es).2, ¬ Asks x := by
  induction es generalizing c with
  | nil => exact fun x hx => by cases hx
  | cons e es ih =>
    obtain ⟨hc', hq', hx⟩ := apply_closed e (fun _ => hq) (Or.inl hc)
    exact List.forall_mem_append.mpr ⟨hx, ih hc' hq'⟩

lemma run_shut (es : List ControlEvent) (hs : c.closing = true → c.queue = []) :
    (c.run es).1.closing = true → (c.run es).1.queue = [] := by
  induction es generalizing c with
  | nil => exact hs
  | cons e es ih =>
    refine ih fun hc => ?_
    by_cases hbefore : c.closing = true ∨ e.kind = .close
    · exact (apply_closed e hs hbefore).2.1
    · rw [not_or] at hbefore
      have hkept : (c.apply e).1.closing = c.closing := by
        rw [apply, dispatch_closing, handle_closing c e hbefore.2]
      exact absurd (hkept.symm.trans hc) hbefore.1

end Closed

def StaysClosed (target : ℕ) (es : List ControlEvent) : Prop :=
  ∀ before e after, es = before ++ e :: after → e.kind = .close →
    ∀ x ∈ (run (run { target := target } before).1 (e :: after)).2, ¬ Asks x

theorem discarded_once (target : ℕ) (es : List ControlEvent) (h : Answered target es) :
    (∀ i, Delivered i es →
      Retained i (run { target := target } es).1 (run { target := target } es).2 ∨
        Discarded i (run { target := target } es).1 (run { target := target } es).2) ∧
      StaysClosed target es := by
  refine ⟨(run_accounted h).fate, fun before e after _ hk => ?_⟩
  have hs := run_shut before (c := { target := target }) fun _ => rfl
  obtain ⟨hc, hq, hx⟩ := apply_closed e hs (Or.inr hk)
  exact List.forall_mem_append.mpr ⟨hx, run_closed after hc hq⟩

instance (target : ℕ) (es : List ControlEvent) (e : ControlEvent) : Decidable (Answers target es e) :=
  decidable_of_iff ((e.kind = .submit → e.job ≠ some "") ∧
      (e.kind = .spawned ∨ e.kind = .spawnFailed →
        ∃ gen ∈ spawnGens (run { target := target } es).2, e.gen = some gen ∧ gen ∉ answered es) ∧
      (e.kind = .spawned → ∃ i ∈ e.identity, e.gen = some i.gen ∧
        (run { target := target } es).1.slots.get i.fd = none))
    ⟨fun h => ⟨h.1, h.2.1, h.2.2⟩, fun h => ⟨h.named, h.asked, h.carries⟩⟩

instance (target : ℕ) (es : List ControlEvent) : Decidable (Answered target es) :=
  inferInstanceAs (Decidable (∀ n (h : n < es.length), Answers target (es.take n) es[n]))

def lateAnswer : List ControlEvent :=
  [{ kind := .start }, { kind := .spawned, gen := some 1, identity := some ⟨7, 1⟩ },
    { kind := .sendFailed, identity := some ⟨7, 1⟩ }, { kind := .eof, identity := some ⟨7, 1⟩ },
    { kind := .recover }, { kind := .spawned, gen := some 3, identity := some ⟨7, 3⟩ },
    { kind := .close }, { kind := .spawned, gen := some 2, identity := some ⟨8, 2⟩ }]

theorem discarded_once_lateAnswer : (∀ i, Delivered i lateAnswer →
    Retained i (run { target := 2 } lateAnswer).1 (run { target := 2 } lateAnswer).2 ∨
      Discarded i (run { target := 2 } lateAnswer).1 (run { target := 2 } lateAnswer).2) ∧
    StaysClosed 2 lateAnswer :=
  discarded_once 2 lateAnswer (by decide)

end Reaper.Pool.ReaperCore
