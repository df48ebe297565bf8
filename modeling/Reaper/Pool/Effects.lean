import Reaper.Pool.Conservation

/-! What the effects of one event can be, and which slots the core has after it. -/

namespace Reaper.Pool.ReaperCore

open Reaper.Library

def Live (c : ReaperCore) (i : SkeletonID) : Prop := ∃ s, c.slots.get i.fd = some s ∧ s.identity = i

def Placed (c : ReaperCore) : Prop := ∀ fd s, c.slots.get fd = some s → s.identity.fd = fd

def spawnedBy (x : ControlEffect) : Option ℤ := if x.kind = .spawn then x.gen else none

def spawnGens (fx : List ControlEffect) : List ℤ := fx.filterMap spawnedBy

def Drops (i : SkeletonID) (fx : List ControlEffect) : Prop :=
  ∃ x ∈ fx, x.kind = .drop ∧ x.identity = some i

def Reaps (i : SkeletonID) (fx : List ControlEffect) : Prop :=
  ∃ x ∈ fx, x.kind = .reap ∧ x.identity = some i

def Paired : List ControlEffect → Prop
  | [] => True
  | x :: xs => (∀ i, x.kind = .drop → x.identity = some i → Reaps i xs) ∧ Paired xs

def Brief (fx : List ControlEffect) : Prop :=
  ∀ x ∈ fx, x.kind ≠ .spawn ∧ x.kind ≠ .drop ∧ x.kind ≠ .reap

def Loses (e : ControlEvent) : Prop := e.kind = .eof ∨ e.kind = .sendFailed

def Quick (e : ControlEvent) : Prop :=
  e.kind = .ready ∨ e.kind = .submit ∨ e.kind = .result ∨ e.kind = .close ∨ e.kind = .deadline

structure Reduces (c : ReaperCore) (e : ControlEvent) (c' : ReaperCore) (fx : List ControlEffect) :
    Prop where
  slots : ∀ fd s', c'.slots.get fd = some s' →
    (∃ s, c.slots.get fd = some s ∧ s.identity = s'.identity) ∨
      (e.kind = .spawned ∧ e.identity = some s'.identity ∧ fd = s'.identity.fd)
  drops : ∀ i, Drops i fx → (Loses e ∧ Live c i ∧ ¬ Live c' i) ∨
    (e.kind = .spawned ∧ e.identity = some i ∧ (Live c' i → Live c i))
  gens : c.nextGen ≤ c'.nextGen ∧ (spawnGens fx).Nodup ∧
    ∀ g ∈ spawnGens fx, c.nextGen < g ∧ g ≤ c'.nextGen
  brief : Quick e → Brief fx

structure Releases (c : ReaperCore) (e : ControlEvent) (c' : ReaperCore) (fx : List ControlEffect) :
    Prop where
  paired : Paired fx
  reaps : ∀ i, Reaps i fx → Drops i fx
  kept : ∀ i, Live c i → Live c' i ∨ Loses e ∧ Drops i fx
  born : e.kind = .spawned → e.gen ≠ none → ∀ i, e.identity = some i → Live c' i ∨ Drops i fx

lemma Brief.append {xs ys : List ControlEffect} (hx : Brief xs) (hy : Brief ys) : Brief (xs ++ ys) :=
  fun x hm => (List.mem_append.mp hm).elim (hx x) (hy x)

lemma Brief.no_drops {fx : List ControlEffect} (h : Brief fx) (i : SkeletonID) : ¬ Drops i fx :=
  fun ⟨x, hx, hk, _⟩ => (h x hx).2.1 hk

lemma Brief.no_reaps {fx : List ControlEffect} (h : Brief fx) (i : SkeletonID) : ¬ Reaps i fx :=
  fun ⟨x, hx, hk, _⟩ => (h x hx).2.2 hk

lemma Brief.spawnGens {fx : List ControlEffect} (h : Brief fx) : spawnGens fx = [] := by
  apply List.filterMap_eq_nil_iff.mpr
  intro x hx
  simp [spawnedBy, (h x hx).1]

lemma drops_append {i : SkeletonID} {xs ys : List ControlEffect} :
    Drops i (xs ++ ys) ↔ Drops i xs ∨ Drops i ys := by
  simp only [Drops, List.mem_append, or_and_right, exists_or]

lemma reaps_append {i : SkeletonID} {xs ys : List ControlEffect} :
    Reaps i (xs ++ ys) ↔ Reaps i xs ∨ Reaps i ys := by
  simp only [Reaps, List.mem_append, or_and_right, exists_or]

lemma Paired.append {xs ys : List ControlEffect} (hx : Paired xs) (hy : Paired ys) :
    Paired (xs ++ ys) := by
  induction xs with
  | nil => exact hy
  | cons x xs ih => exact ⟨fun i hk hi => reaps_append.mpr (Or.inl (hx.1 i hk hi)), ih hx.2⟩

lemma Paired.of_no_drops {xs : List ControlEffect} (h : ∀ i, ¬ Drops i xs) : Paired xs := by
  induction xs with
  | nil => trivial
  | cons x xs ih =>
    refine ⟨fun i hk hi => absurd ⟨x, List.mem_cons_self, hk, hi⟩ (h i), ih fun i hd => h i ?_⟩
    obtain ⟨y, hy, hd⟩ := hd
    exact ⟨y, List.mem_cons_of_mem _ hy, hd⟩

lemma Paired.reaps {xs : List ControlEffect} {i : SkeletonID} (h : Paired xs) (hd : Drops i xs) :
    Reaps i xs := by
  induction xs with
  | nil =>
    obtain ⟨_, hx, -⟩ := hd
    cases hx
  | cons x xs ih =>
    have hmem : Reaps i xs → Reaps i (x :: xs) := fun ⟨y, hy, hr⟩ => ⟨y, List.mem_cons_of_mem _ hy, hr⟩
    obtain ⟨y, hy, hk, hi⟩ := hd
    rcases List.mem_cons.mp hy with rfl | hy
    · exact hmem (h.1 i hk hi)
    · exact hmem (ih h.2 ⟨y, hy, hk, hi⟩)

lemma spawnGens_append (xs ys : List ControlEffect) :
    spawnGens (xs ++ ys) = spawnGens xs ++ spawnGens ys := List.filterMap_append

lemma brief_failed (reason : FailureReason) (jobs : List String) : Brief (jobs.map (failed reason)) := by
  intro x hx
  obtain ⟨job, -, rfl⟩ := List.mem_map.mp hx
  simp [failed]

lemma Reduces.of_brief {c c' : ReaperCore} {e : ControlEvent} {fx : List ControlEffect}
    (hs : ∀ fd s', c'.slots.get fd = some s' → ∃ s, c.slots.get fd = some s ∧ s.identity = s'.identity)
    (hg : c'.nextGen = c.nextGen) (hb : Brief fx) : Reduces c e c' fx := by
  refine ⟨fun fd s' h => Or.inl (hs fd s' h), fun i h => (hb.no_drops i h).elim, ?_, fun _ => hb⟩
  rw [hb.spawnGens, hg]
  exact ⟨le_rfl, List.nodup_nil, by simp⟩

lemma Reduces.refl (c : ReaperCore) (e : ControlEvent) : Reduces c e c [] :=
  .of_brief (fun _ s h => ⟨s, h, rfl⟩) rfl (fun x hx => by cases hx)

lemma drops_discard {i j : SkeletonID} : Drops j (discard i) ↔ j = i := by
  simp [Drops, discard, eq_comm]

lemma reaps_discard {i j : SkeletonID} : Reaps j (discard i) ↔ j = i := by
  simp [Reaps, discard, eq_comm]

lemma paired_discard (i : SkeletonID) : Paired (discard i) := by
  simp [Paired, discard, Reaps]

lemma spawnGens_discard (i : SkeletonID) : spawnGens (discard i) = [] := rfl

lemma fillLoop_gens (n : ℕ) (c : ReaperCore) :
    c.nextGen ≤ (fillLoop n c).1.nextGen ∧ (spawnGens (fillLoop n c).2).Nodup ∧
      (∀ g ∈ spawnGens (fillLoop n c).2, c.nextGen < g ∧ g ≤ (fillLoop n c).1.nextGen) ∧
      (∀ x ∈ (fillLoop n c).2, x.kind = .spawn) := by
  induction n generalizing c with
  | zero => exact ⟨le_rfl, List.nodup_nil, by simp [fillLoop, spawnGens], by simp [fillLoop]⟩
  | succ n ih =>
    obtain ⟨hle, hn, hg, hk⟩ := ih { c with
      nextGen := c.nextGen + 1, pendingSpawns := insert (c.nextGen + 1) c.pendingSpawns }
    simp only [fillLoop]
    refine ⟨by dsimp only at hle; omega, ?_, ?_, ?_⟩
    · simp only [spawnGens, spawnedBy, List.filterMap_cons, if_true]
      exact List.nodup_cons.mpr ⟨fun hm => by have := (hg _ hm).1; dsimp only at this; omega, hn⟩
    · intro g hm
      simp only [spawnGens, spawnedBy, List.filterMap_cons, if_true, List.mem_cons] at hm
      rcases hm with rfl | hm
      · exact ⟨by omega, hle⟩
      · have := hg g hm
        exact ⟨by dsimp only at this; omega, this.2⟩
    · intro x hx
      rcases List.mem_cons.mp hx with rfl | hx
      · rfl
      · exact hk x hx

lemma fill_gens (c : ReaperCore) :
    c.nextGen ≤ c.fill.1.nextGen ∧ (spawnGens c.fill.2).Nodup ∧
      (∀ g ∈ spawnGens c.fill.2, c.nextGen < g ∧ g ≤ c.fill.1.nextGen) ∧
      (∀ x ∈ c.fill.2, x.kind = .spawn) := by
  unfold fill
  dsimp only
  split
  · exact ⟨le_rfl, List.nodup_nil, by simp [spawnGens], by simp⟩
  · exact fillLoop_gens _ c

lemma no_drops_fill (c : ReaperCore) (i : SkeletonID) : ¬ Drops i c.fill.2 := by
  rintro ⟨x, hx, hk, -⟩
  rw [(fill_gens c).2.2.2 x hx] at hk
  cases hk

lemma dispatch_slots (c : ReaperCore) :
    (∀ fd s', c.dispatch.1.slots.get fd = some s' →
      ∃ s, c.slots.get fd = some s ∧ s.identity = s'.identity) ∧
    c.dispatch.1.nextGen = c.nextGen ∧ Brief c.dispatch.2 := by
  have h := dispatch_handsOut c
  obtain ⟨-, -, -, hgen, -⟩ := h.frame
  refine ⟨h.slots, hgen, fun x hx => ?_⟩
  rw [(h.sends x hx).1]
  simp

lemma fill_reduces (c : ReaperCore) (e : ControlEvent) (hq : ¬ Quick e) : Reduces c e c.fill.1 c.fill.2 := by
  obtain ⟨hle, hn, hg, -⟩ := fill_gens c
  refine ⟨fun fd s' h => Or.inl ⟨s', ?_, rfl⟩, fun i h => (no_drops_fill c i h).elim, ⟨hle, hn, hg⟩,
    fun h => absurd h hq⟩
  rwa [(fill_spec c).2.1] at h

lemma spawned_reduces (c : ReaperCore) (e : ControlEvent) (hk : e.kind = .spawned) :
    Reduces c e (c.spawned e).1 (c.spawned e).2 := by
  have hq : ¬ Quick e := by simp [Quick, hk]
  rw [spawned]
  split
  · rename_i gen i _ hi
    have hd : ∀ j, Drops j (discard i) → (Loses e ∧ Live c j ∧ ¬ Live c j) ∨
        (e.kind = .spawned ∧ e.identity = some j ∧ (Live c j → Live c j)) :=
      fun j hj => Or.inr ⟨hk, by rw [drops_discard.mp hj, hi], id⟩
    dsimp only
    split_ifs with _ hopen
    · exact ⟨fun _ s h => Or.inl ⟨s, h, rfl⟩, hd, ⟨le_rfl, List.nodup_nil, by simp [spawnGens_discard]⟩,
        fun h => absurd h hq⟩
    · let d : ReaperCore := { c with
        pendingSpawns := c.pendingSpawns.erase gen
        slots := c.slots.set i.fd { identity := i, state := .starting } }
      change Reduces c e d.fill.1 d.fill.2
      obtain ⟨hs, hdr, hg, hb⟩ := fill_reduces d e hq
      refine ⟨fun fd s' h => ?_, fun j hj => (no_drops_fill d j hj).elim, hg, hb⟩
      obtain ⟨s, hs, he⟩ | ⟨_, _, _⟩ := hs fd s' h
      · rw [Dict.get_set] at hs
        split_ifs at hs with hfd
        · rw [← Option.some.inj hs] at he
          exact Or.inr ⟨hk, by rw [hi, ← he], by rw [hfd, ← he]⟩
        · exact Or.inl ⟨s, hs, he⟩
      · exact Or.inr ⟨‹_›, ‹_›, ‹_›⟩
    · exact ⟨fun _ s h => Or.inl ⟨s, h, rfl⟩, hd, ⟨le_rfl, List.nodup_nil, by simp [spawnGens_discard]⟩,
        fun h => absurd h hq⟩
  · exact .refl c e

lemma lost_reduces (c : ReaperCore) (e : ControlEvent) (hk : Loses e) :
    Reduces c e (c.lost e).1 (c.lost e).2 := by
  rw [lost]
  split
  · exact .refl c e
  · rename_i slot hslot
    have hg := find_spec hslot
    refine ⟨fun fd s' h => ?_, fun i hi => ?_, ?_, fun hq => ?_⟩
    · rw [Dict.get_erase] at h
      split_ifs at h
      exact Or.inl ⟨s', h, rfl⟩
    · rw [drops_append, drops_discard] at hi
      rcases hi with rfl | hi
      · refine Or.inl ⟨hk, ⟨slot, hg, rfl⟩, ?_⟩
        rintro ⟨s, hs, -⟩
        simp at hs
      · exact ((brief_failed _ _).no_drops i hi).elim
    · rw [spawnGens_append, spawnGens_discard, (brief_failed _ _).spawnGens]
      exact ⟨le_rfl, List.nodup_nil, by simp⟩
    · rcases hk with hk | hk <;> simp [Quick, hk] at hq

lemma handle_reduces (c : ReaperCore) (e : ControlEvent) :
    Reduces c e (c.handle e).1 (c.handle e).2 := by
  have hset : ∀ {slot new : ControlSlot}, c.slots.get slot.identity.fd = some slot →
      new.identity = slot.identity → ∀ fd s', (c.slots.set slot.identity.fd new).get fd = some s' →
        ∃ s, c.slots.get fd = some s ∧ s.identity = s'.identity := by
    intro slot new hg hi fd s' h
    rw [Dict.get_set] at h
    split_ifs at h with hfd
    · exact ⟨slot, hfd ▸ hg, by rw [← Option.some.inj h, hi]⟩
    · exact ⟨s', h, rfl⟩
  have hnil : Brief [] := fun x hx => by cases hx
  rw [handle]
  cases hk : e.kind with
  | start | recover => exact fill_reduces c e (by simp [Quick, hk])
  | spawned => exact spawned_reduces c e hk
  | spawnFailed =>
    simp only [spawnFailed]
    split
    · exact .of_brief (fun _ s h => ⟨s, h, rfl⟩) rfl hnil
    · exact .refl c e
  | ready =>
    simp only [ready]
    split
    · exact .refl c e
    · rename_i slot hslot
      split_ifs
      · exact .refl c e
      · exact .of_brief (hset (find_spec hslot) rfl) rfl hnil
  | submit =>
    simp only [submit]
    split
    · exact .refl c e
    · split_ifs
      · exact .refl c e
      · exact .refl c e
      · exact .of_brief (fun _ s h => ⟨s, h, rfl⟩) rfl hnil
  | result =>
    simp only [result]
    split
    · exact .refl c e
    · rename_i slot hslot
      split_ifs
      · exact .refl c e
      · exact .refl c e
      · refine .of_brief (hset (find_spec hslot) rfl) rfl ?_
        simp [Brief]
      · refine .of_brief (hset (find_spec hslot) rfl) rfl ?_
        simp [Brief]
  | eof => exact lost_reduces c e (Or.inl hk)
  | sendFailed => exact lost_reduces c e (Or.inr hk)
  | close =>
    simp only [close]
    split_ifs
    · exact .refl c e
    · refine .of_brief (fun fd s' h => ?_) rfl ((brief_failed _ _).append fun x hx => ?_)
      · dsimp only at h
        rw [Dict.get_map, Option.map_eq_some_iff] at h
        obtain ⟨s, hs, rfl⟩ := h
        exact ⟨s, hs, rfl⟩
      · obtain ⟨slot, -, hx⟩ := List.mem_flatMap.mp hx
        rcases List.mem_append.mp hx with hx | hx
        · exact brief_failed _ _ x hx
        · rw [List.mem_singleton.mp hx]
          simp
  | deadline =>
    simp only [deadline]
    split_ifs
    · refine .of_brief (fun _ s h => ⟨s, h, rfl⟩) rfl fun x hx => ?_
      obtain ⟨slot, -, rfl⟩ := List.mem_map.mp hx
      simp
    · exact .refl c e

lemma apply_reduces (c : ReaperCore) (e : ControlEvent) : Reduces c e (c.apply e).1 (c.apply e).2 := by
  obtain ⟨hs, hd, ⟨hle, hn, hg⟩, hb⟩ := handle_reduces c e
  obtain ⟨hs', hg', hb'⟩ := dispatch_slots (c.handle e).1
  refine ⟨fun fd s' h => ?_, fun i hi => ?_, ?_, fun hq => (hb hq).append hb'⟩
  · obtain ⟨s, h, hi⟩ := hs' fd s' h
    rcases hs fd s h with ⟨t, ht, hti⟩ | ⟨hk, he, hfd⟩
    · exact Or.inl ⟨t, ht, hti.trans hi⟩
    · exact Or.inr ⟨hk, hi ▸ he, hi ▸ hfd⟩
  · have hback : Live (c.handle e).1.dispatch.1 i → Live (c.handle e).1 i := by
      rintro ⟨s, hs, hsi⟩
      obtain ⟨t, ht, hti⟩ := hs' _ _ hs
      exact ⟨t, ht, hti.trans hsi⟩
    rcases drops_append.mp hi with hi | hi
    · rcases hd i hi with ⟨hl, hlive, hno⟩ | ⟨hk, he, h⟩
      · exact Or.inl ⟨hl, hlive, fun hh => hno (hback hh)⟩
      · exact Or.inr ⟨hk, he, fun hh => h (hback hh)⟩
    · exact (hb'.no_drops i hi).elim
  · change _ ≤ (c.handle e).1.dispatch.1.nextGen ∧ (spawnGens ((c.handle e).2 ++ _)).Nodup ∧
      ∀ g ∈ spawnGens ((c.handle e).2 ++ _), _ < g ∧ g ≤ (c.handle e).1.dispatch.1.nextGen
    rw [spawnGens_append, hb'.spawnGens, List.append_nil, hg']
    exact ⟨hle, hn, hg⟩

lemma handle_closing (c : ReaperCore) (e : ControlEvent) (hk : e.kind ≠ .close) :
    (c.handle e).1.closing = c.closing := by
  rw [handle]
  cases h : e.kind with
  | start | recover => exact (fill_spec c).2.2.1
  | spawned =>
    simp only [spawned]
    split
    · split_ifs
      · rfl
      · exact (fill_spec _).2.2.1
      · rfl
    · rfl
  | spawnFailed =>
    simp only [spawnFailed]
    split <;> rfl
  | ready =>
    simp only [ready]
    split
    · rfl
    · split_ifs <;> rfl
  | submit =>
    simp only [submit]
    split
    · rfl
    · split_ifs <;> rfl
  | result =>
    simp only [result]
    split
    · rfl
    · split_ifs <;> rfl
  | eof | sendFailed =>
    simp only [lost]
    split <;> rfl
  | close => exact absurd h hk
  | deadline =>
    simp only [deadline]
    split_ifs <;> rfl

lemma live_set {c : ReaperCore} {slot new : ControlSlot} {i : SkeletonID}
    (hg : c.slots.get slot.identity.fd = some slot) (hn : new.identity = slot.identity)
    (hi : Live c i) : Live { c with slots := c.slots.set slot.identity.fd new } i := by
  obtain ⟨s, hs, rfl⟩ := hi
  by_cases hfd : s.identity.fd = slot.identity.fd
  · rw [hfd, hg] at hs
    cases hs
    exact ⟨new, Dict.get_set_self _ _ _, hn⟩
  · exact ⟨s, (Dict.get_set_ne _ _ hfd).trans hs, rfl⟩

lemma HandsOut.live {c c' : ReaperCore} {fx : List ControlEffect} (h : HandsOut c c' fx) {i : SkeletonID}
    (hi : Live c i) : Live c' i := by
  induction h with
  | done c => exact hi
  | @take c c' fd slot _ _ _ get _ _ _ ih =>
    refine ih ?_
    obtain ⟨s, hs, rfl⟩ := hi
    by_cases hfd : s.identity.fd = fd
    · subst hfd
      cases get.symm.trans hs
      exact ⟨_, Dict.get_set_self _ _ _, rfl⟩
    · exact ⟨s, (Dict.get_set_ne _ _ hfd).trans hs, rfl⟩

lemma dispatch_live {c : ReaperCore} {i : SkeletonID} (hi : Live c i) : Live c.dispatch.1 i :=
  (dispatch_handsOut c).live hi

lemma no_reaps_fill (c : ReaperCore) (i : SkeletonID) : ¬ Reaps i c.fill.2 := by
  rintro ⟨x, hx, hk, -⟩
  rw [(fill_gens c).2.2.2 x hx] at hk
  cases hk

lemma live_fill {c : ReaperCore} {i : SkeletonID} : Live c.fill.1 i ↔ Live c i := by
  rw [Live, Live, (fill_spec c).2.1]

lemma Releases.of_kept {c c' : ReaperCore} {e : ControlEvent} {fx : List ControlEffect}
    (hl : ∀ i, Live c i → Live c' i) (hr : ∀ i, ¬ Reaps i fx) (hd : ∀ i, ¬ Drops i fx)
    (hk : e.kind ≠ .spawned) : Releases c e c' fx :=
  ⟨.of_no_drops hd, fun i hi => absurd hi (hr i), fun i hi => Or.inl (hl i hi), fun h => absurd h hk⟩

lemma lost_releases (c : ReaperCore) (e : ControlEvent) (hk : Loses e) :
    Releases c e (c.lost e).1 (c.lost e).2 := by
  have hne : e.kind ≠ .spawned := by rcases hk with hk | hk <;> simp [hk]
  rw [lost]
  split
  · exact .of_kept (fun _ hi => hi) (by simp [Reaps]) (by simp [Drops]) hne
  · rename_i slot hslot
    have hget := find_spec hslot
    have hb := brief_failed .workerDied slot.held.toList
    refine ⟨(paired_discard _).append (.of_no_drops hb.no_drops), fun i hi => ?_, fun i hi => ?_,
      fun h => absurd h hne⟩
    · rw [reaps_append, reaps_discard] at hi
      exact drops_append.mpr (Or.inl (drops_discard.mpr (hi.resolve_right (hb.no_reaps i))))
    · obtain ⟨s, hs, rfl⟩ := hi
      by_cases hfd : s.identity.fd = slot.identity.fd
      · rw [hfd, hget] at hs
        cases hs
        exact Or.inr ⟨hk, drops_append.mpr (Or.inl (drops_discard.mpr rfl))⟩
      · exact Or.inl ⟨s, (Dict.get_erase_ne _ hfd).trans hs, rfl⟩

lemma spawned_releases (c : ReaperCore) (e : ControlEvent)
    (hf : ∀ i, e.identity = some i → c.closing = false → c.slots.get i.fd = none) :
    Releases c e (c.spawned e).1 (c.spawned e).2 := by
  have hdiscard : ∀ (c' : ReaperCore) {i : SkeletonID}, e.identity = some i → c'.slots = c.slots →
      Releases c e c' (discard i) := by
    intro c' i hi hs
    refine ⟨paired_discard i, fun j hj => drops_discard.mpr (reaps_discard.mp hj),
      fun j hj => Or.inl ?_, fun _ _ j hj => Or.inr ?_⟩
    · rwa [Live, hs]
    · rw [hi] at hj
      exact drops_discard.mpr (Option.some.inj hj).symm
  rw [spawned]
  split
  · rename_i gen i _ hi
    dsimp only
    split_ifs with _ hopen
    · exact hdiscard _ hi rfl
    · refine ⟨.of_no_drops (no_drops_fill _), fun j hj => absurd hj (no_reaps_fill _ j),
        fun j hj => Or.inl ?_, fun _ _ j hj => Or.inl ?_⟩
      · obtain ⟨s, hs, rfl⟩ := hj
        refine live_fill.mpr ⟨s, (Dict.get_set_ne _ _ fun hfd => ?_).trans hs, rfl⟩
        rw [hfd, hf i hi (Bool.eq_false_iff.mpr hopen)] at hs
        cases hs
      · rw [hi] at hj
        cases hj
        exact live_fill.mpr ⟨_, Dict.get_set_self _ _ _, rfl⟩
    · exact hdiscard _ hi rfl
  · rename_i hnone
    refine ⟨trivial, by simp [Reaps], fun j hj => Or.inl hj, fun _ hg j hj => ?_⟩
    obtain ⟨g, hg⟩ := Option.ne_none_iff_exists'.mp hg
    exact absurd hj (hnone g j hg)

lemma handle_releases (c : ReaperCore) (e : ControlEvent)
    (hf : e.kind = .spawned → ∀ i, e.identity = some i → c.closing = false → c.slots.get i.fd = none) :
    Releases c e (c.handle e).1 (c.handle e).2 := by
  have hbrief : ∀ {c' : ReaperCore} {fx : List ControlEffect}, e.kind ≠ .spawned → Brief fx →
      (∀ i, Live c i → Live c' i) → Releases c e c' fx :=
    fun hk hb hl => .of_kept hl hb.no_reaps hb.no_drops hk
  have hq := (handle_reduces c e).brief
  rw [handle] at hq ⊢
  cases hk : e.kind with
  | start | recover =>
    exact .of_kept (fun _ hi => live_fill.mpr hi) (no_reaps_fill c) (no_drops_fill c) (by simp [hk])
  | spawned => exact spawned_releases c e (hf hk)
  | eof => exact lost_releases c e (Or.inl hk)
  | sendFailed => exact lost_releases c e (Or.inr hk)
  | spawnFailed =>
    refine hbrief (by simp [hk]) ?_ ?_ <;> simp only [spawnFailed] <;> split
    · exact fun x hx => by cases hx
    · exact fun x hx => by cases hx
    · exact fun _ hi => hi
    · exact fun _ hi => hi
  | close =>
    rw [hk] at hq
    refine hbrief (by simp [hk]) (hq (by simp [Quick, hk])) fun i hi => ?_
    simp only [close]
    split_ifs
    · exact hi
    · obtain ⟨s, hs, rfl⟩ := hi
      exact ⟨{ s with state := .stopping, job := none }, by rw [Dict.get_map, hs, Option.map_some], rfl⟩
  | deadline =>
    rw [hk] at hq
    refine hbrief (by simp [hk]) (hq (by simp [Quick, hk])) fun i hi => ?_
    simp only [deadline]
    split_ifs <;> exact hi
  | ready =>
    rw [hk] at hq
    refine hbrief (by simp [hk]) (hq (by simp [Quick, hk])) fun i hi => ?_
    simp only [ready]
    split
    · exact hi
    · rename_i slot hslot
      split_ifs
      · exact hi
      · exact live_set (find_spec hslot) rfl hi
  | submit =>
    rw [hk] at hq
    refine hbrief (by simp [hk]) (hq (by simp [Quick, hk])) fun i hi => ?_
    simp only [submit]
    split
    · exact hi
    · split_ifs <;> exact hi
  | result =>
    rw [hk] at hq
    refine hbrief (by simp [hk]) (hq (by simp [Quick, hk])) fun i hi => ?_
    simp only [result]
    split
    · exact hi
    · rename_i slot hslot
      split_ifs
      · exact hi
      · exact hi
      · exact live_set (find_spec hslot) rfl hi
      · exact live_set (find_spec hslot) rfl hi

lemma apply_releases (c : ReaperCore) (e : ControlEvent)
    (hf : e.kind = .spawned → ∀ i, e.identity = some i → c.closing = false → c.slots.get i.fd = none) :
    Releases c e (c.apply e).1 (c.apply e).2 := by
  obtain ⟨hp, hr, hkept, hborn⟩ := handle_releases c e hf
  have hb := (dispatch_slots (c.handle e).1).2.2
  have hdrops : ∀ i, Drops i (c.apply e).2 ↔ Drops i (c.handle e).2 := fun i => by
    rw [apply, drops_append, or_iff_left (hb.no_drops i)]
  refine ⟨hp.append (.of_no_drops hb.no_drops), fun i hi => ?_, fun i hi => ?_, fun hk hg i hi => ?_⟩
  · rw [apply, reaps_append, or_iff_left (hb.no_reaps i)] at hi
    exact (hdrops i).mpr (hr i hi)
  · rw [hdrops]
    exact (hkept i hi).imp_left dispatch_live
  · rw [hdrops]
    exact (hborn hk hg i hi).imp_left dispatch_live

lemma apply_loses (c : ReaperCore) (e : ControlEvent) (hk : Loses e) :
    c.apply e = ((c.lost e).1.dispatch.1, (c.lost e).2 ++ (c.lost e).1.dispatch.2) := by
  have hh : c.handle e = c.lost e := by
    rw [handle]
    rcases hk with hk | hk <;> rw [hk]
  rw [apply]
  rw [hh]

lemma apply_found (c : ReaperCore) (e : ControlEvent) {i : SkeletonID} (hk : Loses e)
    (he : e.identity = some i) {slot : ControlSlot} (hf : c.find e.identity = some slot) :
    ∃ rest, (c.apply e).2 = discard i ++ rest ∧ Brief rest := by
  have hi : slot.identity = i := by
    rw [he] at hf
    simpa using (Option.filter_eq_some_iff.mp hf).2
  refine ⟨slot.held.toList.map (failed .workerDied) ++ (c.lost e).1.dispatch.2, ?_,
    (brief_failed _ _).append (dispatch_slots (c.lost e).1).2.2⟩
  rw [apply_loses c e hk, ← List.append_assoc]
  conv_lhs => rw [show (c.lost e).2 = discard i ++ slot.held.toList.map (failed .workerDied) by
    simp only [lost, hf, hi]]

lemma apply_lost (c : ReaperCore) (e : ControlEvent) {i : SkeletonID} (hk : Loses e)
    (he : e.identity = some i) :
    (∃ rest, (c.apply e).2 = discard i ++ rest ∧ Brief rest) ∨ Brief (c.apply e).2 := by
  cases hf : c.find e.identity with
  | none =>
    refine Or.inr ?_
    rw [apply_loses c e hk]
    refine Brief.append (fun x hx => ?_) (dispatch_slots (c.lost e).1).2.2
    simp [lost, hf] at hx
  | some slot => exact Or.inl (apply_found c e hk he hf)

end Reaper.Pool.ReaperCore
