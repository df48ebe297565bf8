import Reaper.Pool.Hanging

/-! The processes of a pool over its teardown: each child that was spawned is the core's, or is to be
reaped, or has been waited for. The teardown may end while another task still has a child to reap, or
cancel the reader that waits for one. -/

namespace Reaper.Pool.SkeletonPool

open Reaper.Library ReaperCore

def spawnedAt (p : SkeletonPool) : Action → Option SkeletonID
  | .resume k (some fd) => do
    let d ← p.drives[k]?
    let gen ← d.pending.head?.bind spawnedBy
    return ⟨fd, gen⟩
  | _ => none

def reapedAt (p : SkeletonPool) : Action → Option SkeletonID
  | .resume k none => do
    let d ← p.drives[k]?
    let x ← d.pending.head?
    if x.kind = .reap then x.identity else none
  | _ => none

def gathered (f : SkeletonPool → Action → Option SkeletonID) :
    SkeletonPool → List Action → List SkeletonID
  | _, [] => []
  | p, a :: as => (f p a).toList ++ (p.step a).elim [] fun q => gathered f q as

/-- The teardown cancels no reader that waits for its child, and ends when no other task has effects
left. -/
def waitsForAll (p : SkeletonPool) (a : Action) : Bool :=
  match a, p.closeTask with
  | .closeNext, some (.readers waitSet) =>
    p.drives.all fun d => waitSet.all fun i => d.owner ≠ .reader i
  | .closeNext, some (.slots []) => p.drives.isEmpty
  | _, _ => true

def along (f : SkeletonPool → Action → Bool) : SkeletonPool → List Action → Bool
  | _, [] => true
  | p, a :: as => f p a && (p.step a).all fun q => along f q as

structure Counted (spawned reaped : List SkeletonID) (p : SkeletonPool) (xs : List ControlEffect) :
    Prop where
  owned : ∀ i ∈ spawned, i ∈ reaped ∨ Live p.core i ∨ Reaps i (p.inPlay xs)
  kept : ∀ i, Reaps i (p.inPlay xs) →
    p.ids i.fd = some i ∨ (p.retiredSlots.get i).isSome = true ∨ i ∈ reaped
  retired : ∀ i, (p.retiredSlots.get i).isSome = true → Reaps i (p.inPlay xs)
  held : ∀ i, Live p.core i → p.ids i.fd = some i
  paired : Paired xs ∧ ∀ d ∈ p.drives, Paired d.pending
  left : ∀ left, p.closeTask = some (.slots left) → ∀ i, Live p.core i → i ∈ left
  unfinished : p.closeTask ≠ some .finished

structure Ended (spawned reaped : List SkeletonID) (p : SkeletonPool) : Prop where
  finished : p.closeTask = some .finished
  waited : ∀ i ∈ spawned, i ∈ reaped
  drives : p.drives = []
  slots : ∀ fd, p.ids fd = none
  retired : ∀ i, p.retiredSlots.get i = none
  core : p.core.closing = true ∧ ∀ fd, p.core.slots.get fd = none

section Counted

variable {spawned reaped : List SkeletonID} {p q : SkeletonPool} {x : ControlEffect}
  {xs ys : List ControlEffect} {owner : Owner} {after : After} {e : ControlEvent}

lemma Counted.regroup (h : Counted spawned reaped p xs) (hc : q.core = p.core) (hi : q.ids = p.ids)
    (hr : q.retiredSlots = p.retiredSlots) (ht : q.closeTask = p.closeTask)
    (hp : ∀ i, Reaps i (q.inPlay ys) ↔ Reaps i (p.inPlay xs))
    (hpair : Paired ys ∧ ∀ d ∈ q.drives, Paired d.pending) : Counted spawned reaped q ys := by
  refine ⟨fun i hm => ?_, fun i hm => ?_, fun i hm => ?_, fun i hl => ?_, hpair, fun l hl i hi => ?_,
    ht ▸ h.unfinished⟩
  · rw [hc, hp]
    exact h.owned i hm
  · rw [hi, hr]
    exact h.kept i ((hp i).mp hm)
  · exact (hp i).mpr (h.retired i (hr ▸ hm))
  · rw [hi]
    exact h.held i (hc ▸ hl)
  · exact h.left l (ht ▸ hl) i (hc ▸ hi)

lemma Counted.frame (h : Counted spawned reaped p xs) (hc : q.core = p.core) (hd : q.drives = p.drives)
    (hi : q.ids = p.ids) (hr : q.retiredSlots = p.retiredSlots) (ht : q.closeTask = p.closeTask) :
    Counted spawned reaped q xs := by
  refine h.regroup hc hi hr ht (fun i => ?_) ⟨h.paired.1, ?_⟩
  · rw [inPlay, inPlay, hd]
  · rw [hd]
    exact h.paired.2

lemma Counted.sync (h : Counted spawned reaped p xs) : Counted spawned reaped p.syncSlots xs :=
  h.frame rfl rfl (ids_syncSlots p) rfl rfl

lemma reaps_cons (i : SkeletonID) :
    Reaps i (x :: xs) ↔ x.kind = .reap ∧ x.identity = some i ∨ Reaps i xs := by
  simp only [Reaps, List.mem_cons, or_and_right, exists_or, exists_eq_left]

lemma reaps_inPlay (i : SkeletonID) : Reaps i (p.inPlay (x :: xs)) ↔
    x.kind = .reap ∧ x.identity = some i ∨ Reaps i (p.inPlay xs) := by
  rw [inPlay, inPlay, List.cons_append, reaps_cons]

lemma Counted.tail (h : Counted spawned reaped p (x :: xs)) (hk : x.kind ≠ .reap) :
    Counted spawned reaped p xs := by
  refine h.regroup rfl rfl rfl rfl (fun i => ?_) ⟨h.paired.1.2, h.paired.2⟩
  rw [reaps_inPlay]
  exact (or_iff_right fun hx => hk hx.1).symm

lemma Counted.park (h : Counted spawned reaped p xs) (owner : Owner) (after : After) :
    Counted spawned reaped (p.park owner after xs) [] := by
  have hperm := park_inPlay p owner after xs
  refine h.regroup rfl rfl rfl rfl (fun i => ?_) ⟨trivial, fun d hd => ?_⟩
  · exact exists_congr fun x => and_congr_left' hperm.mem_iff
  · rcases List.mem_append.mp hd with hd | hd
    · exact h.paired.2 d hd
    · rw [List.mem_singleton.mp hd]
      exact h.paired.1

lemma Counted.drop {slot : Slot} (h : Counted spawned reaped p (x :: xs)) (hinv : Inv True p (x :: xs))
    (hk : x.kind = .drop) (hx : x.identity = some slot.identity) :
    Counted spawned reaped (p.drop slot) xs := by
  have hdrops : Drops slot.identity (x :: xs) := ⟨x, List.mem_cons_self, hk, hx⟩
  have hnot := hinv.sound.dropped slot.identity (drops_append.mpr (Or.inl hdrops))
  have ht := h.tail (by simp [hk])
  refine ⟨ht.owned, fun i hr => ?_, fun i hr => ?_, fun i hl => ?_, ht.paired, ht.left, ht.unfinished⟩
  · rw [← or_assoc]
    exact ((or_assoc.mpr (ht.kept i hr)).imp_left (drop_keeps p slot i))
  · rcases (retired_drop p slot i).mp hr with rfl | hr
    · exact reaps_append.mpr (Or.inl (h.paired.1.1 _ hk hx))
    · exact ht.retired i hr
  · refine drop_ids_ne p slot (fun hi => hnot (hi ▸ hl)) (ht.held i hl)

lemma slotFor_isNone {i : SkeletonID} (h : p.slotFor (some i) = none) :
    p.ids i.fd ≠ some i ∧ ¬ (p.retiredSlots.get i).isSome = true := by
  rw [slotFor] at h
  split at h
  · cases h
  · rename_i hf
    refine ⟨fun hid => ?_, by simp [h]⟩
    obtain ⟨slot, hslot, hi⟩ := Option.map_eq_some_iff.mp hid
    simp [hslot, hi, Option.filter] at hf

lemma Counted.skip (h : Counted spawned reaped p (x :: xs))
    (hnone : p.slotFor x.identity = none) : Counted spawned reaped p xs := by
  refine ⟨fun i hm => ?_, fun i hr => h.kept i ((reaps_inPlay i).mpr (Or.inr hr)), fun i hr => ?_, h.held,
    ⟨h.paired.1.2, h.paired.2⟩, h.left, h.unfinished⟩
  · rcases h.owned i hm with hr | hl | hr
    · exact Or.inl hr
    · exact Or.inr (Or.inl hl)
    · rcases (reaps_inPlay i).mp hr with ⟨-, hx⟩ | hr'
      · obtain ⟨hid, hret⟩ := slotFor_isNone (hx ▸ hnone)
        exact Or.inl (((h.kept i hr).resolve_left hid).resolve_left hret)
      · exact Or.inr (Or.inr hr')
  · rcases (reaps_inPlay i).mp (h.retired i hr) with ⟨-, hx⟩ | hr'
    · exact absurd hr (slotFor_isNone (hx ▸ hnone)).2
    · exact hr'

lemma Counted.reap {i : SkeletonID} (h : Counted spawned reaped p (x :: xs)) (hx : x.identity = some i) :
    Counted spawned (reaped ++ [i]) { p with retiredSlots := p.retiredSlots.erase i } xs := by
  have hreaps : ∀ j, j ≠ i → Reaps j (p.inPlay (x :: xs)) → Reaps j (p.inPlay xs) := by
    intro j hj hr
    refine ((reaps_inPlay j).mp hr).resolve_left ?_
    rintro ⟨-, hx'⟩
    exact hj (Option.some.inj (hx'.symm.trans hx))
  refine ⟨fun j hm => ?_, fun j hr => ?_, fun j hr => ?_, h.held, ⟨h.paired.1.2, h.paired.2⟩, h.left,
    h.unfinished⟩
  · by_cases hj : j = i
    · exact Or.inl (by simp [hj])
    · rcases h.owned j hm with hr | hl | hr
      · exact Or.inl (List.mem_append_left _ hr)
      · exact Or.inr (Or.inl hl)
      · exact Or.inr (Or.inr (hreaps j hj hr))
  · by_cases hj : j = i
    · exact Or.inr (Or.inr (by simp [hj]))
    · rcases h.kept j ((reaps_inPlay j).mpr (Or.inr hr)) with hid | hret | hm
      · exact Or.inl hid
      · exact Or.inr (Or.inl ((congrArg Option.isSome (Dict.get_erase_ne _ hj)).trans hret))
      · exact Or.inr (Or.inr (List.mem_append_left _ hm))
  · dsimp only at hr
    rw [Dict.get_erase] at hr
    split_ifs at hr with hj
    · cases hr
    · exact hreaps j hj (h.retired j hr)

lemma Counted.drive (hinv : Inv True p xs) (h : Counted spawned reaped p xs) :
    Counted spawned reaped (SkeletonPool.drive owner after xs p) [] := by
  have hrule : DriveRule owner after (fun p xs => Inv True p xs ∧ Counted spawned reaped p xs)
      (fun p => Counted spawned reaped p []) := {
    idle := fun {p x xs} ⟨hinv, h⟩ hi => by
      refine ⟨(hinv.tail hi.settledBy).sync, Counted.sync ?_⟩
      rcases hi with hk | hk | hk | hk | ⟨-, hnone⟩
      · exact h.tail (by simp [hk])
      · exact h.tail (by simp [hk])
      · exact h.tail (by simp [hk])
      · exact h.tail (by simp [hk])
      · exact h.skip hnone
    send := fun ⟨hinv, h⟩ hk => by
      have ht := hinv.tail (by simp [settledBy, hk])
      exact ⟨Inv.sync (ht.frame rfl rfl rfl ht.sound.retired rfl rfl rfl rfl rfl rfl),
        Counted.sync ((h.tail (by simp [hk])).frame rfl rfl rfl rfl rfl)⟩
    settle := fun {p x xs f} ⟨hinv, h⟩ hk hf => by
      obtain ⟨hc, hd, hi, hr, -, -, ht, -⟩ := settle_frame p (x.job.getD "") f
      have hkind : x.kind ≠ .reap := by rcases hk with hk | hk <;> simp [hk]
      exact ⟨(hinv.settle hk hf).sync, ((h.tail hkind).frame hc hd hi hr ht).sync⟩
    drop := fun ⟨hinv, h⟩ hk hs => by
      have hx := slotFor_named hinv.sound.retired hs
      exact ⟨(hinv.drop hk hx rfl).1.sync, (h.drop hinv hk hx).sync⟩
    cancel := fun {p x xs slot} ⟨hinv, h⟩ hk hs _ => by
      have hd := cancelReader_drives hinv.sound hk (slotFor_named hinv.sound.retired hs)
      have hc : Counted spawned reaped (p.cancelReader slot.identity) (x :: xs) :=
        h.frame rfl hd rfl rfl rfl
      exact hc.park owner after
    wait := fun ⟨_, h⟩ _ => h.park owner after
    finish := fun {p} ⟨_, h⟩ => by
      obtain ⟨hc, hd, hi, hr, -, ht⟩ := finish_frame p.syncSlots owner after
      exact h.sync.frame hc hd hi hr ht }
  exact hrule.drive ⟨hinv, h⟩

lemma Counted.event (h : Counted spawned reaped p xs) (hk : e.kind ≠ .spawned) :
    Counted spawned reaped { p with core := (p.core.apply e).1 } (xs ++ (p.core.apply e).2) := by
  have hrel := apply_releases p.core e fun hh => absurd hh hk
  have hred := apply_reduces p.core e
  have hback : ∀ i, Live (p.core.apply e).1 i → Live p.core i := by
    rintro i ⟨s, hs, rfl⟩
    rcases hred.slots _ s hs with ⟨t, ht, hi⟩ | hb
    · exact ⟨t, ht, hi⟩
    · exact absurd hb.1 hk
  have hplay : ∀ i, Reaps i ({ p with core := (p.core.apply e).1 }.inPlay (xs ++ (p.core.apply e).2)) ↔
      Reaps i (p.inPlay xs) ∨ Reaps i (p.core.apply e).2 := fun i => by
    rw [inPlay, inPlay, reaps_append, reaps_append, reaps_append]
    tauto
  refine ⟨fun i hm => ?_, fun i hr => ?_, fun i hr => (hplay i).mpr (Or.inl (h.retired i hr)),
    fun i hl => h.held i (hback i hl), ⟨h.paired.1.append hrel.paired, h.paired.2⟩,
    fun l hl i hi => h.left l hl i (hback i hi), h.unfinished⟩
  · rcases h.owned i hm with hr | hl | hr
    · exact Or.inl hr
    · rcases hrel.kept i hl with hl | ⟨-, hd⟩
      · exact Or.inr (Or.inl hl)
      · exact Or.inr (Or.inr ((hplay i).mpr (Or.inr (hrel.paired.reaps hd))))
    · exact Or.inr (Or.inr ((hplay i).mpr (Or.inl hr)))
  · rcases (hplay i).mp hr with hr | hr
    · exact h.kept i hr
    · rcases hred.drops i (hrel.reaps i hr) with ⟨-, hl, -⟩ | hb
      · exact Or.inl (h.held i hl)
      · exact absurd hb.1 hk

lemma live_of_closing {c : ReaperCore} {i : SkeletonID} (hc : c.closing = true) (hk : e.kind = .spawned)
    (hi : Live (c.apply e).1 i) : Live c i := by
  obtain ⟨s, hs, rfl⟩ := hi
  obtain ⟨t, ht, hti⟩ := (dispatch_slots (c.handle e).1).1 _ s hs
  have hslots : (c.handle e).1.slots = c.slots := by
    rw [handle, hk]
    simp only [ReaperCore.spawned]
    split
    · split_ifs
      · rfl
      · rfl
    · rfl
  exact ⟨t, hslots ▸ ht, hti⟩

lemma bornSlot_ids {fd : ℤ} (hfd : p.slots.get fd = none) (gen : ℤ) (i : SkeletonID) :
    (p.bornSlot gen fd).ids i.fd = some i ↔ i = ⟨fd, gen⟩ ∨ p.ids i.fd = some i := by
  rw [ids, bornSlot]
  dsimp only
  rw [Dict.get_set]
  split_ifs with hi
  · have hnone : p.ids i.fd = none := by rw [ids, hi, hfd, Option.map_none]
    rw [hnone]
    simp [eq_comm]
  · refine (or_iff_right fun h => hi ?_).symm
    rw [h]

lemma Counted.born {gen fd : ℤ} (h : Counted spawned reaped p (x :: xs)) (hs : Sound p (x :: xs))
    (hk : x.kind = .spawn) (hfd : p.slots.get fd = none) :
    let e : ControlEvent := { kind := .spawned, identity := some ⟨fd, gen⟩, gen := some gen }
    Counted (spawned ++ [⟨fd, gen⟩]) reaped (p.bornSlot gen fd) (xs ++ (p.core.apply e).2) := by
  intro e
  have ht := h.tail (by simp [hk])
  have hrel : Releases p.core e (p.core.apply e).1 (p.core.apply e).2 := by
    refine apply_releases p.core e fun _ i hi hopen => ?_
    cases hi
    exact hs.free hopen hfd
  have hred := apply_reduces p.core e
  have hback : ∀ i, Live (p.core.apply e).1 i → i = ⟨fd, gen⟩ ∨ Live p.core i := by
    rintro i ⟨s, hs, rfl⟩
    rcases hred.slots _ s hs with ⟨t, ht, hi⟩ | ⟨-, hi, -⟩
    · exact Or.inr ⟨t, ht, hi⟩
    · exact Or.inl (Option.some.inj hi).symm
  have hplay : ∀ i, Reaps i ((p.bornSlot gen fd).inPlay (xs ++ (p.core.apply e).2)) ↔
      Reaps i (p.inPlay xs) ∨ Reaps i (p.core.apply e).2 := fun i => by
    rw [inPlay, inPlay, reaps_append, reaps_append, reaps_append]
    tauto
  refine ⟨fun i hm => ?_, fun i hr => ?_, fun i hr => (hplay i).mpr (Or.inl (ht.retired i hr)),
    fun i hl => ?_, ⟨ht.paired.1.append hrel.paired, ht.paired.2⟩, fun l hl i hi => ?_,
    ht.unfinished⟩
  · rcases List.mem_append.mp hm with hm | hm
    · rcases ht.owned i hm with hr | hl | hr
      · exact Or.inl hr
      · rcases hrel.kept i hl with hl | ⟨hloses, -⟩
        · exact Or.inr (Or.inl hl)
        · rcases hloses with hloses | hloses <;> cases hloses
      · exact Or.inr (Or.inr ((hplay i).mpr (Or.inl hr)))
    · rw [List.mem_singleton] at hm
      rcases hrel.born rfl (by simp [e]) i (hm ▸ rfl) with hl | hd
      · exact Or.inr (Or.inl hl)
      · exact Or.inr (Or.inr ((hplay i).mpr (Or.inr (hrel.paired.reaps hd))))
  · rw [bornSlot_ids hfd]
    rcases (hplay i).mp hr with hr | hr
    · exact (ht.kept i hr).imp_left Or.inr
    · rcases hred.drops i (hrel.reaps i hr) with ⟨hloses, -⟩ | ⟨-, hi, -⟩
      · rcases hloses with hloses | hloses <;> cases hloses
      · exact Or.inl (Or.inl (Option.some.inj hi).symm)
  · exact (bornSlot_ids hfd gen i).mpr ((hback i hl).imp_right (ht.held i))
  · have hclosing : p.core.closing = true := hs.shut _ hl (by simp)
    exact ht.left l hl i (live_of_closing hclosing rfl hi)

lemma Counted.unpark (h : Counted spawned reaped p []) {k : ℕ} {d : Drive}
    (hd : p.drives[k]? = some d) :
    Counted spawned reaped { p with drives := p.drives.eraseIdx k } d.pending := by
  refine h.regroup rfl rfl rfl rfl (fun i => ?_) ⟨h.paired.2 d (List.mem_of_getElem? hd), ?_⟩
  · exact exists_congr fun x => and_congr_left' (unpark_inPlay hd).mem_iff
  · exact fun d' hd' => h.paired.2 d' (List.mem_of_mem_eraseIdx hd')

lemma Counted.advance {c : Closing} (h : Counted spawned reaped p xs) (hc : c ≠ .finished)
    (hl : ∀ left, c = .slots left → ∀ i, Live p.core i → i ∈ left) :
    Counted spawned reaped { p with closeTask := some c } xs :=
  ⟨h.owned, h.kept, h.retired, h.held, h.paired, fun left ht => hl left (Option.some.inj ht),
    fun ht => hc (Option.some.inj ht)⟩

lemma Counted.apply (hinv : Inv True p []) (h : Counted spawned reaped p []) (hk : e.kind ≠ .spawned)
    (hsub : e.kind ≠ .submit) (hclose : e.kind = .close → p.closing = true) :
    Counted spawned reaped (p.apply owner after e) [] :=
  Counted.drive (hinv.event hk hsub hclose) (h.event hk)

lemma not_live_lost (c : ReaperCore) (hl : Loses e) {i : SkeletonID} (hi : e.identity = some i) :
    ¬ Live (c.apply e).1 i := by
  have hk : e.kind ≠ .spawned := by rcases hl with hl | hl <;> simp [hl]
  have hred := apply_reduces c e
  cases hf : c.find e.identity with
  | none =>
    rintro ⟨s, hs, rfl⟩
    rcases hred.slots _ s hs with ⟨t, ht, hti⟩ | hb
    · rw [hi] at hf
      simp [find, ht, hti, Option.filter] at hf
    · exact hk hb.1
  | some slot =>
    obtain ⟨rest, hfx, -⟩ := apply_found c e hl hi hf
    have hd : Drops i (c.apply e).2 := hfx ▸ drops_append.mpr (Or.inl (drops_discard.mpr rfl))
    rcases hred.drops i hd with ⟨-, -, hno⟩ | hb
    · exact hno
    · exact absurd hb.1 hk

lemma Counted.closeNext (hinv : Inv True p []) (h : Counted spawned reaped p [])
    (hw : p.waitsForAll .closeNext = true) (hq : p.closeNext = some q) :
    Counted spawned reaped q [] ∨ Ended spawned reaped q := by
  rw [SkeletonPool.closeNext] at hq
  split_ifs at hq
  split at hq
  · cases hq
  · cases hq
  · rename_i hc
    cases hq
    have hp : p.closing = true := hinv.sound.flagged (Or.inr (by simp [hc]))
    have hr : Inv True { p with recoveryTask := false } [] :=
      hinv.same ⟨rfl, rfl, rfl, rfl, rfl, rfl, rfl, rfl, rfl, rfl⟩
    have hm : Counted spawned reaped { p with recoveryTask := false } [] := h.frame rfl rfl rfl rfl rfl
    exact Or.inl ((Counted.apply hr hm (by simp) (by simp) fun _ => hp).advance (by simp) (by simp))
  · rename_i waitSet hc
    cases hq
    simp only [waitsForAll, hc, List.all_eq_true, decide_eq_true_eq] at hw
    have hd : (p.cancelReaders waitSet).drives = p.drives :=
      List.filter_eq_self.mpr fun d hd => decide_eq_true (hw d hd)
    have hm : Counted spawned reaped (p.cancelReaders waitSet) [] := h.frame rfl hd rfl rfl rfl
    have hrun : Counted spawned reaped
        ((p.cancelReaders waitSet).apply .closer .nothing { kind := .deadline }) [] :=
      Counted.apply (hinv.cancelReaders hc) hm (by simp) (by simp) (by simp)
    refine Or.inl (hrun.advance (by simp) fun left hleft i hi => ?_)
    cases hleft
    obtain ⟨slot, hslot, rfl⟩ := Option.map_eq_some_iff.mp (hrun.held i hi)
    exact List.mem_map.mpr ⟨slot, (Dict.mem_values _ _).mpr ⟨_, hslot⟩, rfl⟩
  · rename_i i left hc
    cases hq
    have hp : p.closing = true := hinv.sound.flagged (Or.inr (by simp [hc]))
    have hr : Inv True { p with closeTask := some (.slots left) } [] :=
      hinv.advance hp (fun _ => hinv.sound.shut _ hc (by simp)) fun w hw => (by cases hw)
    have hreduced := hr.event (e := { kind := .eof, identity := some i }) (by simp) (by simp) (by simp)
    have hm := (h.event (e := { kind := .eof, identity := some i }) (by simp)).advance
      (c := .slots left) (by simp) fun left' hleft j hj => ?_
    · exact Or.inl (Counted.drive hreduced hm)
    · cases hleft
      have hback : Live p.core j := by
        obtain ⟨s, hs, rfl⟩ := hj
        rcases (apply_reduces p.core _).slots _ s hs with ⟨t, ht, hi⟩ | hb
        · exact ⟨t, ht, hi⟩
        · cases hb.1
      refine (List.mem_cons.mp (h.left _ hc j hback)).resolve_left fun hji => ?_
      exact not_live_lost p.core (Or.inl rfl) (congrArg some hji.symm) hj
  · rename_i hc
    cases hq
    simp only [waitsForAll, hc, List.isEmpty_iff] at hw
    have hlive : ∀ i, ¬ Live p.core i := fun i hi => by
      have := h.left _ hc i hi
      cases this
    have hreap : ∀ i, ¬ Reaps i (p.inPlay []) := by
      rintro i ⟨x, hx, -⟩
      rw [inPlay, hw] at hx
      cases hx
    refine Or.inr ⟨rfl, fun i hm => ?_, hw, fun fd => rfl, fun i => ?_, hinv.sound.shut _ hc (by simp),
      fun fd => ?_⟩
    · exact (h.owned i hm).resolve_right fun hh => hh.elim (hlive i) (hreap i)
    · by_contra hne
      exact hreap i (h.retired i (Option.isSome_iff_ne_none.mpr hne))
    · by_contra hne
      obtain ⟨s, hs⟩ := Option.ne_none_iff_exists'.mp hne
      have hfd := hinv.sound.placed fd s hs
      exact hlive s.identity ⟨s, hfd.symm ▸ hs, rfl⟩

lemma apply_shut {c : ReaperCore} (hc : c.closing = true) (hs : ∀ fd, c.slots.get fd = none)
    (hk : e.kind ≠ .spawned ∧ e.kind ≠ .spawnFailed) : c.apply e = (c, []) := by
  have hentries : c.slots.entries = [] := by
    refine List.eq_nil_iff_forall_not_mem.mpr fun x hx => ?_
    have := (Dict.mem_entries _ _ _).mp hx
    rw [hs] at this
    cases this
  have hfind : ∀ i, c.find i = none := by
    intro i
    cases i with
    | none => rfl
    | some i => rw [find, hs, Option.filter_none]
  have hhandle : c.handle e = (c, []) := by
    rw [handle]
    cases h : e.kind with
    | start | recover => simp [fill, hc]
    | spawned => exact absurd h hk.1
    | spawnFailed => exact absurd h hk.2
    | ready => simp [ready, hfind]
    | submit =>
      simp only [ReaperCore.submit, hc, if_true]
      split <;> rfl
    | result => simp [ReaperCore.result, hfind]
    | eof | sendFailed => simp [lost, hfind]
    | close => simp [close, hc]
    | deadline => simp [deadline, hc, Dict.values, hentries]
  rw [ReaperCore.apply, hhandle, dispatch, hentries]
  rfl

lemma Ended.frame (h : Ended spawned reaped p) (hc : q.core = p.core) (hd : q.drives = p.drives)
    (hi : q.ids = p.ids) (hr : q.retiredSlots = p.retiredSlots) (ht : q.closeTask = p.closeTask) :
    Ended spawned reaped q :=
  ⟨ht.trans h.finished, h.waited, hd.trans h.drives, fun fd => hi ▸ h.slots fd,
    fun i => hr ▸ h.retired i, hc ▸ h.core⟩

lemma Ended.step {a : Action} (hinv : Inv True p []) (h : Ended spawned reaped p)
    (hq : p.step a = some q) : Ended spawned reaped q ∧ ∀ k spawned, a ≠ .resume k spawned := by
  have hnoread : ∀ {i}, p.reading i ≠ true := by
    intro i hr
    rw [reading, decide_eq_true_eq] at hr
    have hnone := h.slots i.fd
    rw [ids, Option.map_eq_none_iff] at hnone
    simp [hnone] at hr
  cases stepped hq with
  | quiet other same _ =>
    exact ⟨h.frame same.core same.drives same.ids same.retired same.closeTask, other⟩
  | cancelFuture _ => exact ⟨h.frame rfl rfl rfl rfl rfl, by simp⟩
  | submit submitted =>
    have hopen := core_opened hinv submitted
    rw [h.core.1] at hopen
    cases hopen
  | event other routes =>
    rename_i r owner after e
    have hr := h.frame routes.same.core routes.same.drives routes.same.ids routes.same.retired
      routes.same.closeTask
    have hshut := apply_shut hr.core.1 hr.core.2 routes.notSpawned
    have hrun : r.apply owner after e = r.syncSlots.finish owner after := by
      rw [SkeletonPool.apply, hshut]
      rfl
    obtain ⟨hc, hd, hi, hret, -, ht⟩ := finish_frame r.syncSlots owner after
    have hsync : Ended spawned reaped r.syncSlots := hr.frame rfl rfl (ids_syncSlots r) rfl rfl
    rw [hrun]
    exact ⟨hsync.frame hc hd hi hret ht, other⟩
  | eof reads => exact absurd reads hnoread
  | readerFault reads => exact absurd reads hnoread
  | resume parked _ =>
    rw [h.drives] at parked
    cases parked
  | close opened =>
    rw [h.finished] at opened
    cases opened
  | closeNext moved => simp [SkeletonPool.closeNext, h.drives, h.finished] at moved

lemma Counted.lose {i : SkeletonID} (h : Counted spawned reaped p []) (hinv : Inv True p []) :
    Counted spawned reaped (p.lose owner i) [] := by
  rw [SkeletonPool.lose]
  split
  · exact h
  · exact Counted.apply hinv h (by simp) (by simp) (by simp)

lemma Counted.resume {k : ℕ} {d : Drive} {fd : Option ℤ} (hinv : Inv True p [])
    (h : Counted spawned reaped p []) (hd : p.drives[k]? = some d)
    (hq : SkeletonPool.resume { p with drives := p.drives.eraseIdx k } d fd = some q) :
    Counted (spawned ++ (p.spawnedAt (.resume k fd)).toList)
      (reaped ++ (p.reapedAt (.resume k fd)).toList) q [] := by
  have hi := hinv.unpark hd
  have hm := h.unpark hd
  cases resumed hq with
  | spawned hx hk hg hfd =>
    rename_i x xs gen fd
    rw [hx] at hi hm
    have hnew : p.spawnedAt (.resume k (some fd)) = some ⟨fd, gen⟩ := by
      simp [spawnedAt, hd, hx, spawnedBy, hk, hg]
    rw [hnew]
    simp only [reapedAt, Option.toList_some, Option.toList_none, List.append_nil]
    exact Counted.drive (hi.spawned hk hg hfd).sync (hm.born hi.sound hk hfd).sync
  | spawnFailed hx hk hg =>
    rw [hx] at hi hm
    have hnone : p.reapedAt (.resume k none) = none := by simp [reapedAt, hd, hx, hk]
    rw [hnone]
    simp only [spawnedAt, Option.toList_none, List.append_nil]
    refine Counted.drive (hi.spawnFailed hk) ?_
    obtain ⟨hc, hd, hid, hr, -, ht⟩ := scheduleRecovery_frame _ true
    exact ((hm.tail (by simp [hk])).event (by simp)).frame hc hd hid hr ht
  | gone hx hk hnone =>
    rw [hx] at hi hm
    have hnone : p.reapedAt (.resume k none) = none := by simp [reapedAt, hd, hx, hk]
    rw [hnone]
    simp only [spawnedAt, Option.toList_none, List.append_nil]
    exact Counted.drive (hi.tail (by simp [settledBy, hk])).sync (hm.tail (by simp [hk])).sync
  | dropped hx hk hs =>
    rw [hx] at hi hm
    have hnone : p.reapedAt (.resume k none) = none := by simp [reapedAt, hd, hx, hk]
    have hident := slotFor_named hi.sound.retired hs
    rw [hnone]
    simp only [spawnedAt, Option.toList_none, List.append_nil]
    exact Counted.drive (hi.drop hk hident rfl).1.sync (hm.drop hi hk hident).sync
  | reaped hx hk hident =>
    rename_i x xs i
    rw [hx] at hi hm
    have hsome : p.reapedAt (.resume k none) = some i := by simp [reapedAt, hd, hx, hk, hident]
    rw [hsome]
    simp only [spawnedAt, Option.toList_none, Option.toList_some, List.append_nil]
    exact Counted.drive (hi.reaped hk i).sync (hm.reap hident).sync

lemma gathers_nothing {a : Action} (h : ∀ k fd, a ≠ .resume k fd) :
    (p.spawnedAt a).toList = [] ∧ (p.reapedAt a).toList = [] := by
  cases a with
  | resume k fd => exact absurd rfl (h k fd)
  | _ => exact ⟨rfl, rfl⟩

lemma Counted.step {a : Action} (hinv : Inv True p []) (h : Counted spawned reaped p [])
    (hw : p.waitsForAll a = true) (hq : p.step a = some q) :
    Counted (spawned ++ (p.spawnedAt a).toList) (reaped ++ (p.reapedAt a).toList) q [] ∨
      Ended (spawned ++ (p.spawnedAt a).toList) (reaped ++ (p.reapedAt a).toList) q := by
  have hsame : (∀ k fd, a ≠ .resume k fd) → Counted spawned reaped q [] →
      Counted (spawned ++ (p.spawnedAt a).toList) (reaped ++ (p.reapedAt a).toList) q [] := by
    intro hne hc
    obtain ⟨hs, hr⟩ := gathers_nothing (p := p) hne
    rwa [hs, hr, List.append_nil, List.append_nil]
  cases stepped hq with
  | quiet other same _ =>
    exact Or.inl (hsame other (h.frame same.core same.drives same.ids same.retired same.closeTask))
  | cancelFuture _ => exact Or.inl (hsame (by simp) (h.frame rfl rfl rfl rfl rfl))
  | submit submitted =>
    rename_i token lazy
    have henlist := hinv.enlist (core_opened hinv submitted) token
    simp only [SkeletonPool.submit, Option.ite_none_left_eq_some, Option.some_inj] at submitted
    refine Or.inl (hsame (by simp) ?_)
    rw [← submitted.2]
    have hm := h.event (e := { kind := .submit, job := some (jobName (p.jobSequence + 1) token) }) (by simp)
    exact Counted.drive henlist (hm.frame rfl rfl rfl rfl rfl)
  | event other routes =>
    have hr := h.frame routes.same.core routes.same.drives routes.same.ids routes.same.retired
      routes.same.closeTask
    exact Or.inl (hsame other (Counted.apply (hinv.same routes.same) hr routes.notSpawned.1
      routes.notSubmit fun hc => absurd hc routes.notClose))
  | eof _ => exact Or.inl (hsame (by simp) (h.lose hinv))
  | readerFault _ =>
    refine Or.inl (hsame (by simp) (Counted.lose (h.frame rfl rfl rfl rfl rfl) (hinv.same ?_)))
    exact ⟨rfl, rfl, rfl, rfl, rfl, rfl, rfl, rfl, rfl, rfl⟩
  | resume parked hr => exact Or.inl (h.resume hinv parked hr)
  | close _ =>
    have hm : Counted spawned reaped { p with closing := true } [] := h.frame rfl rfl rfl rfl rfl
    exact Or.inl (hsame (by simp) (hm.advance (by simp) (by simp)))
  | closeNext moved =>
    simpa only [spawnedAt, reapedAt, Option.toList_none, List.append_nil] using
      h.closeNext hinv hw moved

lemma Counted.new (target : ℕ) : Counted [] [] (new target) [] := by
  have hl : ∀ i, ¬ Live (SkeletonPool.new target).core i := fun i ⟨s, hs, _⟩ => by cases hs
  refine ⟨fun i hm => ?_, fun i hr => ?_, fun i hr => ?_, fun i hi => absurd hi (hl i), ?_, nofun, nofun⟩
  · cases hm
  · obtain ⟨x, hx, -⟩ := hr
    cases hx
  · cases hr
  · exact ⟨trivial, fun d hd => (by cases hd)⟩

lemma Counted.run (as : List Action) (hinv : Inv True p [])
    (h : Counted spawned reaped p [] ∨ Ended spawned reaped p) (hw : along waitsForAll p as = true)
    (hq : p.run as = some q) :
    Counted (spawned ++ gathered spawnedAt p as) (reaped ++ gathered reapedAt p as) q [] ∨
      Ended (spawned ++ gathered spawnedAt p as) (reaped ++ gathered reapedAt p as) q := by
  induction as generalizing p spawned reaped with
  | nil =>
    cases hq
    simpa only [gathered, List.append_nil] using h
  | cons a as ih =>
    obtain ⟨r, hr, hq⟩ := Option.bind_eq_some_iff.mp hq
    rw [along, Bool.and_eq_true, hr] at hw
    have hinv' : Inv True r [] := hinv.step (fun hn => absurd trivial hn) hr
    rw [gathered, gathered, hr, Option.elim_some, Option.elim_some, ← List.append_assoc,
      ← List.append_assoc]
    refine ih hinv' ?_ hw.2 hq
    rcases h with h | h
    · exact h.step hinv hw.1 hr
    · obtain ⟨hended, hother⟩ := h.step hinv hr
      obtain ⟨hs, hd⟩ := gathers_nothing (p := p) hother
      rw [hs, hd, List.append_nil, List.append_nil]
      exact Or.inr hended

end Counted

/-- When the teardown has cancelled no reader that waits for its child, and has ended with no other task
at its effects, each child that was spawned has been waited for, no spawn is in flight, and no slot is
left. -/
theorem teardown_leaves_no_process (target : ℕ) (as : List Action) (q : SkeletonPool)
    (hq : (new target).run as = some q) (hw : along waitsForAll (new target) as = true)
    (hc : q.closeTask = some .finished) :
    (∀ i ∈ gathered spawnedAt (new target) as, i ∈ gathered reapedAt (new target) as) ∧
      (∀ d ∈ q.drives, ∀ x ∈ d.pending, x.kind ≠ .spawn) ∧ q.slots.entries = [] ∧
        q.retiredSlots.entries = [] := by
  rcases Counted.run as (.new target) (Or.inl (.new target)) hw hq with h | h
  · exact absurd hc h.unfinished
  · refine ⟨h.waited, fun d hd => ?_, ?_, ?_⟩
    · rw [h.drives] at hd
      cases hd
    · refine List.eq_nil_iff_forall_not_mem.mpr fun e he => ?_
      have hget := h.slots e.1
      rw [ids, (Dict.mem_entries _ _ _).mp he] at hget
      cases hget
    · refine List.eq_nil_iff_forall_not_mem.mpr fun e he => ?_
      have hget := (Dict.mem_entries _ _ _).mp he
      rw [h.retired] at hget
      cases hget

def stoppedRun : List Action :=
  [.start, .resume 0 (some 7), .ready ⟨7, 1⟩, .close, .closeNext, .eof ⟨7, 1⟩, .resume 0 none, .closeNext,
    .closeNext]

theorem teardown_leaves_no_process_stopped : ∃ q, (new 1).run stoppedRun = some q ∧
    (⟨7, 1⟩ ∈ gathered spawnedAt (new 1) stoppedRun → ⟨7, 1⟩ ∈ gathered reapedAt (new 1) stoppedRun) ∧
      q.slots.entries = [] ∧ q.retiredSlots.entries = [] := by
  obtain ⟨h, -, hs⟩ := teardown_leaves_no_process 1 stoppedRun _ rfl (by decide +kernel) rfl
  exact ⟨_, rfl, h _, hs⟩

/-- Two children are lost. The first is reaped, and recovery is spawning another in its place; the second
has not ended yet when the pool is closed. -/
def overtakenRun : List Action :=
  [.start, .resume 0 (some 7), .resume 0 (some 8), .ready ⟨7, 1⟩, .ready ⟨8, 2⟩, .eof ⟨7, 1⟩,
    .resume 0 none, .recover, .eof ⟨8, 2⟩, .close, .closeNext, .closeNext, .closeNext]

theorem process_left_behind : ∃ q, (new 2).run overtakenRun = some q ∧ q.closeTask = some .finished ∧
    ⟨8, 2⟩ ∈ gathered spawnedAt (new 2) overtakenRun ∧
      ⟨8, 2⟩ ∉ gathered reapedAt (new 2) overtakenRun ∧
        ¬ (∀ d ∈ q.drives, ∀ x ∈ d.pending, x.kind ≠ .spawn) ∧ q.retiredSlots.entries ≠ [] := by
  refine ⟨_, rfl, ?_⟩
  decide +kernel

end Reaper.Pool.SkeletonPool
