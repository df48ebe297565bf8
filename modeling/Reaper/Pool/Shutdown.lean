import Reaper.Pool.Futures

/-! Every step of a pool keeps its books, so a finished teardown leaves no future waiting. -/

namespace Reaper.Pool.SkeletonPool

open Reaper.Library ReaperCore

section Event

variable {forgot : Prop} {p q : SkeletonPool} {e : ControlEvent} {xs : List ControlEffect}

def Born (e : ControlEvent) (i : SkeletonID) : Prop := e.kind = .spawned ∧ e.identity = some i

lemma inPlay_append (p : SkeletonPool) (xs fx : List ControlEffect) :
    (p.inPlay (xs ++ fx)).Perm (p.inPlay xs ++ fx) := by
  rw [inPlay, inPlay, List.append_assoc, List.append_assoc]
  exact List.Perm.append_left xs List.perm_append_comm

lemma Sound.event (h : Sound p xs) (hl : Legal p.core e) (hqc : q.core = (p.core.apply e).1)
    (hqd : q.drives = p.drives) (hqt : q.closeTask = p.closeTask) (hqcl : q.closing = p.closing)
    (hret : ∀ i slot, q.retiredSlots.get i = some slot → slot.identity = i)
    (hkeyed : ∀ fd i, q.ids fd = some i → i.fd = fd)
    (hborn : ∀ i, Born e i → ¬ Traced p xs i ∧ i.gen ≤ p.core.nextGen ∧
      i.gen ∉ spawnGens (p.inPlay xs))
    (hheld : p.core.closing = false → ∀ i, Live p.core i ∨ Born e i → q.ids i.fd = some i)
    (hread : ∀ d ∈ p.drives, ∀ i, d.owner = .reader i → q.ids i.fd ≠ some i)
    (hclose : e.kind = .close → p.closing = true) : Sound q (xs ++ (p.core.apply e).2) := by
  obtain ⟨ha, htidy⟩ := apply_accounts p.core e h.tidy hl
  obtain ⟨hslots, hdrops, ⟨hle, hnodup, hgens⟩, -⟩ := apply_reduces p.core e
  set fx := (p.core.apply e).2
  set c := (p.core.apply e).1 with hc
  have hplay : q.inPlay (xs ++ fx) = p.inPlay (xs ++ fx) := by rw [inPlay, inPlay, hqd]
  have hperm := inPlay_append p xs fx
  have hD : ∀ i, Drops i (q.inPlay (xs ++ fx)) ↔ Drops i (p.inPlay xs) ∨ Drops i fx := by
    intro i
    rw [hplay, ← drops_append]
    exact exists_congr fun y => and_congr_left fun _ => hperm.mem_iff
  have hG : ∀ g, g ∈ spawnGens (q.inPlay (xs ++ fx)) ↔
      g ∈ spawnGens (p.inPlay xs) ∨ g ∈ spawnGens fx := by
    intro g
    rw [hplay, ← List.mem_append, ← spawnGens_append]
    exact (hperm.filterMap spawnedBy).mem_iff
  have hlive : ∀ i, Live c i → Live p.core i ∨ Born e i := by
    rintro i ⟨s, hs, rfl⟩
    exact (hslots _ s hs).imp_right fun hb => ⟨hb.1, hb.2.1⟩
  have htraced : ∀ i, Traced q (xs ++ fx) i → Traced p xs i ∨ Born e i := by
    rintro i (hi | hi | ⟨d, hm, ho⟩)
    · exact (hlive i (hqc ▸ hi)).imp Or.inl id
    · rcases (hD i).mp hi with hi | hi
      · exact Or.inl (Or.inr (Or.inl hi))
      · exact (hdrops i hi).imp (fun hh => Or.inl hh.2.1) fun hh => ⟨hh.1, hh.2.1⟩
    · exact Or.inl (Or.inr (Or.inr ⟨d, hqd ▸ hm, ho⟩))
  refine ⟨hqc ▸ htidy, ?_, hkeyed, ?_, hret, ?_, ?_, ?_, ?_, ?_, ?_, ?_, ?_⟩
  · intro fd s hs
    rw [hqc] at hs
    rcases hslots fd s hs with ⟨t, ht, hti⟩ | ⟨-, -, hfd⟩
    · exact hti ▸ h.placed fd t ht
    · exact hfd.symm
  · intro hcl i hi
    rw [hqc] at hcl hi
    have hopen : p.core.closing = false := by
      cases hp : p.core.closing with
      | false => rfl
      | true => exact absurd (ha.closing hp) (by simp [hcl])
    exact hheld hopen i (hlive i hi)
  · intro i hi hli
    rw [hqc] at hli
    rcases (hD i).mp hi with hi | hi
    · rcases hlive i hli with hli | hb
      · exact h.dropped i hi hli
      · exact (hborn i hb).1 (Or.inr (Or.inl hi))
    · rcases hdrops i hi with ⟨-, -, hno⟩ | ⟨hk, hid, hback⟩
      · exact hno hli
      · exact (hborn i ⟨hk, hid⟩).1 (Or.inl (hback hli))
  · rw [hplay]
    refine ((hperm.filterMap spawnedBy).nodup_iff).mpr ?_
    rw [List.filterMap_append]
    refine List.nodup_append.mpr ⟨h.gens, hnodup, fun g hg g' hg' => ?_⟩
    have h₁ := (h.fresh g hg).1
    have h₂ := (hgens g' hg').1
    omega
  · intro g hg
    rw [hqc]
    rcases (hG g).mp hg with hg | hg
    · refine ⟨(h.fresh g hg).1.trans hle, fun i hi => ?_⟩
      rcases htraced i hi with hi | hi
      · exact (h.fresh g hg).2 i hi
      · rintro rfl
        exact (hborn i hi).2.2 hg
    · refine ⟨(hgens g hg).2, fun i hi => ?_⟩
      have h₁ := (hgens g hg).1
      rcases htraced i hi with hi | hi
      · have h₂ := h.past i hi
        omega
      · have h₂ := (hborn i hi).2.1
        omega
  · intro i hi
    rw [hqc]
    rcases htraced i hi with hi | hi
    · exact (h.past i hi).trans hle
    · exact (hborn i hi).2.1.trans hle
  · intro d hm i ho
    rw [hqd] at hm
    obtain ⟨h₁, h₂, h₃, h₄⟩ := h.reader d hm i ho
    have hnb : ¬ Born e i := fun hb => (hborn i hb).1 (Or.inr (Or.inr ⟨d, hm, ho⟩))
    rw [hqc]
    refine ⟨fun hli => (hlive i hli).elim h₁ hnb, fun hdr => ?_, hread d hm i ho, h₄⟩
    rcases (hD i).mp hdr with hdr | hdr
    · exact h₂ hdr
    · rcases hdrops i hdr with ⟨-, hli, -⟩ | ⟨hk, hid, -⟩
      · exact h₁ hli
      · exact hnb ⟨hk, hid⟩
  · rw [hqc, hqt, hqcl]
    rintro (hcl | ht)
    · by_cases hk : e.kind = .close
      · exact hclose hk
      · have hh : (p.core.handle e).1.closing = p.core.closing := handle_closing p.core e hk
        have hd := (dispatch_accounts _ (handle_accounts p.core e h.tidy hl).2).2.2
        exact h.flagged (Or.inl (hh.symm.trans (hd.symm.trans hcl)))
    · exact h.flagged (Or.inr ht)
  · intro s hs hne
    rw [hqc]
    exact ha.closing (h.shut s (hqt ▸ hs) hne)
  · rw [hqd, hqt]
    exact h.collected

lemma Books.event (hs : Sound p xs) (hl : Legal p.core e) (hqc : q.core = (p.core.apply e).1)
    (hqd : q.drives = p.drives) (h : Books forgot q (p.core.accepts e ++ p.owed xs)) :
    Books forgot q (q.owed (xs ++ (p.core.apply e).2)) := by
  have hc := (apply_accounts p.core e hs.tidy hl).1.count
  refine h.mono fun job hj => ?_
  have hplay : q.inPlay (xs ++ (p.core.apply e).2) = p.inPlay (xs ++ (p.core.apply e).2) := by
    rw [inPlay, inPlay, hqd]
  rw [owed, hqc, hplay, List.mem_append, settled,
    ((inPlay_append p xs _).filterMap settledBy).mem_iff, List.filterMap_append, List.mem_append]
  rw [owed, List.mem_append, List.mem_append] at hj
  have hkeep : job ∈ p.core.accepts e ∨ job ∈ p.core.known →
      job ∈ (p.core.apply e).1.known ∨ job ∈ settled (p.core.apply e).2 := by
    intro hm
    have hpos : 0 < p.core.known.count job + (p.core.accepts e).count job := by
      rcases hm with hm | hm <;> have := List.count_pos_iff.mpr hm <;> omega
    by_contra hno
    rw [not_or] at hno
    have := hc job
    rw [List.count_eq_zero.mpr hno.1, List.count_eq_zero.mpr hno.2] at this
    omega
  rcases hj with hj | hj | hj
  · exact (hkeep (Or.inl hj)).imp id Or.inr
  · exact (hkeep (Or.inr hj)).imp id Or.inr
  · exact Or.inr (Or.inl hj)

end Event

section Step

variable {forgot : Prop} {p q : SkeletonPool} {e : ControlEvent} {owner : Owner}

lemma Inv.reduce (hs : Sound p []) (hb : Books forgot p (p.core.accepts e ++ p.owed []))
    (hn : e.kind = .submit → e.job ≠ some "") (hk : e.kind ≠ .spawned) (hclose : e.kind = .close → p.closing = true) :
    Inv forgot { p with core := (p.core.apply e).1 } (p.core.apply e).2 := by
  have hl : Legal p.core e := ⟨hn, fun h => absurd h hk⟩
  have hsound : Sound { p with core := (p.core.apply e).1 } ([] ++ (p.core.apply e).2) := by
    refine hs.event hl rfl rfl rfl rfl hs.retired hs.keyed (fun i hb => absurd hb.1 hk) ?_ ?_ hclose
    · rintro hopen i (hi | hi)
      · exact hs.held hopen i hi
      · exact absurd hi.1 hk
    · exact fun d hm i hi => (hs.reader d hm i hi).2.2.1
  have hbooks : Books forgot { p with core := (p.core.apply e).1 } (p.core.accepts e ++ p.owed []) :=
    hb.frame rfl rfl rfl rfl
  exact ⟨hsound, Books.event hs hl rfl rfl hbooks⟩

lemma accepts_nil {c : ReaperCore} (h : e.kind ≠ .submit) : c.accepts e = [] := if_pos h

lemma Inv.event (h : Inv forgot p []) (hk : e.kind ≠ .spawned) (hsub : e.kind ≠ .submit)
    (hclose : e.kind = .close → p.closing = true) :
    Inv forgot { p with core := (p.core.apply e).1 } (p.core.apply e).2 := by
  have hb : Books forgot p (p.core.accepts e ++ p.owed []) := by
    rw [accepts_nil hsub]
    exact h.books
  exact Inv.reduce h.sound hb (fun hh => absurd hh hsub) hk hclose

lemma Inv.apply (after : After) (h : Inv forgot p []) (hk : e.kind ≠ .spawned)
    (hsub : e.kind ≠ .submit) (hclose : e.kind = .close → p.closing = true)
    (ho : (∀ i, owner ≠ .reader i) ∨ Quick e) : Inv forgot (p.apply owner after e) [] :=
  (h.event hk hsub hclose).drive after (ho.imp id (apply_reduces p.core e).brief)

lemma Inv.applyLost {i : SkeletonID} (after : After) (h : Inv forgot p []) (hi : p.ids i.fd = some i)
    (hk : Loses e) (he : e.identity = some i) :
    Inv forgot (p.apply (.reader i) after e) [] := by
  have hks : e.kind ≠ .spawned := by rcases hk with hk | hk <;> simp [hk]
  have hsub : e.kind ≠ .submit := by rcases hk with hk | hk <;> simp [hk]
  have hl : Legal p.core e := ⟨fun h => absurd h hsub, fun h => absurd h hks⟩
  have hcl : e.kind ≠ .close := by rcases hk with hk | hk <;> simp [hk]
  have hr := apply_reduces p.core e
  have ha := (apply_accounts p.core e h.sound.tidy hl).1
  have hinv := h.event hks hsub fun hh => absurd hh hcl
  rcases apply_lost p.core e hk he with ⟨rest, hfx, hb⟩ | hb
  · have hlive : Live p.core i := by
      have hd : Drops i (p.core.apply e).2 := hfx ▸ drops_append.mpr (Or.inl (drops_discard.mpr rfl))
      rcases hr.drops i hd with hh | hh
      · exact hh.2.1
      · exact absurd hh.1 hks
    have hplay : Drops i ({ p with core := (p.core.apply e).1 }.inPlay rest) → Drops i (p.inPlay []) := by
      intro hd
      exact (drops_append.mp hd).resolve_left (hb.no_drops i)
    have hgens : spawnGens ({ p with core := (p.core.apply e).1 }.inPlay rest) = spawnGens (p.inPlay []) := by
      rw [inPlay, inPlay, spawnGens_append, hb.spawnGens]
      rfl
    rw [hfx] at hinv
    change Inv forgot (SkeletonPool.drive (.reader i) after (p.core.apply e).2 _) []
    rw [hfx]
    refine Inv.driveLost after hinv hb hi ⟨?_, ?_⟩ ?_ ?_
    · exact (h.sound.past i (Or.inl hlive)).trans hr.gens.1
    · intro g hg
      rw [hgens] at hg
      exact (h.sound.fresh g hg).2 i (Or.inl hlive)
    · exact fun hd => h.sound.dropped i (hplay hd) hlive
    · intro hc
      have hopen : p.core.closing = true := by
        have hh := handle_closing p.core e hcl
        have hd := (dispatch_accounts _ (handle_accounts p.core e h.sound.tidy hl).2).2.2
        exact hh.symm.trans (hd.symm.trans hc)
      apply List.eq_nil_iff_forall_not_mem.mpr
      intro job hj
      have hcount := ha.count job
      rw [h.sound.tidy.drained hopen, accepts_nil hsub, hfx, settled_append] at hcount
      have := List.count_pos_iff.mpr hj
      simp only [List.count_nil, List.count_append] at hcount
      omega
  · exact hinv.drive after (Or.inr hb)

lemma unpark_inPlay {k : ℕ} {d : Drive} (hd : p.drives[k]? = some d) :
    ({ p with drives := p.drives.eraseIdx k }.inPlay d.pending).Perm (p.inPlay []) := by
  obtain ⟨hk, hget⟩ := List.getElem?_eq_some_iff.mp hd
  have hp := (List.getElem_cons_eraseIdx_perm hk).flatMap_right Drive.pending
  rw [hget, List.flatMap_cons] at hp
  exact hp

lemma Inv.unpark (h : Inv forgot p []) {k : ℕ} {d : Drive} (hd : p.drives[k]? = some d) :
    Inv forgot { p with drives := p.drives.eraseIdx k } d.pending := by
  have hperm := unpark_inPlay hd
  refine ⟨h.sound.regroup rfl rfl h.sound.retired rfl rfl hperm.subperm
    fun _ hm => Or.inl (List.mem_of_mem_eraseIdx hm), ?_⟩
  have hb : Books forgot p (SkeletonPool.owed { p with drives := p.drives.eraseIdx k } d.pending) :=
    h.books.mono fun job hj => by
      rw [owed, List.mem_append] at hj ⊢
      exact hj.imp id ((hperm.filterMap settledBy).mem_iff.mpr)
  exact hb.frame rfl rfl rfl rfl

lemma Sound.free {xs : List ControlEffect} {fd : ℤ} (h : Sound p xs) (hopen : p.core.closing = false)
    (hfd : p.slots.get fd = none) : p.core.slots.get fd = none := by
  cases hs : p.core.slots.get fd with
  | none => rfl
  | some s =>
    have hsfd : s.identity.fd = fd := h.placed fd s hs
    have hheld := h.held hopen s.identity ⟨s, hsfd.symm ▸ hs, rfl⟩
    rw [hsfd, ids, hfd] at hheld
    cases hheld

lemma Inv.spawned {x : ControlEffect} {xs : List ControlEffect} {gen fd : ℤ} (h : Inv forgot p (x :: xs))
    (hk : x.kind = .spawn) (hg : x.gen = some gen) (hfd : p.slots.get fd = none) :
    let e : ControlEvent := { kind := .spawned, identity := some ⟨fd, gen⟩, gen := some gen }
    Inv forgot { p with
      core := (p.core.apply e).1
      slots := p.slots.set fd { identity := ⟨fd, gen⟩ }
      readers := p.readers ++ [⟨fd, gen⟩] } (xs ++ (p.core.apply e).2) := by
  intro e
  have ht := h.tail (by simp [settledBy, hk])
  have hgx : spawnGens (p.inPlay (x :: xs)) = gen :: spawnGens (p.inPlay xs) := by
    simp [spawnGens, inPlay, spawnedBy, hk, hg]
  have hmem : gen ∈ spawnGens (p.inPlay (x :: xs)) := hgx ▸ List.mem_cons_self
  have hfresh := h.sound.fresh gen hmem
  have hids : p.ids fd = none := by rw [ids, hfd, Option.map_none]
  have hl : Legal p.core e := by
    refine ⟨by simp [e], fun _ hopen i hi => ?_⟩
    cases hi
    exact h.sound.free hopen hfd
  have hget : ∀ j i, SkeletonPool.ids { p with
      core := (p.core.apply e).1
      slots := p.slots.set fd { identity := ⟨fd, gen⟩ }
      readers := p.readers ++ [⟨fd, gen⟩] } j = some i ↔
      (j = fd ∧ i = ⟨fd, gen⟩) ∨ (j ≠ fd ∧ p.ids j = some i) := by
    intro j i
    simp only [ids]
    rw [Dict.get_set]
    split_ifs with hj
    · simp [hj, eq_comm]
    · simp [hj]
  have hborn : ∀ i, Born e i → i = ⟨fd, gen⟩ := fun i hi => (Option.some.inj hi.2).symm
  have hns : ∀ i : SkeletonID, i.gen = gen → ¬ Traced p xs i := by
    intro i hi htr
    refine hfresh.2 i (htr.imp_right (Or.imp_left ?_)) hi
    rintro ⟨y, hy, hh⟩
    exact ⟨y, List.mem_cons_of_mem _ hy, hh⟩
  refine ⟨ht.sound.event hl rfl rfl rfl rfl ht.sound.retired ?_ ?_ ?_ ?_ (by simp [e]), ?_⟩
  · intro j i hi
    rcases (hget j i).mp hi with ⟨rfl, rfl⟩ | ⟨-, hi⟩
    · rfl
    · exact ht.sound.keyed j i hi
  · intro i hi
    rw [hborn i hi]
    refine ⟨hns _ rfl, hfresh.1, ?_⟩
    have hn := h.sound.gens
    rw [hgx] at hn
    exact (List.nodup_cons.mp hn).1
  · rintro hopen i (hi | hi)
    · have hheld := ht.sound.held hopen i hi
      refine (hget i.fd i).mpr (Or.inr ⟨fun hif => ?_, hheld⟩)
      rw [hif, hids] at hheld
      cases hheld
    · rw [hborn i hi]
      exact (hget fd _).mpr (Or.inl ⟨rfl, rfl⟩)
  · intro d hm i ho hi
    rcases (hget i.fd i).mp hi with ⟨-, rfl⟩ | ⟨-, hi⟩
    · exact hns _ rfl (Or.inr (Or.inr ⟨d, hm, ho⟩))
    · exact (ht.sound.reader d hm i ho).2.2.1 hi
  · refine Books.event ht.sound hl rfl rfl ?_
    rw [accepts_nil (by simp [e])]
    exact ht.books.frame rfl rfl rfl rfl

lemma Inv.spawnFailed {x : ControlEffect} {xs : List ControlEffect} {gen : ℤ}
    (h : Inv forgot p (x :: xs)) (hk : x.kind = .spawn) :
    let e : ControlEvent := { kind := .spawnFailed, gen := some gen }
    Inv forgot ({ p with core := (p.core.apply e).1 }.scheduleRecovery true)
      (xs ++ (p.core.apply e).2) := by
  intro e
  have ht := h.tail (by simp [settledBy, hk])
  have hl : Legal p.core e := ⟨by simp [e], fun hh => by cases hh⟩
  have hinv : Inv forgot { p with core := (p.core.apply e).1 } (xs ++ (p.core.apply e).2) := by
    refine ⟨ht.sound.event hl rfl rfl rfl rfl ht.sound.retired ht.sound.keyed ?_ ?_ ?_ (by simp [e]), ?_⟩
    · rintro i ⟨hi, -⟩
      cases hi
    · rintro hopen i (hi | ⟨hi, -⟩)
      · exact ht.sound.held hopen i hi
      · cases hi
    · exact fun d' hm i hi => (ht.sound.reader d' hm i hi).2.2.1
    · refine Books.event ht.sound hl rfl rfl ?_
      rw [accepts_nil (by simp [e])]
      exact ht.books.frame rfl rfl rfl rfl
  exact hinv.scheduleRecovery true

lemma Inv.reaped {x : ControlEffect} {xs : List ControlEffect} (h : Inv forgot p (x :: xs))
    (hk : x.kind = .reap) (i : SkeletonID) :
    Inv forgot { p with retiredSlots := p.retiredSlots.erase i } xs := by
  have ht := h.tail (by simp [settledBy, hk])
  have hret : ∀ j slot, (p.retiredSlots.erase i).get j = some slot → slot.identity = j := by
    intro j slot hj
    rw [Dict.get_erase] at hj
    split_ifs at hj
    exact ht.sound.retired j slot hj
  exact ht.frame rfl rfl rfl hret rfl rfl rfl rfl rfl rfl

lemma Inv.resume {d : Drive} {spawned : Option ℤ} (h : Inv forgot p d.pending)
    (hd : (∀ i, d.owner ≠ .reader i) ∨ ∃ x rest, d.pending = x :: rest ∧ x.kind = .reap ∧ Brief rest)
    (hq : p.resume d spawned = some q) : Inv forgot q [] := by
  have howner : ∀ {x xs}, d.pending = x :: xs → x.kind ≠ .reap → ∀ i, d.owner ≠ .reader i := by
    rintro x xs hx hk
    rcases hd with hd | ⟨y, rest, hy, hyk, -⟩
    · exact hd
    · cases hx.symm.trans hy
      exact absurd hyk hk
  cases resumed hq with
  | spawned hx hk hg hfd =>
    rw [hx] at h
    exact (h.spawned hk hg hfd).sync.drive d.after (Or.inl (howner hx (by simp [hk])))
  | spawnFailed hx hk hg =>
    rw [hx] at h
    exact (h.spawnFailed hk).drive d.after (Or.inl (howner hx (by simp [hk])))
  | gone hx hk hnone =>
    rw [hx] at h
    exact (h.tail (by simp [settledBy, hk])).sync.drive d.after (Or.inl (howner hx (by simp [hk])))
  | dropped hx hk hs =>
    rw [hx] at h
    exact (h.drop hk (slotFor_named h.sound.retired hs) rfl).1.sync.drive d.after
      (Or.inl (howner hx (by simp [hk])))
  | reaped hx hk hi =>
    rw [hx] at h
    refine (h.reaped hk _).sync.drive d.after (hd.imp id ?_)
    rintro ⟨y, rest, hy, -, hb⟩
    cases hx.symm.trans hy
    exact hb

end Step

end Reaper.Pool.SkeletonPool
