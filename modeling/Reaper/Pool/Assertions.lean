import Reaper.Pool.Discards

/-! The assertions at the end of `apply` hold in every run whose spawn replies name the generation asked for. -/

namespace Reaper.Pool.ReaperCore

open Reaper.Library

variable {c c' : ReaperCore} {e : ControlEvent} {fx : List ControlEffect}

def gens (c : ReaperCore) : Finset ℤ :=
  c.pendingSpawns ∪ (c.slots.values.map fun slot => slot.identity.gen).toFinset

structure AssertInvariants (c : ReaperCore) : Prop where
  capacity : c.slots.entries.length + c.pendingSpawns.card ≤ c.target
  placed : ∀ entry ∈ c.slots.entries, entry.1 = entry.2.identity.fd
  owned : ∀ slot ∈ c.slots.values, slot.held.isSome ↔ slot.state = .running
  unique : c.known.Nodup
  counted : c.gens.card = c.pendingSpawns.card + c.slots.entries.length
  grown : ∀ h : c.gens.Nonempty, c.gens.max' h ≤ c.nextGen
  closed : c.closing → c.pendingSpawns = ∅

structure WellFormed (c : ReaperCore) (e : ControlEvent) : Prop where
  named : e.kind = .submit → e.job ≠ some ""
  replies : e.kind = .spawned →
    ∀ gen ∈ e.gen, gen ∈ c.pendingSpawns → ∀ i ∈ e.identity, i.gen = gen

def WellFormedRun : ReaperCore → List ControlEvent → Prop
  | _, [] => True
  | c, e :: es => WellFormed c e ∧ WellFormedRun (c.apply e).1 es

structure Staffed (c : ReaperCore) : Prop where
  capacity : c.slots.entries.length + c.pendingSpawns.card ≤ c.target
  placed : Placed c
  separate : ∀ i j s s', c.slots.get i = some s → c.slots.get j = some s' →
    s.identity.gen = s'.identity.gen → i = j
  awaited : ∀ fd s, c.slots.get fd = some s → s.identity.gen ∉ c.pendingSpawns
  grown : ∀ fd s, c.slots.get fd = some s → s.identity.gen ≤ c.nextGen
  pending : ∀ gen ∈ c.pendingSpawns, gen ≤ c.nextGen
  closed : c.closing → c.pendingSpawns = ∅

lemma spawned_tidy (c : ReaperCore) (e : ControlEvent) (ht : Tidy c) : Tidy (c.spawned e).1 := by
  rw [spawned]
  split
  · rename_i gen i _ _
    dsimp only
    split_ifs with _ hopen
    · exact ⟨ht.running, ht.distinct, ht.named, ht.drained⟩
    · obtain ⟨hq, hs, hcl, -, -⟩ := fill_spec { c with
        pendingSpawns := c.pendingSpawns.erase gen
        slots := c.slots.set i.fd { identity := i, state := .starting } }
      refine ⟨fun u hu => ?_, fun job => ?_, by rw [hq]; exact ht.named, fun h => absurd (hcl.symm.trans h) hopen⟩
      · rw [hs] at hu
        rcases Dict.mem_values_set _ hu with rfl | hu
        · simp
        · exact ht.running u hu
      · -- a slot that is overwritten takes its job with it
        have hd := ht.distinct job
        rw [known_count] at hd
        rw [known_count, hq, hs]
        dsimp only
        cases hget : c.slots.get i.fd with
        | none =>
          rw [Dict.count_set_new _ _ _ hget]
          simpa using hd
        | some old =>
          have hc := Dict.count_set ControlSlot.held c.slots
            ({ identity := i, state := .starting } : ControlSlot) hget job
          rw [held_starting, Option.toList_none, List.count_nil] at hc
          omega
    · exact ht
  · exact ht

lemma handle_tidy (c : ReaperCore) (e : ControlEvent) (ht : Tidy c)
    (hn : e.kind = .submit → e.job ≠ some "") : Tidy (c.handle e).1 := by
  by_cases hk : e.kind = .spawned
  · rw [handle, hk]
    exact spawned_tidy c e ht
  · exact (handle_accounts c e ht ⟨hn, fun h => absurd h hk⟩).2

lemma apply_tidy (c : ReaperCore) (e : ControlEvent) (ht : Tidy c)
    (hn : e.kind = .submit → e.job ≠ some "") : Tidy (c.apply e).1 :=
  (dispatch_accounts _ (handle_tidy c e ht hn)).2.1

lemma run_tidy (es : List ControlEvent) (ht : Tidy c) (hn : ∀ e ∈ es, e.kind = .submit → e.job ≠ some "") :
    Tidy (c.run es).1 := by
  induction es generalizing c with
  | nil => exact ht
  | cons e es ih =>
    exact ih (apply_tidy c e ht (hn e List.mem_cons_self)) fun d hd => hn d (List.mem_cons_of_mem _ hd)

lemma Staffed.of_kept (h : Staffed c)
    (hslots : ∀ fd s', c'.slots.get fd = some s' →
      ∃ s, c.slots.get fd = some s ∧ s.identity = s'.identity)
    (hpending : c'.pendingSpawns ⊆ c.pendingSpawns) (hgen : c'.nextGen = c.nextGen)
    (htarget : c'.target = c.target) (hclosed : c'.closing → c'.pendingSpawns = ∅) : Staffed c' := by
  have hlength : c'.slots.entries.length ≤ c.slots.entries.length := by
    have hsub : c'.slots.keys ⊆ c.slots.keys := by
      intro fd hfd
      obtain ⟨s', hs'⟩ := (Dict.mem_keys _ _).mp hfd
      obtain ⟨s, hs, -⟩ := hslots fd s' hs'
      exact (Dict.mem_keys _ _).mpr ⟨s, hs⟩
    have hperm : c'.slots.keys.Subperm c.slots.keys := c'.slots.nodup.subperm hsub
    simpa only [Dict.keys, List.length_map] using hperm.length_le
  refine ⟨?_, fun fd s' hs' => ?_, fun i j s s' hi hj hgens => ?_, fun fd s' hs' => ?_,
    fun fd s' hs' => ?_, fun gen hm => ?_, hclosed⟩
  · have hcard := Finset.card_le_card hpending
    have hcap := h.capacity
    omega
  · obtain ⟨s, hs, hid⟩ := hslots fd s' hs'
    exact hid ▸ h.placed fd s hs
  · obtain ⟨u, hu, hid⟩ := hslots i s hi
    obtain ⟨v, hv, hid'⟩ := hslots j s' hj
    exact h.separate i j u v hu hv (by rw [hid, hid', hgens])
  · obtain ⟨s, hs, hid⟩ := hslots fd s' hs'
    exact fun hm => h.awaited fd s hs (hid ▸ hpending hm)
  · obtain ⟨s, hs, hid⟩ := hslots fd s' hs'
    rw [← hid, hgen]
    exact h.grown fd s hs
  · rw [hgen]
    exact h.pending gen (hpending hm)

lemma fillLoop_staffed (n : ℕ) (h : Staffed c) (ho : c.closing = false)
    (hroom : c.slots.entries.length + c.pendingSpawns.card + n ≤ c.target) :
    Staffed (fillLoop n c).1 := by
  induction n generalizing c with
  | zero => exact h
  | succ n ih =>
    have hnew : c.nextGen + 1 ∉ c.pendingSpawns := fun hm => by
      have := h.pending _ hm
      omega
    have hcard := Finset.card_insert_of_notMem hnew
    rw [fillLoop]
    refine ih ⟨by dsimp only; omega, h.placed, h.separate, fun fd s hs => ?_, fun fd s hs => ?_,
      fun gen hm => ?_, fun hc => by simp [ho] at hc⟩ ho (by dsimp only; omega)
    · have hle := h.grown fd s hs
      rw [Finset.mem_insert, not_or]
      exact ⟨by omega, h.awaited fd s hs⟩
    · exact (h.grown fd s hs).trans (by simp)
    · rcases Finset.mem_insert.mp hm with rfl | hm
      · exact le_rfl
      · exact (h.pending gen hm).trans (by simp)

lemma fill_staffed (h : Staffed c) : Staffed c.fill.1 := by
  rw [fill]
  split
  · exact h
  · rename_i ho
    have hcap := h.capacity
    exact fillLoop_staffed _ h (by simpa using ho) (by omega)

lemma spawned_staffed (h : Staffed c)
    (hr : ∀ gen ∈ e.gen, gen ∈ c.pendingSpawns → ∀ i ∈ e.identity, i.gen = gen) :
    Staffed (c.spawned e).1 := by
  rw [spawned]
  split
  · rename_i gen i hgen hi
    dsimp only
    split_ifs with hpend hopen
    · rw [h.closed hopen] at hpend
      exact absurd hpend (by simp)
    · have hi' : i.gen = gen := hr gen hgen hpend i hi
      have hcard := Finset.card_erase_add_one hpend
      refine fill_staffed ⟨?_, ?_, ?_, ?_, ?_, ?_, fun hc => absurd hc hopen⟩
      · have hcap := h.capacity
        dsimp only
        cases hget : c.slots.get i.fd with
        | none =>
          rw [Dict.length_set_new _ _ hget]
          omega
        | some old =>
          rw [Dict.length_set _ _ hget]
          omega
      · exact Dict.forall_set (fun fd s _ hs => h.placed fd s hs) rfl
      · -- no other slot has a generation that was still pending
        have hother : ∀ j s, c.slots.get j = some s → s.identity.gen ≠ i.gen := by
          intro j s hs hsame
          exact h.awaited j s hs (by rw [hsame, hi']; exact hpend)
        intro j k s s' hj hk hsame
        rw [Dict.get_set] at hj hk
        split_ifs at hj hk with hjk hkj hkj
        · rw [hjk, hkj]
        · cases hj
          exact absurd hsame.symm (hother k s' hk)
        · cases hk
          exact absurd hsame (hother j s hj)
        · exact h.separate j k s s' hj hk hsame
      · refine Dict.forall_set (fun fd s _ hs hm => ?_) ?_
        · exact h.awaited fd s hs (Finset.mem_of_mem_erase hm)
        · rw [hi']
          exact Finset.notMem_erase gen _
      · refine Dict.forall_set (fun fd s _ hs => h.grown fd s hs) ?_
        rw [hi']
        exact h.pending gen hpend
      · exact fun g hg => h.pending g (Finset.mem_of_mem_erase hg)
    · exact h
  · exact h

lemma dispatch_staffed (h : Staffed c) : Staffed c.dispatch.1 := by
  have hslots := (dispatch_handsOut c).slots
  obtain ⟨htarget, -, hpending, hgen, -⟩ := (dispatch_handsOut c).frame
  refine h.of_kept hslots (by rw [hpending]) hgen htarget fun hc => ?_
  rw [dispatch_closing] at hc
  rw [hpending]
  exact h.closed hc

lemma handle_frame (c : ReaperCore) (e : ControlEvent)
    (hk : e.kind ≠ .start ∧ e.kind ≠ .recover ∧ e.kind ≠ .spawned) :
    (c.handle e).1.pendingSpawns ⊆ c.pendingSpawns ∧ (c.handle e).1.nextGen = c.nextGen ∧
      (c.handle e).1.target = c.target ∧
      ((c.handle e).1.closing = c.closing ∨ (c.handle e).1.pendingSpawns = ∅) := by
  have hrefl : c.pendingSpawns ⊆ c.pendingSpawns ∧ c.nextGen = c.nextGen ∧ c.target = c.target ∧
      (c.closing = c.closing ∨ c.pendingSpawns = ∅) := ⟨subset_rfl, rfl, rfl, Or.inl rfl⟩
  rw [handle]
  cases hkind : e.kind with
  | start => exact absurd hkind hk.1
  | recover => exact absurd hkind hk.2.1
  | spawned => exact absurd hkind hk.2.2
  | spawnFailed =>
    dsimp only
    rw [spawnFailed]
    split
    · exact ⟨Finset.erase_subset _ _, rfl, rfl, Or.inl rfl⟩
    · exact hrefl
  | ready =>
    dsimp only
    rw [ready]
    split
    · exact hrefl
    · split_ifs <;> exact hrefl
  | submit =>
    dsimp only
    rw [submit]
    split
    · exact hrefl
    · split_ifs <;> exact hrefl
  | result =>
    dsimp only
    rw [result]
    split
    · exact hrefl
    · split_ifs <;> exact hrefl
  | eof | sendFailed =>
    dsimp only
    rw [lost]
    split <;> exact hrefl
  | close =>
    dsimp only
    rw [close]
    split_ifs
    · exact hrefl
    · exact ⟨Finset.empty_subset _, rfl, rfl, Or.inr rfl⟩
  | deadline =>
    dsimp only
    rw [deadline]
    split_ifs <;> exact hrefl

lemma handle_staffed (h : Staffed c) (hw : WellFormed c e) : Staffed (c.handle e).1 := by
  by_cases hk : e.kind ≠ .start ∧ e.kind ≠ .recover ∧ e.kind ≠ .spawned
  · obtain ⟨hpending, hgen, htarget, hclosing⟩ := handle_frame c e hk
    refine h.of_kept (fun fd s' hs' => ?_) hpending hgen htarget fun hc => ?_
    · rcases (handle_reduces c e).slots fd s' hs' with hs | hs
      · exact hs
      · exact absurd hs.1 hk.2.2
    · rcases hclosing with hclosing | hnone
      · exact Finset.subset_empty.mp (h.closed (hclosing.symm.trans hc) ▸ hpending)
      · exact hnone
  · rw [handle]
    cases hkind : e.kind with
    | start | recover => exact fill_staffed h
    | spawned => exact spawned_staffed h (hw.replies hkind)
    | _ => exact absurd (by simp [hkind]) hk

lemma Staffed.init (target : ℕ) : Staffed { target := target } := by
  refine ⟨by simp [Dict.empty], ?_, ?_, ?_, ?_, by simp, by simp⟩
  · exact fun fd s hs => by cases hs
  · exact fun i j s s' hs => by cases hs
  · exact fun fd s hs => by cases hs
  · exact fun fd s hs => by cases hs

lemma run_staffed (es : List ControlEvent) (h : Staffed c) (ht : Tidy c) (hw : WellFormedRun c es) :
    Staffed (c.run es).1 ∧ Tidy (c.run es).1 := by
  induction es generalizing c with
  | nil => exact ⟨h, ht⟩
  | cons e es ih =>
    exact ih (dispatch_staffed (handle_staffed h hw.1)) (apply_tidy c e ht hw.1.named) hw.2

lemma Staffed.gens_nodup (h : Staffed c) : (c.slots.values.map fun slot => slot.identity.gen).Nodup := by
  rw [Dict.values, List.map_map]
  refine List.Nodup.map_on (fun x hx y hy hsame => ?_) c.slots.nodup.of_map
  have hx' := (Dict.mem_entries _ x.1 x.2).mp hx
  have hy' := (Dict.mem_entries _ y.1 y.2).mp hy
  have hfd := h.separate _ _ _ _ hx' hy' hsame
  rw [hfd, hy'] at hx'
  exact Prod.ext hfd (Option.some.inj hx').symm

lemma Staffed.assertInvariants (h : Staffed c) (ht : Tidy c) : AssertInvariants c := by
  have hmem : ∀ slot ∈ c.slots.values, ∃ fd, c.slots.get fd = some slot := fun slot hs =>
    (Dict.mem_values _ _).mp hs
  refine ⟨h.capacity, fun entry hm => ?_, ht.running, List.nodup_iff_count_le_one.mpr ht.distinct,
    ?_, fun hne => ?_, h.closed⟩
  · exact (h.placed entry.1 entry.2 ((Dict.mem_entries _ _ _).mp hm)).symm
  · have hdisjoint : Disjoint c.pendingSpawns
        (c.slots.values.map fun slot => slot.identity.gen).toFinset := by
      refine Finset.disjoint_right.mpr fun gen hm => ?_
      rw [List.mem_toFinset, List.mem_map] at hm
      obtain ⟨slot, hs, rfl⟩ := hm
      obtain ⟨fd, hget⟩ := hmem slot hs
      exact h.awaited fd slot hget
    rw [gens, Finset.card_union_of_disjoint hdisjoint, List.toFinset_card_of_nodup h.gens_nodup,
      List.length_map, Dict.values, List.length_map]
  · refine (Finset.max'_le_iff _ hne).mpr fun gen hm => ?_
    rcases Finset.mem_union.mp hm with hm | hm
    · exact h.pending gen hm
    · rw [List.mem_toFinset, List.mem_map] at hm
      obtain ⟨slot, hs, rfl⟩ := hm
      obtain ⟨fd, hget⟩ := hmem slot hs
      exact h.grown fd slot hget

lemma wellFormedRun_append {es es' : List ControlEvent} :
    WellFormedRun c (es ++ es') ↔ WellFormedRun c es ∧ WellFormedRun (c.run es).1 es' := by
  induction es generalizing c with
  | nil => exact ⟨fun h => ⟨trivial, h⟩, fun h => h.2⟩
  | cons e es ih =>
    rw [List.cons_append, WellFormedRun, WellFormedRun, ih, and_assoc]
    rfl

theorem assertInvariants_hold (target : ℕ) (es : List ControlEvent)
    (h : WellFormedRun { target := target } es) :
    ∀ before e after, es = before ++ e :: after →
      AssertInvariants ((run { target := target } before).1.apply e).1 := by
  rintro before e after rfl
  obtain ⟨hbefore, hafter⟩ := wellFormedRun_append.mp h
  obtain ⟨hs, ht⟩ := run_staffed before (.init target) (.init target) hbefore
  exact (dispatch_staffed (handle_staffed hs hafter.1)).assertInvariants
    (apply_tidy _ e ht hafter.1.named)

instance (c : ReaperCore) (e : ControlEvent) : Decidable (WellFormed c e) :=
  decidable_of_iff ((e.kind = .submit → e.job ≠ some "") ∧ (e.kind = .spawned →
      ∀ gen ∈ e.gen, gen ∈ c.pendingSpawns → ∀ i ∈ e.identity, i.gen = gen))
    ⟨fun h => ⟨h.1, h.2⟩, fun h => ⟨h.1, h.2⟩⟩

instance decidableWellFormedRun :
    (c : ReaperCore) → (es : List ControlEvent) → Decidable (WellFormedRun c es)
  | _, [] => isTrue trivial
  | c, e :: es => @instDecidableAnd _ _ _ (decidableWellFormedRun (c.apply e).1 es)

/-- The second child comes on the descriptor of the first one, which is running a job. -/
def overwritten : List ControlEvent :=
  [{ kind := .start }, { kind := .spawned, gen := some 1, identity := some ⟨7, 1⟩ },
    { kind := .submit, job := some "a" }, { kind := .ready, identity := some ⟨7, 1⟩ },
    { kind := .spawned, gen := some 2, identity := some ⟨7, 2⟩ }]

theorem assertInvariants_hold_overwritten :
    AssertInvariants ((run { target := 2 } (overwritten.take 4)).1.apply
      { kind := .spawned, gen := some 2, identity := some ⟨7, 2⟩ }).1 :=
  assertInvariants_hold 2 overwritten (by decide +kernel) (overwritten.take 4) _ [] rfl

end Reaper.Pool.ReaperCore
