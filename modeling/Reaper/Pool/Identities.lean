import Reaper.Pool.Assertions
import Reaper.Pool.Hanging

/-! A generation is that of one child, whatever the pool does. -/

namespace Reaper.Pool

open Reaper.Library

namespace ReaperCore

variable {c : ReaperCore} {e : ControlEvent} {i j : SkeletonID}

structure Unique (c : ReaperCore) (i : SkeletonID) : Prop where
  past : i.gen ≤ c.nextGen
  born : i.gen ∉ c.pendingSpawns
  alone : ∀ j, Live c j → j.gen = i.gen → j = i

lemma fillLoop_pending (n : ℕ) (c : ReaperCore) :
    ∀ g ∈ (fillLoop n c).1.pendingSpawns, g ∈ c.pendingSpawns ∨ c.nextGen < g := by
  induction n generalizing c with
  | zero => exact fun g hg => Or.inl hg
  | succ n ih =>
    intro g hg
    rw [fillLoop] at hg
    rcases ih _ g hg with hg | hg
    · rcases Finset.mem_insert.mp hg with rfl | hg
      · exact Or.inr (by omega)
      · exact Or.inl hg
    · exact Or.inr (by dsimp only at hg; omega)

lemma fill_pending (c : ReaperCore) :
    ∀ g ∈ c.fill.1.pendingSpawns, g ∈ c.pendingSpawns ∨ c.nextGen < g := by
  rw [fill]
  split
  · exact fun g hg => Or.inl hg
  · exact fillLoop_pending _ c

lemma fillLoop_target (n : ℕ) (c : ReaperCore) : (fillLoop n c).1.target = c.target := by
  induction n generalizing c with
  | zero => rfl
  | succ n ih => exact ih _

lemma fill_target (c : ReaperCore) : c.fill.1.target = c.target := by
  rw [fill]
  split
  · rfl
  · exact fillLoop_target _ c

lemma apply_target (c : ReaperCore) (e : ControlEvent) : (c.apply e).1.target = c.target := by
  rw [apply, (dispatch_handsOut _).frame.1]
  by_cases hk : e.kind ≠ .start ∧ e.kind ≠ .recover ∧ e.kind ≠ .spawned
  · exact (handle_frame c e hk).2.2.1
  · rw [handle]
    cases hkind : e.kind with
    | start | recover => exact fill_target c
    | spawned =>
      simp only [spawned]
      split
      · split_ifs
        · rfl
        · exact fill_target _
        · rfl
      · rfl
    | _ => exact absurd (by simp [hkind]) hk

lemma apply_pending (c : ReaperCore) (e : ControlEvent) :
    ∀ g ∈ (c.apply e).1.pendingSpawns, c.nextGen < g ∨
      g ∈ c.pendingSpawns ∧ (e.kind = .spawned → e.identity ≠ none → e.gen ≠ some g) := by
  intro g hg
  rw [apply, (dispatch_handsOut _).frame.2.2.1] at hg
  by_cases hk : e.kind ≠ .start ∧ e.kind ≠ .recover ∧ e.kind ≠ .spawned
  · exact Or.inr ⟨(handle_frame c e hk).1 hg, fun h => absurd h hk.2.2⟩
  · rw [handle] at hg
    cases hkind : e.kind with
    | start | recover =>
      rw [hkind] at hg
      exact (fill_pending c g hg).symm.imp_right fun hg => ⟨hg, by simp⟩
    | spawned =>
      rw [hkind] at hg
      simp only [spawned] at hg
      split at hg
      · next gen i hgen hi =>
        have herase : g ∈ c.pendingSpawns.erase gen → g ∈ c.pendingSpawns ∧ e.gen ≠ some g := by
          intro hm
          obtain ⟨hne, hm⟩ := Finset.mem_erase.mp hm
          exact ⟨hm, fun hg => hne (Option.some.inj (hg.symm.trans hgen))⟩
        split_ifs at hg with hpend hclosing
        · exact Or.inr ((herase hg).imp_right fun h _ _ => h)
        · exact (fill_pending _ g hg).symm.imp_right fun hm => (herase hm).imp_right fun h _ _ => h
        · exact Or.inr ⟨hg, fun _ _ hg' => hpend (Option.some.inj (hgen.symm.trans hg') ▸ hg)⟩
      · next hnone =>
        refine Or.inr ⟨hg, fun _ hi hg' => ?_⟩
        obtain ⟨i, hi⟩ := Option.ne_none_iff_exists'.mp hi
        exact hnone g i hg' hi
    | _ => exact absurd (by simp [hkind]) hk

lemma apply_live (hj : Live (c.apply e).1 j) : Live c j ∨
    e.kind = .spawned ∧ e.identity = some j ∧ ∃ g ∈ c.pendingSpawns, e.gen = some g := by
  rw [apply, live_dispatch] at hj
  obtain ⟨s, hs, rfl⟩ := hj
  rcases (handle_reduces c e).slots _ s hs with ⟨t, ht, hid⟩ | ⟨hk, hi, -⟩
  · exact Or.inl ⟨t, ht, hid⟩
  · simp only [handle, hk, spawned] at hs
    split at hs
    · next gen i hgen hi' =>
      split_ifs at hs with hpend hclosing
      · exact Or.inl ⟨s, hs, rfl⟩
      · exact Or.inr ⟨hk, hi, gen, hpend, hgen⟩
      · exact Or.inl ⟨s, hs, rfl⟩
    · exact Or.inl ⟨s, hs, rfl⟩

lemma Unique.apply (h : Unique c i) (hw : WellFormed c e) : Unique (c.apply e).1 i where
  past := h.past.trans (apply_reduces c e).gens.1
  born := by
    intro hg
    rcases apply_pending c e _ hg with hlt | ⟨hm, -⟩
    · exact absurd h.past (not_le.mpr hlt)
    · exact h.born hm
  alone := by
    intro j hj hsame
    rcases apply_live hj with hj | ⟨hk, hj, g, hm, hg⟩
    · exact h.alone j hj hsame
    · have hgen := hw.replies hk g hg hm j hj
      exact absurd (hsame ▸ hgen ▸ hm) h.born

end ReaperCore

namespace SkeletonPool

open ReaperCore

variable {p q r : SkeletonPool} {e : ControlEvent}

structure Known (p : SkeletonPool) : Prop where
  staffed : ReaperCore.Staffed p.core
  tidy : Tidy p.core
  unique : ∀ fd i, p.ids fd = some i → Unique p.core i

structure Follows (p q : SkeletonPool) : Prop where
  known : Known q
  unique : ∀ i, Unique p.core i → Unique q.core i

lemma drive_ids (owner : Owner) (after : After) (xs : List ControlEffect) (p : SkeletonPool) (fd : ℤ)
    (i : SkeletonID) (h : (drive owner after xs p).ids fd = some i) : p.ids fd = some i := by
  have hrule : DriveRule owner after
      (fun q _ => ∀ fd i, q.ids fd = some i → p.ids fd = some i)
      (fun q => ∀ fd i, q.ids fd = some i → p.ids fd = some i) := {
    idle := fun {q _ _} hq _ => by rw [ids_syncSlots]; exact hq
    send := fun {q x _} hq _ => by rw [ids_syncSlots]; exact hq
    settle := fun {q x _ f} hq _ _ => by
      rw [ids_syncSlots, (settle_frame q (x.job.getD "") f).2.2.1]
      exact hq
    drop := fun {q _ _ slot} hq _ _ fd i hi => by
      rw [ids_syncSlots] at hi
      exact hq fd i (drop_ids q slot hi)
    cancel := fun hq _ _ _ => hq
    wait := fun hq _ => hq
    finish := fun {q} hq => by
      rw [(finish_frame q.syncSlots owner after).2.2.1, ids_syncSlots]
      exact hq }
  exact hrule.drive (fun _ _ hi => hi) fd i h

lemma Known.frame (h : Known p) (hc : q.core = p.core) (hi : ∀ fd i, q.ids fd = some i → p.ids fd = some i) :
    Follows p q := by
  refine ⟨⟨hc ▸ h.staffed, hc ▸ h.tidy, fun fd i hid => ?_⟩, fun i hu => ?_⟩
  · rw [hc]
    exact h.unique fd i (hi fd i hid)
  · rwa [hc]

lemma Known.event (h : Known p) (hw : WellFormed p.core e) (hc : q.core = (p.core.apply e).1)
    (hi : ∀ fd i, q.ids fd = some i → p.ids fd = some i) : Follows p q := by
  refine ⟨⟨?_, ?_, fun fd i hid => ?_⟩, fun i hu => ?_⟩
  · rw [hc]
    exact dispatch_staffed (handle_staffed h.staffed hw)
  · rw [hc]
    exact apply_tidy _ e h.tidy hw.named
  · rw [hc]
    exact (h.unique fd i (hi fd i hid)).apply hw
  · rw [hc]
    exact hu.apply hw

lemma Known.routed (h : Known p) (owner : Owner) (after : After) (hsame : r.core = p.core)
    (hids : ∀ fd i, r.ids fd = some i → p.ids fd = some i) (hk : e.kind ≠ .spawned)
    (hn : e.kind = .submit → e.job ≠ some "") : Follows p (r.apply owner after e) := by
  have hw : WellFormed p.core e := ⟨hn, fun h => absurd h hk⟩
  refine h.event hw ?_ fun fd i hid => hids fd i ?_
  · rw [SkeletonPool.apply, (drive_frame _ _ _ _).1, hsame]
  · exact drive_ids owner after (r.core.apply e).2 { r with core := (r.core.apply e).1 } fd i hid

lemma Known.lose (h : Known p) (owner : Owner) (i : SkeletonID) (hsame : r.core = p.core)
    (hids : ∀ fd i, r.ids fd = some i → p.ids fd = some i) : Follows p (r.lose owner i) := by
  rw [SkeletonPool.lose]
  split
  · exact h.frame hsame hids
  · exact h.routed owner _ hsame hids (by simp) (by simp)

lemma Known.spawned {d : Drive} {x : ControlEffect} {xs : List ControlEffect} {gen fd : ℤ} (h : Known p)
    (hs : Sound p d.pending) (hx : d.pending = x :: xs) (hk : x.kind = .spawn) (hg : x.gen = some gen) :
    Follows p (drive d.owner d.after
      (xs ++ (p.core.apply { kind := .spawned, identity := some ⟨fd, gen⟩, gen := some gen }).2)
      (p.bornSlot gen fd).syncSlots) := by
  set e : ControlEvent := { kind := .spawned, identity := some ⟨fd, gen⟩, gen := some gen } with he
  have hw : WellFormed p.core e := by
    refine ⟨by simp [he], fun _ g hg _ i hi => ?_⟩
    cases hg
    cases hi
    rfl
  have hmem : gen ∈ spawnGens (p.inPlay d.pending) := by
    rw [hx]
    exact List.mem_filterMap.mpr ⟨x, List.mem_append_left _ List.mem_cons_self, by simp [spawnedBy, hk, hg]⟩
  obtain ⟨hpast, hother⟩ := hs.fresh gen hmem
  have hcore : ∀ xs, (drive d.owner d.after xs (p.bornSlot gen fd).syncSlots).core = (p.core.apply e).1 :=
    fun xs => (drive_frame _ _ _ _).1
  have hborn : Unique (p.core.apply e).1 ⟨fd, gen⟩ := by
    refine ⟨hpast.trans (apply_reduces _ e).gens.1, fun hm => ?_, fun j hj hsame => ?_⟩
    · rcases apply_pending _ e gen hm with hlt | ⟨-, hne⟩
      · exact absurd hpast (not_le.mpr hlt)
      · exact hne rfl (by simp [he]) rfl
    · rcases apply_live hj with hj | ⟨-, hj, -⟩
      · exact absurd hsame (hother j (Or.inl hj))
      · exact (Option.some.inj hj).symm
  refine ⟨⟨?_, ?_, fun fd' i hid => ?_⟩, fun i hu => ?_⟩
  · rw [hcore]
    exact dispatch_staffed (handle_staffed h.staffed hw)
  · rw [hcore]
    exact apply_tidy _ e h.tidy hw.named
  · rw [hcore]
    have hid' := drive_ids _ _ _ _ fd' i hid
    rw [ids_syncSlots, ids, bornSlot, Dict.get_set] at hid'
    split_ifs at hid' with hfd
    · cases hid'
      exact hborn
    · exact (h.unique fd' i hid').apply hw
  · rw [hcore]
    exact hu.apply hw

lemma Known.resume {d : Drive} {spawned : Option ℤ} (h : Known p) (hs : Sound p d.pending)
    (hq : p.resume d spawned = some q) : Follows p q := by
  cases SkeletonPool.resumed hq with
  | spawned pending kind named _ => exact h.spawned hs pending kind named
  | spawnFailed pending kind named =>
    rename_i x xs gen
    have hw : WellFormed p.core { kind := .spawnFailed, gen := some gen } := ⟨by simp, by simp⟩
    refine h.event hw ?_ fun fd i hid => ?_
    · rw [(drive_frame _ _ _ _).1, (scheduleRecovery_frame _ true).1]
    · have hid' := drive_ids _ _ _ _ fd i hid
      rwa [(scheduleRecovery_frame _ true).2.2.1] at hid'
  | gone _ _ _ =>
    refine h.frame (drive_frame _ _ _ _).1 fun fd i hid => ?_
    have hid' := drive_ids _ _ _ _ fd i hid
    rwa [ids_syncSlots] at hid'
  | dropped _ _ _ =>
    refine h.frame (drive_frame _ _ _ _).1 fun fd i hid => ?_
    have hid' := drive_ids _ _ _ _ fd i hid
    rw [ids_syncSlots] at hid'
    exact drop_ids _ _ hid'
  | reaped _ _ _ =>
    refine h.frame (drive_frame _ _ _ _).1 fun fd i hid => ?_
    have hid' := drive_ids _ _ _ _ fd i hid
    rwa [ids_syncSlots] at hid'

lemma Known.submit {token : String} {lazy : Bool} (h : Known p) (hq : p.submit token lazy = some q) :
    Follows p q := by
  rw [SkeletonPool.submit] at hq
  split_ifs at hq
  all_goals
    cases hq
    exact h.routed .submitter .nothing rfl (fun _ _ hid => hid) (by simp) fun _ => by
      simpa using jobName_ne_empty _ token

lemma Known.closeNext (h : Known p) (hq : p.closeNext = some q) : Follows p q := by
  rw [SkeletonPool.closeNext] at hq
  split_ifs at hq
  split at hq
  · cases hq
  · cases hq
  · cases hq
    have hf := h.routed (r := { p with recoveryTask := false }) (e := { kind := .close }) .closer .nothing rfl
      (fun _ _ hid => hid) (by simp) (by simp)
    exact ⟨⟨hf.known.staffed, hf.known.tidy, hf.known.unique⟩, hf.unique⟩
  · rename_i waitSet _
    cases hq
    have hf := h.routed (r := p.cancelReaders waitSet) (e := { kind := .deadline }) .closer .nothing rfl
      (fun _ _ hid => hid) (by simp) (by simp)
    exact ⟨⟨hf.known.staffed, hf.known.tidy, hf.known.unique⟩, hf.unique⟩
  · cases hq
    exact h.routed .closer .nothing rfl (fun _ _ hid => hid) (by simp) (by simp)
  · cases hq
    exact h.frame rfl fun fd i hid => by cases hid

lemma Known.step {a : Action} (h : Known p) (hinv : Inv True p []) (hq : p.step a = some q) : Follows p q := by
  cases stepped hq with
  | quiet _ same _ => exact h.frame same.core fun fd i hid => same.ids ▸ hid
  | cancelFuture _ => exact h.frame rfl fun _ _ hid => hid
  | submit submitted => exact h.submit submitted
  | event _ routes =>
    exact h.routed _ _ routes.same.core (fun fd i hid => routes.same.ids ▸ hid) routes.notSpawned.1
      fun hk => absurd hk routes.notSubmit
  | eof _ => exact h.lose _ _ rfl fun _ _ hid => hid
  | readerFault _ => exact h.lose _ _ rfl fun _ _ hid => hid
  | resume parked resumed =>
    rename_i k spawned d
    have hknown : Known { p with drives := p.drives.eraseIdx k } := ⟨h.staffed, h.tidy, h.unique⟩
    have hf := hknown.resume (hinv.unpark parked).sound resumed
    exact ⟨hf.known, hf.unique⟩
  | close _ => exact h.frame rfl fun _ _ hid => hid
  | closeNext moved => exact h.closeNext moved

lemma apply_core (r : SkeletonPool) (owner : Owner) (after : After) (e : ControlEvent) :
    (r.apply owner after e).core = (r.core.apply e).1 := (drive_frame _ _ _ _).1

lemma lose_core (r : SkeletonPool) (owner : Owner) (i : SkeletonID) : (r.lose owner i).core = r.core ∨
    (r.lose owner i).core = (r.core.apply { kind := .eof, identity := some i }).1 := by
  rw [SkeletonPool.lose]
  split
  · exact Or.inl rfl
  · exact Or.inr (apply_core _ _ _ _)

def Reports (p : SkeletonPool) (a : Action) (q : SkeletonPool) : Prop :=
  q.core = p.core ∨ ∃ e : ControlEvent, q.core = (p.core.apply e).1 ∧
    (e.kind = .spawned → ∃ k fd gen, a = .resume k (some fd) ∧ e.identity = some ⟨fd, gen⟩)

lemma Reports.event {a : Action} (hc : q.core = (p.core.apply e).1) (hk : e.kind ≠ .spawned) :
    Reports p a q := Or.inr ⟨e, hc, fun h => absurd h hk⟩

lemma step_reports {a : Action} (hq : p.step a = some q) : Reports p a q := by
  cases stepped hq with
  | quiet _ same _ => exact Or.inl same.core
  | cancelFuture _ => exact Or.inl rfl
  | submit submitted =>
    simp only [SkeletonPool.submit, Option.ite_none_left_eq_some, Option.some_inj] at submitted
    rw [← submitted.2]
    exact .event (apply_core _ _ _ _) (by simp)
  | event _ routes => exact .event (routes.same.core ▸ apply_core _ _ _ _) routes.notSpawned.1
  | eof _ => exact (lose_core p _ _).imp_right fun hc => ⟨_, hc, by simp⟩
  | readerFault _ => exact (lose_core _ _ _).imp_right fun hc => ⟨_, hc, by simp⟩
  | resume parked resumed =>
    cases SkeletonPool.resumed resumed with
    | spawned => exact Or.inr ⟨_, (drive_frame _ _ _ _).1, fun _ => ⟨_, _, _, rfl, rfl⟩⟩
    | spawnFailed =>
      exact .event ((drive_frame _ _ _ _).1.trans (scheduleRecovery_frame _ true).1) (by simp)
    | gone => exact Or.inl (drive_frame _ _ _ _).1
    | dropped => exact Or.inl (drive_frame _ _ _ _).1
    | reaped => exact Or.inl (drive_frame _ _ _ _).1
  | close _ => exact Or.inl rfl
  | closeNext moved =>
    rw [SkeletonPool.closeNext] at moved
    split_ifs at moved
    split at moved <;> cases moved
    · exact .event (apply_core _ _ _ _) (by simp)
    · exact .event (apply_core _ _ _ _) (by simp)
    · exact .event (apply_core _ _ _ _) (by simp)
    · exact Or.inl rfl

lemma step_target {a : Action} (hq : p.step a = some q) : q.core.target = p.core.target := by
  rcases step_reports hq with hc | ⟨e, hc, -⟩
  · rw [hc]
  · rw [hc, apply_target]

lemma Known.joined {a : Action} (h : Known p) (hq : p.step a = some q) : ∃ gen : ℤ, ∀ j, Live q.core j →
    Live p.core j ∨ j.gen = gen ∧ (∃ k fd, a = .resume k (some fd)) ∧ p.core.closing = false := by
  rcases step_reports hq with hc | ⟨e, hc, hborn⟩
  · exact ⟨0, fun j hj => Or.inl (hc ▸ hj)⟩
  rw [hc]
  refine ⟨(e.identity.map SkeletonID.gen).getD 0, fun j hj => ?_⟩
  refine (apply_live hj).imp_right ?_
  rintro ⟨hk, hid, gen, hpending, -⟩
  obtain ⟨k, fd, -, rfl, -⟩ := hborn hk
  refine ⟨by rw [hid]; rfl, ⟨k, fd, rfl⟩, ?_⟩
  rw [← Bool.not_eq_true]
  intro hclosing
  rw [h.staffed.closed hclosing] at hpending
  cases hpending

lemma Known.new (target : ℕ) : Known (new target) :=
  ⟨.init target, .init target, fun fd i hid => by cases hid⟩

end SkeletonPool

end Reaper.Pool
