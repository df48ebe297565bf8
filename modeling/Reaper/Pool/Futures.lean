import Reaper.Pool.Effects
import Reaper.Pool.Drive

/-! No submitted job is left hanging, unless the teardown forgets a job whose outcome a drive still
holds. -/

namespace Reaper.Pool.SkeletonPool

open Reaper.Library ReaperCore

def ids (p : SkeletonPool) (fd : ℤ) : Option SkeletonID := (p.slots.get fd).map Slot.identity

def inPlay (p : SkeletonPool) (xs : List ControlEffect) : List ControlEffect :=
  xs ++ p.drives.flatMap Drive.pending

def Traced (p : SkeletonPool) (xs : List ControlEffect) (i : SkeletonID) : Prop :=
  Live p.core i ∨ Drops i (p.inPlay xs) ∨ ∃ d ∈ p.drives, d.owner = .reader i

def Waiting (p : SkeletonPool) (n : ℕ) : Prop := p.futures.get n = some .pending

/-- Identities: a generation is spawned once, a dropped skeleton is gone from the core, and a
reader that waits in a drive has let its slot go. -/
structure Sound (p : SkeletonPool) (xs : List ControlEffect) : Prop where
  tidy : Tidy p.core
  placed : Placed p.core
  keyed : ∀ fd i, p.ids fd = some i → i.fd = fd
  held : p.core.closing = false → ∀ i, Live p.core i → p.ids i.fd = some i
  retired : ∀ i slot, p.retiredSlots.get i = some slot → slot.identity = i
  dropped : ∀ i, Drops i (p.inPlay xs) → ¬ Live p.core i
  gens : (spawnGens (p.inPlay xs)).Nodup
  fresh : ∀ g ∈ spawnGens (p.inPlay xs), g ≤ p.core.nextGen ∧ ∀ i, Traced p xs i → i.gen ≠ g
  past : ∀ i, Traced p xs i → i.gen ≤ p.core.nextGen
  reader : ∀ d ∈ p.drives, ∀ i, d.owner = .reader i →
    ¬ Live p.core i ∧ ¬ Drops i (p.inPlay xs) ∧ p.ids i.fd ≠ some i ∧
      ∃ x rest, d.pending = x :: rest ∧ x.kind = .reap ∧ Brief rest
  flagged : p.core.closing = true ∨ p.closeTask ≠ none → p.closing = true
  shut : ∀ c, p.closeTask = some c → c ≠ .begun → p.core.closing = true
  collected : ∀ waitSet, p.closeTask = some (.readers waitSet) → ∀ d ∈ p.drives, ∀ i ∈ waitSet,
    d.owner = .reader i → settled d.pending = []

/-- Futures: each is settled once, and a waiting one has a job whose outcome is owed, unless the
teardown has forgotten some. -/
structure Books (forgot : Prop) (p : SkeletonPool) (owed : List String) : Prop where
  jobs : ∀ job n, p.jobs.get job = some n → n ≤ p.jobSequence ∧ ∃ token, job = jobName n token
  futures : ∀ n f, p.futures.get n = some f → n ≤ p.jobSequence
  covered : ¬ forgot → ∀ n, p.Waiting n → ∃ job, p.jobs.get job = some n ∧ job ∈ owed
  once : p.settlements.Nodup
  done : ∀ n ∈ p.settlements, ∃ f, p.futures.get n = some f ∧ f ≠ .pending

def owed (p : SkeletonPool) (xs : List ControlEffect) : List String :=
  p.core.known ++ settled (p.inPlay xs)

structure Inv (forgot : Prop) (p : SkeletonPool) (xs : List ControlEffect) : Prop where
  sound : Sound p xs
  books : Books forgot p (p.owed xs)

lemma jobName_inj {m n : ℕ} {s t : String} (h : jobName m s = jobName n t) : m = n := by
  have hsep : ∀ k : ℕ, '-' ∉ Nat.toDigits 16 k := fun k hm =>
    absurd (Names.mem_toDigits (by decide) (by decide) k '-' hm) (by decide)
  have hl := congrArg String.toList h
  simp only [jobName, String.toList_append, String.toList_ofList, List.append_assoc] at hl
  exact Names.toDigits_inj (by decide) (by decide) (Names.append_first (hsep m) (hsep n) hl).1

lemma jobName_ne_empty (n : ℕ) (token : String) : jobName n token ≠ "" := by
  intro h
  have hl := congrArg String.toList h
  simp [jobName] at hl

structure Lets (p : SkeletonPool) (xs : List ControlEffect) (i : SkeletonID)
    (pending : List ControlEffect) : Prop where
  gone : ¬ Live p.core i ∧ ¬ Drops i (p.inPlay xs) ∧ p.ids i.fd ≠ some i
  aged : i.gen ≤ p.core.nextGen ∧ ∀ g ∈ spawnGens (p.inPlay xs), i.gen ≠ g
  reaping : ∃ x rest, pending = x :: rest ∧ x.kind = .reap ∧ Brief rest
  late : p.core.closing = true → settled pending = []

section Frame

/-! Changes of a pool that keep what the invariant reads. -/

variable {forgot : Prop} {p q : SkeletonPool} {xs ys : List ControlEffect}

lemma Sound.regroup (h : Sound p xs) (hc : q.core = p.core) (hi : q.ids = p.ids)
    (hr : ∀ i slot, q.retiredSlots.get i = some slot → slot.identity = i)
    (ht : q.closeTask = p.closeTask) (hcl : q.closing = p.closing)
    (hp : (q.inPlay ys).Subperm (p.inPlay xs))
    (hd : ∀ d ∈ q.drives, d ∈ p.drives ∨ ∀ i, d.owner = .reader i → Lets p xs i d.pending) :
    Sound q ys := by
  obtain ⟨zs, hperm, hsub⟩ := hp
  have hdrops : ∀ i, Drops i (q.inPlay ys) → Drops i (p.inPlay xs) :=
    fun i ⟨x, hm, hh⟩ => ⟨x, hsub.subset (hperm.mem_iff.mpr hm), hh⟩
  have hgsub : (spawnGens zs).Sublist (spawnGens (p.inPlay xs)) := hsub.filterMap _
  have hgperm : (spawnGens zs).Perm (spawnGens (q.inPlay ys)) := hperm.filterMap _
  have hgens : ∀ g ∈ spawnGens (q.inPlay ys), g ∈ spawnGens (p.inPlay xs) :=
    fun g hg => hgsub.subset (hgperm.mem_iff.mpr hg)
  have htr : ∀ i, Traced q ys i → Traced p xs i ∨
      (i.gen ≤ p.core.nextGen ∧ ∀ g ∈ spawnGens (p.inPlay xs), i.gen ≠ g) := by
    rintro i (hl | hdr | ⟨d, hm, ho⟩)
    · exact Or.inl (Or.inl (hc ▸ hl))
    · exact Or.inl (Or.inr (Or.inl (hdrops i hdr)))
    · rcases hd d hm with hm | hm
      · exact Or.inl (Or.inr (Or.inr ⟨d, hm, ho⟩))
      · exact Or.inr (hm i ho).aged
  refine ⟨hc ▸ h.tidy, hc ▸ h.placed, hi ▸ h.keyed, ?_, hr, ?_, hgperm.nodup_iff.mp (h.gens.sublist hgsub),
    ?_, ?_, ?_, ?_, ?_, ?_⟩
  · rw [hc, hi]
    exact h.held
  · intro i hdr
    rw [hc]
    exact h.dropped i (hdrops i hdr)
  · intro g hg
    rw [hc]
    refine ⟨(h.fresh g (hgens g hg)).1, fun i hti => ?_⟩
    rcases htr i hti with hti | hti
    · exact (h.fresh g (hgens g hg)).2 i hti
    · exact hti.2 g (hgens g hg)
  · intro i hti
    rw [hc]
    exact (htr i hti).elim (h.past i) And.left
  · intro d hm i ho
    rw [hc, hi]
    rcases hd d hm with hm | hm
    · obtain ⟨h₁, h₂, h₃, h₄⟩ := h.reader d hm i ho
      exact ⟨h₁, fun hdr => h₂ (hdrops i hdr), h₃, h₄⟩
    · obtain ⟨h₁, h₂, h₃⟩ := (hm i ho).gone
      exact ⟨h₁, fun hdr => h₂ (hdrops i hdr), h₃, (hm i ho).reaping⟩
  · rw [hc, ht, hcl]
    exact h.flagged
  · rw [hc, ht]
    exact h.shut
  · intro waitSet hw d hm i hmem ho
    rw [ht] at hw
    rcases hd d hm with hm | hm
    · exact h.collected waitSet hw d hm i hmem ho
    · exact (hm i ho).late (h.shut _ hw (by simp))

lemma Sound.frame (h : Sound p xs) (hc : q.core = p.core) (hd : q.drives = p.drives)
    (hi : q.ids = p.ids) (hr : ∀ i slot, q.retiredSlots.get i = some slot → slot.identity = i)
    (ht : q.closeTask = p.closeTask) (hcl : q.closing = p.closing) : Sound q xs :=
  h.regroup hc hi hr ht hcl (by rw [inPlay, inPlay, hd]) fun _ hm => Or.inl (hd ▸ hm)

lemma Sound.sublist (h : Sound p xs) (hx : ys.Sublist xs) : Sound p ys :=
  h.regroup rfl rfl h.retired rfl rfl (hx.append_right _).subperm fun _ hm => Or.inl hm

lemma core_open (hs : Sound p xs) (ho : p.closing = false) : p.core.closing = false := by
  cases hc : p.core.closing with
  | false => rfl
  | true =>
    rw [hs.flagged (Or.inl hc)] at ho
    cases ho

lemma Books.frame {os : List String} (h : Books forgot p os) (hj : q.jobs = p.jobs)
    (hn : q.jobSequence = p.jobSequence) (hf : q.futures = p.futures)
    (hs : q.settlements = p.settlements) : Books forgot q os := by
  refine ⟨?_, ?_, ?_, hs ▸ h.once, ?_⟩
  · rw [hj, hn]; exact h.jobs
  · rw [hf, hn]; exact h.futures
  · simp only [Waiting, hf, hj]; exact h.covered
  · rw [hs, hf]; exact h.done

lemma Books.mono {os os' : List String} (h : Books forgot p os) (hs : ∀ job ∈ os, job ∈ os') : Books forgot p os' :=
  ⟨h.jobs, h.futures, fun hf n hn => (h.covered hf n hn).imp fun job hj => ⟨hj.1, hs job hj.2⟩, h.once, h.done⟩

lemma Inv.frame (h : Inv forgot p xs) (hc : q.core = p.core) (hd : q.drives = p.drives)
    (hi : q.ids = p.ids) (hr : ∀ i slot, q.retiredSlots.get i = some slot → slot.identity = i)
    (ht : q.closeTask = p.closeTask) (hcl : q.closing = p.closing) (hj : q.jobs = p.jobs)
    (hn : q.jobSequence = p.jobSequence) (hf : q.futures = p.futures)
    (hs : q.settlements = p.settlements) : Inv forgot q xs := by
  have ho : q.owed xs = p.owed xs := by rw [owed, owed, inPlay, inPlay, hd, hc]
  exact ⟨h.sound.frame hc hd hi hr ht hcl, ho ▸ h.books.frame hj hn hf hs⟩

lemma ids_syncSlots (p : SkeletonPool) : p.syncSlots.ids = p.ids := by
  funext fd
  have hs : ∀ s, (syncSlot p.core s).identity = s.identity := fun s => by
    rw [syncSlot]
    split <;> rfl
  simp only [ids, syncSlots, Dict.get_map, Option.map_map, Function.comp_def, hs]

lemma Inv.sync (h : Inv forgot p xs) : Inv forgot p.syncSlots xs :=
  h.frame rfl rfl (ids_syncSlots p) h.sound.retired rfl rfl rfl rfl rfl rfl

lemma scheduleRecovery_eq (p : SkeletonPool) (b : Bool) : ∃ failures error task, p.scheduleRecovery b =
    { p with preReadyFailures := failures, startupError := error, recoveryTask := task } := by
  rw [SkeletonPool.scheduleRecovery]
  dsimp only
  split_ifs <;> exact ⟨_, _, _, rfl⟩

lemma settle_eq (p : SkeletonPool) (job : String) (f : FutureState) : ∃ futures settlements, p.settle job f =
    { p with
      jobs := p.jobs.erase job
      results := p.results.erase job
      futures := futures
      settlements := settlements } := by
  rw [SkeletonPool.settle]
  dsimp only
  split
  · exact ⟨_, _, rfl⟩
  · split_ifs <;> exact ⟨_, _, rfl⟩

lemma Inv.scheduleRecovery (h : Inv forgot p xs) (b : Bool) : Inv forgot (p.scheduleRecovery b) xs := by
  obtain ⟨_, _, _, heq⟩ := scheduleRecovery_eq p b
  rw [heq]
  exact h.frame rfl rfl rfl h.sound.retired rfl rfl rfl rfl rfl rfl

lemma Inv.finish (h : Inv forgot p xs) (owner : Owner) (after : After) : Inv forgot (p.finish owner after) xs := by
  simp only [SkeletonPool.finish]
  split
  · exact h
  · split
    · have hh := h.scheduleRecovery ‹_›
      exact hh.frame rfl rfl rfl hh.sound.retired rfl rfl rfl rfl rfl rfl
    · exact h.scheduleRecovery _

lemma Inv.tail {x : ControlEffect} (h : Inv forgot p (x :: xs)) (hx : settledBy x = none) : Inv forgot p xs := by
  have ho : p.owed (x :: xs) = p.owed xs := by simp [owed, inPlay, settled, hx]
  exact ⟨h.sound.sublist (List.sublist_cons_self _ _), ho ▸ h.books⟩

end Frame

section Effects

/-! What one effect does to the invariant. -/

variable {forgot : Prop} {p : SkeletonPool} {x : ControlEffect} {xs : List ControlEffect}

lemma Inv.settle (h : Inv forgot p (x :: xs)) (hx : x.kind = .resolve ∨ x.kind = .fail)
    {outcome : FutureState} (ho : outcome ≠ .pending) : Inv forgot (p.settle (x.job.getD "") outcome) xs := by
  set job := x.job.getD "" with hjob
  have hs := h.sound.sublist (List.sublist_cons_self x xs)
  have howed : ∀ j ∈ p.owed (x :: xs), j = job ∨ j ∈ p.owed xs := by
    intro j hj
    rcases List.mem_append.mp hj with hj | hj
    · exact Or.inr (List.mem_append_left _ hj)
    · obtain ⟨y, hy, hyj⟩ := List.mem_filterMap.mp hj
      rcases List.mem_cons.mp hy with rfl | hy
      · rw [settledBy, if_pos hx] at hyj
        exact Or.inl (by rw [hjob, hyj, Option.getD_some])
      · exact Or.inr (List.mem_append_right _ (List.mem_filterMap.mpr ⟨y, hy, hyj⟩))
  have hjobs : ∀ j n, (p.jobs.erase job).get j = some n → p.jobs.get j = some n := by
    intro j n hj
    rw [Dict.get_erase] at hj
    split_ifs at hj
    exact hj
  -- a future that still waits has another job
  have hcover : ¬ forgot → ∀ n, p.Waiting n → p.jobs.get job ≠ some n →
      ∃ j, (p.jobs.erase job).get j = some n ∧ j ∈ p.owed xs := by
    intro hf n hn hne
    obtain ⟨j, hj, hm⟩ := h.books.covered hf n hn
    have hjne : j ≠ job := fun heq => hne (heq ▸ hj)
    exact ⟨j, (Dict.get_erase_ne _ hjne).trans hj, (howed j hm).resolve_left hjne⟩
  have hb : ∀ q : SkeletonPool, q.jobs = p.jobs.erase job → q.jobSequence = p.jobSequence →
      q.futures = p.futures → q.settlements = p.settlements →
      (∀ n, p.jobs.get job = some n → ¬ p.Waiting n) → Books forgot q (p.owed xs) := by
    intro q hqj hqn hqf hqs hw
    refine ⟨fun j n hj => ?_, hqf ▸ hqn ▸ h.books.futures, fun hf n hn => ?_, hqs ▸ h.books.once,
      hqs ▸ hqf ▸ h.books.done⟩
    · rw [hqj] at hj
      exact hqn ▸ h.books.jobs j n (hjobs j n hj)
    · rw [Waiting, hqf] at hn
      rw [hqj]
      exact hcover hf n hn fun hj => hw n hj hn
  rw [SkeletonPool.settle]
  dsimp only
  split
  · refine ⟨hs.frame rfl rfl rfl hs.retired rfl rfl, hb _ rfl rfl rfl rfl fun n hn => ?_⟩
    rename_i hnone
    rw [hnone] at hn
    cases hn
  · rename_i n hn
    split_ifs with hp
    · refine ⟨hs.frame rfl rfl rfl hs.retired rfl rfl, fun j m hj => h.books.jobs j m (hjobs j m hj),
        fun m f hm => ?_, fun hf m hm => ?_, ?_, fun m hm => ?_⟩
      · dsimp only at hm
        rw [Dict.get_set] at hm
        split_ifs at hm with hmn
        · exact hmn ▸ h.books.futures n _ hp
        · exact h.books.futures m f hm
      · rw [Waiting, Dict.get_set] at hm
        split_ifs at hm with hmn
        · exact absurd (Option.some.inj hm) ho
        · exact hcover hf m hm fun hj => hmn (Option.some.inj (hj.symm.trans hn))
      · refine List.nodup_append.mpr ⟨h.books.once, List.nodup_singleton n, fun m hm k hk => ?_⟩
        rintro rfl
        rw [List.mem_singleton.mp hk] at hm
        obtain ⟨f, hf, hne⟩ := h.books.done n hm
        exact hne (Option.some.inj (hf.symm.trans hp))
      · rw [Dict.get_set]
        split_ifs with hmn
        · exact ⟨outcome, rfl, ho⟩
        · rcases List.mem_append.mp hm with hm | hm
          · exact h.books.done m hm
          · exact absurd (List.mem_singleton.mp hm) hmn
    · refine ⟨hs.frame rfl rfl rfl hs.retired rfl rfl, hb _ rfl rfl rfl rfl fun m hm hw => ?_⟩
      rw [Option.some.inj (hn.symm.trans hm)] at hp
      exact hp hw

lemma park_inPlay (p : SkeletonPool) (owner : Owner) (after : After) (xs : List ControlEffect) :
    ((p.park owner after xs).inPlay []).Perm (p.inPlay xs) := by
  simp only [inPlay, park, List.flatMap_append, List.flatMap_cons, List.flatMap_nil, List.append_nil,
    List.nil_append]
  exact List.perm_append_comm

lemma Inv.park (h : Inv forgot p xs) {owner : Owner} (after : After)
    (ho : ∀ i, owner = .reader i → Lets p xs i xs) : Inv forgot (p.park owner after xs) [] := by
  have hp := park_inPlay p owner after xs
  refine ⟨h.sound.regroup rfl rfl h.sound.retired rfl rfl hp.subperm fun d hm => ?_, ?_⟩
  · rcases List.mem_append.mp hm with hm | hm
    · exact Or.inl hm
    · rw [List.mem_singleton.mp hm]
      exact Or.inr ho
  · have hb : Books forgot p ((p.park owner after xs).owed []) := h.books.mono fun job hj => by
      rw [owed, List.mem_append] at hj ⊢
      exact hj.imp id ((hp.filterMap settledBy).mem_iff.mpr)
    exact hb.frame rfl rfl rfl rfl

lemma slotFor_identity (h : ∀ i slot, p.retiredSlots.get i = some slot → slot.identity = i)
    {i : SkeletonID} {slot : Slot} (hs : p.slotFor (some i) = some slot) : slot.identity = i := by
  simp only [slotFor] at hs
  split at hs
  · rename_i hf
    rw [Option.some.inj hs] at hf
    simpa using (Option.filter_eq_some_iff.mp hf).2
  · exact h i slot hs

lemma Inv.drop {i : SkeletonID} (h : Inv forgot p (x :: xs)) (hk : x.kind = .drop) (hx : x.identity = some i)
    {slot : Slot} (hs : slot.identity = i) : Inv forgot (p.drop slot) xs ∧ (p.drop slot).ids i.fd ≠ some i := by
  have ht := h.tail (by simp [settledBy, hk])
  have hnl : ¬ Live p.core i := h.sound.dropped i ⟨x, List.mem_cons_self, hk, hx⟩
  -- only the descriptor that carries this identity is let go
  have hids : ∀ fd, (p.drop slot).ids fd = p.ids fd ∧ (fd = i.fd → p.ids fd ≠ some i) ∨
      (fd = i.fd ∧ p.ids fd = some i ∧ (p.drop slot).ids fd = none) := by
    intro fd
    simp only [SkeletonPool.drop, ids, hs]
    cases hg : p.slots.get i.fd with
    | none =>
      left
      refine ⟨rfl, ?_⟩
      rintro rfl
      simp [hg]
    | some s =>
      dsimp only
      split_ifs with hsi
      · by_cases hfd : fd = i.fd
        · right
          subst hfd
          simp [hg, hsi]
        · left
          exact ⟨by rw [Dict.get_erase_ne _ hfd], fun h => absurd h hfd⟩
      · left
        refine ⟨rfl, ?_⟩
        rintro rfl
        simp [hg, hsi]
  have hret : ∀ j s, (p.drop slot).retiredSlots.get j = some s → s.identity = j := by
    intro j s hj
    simp only [SkeletonPool.drop] at hj
    rw [Dict.get_set] at hj
    split_ifs at hj with heq
    · rw [heq, ← Option.some.inj hj]
    · exact h.sound.retired j s hj
  have hsound : Sound (p.drop slot) xs := by
    refine { ht.sound with
      keyed := fun fd j hj => ?_
      held := fun hc j hl => ?_
      retired := hret
      reader := fun d hm j ho => ?_ }
    · rcases hids fd with ⟨he, -⟩ | ⟨-, -, he⟩
      · exact ht.sound.keyed fd j (he ▸ hj)
      · rw [he] at hj
        cases hj
    · have hj := ht.sound.held hc j hl
      rcases hids j.fd with ⟨he, -⟩ | ⟨-, he, -⟩
      · exact he.trans hj
      · rw [Option.some.inj (he.symm.trans hj)] at hnl
        exact absurd hl hnl
    · obtain ⟨h₁, h₂, h₃, h₄⟩ := ht.sound.reader d hm j ho
      refine ⟨h₁, h₂, ?_, h₄⟩
      rcases hids j.fd with ⟨he, -⟩ | ⟨-, -, he⟩
      · rwa [he]
      · simp [he]
  refine ⟨⟨hsound, ht.books.frame rfl rfl rfl rfl⟩, ?_⟩
  rcases hids i.fd with ⟨he, hne⟩ | ⟨-, -, he⟩
  · rw [he]
    exact hne rfl
  · simp [he]

end Effects

section Drive

variable {forgot : Prop} {p q : SkeletonPool} {x : ControlEffect} {xs fx : List ControlEffect} {owner : Owner}

lemma Idles.settledBy (h : p.Idles x) : settledBy x = none := by
  rcases h with hk | hk | hk | hk | ⟨hk | hk, -⟩ <;> simp [ReaperCore.settledBy, hk]

lemma cancelReader_drives {i : SkeletonID} (h : Sound p (x :: xs)) (hk : x.kind = .drop)
    (hx : x.identity = some i) : (p.cancelReader i).drives = p.drives := by
  refine List.filter_eq_self.mpr fun d hm => ?_
  rw [decide_eq_true_eq]
  intro ho
  exact (h.reader d hm i ho).2.1 ⟨x, List.mem_cons_self, hk, hx⟩

lemma Inv.cancelReader {i : SkeletonID} (h : Inv forgot p (x :: xs)) (hk : x.kind = .drop)
    (hx : x.identity = some i) : Inv forgot (p.cancelReader i) (x :: xs) :=
  h.frame rfl (cancelReader_drives h.sound hk hx) rfl h.sound.retired rfl rfl rfl rfl rfl rfl

lemma slotFor_named (h : ∀ i slot, p.retiredSlots.get i = some slot → slot.identity = i) {slot : Slot}
    (hs : p.slotFor x.identity = some slot) :
    x.identity = some slot.identity := by
  cases hx : x.identity with
  | none => simp [slotFor, hx] at hs
  | some i => rw [slotFor_identity h (hx ▸ hs)]

lemma Inv.drive (after : After) (h : Inv forgot p xs) (ho : (∀ i, owner ≠ .reader i) ∨ Brief xs) :
    Inv forgot (SkeletonPool.drive owner after xs p) [] := by
  have htail : ∀ {x : ControlEffect} {xs : List ControlEffect}, (∀ i, owner ≠ .reader i) ∨ Brief (x :: xs) →
      (∀ i, owner ≠ .reader i) ∨ Brief xs :=
    fun ho => ho.imp id fun hb y hy => hb y (List.mem_cons_of_mem _ hy)
  have hpark : ∀ {r : SkeletonPool} {x : ControlEffect} {xs : List ControlEffect},
      (∀ i, owner ≠ .reader i) ∨ Brief (x :: xs) → Inv forgot r (x :: xs) →
      (x.kind = .spawn ∨ x.kind = .drop ∨ x.kind = .reap) → Inv forgot (r.park owner after (x :: xs)) [] := by
    intro r x xs ho hr hk
    refine hr.park after fun i hi => ?_
    rcases ho with ho | hb
    · exact absurd hi (ho i)
    · obtain ⟨h₁, h₂, h₃⟩ := hb x List.mem_cons_self
      tauto
  have hrule : DriveRule owner after
      (fun p xs => Inv forgot p xs ∧ ((∀ i, owner ≠ .reader i) ∨ Brief xs)) (fun p => Inv forgot p []) := {
    idle := fun ⟨h, ho⟩ hi => ⟨(h.tail hi.settledBy).sync, htail ho⟩
    send := fun ⟨h, ho⟩ hk => by
      have ht := h.tail (by simp [settledBy, hk])
      exact ⟨Inv.sync (ht.frame rfl rfl rfl ht.sound.retired rfl rfl rfl rfl rfl rfl), htail ho⟩
    settle := fun ⟨h, ho⟩ hk hf => ⟨(h.settle hk hf).sync, htail ho⟩
    drop := fun ⟨h, ho⟩ hk hs => ⟨(h.drop hk (slotFor_named h.sound.retired hs) rfl).1.sync, htail ho⟩
    cancel := fun ⟨h, ho⟩ hk hs _ =>
      hpark ho (h.cancelReader hk (slotFor_named h.sound.retired hs)) (Or.inr (Or.inl hk))
    wait := fun ⟨h, ho⟩ hk => hpark ho h (hk.imp_right Or.inr)
    finish := fun ⟨h, _⟩ => h.sync.finish owner after }
  exact hrule.drive ⟨h, ho⟩

lemma settle_frame (p : SkeletonPool) (job : String) (f : FutureState) :
    (p.settle job f).core = p.core ∧ (p.settle job f).drives = p.drives ∧
      (p.settle job f).ids = p.ids ∧ (p.settle job f).retiredSlots = p.retiredSlots ∧
      (p.settle job f).recoveryTask = p.recoveryTask ∧ (p.settle job f).closing = p.closing ∧
      (p.settle job f).closeTask = p.closeTask ∧
      (p.settle job f).preReadyFailures = p.preReadyFailures := by
  obtain ⟨_, _, heq⟩ := settle_eq p job f
  rw [heq]
  exact ⟨rfl, rfl, rfl, rfl, rfl, rfl, rfl, rfl⟩

lemma scheduleRecovery_frame (p : SkeletonPool) (b : Bool) :
    (p.scheduleRecovery b).core = p.core ∧ (p.scheduleRecovery b).drives = p.drives ∧
      (p.scheduleRecovery b).ids = p.ids ∧ (p.scheduleRecovery b).retiredSlots = p.retiredSlots ∧
      (p.scheduleRecovery b).closing = p.closing ∧ (p.scheduleRecovery b).closeTask = p.closeTask := by
  obtain ⟨_, _, _, heq⟩ := scheduleRecovery_eq p b
  rw [heq]
  exact ⟨rfl, rfl, rfl, rfl, rfl, rfl⟩

lemma finish_frame (p : SkeletonPool) (owner : Owner) (after : After) :
    (p.finish owner after).core = p.core ∧ (p.finish owner after).drives = p.drives ∧
      (p.finish owner after).ids = p.ids ∧ (p.finish owner after).retiredSlots = p.retiredSlots ∧
      (p.finish owner after).closing = p.closing ∧ (p.finish owner after).closeTask = p.closeTask := by
  cases after with
  | nothing => exact ⟨rfl, rfl, rfl, rfl, rfl, rfl⟩
  | scheduleRecovery b => cases owner <;> exact scheduleRecovery_frame p b

lemma drive_frame (owner : Owner) (after : After) (xs : List ControlEffect) (p : SkeletonPool) :
    (drive owner after xs p).core = p.core ∧ (drive owner after xs p).closing = p.closing ∧
      (drive owner after xs p).closeTask = p.closeTask := by
  have hrule : DriveRule owner after
      (fun q _ => q.core = p.core ∧ q.closing = p.closing ∧ q.closeTask = p.closeTask)
      (fun q => q.core = p.core ∧ q.closing = p.closing ∧ q.closeTask = p.closeTask) := {
    idle := fun h _ => h
    send := fun h _ => h
    settle := fun {q x _ f} ⟨hc, hcl, ht⟩ _ _ => by
      obtain ⟨hc', -, -, -, -, hcl', ht', -⟩ := settle_frame q (x.job.getD "") f
      exact ⟨hc'.trans hc, hcl'.trans hcl, ht'.trans ht⟩
    drop := fun h _ _ => h
    cancel := fun h _ _ _ => h
    wait := fun h _ => h
    finish := fun {q} ⟨hc, hcl, ht⟩ => by
      obtain ⟨hc', -, -, -, hcl', ht'⟩ := finish_frame q.syncSlots owner after
      exact ⟨hc'.trans hc, hcl'.trans hcl, ht'.trans ht⟩ }
  exact hrule.drive ⟨rfl, rfl, rfl⟩

lemma drop_ids (p : SkeletonPool) (slot : Slot) {fd : ℤ} {i : SkeletonID}
    (h : (p.drop slot).ids fd = some i) : p.ids fd = some i := by
  rw [ids, SkeletonPool.drop] at h
  dsimp only at h
  split at h
  · split_ifs at h
    · rw [Dict.get_erase] at h
      split_ifs at h
      · cases h
      · exact h
    · exact h
  · exact h

lemma drop_ids_ne (p : SkeletonPool) (slot : Slot) {i : SkeletonID} (hi : slot.identity ≠ i)
    (h : p.ids i.fd = some i) : (p.drop slot).ids i.fd = some i := by
  rw [ids, SkeletonPool.drop]
  dsimp only
  split
  · rename_i s hs
    split_ifs with hsame
    · rw [Dict.get_erase_ne _ fun hfd => hi ?_]
      · exact h
      · rw [ids, hfd, hs, Option.map_some] at h
        exact hsame.symm.trans (Option.some.inj h)
    · exact h
  · exact h

lemma retired_drop (p : SkeletonPool) (slot : Slot) (i : SkeletonID) :
    ((p.drop slot).retiredSlots.get i).isSome = true ↔
      i = slot.identity ∨ (p.retiredSlots.get i).isSome = true := by
  rw [SkeletonPool.drop]
  dsimp only
  rw [Dict.get_set]
  split_ifs with hi
  · simp [hi]
  · simp [hi]

def Keeps (p q : SkeletonPool) : Prop :=
  ∀ i, p.ids i.fd = some i ∨ (p.retiredSlots.get i).isSome = true →
    q.ids i.fd = some i ∨ (q.retiredSlots.get i).isSome = true

lemma Keeps.of_eq (hi : q.ids = p.ids) (hr : q.retiredSlots = p.retiredSlots) : Keeps p q := by
  intro i h
  rwa [hi, hr]

lemma Keeps.trans {r : SkeletonPool} (h : Keeps p q) (h' : Keeps q r) : Keeps p r :=
  fun i hi => h' i (h i hi)

lemma sync_keeps (p : SkeletonPool) : Keeps p p.syncSlots := .of_eq (ids_syncSlots p) rfl

lemma settle_keeps (p : SkeletonPool) (job : String) (f : FutureState) : Keeps p (p.settle job f) := by
  obtain ⟨-, -, hi, hr, -⟩ := settle_frame p job f
  exact .of_eq hi hr

lemma drop_keeps (p : SkeletonPool) (slot : Slot) : Keeps p (p.drop slot) := by
  intro i h
  by_cases hi : slot.identity = i
  · exact Or.inr ((retired_drop p slot i).mpr (Or.inl hi.symm))
  · exact h.imp (drop_ids_ne p slot hi) fun hr => (retired_drop p slot i).mpr (Or.inr hr)

lemma Inv.driveLost {i : SkeletonID} (after : After) (h : Inv forgot p (discard i ++ xs)) (hb : Brief xs)
    (hi : p.ids i.fd = some i) (ha : i.gen ≤ p.core.nextGen ∧ ∀ g ∈ spawnGens (p.inPlay xs), i.gen ≠ g)
    (hd : ¬ Drops i (p.inPlay xs)) (hc : p.core.closing = true → settled xs = []) :
    Inv forgot (SkeletonPool.drive (.reader i) after (discard i ++ xs) p) [] := by
  obtain ⟨slot, hslot, hident⟩ := Option.map_eq_some_iff.mp hi
  have hfor : p.slotFor (some i) = some slot := by simp [slotFor, hslot, hident, Option.filter]
  have hnl : ¬ Live p.core i := h.sound.dropped i ⟨_, List.mem_cons_self, rfl, rfl⟩
  have hdrop := h.drop rfl rfl hident
  set r := (p.drop slot).syncSlots.syncSlots.syncSlots with hr
  have hinv : Inv forgot r ({ kind := .reap, identity := some i } :: xs) :=
    ((hdrop.1.sync.tail rfl).sync.tail rfl).sync
  have hids : r.ids i.fd ≠ some i := by
    rw [hr, ids_syncSlots, ids_syncSlots, ids_syncSlots]
    exact hdrop.2
  have hrun : SkeletonPool.drive (.reader i) after (discard i ++ xs) p =
      SkeletonPool.drive (.reader i) after ({ kind := .reap, identity := some i } :: xs) r := by
    rw [ReaperCore.discard, List.cons_append, List.cons_append, List.cons_append, List.cons_append]
    simp only [SkeletonPool.drive, hfor, hident, ne_eq, not_true, and_false, if_false, List.nil_append, hr]
  rw [hrun]
  rw [SkeletonPool.drive]
  dsimp only
  split
  · exact Inv.drive after (hinv.tail rfl).sync (Or.inr hb)
  · refine hinv.park after fun j hj => ?_
    cases hj
    refine ⟨⟨hnl, fun hdr => hd ?_, hids⟩, ha, ⟨_, xs, rfl, rfl, hb⟩, hc⟩
    obtain ⟨y, hy, hk, hyi⟩ := hdr
    rcases List.mem_cons.mp hy with rfl | hy
    · cases hk
    · exact ⟨y, hy, hk, hyi⟩

end Drive

end Reaper.Pool.SkeletonPool
