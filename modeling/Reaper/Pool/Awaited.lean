import Reaper.Pool.Hanging

/-! A job that the core holds is awaited: its future waits, unless the submitter has cancelled it. -/

namespace Reaper.Pool

open Reaper.Library

namespace SkeletonPool

open ReaperCore

variable {p q r : SkeletonPool} {x : ControlEffect} {xs ys : List ControlEffect} {e : ControlEvent}

def Open (p : SkeletonPool) (n : ℕ) : Prop := p.futures.get n = some .pending ∨ p.futures.get n = some .cancelled

def NamedBy (p : SkeletonPool) (job : String) : Prop := ∃ n token, n ≤ p.jobSequence ∧ job = jobName n token

structure Awaited (p : SkeletonPool) (xs : List ControlEffect) : Prop where
  past : ∀ job ∈ p.owed xs, p.NamedBy job
  apart : ∀ job ∈ p.core.known, job ∉ settled (p.inPlay xs)
  kept : ∀ job ∈ p.core.known, ∃ n, p.jobs.get job = some n ∧ p.Open n
  alone : ∀ job job' n, p.jobs.get job = some n → p.jobs.get job' = some n → job = job'
  numbered : ∀ job n, p.jobs.get job = some n → n ≤ p.jobSequence

lemma Awaited.regroup (h : Awaited p xs) (hc : q.core = p.core) (hj : q.jobs = p.jobs) (hf : q.futures = p.futures)
    (hn : q.jobSequence = p.jobSequence) (hplay : q.inPlay ys ⊆ p.inPlay xs) : Awaited q ys := by
  have hsettled : settled (q.inPlay ys) ⊆ settled (p.inPlay xs) := by
    intro job hjob
    obtain ⟨y, hy, hyj⟩ := List.mem_filterMap.mp hjob
    exact List.mem_filterMap.mpr ⟨y, hplay hy, hyj⟩
  refine ⟨fun job hjob => ?_, fun job hjob hm => ?_, fun job hjob => ?_, ?_, ?_⟩
  · obtain ⟨n, token, hle, heq⟩ := h.past job (by
      rw [owed, hc] at hjob
      exact List.mem_append.mpr ((List.mem_append.mp hjob).imp_right fun hm => hsettled hm))
    exact ⟨n, token, hn.symm ▸ hle, heq⟩
  · exact h.apart job (hc ▸ hjob) (hsettled hm)
  · simp only [Open, hj, hf]
    exact h.kept job (hc ▸ hjob)
  · rw [hj]
    exact h.alone
  · rw [hj, hn]
    exact h.numbered

lemma inPlay_subset (hd : q.drives = p.drives) (hs : ys ⊆ xs) : q.inPlay ys ⊆ p.inPlay xs := by
  intro y hy
  rw [inPlay, hd] at hy
  exact List.mem_append.mpr ((List.mem_append.mp hy).imp_left fun hm => hs hm)

lemma Awaited.tail (h : Awaited p (x :: xs)) : Awaited p xs :=
  h.regroup rfl rfl rfl rfl (inPlay_subset rfl (List.subset_cons_self _ _))

lemma Awaited.sync (h : Awaited p xs) : Awaited p.syncSlots xs :=
  h.regroup rfl rfl rfl rfl (inPlay_subset rfl fun _ hx => hx)

lemma Awaited.settle {f : FutureState} (h : Awaited p (x :: xs)) (hk : x.kind = .resolve ∨ x.kind = .fail) :
    Awaited (p.settle (x.job.getD "") f) xs := by
  set job := x.job.getD "" with hjob
  have hother : ∀ job' ∈ p.core.known, job' ≠ job := by
    rintro job' hm rfl
    cases hx : x.job with
    | none =>
      rw [hx, Option.getD_none] at hjob
      obtain ⟨n, token, -, heq⟩ := h.past job (List.mem_append_left _ hm)
      exact jobName_ne_empty n token (heq.symm.trans hjob)
    | some job' =>
      refine h.apart job hm (List.mem_filterMap.mpr ⟨x, List.mem_cons_self, ?_⟩)
      rw [settledBy, if_pos hk, hjob, hx, Option.getD_some]
  have hjobs : ∀ job' n, (p.jobs.erase job).get job' = some n → p.jobs.get job' = some n := by
    intro job' n hn
    rw [Dict.get_erase] at hn
    split_ifs at hn
    exact hn
  have hpopped : Awaited { p with jobs := p.jobs.erase job, results := p.results.erase job } xs := {
    past := h.tail.past
    apart := h.tail.apart
    kept := fun job' hm => by
      obtain ⟨n, hn, ho⟩ := h.kept job' hm
      exact ⟨n, (Dict.get_erase_ne _ (hother job' hm)).trans hn, ho⟩
    alone := fun _ _ n hn hn' => h.alone _ _ n (hjobs _ _ hn) (hjobs _ _ hn')
    numbered := fun _ n hn => h.numbered _ n (hjobs _ _ hn) }
  rw [SkeletonPool.settle]
  dsimp only
  split
  · exact hpopped
  · next n hn =>
    split_ifs
    · refine { hpopped with kept := fun job' hm => ?_ }
      obtain ⟨m, hm', ho⟩ := hpopped.kept job' hm
      have hne : m ≠ n := fun heq => hother job' hm (h.alone _ _ n (hjobs _ _ (heq ▸ hm')) hn)
      refine ⟨m, hm', ?_⟩
      rw [Open, Dict.get_set_ne _ _ hne]
      exact ho
    · exact hpopped

lemma Awaited.park (h : Awaited p xs) (owner : Owner) (after : After) : Awaited (p.park owner after xs) [] := by
  refine h.regroup rfl rfl rfl rfl fun y hy => ?_
  simp only [inPlay, SkeletonPool.park, List.nil_append, List.flatMap_append, List.mem_append] at hy ⊢
  rcases hy with hy | hy
  · exact Or.inr hy
  · simp only [List.flatMap_cons, List.flatMap_nil, List.append_nil] at hy
    exact Or.inl hy

lemma Awaited.finish (h : Awaited p xs) (owner : Owner) (after : After) : Awaited (p.finish owner after) xs := by
  have hrecover : ∀ b, Awaited (p.scheduleRecovery b) xs := by
    intro b
    obtain ⟨_, _, _, heq⟩ := scheduleRecovery_eq p b
    rw [heq]
    exact h.regroup rfl rfl rfl rfl (inPlay_subset rfl fun _ hx => hx)
  cases after with
  | nothing => exact h
  | scheduleRecovery b =>
    cases owner with
    | reader i => exact (hrecover b).regroup rfl rfl rfl rfl (inPlay_subset rfl fun _ hx => hx)
    | _ => exact hrecover b

lemma Awaited.drive (h : Awaited p xs) (owner : Owner) (after : After) : Awaited (drive owner after xs p) [] := by
  have hrule : DriveRule owner after Awaited fun q => Awaited q [] := {
    idle := fun h _ => h.tail.sync
    send := fun {q x ys} h _ =>
      Awaited.sync (h.tail.regroup rfl rfl rfl rfl (inPlay_subset rfl fun _ hx => hx))
    settle := fun h hk _ => (h.settle hk).sync
    drop := fun {q x ys slot} h _ _ =>
      Awaited.sync (h.tail.regroup rfl rfl rfl rfl (inPlay_subset rfl fun _ hx => hx))
    cancel := fun {q x ys slot} h _ _ _ => by
      have hfewer : Awaited (q.cancelReader slot.identity) (x :: ys) := by
        refine h.regroup rfl rfl rfl rfl fun y hy => ?_
        refine List.mem_append.mpr ((List.mem_append.mp hy).imp_right fun hm => ?_)
        obtain ⟨d, hd, hy⟩ := List.mem_flatMap.mp hm
        exact List.mem_flatMap.mpr ⟨d, (List.mem_filter.mp hd).1, hy⟩
      exact hfewer.park owner after
    wait := fun h _ => h.park owner after
    finish := fun h => h.sync.finish owner after }
  exact hrule.drive h

lemma accepts_count (c : ReaperCore) (e : ControlEvent) (job : String) :
    (c.accepts e).count job + c.known.count job ≤ max 1 (c.known.count job) := by
  rw [accepts]
  split_ifs
  · simp
  · split
    · simp
    · next new _ =>
      split_ifs with hold
      · simp
      · by_cases heq : new = job
        · have hnot : job ∉ c.known := fun hm => hold (Or.inr (heq ▸ hm))
          rw [List.count_eq_zero.mpr hnot, heq]
          simp
        · simp [heq]

structure Admits (p : SkeletonPool) (xs : List ControlEffect) (e : ControlEvent) : Prop where
  past : ∀ job ∈ p.core.accepts e, p.NamedBy job
  apart : ∀ job ∈ p.core.accepts e, job ∉ settled (p.inPlay xs)
  kept : ∀ job ∈ p.core.accepts e, ∃ n, p.jobs.get job = some n ∧ p.Open n

lemma Awaited.event (h : Awaited p xs) (ht : Tidy p.core) (hl : Legal p.core e) (ha : Admits p xs e)
    (hc : r.core = (p.core.apply e).1) (hd : r.drives = p.drives) (hj : r.jobs = p.jobs)
    (hf : r.futures = p.futures) (hn : r.jobSequence = p.jobSequence) : Awaited r (xs ++ (p.core.apply e).2) := by
  have hcount := (apply_accounts p.core e ht hl).1.count
  have hsource : ∀ job, 0 < (settled (p.core.apply e).2).count job + (p.core.apply e).1.known.count job →
      job ∈ p.core.known ∨ job ∈ p.core.accepts e := by
    intro job hpos
    by_contra hno
    rw [not_or] at hno
    have := hcount job
    rw [List.count_eq_zero.mpr hno.1, List.count_eq_zero.mpr hno.2] at this
    omega
  have hstill : ∀ job ∈ (p.core.apply e).1.known, job ∈ p.core.known ∨ job ∈ p.core.accepts e := by
    intro job hm
    have := List.count_pos_iff.mpr hm
    exact hsource job (by omega)
  have hplay : ∀ job, job ∈ settled (r.inPlay (xs ++ (p.core.apply e).2)) →
      job ∈ settled (p.inPlay xs) ∨ job ∈ settled (p.core.apply e).2 := by
    intro job hm
    rw [inPlay, hd] at hm
    simp only [settled, inPlay, List.filterMap_append, List.mem_append] at hm ⊢
    tauto
  refine ⟨fun job hm => ?_, fun job hm hs => ?_, fun job hm => ?_, ?_, ?_⟩
  · have hold : p.NamedBy job := by
      rw [owed, hc] at hm
      have hfrom : job ∈ p.core.known ∨ job ∈ p.core.accepts e ∨ job ∈ settled (p.inPlay xs) := by
        rcases List.mem_append.mp hm with hm | hm
        · exact (hstill job hm).imp_right Or.inl
        · rcases hplay job hm with hm | hm
          · exact Or.inr (Or.inr hm)
          · have := List.count_pos_iff.mpr hm
            exact (hsource job (by omega)).imp_right Or.inl
      rcases hfrom with hm | hm | hm
      · exact h.past job (List.mem_append_left _ hm)
      · exact ha.past job hm
      · exact h.past job (List.mem_append_right _ hm)
    rwa [NamedBy, hn]
  · rw [hc] at hm
    rcases hplay job hs with hs | hs
    · rcases hstill job hm with hm | hm
      · exact h.apart job hm hs
      · exact ha.apart job hm hs
    · have hheld := List.count_pos_iff.mpr hm
      have hsettled := List.count_pos_iff.mpr hs
      have hsum := hcount job
      have hbound := accepts_count p.core e job
      have hdistinct := ht.distinct job
      omega
  · simp only [Open, hj, hf]
    rcases hstill job (hc ▸ hm) with hm | hm
    · exact h.kept job hm
    · exact ha.kept job hm
  · rw [hj]
    exact h.alone
  · rw [hj, hn]
    exact h.numbered

lemma Admits.nothing (hk : e.kind ≠ .submit) : Admits p xs e := by
  have hnil := accepts_nil (c := p.core) hk
  refine ⟨?_, ?_, ?_⟩ <;> rw [hnil] <;> simp

lemma Awaited.apply (h : Awaited p []) (ht : Tidy p.core) (owner : Owner) (after : After)
    (hsub : e.kind ≠ .submit) (hk : e.kind ≠ .spawned) : Awaited (p.apply owner after e) [] := by
  have hl : Legal p.core e := ⟨fun h => absurd h hsub, fun h => absurd h hk⟩
  have hevent : Awaited { p with core := (p.core.apply e).1 } ([] ++ (p.core.apply e).2) :=
    h.event ht hl (.nothing hsub) rfl rfl rfl rfl rfl
  exact hevent.drive owner after

lemma Awaited.lose (h : Awaited p []) (ht : Tidy p.core) (owner : Owner) (i : SkeletonID) :
    Awaited (p.lose owner i) [] := by
  rw [SkeletonPool.lose]
  split
  · exact h
  · exact h.apply ht owner _ (by simp) (by simp)

lemma Awaited.submit {token : String} {lazy : Bool} (h : Awaited p []) (ht : Tidy p.core)
    (hq : p.submit token lazy = some q) : Awaited q [] := by
  rw [SkeletonPool.submit, Option.ite_none_left_eq_some, Option.some_inj] at hq
  obtain ⟨-, rfl⟩ := hq
  set n := p.jobSequence + 1 with hn
  set job := jobName n token with hjob
  have hnew : ∀ job' m, p.jobs.get job' = some m → m ≠ n := fun job' m hm => by
    have := h.numbered job' m hm
    omega
  have hfresh : ∀ job' ∈ p.owed [], job' ≠ job := by
    rintro job' hm rfl
    obtain ⟨m, token', hle, heq⟩ := h.past _ hm
    have := jobName_inj heq
    omega
  set r : SkeletonPool := { p with
    jobSequence := n
    jobs := p.jobs.set job n
    futures := p.futures.set n .pending } with hr
  have henlist : Awaited r [] := {
    past := fun job' hm => by
      obtain ⟨m, token', hle, heq⟩ := h.past job' hm
      exact ⟨m, token', by rw [hr]; dsimp only; omega, heq⟩
    apart := h.apart
    kept := fun job' hm => by
      obtain ⟨m, hm', ho⟩ := h.kept job' hm
      refine ⟨m, (Dict.get_set_ne _ _ (hfresh job' (List.mem_append_left _ hm))).trans hm', ?_⟩
      rw [Open, hr, Dict.get_set_ne _ _ (hnew job' m hm')]
      exact ho
    alone := fun job₁ job₂ m h₁ h₂ => by
      rw [hr, Dict.get_set] at h₁ h₂
      split_ifs at h₁ h₂ with heq₁ heq₂ heq₂
      · exact heq₁.trans heq₂.symm
      · exact absurd (Option.some.inj h₁).symm (hnew job₂ m h₂)
      · exact absurd (Option.some.inj h₂).symm (hnew job₁ m h₁)
      · exact h.alone job₁ job₂ m h₁ h₂
    numbered := fun job' m hm => by
      rw [hr, Dict.get_set] at hm
      split_ifs at hm with heq
      · exact (Option.some.inj hm).ge
      · exact (h.numbered job' m hm).trans (by rw [hr]; dsimp only; omega) }
  have haccepts : ∀ job' ∈ r.core.accepts { kind := .submit, job := some job }, job' = job := by
    intro job' hm
    rw [accepts, if_neg (by simp)] at hm
    dsimp only at hm
    split_ifs at hm
    · cases hm
    · exact List.mem_singleton.mp hm
  have hadmits : Admits r [] { kind := .submit, job := some job } := {
    past := fun job' hm => ⟨n, token, le_rfl, haccepts job' hm⟩
    apart := fun job' hm hs => hfresh job' (List.mem_append_right _ hs) (haccepts job' hm)
    kept := fun job' hm => by
      rw [haccepts job' hm]
      exact ⟨n, Dict.get_set_self _ _ _, Or.inl (Dict.get_set_self _ _ _)⟩ }
  have hl : Legal r.core { kind := .submit, job := some job } :=
    ⟨fun _ => by simpa using jobName_ne_empty n token, by simp⟩
  have hevent : Awaited { r with core := (r.core.apply { kind := .submit, job := some job }).1 }
      ([] ++ (r.core.apply { kind := .submit, job := some job }).2) :=
    henlist.event ht hl hadmits rfl rfl rfl rfl rfl
  exact hevent.drive .submitter .nothing

lemma Awaited.resume {d : Drive} {spawned : Option ℤ} (h : Awaited p d.pending) (hs : Sound p d.pending)
    (hopen : p.core.closing = false) (hq : p.resume d spawned = some q) : Awaited q [] := by
  cases SkeletonPool.resumed hq with
  | spawned pending kind named free =>
    next x xs gen fd =>
    rw [pending] at h
    have hl : Legal p.core { kind := .spawned, identity := some ⟨fd, gen⟩, gen := some gen } := by
      refine ⟨by simp, fun _ _ i hi => ?_⟩
      cases hi
      exact hs.free hopen free
    have hevent := h.tail.event (r := (p.bornSlot gen fd).syncSlots) hs.tidy hl (.nothing (by simp)) rfl rfl rfl rfl rfl
    exact hevent.drive _ _
  | spawnFailed pending kind named =>
    next x xs gen =>
    rw [pending] at h
    have hl : Legal p.core { kind := .spawnFailed, gen := some gen } := ⟨by simp, by simp⟩
    have hevent := h.tail.event (r := { p with core := (p.core.apply { kind := .spawnFailed, gen := some gen }).1 })
      hs.tidy hl (.nothing (by simp)) rfl rfl rfl rfl rfl
    refine Awaited.drive (hevent.finish .recovery (.scheduleRecovery true)) _ _
  | gone pending _ _ =>
    rw [pending] at h
    exact h.tail.sync.drive _ _
  | dropped pending _ _ =>
    rw [pending] at h
    refine Awaited.drive (p := (p.drop _).syncSlots) ?_ _ _
    exact h.tail.regroup rfl rfl rfl rfl (inPlay_subset rfl fun _ hx => hx)
  | reaped pending _ _ =>
    rw [pending] at h
    refine Awaited.drive (p := SkeletonPool.syncSlots { p with retiredSlots := p.retiredSlots.erase _ }) ?_ _ _
    exact h.tail.regroup rfl rfl rfl rfl (inPlay_subset rfl fun _ hx => hx)

lemma Awaited.step {a : Action} (h : Awaited p []) (hinv : Inv True p []) (hopen : p.closing = false)
    (ha : a ≠ .closeNext) (hq : p.step a = some q) : Awaited q [] := by
  have ht := hinv.sound.tidy
  cases stepped hq with
  | quiet _ same _ =>
    exact h.regroup same.core same.jobs same.futures same.jobSequence (inPlay_subset same.drives fun _ hx => hx)
  | cancelFuture _ =>
    next n =>
    refine { h with kept := fun job hm => ?_ }
    obtain ⟨m, hm', ho⟩ := h.kept job hm
    refine ⟨m, hm', ?_⟩
    rw [Open, Dict.get_set]
    split_ifs
    · exact Or.inr rfl
    · exact ho
  | submit submitted => exact h.submit ht submitted
  | event _ routes =>
    have hr := h.regroup routes.same.core routes.same.jobs routes.same.futures routes.same.jobSequence
      (inPlay_subset routes.same.drives fun _ hx => hx)
    exact hr.apply (routes.same.core ▸ ht) _ _ routes.notSubmit routes.notSpawned.1
  | eof _ => exact h.lose ht _ _
  | readerFault _ =>
    next i _ =>
    refine Awaited.lose (p := { p with readers := p.readers.filter (· ≠ i) }) ?_ ht _ _
    exact h.regroup rfl rfl rfl rfl (inPlay_subset rfl fun _ hx => hx)
  | resume parked resumed =>
    next k spawned d =>
    have hplay : SkeletonPool.inPlay { p with drives := p.drives.eraseIdx k } d.pending ⊆ p.inPlay [] :=
      (unpark_inPlay parked).subset
    have hr : Awaited { p with drives := p.drives.eraseIdx k } d.pending := h.regroup rfl rfl rfl rfl hplay
    have hcore : p.core.closing = false := core_open hinv.sound hopen
    exact hr.resume (hinv.unpark parked).sound hcore resumed
  | close _ => exact h.regroup rfl rfl rfl rfl (inPlay_subset rfl fun _ hx => hx)
  | closeNext _ => exact absurd rfl ha

lemma Awaited.new (target : ℕ) : Awaited (new target) [] :=
  ⟨fun job hm => (by cases hm), fun job hm => (by cases hm), fun job hm => (by cases hm),
    fun job job' n hn => (by cases hn), fun job n hn => (by cases hn)⟩

lemma Awaited.skipNumber (h : Awaited p xs) : Awaited { p with jobSequence := p.jobSequence + 1 } xs where
  past := by
    intro job hm
    obtain ⟨n, token, hle, heq⟩ := h.past job hm
    exact ⟨n, token, Nat.le_succ_of_le hle, heq⟩
  apart := h.apart
  kept := h.kept
  alone := h.alone
  numbered := fun job n hn => Nat.le_succ_of_le (h.numbered job n hn)

lemma drive_jobs {owner : Owner} {after : After} {job : String} {n : ℕ}
    (hn : (SkeletonPool.drive owner after xs r).jobs.get job = some n) (hr : r.jobs = p.jobs) :
    p.jobs.get job = some n := by
  have hrule : DriveRule owner after (fun q _ => ∀ n, q.jobs.get job = some n → p.jobs.get job = some n)
      (fun q => ∀ n, q.jobs.get job = some n → p.jobs.get job = some n) := {
    idle := fun h _ => h
    send := fun h _ => h
    settle := fun {q x _ f} h _ _ n hn => by
      refine h n ?_
      have hn : (q.settle (x.job.getD "") f).jobs.get job = some n := hn
      obtain ⟨_, _, heq⟩ := settle_eq q (x.job.getD "") f
      rw [heq, Dict.get_erase] at hn
      split_ifs at hn
      exact hn
    drop := fun h _ _ => h
    cancel := fun h _ _ _ => h
    wait := fun h _ => h
    finish := fun {q} h => by
      have hjobs : (q.syncSlots.finish owner after).jobs = q.jobs := by
        cases after with
        | nothing => rfl
        | scheduleRecovery b =>
          have hplain : (q.syncSlots.scheduleRecovery b).jobs = q.jobs := by
            obtain ⟨_, _, _, heq⟩ := scheduleRecovery_eq q.syncSlots b
            rw [heq]
            rfl
          cases owner <;> exact hplain
      rw [hjobs]
      exact h }
  exact hrule.drive (fun _ hn => hr ▸ hn) n hn

lemma step_jobs {a : Action} {job : String} {n : ℕ} (ha : a ≠ .closeNext) (hq : p.step a = some q)
    (hn : q.jobs.get job = some n) : p.jobs.get job = some n ∨
      ∃ token lazy, a = .submit token lazy ∧ job = jobName (p.jobSequence + 1) token := by
  have hlose : ∀ {r : SkeletonPool} {owner : Owner} {i : SkeletonID},
      (r.lose owner i).jobs.get job = some n → r.jobs = p.jobs → p.jobs.get job = some n := by
    intro r owner i hm hr
    rw [SkeletonPool.lose] at hm
    split at hm
    · exact hr ▸ hm
    · exact drive_jobs hm hr
  cases stepped hq with
  | quiet _ same _ => exact Or.inl (same.jobs ▸ hn)
  | cancelFuture _ => exact Or.inl hn
  | submit submitted =>
    next token lazy =>
    rw [SkeletonPool.submit, Option.ite_none_left_eq_some, Option.some_inj] at submitted
    obtain ⟨-, rfl⟩ := submitted
    set name := jobName (p.jobSequence + 1) token with hname
    have hset : (p.jobs.set name (p.jobSequence + 1)).get job = some n :=
      drive_jobs (p := { p with jobs := p.jobs.set name (p.jobSequence + 1) }) hn rfl
    rw [Dict.get_set] at hset
    split_ifs at hset with heq
    · exact Or.inr ⟨token, lazy, rfl, heq⟩
    · exact Or.inl hset
  | event _ routes => exact Or.inl (drive_jobs hn routes.same.jobs)
  | eof _ => exact Or.inl (hlose hn rfl)
  | readerFault _ => exact Or.inl (hlose hn rfl)
  | resume _ resumed =>
    refine Or.inl ?_
    cases SkeletonPool.resumed resumed with
    | spawned _ _ _ _ | gone _ _ _ | dropped _ _ _ | reaped _ _ _ => exact drive_jobs hn rfl
    | spawnFailed _ _ _ =>
      refine drive_jobs hn ?_
      obtain ⟨_, _, _, heq⟩ := scheduleRecovery_eq _ true
      rw [heq]
  | close _ => exact Or.inl hn
  | closeNext _ => exact absurd rfl ha

lemma settle_outcome {job : String} {n : ℕ} {f : FutureState} (hn : p.jobs.get job = some n) (ho : p.Open n) :
    (p.settle job f).futures.get n = some (if p.futures.get n = some .pending then f else .cancelled) := by
  rw [SkeletonPool.settle, hn]
  dsimp only
  split_ifs with hwait
  · exact Dict.get_set_self _ _ _
  · exact ho.resolve_left hwait

end SkeletonPool

end Reaper.Pool
