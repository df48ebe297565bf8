import Reaper.Pool.Shutdown

/-! No submitted job is left hanging, unless the teardown forgets a job whose outcome a parked drive
still holds. -/

namespace Reaper.Pool.SkeletonPool

open Reaper.Library ReaperCore

structure Same (p q : SkeletonPool) : Prop where
  core : q.core = p.core
  drives : q.drives = p.drives
  ids : q.ids = p.ids
  retired : q.retiredSlots = p.retiredSlots
  closeTask : q.closeTask = p.closeTask
  closing : q.closing = p.closing
  jobs : q.jobs = p.jobs
  jobSequence : q.jobSequence = p.jobSequence
  futures : q.futures = p.futures
  settlements : q.settlements = p.settlements

structure Routes (p r : SkeletonPool) (owner : Owner) (after : After) (e : ControlEvent) : Prop where
  same : Same p r
  notSpawned : e.kind ≠ .spawned ∧ e.kind ≠ .spawnFailed
  notClose : e.kind ≠ .close
  notSubmit : e.kind ≠ .submit
  owned : (∀ i, owner ≠ .reader i) ∨ Quick e
  loses : Loses e → after ≠ .nothing
  calm : after ≠ .scheduleRecovery true
  task : r.recoveryTask = p.recoveryTask ∨ e.kind = .start ∨ e.kind = .recover

inductive Stepped (p : SkeletonPool) : Action → SkeletonPool → Prop
  | quiet {a q} (other : ∀ k spawned, a ≠ .resume k spawned) (same : Same p q)
      (task : q.recoveryTask = p.recoveryTask) : Stepped p a q
  | cancelFuture {n} (waits : p.futures.get n = some .pending) :
      Stepped p (.cancelFuture n) { p with futures := p.futures.set n .cancelled }
  | submit {token lazy q} (submitted : p.submit token lazy = some q) : Stepped p (.submit token lazy) q
  | event {a r owner after e} (other : ∀ k spawned, a ≠ .resume k spawned)
      (routes : Routes p r owner after e) : Stepped p a (r.apply owner after e)
  | eof {i} (reads : p.reading i = true) : Stepped p (.eof i) (p.lose (.reader i) i)
  | readerFault {i} (reads : p.reading i = true) : Stepped p (.readerFault i)
      (SkeletonPool.lose { p with readers := p.readers.filter (· ≠ i) } (.loser i) i)
  | resume {k spawned d q} (parked : p.drives[k]? = some d)
      (resumed : resume { p with drives := p.drives.eraseIdx k } d spawned = some q) :
      Stepped p (.resume k spawned) q
  | close (opened : p.closeTask = none) :
      Stepped p .close { p with closing := true, closeTask := some .begun }
  | closeNext {q} (moved : p.closeNext = some q) : Stepped p .closeNext q

lemma ids_assignJob (p : SkeletonPool) (slot : Slot) (job : Option String) :
    (p.assignJob slot job).ids = p.ids := by
  funext fd
  simp only [ids, assignJob, Dict.get_map, Option.map_map, Function.comp_def]
  congr 1
  funext s
  split_ifs <;> rfl

lemma stepped {p q : SkeletonPool} {a : Action} (hq : p.step a = some q) : Stepped p a q := by
  cases a with
  | start =>
    simp only [SkeletonPool.step, Option.ite_none_left_eq_some, Option.some_inj] at hq
    rw [← hq.2]
    exact .event (by simp) {
      same := ⟨rfl, rfl, rfl, rfl, rfl, rfl, rfl, rfl, rfl, rfl⟩
      notSpawned := by simp
      notClose := by simp
      notSubmit := by simp
      owned := Or.inl (by simp)
      loses := by simp [Loses]
      calm := by simp
      task := Or.inr (Or.inl rfl) }
  | submit token lazy => exact .submit hq
  | cancelFuture n =>
    simp only [SkeletonPool.step, Option.ite_none_right_eq_some, Option.some_inj] at hq
    rw [← hq.2]
    exact .cancelFuture hq.1
  | send x =>
    simp only [SkeletonPool.step, Option.ite_none_left_eq_some] at hq
    obtain ⟨-, hq⟩ := hq
    split at hq
    · cases hq
      exact .quiet (by simp) ⟨rfl, rfl, ids_assignJob _ _ _, rfl, rfl, rfl, rfl, rfl, rfl, rfl⟩ rfl
    · cases hq
      exact .quiet (by simp) ⟨rfl, rfl, rfl, rfl, rfl, rfl, rfl, rfl, rfl, rfl⟩ rfl
  | sent x =>
    simp only [SkeletonPool.step, Option.ite_none_right_eq_some, Option.some_inj] at hq
    rw [← hq.2]
    exact .quiet (by simp) ⟨rfl, rfl, rfl, rfl, rfl, rfl, rfl, rfl, rfl, rfl⟩ rfl
  | sendFailed x =>
    simp only [SkeletonPool.step] at hq
    split at hq
    · cases hq
    · rw [Option.ite_none_left_eq_some, Option.some_inj] at hq
      rw [← hq.2]
      exact .event (by simp) {
        same := ⟨rfl, rfl, rfl, rfl, rfl, rfl, rfl, rfl, rfl, rfl⟩
        notSpawned := by simp
        notClose := by simp
        notSubmit := by simp
        owned := Or.inl (by simp)
        loses := by simp
        calm := by simp
        task := Or.inl rfl }
  | ready i =>
    simp only [SkeletonPool.step, Option.ite_none_right_eq_some, Option.some_inj] at hq
    rw [← hq.2]
    exact .event (by simp) {
      same := ⟨rfl, rfl, rfl, rfl, rfl, rfl, rfl, rfl, rfl, rfl⟩
      notSpawned := by simp
      notClose := by simp
      notSubmit := by simp
      owned := Or.inr (by simp [Quick])
      loses := by simp [Loses]
      calm := by simp
      task := Or.inl rfl }
  | result i job ok n =>
    simp only [SkeletonPool.step, Option.ite_none_right_eq_some, Option.some_inj] at hq
    have hquiet : Stepped p (.result i job ok n) p :=
      .quiet (by simp) ⟨rfl, rfl, rfl, rfl, rfl, rfl, rfl, rfl, rfl, rfl⟩ rfl
    rw [← hq.2, SkeletonPool.result]
    split
    · exact hquiet
    · split_ifs
      · exact hquiet
      · exact .event (by simp) {
          same := ⟨rfl, rfl, rfl, rfl, rfl, rfl, rfl, rfl, rfl, rfl⟩
          notSpawned := by simp
          notClose := by simp
          notSubmit := by simp
          owned := Or.inr (by simp [Quick])
          loses := by simp [Loses]
          calm := by simp
          task := Or.inl rfl }
  | eof i =>
    simp only [SkeletonPool.step, Option.ite_none_right_eq_some, Option.some_inj] at hq
    rw [← hq.2]
    exact .eof hq.1
  | readerFault i =>
    simp only [SkeletonPool.step, Option.ite_none_right_eq_some, Option.some_inj] at hq
    rw [← hq.2]
    exact .readerFault hq.1
  | readerEnded i =>
    simp only [SkeletonPool.step, Option.ite_none_right_eq_some, Option.some_inj] at hq
    rw [← hq.2]
    exact .quiet (by simp) ⟨rfl, rfl, rfl, rfl, rfl, rfl, rfl, rfl, rfl, rfl⟩ rfl
  | recover =>
    simp only [SkeletonPool.step, Option.ite_none_right_eq_some, Option.some_inj] at hq
    rw [← hq.2]
    exact .event (by simp) {
      same := ⟨rfl, rfl, rfl, rfl, rfl, rfl, rfl, rfl, rfl, rfl⟩
      notSpawned := by simp
      notClose := by simp
      notSubmit := by simp
      owned := Or.inl (by simp)
      loses := by simp [Loses]
      calm := by simp
      task := Or.inr (Or.inr rfl) }
  | resume k spawned =>
    simp only [SkeletonPool.step] at hq
    split at hq
    · cases hq
    · rename_i d hd
      exact .resume hd hq
  | close =>
    simp only [SkeletonPool.step, Option.ite_none_right_eq_some, Option.some_inj, Bool.and_eq_true,
      Option.isNone_iff_eq_none] at hq
    rw [← hq.2]
    exact .close hq.1.2
  | closeNext => exact .closeNext hq

def Clears (p : SkeletonPool) (a : Action) : Prop := a = .closeNext ∧ p.closeTask = some (.slots [])

def Gathered (p : SkeletonPool) : Prop :=
  ∀ e ∈ p.jobs.entries, p.Waiting e.2 → e.1 ∉ settled (p.drives.flatMap Drive.pending)

/-- Each teardown of the run empties the maps only when all outcomes are gathered. -/
def Careful : SkeletonPool → List Action → Prop
  | _, [] => True
  | p, a :: as => (Clears p a → Gathered p) ∧ ∀ q ∈ p.step a, Careful q as

def new (target : ℕ) : SkeletonPool := { core := { target := target } }

section Steps

variable {forgot : Prop} {p q : SkeletonPool}

lemma Inv.new (target : ℕ) : Inv forgot (new target) [] := by
  have hl : ∀ i, ¬ Live (SkeletonPool.new target).core i := fun i ⟨s, hs, _⟩ => by cases hs
  have htr : ∀ i, ¬ Traced (SkeletonPool.new target) [] i := by
    rintro i (hi | ⟨x, hx, -⟩ | ⟨d, hd, -⟩)
    · exact hl i hi
    · cases hx
    · cases hd
  refine ⟨{
    tidy := Tidy.init target
    placed := fun fd s hs => (by cases hs)
    keyed := fun fd i hi => (by cases hi)
    held := fun _ i hi => absurd hi (hl i)
    retired := fun i s hs => (by cases hs)
    dropped := fun i _ => hl i
    gens := List.nodup_nil
    fresh := fun g hg => (by cases hg)
    past := fun i hi => absurd hi (htr i)
    reader := fun d hd => (by cases hd)
    flagged := ?_
    shut := fun c hc => (by cases hc)
    collected := fun w hw => (by cases hw) }, ?_⟩
  · rintro (h | h)
    · cases h
    · exact absurd rfl h
  · exact ⟨fun job n h => (by cases h), fun n f h => (by cases h), fun _ n h => (by cases h),
      List.nodup_nil, fun n h => (by cases h)⟩

lemma Inv.enlist (h : Inv forgot p []) (hopen : p.core.closing = false) (token : String) :
    let job := jobName (p.jobSequence + 1) token
    let r := p.core.apply { kind := .submit, job := some job }
    Inv forgot { p with
      core := r.1
      jobSequence := p.jobSequence + 1
      jobs := p.jobs.set job (p.jobSequence + 1)
      futures := p.futures.set (p.jobSequence + 1) .pending } r.2 := by
  set n := p.jobSequence + 1 with hn
  intro job
  set r : SkeletonPool := { p with
    jobSequence := n
    jobs := p.jobs.set job n
    futures := p.futures.set n .pending } with hr
  have hs : Sound r [] := h.sound.frame rfl rfl rfl h.sound.retired rfl rfl
  -- the new name is not taken, and neither is the new future
  have hfresh : ∀ job' m, p.jobs.get job' = some m → job' ≠ job ∧ m ≠ n := by
    intro job' m hm
    obtain ⟨hle, token', rfl⟩ := h.books.jobs job' m hm
    refine ⟨fun heq => ?_, by omega⟩
    have := jobName_inj heq
    omega
  have hold : ∀ m f, p.futures.get m = some f → m ≠ n := fun m f hm => by
    have := h.books.futures m f hm
    omega
  have hknown : job ∈ r.core.accepts { kind := .submit, job := some job } ++ r.core.known := by
    have hc : r.core.closing = false := hopen
    by_cases hk : job ∈ r.core.known
    · exact List.mem_append_right _ hk
    · refine List.mem_append_left _ ?_
      simp [accepts, hc, hk]
  have hb : Books forgot r (r.core.accepts { kind := .submit, job := some job } ++ r.owed []) := by
    refine ⟨fun job' m hm => ?_, fun m f hm => ?_, fun hf m hm => ?_, h.books.once, fun m hm => ?_⟩
    · simp only [hr, Dict.get_set] at hm ⊢
      split_ifs at hm with heq
      · rw [← Option.some.inj hm]
        exact ⟨le_rfl, token, heq⟩
      · have := h.books.jobs job' m hm
        exact ⟨by omega, this.2⟩
    · simp only [hr, Dict.get_set] at hm ⊢
      split_ifs at hm with heq
      · exact heq.le
      · have := h.books.futures m f hm
        omega
    · simp only [hr, Waiting, Dict.get_set] at hm
      split_ifs at hm with heq
      · refine ⟨job, by simp [hr, heq], ?_⟩
        rw [owed, ← List.append_assoc]
        exact List.mem_append_left _ hknown
      · obtain ⟨job', hj, ho⟩ := h.books.covered hf m hm
        refine ⟨job', ?_, List.mem_append_right _ ho⟩
        exact (Dict.get_set_ne _ _ (hfresh job' m hj).1).trans hj
    · obtain ⟨f, hf, hne⟩ := h.books.done m hm
      exact ⟨f, (Dict.get_set_ne _ _ (hold m f hf)).trans hf, hne⟩
  refine Inv.reduce hs hb ?_ (by simp) (by simp)
  simpa using jobName_ne_empty n token

lemma core_opened {token : String} {lazy : Bool} (h : Inv forgot p [])
    (hq : p.submit token lazy = some q) : p.core.closing = false := by
  cases hc : p.core.closing with
  | false => rfl
  | true =>
    have hp := h.sound.flagged (Or.inl hc)
    cases lazy <;> simp [SkeletonPool.submit, hc, hp] at hq

lemma Inv.submit {token : String} {lazy : Bool} (h : Inv forgot p [])
    (hq : p.submit token lazy = some q) : Inv forgot q [] := by
  have henlist := h.enlist (core_opened h hq) token
  rw [SkeletonPool.submit] at hq
  rw [Option.ite_none_left_eq_some] at hq
  obtain ⟨-, hq⟩ := hq
  cases hq
  exact henlist.drive _ (Or.inl (by simp))

lemma Inv.advance {xs : List ControlEffect} (h : Inv forgot p xs) {c : Closing} (hp : p.closing = true)
    (hs : c ≠ .begun → p.core.closing = true)
    (hc : ∀ waitSet, c = .readers waitSet → ∀ d ∈ p.drives, ∀ i ∈ waitSet,
      d.owner ≠ .reader i) :
    Inv forgot { p with closeTask := some c } xs := by
  refine ⟨{ h.sound with
    flagged := fun _ => hp
    shut := fun c' hc' hne => ?_
    collected := fun waitSet hw d hd i hi ho => ?_ }, h.books.frame rfl rfl rfl rfl⟩
  · cases hc'
    exact hs hne
  · exact absurd ho (hc waitSet (Option.some.inj hw) d hd i hi)

lemma Inv.cancelReaders {waitSet : List SkeletonID} (h : Inv forgot p [])
    (hw : p.closeTask = some (.readers waitSet)) : Inv forgot (p.cancelReaders waitSet) [] := by
  have hsub : (p.cancelReaders waitSet).drives.Sublist p.drives := List.filter_sublist
  have hplay : ((p.cancelReaders waitSet).inPlay []).Sublist (p.inPlay []) := hsub.flatMap _
  refine ⟨h.sound.regroup rfl rfl h.sound.retired rfl rfl hplay.subperm
    fun d hd => Or.inl (hsub.subset hd), ?_⟩
  have hb : Books forgot p ((p.cancelReaders waitSet).owed []) := by
    refine h.books.mono fun job hj => ?_
    rw [owed, List.mem_append] at hj ⊢
    refine hj.imp id fun hj => ?_
    obtain ⟨x, hx, hxj⟩ := List.mem_filterMap.mp hj
    obtain ⟨d, hd, hxd⟩ := List.mem_flatMap.mp hx
    by_cases hkeep : ∀ i ∈ waitSet, d.owner ≠ .reader i
    · refine List.mem_filterMap.mpr ⟨x, List.mem_flatMap.mpr ⟨d, ?_, hxd⟩, hxj⟩
      exact List.mem_filter.mpr ⟨hd, by simpa using hkeep⟩
    · push Not at hkeep
      obtain ⟨i, hi, ho⟩ := hkeep
      have hnil := h.sound.collected waitSet hw d hd i hi ho
      have hmem : job ∈ settled d.pending := List.mem_filterMap.mpr ⟨x, hxd, hxj⟩
      rw [hnil] at hmem
      cases hmem
  exact hb.frame rfl rfl rfl rfl

lemma close_closing (c : ReaperCore) (ht : Tidy c) : (c.apply { kind := .close }).1.closing = true := by
  have hl : Legal c { kind := .close } := ⟨by simp, fun h => by cases h⟩
  refine (dispatch_accounts _ (handle_accounts c _ ht hl).2).2.2.trans ?_
  simp only [handle, close]
  split_ifs with h
  · exact h
  · rfl

lemma Inv.closeNext (h : Inv forgot p []) (hg : ¬ forgot → p.closeTask = some (.slots []) → Gathered p)
    (hq : p.closeNext = some q) : Inv forgot q [] := by
  rw [SkeletonPool.closeNext] at hq
  split_ifs at hq
  split at hq
  · cases hq
  · cases hq
  · rename_i hc
    have hp : p.closing = true := h.sound.flagged (Or.inr (by simp [hc]))
    have h₁ : Inv forgot { p with recoveryTask := false } [] :=
      h.frame rfl rfl rfl h.sound.retired rfl rfl rfl rfl rfl rfl
    have h₂ : Inv forgot (SkeletonPool.apply { p with recoveryTask := false } .closer .nothing
        { kind := .close }) [] :=
      Inv.apply _ h₁ (by simp) (by simp) (fun _ => hp) (Or.inl (by simp))
    obtain ⟨hcore, hclosing, -⟩ := drive_frame .closer .nothing (p.core.apply { kind := .close }).2
      { p with recoveryTask := false, core := (p.core.apply { kind := .close }).1 }
    cases hq
    refine h₂.advance (hclosing.trans hp) (fun _ => ?_) fun waitSet hw d hd i hi ho => ?_
    · exact (congrArg ReaperCore.closing hcore).trans (close_closing p.core h.sound.tidy)
    · cases hw
      obtain ⟨slot, hslot, rfl⟩ := List.mem_map.mp hi
      obtain ⟨fd, hfd⟩ := (Dict.mem_values _ _).mp hslot
      have hid : SkeletonPool.ids _ fd = some slot.identity := congrArg (Option.map Slot.identity) hfd
      have hkey := h₂.sound.keyed fd slot.identity hid
      exact (h₂.sound.reader d hd slot.identity ho).2.2.1 (hkey ▸ hid)
  · rename_i waitSet hc
    have hp : p.closing = true := h.sound.flagged (Or.inr (by simp [hc]))
    have h₂ : Inv forgot ((p.cancelReaders waitSet).apply .closer .nothing { kind := .deadline }) [] :=
      Inv.apply _ (h.cancelReaders hc) (by simp) (by simp) (by simp) (Or.inl (by simp))
    obtain ⟨-, hclosing, htask⟩ := drive_frame .closer .nothing (p.core.apply { kind := .deadline }).2
      { p.cancelReaders waitSet with core := (p.core.apply { kind := .deadline }).1 }
    cases hq
    refine h₂.advance (hclosing.trans hp) (fun _ => ?_) fun w hw => (by cases hw)
    exact h₂.sound.shut _ (htask.trans hc) (by simp)
  · rename_i i left hc
    cases hq
    have hp : p.closing = true := h.sound.flagged (Or.inr (by simp [hc]))
    have h₁ := h.advance (c := .slots left) hp (fun _ => h.sound.shut _ hc (by simp))
      (fun w hw => by cases hw)
    exact Inv.apply .nothing h₁ (by simp) (by simp) (by simp) (Or.inl (by simp))
  · rename_i hc
    cases hq
    have hp : p.closing = true := h.sound.flagged (Or.inr (by simp [hc]))
    have hcore := h.sound.shut _ hc (by simp)
    have hnone : ¬ forgot → ∀ n, ¬ p.Waiting n := by
      intro hf n hn
      obtain ⟨job, hj, ho⟩ := h.books.covered hf n hn
      rw [owed, h.sound.tidy.drained hcore] at ho
      exact hg hf hc (job, n) ((Dict.mem_entries _ _ _).mpr hj) hn ho
    have hnoids : ∀ fd i, SkeletonPool.ids { p with
        slots := Dict.empty, jobs := Dict.empty, started := false, closeTask := some .finished } fd ≠
        some i := fun fd i hi => by cases hi
    refine ⟨{ h.sound with
      keyed := fun fd i hi => absurd hi (hnoids fd i)
      held := fun hopen => by rw [hcore] at hopen; cases hopen
      reader := fun d hd i ho => ?_
      flagged := fun _ => hp
      shut := fun _ _ _ => hcore
      collected := fun w hw => by cases hw },
      ⟨fun job n hj => (by cases hj), h.books.futures, fun hf n hn => absurd hn (hnone hf n),
        h.books.once, h.books.done⟩⟩
    obtain ⟨h₁, h₂, -, h₄⟩ := h.sound.reader d hd i ho
    exact ⟨h₁, h₂, hnoids i.fd i, h₄⟩

lemma Inv.lose {owner : Owner} {i : SkeletonID} (h : Inv forgot p [])
    (ho : (∀ j, owner ≠ .reader j) ∨ owner = .reader i) : Inv forgot (p.lose owner i) [] := by
  rw [SkeletonPool.lose]
  split
  · exact h
  · rename_i slot hs
    rcases ho with ho | rfl
    · exact Inv.apply _ h (by simp) (by simp) (by simp) (Or.inl ho)
    · obtain ⟨hget, hident⟩ := Option.filter_eq_some_iff.mp hs
      have hi : p.ids i.fd = some i := by
        rw [ids, hget, Option.map_some, of_decide_eq_true hident]
      exact h.applyLost _ hi (Or.inl rfl) rfl

lemma Inv.same {xs : List ControlEffect} (h : Inv forgot p xs) (hs : Same p q) : Inv forgot q xs :=
  h.frame hs.core hs.drives hs.ids (hs.retired ▸ h.sound.retired) hs.closeTask hs.closing hs.jobs
    hs.jobSequence hs.futures hs.settlements

lemma Inv.cancelFuture {n : ℕ} (h : Inv forgot p []) (hn : p.Waiting n) :
    Inv forgot { p with futures := p.futures.set n .cancelled } [] := by
  refine ⟨h.sound.frame rfl rfl rfl h.sound.retired rfl rfl, h.books.jobs, fun m f hm => ?_,
    fun hf m hm => ?_, h.books.once, fun m hm => ?_⟩
  · rw [Dict.get_set] at hm
    split_ifs at hm with heq
    · exact heq ▸ h.books.futures n _ hn
    · exact h.books.futures m f hm
  · rw [Waiting, Dict.get_set] at hm
    split_ifs at hm
    · cases hm
    · exact h.books.covered hf m hm
  · rw [Dict.get_set]
    split_ifs
    · exact ⟨_, rfl, by simp⟩
    · exact h.books.done m hm

lemma Inv.step {a : Action} (h : Inv forgot p []) (hg : ¬ forgot → Clears p a → Gathered p)
    (hq : p.step a = some q) : Inv forgot q [] := by
  cases stepped hq with
  | quiet _ same _ => exact h.same same
  | cancelFuture waits => exact h.cancelFuture waits
  | submit submitted => exact h.submit submitted
  | event _ routes =>
    exact (h.same routes.same).apply _ routes.notSpawned.1 routes.notSubmit
      (fun hc => absurd hc routes.notClose) routes.owned
  | eof reads => exact h.lose (Or.inr rfl)
  | readerFault reads =>
    refine Inv.lose (h.same ?_) (Or.inl (by simp))
    exact ⟨rfl, rfl, rfl, rfl, rfl, rfl, rfl, rfl, rfl, rfl⟩
  | resume parked resumed =>
    rename_i k spawned d
    refine (h.unpark parked).resume ?_ resumed
    -- a reader waits only for its child to be reaped
    cases ho : d.owner with
    | reader i => exact Or.inr (h.sound.reader d (List.mem_of_getElem? parked) i ho).2.2.2
    | _ => exact Or.inl (by simp)
  | close opened =>
    have hr : Inv forgot { p with closing := true } [] :=
      ⟨{ h.sound with flagged := fun _ => rfl }, h.books.frame rfl rfl rfl rfl⟩
    exact hr.advance rfl (fun hne => absurd rfl hne) fun w hw => (by cases hw)
  | closeNext moved => exact h.closeNext (fun hf hc => hg hf ⟨rfl, hc⟩) moved

lemma Inv.run (as : List Action) (h : Inv forgot p []) (hg : ¬ forgot → Careful p as)
    (hq : p.run as = some q) : Inv forgot q [] := by
  induction as generalizing p with
  | nil =>
    cases hq
    exact h
  | cons a as ih =>
    obtain ⟨r, hr, hq⟩ := Option.bind_eq_some_iff.mp hq
    exact ih (h.step (fun hf => (hg hf).1) hr) (fun hf => (hg hf).2 r hr) hq

end Steps

/-- Each future is settled at most once. When every teardown that empties the maps has gathered the
outcomes, none is left waiting once the teardown is over and no drive has effects left. -/
theorem futures_settled (target : ℕ) (as : List Action) (q : SkeletonPool)
    (hq : (new target).run as = some q) :
    q.settlements.Nodup ∧ (Careful (new target) as →
      q.closeTask = some .finished → q.drives = [] → ∀ n, ¬ q.Waiting n) := by
  have hall : Inv True q [] := Inv.run as (.new target) (fun h => absurd trivial h) hq
  refine ⟨hall.books.once, ?_⟩
  intro hc hclosed hd n hn
  have h : Inv False q [] := Inv.run as (.new target) (fun _ => hc) hq
  obtain ⟨job, -, ho⟩ := h.books.covered id n hn
  rw [owed, h.sound.tidy.drained (h.sound.shut _ hclosed (by simp)), inPlay, hd] at ho
  cases ho

instance (p : SkeletonPool) (n : ℕ) : Decidable (p.Waiting n) :=
  inferInstanceAs (Decidable (p.futures.get n = some .pending))

instance (p : SkeletonPool) (a : Action) : Decidable (Clears p a) :=
  inferInstanceAs (Decidable (_ ∧ _))

instance (p : SkeletonPool) : Decidable (Gathered p) :=
  inferInstanceAs (Decidable (∀ e ∈ p.jobs.entries, p.Waiting e.2 → _))

instance decidableCareful : (p : SkeletonPool) → (as : List Action) → Decidable (Careful p as)
  | _, [] => isTrue trivial
  | p, a :: as =>
    have : ∀ q, Decidable (Careful q as) := fun q => decidableCareful q as
    inferInstanceAs (Decidable ((Clears p a → Gathered p) ∧ ∀ q ∈ p.step a, Careful q as))

def answeredRun : List Action :=
  [.start, .resume 0 (some 7), .ready ⟨7, 1⟩, .submit "x" false,
    .send { kind := .sendRun, identity := some ⟨7, 1⟩, job := some "1-x" },
    .result ⟨7, 1⟩ "1-x" true { value := some "v" }, .close, .closeNext, .closeNext, .closeNext,
    .resume 0 none, .resume 0 none, .closeNext]

theorem futures_settled_answered : ∃ q, (new 1).run answeredRun = some q ∧ q.closeTask = some .finished ∧
    q.drives = [] ∧ ¬ q.Waiting 1 :=
  ⟨_, rfl, by decide, by decide, (futures_settled 1 answeredRun _ rfl).2 (by decide) (by decide) (by decide) 1⟩

/-- A child dies while it runs a job, and the pool is closed before the child is reaped. -/
def hangingRun : List Action :=
  [.start, .resume 0 (some 7), .ready ⟨7, 1⟩, .submit "x" false,
    .send { kind := .sendRun, identity := some ⟨7, 1⟩, job := some "1-x" }, .eof ⟨7, 1⟩, .close,
    .closeNext, .closeNext, .closeNext, .resume 0 none]

theorem future_left_waiting :
    ∃ q, (new 1).run hangingRun = some q ∧ q.closeTask = some .finished ∧ q.drives = [] ∧
      q.Waiting 1 := by
  refine ⟨_, rfl, by decide, by decide, by decide⟩

end Reaper.Pool.SkeletonPool
