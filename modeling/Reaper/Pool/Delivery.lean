import Reaper.Pool.Sends
import Reaper.Pool.Awaited
import Reaper.Pool.Loop

/-! Where a job is between its slot and its child, and that every step of the pool and its children knows it. -/

namespace Reaper.Pool

open Reaper.Library Reaper.Worker Child ReaperCore SkeletonPool

def ControlSlot.Runs (s : ControlSlot) (job : String) : Prop := s.state = .running ∧ s.job = some job

def SkeletonPool.Rests (p : SkeletonPool) (i : SkeletonID) : Prop :=
  ∀ job, sendRun i job ∉ p.sends ∧ sendRun i job ∉ p.sending

/-- Where a slot and its child stand, with the notes in the inbox, those in the outbox, and a bound on the steps
that the job of a running slot still takes. -/
inductive Stage (h : Host) (p : SkeletonPool) (works : Dict String Work) (i : SkeletonID) (c : Child)
    (s : ControlSlot) : List Message → List Message → ℕ → Prop
  | booting {out : List Message} (state : s.state = .starting) (rests : p.Rests i) (boots : Booting c)
    (mute : ∀ m ∈ out, m.mute) : Stage h p works i c s [] out 0
  | ready {out : List Message} (state : s.state = .starting) (rests : p.Rests i) (waits : Waiting c)
    (mute : ∀ m ∈ out, m.mute) : Stage h p works i c s [] (out ++ [.ready]) 0
  | idle (state : s.state = .idle) (rests : p.Rests i) (waits : Waiting c) : Stage h p works i c s [] [] 0
  | queued {job : String} (runs : s.Runs job) (sends : sendRun i job ∈ p.sends) (waits : Waiting c) :
    Stage h p works i c s [] [] (13 + c.distance)
  | inside {job : String} (runs : s.Runs job) (sends : ∀ job, sendRun i job ∉ p.sends)
    (sending : sendRun i job ∈ p.sending) (waits : Waiting c) : Stage h p works i c s [] [] (12 + c.distance)
  | arrived {job : String} {work : Work} (runs : s.Runs job) (given : works.get job = some work) (rests : p.Rests i)
    (waits : Waiting c) : Stage h p works i c s [.run work] [] (10 + c.distance)
  | working {job : String} {work : Work} {out : List Message} (runs : s.Runs job)
    (given : works.get job = some work) (rests : p.Rests i) (labours : Working h work c) (mute : ∀ m ∈ out, m.mute) :
    Stage h p works i c s [] out (c.distance + out.length)
  | answered {job : String} {work : Work} {r : Result} {out : List Message} (runs : s.Runs job)
    (given : works.get job = some work) (rests : p.Rests i) (waits : Waiting c) (answers : Answers h work r)
    (mute : ∀ m ∈ out, m.mute) : Stage h p works i c s [] (out ++ [.result r]) (c.distance + (out.length + 1))
  | doomed {job : String} {work : Work} {out : List Message} (runs : s.Runs job) (given : works.get job = some work)
    (rests : p.Rests i) (dies : Doomed c) (unanswered : ∀ r, ¬ Answers h work r) (mute : ∀ m ∈ out, m.mute) :
    Stage h p works i c s [] out 0

def Workshop.Stands (h : Host) (w : Workshop) (i : SkeletonID) (s : ControlSlot) (n : ℕ) : Prop :=
  ∃ c inn out, w.children.get i = some c ∧ Carries h c.inbox inn ∧ Carries h c.outbox out ∧
    Stage h w.pool w.works i c s inn out n

structure Agreed (h : Host) (w : Workshop) : Prop where
  sending : Sending w.pool
  awaited : Awaited w.pool []
  works : ∀ job n, w.pool.jobs.get job = some n → ∃ work, w.works.get job = some work ∧ work.id = job
  stands : ∀ i s, w.pool.core.find (some i) = some s → ∃ n, w.Stands h i s n

def Event.serves (i : SkeletonID) : Event → Bool
  | .parent (.send x) | .deliver x => x.identity = some i
  | .child j | .receive j => j = i
  | _ => false

def Host.Carried (h : Host) (work : Work) : Prop := h.frames (.run work) ∧ ∃ r, Answers h work r

lemma ControlSlot.Runs.not_carried {h : Host} {works : Dict String Work} {s : ControlSlot} {job job' : String}
    {work work' : Work} (runs : s.Runs job) (given : works.get job = some work)
    (unanswered : ∀ r, ¬ Answers h work r) (hruns : s.Runs job') (hgiven : works.get job' = some work') :
    ¬ h.Carried work' := by
  obtain rfl := Option.some.inj (runs.2.symm.trans hruns.2)
  cases given.symm.trans hgiven
  rintro ⟨-, r, hr⟩
  exact unanswered r hr

inductive Turns (h : Host) (w : Workshop) (t : Event) (v : Workshop) (i : SkeletonID) (s : ControlSlot) (n : ℕ) : Prop
  | same {m : ℕ} (find : v.pool.core.find (some i) = some s) (stands : v.Stands h i s m) (le : m ≤ n)
    (less : t.serves i → ∀ job work, s.Runs job → w.works.get job = some work → h.Carried work → m < n)
  | next {s' : ControlSlot} {m : ℕ} (other : s.state ≠ .running) (find : v.pool.core.find (some i) = some s')
    (stands : v.Stands h i s' m)
  | replied {job : String} {work : Work} {r : Result} {s' : ControlSlot} {m : ℕ} (runs : s.Runs job)
    (given : w.works.get job = some work) (answers : Answers h work r) (rests : w.pool.Rests i)
    (routed : w.routed h t = some (.result i job r.ok r.note)) (find : v.pool.core.find (some i) = some s')
    (stands : v.Stands h i s' m)
  | lost (find : v.pool.core.find (some i) = none) (unfit : ∀ job work, s.Runs job → w.works.get job = some work →
      ¬ h.Carried work)

structure Passes (h : Host) (w : Workshop) (t : Event) (v : Workshop) : Prop where
  sending : Sending v.pool
  works : ∀ job work, w.works.get job = some work → job ∈ w.pool.core.known → v.works.get job = some work
  old : ∀ i s n, w.pool.core.find (some i) = some s → w.Stands h i s n → Turns h w t v i s n
  new : ∀ i s, v.pool.core.find (some i) = some s → w.pool.core.find (some i) = none → ∃ n, v.Stands h i s n

section Transfer

variable {h : Host} {p q : SkeletonPool} {works works' : Dict String Work} {i : SkeletonID} {c : Child}
  {s : ControlSlot} {inn out : List Message} {n : ℕ} {w v : Workshop} {t : Event}

lemma known_of_runs {core : ReaperCore} (ht : Tidy core) {job : String} (hs : core.find (some i) = some s)
    (hr : s.Runs job) : job ∈ core.known := by
  have hmem : s ∈ core.slots.values := (Dict.mem_values _ _).mpr ⟨_, find_spec hs⟩
  exact (mem_known ht job).mpr (Or.inr ⟨s, hmem, hr.1, hr.2⟩)

lemma Stage.transfer (hst : Stage h p works i c s inn out n)
    (hs : ∀ job, sendRun i job ∈ q.sends ↔ sendRun i job ∈ p.sends)
    (hg : ∀ job, sendRun i job ∈ q.sending ↔ sendRun i job ∈ p.sending)
    (hw : ∀ job work, s.Runs job → works.get job = some work → works'.get job = some work) :
    Stage h q works' i c s inn out n := by
  have hrests : p.Rests i → q.Rests i := fun hr job => by
    rw [hs, hg]
    exact hr job
  cases hst with
  | booting state rests boots mute => exact .booting state (hrests rests) boots mute
  | ready state rests waits mute => exact .ready state (hrests rests) waits mute
  | idle state rests waits => exact .idle state (hrests rests) waits
  | queued runs sends waits => exact .queued runs ((hs _).mpr sends) waits
  | inside runs sends sending waits =>
    exact .inside runs (fun job hm => sends job ((hs job).mp hm)) ((hg _).mpr sending) waits
  | arrived runs given rests waits => exact .arrived runs (hw _ _ runs given) (hrests rests) waits
  | working runs given rests labours mute => exact .working runs (hw _ _ runs given) (hrests rests) labours mute
  | answered runs given rests waits answers mute =>
    exact .answered runs (hw _ _ runs given) (hrests rests) waits answers mute
  | doomed runs given rests dies unanswered mute =>
    exact .doomed runs (hw _ _ runs given) (hrests rests) dies unanswered mute

lemma Stage.rests (hst : Stage h p works i c s inn out n) (hs : s.state = .idle) :
    p.Rests i ∧ Waiting c ∧ inn = [] ∧ out = [] := by
  cases hst with
  | idle state rests waits => exact ⟨rests, waits, rfl, rfl⟩
  | booting state _ _ _ | ready state _ _ _ => cases hs.symm.trans state
  | queued runs _ _ | inside runs _ _ _ | arrived runs _ _ _ | working runs _ _ _ _ | answered runs _ _ _ _ _
  | doomed runs _ _ _ _ _ => cases hs.symm.trans runs.1

lemma Workshop.Stands.elsewhere (hst : w.Stands h i s n) (hfind : w.pool.core.find (some i) = some s)
    (he : Elsewhere w.pool v.pool i) (hc : v.children.get i = w.children.get i) (ht : t.serves i = false)
    (hw : ∀ job work, s.Runs job → w.works.get job = some work → v.works.get job = some work) :
    Turns h w t v i s n := by
  obtain ⟨c, inn, out, hchild, hin, hout, hstage⟩ := hst
  cases he.slot with
  | kept find sends =>
    refine .same (find.trans hfind) ⟨c, inn, out, hc.trans hchild, hin, hout, hstage.transfer sends he.sending hw⟩
      le_rfl fun hserves => ?_
    rw [ht] at hserves
    cases hserves
  | took was idle find sends =>
    cases hfind.symm.trans was
    obtain ⟨-, waits, rfl, rfl⟩ := hstage.rests idle
    exact .next (by simp [idle]) find ⟨c, [], [], hc.trans hchild, hin, hout, .queued ⟨rfl, rfl⟩ sends waits⟩

lemma Workshop.Stands.moves {m : ℕ} (hfind : v.pool.core.find (some i) = some s) (hst : v.Stands h i s m)
    (hless : m < n) : Turns h w t v i s n :=
  .same hfind hst hless.le fun _ _ _ _ _ _ => hless

lemma Passes.of_each (hs : Sending v.pool)
    (hw : ∀ job work, w.works.get job = some work → job ∈ w.pool.core.known → v.works.get job = some work)
    (hinv : Tidy w.pool.core)
    (heach : ∀ i, (Elsewhere w.pool v.pool i ∧ v.children.get i = w.children.get i ∧ t.serves i = false) ∨
      (∀ s n, w.pool.core.find (some i) = some s → w.Stands h i s n → Turns h w t v i s n) ∧
      (∀ s, v.pool.core.find (some i) = some s → w.pool.core.find (some i) = none → ∃ n, v.Stands h i s n)) :
    Passes h w t v where
  sending := hs
  works := hw
  old := by
    intro i s n hfind hst
    rcases heach i with ⟨helse, hchild, hserves⟩ | ⟨hold, -⟩
    · exact hst.elsewhere hfind helse hchild hserves fun job work hruns hgiven =>
        hw job work hgiven (known_of_runs hinv hfind hruns)
    · exact hold s n hfind hst
  new := by
    intro i s hfind hnone
    rcases heach i with ⟨helse, -, -⟩ | ⟨-, hnew⟩
    · cases helse.slot with
      | kept find _ => cases hfind.symm.trans (find.trans hnone)
      | took was _ _ _ => cases hnone.symm.trans was
    · exact hnew s hfind hnone

end Transfer

namespace Workshop

variable {h : Host} {w v : Workshop} {t : Event} {i : SkeletonID}

lemma step_cases (hv : w.step h t = some v) : ∃ r, w.turn h t = some r ∧
    (r.action = none ∧ v = r.workshop ∨
      ∃ a p, r.action = some a ∧ r.workshop.pool.step a = some p ∧ v = { r.workshop with pool := p }) := by
  rw [step] at hv
  obtain ⟨r, hr, hv⟩ := Option.bind_eq_some_iff.mp hv
  refine ⟨r, hr, ?_⟩
  cases ha : r.action with
  | none =>
    rw [ha] at hv
    exact Or.inl ⟨rfl, (Option.some.inj hv).symm⟩
  | some a =>
    simp only [ha] at hv
    obtain ⟨p, hp, hv⟩ := Option.bind_eq_some_iff.mp hv
    exact Or.inr ⟨a, p, rfl, hp, (Option.some.inj hv).symm⟩

lemma step_quiet {r : Turn} (hr : w.turn h t = some r) (ha : r.action = none) (hv : w.step h t = some v) :
    v = r.workshop := by
  obtain ⟨r', hr', ⟨-, hv⟩ | ⟨a, p, ha', -, -⟩⟩ := step_cases hv
  · cases hr.symm.trans hr'
    exact hv
  · cases hr.symm.trans hr'
    cases ha.symm.trans ha'

lemma step_acts {r : Turn} {a : SkeletonPool.Action} (hr : w.turn h t = some r) (ha : r.action = some a)
    (hv : w.step h t = some v) : ∃ p, r.workshop.pool.step a = some p ∧ v = { r.workshop with pool := p } := by
  obtain ⟨r', hr', ⟨ha', -⟩ | ⟨a', p, ha', hp, hv⟩⟩ := step_cases hv
  · cases hr.symm.trans hr'
    cases ha.symm.trans ha'
  · cases hr.symm.trans hr'
    cases ha.symm.trans ha'
    exact ⟨p, hp, hv⟩

lemma routed_eq {r : Turn} (hr : w.turn h t = some r) : w.routed h t = r.action := by
  rw [routed, hr, Option.bind_some]

end Workshop

lemma SkeletonPool.resume_free {p q : SkeletonPool} {k : ℕ} {fd : ℤ} (hq : p.step (.resume k (some fd)) = some q) :
    p.slots.get fd = none := by
  rw [SkeletonPool.step] at hq
  split at hq
  · cases hq
  · cases SkeletonPool.resumed hq with
    | spawned _ _ _ free => exact free

section Passing

variable {h : Host} {w v : Workshop} {i : SkeletonID} {s : ControlSlot} {job : String}

lemma Agreed.held (ha : Agreed h w) (hfind : w.pool.core.find (some i) = some s) : w.holds i = true := by
  have hsound := ha.sending.inv.sound
  obtain ⟨slot, hslot, hid⟩ := Option.map_eq_some_iff.mp
    (hsound.held (core_open hsound ha.sending.opened) i (live_find.mpr ⟨s, hfind⟩))
  simp [Workshop.holds, hslot, hid]

lemma Agreed.reading (ha : Agreed h w) (hfind : w.pool.core.find (some i) = some s) : w.pool.reading i = true := by
  have hlive := live_find.mpr ⟨s, hfind⟩
  have hholds := ha.held hfind
  rw [Workshop.holds] at hholds
  have hdrives : ∀ d ∈ w.pool.drives, d.owner ≠ .reader i := fun d hd ho =>
    (ha.sending.inv.sound.reader d hd i ho).1 hlive
  rw [SkeletonPool.reading, decide_eq_true_eq, ha.sending.uncancelled]
  exact ⟨ha.sending.reads i hlive, by simp, hdrives, hholds⟩

lemma Agreed.known (ha : Agreed h w) (hfind : w.pool.core.find (some i) = some s) (hruns : s.Runs job) :
    (∃ n, w.pool.jobs.get job = some n ∧ w.pool.Open n) ∧
      ∃ work, w.works.get job = some work ∧ work.id = job ∧ job ≠ "" := by
  have hknown := known_of_runs ha.sending.inv.sound.tidy hfind hruns
  obtain ⟨n, hn, ho⟩ := ha.awaited.kept job hknown
  obtain ⟨work, hwork, hid⟩ := ha.works job n hn
  obtain ⟨m, token, -, hname⟩ := ha.awaited.past job (List.mem_append_left _ hknown)
  exact ⟨⟨n, hn, ho⟩, work, hwork, hid, hname ▸ jobName_ne_empty m token⟩

lemma Agreed.submit {token : String} {lazy : Bool} {kind : WorkerKind} {target : String} {args : List String}
    {options : List (String × String)} (ha : Agreed h w)
    (hv : w.step h (.submit token lazy kind target args options) = some v) :
    Passes h w (.submit token lazy kind target args options) v := by
  set t : Event := .submit token lazy kind target args options with ht
  have htidy := ha.sending.inv.sound.tidy
  set work : Work :=
    { id := jobName (w.pool.jobSequence + 1) token, kind := kind, target := target, args := args, options := options }
    with hwork
  by_cases hdumps : (h.pickle.dumps (.work work)).isSome
  · have hturn : w.turn h t = some ⟨w.submitted work, some (.submit token lazy)⟩ := by
      rw [ht, Workshop.turn]
      exact if_pos hdumps
    obtain ⟨p, hp, rfl⟩ := Workshop.step_acts hturn rfl hv
    obtain ⟨hs, helse⟩ := ha.sending.submit hp
    refine .of_each hs (fun job' given hgiven hknown => ?_) htidy fun i => Or.inl ⟨helse i, rfl, rfl⟩
    have hne : job' ≠ work.id := by
      rintro rfl
      obtain ⟨n, token', hle, heq⟩ := ha.awaited.past work.id (List.mem_append_left _ hknown)
      have hnumber := jobName_inj heq
      omega
    exact (Dict.get_set_ne _ _ hne).trans hgiven
  · have hturn : w.turn h t = if (w.pool.submit token lazy).isSome then
        some ⟨{ w with pool := { w.pool with jobSequence := w.pool.jobSequence + 1 } }, none⟩ else none := by
      rw [ht, Workshop.turn]
      exact if_neg hdumps
    split_ifs at hturn with hsubmit
    · obtain rfl := Workshop.step_quiet hturn rfl hv
      obtain ⟨hs, helse⟩ := ha.sending.skipNumber
      exact .of_each hs (fun _ _ hgiven _ => hgiven) htidy fun i => Or.inl ⟨helse i, rfl, rfl⟩
    · obtain ⟨r, hr, -⟩ := Workshop.step_cases hv
      cases hturn.symm.trans hr

lemma Agreed.elsewhere {a : SkeletonPool.Action} (ha : Agreed h w)
    (hturn : w.turn h (.parent a) = some ⟨w, some a⟩) (hv : w.step h (.parent a) = some v)
    (hserves : ∀ i, (Event.parent a).serves i = false)
    (hstep : ∀ p, w.pool.step a = some p → Sending p ∧ ∀ i, Elsewhere w.pool p i) : Passes h w (.parent a) v := by
  obtain ⟨p, hp, rfl⟩ := Workshop.step_acts hturn rfl hv
  obtain ⟨hs, helse⟩ := hstep p hp
  exact .of_each hs (fun _ _ hgiven _ => hgiven) ha.sending.inv.sound.tidy fun i => Or.inl ⟨helse i, rfl, hserves i⟩

lemma Agreed.send {x : ControlEffect} (ha : Agreed h w) (hv : w.step h (.parent (.send x)) = some v) :
    Passes h w (.parent (.send x)) v := by
  have hturn : w.turn h (.parent (.send x)) = some ⟨w, some (.send x)⟩ := rfl
  obtain ⟨p, hp, rfl⟩ := Workshop.step_acts hturn rfl hv
  obtain ⟨hs, hcore, helse, hown⟩ := ha.sending.send hp
  have hx : x ∈ w.pool.sends := by
    rw [SkeletonPool.step, Option.ite_none_left_eq_some, not_not] at hp
    exact hp.1
  obtain ⟨i, job, rfl, -, hrun⟩ := ha.sending.addressed x (List.mem_append_left _ hx)
  refine .of_each hs (fun _ _ hgiven _ => hgiven) ha.sending.inv.sound.tidy fun j => ?_
  by_cases hj : j = i
  · subst hj
    refine Or.inr ⟨fun s n hfind hst => ?_, fun s hfind hnone => ?_⟩
    · obtain ⟨⟨m, hm, -⟩, -⟩ := ha.known hfind (hrun s hfind)
      obtain ⟨hin, hout⟩ := hown j job rfl (live_find.mpr ⟨s, hfind⟩) (hm ▸ rfl)
      obtain ⟨c, inn, out, hc, hcin, hcout, hstage⟩ := hst
      have hqueued : ∀ job', sendRun j job' ∉ p.sends := fun job' hm' => by
        obtain ⟨k, job'', heq, -, hrun'⟩ := hs.addressed _ (List.mem_append_left _ hm')
        cases heq
        have hjob := (hrun' s (hcore ▸ hfind)).2
        rw [(hrun s hfind).2] at hjob
        cases hjob
        exact hout hm'
      have hrests : ¬ w.pool.Rests j := fun hr => (hr job).1 hx
      cases hstage with
      | queued runs sends waits =>
        obtain rfl := Option.some.inj (runs.2.symm.trans (hrun s hfind).2)
        refine Workshop.Stands.moves (m := 12 + c.distance) (hcore ▸ hfind)
          ⟨c, [], [], hc, hcin, hcout, .inside runs hqueued hin waits⟩ ?_
        omega
      | inside _ sends _ _ => exact absurd hx (sends job)
      | booting _ rests _ _ | ready _ rests _ _ | idle _ rests _ | arrived _ _ rests _ | working _ _ rests _ _
      | answered _ _ rests _ _ _ | doomed _ _ rests _ _ _ => exact absurd rests hrests
    · cases (hcore ▸ hfind : w.pool.core.find (some j) = some s).symm.trans hnone
  · refine Or.inl ⟨helse j fun hi => hj (Option.some.inj hi).symm, rfl, ?_⟩
    simpa [Event.serves, sendRun] using fun hi => hj hi.symm

lemma Agreed.parked {k : ℕ} (ha : Agreed h w) (hv : w.step h (.parent (.resume k none)) = some v) :
    Passes h w (.parent (.resume k none)) v := by
  refine ha.elsewhere rfl hv (fun _ => rfl) fun p hp => ?_
  obtain ⟨hs, helse⟩ := ha.sending.resume hp
  refine ⟨hs, fun i => (helse i).resolve_right ?_⟩
  rintro ⟨⟨fd, d, x, hnone, -⟩, -⟩
  cases hnone

lemma Agreed.spawned {k : ℕ} {fd : ℤ} (ha : Agreed h w) (hv : w.step h (.parent (.resume k (some fd))) = some v) :
    Passes h w (.parent (.resume k (some fd))) v := by
  have hsound := ha.sending.inv.sound
  have hturn : w.turn h (.parent (.resume k (some fd))) =
      (w.born k fd).map fun i => ⟨w.place i (.boot h), some (.resume k (some fd))⟩ := rfl
  cases hborn : w.born k fd with
  | none =>
    rw [hborn] at hturn
    obtain ⟨r, hr, -⟩ := Workshop.step_cases hv
    cases hturn.symm.trans hr
  | some b =>
    rw [hborn, Option.map_some] at hturn
    obtain ⟨p, hp, rfl⟩ := Workshop.step_acts hturn rfl hv
    obtain ⟨d, hd, hborn⟩ := Option.bind_eq_some_iff.mp hborn
    obtain ⟨x, hx, hborn⟩ := Option.bind_eq_some_iff.mp hborn
    obtain ⟨gen, hgen, hborn⟩ := Option.bind_eq_some_iff.mp hborn
    obtain rfl := Option.some.inj hborn
    have hnone : w.pool.core.find (some ⟨fd, gen⟩) = none := by
      have hfree := hsound.free (core_open hsound ha.sending.opened) (resume_free hp)
      rw [ReaperCore.find, hfree]
      rfl
    obtain ⟨hs, helse⟩ := ha.sending.resume hp
    refine .of_each hs (fun _ _ hgiven _ => hgiven) hsound.tidy fun i => ?_
    by_cases hi : i = ⟨fd, gen⟩
    · subst hi
      refine Or.inr ⟨fun s n hfind _ => (by cases hnone.symm.trans hfind), fun s hfind _ => ?_⟩
      rcases helse ⟨fd, gen⟩ with helse | ⟨-, -, hfree, hnew⟩
      · cases helse.slot with
        | kept find _ => cases hnone.symm.trans (find.symm.trans hfind)
        | took was _ _ _ => cases hnone.symm.trans was
      · cases hfind.symm.trans hnew
        refine ⟨0, .boot h, [], [], Dict.get_set_self _ _ _, .empty _, .empty _, .booting rfl (fun job => ?_)
          (.starts rfl rfl) (by simp)⟩
        exact not_or.mp fun hm => hfree job (List.mem_append.mpr hm)
    · refine Or.inl ⟨(helse i).resolve_right ?_, Dict.get_set_ne _ _ hi, rfl⟩
      rintro ⟨⟨fd', d', x', hfd, hd', hx', hgen', rfl⟩, -⟩
      cases hfd
      cases hd.symm.trans hd'
      cases hx.symm.trans hx'
      cases hgen.symm.trans hgen'
      exact hi rfl

lemma Agreed.parent {a : SkeletonPool.Action} (ha : Agreed h w) (hv : w.step h (.parent a) = some v) :
    Passes h w (.parent a) v := by
  cases a with
  | start => exact ha.elsewhere rfl hv (fun _ => rfl) fun p hp => ha.sending.start hp
  | cancelFuture n => exact ha.elsewhere rfl hv (fun _ => rfl) fun p hp => ha.sending.cancelFuture hp
  | recover => exact ha.elsewhere rfl hv (fun _ => rfl) fun p hp => ha.sending.recover hp
  | send x => exact ha.send hv
  | resume k spawned =>
    cases spawned with
    | none => exact ha.parked hv
    | some fd => exact ha.spawned hv
  | _ => cases hv

lemma Stage.sent {inn out : List Message} {n : ℕ} {c : Child} (ha : Agreed h w)
    (hst : Stage h w.pool w.works i c s inn out n) (hx : sendRun i job ∈ w.pool.sending) (hruns : s.Runs job) :
    Waiting c ∧ inn = [] ∧ out = [] ∧ n = 12 + c.distance ∧ ∀ job, sendRun i job ∉ w.pool.sends := by
  cases hst with
  | inside _ sends _ waits => exact ⟨waits, rfl, rfl, rfl, sends⟩
  | queued runs sends _ =>
    obtain rfl := Option.some.inj (runs.2.symm.trans hruns.2)
    exact absurd rfl ((List.nodup_append.mp ha.sending.once).2.2 _ sends _ hx)
  | booting _ rests _ _ | ready _ rests _ _ | idle _ rests _ | arrived _ _ rests _ | working _ _ rests _ _
  | answered _ _ rests _ _ _ | doomed _ _ rests _ _ _ => exact absurd hx (rests job).2

lemma Agreed.deliver {x : ControlEffect} (hh : Faithful h) (ha : Agreed h w) (hv : w.step h (.deliver x) = some v) :
    Passes h w (.deliver x) v := by
  have htidy := ha.sending.inv.sound.tidy
  have haddressed : x ∈ w.pool.sending → ∃ i job, x = sendRun i job ∧
      ∀ s, w.pool.core.find (some i) = some s → s.Runs job := fun hx => by
    obtain ⟨i, job, heq, -, hrun⟩ := ha.sending.addressed x (List.mem_append_right _ hx)
    exact ⟨i, job, heq, hrun⟩
  cases hd : w.delivered h x with
  | some arrival =>
    obtain ⟨i, c'⟩ := arrival
    have hturn : w.turn h (.deliver x) = some ⟨w.place i c', some (.sent x)⟩ := by
      rw [Workshop.turn]
      simp only [hd]
    obtain ⟨p, hp, rfl⟩ := Workshop.step_acts hturn rfl hv
    have hx : x ∈ w.pool.sending := by
      rw [SkeletonPool.step, Option.ite_none_right_eq_some] at hp
      exact hp.1
    obtain ⟨j, hj, hd⟩ := Option.bind_eq_some_iff.mp hd
    obtain ⟨work, hwork, hd⟩ := Option.bind_eq_some_iff.mp hd
    obtain ⟨c, hc, hd⟩ := Option.bind_eq_some_iff.mp hd
    obtain ⟨frame, hframe, hd⟩ := Option.bind_eq_some_iff.mp hd
    rw [Option.ite_none_right_eq_some] at hd
    cases hd.2
    obtain ⟨i', job, rfl, hrun⟩ := haddressed hx
    cases hj
    obtain ⟨hs, hcore, hsends, hout, helse⟩ := ha.sending.sent hp
    refine .of_each hs (fun _ _ hgiven _ => hgiven) htidy fun j => ?_
    by_cases hj : j = i
    · subst hj
      refine Or.inr ⟨fun s n hfind hst => ?_, fun s hfind hnone => ?_⟩
      · obtain ⟨c₀, inn, out, hc₀, hin, hcout, hstage⟩ := hst
        cases hc.symm.trans hc₀
        obtain ⟨hwaits, rfl, rfl, rfl, hnone⟩ := hstage.sent ha hx (hrun s hfind)
        refine Workshop.Stands.moves (m := 10 + c.distance) (hcore ▸ hfind)
          ⟨{ c with inbox := c.inbox.write frame }, [.run work], [], Dict.get_set_self _ _ _,
            hin.write (hh.crosses (by simp) hframe), hcout, .arrived (hrun s hfind) hwork (fun job' => ?_) ?_⟩ ?_
        · refine ⟨hsends ▸ hnone job', fun hm => ?_⟩
          obtain ⟨k, job'', heq, -, hrun'⟩ := hs.addressed _ (List.mem_append_right _ hm)
          cases heq
          obtain rfl := Option.some.inj ((hrun' s (hcore ▸ hfind)).2.symm.trans (hrun s hfind).2)
          exact hout hm
        · exact hwaits.congr rfl rfl
        · omega
      · cases (hcore ▸ hfind : w.pool.core.find (some j) = some s).symm.trans hnone
    · refine Or.inl ⟨helse j fun hi => hj (Option.some.inj hi).symm, Dict.get_set_ne _ _ hj, ?_⟩
      simpa [Event.serves, sendRun] using fun hi => hj hi.symm
  | none =>
    have hturn : w.turn h (.deliver x) = some ⟨w, some (.sendFailed x)⟩ := by
      rw [Workshop.turn]
      simp only [hd]
    obtain ⟨p, hp, rfl⟩ := Workshop.step_acts hturn rfl hv
    have hx : x ∈ w.pool.sending := by
      rw [SkeletonPool.step] at hp
      split at hp
      · cases hp
      · rw [Option.ite_none_left_eq_some, not_not] at hp
        exact hp.1
    obtain ⟨i, job, rfl, hrun⟩ := haddressed hx
    obtain ⟨hs, hgone, helse⟩ := ha.sending.sendFailed rfl hp
    refine .of_each hs (fun _ _ hgiven _ => hgiven) htidy fun j => ?_
    by_cases hj : j = i
    · subst hj
      refine Or.inr ⟨fun s n hfind hst => .lost hgone fun job' work hruns hgiven hcarried => ?_, fun s hfind => ?_⟩
      · obtain rfl := Option.some.inj (hruns.2.symm.trans (hrun s hfind).2)
        obtain ⟨c, inn, out, hc, -, -, hstage⟩ := hst
        obtain ⟨hwaits, -⟩ := hstage.sent ha hx hruns
        obtain ⟨frame, hframe⟩ := Option.isSome_iff_exists.mp hcarried.1
        have hgot : w.works.get ((sendRun j job').job.getD "") = some work := hgiven
        simp [Workshop.delivered, sendRun, hgiven, hc, hframe, ha.held hfind, hwaits.alive] at hd
      · cases hgone.symm.trans hfind
    · refine Or.inl ⟨helse j hj, rfl, ?_⟩
      simpa [Event.serves, sendRun] using fun hi => hj hi.symm

lemma Stage.step {p : SkeletonPool} {works : Dict String Work} {c c' : Child} {inn out : List Message} {n : ℕ}
    (hh : Honest h) (hst : Stage h p works i c s inn out n) (hin : Carries h c.inbox inn)
    (hout : Carries h c.outbox out) (hstep : c.step h = some c')
    (hid : ∀ job work, s.Runs job → works.get job = some work → work.id ≠ "") :
    ∃ inn' out' m, Carries h c'.inbox inn' ∧ Carries h c'.outbox out' ∧ Stage h p works i c' s inn' out' m ∧ m ≤ n ∧
      ∀ job work, s.Runs job → works.get job = some work → h.Carried work → m < n := by
  have hstarts : s.state = .starting → ∀ job, ¬ s.Runs job := fun hs job hruns => by cases hs.symm.trans hruns.1
  cases hst with
  | booting state rests boots mute =>
    obtain ⟨c'', hstep', hnext⟩ := booting_step hh boots
    cases hstep.symm.trans hstep'
    rcases hnext with ⟨hboots, m, hm, hutters⟩ | ⟨hwaits, hutters⟩
    · refine ⟨[], _, 0, hutters.inbox ▸ hin, hutters.outbox _ hout, .booting state rests hboots ?_, le_rfl,
        fun job _ hruns => absurd hruns (hstarts state job)⟩
      simpa [or_imp, forall_and] using ⟨mute, hm⟩
    · exact ⟨[], _, 0, hutters.inbox ▸ hin, hutters.outbox _ hout, .ready state rests hwaits mute, le_rfl,
        fun job _ hruns => absurd hruns (hstarts state job)⟩
  | ready state rests waits mute =>
    obtain ⟨hwaits, hutters, -⟩ := waiting_step waits hin hstep
    have hout' := hutters.outbox _ hout
    rw [List.append_nil] at hout'
    exact ⟨[], _, 0, hutters.inbox ▸ hin, hout', .ready state rests hwaits mute, le_rfl,
      fun job _ hruns => absurd hruns (hstarts state job)⟩
  | idle state rests waits =>
    obtain ⟨hwaits, hutters, -⟩ := waiting_step waits hin hstep
    exact ⟨[], _, 0, hutters.inbox ▸ hin, hutters.outbox _ hout, .idle state rests hwaits, le_rfl,
      fun job _ hruns => (by cases state.symm.trans hruns.1)⟩
  | queued runs sends waits =>
    obtain ⟨hwaits, hutters, hless⟩ := waiting_step waits hin hstep
    exact ⟨[], _, _, hutters.inbox ▸ hin, hutters.outbox _ hout, .queued runs sends hwaits, by omega,
      fun _ _ _ _ _ => by omega⟩
  | inside runs sends sending waits =>
    obtain ⟨hwaits, hutters, hless⟩ := waiting_step waits hin hstep
    exact ⟨[], _, _, hutters.inbox ▸ hin, hutters.outbox _ hout, .inside runs sends sending hwaits, by omega,
      fun _ _ _ _ _ => by omega⟩
  | arrived runs given rests waits =>
    obtain ⟨c'', hstep', hnext⟩ := waiting_read waits hin
    cases hstep.symm.trans hstep'
    rcases hnext with ⟨hwaits, hutters, hless⟩ | ⟨hworks, hin', hout', hdistance⟩
    · exact ⟨_, _, _, hutters.inbox ▸ hin, hutters.outbox _ hout, .arrived runs given rests hwaits, by omega,
        fun _ _ _ _ _ => by omega⟩
    · have hlength : ([] : List Message).length = 0 := rfl
      exact ⟨[], [], _, hin', hout' ▸ hout, .working runs given rests hworks (by simp), by omega,
        fun _ _ _ _ _ => by omega⟩
  | working runs given rests labours mute =>
    obtain ⟨c'', hstep', hnext⟩ := working_step hh (hid _ _ runs given) labours
    cases hstep.symm.trans hstep'
    cases hnext with
    | goesOn still said quiet less =>
      have hmute : ∀ m ∈ out ++ _, m.mute := fun m hm => (List.mem_append.mp hm).elim (mute m) (quiet m)
      refine ⟨[], _, _, said.inbox ▸ hin, said.outbox _ hout, .working runs given rests still hmute, ?_,
        fun _ _ _ _ _ => ?_⟩ <;> · rw [List.length_append]; omega
    | replies answers waits said less =>
      exact ⟨[], _, _, said.inbox ▸ hin, said.outbox _ hout, .answered runs given rests waits answers mute, by omega,
        fun _ _ _ _ _ => by omega⟩
    | dies doomed said unanswered =>
      have hout' := said.outbox _ hout
      rw [List.append_nil] at hout'
      refine ⟨[], _, 0, said.inbox ▸ hin, hout', .doomed runs given rests doomed unanswered mute, Nat.zero_le _,
        fun job' work' hruns' hgiven' hcarried => ?_⟩
      exact absurd hcarried (runs.not_carried given unanswered hruns' hgiven')
  | answered runs given rests waits answers mute =>
    obtain ⟨hwaits, hutters, hless⟩ := waiting_step waits hin hstep
    have hout' := hutters.outbox _ hout
    rw [List.append_nil] at hout'
    exact ⟨[], _, _, hutters.inbox ▸ hin, hout', .answered runs given rests hwaits answers mute, by omega,
      fun _ _ _ _ _ => by omega⟩
  | doomed runs given rests dies unanswered mute =>
    obtain ⟨hdies, ms, hms, hutters⟩ := doomed_step hh.toFaithful dies hstep
    have hmute : ∀ m ∈ out ++ ms, m.mute := fun m hm => (List.mem_append.mp hm).elim (mute m) (hms m)
    refine ⟨[], _, 0, hutters.inbox ▸ hin, hutters.outbox _ hout, .doomed runs given rests hdies unanswered hmute,
      le_rfl, fun job' work' hruns' hgiven' hcarried => ?_⟩
    exact absurd hcarried (runs.not_carried given unanswered hruns' hgiven')

lemma Agreed.child (hh : Honest h) (ha : Agreed h w) (hv : w.step h (.child i) = some v) :
    Passes h w (.child i) v := by
  obtain ⟨r, hr, hact⟩ := Workshop.step_cases hv
  have hturn := hr
  rw [Workshop.turn] at hr
  split_ifs at hr
  obtain ⟨c, hc, hr⟩ := Option.bind_eq_some_iff.mp hr
  obtain ⟨c', hstep, hr⟩ := Option.bind_eq_some_iff.mp hr
  cases hr
  obtain rfl := Workshop.step_quiet hturn rfl hv
  refine .of_each ha.sending (fun _ _ hgiven _ => hgiven) ha.sending.inv.sound.tidy fun j => ?_
  by_cases hj : j = i
  · subst hj
    refine Or.inr ⟨fun s n hfind hst => ?_, fun s hfind hnone => (by cases hnone.symm.trans hfind)⟩
    obtain ⟨c₀, inn, out, hc₀, hin, hout, hstage⟩ := hst
    cases hc.symm.trans hc₀
    have hid : ∀ job work, s.Runs job → w.works.get job = some work → work.id ≠ "" := by
      intro job work hruns hgiven
      obtain ⟨-, work', hgiven', hwork, hne⟩ := ha.known hfind hruns
      cases hgiven.symm.trans hgiven'
      exact hwork ▸ hne
    obtain ⟨inn', out', m, hin', hout', hstage', hle, hless⟩ := hstage.step hh hin hout hstep hid
    exact .same hfind ⟨c', inn', out', Dict.get_set_self _ _ _, hin', hout', hstage'⟩ hle fun _ => hless
  · exact Or.inl ⟨.refl _ _, Dict.get_set_ne _ _ hj, by simpa [Event.serves] using fun hi => hj hi.symm⟩

inductive Stage.Hears (h : Host) (p : SkeletonPool) (works : Dict String Work) (i : SkeletonID) (c : Child)
    (s : ControlSlot) (inn ms : List Message) (n : ℕ) : Message → Prop
  | goesOn {m : Message} {k : ℕ} (mute : m.mute) (stage : Stage h p works i c s inn ms k) (le : k ≤ n)
    (less : ∀ job work, s.Runs job → works.get job = some work → h.Carried work → k < n) : Hears h p works i c s inn ms n m
  | ready (state : s.state = .starting) (rests : p.Rests i) (waits : Waiting c) (read : inn = []) (last : ms = []) :
    Hears h p works i c s inn ms n .ready
  | result {job : String} {work : Work} {r : Result} (runs : s.Runs job) (given : works.get job = some work)
    (rests : p.Rests i) (waits : Waiting c) (answers : Answers h work r) (read : inn = []) (last : ms = []) :
    Hears h p works i c s inn ms n (.result r)

lemma Stage.hears {p : SkeletonPool} {works : Dict String Work} {c : Child} {inn ms : List Message} {m : Message}
    {n : ℕ} (rest : Receiver) (hst : Stage h p works i c s inn (m :: ms) n) :
    Stage.Hears h p works i { c with outbox := rest } s inn ms n m := by
  generalize hout : m :: ms = out at hst
  cases hst with
  | booting state rests boots mute =>
    subst hout
    refine .goesOn (mute m List.mem_cons_self)
      (.booting state rests (boots.congr rfl rfl) fun x hx => mute x (List.mem_cons_of_mem _ hx)) le_rfl
      fun _ _ hruns => ?_
    cases state.symm.trans hruns.1
  | ready state rests waits mute =>
    next out =>
    cases out with
    | nil =>
      cases hout
      exact .ready state rests (waits.congr rfl rfl) rfl rfl
    | cons x out =>
      cases hout
      refine .goesOn (mute m List.mem_cons_self)
        (.ready state rests (waits.congr rfl rfl) fun x hx => mute x (List.mem_cons_of_mem _ hx)) le_rfl
        fun _ _ hruns => ?_
      cases state.symm.trans hruns.1
  | working runs given rests labours mute =>
    subst hout
    exact .goesOn (mute m List.mem_cons_self)
      (.working runs given rests (labours.congr rfl rfl) fun x hx => mute x (List.mem_cons_of_mem _ hx))
      (Nat.le_succ _) fun _ _ _ _ _ => Nat.lt_succ_self _
  | answered runs given rests waits answers mute =>
    next out =>
    cases out with
    | nil =>
      cases hout
      exact .result runs given rests (waits.congr rfl rfl) answers rfl rfl
    | cons x out =>
      cases hout
      exact .goesOn (mute m List.mem_cons_self)
        (.answered runs given rests (waits.congr rfl rfl) answers fun x hx => mute x (List.mem_cons_of_mem _ hx))
        (Nat.le_succ _) fun _ _ _ _ _ => Nat.lt_succ_self _
  | doomed runs given rests dies unanswered mute =>
    subst hout
    refine .goesOn (mute m List.mem_cons_self)
      (.doomed runs given rests dies unanswered fun x hx => mute x (List.mem_cons_of_mem _ hx)) le_rfl
      fun job' work' hruns' hgiven' hcarried => ?_
    exact absurd hcarried (runs.not_carried given unanswered hruns' hgiven')
  | idle _ _ _ | queued _ _ _ | inside _ _ _ _ | arrived _ _ _ _ => cases hout

lemma Agreed.stray {p : SkeletonPool} {reading : Reading Message} {a : SkeletonPool.Action} (ha : Agreed h w)
    (hnone : w.pool.core.find (some i) = none) (hreads : reaction i reading = some a) (hp : w.pool.step a = some p) :
    Sending p ∧ p.core.find (some i) = none ∧ ∀ j ≠ i, Elsewhere w.pool p j := by
  have hstays : ∀ {q : SkeletonPool}, (∀ j, Elsewhere w.pool q j) →
      q.core.find (some i) = none ∧ ∀ j ≠ i, Elsewhere w.pool q j := by
    intro q helse
    refine ⟨?_, fun j _ => helse j⟩
    cases (helse i).slot with
    | kept find _ => exact find.trans hnone
    | took was _ _ _ => cases hnone.symm.trans was
  cases reading with
  | nothing =>
    cases hreads
    exact ha.sending.eof hp
  | raised =>
    cases hreads
    exact ha.sending.readerFault hp
  | message m =>
    cases m with
    | ready =>
      cases hreads
      obtain ⟨hs, helse⟩ := ha.sending.readyStray hnone hp
      exact ⟨hs, hstays helse⟩
    | result r =>
      cases hreads
      obtain ⟨hs, helse⟩ := ha.sending.resultStray hnone hp
      exact ⟨hs, hstays helse⟩
    | _ => cases hreads

lemma Stage.rested {p : SkeletonPool} {works : Dict String Work} {new : ControlSlot} {c : Child}
    (hnew : new.state = .idle) (hslot : Steady (some new) w.pool p i) (hg : p.sending = w.pool.sending)
    (hrests : w.pool.Rests i) (hwaits : Waiting c) :
    ∃ s' n, p.core.find (some i) = some s' ∧ Stage h p works i c s' [] [] n := by
  cases hslot with
  | kept find sends =>
    refine ⟨new, 0, find, .idle hnew (fun job => ?_) hwaits⟩
    rw [sends, hg]
    exact hrests job
  | took was idle find sends =>
    cases was
    exact ⟨_, _, find, .queued ⟨rfl, rfl⟩ sends hwaits⟩

lemma perform_id {work : Work} {r : Result} (hr : h.perform work = some r) : r.id = work.id := by
  have hfailure : ∀ {e : Thrown}, Host.failure work e = some r → r.id = work.id := by
    intro e he
    obtain ⟨text, -, rfl⟩ := Option.map_eq_some_iff.mp he
    rfl
  rw [Host.perform] at hr
  split at hr
  · cases hr
  · exact hfailure hr
  · split at hr
    · exact hfailure hr
    · cases hr
      rfl

lemma Stage.unfit {p : SkeletonPool} {works : Dict String Work} {c : Child} {inn : List Message} {n : ℕ}
    (hst : Stage h p works i c s inn [] n) (htodo : c.todo = []) :
    ∀ job work, s.Runs job → works.get job = some work → ¬ h.Carried work := by
  generalize hout : ([] : List Message) = out at hst
  cases hst with
  | doomed runs given _ _ unanswered _ =>
    exact fun job work hruns hgiven => runs.not_carried given unanswered hruns hgiven
  | ready _ _ _ _ | answered _ _ _ _ _ _ => simp at hout
  | booting _ _ boots _ => exact absurd htodo boots.alive
  | working _ _ _ labours _ => exact absurd htodo labours.alive
  | idle _ _ waits | queued _ _ waits | inside _ _ _ waits | arrived _ _ _ waits => exact absurd htodo waits.alive

structure Heard (h : Host) (w : Workshop) (i : SkeletonID) (v : Workshop) (c c' : Child) (reading : Reading Message) :
    Prop where
  turn : w.turn h (.receive i) = some ⟨w.place i c', reaction i reading⟩
  child : w.children.get i = some c
  ready : c.outbox.unread.isEmpty = true → c.todo = []
  reading : (readMessage h.pickle c.outbox).1 = reading
  rest : { c with outbox := (readMessage h.pickle c.outbox).2 } = c'

lemma Heard.of_step (hv : w.step h (.receive i) = some v) : ∃ c c' reading, Heard h w i v c c' reading := by
  obtain ⟨turn, hr, -⟩ := Workshop.step_cases hv
  have hturn := hr
  rw [Workshop.turn] at hr
  split_ifs at hr
  obtain ⟨⟨reading, c'⟩, hheard, hr⟩ := Option.map_eq_some_iff.mp hr
  cases hr
  obtain ⟨c, hc, hheard⟩ := Option.bind_eq_some_iff.mp hheard
  rw [Option.ite_none_left_eq_some] at hheard
  obtain ⟨hready, hheard⟩ := hheard
  obtain ⟨hreading, hrest⟩ := Prod.mk.inj (Option.some.inj hheard)
  refine ⟨c, c', reading, hturn, hc, fun hempty => ?_, hreading, hrest⟩
  simpa [hempty] using hready

lemma Agreed.hears {n : ℕ} (ha : Agreed h w) (hv : w.step h (.receive i) = some v)
    (hfind : w.pool.core.find (some i) = some s) (hst : w.Stands h i s n) :
    Sending v.pool ∧ v.works = w.works ∧ (∀ j ≠ i, Elsewhere w.pool v.pool j) ∧
      (∃ c', v.children = w.children.set i c') ∧ Turns h w (.receive i) v i s n := by
  obtain ⟨c, c', reading, hheard⟩ := Heard.of_step hv
  obtain ⟨c₀, inn, out, hc₀, hin, hout, hstage⟩ := hst
  cases hheard.child.symm.trans hc₀
  have hrouted := Workshop.routed_eq hheard.turn
  cases out with
  | nil =>
    have hread : reading = .nothing := hheard.reading.symm.trans hout.read_nil
    have htodo := hheard.ready (by rw [hout.unread_nil]; rfl)
    obtain ⟨p, hp, rfl⟩ := Workshop.step_acts hheard.turn (by rw [hread]; rfl) hv
    obtain ⟨hs, hgone, helse⟩ := ha.sending.eof hp
    exact ⟨hs, rfl, helse, ⟨c', rfl⟩, .lost hgone (hstage.unfit htodo)⟩
  | cons m ms =>
    obtain ⟨rest, hread, hms⟩ := hout.read
    have hm : reading = .message m := hheard.reading.symm.trans (by rw [hread])
    have hc' : { c with outbox := rest } = c' := hheard.rest ▸ (by rw [hread])
    subst hm hc'
    cases hstage.hears rest with
    | goesOn mute stage le less =>
      have hact : reaction i (.message m) = none := by
        cases m <;> first | rfl | cases mute
      obtain rfl := Workshop.step_quiet hheard.turn hact hv
      exact ⟨ha.sending, rfl, fun j _ => .refl _ _, ⟨_, rfl⟩,
        .same hfind ⟨_, inn, ms, Dict.get_set_self _ _ _, hin, hms, stage⟩ le fun _ => less⟩
    | ready state rests waits read last =>
      subst read last
      obtain ⟨p, hp, rfl⟩ := Workshop.step_acts hheard.turn rfl hv
      obtain ⟨hs, hg, hslot, helse⟩ := ha.sending.ready hfind state hp
      obtain ⟨s', k, hfind', hstage'⟩ := Stage.rested rfl hslot hg rests waits
      exact ⟨hs, rfl, helse, ⟨_, rfl⟩, .next (by simp [state]) hfind'
        ⟨_, [], [], Dict.get_set_self _ _ _, hin, hms, hstage'⟩⟩
    | result runs given rests waits answers read last =>
      next job work r =>
      subst read last
      obtain ⟨-, work', hgiven', hwork, -⟩ := ha.known hfind runs
      cases given.symm.trans hgiven'
      have hid : r.id = job := (perform_id answers.performs).trans hwork
      have hact : reaction i (.message (.result r)) = some (.result i job r.ok r.note) := hid ▸ rfl
      obtain ⟨p, hp, rfl⟩ := Workshop.step_acts hheard.turn hact hv
      have hfree : ∀ job, sendRun i job ∉ w.pool.sends ++ w.pool.sending := fun job hm =>
        (List.mem_append.mp hm).elim (rests job).1 (rests job).2
      obtain ⟨hs, hg, hslot, helse⟩ := ha.sending.result hfind runs.1 runs.2 hfree hp
      obtain ⟨s', k, hfind', hstage'⟩ := Stage.rested rfl hslot hg rests waits
      exact ⟨hs, rfl, helse, ⟨_, rfl⟩, .replied runs given answers rests (hrouted.trans hact) hfind'
        ⟨_, [], [], Dict.get_set_self _ _ _, hin, hms, hstage'⟩⟩

lemma Agreed.receive (ha : Agreed h w) (hv : w.step h (.receive i) = some v) :
    Passes h w (.receive i) v := by
  have htidy := ha.sending.inv.sound.tidy
  have hserves : ∀ j ≠ i, (Event.receive i).serves j = false := fun j hj => by
    simpa [Event.serves] using fun hi => hj hi.symm
  have hchildren : ∀ j ≠ i, ∀ c, (w.children.set i c).get j = w.children.get j :=
    fun j hj c => Dict.get_set_ne _ _ hj
  cases hfind : w.pool.core.find (some i) with
  | none =>
    obtain ⟨c, c', reading, hheard⟩ := Heard.of_step hv
    have hlost : ∀ {q : SkeletonPool}, q.core.find (some i) = none → ∀ s, q.core.find (some i) = some s → False :=
      fun hq s hs => by cases hq.symm.trans hs
    cases hact : reaction i reading with
    | none =>
      obtain rfl := Workshop.step_quiet hheard.turn hact hv
      refine .of_each ha.sending (fun _ _ hgiven _ => hgiven) htidy fun j => ?_
      by_cases hj : j = i
      · subst hj
        exact Or.inr ⟨fun s n hs => (hlost hfind s hs).elim, fun s hs => (hlost hfind s hs).elim⟩
      · exact Or.inl ⟨.refl _ _, hchildren j hj _, hserves j hj⟩
    | some a =>
      obtain ⟨p, hp, rfl⟩ := Workshop.step_acts hheard.turn hact hv
      obtain ⟨hs, hgone, helse⟩ := ha.stray hfind hact hp
      refine .of_each hs (fun _ _ hgiven _ => hgiven) htidy fun j => ?_
      by_cases hj : j = i
      · subst hj
        exact Or.inr ⟨fun s n hs => (hlost hfind s hs).elim, fun s hs => (hlost hgone s hs).elim⟩
      · exact Or.inl ⟨helse j hj, hchildren j hj _, hserves j hj⟩
  | some s =>
    obtain ⟨n, hst⟩ := ha.stands i s hfind
    obtain ⟨hs, hworks, helse, ⟨c', hset⟩, -⟩ := ha.hears hv hfind hst
    refine .of_each hs (fun _ _ hgiven _ => hworks ▸ hgiven) htidy fun j => ?_
    by_cases hj : j = i
    · subst hj
      exact Or.inr ⟨fun s n hfind hst => (ha.hears hv hfind hst).2.2.2.2,
        fun s' _ hnone => (by cases hnone.symm.trans hfind)⟩
    · exact Or.inl ⟨helse j hj, hset ▸ hchildren j hj _, hserves j hj⟩

lemma Agreed.passes {t : Event} (hh : Honest h) (ha : Agreed h w) (hv : w.step h t = some v) : Passes h w t v := by
  cases t with
  | submit token lazy kind target args options => exact ha.submit hv
  | parent a => exact ha.parent hv
  | deliver x => exact ha.deliver hh.toFaithful hv
  | child i => exact ha.child hh hv
  | receive i => exact ha.receive hv

lemma turn_cases {t : Event} {r : Turn} (hr : w.turn h t = some r) :
    (r.workshop.pool = { w.pool with jobSequence := w.pool.jobSequence + 1 } ∧ r.workshop.works = w.works ∧
        r.action = none) ∨
      (∃ token lazy work, r.action = some (.submit token lazy) ∧ r.workshop.pool = w.pool ∧
        work.id = jobName (w.pool.jobSequence + 1) token ∧ r.workshop.works = w.works.set work.id work) ∨
      (r.workshop.pool = w.pool ∧ r.workshop.works = w.works ∧
        ∀ a, r.action = some a → a ≠ .closeNext ∧ ∀ token lazy, a ≠ .submit token lazy) := by
  cases t with
  | submit token lazy kind target args options =>
    rw [Workshop.turn] at hr
    dsimp only at hr
    split_ifs at hr
    · cases hr
      exact Or.inr (Or.inl ⟨token, lazy, _, rfl, rfl, rfl, rfl⟩)
    · cases hr
      exact Or.inl ⟨rfl, rfl, rfl⟩
  | parent a =>
    refine Or.inr (Or.inr ?_)
    cases a with
    | resume k spawned =>
      cases spawned with
      | none =>
        cases hr
        exact ⟨rfl, rfl, fun a ha => by cases ha; simp⟩
      | some fd =>
        obtain ⟨i, -, rfl⟩ := Option.map_eq_some_iff.mp hr
        exact ⟨rfl, rfl, fun a ha => by cases ha; simp⟩
    | start | cancelFuture _ | send _ | recover =>
      cases hr
      exact ⟨rfl, rfl, fun a ha => by cases ha; simp⟩
    | _ => cases hr
  | deliver x =>
    refine Or.inr (Or.inr ?_)
    rw [Workshop.turn] at hr
    split at hr
    all_goals
      cases hr
      exact ⟨rfl, rfl, fun a ha => by cases ha; simp⟩
  | child i =>
    rw [Workshop.turn] at hr
    split_ifs at hr
    obtain ⟨c, -, hr⟩ := Option.bind_eq_some_iff.mp hr
    obtain ⟨c', -, hr⟩ := Option.bind_eq_some_iff.mp hr
    cases hr
    exact Or.inr (Or.inr ⟨rfl, rfl, by simp⟩)
  | receive i =>
    refine Or.inr (Or.inr ?_)
    rw [Workshop.turn] at hr
    split_ifs at hr
    obtain ⟨⟨reading, c⟩, -, rfl⟩ := Option.map_eq_some_iff.mp hr
    refine ⟨rfl, rfl, fun a ha => ?_⟩
    cases reading with
    | nothing | raised =>
      cases ha
      simp
    | message m =>
      cases m with
      | ready | result _ =>
        cases ha
        simp
      | _ => cases ha

lemma Agreed.step {t : Event} (hh : Honest h) (ha : Agreed h w) (hv : w.step h t = some v) : Agreed h v := by
  have hpass := ha.passes hh hv
  have hinv := ha.sending.inv
  have hopen := ha.sending.opened
  obtain ⟨r, hr, hact⟩ := Workshop.step_cases hv
  refine ⟨hpass.sending, ?_, fun job n hn => ?_, fun i s hfind => ?_⟩
  · rcases turn_cases hr with ⟨hpool, -, hnone⟩ | ⟨token, lazy, work, hsubmit, hpool, -⟩ | ⟨hpool, -, hother⟩
    · rcases hact with ⟨-, rfl⟩ | ⟨a, p, ha', -⟩
      · rw [hpool]
        exact ha.awaited.skipNumber
      · cases hnone.symm.trans ha'
    · rcases hact with ⟨hnone, -⟩ | ⟨a, p, ha', hp, rfl⟩
      · cases hnone.symm.trans hsubmit
      · cases hsubmit.symm.trans ha'
        have hne : SkeletonPool.Action.submit token lazy ≠ .closeNext := nofun
        exact ha.awaited.step hinv hopen hne (hpool ▸ hp)
    · rcases hact with ⟨-, rfl⟩ | ⟨a, p, ha', hp, rfl⟩
      · rw [hpool]
        exact ha.awaited
      · exact ha.awaited.step hinv hopen (hother a ha').1 (hpool ▸ hp)
  · rcases turn_cases hr with ⟨hpool, hworks, hnone⟩ | ⟨token, lazy, work, hsubmit, hpool, hid, hworks⟩ |
      ⟨hpool, hworks, hother⟩
    · rcases hact with ⟨-, rfl⟩ | ⟨a, p, ha', -⟩
      · rw [hpool] at hn
        rw [hworks]
        exact ha.works job n hn
      · cases hnone.symm.trans ha'
    · rcases hact with ⟨hnone, -⟩ | ⟨a, p, ha', hp, rfl⟩
      · cases hnone.symm.trans hsubmit
      · cases hsubmit.symm.trans ha'
        rw [hpool] at hp
        have hset : ∀ {job' : String}, job' = work.id →
            ∃ given, r.workshop.works.get job' = some given ∧ given.id = job' := fun heq =>
          ⟨work, by rw [hworks, heq]; exact Dict.get_set_self _ _ _, heq.symm⟩
        have hne : SkeletonPool.Action.submit token lazy ≠ .closeNext := nofun
        rcases step_jobs hne hp hn with hold | ⟨token', lazy', hsame, hnew⟩
        · by_cases heq : job = work.id
          · exact hset heq
          · obtain ⟨given, hgiven, hid'⟩ := ha.works job n hold
            exact ⟨given, by rw [hworks]; exact (Dict.get_set_ne _ _ heq).trans hgiven, hid'⟩
        · cases hsame
          exact hset (hnew.trans hid.symm)
    · rcases hact with ⟨-, rfl⟩ | ⟨a, p, ha', hp, rfl⟩
      · rw [hpool] at hn
        rw [hworks]
        exact ha.works job n hn
      · rw [hpool] at hp
        rcases step_jobs (hother a ha').1 hp hn with hold | ⟨token, lazy, hsubmit, -⟩
        · simp only [hworks]
          exact ha.works job n hold
        · exact absurd hsubmit ((hother a ha').2 token lazy)
  · cases hold : w.pool.core.find (some i) with
    | none => exact hpass.new i s hfind hold
    | some s₀ =>
      obtain ⟨n, hst⟩ := ha.stands i s₀ hold
      cases hpass.old i s₀ n hold hst with
      | same find stands _ _ =>
        cases find.symm.trans hfind
        exact ⟨_, stands⟩
      | next _ find stands =>
        cases find.symm.trans hfind
        exact ⟨_, stands⟩
      | replied _ _ _ _ _ find stands =>
        cases find.symm.trans hfind
        exact ⟨_, stands⟩
      | lost find _ => cases find.symm.trans hfind

lemma Agreed.new (h : Host) (target : ℕ) : Agreed h (.new target) where
  sending := .new target
  awaited := .new target
  works := by
    intro job n hn
    cases hn
  stands := by
    intro i s hfind
    cases hfind

end Passing

end Reaper.Pool
