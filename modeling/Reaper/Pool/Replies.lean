import Reaper.Library.Fairness
import Reaper.Pool.Delivery

/-! The result of a job comes back to its submitter, when its notes fit into frames. -/

namespace Reaper.Pool

open Reaper.Library Reaper.Worker Child ReaperCore SkeletonPool

def Host.ending (h : Host) (work : Work) : Option Ending :=
  match work.kind with
  | .sync => some (h.inThread work)
  | .async => h.coroutine work
  | .bash => (h.environ work).map (h.runBash work.target)

/-- The result that a submitter has a right to, where the text of an exception can be had. -/
def Ending.reply (id : String) : Ending → Option Result
  | .returned value => some { id := id, ok := true, note := { value := value } }
  | .raised e => e.text.map fun text =>
    { id := id, ok := false, note := { kind := e.kind, text := text, trace := e.trace } }

def Result.outcome (r : Result) : FutureState :=
  if r.ok then .result r.note.value else .exception (.remoteWorker r.note.kind r.note.text r.note.trace)

structure Host.Fits (h : Host) (work : Work) (e : Ending) (r : Result) : Prop where
  ends : h.ending work = some e
  plain : ∀ value, e = .returned value → h.exception value = none
  kept : ∀ x, e = .raised x → x.converts work.kind = false
  reply : e.reply work.id = some r
  run : h.frames (.run work)
  started : h.frames (startedNote work)
  finished : h.frames (finishedNote work r)
  result : h.frames (.result r)

lemma Host.Fits.carried {h : Host} {work : Work} {e : Ending} {r : Result} (hf : h.Fits work e r) :
    h.perform work = some r ∧ h.Carried work := by
  have hsettled : h.settled work.kind e = e := by
    cases e with
    | returned value => rfl
    | raised x => simp [Host.settled, hf.kept x rfl]
  have hgather : h.gather work = some e := by
    have hends := hf.ends
    rw [Host.ending] at hends
    rw [Host.gather]
    cases hkind : work.kind with
    | sync =>
      simp only [hkind, Option.some_inj] at hends hsettled ⊢
      rw [hends, hsettled]
    | async =>
      simp only [hkind] at hends hsettled ⊢
      rw [hends, Option.map_some, hsettled]
    | bash =>
      simp only [hkind] at hends ⊢
      exact hends
  have hperform : h.perform work = some r := by
    rw [Host.perform, hgather]
    cases e with
    | returned value =>
      simp only [hf.plain value rfl]
      exact hf.reply
    | raised x => exact hf.reply
  exact ⟨hperform, hf.run, r, hperform, hf.started, hf.finished, hf.result⟩

def Upsets (h : Host) (w : Workshop) (t : Event) (i : SkeletonID) : Prop :=
  w.routed h t = some (.eof i) ∨ w.routed h t = some (.readerFault i) ∨
    ∃ x, x.identity = some i ∧ w.routed h t = some (.sendFailed x)

section Events

variable {h : Host} {w v : Workshop} {t : Event} {i : SkeletonID} {s : ControlSlot} {job : String} {n : ℕ}

lemma routed_step {a : SkeletonPool.Action} (hr : w.routed h t = some a) (ha : ∀ token lazy, a ≠ .submit token lazy)
    (hv : w.step h t = some v) : w.pool.step a = some v.pool := by
  obtain ⟨r, hturn, hact⟩ := Workshop.step_cases hv
  rw [Workshop.routed_eq hturn] at hr
  rcases hact with ⟨hnone, -⟩ | ⟨a', p, ha', hp, rfl⟩
  · cases hnone.symm.trans hr
  · cases ha'.symm.trans hr
    rcases turn_cases hturn with ⟨-, -, hnone⟩ | ⟨token, lazy, work, hsubmit, -⟩ | ⟨hpool, -, -⟩
    · cases hnone.symm.trans hr
    · exact absurd (Option.some.inj (hr.symm.trans hsubmit)) (ha token lazy)
    · exact hpool ▸ hp

lemma Upsets.gone (hu : Upsets h w t i) (ha : Agreed h w) (hv : w.step h t = some v) :
    v.pool.core.find (some i) = none := by
  rcases hu with hr | hr | ⟨x, hx, hr⟩
  · exact (ha.sending.eof (routed_step hr (by simp) hv)).2.1
  · exact (ha.sending.readerFault (routed_step hr (by simp) hv)).2.1
  · exact (ha.sending.sendFailed hx (routed_step hr (by simp) hv)).2.1

lemma drive_sent {p : SkeletonPool} {owner : Owner} {xs : List ControlEffect} (hx : ∀ x ∈ xs, x.kind = .sendRun) :
    (SkeletonPool.drive owner .nothing xs p).futures = p.futures := by
  induction xs generalizing p with
  | nil => rfl
  | cons x xs ih =>
    rw [SkeletonPool.drive, hx x List.mem_cons_self]
    exact ih fun y hy => hx y (List.mem_cons_of_mem _ hy)

lemma result_futures {p : SkeletonPool} {r : Result} {xs : List ControlEffect} (owner : Owner)
    (hx : ∀ x ∈ xs, x.kind = .sendRun) (hnote : p.results.get job = some r.note) (hn : p.jobs.get job = some n)
    (ho : p.Open n) :
    (SkeletonPool.drive owner .nothing ((if r.ok then [{ kind := .resolve, job := some job }]
        else [{ kind := .fail, job := some job, reason := some .workerError }]) ++ xs) p).futures.get n =
      some (if p.futures.get n = some .pending then r.outcome else .cancelled) := by
  rw [← settle_outcome hn ho, Result.outcome]
  split_ifs with hok
  · rw [List.singleton_append, SkeletonPool.drive]
    dsimp only
    rw [drive_sent hx, resolve, note]
    simp only [Option.getD_some, hnote]
    rfl
  · rw [List.singleton_append, SkeletonPool.drive]
    dsimp only
    rw [drive_sent hx, fail, note]
    simp only [Option.getD_some, hnote, if_true]
    rfl

/-- The result of the job that a slot runs: the slot is idle, before it may take the next job, and the future of
the job has the outcome, unless its submitter had cancelled it. -/
structure Replied (w v : Workshop) (i : SkeletonID) (s : ControlSlot) (job : String) (r : Result) : Prop where
  idle : (w.pool.core.handle { kind := .result, identity := some i, job := some job, ok := r.ok }).1.find (some i) =
    some { s with state := .idle, job := none }
  slot : v.pool.core.find (some i) = some { s with state := .idle, job := none } ∨
    ∃ next, v.pool.core.find (some i) = some (taken { s with state := .idle, job := none } next)
  future : ∃ n, w.pool.jobs.get job = some n ∧ w.pool.Open n ∧
    v.pool.futures.get n = some (if w.pool.futures.get n = some .pending then r.outcome else .cancelled)

lemma Agreed.replied {r : Result} (ha : Agreed h w) (hv : w.step h t = some v)
    (hfind : w.pool.core.find (some i) = some s) (hruns : s.Runs job) (hrests : w.pool.Rests i)
    (hr : w.routed h t = some (.result i job r.ok r.note)) : Replied w v i s job r := by
  have hp := routed_step hr (by simp) hv
  have hfree : ∀ job, sendRun i job ∉ w.pool.sends ++ w.pool.sending := fun job hm =>
    (List.mem_append.mp hm).elim (hrests job).1 (hrests job).2
  obtain ⟨hhandle, hidle⟩ := result_find r.ok hfind hruns.1 hruns.2
  obtain ⟨⟨n, hn, ho⟩, -⟩ := ha.known hfind hruns
  obtain ⟨-, -, hslot, -⟩ := ha.sending.result hfind hruns.1 hruns.2 hfree hp
  refine ⟨hidle, ?_, n, hn, ho, ?_⟩
  · cases hslot with
    | kept find _ => exact Or.inl find
    | took was _ find _ =>
      cases was
      exact Or.inr ⟨_, find⟩
  · simp only [SkeletonPool.step, Option.ite_none_right_eq_some, Option.some_inj] at hp
    have hsent := fun x hx => ((dispatch_handsOut (w.pool.core.handle
      { kind := .result, identity := some i, job := some job, ok := r.ok }).1).sends x hx).1
    rw [← hp.2, ha.sending.result_eq r.ok r.note hfind hruns.1 hruns.2, SkeletonPool.apply, ReaperCore.apply, noted]
    dsimp only
    rw [hhandle] at hsent ⊢
    exact result_futures (.reader i) hsent (Dict.get_set_self _ _ _) hn ho

lemma step_some {r : Turn} (hturn : w.turn h t = some r)
    (hact : ∀ a, r.action = some a → (r.workshop.pool.step a).isSome) : (w.step h t).isSome := by
  rw [Workshop.step, hturn]
  cases ha : r.action with
  | none => simp [ha]
  | some a =>
    obtain ⟨p, hp⟩ := Option.isSome_iff_exists.mp (hact a ha)
    simp [ha, hp]

lemma Agreed.receives {c : Child} {m : Message} {ms : List Message} (ha : Agreed h w)
    (hfind : w.pool.core.find (some i) = some s) (hc : w.children.get i = some c)
    (hout : Carries h c.outbox (m :: ms)) : (w.step h (.receive i)).isSome := by
  have hreading := ha.reading hfind
  have hempty : c.outbox.unread.isEmpty = false := by simpa using hout.unread_cons
  set heard := readMessage h.pickle c.outbox with hheard
  have hturn : w.turn h (.receive i) = some ⟨w.place i { c with outbox := heard.2 }, reaction i heard.1⟩ := by
    rw [Workshop.turn, if_pos hreading, Workshop.heard, hc, Option.bind_eq_bind, Option.bind_some, hempty]
    rfl
  refine step_some hturn fun a hact => ?_
  have hown : (w.place i { c with outbox := heard.2 }).pool.reading i = true := hreading
  obtain ⟨rest, hread, -⟩ := hout.read
  rw [hheard.trans hread] at hact
  cases m with
  | ready | result _ =>
    cases hact
    simp [SkeletonPool.step, hown]
  | _ => cases hact

lemma Agreed.served {work : Work} (hh : Honest h) (ha : Agreed h w) (hfind : w.pool.core.find (some i) = some s)
    (hruns : s.Runs job) (hgiven : w.works.get job = some work) (hcarried : h.Carried work)
    (hst : w.Stands h i s n) : ∃ t : Event, t.serves i ∧ (w.step h t).isSome := by
  obtain ⟨c, inn, out, hc, hin, hout, hstage⟩ := hst
  have hchild : ∀ {c' : Child}, c.step h = some c' → ∃ t : Event, t.serves i ∧ (w.step h t).isSome := by
    intro c' hstep
    refine ⟨.child i, by simp [Event.serves], step_some (r := ⟨w.place i c', none⟩) ?_ (by simp)⟩
    rw [Workshop.turn, if_pos (ha.held hfind), hc]
    simp [hstep]
  cases hstage with
  | booting state _ _ _ | ready state _ _ _ | idle state _ _ => cases state.symm.trans hruns.1
  | queued runs sends waits =>
    next job' =>
    have hturn : w.turn h (.parent (.send (sendRun i job'))) = some ⟨w, some (.send (sendRun i job'))⟩ := rfl
    refine ⟨.parent (.send (sendRun i job')), by simp [Event.serves, sendRun], step_some hturn fun a hact => ?_⟩
    cases hact
    rw [SkeletonPool.step, if_neg (not_not.mpr sends)]
    dsimp only
    split <;> rfl
  | inside runs sends sending waits =>
    next job' =>
    refine ⟨.deliver (sendRun i job'), by simp [Event.serves, sendRun], ?_⟩
    cases hd : w.delivered h (sendRun i job') with
    | none =>
      refine step_some (r := ⟨w, some (.sendFailed (sendRun i job'))⟩) (by rw [Workshop.turn]; simp only [hd])
        fun a hact => ?_
      cases hact
      rw [SkeletonPool.step]
      exact (congrArg Option.isSome (if_neg (not_not.mpr sending))).trans rfl
    | some arrival =>
      refine step_some (r := ⟨w.place arrival.1 arrival.2, some (.sent (sendRun i job'))⟩)
        (by rw [Workshop.turn]; simp only [hd]) fun a hact => ?_
      cases hact
      rw [SkeletonPool.step]
      exact (congrArg Option.isSome (if_pos sending)).trans rfl
  | arrived _ _ _ waits =>
    obtain ⟨c', hstep, -⟩ := waiting_read waits hin
    exact hchild hstep
  | working runs given _ labours _ =>
    obtain ⟨-, work', hgiven', hid, hne⟩ := ha.known hfind runs
    cases given.symm.trans hgiven'
    obtain ⟨c', hstep, -⟩ := working_step hh (hid ▸ hne) labours
    exact hchild hstep
  | answered runs given rests waits answers mute =>
    next out =>
    refine ⟨.receive i, by simp [Event.serves], ?_⟩
    cases out with
    | nil => exact ha.receives hfind hc hout
    | cons m out => exact ha.receives hfind hc hout
  | doomed runs given _ _ unanswered _ =>
    exact absurd hcarried (runs.not_carried given unanswered hruns hgiven)

end Events

section Runs

structure History (h : Host) (target : ℕ) (w : ℕ → Workshop) (t : ℕ → Option Event) : Prop where
  starts : w 0 = .new target
  steps : ∀ k, (t k).elim (some (w k)) ((w k).step h) = some (w (k + 1))

def Tended (h : Host) (w : ℕ → Workshop) (t : ℕ → Option Event) (i : SkeletonID) : Prop :=
  WeaklyFair (fun k => ∃ e : Event, e.serves i ∧ ((w k).step h e).isSome) fun k => ∃ e ∈ t k, e.serves i

structure Undisturbed (h : Host) (w : ℕ → Workshop) (t : ℕ → Option Event) (i : SkeletonID) (s : ControlSlot)
    (k m : ℕ) : Prop where
  runs : ∀ l, k ≤ l → l ≤ m → (w l).pool.core.find (some i) = some s
  calm : ∀ l, k ≤ l → l < m → ∀ e ∈ t l, ¬ Upsets h (w l) e i

structure Answered (h : Host) (w : ℕ → Workshop) (t : ℕ → Option Event) (i : SkeletonID) (s : ControlSlot)
    (job : String) (r : Result) (k m : ℕ) : Prop where
  undisturbed : Undisturbed h w t i s k m
  reports : ∃ e ∈ t m, (w m).routed h e = some (.result i job r.ok r.note)
  replied : Replied (w m) (w (m + 1)) i s job r

variable {h : Host} {target : ℕ} {w : ℕ → Workshop} {t : ℕ → Option Event} {i : SkeletonID} {s : ControlSlot}
  {job : String} {work : Work} {ending : Ending} {r : Result} {k m n : ℕ} {e : Event}

lemma History.step (hist : History h target w t) (he : e ∈ t k) : (w k).step h e = some (w (k + 1)) := by
  have hstep := hist.steps k
  rwa [Option.mem_def.mp he] at hstep

lemma History.same (hist : History h target w t) (he : t k = none) : w (k + 1) = w k := by
  have hstep := hist.steps k
  rw [he] at hstep
  exact (Option.some.inj hstep).symm

lemma History.agreed (hist : History h target w t) (hh : Honest h) (k : ℕ) : Agreed h (w k) := by
  induction k with
  | zero => exact hist.starts ▸ .new h target
  | succ k ih =>
    cases he : t k with
    | none => exact hist.same he ▸ ih
    | some e => exact ih.step hh (hist.step he)

def Underway (h : Host) (w : ℕ → Workshop) (i : SkeletonID) (s : ControlSlot) (job : String) (work : Work)
    (m n : ℕ) : Prop :=
  (w m).pool.core.find (some i) = some s ∧ (w m).works.get job = some work ∧ (w m).Stands h i s n

def Reported (h : Host) (w : ℕ → Workshop) (t : ℕ → Option Event) (i : SkeletonID) (job : String) (r : Result)
    (m : ℕ) : Prop :=
  (∃ e ∈ t m, (w m).routed h e = some (.result i job r.ok r.note)) ∧ (w m).pool.Rests i

lemma History.descends (hist : History h target w t) (hh : Honest h) (hruns : s.Runs job)
    (hf : h.Fits work ending r) :
    Descends (fun k => ∃ e : Event, e.serves i ∧ ((w k).step h e).isSome) (fun k => ∃ e ∈ t k, e.serves i)
      (Reported h w t i job r) (Underway h w i s job work) where
  able := by
    rintro m n ⟨hfind, hgiven, hst⟩
    exact (hist.agreed hh m).served hh hfind hruns hgiven hf.carried.2 hst
  next := by
    rintro m n ⟨hfind, hgiven, hst⟩
    cases he : t m with
    | none =>
      refine Or.inr ⟨n, le_rfl, ?_, fun ⟨e, he', _⟩ => by cases he'⟩
      rw [Underway, hist.same he]
      exact ⟨hfind, hgiven, hst⟩
    | some e =>
      have ha := hist.agreed hh m
      have hpass := ha.passes hh (hist.step he)
      have hknown := known_of_runs ha.sending.inv.sound.tidy hfind hruns
      cases hpass.old i s n hfind hst with
      | same find stands le less =>
        refine Or.inr ⟨_, le, ⟨find, hpass.works job work hgiven hknown, stands⟩, ?_⟩
        rintro ⟨e', he', hserves⟩
        cases he'
        exact less hserves job work hruns hgiven hf.carried.2
      | next other _ _ => exact absurd hruns.1 other
      | replied runs given answers rests routed _ _ =>
        obtain rfl := Option.some.inj (runs.2.symm.trans hruns.2)
        cases given.symm.trans hgiven
        cases answers.performs.symm.trans hf.carried.1
        exact Or.inl ⟨⟨e, he, routed⟩, rests⟩
      | lost _ unfit => exact absurd hf.carried.2 (unfit job work hruns hgiven)

lemma History.undisturbed (hist : History h target w t) (hh : Honest h)
    (hl : Lasts (Underway h w i s job work) k m) : Undisturbed h w t i s k m where
  runs := by
    intro l hk hm
    obtain ⟨n, hfind, -⟩ := hl l hk hm
    exact hfind
  calm := by
    intro l hk hm e he hupsets
    obtain ⟨n, hfind, -⟩ := hl (l + 1) (hk.trans (Nat.le_succ l)) hm
    cases (hupsets.gone (hist.agreed hh l) (hist.step he)).symm.trans hfind

lemma History.answered (hist : History h target w t) (hh : Honest h) (hruns : s.Runs job) (hm : k ≤ m)
    (hg : Reported h w t i job r m) (hl : Lasts (Underway h w i s job work) k m) :
    Answered h w t i s job r k m := by
  obtain ⟨⟨e, he, hrouted⟩, hrests⟩ := hg
  obtain ⟨n, hfind, -⟩ := hl m hm le_rfl
  exact ⟨hist.undisturbed hh hl, ⟨e, he, hrouted⟩,
    (hist.agreed hh m).replied (hist.step he) hfind hruns hrests hrouted⟩

lemma run_append (h : Host) (w : Workshop) (xs ys : List Event) :
    w.run h (xs ++ ys) = (w.run h xs).bind fun v => v.run h ys := by
  induction xs generalizing w with
  | nil => rfl
  | cons x xs ih =>
    rw [List.cons_append, Workshop.run, Workshop.run]
    cases w.step h x with
    | none => rfl
    | some v => exact ih v

def stretch (h : Host) (target : ℕ) (ts : List Event) (k : ℕ) : Workshop :=
  ((Workshop.new target).run h (ts.take k)).getD (.new target)

lemma History.stretch {ts : List Event} (hrun : ((Workshop.new target).run h ts).isSome) :
    History h target (stretch h target ts) fun k => ts[k]? where
  starts := rfl
  steps := by
    intro k
    have hpart : ∀ m, ((Workshop.new target).run h (ts.take m)).isSome := by
      intro m
      rw [← List.take_append_drop m ts, run_append] at hrun
      exact Option.isSome_of_isSome_bind hrun
    cases hk : ts[k]? with
    | none =>
      have hlength := List.getElem?_eq_none_iff.mp hk
      rw [Option.elim, Pool.stretch, Pool.stretch, List.take_of_length_le hlength,
        List.take_of_length_le (Nat.le_succ_of_le hlength)]
    | some e =>
      obtain ⟨v, hv⟩ := Option.isSome_iff_exists.mp (hpart k)
      obtain ⟨v', hv'⟩ := Option.isSome_iff_exists.mp (hpart (k + 1))
      rw [Option.elim, Pool.stretch, Pool.stretch, hv, hv', Option.getD_some, Option.getD_some]
      rw [List.take_add_one, hk, Option.toList_some, run_append, hv, Option.bind_some, Workshop.run] at hv'
      obtain ⟨v'', hstep, hv'⟩ := Option.bind_eq_some_iff.mp hv'
      rw [hstep]
      exact hv'

/-- A work whose notes fit costs no skeleton: its slot runs it undisturbed up to its result, and where the tasks
of the skeleton get their turns the result comes. -/
theorem job_comes_back (hh : Honest h) (hist : History h target w t)
    (hfind : (w k).pool.core.find (some i) = some s) (hruns : s.Runs job)
    (hgiven : (w k).works.get job = some work) (hf : h.Fits work ending r) :
    (∀ m ≥ k, Undisturbed h w t i s k m ∨ ∃ l, k ≤ l ∧ l < m ∧ Answered h w t i s job r k l) ∧
      (Tended h w t i → ∃ m ≥ k, Answered h w t i s job r k m) := by
  obtain ⟨n, hst⟩ := (hist.agreed hh k).stands i s hfind
  have hstage : Underway h w i s job work k n := ⟨hfind, hgiven, hst⟩
  have hdescends := hist.descends (i := i) hh hruns hf
  refine ⟨fun m hm => ?_, fun htended => ?_⟩
  · rcases hdescends.lasts hstage hm with hlasts | ⟨l, hk, hl, hreported, hlasts⟩
    · exact Or.inl (hist.undisturbed hh hlasts)
    · exact Or.inr ⟨l, hk, hl, hist.answered hh hruns hk hreported hlasts⟩
  · obtain ⟨m, hm, hreported, hlasts⟩ := hdescends.reaches htended hstage
    exact ⟨m, hm, hist.answered hh hruns hm hreported hlasts⟩

end Runs

section Samples

def codes (ms : List Message) : Pickle Message where
  dumps m := (ms.idxOf? m).map fun n => [UInt8.ofNat n]
  loads data := match data with
    | [b] => ms[b.toNat]?
    | _ => none
  isMapping _ := true

lemma codes_loads {ms : List Message} (hlength : ms.length ≤ 256) {m : Message} {data : List UInt8}
    (hm : (codes ms).dumps m = some data) : (codes ms).loads data = some m := by
  obtain ⟨n, hn, rfl⟩ := Option.map_eq_some_iff.mp hm
  rw [List.idxOf?, List.findIdx?_eq_some_iff_getElem] at hn
  obtain ⟨hlt, heq, -⟩ := hn
  have hsmall : (UInt8.ofNat n).toNat = n := by
    rw [UInt8.toNat_ofNat']
    exact Nat.mod_eq_of_lt (hlt.trans_le hlength)
  simp only [codes, hsmall, List.getElem?_eq_getElem hlt]
  exact congrArg some (eq_of_beq heq)

def sampleWork : Work := { id := "1-ada", kind := .sync, target := "answer" }

def sampleResult : Result := { id := "1-ada", ok := true, note := { value := some "42" } }

def unpicklable : Thrown := { kind := "builtins.TypeError", text := some "cannot pickle" }

def sampleNotes : List Message :=
  [startNote, readyNote, .ready, .state, .work sampleWork, .run sampleWork, startedNote sampleWork,
    finishedNote sampleWork sampleResult, .lifecycle (({ phase := .stopping } : SkeletonCore).effect { kind := .stop }),
    .lifecycle (({ phase := .dead } : SkeletonCore).effect { kind := .stopped }),
    .fatal unpicklable.kind "cannot pickle" ""]

def sampleHost (ms : List Message) : Host where
  pickle := codes ms
  inThread _ := .returned (some "42")
  coroutine _ := none
  environ _ := none
  shell _ _ := .error unpicklable
  decode _ := .error unpicklable
  bashTrace _ := ""
  exception _ := none
  converted e := e
  fault _ := unpicklable

def wholeHost : Host := sampleHost (sampleNotes ++ [.result sampleResult])

def lossyHost : Host := sampleHost sampleNotes

lemma sampleHost_honest {ms : List Message} (hlength : ms.length ≤ 256)
    (hown : ∀ m ∈ [startNote, readyNote, .ready, .state], (sampleHost ms).frames m) : Honest (sampleHost ms) where
  loads _ _ hm := codes_loads hlength hm
  mapping _ _ := rfl
  own := hown

lemma wholeHost_honest : Honest wholeHost := sampleHost_honest (by simp [sampleNotes]) (by decide +kernel)

lemma lossyHost_honest : Honest lossyHost := sampleHost_honest (by simp [sampleNotes]) (by decide +kernel)

lemma wholeHost_fits : wholeHost.Fits sampleWork (.returned (some "42")) sampleResult where
  ends := rfl
  plain _ _ := rfl
  kept := by simp
  reply := rfl
  run := by decide +kernel
  started := by decide +kernel
  finished := by decide +kernel
  result := by decide +kernel

def sampleChild : SkeletonID := ⟨7, 1⟩

def sampleSlot : ControlSlot := { identity := sampleChild, state := .running, job := some "1-ada" }

def sampleEvents : List Event :=
  [.parent .start, .parent (.resume 0 (some 7))] ++ List.replicate 4 (.child sampleChild) ++
    List.replicate 3 (.receive sampleChild) ++
    [.submit "ada" false .sync "answer" [] [], .parent (.send (sendRun sampleChild "1-ada")),
      .deliver (sendRun sampleChild "1-ada")] ++
    List.replicate 5 (.child sampleChild)

def lastEvents : List Event :=
  List.replicate 4 (.child sampleChild) ++ List.replicate 7 (.receive sampleChild) ++ [.parent (.resume 0 none)]

def wholeEvents : List Event :=
  sampleEvents ++ [.child sampleChild] ++ List.replicate 4 (.receive sampleChild)

lemma unserved {h : Host} {w : Workshop} {i : SkeletonID} {e : Event} (hsends : w.pool.sends = [])
    (hsending : w.pool.sending = []) (hchild : w.step h (.child i) = none)
    (hreceive : w.step h (.receive i) = none) (he : e.serves i) : w.step h e = none := by
  cases e with
  | child j | receive j =>
    obtain rfl : j = i := by simpa [Event.serves] using he
    assumption
  | parent a =>
    cases a with
    | send x => simp [Workshop.step, Workshop.turn, SkeletonPool.Action.own, SkeletonPool.step, hsends]
    | _ => cases he
  | deliver x =>
    have hx : x.identity = some i := by simpa [Event.serves] using he
    rw [Workshop.step, Workshop.turn]
    cases w.delivered h x <;> simp [SkeletonPool.step, Workshop.place, hsending, hx]
  | submit => cases he

lemma wholeEvents_tended :
    Tended wholeHost (stretch wholeHost 1 wholeEvents) (fun k => wholeEvents[k]?) sampleChild := by
  intro k hable
  obtain ⟨e, he, hstep⟩ := hable (k + 22) (Nat.le_add_right k 22)
  have hlast : stretch wholeHost 1 wholeEvents (k + 22) = stretch wholeHost 1 wholeEvents 22 := by
    rw [stretch, stretch, List.take_of_length_le, List.take_of_length_le]
    · exact le_of_eq rfl
    · exact Nat.le_add_left 22 k
  rw [hlast, unserved (by decide +kernel) (by decide +kernel) (by decide +kernel) (by decide +kernel) he] at hstep
  cases hstep

theorem job_comes_back_sample :
    (∀ m ≥ 10, Undisturbed wholeHost (stretch wholeHost 1 wholeEvents) (fun k => wholeEvents[k]?) sampleChild
        sampleSlot 10 m ∨
      ∃ l, 10 ≤ l ∧ l < m ∧ Answered wholeHost (stretch wholeHost 1 wholeEvents) (fun k => wholeEvents[k]?)
        sampleChild sampleSlot "1-ada" sampleResult 10 l) ∧
    ∃ m ≥ 10, Answered wholeHost (stretch wholeHost 1 wholeEvents) (fun k => wholeEvents[k]?)
      sampleChild sampleSlot "1-ada" sampleResult 10 m :=
  have hist : History wholeHost 1 (stretch wholeHost 1 wholeEvents) fun k => wholeEvents[k]? :=
    .stretch (by decide +kernel)
  have h := job_comes_back wholeHost_honest hist (by decide +kernel) ⟨rfl, rfl⟩ (by decide +kernel)
    wholeHost_fits
  ⟨h.1, h.2 wholeEvents_tended⟩

/-- A work returns a value that does not pickle: its slot and its child are gone, and its future says so. -/
theorem job_lost :
    Honest lossyHost ∧ ((Workshop.new 1).run lossyHost (sampleEvents ++ lastEvents)).isSome ∧
      lossyHost.ending sampleWork = some (.returned (some "42")) ∧
      (stretch lossyHost 1 (sampleEvents ++ lastEvents) 27).pool.core.find (some sampleChild) = some sampleSlot ∧
      (stretch lossyHost 1 (sampleEvents ++ lastEvents) 27).works.get "1-ada" = some sampleWork ∧
      (stretch lossyHost 1 (sampleEvents ++ lastEvents) 27).routed lossyHost (.receive sampleChild) =
        some (.eof sampleChild) ∧
      (stretch lossyHost 1 (sampleEvents ++ lastEvents) 28).pool.core.find (some sampleChild) = none ∧
      (stretch lossyHost 1 (sampleEvents ++ lastEvents) 29).pool.futures.get 1 =
        some (.exception (.remoteWorker "ChildDied" "lost child EOF" "")) := by
  refine ⟨lossyHost_honest, ?_, ?_, ?_, ?_, ?_, ?_, ?_⟩
  all_goals decide +kernel

end Samples

end Reaper.Pool
