import Reaper.Worker.Drivers

/-! The drivers speak the lifecycle protocol. -/

namespace Reaper.Worker

open Reaper.Library.Protocol ServiceLoop

namespace PollTasks

def Stands : Place → Stage → Prop
  | .opening, s | .linkOpened, s | .listening, s | .listenerOpened, s => s = .connecting
  | .ready, s | .arming, s | .armed, s | .polled, s | .claiming, s | .reported, s | .releasing, s
  | .waiting, s | .woken _, s | .noted, s => s = .idle
  | .claimed t, s | .executing t, s => s = .running t
  | .unavailable t, s | .outcome t, s | .settling t, s => s = .settling t
  | .exiting t .raised, s => s.owned = some t
  | .exiting t .unavailable, s | .exiting t (.settled _), s => s = .settling t
  | .closing t, s | .closed t, s | .leaving t, s | .ended t, s => s.owned = t

lemma Stands.raise {p : Place} {s : Stage} (h : Stands p s) : Stands (raise p) s := by
  cases p with
  | exiting t exit =>
    cases exit with
    | raised => exact h
    | unavailable | settled =>
      rw [Stands] at h
      exact h ▸ rfl
  | closing | closed | leaving | ended => exact h
  | _ =>
    rw [Stands] at h
    exact h ▸ rfl

lemma reported_accepted {activity : ListenerActivity} {e : LifecycleEvent}
    (h : reported activity = some e) : Accepts .idle e .idle := by
  cases activity with
  | none => cases h
  | probed =>
    cases h
    exact .silent rfl
  | recycled =>
    cases h
    exact .listening (.inr rfl) nofun

lemma Stands.step {p : Place} {s : Stage} {a : Answer} {r : Place × Option LifecycleEvent}
    (h : Stands p s) (hr : resume p a = some r) : ∃ s', Moves Accepts s r.2 s' ∧ Stands r.1 s' := by
  revert hr
  fun_cases resume p a <;> intro hr <;> cases hr
  case case5.refl =>
    cases h
    exact ⟨_, .listening (.inl rfl) nofun, rfl⟩
  case case6.refl =>
    cases h
    exact ⟨_, .ready rfl, rfl⟩
  case case8.refl activity e he =>
    cases h
    exact ⟨_, reported_accepted he, rfl⟩
  case case12.refl t =>
    cases h
    exact ⟨_, .claimed (.inl rfl) rfl rfl, rfl⟩
  case case15.refl t =>
    cases h
    exact ⟨_, .ended (.inr rfl), rfl⟩
  case case17.refl t state =>
    cases h
    exact ⟨_, .ended (.inl rfl), rfl⟩
  case case21.refl t =>
    cases h
    exact ⟨_, .settled (.inr rfl), rfl⟩
  case case22.refl t state =>
    cases h
    exact ⟨_, .settled (.inl rfl), rfl⟩
  case case27.refl activity e he =>
    cases h
    exact ⟨_, reported_accepted he, rfl⟩
  case case30.refl t => exact ⟨s, .unlistened rfl, h⟩
  -- What is left raises, delivers nothing or delivers what changes nothing.
  all_goals first | exact ⟨s, rfl, h⟩ | exact ⟨s, .silent rfl, h⟩ | exact ⟨s, rfl, h.raise⟩

end PollTasks

structure Service.Speaks {L A : Type} (v : Service L A) (J : L → Stage → Prop) : Prop where
  quiet : v.start.2 = none
  start : J v.start.1 .connecting
  step : ∀ {l s a r}, J l s → v.resume l a = some r → ∃ s', Moves Accepts s r.2 s' ∧ J r.1 s'
  claimed : ∀ {l s t}, J l s → v.claimed l = some t → s.owned = some t
  ended : ∀ {l}, v.ended l = true → v.claimed l = none ∧ ∀ a, v.resume l a = none

lemma pollTasks_speaks : pollTasks.Speaks PollTasks.Stands where
  quiet := rfl
  start := rfl
  step := PollTasks.Stands.step
  claimed := by
    intro l s t h ht
    cases l with
    | exiting u exit =>
      cases ht
      cases exit with
      | raised => exact h
      | unavailable | settled =>
        cases h
        rfl
    | claimed | unavailable | executing | outcome | settling =>
      cases ht
      cases h
      rfl
    | _ => cases ht
  ended := by
    intro l hl
    cases l with
    | ended => exact ⟨rfl, fun _ => rfl⟩
    | _ => cases hl

namespace PollMaintenance

def Stands : Place → Stage → Prop
  | .opening, s | .linkOpened, s => s = .connecting
  | .leaving, s | .ended, s => s.owned = none
  | _, s => s = .idle

lemma Stands.owned {p : Place} {s : Stage} (h : Stands p s) : s.owned = none := by
  cases p with
  | leaving | ended => exact h
  | _ =>
    cases h
    rfl

lemma Stands.step {p : Place} {s : Stage} {a : Answer} {r : Place × Option LifecycleEvent}
    (h : Stands p s) (hr : resume p a = some r) : ∃ s', Moves Accepts s r.2 s' ∧ Stands r.1 s' := by
  have howned := h.owned
  revert hr
  fun_cases resume p a <;> intro hr <;> cases hr
  case case6.refl =>
    cases h
    exact ⟨_, .ready rfl, rfl⟩
  all_goals first | exact ⟨s, rfl, h⟩ | exact ⟨s, .silent rfl, h⟩ | exact ⟨s, rfl, howned⟩

end PollMaintenance

lemma pollMaintenance_speaks : pollMaintenance.Speaks PollMaintenance.Stands where
  quiet := rfl
  start := rfl
  step := PollMaintenance.Stands.step
  claimed := nofun
  ended := by
    intro l hl
    cases l with
    | ended => exact ⟨rfl, fun _ => rfl⟩
    | _ => cases hl

namespace ServiceChildLoop

variable {L A : Type} (v : Service L A) (J : L → Stage → Prop)

def Quiet (w : ServiceChildLoop L) : Prop := ∀ x, w.service = some x → v.ended x = true

def Serving (w : ServiceChildLoop L) (s : Stage) : Prop := ∃ x, w.service = some x ∧ J x s

def Stands (w : ServiceChildLoop L) (s : Stage) : Prop :=
  match w.driver with
  | .starting => w.Quiet v ∧ s = .connecting
  | .waiting | .sendingReady | .waitingHealthy | .cancelling | .gatheringHealthy | .gathering =>
    w.Serving J s
  | .faulted | .sendingFault | .delaying | .cancellingDelay => w.Quiet v ∧ s = .backoff
  | .gatheringStop | .gatheringBeat => w.Quiet v
  | .stopping => w.Quiet v ∧ s = .stopping
  | .stopped => w.Quiet v ∧ s = .dead
  -- A message that could not be sent leaves the service behind.
  | .ended => w.Quiet v ∨ w.Serving J s

def claimed (w : ServiceChildLoop L) : Option Owned := w.service.bind v.claimed

variable {v J} {w w' : ServiceChildLoop L} {s s' : Stage} {a : Action A}
  {r : ServiceChildLoop L × Option LifecycleEvent}

lemma Stands.service (h : w.Stands v J s) : w.Quiet v ∨ w.Serving J s := by
  rw [Stands] at h
  cases hd : w.driver <;> rw [hd] at h
  case ended => exact h
  case starting | faulted | sendingFault | delaying | cancellingDelay | stopping | stopped =>
    exact .inl h.1
  case gatheringStop | gatheringBeat => exact .inl h
  all_goals exact .inr h

lemma Stands.congr (h : w.Stands v J s) (hd : w'.driver = w.driver) (hs : w'.service = w.service) :
    w'.Stands v J s := by
  simp only [Stands, Quiet, Serving, hd, hs] at h ⊢
  exact h

lemma Serving.quiet (h : w.Serving J s) (hd : w.serviceDone v = true) : w.Quiet v := by
  obtain ⟨x, hx, -⟩ := h
  intro y hy
  rwa [serviceDone, hy] at hd

lemma Stands.claimed (hv : v.Speaks J) (h : w.Stands v J s) {t : Owned}
    (ht : w.claimed v = some t) : s.owned = some t := by
  obtain ⟨x, hx, hc⟩ := Option.bind_eq_some_iff.mp ht
  obtain hq | ⟨y, hy, hj⟩ := h.service
  · rw [(hv.ended (hq x hx)).1] at hc
    cases hc
  · cases hx.symm.trans hy
    exact hv.claimed hj hc

lemma Stands.serve (hv : v.Speaks J) (h : w.Stands v J s) {x : L} (hx : w.service = some x) {a : A}
    {r : L × Option LifecycleEvent} (hr : v.resume x a = some r) {healthy : Bool} :
    ∃ s', Moves Accepts s r.2 s' ∧
      ({ w with service := some r.1, healthy := healthy } : ServiceChildLoop L).Stands v J s' := by
  have hlive : ¬ w.Quiet v := by
    intro hq
    rw [(hv.ended (hq x hx)).2 a] at hr
    cases hr
  obtain ⟨y, hy, hj⟩ := h.service.resolve_left hlive
  cases hx.symm.trans hy
  obtain ⟨s', hm, hj'⟩ := hv.step hj hr
  refine ⟨s', hm, ?_⟩
  rw [Stands] at h ⊢
  cases hd : w.driver <;> simp only [hd] at h ⊢
  case ended => exact .inr ⟨r.1, rfl, hj'⟩
  case starting | faulted | sendingFault | delaying | cancellingDelay | stopping | stopped =>
    exact absurd h.1 hlive
  case gatheringStop | gatheringBeat => exact absurd h hlive
  all_goals exact ⟨r.1, rfl, hj'⟩

lemma Stands.drive (hv : v.Speaks J) (h : w.Stands v J s) {detail : String}
    (hr : w.drive v detail = some r) : ∃ s', Moves Accepts s r.2 s' ∧ r.1.Stands v J s' := by
  have hservice := h.service
  rw [Stands] at h
  cases hd : w.driver <;> simp only [hd, ServiceChildLoop.drive] at h hr
  case starting =>
    cases hr
    obtain ⟨-, rfl⟩ := h
    exact ⟨.connecting, by simp [Moves, hv.quiet], v.start.1, rfl, hv.start⟩
  case waiting =>
    split_ifs at hr <;> cases hr <;> exact ⟨s, rfl, h⟩
  case waitingHealthy =>
    split_ifs at hr <;> cases hr <;> exact ⟨s, rfl, h⟩
  case cancelling =>
    split_ifs at hr with hdone
    cases hr
    exact ⟨s, rfl, h.quiet hdone⟩
  case gathering =>
    split_ifs at hr with hdone
    cases hr
    exact ⟨.backoff, .fault rfl, h.quiet hdone, rfl⟩
  case delaying =>
    split_ifs at hr <;> cases hr
    · exact ⟨s, rfl, h⟩
    · obtain ⟨hq, rfl⟩ := h
      exact ⟨.connecting, .start rfl rfl, hq, rfl⟩
  case cancellingDelay =>
    cases hr
    exact ⟨s, rfl, h.1⟩
  case gatheringBeat =>
    cases hr
    exact ⟨.stopping, .stop rfl, h, rfl⟩
  case stopping =>
    cases hr
    obtain ⟨hq, rfl⟩ := h
    exact ⟨.dead, .stopped rfl, hq, rfl⟩
  case stopped =>
    cases hr
    exact ⟨s, rfl, hservice⟩
  case ended => cases hr
  all_goals
    cases hr
    exact ⟨s, rfl, h⟩

lemma Stands.step (hv : v.Speaks J) (h : w.Stands v J s) (hr : w.resume v a = some r) :
    ∃ s', Moves Accepts s r.2 s' ∧ r.1.Stands v J s' := by
  cases a with
  | service answer =>
    simp only [resume, Option.bind_eq_bind, Option.bind_eq_some_iff, Option.pure_def,
      Option.some.injEq] at hr
    obtain ⟨x, hx, r', hr', rfl⟩ := hr
    exact h.serve hv hx hr'
  | healthyWaited =>
    rw [resume] at hr
    split_ifs at hr
    cases hr
    exact ⟨s, rfl, h.congr rfl rfl⟩
  | stopRead =>
    cases hr
    exact ⟨s, rfl, h.congr rfl rfl⟩
  | resumed detail => exact h.drive hv hr
  | raised =>
    rw [resume] at hr
    split_ifs at hr
    cases hr
    exact ⟨s, rfl, h.service⟩

end ServiceChildLoop

namespace ChildLoop

def claimed : Place → Option Owned
  | .started work | .sendingState work | .performing work => some work.owned
  | _ => none

def Stands : Place → Stage → Prop
  | .starting, s => s = .connecting
  | .readied, s | .sendingReady, s | .reading, s | .finished, s | .sendingResult, s => s = .idle
  | .started work, s | .sendingState work, s | .performing work, s => s = .running work.owned
  | .stopping, s | .gatheringBeat, s => s = .stopping
  | .stopped, s => s = .dead
  | .ended, _ => True

lemma Stands.claimed {p : Place} {s : Stage} {t : Owned} (h : Stands p s) (ht : claimed p = some t) :
    s.owned = some t := by
  cases p with
  | started | sendingState | performing =>
    cases ht
    cases h
    rfl
  | _ => cases ht

lemma Stands.step {p : Place} {s : Stage} {a : Answer} {r : Place × Option LifecycleEvent}
    (h : Stands p s) (hr : resume p a = some r) : ∃ s', Moves Accepts s r.2 s' ∧ Stands r.1 s' := by
  revert hr
  fun_cases resume p a <;> intro hr <;> cases hr
  case case4.refl =>
    cases h
    exact ⟨_, .ready rfl, rfl⟩
  case case7.refl work =>
    cases h
    exact ⟨.running work.owned, .claimed (.inr rfl) rfl rfl, rfl⟩
  case case11.refl work ok =>
    cases h
    exact ⟨_, .finished rfl, rfl⟩
  case case21.refl =>
    cases h
    exact ⟨_, .stopped rfl, rfl⟩
  all_goals first | exact ⟨s, rfl, h⟩ | exact ⟨s, rfl, trivial⟩ | exact ⟨_, .stop rfl, rfl⟩

end ChildLoop

lemma childLoop_speaks : Speaks childLoop Accepts .starting ChildLoop.Stands where
  start := ⟨.connecting, .start rfl rfl, rfl⟩
  step h hr := ChildLoop.Stands.step h hr

lemma Service.Speaks.loop {L A : Type} {v : Service L A} {J : L → Stage → Prop} (hv : v.Speaks J) :
    Library.Protocol.Speaks (serviceChildLoop v) Accepts .starting (ServiceChildLoop.Stands v J) where
  start := ⟨.connecting, .start rfl rfl, nofun, rfl⟩
  step h hr := ServiceChildLoop.Stands.step hv h hr

lemma atStage_initial : AtStage .starting {} := ⟨rfl, nofun, fun _ => rfl, le_rfl, fun _ => rfl⟩

structure Spoken {L A : Type} (p : Program L A LifecycleEvent) (claimed : L → Option Owned) : Prop where
  started : deliver SkeletonCore.reduce {} p.start.2 ≠ none
  accepted : ∀ es l c a r, Reaches p SkeletonCore.reduce {} es l c → p.resume l a = some r →
    deliver SkeletonCore.reduce c r.2 ≠ none
  held : ∀ es l c t, Reaches p SkeletonCore.reduce {} es l c → claimed l = some t →
    c.view.taskId = t.id ∧ c.view.version = t.version
  unsettled : ∀ es l c id version, Reaches p SkeletonCore.reduce {} es l c →
    (∀ e ∈ es, e.kind ≠ .stop) → unsettled es = some (id, version) →
    c.view.taskId = id ∧ c.view.version = version

lemma Spoken.of_speaks {L A : Type} {p : Program L A LifecycleEvent} {claimed : L → Option Owned}
    {I : L → Stage → Prop} (hp : Speaks p Accepts .starting I)
    (hc : ∀ {l s t}, I l s → claimed l = some t → s.owned = some t) : Spoken p claimed where
  started := (hp.accepted reduce_follows atStage_initial).1
  accepted := (hp.accepted reduce_follows atStage_initial).2
  held es l c t h ht := by
    obtain ⟨s, -, hi, hat⟩ := hp.reaches reduce_follows atStage_initial h
    exact hat.owned t (hc hi ht)
  unsettled es l c id version h hstop hu := by
    obtain ⟨s, hpath, -, hat⟩ := hp.reaches reduce_follows atStage_initial h
    rw [unsettled_owned hpath hstop] at hu
    obtain ⟨t, ht, heq⟩ := Option.map_eq_some_iff.mp hu
    cases heq
    exact hat.owned t ht

lemma Service.Speaks.spoken {L A : Type} {v : Service L A} {J : L → Stage → Prop} (hv : v.Speaks J) :
    Spoken (serviceChildLoop v) (ServiceChildLoop.claimed v) :=
  .of_speaks hv.loop fun h ht => h.claimed hv ht

theorem drivers_spoken : Spoken childLoop ChildLoop.claimed ∧
    Spoken (serviceChildLoop pollTasks) (ServiceChildLoop.claimed pollTasks) ∧
    Spoken (serviceChildLoop pollMaintenance) (ServiceChildLoop.claimed pollMaintenance) :=
  ⟨.of_speaks childLoop_speaks ChildLoop.Stands.claimed, pollTasks_speaks.spoken,
    pollMaintenance_speaks.spoken⟩

def promise : Owned := { id := "promise", version := 2, named := by decide }

def stoppedAnswers : List (Action PollTasks.Answer) :=
  [.resumed "", .service .returned, .service .returned, .service .returned, .service .returned,
    .service .returned, .service (.activity .none), .service .returned,
    .service (.claimed (some promise)), .service (.loaded true), .stopRead, .resumed "",
    .service .raised, .service .returned, .service .returned, .service .returned,
    .service .returned, .resumed "", .resumed "", .resumed ""]

/-- A stop while a task runs leaves it unsettled, and the view without it. -/
theorem stop_leaves_unsettled : ¬ ∀ es l c id version,
    Reaches (serviceChildLoop pollTasks) SkeletonCore.reduce {} es l c →
      unsettled es = some (id, version) → c.view.taskId = id ∧ c.view.version = version := by
  intro h
  have hrun : (run (serviceChildLoop pollTasks) SkeletonCore.reduce {} stoppedAnswers.reverse).map
      (fun x => (unsettled x.1, x.2.2.view.taskId)) = some (some (promise.id, promise.version), "") := by
    decide +kernel
  obtain ⟨x, hx, heq⟩ := Option.map_eq_some_iff.mp hrun
  obtain ⟨hunsettled, hview⟩ := Prod.mk.inj heq
  have hid := (h _ _ _ _ _ (reaches_of_run hx) hunsettled).1
  exact promise.named (hid.symm.trans hview)

end Reaper.Worker
