import Reaper.Worker.Skeleton

/-! The drivers of a skeleton: the loops of a general child, of a service and of what restarts it. They
are programs by their awaits. An await that is cancelled, or that raises, is one that has raised. -/

namespace Reaper.Worker

open Reaper.Library.Protocol Claimed

inductive ListenerActivity
  | none | probed | recycled
  deriving DecidableEq

inductive ListenerWake
  | notified | fallback
  deriving DecidableEq

structure Service (L A : Type) extends Program L A LifecycleEvent where
  ended : L → Bool
  ready : L → Bool
  claimed : L → Option Owned

def Owned.event (t : Owned) (kind : LifecycleKind) : LifecycleEvent :=
  { kind := kind, taskId := t.id, version := t.version }

def Owned.ended (t : Owned) (kind : LifecycleKind) (outcome : ResultState) : LifecycleEvent :=
  { t.event kind with outcome := some (.inl outcome) }

def Owned.released (t : Owned) (kind : LifecycleKind) : LifecycleEvent :=
  { t.event kind with releaseReason := some .functionUnavailable }

def reported : ListenerActivity → Option LifecycleEvent
  | .none => none
  | .probed => some { kind := .listenerProbed }
  | .recycled => some { kind := .listenerRecycled }

namespace PollTasks

inductive Exit
  | raised
  | unavailable
  | settled (outcome : ResultState)

inductive Place
  /-- Reaper.__aenter__ -/
  | opening
  | linkOpened
  /-- client.listen -/
  | listening
  | listenerOpened
  | ready
  | arming
  | armed
  | polled
  /-- TaskClaim.__aenter__ -/
  | claiming
  | claimed (t : Owned)
  | unavailable (t : Owned)
  | executing (t : Owned)
  | outcome (t : Owned)
  /-- settle_execution -/
  | settling (t : Owned)
  /-- TaskClaim.__aexit__ -/
  | exiting (t : Owned) (exit : Exit)
  | reported
  /-- TaskClaim.__aexit__ without a task -/
  | releasing
  | waiting
  | woken (activity : ListenerActivity)
  | noted
  /-- listener.close -/
  | closing (t : Option Owned)
  | closed (t : Option Owned)
  /-- Reaper.__aexit__ -/
  | leaving (t : Option Owned)
  | ended (t : Option Owned)

inductive Answer
  | raised
  | returned
  | activity (activity : ListenerActivity)
  | claimed (task : Option Owned)
  | loaded (available : Bool)
  | result (state : ResultState)
  | woken (wake : ListenerWake) (activity : ListenerActivity)

def raise : Place → Place
  | .opening => .ended none
  | .linkOpened | .listening | .listenerOpened | .ready => .leaving none
  | .claimed t | .unavailable t | .executing t | .outcome t | .settling t => .exiting t .raised
  | .exiting t _ => .closing (some t)
  | .arming | .armed | .polled | .claiming | .reported | .releasing | .waiting | .woken _ | .noted =>
    .closing none
  | .closing t | .closed t => .leaving t
  | .leaving t | .ended t => .ended t

def resume : Place → Answer → Option (Place × Option LifecycleEvent)
  | .ended _, _ => none
  | p, .raised => some (raise p, none)
  | .opening, .returned => some (.linkOpened, some { kind := .linkOpened })
  | .linkOpened, .returned => some (.listening, none)
  | .listening, .returned => some (.listenerOpened, some { kind := .listenerOpened })
  | .listenerOpened, .returned => some (.ready, some { kind := .ready })
  | .ready, .returned => some (.arming, none)
  | .arming, .activity a =>
    match reported a with
    | some e => some (.armed, some e)
    | none => some (.polled, some { kind := .poll })
  | .armed, .returned => some (.polled, some { kind := .poll })
  | .polled, .returned => some (.claiming, none)
  | .claiming, .claimed (some t) => some (.claimed t, some (t.event .taskClaimed))
  | .claiming, .claimed none => some (.releasing, none)
  | .claimed t, .loaded true => some (.executing t, none)
  | .claimed t, .loaded false => some (.unavailable t, some (t.released .taskUnavailable))
  | .unavailable t, .returned => some (.exiting t .unavailable, none)
  | .executing t, .result state => some (.outcome t, some (t.ended .taskOutcome state))
  | .outcome t, .returned => some (.settling t, none)
  | .settling t, .result state => some (.exiting t (.settled state), none)
  | .exiting t .raised, .returned => some (.closing (some t), none)
  | .exiting t .unavailable, .returned => some (.reported, some (t.released .taskReleased))
  | .exiting t (.settled state), .returned => some (.reported, some (t.ended .taskCommitted state))
  | .reported, .returned => some (.arming, none)
  | .releasing, .returned => some (.waiting, none)
  | .waiting, .woken .notified a => some (.woken a, some { kind := .listenerNotified })
  | .waiting, .woken .fallback a => some (.woken a, some { kind := .fallbackPoll })
  | .woken a, .returned =>
    match reported a with
    | some e => some (.noted, some e)
    | none => some (.arming, none)
  | .noted, .returned => some (.arming, none)
  | .closing t, .returned => some (.closed t, some { kind := .listenerClosed })
  | .closed t, .returned => some (.leaving t, none)
  | .leaving t, .returned => some (.ended t, none)
  | _, _ => none

end PollTasks

def pollTasks : Service PollTasks.Place PollTasks.Answer where
  start := (.opening, none)
  resume := PollTasks.resume
  ended
    | .ended _ => true
    | _ => false
  ready
    | .claimed _ | .releasing => true
    | _ => false
  claimed
    | .claimed t | .unavailable t | .executing t | .outcome t | .settling t | .exiting t _ => some t
    | _ => none

namespace PollMaintenance

inductive Place
  | opening
  | linkOpened
  | ready
  | processing
  | polled
  | collecting (round : ℕ) (removed : ℕ)
  | collected
  | sleeping
  | leaving
  | ended

inductive Answer
  | raised
  | returned
  | due (gc : Bool)
  | removed (batch : ℕ)

def resume : Place → Answer → Option (Place × Option LifecycleEvent)
  | .ended, _ => none
  | .opening, .raised | .leaving, .raised => some (.ended, none)
  | _, .raised => some (.leaving, none)
  | .opening, .returned => some (.linkOpened, some { kind := .linkOpened })
  | .linkOpened, .returned => some (.ready, some { kind := .ready })
  | .ready, .returned => some (.processing, none)
  | .processing, .returned => some (.polled, some { kind := .maintenancePoll })
  | .polled, .due true => some (.collecting 0 0, none)
  | .polled, .due false => some (.sleeping, none)
  | .collecting round before, .removed batch =>
    let removed := before + batch
    if 10000 ≤ batch ∧ round + 1 < 10 then some (.collecting (round + 1) removed, none)
    else if removed = 0 then some (.sleeping, none)
    else some (.collected, some { kind := .gcFinished, count := some removed })
  | .collected, .returned => some (.sleeping, none)
  | .sleeping, .returned => some (.processing, none)
  | .leaving, .returned => some (.ended, none)
  | _, _ => none

end PollMaintenance

def pollMaintenance : Service PollMaintenance.Place PollMaintenance.Answer where
  start := (.opening, none)
  resume := PollMaintenance.resume
  ended
    | .ended => true
    | _ => false
  ready
    | .sleeping => true
    | _ => false
  claimed _ := none

/-- Ad hoc work has an id, and no version. -/
structure Work where
  id : String
  named : id ≠ ""

namespace Work

def owned (work : Work) : Owned := { id := work.id, named := work.named }

def started (work : Work) : LifecycleEvent := { kind := .workStarted, taskId := work.id }

def finished (work : Work) (ok : Bool) : LifecycleEvent :=
  { kind := .workFinished, taskId := work.id,
    outcome := some (.inr (if ok then .succeeded else .failed)) }

end Work

namespace ChildLoop

inductive Place
  | starting
  | readied
  | sendingReady
  | reading
  | started (work : Work)
  | sendingState (work : Work)
  | performing (work : Work)
  | finished
  | sendingResult
  | stopping
  | gatheringBeat
  | stopped
  | ended

inductive Answer
  | raised
  | returned
  | over
  | run (work : Work)
  | performed (ok : Bool)

def resume : Place → Answer → Option (Place × Option LifecycleEvent)
  | .starting, .raised | .readied, .raised | .sendingReady, .raised => some (.ended, none)
  | .starting, .returned => some (.readied, some { kind := .ready })
  | .readied, .returned => some (.sendingReady, none)
  | .sendingReady, .returned => some (.reading, none)
  | .reading, .run work => some (.started work, some work.started)
  | .reading, .over => some (.stopping, some { kind := .stop })
  | .started work, .returned => some (.sendingState work, none)
  | .sendingState work, .returned => some (.performing work, none)
  | .performing work, .performed ok => some (.finished, some (work.finished ok))
  | .finished, .returned => some (.sendingResult, none)
  | .sendingResult, .returned => some (.reading, none)
  | .reading, .raised | .started _, .raised | .sendingState _, .raised | .performing _, .raised
  | .finished, .raised | .sendingResult, .raised => some (.stopping, some { kind := .stop })
  | .stopping, .returned => some (.gatheringBeat, none)
  | .gatheringBeat, .returned => some (.stopped, some { kind := .stopped })
  | .stopping, .raised | .gatheringBeat, .raised | .stopped, .raised | .stopped, .returned =>
    some (.ended, none)
  | _, _ => none

end ChildLoop

def childLoop : Program ChildLoop.Place ChildLoop.Answer LifecycleEvent where
  start := (.starting, some { kind := .start })
  resume := ChildLoop.resume

namespace ServiceLoop

inductive Driver
  | starting
  /-- asyncio.wait for the service to be healthy or to end, or for the stop message -/
  | waiting
  | sendingReady
  | waitingHealthy
  /-- the service is cancelled, and gathered -/
  | cancelling
  | gatheringHealthy
  | gathering
  | faulted
  | sendingFault
  | delaying
  | cancellingDelay
  | gatheringStop
  | gatheringBeat
  | stopping
  | stopped
  | ended
  deriving DecidableEq

inductive Action (A : Type)
  /-- the service is resumed -/
  | service (answer : A)
  /-- the task that waits for the healthy event ends -/
  | healthyWaited
  /-- the stop message, or the end of the control stream -/
  | stopRead
  /-- the loop is resumed, with the text of the fault that it reports next -/
  | resumed (detail : String)
  | raised

end ServiceLoop

open ServiceLoop

structure ServiceChildLoop (L : Type) where
  driver : Driver
  service : Option L := none
  healthy : Bool := false
  healthyDone : Bool := false
  stopDone : Bool := false

namespace ServiceChildLoop

variable {L A : Type} (v : Service L A)

def serviceDone (w : ServiceChildLoop L) : Bool := w.service.any v.ended

def goto (w : ServiceChildLoop L) (driver : Driver) : Option (ServiceChildLoop L × Option LifecycleEvent) :=
  some ({ w with driver := driver }, none)

def report (w : ServiceChildLoop L) (driver : Driver) (e : LifecycleEvent) :
    Option (ServiceChildLoop L × Option LifecycleEvent) :=
  some ({ w with driver := driver }, some e)

def drive (w : ServiceChildLoop L) (detail : String) : Option (ServiceChildLoop L × Option LifecycleEvent) :=
  match w.driver with
  | .starting =>
    some ({ w with
      driver := .waiting, service := some v.start.1, healthy := false, healthyDone := false }, v.start.2)
  | .waiting =>
    if w.stopDone then w.goto .cancelling
    else if w.healthyDone then w.goto .sendingReady
    else if w.serviceDone v then w.goto .gatheringHealthy
    else none
  | .sendingReady => w.goto .waitingHealthy
  | .waitingHealthy =>
    if w.stopDone then w.goto .cancelling
    else if w.serviceDone v then w.goto .gathering
    else none
  | .cancelling => if w.serviceDone v then w.goto .gatheringStop else none
  | .gatheringHealthy => w.goto .gathering
  | .gathering =>
    if w.serviceDone v then w.report .faulted { kind := .fault, detail := detail } else none
  | .faulted => w.goto .sendingFault
  | .sendingFault => w.goto .delaying
  | .delaying => if w.stopDone then w.goto .cancellingDelay else w.report .starting { kind := .start }
  | .cancellingDelay => w.goto .gatheringStop
  | .gatheringStop => w.goto .gatheringBeat
  | .gatheringBeat => w.report .stopping { kind := .stop }
  | .stopping => w.report .stopped { kind := .stopped }
  | .stopped => w.goto .ended
  | .ended => none

def sends (w : ServiceChildLoop L) : Bool :=
  w.driver = .starting ∨ w.driver = .sendingReady ∨ w.driver = .faulted ∨ w.driver = .stopping ∨
    w.driver = .stopped

def resume (w : ServiceChildLoop L) : Action A → Option (ServiceChildLoop L × Option LifecycleEvent)
  | .service answer => do
    let r ← v.resume (← w.service) answer
    return ({ w with service := some r.1, healthy := w.healthy || v.ready r.1 }, r.2)
  | .healthyWaited => if w.healthy then some ({ w with healthyDone := true }, none) else none
  | .stopRead => some ({ w with stopDone := true }, none)
  | .resumed detail => w.drive v detail
  | .raised => if w.sends then w.goto .ended else none

end ServiceChildLoop

def serviceChildLoop {L A : Type} (v : Service L A) :
    Program (ServiceChildLoop L) (Action A) LifecycleEvent where
  start := ({ driver := .starting }, some { kind := .start })
  resume := ServiceChildLoop.resume v

end Reaper.Worker
