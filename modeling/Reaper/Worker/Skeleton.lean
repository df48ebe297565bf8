import Reaper.Worker.Outcome
import Reaper.Library.Protocol

/-! The lifecycle of one skeleton: its reducer, and the stages of the protocol that its drivers speak. -/

namespace Reaper.Worker

open Reaper.Library.Protocol Claimed

inductive SkeletonPhase
  | starting | connecting | idle | running | settling | backoff | stopping | dead
  deriving DecidableEq

inductive ListenerPhase
  | closed | listening
  deriving DecidableEq

inductive LifecycleKind
  | start | linkOpened | ready | poll | fallbackPoll
  | listenerOpened | listenerNotified | listenerProbed | listenerRecycled | listenerClosed
  | taskClaimed | taskOutcome | taskUnavailable | taskCommitted | taskReleased
  | workStarted | workFinished | maintenancePoll | gcFinished | fault | stop | stopped
  deriving DecidableEq

inductive LifecycleLevel
  | debug | info | warning | error
  deriving DecidableEq

inductive WorkOutcome
  | succeeded | failed
  deriving DecidableEq

inductive TaskReleaseReason
  | functionUnavailable
  deriving DecidableEq

structure LifecycleEvent where
  kind : LifecycleKind
  taskId : String := ""
  version : ℤ := 0
  outcome : Option (ResultState ⊕ WorkOutcome) := none
  releaseReason : Option TaskReleaseReason := none
  count : Option ℤ := none
  detail : String := ""
  deriving DecidableEq

structure LifecycleEffect where
  level : LifecycleLevel
  event : LifecycleKind
  phase : SkeletonPhase
  listener : ListenerPhase
  listenerGeneration : ℤ
  taskId : String := ""
  version : ℤ := 0
  outcome : Option (ResultState ⊕ WorkOutcome) := none
  releaseReason : Option TaskReleaseReason := none
  count : Option ℤ := none
  detail : String := ""
  deriving DecidableEq

structure SkeletonView where
  phase : SkeletonPhase
  listener : ListenerPhase
  listenerGeneration : ℤ
  taskId : String
  version : ℤ
  deriving DecidableEq

structure SkeletonCore where
  phase : SkeletonPhase := .starting
  listener : ListenerPhase := .closed
  listenerGeneration : ℤ := 0
  taskId : String := ""
  version : ℤ := 0
  deriving DecidableEq

namespace SkeletonCore

def clearTask (c : SkeletonCore) : SkeletonCore := { c with taskId := "", version := 0 }

/-- A task without an id is refused. -/
def setTask (c : SkeletonCore) (e : LifecycleEvent) : Option SkeletonCore :=
  if e.taskId = "" then none else some { c with taskId := e.taskId, version := e.version }

def enter (c : SkeletonCore) (phase : SkeletonPhase) : SkeletonCore := { c with phase := phase }

def requirePhase (c : SkeletonCore) (phase : SkeletonPhase) : Option SkeletonCore :=
  if c.phase = phase then some c else none

def listen (c : SkeletonCore) : SkeletonCore :=
  { c with listener := .listening, listenerGeneration := c.listenerGeneration + 1 }

def unlisten (c : SkeletonCore) : SkeletonCore := { c with listener := .closed }

def transition (c : SkeletonCore) (e : LifecycleEvent) : Option SkeletonCore :=
  match e.kind with
  | .start => some (c.enter .connecting).clearTask
  | .ready => some (c.enter .idle)
  | .listenerOpened | .listenerRecycled => some c.listen
  | .listenerClosed => some c.unlisten
  | .taskClaimed | .workStarted => do
    let c ← c.requirePhase .idle
    (c.enter .running).setTask e
  | .taskOutcome | .taskUnavailable => do
    let c ← c.requirePhase .running
    return c.enter .settling
  | .taskCommitted | .taskReleased => do
    let c ← c.requirePhase .settling
    return (c.enter .idle).clearTask
  | .workFinished => do
    let c ← c.requirePhase .running
    return (c.enter .idle).clearTask
  | .fault => some (c.enter .backoff).unlisten.clearTask
  | .stop => some (c.enter .stopping).clearTask
  | .stopped => some (c.enter .dead).unlisten.clearTask
  | .linkOpened | .poll | .fallbackPoll | .listenerNotified | .listenerProbed | .maintenancePoll
  | .gcFinished => some c

structure AssertInvariants (c : SkeletonCore) : Prop where
  owns : c.taskId ≠ "" ↔ c.phase = .running ∨ c.phase = .settling
  version : c.taskId ≠ "" → 0 ≤ c.version
  generation : 0 ≤ c.listenerGeneration
  dead : c.phase = .dead → c.listener = .closed

instance (c : SkeletonCore) : Decidable c.AssertInvariants :=
  decidable_of_iff ((c.taskId ≠ "" ↔ c.phase = .running ∨ c.phase = .settling) ∧
      (c.taskId ≠ "" → 0 ≤ c.version) ∧ 0 ≤ c.listenerGeneration ∧
      (c.phase = .dead → c.listener = .closed))
    ⟨fun h => ⟨h.1, h.2.1, h.2.2.1, h.2.2.2⟩, fun h => ⟨h.owns, h.version, h.generation, h.dead⟩⟩

def levelFor (kind : LifecycleKind) : LifecycleLevel :=
  match kind with
  | .listenerRecycled | .taskCommitted | .gcFinished => .info
  | _ => .debug

def effect (c : SkeletonCore) (e : LifecycleEvent) : LifecycleEffect where
  level := levelFor e.kind
  event := e.kind
  phase := c.phase
  listener := c.listener
  listenerGeneration := c.listenerGeneration
  taskId := if e.taskId = "" then c.taskId else e.taskId
  version := if e.version = 0 then c.version else e.version
  outcome := e.outcome
  releaseReason := e.releaseReason
  count := e.count
  detail := e.detail

/-- The new core and what it reports, or none where apply raises. -/
def apply (c : SkeletonCore) (e : LifecycleEvent) : Option (SkeletonCore × List LifecycleEffect) :=
  (c.transition e).bind fun c => if c.AssertInvariants then some (c, [c.effect e]) else none

def view (c : SkeletonCore) : SkeletonView where
  phase := c.phase
  listener := c.listener
  listenerGeneration := c.listenerGeneration
  taskId := c.taskId
  version := c.version

def reduce (c : SkeletonCore) (e : LifecycleEvent) : Option SkeletonCore := (c.apply e).map Prod.fst

end SkeletonCore

structure Owned where
  id : String
  version : ℤ := 0
  named : id ≠ ""
  version_nonneg : 0 ≤ version := by decide

inductive Stage
  | starting
  | connecting
  | idle
  | running (t : Owned)
  | settling (t : Owned)
  | backoff
  | stopping
  | dead

namespace Stage

def phase : Stage → SkeletonPhase
  | starting => .starting
  | connecting => .connecting
  | idle => .idle
  | running _ => .running
  | settling _ => .settling
  | backoff => .backoff
  | stopping => .stopping
  | dead => .dead

def owned : Stage → Option Owned
  | running t | settling t => some t
  | _ => none

end Stage

def LifecycleKind.silent : LifecycleKind → Bool
  | .linkOpened | .poll | .fallbackPoll | .listenerNotified | .listenerProbed | .maintenancePoll
  | .gcFinished => true
  | _ => false

inductive Accepts : Stage → LifecycleEvent → Stage → Prop
  | silent {s e} (h : e.kind.silent = true) : Accepts s e s
  | start {s e} (h : e.kind = .start) (hs : s.owned = none) : Accepts s e .connecting
  | ready {e} (h : e.kind = .ready) : Accepts .connecting e .idle
  | listening {s e} (h : e.kind = .listenerOpened ∨ e.kind = .listenerRecycled) (hs : s.phase ≠ .dead) :
    Accepts s e s
  | unlistened {s e} (h : e.kind = .listenerClosed) : Accepts s e s
  | claimed {e t} (h : e.kind = .taskClaimed ∨ e.kind = .workStarted) (hid : e.taskId = t.id)
    (hv : e.version = t.version) : Accepts .idle e (.running t)
  | ended {e t} (h : e.kind = .taskOutcome ∨ e.kind = .taskUnavailable) :
    Accepts (.running t) e (.settling t)
  | settled {e t} (h : e.kind = .taskCommitted ∨ e.kind = .taskReleased) : Accepts (.settling t) e .idle
  | finished {e t} (h : e.kind = .workFinished) : Accepts (.running t) e .idle
  | fault {s e} (h : e.kind = .fault) : Accepts s e .backoff
  | stop {s e} (h : e.kind = .stop) : Accepts s e .stopping
  | stopped {e} (h : e.kind = .stopped) : Accepts .stopping e .dead

structure AtStage (s : Stage) (c : SkeletonCore) : Prop where
  phase : c.phase = s.phase
  owned : ∀ t, s.owned = some t → c.taskId = t.id ∧ c.version = t.version
  free : s.owned = none → c.taskId = ""
  generation : 0 ≤ c.listenerGeneration
  dead : s.phase = .dead → c.listener = .closed

section Stages

variable {s s' : Stage} {c c' : SkeletonCore} {e : LifecycleEvent}

lemma Stage.owned_iff : s.owned ≠ none ↔ s.phase = .running ∨ s.phase = .settling := by
  cases s <;> simp [Stage.owned, Stage.phase]

lemma AtStage.invariants (h : AtStage s c) : c.AssertInvariants := by
  refine ⟨?_, fun hid => ?_, h.generation, fun hd => h.dead (h.phase ▸ hd)⟩
  · rw [h.phase, ← Stage.owned_iff]
    cases ht : s.owned with
    | none => simp [h.free ht]
    | some t => simp [(h.owned t ht).1, t.named]
  · cases ht : s.owned with
    | none => exact absurd (h.free ht) hid
    | some t =>
      rw [(h.owned t ht).2]
      exact t.version_nonneg

lemma AtStage.reduces (h : AtStage s' c') (ht : c.transition e = some c') :
    ∃ d, c.reduce e = some d ∧ AtStage s' d := by
  refine ⟨c', ?_, h⟩
  rw [SkeletonCore.reduce, SkeletonCore.apply, ht, Option.bind_some, if_pos h.invariants]
  rfl

lemma requirePhase_some {phase : SkeletonPhase} (h : c.phase = phase) :
    c.requirePhase phase = some c := if_pos h

lemma reduce_follows : Follows SkeletonCore.reduce Accepts AtStage := by
  intro s e s' c h ha
  cases ha with
  | silent he =>
    refine h.reduces ?_
    rw [SkeletonCore.transition]
    cases hk : e.kind <;> simp [hk, LifecycleKind.silent] at he <;> rfl
  | start he =>
    have hat : AtStage .connecting (c.enter .connecting).clearTask :=
      ⟨rfl, nofun, fun _ => rfl, h.generation, nofun⟩
    exact hat.reduces (by simp [SkeletonCore.transition, he])
  | ready he =>
    have hat : AtStage .idle (c.enter .idle) := ⟨rfl, nofun, fun _ => h.free rfl, h.generation, nofun⟩
    exact hat.reduces (by simp [SkeletonCore.transition, he])
  | listening he hs =>
    have hat : AtStage s c.listen := ⟨h.phase, h.owned, h.free,
      Int.add_nonneg h.generation Int.one_nonneg, fun hd => absurd hd hs⟩
    apply hat.reduces
    obtain he | he := he <;> simp [SkeletonCore.transition, he]
  | unlistened he =>
    have hat : AtStage s c.unlisten := ⟨h.phase, h.owned, h.free, h.generation, fun _ => rfl⟩
    exact hat.reduces (by simp [SkeletonCore.transition, he])
  | @claimed _ t he hid hv =>
    have hat : AtStage (.running t)
        { c with phase := .running, taskId := e.taskId, version := e.version } := by
      refine ⟨rfl, fun u hu => ?_, nofun, h.generation, nofun⟩
      cases hu
      exact ⟨hid, hv⟩
    have hne : e.taskId ≠ "" := hid ▸ t.named
    have hidle : c.requirePhase .idle = some c := requirePhase_some h.phase
    apply hat.reduces
    obtain he | he := he <;>
      simp [SkeletonCore.transition, he, hidle, SkeletonCore.setTask, hne, SkeletonCore.enter]
  | @ended _ t he =>
    have hat : AtStage (.settling t) (c.enter .settling) :=
      ⟨rfl, h.owned, nofun, h.generation, nofun⟩
    have hrunning : c.requirePhase .running = some c := requirePhase_some h.phase
    apply hat.reduces
    obtain he | he := he <;> simp [SkeletonCore.transition, he, hrunning]
  | settled he =>
    have hat : AtStage .idle (c.enter .idle).clearTask :=
      ⟨rfl, nofun, fun _ => rfl, h.generation, nofun⟩
    have hsettling : c.requirePhase .settling = some c := requirePhase_some h.phase
    apply hat.reduces
    obtain he | he := he <;> simp [SkeletonCore.transition, he, hsettling]
  | finished he =>
    have hat : AtStage .idle (c.enter .idle).clearTask :=
      ⟨rfl, nofun, fun _ => rfl, h.generation, nofun⟩
    have hrunning : c.requirePhase .running = some c := requirePhase_some h.phase
    exact hat.reduces (by simp [SkeletonCore.transition, he, hrunning])
  | fault he =>
    have hat : AtStage .backoff (c.enter .backoff).unlisten.clearTask :=
      ⟨rfl, nofun, fun _ => rfl, h.generation, nofun⟩
    exact hat.reduces (by simp [SkeletonCore.transition, he])
  | stop he =>
    have hat : AtStage .stopping (c.enter .stopping).clearTask :=
      ⟨rfl, nofun, fun _ => rfl, h.generation, nofun⟩
    exact hat.reduces (by simp [SkeletonCore.transition, he])
  | stopped he =>
    have hat : AtStage .dead (c.enter .dead).unlisten.clearTask :=
      ⟨rfl, nofun, fun _ => rfl, h.generation, fun _ => rfl⟩
    exact hat.reduces (by simp [SkeletonCore.transition, he])

/-- The last task that is claimed and neither committed, released nor faulted since. -/
def unsettled (es : List LifecycleEvent) : Option (String × ℤ) :=
  es.foldl (fun t e =>
    match e.kind with
    | .taskClaimed | .workStarted => some (e.taskId, e.version)
    | .taskCommitted | .taskReleased | .workFinished | .fault => none
    | _ => t) none

lemma unsettled_append {es : List LifecycleEvent} : unsettled (es ++ [e]) =
    match e.kind with
    | .taskClaimed | .workStarted => some (e.taskId, e.version)
    | .taskCommitted | .taskReleased | .workFinished | .fault => none
    | _ => unsettled es := by
  rw [unsettled, List.foldl_append]
  rfl

lemma unsettled_owned {es : List LifecycleEvent} (h : Path Accepts .starting es s)
    (hstop : ∀ e ∈ es, e.kind ≠ .stop) : unsettled es = s.owned.map fun t => (t.id, t.version) := by
  induction h with
  | nil => rfl
  | @snoc es s e s' _ ha ih =>
    have ih := ih fun e he => hstop e (List.mem_append_left _ he)
    rw [unsettled_append]
    cases ha with
    | silent he =>
      cases hk : e.kind <;> simp [hk, LifecycleKind.silent] at he <;> exact ih
    | start he hs =>
      rw [he, ih, hs]
      rfl
    | ready he =>
      rw [he, ih]
      rfl
    | listening he =>
      obtain he | he := he <;> rw [he] <;> exact ih
    | unlistened he =>
      rw [he]
      exact ih
    | claimed he hid hv =>
      obtain he | he := he <;> rw [he, hid, hv] <;> rfl
    | ended he =>
      obtain he | he := he <;> rw [he] <;> exact ih
    | settled he =>
      obtain he | he := he <;> rw [he] <;> rfl
    | finished he | fault he =>
      rw [he]
      rfl
    | stop he => exact absurd he (hstop e (List.mem_append_right _ (List.mem_singleton_self e)))
    | stopped he =>
      rw [he]
      exact ih

end Stages

end Reaper.Worker
