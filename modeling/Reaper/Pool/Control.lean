import Reaper.Library.Dict
import Mathlib.Data.Finset.Card

/-! The pure control rules of a skeleton pool: one event in, a new core and a list of effects out. -/

namespace Reaper.Pool

open Reaper.Library

inductive SkeletonState
  | starting | idle | running | stopping | dead
  deriving DecidableEq, Repr

structure SkeletonID where
  fd : ℤ
  gen : ℤ
  deriving DecidableEq, Repr

inductive EventKind
  | start | recover | spawned | spawnFailed | ready | submit | result | eof | sendFailed | close
  | deadline
  deriving DecidableEq, Repr

inductive EffectKind
  | spawn | sendRun | sendStop | closeDeath | resolve | fail | drop | closeControl | reap | kill
  deriving DecidableEq, Repr

inductive FailureReason
  | workerError | workerDied | closed
  deriving DecidableEq, Repr

structure ControlEvent where
  kind : EventKind
  identity : Option SkeletonID := none
  gen : Option ℤ := none
  job : Option String := none
  ok : Bool := true
  deriving DecidableEq, Repr

structure ControlEffect where
  kind : EffectKind
  identity : Option SkeletonID := none
  gen : Option ℤ := none
  job : Option String := none
  reason : Option FailureReason := none
  deriving DecidableEq, Repr

structure ControlSlot where
  identity : SkeletonID
  state : SkeletonState
  job : Option String := none
  deriving DecidableEq, Repr

/-- The job of a slot where the source tests it for truth: the empty text counts as none. -/
def ControlSlot.held (s : ControlSlot) : Option String := s.job.filter (· ≠ "")

structure ReaperCore where
  target : ℕ
  closing : Bool := false
  slots : Dict ℤ ControlSlot := Dict.empty
  pendingSpawns : Finset ℤ := ∅
  queue : List String := []
  nextGen : ℤ := 0

namespace ReaperCore

def fillLoop : ℕ → ReaperCore → ReaperCore × List ControlEffect
  | 0, c => (c, [])
  | n + 1, c =>
    let gen := c.nextGen + 1
    let r := fillLoop n { c with nextGen := gen, pendingSpawns := insert gen c.pendingSpawns }
    (r.1, { kind := .spawn, gen := some gen } :: r.2)

def fill (c : ReaperCore) : ReaperCore × List ControlEffect :=
  let total := c.slots.entries.length + c.pendingSpawns.card
  if c.closing then (c, []) else fillLoop (c.target - total) c

def find (c : ReaperCore) (identity : Option SkeletonID) : Option ControlSlot :=
  match identity with
  | none => none
  | some i => (c.slots.get i.fd).filter (fun s => s.identity = i)

def discard (i : SkeletonID) : List ControlEffect :=
  [{ kind := .drop, identity := some i }, { kind := .closeControl, identity := some i },
    { kind := .closeDeath, identity := some i }, { kind := .reap, identity := some i }]

def failed (reason : FailureReason) (job : String) : ControlEffect :=
  { kind := .fail, job := some job, reason := some reason }

def spawned (c : ReaperCore) (e : ControlEvent) : ReaperCore × List ControlEffect :=
  match e.gen, e.identity with
  | some gen, some i =>
    if gen ∉ c.pendingSpawns then (c, discard i)
    else
      let c := { c with pendingSpawns := c.pendingSpawns.erase gen }
      if c.closing then (c, discard i)
      else fill { c with slots := c.slots.set i.fd { identity := i, state := .starting } }
  | _, _ => (c, [])

def spawnFailed (c : ReaperCore) (e : ControlEvent) : ReaperCore × List ControlEffect :=
  match e.gen with
  | some gen => ({ c with pendingSpawns := c.pendingSpawns.erase gen }, [])
  | none => (c, [])

def ready (c : ReaperCore) (e : ControlEvent) : ReaperCore × List ControlEffect :=
  match c.find e.identity with
  | none => (c, [])
  | some slot =>
    if slot.state ≠ .starting then (c, [])
    else ({ c with slots := c.slots.set slot.identity.fd { slot with state := .idle } }, [])

/-- The ids a submission is checked against: queued ones, and those that slots hold. -/
def known (c : ReaperCore) : List String := c.queue ++ c.slots.values.filterMap ControlSlot.held

def submit (c : ReaperCore) (e : ControlEvent) : ReaperCore × List ControlEffect :=
  match e.job with
  | none => (c, [])
  | some job =>
    if c.closing then (c, [])
    else if job ∈ c.known then (c, [])
    else ({ c with queue := c.queue ++ [job] }, [])

def result (c : ReaperCore) (e : ControlEvent) : ReaperCore × List ControlEffect :=
  match c.find e.identity with
  | none => (c, [])
  | some slot =>
    if slot.state ≠ .running then (c, [])
    else if slot.job ≠ e.job ∨ e.job = none then (c, [])
    else
      ({ c with slots := c.slots.set slot.identity.fd { slot with state := .idle, job := none } },
        if e.ok then [{ kind := .resolve, job := e.job }]
        else [{ kind := .fail, job := e.job, reason := some .workerError }])

def lost (c : ReaperCore) (e : ControlEvent) : ReaperCore × List ControlEffect :=
  match c.find e.identity with
  | none => (c, [])
  | some slot =>
    ({ c with slots := c.slots.erase slot.identity.fd },
      discard slot.identity ++ slot.held.toList.map (failed .workerDied))

def stopping (slot : ControlSlot) : List ControlEffect :=
  slot.held.toList.map (failed .closed) ++ [{ kind := .sendStop, identity := some slot.identity }]

def close (c : ReaperCore) : ReaperCore × List ControlEffect :=
  if c.closing then (c, [])
  else
    ({ c with
        closing := true
        queue := []
        pendingSpawns := ∅
        slots := c.slots.map fun slot => { slot with state := .stopping, job := none } },
      c.queue.map (failed .closed) ++ c.slots.values.flatMap stopping)

def deadline (c : ReaperCore) : ReaperCore × List ControlEffect :=
  if c.closing then
    (c, c.slots.values.map fun slot => { kind := .kill, identity := some slot.identity })
  else (c, [])

def dispatchLoop : List (ℤ × ControlSlot) → ReaperCore → ReaperCore × List ControlEffect
  | [], c => (c, [])
  | (fd, slot) :: rest, c =>
    match c.queue with
    | [] => (c, [])
    | job :: queue =>
      if slot.state ≠ .idle then dispatchLoop rest c
      else
        let r := dispatchLoop rest
          { c with
            queue := queue
            slots := c.slots.set fd { slot with state := .running, job := some job } }
        (r.1, { kind := .sendRun, identity := some slot.identity, job := some job } :: r.2)

def dispatch (c : ReaperCore) : ReaperCore × List ControlEffect := dispatchLoop c.slots.entries c

def handle (c : ReaperCore) (e : ControlEvent) : ReaperCore × List ControlEffect :=
  match e.kind with
  | .start => c.fill
  | .recover => c.fill
  | .spawned => c.spawned e
  | .spawnFailed => c.spawnFailed e
  | .ready => c.ready e
  | .submit => c.submit e
  | .result => c.result e
  | .eof => c.lost e
  | .sendFailed => c.lost e
  | .close => c.close
  | .deadline => c.deadline

def apply (c : ReaperCore) (e : ControlEvent) : ReaperCore × List ControlEffect :=
  let handled := c.handle e
  let dispatched := handled.1.dispatch
  (dispatched.1, handled.2 ++ dispatched.2)

def run : ReaperCore → List ControlEvent → ReaperCore × List ControlEffect
  | c, [] => (c, [])
  | c, e :: es =>
    let first := c.apply e
    let rest := run first.1 es
    (rest.1, first.2 ++ rest.2)

end ReaperCore

end Reaper.Pool
