import Reaper.Pool.Drive
import Reaper.Pool.Framing
import Reaper.Worker.Skeleton

/-! A pool and its general children: the works that submissions bring, the loop of a child around them,
and the notes that cross the control sockets. -/

namespace Reaper.Pool

open Reaper.Library Reaper.Worker

inductive WorkerKind
  | sync | async | bash
  deriving DecidableEq

/-- Functions, arguments and values are objects of the job; here they are names of such. -/
structure Work where
  id : String
  kind : WorkerKind
  target : String
  args : List String := []
  options : List (String × String) := []
  deriving DecidableEq

structure Thrown where
  kind : String
  text : Option String
  trace : String := ""
  stopIteration : Bool := false
  /-- its class is CancelledError or InvalidStateError of concurrent.futures -/
  ofFuture : Bool := false
  deriving DecidableEq

inductive Ending
  | returned (value : Option String)
  | raised (e : Thrown)
  deriving DecidableEq

structure Completed where
  returncode : ℤ
  stdout : List UInt8
  stderr : String

structure Result where
  id : String
  ok : Bool
  note : Note
  deriving DecidableEq

/-- What the processes pickle: `work` is the check of a submission, the others are notes. -/
inductive Message
  | work (work : Work)
  | run (work : Work)
  | stop | ready | state
  | lifecycle (effect : LifecycleEffect)
  | result (r : Result)
  | fatal (kind text trace : String)
  deriving DecidableEq

inductive Deed
  | report (event : LifecycleEvent)
  | say (message : Message)
  | attempt
  | read
  | perform (work : Work)
  | confess (e : Thrown)
  deriving DecidableEq

/-- What the processes run on. A call is none where it raises before there is anything to gather. -/
structure Host where
  pickle : Pickle Message
  chunk : ℕ → ℕ := fun _ => 0
  inThread : Work → Ending
  coroutine : Work → Option Ending
  environ : Work → Option (List (String × String))
  shell : String → List (String × String) → Except Thrown Completed
  decode : List UInt8 → Except Thrown String
  bashTrace : Completed → String
  exception : Option String → Option Thrown
  /-- what asyncio puts in the place of an exception that it does not keep -/
  converted : Thrown → Thrown
  fault : Deed → Thrown

/-- No task keeps a StopIteration, and the future of a thread's call none of the errors of its kind. -/
def Thrown.converts (kind : WorkerKind) (e : Thrown) : Bool :=
  e.stopIteration || decide (kind = .sync) && e.ofFuture

namespace Host

variable (h : Host)

def settled (kind : WorkerKind) : Ending → Ending
  | .returned value => .returned value
  | .raised e => .raised (if e.converts kind then h.converted e else e)

def runBash (script : String) (env : List (String × String)) : Ending :=
  match h.shell script env with
  | .error e => .raised e
  | .ok proc =>
    if proc.returncode ≠ 0 then
      .raised {
        kind := "builtins.RuntimeError"
        text := some ("bash got code " ++ toString proc.returncode ++ ": " ++ proc.stderr)
        trace := h.bashTrace proc }
    else match h.decode proc.stdout with
      | .error e => .raised e
      | .ok text => .returned (some text)

def gather (work : Work) : Option Ending :=
  match work.kind with
  | .sync => some (h.settled .sync (h.inThread work))
  | .async => (h.coroutine work).map (h.settled .async)
  | .bash => (h.environ work).map (h.runBash work.target)

def failure (work : Work) (e : Thrown) : Option Result :=
  e.text.map fun text =>
    { id := work.id, ok := false, note := { kind := e.kind, text := text, trace := e.trace } }

def perform (work : Work) : Option Result :=
  match h.gather work with
  | none => none
  | some (.raised e) => failure work e
  | some (.returned value) =>
    match h.exception value with
    | some e => failure work e
    | none => some { id := work.id, ok := true, note := { value := value } }

end Host

structure Child where
  todo : List Deed
  guarded : Bool := false
  lifecycle : SkeletonCore := {}
  inbox : Receiver
  outbox : Receiver

def Receiver.write (s : Receiver) (frame : List UInt8) : Receiver := { s with unread := s.unread ++ frame }

namespace Child

variable (h : Host) (c : Child)

def boot : Child where
  todo := [.report { kind := .start }, .report { kind := .ready }, .say .ready, .attempt, .read]
  inbox := { unread := [], chunk := h.chunk }
  outbox := { unread := [], chunk := h.chunk }

def ending : List Deed := [.report { kind := .stop }, .report { kind := .stopped }]

/-- An exception leaves the loop through the finally block of the try that it is in. -/
def raise (e : Thrown) : Child :=
  { c with guarded := false, todo := (if c.guarded then ending else []) ++ [.confess e] }

def started (work : Work) : LifecycleEvent := { kind := .workStarted, taskId := work.id }

def finished (work : Work) (r : Result) : LifecycleEvent where
  kind := .workFinished
  taskId := work.id
  outcome := some (.inr (if r.ok then .succeeded else .failed))

def step : Option Child :=
  match c.todo with
  | [] => none
  | .report e :: todo =>
    match c.lifecycle.apply e with
    | none => some (c.raise (h.fault (.report e)))
    | some (core, fx) =>
      match fx.mapM fun x => encodeMessage h.pickle (.lifecycle x) with
      | none => some ({ c with lifecycle := core }.raise (h.fault (.report e)))
      | some frames => some { c with lifecycle := core, todo := todo, outbox := c.outbox.write frames.flatten }
  | .say m :: todo =>
    match encodeMessage h.pickle m with
    | none => some (c.raise (h.fault (.say m)))
    | some frame => some { c with todo := todo, outbox := c.outbox.write frame }
  | .attempt :: todo => some { c with todo := todo, guarded := true }
  | .read :: _ =>
    if c.inbox.unread = [] then none
    else match readMessage h.pickle c.inbox with
      | (.raised, s) => some ({ c with inbox := s }.raise (h.fault .read))
      | (.message (.run work), s) =>
        some { c with inbox := s, todo := [.report (started work), .say .state, .perform work, .read] }
      | (_, s) => some { c with inbox := s, guarded := false, todo := ending }
  | .perform work :: todo =>
    match h.perform work with
    | none => some (c.raise (h.fault (.perform work)))
    | some r => some { c with todo := .report (finished work r) :: .say (.result r) :: todo }
  | .confess e :: todo =>
    match e.text.bind fun text => encodeMessage h.pickle (.fatal e.kind text e.trace) with
    | none => some { c with todo := todo }
    | some frame => some { c with todo := todo, outbox := c.outbox.write frame }

end Child

structure Workshop where
  pool : SkeletonPool
  works : Dict String Work := Dict.empty
  children : Dict SkeletonID Child := Dict.empty

inductive Event
  | submit (token : String) (lazy : Bool) (kind : WorkerKind) (target : String) (args : List String)
    (options : List (String × String))
  | parent (a : SkeletonPool.Action)
  | deliver (x : ControlEffect)
  | child (i : SkeletonID)
  | receive (i : SkeletonID)
  deriving DecidableEq

structure Turn where
  workshop : Workshop
  action : Option SkeletonPool.Action := none

def SkeletonPool.Action.own : SkeletonPool.Action → Bool
  | .start | .cancelFuture _ | .send _ | .recover | .resume _ _ => true
  | _ => false

def reaction (i : SkeletonID) : Reading Message → Option SkeletonPool.Action
  | .nothing => some (.eof i)
  | .raised => some (.readerFault i)
  | .message .ready => some (.ready i)
  | .message (.result r) => some (.result i r.id r.ok r.note)
  | .message _ => none

namespace Workshop

def new (target : ℕ) : Workshop := { pool := { core := { target := target } } }

variable (h : Host) (w : Workshop)

def holds (i : SkeletonID) : Bool := (w.pool.slots.get i.fd).any (fun s => s.identity = i)

def born (k : ℕ) (fd : ℤ) : Option SkeletonID := do
  let d ← w.pool.drives[k]?
  let x ← d.pending.head?
  let gen ← x.gen
  return ⟨fd, gen⟩

/-- The child of a sent job with the RUN note in its inbox, or none where the note has no frame or nobody is
at the other end. -/
def delivered (x : ControlEffect) : Option (SkeletonID × Child) := do
  let i ← x.identity
  let work ← w.works.get (x.job.getD "")
  let c ← w.children.get i
  let frame ← encodeMessage h.pickle (.run work)
  if w.holds i && !c.todo.isEmpty then some (i, { c with inbox := c.inbox.write frame }) else none

def heard (i : SkeletonID) : Option (Reading Message × Child) := do
  let c ← w.children.get i
  if c.outbox.unread.isEmpty && !c.todo.isEmpty then none
  else
    let r := readMessage h.pickle c.outbox
    some (r.1, { c with outbox := r.2 })

def submitted (work : Work) : Workshop := { w with works := w.works.set work.id work }

def place (i : SkeletonID) (c : Child) : Workshop := { w with children := w.children.set i c }

def turn : Event → Option Turn
  | .submit token lazy kind target args options =>
    let work : Work :=
      { id := jobName (w.pool.jobSequence + 1) token, kind := kind, target := target, args := args,
        options := options }
    if (h.pickle.dumps (.work work)).isSome then some ⟨w.submitted work, some (.submit token lazy)⟩
    else if (w.pool.submit token lazy).isSome then
      -- the submission raises, with its number already used up
      some ⟨{ w with pool := { w.pool with jobSequence := w.pool.jobSequence + 1 } }, none⟩
    else none
  | .parent a =>
    if !a.own then none
    else match a with
      | .resume k (some fd) => (w.born k fd).map fun i => ⟨w.place i (.boot h), some a⟩
      | _ => some ⟨w, some a⟩
  | .deliver x =>
    match w.delivered h x with
    | some (i, c) => some ⟨w.place i c, some (.sent x)⟩
    | none => some ⟨w, some (.sendFailed x)⟩
  | .child i =>
    if w.holds i then do
      let c ← w.children.get i
      let c ← c.step h
      return ⟨w.place i c, none⟩
    else none
  | .receive i =>
    if w.pool.reading i then (w.heard h i).map fun r => ⟨w.place i r.2, reaction i r.1⟩ else none

def routed (t : Event) : Option SkeletonPool.Action := (w.turn h t).bind Turn.action

def step (t : Event) : Option Workshop := do
  let r ← w.turn h t
  match r.action with
  | none => return r.workshop
  | some a =>
    let p ← r.workshop.pool.step a
    return { r.workshop with pool := p }

def run : Workshop → List Event → Option Workshop
  | w, [] => some w
  | w, t :: ts => (w.step h t).bind (fun v => run v ts)

end Workshop

end Reaper.Pool
