import Reaper.Pool.Control
import Reaper.Library.Names

/-! The driver of a skeleton pool. Each drive loop runs its own effect list over shared maps, and
parks when it waits inside SPAWN, DROP or REAP; the other tasks of the loop run meanwhile. -/

namespace Reaper.Pool

open Reaper.Library

/-- A RESULT message of a child, with the defaults the source reads from it. -/
structure Note where
  value : Option String := none
  kind : String := "Error"
  text : String := ""
  trace : String := ""
  deriving DecidableEq, Repr

inductive PoolError
  | remoteWorker (kind text trace : String)
  | cancelled (text : String)
  deriving DecidableEq, Repr

inductive FutureState
  | pending
  | result (value : Option String)
  | exception (error : PoolError)
  | cancelled
  deriving DecidableEq, Repr

structure Slot where
  identity : SkeletonID
  state : SkeletonState := .starting
  jobId : Option String := none
  deriving DecidableEq, Repr

inductive Owner
  | starter | submitter | recovery | closer
  | reader (identity : SkeletonID)
  | loser (identity : SkeletonID)
  | sender (identity : SkeletonID)
  deriving DecidableEq, Repr

inductive After
  | nothing
  | scheduleRecovery (preReady : Bool)
  deriving DecidableEq, Repr

/-- A drive that waits inside the first effect of its list. -/
structure Drive where
  owner : Owner
  pending : List ControlEffect
  after : After
  deriving DecidableEq, Repr

inductive Closing
  | begun
  | readers (waitSet : List SkeletonID)
  | slots (left : List SkeletonID)
  | finished
  deriving DecidableEq, Repr

structure SkeletonPool where
  core : ReaperCore
  slots : Dict ℤ Slot := Dict.empty
  retiredSlots : Dict SkeletonID Slot := Dict.empty
  jobs : Dict String ℕ := Dict.empty
  jobSequence : ℕ := 0
  queueLimit : ℕ := 10000
  results : Dict String Note := Dict.empty
  futures : Dict ℕ FutureState := Dict.empty
  /-- every call of set_result or set_exception, by future -/
  settlements : List ℕ := []
  started : Bool := false
  closing : Bool := false
  recoveryTask : Bool := false
  preReadyFailures : ℕ := 0
  startupError : Bool := false
  readers : List SkeletonID := []
  /-- the readers that the teardown has cancelled -/
  cancelled : List SkeletonID := []
  /-- the send_run tasks that have not begun, and those inside their send -/
  sends : List ControlEffect := []
  sending : List ControlEffect := []
  drives : List Drive := []
  closeTask : Option Closing := none

def maxPreReadyFailures : ℕ := 5

def jobName (sequence : ℕ) (token : String) : String :=
  String.ofList (Nat.toDigits 16 sequence) ++ "-" ++ token

namespace SkeletonPool

def slotFor (p : SkeletonPool) (identity : Option SkeletonID) : Option Slot :=
  match identity with
  | none => none
  | some i =>
    match (p.slots.get i.fd).filter (fun s => s.identity = i) with
    | some slot => some slot
    | none => p.retiredSlots.get i

def syncSlot (c : ReaperCore) (slot : Slot) : Slot :=
  match (c.slots.get slot.identity.fd).filter (fun s => s.identity = slot.identity) with
  | some s => { slot with state := s.state, jobId := s.job }
  | none => slot

def syncSlots (p : SkeletonPool) : SkeletonPool := { p with slots := p.slots.map (syncSlot p.core) }

def drop (p : SkeletonPool) (slot : Slot) : SkeletonPool :=
  let slots := match p.slots.get slot.identity.fd with
    | some s => if s.identity = slot.identity then p.slots.erase slot.identity.fd else p.slots
    | none => p.slots
  { p with
    slots := slots
    retiredSlots := p.retiredSlots.set slot.identity { slot with state := .dead } }

def settle (p : SkeletonPool) (job : String) (outcome : FutureState) : SkeletonPool :=
  let popped := { p with jobs := p.jobs.erase job, results := p.results.erase job }
  match p.jobs.get job with
  | none => popped
  | some n =>
    if p.futures.get n = some .pending then
      { popped with futures := p.futures.set n outcome, settlements := p.settlements ++ [n] }
    else popped

def note (p : SkeletonPool) (job : String) : Note := (p.results.get job).getD {}

def resolve (p : SkeletonPool) (x : ControlEffect) : SkeletonPool :=
  let job := x.job.getD ""
  p.settle job (.result (p.note job).value)

def fail (p : SkeletonPool) (x : ControlEffect) : SkeletonPool :=
  let job := x.job.getD ""
  let n := p.note job
  p.settle job <| .exception <|
    if x.reason = some .workerError then .remoteWorker n.kind n.text n.trace
    else if x.reason = some .closed then .cancelled "SkeletonPool is shut"
    else .remoteWorker "ChildDied" "lost child EOF" ""

def scheduleRecovery (p : SkeletonPool) (preReady : Bool) : SkeletonPool :=
  if p.closing then p
  else if preReady then
    let failures := p.preReadyFailures + 1
    if maxPreReadyFailures ≤ failures then
      { p with preReadyFailures := failures, startupError := true, recoveryTask := false }
    else { p with preReadyFailures := failures, recoveryTask := true }
  else { p with recoveryTask := true }

def finish (p : SkeletonPool) (owner : Owner) : After → SkeletonPool
  | .nothing => p
  | .scheduleRecovery preReady =>
    match owner with
    | .reader i =>
      { p.scheduleRecovery preReady with readers := p.readers.filter (· ≠ i) }
    | _ => p.scheduleRecovery preReady

/-- Cancelling a reader ends it, and with it the drive it waits in. -/
def cancelReader (p : SkeletonPool) (i : SkeletonID) : SkeletonPool :=
  { p with
    readers := p.readers.filter (· ≠ i)
    drives := p.drives.filter (fun d => d.owner ≠ .reader i) }

/-- The teardown waits for no reader it cancels: each ends at its next turn of the loop. -/
def cancelReaders (p : SkeletonPool) (waitSet : List SkeletonID) : SkeletonPool :=
  { p with
    cancelled := waitSet.filter (· ∈ p.readers)
    drives := p.drives.filter fun d => ∀ i ∈ waitSet, d.owner ≠ .reader i }

def park (p : SkeletonPool) (owner : Owner) (after : After) (pending : List ControlEffect) :
    SkeletonPool :=
  { p with drives := p.drives ++ [{ owner := owner, pending := pending, after := after }] }

def drive (owner : Owner) (after : After) : List ControlEffect → SkeletonPool → SkeletonPool
  | [], p => p.syncSlots.finish owner after
  | x :: xs, p =>
    match x.kind with
    | .spawn => p.park owner after (x :: xs)
    | .sendRun => drive owner after xs { p with sends := p.sends ++ [x] }.syncSlots
    | .sendStop | .closeDeath | .closeControl | .kill => drive owner after xs p.syncSlots
    | .resolve => drive owner after xs (p.resolve x).syncSlots
    | .fail => drive owner after xs (p.fail x).syncSlots
    | .drop =>
      match p.slotFor x.identity with
      | none => drive owner after xs p.syncSlots
      | some slot =>
        if slot.identity ∈ p.readers ∧ owner ≠ .reader slot.identity then
          (p.cancelReader slot.identity).park owner after (x :: xs)
        else drive owner after xs (p.drop slot).syncSlots
    | .reap =>
      match p.slotFor x.identity with
      | none => drive owner after xs p.syncSlots
      | some _ => p.park owner after (x :: xs)

def apply (p : SkeletonPool) (owner : Owner) (after : After) (e : ControlEvent) : SkeletonPool :=
  let r := p.core.apply e
  drive owner after r.2 { p with core := r.1 }

/-- How the wait of a parked drive ends: the descriptor of a spawned child, or none when the spawn
failed; a dropped reader and a reaped process bring nothing. -/
def resume (p : SkeletonPool) (d : Drive) (spawned : Option ℤ) : Option SkeletonPool :=
  match d.pending with
  | [] => none
  | x :: xs =>
    match x.kind, x.gen, spawned with
    | .spawn, some gen, some fd =>
      if p.slots.get fd ≠ none then none
      else
        let i : SkeletonID := ⟨fd, gen⟩
        let r := p.core.apply { kind := .spawned, identity := some i, gen := some gen }
        some (drive d.owner d.after (xs ++ r.2)
          { p with
            core := r.1
            slots := p.slots.set fd { identity := i }
            readers := p.readers ++ [i] }.syncSlots)
    | .spawn, some gen, none =>
      let r := p.core.apply { kind := .spawnFailed, gen := some gen }
      some (drive d.owner d.after (xs ++ r.2) ({ p with core := r.1 }.scheduleRecovery true))
    | .drop, _, none =>
      match p.slotFor x.identity with
      | none => some (drive d.owner d.after xs p.syncSlots)
      | some slot => some (drive d.owner d.after xs (p.drop slot).syncSlots)
    | .reap, _, none =>
      match x.identity with
      | none => none
      | some i =>
        some (drive d.owner d.after xs { p with retiredSlots := p.retiredSlots.erase i }.syncSlots)
    | _, _, _ => none

def lose (p : SkeletonPool) (owner : Owner) (i : SkeletonID) : SkeletonPool :=
  match (p.slots.get i.fd).filter (fun s => s.identity = i) with
  | none => p
  | some slot =>
    p.apply owner (.scheduleRecovery (slot.state = .starting)) { kind := .eof, identity := some i }

def assignJob (p : SkeletonPool) (slot : Slot) (job : Option String) : SkeletonPool :=
  { p with slots := p.slots.map fun s =>
      if s.identity = slot.identity then { s with jobId := job } else s }

inductive Action
  | start
  | submit (token : String) (lazy : Bool)
  | cancelFuture (future : ℕ)
  | send (effect : ControlEffect)
  | sent (effect : ControlEffect)
  | sendFailed (effect : ControlEffect)
  | ready (identity : SkeletonID)
  | result (identity : SkeletonID) (job : String) (ok : Bool) (note : Note)
  | eof (identity : SkeletonID)
  | readerFault (identity : SkeletonID)
  | readerEnded (identity : SkeletonID)
  | recover
  | resume (drive : ℕ) (spawned : Option ℤ)
  | close
  | closeNext
  deriving DecidableEq, Repr

/-- A reader takes a message when it is alive, waits for one, and its slot is still the pool's. -/
def reading (p : SkeletonPool) (i : SkeletonID) : Bool :=
  i ∈ p.readers ∧ i ∉ p.cancelled ∧ (∀ d ∈ p.drives, d.owner ≠ .reader i) ∧
    (p.slots.get i.fd).any (fun s => s.identity = i)

/-- A caller that finds the pool closing is turned away. One that had to start the pool passed that
check before, and start returns to it only while the core has not seen CLOSE. -/
def submit (p : SkeletonPool) (token : String) (lazy : Bool) : Option SkeletonPool :=
  if !p.started || (if lazy then p.core.closing else p.closing) || p.queueLimit ≤ p.core.queue.length
  then none
  else
    let n := p.jobSequence + 1
    let job := jobName n token
    some ({ p with
      jobSequence := n
      jobs := p.jobs.set job n
      futures := p.futures.set n .pending }.apply .submitter .nothing
        { kind := .submit, job := some job })

def result (p : SkeletonPool) (i : SkeletonID) (job : String) (ok : Bool) (n : Note) :
    SkeletonPool :=
  match p.slots.get i.fd with
  | none => p
  | some slot =>
    if slot.state ≠ .running ∨ slot.jobId ≠ some job then p
    else { p with results := p.results.set job n }.apply (.reader i) .nothing
      { kind := .result, identity := some i, job := some job, ok := ok }

def closeNext (p : SkeletonPool) : Option SkeletonPool :=
  if p.drives.any (fun d => d.owner = .closer) then none
  else
    match p.closeTask with
    | none | some .finished => none
    | some .begun =>
      let q := { p with recoveryTask := false }.apply .closer .nothing { kind := .close }
      some { q with closeTask := some (.readers (q.slots.values.map Slot.identity)) }
    | some (.readers waitSet) =>
      let q := (p.cancelReaders waitSet).apply .closer .nothing { kind := .deadline }
      some { q with closeTask := some (.slots (q.slots.values.map Slot.identity)) }
    | some (.slots (i :: left)) =>
      some ({ p with closeTask := some (.slots left) }.apply .closer .nothing
        { kind := .eof, identity := some i })
    | some (.slots []) =>
      some { p with
        slots := Dict.empty
        jobs := Dict.empty
        started := false
        closeTask := some .finished }

def step (p : SkeletonPool) : Action → Option SkeletonPool
  | .start =>
    if p.closing || p.started then none
    else some ({ p with started := true }.apply .starter .nothing { kind := .start })
  | .submit token lazy => p.submit token lazy
  | .cancelFuture n =>
    if p.futures.get n = some .pending then some { p with futures := p.futures.set n .cancelled }
    else none
  | .send x =>
    if x ∉ p.sends then none
    else
      let q := { p with sends := p.sends.erase x }
      match p.slotFor x.identity, p.jobs.get (x.job.getD "") with
      | some slot, some _ => some { (q.assignJob slot x.job) with sending := q.sending ++ [x] }
      | _, _ => some q
  | .sent x => if x ∈ p.sending then some { p with sending := p.sending.erase x } else none
  | .sendFailed x =>
    match x.identity with
    | none => none
    | some i =>
      if x ∉ p.sending then none
      else some ({ p with sending := p.sending.erase x }.apply (.sender i) (.scheduleRecovery false)
        { kind := .sendFailed, identity := some i, job := x.job })
  | .ready i =>
    if p.reading i then
      some ({ p with preReadyFailures := 0 }.apply (.reader i) .nothing
        { kind := .ready, identity := some i })
    else none
  | .result i job ok n => if p.reading i then some (p.result i job ok n) else none
  | .eof i => if p.reading i then some (p.lose (.reader i) i) else none
  | .readerFault i =>
    if p.reading i then some ({ p with readers := p.readers.filter (· ≠ i) }.lose (.loser i) i)
    else none
  | .readerEnded i =>
    if i ∈ p.cancelled then
      some { p with
        readers := p.readers.filter (· ≠ i)
        cancelled := p.cancelled.filter (· ≠ i) }
    else none
  | .recover =>
    if p.recoveryTask && !p.closing then
      some ({ p with recoveryTask := false }.apply .recovery .nothing { kind := .recover })
    else none
  | .resume k spawned =>
    match p.drives[k]? with
    | none => none
    | some d => { p with drives := p.drives.eraseIdx k }.resume d spawned
  | .close =>
    if p.started && p.closeTask.isNone then
      some { p with closing := true, closeTask := some .begun }
    else none
  | .closeNext => p.closeNext

def run : SkeletonPool → List Action → Option SkeletonPool
  | p, [] => some p
  | p, a :: as => (p.step a).bind (fun q => run q as)

def Idles (p : SkeletonPool) (x : ControlEffect) : Prop :=
  x.kind = .sendStop ∨ x.kind = .closeDeath ∨ x.kind = .closeControl ∨ x.kind = .kill ∨
    (x.kind = .drop ∨ x.kind = .reap) ∧ p.slotFor x.identity = none

structure DriveRule (owner : Owner) (after : After) (P : SkeletonPool → List ControlEffect → Prop)
    (Q : SkeletonPool → Prop) : Prop where
  idle : ∀ {p x xs}, P p (x :: xs) → p.Idles x → P p.syncSlots xs
  send : ∀ {p x xs}, P p (x :: xs) → x.kind = .sendRun →
    P { p with sends := p.sends ++ [x] }.syncSlots xs
  settle : ∀ {p x xs f}, P p (x :: xs) → x.kind = .resolve ∨ x.kind = .fail → f ≠ .pending →
    P (p.settle (x.job.getD "") f).syncSlots xs
  drop : ∀ {p x xs slot}, P p (x :: xs) → x.kind = .drop → p.slotFor x.identity = some slot →
    P (p.drop slot).syncSlots xs
  cancel : ∀ {p x xs slot}, P p (x :: xs) → x.kind = .drop → p.slotFor x.identity = some slot →
    owner ≠ .reader slot.identity → Q ((p.cancelReader slot.identity).park owner after (x :: xs))
  wait : ∀ {p x xs}, P p (x :: xs) → x.kind = .spawn ∨ x.kind = .reap →
    Q (p.park owner after (x :: xs))
  finish : ∀ {p}, P p [] → Q (p.syncSlots.finish owner after)

lemma DriveRule.drive {owner : Owner} {after : After} {P : SkeletonPool → List ControlEffect → Prop}
    {Q : SkeletonPool → Prop} (r : DriveRule owner after P Q) {xs : List ControlEffect}
    {p : SkeletonPool} (h : P p xs) : Q (drive owner after xs p) := by
  induction xs generalizing p with
  | nil => exact r.finish h
  | cons x xs ih =>
    rw [SkeletonPool.drive]
    cases hk : x.kind with
    | spawn => exact r.wait h (Or.inl hk)
    | sendRun => exact ih (r.send h hk)
    | sendStop | closeDeath | closeControl | kill => exact ih (r.idle h (by simp [Idles, hk]))
    | resolve => exact ih (r.settle h (Or.inl hk) nofun)
    | fail => exact ih (r.settle h (Or.inr hk) nofun)
    | drop =>
      dsimp only
      split
      · rename_i hnone
        exact ih (r.idle h (by simp [Idles, hk, hnone]))
      · rename_i slot hs
        split_ifs with hwait
        · exact r.cancel h hk hs hwait.2
        · exact ih (r.drop h hk hs)
    | reap =>
      dsimp only
      split
      · rename_i hnone
        exact ih (r.idle h (by simp [Idles, hk, hnone]))
      · exact r.wait h (Or.inr hk)

def bornSlot (p : SkeletonPool) (gen fd : ℤ) : SkeletonPool :=
  { p with
    core := (p.core.apply { kind := .spawned, identity := some ⟨fd, gen⟩, gen := some gen }).1
    slots := p.slots.set fd { identity := ⟨fd, gen⟩ }
    readers := p.readers ++ [⟨fd, gen⟩] }

inductive Resumed (p : SkeletonPool) (d : Drive) : Option ℤ → SkeletonPool → Prop
  | spawned {x xs gen fd} (pending : d.pending = x :: xs) (kind : x.kind = .spawn)
      (named : x.gen = some gen) (free : p.slots.get fd = none) :
      Resumed p d (some fd) (drive d.owner d.after
        (xs ++ (p.core.apply { kind := .spawned, identity := some ⟨fd, gen⟩, gen := some gen }).2)
        (p.bornSlot gen fd).syncSlots)
  | spawnFailed {x xs gen} (pending : d.pending = x :: xs) (kind : x.kind = .spawn)
      (named : x.gen = some gen) :
      Resumed p d none (drive d.owner d.after
        (xs ++ (p.core.apply { kind := .spawnFailed, gen := some gen }).2)
        ({ p with core := (p.core.apply { kind := .spawnFailed, gen := some gen }).1 }.scheduleRecovery
          true))
  | gone {x xs} (pending : d.pending = x :: xs) (kind : x.kind = .drop)
      (missing : p.slotFor x.identity = none) :
      Resumed p d none (drive d.owner d.after xs p.syncSlots)
  | dropped {x xs slot} (pending : d.pending = x :: xs) (kind : x.kind = .drop)
      (found : p.slotFor x.identity = some slot) :
      Resumed p d none (drive d.owner d.after xs (p.drop slot).syncSlots)
  | reaped {x xs i} (pending : d.pending = x :: xs) (kind : x.kind = .reap)
      (named : x.identity = some i) :
      Resumed p d none
        (drive d.owner d.after xs { p with retiredSlots := p.retiredSlots.erase i }.syncSlots)

lemma resumed {p q : SkeletonPool} {d : Drive} {spawned : Option ℤ} (h : p.resume d spawned = some q) :
    Resumed p d spawned q := by
  rw [resume] at h
  split at h
  · cases h
  · rename_i x xs hx
    split at h
    · rename_i gen fd hk hg
      split_ifs at h with hfd
      cases h
      exact .spawned hx hk hg (not_not.mp hfd)
    · rename_i gen hk hg
      cases h
      exact .spawnFailed hx hk hg
    · rename_i hk
      split at h
      · rename_i hnone
        cases h
        exact .gone hx hk hnone
      · rename_i slot hs
        cases h
        exact .dropped hx hk hs
    · rename_i hk
      split at h
      · cases h
      · rename_i i hi
        cases h
        exact .reaped hx hk hi
    · cases h

end SkeletonPool

end Reaper.Pool
