import Reaper.Store.Statements
import Reaper.Library.Locks

/-! Transactions under READ COMMITTED. A statement reads one snapshot, taken when it starts. It
locks rows one at a time, waits for a lock that another transaction has (or skips the row, where the
statement says so), and reads the newest version of a row it has locked. What a transaction writes
is seen by others when it commits, and its locks are held until it ends. -/

namespace Reaper.Store

open Reaper.Library Reaper.Library.Locks

inductive Row
  | promise (id : Id)
  | task (id : Id)
  deriving DecidableEq, Repr

/-- PROCESS_DUE while it locks what has come due. -/
structure Due where
  snap : Db
  now : Time
  limit : ℕ
  tasksLeft : List Id
  timersLeft : List Id
  timeoutsLeft : List Id := []
  expiredTasks : List Id := []
  timerDue : List Id := []
  timeoutDue : List Id := []

/-- Where a transaction is. Each stage of a statement carries its snapshot. -/
inductive Stage
  | opened
  | claiming (snap : Db) (topic : String) (excluded : List (String × ℕ)) (now : Time) (left : List Id)
  | holding (task : ClaimedTask)
  | inserting (task : Option ClaimedTask) (left : List Insert) (inserted : List Id)
  | suspending (task : ClaimedTask) (snap : Db) (awaited left : List Id) (found : List (Id × Promise))
  | locking (task : ClaimedTask) (settlement : Settlement)
  | locked (task : ClaimedTask) (settlement : Settlement)
  /-- the update of RETRY's rejected waits for the promise row -/
  | retrying (task : ClaimedTask) (snap : Db) (error : Json)
  | due (scan : Due)
  | timingOut (scan : Due)
  | waking (snap : Db) (stamp : Option Time) (settled removed left : List Id)
  | done
  | failed

structure Txn where
  stage : Stage := .opened
  locks : List (Lock Row) := []
  delta : Delta := {}

inductive Act
  | claim (topic : String) (excluded : List (String × ℕ)) (now : Time)
  | claimNext
  | submitCalls (requests : List CallRequest)
  | submitTimer (request : TimerRequest)
  | insertNext
  | insertEnd
  | suspendTask (awaited : List Id)
  | suspendNext
  | suspendEnd (clock : Time)
  | settleTask (settlement : Settlement)
  | lockPromise
  | settle (clock : Time)
  | retryTask (error : Json) (delayMs : ℕ) (clock : Time)
  | reject (clock : Time)
  | processDue (limit : ℕ) (now : Time)
  | lockExpired
  | lockTimer
  | expiredEnd
  | lockTimeout
  | settleDue
  | wake (clock : Time)
  | wakeEnd (kept : List Id)
  deriving DecidableEq

namespace Txn

def view (x : Txn) (db : Db) : Db := db.patch x.delta

def enter (x : Txn) (stage : Stage) : Txn := { x with stage := stage }

def lock (x : Txn) (row : Row) (mode : Mode) : Txn := { x with locks := ⟨row, mode⟩ :: x.locks }

def write (x : Txn) (f : Delta → Delta) : Txn := { x with delta := f x.delta }

def settlePromise (x : Txn) (db : Db) (id : Id) (outcome : Outcome) : Txn :=
  match (x.view db).promises.get id with
  | some p => x.write fun d => d.setPromise id (p.settle outcome)
  | none => x

variable (db : Db) (grant : Lock Row → Bool) (x : Txn)

/-- CLAIM tries its next candidate. A locked row is skipped. One that has changed since the snapshot
is checked again, and keeps its lock when the check fails. -/
def claimNext (snap : Db) (topic : String) (excluded : List (String × ℕ)) (now : Time) (id : Id)
    (left : List Id) : Txn :=
  let next := Stage.claiming snap topic excluded now left
  if grant ⟨.task id, .update⟩ then
    match (x.view db).tasks.get id with
    | none => x.enter next
    | some t =>
      (x.lock (.task id) .update).enter <|
        if claimable topic excluded now t then .holding (claimedTask snap id t) else next
  else x.enter next

/-- ON CONFLICT DO NOTHING, after waiting for an insert of the same key. -/
def insertNext (task : Option ClaimedTask) (e : Insert) (left : List Insert) (inserted : List Id) :
    Option Txn :=
  if (x.view db).promises.get e.id ≠ none then some (x.enter (.inserting task left inserted))
  else if grant ⟨.promise e.id, .update⟩ ∧ grant ⟨.task e.id, .update⟩ then
    let y := ((x.lock (.promise e.id) .update).lock (.task e.id) .update).write fun d =>
      d.setPromise e.id e.promise
    let z := match e.task with
      | some t => y.write fun d => d.setTask e.id t
      | none => y
    some (z.enter (.inserting task left (inserted ++ [e.id])))
  else none

/-- The roots of the inserted children, whose keys the foreign key shares. -/
def rootsOf (inserted : List Id) : List Id :=
  inserted.filterMap fun id => ((x.view db).promises.get id).bind fun p =>
    match p.place with
    | .root _ => none
    | .child root => some root

def insertEnd (task : Option ClaimedTask) (inserted : List Id) : Option Txn :=
  if ∃ id ∈ inserted, ¬ ((x.view db).promises.get id).all (rootStored (x.view db)) then
    some (x.enter .failed)
  else if ∀ root ∈ x.rootsOf db inserted, grant ⟨.promise root, .keyShare⟩ then
    let y := (x.rootsOf db inserted).foldl (fun y root => y.lock (.promise root) .keyShare) x
    some (y.enter (task.elim .done .holding))
  else none

def suspendTask (task : ClaimedTask) (awaited : List Id) : Option Txn :=
  let snap := x.view db
  if awaited = [] ∨ ¬ awaited.Nodup ∨ task.id ∈ awaited then none
  else if snap.tasks.get task.id = none ∨ snap.promises.get task.id = none then some (x.enter .failed)
  else
    let left := (awaited.filter fun a => snap.promises.get a ≠ none).insertionSort (· ≤ ·)
    some (x.enter (.suspending task snap awaited left []))

def suspendNext (task : ClaimedTask) (snap : Db) (awaited : List Id) (a : Id) (left : List Id)
    (found : List (Id × Promise)) : Option Txn :=
  if grant ⟨.promise a, .update⟩ then
    match (x.view db).promises.get a with
    | none => some (x.enter (.suspending task snap awaited left found))
    | some p =>
      some ((x.lock (.promise a) .update).enter (.suspending task snap awaited left (found ++ [(a, p)])))
  else none

def sameRoot (snap : Db) (task : Id) (found : List (Id × Promise)) : Bool :=
  (snap.promises.get task).any fun w => found.all fun e => e.2.graphId e.1 = w.graphId task

def suspendEnd (task : ClaimedTask) (snap : Db) (awaited : List Id) (found : List (Id × Promise))
    (clock : Time) : Option Txn :=
  let missing := awaited.filter fun a => a ∉ found.map Prod.fst
  if missing ≠ [] ∨ ¬ sameRoot snap task.id found then some (x.enter .failed)
  else if grant ⟨.promise task.id, .keyShare⟩ then
    match (x.view db).tasks.get task.id with
    | none => some (x.enter .failed)
    | some t =>
      let pending := (found.filter fun e => e.2.Pending).length
      let y := (x.lock (.promise task.id) .keyShare).write fun d =>
        { d.setTask task.id { t with pendingWaits := pending, availableAt := clock } with
          waits := d.waits ∪ (found.map fun e => (task.id, e.1)).toFinset }
      some (y.enter .done)
  else none

/-- LOCK_PROMISE: nothing is locked when the snapshot has no pending promise with a task. -/
def settleTask (task : ClaimedTask) (settlement : Settlement) : Txn :=
  let snap := x.view db
  if snap.pending task.id ∧ snap.tasks.get task.id ≠ none then x.enter (.locking task settlement)
  else x.enter .failed

def lockPromise (task : ClaimedTask) (settlement : Settlement) : Option Txn :=
  if grant ⟨.promise task.id, .update⟩ then
    let y := x.lock (.promise task.id) .update
    some (y.enter (if (x.view db).pending task.id then .locked task settlement else .failed))
  else none

/-- The promise is updated, and the waiters to wake are those of the snapshot. -/
def wakeFor (snap : Db) (stamp : Option Time) (settled removed : List Id) : Txn :=
  x.enter (.waking snap stamp settled removed (lockedWaiters snap settled))

def settle (task : ClaimedTask) (settlement : Settlement) (clock : Time) : Txn :=
  let snap := x.view db
  if snap.pending task.id ∧ snap.tasks.get task.id ≠ none then
    (x.settlePromise db task.id (settlement.outcome clock)).wakeFor snap none [task.id] [task.id]
  else x.enter .failed

def retryTask (task : ClaimedTask) (error : Json) (delayMs : ℕ) (clock : Time) : Txn :=
  let snap := x.view db
  match snap.tasks.get task.id with
  | none => x.enter .failed
  | some t =>
    if ¬ snap.pending task.id then x.enter .failed
    else if h : t.failures + 1 < t.maxFailures then
      (x.write fun d => d.setTask task.id
        { t with
          failures := t.failures + 1
          availableAt := clock + delayMs * millisecond
          failures_lt := h }).enter .done
    else x.enter (.retrying task snap error)

def reject (task : ClaimedTask) (snap : Db) (error : Json) (clock : Time) : Option Txn :=
  if grant ⟨.promise task.id, .noKeyUpdate⟩ then
    let y := x.lock (.promise task.id) .noKeyUpdate
    some ((y.settlePromise db task.id (.rejected error clock)).wakeFor snap none [task.id] [task.id])
  else none

def processDue (limit : ℕ) (now : Time) : Txn :=
  let snap := x.view db
  x.enter (.due {
    snap := snap
    now := now
    limit := limit
    tasksLeft := Store.expiredTasks snap now
    timersLeft := Store.timerDue snap now })

def lockExpired (s : Due) : Option Txn :=
  match s.tasksLeft with
  | [] => none
  | id :: left =>
    let next := { s with tasksLeft := left }
    if s.limit ≤ s.expiredTasks.length then none
    else if grant ⟨.task id, .update⟩ ∧ (x.view db).tasks.get id ≠ none then
      some ((x.lock (.task id) .update).enter
        (.due { next with expiredTasks := s.expiredTasks ++ [id] }))
    else some (x.enter (.due next))

def lockTimer (s : Due) : Option Txn :=
  match s.timersLeft with
  | [] => none
  | id :: left =>
    let next := { s with timersLeft := left }
    if s.limit ≤ s.timerDue.length then none
    else if grant ⟨.promise id, .update⟩ then
      some ((x.lock (.promise id) .update).enter (.due
        (if ((x.view db).promises.get id).any (Store.due s.now) then
          { next with timerDue := s.timerDue ++ [id] } else next)))
    else some (x.enter (.due next))

/-- The scans are over, and timeout_due goes through the promises of the expired tasks. -/
def expiredEnd (s : Due) : Option Txn :=
  if (s.tasksLeft = [] ∨ s.limit ≤ s.expiredTasks.length) ∧
      (s.timersLeft = [] ∨ s.limit ≤ s.timerDue.length) then
    some (x.enter (.timingOut { s with
      timeoutsLeft := (s.expiredTasks.filter fun id => s.snap.pending id).insertionSort (· ≤ ·) }))
  else none

def lockTimeout (s : Due) : Option Txn :=
  match s.timeoutsLeft with
  | [] => none
  | id :: left =>
    let next := { s with timeoutsLeft := left }
    if grant ⟨.promise id, .update⟩ then
      some ((x.lock (.promise id) .update).enter (.timingOut
        (if (x.view db).pending id then { next with timeoutDue := s.timeoutDue ++ [id] } else next)))
    else some (x.enter (.timingOut next))

def settleDue (s : Due) : Option Txn :=
  if s.timeoutsLeft ≠ [] then none
  else
    let y := s.timerDue.foldl
      (fun y id => y.settlePromise db id (.resolved (some timerResult) s.now)) x
    let z := s.timeoutDue.foldl
      (fun z id => z.settlePromise db id (.timedOut promiseTimeout s.now)) y
    some (z.wakeFor s.snap (some s.now) (s.timerDue ++ s.timeoutDue) s.timeoutDue)

/-- ready updates a locked waiter that waits both in the snapshot and in its newest version. -/
def wake (snap : Db) (stamp : Option Time) (settled removed : List Id) (w : Id) (left : List Id)
    (clock : Time) : Option Txn :=
  let next := Stage.waking snap stamp settled removed left
  if grant ⟨.task w, .update⟩ then
    match (x.view db).tasks.get w with
    | none => some (x.enter next)
    | some t =>
      let y := x.lock (.task w) .update
      if (snap.tasks.get w).any (fun s => 0 < s.pendingWaits) ∧ 0 < t.pendingWaits then
        let t' := t.ready (settledCount snap settled w) (stamp.getD clock)
        some ((y.write fun d => d.setTask w t').enter next)
      else some (y.enter next)
  else none

/-- removed deletes the tasks of the settled calls. A row that ready has updated in the same
statement is not deleted when the update came first, and loses the update when it did not. -/
def wakeEnd (removed kept : List Id) : Txn :=
  let deleted := removed.filter fun id => ¬ (id ∈ kept ∧ (x.delta.tasks.get id).isSome)
  (x.write fun d => deleted.foldl Delta.deleteTask d).enter .done

def advance : Act → Option Txn
  | .claim topic excluded now =>
    match x.stage with
    | .opened =>
      let snap := x.view db
      some (x.enter (.claiming snap topic excluded now (claimCandidates snap topic excluded now)))
    | _ => none
  | .claimNext =>
    match x.stage with
    | .claiming snap topic excluded now (id :: left) =>
      some (x.claimNext db grant snap topic excluded now id left)
    | .claiming _ _ _ _ [] => some (x.enter .failed)
    | _ => none
  | .submitCalls requests =>
    if ¬ (requests.map CallRequest.id).Nodup then none
    else match x.stage with
      | .opened => some (x.enter (.inserting none (requests.map CallRequest.insert) []))
      | .holding task => some (x.enter (.inserting (some task) (requests.map CallRequest.insert) []))
      | _ => none
  | .submitTimer request =>
    match x.stage with
    | .opened => some (x.enter (.inserting none [request.insert] []))
    | .holding task => some (x.enter (.inserting (some task) [request.insert] []))
    | _ => none
  | .insertNext =>
    match x.stage with
    | .inserting task (e :: left) inserted => x.insertNext db grant task e left inserted
    | _ => none
  | .insertEnd =>
    match x.stage with
    | .inserting task [] inserted => x.insertEnd db grant task inserted
    | _ => none
  | .suspendTask awaited =>
    match x.stage with
    | .holding task => x.suspendTask db task awaited
    | _ => none
  | .suspendNext =>
    match x.stage with
    | .suspending task snap awaited (a :: left) found =>
      x.suspendNext db grant task snap awaited a left found
    | _ => none
  | .suspendEnd clock =>
    match x.stage with
    | .suspending task snap awaited [] found => x.suspendEnd db grant task snap awaited found clock
    | _ => none
  | .settleTask settlement =>
    match x.stage with
    | .holding task => some (x.settleTask db task settlement)
    | _ => none
  | .lockPromise =>
    match x.stage with
    | .locking task settlement => x.lockPromise db grant task settlement
    | _ => none
  | .settle clock =>
    match x.stage with
    | .locked task settlement => some (x.settle db task settlement clock)
    | _ => none
  | .retryTask error delayMs clock =>
    match x.stage with
    | .holding task => some (x.retryTask db task error delayMs clock)
    | _ => none
  | .reject clock =>
    match x.stage with
    | .retrying task snap error => x.reject db grant task snap error clock
    | _ => none
  | .processDue limit now =>
    match x.stage with
    | .opened => some (x.processDue db limit now)
    | _ => none
  | .lockExpired =>
    match x.stage with
    | .due s => x.lockExpired db grant s
    | _ => none
  | .lockTimer =>
    match x.stage with
    | .due s => x.lockTimer db grant s
    | _ => none
  | .expiredEnd =>
    match x.stage with
    | .due s => x.expiredEnd s
    | _ => none
  | .lockTimeout =>
    match x.stage with
    | .timingOut s => x.lockTimeout db grant s
    | _ => none
  | .settleDue =>
    match x.stage with
    | .timingOut s => x.settleDue db s
    | _ => none
  | .wake clock =>
    match x.stage with
    | .waking snap stamp settled removed (w :: left) =>
      x.wake db grant snap stamp settled removed w left clock
    | _ => none
  | .wakeEnd kept =>
    match x.stage with
    | .waking _ _ _ removed [] => some (x.wakeEnd removed kept)
    | _ => none

inductive Step : Act → Txn → Prop
  | claim {topic : String} {excluded : List (String × ℕ)} {now : Time} (hs : x.stage = .opened) :
      Step (.claim topic excluded now) (x.enter (.claiming (x.view db) topic excluded now
        (claimCandidates (x.view db) topic excluded now)))
  | claimNext {snap : Db} {topic : String} {excluded : List (String × ℕ)} {now : Time} {id : Id}
      {left : List Id} (hs : x.stage = .claiming snap topic excluded now (id :: left)) :
      Step .claimNext (x.claimNext db grant snap topic excluded now id left)
  | claimNone {snap : Db} {topic : String} {excluded : List (String × ℕ)} {now : Time}
      (hs : x.stage = .claiming snap topic excluded now []) : Step .claimNext (x.enter .failed)
  | submit {a : Act} {es : List Insert} {task : Option ClaimedTask}
      (ha : (∃ rs, a = .submitCalls rs ∧ es = rs.map CallRequest.insert) ∨
        ∃ r, a = .submitTimer r ∧ es = [r.insert])
      (hs : x.stage = .opened ∧ task = none ∨ ∃ t, x.stage = .holding t ∧ task = some t) :
      Step a (x.enter (.inserting task es []))
  | insertNext {task : Option ClaimedTask} {e : Insert} {left : List Insert} {inserted : List Id}
      {y : Txn} (hs : x.stage = .inserting task (e :: left) inserted)
      (hy : x.insertNext db grant task e left inserted = some y) : Step .insertNext y
  | insertEnd {task : Option ClaimedTask} {inserted : List Id} {y : Txn}
      (hs : x.stage = .inserting task [] inserted)
      (hy : x.insertEnd db grant task inserted = some y) : Step .insertEnd y
  | suspendTask {task : ClaimedTask} {awaited : List Id} {y : Txn} (hs : x.stage = .holding task)
      (hy : x.suspendTask db task awaited = some y) : Step (.suspendTask awaited) y
  | suspendNext {task : ClaimedTask} {snap : Db} {awaited left : List Id} {a : Id}
      {found : List (Id × Promise)} {y : Txn}
      (hs : x.stage = .suspending task snap awaited (a :: left) found)
      (hy : x.suspendNext db grant task snap awaited a left found = some y) : Step .suspendNext y
  | suspendEnd {task : ClaimedTask} {snap : Db} {awaited : List Id} {found : List (Id × Promise)}
      {clock : Time} {y : Txn} (hs : x.stage = .suspending task snap awaited [] found)
      (hy : x.suspendEnd db grant task snap awaited found clock = some y) : Step (.suspendEnd clock) y
  | settleTask {task : ClaimedTask} {settlement : Settlement} (hs : x.stage = .holding task) :
      Step (.settleTask settlement) (x.settleTask db task settlement)
  | lockPromise {task : ClaimedTask} {settlement : Settlement} {y : Txn}
      (hs : x.stage = .locking task settlement)
      (hy : x.lockPromise db grant task settlement = some y) : Step .lockPromise y
  | settle {task : ClaimedTask} {settlement : Settlement} {clock : Time}
      (hs : x.stage = .locked task settlement) :
      Step (.settle clock) (x.settle db task settlement clock)
  | retryTask {task : ClaimedTask} {error : Json} {delayMs : ℕ} {clock : Time}
      (hs : x.stage = .holding task) :
      Step (.retryTask error delayMs clock) (x.retryTask db task error delayMs clock)
  | reject {task : ClaimedTask} {snap : Db} {error : Json} {clock : Time} {y : Txn}
      (hs : x.stage = .retrying task snap error)
      (hy : x.reject db grant task snap error clock = some y) : Step (.reject clock) y
  | processDue {limit : ℕ} {now : Time} (hs : x.stage = .opened) :
      Step (.processDue limit now) (x.processDue db limit now)
  | lockExpired {s : Due} {y : Txn} (hs : x.stage = .due s)
      (hy : x.lockExpired db grant s = some y) : Step .lockExpired y
  | lockTimer {s : Due} {y : Txn} (hs : x.stage = .due s) (hy : x.lockTimer db grant s = some y) :
      Step .lockTimer y
  | expiredEnd {s : Due} {y : Txn} (hs : x.stage = .due s) (hy : x.expiredEnd s = some y) :
      Step .expiredEnd y
  | lockTimeout {s : Due} {y : Txn} (hs : x.stage = .timingOut s)
      (hy : x.lockTimeout db grant s = some y) : Step .lockTimeout y
  | settleDue {s : Due} {y : Txn} (hs : x.stage = .timingOut s) (hy : x.settleDue db s = some y) :
      Step .settleDue y
  | wake {snap : Db} {stamp : Option Time} {settled removed left : List Id} {w : Id} {clock : Time}
      {y : Txn} (hs : x.stage = .waking snap stamp settled removed (w :: left))
      (hy : x.wake db grant snap stamp settled removed w left clock = some y) : Step (.wake clock) y
  | wakeEnd {snap : Db} {stamp : Option Time} {settled removed kept : List Id}
      (hs : x.stage = .waking snap stamp settled removed []) :
      Step (.wakeEnd kept) (x.wakeEnd removed kept)

variable {db grant x}

lemma Step.of_advance {a : Act} {y : Txn} (h : x.advance db grant a = some y) :
    Step db grant x a y := by
  simp only [advance] at h
  cases a with
  | submitCalls requests =>
    rw [Option.ite_none_left_eq_some] at h
    obtain ⟨-, h⟩ := h
    split at h
    · rename_i hs
      cases h
      exact .submit (Or.inl ⟨_, rfl, rfl⟩) (Or.inl ⟨hs, rfl⟩)
    · rename_i task hs
      cases h
      exact .submit (Or.inl ⟨_, rfl, rfl⟩) (Or.inr ⟨task, hs, rfl⟩)
    · cases h
  | submitTimer request =>
    dsimp only at h
    split at h
    · rename_i hs
      cases h
      exact .submit (Or.inr ⟨_, rfl, rfl⟩) (Or.inl ⟨hs, rfl⟩)
    · rename_i task hs
      cases h
      exact .submit (Or.inr ⟨_, rfl, rfl⟩) (Or.inr ⟨task, hs, rfl⟩)
    · cases h
  | claimNext =>
    dsimp only at h
    split at h
    · rename_i hs
      cases h
      exact .claimNext hs
    · rename_i hs
      cases h
      exact .claimNone hs
    · cases h
  | claim | settleTask | settle | retryTask | processDue | wakeEnd =>
    dsimp only at h
    split at h
    · rename_i hs
      cases h
      constructor
      exact hs
    · cases h
  | _ =>
    dsimp only at h
    split at h
    · rename_i hs
      constructor
      · exact hs
      · exact h
    · cases h

end Txn

structure Sys where
  committed : Db := {}
  txns : Dict ℕ Txn := Dict.empty

inductive Action
  | begin
  | act (a : Act)
  | commit
  | rollback
  deriving DecidableEq

namespace Sys

def grant (s : Sys) (k : ℕ) (l : Lock Row) : Bool :=
  s.txns.entries.all fun e => e.1 = k || e.2.locks.all fun m =>
    m.row ≠ l.row || !m.mode.conflicts l.mode

def step (s : Sys) (k : ℕ) : Action → Option Sys
  | .begin => if s.txns.get k = none then some { s with txns := s.txns.set k {} } else none
  | .act a =>
    (s.txns.get k).bind fun x =>
      (x.advance s.committed (s.grant k) a).map fun y => { s with txns := s.txns.set k y }
  | .commit =>
    match s.txns.get k with
    | some { stage := .done, delta := d, .. } =>
      some { committed := s.committed.patch d, txns := s.txns.erase k }
    | _ => none
  | .rollback => if s.txns.get k = none then none else some { s with txns := s.txns.erase k }

def run : Sys → List (ℕ × Action) → Option Sys
  | s, [] => some s
  | s, (k, a) :: as => (s.step k a).bind fun s' => run s' as

end Sys

end Reaper.Store
