import Reaper.Workflow.Storage

/-! Attempts at tasks. An attempt runs the body of its task from the start, inside the transaction
that has claimed the task, and finds the promises of calls that were made before. -/

namespace Reaper.Workflow

open Reaper.Store Reaper.Library

def verdictOf (state : PromiseState) (result error : Option Json) : Option Verdict :=
  match state with
  | .pending => none
  | .resolved => some (.resolved (result.getD jsonNull))
  | .rejected => some (.rejected (error.getD jsonNull))
  | .timedOut => some (.timedOut (error.getD jsonNull))

/-- What a reader of the row sees. A null result is stored as no result. -/
def verdict (w : WaitedPromise) : Option Verdict := verdictOf w.state w.result w.error

structure Context where
  taskId : Id
  rootId : Id
  depth : ℕ
  memo : Dict Id WaitedPromise := Dict.empty
  callIndex : ℕ := 0

namespace Context

def save (x : Context) (w : WaitedPromise) : Context := { x with memo := x.memo.set w.id w }

def find (x : Context) (id : Id) : Option WaitedPromise := x.memo.get id

def load (task : ClaimedTask) : Context :=
  task.waits.foldl save { taskId := task.id, rootId := task.rootId.getD task.id, depth := task.depth }

def nextId (x : Context) (func : String) : Except Error (Id × Context) :=
  let index := x.callIndex + 1
  if maxChildPromises < index then .error (runtimeError "task created too many child promises")
  else .ok (x.taskId ++ ":" ++ toString index ++ ":" ++ func, { x with callIndex := index })

def invoke (x : Context) (d : DurableCall) : Except Error (Call × Context) :=
  if maxPromiseBytes < jsonSize d.input then .error (valueError "promise input is too large")
  else if maxPromiseDepth < x.depth + 1 then .error (runtimeError "promise ancestry is too deep")
  else (x.nextId d.function).map fun r => (⟨r.1, d.function, d.input, x.depth + 1⟩, r.2)

/-- The calls of one gather, in order. The first that raises is what gather raises, and the
submissions of the others are not followed then. -/
def invokeAll (x : Context) : List DurableCall → Except Error (List Call × Context)
  | [] => .ok ([], x)
  | d :: ds =>
    match x.invoke d with
    | .error e => .error e
    | .ok (c, y) =>
      match y.invokeAll ds with
      | .error e => .error e
      | .ok (cs, z) => .ok (c :: cs, z)

end Context

lemma find_save (x : Context) (w : WaitedPromise) (id : Id) :
    (x.save w).memo.get id = if id = w.id then some w else x.memo.get id := Dict.get_set _ _ _ _

lemma nextId_ok {x y : Context} {f : String} {id : Id} (h : x.nextId f = .ok (id, y)) :
    x.callIndex + 1 ≤ maxChildPromises ∧
      id = x.taskId ++ ":" ++ toString (x.callIndex + 1) ++ ":" ++ f ∧
      y = { x with callIndex := x.callIndex + 1 } := by
  rw [Context.nextId] at h
  split_ifs at h with hm
  cases h
  exact ⟨not_lt.mp hm, rfl, rfl⟩

lemma foldl_save (ws : List WaitedPromise) (x : Context) :
    (ws.foldl Context.save x).taskId = x.taskId ∧ (ws.foldl Context.save x).rootId = x.rootId ∧
      (ws.foldl Context.save x).depth = x.depth ∧
      (ws.foldl Context.save x).callIndex = x.callIndex ∧
      (∀ id w, (ws.foldl Context.save x).memo.get id = some w →
        w ∈ ws ∧ w.id = id ∨ x.memo.get id = some w) ∧
      (∀ id, (∃ w ∈ ws, w.id = id) ∨ x.memo.get id ≠ none →
        (ws.foldl Context.save x).memo.get id ≠ none) := by
  induction ws generalizing x with
  | nil => exact ⟨rfl, rfl, rfl, rfl, fun _ _ h => Or.inr h, fun _ h => h.resolve_left (by simp)⟩
  | cons w ws ih =>
    obtain ⟨ht, hr, hd, hc, hfind, hmem⟩ := ih (x.save w)
    refine ⟨ht, hr, hd, hc, fun id u hu => ?_, fun id hid => hmem id ?_⟩
    · rcases hfind id u hu with ⟨hm, hid⟩ | hu
      · exact Or.inl ⟨List.mem_cons_of_mem _ hm, hid⟩
      · rw [find_save] at hu
        split_ifs at hu with hid
        · cases hu
          exact Or.inl ⟨List.mem_cons_self, hid.symm⟩
        · exact Or.inr hu
    · rw [find_save]
      rcases hid with ⟨u, hu, rfl⟩ | hid
      · rcases List.mem_cons.mp hu with rfl | hu
        · exact Or.inr (by simp)
        · exact Or.inl ⟨u, hu, rfl⟩
      · refine Or.inr ?_
        split_ifs
        · exact Option.some_ne_none _
        · exact hid

namespace Program

variable (P : Program)

/-- What a fingerprint covers: neither the times of a submission nor a child's retention. -/
def work (rootId : Option Id) (c : Call) : Work where
  id := c.id
  rootId := rootId
  function := c.function
  input := c.input
  topic := (P.function c.function).topic
  version := (P.function c.function).version
  depth := c.depth
  priority := 0
  executionTimeoutMs := (P.function c.function).executionTimeoutMs
  retentionMs := if rootId = none then some P.retentionMs else none
  maxFailures := (P.function c.function).maxAttempts

def request (rootId : Option Id) (c : Call) (now : Time) : Option CallRequest :=
  if h : rootId ≠ some c.id then
    some {
      id := c.id
      idempotencyKey := P.fingerprint (P.work rootId c)
      rootId := rootId
      expiresAt := now + (P.function c.function).promiseDuration
      retentionMs := P.retentionMs
      function := c.function
      version := (P.function c.function).version
      topic := (P.function c.function).topic
      input := c.input
      depth := c.depth
      availableAt := now
      maxFailures := (P.function c.function).maxAttempts
      executionTimeoutMs := (P.function c.function).executionTimeoutMs
      maxFailures_pos := (P.function c.function).maxAttempts_pos
      root_ne := h }
  else none

end Program

inductive Result
  | resolved (value : Json)
  | rejected (error : Error)
  | retry (error : Error)
  | suspended (awaited : List Id)
  deriving DecidableEq, Repr

def returned (value : Json) : Result :=
  if maxPromiseBytes < jsonSize value then
    .rejected (resourceLimitError "promise result is too large")
  else .resolved value

def raised : Fault → Result
  | .timeout => .retry (timeoutError "local task run timed out")
  | .retryable text => .retry (retryableError text)
  | .error e => .rejected e

inductive Phase
  | running (body : Body)
  | ended (result : Result)

structure Attempt where
  task : ClaimedTask
  context : Context
  delta : Delta := {}
  phase : Phase

namespace Attempt

variable (P : Program) (db : Db)

/-- gather: what is not in the memo is submitted in one statement. Promises that are pending suspend
the task. -/
def gather (a : Attempt) (now : Time) (calls : List DurableCall)
    (next : Except Error (List Settled) → Body) : Option Attempt :=
  match a.context.invokeAll calls with
  | .error e => some { a with phase := .running (next (.error e)) }
  | .ok (cs, context) =>
    let missing := cs.filter fun c => context.find c.id = none
    (missing.mapM fun c => P.request (some context.rootId) c now).bind fun requests =>
      match submitCalls db a.delta requests with
      | (delta, .error e) =>
        some { a with context := context, delta := delta, phase := .running (next (.error e)) }
      | (delta, .ok rows) =>
        let context := rows.foldl Context.save context
        let stored := cs.filterMap fun c => context.find c.id
        let pending := stored.filter fun w => verdict w = none
        some { a with
          context := context
          delta := delta
          phase :=
            if pending ≠ [] then .ended (.suspended (pending.map WaitedPromise.id).eraseDups)
            else .running (next (.ok (stored.filterMap fun w => (verdict w).map (⟨w.id, ·⟩)))) }

def run (a : Attempt) (now : Time) : Option Attempt :=
  match a.phase with
  | .ended _ => none
  | .running (.ret value) => some { a with phase := .ended (returned value) }
  | .running (.raise fault) => some { a with phase := .ended (raised fault) }
  | .running (.gather calls next) => a.gather P db now calls next

def withinLimits (a : Attempt) : Bool :=
  match a.phase with
  | .running (.ret value) => jsonSize value ≤ maxPromiseBytes
  | .running (.gather calls _) =>
    a.context.callIndex + calls.length ≤ maxChildPromises ∧
      ∀ d ∈ calls, a.context.depth < maxPromiseDepth ∧ jsonSize d.input ≤ maxPromiseBytes
  | _ => true

end Attempt

def settleExecution (db : Db) (task : ClaimedTask) (result : Result) (now : Time) : Option Db :=
  match result with
  | .resolved value =>
    let result := if value = jsonNull then none else some value
    settlePromise db task.id ((Settlement.complete result).outcome now) now
  | .rejected e => settlePromise db task.id ((Settlement.reject e.json).outcome now) now
  | .retry e => retryTask db task.id e.json now
  | .suspended awaited => suspendTask db task.id awaited now

def settles (db : Db) (id : Id) : Result → Bool
  | .resolved _ | .rejected _ => true
  | .retry _ => (db.tasks.get id).all fun t => t.maxFailures ≤ t.failures + 1
  | .suspended _ => false

structure System where
  committed : Db := {}
  created : List Id := []
  attempts : Dict ℕ Attempt := Dict.empty

inductive Action
  | submit (now : Time)
  | claim (topic : String) (excluded : List (String × ℕ)) (now : Time) (id : Id)
  | run (now : Time)
  /-- the attempt ends early and asks to be retried -/
  | interrupt (error : Error)
  | settle (now : Time)
  | rollback
  | expire (id : Id) (now : Time)

namespace System

variable (P : Program) (root : Call)

def holds (s : System) (id : Id) : Bool := s.attempts.values.any fun a => a.task.id = id

def unheldWaiters (s : System) (k : ℕ) (db : Db) (id : Id) : Bool :=
  (lockedWaiters db [id]).all fun w => !(System.holds { s with attempts := s.attempts.erase k } w)

def client (s : System) (now : Time) : Option System :=
  (P.request none root now).map fun r =>
    let delta := (submitCalls s.committed {} [r]).1
    { s with
      committed := s.committed.patch delta
      created := s.created ++ delta.promises.keys }

/-- A worker claims one of the tasks that CLAIM may choose from, and starts its function. Work of a
version it does not have is rolled back. -/
def claim (s : System) (k : ℕ) (topic : String) (excluded : List (String × ℕ)) (now : Time) (id : Id) :
    Option System :=
  if s.attempts.get k ≠ none ∨ s.holds id ∨
      id ∉ claimCandidates s.committed topic excluded now then none
  else (s.committed.tasks.get id).bind fun t =>
    if (P.function t.function).version ≠ t.version then none
    else
      let task := claimedTask s.committed id t
      let body := (P.function t.function).body t.input
      some { s with attempts := s.attempts.set k {
        task := task
        context := Context.load task
        phase := .running body } }

def settle (s : System) (k : ℕ) (now : Time) : Option System :=
  (s.attempts.get k).bind fun a =>
    match a.phase with
    | .running _ => none
    | .ended result =>
      let view := s.committed.patch a.delta
      if settles view a.task.id result ∧ ¬ s.unheldWaiters k view a.task.id then none
      else (settleExecution view a.task result now).map fun db => {
        committed := db
        created := s.created ++ a.delta.promises.keys
        attempts := s.attempts.erase k }

def step (s : System) (k : ℕ) : Action → Option System
  | .submit now => s.client P root now
  | .claim topic excluded now id => s.claim P k topic excluded now id
  | .run now =>
    (s.attempts.get k).bind fun a => (a.run P s.committed now).map fun a' =>
      { s with attempts := s.attempts.set k a' }
  | .interrupt e =>
    (s.attempts.get k).bind fun a =>
      match a.phase with
      | .running _ =>
        some { s with attempts := s.attempts.set k { a with phase := .ended (.retry e) } }
      | .ended _ => none
  | .settle now => s.settle k now
  | .rollback => some { s with attempts := s.attempts.erase k }
  | .expire id now =>
    if s.holds id ∨ ¬ (s.committed.promises.get id).any (expired now) ∨
        ¬ s.unheldWaiters k s.committed id then none
    else (settlePromise s.committed id (.timedOut promiseTimeout now) now).map fun db =>
      { s with committed := db }

def run : System → List (ℕ × Action) → Option System
  | s, [] => some s
  | s, (k, a) :: as => (s.step P root k a).bind fun s' => run s' as

def withinLimits (s : System) (k : ℕ) : Action → Bool
  | .run _ => (s.attempts.get k).all Attempt.withinLimits
  | .settle _ => (s.attempts.get k).all fun a =>
      match a.phase with
      | .ended (.retry _) =>
        (s.committed.tasks.get a.task.id).all fun t => t.failures + 1 < t.maxFailures
      | _ => true
  | .expire _ _ => false
  | _ => true

def limited : System → List (ℕ × Action) → Bool
  | _, [] => true
  | s, (k, a) :: as => s.withinLimits k a && (s.step P root k a).all fun s' => limited s' as

end System

end Reaper.Workflow
