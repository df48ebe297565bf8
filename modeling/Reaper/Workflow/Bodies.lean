import Reaper.Library.CallTree
import Reaper.Store.Statements

/-! The bodies of durable functions, by the durable calls they await, and what they compute when
each call is replaced by the outcome of what it calls. -/

namespace Reaper.Workflow

open Reaper.Store

def maxPromiseBytes : ℕ := 1024 * 1024
def maxChildPromises : ℕ := 1024
def maxPromiseDepth : ℕ := 256

def jsonNull : Json := ⟨"null"⟩

def jsonSize (j : Json) : ℕ := j.text.utf8ByteSize

def escape (c : Char) : String :=
  match c.toNat with
  | 8 => "\\b"
  | 9 => "\\t"
  | 10 => "\\n"
  | 12 => "\\f"
  | 13 => "\\r"
  | 34 => "\\\""
  | 92 => "\\\\"
  | n => if n < 16 then "\\u000" ++ String.ofList (Nat.toDigits 16 n)
    else if n < 32 then "\\u00" ++ String.ofList (Nat.toDigits 16 n) else c.toString

def quote (s : String) : String := "\"" ++ String.join (s.toList.map escape) ++ "\""

structure Error where
  type : String
  text : String
  deriving DecidableEq, Repr

def Error.json (e : Error) : Json :=
  ⟨"\x7b\"type\":" ++ quote e.type ++ ",\"text\":" ++ quote e.text ++ "\x7d"⟩

def reaperError (text : String) : Error := ⟨"reaper.promise.ReaperError", text⟩
def resourceLimitError (text : String) : Error := ⟨"reaper.promise.ResourceLimitError", text⟩
def runtimeError (text : String) : Error := ⟨"builtins.RuntimeError", text⟩
def valueError (text : String) : Error := ⟨"builtins.ValueError", text⟩
def indexError (text : String) : Error := ⟨"builtins.IndexError", text⟩
def timeoutError (text : String) : Error := ⟨"builtins.TimeoutError", text⟩
def retryableError (text : String) : Error := ⟨"reaper.promise.RetryableError", text⟩
def conflictError (id : Id) : Error :=
  ⟨"reaper.database.IdempotencyConflictError",
    "promise id '" ++ id ++ "' was reused for different work"⟩

inductive Fault
  | timeout
  | retryable (text : String)
  | error (error : Error)
  deriving DecidableEq, Repr

inductive Verdict
  | resolved (value : Json)
  | rejected (error : Json)
  | timedOut (error : Json)
  deriving DecidableEq, Repr

structure Settled where
  id : Id
  verdict : Verdict
  deriving DecidableEq, Repr

def Settled.result (p : Settled) : Except Error Json :=
  match p.verdict with
  | .resolved value =>
    if maxPromiseBytes < jsonSize value then .error (reaperError "promise result is too large")
    else .ok value
  | .rejected _ => .error (reaperError ("promise " ++ p.id ++ " is rejected"))
  | .timedOut _ => .error (reaperError ("promise " ++ p.id ++ " is timed_out"))

structure DurableCall where
  function : String
  input : Json
  deriving DecidableEq, Repr

/-- A body gathers calls and goes on with their promises, or with what gather has raised. It is not
shown that its task is suspended meanwhile. -/
inductive Body
  | ret (value : Json)
  | raise (fault : Fault)
  | gather (calls : List DurableCall) (next : Except Error (List Settled) → Body)

namespace Body

def first : List Settled → Except Error Settled
  | [] => .error (indexError "tuple index out of range")
  | p :: _ => .ok p

def call (c : DurableCall) (next : Except Error Json → Body) : Body :=
  gather [c] fun promises => next ((promises.bind first).bind Settled.result)

def combine (task : List Json → DurableCall) (next : Except Error Settled → Body)
    (promises : Except Error (List Settled)) : Body :=
  match promises.bind fun ps => ps.mapM Settled.result with
  | .error e => next (.error e)
  | .ok values => gather [task values] fun joined => next (joined.bind first)

def join (task : List Json → DurableCall) (calls : List DurableCall)
    (next : Except Error Settled → Body) : Body :=
  gather calls (combine task next)

def fanout (task : Json → DurableCall) (values : List Json)
    (next : Except Error (List Settled) → Body) : Body :=
  gather (values.map task) next

def mapreduce (mapper : Json → DurableCall) (reducer : List Json → DurableCall) (values : List Json)
    (next : Except Error Settled → Body) : Body :=
  fanout mapper values (combine reducer next)

end Body

structure DurableFunction where
  version : ℕ := 1
  topic : String := "default"
  executionTimeoutMs : ℕ
  promiseDuration : Time := 365 * 24 * 60 * 60 * 1000 * millisecond
  maxAttempts : ℕ := 100
  maxAttempts_pos : 0 < maxAttempts := by decide
  body : Json → Body

structure Work where
  id : Id
  rootId : Option Id
  function : String
  input : Json
  topic : String
  version : ℕ
  depth : ℕ
  priority : ℤ
  executionTimeoutMs : ℕ
  retentionMs : Option ℕ
  maxFailures : ℕ
  deriving DecidableEq

structure Program where
  function : String → DurableFunction
  fingerprint : Work → String
  retentionMs : ℕ

/-- A durable call in its place: the promise it creates, and what its task is to run. -/
structure Call where
  id : Id
  function : String
  input : Json
  depth : ℕ
  deriving DecidableEq, Repr

namespace Call

def root (id : Id) (d : DurableCall) : Call := ⟨id, d.function, d.input, 0⟩

def child (c : Call) (index : ℕ) (d : DurableCall) : Call where
  id := c.id ++ ":" ++ toString index ++ ":" ++ d.function
  function := d.function
  input := d.input
  depth := c.depth + 1

def children (c : Call) : ℕ → List DurableCall → List Call
  | _, [] => []
  | n, d :: ds => c.child (n + 1) d :: c.children (n + 1) ds

end Call

structure Point where
  call : Call
  index : ℕ
  body : Body

def Program.body (P : Program) (c : Call) : Body := (P.function c.function).body c.input

def settled (calls : List Call) (vs : List Verdict) : List Settled :=
  List.zipWith (fun c v => ⟨c.id, v⟩) calls vs

/-- The direct evaluation of bodies. One that asks to be retried has no outcome. -/
def Program.tree (P : Program) : Library.CallTree Call Verdict Point where
  start c := ⟨c, 0, P.body c⟩
  pause p :=
    match p.body with
    | .ret value => .verdict (.resolved value)
    | .raise (.error e) => .verdict (.rejected e.json)
    | .raise _ => .stuck
    | .gather calls next =>
      let ds := p.call.children p.index calls
      .batch ds fun vs => ⟨p.call, p.index + calls.length, next (.ok (settled ds vs))⟩

end Reaper.Workflow
