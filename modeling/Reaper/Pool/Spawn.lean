import Reaper.Tasks.Cleanup
import Reaper.Pool.ChildConfig
import Mathlib.Data.Finset.Basic

/-! The spawn of a child: what spawn_effect opens, and what of it is left when it ends. Any of its
system calls may fail, and a cancellation may arrive at any of its awaits. -/

namespace Reaper.Pool.Spawn

open Reaper.Library Reaper.Library.Coroutine Reaper.Tasks

inductive Handle
  | parentSock | childSock | deathReader | deathWriter | configReader | configWriter
  | controlSource | deathSource | configSource | beatFd | beatSource
  deriving DecidableEq

inductive Checkpoint
  | socketPair | deathPipe | configPipe | dupControl | dupDeath | dupConfig | heartbeatOpen
  | heartbeatWrite | dupBeat | configWrite | spawnThread | spawnProcess | spawnedProcess | slotSpawned
  deriving DecidableEq

inductive SystemCall
  | checkpoint (c : Checkpoint)
  | socketpair | deathPipe | configPipe | dupControl | dupDeath | dupConfig | openBeat | pwrite
  | unlinkBeat | dupBeat | write | posixSpawn | killpg | waitpid | unlink | setblocking
  | close (h : Handle)
  deriving DecidableEq

inductive SlotStage
  | absent | registered | reading
  deriving DecidableEq

structure Spawning where
  calls : List SystemCall := []
  opened : Finset Handle := ∅
  held : Finset Handle := ∅
  beat : Bool := false
  /-- a child runs, or has not been waited for -/
  child : Bool := false
  pid : Bool := false
  slot : SlotStage := .absent

structure World where
  fault : List SystemCall → SystemCall → Option Failure
  injected : List SystemCall → ChildConfig.InjectedWrite
  takes : List SystemCall → ℕ
  interrupts : List SystemCall → ℕ
  anonymousBeats : Bool

abbrev Action := Coroutine ℕ Failure Spawning

def osError : Failure where
  kind := "builtins.OSError"
  text := "heartbeat marker initialization made no progress"

def brokenPipe : Failure where
  kind := "builtins.BrokenPipeError"
  text := "child configuration pipe made no progress"

def typeError (text : String) : Failure where
  kind := "builtins.TypeError"
  text := text

def configTooLarge : Failure where
  kind := "builtins.ValueError"
  text := "child configuration is too large"

def Failure.isProcessLookup (e : Failure) : Bool := e.kind = "builtins.ProcessLookupError"

def Failure.isChildProcess (e : Failure) : Bool := e.kind = "builtins.ChildProcessError"

variable (w : World)

def call (c : SystemCall) : Action Unit := do
  let s ← read
  update fun s => { s with calls := s.calls ++ [c] }
  match w.fault s.calls c with
  | some e => throw e
  | none => pure ()

def checkpoint (c : Checkpoint) : Action Unit := do
  let s ← read
  await cancelledError s.calls.length (call w (.checkpoint c))

def opening (c : SystemCall) (hs : Finset Handle) : Action Unit := do
  call w c
  update fun s => { s with opened := s.opened ∪ hs, held := s.held ∪ hs }

/-- A close that fails has closed its descriptor all the same. -/
def close (h : Handle) : Action Unit := do
  update fun s => { s with opened := s.opened.erase h }
  call w (.close h)

def closeQuietly (h : Handle) : Action Unit := tryCatch (close w h) fun _ => pure ()

def unset (h : Handle) : Action Unit := update fun s => { s with held := s.held.erase h }

def closing (h : Handle) : Action Unit := do
  close w h
  unset h

def whenHeld (h : Handle) (x : Action Unit) : Action Unit := do
  let s ← read
  if h ∈ s.held then x

def retrying (c : SystemCall) : Action Unit := do
  update fun s => { s with calls := s.calls ++ List.replicate (w.interrupts s.calls) c }
  call w c

def killProcessGroup : Action Unit :=
  tryCatch (retrying w .killpg) fun e => if Failure.isProcessLookup e then pure () else throw e

def reap : Action Unit := do
  tryCatch (retrying w .waitpid) fun e => if Failure.isChildProcess e then pure () else throw e
  update fun s => { s with child := false }

def killChild : Action Unit := do
  let s ← read
  if s.pid then do
    killProcessGroup w
    reap w

def discardSpawnedChild : Action Unit := do
  whenHeld .deathWriter (do closeQuietly w .deathWriter; unset .deathWriter)
  killChild w
  whenHeld .parentSock (closing w .parentSock)
  whenHeld .beatFd (do closeQuietly w .beatFd; unset .beatFd)
  call w .unlink
  update fun s => { s with beat := false, pid := false }

def noting (failure : Failure) (operation : String) (cleanup : Action Unit) : Action Failure :=
  tryCatch (do cleanup; pure failure) fun e => pure (noteCleanupFailure failure e operation)

def shieldCleanup (operation : Action Unit) : Action Unit := do
  let s ← read
  let cleanup ← spawn operation
  tryCatch (await cancelledError s.calls.length (join cleanup)) fun e =>
    if e.isCancelled then do
      let cancellation ← noting e "cancelled operation" (join cleanup)
      throw cancellation
    else throw e

def initializeBeat : Action Unit := do
  checkpoint w .heartbeatWrite
  let s ← read
  match w.injected s.calls with
  | .nothing => do
    call w .pwrite
    if w.takes s.calls < 8 then throw osError
  | .size k => if k ≠ 8 then throw osError
  | .other => throw (typeError "heartbeat write fault override must be an integer")

def World.writer (calls : List SystemCall) : ChildConfig.Writer where
  injected := fun _ => w.injected calls
  takes := fun _ => w.takes calls

def writeConfig (config : List UInt8) : Action Unit :=
  if _hdone : config = [] then pure ()
  else do
    checkpoint w .configWrite
    let s ← read
    match (w.writer s.calls).offered 0 config with
    | none => throw (typeError "config write fault override must be an integer")
    | some data => do
      call w .write
      if _hstuck : (w.writer s.calls).written 0 data = 0 then throw brokenPipe
      else writeConfig (config.drop ((w.writer s.calls).written 0 data))
termination_by config.length
decreasing_by
  have hlength := List.length_pos_iff.mpr _hdone
  rw [List.length_drop]
  omega

def openPipes : Action Unit := do
  checkpoint w .socketPair
  opening w .socketpair {.parentSock, .childSock}
  checkpoint w .deathPipe
  opening w .deathPipe {.deathReader, .deathWriter}
  checkpoint w .configPipe
  opening w .configPipe {.configReader, .configWriter}
  checkpoint w .dupControl
  opening w .dupControl {.controlSource}
  checkpoint w .dupDeath
  opening w .dupDeath {.deathSource}
  checkpoint w .dupConfig
  opening w .dupConfig {.configSource}

def unlinkBeat : Action Unit :=
  if w.anonymousBeats then do
    call w .unlinkBeat
    update fun s => { s with beat := false }
  else pure ()

def openBeat : Action Unit := do
  checkpoint w .heartbeatOpen
  opening w .openBeat {.beatFd}
  update fun s => { s with beat := true }
  initializeBeat w
  unlinkBeat w
  checkpoint w .dupBeat
  opening w .dupBeat {.beatSource}

def prepare (config : List UInt8) : Action Unit := do
  openPipes w
  openBeat w
  writeConfig w config
  closing w .configWriter
  checkpoint w .spawnThread
  checkpoint w .spawnProcess

/-- The spawn runs in a thread that a cancellation does not stop. -/
def spawnProcess : Action Unit := do
  let s ← read
  let spawning ← spawn (do
    call w .posixSpawn
    update fun s => { s with child := true })
  tryCatch (do
    await cancelledError s.calls.length (join spawning)
    update fun s => { s with pid := true }) fun e =>
    if e.isCancelled then do
      let cancellation ← noting e "cancelled process spawn" (do
        join spawning
        update fun s => { s with pid := true }
        shieldCleanup (discardSpawnedChild w))
      throw cancellation
    else throw e

def confirmSpawn : Action Unit :=
  tryCatch (checkpoint w .spawnedProcess) fun failure => do
    let failure ← noting failure "post-spawn failure" (shieldCleanup (discardSpawnedChild w))
    throw failure

def childEnds : List Handle :=
  [.controlSource, .deathSource, .configSource, .beatSource, .deathReader, .configReader, .configWriter]

def finish : Action Unit := do
  childEnds.forM fun h => whenHeld h (closeQuietly w h)
  whenHeld .childSock (close w .childSock)
  let s ← read
  if !s.pid then do
    whenHeld .parentSock (close w .parentSock)
    whenHeld .deathWriter (closeQuietly w .deathWriter)
    whenHeld .beatFd (closeQuietly w .beatFd)
    call w .unlink
    update fun s => { s with beat := false }

/-- The child becomes a slot of the pool. Nothing here is undone when it fails. -/
def register : Action Unit := do
  call w .setblocking
  update fun s => { s with slot := .registered }
  checkpoint w .slotSpawned
  update fun s => { s with slot := .reading }

/-- It returns the fault of a spawn that failed, and raises what is not an Exception. -/
def spawnEffect (text : String) : Action (Option Failure) := do
  let config := ChildConfig.encode text
  if ChildConfig.maxChildConfig < config.length then throw configTooLarge
  let fault ← always (tryCatch (do
      prepare w config
      spawnProcess w
      confirmSpawn w
      pure none) fun e => if e.ordinary then pure (some e) else throw e)
    (finish w)
  match fault with
  | some e => pure (some e)
  | none => do
    register w
    pure none

def Raised (c : SystemCall) (e : Failure) (s : Spawning) : Prop :=
  ∃ calls, s.calls = calls ++ [c] ∧ w.fault calls c = some e

def owned : Finset Handle := {.parentSock, .deathWriter, .beatFd}

/-- The calls of the cleanup that may not fail: a socket that is closed, the signal and the wait for a
child that is there, and the removal of a file that may be missing. -/
structure World.Cleans : Prop where
  parentSock : ∀ calls, w.fault calls (.close .parentSock) = none
  childSock : ∀ calls, w.fault calls (.close .childSock) = none
  killpg : ∀ calls e, w.fault calls .killpg = some e → Failure.isProcessLookup e = true
  waitpid : ∀ calls e, w.fault calls .waitpid = some e → Failure.isChildProcess e = true
  unlink : ∀ calls, w.fault calls .unlink = none

structure Clean (s : Spawning) : Prop where
  opened : s.opened ⊆ s.held
  child : s.child = false
  pid : s.pid = false
  slot : s.slot = .absent

structure Alive (s : Spawning) : Prop where
  opened : s.opened ⊆ s.held
  child : s.child = true
  pid : s.pid = true
  slot : s.slot = .absent

def Kept (s : Spawning) : Prop := s.opened = owned ∧ s.child = true

/-- How a spawn ends: with a slot that is read, or with nothing. What it raises once the child runs leaves a slot that
nobody reads, where the hook at its registration fails, or a child in no slot, where its socket cannot be set up. -/
inductive Accounted (w : World) : Except Failure (Option Failure) → Spawning → Prop
  | spawned {s} (slot : s.slot = .reading) (kept : Kept s) : Accounted w (.ok none) s
  | undone {r s} (failed : r ≠ .ok none) (slot : s.slot = .absent) (opened : s.opened = ∅)
      (child : s.child = false) (beat : s.beat = false) : Accounted w r s
  | unread {e s} (slot : s.slot = .registered) (kept : Kept s)
      (raised : Raised w (.checkpoint .slotSpawned) e s ∨ e = cancelledError) : Accounted w (.error e) s
  | loose {e s} (slot : s.slot = .absent) (kept : Kept s) (raised : Raised w .setblocking e s) :
      Accounted w (.error e) s

section Steps

variable {w} {s t : Option ℕ × Spawning} {c : SystemCall} {x y : Action Unit} {hs hs' : Finset Handle}

lemma call_eq (w : World) (c : SystemCall) (s : Option ℕ × Spawning) :
    call w c s = ((match w.fault s.2.calls c with
      | some e => .error e
      | none => .ok ()), s.1, { s.2 with calls := s.2.calls ++ [c] }) := by
  have hrun : call w c s = (match w.fault s.2.calls c with
      | some e => throw e
      | none => pure () : Action Unit) (s.1, { s.2 with calls := s.2.calls ++ [c] }) := rfl
  rw [hrun]
  cases w.fault s.2.calls c <;> rfl

def Same (s t : Spawning) : Prop := t = { s with calls := t.calls }

lemma ends_call_fault : Ends (call w c) s fun r t =>
    Same s.2 t.2 ∧ ∀ e, r = .error e → Raised w c e t.2 := by
  rw [Ends, call_eq]
  refine ⟨rfl, fun e he => ⟨s.2.calls, rfl, ?_⟩⟩
  cases hf : w.fault s.2.calls c with
  | none =>
    rw [hf] at he
    cases he
  | some f =>
    rw [hf] at he
    cases he
    rfl

lemma ends_call : Ends (call w c) s fun _ t => Same s.2 t.2 := by
  rw [Ends, call_eq]
  rfl

lemma ends_checkpoint {p : Checkpoint} : Ends (checkpoint w p) s fun _ t => Same s.2 t.2 :=
  ends_bind (ends_read ⟨fun _ _ => ends_await (ends_call.mono fun _ _ h => ⟨fun _ => h, fun _ => h⟩), nofun⟩)

lemma ends_checkpoint_fault {p : Checkpoint} : Ends (checkpoint w p) s fun r t =>
    Same s.2 t.2 ∧ ∀ e, r = .error e → Raised w (.checkpoint p) e t.2 ∨ e = cancelledError := by
  refine ends_bind (ends_read ⟨fun _ _ => ends_await (ends_call_fault.mono fun r t ht => ⟨fun _ => ?_, fun _ => ?_⟩),
    nofun⟩)
  · refine ⟨ht.1, fun e he => Or.inr ?_⟩
    cases he
    rfl
  · exact ⟨ht.1, fun e he => Or.inl (ht.2 e he)⟩

lemma Same.clean {s t : Spawning} (h : Same s t) (hs : Clean s) : Clean t := by
  rw [h]
  exact ⟨hs.opened, hs.child, hs.pid, hs.slot⟩

def Grows (hs : Finset Handle) (x : Action Unit) : Prop :=
  ∀ s, Clean s.2 → Ends x s fun r t => Clean t.2 ∧ (∀ h ∈ owned, h ∈ s.2.opened → h ∈ t.2.opened) ∧
    (r = .ok () → ∀ h ∈ owned, h ∈ hs → h ∈ t.2.opened)

lemma Grows.same (h : ∀ s, Ends x s fun _ t => Same s.2 t.2) : Grows ∅ x := by
  intro s hs
  refine (h s).mono fun r t ht => ⟨ht.clean hs, fun h _ hm => ?_, fun _ _ _ hm => (by cases hm)⟩
  rw [ht]
  exact hm

lemma Grows.seq (h : Grows hs x) (h' : Grows hs' y) : Grows (hs ∪ hs') (do x; y) := by
  intro s hclean
  refine ends_bind ((h s hclean).mono fun r t ⟨ht, hkeep, hnew⟩ => ⟨fun _ hr => ?_, fun e _ => ?_⟩)
  · refine (h' t ht).mono fun q u ⟨hu, hkeep', hnew'⟩ => ⟨hu, fun h ho hm => hkeep' h ho (hkeep h ho hm),
      fun hq h ho hm => ?_⟩
    rcases Finset.mem_union.mp hm with hm | hm
    · exact hkeep' h ho (hnew hr h ho hm)
    · exact hnew' hq h ho hm
  · exact ⟨ht, hkeep, nofun⟩

lemma Grows.mono (h : Grows hs x) (hsub : hs' ⊆ hs) : Grows hs' x := fun s hclean =>
  (h s hclean).mono fun _ _ ⟨ht, hkeep, hnew⟩ => ⟨ht, hkeep, fun hr h ho hm => hnew hr h ho (hsub hm)⟩

lemma grows_checkpoint (p : Checkpoint) : Grows ∅ (checkpoint w p) := .same fun _ => ends_checkpoint

lemma grows_opening (c : SystemCall) (hs : Finset Handle) : Grows hs (opening w c hs) := by
  intro s hclean
  refine ends_bind (ends_call.mono fun r t ht => ⟨fun _ _ => ends_update ?_, fun e _ => ?_⟩)
  · rw [ht]
    refine ⟨⟨Finset.union_subset_union hclean.opened (Finset.Subset.refl hs), hclean.child, hclean.pid,
      hclean.slot⟩, fun h _ hm => Finset.mem_union_left _ hm, fun _ h _ hm => Finset.mem_union_right _ hm⟩
  · refine ⟨ht.clean hclean, fun h _ hm => ?_, nofun⟩
    rw [ht]
    exact hm

def Drops (h : Handle) (s t : Spawning) : Prop :=
  t = { s with opened := s.opened.erase h, held := s.held.erase h, calls := t.calls }

lemma ends_close {h : Handle} : Ends (close w h) s fun _ t =>
    t.2 = { s.2 with opened := s.2.opened.erase h, calls := t.2.calls } :=
  ends_bind (ends_update ⟨fun _ _ => ends_call.mono fun _ _ ht => ht, nofun⟩)

lemma grows_closing {h : Handle} (hn : h ∉ owned) : Grows ∅ (closing w h) := by
  intro s hclean
  have hkeep : ∀ j ∈ owned, j ∈ s.2.opened → j ∈ s.2.opened.erase h := fun j ho hm =>
    Finset.mem_erase.mpr ⟨fun hj => hn (hj ▸ ho), hm⟩
  refine ends_bind (ends_close.mono fun r t ht => ⟨fun _ _ => ends_update ?_, fun e _ => ?_⟩)
  · rw [ht]
    exact ⟨⟨Finset.erase_subset_erase h hclean.opened, hclean.child, hclean.pid, hclean.slot⟩, hkeep,
      fun _ _ _ hm => (by cases hm)⟩
  · rw [ht]
    exact ⟨⟨(Finset.erase_subset h _).trans hclean.opened, hclean.child, hclean.pid, hclean.slot⟩, hkeep, nofun⟩

lemma grows_beat (b : Bool) : Grows ∅ (update fun s => { s with beat := b }) := fun _ hclean =>
  ends_update ⟨⟨hclean.opened, hclean.child, hclean.pid, hclean.slot⟩, fun _ _ hm => hm,
    fun _ _ _ hm => (by cases hm)⟩

lemma grows_throw (e : Failure) : Grows ∅ (throw e) := fun _ hclean =>
  ends_throw ⟨hclean, fun _ _ hm => hm, nofun⟩

lemma grows_pure : Grows ∅ (pure ()) := fun _ hclean =>
  ends_pure ⟨hclean, fun _ _ hm => hm, fun _ _ _ hm => (by cases hm)⟩

lemma Grows.read {f : Spawning → Action Unit} (h : ∀ u, Grows hs (f u)) :
    Grows hs (do let u ← read; f u) := fun s hclean =>
  ends_bind (ends_read ⟨fun _ _ => h _ s hclean, nofun⟩)

lemma Grows.then (h : Grows ∅ x) (h' : Grows hs y) : Grows hs (do x; y) := by
  have hboth := h.seq h'
  rwa [Finset.empty_union] at hboth

lemma grows_call (c : SystemCall) : Grows ∅ (call w c) := .same fun _ => ends_call

lemma grows_initializeBeat : Grows ∅ (initializeBeat w) := by
  refine (grows_checkpoint .heartbeatWrite).then (.read fun u => ?_)
  split
  · refine (grows_call .pwrite).then ?_
    split_ifs
    · exact grows_throw osError
    · exact grows_pure
  · split_ifs
    · exact grows_throw osError
    · exact grows_pure
  · exact grows_throw _

lemma grows_writeConfig (config : List UInt8) : Grows ∅ (writeConfig w config) := by
  induction hn : config.length using Nat.strong_induction_on generalizing config with
  | _ n ih =>
    rw [writeConfig]
    split_ifs with hdone
    · exact grows_pure
    refine (grows_checkpoint .configWrite).then (.read fun u => ?_)
    split
    · exact grows_throw _
    · rename_i data hdata
      refine (grows_call .write).then ?_
      split_ifs with hstuck
      · exact grows_throw brokenPipe
      · refine ih _ ?_ _ rfl
        have hlength := List.length_pos_iff.mpr hdone
        rw [List.length_drop]
        omega

lemma grows_openPipes : Grows {.parentSock, .deathWriter} (openPipes w) := by
  refine Grows.mono ((grows_checkpoint .socketPair).then ((grows_opening .socketpair _).seq
    ((grows_checkpoint .deathPipe).then ((grows_opening .deathPipe _).seq
      ((grows_checkpoint .configPipe).then ((grows_opening .configPipe _).seq
        ((grows_checkpoint .dupControl).then ((grows_opening .dupControl _).seq
          ((grows_checkpoint .dupDeath).then ((grows_opening .dupDeath _).seq
            ((grows_checkpoint .dupConfig).then (grows_opening .dupConfig _)))))))))))) ?_
  decide

lemma grows_openBeat : Grows {.beatFd} (openBeat w) := by
  have hunlink : Grows ∅ (unlinkBeat w) := by
    rw [unlinkBeat]
    split_ifs
    · exact (grows_call .unlinkBeat).then (grows_beat false)
    · exact grows_pure
  refine Grows.mono ((grows_checkpoint .heartbeatOpen).then ((grows_opening .openBeat _).seq
    ((grows_beat true).then (grows_initializeBeat.then (hunlink.then
      ((grows_checkpoint .dupBeat).then (grows_opening .dupBeat _))))))) ?_
  decide

lemma grows_prepare (config : List UInt8) : Grows owned (prepare w config) := by
  refine Grows.mono (grows_openPipes.seq (grows_openBeat.seq ((grows_writeConfig config).then
    ((grows_closing (by decide)).then
      ((grows_checkpoint .spawnThread).then (grows_checkpoint .spawnProcess)))))) ?_
  decide

lemma ends_closing {h : Handle} (hf : ∀ calls, w.fault calls (.close h) = none) :
    Ends (closing w h) s fun r t => r = .ok () ∧ Drops h s.2 t.2 := by
  have hclose : Ends (close w h) s fun r t => r = .ok () ∧
      t.2 = { s.2 with opened := s.2.opened.erase h, calls := t.2.calls } := by
    refine ends_bind (ends_update ⟨fun _ _ => ?_, nofun⟩)
    rw [Ends, call_eq, hf]
    exact ⟨rfl, rfl⟩
  refine ends_bind (hclose.mono ?_)
  rintro r t ⟨rfl, ht⟩
  refine ⟨fun _ _ => ends_update ⟨rfl, ?_⟩, nofun⟩
  rw [ht]
  rfl

lemma ends_closeQuietly {h : Handle} : Ends (closeQuietly w h) s fun r t => r = .ok () ∧
    t.2 = { s.2 with opened := s.2.opened.erase h, calls := t.2.calls } :=
  ends_tryCatch (ends_close.mono fun _ _ ht => ⟨fun _ _ => ⟨rfl, ht⟩, fun _ _ => ends_pure ⟨rfl, ht⟩⟩)

lemma ends_dropQuietly {h : Handle} : Ends (do closeQuietly w h; unset h) s fun r t =>
    r = .ok () ∧ Drops h s.2 t.2 := by
  refine ends_bind (ends_closeQuietly.mono ?_)
  rintro r t ⟨rfl, ht⟩
  refine ⟨fun _ _ => ends_update ⟨rfl, ?_⟩, nofun⟩
  rw [ht]
  rfl

lemma ends_whenHeld {h : Handle} (ho : s.2.opened ⊆ s.2.held)
    (hx : Ends x s fun r t => r = .ok () ∧ Drops h s.2 t.2) :
    Ends (whenHeld h x) s fun r t => r = .ok () ∧ Drops h s.2 t.2 := by
  refine ends_bind (ends_read ⟨fun u hu => ?_, nofun⟩)
  cases hu
  split_ifs with hh
  · exact hx
  · refine ends_pure ⟨rfl, ?_⟩
    rw [Drops, Finset.erase_eq_of_notMem hh, Finset.erase_eq_of_notMem fun hm => hh (ho hm)]

lemma Drops.opened {h : Handle} {s t : Spawning} (hd : Drops h s t) (ho : s.opened ⊆ s.held) :
    t.opened ⊆ t.held := by
  rw [hd]
  exact Finset.erase_subset_erase h ho

lemma ends_tolerating {p : Failure → Bool} (hf : ∀ calls e, w.fault calls c = some e → p e = true) :
    Ends (tryCatch (retrying w c) fun e => if p e then pure () else throw e) s fun r t =>
      r = .ok () ∧ Same s.2 t.2 := by
  have hcall : Ends (retrying w c) s fun r t => Same s.2 t.2 ∧ ∀ e, r = .error e → p e = true := by
    refine ends_bind (ends_update ⟨fun _ _ => ?_, nofun⟩)
    refine ends_call_fault.mono fun r t ht => ⟨?_, fun e he => ?_⟩
    · rw [Same, ht.1]
    · obtain ⟨calls, -, hraised⟩ := ht.2 e he
      exact hf calls e hraised
  refine ends_tryCatch (hcall.mono fun r t ht => ⟨fun _ _ => ⟨rfl, ht.1⟩, fun e he => ?_⟩)
  rw [if_pos (ht.2 e he)]
  exact ends_pure ⟨rfl, ht.1⟩

lemma ends_killChild (hw : w.Cleans) (hp : s.2.pid = true) : Ends (killChild w) s fun r t =>
    r = .ok () ∧ t.2 = { s.2 with child := false, calls := t.2.calls } := by
  refine ends_bind (ends_read ⟨fun u hu => ?_, nofun⟩)
  cases hu
  rw [if_pos hp]
  refine ends_bind ((ends_tolerating hw.killpg).mono ?_)
  rintro r t ⟨rfl, ht⟩
  refine ⟨fun _ _ => ends_bind ((ends_tolerating hw.waitpid).mono ?_), nofun⟩
  rintro q u ⟨rfl, hu⟩
  refine ⟨fun _ _ => ends_update ⟨rfl, ?_⟩, nofun⟩
  rw [hu, ht]

lemma ends_unlink (hw : w.Cleans) : Ends (call w .unlink) s fun r t => r = .ok () ∧ Same s.2 t.2 := by
  rw [Ends, call_eq, hw.unlink]
  exact ⟨rfl, rfl⟩

lemma ends_discardSpawnedChild (hw : w.Cleans) (ho : s.2.opened ⊆ s.2.held) (hp : s.2.pid = true)
    (hs : s.2.slot = .absent) : Ends (discardSpawnedChild w) s fun r t => r = .ok () ∧ Clean t.2 := by
  refine ends_bind ((ends_whenHeld ho ends_dropQuietly).mono ?_)
  rintro r t ⟨rfl, ht⟩
  have htp : t.2.pid = true := by
    rw [ht]
    exact hp
  refine ⟨fun _ _ => ends_bind ((ends_killChild hw htp).mono ?_), nofun⟩
  rintro r u ⟨rfl, hu⟩
  have huo : u.2.opened ⊆ u.2.held := by
    rw [hu]
    exact ht.opened ho
  refine ⟨fun _ _ => ends_bind ((ends_whenHeld huo (ends_closing hw.parentSock)).mono ?_), nofun⟩
  rintro r v ⟨rfl, hv⟩
  refine ⟨fun _ _ => ends_bind ((ends_whenHeld (hv.opened huo) ends_dropQuietly).mono ?_), nofun⟩
  rintro r x ⟨rfl, hx⟩
  have hxo := hx.opened (hv.opened huo)
  refine ⟨fun _ _ => ends_bind ((ends_unlink hw).mono ?_), nofun⟩
  rintro r y ⟨rfl, hy⟩
  refine ⟨fun _ _ => ends_update ⟨rfl, ?_, ?_, rfl, ?_⟩, nofun⟩
  · rw [hy]
    exact hxo
  · rw [hy, hx, hv, hu]
  · rw [hy, hx, hv, hu, ht]
    exact hs

lemma ends_noting {Q : Spawning → Prop} {failure : Failure} {operation : String}
    (h : Ends x s fun _ t => Q t.2) :
    Ends (noting failure operation x) s fun r t => (∃ e, r = .ok e) ∧ Q t.2 := by
  refine ends_tryCatch (ends_bind (h.mono fun r t hq => ⟨fun _ _ => ?_, fun e _ => ?_⟩))
  · exact ends_pure ⟨fun a _ => ⟨⟨a, rfl⟩, hq⟩, nofun⟩
  · exact ⟨nofun, fun e _ => ends_pure ⟨⟨_, rfl⟩, hq⟩⟩

lemma ends_noting_throw {A : Type} {Q : Spawning → Prop} {failure : Failure} {operation : String}
    (h : Ends x s fun _ t => Q t.2) :
    Ends (do let e ← noting failure operation x; throw e : Action A) s
      fun r t => (∃ e, r = .error e) ∧ Q t.2 := by
  refine ends_bind ((ends_noting h).mono ?_)
  rintro r t ⟨⟨e, rfl⟩, hq⟩
  exact ⟨fun e _ => ends_throw ⟨⟨e, rfl⟩, hq⟩, nofun⟩

lemma ends_shield {Q : Spawning → Prop} (h : Ends x (none, s.2) fun _ t => Q t.2) :
    Ends (shieldCleanup x) s fun _ t => Q t.2 := by
  refine ends_bind (ends_read ⟨fun _ _ => ends_bind (ends_spawn (h.mono fun q t hq => ⟨fun q' hq' => ?_, nofun⟩)), nofun⟩)
  cases hq'
  have hraise : ∀ e : Failure, ∀ u : Option ℕ × Spawning, Q u.2 → Ends (if e.isCancelled then do
      let cancellation ← noting e "cancelled operation" (join q)
      throw cancellation
    else throw e : Action Unit) u fun _ t => Q t.2 := by
    intro e u hu
    split_ifs
    · exact (ends_noting_throw (ends_join (Q := fun _ t => Q t.2) hu)).mono fun _ _ hh => hh.2
    · exact ends_throw hu
  exact ends_tryCatch (ends_await (ends_join ⟨fun _ => ⟨nofun, fun e _ => hraise e _ hq⟩,
    fun _ => ⟨fun _ _ => hq, fun e _ => hraise e _ hq⟩⟩))

lemma ends_spawnProcess (hw : w.Cleans) (hs : Clean s.2) : Ends (spawnProcess w) s fun r t =>
    (r = .ok () → Alive t.2 ∧ t.2.opened = s.2.opened) ∧ ∀ e, r = .error e → Clean t.2 := by
  refine ends_bind (ends_read ⟨fun u hu => ?_, nofun⟩)
  cases hu
  have hspawn : Ends (do
      call w .posixSpawn
      update fun s => { s with child := true } : Action Unit) (none, s.2) fun r t =>
      (r = .ok () → t.2 = { s.2 with child := true, calls := t.2.calls }) ∧
        ∀ e, r = .error e → Same s.2 t.2 :=
    ends_bind (ends_call.mono fun r t ht => ⟨fun _ _ => ends_update ⟨fun _ => by rw [ht], nofun⟩,
      fun e _ => ⟨nofun, fun _ _ => ht⟩⟩)
  refine ends_bind (ends_spawn (hspawn.mono fun q t hq => ⟨fun q' hq' => ?_, nofun⟩))
  cases hq'
  -- a child that the cancelled caller has not named yet is named and discarded
  have hrest : ∀ u : Option ℕ × Spawning, u.2 = t.2 → Ends (do
      join q
      update fun s => { s with pid := true }
      shieldCleanup (discardSpawnedChild w) : Action Unit) u fun _ v => Clean v.2 := by
    intro u hu
    refine ends_bind (ends_join ⟨fun _ hok => ends_bind (ends_update ⟨fun _ _ => ends_shield ?_, nofun⟩), fun e he => ?_⟩)
    · have ht := hq.1 hok
      refine (ends_discardSpawnedChild hw ?_ rfl ?_).mono fun _ _ hh => hh.2
      · rw [hu, ht]
        exact hs.opened
      · rw [hu, ht]
        exact hs.slot
    · rw [hu]
      exact (hq.2 e he).clean hs
  have hraise : ∀ (e : Failure) (u : Option ℕ × Spawning), u.2 = t.2 →
      (e.isCancelled = true ∨ Clean t.2) → Ends (if e.isCancelled then do
        let cancellation ← noting e "cancelled process spawn" (do
          join q
          update fun s => { s with pid := true }
          shieldCleanup (discardSpawnedChild w))
        throw cancellation
      else throw e : Action Unit) u fun r v => (∃ f, r = .error f) ∧ Clean v.2 := by
    intro e u hu he
    split_ifs with hc
    · exact ends_noting_throw (hrest u hu)
    · exact ends_throw ⟨⟨e, rfl⟩, hu ▸ he.resolve_left hc⟩
  have hfails : ∀ (r : Except Failure Unit) (v : Option ℕ × Spawning), (∃ f, r = .error f) ∧ Clean v.2 →
      (r = .ok () → Alive v.2 ∧ v.2.opened = s.2.opened) ∧ ∀ e, r = .error e → Clean v.2 := by
    rintro r v ⟨⟨f, rfl⟩, hv⟩
    exact ⟨nofun, fun _ _ => hv⟩
  refine ends_tryCatch (ends_bind (ends_await (ends_join ⟨fun _ => ⟨nofun, fun e he => ⟨nofun, fun f hf => ?_⟩⟩,
    fun _ => ⟨fun _ hok => ends_update ⟨fun _ _ => ⟨fun _ => ?_, nofun⟩, nofun⟩, fun e he => ⟨nofun, fun f hf => ?_⟩⟩⟩)))
  · cases he
    cases hf
    exact (hraise cancelledError (none, t.2) rfl (Or.inl rfl)).mono hfails
  · have ht := hq.1 hok
    rw [ht]
    exact ⟨⟨hs.opened, rfl, rfl, hs.slot⟩, rfl⟩
  · cases hf
    exact (hraise e (s.1, t.2) rfl (Or.inr ((hq.2 e he).clean hs))).mono hfails

lemma ends_confirmSpawn (hw : w.Cleans) (hs : Alive s.2) : Ends (confirmSpawn w) s fun r t =>
    (r = .ok () → Alive t.2 ∧ t.2.opened = s.2.opened) ∧ ∀ e, r = .error e → Clean t.2 := by
  refine ends_tryCatch (ends_checkpoint.mono fun r t ht => ⟨fun _ _ => ⟨fun _ => ?_, nofun⟩, fun e _ => ?_⟩)
  · rw [ht]
    exact ⟨⟨hs.opened, hs.child, hs.pid, hs.slot⟩, rfl⟩
  · have hdiscard : Ends (shieldCleanup (discardSpawnedChild w)) t fun _ u => Clean u.2 := by
      refine ends_shield ((ends_discardSpawnedChild hw ?_ ?_ ?_).mono fun _ _ hh => hh.2)
      · rw [ht]
        exact hs.opened
      · rw [ht]
        exact hs.pid
      · rw [ht]
        exact hs.slot
    refine (ends_noting_throw hdiscard).mono ?_
    rintro q u ⟨⟨f, rfl⟩, hu⟩
    exact ⟨nofun, fun _ _ => hu⟩

structure Shuts (hs : Finset Handle) (s t : Spawning) : Prop where
  opened : t.opened = s.opened \ hs
  held : t.held = s.held
  beat : t.beat = s.beat
  child : t.child = s.child
  pid : t.pid = s.pid
  slot : t.slot = s.slot

lemma Shuts.refl (s : Spawning) : Shuts ∅ s s := ⟨(Finset.sdiff_empty).symm, rfl, rfl, rfl, rfl, rfl⟩

lemma Shuts.trans {s t u : Spawning} (h : Shuts hs s t) (h' : Shuts hs' t u) : Shuts (hs ∪ hs') s u := by
  refine ⟨?_, h'.held.trans h.held, h'.beat.trans h.beat, h'.child.trans h.child, h'.pid.trans h.pid,
    h'.slot.trans h.slot⟩
  rw [h'.opened, h.opened, sdiff_sdiff_left, Finset.sup_eq_union]

lemma Shuts.safe {s t : Spawning} (h : Shuts hs s t) (ho : s.opened ⊆ s.held) : t.opened ⊆ t.held := by
  rw [h.opened, h.held]
  exact Finset.sdiff_subset.trans ho

lemma ends_shut {h : Handle} (ho : s.2.opened ⊆ s.2.held) (hx : Ends x s fun r t => r = .ok () ∧
      t.2 = { s.2 with opened := s.2.opened.erase h, calls := t.2.calls }) :
    Ends (whenHeld h x) s fun r t => r = .ok () ∧ Shuts {h} s.2 t.2 := by
  refine ends_bind (ends_read ⟨fun u hu => ?_, nofun⟩)
  cases hu
  split_ifs with hh
  · refine hx.mono fun r t ht => ⟨ht.1, ?_⟩
    rw [ht.2]
    exact ⟨Finset.erase_eq _ _, rfl, rfl, rfl, rfl, rfl⟩
  · refine ends_pure ⟨rfl, ?_, rfl, rfl, rfl, rfl, rfl⟩
    rw [Finset.sdiff_singleton_eq_erase, Finset.erase_eq_of_notMem fun hm => hh (ho hm)]

lemma ends_closeEnds (hs : List Handle) (ho : s.2.opened ⊆ s.2.held) :
    Ends (hs.forM fun h => whenHeld h (closeQuietly w h)) s fun r t =>
      r = .ok () ∧ Shuts hs.toFinset s.2 t.2 := by
  induction hs generalizing s with
  | nil => exact ends_pure ⟨rfl, .refl s.2⟩
  | cons h hs ih =>
    refine ends_bind ((ends_shut ho ends_closeQuietly).mono ?_)
    rintro r t ⟨rfl, ht⟩
    refine ⟨fun _ _ => (ih (ht.safe ho)).mono fun r u hu => ⟨hu.1, ?_⟩, nofun⟩
    rw [List.toFinset_cons, Finset.insert_eq]
    exact ht.trans hu.2

lemma ends_closeSock {h : Handle} (hf : ∀ calls, w.fault calls (.close h) = none) :
    Ends (close w h) s fun r t => r = .ok () ∧
      t.2 = { s.2 with opened := s.2.opened.erase h, calls := t.2.calls } := by
  refine ends_bind (ends_update ⟨fun _ _ => ?_, nofun⟩)
  rw [Ends, call_eq, hf]
  exact ⟨rfl, rfl⟩

structure Finished (s t : Spawning) : Prop where
  child : t.child = s.child
  slot : t.slot = s.slot
  kept : s.pid = true → t.opened = s.opened ∩ owned ∧ t.beat = s.beat
  none : s.pid = false → t.opened = ∅ ∧ t.beat = false

lemma sdiff_childEnds (hs : Finset Handle) : hs \ (childEnds.toFinset ∪ {.childSock}) = hs ∩ owned := by
  ext h
  cases h <;> simp [childEnds, owned]

lemma sdiff_all (hs : Finset Handle) :
    hs \ (childEnds.toFinset ∪ {.childSock} ∪ ({.parentSock} ∪ ({.deathWriter} ∪ {.beatFd}))) = ∅ := by
  ext h
  cases h <;> simp [childEnds]

lemma ends_finish (hw : w.Cleans) (ho : s.2.opened ⊆ s.2.held) : Ends (finish w) s fun r t =>
    r = .ok () ∧ Finished s.2 t.2 := by
  refine ends_bind ((ends_closeEnds childEnds ho).mono ?_)
  rintro r t ⟨rfl, ht⟩
  refine ⟨fun _ _ => ends_bind ((ends_shut (ht.safe ho) (ends_closeSock hw.childSock)).mono ?_), nofun⟩
  rintro r u ⟨rfl, hu⟩
  refine ⟨fun _ _ => ends_bind (ends_read ⟨fun v hv => ?_, nofun⟩), nofun⟩
  cases hv
  have hends := ht.trans hu
  have huo := hends.safe ho
  cases hp : s.2.pid with
  | true =>
    rw [hends.pid, hp]
    refine ends_pure ⟨rfl, hends.child, hends.slot, fun _ => ⟨?_, hends.beat⟩, by simp [hp]⟩
    rw [hends.opened, sdiff_childEnds]
  | false =>
    rw [hends.pid, hp]
    refine ends_bind ((ends_shut huo (ends_closeSock hw.parentSock)).mono ?_)
    rintro r v ⟨rfl, hv⟩
    refine ⟨fun _ _ => ends_bind ((ends_shut (hv.safe huo) ends_closeQuietly).mono ?_), nofun⟩
    rintro r x ⟨rfl, hx⟩
    refine ⟨fun _ _ => ends_bind ((ends_shut (hx.safe (hv.safe huo)) ends_closeQuietly).mono ?_), nofun⟩
    rintro r y ⟨rfl, hy⟩
    have hall := hends.trans (hv.trans (hx.trans hy))
    refine ⟨fun _ _ => ends_bind ((ends_unlink hw).mono ?_), nofun⟩
    rintro r z ⟨rfl, hz⟩
    refine ⟨fun _ _ => ends_update ⟨rfl, ?_, ?_, by simp [hp], fun _ => ⟨?_, rfl⟩⟩, nofun⟩
    · rw [hz]
      exact hall.child
    · rw [hz]
      exact hall.slot
    · rw [hz]
      exact hall.opened.trans (sdiff_all _)

lemma ends_body (hw : w.Cleans) (hs : Clean s.2) (config : List UInt8) :
    Ends (tryCatch (do
        prepare w config
        spawnProcess w
        confirmSpawn w
        pure none : Action (Option Failure)) fun e => if e.ordinary then pure (some e) else throw e) s
      fun r t => (r = .ok none ∧ Alive t.2 ∧ owned ⊆ t.2.opened) ∨ r ≠ .ok none ∧ Clean t.2 := by
  have hfail : ∀ (e : Failure) (t : Option ℕ × Spawning), Clean t.2 →
      Ends (if e.ordinary then pure (some e) else throw e : Action (Option Failure)) t fun r t =>
        (r = .ok none ∧ Alive t.2 ∧ owned ⊆ t.2.opened) ∨ r ≠ .ok none ∧ Clean t.2 := by
    intro e t ht
    split_ifs
    · exact ends_pure (Or.inr ⟨by simp, ht⟩)
    · exact ends_throw (Or.inr ⟨by simp, ht⟩)
  refine ends_tryCatch (ends_bind ((grows_prepare config s hs).mono fun r t ⟨ht, _, hopen⟩ =>
    ⟨fun _ hr => ?_, fun e _ => ⟨nofun, fun f _ => hfail f t ht⟩⟩))
  refine ends_bind ((ends_spawnProcess hw ht).mono fun q u ⟨hok, herr⟩ =>
    ⟨fun _ hq => ?_, fun e he => ⟨nofun, fun f _ => hfail f u (herr e he)⟩⟩)
  obtain ⟨hu, huo⟩ := hok hq
  refine ends_bind ((ends_confirmSpawn hw hu).mono fun q v ⟨hok, herr⟩ =>
    ⟨fun _ hq => ?_, fun e he => ⟨nofun, fun f _ => hfail f v (herr e he)⟩⟩)
  obtain ⟨hv, hvo⟩ := hok hq
  refine ends_pure ⟨fun a ha => Or.inl ?_, nofun⟩
  cases ha
  refine ⟨rfl, hv, fun h hm => ?_⟩
  rw [hvo, huo]
  exact hopen hr h hm hm

lemma ends_register (hk : Kept s.2) (hs : s.2.slot = .absent) :
    Ends (do register w; pure none : Action (Option Failure)) s fun r t => Accounted w r t.2 := by
  refine ends_bind (ends_bind (ends_call_fault.mono fun r t ⟨ht, hfault⟩ => ⟨fun _ _ => ?_, fun e he => ?_⟩))
  · refine ends_bind (ends_update ⟨fun _ _ => ?_, nofun⟩)
    refine ends_bind (ends_checkpoint_fault.mono fun q u ⟨hu, hfault⟩ => ⟨fun _ _ => ?_, fun e he => ?_⟩)
    · refine ends_update ⟨fun _ _ => ends_pure (.spawned rfl ?_), nofun⟩
      rw [hu, ht]
      exact hk
    · refine ⟨nofun, fun f hf => ?_⟩
      cases hf
      refine .unread ?_ ?_ (hfault e he)
      · rw [hu]
      · rw [hu, ht]
        exact hk
  · refine ⟨nofun, fun f hf => ?_⟩
    cases hf
    refine .loose ?_ ?_ (hfault e he)
    · rw [ht]
      exact hs
    · rw [ht]
      exact hk

end Steps

/-- A spawn leaks no descriptor, no process and no file, whichever call fails and wherever it is cancelled, as long
as its cleanup succeeds; only the registration of its child leaves what it has raised over. -/
theorem spawn_leaks_nothing {w : World} (hw : w.Cleans) (text : String) (cancelled : Option ℕ) :
    Ends (spawnEffect w text) (cancelled, {}) fun r t => Accounted w r t.2 := by
  have hclean : Clean ({} : Spawning) := ⟨Finset.Subset.refl _, rfl, rfl, rfl⟩
  rw [spawnEffect]
  split_ifs with hsize
  · exact ends_bind (ends_throw ⟨nofun, fun e _ => .undone (by simp) rfl rfl rfl rfl⟩)
  refine ends_bind (ends_always ((ends_body hw hclean _).mono fun r t ht => ?_))
  rcases ht with ⟨rfl, ht, howned⟩ | ⟨hr, ht⟩
  · refine (ends_finish hw ht.opened).mono ?_
    rintro q u ⟨rfl, hu⟩
    refine ⟨fun _ => ⟨fun fault hf => ?_, nofun⟩, nofun⟩
    cases hf
    refine ends_register ⟨?_, hu.child.trans ht.child⟩ (hu.slot.trans ht.slot)
    rw [(hu.kept ht.pid).1, Finset.inter_eq_right.mpr howned]
  · refine (ends_finish hw ht.opened).mono ?_
    rintro q u ⟨rfl, hu⟩
    have hnone := hu.none ht.pid
    have hgone : ∀ r : Except Failure (Option Failure), r ≠ .ok none → Accounted w r u.2 := fun r hr =>
      .undone hr (hu.slot.trans ht.slot) hnone.1 (hu.child.trans ht.child) hnone.2
    refine ⟨fun _ => ⟨fun fault hf => ?_, fun e _ => hgone _ (by simp)⟩, nofun⟩
    cases fault with
    | none => exact absurd hf hr
    | some e => exact ends_pure (hgone _ (by simp))

/-- The hook after the spawn fails, and its caller is cancelled while the child is discarded. -/
def lateFault : World where
  fault := fun _ c => if c = .checkpoint .spawnedProcess then some osError else none
  injected := fun _ => .nothing
  takes := fun _ => 8
  interrupts := fun _ => 1
  anonymousBeats := true

theorem spawn_leaks_nothing_late : Accounted lateFault (spawnEffect lateFault "\x7b\x7d" (some 26, {})).1
    (spawnEffect lateFault "\x7b\x7d" (some 26, {})).2.2 :=
  spawn_leaks_nothing ⟨fun _ => rfl, fun _ => rfl, by simp [lateFault], by simp [lateFault], fun _ => rfl⟩
    "\x7b\x7d" (some 26)

end Reaper.Pool.Spawn
