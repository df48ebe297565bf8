import Reaper.Library.Coroutine
import Reaper.Store.Statements

/-! Cleanup of a checked-out connection: it runs to its end under cancellation, which is raised
again afterwards. -/

namespace Reaper.Tasks

open Reaper.Library Reaper.Library.Coroutine

structure Failure where
  kind : String
  text : String
  notes : List String := []
  ordinary : Bool := true
  deriving DecidableEq, Repr

def cancelledError : Failure where
  kind := "asyncio.exceptions.CancelledError"
  text := ""
  ordinary := false

def Failure.isCancelled (e : Failure) : Bool := e.kind = cancelledError.kind

def transactionRequired : Failure where
  kind := "reaper.database.TransactionRequiredError"
  text := "this operation requires an explicit transaction connection"

inductive Call
  | acquire | transaction | start | isInTransaction | claim | commit | rollback | isClosed
  | terminate | release
  deriving DecidableEq, Repr

/-- The awaits of the task that owns a claim. Each is reached at most once. -/
inductive Await
  | acquire | release | start | claim | submissions | close
  deriving DecidableEq, Repr

structure TaskExecution where
  task : Store.ClaimedTask
  finished : Bool := false
  submitting : Bool := false
  pendingSubmissions : ℕ := 0
  deriving DecidableEq, Repr

structure TaskClaim where
  calls : List Call := []
  /-- the pool has handed out a connection -/
  acquired : Bool := false
  connection : Bool := false
  execution : Option TaskExecution := none
  deriving DecidableEq, Repr

structure World where
  fault : List Call → Call → Option Failure
  closable : Bool
  isClosed : List Call → Bool
  isInTransaction : List Call → Bool
  claimed : Except Failure (Option Store.ClaimedTask)

abbrev Action := Coroutine Await Failure TaskClaim

def call (w : World) (c : Call) : Action Unit := do
  let s ← read
  update fun s => { s with calls := s.calls ++ [c] }
  match w.fault s.calls c with
  | some e => throw e
  | none => pure ()

def noteCleanupFailure (failure cleanup : Failure) (operation : String) : Failure :=
  { failure with notes := failure.notes ++
      [operation ++ " cleanup also failed with " ++ cleanup.kind ++ ": " ++ cleanup.text] }

def noting (failure : Failure) (operation : String) (cleanup : Action Unit) : Action Failure :=
  tryCatch (do cleanup; pure failure) fun e => pure (noteCleanupFailure failure e operation)

def shieldCleanup (p : Await) (operation : Action Unit) : Action Unit := do
  let cleanup ← spawn operation
  tryCatch (await cancelledError p (join cleanup)) fun e =>
    if e.isCancelled then do
      let cancellation ← noting e "cancelled operation" (join cleanup)
      throw cancellation
    else throw e

/-- A closed connection is terminated before it is returned. -/
def terminateClosed (w : World) : Action Unit := do
  if w.closable then
    let s ← read
    call w .isClosed
    if w.isClosed s.calls then call w .terminate

def releaseConnection (w : World) : Action Unit := do
  tryCatch (terminateClosed w) fun failure => do
    let failure ← noting failure "connection release" (shieldCleanup .release (call w .release))
    throw failure
  shieldCleanup .release (call w .release)

/-- Ask the connection, and take an ordinary failure for a no. -/
def inTransaction (w : World) : Action Bool := do
  let s ← read
  tryCatch (do call w .isInTransaction; pure (w.isInTransaction s.calls)) fun e =>
    if e.ordinary then pure false else throw e

def finishTransaction (w : World) (commit : Bool) : Action Unit := do
  tryCatch (if commit then call w .commit else do
    let active ← inTransaction w
    if active then call w .rollback) fun failure => do
      let failure ← noting failure "transaction release" (releaseConnection w)
      throw failure
  releaseConnection w

section Effects

variable {w : World} {s t u : Option Await × TaskClaim}

/-- A cancellation is delivered, or stays due. One that is due while pending submissions are
cancelled stays due in all other code. -/
def Due (c d : Option Await) : Prop := d = c ∨ d = none ∧ c ≠ some .submissions

lemma Due.trans {c d e : Option Await} (h : Due c d) (h' : Due d e) : Due c e := by
  rcases h with rfl | ⟨rfl, hne⟩
  · exact h'
  · exact Or.inr ⟨h'.elim (fun h => h) And.left, hne⟩

structure Effect (releases : ℕ) (commits : Bool) (s t : Option Await × TaskClaim) : Prop where
  due : Due s.1 t.1
  released : t.2.calls.count .release = s.2.calls.count .release + releases
  committed : commits = false → t.2.calls.count .commit = s.2.calls.count .commit
  acquired : t.2.acquired = s.2.acquired
  connection : t.2.connection = s.2.connection
  execution : t.2.execution = s.2.execution

lemma Effect.refl (s : Option Await × TaskClaim) : Effect 0 false s s :=
  ⟨Or.inl rfl, rfl, fun _ => rfl, rfl, rfl, rfl⟩

lemma Effect.trans {m n : ℕ} {b : Bool} (h : Effect m b s t) (h' : Effect n b t u) :
    Effect (m + n) b s u := by
  refine ⟨h.due.trans h'.due, ?_, fun hb => (h'.committed hb).trans (h.committed hb),
    h'.acquired.trans h.acquired, h'.connection.trans h.connection, h'.execution.trans h.execution⟩
  rw [h'.released, h.released, Nat.add_assoc]

lemma Effect.mayCommit {n : ℕ} (h : Effect n false s t) (b : Bool) : Effect n b s t :=
  { h with committed := fun _ => h.committed rfl }

lemma call_eq (w : World) (c : Call) (s : Option Await × TaskClaim) :
    call w c s = ((match w.fault s.2.calls c with
      | some e => .error e
      | none => .ok ()), s.1, { s.2 with calls := s.2.calls ++ [c] }) := by
  have hrun : call w c s = (match w.fault s.2.calls c with
      | some e => throw e
      | none => pure () : Action Unit) (s.1, { s.2 with calls := s.2.calls ++ [c] }) := rfl
  rw [hrun]
  cases w.fault s.2.calls c <;> rfl

lemma ends_call (c : Call) : Ends (call w c) s fun _ t =>
    Effect (if c = .release then 1 else 0) (c = .commit) s t := by
  rw [Ends]
  rw [call_eq]
  refine ⟨Or.inl rfl, ?_, fun hc => ?_, rfl, rfl, rfl⟩
  · cases c <;> simp [List.count_append]
  · cases c <;> simp_all [List.count_append]

lemma ends_noting {failure : Failure} {operation : String} {x : Action Unit} {n : ℕ}
    (h : Ends x s fun _ t => Effect n false s t) :
    Ends (noting failure operation x) s fun r t => (∃ e, r = .ok e) ∧ Effect n false s t := by
  refine ends_tryCatch (ends_bind (h.mono fun r t he => ⟨fun _ _ => ?_, fun e _ => ?_⟩))
  · exact ends_pure ⟨fun a _ => ⟨⟨a, rfl⟩, he⟩, nofun⟩
  · exact ⟨nofun, fun e _ => ends_pure ⟨⟨_, rfl⟩, he⟩⟩

lemma ends_noting_throw {A : Type} {failure : Failure} {operation : String} {x : Action Unit}
    {n : ℕ} (h : Ends x s fun _ t => Effect n false s t) :
    Ends (do let e ← noting failure operation x; throw e : Action A) s
      fun r t => (∃ e, r = .error e) ∧ Effect n false s t := by
  refine ends_bind ((ends_noting h).mono ?_)
  rintro r t ⟨⟨e, rfl⟩, he⟩
  exact ⟨fun e _ => ends_throw ⟨⟨e, rfl⟩, he⟩, nofun⟩

lemma ends_reraise {r : Except Failure Unit} (e : Failure) :
    Ends (if e.isCancelled then do
      let cancellation ← noting e "cancelled operation" (join r)
      throw cancellation
    else throw e : Action Unit) s fun r t => (∃ e, r = .error e) ∧ t = s := by
  split_ifs
  · refine ends_bind (ends_tryCatch (ends_bind (ends_join ⟨fun _ _ => ?_, fun f _ => ?_⟩)))
    · exact ends_pure ⟨fun f _ => ⟨fun f _ => ends_throw ⟨⟨f, rfl⟩, rfl⟩, nofun⟩, nofun⟩
    · exact ⟨nofun, fun f _ => ends_pure ⟨fun f _ => ends_throw ⟨⟨f, rfl⟩, rfl⟩, nofun⟩⟩
  · exact ends_throw ⟨⟨e, rfl⟩, rfl⟩

lemma ends_shieldCleanup {p : Await} {x : Action Unit} {Q : Except Failure Unit → TaskClaim → Prop}
    (h : Ends x (none, s.2) fun r t => Q r t.2) :
    Ends (shieldCleanup p x) s fun r t => ∃ q, Q q t.2 ∧
      (t.1 = if s.1 = some p then none else s.1) ∧
      (r = .ok () ↔ q = .ok () ∧ s.1 ≠ some p) := by
  refine ends_bind (ends_spawn (h.mono fun q t hq => ⟨fun q' hq' => ?_, nofun⟩))
  cases hq'
  refine ends_tryCatch (ends_await (ends_join ⟨fun hd => ⟨nofun, fun e _ => ?_⟩,
    fun hd => ⟨fun a ha => ?_, fun e he => ?_⟩⟩))
  · refine (ends_reraise e).mono ?_
    rintro r u ⟨⟨f, rfl⟩, rfl⟩
    exact ⟨q, hq, (if_pos hd).symm, nofun, fun h => absurd hd h.2⟩
  · exact ⟨q, hq, (if_neg hd).symm, by simp [ha, hd]⟩
  · refine (ends_reraise e).mono ?_
    rintro r u ⟨⟨f, rfl⟩, rfl⟩
    exact ⟨q, hq, (if_neg hd).symm, by simp [he]⟩

lemma ends_shielded {p : Await} {x : Action Unit} {n : ℕ} {b : Bool} (hp : p ≠ .submissions)
    (h : Ends x (none, s.2) fun _ t => Effect n b (none, s.2) t) :
    Ends (shieldCleanup p x) s fun _ t => Effect n b s t := by
  have hnone : Ends x (none, s.2) fun _ t => Effect n b (none, s.2) (none, t.2) :=
    h.mono fun r t ht => { ht with due := Or.inl rfl }
  refine (ends_shieldCleanup (Q := fun _ c => Effect n b (none, s.2) (none, c)) hnone).mono ?_
  rintro r t ⟨q, hq, hdue, -⟩
  refine { hq with due := ?_ }
  split_ifs at hdue with hs
  · exact Or.inr ⟨hdue, fun h => hp (Option.some.inj (hs.symm.trans h))⟩
  · exact Or.inl hdue

lemma ends_terminateClosed : Ends (terminateClosed w) s fun _ t => Effect 0 false s t := by
  rw [terminateClosed]
  split_ifs
  · refine ends_bind (ends_read ⟨fun c _ => ?_, nofun⟩)
    refine ends_bind ((ends_call .isClosed).mono fun r t ht => ⟨fun _ _ => ?_, fun _ _ => ht⟩)
    split_ifs
    · exact (ends_call .terminate).mono fun r u hu => ht.trans hu
    · exact ends_pure ht
  · exact ends_pure (.refl s)

lemma ends_release (s : Option Await × TaskClaim) :
    Ends (shieldCleanup .release (call w .release)) s fun _ t => Effect 1 false s t :=
  ends_shielded (by decide) (ends_call .release)

lemma ends_releaseConnection (w : World) (s : Option Await × TaskClaim) :
    Ends (releaseConnection w) s fun _ t => Effect 1 false s t := by
  refine ends_bind (ends_tryCatch (ends_terminateClosed.mono fun r t ht =>
    ⟨fun _ _ => ⟨fun _ _ => ?_, nofun⟩, fun e _ => (ends_noting_throw (ends_release t)).mono ?_⟩))
  · exact (ends_release t).mono fun r u hu => ht.trans hu
  · rintro r u ⟨⟨f, rfl⟩, hu⟩
    exact ⟨nofun, fun f _ => ht.trans hu⟩

lemma ends_inTransaction : Ends (inTransaction w) s fun _ t => Effect 0 false s t := by
  refine ends_bind (ends_read ⟨fun c _ => ends_tryCatch (ends_bind
    ((ends_call .isInTransaction).mono fun r t ht => ⟨fun _ _ => ?_, fun e _ => ?_⟩)), nofun⟩)
  · exact ends_pure ⟨fun _ _ => ht, nofun⟩
  · refine ⟨nofun, fun e _ => ?_⟩
    split_ifs
    · exact ends_pure ht
    · exact ends_throw ht

lemma ends_finishTransaction (w : World) (commit : Bool) (s : Option Await × TaskClaim) :
    Ends (finishTransaction w commit) s fun _ t => Effect 1 commit s t := by
  have hfinish : Ends (if commit then call w .commit else do
      let active ← inTransaction w
      if active then call w .rollback : Action Unit) s fun _ t => Effect 0 commit s t := by
    split_ifs with hc
    · rw [hc]
      exact ends_call .commit
    · refine (ends_bind (ends_inTransaction.mono fun r t ht => ⟨fun active _ => ?_, fun _ _ => ?_⟩))
      · split_ifs
        · exact (ends_call .rollback).mono fun r u hu => (ht.trans hu).mayCommit commit
        · exact ends_pure (ht.mayCommit commit)
      · exact ht.mayCommit commit
  refine ends_bind (ends_tryCatch (hfinish.mono fun r t ht => ⟨fun _ _ => ⟨fun _ _ => ?_, nofun⟩,
    fun e _ => (ends_noting_throw (ends_releaseConnection w t)).mono ?_⟩))
  · exact (ends_releaseConnection w t).mono fun r u hu => ht.trans (hu.mayCommit commit)
  · rintro r u ⟨⟨f, rfl⟩, hu⟩
    exact ⟨nofun, fun f _ => ht.trans (hu.mayCommit commit)⟩

end Effects

end Reaper.Tasks
