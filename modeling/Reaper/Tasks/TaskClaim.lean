import Reaper.Tasks.Cleanup

/-! A task claim as an async context manager: acquire a connection, start a transaction, claim a
task, run the body, and give the connection back. -/

namespace Reaper.Tasks

open Reaper.Library Reaper.Library.Coroutine

structure Body where
  raised : Option Failure
  finished : Bool
  submitting : Bool := false
  pendingSubmissions : ℕ := 0

variable (w : World)

def requireTransaction : Action Unit := do
  let s ← read
  call w .isInTransaction
  if w.isInTransaction s.calls then pure () else throw transactionRequired

def claimTask : Action (Option Store.ClaimedTask) := do
  requireTransaction w
  call w .claim
  join w.claimed

/-- Finish and release a claim even while its caller is being cancelled. -/
def closeConnection (commit : Bool) : Action Unit := shieldCleanup .close (finishTransaction w commit)

def setConnection (connection : Bool) : Action Unit := update fun s => { s with connection := connection }

def acquire : Action Unit := do
  await cancelledError .acquire (call w .acquire)
  update fun s => { s with acquired := true }

def openClaim : Action (Option Store.ClaimedTask) := do
  await cancelledError .start (call w .start)
  setConnection true
  await cancelledError .claim (claimTask w)

def aenter : Action (Option TaskExecution) := do
  acquire w
  tryCatch (call w .transaction) fun error => do
    let error ← noting error "task transaction construction" (releaseConnection w)
    throw error
  let task ← tryCatch (openClaim w) fun error => do
    let error ← noting error "task claim" (closeConnection w false)
    setConnection false
    throw error
  match task with
  | none => do
    closeConnection w false
    setConnection false
    pure none
  | some task => do
    let execution : TaskExecution := { task := task }
    update fun s => { s with execution := some execution }
    pure (some execution)

def cancelSubmissions : Action Unit := update fun s =>
  { s with execution := s.execution.map fun e => { e with submitting := false, pendingSubmissions := 0 } }

def aexit (value : Option Failure) : Action (Option Failure) := do
  let s ← read
  if s.connection then
    let commit := value.isNone && s.execution.any TaskExecution.finished
    always (tryCatch (do
      if s.execution.isSome then shieldCleanup .submissions cancelSubmissions
      closeConnection w commit
      pure value) fun cleanup =>
        match value with
        | none => throw cleanup
        | some failure => pure (some (noteCleanupFailure failure cleanup "task claim")))
      (setConnection false)
  else pure value

def runBody (b : Body) : Action (Option Failure) := do
  update fun s => { s with execution := s.execution.map fun e => { e with
    finished := b.finished
    submitting := b.submitting
    pendingSubmissions := b.pendingSubmissions } }
  pure b.raised

def withClaim (b : Body) : Action Unit := do
  let _ ← aenter w
  let raised ← runBody b
  let raised ← aexit w raised
  match raised with
  | some failure => throw failure
  | none => pure ()

def Released (c : TaskClaim) : Prop := c.calls.count .release = if c.acquired then 1 else 0

def CommitsOutcome (b : Body) (c : TaskClaim) : Prop :=
  .commit ∈ c.calls → b.raised = none ∧ c.execution.any TaskExecution.finished = true

section Enter

variable {w} {s t u : Option Await × TaskClaim}

structure Quiet (s t : Option Await × TaskClaim) : Prop where
  due : Due s.1 t.1
  released : t.2.calls.count .release = s.2.calls.count .release
  committed : t.2.calls.count .commit = s.2.calls.count .commit
  acquired : t.2.acquired = s.2.acquired
  execution : t.2.execution = s.2.execution

lemma Quiet.trans (h : Quiet s t) (h' : Quiet t u) : Quiet s u :=
  ⟨h.due.trans h'.due, h'.released.trans h.released, h'.committed.trans h.committed,
    h'.acquired.trans h.acquired, h'.execution.trans h.execution⟩

lemma Effect.quiet (h : Effect 0 false s t) : Quiet s t :=
  ⟨h.due, h.released, h.committed rfl, h.acquired, h.execution⟩

lemma ends_call_quiet {c : Call} (hr : c ≠ .release) (hc : c ≠ .commit) :
    Ends (call w c) s fun _ t => Effect 0 false s t := by
  refine (ends_call c).mono fun r t ht => ?_
  rwa [if_neg hr, decide_eq_false hc] at ht

lemma ends_await_effect {A : Type} {p : Await} {x : Action A} (hp : p ≠ .submissions)
    (h : Ends x s fun _ t => Effect 0 false s t) :
    Ends (await cancelledError p x) s fun _ t => Effect 0 false s t := by
  refine ends_await (h.mono fun r t ht => ⟨fun hd => { ht with due := Or.inr ⟨rfl, fun hs => ?_⟩ },
    fun _ => ht⟩)
  rcases ht.due with hts | ⟨-, hne⟩
  · exact hp (Option.some.inj (hd.symm.trans (hts.trans hs)))
  · exact hne hs

lemma ends_claimTask : Ends (claimTask w) s fun _ t => Effect 0 false s t := by
  refine ends_bind (ends_bind (ends_read ⟨fun c _ => ?_, nofun⟩))
  refine ends_bind ((ends_call_quiet (by decide) (by decide)).mono fun r t ht =>
    ⟨fun _ _ => ?_, fun _ _ => ⟨nofun, fun _ _ => ht⟩⟩)
  split_ifs
  · refine ends_pure ⟨fun _ _ => ends_bind ((ends_call_quiet (by decide) (by decide)).mono
      fun r u hu => ⟨fun _ _ => ends_join (ht.trans hu), fun _ _ => ht.trans hu⟩), nofun⟩
  · exact ends_throw ⟨nofun, fun _ _ => ht⟩

lemma ends_openClaim : Ends (openClaim w) s fun r t =>
    Quiet s t ∧ ∀ a, r = .ok a → t.2.connection = true := by
  refine ends_bind ((ends_await_effect (by decide) (ends_call_quiet (by decide) (by decide))).mono
    fun r t ht => ⟨fun _ _ => ?_, fun _ _ => ⟨ht.quiet, nofun⟩⟩)
  refine ends_bind (ends_update ⟨fun _ _ => ?_, nofun⟩)
  refine (ends_await_effect (by decide) ends_claimTask).mono fun r u hu => ⟨?_, fun _ _ => hu.connection⟩
  have hset : Quiet t (t.1, { t.2 with connection := true }) := ⟨Or.inl rfl, rfl, rfl, rfl, rfl⟩
  exact ht.quiet.trans (hset.trans hu.quiet)

lemma ends_closeConnection (commit : Bool) (s : Option Await × TaskClaim) :
    Ends (closeConnection w commit) s fun _ t => Effect 1 commit s t :=
  ends_shielded (by decide) (ends_finishTransaction w commit (none, s.2))

def Entered (r : Except Failure (Option TaskExecution)) (c : TaskClaim) : Prop :=
  match r with
  | .ok (some x) => c.connection = true ∧ c.execution = some x ∧ c.acquired = true ∧
      c.calls.count .release = 0
  | .ok none => c.connection = false ∧ Released c
  | .error _ => Released c

lemma Released.once {c : TaskClaim} (ha : c.acquired = true) (hc : c.calls.count .release = 1) :
    Released c := by
  rw [Released, ha, hc]
  rfl

lemma ends_aenter_transaction (hs : s.2.acquired = true) (hr : s.2.calls.count .release = 0) :
    Ends (tryCatch (call w .transaction) fun error => do
      let error ← noting error "task transaction construction" (releaseConnection w)
      throw error : Action Unit) s fun r t => Due s.1 t.1 ∧
        t.2.calls.count .commit = s.2.calls.count .commit ∧ t.2.execution = s.2.execution ∧
        t.2.acquired = true ∧ (∀ a, r = .ok a → t.2.calls.count .release = 0) ∧
        ∀ e, r = .error e → Released t.2 := by
  refine ends_tryCatch ((ends_call_quiet (by decide) (by decide)).mono fun r t ht =>
    ⟨fun _ _ => ?_, fun e _ => (ends_noting_throw (ends_releaseConnection w t)).mono ?_⟩)
  · exact ⟨ht.due, ht.committed rfl, ht.execution, ht.acquired.trans hs,
      fun _ _ => ht.released.trans hr, nofun⟩
  · rintro r u ⟨⟨f, rfl⟩, hu⟩
    have hut := ht.trans hu
    refine ⟨hut.due, hut.committed rfl, hut.execution, hut.acquired.trans hs, nofun, fun _ _ => ?_⟩
    exact .once (hut.acquired.trans hs) (by rw [hut.released, hr])

lemma ends_aenter_claim (hs : s.2.acquired = true) (hr : s.2.calls.count .release = 0) :
    Ends (tryCatch (openClaim w) fun error => do
      let error ← noting error "task claim" (closeConnection w false)
      setConnection false
      throw error) s fun r t => Due s.1 t.1 ∧
        t.2.calls.count .commit = s.2.calls.count .commit ∧ t.2.acquired = true ∧
        (∀ a, r = .ok a → t.2.connection = true ∧ t.2.calls.count .release = 0) ∧
        ∀ e, r = .error e → Released t.2 := by
  refine ends_tryCatch (ends_openClaim.mono ?_)
  rintro r t ⟨ht, hconn⟩
  refine ⟨fun a ha => ?_, fun e _ => ?_⟩
  · exact ⟨ht.due, ht.committed, ht.acquired.trans hs,
      fun _ _ => ⟨hconn a ha, ht.released.trans hr⟩, nofun⟩
  · refine ends_bind ((ends_noting (ends_closeConnection false t)).mono ?_)
    rintro r u ⟨⟨f, rfl⟩, hu⟩
    refine ⟨fun f _ => ends_bind (ends_update ⟨fun _ _ => ends_throw ?_, nofun⟩), nofun⟩
    have hacq := hu.acquired.trans (ht.acquired.trans hs)
    refine ⟨ht.due.trans hu.due, (hu.committed rfl).trans ht.committed, hacq, nofun, fun _ _ => ?_⟩
    exact .once hacq (hu.released.trans (by rw [ht.released, hr]))

lemma ends_aenter (c : Option Await) : Ends (aenter w) (c, {}) fun r t =>
    Due c t.1 ∧ t.2.calls.count .commit = 0 ∧ Entered r t.2 := by
  -- acquire hands out a connection, or fails without one
  refine ends_bind (ends_bind ((ends_await_effect (by decide)
    (ends_call_quiet (by decide) (by decide))).mono fun r s hs =>
      ⟨fun _ _ => ends_update ⟨fun _ _ => ?_, nofun⟩, fun e _ => ⟨nofun, fun _ _ => ?_⟩⟩))
  swap
  · refine ⟨hs.due, hs.committed rfl, ?_⟩
    rw [Entered, Released, hs.released, hs.acquired]
    rfl
  refine ends_bind ((ends_aenter_transaction (s := (s.1, { s.2 with acquired := true })) rfl
    hs.released).mono ?_)
  rintro r t ⟨hdue, hcommit, hexec, hacq, hok, herr⟩
  refine ⟨fun a ha => ?_, fun e he => ⟨hs.due.trans hdue, hcommit.trans (hs.committed rfl), herr e he⟩⟩
  refine ends_bind ((ends_aenter_claim hacq (hok a ha)).mono ?_)
  rintro r u ⟨hdue', hcommit', hacq', hok', herr'⟩
  have hdue := hs.due.trans (hdue.trans hdue')
  have hcommit := hcommit'.trans (hcommit.trans (hs.committed rfl))
  refine ⟨fun task htask => ?_, fun e he => ⟨hdue, hcommit, herr' e he⟩⟩
  obtain ⟨hconn, hrel⟩ := hok' task htask
  cases task with
  | none =>
    refine ends_bind ((ends_closeConnection false u).mono fun r v hv => ?_)
    have hreleased : Released v.2 :=
      .once (hv.acquired.trans hacq') (by rw [hv.released, hrel])
    have hdue := hdue.trans hv.due
    have hcommit := (hv.committed rfl).trans hcommit
    refine ⟨fun _ _ => ends_bind (ends_update ⟨fun _ _ => ends_pure ?_, nofun⟩), fun _ _ => ?_⟩
    · exact ⟨hdue, hcommit, rfl, hreleased⟩
    · exact ⟨hdue, hcommit, hreleased⟩
  | some task =>
    exact ends_bind (ends_update ⟨fun _ _ => ends_pure ⟨hdue, hcommit, hconn, rfl, hacq', hrel⟩, nofun⟩)

end Enter

section Claims

def World.ClaimsAfter (calls : List Call) : Prop :=
  w.fault calls .isInTransaction = none ∧ w.isInTransaction calls = true ∧
    w.fault (calls ++ [.isInTransaction]) .claim = none ∧ ∃ task, w.claimed = .ok (some task)

def World.Claims : Prop :=
  w.fault [] .acquire = none ∧ w.fault [.acquire] .transaction = none ∧
    w.fault [.acquire, .transaction] .start = none ∧ w.ClaimsAfter [.acquire, .transaction, .start]

variable {w} {s : Option Await × TaskClaim}

lemma ends_call_iff (c : Call) : Ends (call w c) s fun r t =>
    t = (s.1, { s.2 with calls := s.2.calls ++ [c] }) ∧ (r = .ok () ↔ w.fault s.2.calls c = none) := by
  refine ends_of_eq (call_eq w c s) ⟨rfl, ?_⟩
  cases w.fault s.2.calls c <;> simp

lemma ends_await_submissions {A : Type} {p : Await} {x : Action A}
    {Q : Except Failure A → Option Await × TaskClaim → Prop} (hp : p ≠ .submissions)
    (h : Ends x s fun r t => t.1 = some .submissions ∧ Q r t) : Ends (await cancelledError p x) s Q :=
  ends_await (h.mono fun _ _ ht => ⟨fun hd => absurd (Option.some.inj (hd.symm.trans ht.1)) hp,
    fun _ => ht.2⟩)

lemma not_of_error {r : Except Failure Unit} {P : Prop} {e : Failure} (hr : r = .ok () ↔ P)
    (he : r = .error e) : ¬ P := by
  intro hp
  have hno := hr.mpr hp
  rw [he] at hno
  cases hno

lemma ends_claimTask_iff : Ends (claimTask w) s fun r t =>
    t.1 = s.1 ∧ ((∃ a, r = .ok (some a)) ↔ w.ClaimsAfter s.2.calls) := by
  refine ends_bind (ends_bind (ends_read ⟨fun c hc => ?_, nofun⟩))
  cases hc
  refine ends_bind ((ends_call_iff .isInTransaction).mono ?_)
  rintro r t ⟨rfl, hr⟩
  refine ⟨fun a ha => ?_, fun e he => ⟨nofun, fun _ _ => ⟨rfl, ?_⟩⟩⟩
  · split_ifs with hin
    · refine ends_pure ⟨fun _ _ => ends_bind ((ends_call_iff .claim).mono ?_), nofun⟩
      rintro r' t ⟨rfl, hr'⟩
      refine ⟨fun b hb => ends_join ⟨rfl, ?_⟩, fun e he => ⟨rfl, ?_⟩⟩
      · rw [World.ClaimsAfter, hr.mp ha, hr'.mp hb]
        simp [hin]
      · exact iff_of_false nofun fun h => not_of_error hr' he h.2.2.1
    · exact ends_throw ⟨nofun, fun _ _ => ⟨rfl, iff_of_false nofun fun h => hin h.2.1⟩⟩
  · exact iff_of_false nofun fun h => not_of_error hr he h.1

lemma ends_openClaim_iff (hs : s.1 = some .submissions) : Ends (openClaim w) s fun r _ =>
    (∃ a, r = .ok (some a)) ↔
      w.fault s.2.calls .start = none ∧ w.ClaimsAfter (s.2.calls ++ [.start]) := by
  refine ends_bind (ends_await_submissions (by decide) ((ends_call_iff .start).mono ?_))
  rintro r t ⟨rfl, hr⟩
  refine ⟨hs, fun a ha => ?_, fun e he => ?_⟩
  · refine ends_bind (ends_update ⟨fun _ _ => ?_, nofun⟩)
    refine ends_await_submissions (by decide) (ends_claimTask_iff.mono ?_)
    rintro r' t ⟨ht, hiff⟩
    exact ⟨ht.trans hs, hiff.trans (and_iff_right (hr.mp ha)).symm⟩
  · exact iff_of_false nofun fun h => not_of_error hr he h.1

lemma ends_aenter_iff : Ends (aenter w) (some .submissions, {}) fun r _ =>
    (∃ x, r = .ok (some x)) ↔ w.Claims := by
  refine ends_bind (ends_bind (ends_await_submissions (by decide) ((ends_call_iff .acquire).mono ?_)))
  rintro r t ⟨rfl, hr⟩
  refine ⟨rfl, fun a ha => ends_update ⟨fun _ _ => ?_, nofun⟩, fun e he => ⟨nofun, fun _ _ => ?_⟩⟩
  swap
  · exact iff_of_false nofun fun h => not_of_error hr he h.1
  refine ends_bind (ends_tryCatch ((ends_call_iff .transaction).mono ?_))
  rintro r' t ⟨rfl, hr'⟩
  refine ⟨fun b hb => ⟨fun _ _ => ?_, nofun⟩, fun e he => ?_⟩
  swap
  · refine (ends_noting_throw (ends_releaseConnection w _)).mono ?_
    rintro q u ⟨⟨f, rfl⟩, -⟩
    exact ⟨nofun, fun _ _ => iff_of_false nofun fun h => not_of_error hr' he h.2.1⟩
  refine ends_bind (ends_tryCatch ((ends_openClaim_iff rfl).mono fun q u hq => ⟨?_, ?_⟩))
  · intro task htask
    have hacquire : w.fault [] .acquire = none := hr.mp ha
    have htransaction : w.fault [.acquire] .transaction = none := hr'.mp hb
    have hopen : (∃ a, q = .ok (some a)) ↔ w.fault [.acquire, .transaction] .start = none ∧
        w.ClaimsAfter [.acquire, .transaction, .start] := hq
    have hclaims : (∃ a, task = some a) ↔ w.Claims := by
      rw [World.Claims, and_iff_right hacquire, and_iff_right htransaction, ← hopen, htask]
      simp
    refine ⟨fun task' ht => ?_, nofun⟩
    cases ht
    cases task with
    | none =>
      refine ends_bind ((ends_closeConnection false u).mono fun q v _ =>
        ⟨fun _ _ => ends_bind (ends_update ⟨fun _ _ => ends_pure ?_, nofun⟩), fun _ _ => ?_⟩)
      · exact iff_of_false nofun fun h => by simpa using hclaims.mpr h
      · exact iff_of_false nofun fun h => by simpa using hclaims.mpr h
    | some task =>
      exact ends_bind (ends_update ⟨fun _ _ => ends_pure (iff_of_true ⟨_, rfl⟩ (hclaims.mp ⟨_, rfl⟩)),
        nofun⟩)
  · intro e he
    refine ends_bind ((ends_noting (ends_closeConnection false u)).mono ?_)
    rintro q' v ⟨⟨f, rfl⟩, -⟩
    refine ⟨fun _ _ => ends_bind (ends_update ⟨fun _ _ => ends_throw ⟨nofun, fun _ _ => ?_⟩, nofun⟩), nofun⟩
    refine iff_of_false nofun fun h => ?_
    obtain ⟨a, ha⟩ := hq.mpr h.2.2
    rw [he] at ha
    cases ha

end Claims

section Exit

variable {w} {s : Option Await × TaskClaim}

lemma ends_submissions (s : Option Await × TaskClaim) :
    Ends (shieldCleanup .submissions cancelSubmissions) s fun r t =>
      (r = .ok () ↔ s.1 ≠ some .submissions) ∧ t.2.calls = s.2.calls ∧
        t.2.acquired = s.2.acquired ∧
        t.2.execution.any TaskExecution.finished = s.2.execution.any TaskExecution.finished := by
  let Q := fun (q : Except Failure Unit) (c : TaskClaim) => q = .ok () ∧ c.calls = s.2.calls ∧
    c.acquired = s.2.acquired ∧
    c.execution.any TaskExecution.finished = s.2.execution.any TaskExecution.finished
  have hq : Ends cancelSubmissions (none, s.2) fun r t => Q r t.2 := by
    refine ends_update ⟨rfl, rfl, rfl, ?_⟩
    exact Option.any_map ..
  refine (ends_shieldCleanup hq).mono ?_
  rintro r t ⟨q, ⟨rfl, hcalls, hacq, hfin⟩, -, hr⟩
  exact ⟨hr.trans (and_iff_right rfl), hcalls, hacq, hfin⟩

structure Left (value : Option Failure) (s t : Option Await × TaskClaim) : Prop where
  acquired : t.2.acquired = s.2.acquired
  released : t.2.calls.count .release =
    s.2.calls.count .release + if s.1 = some .submissions then 0 else 1
  committed : t.2.calls.count .commit ≠ s.2.calls.count .commit →
    value = none ∧ t.2.execution.any TaskExecution.finished = true

lemma ends_aexit (value : Option Failure) (hconn : s.2.connection = true)
    (hexec : s.2.execution.isSome = true) : Ends (aexit w value) s fun _ t => Left value s t := by
  refine ends_bind (ends_read ⟨fun c hc => ?_, nofun⟩)
  cases hc
  rw [if_pos hconn]
  have hbody : Ends (do
      if s.2.execution.isSome then shieldCleanup .submissions cancelSubmissions
      closeConnection w (value.isNone && s.2.execution.any TaskExecution.finished)
      pure value : Action (Option Failure)) s fun _ t => Left value s t := by
    rw [if_pos hexec]
    refine ends_bind ((ends_submissions s).mono ?_)
    rintro r t ⟨hr, hcalls, hacq, hfin⟩
    refine ⟨fun a ha => ?_, fun e he => ?_⟩
    · have hs := hr.mp ha
      refine ends_bind ((ends_closeConnection _ t).mono fun r u hu => ?_)
      have hleft : Left value s u := by
        refine ⟨hu.acquired.trans hacq, ?_, fun hne => ?_⟩
        · rw [hu.released, hcalls, if_neg hs]
        · have hcommit : (value.isNone && s.2.execution.any TaskExecution.finished) = true := by
            by_contra hno
            exact hne ((hu.committed (Bool.eq_false_of_not_eq_true hno)).trans (by rw [hcalls]))
          rw [Bool.and_eq_true] at hcommit
          exact ⟨Option.isNone_iff_eq_none.mp hcommit.1, by rw [hu.execution, hfin, hcommit.2]⟩
      exact ⟨fun _ _ => ends_pure hleft, fun _ _ => hleft⟩
    · have hs : s.1 = some .submissions := by
        by_contra hne
        rw [hr.mpr hne] at he
        cases he
      exact ⟨hacq, by rw [hcalls, if_pos hs, Nat.add_zero], fun hne => absurd (by rw [hcalls]) hne⟩
  refine ends_always (ends_tryCatch (hbody.mono fun r t ht => ⟨fun _ _ => ?_, fun e _ => ?_⟩))
  · exact ends_update ⟨fun _ => { ht with }, nofun⟩
  · cases value with
    | none => exact ends_throw (ends_update ⟨fun _ => { ht with }, nofun⟩)
    | some failure => exact ends_pure (ends_update ⟨fun _ => { ht with }, nofun⟩)

end Exit

section Whole

variable {w} {b : Body} {cancel : Option Await}

def final (w : World) (b : Body) (cancel : Option Await) : TaskClaim := (withClaim w b (cancel, {})).2.2

lemma ends_runBody (s : Option Await × TaskClaim) : Ends (runBody b) s fun r t =>
    r = .ok b.raised ∧ t.1 = s.1 ∧ t.2.calls = s.2.calls ∧ t.2.acquired = s.2.acquired ∧
      t.2.connection = s.2.connection ∧ t.2.execution.isSome = s.2.execution.isSome := by
  refine ends_bind (ends_update ⟨fun _ _ => ends_pure ⟨rfl, rfl, rfl, rfl, rfl, ?_⟩, nofun⟩)
  exact Option.isSome_map ..

lemma CommitsOutcome.of_none {c : TaskClaim} (h : c.calls.count .commit = 0) : CommitsOutcome b c :=
  fun hm => absurd hm (List.count_eq_zero.mp h)

lemma Due.submissions_iff {c d : Option Await} (h : Due c d) :
    d = some .submissions ↔ c = some .submissions := by
  rcases h with rfl | ⟨rfl, hne⟩
  · exact Iff.rfl
  · exact iff_of_false nofun hne

def Finished (b : Body) (entered lost : Prop) (c : TaskClaim) : Prop :=
  CommitsOutcome b c ∧ (Released c ↔ ¬ (entered ∧ lost))

lemma Finished.of_released {c : TaskClaim} {entered lost : Prop} (hc : CommitsOutcome b c)
    (hr : Released c) (hn : ¬ entered) : Finished b entered lost c :=
  ⟨hc, iff_of_true hr fun h => hn h.1⟩

lemma ends_raise {raised : Option Failure} {s : Option Await × TaskClaim}
    {Q : Except Failure Unit → Option Await × TaskClaim → Prop} (h : ∀ r, Q r s) :
    Ends (match raised with | some failure => throw failure | none => pure () : Action Unit) s Q := by
  cases raised with
  | none => exact ends_pure (h _)
  | some failure => exact ends_throw (h _)

lemma ends_withClaim : Ends (withClaim w b) (cancel, {}) fun _ t =>
    Finished b (∃ x, (aenter w (cancel, {})).1 = .ok (some x)) (cancel = some .submissions) t.2 := by
  refine ends_bind (((ends_aenter cancel).and (ends_self _ _)).mono ?_)
  rintro r s ⟨⟨hdue, hcommit, hentered⟩, hself⟩
  rw [hself]
  refine ⟨fun a ha => ?_, fun e he => ?_⟩
  swap
  · subst he
    exact .of_released (.of_none hcommit) hentered nofun
  subst ha
  refine ends_bind ((ends_runBody s).mono ?_)
  rintro r t ⟨rfl, hts, hcalls, hacq, hconn, hexec⟩
  refine ⟨fun value hv => ?_, nofun⟩
  cases hv
  cases a with
  | none =>
    obtain ⟨hclosed, hrel⟩ := hentered
    have hdone : Finished b (∃ x, (aenter w (cancel, {})).1 = .ok (some x))
        (cancel = some .submissions) t.2 := by
      refine .of_released (.of_none (by rw [hcalls, hcommit])) ?_ ?_
      · rw [Released, hcalls, hacq]
        exact hrel
      · rw [hself]
        rintro ⟨x, hx⟩
        cases hx
    rw [hself] at hdone
    refine ends_bind (ends_bind (ends_read ⟨fun c hc => ?_, nofun⟩))
    cases hc
    rw [hconn, hclosed]
    exact ends_pure ⟨fun _ _ => ends_raise fun _ => hdone, nofun⟩
  | some x =>
    obtain ⟨hopen, hx, hacquired, hrel⟩ := hentered
    refine ends_bind ((ends_aexit b.raised (hconn.trans hopen) (hexec.trans (by rw [hx]; rfl))).mono ?_)
    intro r u hu
    have hcount : u.2.calls.count .release = if t.1 = some .submissions then 0 else 1 := by
      rw [hu.released, hcalls, hrel, Nat.zero_add]
    have hdone : Finished b (∃ y, (Except.ok (some x) : Except Failure (Option TaskExecution)) =
        .ok (some y)) (cancel = some .submissions) u.2 := by
      refine ⟨fun hm => hu.committed ?_, ?_⟩
      · rw [hcalls, hcommit]
        exact fun h => List.count_eq_zero.mp h hm
      · rw [Released, hu.acquired, hacq, hacquired, if_pos rfl, hcount, hts, ← hdue.submissions_iff]
        split_ifs with hs <;> simp [hs]
    exact ⟨fun _ _ => ends_raise fun _ => hdone, fun _ _ => hdone⟩

/-- A claim gives its connection back exactly once, and commits only a recorded outcome, except when
it has a task and the cancellation is delivered while aexit waits for the submissions to be
cancelled: then the connection is never released. -/
theorem released_iff (w : World) (b : Body) (cancel : Option Await) :
    Released (final w b cancel) ∧ CommitsOutcome b (final w b cancel) ↔
      ¬ (cancel = some .submissions ∧ w.Claims) := by
  obtain ⟨hcommit, hreleased⟩ : Finished b (∃ x, (aenter w (cancel, {})).1 = .ok (some x))
    (cancel = some .submissions) (final w b cancel) := ends_withClaim
  rw [and_iff_left hcommit, hreleased, and_comm]
  refine not_congr (and_congr_right ?_)
  rintro rfl
  exact ends_aenter_iff

def sampleTask : Store.ClaimedTask where
  id := "root"
  rootId := none
  function := "work"
  version := 1
  topic := "default"
  input := ⟨"null"⟩
  depth := 0
  maxFailures := 3
  executionTimeoutMs := 30000
  waits := []

def faultless : World where
  fault := fun _ _ => none
  closable := true
  isClosed := fun _ => false
  isInTransaction := fun calls => .start ∈ calls
  claimed := .ok (some sampleTask)

/-- The body records an outcome and ends, and the cancellation comes at the first await of aexit. -/
theorem connection_leaked : ¬ ∀ (w : World) (b : Body) (cancel : Option Await),
    Released (final w b cancel) ∧ CommitsOutcome b (final w b cancel) := by
  intro h
  have hreleased := (h faultless { raised := none, finished := true } (some .submissions)).1
  rw [Released] at hreleased
  exact absurd hreleased (by decide)

end Whole

end Reaper.Tasks
