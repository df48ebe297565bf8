import Mathlib.Data.Vector.Basic
import Reaper.Store.Immutable

/-! The submissions of a TaskExecution. A flush_submissions task collects what was submitted while it
slept, and sends it as one batch when it has the operation lock. -/

namespace Reaper.Tasks.Submissions

open Reaper.Store

variable {σ ε R : Type}

inductive Failure (ε : Type)
  | alreadyHasOutcome
  | raised (error : ε)

inductive Future (ε R : Type)
  | pending
  | result (record : R)
  | exception (error : Failure ε)
  | cancelled

def Future.done : Future ε R → Bool
  | .pending => false
  | _ => true

def Future.settle (outcome : Future ε R) : Future ε R → Future ε R
  | .pending => outcome
  | future => future

structure Submission where
  params : CallRequest
  future : ℕ
  deriving DecidableEq

/-- A flush_submissions task. Once it has collected, its batch is in line for the lock. -/
inductive Flush
  | sleeping (cancelled : Bool)
  | collected
  | done
  deriving DecidableEq

def Flush.cancel : Flush → Flush
  | .sleeping _ => .sleeping true
  | flush => flush

/-- An operation of the execution: the submit_many of a flush, or one of the other methods. -/
inductive Operation
  | flush (task : ℕ) (batch : List Submission)
  | other (n : ℕ)
  deriving DecidableEq

def Operation.batch : Operation → List Submission
  | .flush _ batch => batch
  | .other _ => []

def Operation.task : Operation → Option ℕ
  | .flush task _ => some task
  | .other _ => none

inductive Canceller
  | idle
  | waiting (task : ℕ)
  | returned
  deriving DecidableEq

structure TaskExecution (σ ε R : Type) where
  connection : σ
  finished : Bool := false
  lock : Option Operation := none
  waiters : List Operation := []
  pendingSubmissions : List Submission := []
  submissionTask : Option ℕ := none
  futures : List (Future ε R) := []
  flushes : List Flush := []
  canceller : Canceller := .idle
  sent : List (List Submission) := []

abbrev SubmitCalls (σ ε R : Type) :=
  σ → (requests : List CallRequest) → Option (σ × Except ε (List.Vector R requests.length))

def settleAll (futures : List (Future ε R)) (batch : List Submission)
    (outcomes : List (Future ε R)) : List (Future ε R) :=
  (batch.zip outcomes).foldl (fun fs e => fs.modify e.1.future (Future.settle e.2)) futures

inductive Event (σ : Type)
  | submit (params : CallRequest)
  | abandon (future : ℕ)
  | resume (task : ℕ)
  | enter
  | answer
  | operate (n : ℕ)
  | leave (finishes : Bool) (connection : σ)
  | giveUp (n : ℕ)
  | cancelSubmissions
  | gathered

namespace TaskExecution

def start (connection : σ) : TaskExecution σ ε R := { connection }

def submit (s : TaskExecution σ ε R) (params : CallRequest) : Option (TaskExecution σ ε R) :=
  if s.finished then none
  else
    let s : TaskExecution σ ε R := { s with
      futures := s.futures ++ [.pending]
      pendingSubmissions := s.pendingSubmissions ++ [⟨params, s.futures.length⟩] }
    match s.submissionTask with
    | some _ => some s
    | none => some { s with
        submissionTask := some s.flushes.length
        flushes := s.flushes ++ [.sleeping false] }

def hold (s : TaskExecution σ ε R) : Operation → TaskExecution σ ε R
  | .flush task batch =>
    if s.finished then { s with
      flushes := s.flushes.set task .done
      futures := settleAll s.futures batch (batch.map fun _ => .exception .alreadyHasOutcome) }
    else { s with lock := some (.flush task batch) }
  | .other n => { s with lock := some (.other n) }

def acquire (s : TaskExecution σ ε R) (o : Operation) : TaskExecution σ ε R :=
  if s.lock = none ∧ s.waiters = [] then s.hold o else { s with waiters := s.waiters ++ [o] }

def resume (s : TaskExecution σ ε R) (task : ℕ) : Option (TaskExecution σ ε R) :=
  match s.flushes[task]? with
  | some (.sleeping true) => some { s with flushes := s.flushes.set task .done }
  | some (.sleeping false) =>
    let collected : TaskExecution σ ε R := { s with
      flushes := s.flushes.set task .collected
      pendingSubmissions := []
      submissionTask := none }
    some (collected.acquire (.flush task s.pendingSubmissions))
  | _ => none

def enter (s : TaskExecution σ ε R) : Option (TaskExecution σ ε R) :=
  match s.lock, s.waiters with
  | none, o :: rest => some ({ s with waiters := rest }.hold o)
  | _, _ => none

def outcomes (batch : List Submission) {n : ℕ} :
    Except ε (List.Vector R n) → List (Future ε R)
  | .ok records => records.toList.map .result
  | .error error => batch.map fun _ => .exception (.raised error)

def answer (send : SubmitCalls σ ε R) (s : TaskExecution σ ε R) : Option (TaskExecution σ ε R) :=
  match s.lock with
  | some (.flush task batch) =>
    (send s.connection (batch.map Submission.params)).map fun e => { s with
      connection := e.1
      lock := none
      flushes := s.flushes.set task .done
      futures := settleAll s.futures batch (outcomes batch e.2)
      sent := s.sent ++ [batch] }
  | _ => none

def leave (s : TaskExecution σ ε R) (finishes : Bool) (connection : σ) :
    Option (TaskExecution σ ε R) :=
  match s.lock with
  | some (.other _) =>
    some { s with lock := none, finished := s.finished || finishes, connection := connection }
  | _ => none

def cancelPending (s : TaskExecution σ ε R) : TaskExecution σ ε R :=
  { s with
    futures := settleAll s.futures s.pendingSubmissions (s.pendingSubmissions.map fun _ => .cancelled)
    pendingSubmissions := []
    canceller := .returned }

def cancelSubmissions (s : TaskExecution σ ε R) : Option (TaskExecution σ ε R) :=
  if s.canceller = .idle then
    match s.submissionTask with
    | none => some s.cancelPending
    | some task => some { s with
        flushes := s.flushes.modify task Flush.cancel
        canceller := .waiting task }
  else none

def gathered (s : TaskExecution σ ε R) : Option (TaskExecution σ ε R) :=
  match s.canceller with
  | .waiting task =>
    if s.flushes[task]? = some .done then some { s with submissionTask := none }.cancelPending
    else none
  | _ => none

def step (send : SubmitCalls σ ε R) (s : TaskExecution σ ε R) :
    Event σ → Option (TaskExecution σ ε R)
  | .submit params => s.submit params
  | .abandon future => some { s with futures := s.futures.modify future (Future.settle .cancelled) }
  | .resume task => s.resume task
  | .enter => s.enter
  | .answer => s.answer send
  | .operate n => some (s.acquire (.other n))
  | .leave finishes connection => s.leave finishes connection
  | .giveUp n => some { s with waiters := s.waiters.filter (· ≠ .other n) }
  | .cancelSubmissions => s.cancelSubmissions
  | .gathered => s.gathered

def run (send : SubmitCalls σ ε R) :
    TaskExecution σ ε R → List (Event σ) → Option (TaskExecution σ ε R)
  | s, [] => some s
  | s, e :: es => (s.step send e).bind fun s' => run send s' es

/-- What has collected or asked for the lock, and is not done with it, in the order of the lock. -/
def line (s : TaskExecution σ ε R) : List Operation := s.lock.toList ++ s.waiters

end TaskExecution

section Futures

variable {futures : List (Future ε R)} {batch : List Submission} {outcomes : List (Future ε R)} {i : ℕ}

lemma settleAll_length : (settleAll futures batch outcomes).length = futures.length := by
  rw [settleAll]
  induction batch.zip outcomes generalizing futures with
  | nil => rfl
  | cons e es ih => rw [List.foldl_cons, ih, List.length_modify]

lemma settleAll_pending (hlen : outcomes.length = batch.length) (hdone : ∀ f ∈ outcomes, f.done = true)
    (h : (settleAll futures batch outcomes)[i]? = some .pending) :
    futures[i]? = some .pending ∧ i ∉ batch.map Submission.future := by
  induction batch generalizing futures outcomes with
  | nil => exact ⟨h, List.not_mem_nil⟩
  | cons e batch ih =>
    cases outcomes with
    | nil => cases hlen
    | cons f outcomes =>
      obtain ⟨hi, hnot⟩ := ih (Nat.succ.inj hlen) (fun g hg => hdone g (List.mem_cons_of_mem f hg)) h
      rw [List.getElem?_modify] at hi
      have hf : f.done = true := hdone f List.mem_cons_self
      cases hfut : futures[i]? with
      | none => simp [hfut] at hi
      | some g =>
        simp only [hfut, Option.map_eq_map, Option.map_some, Option.some_inj] at hi
        split_ifs at hi with he
        · cases g with
          | pending =>
            rw [Future.settle] at hi
            rw [hi] at hf
            cases hf
          | _ => cases hi
        · rw [hi]
          exact ⟨rfl, by simpa using ⟨Ne.symm he, by simpa using hnot⟩⟩

lemma modify_pending {f : Future ε R} {j : ℕ}
    (h : (futures.modify j (Future.settle f))[i]? = some .pending) : futures[i]? = some .pending := by
  rw [List.getElem?_modify] at h
  cases hfut : futures[i]? with
  | none => simp [hfut] at h
  | some g =>
    simp only [hfut, Option.map_eq_map, Option.map_some, Option.some_inj] at h
    cases g with
    | pending => rfl
    | _ =>
      split_ifs at h
      all_goals cases h

end Futures

def collectors (line : List Operation) : List ℕ := line.filterMap Operation.task

/-- What is not done is known: a flush that sleeps by submission_task, one that has collected by its
place in line, and a future by the submission that waits for it. -/
structure Kept (s : TaskExecution σ ε R) (line : List Operation) : Prop where
  tracked : ∀ t, s.submissionTask = some t →
    s.canceller ≠ .waiting t ∧ s.flushes[t]? = some (.sleeping false) ∨
    s.canceller = .waiting t ∧ (s.flushes[t]? = some (.sleeping true) ∨ s.flushes[t]? = some .done)
  waiting : ∀ t, s.canceller = .waiting t → s.submissionTask = some t
  sleeping : ∀ t c, s.flushes[t]? = some (.sleeping c) → s.submissionTask = some t
  collected : ∀ t, s.flushes[t]? = some .collected ↔ t ∈ collectors line
  distinct : (collectors line).Nodup
  pending : ∀ i : ℕ, s.futures[i]? = some .pending → i ∈ s.pendingSubmissions.map Submission.future ∨
    ∃ o ∈ line, i ∈ o.batch.map Submission.future

section Kept

variable {s s' : TaskExecution σ ε R} {line line' : List Operation} {o : Operation} {task : ℕ}
  {batch : List Submission} {send : SubmitCalls σ ε R}

lemma start_kept (connection : σ) :
    Kept (TaskExecution.start connection : TaskExecution σ ε R) (TaskExecution.start connection :
      TaskExecution σ ε R).line := by
  constructor <;> simp [TaskExecution.start, TaskExecution.line, collectors]

lemma Kept.congr (h : Kept s line) (ht : collectors line' = collectors line)
    (hb : ∀ o ∈ line, o.batch = [] ∨ o ∈ line') : Kept s line' := by
  refine { h with collected := ht ▸ h.collected, distinct := ht ▸ h.distinct, pending := ?_ }
  intro i hi
  refine (h.pending i hi).imp_right ?_
  rintro ⟨o, ho, hio⟩
  obtain hempty | ho := hb o ho
  · rw [hempty] at hio
    cases hio
  · exact ⟨o, ho, hio⟩

lemma Kept.finish (h : Kept s (.flush task batch :: line)) {outcomes : List (Future ε R)}
    (hlen : outcomes.length = batch.length) (hdone : ∀ f ∈ outcomes, f.done = true) :
    Kept { s with
      flushes := s.flushes.set task .done
      futures := settleAll s.futures batch outcomes } line := by
  have hd : task ∉ collectors line ∧ (collectors line).Nodup := List.nodup_cons.mp h.distinct
  have hc : s.flushes[task]? = some .collected := (h.collected task).mpr List.mem_cons_self
  have hne : ∀ t f, s.flushes[t]? = some f → f ≠ .collected → t ≠ task := by
    rintro t f hf hfc rfl
    exact hfc (Option.some_inj.mp (hf.symm.trans hc))
  constructor
  · intro t ht
    have hset : ∀ f, s.flushes[t]? = some f → f ≠ .collected →
        (s.flushes.set task .done)[t]? = some f := fun f hf hfc => by
      rw [List.getElem?_set_ne (hne t f hf hfc).symm, hf]
    obtain ⟨hcan, hf⟩ | ⟨hcan, hf | hf⟩ := h.tracked t ht
    · exact Or.inl ⟨hcan, hset _ hf (by simp)⟩
    · exact Or.inr ⟨hcan, Or.inl (hset _ hf (by simp))⟩
    · exact Or.inr ⟨hcan, Or.inr (hset _ hf (by simp))⟩
  · exact h.waiting
  · intro t c ht
    by_cases heq : task = t
    · subst heq
      rw [List.getElem?_set_self' , hc] at ht
      cases ht
    · rw [List.getElem?_set_ne heq] at ht
      exact h.sleeping t c ht
  · intro t
    by_cases heq : task = t
    · subst heq
      rw [List.getElem?_set_self', hc]
      exact iff_of_false nofun hd.1
    · rw [List.getElem?_set_ne heq, h.collected t]
      change t ∈ task :: collectors line ↔ _
      rw [List.mem_cons, or_iff_right (Ne.symm heq)]
  · exact hd.2
  · intro i hi
    obtain ⟨hi, hnot⟩ := settleAll_pending hlen hdone hi
    refine (h.pending i hi).imp_right ?_
    rintro ⟨o, ho, hio⟩
    obtain rfl | ho := List.mem_cons.mp ho
    · exact absurd hio hnot
    · exact ⟨o, ho, hio⟩

lemma Kept.hold (h : Kept s (o :: s.waiters)) (hl : s.lock = none) : Kept (s.hold o) (s.hold o).line := by
  cases o with
  | flush task batch =>
    rw [TaskExecution.hold]
    split_ifs
    · have hline : TaskExecution.line { s with
          flushes := s.flushes.set task .done
          futures := settleAll s.futures batch (batch.map fun _ => .exception .alreadyHasOutcome) } =
          s.waiters := by
        rw [TaskExecution.line, hl]
        rfl
      rw [hline]
      refine h.finish (List.length_map _) fun f hf => ?_
      obtain ⟨-, -, rfl⟩ := List.mem_map.mp hf
      rfl
    · exact { h with }
  | other n => exact { h with }

lemma Kept.acquire (h : Kept s (s.line ++ [o])) : Kept (s.acquire o) (s.acquire o).line := by
  rw [TaskExecution.acquire]
  split_ifs with hfree
  · refine Kept.hold ?_ hfree.1
    rw [TaskExecution.line, hfree.1, hfree.2] at h
    rw [hfree.2]
    exact h
  · have hline : TaskExecution.line { s with waiters := s.waiters ++ [o] } = s.line ++ [o] :=
      (List.append_assoc _ _ _).symm
    rw [hline]
    exact { h with }

lemma Kept.submit (h : Kept s s.line) {params : CallRequest} (hs : s.submit params = some s') :
    Kept s' s'.line := by
  rw [TaskExecution.submit] at hs
  split_ifs at hs
  have hpending : ∀ i : ℕ, (s.futures ++ [Future.pending])[i]? = some .pending →
      i ∈ (s.pendingSubmissions ++ [Submission.mk params s.futures.length]).map Submission.future ∨
        ∃ o ∈ s.line, i ∈ o.batch.map Submission.future := by
    intro i hi
    rw [List.map_append, List.mem_append]
    by_cases hlt : i < s.futures.length
    · rw [List.getElem?_append_left hlt] at hi
      exact (h.pending i hi).imp_left Or.inl
    · have hbound := (List.getElem?_eq_some_iff.mp hi).1
      rw [List.length_append, List.length_singleton] at hbound
      have heq : i = s.futures.length := by omega
      exact Or.inl (Or.inr (by simp [heq]))
  dsimp only at hs
  split at hs
  · cases hs
    exact { h with pending := hpending }
  · next hsub =>
    cases hs
    have hidle : ∀ t, s.canceller ≠ .waiting t := fun t ht => by
      cases (h.waiting t ht).symm.trans hsub
    have hasleep : ∀ t c, s.flushes[t]? ≠ some (Flush.sleeping c) := fun t c ht => by
      cases (h.sleeping t c ht).symm.trans hsub
    have hold : ∀ t f, (s.flushes ++ [Flush.sleeping false])[t]? = some f →
        s.flushes[t]? = some f ∨ t = s.flushes.length ∧ f = .sleeping false := by
      intro t f hf
      by_cases hlt : t < s.flushes.length
      · rw [List.getElem?_append_left hlt] at hf
        exact Or.inl hf
      · have hbound := (List.getElem?_eq_some_iff.mp hf).1
        rw [List.length_append, List.length_singleton] at hbound
        have heq : t = s.flushes.length := by omega
        rw [heq, List.getElem?_concat_length] at hf
        exact Or.inr ⟨heq, (Option.some_inj.mp hf).symm⟩
    constructor
    · rintro t ht
      cases ht
      exact Or.inl ⟨hidle _, List.getElem?_concat_length⟩
    · exact fun t ht => absurd ht (hidle t)
    · intro t c ht
      obtain ht | ⟨rfl, -⟩ := hold t _ ht
      · exact absurd ht (hasleep t c)
      · rfl
    · refine fun t => Iff.trans ⟨fun ht => ?_, fun ht => ?_⟩ (h.collected t)
      · obtain ht | ⟨-, ht⟩ := hold t _ ht
        · exact ht
        · cases ht
      · exact (List.getElem?_append_left (List.getElem?_eq_some_iff.mp ht).1).trans ht
    · exact h.distinct
    · exact hpending

lemma Kept.resume (h : Kept s s.line) (hs : s.resume task = some s') : Kept s' s'.line := by
  rw [TaskExecution.resume] at hs
  cases hf : s.flushes[task]? with
  | none =>
    rw [hf] at hs
    cases hs
  | some f =>
    rw [hf] at hs
    have hother : ∀ t g, t ≠ task → (s.flushes.set task g)[t]? = s.flushes[t]? := fun t g ht =>
      List.getElem?_set_ne ht.symm
    have hself : ∀ g, (s.flushes.set task g)[task]? = some g := fun g =>
      List.getElem?_set_self (List.getElem?_eq_some_iff.mp hf).1
    match f with
    | .collected => cases hs
    | .done => cases hs
    | .sleeping true =>
      cases hs
      have hsub := h.sleeping task true hf
      have hcan : s.canceller = .waiting task := by
        obtain ⟨-, hf'⟩ | ⟨hcan, -⟩ := h.tracked task hsub
        · cases hf.symm.trans hf'
        · exact hcan
      constructor
      · intro t ht
        obtain rfl : task = t := Option.some_inj.mp (hsub.symm.trans ht)
        exact Or.inr ⟨hcan, Or.inr (hself _)⟩
      · exact h.waiting
      · intro t c ht
        by_cases heq : t = task
        · exact heq ▸ hsub
        · exact h.sleeping t c ((hother t _ heq).symm.trans ht)
      · intro t
        change (s.flushes.set task .done)[t]? = some .collected ↔ t ∈ collectors s.line
        rw [← h.collected t]
        by_cases heq : t = task
        · rw [heq, hself, hf]
          exact iff_of_false nofun nofun
        · rw [hother t _ heq]
      · exact h.distinct
      · exact h.pending
    | .sleeping false =>
      cases hs
      have hsub := h.sleeping task false hf
      have hnew : task ∉ collectors s.line := fun hm => by
        cases hf.symm.trans ((h.collected task).mpr hm)
      have hwait : ∀ t, s.canceller ≠ .waiting t := by
        intro t ht
        obtain rfl : task = t := Option.some_inj.mp (hsub.symm.trans (h.waiting t ht))
        obtain ⟨hcan, -⟩ | ⟨-, hf' | hf'⟩ := h.tracked task hsub
        · exact hcan ht
        · cases hf.symm.trans hf'
        · cases hf.symm.trans hf'
      have hcollectors : collectors (s.line ++ [.flush task s.pendingSubmissions]) =
          collectors s.line ++ [task] := List.filterMap_append
      refine Kept.acquire ?_
      change Kept _ (s.line ++ [.flush task s.pendingSubmissions])
      constructor
      · exact fun t ht => by cases ht
      · exact fun t ht => absurd ht (hwait t)
      · intro t c ht
        by_cases heq : t = task
        · rw [heq, hself] at ht
          cases ht
        · have ht' := h.sleeping t c ((hother t _ heq).symm.trans ht)
          exact absurd (Option.some_inj.mp (ht'.symm.trans hsub)) heq
      · intro t
        rw [hcollectors, List.mem_append, List.mem_singleton]
        by_cases heq : t = task
        · rw [heq, hself]
          exact iff_of_true rfl (Or.inr rfl)
        · rw [hother t _ heq, h.collected t, or_iff_left heq]
      · rw [hcollectors]
        exact List.nodup_append.mpr ⟨h.distinct, List.nodup_singleton task,
          fun t ht u hu => List.mem_singleton.mp hu ▸ ne_of_mem_of_not_mem ht hnew⟩
      · intro i hi
        obtain hi | ⟨o, ho, hi⟩ := h.pending i hi
        · exact Or.inr ⟨_, List.mem_append_right _ (List.mem_singleton_self _), hi⟩
        · exact Or.inr ⟨o, List.mem_append_left _ ho, hi⟩

lemma Kept.cancelPending (h : Kept s line)
    (ht : ∀ (t : ℕ) (c : Bool), s.flushes[t]? ≠ some (Flush.sleeping c)) :
    Kept { s with submissionTask := none }.cancelPending line := by
  constructor
  · exact fun t ht => by cases ht
  · exact fun t ht => by cases ht
  · exact fun t c hf => absurd hf (ht t c)
  · exact h.collected
  · exact h.distinct
  · intro i hi
    obtain ⟨hi, hnot⟩ := settleAll_pending (List.length_map _) (fun f hf => by
      obtain ⟨-, -, rfl⟩ := List.mem_map.mp hf
      rfl) hi
    exact Or.inr ((h.pending i hi).resolve_left hnot)

lemma Kept.cancelSubmissions (h : Kept s s.line) (hs : s.cancelSubmissions = some s') :
    Kept s' s'.line := by
  rw [TaskExecution.cancelSubmissions] at hs
  split_ifs at hs with hidle
  split at hs
  · next hsub =>
    cases hs
    have hk := h.cancelPending fun t c ht => by cases (h.sleeping t c ht).symm.trans hsub
    rw [← hsub] at hk
    exact hk
  · next task hsub =>
    cases hs
    have hf : s.flushes[task]? = some (.sleeping false) := by
      obtain ⟨-, hf⟩ | ⟨hcan, -⟩ := h.tracked task hsub
      · exact hf
      · cases hidle.symm.trans hcan
    have hother : ∀ t, t ≠ task → (s.flushes.modify task Flush.cancel)[t]? = s.flushes[t]? :=
      fun t ht => by simp [ht.symm]
    have hself : (s.flushes.modify task Flush.cancel)[task]? = some (.sleeping true) := by
      simp [hf, Flush.cancel]
    constructor
    · intro t ht
      obtain rfl : task = t := Option.some_inj.mp (hsub.symm.trans ht)
      exact Or.inr ⟨rfl, Or.inl hself⟩
    · rintro t ht
      cases ht
      exact hsub
    · intro t c ht
      by_cases heq : t = task
      · exact heq ▸ hsub
      · exact h.sleeping t c ((hother t heq).symm.trans ht)
    · intro t
      change (s.flushes.modify task Flush.cancel)[t]? = some .collected ↔ t ∈ collectors s.line
      rw [← h.collected t]
      by_cases heq : t = task
      · rw [heq, hself, hf]
        exact iff_of_false nofun nofun
      · rw [hother t heq]
    · exact h.distinct
    · exact h.pending

lemma Kept.gathered (h : Kept s s.line) (hs : s.gathered = some s') : Kept s' s'.line := by
  rw [TaskExecution.gathered] at hs
  cases hcan : s.canceller with
  | idle | returned =>
    rw [hcan] at hs
    cases hs
  | waiting task =>
    rw [hcan] at hs
    dsimp only at hs
    split_ifs at hs with hdone
    cases hs
    refine h.cancelPending fun t c ht => ?_
    have heq : some t = some task := (h.sleeping t c ht).symm.trans (h.waiting task hcan)
    rw [Option.some_inj.mp heq, hdone] at ht
    cases ht

lemma outcomes_done {n : ℕ} (hn : n = batch.length) (r : Except ε (List.Vector R n)) :
    (TaskExecution.outcomes batch r : List (Future ε R)).length = batch.length ∧
      ∀ f ∈ (TaskExecution.outcomes batch r : List (Future ε R)), f.done = true := by
  cases r with
  | ok records =>
    refine ⟨by simp [TaskExecution.outcomes, hn], fun f hf => ?_⟩
    obtain ⟨-, -, rfl⟩ := List.mem_map.mp hf
    rfl
  | error e =>
    refine ⟨List.length_map _, fun f hf => ?_⟩
    obtain ⟨-, -, rfl⟩ := List.mem_map.mp hf
    rfl

lemma Kept.answer (h : Kept s s.line) (hs : s.answer send = some s') : Kept s' s'.line := by
  rw [TaskExecution.answer] at hs
  cases hl : s.lock with
  | none =>
    rw [hl] at hs
    cases hs
  | some o =>
    rw [hl] at hs
    cases o with
    | other n => cases hs
    | flush task batch =>
      obtain ⟨e, -, rfl⟩ := Option.map_eq_some_iff.mp hs
      rw [TaskExecution.line, hl] at h
      obtain ⟨hlen, hdone⟩ := outcomes_done (List.length_map _) e.2
      have hk := h.finish hlen hdone
      exact { hk with }

lemma Kept.leave (h : Kept s s.line) {finishes : Bool} {connection : σ}
    (hs : s.leave finishes connection = some s') : Kept s' s'.line := by
  rw [TaskExecution.leave] at hs
  cases hl : s.lock with
  | none =>
    rw [hl] at hs
    cases hs
  | some o =>
    rw [hl] at hs
    cases o with
    | flush task batch => cases hs
    | other n =>
      cases hs
      rw [TaskExecution.line, hl] at h
      have hk : Kept s s.waiters := h.congr rfl fun o ho =>
        (List.mem_cons.mp ho).imp (fun hn => by rw [hn]; rfl) id
      exact { hk with }

lemma Kept.giveUp (h : Kept s s.line) (n : ℕ) :
    Kept { s with waiters := s.waiters.filter (· ≠ .other n) }
      (TaskExecution.line { s with waiters := s.waiters.filter (· ≠ .other n) }) := by
  have hfilter : ∀ l : List Operation, collectors (l.filter (· ≠ .other n)) = collectors l := by
    intro l
    rw [collectors, collectors, List.filterMap_filter]
    refine List.filterMap_congr fun o _ => ?_
    cases o <;> simp [Operation.task]
  have hk : Kept s (s.lock.toList ++ s.waiters.filter (· ≠ .other n)) := by
    refine h.congr ?_ fun o ho => ?_
    · rw [TaskExecution.line, collectors, List.filterMap_append, collectors, List.filterMap_append]
      exact congrArg _ (hfilter s.waiters)
    · obtain ho | ho := List.mem_append.mp ho
      · exact Or.inr (List.mem_append_left _ ho)
      · by_cases hn : o = .other n
        · exact Or.inl (by rw [hn]; rfl)
        · exact Or.inr (List.mem_append_right _ (List.mem_filter.mpr ⟨ho, by simpa using hn⟩))
  exact { hk with }

lemma step_kept {e : Event σ} (h : Kept s s.line) (hs : s.step send e = some s') :
    Kept s' s'.line := by
  cases e with
  | submit params => exact h.submit hs
  | abandon future =>
    cases hs
    exact { h with pending := fun i hi => h.pending i (modify_pending hi) }
  | resume task => exact h.resume hs
  | enter =>
    change s.enter = some s' at hs
    rw [TaskExecution.enter] at hs
    split at hs
    · next o rest hl hw =>
      cases hs
      rw [TaskExecution.line, hl, hw] at h
      exact Kept.hold { h with } hl
    · cases hs
  | answer => exact h.answer hs
  | operate n =>
    cases hs
    refine Kept.acquire (h.congr ?_ fun o ho => Or.inr (List.mem_append_left _ ho))
    rw [collectors, List.filterMap_append]
    exact List.append_nil _
  | leave finishes connection => exact h.leave hs
  | giveUp n =>
    cases hs
    exact h.giveUp n
  | cancelSubmissions => exact h.cancelSubmissions hs
  | gathered => exact h.gathered hs

lemma run_kept {es : List (Event σ)} (h : Kept s s.line) (hr : s.run send es = some s') :
    Kept s' s'.line := by
  induction es generalizing s with
  | nil =>
    cases hr
    exact h
  | cons e es ih =>
    obtain ⟨u, hs, hr⟩ := Option.bind_eq_some_iff.mp hr
    exact ih (step_kept h hs) hr

end Kept

def TaskExecution.Stopped (s : TaskExecution σ ε R) : Prop :=
  (∀ flush ∈ s.flushes, flush = .done) ∧ ∀ future ∈ s.futures, future.done = true

def Event.submits : Event σ → Bool
  | .submit _ => true
  | _ => false

structure Over (s : TaskExecution σ ε R) : Prop where
  returned : s.canceller = .returned
  untracked : s.submissionTask = none
  collected : s.pendingSubmissions = []
  line : ∀ o ∈ s.line, o.task = none

section Cancel

variable {s s' : TaskExecution σ ε R} {o : Operation} {send : SubmitCalls σ ε R} {e : Event σ}

lemma mem_collectors {line : List Operation} {task : ℕ} :
    task ∈ collectors line ↔ ∃ o ∈ line, o.task = some task := by
  rw [collectors, List.mem_filterMap]

lemma Over.stopped (h : Over s) (hk : Kept s s.line) : s.Stopped := by
  constructor
  · intro flush hflush
    obtain ⟨t, ht⟩ := List.mem_iff_getElem?.mp hflush
    cases flush with
    | sleeping c => cases (hk.sleeping t c ht).symm.trans h.untracked
    | collected =>
      obtain ⟨o, ho, hot⟩ := mem_collectors.mp ((hk.collected t).mp ht)
      cases hot.symm.trans (h.line o ho)
    | done => rfl
  · intro future hfuture
    obtain ⟨i, hi⟩ := List.mem_iff_getElem?.mp hfuture
    cases future with
    | pending =>
      obtain hp | ⟨o, ho, hio⟩ := hk.pending i hi
      · rw [h.collected] at hp
        cases hp
      · cases o with
        | flush task batch => cases h.line _ ho
        | other n => cases hio
    | _ => rfl

lemma hold_canceller : (s.hold o).canceller = s.canceller := by
  cases o with
  | flush task batch =>
    rw [TaskExecution.hold]
    split_ifs <;> rfl
  | other n => rfl

lemma acquire_canceller : (s.acquire o).canceller = s.canceller := by
  rw [TaskExecution.acquire]
  split_ifs
  · exact hold_canceller
  · rfl

lemma returns (hopen : s.canceller ≠ .returned) (hs : s.step send e = some s')
    (hret : s'.canceller = .returned) :
    s' = { s with submissionTask := none }.cancelPending := by
  cases e with
  | submit params =>
    change s.submit params = some s' at hs
    rw [TaskExecution.submit] at hs
    split_ifs at hs
    dsimp only at hs
    split at hs
    all_goals
      cases hs
      exact absurd hret hopen
  | abandon | giveUp =>
    cases hs
    exact absurd hret hopen
  | resume task =>
    change s.resume task = some s' at hs
    rw [TaskExecution.resume] at hs
    split at hs
    · cases hs
      exact absurd hret hopen
    · cases hs
      exact absurd (acquire_canceller.symm.trans hret) hopen
    · cases hs
  | enter =>
    change s.enter = some s' at hs
    rw [TaskExecution.enter] at hs
    split at hs
    · cases hs
      exact absurd (hold_canceller.symm.trans hret) hopen
    · cases hs
  | answer =>
    change s.answer send = some s' at hs
    rw [TaskExecution.answer] at hs
    split at hs
    · obtain ⟨a, -, rfl⟩ := Option.map_eq_some_iff.mp hs
      exact absurd hret hopen
    · cases hs
  | operate n =>
    cases hs
    exact absurd (acquire_canceller.symm.trans hret) hopen
  | leave finishes connection =>
    change s.leave finishes connection = some s' at hs
    rw [TaskExecution.leave] at hs
    split at hs
    · cases hs
      exact absurd hret hopen
    · cases hs
  | cancelSubmissions =>
    change s.cancelSubmissions = some s' at hs
    rw [TaskExecution.cancelSubmissions] at hs
    split_ifs at hs
    split at hs
    · next hsub =>
      cases hs
      rw [← hsub]
    · cases hs
      cases hret
  | gathered =>
    change s.gathered = some s' at hs
    rw [TaskExecution.gathered] at hs
    split at hs
    · split_ifs at hs
      cases hs
      rfl
    · cases hs

lemma step_over (h : Over s) (hk : Kept s s.line) (hs : s.step send e = some s')
    (he : e.submits = false) : Over s' := by
  have hlock : ∀ o, s.lock = some o → o.task = none := fun o ho =>
    h.line o (List.mem_append_left _ (Option.mem_toList.mpr ho))
  have hwaits : ∀ o ∈ s.waiters, o.task = none := fun o ho => h.line o (List.mem_append_right _ ho)
  cases e with
  | submit params => cases he
  | abandon future =>
    cases hs
    exact { h with }
  | resume task =>
    change s.resume task = some s' at hs
    rw [TaskExecution.resume] at hs
    split at hs
    · next ht => cases (hk.sleeping task _ ht).symm.trans h.untracked
    · next ht => cases (hk.sleeping task _ ht).symm.trans h.untracked
    · cases hs
  | enter =>
    change s.enter = some s' at hs
    rw [TaskExecution.enter] at hs
    split at hs
    · next o rest hl hw =>
      cases hs
      cases o with
      | flush task batch => cases hwaits _ (hw ▸ List.mem_cons_self)
      | other n => exact { h with line := fun o ho => hwaits o (hw ▸ ho) }
    · cases hs
  | answer =>
    change s.answer send = some s' at hs
    rw [TaskExecution.answer] at hs
    split at hs
    · next task batch hl => cases hlock _ hl
    · cases hs
  | operate n =>
    cases hs
    rw [TaskExecution.acquire]
    split_ifs with hfree
    · refine { h with line := fun o ho => ?_ }
      obtain rfl | ho := List.mem_cons.mp ho
      · rfl
      · exact hwaits o ho
    · refine { h with line := fun o ho => ?_ }
      obtain ho | ho := List.mem_append.mp ho
      · exact hlock o (Option.mem_toList.mp ho)
      · obtain ho | ho := List.mem_append.mp ho
        · exact hwaits o ho
        · rw [List.mem_singleton.mp ho]
          rfl
  | leave finishes connection =>
    change s.leave finishes connection = some s' at hs
    rw [TaskExecution.leave] at hs
    split at hs
    · cases hs
      exact { h with line := hwaits }
    · cases hs
  | giveUp n =>
    cases hs
    refine { h with line := fun o ho => ?_ }
    obtain ho | ho := List.mem_append.mp ho
    · exact hlock o (Option.mem_toList.mp ho)
    · exact hwaits o (List.mem_filter.mp ho).1
  | cancelSubmissions =>
    change s.cancelSubmissions = some s' at hs
    rw [TaskExecution.cancelSubmissions, h.returned] at hs
    cases hs
  | gathered =>
    change s.gathered = some s' at hs
    rw [TaskExecution.gathered, h.returned] at hs
    cases hs

lemma run_over {es : List (Event σ)} (h : Over s) (hk : Kept s s.line)
    (hr : s.run send es = some s') (hes : ∀ e ∈ es, e.submits = false) : Over s' ∧ Kept s' s'.line := by
  induction es generalizing s with
  | nil =>
    cases hr
    exact ⟨h, hk⟩
  | cons e es ih =>
    obtain ⟨u, hs, hr⟩ := Option.bind_eq_some_iff.mp hr
    exact ih (step_over h hk hs (hes e List.mem_cons_self)) (step_kept hk hs) hr
      fun e' he' => hes e' (List.mem_cons_of_mem e he')

lemma run_append {es es' : List (Event σ)} :
    s.run send (es ++ es') = (s.run send es).bind fun u => u.run send es' := by
  induction es generalizing s with
  | nil => rfl
  | cons e es ih =>
    rw [List.cons_append, TaskExecution.run, TaskExecution.run, Option.bind_assoc]
    exact Option.bind_congr fun u _ => ih

lemma submit_not_stopped {params : CallRequest} (hs : s.submit params = some s') : ¬ s'.Stopped := by
  intro h
  have hpending : s'.futures = s.futures ++ [.pending] := by
    rw [TaskExecution.submit] at hs
    split_ifs at hs
    dsimp only at hs
    split at hs
    all_goals
      cases hs
      rfl
  have hdone := h.2 .pending (hpending ▸ List.mem_append_right _ (List.mem_singleton_self _))
  cases hdone

/-- After cancel_submissions every flush is finished and every future done, exactly if none of the
flushes that had collected is left in line when it returns, and no submit comes later. -/
theorem stopped_iff {connection : σ} {es₁ es₂ : List (Event σ)} {t : TaskExecution σ ε R}
    (h₁ : (TaskExecution.start connection).run send es₁ = some s) (hopen : s.canceller ≠ .returned)
    (hs : s.step send e = some s') (hret : s'.canceller = .returned)
    (h₂ : s'.run send es₂ = some t) :
    (∀ es, es <+: es₂ → ∀ u, s'.run send es = some u → u.Stopped) ↔
      (∀ o ∈ s.line, o.task = none) ∧ ∀ e ∈ es₂, e.submits = false := by
  have hk := run_kept (start_kept connection) h₁
  have hk' := step_kept hk hs
  obtain rfl := returns hopen hs hret
  constructor
  · intro hall
    refine ⟨fun o ho => ?_, fun e he => ?_⟩
    · cases o with
      | other n => rfl
      | flush task batch =>
        have hf := (hk'.collected task).mpr (mem_collectors.mpr ⟨_, ho, rfl⟩)
        have hdone := (hall [] List.nil_prefix _ rfl).1 .collected (List.mem_of_getElem? hf)
        cases hdone
    · cases e with
      | submit params =>
        obtain ⟨before, after, rfl⟩ := List.append_of_mem he
        rw [run_append] at h₂
        obtain ⟨u, hu, hrest⟩ := Option.bind_eq_some_iff.mp h₂
        obtain ⟨v, hv, -⟩ := Option.bind_eq_some_iff.mp hrest
        refine absurd (hall (before ++ [.submit params]) ⟨after, by simp⟩ v ?_)
          (submit_not_stopped hv)
        rw [run_append, hu, Option.bind_some, TaskExecution.run, hv]
        rfl
      | _ => rfl
  · rintro ⟨hline, hes⟩ es ⟨rest, rfl⟩ u hu
    have hover : Over { s with submissionTask := none }.cancelPending := ⟨rfl, rfl, rfl, hline⟩
    obtain ⟨hover, hku⟩ := run_over hover hk' hu fun e he => hes e (List.mem_append_left _ he)
    exact hover.stopped hku

end Cancel

section Samples

def counting : SubmitCalls ℕ Unit Unit := fun n requests =>
  some (n + 1, .ok (List.Vector.replicate requests.length ()))

def child : Submission := ⟨Sys.childCall, 0⟩

def answered : TaskExecution ℕ Unit Unit where
  connection := 1
  futures := [.result ()]
  flushes := [.done]
  sent := [[child]]

def sending : TaskExecution ℕ Unit Unit where
  connection := 0
  lock := some (.flush 0 [child])
  futures := [.pending]
  flushes := [.collected]

theorem stopped_iff_answered : (∀ es, es <+: [Event.operate 0] →
      ∀ u, answered.cancelPending.run counting es = some u → u.Stopped) ↔
    (∀ o ∈ answered.line, o.task = none) ∧ ∀ e ∈ [Event.operate (σ := ℕ) 0], e.submits = false :=
  have hanswered : (TaskExecution.start 0).run counting
      [.submit Sys.childCall, .resume 0, .answer] = some answered := rfl
  have hcancel : answered.step counting .cancelSubmissions = some answered.cancelPending := rfl
  stopped_iff hanswered nofun hcancel rfl rfl

/-- The batch that a flush has collected is sent after cancel_submissions has returned. -/
theorem batch_sent_after_cancel :
    (TaskExecution.start 0).run counting [.submit Sys.childCall, .resume 0, .cancelSubmissions] =
      some sending.cancelPending ∧
    sending.cancelPending.canceller = .returned ∧ ¬ sending.cancelPending.Stopped ∧
    (sending.cancelPending.run counting [.answer]).map TaskExecution.sent = some [[child]] := by
  refine ⟨rfl, rfl, fun h => ?_, rfl⟩
  cases h.1 .collected List.mem_cons_self

end Samples

end Reaper.Tasks.Submissions
