import Reaper.Library.JsonText
import Reaper.Store.Batches

/-! The idempotency key of a submission is a digest of its work. A repeated submission whose data
PostgreSQL takes is answered if and only if it is the same work. -/

namespace Reaper.Store.Fingerprints

open Reaper.Library Reaper.Library.JsonText

structure Datetime where
  instant : Time
  offset : ℤ
  deriving DecidableEq

/-- How a time is written, the digest of a document, and a value as jsonb, with the inputs that the type
jsonb takes. -/
structure Encoding where
  isoformat : Datetime → String
  sha256 : String → String
  jsonb : Value → Json
  takes : Json → Bool

structure SubmitCall where
  id : Id
  function : String
  input : Value
  topic : String := "default"
  version : ℕ := 1
  depth : ℕ := 0
  priority : ℤ := 0
  availableAt : Datetime
  executionTimeoutMs : ℕ := 30000
  expiresAt : Datetime
  retentionMs : ℕ
  maxFailures : ℕ := 100
  rootId : Option Id := none
  input_distinct : input.Distinct
  maxFailures_pos : 0 < maxFailures := by decide
  root_ne : rootId ≠ some id := by decide

structure SubmitTimer where
  id : Id
  dueAt : Datetime
  retentionMs : ℕ
  rootId : Option Id := none
  root_ne : rootId ≠ some id := by decide

def natLiteral (n : ℕ) : Literal where
  text := Nat.toDigits 10 n
  text_ne := Nat.toDigits_ne_nil
  text_plain := fun c hc => by
    simp [plain, Names.mem_toDigits (by decide) (by decide) n c hc]

def intLiteral : ℤ → Literal
  | .ofNat n => natLiteral n
  | .negSucc n =>
    { text := '-' :: Nat.toDigits 10 (n + 1)
      text_ne := List.cons_ne_nil _ _
      text_plain := fun c hc => by
        obtain rfl | hc := List.mem_cons.mp hc
        · rfl
        · exact (natLiteral (n + 1)).text_plain c hc }

def null : Literal where
  text := ['n', 'u', 'l', 'l']
  text_ne := List.cons_ne_nil _ _
  text_plain := fun c hc => by
    simp only [List.mem_cons, List.not_mem_nil, or_false] at hc
    obtain rfl | rfl | rfl | rfl := hc <;> rfl

def str (s : String) : Value := .text s.toList
def int (n : ℤ) : Value := .literal (intLiteral n)

def optionalStr : Option String → Value
  | none => .literal null
  | some s => str s

def ofEntries : List (String × Value) → Fields
  | [] => .nil
  | (key, v) :: entries => .cons key.toList v (ofEntries entries)

def document (model : String) (dump : List (String × Value)) (exclude : List String) : Value :=
  .object (ofEntries [
    ("model", str model),
    ("value", .object (ofEntries (dump.filter fun f => f.1 ∉ exclude)))])

def modelFingerprint (e : Encoding) (doc : Value) : String := e.sha256 (String.ofList (dumps doc))

def submissionTimeFields : List String := ["available_at", "expires_at"]

namespace SubmitCall

variable (e : Encoding) (c : SubmitCall)

def modelDump : List (String × Value) := [
  ("id", str c.id),
  ("function", str c.function),
  ("input", c.input),
  ("topic", str c.topic),
  ("version", int c.version),
  ("depth", int c.depth),
  ("priority", int c.priority),
  ("available_at", str (e.isoformat c.availableAt)),
  ("execution_timeout_ms", int c.executionTimeoutMs),
  ("expires_at", str (e.isoformat c.expiresAt)),
  ("retention_ms", int c.retentionMs),
  ("max_failures", int c.maxFailures),
  ("root_id", optionalStr c.rootId)]

def excluded : List String :=
  if c.rootId = none then submissionTimeFields else "retention_ms" :: submissionTimeFields

def document : Value :=
  Fingerprints.document "reaper.tasks.models.SubmitCall" (c.modelDump e) c.excluded

def fingerprint : String := modelFingerprint e (c.document e)

def request : CallRequest where
  id := c.id
  idempotencyKey := c.fingerprint e
  rootId := c.rootId
  expiresAt := c.expiresAt.instant
  retentionMs := c.retentionMs
  function := c.function
  version := c.version
  topic := c.topic
  input := e.jsonb c.input
  depth := c.depth
  priority := c.priority
  availableAt := c.availableAt.instant
  maxFailures := c.maxFailures
  executionTimeoutMs := c.executionTimeoutMs
  maxFailures_pos := c.maxFailures_pos
  root_ne := c.root_ne

/-- All that is fixed by the work, and not by the time at which it is submitted. -/
@[mk_iff] structure SameWork (c d : SubmitCall) : Prop where
  id : c.id = d.id
  function : c.function = d.function
  input : c.input.Same d.input
  topic : c.topic = d.topic
  version : c.version = d.version
  depth : c.depth = d.depth
  priority : c.priority = d.priority
  executionTimeoutMs : c.executionTimeoutMs = d.executionTimeoutMs
  maxFailures : c.maxFailures = d.maxFailures
  rootId : c.rootId = d.rootId
  retentionMs : c.rootId = none → c.retentionMs = d.retentionMs

end SubmitCall

namespace SubmitTimer

variable (e : Encoding) (t : SubmitTimer)

def modelDump : List (String × Value) := [
  ("id", str t.id),
  ("due_at", str (e.isoformat t.dueAt)),
  ("retention_ms", int t.retentionMs),
  ("root_id", optionalStr t.rootId)]

def excluded : List String := if t.rootId = none then [] else ["retention_ms"]

def document : Value :=
  Fingerprints.document "reaper.promises.models.SubmitTimer" (t.modelDump e) t.excluded

def fingerprint : String := modelFingerprint e (t.document e)

def request : TimerRequest where
  id := t.id
  idempotencyKey := t.fingerprint e
  rootId := t.rootId
  dueAt := t.dueAt.instant
  retentionMs := t.retentionMs
  root_ne := t.root_ne

@[mk_iff] structure SameWork (t u : SubmitTimer) : Prop where
  id : t.id = u.id
  dueAt : t.dueAt = u.dueAt
  rootId : t.rootId = u.rootId
  retentionMs : t.rootId = none → t.retentionMs = u.retentionMs

end SubmitTimer

inductive Submission
  | call (c : SubmitCall)
  | timer (t : SubmitTimer)

namespace Submission

def id : Submission → Id
  | .call c => c.id
  | .timer t => t.id

def document (e : Encoding) : Submission → Value
  | .call c => c.document e
  | .timer t => t.document e

def fingerprint (e : Encoding) : Submission → String
  | .call c => c.fingerprint e
  | .timer t => t.fingerprint e

def insert (e : Encoding) : Submission → Insert
  | .call c => (c.request e).insert
  | .timer t => (t.request e).insert

def Takes (e : Encoding) (db : Db) : Submission → Prop
  | .call c => (c.request e).Takes e.takes db
  | .timer t => (t.request e).promiseRow.Fits

def SameWork : Submission → Submission → Prop
  | .call c, .call d => c.SameWork d
  | .timer t, .timer u => t.SameWork u
  | _, _ => False

def times : Submission → List Datetime
  | .call _ => []
  | .timer t => [t.dueAt]

structure Apart (e : Encoding) (v w : Submission) : Prop where
  times : ∀ a ∈ v.times, ∀ b ∈ w.times, e.isoformat a = e.isoformat b → a = b
  documents : v.fingerprint e = w.fingerprint e → dumps (v.document e) = dumps (w.document e)

end Submission

def submitTimer (db : Db) (r : TimerRequest) : Option (Db × Except SubmitError (List (Id × Promise))) :=
  if ¬ r.promiseRow.Fits then some (db, .error .refused)
  else (Txn.alone db {} [.submitTimer r, .insertNext]).bind fun y =>
    (y.advance db (fun _ => true) .insertEnd).map fun z =>
      (z.outcome db, match z.stage with
        | .failed => .error .foreignKeyViolation
        | _ =>
          match (z.view db).promises.get r.id with
          | none => .error (.promiseNotFound r.id)
          | some p =>
            if ¬ p.Readable then .error .unreadable
            else if p.idempotencyKey ≠ r.idempotencyKey then .error (.idempotencyConflict r.id)
            else .ok [(r.id, p)])

inductive Request
  | calls (cs : List SubmitCall)
  | timer (t : SubmitTimer)

namespace Request

def parts : Request → List Submission
  | .calls cs => cs.map .call
  | .timer t => [.timer t]

def submit (e : Encoding) (db : Db) : Request → Option (Db × Except SubmitError (List (Id × Promise)))
  | .calls cs => submitMany e.takes db (cs.map fun c => c.request e)
  | .timer t => submitTimer db (t.request e)

end Request

section Documents

lemma natLiteral_inj {m n : ℕ} (h : natLiteral m = natLiteral n) : m = n :=
  Names.toDigits_inj (by decide) (by decide) (congrArg Literal.text h)

lemma toDigits_ne_minus {n : ℕ} {s : List Char} : Nat.toDigits 10 n ≠ '-' :: s := by
  intro h
  have hminus : '-' ∈ Nat.toDigits 10 n := by
    rw [h]
    exact List.mem_cons_self
  exact absurd (Names.mem_toDigits (by decide) (by decide) n '-' hminus) (by decide)

lemma intLiteral_inj {m n : ℤ} (h : intLiteral m = intLiteral n) : m = n := by
  have htext := congrArg Literal.text h
  cases m with
  | ofNat m =>
    cases n with
    | ofNat n => exact congrArg Int.ofNat (natLiteral_inj h)
    | negSucc n => exact absurd htext toDigits_ne_minus
  | negSucc m =>
    cases n with
    | ofNat n => exact absurd htext.symm toDigits_ne_minus
    | negSucc n =>
      have hdigits := Names.toDigits_inj (by decide) (by decide) (List.cons.inj htext).2
      exact congrArg Int.negSucc (Nat.succ.inj hdigits)

lemma str_same_iff {s t : String} : (str s).Same (str t) ↔ s = t :=
  text_same_iff.trans String.toList_inj

lemma int_same_iff {m n : ℤ} : (int m).Same (int n) ↔ m = n :=
  literal_same_iff.trans ⟨intLiteral_inj, congrArg intLiteral⟩

lemma optionalStr_same_iff {s t : Option String} : (optionalStr s).Same (optionalStr t) ↔ s = t := by
  cases s with
  | none =>
    cases t with
    | none => exact iff_of_true (fun _ => rfl) rfl
    | some t => exact iff_of_false (fun h => by cases h []) (by simp)
  | some s =>
    cases t with
    | none => exact iff_of_false (fun h => by cases h []) (by simp)
    | some t => exact str_same_iff.trans (Option.some_inj).symm

variable {entries entries' : List (String × Value)}

lemma mem_keys_ofEntries {k : String} : k.toList ∈ (ofEntries entries).keys ↔ k ∈ entries.map Prod.fst := by
  induction entries with
  | nil => simp [ofEntries, Fields.keys]
  | cons entry entries ih => simp [ofEntries, Fields.keys, ih, String.toList_inj]

lemma ofEntries_distinct (hn : (entries.map Prod.fst).Nodup) (hv : ∀ entry ∈ entries, entry.2.Distinct) :
    (ofEntries entries).Distinct := by
  induction entries with
  | nil => trivial
  | cons entry entries ih =>
    rw [List.map_cons, List.nodup_cons] at hn
    refine ⟨?_, hv entry List.mem_cons_self, ih hn.2 fun f hf => hv f (List.mem_cons_of_mem _ hf)⟩
    rw [mem_keys_ofEntries]
    exact hn.1

lemma ofEntries_cons_same_iff {key : String} {v w : Value} (hk : key ∉ entries.map Prod.fst)
    (hk' : key ∉ entries'.map Prod.fst) :
    (ofEntries ((key, v) :: entries)).Same (ofEntries ((key, w) :: entries')) ↔
      v.Same w ∧ (ofEntries entries).Same (ofEntries entries') := by
  rw [← mem_keys_ofEntries] at hk hk'
  exact same_cons_iff hk hk'

lemma ofEntries_nil_same : (ofEntries []).Same (ofEntries []) := fun _ _ => rfl

lemma same_keys (key : String) (h : (ofEntries entries).Same (ofEntries entries')) :
    key ∈ entries.map Prod.fst ↔ key ∈ entries'.map Prod.fst := by
  rw [← mem_keys_ofEntries, ← mem_keys_ofEntries]
  exact ⟨h.mem, Fields.Same.mem fun k path => (h k path).symm⟩

lemma document_same_iff {model model' : String} {dump dump' : List (String × Value)}
    {exclude exclude' : List String} :
    (document model dump exclude).Same (document model' dump' exclude') ↔ model = model' ∧
      (ofEntries (dump.filter fun f => f.1 ∉ exclude)).Same
        (ofEntries (dump'.filter fun f => f.1 ∉ exclude')) := by
  rw [document, document, object_same_iff]
  simp [ofEntries_cons_same_iff, ofEntries_nil_same, str_same_iff, object_same_iff]

lemma document_distinct {model : String} {dump : List (String × Value)} {exclude : List String}
    (hn : (dump.map Prod.fst).Nodup) (hv : ∀ f ∈ dump, f.2.Distinct) :
    (document model dump exclude).Distinct := by
  have hvalue : (ofEntries (dump.filter fun f => f.1 ∉ exclude)).Distinct := by
    refine ofEntries_distinct ?_ fun f hf => hv f (List.mem_of_mem_filter hf)
    exact hn.sublist (List.filter_sublist.map _)
  refine ofEntries_distinct (by simp) fun f hf => ?_
  simp only [List.mem_cons, List.not_mem_nil, or_false] at hf
  obtain rfl | rfl := hf
  · trivial
  · exact hvalue

end Documents

section Work

variable {e : Encoding} {c d : SubmitCall} {t u : SubmitTimer}

lemma SubmitCall.covered_root (h : c.rootId = none) :
    (c.modelDump e).filter (fun f => f.1 ∉ c.excluded) = [("id", str c.id), ("function", str c.function),
      ("input", c.input), ("topic", str c.topic), ("version", int c.version), ("depth", int c.depth),
      ("priority", int c.priority), ("execution_timeout_ms", int c.executionTimeoutMs),
      ("retention_ms", int c.retentionMs), ("max_failures", int c.maxFailures),
      ("root_id", optionalStr none)] := by
  simp [modelDump, excluded, submissionTimeFields, h]

lemma SubmitCall.covered_child {root : Id} (h : c.rootId = some root) :
    (c.modelDump e).filter (fun f => f.1 ∉ c.excluded) = [("id", str c.id), ("function", str c.function),
      ("input", c.input), ("topic", str c.topic), ("version", int c.version), ("depth", int c.depth),
      ("priority", int c.priority), ("execution_timeout_ms", int c.executionTimeoutMs),
      ("max_failures", int c.maxFailures), ("root_id", optionalStr (some root))] := by
  simp [modelDump, excluded, submissionTimeFields, h]

lemma SubmitCall.document_same_iff : (c.document e).Same (d.document e) ↔ c.SameWork d := by
  rw [SubmitCall.document, SubmitCall.document, Fingerprints.document_same_iff, SubmitCall.sameWork_iff]
  cases hc : c.rootId with
  | none =>
    cases hd : d.rootId with
    | none =>
      rw [c.covered_root hc, d.covered_root hd]
      simp [ofEntries_cons_same_iff, ofEntries_nil_same, str_same_iff, int_same_iff, optionalStr_same_iff]
      tauto
    | some root =>
      -- only the root has retention_ms
      rw [c.covered_root hc, d.covered_child hd]
      refine iff_of_false (fun hs => ?_) (by simp)
      simpa using same_keys "retention_ms" hs.2
  | some root =>
    cases hd : d.rootId with
    | none =>
      rw [c.covered_child hc, d.covered_root hd]
      refine iff_of_false (fun hs => ?_) (by simp)
      simpa using same_keys "retention_ms" hs.2
    | some root' =>
      rw [c.covered_child hc, d.covered_child hd]
      simp [ofEntries_cons_same_iff, ofEntries_nil_same, str_same_iff, int_same_iff, optionalStr_same_iff]

lemma SubmitTimer.covered_root (h : t.rootId = none) : (t.modelDump e).filter (fun f => f.1 ∉ t.excluded) =
    [("id", str t.id), ("due_at", str (e.isoformat t.dueAt)), ("retention_ms", int t.retentionMs),
      ("root_id", optionalStr none)] := by
  simp [modelDump, excluded, h]

lemma SubmitTimer.covered_child {root : Id} (h : t.rootId = some root) :
    (t.modelDump e).filter (fun f => f.1 ∉ t.excluded) =
      [("id", str t.id), ("due_at", str (e.isoformat t.dueAt)), ("root_id", optionalStr (some root))] := by
  simp [modelDump, excluded, h]

lemma SubmitTimer.document_same_iff (htimes : e.isoformat t.dueAt = e.isoformat u.dueAt → t.dueAt = u.dueAt) :
    (t.document e).Same (u.document e) ↔ t.SameWork u := by
  have hdue : e.isoformat t.dueAt = e.isoformat u.dueAt ↔ t.dueAt = u.dueAt := ⟨htimes, congrArg _⟩
  rw [SubmitTimer.document, SubmitTimer.document, Fingerprints.document_same_iff, SubmitTimer.sameWork_iff]
  cases ht : t.rootId with
  | none =>
    cases hu : u.rootId with
    | none =>
      rw [t.covered_root ht, u.covered_root hu]
      simp [ofEntries_cons_same_iff, ofEntries_nil_same, str_same_iff, int_same_iff, optionalStr_same_iff, hdue]
    | some root =>
      rw [t.covered_root ht, u.covered_child hu]
      refine iff_of_false (fun hs => ?_) (by simp)
      simpa using same_keys "retention_ms" hs.2
  | some root =>
    cases hu : u.rootId with
    | none =>
      rw [t.covered_child ht, u.covered_root hu]
      refine iff_of_false (fun hs => ?_) (by simp)
      simpa using same_keys "retention_ms" hs.2
    | some root' =>
      rw [t.covered_child ht, u.covered_child hu]
      simp [ofEntries_cons_same_iff, ofEntries_nil_same, str_same_iff, optionalStr_same_iff, hdue]

lemma optionalStr_distinct (s : Option String) : (optionalStr s).Distinct := by
  cases s <;> trivial

lemma SubmitCall.document_distinct : (c.document e).Distinct := by
  refine Fingerprints.document_distinct (by simp [modelDump]) fun f hf => ?_
  simp only [modelDump, List.mem_cons, List.not_mem_nil, or_false] at hf
  obtain rfl | rfl | rfl | rfl | rfl | rfl | rfl | rfl | rfl | rfl | rfl | rfl | rfl := hf
  case inr.inr.inl => exact c.input_distinct
  case inr.inr.inr.inr.inr.inr.inr.inr.inr.inr.inr.inr => exact optionalStr_distinct _
  all_goals trivial

lemma SubmitTimer.document_distinct : (t.document e).Distinct := by
  refine Fingerprints.document_distinct (by simp [modelDump]) fun f hf => ?_
  simp only [modelDump, List.mem_cons, List.not_mem_nil, or_false] at hf
  obtain rfl | rfl | rfl | rfl := hf
  case inr.inr.inr => exact optionalStr_distinct _
  all_goals trivial

lemma Submission.document_distinct (w : Submission) : (w.document e).Distinct := by
  cases w with
  | call c => exact c.document_distinct
  | timer t => exact t.document_distinct

lemma Submission.document_same_iff {v w : Submission} (h : v.Apart e w) :
    (v.document e).Same (w.document e) ↔ v.SameWork w := by
  cases v with
  | call c =>
    cases w with
    | call d => exact SubmitCall.document_same_iff
    | timer u =>
      refine iff_of_false (fun hs => ?_) fun hw => hw.elim
      exact absurd (Fingerprints.document_same_iff.mp hs).1 (by decide)
  | timer t =>
    cases w with
    | call d =>
      refine iff_of_false (fun hs => ?_) fun hw => hw.elim
      exact absurd (Fingerprints.document_same_iff.mp hs).1 (by decide)
    | timer u =>
      exact SubmitTimer.document_same_iff
        (h.times _ (List.mem_singleton_self _) _ (List.mem_singleton_self _))

lemma Submission.fingerprint_eq_iff {v w : Submission} (h : v.Apart e w) :
    v.fingerprint e = w.fingerprint e ↔ v.SameWork w := by
  rw [← Submission.document_same_iff h, ← dumps_eq_iff v.document_distinct w.document_distinct]
  refine ⟨h.documents, fun hd => ?_⟩
  cases v <;> cases w <;> exact congrArg (fun doc => e.sha256 (String.ofList doc)) hd

end Work

def recordFor (db : Db) (e : Insert) : Promise := (db.promises.get e.id).getD e.promise

/-- The answer to requests for these rows, by the keys of the stored promises, where `refusable` says that
PostgreSQL does not take the data of one of them. -/
def Answered (db db' : Db) (refusable : Prop) (es : List Insert) :
    Except SubmitError (List (Id × Promise)) → Prop
  | .ok records => db.Keeps db' ∧
      List.Forall₂ (fun e record => record.1 = e.id ∧ db'.promises.get e.id = some record.2) es records ∧
      ∀ e ∈ es, ∀ p, db.promises.get e.id = some p → p.idempotencyKey = e.promise.idempotencyKey
  | .error (.idempotencyConflict id) => ∃ e ∈ es, e.id = id ∧
      ∃ p, db.promises.get id = some p ∧ p.idempotencyKey ≠ e.promise.idempotencyKey
  | .error .foreignKeyViolation => db' = db ∧ ∃ e ∈ es, rootStored db e.promise = false
  | .error .refused => db' = db ∧ refusable
  | .error .unreadable => ∃ e ∈ es, ¬ (recordFor db e).Readable
  | .error (.promiseNotFound _) | .error .transactionAborted => False

section Keys

variable {jsonb : Json → Bool} {db : Db} {requests : List CallRequest}

lemma recordFor_of_stored {e : Insert} (hkey : (recordFor db e).idempotencyKey ≠ e.promise.idempotencyKey) :
    db.promises.get e.id = some (recordFor db e) := by
  rw [recordFor] at hkey ⊢
  cases hold : db.promises.get e.id with
  | some p => rfl
  | none =>
    rw [hold] at hkey
    exact absurd rfl hkey

lemma submitMany_answered (hn : (requestIds requests).Nodup) :
    ∃ db' a, submitMany jsonb db requests = some (db', a) ∧
      Answered db db' (∃ r ∈ requests, ¬ r.Takes jsonb db) (requests.map CallRequest.insert) a := by
  by_cases hne : requests = []
  · subst hne
    refine ⟨db, .ok [], ?_, fun _ _ hp => hp, .nil, fun _ he => by cases he⟩
    rw [submitMany, submitCalls, if_pos rfl]
    rfl
  have hview : ({} : Txn).view db = db := Txn.view_empty rfl
  obtain ⟨z, a, hs, hend⟩ := @submitCalls_statement jsonb db {} none _ (Or.inl ⟨rfl, rfl⟩) hne hn
  refine ⟨z.outcome db, a, by rw [submitMany, hs]; rfl, ?_⟩
  cases hend with
  | refused hst hdata =>
    rw [hview] at hdata
    exact ⟨by rw [Txn.outcome, hst], hdata⟩
  | foreignKey hst hroots =>
    rw [hview] at hroots
    obtain ⟨r, hr, hroot⟩ : ∃ r ∈ requests, ¬ rootStored db r.insert.promise = true := by simpa using hroots
    exact ⟨by rw [Txn.outcome, hst], r.insert, List.mem_map_of_mem hr, Bool.eq_false_of_not_eq_true hroot⟩
  | stored rows htaken hd hst hreads hrecords =>
    rw [hview] at hrecords
    have hstores : z.view db = db.patch (stores db {} requests) := by rw [Txn.view, hd]
    have hkeeps : db.Keeps (z.view db) := by
      have hk := @stores_keeps db {} _ hn
      rwa [hview, ← hstores] at hk
    have hdb : z.outcome db = z.view db := by
      rw [Txn.outcome, hst]
      rfl
    have hanswer := finishCalls_holds hreads
    rw [hdb, readCalls]
    split_ifs with hreadable
    · cases ha : finishCalls (z.view db) requests rows with
      | ok records =>
        rw [ha] at hanswer
        have hboth : List.Forall₂ (fun r record =>
            (∀ p, db.promises.get r.id = some p → p.idempotencyKey = r.idempotencyKey) ∧
              record.1 = r.id ∧ (z.view db).promises.get r.id = some record.2) requests records := by
          refine hanswer.imp fun r record hrecord => ?_
          obtain ⟨hid, hget, hkey⟩ := hrecord
          refine ⟨fun p hp => ?_, hid, hget⟩
          rw [hkeeps _ p hp] at hget
          cases hget
          exact hkey
        obtain ⟨hkeys, hrecords⟩ := (List.forall₂_and_left _ _).mp hboth
        exact ⟨hkeeps, List.forall₂_map_left_iff.mpr hrecords, List.forall_mem_map.mpr hkeys⟩
      | error error =>
        rw [ha] at hanswer
        obtain ⟨id, rfl⟩ | ⟨id, rfl⟩ := finishCalls_error ha
        · obtain ⟨r, hr, rfl, p, hp, hkey⟩ := hanswer hn
          refine ⟨r.insert, List.mem_map_of_mem hr, rfl, p, ?_, hkey⟩
          -- a promise that this batch has stored has the key of its request
          have hrecord := @stores_record db {} _ hn r hr
          rw [show ({} : Txn).delta = {} from rfl, ← hstores, hview, hp] at hrecord
          obtain rfl : p = recordFor db r.insert := Option.some.inj hrecord
          exact recordFor_of_stored hkey
        · exact hanswer
    · obtain ⟨e, he, hunreadable⟩ : ∃ e ∈ rows, ¬ e.2.Readable := by simpa using hreadable
      obtain ⟨r, hr, rfl⟩ := hrecords e he
      exact ⟨r.insert, List.mem_map_of_mem hr, hunreadable⟩

lemma submitTimer_answered (r : TimerRequest) : ∃ db' a, submitTimer db r = some (db', a) ∧
    Answered db db' (¬ r.promiseRow.Fits) [r.insert] a := by
  by_cases hfits : ¬ r.promiseRow.Fits
  · exact ⟨db, .error .refused, by rw [submitTimer, if_pos hfits], rfl, hfits⟩
  have hs : (({} : Txn).enter (.inserting none [r.insert] [])).stage = .inserting none [r.insert] [] := rfl
  obtain ⟨y, ids, hy, hd, hst, hids⟩ := inserts_alone db hs
  have halone : Txn.alone db {} [.submitTimer r, .insertNext] = some y := hy
  have hview : y.view db = db.patch (Delta.insert db {} r.insert) := by
    rw [Txn.view, hd]
    rfl
  have hkeeps : db.Keeps (y.view db) := by
    intro id p hp
    have hstored : (db.patch {}).promises.get id = some p := by rwa [Db.patch_empty]
    rw [hview, ← hstored]
    exact (@patch_inserts db {} [r.insert] id (List.nodup_singleton _)).1 (by simp [hstored])
  have hrecord : (y.view db).promises.get r.id = some ((db.promises.get r.id).getD r.insert.promise) := by
    cases hold : db.promises.get r.id with
    | some p => exact hkeeps _ p hold
    | none =>
      rw [hview]
      exact @patch_insert_self db {} r.insert (by rwa [Db.patch_empty])
  rw [submitTimer, if_neg hfits, halone]
  simp only [Option.bind_some, Txn.advance, hst, Txn.insertEnd]
  split_ifs with hfail hgrant
  · refine ⟨_, _, rfl, rfl, r.insert, List.mem_singleton_self _, ?_⟩
    obtain ⟨id, hid, hbad⟩ := hfail
    obtain hid | ⟨hnew, e, he, rfl⟩ := hids id hid
    · cases hid
    · obtain rfl := List.mem_singleton.mp he
      have hnew : db.promises.get r.id = none := by
        rw [← hnew]
        exact congrArg (fun db => db.promises.get r.id) (Db.patch_empty db).symm
      rw [show r.insert.id = r.id from rfl, hrecord, hnew, Option.all_some] at hbad
      by_contra hroot
      exact hbad (rootStored_keeps hkeeps (Bool.eq_true_of_not_eq_false hroot))
  · set z := (y.rootsOf db ids).foldl (fun y root => y.lock (.promise root) .keyShare) y
    have hz : (z.enter .done).view db = y.view db := congrArg db.patch (foldl_lock_delta _ y)
    refine ⟨_, _, rfl, ?_⟩
    simp only [Txn.enter] at hz
    simp only [Option.elim_none, Txn.outcome, Txn.enter, hz, hrecord]
    split_ifs with hreadable hkey
    · have hold : db.promises.get r.insert.id = some (recordFor db r.insert) := recordFor_of_stored hkey
      exact ⟨r.insert, List.mem_singleton_self _, rfl, _, hold, hkey⟩
    · refine ⟨hkeeps, .cons ⟨rfl, hrecord⟩ .nil, fun e he p hp => ?_⟩
      obtain rfl := List.mem_singleton.mp he
      have hp : db.promises.get r.id = some p := hp
      rw [hp] at hkey
      exact not_not.mp hkey
    · exact ⟨r.insert, List.mem_singleton_self _, hreadable⟩
  · exact absurd (fun _ _ => trivial) hgrant

end Keys

def Answers (e : Encoding) (origin : Id → Submission) (db db' : Db) (parts : List Submission) :
    Except SubmitError (List (Id × Promise)) → Prop
  | .ok records => db.Keeps db' ∧
      List.Forall₂ (fun w record => record.1 = w.id ∧ db'.promises.get w.id = some record.2) parts records ∧
      ∀ w ∈ parts, db.promises.get w.id ≠ none → (origin w.id).SameWork w
  | .error (.idempotencyConflict i) =>
      ∃ w ∈ parts, w.id = i ∧ db.promises.get i ≠ none ∧ ¬ (origin i).SameWork w
  | .error .foreignKeyViolation => db' = db ∧ ∃ w ∈ parts, rootStored db (w.insert e).promise = false
  | .error .refused => db' = db ∧ ∃ w ∈ parts, ¬ w.Takes e db
  | .error .unreadable => ∃ w ∈ parts, ¬ (recordFor db (w.insert e)).Readable
  | .error (.promiseNotFound _) | .error .transactionAborted => False

section Answers

variable {e : Encoding} {origin : Id → Submission} {db db' : Db}

lemma Submission.insert_id (w : Submission) : (w.insert e).id = w.id := by
  cases w <;> rfl

lemma Submission.insert_key (w : Submission) : (w.insert e).promise.idempotencyKey = w.fingerprint e := by
  cases w <;> rfl

lemma Answered.answers {parts : List Submission} {a : Except SubmitError (List (Id × Promise))}
    {refusable : Prop}
    (horigin : ∀ w ∈ parts, ∀ p, db.promises.get w.id = some p →
      p.idempotencyKey = (origin w.id).fingerprint e)
    (hapart : ∀ w ∈ parts, (origin w.id).Apart e w)
    (hrefuse : refusable → ∃ w ∈ parts, ¬ w.Takes e db)
    (h : Answered db db' refusable (parts.map (Submission.insert e)) a) :
    Answers e origin db db' parts a := by
  cases a with
  | ok records =>
    obtain ⟨hkeeps, hrecords, hkeys⟩ := h
    refine ⟨hkeeps, ?_, fun w hw hstored => ?_⟩
    · refine (List.forall₂_map_left_iff.mp hrecords).imp fun w record hr => ?_
      rw [w.insert_id] at hr
      exact hr
    · obtain ⟨p, hp⟩ := Option.ne_none_iff_exists'.mp hstored
      have hkey := hkeys _ (List.mem_map_of_mem hw) p (by rwa [w.insert_id])
      rwa [w.insert_key, horigin w hw p hp, Submission.fingerprint_eq_iff (hapart w hw)] at hkey
  | error error =>
    cases error with
    | idempotencyConflict id =>
      obtain ⟨e', he, rfl, p, hp, hne⟩ := h
      obtain ⟨w, hw, rfl⟩ := List.mem_map.mp he
      rw [w.insert_id] at hp ⊢
      rw [w.insert_key, horigin w hw p hp, Ne, Submission.fingerprint_eq_iff (hapart w hw)] at hne
      exact ⟨w, hw, rfl, hp ▸ Option.some_ne_none p, hne⟩
    | promiseNotFound | transactionAborted => exact h
    | foreignKeyViolation =>
      obtain ⟨hdb, e', he, hroot⟩ := h
      obtain ⟨w, hw, rfl⟩ := List.mem_map.mp he
      exact ⟨hdb, w, hw, hroot⟩
    | refused => exact ⟨h.1, hrefuse h.2⟩
    | unreadable =>
      obtain ⟨e', he, hunreadable⟩ := h
      obtain ⟨w, hw, rfl⟩ := List.mem_map.mp he
      exact ⟨w, hw, hunreadable⟩

end Answers

section Samples

def firstCall : SubmitCall where
  id := "sum"
  function := "app.total"
  input := .object (ofEntries [("a", int 1), ("b", int 2)])
  availableAt := ⟨1700000000000000, 0⟩
  expiresAt := ⟨1731536000000000, 0⟩
  retentionMs := 60000
  maxFailures := 7
  input_distinct := ofEntries_distinct (by decide) (by simp [int, Value.Distinct])

def laterCall : SubmitCall where
  id := "sum"
  function := "app.total"
  input := .object (ofEntries [("b", int 2), ("a", int 1)])
  availableAt := ⟨1700003600000000, 0⟩
  expiresAt := ⟨1731539600000000, 0⟩
  retentionMs := 60000
  maxFailures := 7
  input_distinct := ofEntries_distinct (by decide) (by simp [int, Value.Distinct])

def firstDocument : String :=
  "\x7b\"model\":\"reaper.tasks.models.SubmitCall\",\"value\":\x7b\"depth\":0,\"execution_timeout_ms\":30000,\"function\":\"app.total\",\"id\":\"sum\",\"input\":\x7b\"a\":1,\"b\":2\x7d,\"max_failures\":7,\"priority\":0,\"retention_ms\":60000,\"root_id\":null,\"topic\":\"default\",\"version\":1\x7d\x7d"

def sampleEncoding : Encoding where
  isoformat t :=
    if t.instant = 1700000000000000 then "2023-11-14T22:13:20Z"
    else if t.instant = 1700003600000000 then "2023-11-14T23:13:20Z"
    else if t.instant = 1731536000000000 then "2024-11-13T22:13:20Z"
    else "2024-11-13T23:13:20Z"
  sha256 doc := if doc = firstDocument then "68944dedd6871af16e60ff4efe2714550954994e80da0ee857a24814db72ae5d" else ""
  jsonb _ := ⟨"\x7b\"a\": 1, \"b\": 2\x7d"⟩
  takes _ := true

def firstStored : Db := { promises := Dict.empty.set "sum" (firstCall.request sampleEncoding).insert.promise }

example : String.ofList (dumps (firstCall.document sampleEncoding)) = firstDocument := by decide +kernel

lemma laterCall_dumps : dumps (firstCall.document sampleEncoding) = dumps (laterCall.document sampleEncoding) := by
  decide +kernel

end Samples

end Reaper.Store.Fingerprints
