import Reaper.Store.Maintenance

/-! Every run of transactions keeps the tables sound, and no step changes a settled promise. -/

namespace Reaper.Store

open Reaper.Library Reaper.Library.Locks

namespace Sys

lemma step_cases {s s' : Sys} {k : ℕ} {a : Action} (h : s.step k a = some s') :
    (a = .begin ∧ s.txns.get k = none ∧ s' = { s with txns := s.txns.set k {} }) ∨
    (∃ b x y, a = .act b ∧ s.txns.get k = some x ∧ Txn.Step s.committed (s.grant k) x b y ∧
      s' = { s with txns := s.txns.set k y }) ∨
    (∃ x, a = .commit ∧ s.txns.get k = some x ∧ x.stage = .done ∧
      s' = { committed := x.view s.committed, txns := s.txns.erase k }) ∨
    (a = .rollback ∧ s' = { s with txns := s.txns.erase k }) := by
  cases a with
  | begin =>
    simp only [step, Option.ite_none_right_eq_some, Option.some_inj] at h
    exact Or.inl ⟨rfl, h.1, h.2.symm⟩
  | act b =>
    obtain ⟨x, hx, h⟩ := Option.bind_eq_some_iff.mp h
    obtain ⟨y, hy, rfl⟩ := Option.map_eq_some_iff.mp h
    exact Or.inr (Or.inl ⟨b, x, y, rfl, hx, .of_advance hy, rfl⟩)
  | commit =>
    simp only [step] at h
    split at h
    · rename_i locks d hx
      cases h
      exact Or.inr (Or.inr (Or.inl ⟨_, rfl, hx, rfl, rfl⟩))
    · cases h
  | rollback =>
    simp only [step, Option.ite_none_left_eq_some, Option.some_inj] at h
    exact Or.inr (Or.inr (Or.inr ⟨rfl, h.2.symm⟩))

structure Sound (s : Sys) : Prop where
  wf : Wf s.committed
  exclusive : Exclusive s.held
  safe : ∀ k x, s.txns.get k = some x → Safe s.committed x

lemma Sound.start {db : Db} (h : Wf db) : Sound { committed := db } :=
  ⟨h, fun _ _ hl => (by cases hl), fun _ _ hx => (by cases hx)⟩

lemma Sound.frame {s : Sys} (h : Sound s) {j k : ℕ} (hjk : j ≠ k) {x y : Txn}
    (hx : s.txns.get j = some x) (hy : s.txns.get k = some y) :
    Frame x.Owns s.committed (y.view s.committed) := by
  refine (h.safe k y hy).covered.frame fun r hr hy' => ?_
  refine h.exclusive.not_owns hjk (j := j) (k := k) (r := r) ?_ ?_
  · rwa [held_of_get hx]
  · rwa [held_of_get hy]

lemma Sound.step {s s' : Sys} {k : ℕ} {a : Action} (h : Sound s) (hs : s.step k a = some s') :
    Sound s' ∧ Later s.committed s'.committed := by
  have hex := exclusive_step h.exclusive hs
  obtain ⟨-, -, rfl⟩ | ⟨b, x, y, -, hx, hy, rfl⟩ | ⟨x, -, hx, -, rfl⟩ | ⟨-, rfl⟩ := step_cases hs
  · exact ⟨⟨h.wf, hex, Dict.forall_set (fun j u _ hj => h.safe j u hj) (Safe.opened _)⟩, .refl _⟩
  · exact ⟨⟨h.wf, hex, Dict.forall_set (fun j u _ hj => h.safe j u hj)
      ((h.safe k x hx).step h.wf hy)⟩, .refl _⟩
  · have hc := (h.safe k x hx).covered
    refine ⟨⟨hc.wf h.wf, hex, Dict.forall_erase fun j u hjk hj => ?_⟩, hc.later⟩
    exact (h.safe j u hj).stable h.wf (hc.wf h.wf) (h.frame hjk hj hx)
  · exact ⟨⟨h.wf, hex, Dict.forall_erase fun j u _ hj => h.safe j u hj⟩, .refl _⟩

lemma Sound.run {s s' : Sys} {as : List (ℕ × Action)} (h : Sound s) (hr : s.run as = some s') :
    Sound s' ∧ Later s.committed s'.committed := by
  induction as generalizing s with
  | nil =>
    cases hr
    exact ⟨h, .refl _⟩
  | cons e as ih =>
    obtain ⟨s₁, hs, hr⟩ := Option.bind_eq_some_iff.mp hr
    obtain ⟨h₁, hl₁⟩ := h.step hs
    obtain ⟨h₂, hl₂⟩ := ih h₁ hr
    exact ⟨h₂, hl₁.trans h.wf hl₂⟩

section Sessions

def opening (k : ℕ) (as : List Act) : List (ℕ × Action) := (k, .begin) :: as.map fun a => (k, .act a)

def closing (k : ℕ) (as : List Act) : List (ℕ × Action) := as.map (fun a => (k, .act a)) ++ [(k, .commit)]

def session (k : ℕ) (as : List Act) : List (ℕ × Action) := opening k as ++ closing k []

def sampleKey : String := "68944dedd6871af16e60ff4efe2714550954994e80da0ee857a24814db72ae5d"

def sampleCall (id : Id) (rootId : Option Id) (maxFailures : ℕ) (h : rootId ≠ some id)
    (hm : 0 < maxFailures) : CallRequest where
  id := id
  idempotencyKey := sampleKey
  rootId := rootId
  expiresAt := 100
  retentionMs := 1
  function := "work"
  version := 1
  topic := "default"
  input := ⟨"null"⟩
  availableAt := 0
  maxFailures := maxFailures
  maxFailures_pos := hm
  root_ne := h

def rootCall : CallRequest := sampleCall "root" none 3 (by decide) (by decide)

def childCall : CallRequest := sampleCall "child" (some "root") 1 (by decide) (by decide)

def childTimer : TimerRequest where
  id := "timer"
  idempotencyKey := "timer"
  rootId := some "root"
  dueAt := 20
  retentionMs := 1
  root_ne := by decide

def failure : Json := ⟨"\x7b\"type\":\"ValueError\"\x7d"⟩

def claimNth (n : ℕ) (now : Time) : List Act := .claim "default" [] now :: List.replicate n .claimNext

def stored (children : List Act) : List (ℕ × Action) :=
  session 0 [.submitCalls [rootCall], .insertNext, .insertEnd] ++
    session 0 (claimNth 1 0 ++ children ++ [.insertNext, .insertEnd, .retryTask failure 0 1])

def awaits (a : Id) : List Act := [.suspendTask [a], .suspendNext, .suspendEnd 4]

end Sessions

/-- Once a promise is settled, its row stays as it is in every run of transactions. -/
theorem settled_immutable {db : Db} (hw : Wf db) {as bs : List (ℕ × Action)} {s s' : Sys}
    (hs : run { committed := db } as = some s) (hs' : s.run bs = some s') {id : Id} {p : Promise}
    (hp : s.committed.promises.get id = some p) (hset : ¬ p.Pending) :
    s'.committed.promises.get id = some p := by
  obtain ⟨hsound, -⟩ := (Sound.start hw).run hs
  obtain ⟨-, hlater⟩ := hsound.run hs'
  obtain ⟨p', hp', -, -, hkeep⟩ := hlater.promise id p hp
  rw [hp', hkeep hset]

def childResolved : List (ℕ × Action) :=
  stored [.submitCalls [childCall]] ++
    session 0 (claimNth 1 2 ++ [.settleTask (.complete none), .lockPromise, .settle 5, .wakeEnd []])

def submittedAgain : List (ℕ × Action) :=
  session 1 [.submitCalls [childCall], .insertNext, .insertEnd] ++
    session 2 [.processDue 10 200, .lockExpired, .expiredEnd, .lockTimeout, .settleDue, .wakeEnd []]

lemma childResolved_runs : (run {} childResolved).isSome = true := by decide +kernel

lemma submittedAgain_runs :
    (((run {} childResolved).get childResolved_runs).run submittedAgain).isSome = true := by
  decide +kernel

theorem settled_immutable_child :
    ((((run {} childResolved).get childResolved_runs).run submittedAgain).get
      submittedAgain_runs).committed.promises.get "child" =
        some (childCall.insert.promise.settle (.resolved none 5)) :=
  settled_immutable .empty (Option.some_get childResolved_runs).symm
    (Option.some_get submittedAgain_runs).symm (by decide +kernel) (by decide)

end Sys

end Reaper.Store
