import Reaper.Worker.Spoken
import Mathlib.Algebra.Order.Group.Multiset
import Mathlib.Tactic.Abel

/-! The links of a poll loop: its connection pool and the connections of its listener. Any await may
raise or be cancelled, and what has been opened is to be closed. -/

namespace Reaper.Worker.Links

open Reaper.Worker.PollTasks

inductive Link
  | pool
  | listener (c : ℕ)
  deriving DecidableEq

inductive Fault
  | cancelled
  /-- an error of the connection or of its interface, an OSError, and so a timeout -/
  | link
  | other
  deriving DecidableEq

inductive Caller
  | listen
  | arm
  | wait (wake : ListenerWake)

inductive Setup
  | connected
  | listening
  | adding
  | added

def Setup.next : Setup → Option Setup
  | .connected => some .listening
  | .listening => some .adding
  | .adding => some .added
  | .added => none

inductive Op
  /-- PostgresPool.connect -/
  | poolChecked
  | poolCreating
  | poolCreated
  | poolDiscarding
  /-- PostgresListener.connect -/
  | connectChecked (caller : Caller)
  | connecting (caller : Caller)
  | setting (caller : Caller) (c : ℕ) (setup : Setup)
  | discarding (caller : Caller) (c : ℕ)
  | replacing (caller : Caller) (previous : ℕ)
  /-- PostgresListener.maintain, which reads the clock -/
  | maintaining (caller : Caller)
  | probeChecked (caller : Caller)
  | probing (caller : Caller)
  | probed (caller : Caller)
  /-- PostgresListener.wait -/
  | waitChecked
  | notified
  | waited (wake : ListenerWake)
  /-- PostgresListener.close and PostgresPool.close -/
  | closing (l : Link)

inductive Answer
  | loop (a : PollTasks.Answer)
  | returned
  | raised (e : Fault)
  | connection (c : ℕ)
  | clock (worn due : Bool)
  | woken (wake : ListenerWake)

structure Session where
  place : Place := .opening
  op : Option Op := some .poolChecked
  pool : Bool := false
  connection : Option ℕ := none
  opened : Multiset Link := 0

namespace Session

def goto (s : Session) (op : Op) : Session := { s with op := some op }

/-- The loop goes on to its next await. Both closes take the link from its field at once. -/
def arrive (s : Session) (place : Place) : Session :=
  let s := { s with place := place }
  match place with
  | .listening => s.goto (.connectChecked .listen)
  | .arming => s.goto (.maintaining .arm)
  | .waiting => s.goto .waitChecked
  | .closing _ => { s with
      connection := none
      op := s.connection.map fun c => .closing (.listener c) }
  | .leaving _ => { s with
      pool := false
      op := if s.pool then some (.closing .pool) else none }
  | _ => { s with op := none }

def resumed (s : Session) (a : PollTasks.Answer) : Option Session :=
  (PollTasks.resume s.place a).map fun r => s.arrive r.1

def raise (s : Session) : Option Session := s.resumed .raised

def maintained (s : Session) (activity : ListenerActivity) : Caller → Option Session
  | .listen => s.resumed .returned
  | .arm => s.resumed (.activity activity)
  | .wait wake => s.resumed (.woken wake activity)

def replace (s : Session) (caller : Caller) (c : ℕ) : Option Session :=
  let s' := { s with connection := some c }
  match s.connection with
  | some previous => some (s'.goto (.replacing caller previous))
  | none => s'.maintained .recycled caller

/-- close_postgres_connection, and the close of a pool: what is not closed gracefully is terminated,
unless its close has raised some other error. -/
def close (s : Session) (l : Link) : Answer → Option (Session × Option Fault)
  | .returned | .raised .link => some ({ s with opened := s.opened.erase l }, none)
  | .raised .cancelled => some ({ s with opened := s.opened.erase l }, some .cancelled)
  | .raised .other => some (s, some .other)
  | _ => none

def operate (s : Session) : Op → Answer → Option Session
  | .poolChecked, .returned => some (s.goto .poolCreating)
  | .poolChecked, .raised _ | .poolCreating, .raised _ => s.raise
  | .poolCreating, .returned => some { s.goto .poolCreated with pool := true, opened := .pool ::ₘ s.opened }
  | .poolCreated, .returned => s.resumed .returned
  | .poolCreated, .raised _ => some { s.goto .poolDiscarding with pool := false }
  | .poolDiscarding, a => (s.close .pool a).bind fun r => r.1.raise
  | .connectChecked caller, .returned => some (s.goto (.connecting caller))
  | .connectChecked _, .raised _ | .connecting _, .raised _ => s.raise
  | .connecting caller, .connection c =>
    if .listener c ∈ s.opened then none
    else some { s.goto (.setting caller c .connected) with opened := .listener c ::ₘ s.opened }
  | .setting caller c setup, .returned =>
    match setup.next with
    | some setup => some (s.goto (.setting caller c setup))
    | none => s.replace caller c
  | .setting caller c _, .raised _ => some (s.goto (.discarding caller c))
  | .discarding _ c, a => (s.close (.listener c) a).bind fun r => r.1.raise
  | .replacing caller previous, a => (s.close (.listener previous) a).bind fun r =>
      if r.2 = none then r.1.maintained .recycled caller else r.1.raise
  | .maintaining caller, .clock worn due =>
    if worn ∨ s.connection = none then some (s.goto (.connectChecked caller))
    else if due then some (s.goto (.probeChecked caller))
    else s.maintained .none caller
  | .probeChecked caller, .returned => some (s.goto (.probing caller))
  | .probing caller, .returned => some (s.goto (.probed caller))
  | .probed caller, .returned => s.maintained .probed caller
  | .probeChecked caller, .raised .link | .probing caller, .raised .link | .probed caller, .raised .link =>
    some (s.goto (.connectChecked caller))
  | .probeChecked _, .raised _ | .probing _, .raised _ | .probed _, .raised _ => s.raise
  | .waitChecked, .returned => some (s.goto .notified)
  | .waitChecked, .woken wake | .notified, .woken wake => some (s.goto (.waited wake))
  | .waited wake, .returned => some (s.goto (.maintaining (.wait wake)))
  | .waitChecked, .raised _ | .notified, .raised _ | .waited _, .raised _ => s.raise
  | .closing l, a => (s.close l a).bind fun r =>
      if r.2 = none then r.1.resumed .returned else r.1.raise
  | _, _ => none

def step (s : Session) (a : Answer) : Option Session :=
  match s.op, a with
  | some op, a => s.operate op a
  | none, .loop a => s.resumed a
  | none, _ => none

def run : Session → List Answer → Option Session
  | s, [] => some s
  | s, a :: as => (s.step a).bind fun s' => run s' as

end Session

def Op.closes : Op → Option Link
  | .poolDiscarding => some .pool
  | .discarding _ c | .replacing _ c => some (.listener c)
  | .closing l => some l
  | _ => none

def Op.held : Op → Multiset Link
  | .setting _ c _ => {.listener c}
  | op => op.closes.elim 0 fun l => {l}

def Op.poolMade : Op → Bool
  | .poolCreated => true
  | _ => false

/-- The parts of poll_tasks. In the second one the listener is open, and no handler would close it. -/
inductive Span
  | entering
  | opened
  | looping
  | closing
  | leaving
  deriving DecidableEq

def span : Place → Span
  | .opening | .linkOpened | .listening => .entering
  | .listenerOpened | .ready => .opened
  | .arming | .armed | .polled | .claiming | .claimed _ | .unavailable _ | .executing _ | .outcome _
  | .settling _ | .exiting _ _ | .reported | .releasing | .waiting | .woken _ | .noted => .looping
  | .closing _ | .closed _ => .closing
  | .leaving _ | .ended _ => .leaving

namespace Session

def linked (s : Session) : Multiset Link := s.connection.elim 0 fun c => {.listener c}

def rest (s : Session) : Multiset Link :=
  (bif s.pool then {.pool} else 0) + if span s.place = .leaving then 0 else s.linked

def held (s : Session) : Multiset Link := s.rest + s.op.elim 0 Op.held

/-- What a step leaves open for good: a link whose close fails in an unknown way, and the listener's
connection when the report that it is open, or that the service is ready, is cut off. -/
def leaves (s : Session) (a : Answer) : Multiset Link :=
  match s.op, a with
  | some op, .raised .other => op.closes.elim 0 fun l => {l}
  | none, .loop .raised =>
    if span s.place = .opened then s.linked else 0
  | _, _ => 0

def left : Session → List Answer → Multiset Link
  | _, [] => 0
  | s, a :: as => s.leaves a + (s.step a).elim 0 fun s' => left s' as

end Session

def Caller.place : Caller → Place
  | .listen => .listening
  | .arm => .arming
  | .wait _ => .waiting

def Op.Fits (p : Place) : Op → Prop
  | .poolChecked | .poolCreating | .poolCreated | .poolDiscarding => p = .opening
  | .connectChecked caller | .connecting caller | .setting caller _ _ | .discarding caller _
  | .replacing caller _ | .maintaining caller | .probeChecked caller | .probing caller | .probed caller =>
    p = caller.place
  | .waitChecked | .notified | .waited _ => p = .waiting
  | .closing .pool => ∃ t, p = .leaving t
  | .closing (.listener _) => ∃ t, p = .closing t

/-- poll_tasks goes from one part to the next. An exception ends the part, and the last one ends all. -/
def Follows (p : Place) (raised : Prop) (p' : Place) : Prop :=
  match span p with
  | .entering => span p' = .entering ∨ span p' = .opened ∨ span p' = .leaving
  | .opened => ¬ raised ∧ (span p' = .opened ∨ span p' = .looping) ∨ raised ∧ span p' = .leaving
  | .looping => span p' = .looping ∨ ∃ t, p' = .closing t
  | .closing => (∃ t, p' = .closed t) ∨ span p' = .leaving
  | .leaving => ∃ t, p' = .ended t

namespace Session

structure Sound (s : Session) : Prop where
  connection : span s.place = .entering ∨ span s.place = .closing → s.connection = none
  fits : ∀ op, s.op = some op → op.Fits s.place
  opening : s.place = .opening → ∃ op, s.op = some op ∧ s.pool = op.poolMade
  pool : span s.place = .leaving → s.pool = false

structure Ready (s : Session) (b : PollTasks.Answer) : Prop where
  entering : span s.place = .entering → s.connection = none ∨ s.place = .listening ∧ b = .returned
  closing : span s.place = .closing → s.connection = none
  opening : s.place = .opening → s.pool = false ∨ b ≠ .raised
  leaving : span s.place = .leaving → s.pool = false

structure Goes (n : Multiset Link) (s : Session) : Prop where
  sound : s.Sound
  opened : s.opened = n + s.held

structure Freed (n : Multiset Link) (s : Session) (op : Op) : Prop where
  sound : s.Sound
  op_eq : s.op = some op
  opened : s.opened = n + s.rest

section Steps

variable {s s' t : Session} {a : Answer} {op op' : Op} {l : Link} {n : Multiset Link}
  {p p' : Place} {b : PollTasks.Answer} {e : Option LifecycleEvent} {caller : Caller}

lemma raise_follows (p : Place) : PollTasks.raise p ≠ .opening ∧ Follows p True (PollTasks.raise p) := by
  cases p <;> exact ⟨fun h => (by cases h), by simp [Follows, span, PollTasks.raise]⟩

lemma resume_raised (h : PollTasks.resume p .raised = some (p', e)) : p' = PollTasks.raise p := by
  cases p with
  | ended t => cases h
  | _ =>
    cases h
    rfl

lemma resume_follows (h : PollTasks.resume p b = some (p', e)) :
    p' ≠ .opening ∧ Follows p (b = .raised) p' := by
  by_cases hb : b = .raised
  · subst hb
    obtain rfl := resume_raised h
    simpa using raise_follows p
  · revert h
    fun_cases PollTasks.resume p b <;> intro h <;> cases h <;>
      first
      | exact absurd rfl hb
      | exact ⟨fun h => (by cases h), by simp [Follows, span, hb]⟩

lemma resume_ended {o : Option Owned} (h : PollTasks.resume p b = some (.ended o, e)) :
    span p = .leaving ∨ p = .opening ∧ b = .raised := by
  by_cases hb : b = .raised
  · subst hb
    have hp := resume_raised h
    cases p with
    | opening => exact Or.inr ⟨rfl, rfl⟩
    | leaving | ended => exact Or.inl rfl
    | _ => simp [PollTasks.raise] at hp
  · revert h
    fun_cases PollTasks.resume p b <;> intro h
    all_goals first
      | exact absurd rfl hb
      | cases h
    exact Or.inl rfl

lemma arrive_opened (s : Session) (p : Place) : (s.arrive p).opened = s.opened := by cases p <;> rfl

lemma arrive_place (s : Session) (p : Place) : (s.arrive p).place = p := by cases p <;> rfl

lemma arrive_held (s : Session) (hp : p ≠ .opening) : (s.arrive p).held =
    (bif s.pool then {.pool} else 0) + if span p = .leaving then 0 else s.linked := by
  cases p with
  | opening => exact absurd rfl hp
  | closing t =>
    cases hc : s.connection <;> simp [arrive, held, rest, linked, span, hc, Op.held, Op.closes]
  | leaving t =>
    cases hl : s.pool <;> simp [arrive, held, rest, span, hl, Op.held, Op.closes]
  | _ => simp [arrive, goto, held, rest, linked, span, Op.held, Op.closes]

lemma arrive_sound (hp : p ≠ .opening)
    (hc : span p = .entering ∨ (∃ t, p = .closed t) → s.connection = none)
    (hl : (∃ t, p = .ended t) → s.pool = false) : (s.arrive p).Sound := by
  refine ⟨fun h => ?_, fun op h => ?_, fun h => absurd ((arrive_place s p).symm.trans h) hp, fun h => ?_⟩
  · rw [arrive_place] at h
    cases p with
    | closing t => rfl
    | closed t => exact hc (Or.inr ⟨t, rfl⟩)
    | opening | linkOpened | listening => exact hc (Or.inl rfl)
    | _ => simp [span] at h
  · cases p with
    | closing t =>
      obtain ⟨c, -, rfl⟩ := Option.map_eq_some_iff.mp h
      exact ⟨t, rfl⟩
    | leaving t =>
      cases hpool : s.pool <;> simp only [arrive, hpool] at h <;> cases h
      exact ⟨t, rfl⟩
    | _ => cases h <;> rfl
  · rw [arrive_place] at h
    cases p with
    | leaving t => rfl
    | ended t => exact hl ⟨t, rfl⟩
    | _ => cases h

lemma Ready.listens (hr : t.Ready b) (hp : PollTasks.resume t.place b = some (p', e))
    (hs : span t.place = .entering) : t.connection = none ∨ p' = .listenerOpened := by
  refine (hr.entering hs).imp_right ?_
  rintro ⟨hl, rfl⟩
  rw [hl] at hp
  cases hp
  rfl

lemma Ready.unset (hr : t.Ready b) (hp : PollTasks.resume t.place b = some (p', e))
    (hc : span p' = .entering ∨ ∃ o, p' = .closed o) : t.connection = none := by
  have hf := (resume_follows hp).2
  cases hs : span t.place with
  | entering =>
    rcases hr.listens hp hs with hn | rfl
    · exact hn
    · rcases hc with hc | ⟨_, hc⟩ <;> cases hc
  | closing => exact hr.closing hs
  | opened =>
    simp only [Follows, hs] at hf
    rcases hc with hc | ⟨_, rfl⟩
    · simp [hc] at hf
    · simp [span] at hf
  | looping =>
    simp only [Follows, hs] at hf
    rcases hc with hc | ⟨_, rfl⟩
    · rcases hf with hf | ⟨_, rfl⟩
      · cases hf.symm.trans hc
      · cases hc
    · simp [span] at hf
  | leaving =>
    simp only [Follows, hs] at hf
    obtain ⟨_, rfl⟩ := hf
    rcases hc with hc | ⟨_, hc⟩ <;> cases hc

lemma Ready.linked (hr : t.Ready b) (hp : PollTasks.resume t.place b = some (p', e))
    (hb : span t.place ≠ .opened ∨ b ≠ .raised) :
    (if span t.place = .leaving then 0 else t.linked) = if span p' = .leaving then 0 else t.linked := by
  have hf := (resume_follows hp).2
  have hnone : t.connection = none → t.linked = 0 := fun hn => by rw [Session.linked, hn]; rfl
  cases hs : span t.place with
  | entering =>
    rcases hr.listens hp hs with hn | rfl
    · simp [hnone hn]
    · rfl
  | closing => simp [hnone (hr.closing hs)]
  | opened =>
    simp only [Follows, hs] at hf
    rcases hf with ⟨-, hf | hf⟩ | ⟨hraised, -⟩
    · simp [hf]
    · simp [hf]
    · exact absurd hraised (hb.resolve_left fun h => h hs)
  | looping =>
    simp only [Follows, hs] at hf
    rcases hf with hf | ⟨_, rfl⟩
    · simp [hf]
    · rfl
  | leaving =>
    simp only [Follows, hs] at hf
    obtain ⟨_, rfl⟩ := hf
    rfl

lemma resumed_goes (hr : t.Ready b) (ho : t.opened = n + t.rest) (h : t.resumed b = some s')
    (hb : span t.place ≠ .opened ∨ b ≠ .raised) : Goes n s' := by
  obtain ⟨⟨p', e⟩, hp, heq⟩ := Option.map_eq_some_iff.mp h
  obtain rfl : t.arrive p' = s' := heq
  have hne := (resume_follows hp).1
  refine ⟨arrive_sound hne (hr.unset hp) fun hend => ?_, ?_⟩
  · obtain ⟨o, rfl⟩ := hend
    rcases resume_ended hp with hs | ⟨hs, hraised⟩
    · exact hr.leaving hs
    · exact (hr.opening hs).resolve_right fun h => h hraised
  · rw [arrive_opened, arrive_held t hne, ho, rest, hr.linked hp hb]

lemma abandoned_goes (hp : span s.place = .opened) (ho : s.opened = n + s.rest)
    (h : s.resumed .raised = some s') : Goes (n + s.linked) s' := by
  obtain ⟨⟨p', e⟩, hr, heq⟩ := Option.map_eq_some_iff.mp h
  obtain rfl : s.arrive p' = s' := heq
  have hp' : p' = .leaving none := by
    rw [resume_raised hr]
    cases hplace : s.place <;> rw [hplace] at hp <;> first | rfl | cases hp
  subst hp'
  refine ⟨arrive_sound (fun h => (by cases h)) (fun hc => ?_) (fun hc => ?_), ?_⟩
  · rcases hc with hc | ⟨_, hc⟩ <;> cases hc
  · obtain ⟨_, hc⟩ := hc
    cases hc
  · have hne : Place.leaving none ≠ .opening := fun h => (by cases h)
    rw [arrive_opened, arrive_held s hne, ho, rest, hp]
    simp only [reduceCtorEq, if_false, span, if_true, add_zero]
    abel

lemma fits_span (h : op.Fits p) : span p ≠ .opened ∧ ∀ t, p ≠ .ended t := by
  cases op with
  | closing l =>
    cases l <;> obtain ⟨t, rfl⟩ := h <;> exact ⟨fun h => (by cases h), fun _ h => (by cases h)⟩
  | poolChecked | poolCreating | poolCreated | poolDiscarding | waitChecked | notified | waited =>
    obtain rfl := h
    exact ⟨fun h => (by cases h), fun _ h => (by cases h)⟩
  | connectChecked caller | connecting caller | setting caller | discarding caller | replacing caller
  | maintaining caller | probeChecked caller | probing caller | probed caller =>
    obtain rfl := h
    cases caller <;> exact ⟨fun h => (by cases h), fun _ h => (by cases h)⟩

lemma Goes.freed (h : Goes n s) (hop : s.op = some op) (hh : op.held = 0) : Freed n s op := by
  refine ⟨h.sound, hop, ?_⟩
  rw [h.opened, held, hop]
  simp [hh]

lemma pool_eq (hs : s.Sound) (hop : s.op = some op) (hp : s.place = .opening) :
    s.pool = op.poolMade := by
  obtain ⟨o, ho, hpool⟩ := hs.opening hp
  cases hop.symm.trans ho
  exact hpool

lemma Freed.resumed (h : Freed n s op) (hb : b = .raised → op.poolMade = false)
    (hr : s.resumed b = some s') : Goes n s' := by
  refine resumed_goes ⟨fun hp => Or.inl (h.sound.connection (Or.inl hp)),
    fun hp => h.sound.connection (Or.inr hp), fun hp => ?_, h.sound.pool⟩ h.opened hr
    (Or.inl (fits_span (h.sound.fits op h.op_eq)).1)
  by_cases hraised : b = .raised
  · exact Or.inl ((pool_eq h.sound h.op_eq hp).trans (hb hraised))
  · exact Or.inr hraised

lemma Freed.raise (h : Freed n s op) (hop : op.poolMade = false) (hr : s.raise = some s') : Goes n s' :=
  h.resumed (fun _ => hop) hr

lemma Freed.maintained {activity : ListenerActivity} (h : Freed n s op)
    (hr : s.maintained activity caller = some s') : Goes n s' := by
  cases caller with
  | listen => exact h.resumed (b := .returned) (fun hb => (by cases hb)) hr
  | arm => exact h.resumed (b := .activity activity) (fun hb => (by cases hb)) hr
  | wait wake => exact h.resumed (b := .woken wake activity) (fun hb => (by cases hb)) hr

lemma Goes.goto (h : Goes n s) (hop : s.op = some op) (hfit : op'.Fits s.place) (hh : op'.held = op.held)
    (hp : op'.poolMade = op.poolMade) : Goes n (s.goto op') := by
  refine ⟨⟨h.sound.connection, fun o ho => ?_,
    fun ho => ⟨op', rfl, (pool_eq h.sound hop ho).trans hp.symm⟩, h.sound.pool⟩, ?_⟩
  · cases ho
    exact hfit
  · have ho := h.opened
    rw [held, hop, Option.elim_some, ← hh] at ho
    exact ho

lemma Goes.close {r : Session × Option Fault} (h : Goes n s) (hop : s.op = some op)
    (hcl : op.closes = some l) (hh : op.held = {l}) (hr : s.close l a = some r) :
    Freed (n + s.leaves a) r.1 op := by
  have ho : s.opened = l ::ₘ (n + s.rest) := by
    rw [h.opened, held, hop, Option.elim_some, hh, ← Multiset.singleton_add]
    abel
  have herase : s.opened.erase l = n + s.rest := by rw [ho, Multiset.erase_cons_head]
  have hs := h.sound
  have hfreed : Freed n { s with opened := s.opened.erase l } op :=
    ⟨⟨hs.connection, hs.fits, hs.opening, hs.pool⟩, hop, herase⟩
  cases a with
  | returned =>
    cases hr
    simpa [leaves, hop] using hfreed
  | raised e =>
    cases e with
    | cancelled | link =>
      cases hr
      simpa [leaves, hop] using hfreed
    | other =>
      cases hr
      refine ⟨hs, hop, ?_⟩
      simp only [leaves, hop, hcl, Option.elim_some]
      rw [ho, ← Multiset.singleton_add]
      abel
  | _ => cases hr

lemma Goes.created (h : Goes n s) (hop : s.op = some .poolCreating) :
    Goes n { s.goto .poolCreated with pool := true, opened := .pool ::ₘ s.opened } := by
  have hplace : s.place = .opening := h.sound.fits _ hop
  have hpool : s.pool = false := pool_eq h.sound hop hplace
  refine ⟨⟨h.sound.connection, fun o ho => ?_, fun _ => ⟨_, rfl, rfl⟩, fun hl => ?_⟩, ?_⟩
  · cases ho
    exact hplace
  · cases (congrArg span hplace).symm.trans hl
  · have ho := h.opened
    simp only [held, rest, linked, hop, hpool, cond_false, Option.elim_some, Op.held, Op.closes,
      Option.elim_none, add_zero, zero_add] at ho
    simp only [held, rest, linked, Session.goto, cond_true, Option.elim_some, Op.held, Op.closes,
      Option.elim_none, add_zero, ho, ← Multiset.singleton_add]
    abel

lemma Goes.dropsPool (h : Goes n s) (hop : s.op = some .poolCreated) :
    Goes n { s.goto .poolDiscarding with pool := false } := by
  have hplace : s.place = .opening := h.sound.fits _ hop
  have hpool : s.pool = true := pool_eq h.sound hop hplace
  refine ⟨⟨h.sound.connection, fun o ho => ?_, fun _ => ⟨_, rfl, rfl⟩, fun _ => rfl⟩, ?_⟩
  · cases ho
    exact hplace
  · have ho := h.opened
    simp only [held, rest, linked, hop, hpool, cond_true, Option.elim_some, Op.held, Op.closes,
      Option.elim_none, add_zero] at ho
    simp only [held, rest, linked, Session.goto, cond_false, Option.elim_some, Op.held, Op.closes, zero_add,
      ho]
    abel

lemma caller_span (caller : Caller) : span caller.place ≠ .leaving ∧ span caller.place ≠ .closing ∧
    caller.place ≠ .opening := by
  cases caller <;> exact ⟨fun h => (by cases h), fun h => (by cases h), fun h => (by cases h)⟩

lemma Goes.dialled {c : ℕ} (h : Goes n s) (hop : s.op = some (.connecting caller)) :
    Goes n { s.goto (.setting caller c .connected) with opened := .listener c ::ₘ s.opened } := by
  have hplace : s.place = caller.place := h.sound.fits _ hop
  refine ⟨⟨h.sound.connection, fun o ho => ?_, fun hp => ?_, h.sound.pool⟩, ?_⟩
  · cases ho
    exact hplace
  · exact absurd (hplace.symm.trans hp) (caller_span caller).2.2
  · have ho := h.opened
    simp only [held, hop, Option.elim_some, Op.held, Op.closes, Option.elim_none, add_zero] at ho
    change .listener c ::ₘ s.opened = n + (s.rest + {.listener c})
    rw [ho, ← Multiset.singleton_add]
    abel

lemma Goes.replace {c : ℕ} (h : Goes n s) (hop : s.op = some (.setting caller c .added))
    (hr : s.replace caller c = some s') : Goes n s' := by
  have hplace : s.place = caller.place := h.sound.fits _ hop
  obtain ⟨hleaving, hclosing, hopening⟩ := caller_span caller
  rw [← hplace] at hleaving hclosing hopening
  have ho := h.opened
  rw [held, rest, if_neg hleaving, hop] at ho
  rw [Session.replace] at hr
  cases hc : s.connection with
  | some previous =>
    simp only [hc] at hr
    cases hr
    refine ⟨⟨fun hp => ?_, fun o ho => ?_, fun hp => absurd hp hopening, h.sound.pool⟩, ?_⟩
    · cases hc.symm.trans (h.sound.connection hp)
    · cases ho
      exact hplace
    · simp only [linked, hc, Option.elim_some, Op.held] at ho
      simp only [held, rest, linked, Session.goto, if_neg hleaving, Option.elim_some, Op.held, Op.closes, ho]
      abel
  | none =>
    simp only [hc] at hr
    have hready : ∀ b, b = .returned ∨ caller ≠ .listen → b ≠ .raised →
        Ready { s with connection := some c } b := by
      intro b hb hne
      refine ⟨fun hp => Or.inr ?_, fun hp => absurd hp hclosing, fun hp => absurd hp hopening,
        fun hp => absurd hp hleaving⟩
      change span s.place = _ at hp
      rw [hplace] at hp
      cases caller with
      | listen => exact ⟨hplace, hb.resolve_right fun h => h rfl⟩
      | arm | wait => cases hp
    have hopened : s.opened = n + rest { s with connection := some c } := by
      simp only [linked, hc, Option.elim_none, Option.elim_some, add_zero, Op.held] at ho
      simp only [rest, linked, if_neg hleaving, Option.elim_some, ho]
    cases caller with
    | listen =>
      exact resumed_goes (hready .returned (Or.inl rfl) (fun h => (by cases h))) hopened hr
        (Or.inr fun h => (by cases h))
    | arm =>
      exact resumed_goes (hready _ (Or.inr fun h => (by cases h)) (fun h => (by cases h))) hopened hr
        (Or.inr fun h => (by cases h))
    | wait wake =>
      exact resumed_goes (hready _ (Or.inr fun h => (by cases h)) (fun h => (by cases h))) hopened hr
        (Or.inr fun h => (by cases h))

lemma leaves_eq_zero (hop : s.op = some op) (hcl : op.closes = none) : s.leaves a = 0 := by
  cases a with
  | raised e =>
    cases e with
    | other => simp only [leaves, hop, hcl, Option.elim_none]
    | _ => simp only [leaves, hop]
  | _ => simp only [leaves, hop]

lemma Goes.operate (h : Goes n s) (hop : s.op = some op) (hcl : op.closes = none)
    (hr : s.operate op a = some s') : Goes n s' := by
  have hfit := h.sound.fits _ hop
  cases op with
  | poolDiscarding | discarding | replacing | closing => cases hcl
  | poolChecked =>
    cases a with
    | returned =>
      cases hr
      exact h.goto hop hfit rfl rfl
    | raised e => exact (h.freed hop rfl).raise rfl hr
    | _ => cases hr
  | poolCreating =>
    cases a with
    | returned =>
      cases hr
      exact h.created hop
    | raised e => exact (h.freed hop rfl).raise rfl hr
    | _ => cases hr
  | poolCreated =>
    cases a with
    | returned => exact (h.freed hop rfl).resumed (b := .returned) (fun hb => (by cases hb)) hr
    | raised e =>
      cases hr
      exact h.dropsPool hop
    | _ => cases hr
  | connectChecked caller =>
    cases a with
    | returned =>
      cases hr
      exact h.goto hop hfit rfl rfl
    | raised e => exact (h.freed hop rfl).raise rfl hr
    | _ => cases hr
  | connecting caller =>
    cases a with
    | connection c =>
      simp only [Session.operate] at hr
      split_ifs at hr
      cases hr
      exact h.dialled hop
    | raised e => exact (h.freed hop rfl).raise rfl hr
    | _ => cases hr
  | setting caller c setup =>
    cases a with
    | returned =>
      cases setup with
      | added => exact h.replace hop hr
      | _ =>
        cases hr
        exact h.goto hop hfit rfl rfl
    | raised e =>
      cases hr
      exact h.goto hop hfit rfl rfl
    | _ => cases hr
  | maintaining caller =>
    cases a with
    | clock worn due =>
      simp only [Session.operate] at hr
      split_ifs at hr
      · cases hr
        exact h.goto hop hfit rfl rfl
      · cases hr
        exact h.goto hop hfit rfl rfl
      · exact (h.freed hop rfl).maintained hr
    | _ => cases hr
  | probeChecked caller | probing caller =>
    cases a with
    | returned =>
      cases hr
      exact h.goto hop hfit rfl rfl
    | raised e =>
      cases e with
      | link =>
        cases hr
        exact h.goto hop hfit rfl rfl
      | _ => exact (h.freed hop rfl).raise rfl hr
    | _ => cases hr
  | probed caller =>
    cases a with
    | returned => exact (h.freed hop rfl).maintained hr
    | raised e =>
      cases e with
      | link =>
        cases hr
        exact h.goto hop hfit rfl rfl
      | _ => exact (h.freed hop rfl).raise rfl hr
    | _ => cases hr
  | waitChecked | notified =>
    cases a with
    | returned | woken =>
      cases hr <;> exact h.goto hop hfit rfl rfl
    | raised e => exact (h.freed hop rfl).raise rfl hr
    | _ => cases hr
  | waited wake =>
    cases a with
    | returned =>
      cases hr
      exact h.goto hop hfit rfl rfl
    | raised e => exact (h.freed hop rfl).raise rfl hr
    | _ => cases hr

lemma Goes.operateClose (h : Goes n s) (hop : s.op = some op) (hcl : op.closes = some l)
    (hr : s.operate op a = some s') : Goes (n + s.leaves a) s' := by
  cases op with
  | poolDiscarding =>
    cases hcl
    obtain ⟨r, hc, hr⟩ := Option.bind_eq_some_iff.mp hr
    exact (h.close hop rfl rfl hc).raise rfl hr
  | discarding caller c =>
    cases hcl
    obtain ⟨r, hc, hr⟩ := Option.bind_eq_some_iff.mp hr
    exact (h.close hop rfl rfl hc).raise rfl hr
  | replacing caller previous =>
    cases hcl
    obtain ⟨r, hc, hr⟩ := Option.bind_eq_some_iff.mp hr
    have hfreed := h.close hop rfl rfl hc
    split_ifs at hr
    · exact hfreed.maintained hr
    · exact hfreed.raise rfl hr
  | closing l' =>
    cases hcl
    obtain ⟨r, hc, hr⟩ := Option.bind_eq_some_iff.mp hr
    have hfreed := h.close hop rfl rfl hc
    split_ifs at hr
    · exact hfreed.resumed (b := .returned) (fun hb => (by cases hb)) hr
    · exact hfreed.raise rfl hr
  | _ => cases hcl

lemma Goes.loop (h : Goes n s) (hop : s.op = none) (hr : s.resumed b = some s') :
    Goes (n + s.leaves (.loop b)) s' := by
  have ho : s.opened = n + s.rest := by
    rw [h.opened, held, hop, Option.elim_none, add_zero]
  by_cases hb : b = .raised ∧ span s.place = .opened
  · obtain ⟨rfl, hp⟩ := hb
    simp only [leaves, hop, if_pos hp]
    exact abandoned_goes hp ho hr
  · have hzero : s.leaves (.loop b) = 0 := by
      cases b with
      | raised => simp only [leaves, hop, if_neg fun hp => hb ⟨rfl, hp⟩]
      | _ => simp only [leaves, hop]
    rw [hzero, add_zero]
    refine resumed_goes ⟨fun hp => Or.inl (h.sound.connection (Or.inl hp)),
      fun hp => h.sound.connection (Or.inr hp), fun hp => ?_, h.sound.pool⟩ ho hr ?_
    · obtain ⟨op, ho, -⟩ := h.sound.opening hp
      cases hop.symm.trans ho
    · by_cases hraised : b = .raised
      · exact Or.inl fun hp => hb ⟨hraised, hp⟩
      · exact Or.inr hraised

lemma Goes.step (h : Goes n s) (hr : s.step a = some s') : Goes (n + s.leaves a) s' := by
  cases hop : s.op with
  | none =>
    simp only [Session.step, hop] at hr
    cases a with
    | loop b => exact h.loop hop hr
    | _ => cases hr
  | some op =>
    simp only [Session.step, hop] at hr
    cases hcl : op.closes with
    | none =>
      rw [leaves_eq_zero hop hcl, add_zero]
      exact h.operate hop hcl hr
    | some l => exact h.operateClose hop hcl hr

lemma Goes.run {as : List Answer} (h : Goes n s) (hr : s.run as = some s') : Goes (n + s.left as) s' := by
  induction as generalizing n s with
  | nil =>
    cases hr
    simpa [left] using h
  | cons a as ih =>
    obtain ⟨t, ht, hr⟩ := Option.bind_eq_some_iff.mp hr
    have hleft : s.left (a :: as) = s.leaves a + t.left as := by rw [left, ht, Option.elim_some]
    rw [hleft, ← add_assoc]
    exact ih (h.step ht) hr

lemma Goes.start : Goes 0 {} := by
  refine ⟨⟨fun _ => rfl, fun op ho => ?_, fun _ => ⟨_, rfl, rfl⟩, fun _ => rfl⟩, rfl⟩
  cases ho
  rfl

lemma held_card (s : Session) : s.held.card ≤ 3 := by
  have hpool : (bif s.pool then ({.pool} : Multiset Link) else 0).card ≤ 1 := by
    cases s.pool <;> simp
  have hlinked : (if span s.place = .leaving then 0 else s.linked).card ≤ 1 := by
    split_ifs
    · simp
    · cases hc : s.connection <;> simp [linked, hc]
  have hop : (s.op.elim 0 Op.held).card ≤ 1 := by
    cases s.op with
    | none => simp
    | some op => cases op <;> simp [Op.held, Op.closes]
  rw [held, rest, Multiset.card_add, Multiset.card_add]
  omega

lemma held_ended {o : Option Owned} (hs : s.Sound) (hp : s.place = .ended o) : s.held = 0 := by
  have hpool : s.pool = false := hs.pool (by rw [hp]; rfl)
  have hop : s.op = none := by
    cases hop : s.op with
    | none => rfl
    | some op => exact absurd hp ((fits_span (hs.fits op hop)).2 o)
  rw [held, rest, hpool, hop, hp]
  rfl

end Steps

/-- Wherever the awaits of poll_tasks raise or are cancelled, and however often, the links that are left
open at its end are those whose close raised an unknown error, and the listener's connection when the
report that it is open, or that the service is ready, was cut off. Until then there are at most the pool,
the listener's connection and one that is to replace it, or that it has replaced, besides. -/
theorem open_links {s : Session} {as : List Answer} (hr : run {} as = some s) :
    left {} as ≤ s.opened ∧ s.opened.card ≤ (left {} as).card + 3 ∧
      ((∃ o, s.place = .ended o) → s.opened = left {} as) := by
  have h := Goes.start.run hr
  rw [zero_add] at h
  refine ⟨?_, ?_, fun ⟨o, hp⟩ => ?_⟩
  · rw [h.opened]
    exact Multiset.le_add_right _ _
  · have hcard := held_card s
    rw [h.opened, Multiset.card_add]
    omega
  · rw [h.opened, held_ended h.sound hp, add_zero]

/-- The report that the service is ready is cancelled. -/
def cutOff : List Answer :=
  [.returned, .returned, .returned, .loop .returned, .returned, .connection 4, .returned, .returned,
    .returned, .returned, .loop .returned, .loop .raised, .returned]

lemma cutOff_runs : (run {} cutOff).isSome = true := by decide +kernel

def abandoned : Session := (run {} cutOff).get cutOff_runs

theorem open_links_cutOff : abandoned.opened = {.listener 4} ∧ left {} cutOff ≤ abandoned.opened ∧
    abandoned.opened.card ≤ (left {} cutOff).card + 3 ∧
      ((∃ o, abandoned.place = .ended o) → abandoned.opened = left {} cutOff) :=
  ⟨by decide +kernel, open_links (Option.some_get cutOff_runs).symm⟩

end Session

end Reaper.Worker.Links
