import Reaper.Pool.Replies

/-! A job is performed once at most, whichever skeletons are lost and whenever the pool shuts: it is always at
one place of those it passes through. -/

namespace Reaper.Pool

open Reaper.Library Reaper.Worker

namespace ReaperCore

variable {c c' : ReaperCore} {fx : List ControlEffect}

lemma handle_queue (c : ReaperCore) (e : ControlEvent) (job : String) :
    (c.handle e).1.queue.count job ≤ c.queue.count job + (c.accepts e).count job := by
  have hfill : ∀ d : ReaperCore, d.fill.1.queue = d.queue := fun d => (fill_spec d).1
  rw [handle]
  cases hk : e.kind with
  | start | recover =>
    rw [hfill]
    omega
  | spawned =>
    dsimp only
    rw [spawned]
    split
    · dsimp only
      split_ifs
      · exact Nat.le_add_right _ _
      · rw [hfill]
        exact Nat.le_add_right _ _
      · exact Nat.le_add_right _ _
    · exact Nat.le_add_right _ _
  | spawnFailed =>
    dsimp only
    rw [spawnFailed]
    split <;> exact Nat.le_add_right _ _
  | ready =>
    dsimp only
    rw [ready]
    split
    · exact Nat.le_add_right _ _
    · split_ifs <;> exact Nat.le_add_right _ _
  | submit =>
    dsimp only
    rw [submit, accepts, if_neg (not_not.mpr hk)]
    cases e.job with
    | none => exact Nat.le_add_right _ _
    | some new =>
      by_cases hclosing : c.closing = true
      · simp [hclosing]
      · by_cases hknown : new ∈ c.known
        · simp [hknown]
        · simp [hclosing, hknown]
  | result =>
    dsimp only
    rw [result]
    split
    · exact Nat.le_add_right _ _
    · split_ifs <;> exact Nat.le_add_right _ _
  | eof | sendFailed =>
    dsimp only
    rw [lost]
    split <;> exact Nat.le_add_right _ _
  | close =>
    dsimp only
    rw [close]
    split_ifs
    · exact Nat.le_add_right _ _
    · exact Nat.zero_le _
  | deadline =>
    dsimp only
    rw [deadline]
    split_ifs <;> exact Nat.le_add_right _ _

lemma HandsOut.queue (h : HandsOut c c' fx) : sent fx ++ c'.queue = c.queue := by
  induction h with
  | done c => rfl
  | take _ _ queued _ ih =>
    rw [queued]
    exact congrArg (List.cons _) ih

lemma apply_queue (c : ReaperCore) (e : ControlEvent) (job : String) :
    (sent (c.apply e).2).count job + (c.apply e).1.queue.count job ≤
      c.queue.count job + (c.accepts e).count job := by
  have hsent : sent (c.handle e).2 = [] := by
    refine List.filterMap_eq_nil_iff.mpr fun x hx => ?_
    rw [sentBy, if_neg (handle_sends c e x hx)]
  have hqueue := congrArg (List.count job) (dispatch_handsOut (c.handle e).1).queue
  rw [List.count_append] at hqueue
  have hhandle := handle_queue c e job
  rw [apply]
  dsimp only
  rw [sent_append, hsent, List.nil_append]
  omega

end ReaperCore

namespace SkeletonPool

open ReaperCore

variable {p q r : SkeletonPool} {x : ControlEffect} {xs ys : List ControlEffect} {e : ControlEvent}
  {owner : Owner} {after : After} {limit : String → ℕ} {n : ℕ}

def orders (p : SkeletonPool) (xs : List ControlEffect) : List String :=
  p.core.queue ++ sent (p.inPlay xs) ++ (p.sends ++ p.sending).filterMap ControlEffect.job

structure Within (limit : String → ℕ) (n : ℕ) (p : SkeletonPool) (xs : List ControlEffect) : Prop where
  orders : ∀ job, (p.orders xs).count job ≤ limit job
  sequence : p.jobSequence = n

lemma Within.regroup (h : Within limit n p xs) (hc : q.core = p.core) (hn : q.jobSequence = p.jobSequence)
    (hs : q.sends = p.sends) (hg : q.sending = p.sending) (hp : (q.inPlay ys).Subperm (p.inPlay xs)) :
    Within limit n q ys := by
  obtain ⟨zs, hperm, hsub⟩ := hp
  refine ⟨fun job => le_trans ?_ (h.orders job), hn.trans h.sequence⟩
  have hle : (sent (q.inPlay ys)).count job ≤ (sent (p.inPlay xs)).count job := by
    rw [sent, ← (hperm.filterMap sentBy).count_eq job]
    exact (hsub.filterMap sentBy).count_le job
  rw [SkeletonPool.orders, SkeletonPool.orders, hc, hs, hg]
  simp only [List.count_append]
  omega

lemma Within.same (h : Within limit n p xs) (hc : q.core = p.core) (hn : q.jobSequence = p.jobSequence)
    (hs : q.sends = p.sends) (hg : q.sending = p.sending) (hd : q.drives = p.drives) : Within limit n q xs :=
  h.regroup hc hn hs hg (by rw [inPlay, inPlay, hd])

lemma Within.tail (h : Within limit n p (x :: xs)) : Within limit n p xs :=
  h.regroup rfl rfl rfl rfl ((List.sublist_cons_self x xs).append_right _).subperm

lemma Within.sync (h : Within limit n p xs) : Within limit n p.syncSlots xs := h.same rfl rfl rfl rfl rfl

lemma Within.send (h : Within limit n p (x :: xs)) (hk : x.kind = .sendRun) :
    Within limit n { p with sends := p.sends ++ [x] } xs := by
  refine ⟨fun job => le_trans ?_ (h.orders job), h.sequence⟩
  have hx : sentBy x = x.job := if_pos hk
  simp only [SkeletonPool.orders, inPlay, List.filterMap_append, List.count_append, sent, List.filterMap_cons, hx]
  cases x.job with
  | none => simp
  | some job' =>
    simp only [List.count_cons, List.filterMap_nil, List.count_nil]
    omega

lemma Within.park (h : Within limit n p xs) (owner : Owner) (after : After) :
    Within limit n (p.park owner after xs) [] :=
  h.regroup rfl rfl rfl rfl (park_inPlay p owner after xs).subperm

lemma Within.scheduleRecovery (h : Within limit n p xs) (b : Bool) : Within limit n (p.scheduleRecovery b) xs := by
  obtain ⟨_, _, _, heq⟩ := scheduleRecovery_eq p b
  rw [heq]
  exact h.same rfl rfl rfl rfl rfl

lemma Within.finish (h : Within limit n p xs) (owner : Owner) (after : After) :
    Within limit n (p.finish owner after) xs := by
  cases after with
  | nothing => exact h
  | scheduleRecovery b =>
    cases owner with
    | reader i => exact (h.scheduleRecovery b).same rfl rfl rfl rfl rfl
    | _ => exact h.scheduleRecovery b

lemma Within.drive (h : Within limit n p xs) (owner : Owner) (after : After) :
    Within limit n (drive owner after xs p) [] := by
  have hrule : DriveRule owner after (Within limit n) fun q => Within limit n q [] := {
    idle := fun h _ => h.tail.sync
    send := fun h hk => (h.send hk).sync
    settle := fun {q x xs f} h _ _ => by
      obtain ⟨_, _, heq⟩ := settle_eq q (x.job.getD "") f
      rw [heq]
      exact Within.sync (h.tail.same rfl rfl rfl rfl rfl)
    drop := fun h _ _ => Within.sync (h.tail.same rfl rfl rfl rfl rfl)
    cancel := fun {q x xs slot} h _ _ _ => by
      have hfewer : Within limit n (q.cancelReader slot.identity) (x :: xs) :=
        h.regroup rfl rfl rfl rfl (((List.filter_sublist).flatMap _).append_left _).subperm
      exact hfewer.park owner after
    wait := fun h _ => h.park owner after
    finish := fun h => h.sync.finish owner after }
  exact hrule.drive h

lemma Within.event (h : Within limit n p xs) (hl : ∀ job, (p.core.accepts e).count job = 0)
    (hc : r.core = (p.core.apply e).1) (hn : r.jobSequence = p.jobSequence) (hs : r.sends = p.sends)
    (hg : r.sending = p.sending) (hd : r.drives = p.drives) : Within limit n r (xs ++ (p.core.apply e).2) := by
  refine ⟨fun job => le_trans ?_ (h.orders job), hn.trans h.sequence⟩
  have hqueue := apply_queue p.core e job
  rw [hl job] at hqueue
  simp only [SkeletonPool.orders, inPlay, hc, hs, hg, hd, sent_append, List.count_append]
  omega

lemma Within.apply (h : Within limit n p []) (owner : Owner) (after : After) (hk : e.kind ≠ .submit) :
    Within limit n (p.apply owner after e) [] := by
  have hevent : Within limit n { p with core := (p.core.apply e).1 } ([] ++ (p.core.apply e).2) :=
    h.event (fun job => by rw [accepts_nil hk, List.count_nil]) rfl rfl rfl rfl rfl
  exact hevent.drive owner after

lemma Within.lose (h : Within limit n p []) (owner : Owner) (i : SkeletonID) : Within limit n (p.lose owner i) [] := by
  rw [SkeletonPool.lose]
  split
  · exact h
  · exact h.apply owner _ (by simp)

lemma Within.resume {d : Drive} {spawned : Option ℤ} (h : Within limit n p d.pending)
    (hq : p.resume d spawned = some q) : Within limit n q [] := by
  have hnone : ∀ {c : ReaperCore} {e : ControlEvent}, e.kind ≠ .submit → ∀ job, (c.accepts e).count job = 0 :=
    fun hk job => by rw [accepts_nil hk, List.count_nil]
  cases SkeletonPool.resumed hq with
  | spawned pending kind named free =>
    next x xs gen fd =>
    rw [pending] at h
    have hevent := h.tail.event (r := (p.bornSlot gen fd).syncSlots)
      (e := { kind := .spawned, identity := some ⟨fd, gen⟩, gen := some gen }) (hnone (by simp)) rfl rfl rfl rfl rfl
    exact hevent.drive _ _
  | spawnFailed pending kind named =>
    next x xs gen =>
    rw [pending] at h
    have hevent := h.tail.event (r := { p with core := (p.core.apply { kind := .spawnFailed, gen := some gen }).1 })
      (e := { kind := .spawnFailed, gen := some gen }) (hnone (by simp)) rfl rfl rfl rfl rfl
    exact (hevent.scheduleRecovery true).drive _ _
  | gone pending _ _ =>
    rw [pending] at h
    exact h.tail.sync.drive _ _
  | dropped pending _ _ =>
    rw [pending] at h
    refine Within.drive (p := (p.drop _).syncSlots) ?_ _ _
    exact h.tail.same rfl rfl rfl rfl rfl
  | reaped pending _ _ =>
    rw [pending] at h
    refine Within.drive (p := SkeletonPool.syncSlots { p with retiredSlots := p.retiredSlots.erase _ }) ?_ _ _
    exact h.tail.same rfl rfl rfl rfl rfl

def Action.hands : Action → List String
  | .sent x => x.job.toList
  | _ => []

def Action.brings (p : SkeletonPool) : Action → List String
  | .submit token _ => [jobName (p.jobSequence + 1) token]
  | _ => []

def Action.numbers : Action → ℕ
  | .submit _ _ => 1
  | _ => 0

structure Moves (p : SkeletonPool) (a : Action) (q : SkeletonPool) : Prop where
  orders : ∀ job, (q.orders []).count job + a.hands.count job ≤ (p.orders []).count job + (a.brings p).count job
  sequence : q.jobSequence = p.jobSequence + a.numbers

lemma Within.refl (p : SkeletonPool) (xs : List ControlEffect) :
    Within (fun job => (p.orders xs).count job) p.jobSequence p xs := ⟨fun _ => le_rfl, rfl⟩

lemma Within.moves {a : Action} (h : Within (fun job => (p.orders []).count job) p.jobSequence q [])
    (hh : a.hands = []) (hn : a.numbers = 0) : Moves p a q := by
  refine ⟨fun job => ?_, by rw [hn, h.sequence, Nat.add_zero]⟩
  have hjob := h.orders job
  rw [hh, List.count_nil]
  omega

lemma count_erase_job {xs : List ControlEffect} (hx : x ∈ xs) (job : String) :
    ((xs.erase x).filterMap ControlEffect.job).count job + x.job.toList.count job =
      (xs.filterMap ControlEffect.job).count job := by
  have hperm := (List.perm_cons_erase hx).filterMap ControlEffect.job
  rw [hperm.count_eq, List.filterMap_cons]
  cases x.job with
  | none => rfl
  | some job' => simp only [Option.toList_some, List.count_cons, List.count_nil]; omega

lemma step_submits {token : String} {lazy : Bool} (hq : p.submit token lazy = some q) :
    Moves p (.submit token lazy) q := by
  rw [SkeletonPool.submit, Option.ite_none_left_eq_some, Option.some_inj] at hq
  obtain ⟨-, rfl⟩ := hq
  set name := jobName (p.jobSequence + 1) token with hname
  set e : ControlEvent := { kind := .submit, job := some name } with he
  have haccepts : ∀ job, (p.core.accepts e).count job ≤ [name].count job := by
    intro job
    rw [accepts, if_neg (by simp [he])]
    simp only [he]
    split_ifs
    · exact Nat.zero_le _
    · exact le_rfl
  have hevent : Within (fun job => (p.orders []).count job + [name].count job) (p.jobSequence + 1)
      { p with
        core := (p.core.apply e).1
        jobSequence := p.jobSequence + 1
        jobs := p.jobs.set name (p.jobSequence + 1)
        futures := p.futures.set (p.jobSequence + 1) .pending } (p.core.apply e).2 := by
    refine ⟨fun job => ?_, rfl⟩
    have hqueue := apply_queue p.core e job
    have hjob := haccepts job
    simp only [SkeletonPool.orders, inPlay, sent_append, List.count_append, List.nil_append]
    omega
  obtain ⟨horders, hsequence⟩ := hevent.drive .submitter .nothing
  exact ⟨horders, hsequence⟩

lemma step_closes (hq : p.closeNext = some q) : Moves p .closeNext q := by
  have hw := Within.refl p []
  have happly : ∀ {r : SkeletonPool} {e : ControlEvent}, e.kind ≠ .submit →
      Within (fun job => (p.orders []).count job) p.jobSequence r [] →
      Within (fun job => (p.orders []).count job) p.jobSequence (r.apply .closer .nothing e) [] :=
    fun hk hr => hr.apply _ _ hk
  rw [SkeletonPool.closeNext] at hq
  split_ifs at hq
  refine Within.moves ?_ rfl rfl
  split at hq
  · cases hq
  · cases hq
  · cases hq
    refine Within.same (p := SkeletonPool.apply _ _ _ _) ?_ rfl rfl rfl rfl rfl
    exact happly (by simp) (hw.same rfl rfl rfl rfl rfl)
  · next waitSet _ =>
    cases hq
    refine Within.same (p := SkeletonPool.apply _ _ _ _) ?_ rfl rfl rfl rfl rfl
    refine happly (by simp) (hw.regroup rfl rfl rfl rfl ?_)
    exact (((List.filter_sublist).flatMap _).append_left _).subperm
  · cases hq
    exact happly (by simp) (hw.same rfl rfl rfl rfl rfl)
  · cases hq
    exact hw.same rfl rfl rfl rfl rfl

lemma step_moves {a : Action} (hq : p.step a = some q) : Moves p a q := by
  have hw := Within.refl p []
  cases a with
  | start =>
    simp only [SkeletonPool.step, Option.ite_none_left_eq_some, Option.some_inj] at hq
    obtain ⟨-, rfl⟩ := hq
    refine Within.moves (Within.apply ?_ _ _ (by simp)) rfl rfl
    exact hw.same rfl rfl rfl rfl rfl
  | submit token lazy => exact step_submits hq
  | cancelFuture m =>
    simp only [SkeletonPool.step, Option.ite_none_right_eq_some, Option.some_inj] at hq
    obtain ⟨-, rfl⟩ := hq
    refine Within.moves ?_ rfl rfl
    exact hw.same rfl rfl rfl rfl rfl
  | send x =>
    simp only [SkeletonPool.step, Option.ite_none_left_eq_some, not_not] at hq
    obtain ⟨hx, hq⟩ := hq
    have herase := count_erase_job hx
    split at hq
    · cases hq
      refine ⟨fun job => ?_, rfl⟩
      have hjob := herase job
      have hsingle : ([x].filterMap ControlEffect.job) = x.job.toList := by cases hx : x.job <;> simp [hx]
      simp only [SkeletonPool.orders, inPlay, assignJob, List.filterMap_append, List.count_append, Action.hands,
        Action.brings, List.count_nil, hsingle]
      omega
    · cases hq
      refine ⟨fun job => ?_, rfl⟩
      have hjob := herase job
      simp only [SkeletonPool.orders, inPlay, List.filterMap_append, List.count_append, Action.hands, Action.brings,
        List.count_nil]
      omega
  | sent x =>
    simp only [SkeletonPool.step, Option.ite_none_right_eq_some, Option.some_inj] at hq
    obtain ⟨hx, rfl⟩ := hq
    refine ⟨fun job => ?_, rfl⟩
    have hjob := count_erase_job hx job
    simp only [SkeletonPool.orders, inPlay, List.filterMap_append, List.count_append, Action.hands, Action.brings,
      List.count_nil]
    omega
  | sendFailed x =>
    simp only [SkeletonPool.step] at hq
    split at hq
    · cases hq
    · simp only [Option.ite_none_left_eq_some, not_not, Option.some_inj] at hq
      obtain ⟨hx, rfl⟩ := hq
      refine Within.moves (Within.apply ?_ _ _ ?_) rfl rfl
      · refine ⟨fun job => ?_, rfl⟩
        have hjob := count_erase_job hx job
        simp only [SkeletonPool.orders, inPlay, List.filterMap_append, List.count_append]
        omega
      · simp
  | ready i =>
    simp only [SkeletonPool.step, Option.ite_none_right_eq_some, Option.some_inj] at hq
    obtain ⟨-, rfl⟩ := hq
    refine Within.moves (Within.apply ?_ _ _ (by simp)) rfl rfl
    exact hw.same rfl rfl rfl rfl rfl
  | result i job ok note =>
    simp only [SkeletonPool.step, Option.ite_none_right_eq_some, Option.some_inj] at hq
    obtain ⟨-, rfl⟩ := hq
    refine Within.moves ?_ rfl rfl
    rw [SkeletonPool.result]
    split
    · exact hw
    · split_ifs
      · exact hw
      · refine Within.apply ?_ _ _ ?_
        · exact hw.same rfl rfl rfl rfl rfl
        · simp
  | eof i =>
    simp only [SkeletonPool.step, Option.ite_none_right_eq_some, Option.some_inj] at hq
    obtain ⟨-, rfl⟩ := hq
    exact (hw.lose _ _).moves rfl rfl
  | readerFault i =>
    simp only [SkeletonPool.step, Option.ite_none_right_eq_some, Option.some_inj] at hq
    obtain ⟨-, rfl⟩ := hq
    refine Within.moves (Within.lose ?_ _ _) rfl rfl
    exact hw.same rfl rfl rfl rfl rfl
  | readerEnded i =>
    simp only [SkeletonPool.step, Option.ite_none_right_eq_some, Option.some_inj] at hq
    obtain ⟨-, rfl⟩ := hq
    refine Within.moves ?_ rfl rfl
    exact hw.same rfl rfl rfl rfl rfl
  | recover =>
    simp only [SkeletonPool.step, Option.ite_none_right_eq_some, Option.some_inj] at hq
    obtain ⟨-, rfl⟩ := hq
    refine Within.moves (Within.apply ?_ _ _ (by simp)) rfl rfl
    exact hw.same rfl rfl rfl rfl rfl
  | resume k spawned =>
    rw [SkeletonPool.step] at hq
    split at hq
    · cases hq
    · next d hd =>
      refine Within.moves (Within.resume ?_ hq) rfl rfl
      exact hw.regroup rfl rfl rfl rfl (unpark_inPlay hd).subperm
  | close =>
    simp only [SkeletonPool.step, Option.ite_none_right_eq_some, Option.some_inj] at hq
    obtain ⟨-, rfl⟩ := hq
    refine Within.moves ?_ rfl rfl
    exact hw.same rfl rfl rfl rfl rfl
  | closeNext => exact step_closes hq

end SkeletonPool

/-- What happens in a workshop: besides its events the pool may shut, a child may outlive its slot, and it may die
at any moment. -/
inductive Happening
  | event (t : Event)
  | shut (a : SkeletonPool.Action)
  | stop (i : SkeletonID)
  | stray (i : SkeletonID)
  | dies (i : SkeletonID)
  deriving DecidableEq

def SkeletonPool.Action.shuts : SkeletonPool.Action → Bool
  | .readerEnded _ | .close | .closeNext => true
  | _ => false

def Deed.due : Deed → Option Work
  | .perform work => some work
  | _ => none

def Message.due : Message → Option Work
  | .run order => some order
  | _ => none

namespace Child

def performing (c : Child) : Option Work := c.todo.head?.bind Deed.due

/-- A child whose socket is closed at the other end. It still reads what came before. -/
def strays (h : Host) (c : Child) : Option Child :=
  if c.todo.head? = some .read ∧ c.inbox.unread = [] then some { c with guarded := false, todo := ending }
  else c.step h

def owes (c : Child) (mail : List Message) : List Work := c.todo.filterMap Deed.due ++ mail.filterMap Message.due

end Child

namespace Workshop

variable (h : Host) (w : Workshop)

def happen : Happening → Option Workshop
  | .event t => w.step h t
  | .shut a => if a.shuts then (w.pool.step a).map fun p => { w with pool := p } else none
  | .stop i => do
    let c ← w.children.get i
    let frame ← encodeMessage h.pickle .stop
    if w.pool.core.closing && w.holds i then some (w.place i { c with inbox := c.inbox.write frame }) else none
  | .stray i =>
    if w.holds i then none
    else do
      let c ← w.children.get i
      let c ← c.strays h
      return w.place i c
  | .dies i => (w.children.get i).map fun c => w.place i { c with todo := [] }

def performs : Happening → Option Work
  | .event (.child i) | .stray i => (w.children.get i).bind Child.performing
  | _ => none

def history : Workshop → List Happening → Option (Workshop × List Work)
  | w, [] => some (w, [])
  | w, a :: as => do
    let v ← w.happen h a
    let r ← history v as
    return (r.1, (w.performs a).toList ++ r.2)

def places (mail : SkeletonID → List Message) (done : List Work) (job : String) : ℕ :=
  (w.pool.orders []).count job + w.children.total (fun i c => ((c.owes (mail i)).map Work.id).count job) +
    (done.map Work.id).count job

end Workshop

def Submits (past : List Happening) (work : Work) : Prop :=
  ∃ token lazy, .event (.submit token lazy work.kind work.target work.args work.options) ∈ past

structure Spent (h : Host) (w : Workshop) (done : List Work) (past : List Happening)
    (mail : SkeletonID → List Message) : Prop where
  carries : ∀ i c, w.children.get i = some c → Carries h c.inbox (mail i)
  given : ∀ i c, w.children.get i = some c → ∀ work ∈ c.owes (mail i), w.works.get work.id = some work
  performed : ∀ work ∈ done, w.works.get work.id = some work
  once : ∀ job, w.places mail done job ≤ 1
  named : ∀ job, 0 < w.places mail done job → w.pool.NamedBy job
  works : ∀ job work, w.works.get job = some work → work.id = job ∧ w.pool.NamedBy job ∧ Submits past work

section Dues

open Child

variable {h : Host} {c c' : Child} {mail : List Message} {d : Deed} {todo : List Deed}

lemma raise_dues (c : Child) (e : Thrown) : (c.raise e).todo.filterMap Deed.due = [] := by
  rw [raise]
  split_ifs <;> rfl

lemma owes_concat {ms : List Message} {m : Message} : c.owes (ms ++ [m]) = c.owes ms ++ m.due.toList := by
  rw [owes, owes, List.filterMap_append, List.append_assoc]
  cases m <;> rfl

lemma step_dues (htodo : c.todo = d :: todo) (hd : d ≠ .read) (hstep : c.step h = some c') :
    c'.inbox = c.inbox ∧ (c'.todo.filterMap Deed.due).Sublist (todo.filterMap Deed.due) := by
  have hraised : ∀ {x : Child} {e : Thrown}, (some (x.raise e) = some c') → x.inbox = c.inbox →
      c'.inbox = c.inbox ∧ (c'.todo.filterMap Deed.due).Sublist (todo.filterMap Deed.due) := by
    intro x e hx hin
    obtain rfl := Option.some.inj hx
    refine ⟨hin, ?_⟩
    rw [raise_dues]
    exact List.nil_sublist _
  rw [step, htodo] at hstep
  cases d with
  | report e =>
    simp only at hstep
    split at hstep
    · exact hraised hstep rfl
    · split at hstep
      · exact hraised hstep rfl
      · cases hstep
        exact ⟨rfl, List.Sublist.refl _⟩
  | say m =>
    simp only at hstep
    split at hstep
    · exact hraised hstep rfl
    · cases hstep
      exact ⟨rfl, List.Sublist.refl _⟩
  | attempt =>
    cases hstep
    exact ⟨rfl, List.Sublist.refl _⟩
  | read => exact absurd rfl hd
  | perform work =>
    simp only at hstep
    split at hstep
    · exact hraised hstep rfl
    · cases hstep
      exact ⟨rfl, List.Sublist.refl _⟩
  | confess e =>
    simp only at hstep
    split at hstep <;>
      · cases hstep
        exact ⟨rfl, List.Sublist.refl _⟩

lemma step_owes (hin : Carries h c.inbox mail) (hstep : c.step h = some c') :
    ∃ mail', Carries h c'.inbox mail' ∧ (c.performing.toList ++ c'.owes mail').Sublist (c.owes mail) := by
  cases htodo : c.todo with
  | nil =>
    rw [step, htodo] at hstep
    cases hstep
  | cons d todo =>
    have howes : c.owes mail = d.due.toList ++ (todo.filterMap Deed.due ++ mail.filterMap Message.due) := by
      rw [owes, htodo]
      cases d <;> rfl
    have hperforming : c.performing = d.due := by
      rw [performing, htodo]
      rfl
    rw [howes, hperforming]
    by_cases hd : d = .read
    · subst hd
      cases mail with
      | nil =>
        rw [step, htodo] at hstep
        simp [hin.unread_nil] at hstep
      | cons m ms =>
        obtain ⟨s, hread, hrest⟩ := hin.read
        rw [step, htodo] at hstep
        simp only [if_neg hin.unread_cons, hread] at hstep
        have hms : (ms.filterMap Message.due).Sublist (todo.filterMap Deed.due ++ (m :: ms).filterMap Message.due) :=
          ((List.sublist_cons_self m ms).filterMap _).trans (List.sublist_append_right _ _)
        split at hstep
        · next heq => cases heq
        · next work s' heq =>
          cases heq
          cases hstep
          exact ⟨ms, hrest, List.sublist_append_right (todo.filterMap Deed.due) (work :: ms.filterMap Message.due)⟩
        · next heq =>
          cases heq
          cases hstep
          exact ⟨ms, hrest, hms⟩
    · obtain ⟨hinbox, hsub⟩ := step_dues htodo hd hstep
      refine ⟨mail, hinbox ▸ hin, List.Sublist.append_left ?_ _⟩
      exact hsub.append_right _

lemma strays_owes (hin : Carries h c.inbox mail) (hstep : c.strays h = some c') :
    ∃ mail', Carries h c'.inbox mail' ∧ (c.performing.toList ++ c'.owes mail').Sublist (c.owes mail) := by
  rw [strays] at hstep
  split_ifs at hstep with hempty
  · cases hstep
    refine ⟨mail, hin, ?_⟩
    have hnone : c.performing = none := by
      rw [performing, hempty.1]
      rfl
    rw [hnone]
    exact List.sublist_append_right _ _
  · exact step_owes hin hstep

end Dues

section Steps

variable {h : Host} {w v : Workshop} {done begun : List Work} {past : List Happening} {a : Happening}
  {mail : SkeletonID → List Message} {i : SkeletonID} {c c' : Child} {ms : List Message} {p : SkeletonPool}
  {act : SkeletonPool.Action}

def Workshop.owed (w : Workshop) (mail : SkeletonID → List Message) (i : SkeletonID) : List Work :=
  (w.children.get i).elim [] fun c => c.owes (mail i)

lemma places_set (hchild : v.children = w.children.set i c') (job : String) :
    v.children.total (fun j x => ((x.owes (Function.update mail i ms j)).map Work.id).count job) +
        ((w.owed mail i).map Work.id).count job =
      w.children.total (fun j x => ((x.owes (mail j)).map Work.id).count job) + ((c'.owes ms).map Work.id).count job := by
  have htotal := Dict.total_set (f := fun j x => ((Child.owes x (mail j)).map Work.id).count job)
    (g := fun j x => ((x.owes (Function.update mail i ms j)).map Work.id).count job) w.children i c'
    fun j hj u => by rw [Function.update_of_ne hj]
  rw [Function.update_self] at htotal
  rw [hchild, ← htotal, Workshop.owed]
  cases w.children.get i <;> rfl

lemma Spent.next {mail' : SkeletonID → List Message} (hs : Spent h w done past mail) (hworks : v.works = w.works)
    (hnumber : w.pool.jobSequence ≤ v.pool.jobSequence)
    (hplaces : ∀ job, v.places mail' (done ++ begun) job ≤ w.places mail done job)
    (hcarries : ∀ i c, v.children.get i = some c → Carries h c.inbox (mail' i))
    (hgiven : ∀ i c, v.children.get i = some c → ∀ work ∈ c.owes (mail' i), w.works.get work.id = some work)
    (hbegun : ∀ work ∈ begun, w.works.get work.id = some work) : Spent h v (done ++ begun) (past ++ [a]) mail' := by
  have hnamed : ∀ job, w.pool.NamedBy job → v.pool.NamedBy job := by
    rintro job ⟨n, token, hle, heq⟩
    exact ⟨n, token, hle.trans hnumber, heq⟩
  refine ⟨hcarries, hworks ▸ hgiven, fun work hm => ?_, fun job => (hplaces job).trans (hs.once job),
    fun job hpos => hnamed job (hs.named job (hpos.trans_le (hplaces job))), fun job work hw => ?_⟩
  · rw [hworks]
    exact (List.mem_append.mp hm).elim (hs.performed work) (hbegun work)
  · rw [hworks] at hw
    obtain ⟨hid, hn, token, lazy, hpast⟩ := hs.works job work hw
    exact ⟨hid, hnamed job hn, token, lazy, List.mem_append_left _ hpast⟩

lemma Spent.child (moved : List Work) (hs : Spent h w done past mail) (hchild : v.children = w.children.set i c')
    (hworks : v.works = w.works) (hnumber : w.pool.jobSequence ≤ v.pool.jobSequence)
    (horders : ∀ job, (v.pool.orders []).count job + (moved.map Work.id).count job ≤ (w.pool.orders []).count job)
    (hmoved : ∀ work ∈ moved, w.works.get work.id = some work) (hcarries : Carries h c'.inbox ms)
    (howes : (begun ++ c'.owes ms).Subperm (w.owed mail i ++ moved)) :
    Spent h v (done ++ begun) (past ++ [a]) (Function.update mail i ms) := by
  have hold : ∀ work ∈ w.owed mail i ++ moved, w.works.get work.id = some work := by
    intro work hm
    rcases List.mem_append.mp hm with hm | hm
    · rw [Workshop.owed] at hm
      cases hc : w.children.get i with
      | none =>
        rw [hc] at hm
        cases hm
      | some c =>
        rw [hc] at hm
        exact hs.given i c hc work hm
    · exact hmoved work hm
  refine hs.next hworks hnumber (fun job => ?_) ?_ ?_ fun work hm => hold work (howes.subset (List.mem_append_left _ hm))
  · obtain ⟨zs, hperm, hsub⟩ := howes
    have hset := @places_set w v mail i c' ms hchild job
    have hjob := horders job
    have hle : ((begun ++ c'.owes ms).map Work.id).count job ≤ ((w.owed mail i ++ moved).map Work.id).count job := by
      rw [← (hperm.map Work.id).count_eq]
      exact (hsub.map Work.id).count_le job
    simp only [List.map_append, List.count_append] at hle
    simp only [Workshop.places, List.map_append, List.count_append]
    omega
  · rw [hchild]
    refine Dict.forall_set (fun j x hj hx => ?_) ?_
    · rw [Function.update_of_ne hj]
      exact hs.carries j x hx
    · rw [Function.update_self]
      exact hcarries
  · rw [hchild]
    refine Dict.forall_set (fun j x hj hx => ?_) ?_
    · rw [Function.update_of_ne hj]
      exact hs.given j x hx
    · rw [Function.update_self]
      exact fun work hm => hold work (howes.subset (List.mem_append_right _ hm))

lemma Spent.pool (hs : Spent h w done past mail) (hchild : v.children = w.children) (hworks : v.works = w.works)
    (hnumber : w.pool.jobSequence ≤ v.pool.jobSequence)
    (horders : ∀ job, (v.pool.orders []).count job ≤ (w.pool.orders []).count job) :
    Spent h v (done ++ []) (past ++ [a]) mail := by
  refine hs.next hworks hnumber (fun job => ?_) (hchild ▸ hs.carries) (hchild ▸ hs.given) (by simp)
  have hjob := horders job
  simp only [Workshop.places, hchild, List.append_nil]
  omega

lemma owed_eq (hc : w.children.get i = some c) : w.owed mail i = c.owes (mail i) := by
  rw [Workshop.owed, hc, Option.elim_some]

structure Plain (act : SkeletonPool.Action) : Prop where
  hands : act.hands = []
  brings : ∀ p, act.brings p = []
  numbers : act.numbers = 0

lemma Plain.moves (hk : Plain act) (hp : w.pool.step act = some p) :
    w.pool.jobSequence ≤ p.jobSequence ∧ ∀ job, (p.orders []).count job ≤ (w.pool.orders []).count job := by
  obtain ⟨horders, hsequence⟩ := SkeletonPool.step_moves hp
  refine ⟨by omega, fun job => ?_⟩
  have hjob := horders job
  rw [hk.hands, hk.brings, List.count_nil] at hjob
  exact hjob

lemma Spent.goes (hs : Spent h w done past mail) (hc : w.children.get i = some c)
    (hnext : ∃ ms, Carries h c'.inbox ms ∧ (begun ++ c'.owes ms).Sublist (c.owes (mail i))) :
    ∃ mail', Spent h (w.place i c') (done ++ begun) (past ++ [a]) mail' := by
  obtain ⟨ms, hcarries, hsub⟩ := hnext
  refine ⟨_, hs.child [] rfl rfl le_rfl (fun job => ?_) (by simp) hcarries ?_⟩
  · rw [List.map_nil, List.count_nil]
    exact le_rfl
  · rw [List.append_nil, owed_eq hc]
    exact hsub.subperm

lemma Spent.submitted {token : String} {lazy : Bool} {kind : WorkerKind} {target : String} {args : List String}
    {options : List (String × String)} (hs : Spent h w done past mail)
    (hv : w.step h (.submit token lazy kind target args options) = some v) :
    Spent h v (done ++ []) (past ++ [.event (.submit token lazy kind target args options)]) mail := by
  obtain ⟨r, hr, hact⟩ := Workshop.step_cases hv
  rw [Workshop.turn] at hr
  dsimp only at hr
  split_ifs at hr with hdumps hsubmits
  · cases hr
    obtain ⟨hnone, -⟩ | ⟨act, p, hsome, hp, rfl⟩ := hact
    · cases hnone
    cases hsome
    set name := jobName (w.pool.jobSequence + 1) token with hname
    set work : Work := { id := name, kind := kind, target := target, args := args, options := options } with hwork
    obtain ⟨horders, hsequence⟩ := SkeletonPool.step_moves hp
    have hsequence : p.jobSequence = w.pool.jobSequence + 1 := hsequence
    have horders : ∀ job, (p.orders []).count job ≤ (w.pool.orders []).count job + [name].count job := horders
    have hfresh : ∀ {job}, w.pool.NamedBy job → job ≠ name := by
      rintro job ⟨n, token', hle, rfl⟩ heq
      have hnumber := SkeletonPool.jobName_inj heq
      omega
    have hnamed : ∀ {job}, w.pool.NamedBy job → p.NamedBy job := by
      rintro job ⟨n, token', hle, rfl⟩
      exact ⟨n, token', by omega, rfl⟩
    have hgiven : ∀ given : Work, w.works.get given.id = some given →
        (w.works.set name work).get given.id = some given := fun given hg =>
      (Dict.get_set_ne _ _ (hfresh (hs.works _ _ hg).2.1)).trans hg
    have hplaces : ∀ job, Workshop.places { w.submitted work with pool := p } mail (done ++ []) job ≤
        w.places mail done job + [name].count job := by
      intro job
      have hjob := horders job
      simp only [Workshop.places, Workshop.submitted, List.append_nil]
      omega
    have hother : ∀ job, job ≠ name → [name].count job = 0 := fun job hne =>
      List.count_eq_zero.mpr fun hm => hne (List.mem_singleton.mp hm)
    refine ⟨hs.carries, fun i c hc given hm => hgiven given (hs.given i c hc given hm), fun given hm => ?_,
      fun job => ?_, fun job hpos => ?_, fun job given hg => ?_⟩
    · rw [List.append_nil] at hm
      exact hgiven given (hs.performed given hm)
    · have hle := hplaces job
      by_cases hjob : job = name
      · have hzero : w.places mail done job = 0 := Nat.eq_zero_of_not_pos fun hpos => hfresh (hs.named job hpos) hjob
        rw [hzero, hjob, List.count_singleton_self] at hle
        exact hjob ▸ hle
      · rw [hother job hjob] at hle
        exact hle.trans (hs.once job)
    · by_cases hjob : job = name
      · exact ⟨w.pool.jobSequence + 1, token, hsequence.ge, hjob⟩
      · have hle := hplaces job
        rw [hother job hjob] at hle
        exact hnamed (hs.named job (hpos.trans_le hle))
    · have hg : (w.works.set name work).get job = some given := hg
      rw [Dict.get_set] at hg
      split_ifs at hg with hjob
      · cases hg
        exact ⟨hjob.symm, ⟨w.pool.jobSequence + 1, token, hsequence.ge, hjob⟩, token, lazy,
          List.mem_append_right _ (List.mem_singleton.mpr rfl)⟩
      · obtain ⟨hid, hn, token', lazy', hpast⟩ := hs.works job given hg
        exact ⟨hid, hnamed hn, token', lazy', List.mem_append_left _ hpast⟩
  · cases hr
    obtain ⟨-, rfl⟩ | ⟨act, p, hsome, -⟩ := hact
    · exact hs.pool rfl rfl (Nat.le_succ _) fun _ => le_rfl
    · cases hsome

lemma Spent.acts (hs : Spent h w done past mail) (hk : Plain act) (hc : w.children.get i = some c)
    (hinbox : c'.inbox = c.inbox) (htodo : c'.todo = c.todo) (hp : w.pool.step act = some p) :
    ∃ mail', Spent h { w.place i c' with pool := p } (done ++ []) (past ++ [a]) mail' := by
  obtain ⟨hnumber, horders⟩ := hk.moves hp
  refine ⟨_, hs.child [] rfl rfl hnumber (fun job => ?_) (by simp)
    (hinbox ▸ hs.carries i c hc) ?_⟩
  · rw [List.map_nil, List.count_nil]
    exact horders job
  · rw [owed_eq hc, Child.owes, Child.owes, htodo, List.nil_append, List.append_nil]

lemma Spent.plain (hs : Spent h w done past mail) (hk : Plain act) (hp : w.pool.step act = some p) :
    Spent h { w with pool := p } (done ++ []) (past ++ [a]) mail := by
  obtain ⟨hnumber, horders⟩ := hk.moves hp
  exact hs.pool rfl rfl hnumber horders

lemma Spent.boots (hs : Spent h w done past mail) (hk : Plain act)
    (hp : (w.place i (Child.boot h)).pool.step act = some p) :
    ∃ mail', Spent h { w.place i (Child.boot h) with pool := p } (done ++ []) (past ++ [a]) mail' := by
  obtain ⟨hnumber, horders⟩ := hk.moves (w := w) hp
  refine ⟨_, hs.child [] rfl rfl hnumber (fun job => ?_) (by simp) (.empty h.chunk) ?_⟩
  · rw [List.map_nil, List.count_nil]
    exact horders job
  · exact List.nil_subperm

lemma Spent.parent {b : SkeletonPool.Action} (hs : Spent h w done past mail)
    (hv : w.step h (.parent b) = some v) : ∃ mail', Spent h v (done ++ []) (past ++ [a]) mail' := by
  have hquiet : w.turn h (.parent b) = some ⟨w, some b⟩ → Plain b →
      ∃ mail', Spent h v (done ++ []) (past ++ [a]) mail' := fun hr hk => by
    obtain ⟨p, hp, rfl⟩ := Workshop.step_acts hr rfl hv
    exact ⟨mail, hs.plain hk hp⟩
  cases b with
  | start | cancelFuture _ | send _ | recover => exact hquiet rfl ⟨rfl, fun _ => rfl, rfl⟩
  | resume k spawned =>
    have hk : Plain (.resume k spawned) := ⟨rfl, fun _ => rfl, rfl⟩
    cases spawned with
    | none => exact hquiet rfl hk
    | some fd =>
      obtain ⟨r, hr, -⟩ := Workshop.step_cases hv
      have hturn := hr
      rw [Workshop.turn] at hr
      obtain ⟨i, -, rfl⟩ := Option.map_eq_some_iff.mp hr
      obtain ⟨p, hp, rfl⟩ := Workshop.step_acts hturn rfl hv
      exact hs.boots hk hp
  | _ => cases hv

lemma Spent.delivered {x : ControlEffect} (hh : Faithful h) (hs : Spent h w done past mail)
    (hv : w.step h (.deliver x) = some v) : ∃ mail', Spent h v (done ++ []) (past ++ [a]) mail' := by
  cases hd : w.delivered h x with
  | none =>
    have hturn : w.turn h (.deliver x) = some ⟨w, some (.sendFailed x)⟩ := by
      rw [Workshop.turn]
      simp only [hd]
    obtain ⟨p, hp, rfl⟩ := Workshop.step_acts hturn rfl hv
    exact ⟨mail, hs.plain ⟨rfl, fun _ => rfl, rfl⟩ hp⟩
  | some arrival =>
    obtain ⟨i, c'⟩ := arrival
    have hturn : w.turn h (.deliver x) = some ⟨w.place i c', some (.sent x)⟩ := by
      rw [Workshop.turn]
      simp only [hd]
    obtain ⟨p, hp, rfl⟩ := Workshop.step_acts hturn rfl hv
    obtain ⟨j, -, hd⟩ := Option.bind_eq_some_iff.mp hd
    obtain ⟨work, hwork, hd⟩ := Option.bind_eq_some_iff.mp hd
    obtain ⟨c, hc, hd⟩ := Option.bind_eq_some_iff.mp hd
    obtain ⟨frame, hframe, hd⟩ := Option.bind_eq_some_iff.mp hd
    rw [Option.ite_none_right_eq_some] at hd
    cases hd.2
    obtain ⟨hid, ⟨n, token, -, hname⟩, -⟩ := hs.works _ _ hwork
    have hjob : x.job = some work.id := by
      cases hx : x.job with
      | none => exact absurd (hname.symm.trans (by rw [hx]; rfl)) (SkeletonPool.jobName_ne_empty n token)
      | some job => rw [hid, hx, Option.getD_some]
    obtain ⟨horders, hsequence⟩ := SkeletonPool.step_moves hp
    have hsequence : p.jobSequence = w.pool.jobSequence := hsequence
    have horders : ∀ job, (p.orders []).count job + x.job.toList.count job ≤ (w.pool.orders []).count job := horders
    refine ⟨_, hs.child [work] rfl rfl hsequence.ge (fun job => ?_) (fun given hm => ?_)
      ((hs.carries i c hc).write (hh.crosses (by simp) hframe)) ?_⟩
    · have hle := horders job
      rwa [hjob] at hle
    · rw [List.mem_singleton.mp hm, hid]
      exact hwork
    · rw [owed_eq hc, owes_concat]
      exact List.Subperm.refl _

lemma Spent.heard (hs : Spent h w done past mail) (hv : w.step h (.receive i) = some v) :
    ∃ mail', Spent h v (done ++ []) (past ++ [a]) mail' := by
  obtain ⟨c, c', reading, hheard⟩ := Heard.of_step hv
  have hinbox : c'.inbox = c.inbox := hheard.rest ▸ rfl
  have htodo : c'.todo = c.todo := hheard.rest ▸ rfl
  cases hact : reaction i reading with
  | none =>
    obtain rfl := Workshop.step_quiet hheard.turn hact hv
    refine hs.goes hheard.child ⟨mail i, hinbox ▸ hs.carries i c hheard.child, ?_⟩
    rw [Child.owes, htodo]
    exact List.Sublist.refl _
  | some act =>
    obtain ⟨p, hp, rfl⟩ := Workshop.step_acts hheard.turn hact hv
    refine hs.acts ?_ hheard.child hinbox htodo hp
    cases reading with
    | nothing | raised =>
      cases hact
      exact ⟨rfl, fun _ => rfl, rfl⟩
    | message m =>
      cases m with
      | ready | result _ =>
        cases hact
        exact ⟨rfl, fun _ => rfl, rfl⟩
      | _ => cases hact

lemma Spent.happen (hh : Faithful h) (hs : Spent h w done past mail) (hv : w.happen h a = some v) :
    ∃ mail', Spent h v (done ++ (w.performs a).toList) (past ++ [a]) mail' := by
  cases a with
  | event t =>
    cases t with
    | submit token lazy kind target args options => exact ⟨mail, hs.submitted hv⟩
    | parent b => exact hs.parent hv
    | deliver x => exact hs.delivered hh hv
    | child i =>
      obtain ⟨r, hr, -⟩ := Workshop.step_cases hv
      have hturn := hr
      rw [Workshop.turn] at hr
      split_ifs at hr
      obtain ⟨c, hc, hr⟩ := Option.bind_eq_some_iff.mp hr
      obtain ⟨c', hstep, hr⟩ := Option.bind_eq_some_iff.mp hr
      cases hr
      obtain rfl := Workshop.step_quiet hturn rfl hv
      rw [Workshop.performs, hc, Option.bind_some]
      exact hs.goes hc (step_owes (hs.carries i c hc) hstep)
    | receive i => exact hs.heard hv
  | shut b =>
    rw [Workshop.happen, Option.ite_none_right_eq_some] at hv
    obtain ⟨hshuts, hv⟩ := hv
    obtain ⟨p, hp, rfl⟩ := Option.map_eq_some_iff.mp hv
    refine ⟨mail, hs.plain ?_ hp⟩
    cases b with
    | readerEnded _ | close | closeNext => exact ⟨rfl, fun _ => rfl, rfl⟩
    | _ => cases hshuts
  | stop i =>
    obtain ⟨c, hc, hv⟩ := Option.bind_eq_some_iff.mp hv
    obtain ⟨frame, hframe, hv⟩ := Option.bind_eq_some_iff.mp hv
    rw [Option.ite_none_right_eq_some] at hv
    obtain ⟨-, hv⟩ := hv
    cases hv
    refine hs.goes hc ⟨_, (hs.carries i c hc).write (hh.crosses (by simp) hframe), ?_⟩
    rw [owes_concat]
    exact (List.append_nil _).symm ▸ List.Sublist.refl _
  | stray i =>
    rw [Workshop.happen, Option.ite_none_left_eq_some] at hv
    obtain ⟨c, hc, hv⟩ := Option.bind_eq_some_iff.mp hv.2
    obtain ⟨c', hstep, hv⟩ := Option.bind_eq_some_iff.mp hv
    cases hv
    rw [Workshop.performs, hc, Option.bind_some]
    exact hs.goes hc (strays_owes (hs.carries i c hc) hstep)
  | dies i =>
    obtain ⟨c, hc, rfl⟩ := Option.map_eq_some_iff.mp hv
    refine hs.goes hc ⟨mail i, hs.carries i c hc, ?_⟩
    exact List.sublist_append_right (c.todo.filterMap Deed.due) ((mail i).filterMap Message.due)

lemma Spent.history (hh : Faithful h) {as : List Happening} (hs : Spent h w done past mail)
    (hv : w.history h as = some (v, begun)) : ∃ mail', Spent h v (done ++ begun) (past ++ as) mail' := by
  induction as generalizing w done past mail begun with
  | nil =>
    cases hv
    exact ⟨mail, by rwa [List.append_nil, List.append_nil]⟩
  | cons a as ih =>
    obtain ⟨u, hu, hv⟩ := Option.bind_eq_some_iff.mp hv
    obtain ⟨⟨v', rest⟩, hrest, hv⟩ := Option.bind_eq_some_iff.mp hv
    cases hv
    obtain ⟨mail', hs'⟩ := hs.happen hh hu
    obtain ⟨mail'', hend⟩ := ih hs' hrest
    rw [List.append_assoc, List.append_assoc] at hend
    exact ⟨mail'', hend⟩

lemma Spent.new (h : Host) (target : ℕ) : Spent h (.new target) [] [] fun _ => [] where
  carries := fun i c hc => (by cases hc)
  given := fun i c hc => (by cases hc)
  performed := fun work hm => (by cases hm)
  once := fun job => Nat.zero_le 1
  named := fun job hpos => (by cases hpos)
  works := fun job work hw => (by cases hw)

/-- Whatever is lost, whichever child dies and whenever the pool shuts, no job is performed twice, and what is
performed is what was submitted under its name. -/
theorem performed_once (hh : Faithful h) {target : ℕ} {as : List Happening}
    (hv : (Workshop.new target).history h as = some (v, done)) :
    (done.map Work.id).Nodup ∧ ∀ work ∈ done, v.works.get work.id = some work ∧ Submits as work := by
  obtain ⟨mail, hs⟩ := (Spent.new h target).history hh hv
  simp only [List.nil_append] at hs
  refine ⟨List.nodup_iff_count_le_one.mpr fun job => ?_, fun work hm => ?_⟩
  · have hle := hs.once job
    rw [Workshop.places] at hle
    omega
  · have hw := hs.performed work hm
    exact ⟨hw, (hs.works _ _ hw).2.2⟩

end Steps

section Samples

def lateEvents : List Happening :=
  sampleEvents.dropLast.dropLast.map .event ++
    [.shut .close, .shut .closeNext, .shut .closeNext, .shut (.readerEnded sampleChild), .shut .closeNext,
      .stray sampleChild, .dies sampleChild]

lemma lateEvents_run : ((Workshop.new 1).history wholeHost lateEvents).isSome = true := by decide +kernel

def lateEnd : Workshop × List Work := ((Workshop.new 1).history wholeHost lateEvents).get lateEvents_run

theorem performed_once_late : (lateEnd.2.map Work.id).Nodup ∧
    ∀ work ∈ lateEnd.2, lateEnd.1.works.get work.id = some work ∧ Submits lateEvents work :=
  performed_once wholeHost_honest.toFaithful (Option.some_get lateEvents_run).symm

example : lateEnd.2 = [sampleWork] := by decide +kernel

end Samples

end Reaper.Pool
