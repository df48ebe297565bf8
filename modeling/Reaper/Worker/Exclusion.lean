import Reaper.Store.Notifications

/-! Work that a worker cannot load. The poll loop gives such a task back and leaves its version out of
its later claims, so that it turns to other work or waits, and never spins. The transactions in between are
those of Sys, without DELETE_EXPIRED. -/

namespace Reaper.Worker

open Reaper.Library Reaper.Store

namespace Poller

inductive Place
  | polling
  | scanning
  | claimed (task : ClaimedTask)
  | running
  | releasing
  | empty
  | waiting
  | ended
  deriving DecidableEq

end Poller

/-- The store, and a loop of poll_tasks with the set of versions that it excludes. The counts are what
its CLAIMs have come to. -/
structure Poller where
  sys : Sys := {}
  topic : String
  session : ℕ
  excluded : List (String × ℕ) := []
  place : Poller.Place := .polling
  claims : ℕ := 0
  released : List (String × ℕ) := []
  committed : ℕ := 0
  waits : ℕ := 0

namespace Poller

inductive Event
  | store (k : ℕ) (a : Action)
  | loaded
  | wake
  | fail

variable (loads : String → ℕ → Bool)

/-- sorted(excluded), as the two arrays of CLAIM have it. -/
def capabilities (p : Poller) : List (String × ℕ) :=
  p.excluded.insertionSort fun v w => v.1 < w.1 ∨ v.1 = w.1 ∧ v.2 ≤ w.2

def stage (p : Poller) : Option Stage := (p.sys.txns.get p.session).map Txn.stage

/-- The loop's own steps in the store. What has been recorded is committed, and all else rolled back. -/
def next (p : Poller) : Action → Option Poller
  | .begin => if p.place = .polling then some p else none
  | .act (.claim topic excluded _) =>
    if p.place = .polling ∧ topic = p.topic ∧ excluded = p.capabilities then
      some { p with place := .scanning, claims := p.claims + 1 }
    else none
  | .act a =>
    match p.place, a with
    | .scanning, .claimNext =>
      match p.stage with
      | some (.holding task) => some { p with place := .claimed task }
      | some .failed => some { p with place := .empty }
      | _ => some p
    | .running, _ => some p
    | _, _ => none
  | .commit =>
    if p.place = .running then some { p with place := .polling, committed := p.committed + 1 } else none
  | .rollback =>
    match p.place with
    | .releasing => some { p with place := .polling }
    | .empty => some { p with place := .waiting, waits := p.waits + 1 }
    | .ended => some p
    | _ => none

def step (p : Poller) : Event → Option Poller
  | .store k a => (p.sys.step k a).bind fun sys =>
      if k = p.session then next { p with sys := sys } a else some { p with sys := sys }
  | .loaded =>
    match p.place with
    | .claimed task =>
      if loads task.function task.version then some { p with place := .running }
      else some { p with
        place := .releasing
        excluded := p.excluded.insert (task.function, task.version)
        released := p.released ++ [(task.function, task.version)] }
    | _ => none
  | .wake =>
    match p.place with
    | .waiting => some { p with place := .polling }
    | _ => none
  | .fail => some { p with place := .ended }

def run : Poller → List Event → Option Poller
  | p, [] => some p
  | p, e :: es => (p.step loads e).bind fun p' => run p' es

inductive Next (p : Poller) : Action → Poller → Prop
  | begin (hp : p.place = .polling) : Next p .begin p
  | claim {now : Time} (hp : p.place = .polling) : Next p (.act (.claim p.topic p.capabilities now))
      { p with place := .scanning, claims := p.claims + 1 }
  | found {task : ClaimedTask} (hp : p.place = .scanning) (hs : p.stage = some (.holding task)) :
      Next p (.act .claimNext) { p with place := .claimed task }
  | none (hp : p.place = .scanning) (hs : p.stage = some .failed) :
      Next p (.act .claimNext) { p with place := .empty }
  | scan (hp : p.place = .scanning) (hh : ∀ task, p.stage ≠ some (.holding task))
      (hf : p.stage ≠ some .failed) : Next p (.act .claimNext) p
  | run {b : Act} (hp : p.place = .running) : Next p (.act b) p
  | commit (hp : p.place = .running) :
      Next p .commit { p with place := .polling, committed := p.committed + 1 }
  | release (hp : p.place = .releasing) : Next p .rollback { p with place := .polling }
  | idle (hp : p.place = .empty) : Next p .rollback { p with place := .waiting, waits := p.waits + 1 }
  | ended (hp : p.place = .ended) : Next p .rollback p

def Place.owed : Place → ℕ
  | .polling | .releasing | .waiting => 0
  | _ => 1

def Place.rests : Place → Bool
  | .claimed _ | .running | .releasing | .ended => true
  | _ => false

structure Inv (p : Poller) : Prop where
  nodup : p.released.Nodup
  excluded : ∀ v, v ∈ p.excluded ↔ v ∈ p.released
  unloaded : ∀ v ∈ p.released, loads v.1 v.2 = false
  counted : p.claims ≤ p.released.length + p.committed + p.waits + p.place.owed
  scanning : p.place = .scanning →
    ∃ snap now left, p.stage = some (.claiming snap p.topic p.capabilities now left)
  claimed : ∀ task, p.place = .claimed task → (task.function, task.version) ∉ p.excluded

def Taken (p : Poller) (now : Time) (id : Id) : Prop :=
  p.sys.grant p.session ⟨.task id, .update⟩ = false ∨
    ∀ t, p.sys.committed.tasks.get id = some t → claimable p.topic p.capabilities now t = false

def claim (p : Poller) (now : Time) : Event :=
  .store p.session (.act (.claim p.topic p.capabilities now))

/-- A CLAIM was sent in the run from q, and its candidates outside of left were taken in turn. -/
def Scans (p₀ : Poller) (es : List Event) (q : Poller) (now : Time) (left : List Id) : Prop :=
  ∃ before after, es = before ++ q.claim now :: after ∧ p₀.run loads before = some q ∧
    ∀ id ∈ claimCandidates q.sys.committed q.topic q.capabilities now, id ∈ left ∨
      ∃ middle later r, after = middle ++ later ∧
        p₀.run loads (before ++ q.claim now :: middle) = some r ∧ r.Taken now id

structure Searching (p₀ : Poller) (es : List Event) (p : Poller) : Prop where
  idle : p.place = .polling ∨ p.place = .waiting →
    p.sys.txns.get p.session = none ∨ p.sys.txns.get p.session = some {}
  scanning : p.place = .scanning → ∃ q x now left, p.sys.txns.get p.session = some x ∧ x.delta = {} ∧
    x.stage = .claiming q.sys.committed p.topic p.capabilities now left ∧ q.claims + 1 = p.claims ∧
    Scans loads p₀ es q now left
  empty : p.place = .empty → ∃ q now, q.claims + 1 = p.claims ∧ Scans loads p₀ es q now []

section Steps

variable {loads} {p p' p₀ q : Poller} {k j : ℕ} {a : Action} {s s' : Sys} {x y : Txn} {db snap : Db}
  {grant : Locks.Lock Row → Bool} {topic : String} {excluded : List (String × ℕ)} {now : Time}
  {left : List Id} {id : Id} {e : Event} {es : List Event}

lemma Place.owed_le (place : Place) : place.owed ≤ 1 := by
  cases place with
  | polling | releasing | waiting => exact Nat.zero_le 1
  | _ => exact le_rfl

lemma mem_capabilities (v : String × ℕ) : v ∈ p.capabilities ↔ v ∈ p.excluded :=
  List.mem_insertionSort _

lemma Next.of_next (h : p.next a = some p') : Next p a p' := by
  cases a with
  | begin =>
    rw [next] at h
    split_ifs at h with hp
    cases h
    exact .begin hp
  | commit =>
    rw [next] at h
    split_ifs at h with hp
    cases h
    exact .commit hp
  | rollback =>
    simp only [next] at h
    split at h
    · cases h
      exact .release ‹_›
    · cases h
      exact .idle ‹_›
    · cases h
      exact .ended ‹_›
    · cases h
  | act b =>
    cases b with
    | claim topic excluded now =>
      rw [next] at h
      split_ifs at h with hp
      cases h
      obtain ⟨hp, rfl, rfl⟩ := hp
      exact .claim hp
    | claimNext =>
      simp only [next] at h
      split at h
      · rename_i hp _
        split at h
        · cases h
          exact .found hp ‹_›
        · cases h
          exact .none hp ‹_›
        · rename_i hh hf
          cases h
          exact .scan hp hh hf
      · cases h
        exact .run ‹_›
      · cases h
    | _ =>
      simp only [next] at h
      split at h
      · rename_i he
        cases he
      · cases h
        exact .run ‹_›
      · cases h

lemma step_get (h : s.step k a = some s') (hne : j ≠ k) : s'.txns.get j = s.txns.get j := by
  cases a with
  | begin =>
    rw [Sys.step] at h
    split_ifs at h
    cases h
    exact Dict.get_set_ne _ _ hne
  | act b =>
    obtain ⟨x, -, h⟩ := Option.bind_eq_some_iff.mp h
    obtain ⟨y, -, rfl⟩ := Option.map_eq_some_iff.mp h
    exact Dict.get_set_ne _ _ hne
  | commit =>
    rw [Sys.step] at h
    split at h <;> cases h
    exact Dict.get_erase_ne _ hne
  | rollback =>
    rw [Sys.step] at h
    split_ifs at h
    cases h
    exact Dict.get_erase_ne _ hne

lemma step_act {b : Act} (h : s.step k (.act b) = some s') : ∃ x y, s.txns.get k = some x ∧
    x.advance s.committed (s.grant k) b = some y ∧ s'.txns.get k = some y := by
  obtain ⟨x, hx, h⟩ := Option.bind_eq_some_iff.mp h
  obtain ⟨y, hy, rfl⟩ := Option.map_eq_some_iff.mp h
  exact ⟨x, y, hx, hy, Dict.get_set_self _ _ _⟩

lemma step_ends (h : s.step k a = some s') (ha : a = .commit ∨ a = .rollback) : s'.txns.get k = none := by
  rcases ha with rfl | rfl
  · rw [Sys.step] at h
    split at h <;> cases h
    exact Dict.get_erase_self _ _
  · rw [Sys.step] at h
    split_ifs at h
    cases h
    exact Dict.get_erase_self _ _

lemma claim_stage (h : x.advance db grant (.claim topic excluded now) = some y) : x.stage = .opened ∧
    y = x.enter (.claiming (x.view db) topic excluded now (claimCandidates (x.view db) topic excluded now)) := by
  simp only [Txn.advance] at h
  split at h
  · cases h
    exact ⟨‹_›, rfl⟩
  · cases h

lemma claimNext_cases (hs : x.stage = .claiming snap topic excluded now left)
    (h : x.advance db grant .claimNext = some y) : (left = [] ∧ y.stage = .failed) ∨
      (∃ id left', left = id :: left' ∧ y.stage = .claiming snap topic excluded now left' ∧
        y.delta = x.delta ∧ (grant ⟨.task id, .update⟩ = false ∨
          ∀ t, (x.view db).tasks.get id = some t → claimable topic excluded now t = false)) ∨
      ∃ task, y.stage = .holding task ∧ (task.function, task.version) ∉ excluded := by
  cases left with
  | nil =>
    simp only [Txn.advance, hs] at h
    cases h
    exact Or.inl ⟨rfl, rfl⟩
  | cons id left =>
    simp only [Txn.advance, hs] at h
    cases h
    rw [Txn.claimNext]
    split_ifs with hg
    · split
      · rename_i hnone
        exact Or.inr (Or.inl ⟨id, left, rfl, rfl, rfl, Or.inr fun t ht => by rw [hnone] at ht; cases ht⟩)
      · rename_i t ht
        by_cases hc : claimable topic excluded now t = true
        · rw [if_pos hc]
          rw [claimable, decide_eq_true_eq] at hc
          exact Or.inr (Or.inr ⟨claimedTask snap id t, rfl, hc.2.1⟩)
        · rw [if_neg hc]
          refine Or.inr (Or.inl ⟨id, left, rfl, rfl, rfl, Or.inr fun u hu => ?_⟩)
          cases ht.symm.trans hu
          exact Bool.eq_false_iff.mpr hc
    · exact Or.inr (Or.inl ⟨id, left, rfl, rfl, rfl, Or.inl (Bool.eq_false_iff.mpr hg)⟩)

lemma Inv.start (topic : String) (session : ℕ) (s : Sys) :
    Inv loads { sys := s, topic := topic, session := session } where
  nodup := List.nodup_nil
  excluded := fun _ => Iff.rfl
  unloaded := nofun
  counted := Nat.zero_le _
  scanning := nofun
  claimed := nofun

lemma Inv.elsewhere (h : Inv loads p) (hget : s.txns.get p.session = p.sys.txns.get p.session) :
    Inv loads { p with sys := s } := by
  have hstage : stage { p with sys := s } = p.stage := congrArg (Option.map Txn.stage) hget
  refine ⟨h.nodup, h.excluded, h.unloaded, h.counted, fun hp => ?_, h.claimed⟩
  rw [hstage]
  exact h.scanning hp

lemma Inv.moves (h : Inv loads p) {place : Place} {committed waits : ℕ} (hs : place ≠ .scanning)
    (hc : ∀ task, place ≠ .claimed task)
    (hn : p.committed + p.waits + p.place.owed ≤ committed + waits + place.owed) :
    Inv loads { p with sys := s, place := place, committed := committed, waits := waits } := by
  refine ⟨h.nodup, h.excluded, h.unloaded, ?_, fun hp => absurd hp hs, fun task hp => absurd hp (hc task)⟩
  have hcount := h.counted
  dsimp only
  omega

lemma Inv.next (h : Inv loads p) (hs : p.sys.step p.session a = some s)
    (hn : Next { p with sys := s } a p') : Inv loads p' := by
  have hcount := h.counted
  cases hn with
  | begin hp => exact h.moves (by rw [hp]; nofun) (by rw [hp]; nofun) le_rfl
  | claim hp =>
    obtain ⟨x, y, hx, hy, hy'⟩ := step_act hs
    obtain ⟨-, rfl⟩ := claim_stage hy
    refine ⟨h.nodup, h.excluded, h.unloaded, ?_, fun _ => ?_, nofun⟩
    · simp only [show p.place = .polling from hp, Place.owed] at hcount ⊢
      omega
    · exact ⟨_, _, _, congrArg (Option.map Txn.stage) hy'⟩
  | found hp ht =>
    obtain ⟨x, y, hx, hy, hy'⟩ := step_act hs
    obtain ⟨snap, now, left, hst⟩ := h.scanning hp
    rw [stage, hx] at hst
    rw [stage, hy'] at ht
    refine ⟨h.nodup, h.excluded, h.unloaded, ?_, nofun, fun t hq => ?_⟩
    · simpa only [show p.place = .scanning from hp, Place.owed] using hcount
    · cases hq
      rcases claimNext_cases (Option.some.inj hst) hy with ⟨-, hf⟩ | ⟨_, _, -, hl, -⟩ | ⟨task, hh, hne⟩
      · cases hf.symm.trans (Option.some.inj ht)
      · cases hl.symm.trans (Option.some.inj ht)
      · cases hh.symm.trans (Option.some.inj ht)
        exact fun hm => hne ((mem_capabilities _).mpr hm)
  | none hp =>
    exact h.moves nofun (fun _ => nofun) (by simp [show p.place = .scanning from hp, Place.owed])
  | scan hp hh hf =>
    obtain ⟨x, y, hx, hy, hy'⟩ := step_act hs
    obtain ⟨snap, now, left, hst⟩ := h.scanning hp
    rw [stage, hx] at hst
    refine ⟨h.nodup, h.excluded, h.unloaded, hcount, fun _ => ?_, h.claimed⟩
    rcases claimNext_cases (Option.some.inj hst) hy with ⟨-, he⟩ | ⟨_, left', -, hl, -⟩ | ⟨task, ht, -⟩
    · exact absurd (by rw [stage, hy', Option.map_some, he]) hf
    · exact ⟨snap, now, left', by rw [stage, hy', Option.map_some, hl]; rfl⟩
    · exact absurd (by rw [stage, hy', Option.map_some, ht]) (hh task)
  | run hp => exact h.moves (by rw [hp]; nofun) (by rw [hp]; nofun) le_rfl
  | commit hp =>
    refine h.moves nofun (fun _ => nofun) ?_
    rw [show p.place = .running from hp]
    simp only [Place.owed]
    omega
  | release hp => exact h.moves nofun (fun _ => nofun) (by rw [show p.place = .releasing from hp]; rfl)
  | idle hp =>
    refine h.moves nofun (fun _ => nofun) ?_
    rw [show p.place = .empty from hp]
    simp only [Place.owed]
    omega
  | ended hp => exact h.moves (by rw [hp]; nofun) (by rw [hp]; nofun) le_rfl

lemma Inv.step (h : Inv loads p) (hs : p.step loads e = some p') : Inv loads p' := by
  cases e with
  | store k a =>
    obtain ⟨s, hstep, hn⟩ := Option.bind_eq_some_iff.mp hs
    split_ifs at hn with hk
    · subst hk
      exact h.next hstep (.of_next hn)
    · cases hn
      exact h.elsewhere (step_get hstep (Ne.symm hk))
  | loaded =>
    simp only [Poller.step] at hs
    split at hs
    · rename_i task hp
      have hne := h.claimed task hp
      have hcount := h.counted
      rw [hp] at hcount
      split_ifs at hs with hl
      · cases hs
        exact h.moves nofun (fun _ => nofun) (by rw [hp]; rfl)
      · cases hs
        refine ⟨List.nodup_append.mpr ⟨h.nodup, List.nodup_singleton _, ?_⟩, fun v => ?_, fun v hv => ?_,
          ?_, nofun, nofun⟩
        · intro v hv w hw hvw
          rw [List.mem_singleton.mp hw] at hvw
          exact hne (hvw ▸ (h.excluded v).mpr hv)
        · rw [List.mem_insert_iff, h.excluded v, List.mem_append, List.mem_singleton]
          exact or_comm
        · rcases List.mem_append.mp hv with hv | hv
          · exact h.unloaded v hv
          · rw [List.mem_singleton.mp hv]
            exact Bool.eq_false_iff.mpr hl
        · simp only [List.length_append, List.length_singleton, Place.owed] at hcount ⊢
          omega
    · cases hs
  | wake =>
    simp only [Poller.step] at hs
    split at hs
    · rename_i hp
      cases hs
      exact h.moves nofun (fun _ => nofun) (by rw [hp]; rfl)
    · cases hs
  | fail =>
    cases hs
    refine h.moves nofun (fun _ => nofun) ?_
    exact Nat.add_le_add_left (Place.owed_le p.place) _

lemma Inv.run (h : Inv loads p) (hr : p.run loads es = some p') : Inv loads p' := by
  induction es generalizing p with
  | nil =>
    cases hr
    exact h
  | cons e es ih =>
    obtain ⟨q, hq, hr⟩ := Option.bind_eq_some_iff.mp hr
    exact ih (h.step hq) hr

lemma run_append (p₀ : Poller) (es fs : List Event) :
    p₀.run loads (es ++ fs) = (p₀.run loads es).bind fun p => p.run loads fs := by
  induction es generalizing p₀ with
  | nil => rfl
  | cons e es ih =>
    simp only [List.cons_append, run]
    cases p₀.step loads e with
    | none => rfl
    | some p => exact ih p

lemma Scans.next (h : Scans loads p₀ es q now left) (e : Event) : Scans loads p₀ (es ++ [e]) q now left := by
  obtain ⟨before, after, rfl, hr, htaken⟩ := h
  refine ⟨before, after ++ [e], by simp, hr, fun id hid => (htaken id hid).imp_right ?_⟩
  rintro ⟨middle, later, r, rfl, hm, ht⟩
  exact ⟨middle, later ++ [e], r, List.append_assoc _ _ _, hm, ht⟩

lemma Scans.passed (h : Scans loads p₀ es q now (id :: left)) (hr : p₀.run loads es = some p)
    (ht : p.Taken now id) : Scans loads p₀ es q now left := by
  obtain ⟨before, after, rfl, hb, htaken⟩ := h
  refine ⟨before, after, rfl, hb, fun j hj => ?_⟩
  rcases htaken j hj with hm | hm
  · rcases List.mem_cons.mp hm with rfl | hm
    · exact Or.inr ⟨after, [], p, (List.append_nil _).symm, hr, ht⟩
    · exact Or.inl hm
  · exact Or.inr hm

lemma Searching.elsewhere (h : Searching loads p₀ es p) (e : Event)
    (hget : s.txns.get p.session = p.sys.txns.get p.session) :
    Searching loads p₀ (es ++ [e]) { p with sys := s } := by
  refine ⟨fun hp => ?_, fun hp => ?_, fun hp => ?_⟩
  · rw [hget]
    exact h.idle hp
  · obtain ⟨q, x, now, left, hx, hd, hst, hlast, hsc⟩ := h.scanning hp
    exact ⟨q, x, now, left, hget.trans hx, hd, hst, hlast, hsc.next e⟩
  · obtain ⟨q, now, hlast, hsc⟩ := h.empty hp
    exact ⟨q, now, hlast, hsc.next e⟩

lemma Searching.away (h : p.place.rests = true) : Searching loads p₀ es p := by
  refine ⟨fun hp => ?_, fun hp => ?_, fun hp => ?_⟩
  · rcases hp with hp | hp <;> rw [hp] at h <;> cases h
  · rw [hp] at h
    cases h
  · rw [hp] at h
    cases h

lemma Searching.idles (hp : p.place = .polling ∨ p.place = .waiting)
    (hget : p.sys.txns.get p.session = none ∨ p.sys.txns.get p.session = some {}) :
    Searching loads p₀ es p := by
  refine ⟨fun _ => hget, fun h => ?_, fun h => ?_⟩
  · rcases hp with hp | hp <;> cases hp.symm.trans h
  · rcases hp with hp | hp <;> cases hp.symm.trans h

lemma Searching.next (h : Searching loads p₀ es p) (hr : p₀.run loads es = some p)
    (hs : p.sys.step p.session a = some s) (hn : Next { p with sys := s } a p') :
    Searching loads p₀ (es ++ [.store p.session a]) p' := by
  cases hn with
  | begin hp =>
    refine .idles (Or.inl hp) (Or.inr ?_)
    rw [Sys.step] at hs
    split_ifs at hs
    cases hs
    exact Dict.get_set_self _ _ _
  | @claim now hp =>
    obtain ⟨x, y, hx, hy, hy'⟩ := step_act hs
    obtain ⟨hst, rfl⟩ := claim_stage hy
    have hempty : x = {} := by
      rcases h.idle (Or.inl hp) with hn | hn
      · cases hx.symm.trans hn
      · exact Option.some.inj (hx.symm.trans hn)
    have hview : x.view p.sys.committed = p.sys.committed := Txn.view_empty (by rw [hempty])
    refine ⟨fun hp => (by rcases hp with hp | hp <;> cases hp), fun _ => ?_, fun hp => (by cases hp)⟩
    exact ⟨p, _, now, _, hy', by rw [hempty]; rfl, by rw [hview]; rfl, rfl, es, [], rfl, hr,
      fun id hid => Or.inl hid⟩
  | found => exact .away rfl
  | none hp hf =>
    obtain ⟨x, y, hx, hy, hy'⟩ := step_act hs
    obtain ⟨q, x', now, left, hx', -, hst, hlast, hsc⟩ := h.scanning hp
    cases hx.symm.trans hx'
    refine ⟨fun hp => (by rcases hp with hp | hp <;> cases hp), fun hp => (by cases hp),
      fun _ => ⟨q, now, hlast, ?_⟩⟩
    rw [stage, hy'] at hf
    rcases claimNext_cases hst hy with ⟨rfl, -⟩ | ⟨_, left', -, hl, -⟩ | ⟨task, ht, -⟩
    · exact hsc.next _
    · cases hl.symm.trans (Option.some.inj hf)
    · cases ht.symm.trans (Option.some.inj hf)
  | scan hp hh hf =>
    obtain ⟨x, y, hx, hy, hy'⟩ := step_act hs
    obtain ⟨q, x', now, left, hx', hd, hst, hlast, hsc⟩ := h.scanning hp
    cases hx.symm.trans hx'
    refine ⟨fun h => (by rw [hp] at h; rcases h with h | h <;> cases h), fun _ => ?_,
      fun h => (by rw [hp] at h; cases h)⟩
    rcases claimNext_cases hst hy with ⟨-, he⟩ | ⟨id, left', rfl, hl, hd', ht⟩ | ⟨task, ht, -⟩
    · exact absurd (by rw [stage, hy', Option.map_some, he]) hf
    · have htaken : p.Taken now id := by rwa [Txn.view_empty hd] at ht
      exact ⟨q, y, now, left', hy', hd'.trans hd, hl, hlast, (hsc.passed hr htaken).next _⟩
    · exact absurd (by rw [stage, hy', Option.map_some, ht]) (hh task)
  | run hp => exact .away (by rw [hp]; rfl)
  | commit => exact .idles (Or.inl rfl) (Or.inl (step_ends hs (Or.inl rfl)))
  | release => exact .idles (Or.inl rfl) (Or.inl (step_ends hs (Or.inr rfl)))
  | idle => exact .idles (Or.inr rfl) (Or.inl (step_ends hs (Or.inr rfl)))
  | ended hp => exact .away (by rw [hp]; rfl)

lemma Searching.step (h : Searching loads p₀ es p) (hr : p₀.run loads es = some p)
    (hs : p.step loads e = some p') : Searching loads p₀ (es ++ [e]) p' := by
  cases e with
  | store k a =>
    obtain ⟨s, hstep, hn⟩ := Option.bind_eq_some_iff.mp hs
    split_ifs at hn with hk
    · subst hk
      exact h.next hr hstep (.of_next hn)
    · cases hn
      exact h.elsewhere _ (step_get hstep (Ne.symm hk))
  | loaded =>
    simp only [Poller.step] at hs
    split at hs
    · split_ifs at hs <;> cases hs <;> exact .away rfl
    · cases hs
  | wake =>
    simp only [Poller.step] at hs
    split at hs
    · rename_i hp
      cases hs
      exact .idles (Or.inl rfl) (h.idle (Or.inr hp))
    · cases hs
  | fail =>
    cases hs
    exact .away rfl

lemma Searching.run (hidle : s.txns.get j = none)
    (hr : Poller.run loads { sys := s, topic := topic, session := j } es = some p) :
    Searching loads { sys := s, topic := topic, session := j } es p := by
  induction es using List.reverseRecOn generalizing p with
  | nil =>
    cases hr
    exact .idles (Or.inl rfl) (Or.inl hidle)
  | append_singleton es e ih =>
    rw [run_append] at hr
    obtain ⟨q, hq, he⟩ := Option.bind_eq_some_iff.mp hr
    obtain ⟨q', he, hq'⟩ := Option.bind_eq_some_iff.mp he
    cases hq'
    exact (ih hq).step hq he

end Steps

/-- Whatever else happens in the store, the loop gives each version that it cannot load back at most
once. It sends no more CLAIMs than it has waited and committed tasks, but for one in flight and one
for each of those versions. -/
theorem never_spins {loads : String → ℕ → Bool} {topic : String} {session : ℕ} {s : Sys} {es : List Event}
    {p : Poller} (hr : run loads { sys := s, topic := topic, session := session } es = some p) :
    p.released.Nodup ∧ (∀ v ∈ p.excluded, loads v.1 v.2 = false) ∧
      ∀ missing : Finset (String × ℕ), (∀ v ∈ p.released, v ∈ missing) →
        p.claims ≤ missing.card + p.committed + p.waits + 1 := by
  have h := (Inv.start topic session s).run hr
  refine ⟨h.nodup, fun v hv => h.unloaded v ((h.excluded v).mp hv), fun missing hm => ?_⟩
  have hcard : p.released.length ≤ missing.card := by
    rw [← List.toFinset_card_of_nodup h.nodup]
    exact Finset.card_le_card fun v hv => hm v (List.mem_toFinset.mp hv)
  have howed := Place.owed_le p.place
  have hcount := h.counted
  omega

def goneCall : CallRequest :=
  { Sys.sampleCall "gone" none 3 nofun Sys.rootCall.maxFailures_pos with function := "gone" }

def onlyWork (function : String) (_ : ℕ) : Bool := function = "work"

def bothStored : List Event :=
  (Sys.session 0 [.submitCalls [Sys.rootCall, goneCall], .insertNext, .insertNext, .insertEnd]).map
    fun e => .store e.1 e.2

def releasesGone : List Event :=
  (Sys.opening 7 [.claim "default" [] 5, .claimNext]).map (fun e => .store e.1 e.2) ++
    [.loaded, .store 7 .rollback]

def servesRoot : List Event :=
  bothStored ++ releasesGone ++
    (Sys.opening 7 [.claim "default" [("gone", 1)] 5, .claimNext]).map (fun e => .store e.1 e.2) ++
    [.loaded, .store 7 (.act (.retryTask Sys.failure 0 6)), .store 7 .commit]

def polled (es : List Event) : Option Poller := run onlyWork { topic := "default", session := 7 } es

lemma servesRoot_runs : (polled servesRoot).isSome = true := by decide +kernel

def served : Poller := (polled servesRoot).get servesRoot_runs

theorem never_spins_served : served.released.Nodup ∧
    (∀ v ∈ served.excluded, onlyWork v.1 v.2 = false) ∧
      ∀ missing : Finset (String × ℕ), (∀ v ∈ served.released, v ∈ missing) →
        served.claims ≤ missing.card + served.committed + served.waits + 1 :=
  never_spins (Option.some_get servesRoot_runs).symm

/-- When CLAIM has found nothing, each task that it could have had from its snapshot, and that the
worker can load, was locked by another transaction or had changed at some moment since. -/
theorem idles_only_when_taken {loads : String → ℕ → Bool} {topic : String} {session : ℕ} {s : Sys}
    {es : List Event} {p : Poller} (hidle : s.txns.get session = none)
    (hr : run loads { sys := s, topic := topic, session := session } es = some p) (hp : p.place = .empty) :
    ∃ before after q now, es = before ++ q.claim now :: after ∧ q.claims + 1 = p.claims ∧
      run loads { sys := s, topic := topic, session := session } before = some q ∧
      ∀ id t, id ∈ claimCandidates q.sys.committed q.topic [] now →
        q.sys.committed.tasks.get id = some t → loads t.function t.version = true →
        ∃ middle later r, after = middle ++ later ∧
          run loads { sys := s, topic := topic, session := session } (before ++ q.claim now :: middle) = some r ∧
          r.Taken now id := by
  obtain ⟨q, now, hlast, before, after, he, hq, htaken⟩ := (Searching.run hidle hr).empty hp
  refine ⟨before, after, q, now, he, hlast, hq, fun id t hid ht hl => ?_⟩
  have hinv := (Inv.start topic session s).run hq
  have hne : (t.function, t.version) ∉ q.capabilities := by
    intro hm
    have hf := hinv.unloaded _ ((hinv.excluded _).mp ((mem_capabilities _).mp hm))
    cases hl.symm.trans hf
  obtain ⟨hready, ⟨t', ht', -, hav⟩, hex⟩ := mem_claimCandidates_iff.mp hid
  cases ht.symm.trans ht'
  refine (htaken id (mem_claimCandidates_iff.mpr ⟨hready, ⟨t, ht, hne, hav⟩, hex⟩)).resolve_left ?_
  exact List.not_mem_nil

def findsNothing : List Event :=
  bothStored ++ (Sys.opening 9 [.claim "default" [("gone", 1)] 5, .claimNext]).map (fun e => .store e.1 e.2) ++
    releasesGone ++
    (Sys.opening 7 [.claim "default" [("gone", 1)] 5, .claimNext, .claimNext]).map fun e => .store e.1 e.2

lemma findsNothing_runs : (polled findsNothing).isSome = true := by decide +kernel

def foundNothing : Poller := (polled findsNothing).get findsNothing_runs

theorem idles_only_when_taken_foundNothing :
    ∃ before after q now, findsNothing = before ++ q.claim now :: after ∧
      q.claims + 1 = foundNothing.claims ∧ polled before = some q ∧
      ∀ id t, id ∈ claimCandidates q.sys.committed q.topic [] now →
        q.sys.committed.tasks.get id = some t → onlyWork t.function t.version = true →
        ∃ middle later r, after = middle ++ later ∧
          polled (before ++ q.claim now :: middle) = some r ∧ r.Taken now id :=
  idles_only_when_taken rfl (Option.some_get findsNothing_runs).symm (by decide +kernel)

end Poller

end Reaper.Worker
