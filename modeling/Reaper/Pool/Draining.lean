import Reaper.Pool.Assertions
import Reaper.Pool.Stale

/-! An open pool whose skeletons all answer runs out of jobs. -/

namespace Reaper.Pool.ReaperCore

open Reaper.Library

variable {c c' : ReaperCore} {fx : List ControlEffect}

def runningJobs (c : ReaperCore) : List String :=
  c.slots.values.filterMap fun slot => if slot.state = .running then slot.job else none

def Busy (c : ReaperCore) : Prop :=
  c.queue ≠ [] ∨ ∃ slot ∈ c.slots.values, slot.state = .starting ∨ slot.state = .running

instance (c : ReaperCore) : Decidable (Busy c) :=
  inferInstanceAs (Decidable
    (_ ∨ ∃ slot ∈ c.slots.values, slot.state = .starting ∨ slot.state = .running))

def reply (ok : Bool) (slot : ControlSlot) : List ControlEvent :=
  match slot.state with
  | .starting => [{ kind := .ready, identity := some slot.identity }]
  | .running => [{ kind := .result, identity := some slot.identity, job := slot.job, ok := ok }]
  | _ => []

def round (ok : ControlSlot → Bool) (c : ReaperCore) : ReaperCore × List ControlEffect :=
  c.run (c.slots.values.flatMap fun slot => reply (ok slot) slot)

/-- The loop over rounds, or `none` where it needs more of them than it is given. -/
def drain (ok : ℕ → ControlSlot → Bool) : ℕ → ReaperCore → Option (ReaperCore × List ControlEffect)
  | 0, c => if Busy c then none else some (c, [])
  | n + 1, c =>
    if Busy c then
      let r := round (ok n) c
      (drain ok n r.1).map fun s => (s.1, r.2 ++ s.2)
    else some (c, [])

structure Works (slot : ControlSlot) : Prop where
  state : slot.state = .starting ∨ slot.state = .idle ∨ slot.state = .running
  owned : slot.job.isSome ↔ slot.state = .running

structure Serving (c : ReaperCore) : Prop where
  opened : c.closing = false
  placed : Placed c
  works : ∀ slot ∈ c.slots.values, Works slot

def jobs (c : ReaperCore) : List String := c.queue ++ c.slots.values.filterMap ControlSlot.job

def idled (c : ReaperCore) (slot : ControlSlot) : ReaperCore :=
  { c with slots := c.slots.set slot.identity.fd { identity := slot.identity, state := .idle } }

def served (c : ReaperCore) (slot : ControlSlot) : ControlSlot where
  identity := slot.identity
  state := if c.queue = [] then .idle else .running
  job := c.queue.head?

def afterReply (c : ReaperCore) (slot : ControlSlot) : ReaperCore :=
  { c with queue := c.queue.tail, slots := c.slots.set slot.identity.fd (c.served slot) }

lemma dispatch_one {fd : ℤ} {slot : ControlSlot} {job : String} {queue : List String}
    (hq : c.queue = job :: queue) (hget : c.slots.get fd = some slot) (hidle : slot.state = .idle)
    (hothers : ∀ j s, j ≠ fd → c.slots.get j = some s → s.state ≠ .idle) :
    c.dispatch = ({ c with
        queue := queue
        slots := c.slots.set fd { slot with state := .running, job := some job } },
      [{ kind := .sendRun, identity := some slot.identity, job := some job }]) := by
  obtain ⟨xs, ys, he, -, -⟩ := Dict.split_get c.slots hget
  have hkeys := c.slots.nodup
  rw [he, List.map_append, List.map_cons, List.nodup_append] at hkeys
  obtain ⟨-, hys, hxs⟩ := hkeys
  have hmem : ∀ e ∈ xs ++ ys, e.1 ≠ fd → e.2.state ≠ .idle := by
    intro e hm hne
    refine hothers e.1 e.2 hne ((Dict.mem_entries _ _ _).mp ?_)
    rw [he]
    rcases List.mem_append.mp hm with hm | hm
    · exact List.mem_append_left _ hm
    · exact List.mem_append_right _ (List.mem_cons_of_mem _ hm)
  have hbefore : ∀ e ∈ xs, e.2.state ≠ .idle := fun e hm =>
    hmem e (List.mem_append_left _ hm) (hxs _ (List.mem_map_of_mem hm) _ List.mem_cons_self)
  have hafter : ∀ e ∈ ys, e.2.state ≠ .idle := fun e hm =>
    hmem e (List.mem_append_right _ hm) fun hfd =>
      (List.nodup_cons.mp hys).1 (List.mem_map.mpr ⟨e, hm, hfd⟩)
  rw [dispatch, he, dispatchLoop_skip xs _ c hbefore, dispatchLoop, hq]
  dsimp only
  rw [if_neg (not_not.mpr hidle), dispatchLoop_busy ys _ hafter]

lemma dispatch_served (hs : Saturated c) (slot : ControlSlot) :
    ∃ fx, (c.idled slot).dispatch = (c.afterReply slot, fx) ∧ settled fx = [] := by
  have hget : (c.idled slot).slots.get slot.identity.fd =
      some { identity := slot.identity, state := .idle } := Dict.get_set_self _ _ _
  cases hq : c.queue with
  | nil =>
    have hq' : (c.idled slot).queue = [] := hq
    refine ⟨[], ?_, rfl⟩
    rw [dispatch_idle hq']
    simp [idled, afterReply, served, hq]
  | cons job queue =>
    have hq' : (c.idled slot).queue = job :: queue := hq
    have hothers : ∀ j s, j ≠ slot.identity.fd → (c.idled slot).slots.get j = some s →
        s.state ≠ .idle := by
      intro j s hj hs'
      rw [idled, Dict.get_set_ne _ _ hj] at hs'
      rcases hs with hs | hs
      · cases hq.symm.trans hs
      · exact hs s ((Dict.mem_values _ _).mpr ⟨j, hs'⟩)
    refine ⟨[{ kind := .sendRun, identity := some slot.identity, job := some job }],
      (dispatch_one hq' hget rfl hothers).trans ?_, rfl⟩
    simp [idled, afterReply, served, hq, Dict.set_set]

lemma Serving.get (h : Serving c) {slot : ControlSlot} (hslot : slot ∈ c.slots.values) :
    c.slots.get slot.identity.fd = some slot := by
  obtain ⟨fd, hget⟩ := (Dict.mem_values _ _).mp hslot
  rwa [h.placed fd slot hget]

lemma Serving.find (h : Serving c) {slot : ControlSlot} (hslot : slot ∈ c.slots.values) :
    c.find (some slot.identity) = some slot := by
  rw [ReaperCore.find, h.get hslot]
  simp [Option.filter]

lemma apply_reply (h : Serving c) (hs : Saturated c) (ok : Bool) {slot : ControlSlot}
    (hslot : slot ∈ c.slots.values) (hstate : slot.state ≠ .idle) :
    ∃ e fx, reply ok slot = [e] ∧ c.apply e = (c.afterReply slot, fx) ∧
      settled fx = slot.job.toList := by
  obtain ⟨fx, hdispatch, hsettled⟩ := dispatch_served hs slot
  have howned := (h.works slot hslot).owned
  rcases (h.works slot hslot).state with hk | hk | hk
  · have hjob : slot.job = none := by
      rw [hk] at howned
      simpa using howned
    refine ⟨{ kind := .ready, identity := some slot.identity }, fx, by rw [reply, hk], ?_, ?_⟩
    · have hready : c.handle { kind := .ready, identity := some slot.identity } = (c.idled slot, []) := by
        simp [handle, ready, h.find hslot, hk, idled, hjob]
      rw [apply, hready, hdispatch, List.nil_append]
    · rw [hsettled, hjob]
      rfl
  · exact absurd hk hstate
  · obtain ⟨job, hjob⟩ := Option.isSome_iff_exists.mp (howned.mpr hk)
    let e : ControlEvent := { kind := .result, identity := some slot.identity, job := slot.job, ok := ok }
    have hresult : ∃ gx, c.handle e = (c.idled slot, gx) ∧ settled gx = [job] := by
      cases ok with
      | true => exact ⟨_, by simp [e, handle, result, h.find hslot, hk, idled, hjob]; rfl, by simp [settled, settledBy]⟩
      | false => exact ⟨_, by simp [e, handle, result, h.find hslot, hk, idled, hjob]; rfl, by simp [settled, settledBy]⟩
    obtain ⟨gx, hhandle, hgx⟩ := hresult
    refine ⟨e, gx ++ fx, by rw [reply, hk], ?_, ?_⟩
    · rw [apply, hhandle, hdispatch]
    · rw [settled_append, hgx, hsettled, hjob]
      rfl

lemma Serving.afterReply (h : Serving c) (slot : ControlSlot) :
    Serving (c.afterReply slot) where
  opened := h.opened
  placed := Dict.forall_set (fun fd s _ hs => h.placed fd s hs) rfl
  works := by
    intro s hs
    rcases Dict.mem_values_set _ hs with rfl | hs
    · cases hq : c.queue <;> exact ⟨by simp [served, hq], by simp [served, hq]⟩
    · exact h.works s hs

lemma afterReply_jobs (h : Serving c) {slot : ControlSlot} (hslot : slot ∈ c.slots.values) (job : String) :
    c.jobs.count job = slot.job.toList.count job + (c.afterReply slot).jobs.count job := by
  have hcount := Dict.count_set ControlSlot.job c.slots (c.served slot) (h.get hslot) job
  rw [jobs, jobs, ReaperCore.afterReply, List.count_append, List.count_append]
  dsimp only
  cases hq : c.queue with
  | nil =>
    rw [served, hq] at hcount ⊢
    simp at hcount ⊢
    omega
  | cons first queue =>
    rw [served, hq] at hcount ⊢
    simp [List.count_cons] at hcount ⊢
    omega

structure Rounds (c : ReaperCore) (rest : List ControlSlot) (c' : ReaperCore) (fx : List ControlEffect) :
    Prop where
  serving : Serving c'
  saturated : Saturated c'
  queue : c'.queue = c.queue.drop (rest.countP fun slot => slot.state ≠ .idle)
  count : ∀ job, c.jobs.count job = (settled fx).count job + c'.jobs.count job
  slots : c'.slots.entries.length = c.slots.entries.length
  settles : c.queue = [] → (∀ slot ∈ c.slots.values, slot ∈ rest ∨ slot.state = .idle) →
    ∀ slot ∈ c'.slots.values, slot.state = .idle

lemma run_replies (ok : ControlSlot → Bool) (rest : List ControlSlot) (h : Serving c) (hs : Saturated c)
    (hr : ∀ slot ∈ rest, slot ∈ c.slots.values) (hn : (rest.map fun slot => slot.identity.fd).Nodup) :
    Rounds c rest (c.run (rest.flatMap fun slot => reply (ok slot) slot)).1
      (c.run (rest.flatMap fun slot => reply (ok slot) slot)).2 := by
  induction rest generalizing c with
  | nil => exact ⟨h, hs, rfl, fun _ => (Nat.zero_add _).symm, rfl, fun _ hidle => by simpa [run] using hidle⟩
  | cons slot rest ih =>
    rw [List.map_cons, List.nodup_cons] at hn
    have hslot := hr slot List.mem_cons_self
    have hrest : ∀ s ∈ rest, s ∈ c.slots.values := fun s hm => hr s (List.mem_cons_of_mem _ hm)
    rw [List.flatMap_cons]
    by_cases hidle : slot.state = .idle
    · obtain ⟨hserving, hsaturated, hqueue, hcount, hslots, hsettles⟩ := ih h hs hrest hn.2
      have hnone : reply (ok slot) slot = [] := by rw [reply, hidle]
      rw [hnone, List.nil_append]
      refine ⟨hserving, hsaturated, ?_, hcount, hslots, fun hq hall => hsettles hq fun s hm => ?_⟩
      · rw [hqueue, List.countP_cons_of_neg (by simpa using hidle)]
      · rcases hall s hm with hm | hm
        · rcases List.mem_cons.mp hm with rfl | hm
          · exact Or.inr hidle
          · exact Or.inl hm
        · exact Or.inr hm
    · obtain ⟨e, fx, hreply, happly, hsettled⟩ := apply_reply h hs (ok slot) hslot hidle
      have hs' : Saturated (c.afterReply slot) := by
        have hdispatch := dispatch_saturated (c.handle e).1
        rwa [show (c.handle e).1.dispatch.1 = c.afterReply slot from congrArg Prod.fst happly] at hdispatch
      have hr' : ∀ s ∈ rest, s ∈ (c.afterReply slot).slots.values := by
        intro s hm
        have hne : s.identity.fd ≠ slot.identity.fd := fun hfd =>
          hn.1 (List.mem_map.mpr ⟨s, hm, hfd⟩)
        refine (Dict.mem_values _ _).mpr ⟨s.identity.fd, ?_⟩
        exact (Dict.get_set_ne _ _ hne).trans (h.get (hrest s hm))
      obtain ⟨hserving, hsaturated, hqueue, hcount, hslots, hsettles⟩ := ih (h.afterReply slot) hs' hr' hn.2
      rw [hreply, List.singleton_append, run, happly]
      dsimp only
      refine ⟨hserving, hsaturated, ?_, fun job => ?_, ?_, fun hq hall => hsettles ?_ fun s hm => ?_⟩
      · rw [hqueue, List.countP_cons_of_pos (by simpa using hidle)]
        simp [ReaperCore.afterReply, List.drop_tail]
      · have hstep := afterReply_jobs h hslot job
        have hrun := hcount job
        rw [settled_append, hsettled, List.count_append]
        omega
      · rw [hslots]
        exact Dict.length_set _ _ (h.get hslot)
      · simp [ReaperCore.afterReply, hq]
      · have hget := (h.afterReply slot).get hm
        rw [ReaperCore.afterReply, Dict.get_set] at hget
        split_ifs at hget with hfd
        · right
          rw [← Option.some.inj hget, served]
          exact if_pos hq
        · rcases hall s ((Dict.mem_values _ _).mpr ⟨_, hget⟩) with hm | hm
          · rcases List.mem_cons.mp hm with rfl | hm
            · exact absurd rfl hfd
            · exact Or.inl hm
          · exact Or.inr hm

lemma Serving.fds (h : Serving c) : (c.slots.values.map fun slot => slot.identity.fd).Nodup := by
  have hkeys : (c.slots.values.map fun slot => slot.identity.fd) = c.slots.entries.map Prod.fst := by
    rw [Dict.values, List.map_map]
    refine List.map_congr_left fun entry hm => ?_
    exact h.placed entry.1 entry.2 ((Dict.mem_entries _ _ _).mp hm)
  rw [hkeys]
  exact c.slots.nodup

lemma round_rounds (ok : ControlSlot → Bool) (h : Serving c) (hs : Saturated c) :
    Rounds c c.slots.values (round ok c).1 (round ok c).2 :=
  run_replies ok c.slots.values h hs (fun _ hm => hm) h.fds

lemma not_busy_jobs (h : Serving c) (hb : ¬ Busy c) :
    c.queue = [] ∧ (∀ slot ∈ c.slots.values, slot.state = .idle) ∧ c.jobs = [] := by
  obtain ⟨hq, hslots⟩ := not_or.mp hb
  rw [not_not] at hq
  have hidle : ∀ slot ∈ c.slots.values, slot.state = .idle := by
    intro slot hm
    rcases (h.works slot hm).state with hk | hk | hk
    · exact absurd ⟨slot, hm, Or.inl hk⟩ hslots
    · exact hk
    · exact absurd ⟨slot, hm, Or.inr hk⟩ hslots
  refine ⟨hq, hidle, ?_⟩
  rw [jobs, hq, List.nil_append, List.filterMap_eq_nil_iff]
  intro slot hm
  have howned := (h.works slot hm).owned
  rw [hidle slot hm] at howned
  simpa using howned

lemma drain_idle (ok : ℕ → ControlSlot → Bool) (n : ℕ) (hb : ¬ Busy c) : drain ok n c = some (c, []) := by
  cases n with
  | zero => rw [drain, if_neg hb]
  | succ n => rw [drain, if_neg hb]

/-- While jobs wait every slot is busy, so each round takes one at least; one more round empties the slots. -/
lemma drain_drains (ok : ℕ → ControlSlot → Bool) (n : ℕ) (h : Serving c) (hs : Saturated c)
    (hslots : 0 < c.slots.entries.length) (hn : c.queue.length < n) :
    ∃ c' fx, drain ok n c = some (c', fx) ∧ c'.queue = [] ∧
      (∀ slot ∈ c'.slots.values, slot.state = .idle) ∧
      ∀ job, (settled fx).count job = c.jobs.count job := by
  induction n generalizing c with
  | zero => omega
  | succ n ih =>
    rw [drain]
    split_ifs with hb
    · have hround := round_rounds (ok n) h hs
      have hqueue := hround.queue
      have hrest : ∃ c' fx, drain ok n (round (ok n) c).1 = some (c', fx) ∧ c'.queue = [] ∧
          (∀ slot ∈ c'.slots.values, slot.state = .idle) ∧
          ∀ job, (settled fx).count job = (round (ok n) c).1.jobs.count job := by
        by_cases hq : c.queue = []
        · rw [hq, List.drop_nil] at hqueue
          have hidle := hround.settles hq fun slot hm => Or.inl hm
          have hnot : ¬ Busy (round (ok n) c).1 := by
            rintro (hbusy | ⟨slot, hm, hbusy⟩)
            · exact hbusy hqueue
            · rw [hidle slot hm] at hbusy
              simp at hbusy
          obtain ⟨-, -, hjobs⟩ := not_busy_jobs hround.serving hnot
          exact ⟨_, [], drain_idle ok n hnot, hqueue, hidle, fun job => by rw [hjobs]; rfl⟩
        · have hbusy : ∀ slot ∈ c.slots.values, slot.state ≠ .idle := hs.resolve_left hq
          have hall : c.slots.values.countP (fun slot => slot.state ≠ .idle) = c.slots.entries.length := by
            rw [List.countP_eq_length.mpr (by simpa using hbusy), Dict.values, List.length_map]
          have hlength := congrArg List.length hqueue
          rw [hall, List.length_drop] at hlength
          have hpos := List.length_pos_iff.mpr hq
          exact ih hround.serving hround.saturated (by rw [hround.slots]; exact hslots) (by omega)
      obtain ⟨c', fx, hdrain, hq, hidle, hcount⟩ := hrest
      refine ⟨c', (round (ok n) c).2 ++ fx, by simp [hdrain], hq, hidle, fun job => ?_⟩
      rw [settled_append, List.count_append, hcount, hround.count]
    · obtain ⟨hq, hidle, hjobs⟩ := not_busy_jobs h hb
      exact ⟨c, [], rfl, hq, hidle, fun job => by rw [hjobs]; rfl⟩

lemma works_starting (i : SkeletonID) : Works { identity := i, state := .starting } :=
  ⟨Or.inl rfl, by simp⟩

lemma works_idle (i : SkeletonID) : Works { identity := i, state := .idle } :=
  ⟨Or.inr (Or.inl rfl), by simp⟩

lemma handle_works (e : ControlEvent) (hw : ∀ slot ∈ c.slots.values, Works slot)
    (ho : (c.handle e).1.closing = false) : ∀ slot ∈ (c.handle e).1.slots.values, Works slot := by
  have hset : ∀ {fd : ℤ} {new : ControlSlot}, Works new → ∀ slot ∈ (c.slots.set fd new).values, Works slot := by
    intro fd new hnew slot hm
    rcases Dict.mem_values_set _ hm with rfl | hm
    · exact hnew
    · exact hw slot hm
  have hfill : ∀ d : ReaperCore, (∀ slot ∈ d.slots.values, Works slot) →
      ∀ slot ∈ d.fill.1.slots.values, Works slot := by
    intro d hd
    rw [(fill_spec d).2.1]
    exact hd
  rw [handle] at ho ⊢
  cases hk : e.kind with
  | start | recover => exact hfill c hw
  | spawned =>
    simp only [spawned]
    split
    · split_ifs
      · exact hw
      · exact hfill _ (hset (works_starting _))
      · exact hw
    · exact hw
  | spawnFailed =>
    simp only [spawnFailed]
    split <;> exact hw
  | ready =>
    simp only [ready]
    split
    · exact hw
    · next slot hslot =>
      split_ifs with hstate
      · exact hw
      · rw [not_not] at hstate
        have howned := (hw slot ((Dict.mem_values _ _).mpr ⟨_, find_spec hslot⟩)).owned
        rw [hstate] at howned
        exact hset ⟨Or.inr (Or.inl rfl), by simpa using howned⟩
  | submit =>
    simp only [submit]
    split
    · exact hw
    · split_ifs <;> exact hw
  | result =>
    simp only [result]
    split
    · exact hw
    · split_ifs
      · exact hw
      · exact hw
      all_goals exact hset (works_idle _)
  | eof | sendFailed =>
    simp only [lost]
    split
    · exact hw
    · exact fun slot hm => hw slot (Dict.mem_values_erase _ hm)
  | close =>
    rw [hk] at ho
    simp only [close] at ho ⊢
    split_ifs at ho ⊢
    exact hw
  | deadline =>
    simp only [deadline]
    split_ifs <;> exact hw

lemma dispatch_works (c : ReaperCore) (hw : ∀ slot ∈ c.slots.values, Works slot) :
    ∀ slot ∈ c.dispatch.1.slots.values, Works slot := by
  have hloop : ∀ (rest : List (ℤ × ControlSlot)) (c : ReaperCore), (∀ slot ∈ c.slots.values, Works slot) →
      ∀ slot ∈ (dispatchLoop rest c).1.slots.values, Works slot := by
    intro rest
    induction rest with
    | nil => exact fun c hw => hw
    | cons entry rest ih =>
      intro c hw
      rw [dispatchLoop]
      split
      · exact hw
      · split_ifs
        · exact ih c hw
        · refine ih _ fun slot hm => ?_
          rcases Dict.mem_values_set _ hm with rfl | hm
          · exact ⟨Or.inr (Or.inr rfl), by simp⟩
          · exact hw slot hm
  exact hloop _ c hw

lemma run_placed (es : List ControlEvent) (hp : Placed c) : Placed (c.run es).1 := by
  induction es generalizing c with
  | nil => exact hp
  | cons e es ih => exact ih ((apply_reduces c e).placed hp)

lemma run_works (es : List ControlEvent)
    (hw : c.closing = false → ∀ slot ∈ c.slots.values, Works slot) (ho : (c.run es).1.closing = false) :
    ∀ slot ∈ (c.run es).1.slots.values, Works slot := by
  induction es generalizing c with
  | nil => exact hw ho
  | cons e es ih =>
    refine ih (fun hnext => ?_) ho
    rw [apply, dispatch_closing] at hnext
    refine dispatch_works _ (handle_works e (hw ?_) hnext)
    by_cases hk : e.kind = .close
    · rw [handle, hk] at hnext
      simp only [close] at hnext
      split_ifs at hnext with hclosing
      exact hnext
    · rwa [handle_closing c e hk] at hnext

lemma run_serving (target : ℕ) (es : List ControlEvent)
    (ho : (run { target := target } es).1.closing = false) : Serving (run { target := target } es).1 where
  opened := ho
  placed := run_placed es fun fd s hs => by cases hs
  works := run_works es (fun _ slot hm => by cases hm) ho

lemma Serving.jobs_running (h : Serving c) : c.jobs = c.queue ++ c.runningJobs := by
  rw [jobs, runningJobs]
  congr 1
  refine List.filterMap_congr fun slot hm => ?_
  have howned := (h.works slot hm).owned
  split_ifs with hrun
  · rfl
  · rw [← howned] at hrun
    simpa using hrun

lemma Serving.jobs_known (h : Serving c) (ht : Tidy c) : c.jobs = c.known := by
  rw [jobs, known]
  congr 1
  refine List.filterMap_congr fun slot hm => ?_
  have howned := ((h.works slot hm).owned.trans (ht.running slot hm).symm)
  cases hjob : slot.job with
  | none => simp [ControlSlot.held, hjob]
  | some job =>
    rw [hjob] at howned
    obtain ⟨held, hheld⟩ := Option.isSome_iff_exists.mp (howned.mp rfl)
    have hsame := (Option.filter_eq_some_iff.mp hheld).1
    rw [hheld, ← hsame, hjob]

theorem open_pool_drains (target : ℕ) (es : List ControlEvent) (ok : ℕ → ControlSlot → Bool)
    (htarget : 0 < target) (ho : (run { target := target } es).1.closing = false)
    (hlive : (run { target := target } es).1.slots.entries.length = target) :
    let c := (run { target := target } es).1
    ∃ c' fx, drain ok (c.queue.length + c.slots.entries.length + 1) c = some (c', fx) ∧
      c'.queue = [] ∧ (∀ slot ∈ c'.slots.values, slot.state = .idle) ∧
      (settled fx).Perm (c.queue ++ c.runningJobs) ∧
      ((∀ e ∈ es, e.kind = .submit → e.job ≠ some "") →
        ∀ job, (settled fx).count job = if Holds c job then 1 else 0) := by
  intro c
  have hserving : Serving c := run_serving target es ho
  have hslots : 0 < c.slots.entries.length := by rwa [hlive]
  obtain ⟨c', fx, hdrain, hq, hidle, hcount⟩ :=
    drain_drains ok (c.queue.length + c.slots.entries.length + 1) hserving
      (run_saturated es (.init target)) hslots (by omega)
  refine ⟨c', fx, hdrain, hq, hidle, ?_, fun hnamed job => ?_⟩
  · rw [← hserving.jobs_running]
    exact List.perm_iff_count.mpr hcount
  · have ht := run_tidy es (Tidy.init target) hnamed
    rw [hcount, hserving.jobs_known ht, known_count_holds ht]

def halfStarted : List ControlEvent :=
  [{ kind := .start }, { kind := .spawned, gen := some 1, identity := some ⟨7, 1⟩ },
    { kind := .spawned, gen := some 2, identity := some ⟨9, 2⟩ },
    { kind := .submit, job := some "a" }, { kind := .ready, identity := some ⟨7, 1⟩ },
    { kind := .submit, job := some "b" }]

theorem open_pool_drains_halfStarted :
    ∃ c' fx, drain (fun _ _ => true) 4 (run { target := 2 } halfStarted).1 = some (c', fx) ∧
      c'.queue = [] ∧ (settled fx).Perm ["b", "a"] := by
  obtain ⟨c', fx, hdrain, hq, -, hperm, -⟩ :=
    open_pool_drains 2 halfStarted (fun _ _ => true) (by decide) (by decide +kernel) (by decide +kernel)
  exact ⟨c', fx, hdrain, hq, hperm⟩

end Reaper.Pool.ReaperCore
