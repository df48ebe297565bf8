import Reaper.Pool.Stale

/-! What one event does to one slot: it is handled, and then it may take a job. -/

namespace Reaper.Pool

open Reaper.Library

def sendRun (i : SkeletonID) (job : String) : ControlEffect :=
  { kind := .sendRun, identity := some i, job := some job }

namespace ReaperCore

variable {c c' : ReaperCore} {e : ControlEvent} {fx : List ControlEffect} {i : SkeletonID}

def taken (slot : ControlSlot) (job : String) : ControlSlot := { slot with state := .running, job := some job }

structure Dispatched (c c' : ReaperCore) (fx : List ControlEffect) : Prop where
  sent : ∀ x ∈ fx, ∃ i s job, x = sendRun i job ∧ c.find (some i) = some s ∧ s.state = .idle ∧
    c'.find (some i) = some (taken s job)
  kept : ∀ i, (∀ job, sendRun i job ∉ fx) → c'.find (some i) = c.find (some i)
  once : fx.Nodup

lemma find_get (hi : c.find (some i) = some s) : c.slots.get i.fd = some s ∧ s.identity = i := by
  obtain ⟨hget, hid⟩ := Option.filter_eq_some_iff.mp hi
  exact ⟨hget, of_decide_eq_true hid⟩

lemma find_of_get (hget : c.slots.get i.fd = some s) (hid : s.identity = i) : c.find (some i) = some s := by
  rw [find, hget, Option.filter_some, if_pos (decide_eq_true hid)]

lemma live_find : Live c i ↔ ∃ s, c.find (some i) = some s :=
  ⟨fun ⟨s, hget, hid⟩ => ⟨s, find_of_get hget hid⟩, fun ⟨s, hs⟩ => ⟨s, find_get hs⟩⟩

lemma find_congr (h : c'.slots.get i.fd = c.slots.get i.fd) : c'.find (some i) = c.find (some i) := by
  rw [find, find, h]

lemma Dispatched.refl (c : ReaperCore) : Dispatched c c [] :=
  ⟨fun x hx => (by cases hx), fun _ _ => rfl, List.nodup_nil⟩

lemma Dispatched.cons {d : ReaperCore} {slot : ControlSlot} {job : String}
    (hget : c.slots.get slot.identity.fd = some slot) (hidle : slot.state = .idle)
    (hset : d.slots = c.slots.set slot.identity.fd (taken slot job)) (h : Dispatched d c' fx) :
    Dispatched c c' (sendRun slot.identity job :: fx) := by
  have hfree : ∀ i job', sendRun i job' ∈ fx → i.fd ≠ slot.identity.fd := by
    intro i job' hx hfd
    obtain ⟨j, s, next, heq, hs, hstate, -⟩ := h.sent _ hx
    cases heq
    have hs := (find_get hs).1
    rw [hset, hfd, Dict.get_set_self] at hs
    cases hs
    cases hstate
  have hother : ∀ i : SkeletonID, i.fd ≠ slot.identity.fd → d.find (some i) = c.find (some i) := by
    intro i hi
    refine find_congr ?_
    rw [hset]
    exact Dict.get_set_ne _ _ hi
  have hnone : ∀ job', sendRun slot.identity job' ∉ fx := fun job' hx => hfree _ _ hx rfl
  have hthis : c'.find (some slot.identity) = some (taken slot job) := by
    rw [h.kept _ hnone]
    refine find_of_get ?_ rfl
    rw [hset, Dict.get_set_self]
  refine ⟨fun x hx => ?_, fun i hi => ?_, List.nodup_cons.mpr ⟨hnone job, h.once⟩⟩
  · rcases List.mem_cons.mp hx with rfl | hx
    · exact ⟨slot.identity, slot, job, rfl, find_of_get hget rfl, hidle, hthis⟩
    · obtain ⟨i, s, job', rfl, hs, hstate, hs'⟩ := h.sent x hx
      exact ⟨i, s, job', rfl, hother i (hfree i job' hx) ▸ hs, hstate, hs'⟩
  · have hne : slot.identity ≠ i := fun heq => hi job (heq ▸ List.mem_cons_self)
    rw [h.kept i fun job' hx => hi job' (List.mem_cons_of_mem _ hx)]
    by_cases hfd : i.fd = slot.identity.fd
    · have hmiss : ∀ s : ControlSlot, s.identity = slot.identity → (some s).filter (fun s => s.identity = i) = none :=
        fun s hs => by rw [Option.filter_some, if_neg (by simpa [hs] using hne)]
      rw [find, find, hfd, hset, Dict.get_set_self, hget, hmiss slot rfl, hmiss (taken slot job) rfl]
    · exact hother i hfd

lemma HandsOut.dispatched (h : HandsOut c c' fx) (hp : Placed c) : Dispatched c c' fx := by
  induction h with
  | done c => exact .refl c
  | @take c c' fd slot job queue fx get idle queued rest ih =>
    obtain rfl : slot.identity.fd = fd := hp fd slot get
    refine (ih fun j s hs => ?_).cons get idle rfl
    rw [Dict.get_set] at hs
    split_ifs at hs with hj
    · cases hs
      exact hj.symm
    · exact hp j s hs

lemma dispatch_dispatched (hp : Placed c) : Dispatched c c.dispatch.1 c.dispatch.2 :=
  (dispatch_handsOut c).dispatched hp

lemma handle_sends (c : ReaperCore) (e : ControlEvent) : ∀ x ∈ (c.handle e).2, x.kind ≠ .sendRun := by
  have hfill : ∀ d : ReaperCore, ∀ x ∈ d.fill.2, x.kind ≠ .sendRun := by
    intro d x hx
    rw [(fill_gens d).2.2.2 x hx]
    simp
  have hdiscard : ∀ i, ∀ x ∈ discard i, x.kind ≠ .sendRun := by simp [discard]
  have hfailed : ∀ (reason : FailureReason) (jobs : List String), ∀ x ∈ jobs.map (failed reason),
      x.kind ≠ .sendRun := by simp [failed]
  rw [handle]
  cases e.kind with
  | start | recover => exact hfill c
  | spawned =>
    simp only [spawned]
    split
    · split_ifs
      · exact hdiscard _
      · exact hfill _
      · exact hdiscard _
    · simp
  | spawnFailed =>
    simp only [spawnFailed]
    split <;> simp
  | ready =>
    simp only [ready]
    split
    · simp
    · split_ifs <;> simp
  | submit =>
    simp only [submit]
    split
    · simp
    · split_ifs <;> simp
  | result =>
    simp only [result]
    split
    · simp
    · split_ifs <;> simp
  | eof | sendFailed =>
    simp only [lost]
    split
    · simp
    · intro x hx
      rcases List.mem_append.mp hx with hx | hx
      · exact hdiscard _ x hx
      · exact hfailed _ _ x hx
  | close =>
    simp only [close]
    split_ifs
    · simp
    · intro x hx
      rcases List.mem_append.mp hx with hx | hx
      · exact hfailed _ _ x hx
      · obtain ⟨slot, -, hx⟩ := List.mem_flatMap.mp hx
        rcases List.mem_append.mp hx with hx | hx
        · exact hfailed _ _ x hx
        · rw [List.mem_singleton.mp hx]
          simp
  | deadline =>
    simp only [deadline]
    split_ifs <;> simp

lemma find_set_ne {j : SkeletonID} {new : ControlSlot} (hset : c'.slots = c.slots.set j.fd new)
    (hold : ∀ s ∈ c.slots.get j.fd, s.identity = j) (hnew : new.identity = j) (hi : j ≠ i) :
    c'.find (some i) = c.find (some i) := by
  by_cases hfd : i.fd = j.fd
  · have hmiss : ∀ t : Option ControlSlot, (∀ s ∈ t, s.identity = j) →
        t.filter (fun s => s.identity = i) = none := by
      intro t ht
      rw [Option.filter_eq_none_iff]
      intro s hs
      simpa [ht s hs] using hi
    rw [find, find, hfd, hset, Dict.get_set_self, hmiss _ hold, hmiss (some new) (by simpa using hnew)]
  · refine find_congr ?_
    rw [hset]
    exact Dict.get_set_ne _ _ hfd

lemma find_of_identity {slot : ControlSlot} (hslot : c.find e.identity = some slot) :
    e.identity = some slot.identity ∧ ∀ s ∈ c.slots.get slot.identity.fd, s.identity = slot.identity := by
  have hget := find_spec hslot
  refine ⟨?_, fun s hs => ?_⟩
  · cases hid : e.identity with
    | none =>
      rw [hid] at hslot
      cases hslot
    | some j =>
      rw [hid] at hslot
      rw [(find_get hslot).2]
  · cases hget.symm.trans hs
    rfl

lemma handle_find (hc : e.kind ≠ .close) (hi : e.identity ≠ some i)
    (hf : e.kind = .spawned → ∀ j ∈ e.identity, c.slots.get j.fd = none) :
    (c.handle e).1.find (some i) = c.find (some i) := by
  rw [handle]
  cases hk : e.kind with
  | start | recover => exact find_congr (by rw [(fill_spec c).2.1])
  | spawned =>
    simp only [spawned]
    split
    · next gen j hgen hj =>
      split_ifs
      · exact find_congr rfl
      · have hfree := hf hk j hj
        have hne : j ≠ i := fun h => hi (h ▸ hj)
        have hother : ReaperCore.find
            { c with slots := c.slots.set j.fd { identity := j, state := .starting } } (some i) = c.find (some i) :=
          find_set_ne rfl (by simp [hfree]) rfl hne
        exact (find_congr (by rw [(fill_spec _).2.1])).trans hother
      · rfl
    · rfl
  | spawnFailed =>
    simp only [spawnFailed]
    split <;> rfl
  | ready =>
    simp only [ready]
    split
    · rfl
    · next slot hslot =>
      obtain ⟨hid, hold⟩ := find_of_identity hslot
      split_ifs
      · rfl
      · exact find_set_ne rfl hold rfl fun h => hi (h ▸ hid)
  | submit =>
    simp only [submit]
    split
    · rfl
    · split_ifs <;> rfl
  | result =>
    simp only [result]
    split
    · rfl
    · next slot hslot =>
      obtain ⟨hid, hold⟩ := find_of_identity hslot
      split_ifs
      · rfl
      · rfl
      all_goals exact find_set_ne rfl hold rfl fun h => hi (h ▸ hid)
  | eof | sendFailed =>
    simp only [lost]
    split
    · rfl
    · next slot hslot =>
      obtain ⟨hid, hold⟩ := find_of_identity hslot
      have hne : slot.identity ≠ i := fun h => hi (h ▸ hid)
      by_cases hfd : i.fd = slot.identity.fd
      · rw [find, find, hfd, Dict.get_erase_self, Option.filter_none, eq_comm, Option.filter_eq_none_iff]
        intro s hs
        simpa [hold s hs] using hne
      · exact find_congr (Dict.get_erase_ne _ hfd)
  | close => exact absurd hk hc
  | deadline =>
    simp only [deadline]
    split_ifs <;> rfl

lemma lost_find (hk : Loses e) (hi : e.identity = some i) : (c.handle e).1.find (some i) = none := by
  have hh : c.handle e = c.lost e := by
    rw [handle]
    rcases hk with hk | hk <;> rw [hk]
  rw [hh, lost]
  split
  · next hnone => rwa [hi] at hnone
  · next slot hslot =>
    have hid := (find_of_identity hslot).1
    cases hi.symm.trans hid
    simp [find]

lemma find_set_self {slot new : ControlSlot} (hslot : c.find (some i) = some slot) (hnew : new.identity = i)
    (hset : c'.slots = c.slots.set slot.identity.fd new) : c'.find (some i) = some new := by
  refine find_of_get ?_ hnew
  rw [hset, (find_get hslot).2, Dict.get_set_self]

lemma ready_find {slot : ControlSlot} (hslot : c.find (some i) = some slot) (hs : slot.state = .starting) :
    (c.handle { kind := .ready, identity := some i }).1.find (some i) = some { slot with state := .idle } := by
  simp only [handle, ready, hslot]
  rw [if_neg (by simp [hs])]
  exact find_set_self hslot (find_get hslot).2 rfl

lemma result_find {slot : ControlSlot} {job : String} (ok : Bool) (hslot : c.find (some i) = some slot)
    (hs : slot.state = .running) (hj : slot.job = some job) :
    c.handle { kind := .result, identity := some i, job := some job, ok := ok } =
        ({ c with slots := c.slots.set slot.identity.fd { slot with state := .idle, job := none } },
          if ok then [{ kind := .resolve, job := some job }]
          else [{ kind := .fail, job := some job, reason := some .workerError }]) ∧
      (c.handle { kind := .result, identity := some i, job := some job, ok := ok }).1.find (some i) =
        some { slot with state := .idle, job := none } := by
  have hhandle : c.handle { kind := .result, identity := some i, job := some job, ok := ok } =
      ({ c with slots := c.slots.set slot.identity.fd { slot with state := .idle, job := none } },
        if ok then [{ kind := .resolve, job := some job }]
        else [{ kind := .fail, job := some job, reason := some .workerError }]) := by
    simp only [handle, result, hslot]
    rw [if_neg (by simp [hs]), if_neg (by simp [hj])]
  refine ⟨hhandle, ?_⟩
  rw [hhandle]
  exact find_set_self hslot (find_get hslot).2 rfl

lemma handle_none (hnone : c.find (some i) = none) (hk : e.kind ≠ .spawned) : (c.handle e).1.find (some i) = none := by
  by_contra hsome
  obtain ⟨s, hs⟩ := Option.ne_none_iff_exists'.mp hsome
  obtain ⟨hget, hid⟩ := find_get hs
  rcases (handle_reduces c e).slots _ s hget with ⟨t, ht, hsame⟩ | ⟨hsp, -⟩
  · rw [find_of_get ht (hsame.trans hid)] at hnone
    cases hnone
  · exact hk hsp

lemma handle_running (hrun : ∀ s, c.find (some i) = some s → s.state = .running) (hr : e.kind ≠ .result)
    (hc : e.kind ≠ .close) (hq : Quick e) : (c.handle e).1.find (some i) = c.find (some i) := by
  by_cases hi : e.identity = some i
  · rw [handle]
    cases hk : e.kind with
    | ready =>
      simp only [ready, hi]
      split
      · rfl
      · next slot hslot =>
        rw [if_pos (by rw [hrun slot hslot]; simp)]
    | submit =>
      simp only [submit]
      split
      · rfl
      · split_ifs <;> rfl
    | deadline =>
      simp only [deadline]
      split_ifs <;> rfl
    | result => exact absurd hk hr
    | close => exact absurd hk hc
    | _ => simp [Quick, hk] at hq
  · refine handle_find hc hi fun hs => ?_
    simp [Quick, hs] at hq

lemma handle_saturated (h : Saturated c) (hq : ¬ Quick e) : Saturated (c.handle e).1 := by
  have hfill : ∀ d : ReaperCore, Saturated d → Saturated d.fill.1 := by
    intro d hd
    rw [Saturated, (fill_spec d).2.1, (fill_spec d).1]
    exact hd
  rw [handle]
  cases hk : e.kind with
  | start | recover => exact hfill c h
  | spawned =>
    simp only [spawned]
    split
    · split_ifs
      · exact h
      · refine hfill _ (h.imp_right fun hbusy s hs => ?_)
        rcases Dict.mem_values_set _ hs with rfl | hs
        · simp
        · exact hbusy s hs
      · exact h
    · exact h
  | spawnFailed =>
    simp only [spawnFailed]
    split <;> exact h
  | eof | sendFailed =>
    simp only [lost]
    split
    · exact h
    · exact h.imp_right fun hbusy s hs => hbusy s (Dict.mem_values_erase _ hs)
  | _ => exact absurd (by simp [Quick, hk]) hq

def Prompt (fx : List ControlEffect) : Prop := Brief fx ∨ ∀ x ∈ fx, x.kind ≠ .sendRun

def Moved (s : Option ControlSlot) (c : ReaperCore) (fx : List ControlEffect) (i : SkeletonID) : Prop :=
  c.find (some i) = s ∧ (∀ job, sendRun i job ∉ fx) ∨
    ∃ slot job, s = some slot ∧ slot.state = .idle ∧ c.find (some i) = some (taken slot job) ∧ sendRun i job ∈ fx

lemma apply_moved (hp : Placed c) (e : ControlEvent) (i : SkeletonID) :
    Moved ((c.handle e).1.find (some i)) (c.apply e).1 (c.apply e).2 i := by
  have hd := dispatch_dispatched ((handle_reduces c e).placed hp)
  have hnone : ∀ job, sendRun i job ∉ (c.handle e).2 := fun job hx => handle_sends c e _ hx rfl
  by_cases hsent : ∃ job, sendRun i job ∈ (c.handle e).1.dispatch.2
  · obtain ⟨job, hx⟩ := hsent
    obtain ⟨j, s, job', hsame, hs, hidle, hs'⟩ := hd.sent _ hx
    cases hsame
    exact Or.inr ⟨s, job, hs, hidle, hs', List.mem_append_right _ hx⟩
  · rw [not_exists] at hsent
    refine Or.inl ⟨hd.kept i hsent, fun job hx => ?_⟩
    rcases List.mem_append.mp hx with hx | hx
    · exact hnone job hx
    · exact hsent job hx

lemma apply_sent (hp : Placed c) (e : ControlEvent) :
    (∀ x ∈ (c.apply e).2, x.kind = .sendRun → ∃ i s job, x = sendRun i job ∧
      (c.handle e).1.find (some i) = some s ∧ s.state = .idle ∧
      (c.apply e).1.find (some i) = some (taken s job)) ∧
    ((c.apply e).2.filter fun x => x.kind = .sendRun).Nodup := by
  have hd := dispatch_dispatched ((handle_reduces c e).placed hp)
  have hnone := handle_sends c e
  refine ⟨fun x hx hk => ?_, ?_⟩
  · rcases List.mem_append.mp hx with hx | hx
    · exact absurd hk (hnone x hx)
    · exact hd.sent x hx
  · rw [apply, List.filter_append, List.filter_eq_nil_iff.mpr (by simpa using hnone), List.nil_append]
    exact hd.once.filter _

end ReaperCore

end Reaper.Pool
