import Reaper.Pool.Discards

/-! Events that name no live slot, or no running job, change nothing. -/

namespace Reaper.Pool.ReaperCore

open Reaper.Library

variable {c : ReaperCore} {e : ControlEvent}

def Saturated (c : ReaperCore) : Prop := c.queue = [] ∨ ∀ slot ∈ c.slots.values, slot.state ≠ .idle

def Misses (c : ReaperCore) (e : ControlEvent) : Prop := ∀ i ∈ e.identity, ∀ s ∈ c.slots.get i.fd, s.identity ≠ i

def Completes (c : ReaperCore) (e : ControlEvent) : Prop :=
  ∃ slot ∈ c.find e.identity, slot.state = .running ∧ slot.job = e.job ∧ e.job ≠ none

def Stale (c : ReaperCore) (e : ControlEvent) : Prop :=
  (e.kind = .ready ∨ e.kind = .result ∨ e.kind = .eof ∨ e.kind = .sendFailed) ∧ Misses c e ∨
    e.kind = .result ∧ ¬ Completes c e

instance (c : ReaperCore) (e : ControlEvent) : Decidable (Misses c e) :=
  inferInstanceAs (Decidable (∀ i ∈ e.identity, ∀ s ∈ c.slots.get i.fd, s.identity ≠ i))

instance (c : ReaperCore) (e : ControlEvent) : Decidable (Completes c e) :=
  inferInstanceAs (Decidable (∃ slot ∈ c.find e.identity,
    slot.state = .running ∧ slot.job = e.job ∧ e.job ≠ none))

instance (c : ReaperCore) (e : ControlEvent) : Decidable (Stale c e) :=
  inferInstanceAs (Decidable ((e.kind = .ready ∨ e.kind = .result ∨ e.kind = .eof ∨ e.kind = .sendFailed) ∧
    Misses c e ∨ e.kind = .result ∧ ¬ Completes c e))

/-- A trace with some of its stale events deleted; each is stale where the whole trace applies it. -/
inductive Prunes : ReaperCore → List ControlEvent → List ControlEvent → Prop
  | nil (c : ReaperCore) : Prunes c [] []
  | keep {c : ReaperCore} (e : ControlEvent) {es es' : List ControlEvent} :
    Prunes (c.apply e).1 es es' → Prunes c (e :: es) (e :: es')
  | delete {c : ReaperCore} {e : ControlEvent} {es es' : List ControlEvent} :
    Stale c e → Prunes (c.apply e).1 es es' → Prunes c (e :: es) es'

lemma dispatchLoop_saturated (rest : List (ℤ × ControlSlot)) (c : ReaperCore)
    (hr : ∀ e ∈ rest, c.slots.get e.1 = some e.2) (hn : (rest.map Prod.fst).Nodup)
    (hv : ∀ fd slot, fd ∉ rest.map Prod.fst → c.slots.get fd = some slot → slot.state ≠ .idle) :
    Saturated (dispatchLoop rest c).1 := by
  induction rest generalizing c with
  | nil =>
    refine Or.inr fun slot hslot => ?_
    obtain ⟨fd, hget⟩ := (Dict.mem_values _ _).mp hslot
    exact hv fd slot (by simp) hget
  | cons entry rest ih =>
    obtain ⟨fd, slot⟩ := entry
    rw [List.map_cons, List.nodup_cons] at hn
    have hget := hr (fd, slot) List.mem_cons_self
    rw [dispatchLoop]
    split
    · next hq => exact Or.inl hq
    · split_ifs with hs
      · refine ih c (fun e he => hr e (List.mem_cons_of_mem _ he)) hn.2 fun j s hj hget' => ?_
        by_cases hfd : j = fd
        · rw [hfd, hget] at hget'
          cases hget'
          exact hs
        · exact hv j s (by simp [hfd, hj]) hget'
      · refine ih _ (fun e he => ?_) hn.2 fun j s hj hget' => ?_
        · exact (Dict.get_set_ne _ _ fun h => hn.1 (List.mem_map.mpr ⟨e, he, h⟩)).trans
            (hr e (List.mem_cons_of_mem _ he))
        · rw [Dict.get_set] at hget'
          split_ifs at hget' with hfd
          · cases hget'
            simp
          · exact hv j s (by simp [hfd, hj]) hget'

lemma dispatch_saturated (c : ReaperCore) : Saturated c.dispatch.1 :=
  dispatchLoop_saturated _ c (fun _ he => (Dict.mem_entries _ _ _).mp he) c.slots.nodup
    fun _ slot hfd hget => absurd ((Dict.mem_keys _ _).mpr ⟨slot, hget⟩) hfd

lemma Saturated.init (target : ℕ) : Saturated { target := target } := Or.inl rfl

lemma run_saturated (es : List ControlEvent) (h : Saturated c) : Saturated (c.run es).1 := by
  induction es generalizing c with
  | nil => exact h
  | cons e es ih => exact ih (dispatch_saturated _)

lemma dispatchLoop_skip (busy rest : List (ℤ × ControlSlot)) (c : ReaperCore)
    (h : ∀ e ∈ busy, e.2.state ≠ .idle) : dispatchLoop (busy ++ rest) c = dispatchLoop rest c := by
  induction busy with
  | nil => rfl
  | cons entry busy ih =>
    rw [List.cons_append, dispatchLoop]
    split
    · next hq =>
      cases rest with
      | nil => rfl
      | cons e rest => rw [dispatchLoop, hq]
    · rw [if_pos (h entry List.mem_cons_self)]
      exact ih fun e he => h e (List.mem_cons_of_mem _ he)

lemma dispatchLoop_busy (busy : List (ℤ × ControlSlot)) (c : ReaperCore)
    (h : ∀ e ∈ busy, e.2.state ≠ .idle) : dispatchLoop busy c = (c, []) := by
  have hskip := dispatchLoop_skip busy [] c h
  rwa [List.append_nil] at hskip

lemma Saturated.dispatch (h : Saturated c) : c.dispatch = (c, []) := by
  rcases h with hq | hbusy
  · exact dispatch_idle hq
  · exact dispatchLoop_busy _ c fun e he => hbusy e.2 (List.mem_map_of_mem he)

lemma Misses.find (h : Misses c e) : c.find e.identity = none := by
  cases hi : e.identity with
  | none => rfl
  | some i =>
    rw [ReaperCore.find, Option.filter_eq_none_iff]
    exact fun s hs => by simpa using h i hi s hs

lemma Stale.handle (h : Stale c e) : c.handle e = (c, []) := by
  rw [ReaperCore.handle]
  rcases h with ⟨hk, hm⟩ | ⟨hk, hc⟩
  · have hfind := hm.find
    rcases hk with hk | hk | hk | hk <;> rw [hk] <;> dsimp only
    · rw [ready, hfind]
    · rw [result, hfind]
    · rw [lost, hfind]
    · rw [lost, hfind]
  · rw [hk]
    dsimp only
    rw [result]
    split
    · rfl
    · next slot hslot =>
      split_ifs with hstate hjob
      · rfl
      · rfl
      all_goals
        obtain ⟨hjob, hnone⟩ := not_or.mp hjob
        exact absurd ⟨slot, hslot, not_not.mp hstate, not_not.mp hjob, hnone⟩ hc

lemma Stale.apply (hs : Saturated c) (h : Stale c e) : c.apply e = (c, []) := by
  rw [ReaperCore.apply, h.handle, hs.dispatch]
  rfl

lemma Prunes.run {es es' : List ControlEvent} (h : Prunes c es es') (hs : Saturated c) :
    c.run es' = c.run es := by
  induction h with
  | nil c => rfl
  | keep e _ ih => rw [ReaperCore.run, ReaperCore.run, ih (dispatch_saturated _)]
  | delete hstale _ ih =>
    have hrest := ih (dispatch_saturated _)
    have happly := hstale.apply hs
    rw [happly] at hrest
    rw [hrest, ReaperCore.run, happly]
    rfl

theorem stale_invisible (target : ℕ) (es : List ControlEvent) :
    (∀ e, Stale (run { target := target } es).1 e →
      (run { target := target } es).1.apply e = ((run { target := target } es).1, [])) ∧
    ∀ es', Prunes { target := target } es es' →
      run { target := target } es' = run { target := target } es :=
  ⟨fun _ h => h.apply (run_saturated es (.init target)), fun _ h => h.run (.init target)⟩

def reused : List ControlEvent :=
  [{ kind := .start }, { kind := .spawned, gen := some 1, identity := some ⟨7, 1⟩ },
    { kind := .eof, identity := some ⟨7, 1⟩ }, { kind := .recover },
    { kind := .spawned, gen := some 2, identity := some ⟨7, 2⟩ }]

theorem stale_invisible_reused :
    run { target := 1 } reused = run { target := 1 } (reused ++ [{ kind := .eof, identity := some ⟨7, 1⟩ }]) := by
  refine (stale_invisible 1 _).2 reused ?_
  have hstale : Stale (run { target := 1 } reused).1 { kind := .eof, identity := some ⟨7, 1⟩ } := by
    decide +kernel
  exact .keep _ (.keep _ (.keep _ (.keep _ (.keep _ (.delete hstale (.nil _))))))

end Reaper.Pool.ReaperCore
