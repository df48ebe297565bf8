import Mathlib.Tactic

/-! Liveness from marker changes: a sliding window of quiet, timely probes kept in three fields. -/

namespace Reaper.Pool

structure HeartbeatWatch where
  marker : List UInt8 := []
  unchangedSince : ℚ := 0
  checkedAt : ℚ := 0
  deriving DecidableEq

namespace HeartbeatWatch

def observeBy (elapsed : ℚ → ℚ → ℚ) (w : HeartbeatWatch) (marker : List UInt8) (now timeout : ℚ) :
    Option (HeartbeatWatch × Bool) :=
  if timeout ≤ 0 then none
  else
    let firstObservation := w.checkedAt = 0
    let observerPaused := 0 < w.checkedAt ∧ timeout < elapsed w.checkedAt now
    let w := { w with checkedAt := now }
    if firstObservation ∨ observerPaused ∨ marker ≠ w.marker then
      some ({ w with marker := marker, unchangedSince := now }, true)
    else some (w, elapsed w.unchangedSince now < timeout)

def exactly (since now : ℚ) : ℚ := now - since

def observe (w : HeartbeatWatch) (marker : List UInt8) (now timeout : ℚ) :
    Option (HeartbeatWatch × Bool) := w.observeBy exactly marker now timeout

def watched (timeout : ℚ) (marker : ℕ → List UInt8) (t : ℕ → ℚ) : ℕ → Option HeartbeatWatch
  | 0 => some {}
  | n + 1 => do
    let w ← watched timeout marker t n
    let r ← w.observe (marker n) (t n) timeout
    return r.1

structure Measures (elapsed : ℚ → ℚ → ℚ) : Prop where
  self : ∀ t, elapsed t t = 0
  shrinks : ∀ s t now, s ≤ t → t ≤ now → elapsed t now ≤ elapsed s now

/-- From observation `i` to observation `j` the marker stays and no two probes are more than a timeout apart. -/
structure Quiet (elapsed : ℚ → ℚ → ℚ) (timeout : ℚ) (marker : ℕ → List UInt8) (t : ℕ → ℚ) (i j : ℕ) : Prop where
  same : ∀ k, i ≤ k → k ≤ j → marker k = marker j
  timely : ∀ k, i ≤ k → k < j → elapsed (t k) (t (k + 1)) ≤ timeout

structure Tracks (elapsed : ℚ → ℚ → ℚ) (timeout : ℚ) (marker : ℕ → List UInt8) (t : ℕ → ℚ) (w : HeartbeatWatch)
    (j : ℕ) : Prop where
  marker_eq : w.marker = marker j
  checked : w.checkedAt = t j
  baseline : ∃ i ≤ j, w.unchangedSince = t i ∧ Quiet elapsed timeout marker t i j
  longest : ∀ i ≤ j, Quiet elapsed timeout marker t i j → w.unchangedSince ≤ t i

section

variable {elapsed : ℚ → ℚ → ℚ} {timeout : ℚ} {marker : ℕ → List UInt8} {t : ℕ → ℚ}

lemma exactly_measures : Measures exactly := ⟨sub_self, fun _ _ _ hst _ => sub_le_sub_left hst _⟩

lemma Quiet.refl (j : ℕ) : Quiet elapsed timeout marker t j j where
  same := fun k hj hk => by rw [le_antisymm hk hj]
  timely := fun k hj hk => by omega

lemma Quiet.extend {i j : ℕ} (h : Quiet elapsed timeout marker t i j) (hm : marker (j + 1) = marker j)
    (ht : elapsed (t j) (t (j + 1)) ≤ timeout) : Quiet elapsed timeout marker t i (j + 1) where
  same := by
    intro k hi hk
    rcases Nat.lt_or_eq_of_le hk with hlt | rfl
    · exact (h.same k hi (by omega)).trans hm.symm
    · rfl
  timely := by
    intro k hi hk
    rcases Nat.lt_or_eq_of_le (Nat.le_of_lt_succ hk) with hlt | rfl
    · exact h.timely k hi hlt
    · exact ht

lemma Quiet.shorten {i j : ℕ} (h : Quiet elapsed timeout marker t i (j + 1)) (hi : i ≤ j) :
    Quiet elapsed timeout marker t i j ∧ marker (j + 1) = marker j ∧ elapsed (t j) (t (j + 1)) ≤ timeout := by
  have hlast := h.same j hi (by omega)
  refine ⟨⟨fun k hik hk => ?_, fun k hik hk => ?_⟩, hlast.symm, h.timely j hi (by omega)⟩
  · exact (h.same k hik (by omega)).trans hlast.symm
  · exact h.timely k hik (by omega)

lemma sequence_pos {j : ℕ} (hpos : 0 < t 0) (hmono : ∀ k < j, t k ≤ t (k + 1)) : 0 < t j := by
  induction j with
  | zero => exact hpos
  | succ j ih => exact (ih fun k hk => hmono k (by omega)).trans_le (hmono j (by omega))

lemma observe_first (elapsed : ℚ → ℚ → ℚ) (marker : ℕ → List UInt8) (t : ℕ → ℚ) (htimeout : 0 < timeout) :
    ∃ w, ({} : HeartbeatWatch).observeBy elapsed (marker 0) (t 0) timeout = some (w, true) ∧
      Tracks elapsed timeout marker t w 0 := by
  refine ⟨_, by rw [observeBy, if_neg (not_le.mpr htimeout)]; exact if_pos (Or.inl rfl), rfl, rfl, ?_, ?_⟩
  · exact ⟨0, le_rfl, rfl, Quiet.refl 0⟩
  · intro i hi _
    rw [Nat.le_zero.mp hi]

lemma Tracks.observe {w : HeartbeatWatch} {j : ℕ} (h : Tracks elapsed timeout marker t w j)
    (hself : elapsed (t (j + 1)) (t (j + 1)) = 0) (htimeout : 0 < timeout) (hpos : 0 < t j) (hstep : t j ≤ t (j + 1)) :
    ∃ w', w.observeBy elapsed (marker (j + 1)) (t (j + 1)) timeout =
        some (w', !decide (timeout ≤ elapsed w'.unchangedSince (t (j + 1)))) ∧
      Tracks elapsed timeout marker t w' (j + 1) := by
  rw [observeBy, if_neg (not_le.mpr htimeout)]
  simp only [h.checked, h.marker_eq, hpos, hpos.ne', true_and, false_or]
  by_cases hreset : timeout < elapsed (t j) (t (j + 1)) ∨ marker (j + 1) ≠ marker j
  · rw [if_pos hreset]
    refine ⟨{ marker := marker (j + 1), unchangedSince := t (j + 1), checkedAt := t (j + 1) }, ?_, rfl,
      rfl, ⟨j + 1, le_rfl, rfl, Quiet.refl _⟩, ?_⟩
    · simp [hself, htimeout]
    · intro i hi hq
      rcases Nat.lt_or_eq_of_le hi with hlt | rfl
      · obtain ⟨-, hm, ht⟩ := hq.shorten (Nat.le_of_lt_succ hlt)
        exact absurd hreset (not_or.mpr ⟨not_lt.mpr ht, not_not.mpr hm⟩)
      · exact le_rfl
  · rw [if_neg hreset]
    obtain ⟨ht, hm⟩ := not_or.mp hreset
    rw [not_lt] at ht
    rw [not_not] at hm
    obtain ⟨i, hi, hbase, hq⟩ := h.baseline
    refine ⟨{ w with checkedAt := t (j + 1) }, ?_, h.marker_eq.trans hm.symm, rfl,
      ⟨i, by omega, hbase, hq.extend hm ht⟩, ?_⟩
    · simp [h.marker_eq, ← not_le]
    · intro i' hi' hq'
      rcases Nat.lt_or_eq_of_le hi' with hlt | rfl
      · exact h.longest i' (by omega) (hq'.shorten (Nat.le_of_lt_succ hlt)).1
      · exact (h.longest j le_rfl (Quiet.refl j)).trans hstep

lemma watched_tracks (marker : ℕ → List UInt8) (htimeout : 0 < timeout) (hpos : 0 < t 0) (j : ℕ)
    (hmono : ∀ k < j, t k ≤ t (k + 1)) :
    ∃ w w', watched timeout marker t j = some w ∧
      w.observe (marker j) (t j) timeout =
        some (w', !decide (timeout ≤ t j - w'.unchangedSince)) ∧
      Tracks exactly timeout marker t w' j := by
  induction j with
  | zero =>
    obtain ⟨w, hw, htracks⟩ := observe_first exactly marker t htimeout
    obtain ⟨i, hi, hbase, -⟩ := htracks.baseline
    refine ⟨{}, w, rfl, ?_, htracks⟩
    rw [observe, hw, hbase, Nat.le_zero.mp hi]
    simp [htimeout]
  | succ j ih =>
    have hbefore : ∀ k < j, t k ≤ t (k + 1) := fun k hk => hmono k (by omega)
    obtain ⟨w, w', hw, hobserve, htracks⟩ := ih hbefore
    obtain ⟨w'', hnext, htracks'⟩ :=
      htracks.observe (exactly_measures.self _) htimeout (sequence_pos hpos hbefore) (hmono j (by omega))
    exact ⟨w', w'', by rw [watched, hw]; simp [hobserve], hnext, htracks'⟩

end

/-- A probe finds the skeleton dead exactly when it ends a quiet window at least one timeout long. -/
theorem observe_dead_iff (timeout : ℚ) (marker : ℕ → List UInt8) (t : ℕ → ℚ) (j : ℕ)
    (htimeout : 0 < timeout) (hpos : 0 < t 0) (hmono : ∀ k < j, t k ≤ t (k + 1)) :
    ∃ w w' alive, watched timeout marker t j = some w ∧
      w.observe (marker j) (t j) timeout = some (w', alive) ∧
      (alive = false ↔ ∃ i < j, (∀ k, i ≤ k → k ≤ j → marker k = marker j) ∧
        (∀ k, i ≤ k → k < j → t (k + 1) - t k ≤ timeout) ∧ timeout ≤ t j - t i) := by
  obtain ⟨w, w', hw, hobserve, htracks⟩ := watched_tracks marker htimeout hpos j hmono
  refine ⟨w, w', _, hw, hobserve, ?_⟩
  rw [Bool.not_eq_false', decide_eq_true_iff]
  constructor
  · intro hlong
    obtain ⟨i, hi, hbase, hq⟩ := htracks.baseline
    rw [hbase] at hlong
    have hne : i ≠ j := by
      rintro rfl
      rw [sub_self] at hlong
      exact absurd hlong (not_le.mpr htimeout)
    exact ⟨i, lt_of_le_of_ne hi hne, hq.same, hq.timely, hlong⟩
  · rintro ⟨i, hi, hsame, htimely, hlong⟩
    have hle := htracks.longest i hi.le ⟨hsame, htimely⟩
    linarith

theorem observe_dead_iff_four_probes :
    ∃ w w' alive,
      watched 4 (fun k => if k = 0 then [1] else [2]) (fun k => 10 + 2 * k) 3 = some w ∧
      w.observe [2] 16 4 = some (w', alive) ∧ alive = false := by
  obtain ⟨w, w', alive, hw, hobserve, hiff⟩ :=
    observe_dead_iff 4 (fun k => if k = 0 then [1] else [2]) (fun k => 10 + 2 * k) 3 (by norm_num)
      (by norm_num) (fun k _ => by push_cast; linarith)
  refine ⟨w, w', alive, hw, ?_, hiff.mpr ⟨1, by norm_num, ?_, ?_, by norm_num⟩⟩
  · norm_num at hobserve
    exact hobserve
  · intro k hk _
    rw [if_neg (by omega), if_neg (by omega)]
  · intro k _ _
    push_cast
    linarith

end HeartbeatWatch

end Reaper.Pool
