import Reaper.Workflow.Bodies
import Reaper.Library.Doubles
import Mathlib.Data.List.MinMax

/-! durable.first: which child it returns, and when a later attempt returns the same one. -/

namespace Reaper.Workflow

open Reaper.Store Reaper.Library

def timestampMs (t : Time) : ℤ := roundEven (double (double ((t : ℚ) / 10 ^ 6) * 1000))

structure Seen where
  id : Id
  promise : Promise
  preloaded : Bool
  deriving DecidableEq

namespace Seen

def terminal (s : Seen) : Bool := ¬ s.promise.Pending

/-- Promise.settled_order. The preload has whole milliseconds, of which none counts as missing. -/
def settledOrder (s : Seen) : ℤ :=
  if s.preloaded then
    match (waitedPromise (s.id, s.promise)).settledAtMs with
    | some ms => if ms = 0 then 2 ^ 63 else ms
    | none => 2 ^ 63
  else
    match s.promise.outcome.settledAt with
    | some t => timestampMs t
    | none => 2 ^ 63

end Seen

inductive FirstResult
  | returned (winner : Seen)
  | suspended (awaited : List Id)
  | raised (error : Error)
  deriving DecidableEq

def earliest (promises : List Seen) : Option Seen :=
  @List.argmin Seen ℤ Int.instLinearOrder.toPreorder _ Seen.settledOrder promises

def first (promises : List Seen) : FirstResult :=
  if promises = [] then .raised (valueError "first needs at least one promise")
  else match earliest (promises.filter Seen.terminal) with
    | some winner => .returned winner
    | none => .suspended (promises.map Seen.id)

/-- The preloaded children are done at once, and the submitted ones together, when their statement
has returned. Each of the two sets is iterated in any order. -/
def Arrives (children order : List Seen) : Prop :=
  ∃ done later, order = done ++ later ∧ done.Perm (children.filter Seen.preloaded) ∧
    later.Perm (children.filter fun s => !s.preloaded)

structure Replays (early later : List Seen) : Prop where
  calls : later.map Seen.id = early.map Seen.id
  nodup : (early.map Seen.id).Nodup
  same : ∀ s ∈ early, ∀ t ∈ later, t.id = s.id → s.terminal = true → t.promise = s.promise

/-- The millisecond of a settle time: cut off where the claim has preloaded the child, so that none
is left of the first one, and rounded where its row was read. -/
def settledMs (preloaded : Bool) (settledAt : Time) : ℤ :=
  if preloaded then
    if settledAt / millisecond = 0 then 2 ^ 63 else settledAt / millisecond
  else timestampMs settledAt

namespace Seen

def ms (s : Seen) : Option ℤ := s.promise.outcome.settledAt.map (settledMs s.preloaded)

def SettledBefore (s t : Seen) : Prop :=
  ∃ a ∈ s.ms, ∃ b ∈ t.ms, a < b ∨ a = b ∧ s.preloaded = true ∧ t.preloaded = false

/-- An earlier attempt returned `w` with `s` beside it, and a later one finds the two as `v` and `t`.
A child that was terminal already comes in front only by a tie in one of the sets. One that has
settled since, or whose time is read in another way now, has to come after the winner. -/
def StaysBehind (w v s t : Seen) : Prop :=
  if s.terminal = true ∧ t.preloaded = s.preloaded ∧ v.preloaded = w.preloaded then
    s.preloaded = w.preloaded → s.ms ≠ w.ms
  else t.terminal = true → v.SettledBefore t

end Seen

section Stable

variable {children order early later ys : List Seen} {s t w : Seen}

lemma Arrives.mem (h : Arrives children order) : s ∈ order ↔ s ∈ children := by
  obtain ⟨done, rest, rfl, hd, hr⟩ := h
  rw [List.mem_append, hd.mem_iff, hr.mem_iff, List.mem_filter, List.mem_filter]
  cases s.preloaded <;> simp

lemma first_eq_returned : first order = .returned w ↔
    earliest (order.filter Seen.terminal) = some w := by
  rw [first]
  split_ifs with hnil
  · simp [hnil, earliest]
  · cases h : earliest (order.filter Seen.terminal) <;> simp

lemma first_mem (h : first order = .returned w) : w ∈ order ∧ w.terminal = true :=
  List.mem_filter.mp (List.argmin_mem (first_eq_returned.mp h))

lemma first_of_minimal (hs : s.terminal = true) {front back : List Seen}
    (hmin : ∀ t ∈ front ++ s :: back, t.terminal = true → s.settledOrder ≤ t.settledOrder)
    (hfront : ∀ t ∈ front, t.terminal = true → s.settledOrder < t.settledOrder) :
    first (front ++ s :: back) = .returned s := by
  rw [first_eq_returned, List.filter_append, List.filter_cons_of_pos hs]
  apply List.argmin_eq_some_iff.mpr
  have hnot : s ∉ front.filter Seen.terminal := by
    intro hm
    obtain ⟨hm, ht⟩ := List.mem_filter.mp hm
    exact lt_irrefl _ (hfront s hm ht)
  refine ⟨by simp, fun t ht => ?_, fun t ht hle => ?_⟩
  · rcases List.mem_append.mp ht with ht | ht
    · obtain ⟨hm, htt⟩ := List.mem_filter.mp ht
      exact hmin t (List.mem_append_left _ hm) htt
    · rcases List.mem_cons.mp ht with rfl | ht
      · exact le_rfl
      · obtain ⟨hm, htt⟩ := List.mem_filter.mp ht
        exact hmin t (List.mem_append_right _ (List.mem_cons_of_mem _ hm)) htt
  · have hnt : t ∉ front.filter Seen.terminal := by
      intro hm
      obtain ⟨hm, htt⟩ := List.mem_filter.mp hm
      exact absurd hle (not_le.mpr (hfront t hm htt))
    rw [List.idxOf_append_of_notMem hnot, List.idxOf_append_of_notMem hnt, List.idxOf_cons_self]
    omega

lemma first_ne_later (ht : t.terminal = true) (hle : t.settledOrder ≤ s.settledOrder) (hst : s ≠ t)
    {front back : List Seen} (hs : s ∉ front) (htf : t ∉ front) :
    first (front ++ t :: back) ≠ .returned s := by
  intro h
  rw [first_eq_returned, List.filter_append, List.filter_cons_of_pos ht] at h
  have hindex := (List.argmin_eq_some_iff.mp h).2.2 t (by simp) hle
  have hnot : ∀ {u}, u ∉ front → u ∉ front.filter Seen.terminal := fun hu hm =>
    hu (List.mem_of_mem_filter hm)
  rw [List.idxOf_append_of_notMem (hnot hs), List.idxOf_append_of_notMem (hnot htf),
    List.idxOf_cons_self, List.idxOf_cons_ne _ hst.symm] at hindex
  omega

lemma Seen.settledOrder_eq (s : Seen) : s.settledOrder = s.ms.getD (2 ^ 63) := by
  rw [Seen.settledOrder, Seen.ms, waitedPromise]
  cases s.promise.outcome.settledAt <;> cases s.preloaded <;> rfl

lemma Seen.ms_isSome (ht : s.terminal = true) : ∃ a, s.ms = some a := by
  rw [Seen.ms]
  rw [Seen.terminal, decide_eq_true_eq, Promise.Pending] at ht
  cases h : s.promise.outcome with
  | pending => exact absurd h ht
  | resolved _ at_ => exact ⟨_, rfl⟩
  | rejected _ at_ => exact ⟨_, rfl⟩
  | timedOut _ at_ => exact ⟨_, rfl⟩

lemma Seen.settledBefore_iff (hs : s.terminal = true) (ht : t.terminal = true) :
    s.SettledBefore t ↔ s.settledOrder < t.settledOrder ∨
      s.settledOrder = t.settledOrder ∧ s.preloaded = true ∧ t.preloaded = false := by
  obtain ⟨a, ha⟩ := Seen.ms_isSome hs
  obtain ⟨b, hb⟩ := Seen.ms_isSome ht
  rw [Seen.SettledBefore, Seen.settledOrder_eq, Seen.settledOrder_eq, ha, hb]
  simp

lemma Replays.unique (h : Replays early later) (hs : s ∈ later) (ht : t ∈ later)
    (hid : s.id = t.id) : s = t := List.inj_on_of_nodup_map (h.calls ▸ h.nodup) hs ht hid

lemma Replays.find (h : Replays early later) (hs : s ∈ early) : ∃ t ∈ later, t.id = s.id :=
  List.mem_map.mp (h.calls ▸ List.mem_map_of_mem hs)

lemma Replays.before (h : Replays early later) (ht : t ∈ later) : ∃ s ∈ early, s.id = t.id :=
  List.mem_map.mp (h.calls ▸ List.mem_map_of_mem ht)

lemma Replays.terminal (h : Replays early later) (hs : s ∈ early) (ht : t ∈ later)
    (hid : t.id = s.id) (hst : s.terminal = true) : t.terminal = true := by
  rw [Seen.terminal, h.same s hs t ht hid hst]
  exact hst

lemma first_le (ha : Arrives children order) (hw : first order = .returned w) (hs : s ∈ children)
    (hst : s.terminal = true) : w.settledOrder ≤ s.settledOrder ∧
      (w.settledOrder = s.settledOrder → s.preloaded = true → w.preloaded = true) := by
  have hmin := List.argmin_eq_some_iff.mp (first_eq_returned.mp hw)
  have hmem : s ∈ order.filter Seen.terminal := List.mem_filter.mpr ⟨ha.mem.mpr hs, hst⟩
  refine ⟨hmin.2.1 s hmem, fun heq hsp => ?_⟩
  by_contra hwp
  rw [Bool.not_eq_true] at hwp
  obtain ⟨done, rest, rfl, hd, hr⟩ := ha
  have hfront : s ∈ done.filter Seen.terminal :=
    List.mem_filter.mpr ⟨hd.mem_iff.mpr (List.mem_filter.mpr ⟨hs, hsp⟩), hst⟩
  have hnot : w ∉ done.filter Seen.terminal := by
    intro hm
    rw [(List.mem_filter.mp (hd.mem_iff.mp (List.mem_of_mem_filter hm))).2] at hwp
    cases hwp
  have hindex := hmin.2.2 s hmem heq.ge
  rw [List.filter_append, List.idxOf_append_of_notMem hnot, List.idxOf_append_of_mem hfront] at hindex
  have := List.idxOf_lt_length_of_mem hfront
  omega

lemma Seen.staysBehind_iff {v : Seen} (h : Replays early later) (ha : Arrives early ys)
    (hw : first ys = .returned w) (hv : v ∈ later) (hvw : v.id = w.id) (hs : s ∈ early)
    (ht : t ∈ later) (hid : t.id = s.id) :
    Seen.StaysBehind w v s t ↔ (t.terminal = true → v.SettledBefore t) := by
  rw [Seen.StaysBehind]
  split_ifs with hkept
  · obtain ⟨hst, htp, hvp⟩ := hkept
    obtain ⟨hmw, hwt⟩ := first_mem hw
    have htt := h.terminal hs ht hid hst
    have hvt := h.terminal (ha.mem.mp hmw) hv hvw hwt
    have hts : t.ms = s.ms := by rw [Seen.ms, Seen.ms, h.same s hs t ht hid hst, htp]
    have hvs : v.ms = w.ms := by
      rw [Seen.ms, Seen.ms, h.same w (ha.mem.mp hmw) v hv hvw hwt, hvp]
    obtain ⟨hle, htie⟩ := first_le ha hw hs hst
    obtain ⟨a, hma⟩ := Seen.ms_isSome hwt
    obtain ⟨b, hmb⟩ := Seen.ms_isSome hst
    rw [Seen.settledOrder_eq, Seen.settledOrder_eq, hma, hmb, Option.getD_some, Option.getD_some] at hle htie
    rw [Seen.settledBefore_iff hvt htt, Seen.settledOrder_eq, Seen.settledOrder_eq, hvs, hts, hma, hmb,
      htp, hvp, Option.getD_some, Option.getD_some, Ne, Option.some.injEq]
    simp only [htt, true_implies]
    constructor
    · intro huntied
      rcases hle.lt_or_eq with hlt | heq
      · exact Or.inl hlt
      · refine Or.inr ⟨heq, ?_⟩
        cases hsp : s.preloaded with
        | true => exact absurd heq.symm (huntied (hsp.trans (htie heq hsp).symm))
        | false =>
          refine ⟨?_, rfl⟩
          by_contra hwp
          exact huntied (hsp.trans (Bool.eq_false_of_not_eq_true hwp).symm) heq.symm
    · rintro (hlt | ⟨-, hwp, hsp⟩) hflag heq
      · exact absurd heq.symm hlt.ne
      · rw [hwp, hsp] at hflag
        cases hflag
  · rfl

lemma first_of_precedes (hs : s ∈ children) (ht : s.terminal = true) (ha : Arrives children order)
    (hn : order.Nodup) (h : ∀ t ∈ children, t.terminal = true → t ≠ s → s.SettledBefore t) :
    first order = .returned s := by
  replace h := fun t hm htt hne => (Seen.settledBefore_iff ht htt).mp (h t hm htt hne)
  have hmin : ∀ t ∈ order, t.terminal = true → s.settledOrder ≤ t.settledOrder := by
    intro t hm htt
    by_cases hts : t = s
    · rw [hts]
    · rcases h t (ha.mem.mp hm) htt hts with hlt | ⟨heq, -⟩
      · exact hlt.le
      · exact heq.le
  obtain ⟨front, back, hfront, hsplit⟩ : ∃ front back, (s.preloaded = true →
      ∀ t ∈ front, t.preloaded = true) ∧ order = front ++ s :: back := by
    obtain ⟨done, rest, rfl, hd, hr⟩ := ha
    cases hp : s.preloaded with
    | true =>
      obtain ⟨f, b, rfl⟩ := List.append_of_mem (hd.mem_iff.mpr (List.mem_filter.mpr ⟨hs, hp⟩))
      refine ⟨f, b ++ rest, fun _ t htf => ?_, by simp⟩
      exact (List.mem_filter.mp (hd.mem_iff.mp (List.mem_append_left _ htf))).2
    | false =>
      obtain ⟨f, b, rfl⟩ := List.append_of_mem (hr.mem_iff.mpr
        (List.mem_filter.mpr ⟨hs, by rw [hp]; rfl⟩))
      exact ⟨done ++ f, b, nofun, by simp⟩
  subst hsplit
  refine first_of_minimal ht hmin fun t htf htt => ?_
  have hts : t ≠ s := by
    rintro rfl
    exact (List.nodup_append.mp hn).2.2 t htf t List.mem_cons_self rfl
  rcases h t (ha.mem.mp (List.mem_append_left _ htf)) htt hts with hlt | ⟨-, hp, hnp⟩
  · exact hlt
  · rw [hfront hp t htf] at hnp
    cases hnp

lemma settledBefore_of_first {v : Seen} (hn : (children.map Seen.id).Nodup) (hv : v ∈ children)
    (ht : t ∈ children) (htt : t.terminal = true) (hne : t.id ≠ v.id) (hvt : v.terminal = true)
    (hall : ∀ zs, Arrives children zs → ∃ u, first zs = .returned u ∧ u.id = v.id) :
    v.SettledBefore t := by
  have hvt' : v ≠ t := fun heq => hne (heq ▸ rfl)
  rw [Seen.settledBefore_iff hvt htt]
  by_contra hprec
  rw [not_or, not_lt] at hprec
  obtain ⟨hle, hprec⟩ := hprec
  -- the order in which the other child comes as early as it can
  obtain ⟨front, back, hord, hvf, htf⟩ : ∃ front back, Arrives children (front ++ t :: back) ∧
      t ∉ front ∧ (v ∉ front ∨ t.settledOrder < v.settledOrder) := by
    cases hp : t.preloaded with
    | true =>
      have hm : t ∈ children.filter Seen.preloaded := List.mem_filter.mpr ⟨ht, hp⟩
      exact ⟨[], (children.filter Seen.preloaded).erase t ++ children.filter fun s => !s.preloaded,
        ⟨t :: (children.filter Seen.preloaded).erase t, _, rfl, (List.perm_cons_erase hm).symm, .rfl⟩,
        List.not_mem_nil, Or.inl List.not_mem_nil⟩
    | false =>
      have hm : t ∈ children.filter fun s => !s.preloaded :=
        List.mem_filter.mpr ⟨ht, by rw [hp]; rfl⟩
      refine ⟨children.filter Seen.preloaded, (children.filter fun s => !s.preloaded).erase t,
        ⟨_, _, rfl, .rfl, (List.perm_cons_erase hm).symm⟩, fun hmem => ?_, ?_⟩
      · rw [(List.mem_filter.mp hmem).2] at hp
        cases hp
      · rcases hle.lt_or_eq with hlt | heq
        · exact Or.inr hlt
        · refine Or.inl fun hmem => hprec ⟨heq.symm, (List.mem_filter.mp hmem).2, hp⟩
  obtain ⟨u, hu, huid⟩ := hall _ hord
  obtain rfl := List.inj_on_of_nodup_map hn (hord.mem.mp (first_mem hu).1) hv huid
  rcases htf with hvf' | hlt
  · exact first_ne_later htt hle hvt' hvf' hvf hu
  · have hmem : t ∈ (front ++ t :: back).filter Seen.terminal := List.mem_filter.mpr ⟨by simp, htt⟩
    exact absurd ((List.argmin_eq_some_iff.mp (first_eq_returned.mp hu)).2.1 t hmem) (not_le.mpr hlt)

lemma Arrives.nodup (h : Arrives children order) (hn : children.Nodup) : order.Nodup := by
  obtain ⟨done, rest, rfl, hd, hr⟩ := h
  refine ((hd.append hr).trans ?_).nodup_iff.mpr hn
  exact List.filter_append_perm _ _

/-- A later attempt returns the same child in every order if and only if no child has settled since
before it, none is read before it now, and none of the others tied with it. -/
theorem first_stable_iff (h : Replays early later) (ha : Arrives early ys)
    (hw : first ys = .returned w) :
    (∀ zs, Arrives later zs → ∃ v, first zs = .returned v ∧ v.id = w.id) ↔
      ∀ v ∈ later, v.id = w.id → ∀ s ∈ early, s.id ≠ w.id → ∀ t ∈ later, t.id = s.id →
        Seen.StaysBehind w v s t := by
  obtain ⟨hmw, hwt⟩ := first_mem hw
  have hnodup : (later.map Seen.id).Nodup := h.calls ▸ h.nodup
  constructor
  · intro hall v hv hid s hs hne t ht hts
    refine (Seen.staysBehind_iff h ha hw hv hid hs ht hts).mpr fun htt => ?_
    have hvt := h.terminal (ha.mem.mp hmw) hv hid hwt
    refine settledBefore_of_first hnodup hv ht htt ?_ hvt fun zs hz => ?_
    · rwa [hts, hid]
    · rw [hid]
      exact hall zs hz
  · intro hbehind zs hz
    obtain ⟨v, hv, hid⟩ := h.find (ha.mem.mp hmw)
    have hvt := h.terminal (ha.mem.mp hmw) hv hid hwt
    refine ⟨v, first_of_precedes hv hvt hz (hz.nodup (List.Nodup.of_map _ hnodup)) ?_, hid⟩
    intro t ht htt hne
    obtain ⟨s, hs, hst⟩ := h.before ht
    refine (Seen.staysBehind_iff h ha hw hv hid hs ht hst.symm).mp (hbehind v hv hid s hs ?_ t ht hst.symm) htt
    exact fun heq => hne (h.unique ht hv ((hst.symm.trans heq).trans hid.symm))

end Stable

section Sample

def settledChild (id : Id) (preloaded : Bool) (outcome : Outcome) : Seen where
  id := id
  promise := { idempotencyKey := id, place := .child "r", deadline := .expiresAt 1000, outcome := outcome }
  preloaded := preloaded

def raceEarly : List Seen :=
  [settledChild "r:1:slow" false .pending, settledChild "r:2:fast" false (.resolved none 105000)]

def raceLater : List Seen :=
  [settledChild "r:1:slow" false (.resolved none 104000),
    settledChild "r:2:fast" false (.resolved none 105000)]

def raceWon : List Seen :=
  [settledChild "r:1:slow" false (.resolved none 106000),
    settledChild "r:2:fast" false (.resolved none 105000)]

lemma raceWon_replays : Replays raceEarly raceWon := ⟨by decide, by decide, by decide⟩

lemma raceEarly_arrives : Arrives raceEarly raceEarly := ⟨[], raceEarly, rfl, .rfl, .rfl⟩

lemma raceEarly_first : first raceEarly =
    .returned (settledChild "r:2:fast" false (.resolved none 105000)) := by decide +kernel

theorem first_stable_won :
    (∀ zs, Arrives raceWon zs → ∃ v, first zs = .returned v ∧ v.id = "r:2:fast") ↔
      ∀ v ∈ raceWon, v.id = "r:2:fast" → ∀ s ∈ raceEarly, s.id ≠ "r:2:fast" → ∀ t ∈ raceWon,
        t.id = s.id →
        Seen.StaysBehind (settledChild "r:2:fast" false (.resolved none 105000)) v s t :=
  first_stable_iff raceWon_replays raceEarly_arrives raceEarly_first

theorem first_changes_winner : Replays raceEarly raceLater ∧ Arrives raceEarly raceEarly ∧
    first raceEarly = .returned (settledChild "r:2:fast" false (.resolved none 105000)) ∧
    Arrives raceLater raceLater ∧
    first raceLater = .returned (settledChild "r:1:slow" false (.resolved none 104000)) :=
  ⟨⟨by decide, by decide, by decide⟩, raceEarly_arrives, raceEarly_first,
    ⟨[], raceLater, rfl, .rfl, .rfl⟩, by decide +kernel⟩

end Sample

end Reaper.Workflow
