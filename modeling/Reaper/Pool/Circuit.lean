import Reaper.Pool.Identities
import Reaper.Pool.Staffing

/-! The circuit of a repeated service fault counts rounds of generations, and a dead one may stand for a healthy
skeleton. -/

namespace Reaper.Pool.ServedPool

open Reaper.Library ReaperCore SkeletonPool

def signature (kind code : String) : String := kind ++ ":" ++ code

def Resets (sig : String) : ServedAction → Prop
  | .pool (.ready _) => True
  | .healthy _ => True
  | .serviceFault _ kind code => transientServiceFault kind code = false ∧ signature kind code ≠ sig
  | _ => False

def Reported (sig : String) (i : SkeletonID) (as : List ServedAction) : Prop :=
  ∃ kind code, .serviceFault i kind code ∈ as ∧ signature kind code = sig

def Heard (s₀ : ServedPool) (sig : String) (before : List ServedAction) (rounds : List (List ServedAction)) :
    Prop :=
  ∀ k round, rounds[k]? = some round → ∀ s, s₀.run (before ++ (rounds.take (k + 1)).flatten) = some s →
    ∀ i, Live s.pool.core i → Reported sig i round

def HeardRounds (s₀ : ServedPool) (sig : String) (n : ℕ) (as : List ServedAction) : Prop :=
  ∃ before rounds, as = before ++ rounds.flatten ∧ rounds.length = n ∧
    (∀ a ∈ rounds.flatten, ¬ Resets sig a) ∧ Heard s₀ sig before rounds

def rebase (s : ServedPool) (sig : String) : ServedPool :=
  if sig ≠ s.serviceFault then { s with serviceFault := sig, serviceFaultSlots := ∅, serviceFaultRound := 0 }
  else s

def counted (s : ServedPool) (i : SkeletonID) (sig : String) : Finset ℤ :=
  insert i.gen (s.rebase sig).serviceFaultSlots

def reporting (s : ServedPool) (i : SkeletonID) (sig : String) : ServedPool :=
  { s.rebase sig with serviceFaultSlots := s.counted i sig }

def rounded (s : ServedPool) (sig : String) : ServedPool :=
  { s.rebase sig with serviceFaultSlots := ∅, serviceFaultRound := (s.rebase sig).serviceFaultRound + 1 }

def counts (kind code : String) : Bool := !permanentServiceFault code && !transientServiceFault kind code

def completes (s : ServedPool) : ServedAction → Bool
  | .serviceFault i kind code =>
    counts kind code && s.pool.core.target ≤ (s.counted i (signature kind code)).card
  | _ => false

def liveGens (s : ServedPool) : Finset ℤ :=
  (s.pool.core.slots.values.map fun slot => slot.identity.gen).toFinset

def found (s : ServedPool) : ServedAction → Finset ℤ
  | .serviceFault _ kind code =>
    if counts kind code then (s.rebase (signature kind code)).serviceFaultSlots else s.serviceFaultSlots
  | _ => s.serviceFaultSlots

/-- A skeleton joins where the live ones and the counted ones that were lost fill every place, so that it has the
place of a counted one. It joins by its spawn, or, where the core has discarded it, by a report of its own. -/
def replaces (s : ServedPool) (a : ServedAction) : Bool :=
  s.pool.core.target ≤ (s.liveGens ∪ s.found a).card &&
    match a with
    | .pool (.resume _ (some _)) => !s.pool.core.closing
    | .serviceFault i kind code => counts kind code && i.gen ∉ s.liveGens ∪ s.found a
    | _ => false

def replacedBy (s : ServedPool) (replaced : Bool) (a : ServedAction) : Bool :=
  replaced && s.found a ≠ ∅ || s.replaces a

/-- No counted skeleton is lost and replaced before its round is complete. -/
def unreplaced : ServedPool → Bool → List ServedAction → Bool
  | _, _, [] => true
  | s, replaced, a :: as =>
    !(s.replacedBy replaced a && s.completes a) &&
      (s.step a).all fun t => unreplaced t (s.replacedBy replaced a) as

structure Tally (s₀ : ServedPool) (as : List ServedAction) (s : ServedPool) (before : List ServedAction)
    (rounds : List (List ServedAction)) (cur : List ServedAction) : Prop where
  split : as = before ++ rounds.flatten ++ cur
  length : rounds.length = s.serviceFaultRound
  calm : ∀ a ∈ rounds.flatten ++ cur, ¬ Resets s.serviceFault a
  heard : Heard s₀ s.serviceFault before rounds
  current : ∀ g ∈ s.serviceFaultSlots, ∃ i, i.gen = g ∧ Reported s.serviceFault i cur ∧
    Unique s.pool.core i
  below : s.serviceFaultRound < s.serviceFailureRounds ∨ s.serviceFailureRounds = 0

/-- As long as no counted skeleton was replaced, the live and the counted ones are no more than the target. -/
structure Watched (s₀ : ServedPool) (as : List ServedAction) (s : ServedPool) (replaced : Bool) : Prop where
  known : Known s.pool
  inv : Inv True s.pool []
  limit : s.serviceFailureRounds = s₀.serviceFailureRounds
  held : replaced = false → (s.liveGens ∪ s.serviceFaultSlots).card ≤ s.pool.core.target
  tally : s.failureEvent = false → ∃ before rounds cur, Tally s₀ as s before rounds cur

section

variable {s₀ s t : ServedPool} {as : List ServedAction} {a : ServedAction} {sig kind code : String}
  {i j : SkeletonID} {replaced : Bool} {before cur seg : List ServedAction} {rounds : List (List ServedAction)}

lemma run_concat (s₀ : ServedPool) (as : List ServedAction) (a : ServedAction) :
    s₀.run (as ++ [a]) = (s₀.run as).bind fun s => s.step a := by
  induction as generalizing s₀ with
  | nil => simp [run]
  | cons b as ih =>
    rw [List.cons_append, run, run]
    cases s₀.step b with
    | none => rfl
    | some s => exact ih s

lemma recordServiceFault_counts (i : SkeletonID) (hp : permanentServiceFault code = false)
    (ht : transientServiceFault kind code = false) :
    s.recordServiceFault i kind code =
      if (s.counted i (signature kind code)).card < s.pool.core.target then
        s.reporting i (signature kind code)
      else if (s.rounded (signature kind code)).serviceFailureRounds ≤
          (s.rounded (signature kind code)).serviceFaultRound then
        (s.rounded (signature kind code)).openCircuit
      else s.rounded (signature kind code) := by
  rw [recordServiceFault, hp, ht]
  rfl

lemma Reported.mono {as' : List ServedAction} (h : Reported sig i as) (hs : as ⊆ as') : Reported sig i as' := by
  obtain ⟨kind, code, hm, hsig⟩ := h
  exact ⟨kind, code, hs hm, hsig⟩

lemma Heard.nil (before : List ServedAction) : Heard s₀ sig before [] := fun k round hk => by cases hk

lemma Heard.concat (h : Heard s₀ sig before rounds)
    (hseg : ∀ s, s₀.run (before ++ rounds.flatten ++ seg) = some s →
      ∀ i, Live s.pool.core i → Reported sig i seg) : Heard s₀ sig before (rounds ++ [seg]) := by
  intro k last hk s hs
  rcases Nat.lt_trichotomy k rounds.length with hlt | rfl | hlt
  · rw [List.getElem?_append_left hlt] at hk
    rw [List.take_append_of_le_length hlt] at hs
    exact h k last hk s hs
  · rw [List.getElem?_concat_length] at hk
    cases hk
    rw [List.take_of_length_le (by simp), List.flatten_append, List.flatten_singleton, ← List.append_assoc] at hs
    exact hseg s hs
  · rw [List.getElem?_eq_none (by simp; omega)] at hk
    cases hk

lemma rebase_frame (s : ServedPool) (sig : String) :
    (s.rebase sig).pool = s.pool ∧ (s.rebase sig).serviceFault = sig ∧
      (s.rebase sig).failureEvent = s.failureEvent ∧
      (s.rebase sig).serviceFailureRounds = s.serviceFailureRounds := by
  rw [rebase]
  split_ifs with hsig
  · exact ⟨rfl, rfl, rfl, rfl⟩
  · exact ⟨rfl, (not_not.mp hsig).symm, rfl, rfl⟩

lemma Tally.rebase (h : Tally s₀ as s before rounds cur) (sig : String) :
    ∃ before rounds cur, Tally s₀ as (s.rebase sig) before rounds cur := by
  rw [ServedPool.rebase]
  split_ifs
  · refine ⟨as, [], [], by simp, rfl, by simp, Heard.nil as, by simp, ?_⟩
    exact h.below.imp_left fun hlt => (Nat.zero_le _).trans_lt hlt
  · exact ⟨before, rounds, cur, h⟩

lemma Tally.extend (h : Tally s₀ as s before rounds cur) (hr : ¬ Resets t.serviceFault a)
    (hf : t.serviceFault = s.serviceFault ∧ t.serviceFaultSlots = s.serviceFaultSlots ∧
      t.serviceFaultRound = s.serviceFaultRound ∧ t.serviceFailureRounds = s.serviceFailureRounds)
    (hu : ∀ i, Unique s.pool.core i → Unique t.pool.core i) :
    Tally s₀ (as ++ [a]) t before rounds (cur ++ [a]) := by
  obtain ⟨hfault, hslots, hround, hlimit⟩ := hf
  refine ⟨by rw [h.split, List.append_assoc], h.length.trans hround.symm, ?_, hfault ▸ h.heard, ?_, ?_⟩
  · intro b hb
    rw [← List.append_assoc, List.mem_append, List.mem_singleton] at hb
    rcases hb with hb | rfl
    · exact hfault ▸ h.calm b hb
    · exact hr
  · intro g hg
    rw [hslots] at hg
    obtain ⟨i, hgen, hreport, hunique⟩ := h.current g hg
    exact ⟨i, hgen, hfault ▸ hreport.mono (List.subset_append_left _ _), hu i hunique⟩
  · rw [hround, hlimit]
    exact h.below

lemma Tally.cleared (hfault : s.serviceFaultSlots = ∅) (hround : s.serviceFaultRound = 0)
    (hb : 0 < s.serviceFailureRounds ∨ s.serviceFailureRounds = 0) : Tally s₀ as s as [] [] :=
  ⟨by simp, hround.symm, by simp, Heard.nil as, by simp [hfault], by rwa [hround]⟩

lemma mem_liveGens (hs : ReaperCore.Staffed s.pool.core) (g : ℤ) :
    g ∈ s.liveGens ↔ ∃ j, Live s.pool.core j ∧ j.gen = g := by
  rw [liveGens, List.mem_toFinset, List.mem_map]
  constructor
  · rintro ⟨slot, hslot, rfl⟩
    obtain ⟨fd, hget⟩ := (Dict.mem_values _ _).mp hslot
    exact ⟨slot.identity, ⟨slot, (hs.placed fd slot hget).symm ▸ hget, rfl⟩, rfl⟩
  · rintro ⟨_, ⟨slot, hget, rfl⟩, rfl⟩
    exact ⟨slot, (Dict.mem_values _ _).mpr ⟨_, hget⟩, rfl⟩

lemma live_card (hs : ReaperCore.Staffed s.pool.core) : s.liveGens.card ≤ s.pool.core.target := by
  rw [liveGens, List.toFinset_card_of_nodup hs.gens_nodup, List.length_map, Dict.values, List.length_map]
  exact (Nat.le_add_right _ _).trans hs.capacity

lemma found_eq (h : s.found a ≠ ∅) : s.found a = s.serviceFaultSlots := by
  cases a with
  | serviceFault i kind code =>
    rw [found] at h ⊢
    split_ifs at h ⊢
    · rw [rebase] at h ⊢
      split_ifs at h ⊢
      · exact absurd rfl h
      · rfl
    · rfl
  | _ => rfl

lemma Watched.held_found (h : Watched s₀ as s replaced) (hnow : s.replacedBy replaced a = false) :
    (s.liveGens ∪ s.found a).card ≤ s.pool.core.target := by
  rw [replacedBy, Bool.or_eq_false_iff] at hnow
  by_cases hnone : s.found a = ∅
  · rw [hnone, Finset.union_empty]
    exact live_card h.known.staffed
  · rw [found_eq hnone]
    exact h.held (by simpa [hnone] using hnow.1)

lemma Watched.held_insert {g : ℤ} (h : Watched s₀ as s replaced) (hnow : s.replacedBy replaced a = false)
    (hroom : g ∉ s.liveGens ∪ s.found a → (s.liveGens ∪ s.found a).card < s.pool.core.target) :
    (insert g (s.liveGens ∪ s.found a)).card ≤ s.pool.core.target := by
  by_cases hg : g ∈ s.liveGens ∪ s.found a
  · rw [Finset.insert_eq_of_mem hg]
    exact h.held_found hnow
  · rw [Finset.card_insert_of_notMem hg]
    exact hroom hg

lemma Watched.held_counted (h : Watched s₀ as s replaced) (hcounts : counts kind code = true)
    (hnow : s.replacedBy replaced (.serviceFault i kind code) = false) :
    (s.liveGens ∪ s.counted i (signature kind code)).card ≤ s.pool.core.target := by
  have hfound : s.found (.serviceFault i kind code) = (s.rebase (signature kind code)).serviceFaultSlots := by
    rw [found, if_pos hcounts]
  have hinsert := h.held_insert hnow (g := i.gen) fun hg => ?_
  · rwa [hfound, ← Finset.union_insert] at hinsert
  · rw [replacedBy, Bool.or_eq_false_iff, replaces] at hnow
    simpa [hcounts, hg] using hnow.2

/-- As many generations are counted as there can be skeletons, so each live one is among them. -/
lemma live_counted (hs : ReaperCore.Staffed s.pool.core) {gens : Finset ℤ}
    (hfull : s.pool.core.target ≤ gens.card) (hheld : (s.liveGens ∪ gens).card ≤ s.pool.core.target)
    (hi : Live s.pool.core i) : i.gen ∈ gens := by
  rw [Finset.eq_of_subset_of_card_le Finset.subset_union_right (hheld.trans hfull)]
  exact Finset.mem_union_left _ ((mem_liveGens hs _).mpr ⟨i, hi, rfl⟩)

lemma Tally.round (h : Tally s₀ as (s.rebase sig) before rounds cur) (hw : Known s.pool)
    (hi : Unique s.pool.core i) (hsig : signature kind code = sig)
    (hrun : s₀.run (as ++ [.serviceFault i kind code]) = some t) (hcore : t.pool.core = s.pool.core)
    (hfull : s.pool.core.target ≤ (s.counted i sig).card)
    (hheld : (s.liveGens ∪ s.counted i sig).card ≤ s.pool.core.target) :
    (∀ a ∈ (rounds ++ [cur ++ [ServedAction.serviceFault i kind code]]).flatten, ¬ Resets sig a) ∧
      Heard s₀ sig before (rounds ++ [cur ++ [ServedAction.serviceFault i kind code]]) := by
  obtain ⟨hpool, hfault, -, -⟩ := rebase_frame s sig
  have hcalm := h.calm
  have hheard := h.heard
  have hcurrent := h.current
  rw [hfault] at hcalm hheard
  rw [hfault, hpool] at hcurrent
  refine ⟨fun a ha => ?_, hheard.concat fun u hu j hj => ?_⟩
  · rw [List.flatten_append, List.flatten_singleton, ← List.append_assoc, List.mem_append,
      List.mem_singleton] at ha
    rcases ha with ha | rfl
    · exact hcalm a ha
    · exact fun hr => hr.2 hsig
  · rw [← List.append_assoc, ← h.split, hrun] at hu
    cases hu
    rw [hcore] at hj
    rcases Finset.mem_insert.mp (live_counted hw.staffed hfull hheld hj) with hsame | hcounted
    · exact ⟨kind, code, by rw [hi.alone j hj hsame]; simp, hsig⟩
    · obtain ⟨i', hgen, hreport, hunique⟩ := hcurrent _ hcounted
      rw [← hunique.alone j hj hgen.symm] at hreport
      exact hreport.mono (List.subset_append_left _ _)

lemma reading_ids (h : s.pool.reading i = true) : s.pool.ids i.fd = some i := by
  rw [reading, decide_eq_true_iff] at h
  obtain ⟨-, -, -, hany⟩ := h
  cases hget : s.pool.slots.get i.fd with
  | none => simp [hget] at hany
  | some slot =>
    rw [ids, hget, Option.map_some]
    simpa [hget] using hany

lemma Tally.reporting (h : Tally s₀ as (s.rebase (signature kind code)) before rounds cur)
    (hi : Unique s.pool.core i) :
    Tally s₀ (as ++ [.serviceFault i kind code]) (s.reporting i (signature kind code)) before rounds
      (cur ++ [.serviceFault i kind code]) := by
  obtain ⟨hpool, hfault, -, -⟩ := rebase_frame s (signature kind code)
  refine ⟨by rw [h.split, List.append_assoc], h.length, fun a ha => ?_, h.heard, fun g hg => ?_, h.below⟩
  · rw [← List.append_assoc, List.mem_append, List.mem_singleton] at ha
    rcases ha with ha | rfl
    · exact h.calm a ha
    · exact fun hr => hr.2 hfault.symm
  · rcases Finset.mem_insert.mp hg with rfl | hg
    · exact ⟨i, rfl, ⟨kind, code, by simp, hfault.symm⟩, hpool.symm ▸ hi⟩
    · obtain ⟨i', hgen, hreport, hunique⟩ := h.current g hg
      exact ⟨i', hgen, hreport.mono (List.subset_append_left _ _), hunique⟩

lemma openCircuit_opens (s : ServedPool) : s.openCircuit.failureEvent = true := by
  rw [openCircuit]
  split_ifs with hf
  · exact hf
  · rfl

lemma openCircuit_frame (s : ServedPool) : s.openCircuit.pool = { s.pool with
      startupError := s.openCircuit.pool.startupError } ∧
    s.openCircuit.serviceFailureRounds = s.serviceFailureRounds := by
  rw [openCircuit]
  split_ifs <;> exact ⟨rfl, rfl⟩

lemma recordServiceFault_frame (s : ServedPool) (i : SkeletonID) (kind code : String) :
    (s.recordServiceFault i kind code).pool = { s.pool with
      startupError := (s.recordServiceFault i kind code).pool.startupError } ∧
    (s.recordServiceFault i kind code).serviceFailureRounds = s.serviceFailureRounds := by
  rw [recordServiceFault]
  dsimp only
  split_ifs
  · exact openCircuit_frame s
  · exact ⟨rfl, rfl⟩
  all_goals
    first
    | exact ⟨rfl, rfl⟩
    | exact openCircuit_frame _

lemma recordServiceFault_opened (hs : s.failureEvent = true) :
    (s.recordServiceFault i kind code).failureEvent = true := by
  rw [recordServiceFault]
  dsimp only
  split_ifs
  · exact openCircuit_opens s
  · exact hs
  all_goals
    first
    | exact hs
    | exact openCircuit_opens _

lemma Watched.counts (h : Watched s₀ as s replaced) (hreads : s.pool.reading i = true)
    (hheld : (s.replacedBy replaced (.serviceFault i kind code) &&
      s.completes (.serviceFault i kind code)) = false)
    (hrun : s₀.run (as ++ [.serviceFault i kind code]) = some (s.recordServiceFault i kind code))
    (hquiet : s.failureEvent = false) (hp : permanentServiceFault code = false)
    (ht : transientServiceFault kind code = false) :
    ∃ before rounds cur, Tally s₀ as (s.rebase (signature kind code)) before rounds cur ∧
      (s.recordServiceFault i kind code = s.reporting i (signature kind code) ∧
          Unique s.pool.core i ∨
        s.recordServiceFault i kind code =
            (if (s.rounded (signature kind code)).serviceFailureRounds ≤
                (s.rounded (signature kind code)).serviceFaultRound then
              (s.rounded (signature kind code)).openCircuit
            else s.rounded (signature kind code)) ∧
          (∀ a ∈ (rounds ++ [cur ++ [ServedAction.serviceFault i kind code]]).flatten,
            ¬ Resets (signature kind code) a) ∧
          Heard s₀ (signature kind code) before (rounds ++ [cur ++ [ServedAction.serviceFault i kind code]])) := by
  have hi := h.known.unique i.fd i (reading_ids hreads)
  obtain ⟨_, _, _, htally⟩ := h.tally hquiet
  obtain ⟨before, rounds, cur, hbase⟩ := htally.rebase (signature kind code)
  refine ⟨before, rounds, cur, hbase, ?_⟩
  have hcore : (s.recordServiceFault i kind code).pool.core = s.pool.core := by
    rw [(recordServiceFault_frame s i kind code).1]
  have heq := recordServiceFault_counts (s := s) i hp ht
  by_cases hlt : (s.counted i (signature kind code)).card < s.pool.core.target
  · rw [if_pos hlt] at heq
    exact Or.inl ⟨heq, hi⟩
  · rw [if_neg hlt] at heq
    have hcounts : ServedPool.counts kind code = true := by simp [ServedPool.counts, hp, ht]
    have hdone : s.completes (.serviceFault i kind code) = true := by
      simp [completes, hcounts, not_lt.mp hlt]
    rw [hdone, Bool.and_true] at hheld
    exact Or.inr ⟨heq, hbase.round h.known hi rfl hrun hcore (not_lt.mp hlt) (h.held_counted hcounts hheld)⟩

lemma Tally.rounded (h : Tally s₀ as (s.rebase sig) before rounds cur)
    (hcalm : ∀ b ∈ (rounds ++ [cur ++ [a]]).flatten, ¬ Resets sig b)
    (hheard : Heard s₀ sig before (rounds ++ [cur ++ [a]]))
    (hlimit : ¬ (s.rounded sig).serviceFailureRounds ≤ (s.rounded sig).serviceFaultRound) :
    Tally s₀ (as ++ [a]) (s.rounded sig) before (rounds ++ [cur ++ [a]]) [] := by
  have hfault : (s.rounded sig).serviceFault = sig := (rebase_frame s sig).2.1
  refine ⟨?_, ?_, ?_, hfault.symm ▸ hheard, fun g hg => (by cases hg), Or.inl (not_le.mp hlimit)⟩
  · rw [h.split]
    simp
  · rw [List.length_append, h.length]
    rfl
  · rw [List.append_nil, hfault]
    exact hcalm

lemma Watched.fault (h : Watched s₀ as s replaced) (hreads : s.pool.reading i = true)
    (hheld : (s.replacedBy replaced (.serviceFault i kind code) &&
      s.completes (.serviceFault i kind code)) = false)
    (hrun : s₀.run (as ++ [.serviceFault i kind code]) = some (s.recordServiceFault i kind code))
    (hquiet : s.failureEvent = false) (hf : (s.recordServiceFault i kind code).failureEvent = false) :
    ∃ before rounds cur, Tally s₀ (as ++ [.serviceFault i kind code]) (s.recordServiceFault i kind code)
      before rounds cur := by
  by_cases hp : permanentServiceFault code = true
  · rw [recordServiceFault, hp] at hf
    exact absurd ((openCircuit_opens s).symm.trans hf) (by simp)
  rw [Bool.not_eq_true] at hp
  by_cases ht : transientServiceFault kind code = true
  · have hsame : s.recordServiceFault i kind code = s := by rw [recordServiceFault, hp, ht]; rfl
    rw [hsame]
    obtain ⟨before, rounds, cur, htally⟩ := h.tally hquiet
    refine ⟨before, rounds, _, htally.extend (fun hr => ?_) ⟨rfl, rfl, rfl, rfl⟩ fun _ hu => hu⟩
    rw [hr.1] at ht
    cases ht
  rw [Bool.not_eq_true] at ht
  obtain ⟨before, rounds, cur, hbase, ⟨heq, hi⟩ | ⟨heq, hcalm, hheard⟩⟩ :=
    h.counts hreads hheld hrun hquiet hp ht
  · rw [heq]
    exact ⟨before, rounds, _, hbase.reporting hi⟩
  · rw [heq] at hf ⊢
    split_ifs at hf ⊢ with hlimit
    · exact absurd ((openCircuit_opens _).symm.trans hf) (by simp)
    · exact ⟨before, _, [], hbase.rounded hcalm hheard hlimit⟩

lemma Watched.opens (h : Watched s₀ as s replaced) (hreads : s.pool.reading i = true)
    (hheld : (s.replacedBy replaced (.serviceFault i kind code) &&
      s.completes (.serviceFault i kind code)) = false)
    (hrun : s₀.run (as ++ [.serviceFault i kind code]) = some (s.recordServiceFault i kind code))
    (hquiet : s.failureEvent = false) (hopen : (s.recordServiceFault i kind code).failureEvent = true)
    (hp : permanentServiceFault code = false) :
    HeardRounds s₀ (signature kind code) s₀.serviceFailureRounds (as ++ [.serviceFault i kind code]) := by
  obtain ⟨-, -, hevent, hlimits⟩ := rebase_frame s (signature kind code)
  by_cases ht : transientServiceFault kind code = true
  · have hsame : s.recordServiceFault i kind code = s := by rw [recordServiceFault, hp, ht]; rfl
    rw [hsame, hquiet] at hopen
    cases hopen
  rw [Bool.not_eq_true] at ht
  obtain ⟨before, rounds, cur, hbase, ⟨heq, hi⟩ | ⟨heq, hcalm, hheard⟩⟩ :=
    h.counts hreads hheld hrun hquiet hp ht
  · rw [heq] at hopen
    exact absurd (hopen.symm.trans (hevent.trans hquiet)) (by simp)
  · rw [heq] at hopen
    split_ifs at hopen with hlimit
    · rcases hbase.below with hbelow | hzero
      · refine ⟨before, rounds ++ [cur ++ [.serviceFault i kind code]], ?_, ?_, hcalm, hheard⟩
        · rw [hbase.split]
          simp
        · change (s.rebase _).serviceFailureRounds ≤ (s.rebase _).serviceFaultRound + 1 at hlimit
          rw [List.length_append, List.length_singleton, hbase.length, ← h.limit, ← hlimits]
          omega
      · refine ⟨as ++ [.serviceFault i kind code], [], by simp, ?_, by simp, Heard.nil _⟩
        rw [← h.limit, ← hlimits, hzero]
        rfl
    · exact absurd (hopen.symm.trans (hevent.trans hquiet)) (by simp)

lemma liveGens_frame (hpool : t.pool = { s.pool with startupError := t.pool.startupError }) :
    t.liveGens = s.liveGens := by
  rw [liveGens, liveGens, hpool]

lemma openCircuit_slots (s : ServedPool) : s.openCircuit.serviceFaultSlots = s.serviceFaultSlots := by
  rw [openCircuit]
  split_ifs <;> rfl

lemma recordServiceFault_slots (s : ServedPool) (i : SkeletonID) (kind code : String) :
    (s.recordServiceFault i kind code).serviceFaultSlots = ∅ ∨
      (s.recordServiceFault i kind code).serviceFaultSlots =
        if counts kind code then s.counted i (signature kind code) else s.serviceFaultSlots := by
  by_cases hp : permanentServiceFault code = true
  · refine Or.inr ?_
    rw [counts, recordServiceFault, hp]
    exact openCircuit_slots s
  · rw [Bool.not_eq_true] at hp
    by_cases ht : transientServiceFault kind code = true
    · refine Or.inr ?_
      rw [counts, recordServiceFault, hp, ht]
      rfl
    · rw [Bool.not_eq_true] at ht
      have hcounts : counts kind code = true := by simp [counts, hp, ht]
      rw [recordServiceFault_counts i hp ht, if_pos hcounts]
      split_ifs
      · exact Or.inr rfl
      · exact Or.inl (openCircuit_slots _)
      · exact Or.inl rfl

lemma Watched.held_fault (h : Watched s₀ as s replaced)
    (hnow : s.replacedBy replaced (.serviceFault i kind code) = false) :
    ((s.recordServiceFault i kind code).liveGens ∪ (s.recordServiceFault i kind code).serviceFaultSlots).card ≤
      s.pool.core.target := by
  rw [liveGens_frame (recordServiceFault_frame s i kind code).1]
  rcases recordServiceFault_slots s i kind code with hslots | hslots
  · rw [hslots, Finset.union_empty]
    exact live_card h.known.staffed
  · rw [hslots]
    split_ifs with hcounts
    · exact h.held_counted hcounts hnow
    · have hfound := h.held_found hnow
      rwa [found, if_neg hcounts] at hfound

lemma Watched.held_pool {b : SkeletonPool.Action} {q : SkeletonPool} (h : Watched s₀ as s replaced)
    (hb : s.pool.step b = some q) (ha : s.found a = s.serviceFaultSlots)
    (hjoins : ∀ k fd, b = .resume k (some fd) → a = .pool b)
    (hnow : s.replacedBy replaced a = false) :
    (liveGens { s with pool := q } ∪ s.serviceFaultSlots).card ≤ q.core.target := by
  obtain ⟨gen, hborn⟩ := h.known.joined hb
  have hstaffed := (h.known.step h.inv hb).known.staffed
  rw [step_target hb, ← ha]
  by_cases hjoin : (∃ k fd, b = .resume k (some fd)) ∧ s.pool.core.closing = false
  · -- the child that has joined is the only one that is new
    have hsub : liveGens { s with pool := q } ∪ s.found a ⊆ insert gen (s.liveGens ∪ s.found a) := by
      rw [← Finset.insert_union]
      refine Finset.union_subset_union_left fun g hg => ?_
      obtain ⟨j, hj, rfl⟩ := (mem_liveGens hstaffed g).mp hg
      rcases hborn j hj with hj | ⟨hgen, -⟩
      · exact Finset.mem_insert_of_mem ((mem_liveGens h.known.staffed _).mpr ⟨j, hj, rfl⟩)
      · exact hgen ▸ Finset.mem_insert_self _ _
    refine (Finset.card_le_card hsub).trans (h.held_insert hnow fun _ => ?_)
    obtain ⟨⟨k, fd, rfl⟩, hopen⟩ := hjoin
    obtain rfl := hjoins k fd rfl
    rw [replacedBy, Bool.or_eq_false_iff, replaces] at hnow
    simpa [hopen] using hnow.2
  · have hsub : liveGens { s with pool := q } ⊆ s.liveGens := by
      intro g hg
      obtain ⟨j, hj, rfl⟩ := (mem_liveGens hstaffed g).mp hg
      refine (mem_liveGens h.known.staffed _).mpr ⟨j, (hborn j hj).resolve_right ?_, rfl⟩
      exact fun hnew => hjoin hnew.2
    exact (Finset.card_le_card (Finset.union_subset_union_left hsub)).trans (h.held_found hnow)

lemma Watched.fields (hknown : Known s.pool) (hinv : Inv True s.pool [])
    (hpool : t.pool = { s.pool with startupError := t.pool.startupError })
    (hlimit : t.serviceFailureRounds = s₀.serviceFailureRounds)
    (hheld : replaced = false → (t.liveGens ∪ t.serviceFaultSlots).card ≤ s.pool.core.target)
    (htally : t.failureEvent = false → ∃ before rounds cur, Tally s₀ as t before rounds cur) :
    Watched s₀ as t replaced := by
  refine ⟨?_, ?_, hlimit, ?_, htally⟩
  · rw [hpool]
    exact ⟨hknown.staffed, hknown.tidy, hknown.unique⟩
  · rw [hpool]
    exact hinv.frame rfl rfl rfl hinv.sound.retired rfl rfl rfl rfl rfl rfl
  · rw [hpool]
    exact hheld

lemma Watched.cleared (h : Watched s₀ as s replaced) {now : Bool} {q : SkeletonPool} (hknown : Known q)
    (hinv : Inv True q []) : Watched s₀ (as ++ [a]) { s with pool := q }.clearServiceFaults now := by
  refine ⟨hknown, hinv, h.limit, fun _ => ?_, fun _ => ⟨_, [], [], .cleared rfl rfl (Nat.eq_zero_or_pos _).symm⟩⟩
  rw [clearServiceFaults, Finset.union_empty]
  exact live_card (s := { s with pool := q }) hknown.staffed

lemma Watched.step (h : Watched s₀ as s replaced) (hrun : s₀.run as = some s)
    (hheld : (s.replacedBy replaced a && s.completes a) = false) (hq : s.step a = some t) :
    Watched s₀ (as ++ [a]) t (s.replacedBy replaced a) := by
  have hnext : s₀.run (as ++ [a]) = some t := by
    rw [run_concat, hrun]
    exact hq
  cases a with
  | pool a =>
    obtain ⟨q, hstep, rfl⟩ := Option.map_eq_some_iff.mp hq
    have hf := h.known.step h.inv hstep
    have hinv := h.inv.step (fun hn => absurd trivial hn) hstep
    cases a with
    | ready i => exact h.cleared hf.known hinv
    | _ =>
      refine ⟨hf.known, hinv, h.limit, h.held_pool hstep rfl fun _ _ _ => rfl, fun hquiet => ?_⟩
      obtain ⟨before, rounds, cur, htally⟩ := h.tally hquiet
      exact ⟨before, rounds, _, htally.extend id ⟨rfl, rfl, rfl, rfl⟩ hf.unique⟩
  | started =>
    simp only [ServedPool.step, Option.ite_none_right_eq_some, Option.some_inj] at hq
    obtain ⟨-, rfl⟩ := hq
    refine ⟨h.known, h.inv, h.limit, h.held_found, fun hquiet => ?_⟩
    obtain ⟨before, rounds, cur, htally⟩ := h.tally hquiet
    exact ⟨before, rounds, _, htally.extend id ⟨rfl, rfl, rfl, rfl⟩ fun _ hu => hu⟩
  | healthy i =>
    simp only [ServedPool.step, Option.ite_none_right_eq_some, Option.some_inj] at hq
    rw [← hq.2]
    exact h.cleared h.known h.inv
  | serviceFault i kind code =>
    simp only [ServedPool.step, Option.ite_none_right_eq_some, Option.some_inj] at hq
    obtain ⟨hreads, rfl⟩ := hq
    obtain ⟨hpool, hlimit⟩ := recordServiceFault_frame s i kind code
    refine .fields h.known h.inv hpool (hlimit.trans h.limit) h.held_fault fun hf => ?_
    have hquiet : s.failureEvent = false := by
      rw [← Bool.not_eq_true]
      intro hs
      rw [recordServiceFault_opened hs] at hf
      cases hf
    exact h.fault hreads hheld hnext hquiet hf
  | reapFault k =>
    simp only [ServedPool.step, Option.ite_none_right_eq_some] at hq
    obtain ⟨q, hstep, rfl⟩ := Option.map_eq_some_iff.mp hq.2
    have hf := h.known.step h.inv hstep
    have hinv := h.inv.step (fun hn => absurd trivial hn) hstep
    obtain ⟨hpool, hlimit⟩ := openCircuit_frame { s with pool := q }
    refine .fields (s := { s with pool := q }) hf.known hinv hpool (hlimit.trans h.limit) (fun hnow => ?_)
      fun hquiet => ?_
    · rw [liveGens_frame hpool, openCircuit_slots]
      exact h.held_pool hstep rfl (fun _ _ heq => by cases heq) hnow
    · exact absurd ((openCircuit_opens _).symm.trans hquiet) (by simp)

lemma Watched.new (target limit : ℕ) :
    Watched { pool := new target, serviceFailureRounds := limit } []
      { pool := new target, serviceFailureRounds := limit } false :=
  ⟨.new target, .new target, rfl, fun _ => Nat.zero_le _,
    fun _ => ⟨[], [], [], .cleared rfl rfl (Nat.eq_zero_or_pos _).symm⟩⟩

lemma Watched.run {bs rest : List ServedAction} (h : Watched s₀ as s replaced) (has : s₀.run as = some s)
    (hheld : unreplaced s replaced (bs ++ rest) = true) (hrun : s.run bs = some t) :
    ∃ now, Watched s₀ (as ++ bs) t now ∧ unreplaced t now rest = true := by
  induction bs generalizing as s replaced with
  | nil =>
    cases hrun
    exact ⟨replaced, by rwa [List.append_nil], hheld⟩
  | cons b bs ih =>
    obtain ⟨u, hu, hrun⟩ := Option.bind_eq_some_iff.mp hrun
    rw [List.cons_append, unreplaced, hu, Bool.and_eq_true, Bool.not_eq_true'] at hheld
    have hnext : s₀.run (as ++ [b]) = some u := by
      rw [run_concat, has]
      exact hu
    obtain ⟨now, hwatched, hrest⟩ := ih (h.step has hheld.1 hu) hnext hheld.2 hrun
    exact ⟨now, by rwa [← List.append_cons] at hwatched, hrest⟩

end

/-- Where no counted skeleton is lost and replaced before its round is complete, a repeated fault opens the circuit
only after so many rounds that every live skeleton took part in. -/
theorem circuit_rounds_heard (target limit : ℕ) (as : List ServedAction) (s t : ServedPool) (i : SkeletonID)
    (kind code : String)
    (hrun : run { pool := new target, serviceFailureRounds := limit } as = some s)
    (hstep : s.step (.serviceFault i kind code) = some t)
    (hquiet : s.failureEvent = false) (hopen : t.failureEvent = true)
    (hrepeated : permanentServiceFault code = false)
    (hheld : unreplaced { pool := new target, serviceFailureRounds := limit } false
      (as ++ [.serviceFault i kind code]) = true) :
    HeardRounds { pool := new target, serviceFailureRounds := limit } (signature kind code) limit
      (as ++ [.serviceFault i kind code]) := by
  obtain ⟨now, hwatched, hlast⟩ := (Watched.new target limit).run rfl hheld hrun
  rw [List.nil_append] at hwatched
  rw [unreplaced, Bool.and_eq_true, Bool.not_eq_true'] at hlast
  have hnext : run { pool := new target, serviceFailureRounds := limit } (as ++ [.serviceFault i kind code]) =
      some t := by
    rw [run_concat, hrun]
    exact hstep
  simp only [step, Option.ite_none_right_eq_some, Option.some_inj] at hstep
  obtain ⟨hreads, rfl⟩ := hstep
  exact hwatched.opens hreads hlast.1 hnext hquiet hopen hrepeated

lemma exists_opening (s₀ : ServedPool) (as : List ServedAction) (a : ServedAction) (fd : ℤ) (i : SkeletonID)
    (h : ((s₀.run as).bind fun s => (s.step a).map fun t =>
      (s.failureEvent, t.failureEvent, (t.pool.core.slots.get fd).map ControlSlot.identity)) =
        some (false, true, some i)) :
    ∃ s t, s₀.run as = some s ∧ s.step a = some t ∧ s.failureEvent = false ∧ t.failureEvent = true ∧
      ∃ slot, t.pool.core.slots.get fd = some slot ∧ slot.identity = i := by
  obtain ⟨s, hs, hst⟩ := Option.bind_eq_some_iff.mp h
  obtain ⟨t, ht, hevents⟩ := Option.map_eq_some_iff.mp hst
  simp only [Prod.mk.injEq, Option.map_eq_some_iff] at hevents
  exact ⟨s, t, hs, ht, hevents⟩

def twoReady : List ServedAction :=
  [.pool .start, .pool (.resume 0 (some 7)), .pool (.resume 0 (some 9)), .pool (.ready ⟨7, 1⟩),
    .pool (.ready ⟨9, 2⟩), .started]

def fault (i : SkeletonID) : ServedAction := .serviceFault i "m.E" ""

def replaced (i : SkeletonID) (fd : ℤ) : List ServedAction :=
  [.pool (.eof i), .pool (.resume 0 none), .pool .recover, .pool (.resume 0 (some fd))]

lemma fault_not_permanent : permanentServiceFault "" = false := by decide +kernel

lemma fault_not_transient : transientServiceFault "m.E" "" = false := by
  rw [transientServiceFault, String.splitOn, if_neg (by decide), String.splitOnAux, if_neg (by decide +kernel),
    if_neg (by decide +kernel), String.splitOnAux, if_neg (by decide +kernel), if_pos (by decide +kernel),
    if_pos (by decide +kernel), String.splitOnAux, if_neg (by decide +kernel), if_neg (by decide +kernel),
    String.splitOnAux, if_pos (by decide +kernel)]
  decide +kernel

def bothFault : List ServedAction :=
  twoReady ++ [fault ⟨7, 1⟩, fault ⟨9, 2⟩, fault ⟨9, 2⟩, fault ⟨7, 1⟩, fault ⟨7, 1⟩]

theorem circuit_rounds_heard_bothFault :
    HeardRounds { pool := new 2, serviceFailureRounds := 3 } (signature "m.E" "") 3
      (bothFault ++ [fault ⟨9, 2⟩]) := by
  obtain ⟨s, t, hs, ht, hquiet, hopen, -⟩ := exists_opening
    { pool := new 2, serviceFailureRounds := 3 } bothFault (fault ⟨9, 2⟩) 9 ⟨9, 2⟩ (by
      simp only [bothFault, twoReady, fault, List.cons_append, List.nil_append, run, step, recordServiceFault,
        fault_not_permanent, fault_not_transient]
      decide +kernel)
  refine circuit_rounds_heard 2 3 bothFault s t ⟨9, 2⟩ "m.E" "" hs ht hquiet hopen fault_not_permanent ?_
  simp only [bothFault, twoReady, fault, List.cons_append, List.nil_append, unreplaced, step, recordServiceFault,
    replacedBy, replaces, found, completes, counts, fault_not_permanent, fault_not_transient]
  decide +kernel

/-- The first skeleton faults and dies, and its successors fault before they are ready. The second one is healthy
all along. -/
def oneFaults : List ServedAction :=
  twoReady ++ [fault ⟨7, 1⟩] ++ replaced ⟨7, 1⟩ 8 ++ [fault ⟨8, 3⟩, fault ⟨8, 3⟩] ++
    replaced ⟨8, 3⟩ 10 ++ [fault ⟨10, 4⟩, fault ⟨10, 4⟩] ++ replaced ⟨10, 4⟩ 11

def reporter : ServedAction → Option SkeletonID
  | .serviceFault i _ _ => some i
  | _ => none

theorem circuit_opens_unheard :
    ∃ s t, run { pool := new 2, serviceFailureRounds := 3 } oneFaults = some s ∧
      s.step (fault ⟨11, 5⟩) = some t ∧ s.failureEvent = false ∧ t.failureEvent = true ∧
      permanentServiceFault "" = false ∧
      ¬ HeardRounds { pool := new 2, serviceFailureRounds := 3 } (signature "m.E" "") 3
        (oneFaults ++ [fault ⟨11, 5⟩]) := by
  obtain ⟨s, t, hs, ht, hquiet, hopen, slot, hget, hid⟩ := exists_opening
    { pool := new 2, serviceFailureRounds := 3 } oneFaults (fault ⟨11, 5⟩) 9 ⟨9, 2⟩ (by
      simp only [oneFaults, twoReady, replaced, fault, List.cons_append, List.nil_append, run, step,
        recordServiceFault, fault_not_permanent, fault_not_transient]
      decide +kernel)
  refine ⟨s, t, hs, ht, hquiet, hopen, fault_not_permanent, ?_⟩
  rintro ⟨before, rounds, hsplit, hlength, -, hheard⟩
  obtain ⟨last, hlast⟩ : ∃ last, rounds[2]? = some last := ⟨rounds[2], List.getElem?_eq_getElem (by omega)⟩
  have hall : rounds.take (2 + 1) = rounds := List.take_of_length_le (by omega)
  have hend : run { pool := new 2, serviceFailureRounds := 3 } (before ++ (rounds.take (2 + 1)).flatten) =
      some t := by
    rw [hall, ← hsplit, run_concat, hs]
    exact ht
  have hsilent : ∀ a ∈ oneFaults ++ [fault ⟨11, 5⟩], reporter a ≠ some ⟨9, 2⟩ := by decide
  obtain ⟨kind, code, hmem, -⟩ := hheard 2 last hlast t hend ⟨9, 2⟩ ⟨slot, hget, hid⟩
  refine hsilent (.serviceFault ⟨9, 2⟩ kind code) ?_ rfl
  rw [hsplit]
  exact List.mem_append_right _ (List.mem_flatten.mpr ⟨last, List.mem_of_getElem? hlast, hmem⟩)

end Reaper.Pool.ServedPool
