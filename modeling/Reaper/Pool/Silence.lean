import Reaper.Pool.Heartbeat
import Reaper.Pool.Control
import Reaper.Library.Doubles
import Reaper.Library.Frames

/-! The heartbeats of the children, and the monitor that kills those that stay silent. The clock of the loop is any
that does not go back, and its readings are doubles; the markers are of the clocks of the children. -/

namespace Reaper.Pool

open Reaper.Library HeartbeatWatch

def elapsed (since now : ℚ) : ℚ := double (now - since)

-- in doubles it is not quite a second from 3.1 to 4.1
example : elapsed (double (31 / 10)) (double (41 / 10)) < 1 := by decide +kernel

lemma elapsed_measures : Measures elapsed where
  self := fun t => by rw [elapsed, sub_self, double_zero]
  shrinks := fun s t now hst htn => double_mono (sub_nonneg.mpr htn) (sub_le_sub_left hst now)

def heartbeatMisses : ℚ := 5

def heartbeatMinTimeout : ℚ := 1

def heartbeatTimeout (beatRate : ℚ) : ℚ := max (double (beatRate * heartbeatMisses)) heartbeatMinTimeout

lemma heartbeatTimeout_pos (beatRate : ℚ) : 0 < heartbeatTimeout beatRate :=
  lt_of_lt_of_le (by norm_num [heartbeatMinTimeout]) (le_max_right _ _)

/-- The heartbeat file of a slot, and what the monitor knows of it. Reading the file may fail for a while. -/
structure Pulse where
  file : List UInt8
  readable : Bool := true
  heartbeat : HeartbeatWatch := {}

namespace Pulse

lemma observe_isSome (w : HeartbeatWatch) (marker : List UInt8) (now beatRate : ℚ) :
    (w.observeBy elapsed marker now (heartbeatTimeout beatRate)).isSome := by
  rw [observeBy, if_neg (not_le.mpr (heartbeatTimeout_pos beatRate))]
  dsimp only
  split_ifs <;> rfl

def read (p : Pulse) : Option (List UInt8) := if p.readable ∧ p.file.length = 8 then some p.file else none

/-- What the monitor does with one slot: a failure to read is no change, and a kill begins a new count. -/
def probe (beatRate now : ℚ) (p : Pulse) : Pulse × Bool :=
  let r := (p.heartbeat.observeBy elapsed (p.read.getD p.heartbeat.marker) now (heartbeatTimeout beatRate)).get
    (observe_isSome _ _ _ _)
  ({ p with heartbeat := if r.2 then r.1 else { r.1 with unchangedSince := now } }, r.2)

end Pulse

inductive Beat
  | spawn (i : SkeletonID)
  | writeBeat (i : SkeletonID)
  | fault (i : SkeletonID) (readable : Bool)
  | drop (i : SkeletonID)
  deriving DecidableEq

/-- A marker of more than eight bytes raises. -/
def Beat.apply (pulses : Dict SkeletonID Pulse) (now : ℕ) : Beat → Dict SkeletonID Pulse
  | .spawn i => pulses.set i { file := List.replicate 8 0 }
  | .writeBeat i =>
    if now < 256 ^ 8 then (pulses.get i).elim pulses fun p => pulses.set i { p with file := bigEndian 8 now }
    else pulses
  | .fault i readable => (pulses.get i).elim pulses fun p => pulses.set i { p with readable := readable }
  | .drop i => pulses.erase i

def monitorRound (beatRate now : ℚ) (pulses : Dict SkeletonID Pulse) :
    Dict SkeletonID Pulse × List SkeletonID :=
  (pulses.map fun p => (p.probe beatRate now).1,
    pulses.entries.filterMap fun e => if (e.2.probe beatRate now).2 then none else some e.1)

/-- What loop.time() returns in each round, and what happens to each slot before the round reads its file. What a
child writes has the time of its own clock. -/
structure Vigil where
  beatRate : ℚ
  now : ℕ → ℚ
  beats : ℕ → List (ℕ × Beat)

namespace Vigil

variable (c : Vigil) (i : SkeletonID)

def stir (k : ℕ) (pulses : Dict SkeletonID Pulse) : Dict SkeletonID Pulse :=
  (c.beats k).foldl (fun pulses b => b.2.apply pulses b.1) pulses

def finds : ℕ → Dict SkeletonID Pulse
  | 0 => c.stir 0 Dict.empty
  | k + 1 => c.stir (k + 1) (monitorRound c.beatRate (c.now k) (finds k)).1

def kills (k : ℕ) : List SkeletonID := (monitorRound c.beatRate (c.now k) (c.finds k)).2

structure Timed (j : ℕ) : Prop where
  starts : 0 < c.now 0
  rounds : ∀ k < j, c.now k ≤ c.now (k + 1)

/-- The clock of the child goes on: what it publishes after a round is later than what it published before. -/
structure Ticks (j : ℕ) : Prop where
  grows : ∀ k l, k < l → l ≤ j → ∀ n n', (n, .writeBeat i) ∈ c.beats k → (n', .writeBeat i) ∈ c.beats l → n < n'
  room : ∀ k ≤ j, ∀ n, (n, .writeBeat i) ∈ c.beats k → 0 < n ∧ n < 256 ^ 8

structure Lives (a j : ℕ) : Prop where
  appears : ∃ p, (c.finds a).get i = some p ∧ p.heartbeat = {}
  stays : ∀ k, a < k → k ≤ j → ∀ n, (n, .spawn i) ∉ c.beats k ∧ (n, .drop i) ∉ c.beats k

def Publishes (k : ℕ) : Prop := ∃ n, (n, .writeBeat i) ∈ c.beats k

def Reads (k : ℕ) : Prop := ∃ p, (c.finds k).get i = some p ∧ p.readable = true

def Silent (a l j : ℕ) : Prop :=
  ∀ k, l < k → k ≤ j → c.Reads i k → ∃ m, a ≤ m ∧ m ≤ l ∧ c.Reads i m ∧ ∀ r, m < r → r ≤ k → ¬ c.Publishes i r

end Vigil

section Files

variable {pulses : Dict SkeletonID Pulse} {i : SkeletonID} {p : Pulse} {n bound : ℕ} {b : Beat} {acts : List (ℕ × Beat)}

lemma bigEndian_inj {m n : ℕ} (hm : m < 256 ^ 8) (hn : n < 256 ^ 8) (h : bigEndian 8 m = bigEndian 8 n) : m = n := by
  rw [← ofBigEndian_bigEndian 8 m hm, h, ofBigEndian_bigEndian 8 n hn]

def Stamped (pulses : Dict SkeletonID Pulse) (acts : List (ℕ × Beat)) : Prop :=
  ∀ i p, pulses.get i = some p → ∃ n < 256 ^ 8, (n = 0 ∨ (n, .writeBeat i) ∈ acts) ∧ p.file = bigEndian 8 n

lemma Stamped.apply (hs : Stamped pulses acts) : Stamped (b.apply pulses n) (acts ++ [(n, b)]) := by
  have hold : Stamped pulses (acts ++ [(n, b)]) := fun i p hp => by
    obtain ⟨m, hroom, hm, hfile⟩ := hs i p hp
    exact ⟨m, hroom, hm.imp_right (List.mem_append_left _), hfile⟩
  cases b with
  | spawn i =>
    intro j q hq
    rw [Beat.apply, Dict.get_set] at hq
    split_ifs at hq
    · cases hq
      exact ⟨0, by norm_num, Or.inl rfl, rfl⟩
    · exact hold j q hq
  | writeBeat i =>
    rw [Beat.apply]
    split_ifs with hroom
    · cases hp : pulses.get i with
      | none => exact hold
      | some p =>
        intro j q hq
        rw [Option.elim_some, Dict.get_set] at hq
        split_ifs at hq with hj
        · cases hq
          exact ⟨n, hroom, Or.inr (hj ▸ List.mem_append_right _ List.mem_cons_self), rfl⟩
        · exact hold j q hq
    · exact hold
  | fault i readable =>
    rw [Beat.apply]
    cases hp : pulses.get i with
    | none => exact hold
    | some p =>
      intro j q hq
      rw [Option.elim_some, Dict.get_set] at hq
      split_ifs at hq with hj
      · cases hq
        exact hj ▸ hold i p hp
      · exact hold j q hq
  | drop i => exact Dict.forall_erase fun j q _ hq => hold j q hq

lemma Stamped.foldl {new : List (ℕ × Beat)} (hs : Stamped pulses acts) :
    Stamped (new.foldl (fun pulses b => b.2.apply pulses b.1) pulses) (acts ++ new) := by
  induction new generalizing pulses acts with
  | nil => rwa [List.append_nil]
  | cons b new ih =>
    rw [List.foldl_cons, List.append_cons]
    exact ih hs.apply

structure Stirred (acts : List (ℕ × Beat)) (i : SkeletonID) (p q : Pulse) : Prop where
  heartbeat : q.heartbeat = p.heartbeat
  file : (∀ n, (n, .writeBeat i) ∉ acts) ∧ q.file = p.file ∨ ∃ n, (n, .writeBeat i) ∈ acts ∧ q.file = bigEndian 8 n

lemma Stirred.apply (hp : pulses.get i = some p) (hspawn : b ≠ .spawn i) (hdrop : b ≠ .drop i)
    (hn : b = .writeBeat i → n < 256 ^ 8) :
    ∃ q, (b.apply pulses n).get i = some q ∧ Stirred [(n, b)] i p q := by
  have hother : ∀ {j q}, j ≠ i → b ≠ .writeBeat i →
      ∃ q', (pulses.set j q).get i = some q' ∧ Stirred [(n, b)] i p q' := fun hj hb =>
    ⟨p, (Dict.get_set_ne _ _ hj.symm).trans hp, rfl, Or.inl ⟨fun n hm => by simp_all, rfl⟩⟩
  cases b with
  | spawn j => exact hother (fun hj => hspawn (hj ▸ rfl)) (by simp)
  | writeBeat j =>
    rw [Beat.apply]
    by_cases hj : j = i
    · subst hj
      rw [if_pos (hn rfl), hp]
      exact ⟨_, Dict.get_set_self _ _ _, rfl, Or.inr ⟨n, by simp, rfl⟩⟩
    · have hb : Beat.writeBeat j ≠ .writeBeat i := by simpa using hj
      have hsame : ∃ q, pulses.get i = some q ∧ Stirred [(n, .writeBeat j)] i p q :=
        ⟨p, hp, rfl, Or.inl ⟨fun n hm => by simp_all, rfl⟩⟩
      split_ifs
      · cases pulses.get j with
        | none => exact hsame
        | some q => exact hother hj hb
      · exact hsame
  | fault j readable =>
    rw [Beat.apply]
    by_cases hj : j = i
    · subst hj
      rw [hp]
      exact ⟨_, Dict.get_set_self _ _ _, rfl, Or.inl ⟨by simp, rfl⟩⟩
    · cases pulses.get j with
      | none => exact ⟨p, hp, rfl, Or.inl ⟨by simp, rfl⟩⟩
      | some q => exact hother hj (by simp)
  | drop j =>
    have hj : j ≠ i := fun hj => hdrop (hj ▸ rfl)
    exact ⟨p, (Dict.get_erase_ne _ hj.symm).trans hp, rfl, Or.inl ⟨by simp, rfl⟩⟩

lemma Stirred.foldl (hp : pulses.get i = some p) (hspawn : ∀ n, (n, .spawn i) ∉ acts)
    (hdrop : ∀ n, (n, .drop i) ∉ acts) (hn : ∀ n, (n, .writeBeat i) ∈ acts → n < 256 ^ 8) :
    ∃ q, (acts.foldl (fun pulses b => b.2.apply pulses b.1) pulses).get i = some q ∧ Stirred acts i p q := by
  induction acts generalizing pulses p with
  | nil => exact ⟨p, hp, rfl, Or.inl ⟨by simp, rfl⟩⟩
  | cons b acts ih =>
    obtain ⟨q, hq, hstirred⟩ := Stirred.apply (n := b.1) (b := b.2) hp
      (fun hb => hspawn b.1 (hb ▸ List.mem_cons_self)) (fun hb => hdrop b.1 (hb ▸ List.mem_cons_self))
      (fun hb => hn b.1 (hb ▸ List.mem_cons_self))
    obtain ⟨r, hr, hrest⟩ := ih hq (fun n hm => hspawn n (List.mem_cons_of_mem _ hm))
      (fun n hm => hdrop n (List.mem_cons_of_mem _ hm)) fun n hm => hn n (List.mem_cons_of_mem _ hm)
    refine ⟨r, hr, hrest.heartbeat.trans hstirred.heartbeat, ?_⟩
    rcases hrest.file with ⟨hnone, hfile⟩ | ⟨n, hm, hfile⟩
    · rcases hstirred.file with ⟨hnone', hfile'⟩ | ⟨n, hm, hfile'⟩
      · refine Or.inl ⟨fun n hm => ?_, hfile.trans hfile'⟩
        rcases List.mem_cons.mp hm with rfl | hm
        · exact hnone' n List.mem_cons_self
        · exact hnone n hm
      · exact Or.inr ⟨n, List.mem_cons.mpr (Or.inl (List.mem_singleton.mp hm)), hfile.trans hfile'⟩
    · exact Or.inr ⟨n, List.mem_cons_of_mem _ hm, hfile⟩

end Files

namespace Vigil

variable {c : Vigil} {i : SkeletonID} {p : Pulse} {a j k l m : ℕ}

def pulse (c : Vigil) (i : SkeletonID) (k : ℕ) : Pulse := ((c.finds k).get i).getD { file := [] }

lemma monitorRound_get (beatRate now : ℚ) (pulses : Dict SkeletonID Pulse) (i : SkeletonID) :
    (monitorRound beatRate now pulses).1.get i = (pulses.get i).map fun p => (p.probe beatRate now).1 :=
  Dict.get_map _ _ _

lemma mem_kills (hp : (c.finds k).get i = some p) :
    i ∈ c.kills k ↔ (p.probe c.beatRate (c.now k)).2 = false := by
  rw [kills, monitorRound, List.mem_filterMap]
  constructor
  · rintro ⟨⟨i', p'⟩, hm, hkilled⟩
    split_ifs at hkilled with halive
    obtain rfl := Option.some.inj hkilled
    cases hp.symm.trans ((Dict.mem_entries _ _ _).mp hm)
    exact Bool.eq_false_of_not_eq_true halive
  · intro hdead
    exact ⟨(i, p), (Dict.mem_entries _ _ _).mpr hp, if_neg (by simp [hdead])⟩

def past (c : Vigil) : ℕ → List (ℕ × Beat)
  | 0 => c.beats 0
  | k + 1 => past c k ++ c.beats (k + 1)

lemma mem_past {b : ℕ × Beat} : b ∈ c.past k ↔ ∃ l ≤ k, b ∈ c.beats l := by
  induction k with
  | zero => simp [past]
  | succ k ih =>
    rw [past, List.mem_append, ih]
    constructor
    · rintro (⟨l, hl, hb⟩ | hb)
      · exact ⟨l, by omega, hb⟩
      · exact ⟨k + 1, le_rfl, hb⟩
    · rintro ⟨l, hl, hb⟩
      rcases Nat.lt_or_eq_of_le hl with hlt | rfl
      · exact Or.inl ⟨l, by omega, hb⟩
      · exact Or.inr hb

lemma stamped (c : Vigil) (k : ℕ) : Stamped (c.finds k) (c.past k) := by
  induction k with
  | zero =>
    have hempty : Stamped Dict.empty [] := fun i p hp => by cases hp
    exact hempty.foldl
  | succ k ih =>
    refine Stamped.foldl fun i p hp => ?_
    rw [monitorRound_get] at hp
    obtain ⟨q, hq, rfl⟩ := Option.map_eq_some_iff.mp hp
    exact ih i q hq

lemma Timed.mono (ht : c.Timed j) (h : l ≤ k) (hk : k ≤ j) : c.now l ≤ c.now k := by
  induction k, h using Nat.le_induction with
  | base => exact le_rfl
  | succ k h ih => exact (ih (by omega)).trans (ht.rounds k hk)

lemma Lives.next (ht : c.Ticks i j) (hl : c.Lives i a j) (ha : a ≤ k) (hk : k < j) (hp : (c.finds k).get i = some p) :
    ∃ q, (c.finds (k + 1)).get i = some q ∧
      Stirred (c.beats (k + 1)) i (p.probe c.beatRate (c.now k)).1 q := by
  have hstays := hl.stays (k + 1) (by omega) hk
  refine Stirred.foldl ?_ (fun n => (hstays n).1) (fun n => (hstays n).2) fun n hm => ?_
  · rw [monitorRound_get, hp, Option.map_some]
  · exact (ht.room (k + 1) hk n hm).2

lemma Lives.found (ht : c.Ticks i j) (hl : c.Lives i a j) (ha : a ≤ k) (hk : k ≤ j) :
    (c.finds k).get i = some (c.pulse i k) := by
  have hsome : ∃ p, (c.finds k).get i = some p := by
    induction k, ha using Nat.le_induction with
    | base => exact hl.appears.imp fun p hp => hp.1
    | succ k ha ih =>
      obtain ⟨p, hp⟩ := ih (by omega)
      exact (hl.next ht ha (by omega) hp).imp fun q hq => hq.1
  obtain ⟨p, hp⟩ := hsome
  rw [pulse, hp, Option.getD_some]

lemma Lives.stirred (ht : c.Ticks i j) (hl : c.Lives i a j) (ha : a ≤ k) (hk : k < j) :
    Stirred (c.beats (k + 1)) i ((c.pulse i k).probe c.beatRate (c.now k)).1 (c.pulse i (k + 1)) := by
  obtain ⟨q, hq, hstirred⟩ := hl.next ht ha hk (hl.found ht ha hk.le)
  cases hq.symm.trans (hl.found ht (by omega) hk)
  exact hstirred

lemma file_same (ht : c.Ticks i j) (hl : c.Lives i a j) (ha : a ≤ m) (hm : m ≤ k) (hk : k ≤ j)
    (hnone : ∀ r, m < r → r ≤ k → ¬ c.Publishes i r) : (c.pulse i k).file = (c.pulse i m).file := by
  induction k, hm using Nat.le_induction with
  | base => rfl
  | succ k hm ih =>
    rcases (hl.stirred ht (ha.trans hm) hk).file with ⟨-, hfile⟩ | ⟨n, hwrote, -⟩
    · exact hfile.trans (ih (by omega) fun r hr hrk => hnone r hr (by omega))
    · exact absurd ⟨n, hwrote⟩ (hnone (k + 1) (by omega) le_rfl)

lemma file_published (ht : c.Ticks i j) (hl : c.Lives i a j) (ha : a ≤ m) (hm : m + 1 ≤ k) (hk : k ≤ j)
    (hwrites : c.Publishes i (m + 1)) :
    ∃ n r, m < r ∧ r ≤ k ∧ (n, .writeBeat i) ∈ c.beats r ∧ (c.pulse i k).file = bigEndian 8 n := by
  induction k, hm using Nat.le_induction with
  | base =>
    rcases (hl.stirred ht ha hk).file with ⟨hnone, -⟩ | ⟨n, hwrote, hfile⟩
    · obtain ⟨n, hwrote⟩ := hwrites
      exact absurd hwrote (hnone n)
    · exact ⟨n, m + 1, by omega, le_rfl, hwrote, hfile⟩
  | succ k hm ih =>
    rcases (hl.stirred ht (by omega) hk).file with ⟨-, hfile⟩ | ⟨n, hwrote, hfile⟩
    · obtain ⟨n, r, hmr, hrk, hwrote, hold⟩ := ih (by omega)
      exact ⟨n, r, hmr, by omega, hwrote, hfile.trans hold⟩
    · exact ⟨n, k + 1, by omega, le_rfl, hwrote, hfile⟩

lemma file_eq_iff (ht : c.Ticks i j) (hl : c.Lives i a j) (ha : a ≤ m) (hm : m ≤ k) (hk : k ≤ j) :
    (c.pulse i k).file = (c.pulse i m).file ↔ ∀ r, m < r → r ≤ k → ¬ c.Publishes i r := by
  refine ⟨fun heq r hr hrk hwrites => ?_, file_same ht hl ha hm hk⟩
  obtain ⟨r, rfl⟩ := Nat.exists_eq_add_of_lt hr
  obtain ⟨n, l, hml, hlk, hwrote, hfile⟩ := file_published ht hl (by omega) hrk hk hwrites
  obtain ⟨n', hroom', hold, hfile'⟩ := stamped c m i _ (hl.found ht ha (hm.trans hk))
  obtain ⟨hpos, hroom⟩ := ht.room l (hlk.trans hk) n hwrote
  have hsame := bigEndian_inj hroom hroom' (hfile.symm.trans (heq.trans hfile'))
  rcases hold with rfl | hold
  · exact hpos.ne' hsame
  · obtain ⟨l', hl', hwrote'⟩ := mem_past.mp hold
    exact (ht.grows l' l (by omega) (by omega) n' n hwrote' hwrote).ne' hsame

lemma file_length (ht : c.Ticks i j) (hl : c.Lives i a j) (ha : a ≤ k) (hk : k ≤ j) : (c.pulse i k).file.length = 8 := by
  obtain ⟨n, -, -, hfile⟩ := stamped c k i _ (hl.found ht ha hk)
  rw [hfile, bigEndian_length]

lemma read_of_reads (ht : c.Ticks i j) (hl : c.Lives i a j) (ha : a ≤ k) (hk : k ≤ j) (hr : c.Reads i k) :
    (c.pulse i k).read = some (c.pulse i k).file := by
  obtain ⟨p, hp, hreadable⟩ := hr
  cases hp.symm.trans (hl.found ht ha hk)
  exact if_pos ⟨hreadable, file_length ht hl ha hk⟩

lemma read_of_not_reads (ht : c.Ticks i j) (hl : c.Lives i a j) (ha : a ≤ k) (hk : k ≤ j) (hr : ¬ c.Reads i k) :
    (c.pulse i k).read = none :=
  if_neg fun hreadable => hr ⟨_, hl.found ht ha hk, hreadable.1⟩

def seen (c : Vigil) (i : SkeletonID) (a : ℕ) : ℕ → List UInt8
  | 0 => (c.pulse i a).read.getD []
  | k + 1 => (c.pulse i (a + (k + 1))).read.getD (seen c i a k)

lemma seen_last (ht : c.Ticks i j) (hl : c.Lives i a j) (hk : a + k ≤ j) :
    (∃ m ≤ k, c.Reads i (a + m) ∧ (∀ r, m < r → r ≤ k → ¬ c.Reads i (a + r)) ∧
        c.seen i a k = (c.pulse i (a + m)).file) ∨
      (∀ m ≤ k, ¬ c.Reads i (a + m)) ∧ c.seen i a k = [] := by
  induction k with
  | zero =>
    by_cases hr : c.Reads i a
    · refine Or.inl ⟨0, le_rfl, hr, fun r hr hr' => by omega, ?_⟩
      rw [seen, read_of_reads ht hl le_rfl hk hr]
      rfl
    · refine Or.inr ⟨fun m hm => ?_, ?_⟩
      · rw [Nat.le_zero.mp hm]
        exact hr
      · rw [seen, read_of_not_reads ht hl le_rfl hk hr]
        rfl
  | succ k ih =>
    by_cases hr : c.Reads i (a + (k + 1))
    · refine Or.inl ⟨k + 1, le_rfl, hr, fun r hr hr' => by omega, ?_⟩
      rw [seen, read_of_reads ht hl (by omega) hk hr]
      rfl
    · have hseen : c.seen i a (k + 1) = c.seen i a k := by
        rw [seen, read_of_not_reads ht hl (by omega) hk hr]
        rfl
      rw [hseen]
      have hlast : ∀ {r}, r ≤ k + 1 → r ≤ k ∨ r = k + 1 := fun hr => by omega
      rcases ih (by omega) with ⟨m, hm, hreads, hnone, hfile⟩ | ⟨hnone, hempty⟩
      · refine Or.inl ⟨m, by omega, hreads, fun r hmr hrk => ?_, hfile⟩
        rcases hlast hrk with hrk | rfl
        · exact hnone r hmr hrk
        · exact hr
      · refine Or.inr ⟨fun m hm => ?_, hempty⟩
        rcases hlast hm with hm | rfl
        · exact hnone m hm
        · exact hr

lemma seen_eq_iff (ht : c.Ticks i j) (hl : c.Lives i a j) (hlk : l ≤ k) (hk : a + k ≤ j) :
    (∀ m, l ≤ m → m ≤ k → c.seen i a m = c.seen i a k) ↔ c.Silent i a (a + l) (a + k) := by
  constructor
  · intro hsame r hlr hrk hreads
    obtain ⟨r, rfl⟩ := Nat.exists_eq_add_of_le (show a ≤ r by omega)
    have hfile : c.seen i a r = (c.pulse i (a + r)).file := by
      rcases seen_last ht hl (show a + r ≤ j by omega) with ⟨m, hm, -, hnone, hfile⟩ | ⟨hnone, -⟩
      · rcases hm.lt_or_eq with hm | rfl
        · exact absurd hreads (hnone r hm le_rfl)
        · exact hfile
      · exact absurd hreads (hnone r le_rfl)
    have hold : c.seen i a l = (c.pulse i (a + r)).file :=
      (hsame l le_rfl hlk).trans ((hsame r (by omega) (by omega)).symm.trans hfile)
    rcases seen_last ht hl (show a + l ≤ j by omega) with ⟨m, hm, hreads', -, hseen⟩ | ⟨-, hempty⟩
    · refine ⟨a + m, by omega, by omega, hreads', ?_⟩
      exact (file_eq_iff ht hl (by omega) (by omega) (by omega)).mp (hold.symm.trans hseen)
    · have hlength := file_length ht hl (show a ≤ a + r by omega) (by omega)
      rw [← hold, hempty] at hlength
      cases hlength
  · intro hsilent
    have hstays : ∀ m, l ≤ m → m ≤ k → c.seen i a m = c.seen i a l := by
      intro m hlm hmk
      induction m, hlm using Nat.le_induction with
      | base => rfl
      | succ m hlm ih =>
        by_cases hreads : c.Reads i (a + (m + 1))
        · obtain ⟨r, har, hrl, hreads', hnone⟩ := hsilent (a + (m + 1)) (by omega) (by omega) hreads
          rcases seen_last ht hl (show a + l ≤ j by omega) with ⟨m', hm', -, hlast, hseen⟩ | ⟨hnever, -⟩
          · have hle : r ≤ a + m' := by
              by_contra hlt
              obtain ⟨r, rfl⟩ := Nat.exists_eq_add_of_le har
              exact hlast r (by omega) (by omega) hreads'
            rw [hseen, seen, read_of_reads ht hl (by omega) (by omega) hreads, Option.getD_some]
            exact file_same ht hl (by omega) (by omega) (by omega) fun s hs => hnone s (by omega)
          · obtain ⟨r, rfl⟩ := Nat.exists_eq_add_of_le har
            exact absurd hreads' (hnever r (by omega))
        · rw [seen, read_of_not_reads ht hl (by omega) (by omega) hreads]
          exact ih (by omega)
    intro m hlm hmk
    rw [hstays m hlm hmk, hstays k hlk le_rfl]

def moment (c : Vigil) (a k : ℕ) : ℚ := c.now (a + k)

lemma tracks_long_iff {timeout : ℚ} {marker : ℕ → List UInt8} {t : ℕ → ℚ} {w : HeartbeatWatch}
    (h : Tracks elapsed timeout marker t w k) (htimeout : 0 < timeout) (hmono : ∀ l ≤ k, t l ≤ t k) :
    timeout ≤ elapsed w.unchangedSince (t k) ↔
      ∃ l < k, Quiet elapsed timeout marker t l k ∧ timeout ≤ elapsed (t l) (t k) := by
  constructor
  · intro hlong
    obtain ⟨l, hl, hbase, hquiet⟩ := h.baseline
    rw [hbase] at hlong
    refine ⟨l, lt_of_le_of_ne hl ?_, hquiet, hlong⟩
    rintro rfl
    rw [elapsed_measures.self] at hlong
    exact absurd hlong (not_le.mpr htimeout)
  · rintro ⟨l, hl, hquiet, hlong⟩
    exact hlong.trans (elapsed_measures.shrinks _ _ _ (h.longest l hl.le hquiet) (hmono l hl.le))

structure Followed (c : Vigil) (i : SkeletonID) (a b d : ℕ) (w : HeartbeatWatch) : Prop where
  origin : b = 0 ∨ i ∈ c.kills (a + b)
  spared : ∀ m, b < m → m ≤ b + d → i ∉ c.kills (a + m)
  tracks : Tracks elapsed (heartbeatTimeout c.beatRate) (fun m => c.seen i a (b + m)) (fun m => c.moment a (b + m)) w d

structure Window (c : Vigil) (i : SkeletonID) (a l k : ℕ) : Prop where
  spared : ∀ m, l < m → m < k → i ∉ c.kills (a + m)
  timely : ∀ m, l ≤ m → m < k → elapsed (c.moment a m) (c.moment a (m + 1)) ≤ heartbeatTimeout c.beatRate
  long : heartbeatTimeout c.beatRate ≤ elapsed (c.moment a l) (c.moment a k)
  same : ∀ m, l ≤ m → m ≤ k → c.seen i a m = c.seen i a k

lemma probe_of_observe (p : Pulse) (beatRate now : ℚ) {w : HeartbeatWatch} {alive : Bool}
    (h : p.heartbeat.observeBy elapsed (p.read.getD p.heartbeat.marker) now (heartbeatTimeout beatRate) = some (w, alive)) :
    p.probe beatRate now = ({ p with heartbeat := if alive then w else { w with unchangedSince := now } }, alive) := by
  rw [Pulse.probe]
  simp only [h, Option.get_some]

lemma window_iff {b d : ℕ} {w : HeartbeatWatch}
    (hmono : ∀ m ≤ d + 1, c.moment a (b + m) ≤ c.moment a (b + (d + 1))) (horigin : b = 0 ∨ i ∈ c.kills (a + b))
    (hspared : ∀ m, b < m → m ≤ b + d → i ∉ c.kills (a + m))
    (htracks : Tracks elapsed (heartbeatTimeout c.beatRate) (fun m => c.seen i a (b + m)) (fun m => c.moment a (b + m)) w
      (d + 1)) :
    heartbeatTimeout c.beatRate ≤ elapsed w.unchangedSince (c.moment a (b + d + 1)) ↔
      ∃ l < b + d + 1, c.Window i a l (b + d + 1) := by
  have hlong := tracks_long_iff htracks (heartbeatTimeout_pos _) hmono
  refine hlong.trans ⟨?_, ?_⟩
  · rintro ⟨l, hl, hquiet, hlong⟩
    refine ⟨b + l, by omega, fun m hlm hm => hspared m (by omega) (by omega), fun m hlm hm => ?_, hlong,
      fun m hlm hm => ?_⟩
    · obtain ⟨e, rfl⟩ := Nat.exists_eq_add_of_le (show b ≤ m by omega)
      exact hquiet.timely e (by omega) (by omega)
    · obtain ⟨e, rfl⟩ := Nat.exists_eq_add_of_le (show b ≤ m by omega)
      exact hquiet.same e (by omega) (by omega)
  · rintro ⟨l, hl, hwindow⟩
    have hbl : b ≤ l := by
      by_contra hlt
      rcases horigin with rfl | hkilled
      · omega
      · exact hwindow.spared b (by omega) (by omega) hkilled
    obtain ⟨e, rfl⟩ := Nat.exists_eq_add_of_le hbl
    refine ⟨e, by omega, ⟨fun m hem hm => ?_, fun m hem hm => ?_⟩, hwindow.long⟩
    · exact hwindow.same (b + m) (by omega) (by omega)
    · exact hwindow.timely (b + m) (by omega) (by omega)

lemma followed (hc : c.Timed j) (ht : c.Ticks i j) (hl : c.Lives i a j) (hk : a + k ≤ j) :
    (∃ b d, k = b + d ∧ c.Followed i a b d
        ((c.pulse i (a + k)).probe c.beatRate (c.moment a k)).1.heartbeat) ∧
      (i ∈ c.kills (a + k) ↔ ∃ l < k, c.Window i a l k) := by
  have hkills : ∀ {k}, a + k ≤ j → (i ∈ c.kills (a + k) ↔
      ((c.pulse i (a + k)).probe c.beatRate (c.moment a k)).2 = false) := fun hk =>
    mem_kills (hl.found ht (by omega) hk)
  induction k with
  | zero =>
    obtain ⟨p, hp, hnew⟩ := hl.appears
    cases hp.symm.trans (hl.found ht le_rfl hk)
    obtain ⟨w, hobserve, htracks⟩ := observe_first elapsed (fun m => c.seen i a (0 + m)) (fun m => c.moment a (0 + m))
      (heartbeatTimeout_pos c.beatRate)
    have hprobe := probe_of_observe (c.pulse i a) c.beatRate (c.moment a 0) (by rw [hnew]; exact hobserve)
    rw [hkills hk, Nat.add_zero, hprobe]
    refine ⟨⟨0, 0, rfl, Or.inl rfl, fun m hm hm' => by omega, htracks⟩, by simp⟩
  | succ k ih =>
    obtain ⟨⟨b, d, rfl, hfollowed⟩, -⟩ := ih (by omega)
    have hmono : ∀ m ≤ d + 1, c.moment a (b + m) ≤ c.moment a (b + (d + 1)) := fun m hm =>
      hc.mono (by omega) (by omega)
    have hpos : 0 < c.moment a (b + d) := hc.starts.trans_le (hc.mono (Nat.zero_le _) (by omega))
    obtain ⟨w, hobserve, htracks⟩ := hfollowed.tracks.observe (elapsed_measures.self _)
      (heartbeatTimeout_pos c.beatRate) hpos (hmono d (by omega))
    rw [← Nat.add_assoc b d 1] at hobserve
    set p := c.pulse i (a + (b + d + 1)) with hp
    have hkept : p.heartbeat = ((c.pulse i (a + (b + d))).probe c.beatRate (c.moment a (b + d))).1.heartbeat :=
      (hl.stirred ht (show a ≤ a + (b + d) by omega) hk).heartbeat
    have hread : p.read.getD p.heartbeat.marker = c.seen i a (b + d + 1) := by
      rw [seen, hkept]
      exact congrArg p.read.getD hfollowed.tracks.marker_eq
    have hprobe := probe_of_observe p c.beatRate (c.moment a (b + d + 1)) (by rw [hread, hkept]; exact hobserve)
    have hwindow := window_iff hmono hfollowed.origin hfollowed.spared htracks
    have hdead : i ∈ c.kills (a + (b + d + 1)) ↔
        heartbeatTimeout c.beatRate ≤ elapsed w.unchangedSince (c.moment a (b + d + 1)) := by
      rw [hkills hk, hprobe, Bool.not_eq_false', decide_eq_true_iff]
    refine ⟨?_, hdead.trans hwindow⟩
    rw [hprobe]
    by_cases hlong : heartbeatTimeout c.beatRate ≤ elapsed w.unchangedSince (c.moment a (b + d + 1))
    · refine ⟨b + d + 1, 0, rfl, Or.inr (hdead.mpr hlong), fun m hm hm' => by omega, ?_⟩
      rw [decide_eq_true hlong]
      refine ⟨htracks.marker_eq, htracks.checked, ⟨0, le_rfl, rfl, Quiet.refl 0⟩, fun l hl' _ => ?_⟩
      rw [Nat.le_zero.mp hl']
      exact le_rfl
    · refine ⟨b, d + 1, rfl, hfollowed.origin, fun m hm hm' => ?_, ?_⟩
      · rcases Nat.lt_or_eq_of_le hm' with hlt | rfl
        · exact hfollowed.spared m hm (by omega)
        · exact fun hkilled => hlong (hdead.mp hkilled)
      · rw [decide_eq_false hlong]
        exact htracks

/-- The monitor kills a skeleton at a round if and only if a timeout has passed since an earlier round of timely ones,
with no kill in between, and no reading since then finds anything that its child has published. -/
theorem killed_iff (hc : c.Timed j) (ht : c.Ticks i j) (hl : c.Lives i a j) (haj : a ≤ j) :
    i ∈ c.kills j ↔ ∃ l, a ≤ l ∧ l < j ∧ (∀ k, l < k → k < j → i ∉ c.kills k) ∧
      (∀ k, l ≤ k → k < j → elapsed (c.now k) (c.now (k + 1)) ≤ heartbeatTimeout c.beatRate) ∧
      heartbeatTimeout c.beatRate ≤ elapsed (c.now l) (c.now j) ∧ c.Silent i a l j := by
  obtain ⟨n, rfl⟩ := Nat.exists_eq_add_of_le haj
  rw [(followed hc ht hl le_rfl).2]
  constructor
  · rintro ⟨l, hln, hwindow⟩
    refine ⟨a + l, by omega, by omega, fun k hlk hk => ?_, fun k hlk hk => ?_, hwindow.long, ?_⟩
    · obtain ⟨m, rfl⟩ := Nat.exists_eq_add_of_le (show a ≤ k by omega)
      exact hwindow.spared m (by omega) (by omega)
    · obtain ⟨m, rfl⟩ := Nat.exists_eq_add_of_le (show a ≤ k by omega)
      exact hwindow.timely m (by omega) (by omega)
    · exact (seen_eq_iff ht hl hln.le le_rfl).mp hwindow.same
  · rintro ⟨l, hal, hlj, hspared, htimely, hlong, hsilent⟩
    obtain ⟨l, rfl⟩ := Nat.exists_eq_add_of_le hal
    refine ⟨l, by omega, fun m hlm hm => hspared (a + m) (by omega) (by omega),
      fun m hlm hm => htimely (a + m) (by omega) (by omega), hlong, ?_⟩
    exact (seen_eq_iff ht hl (show l ≤ n by omega) le_rfl).mpr hsilent

end Vigil

section Samples

def quietChild : SkeletonID := ⟨7, 1⟩

/-- A child that publishes one marker, in rounds two seconds apart. The file cannot be read in the third. The clock of
the child is behind that of the loop. -/
def quietVigil : Vigil where
  beatRate := 1
  now k := 10 + 2 * k
  beats k :=
    if k = 0 then [(1, .spawn quietChild)]
    else if k = 1 then [(3, .writeBeat quietChild)]
    else if k = 3 then [(7, .fault quietChild false)]
    else if k = 4 then [(9, .fault quietChild true)]
    else []

lemma quietVigil_timed : quietVigil.Timed 4 where
  starts := by decide +kernel
  rounds := by decide +kernel

lemma quietVigil_writes {k n : ℕ} (h : (n, .writeBeat quietChild) ∈ quietVigil.beats k) : k = 1 ∧ n = 3 := by
  simp only [quietVigil] at h
  split_ifs at h <;> simp_all

lemma quietVigil_ticks : quietVigil.Ticks quietChild 4 where
  grows k l hkl _ n n' hn hn' := by
    obtain ⟨rfl, -⟩ := quietVigil_writes hn
    exact absurd (quietVigil_writes hn').1 hkl.ne'
  room k _ n hn := by
    obtain ⟨-, rfl⟩ := quietVigil_writes hn
    exact ⟨by norm_num, by norm_num⟩

lemma quietVigil_lives : quietVigil.Lives quietChild 0 4 where
  appears := ⟨{ file := List.replicate 8 0 }, rfl, rfl⟩
  stays := by
    intro k hk hk' n
    interval_cases k <;> simp [quietVigil]

lemma quietVigil_kills : quietChild ∈ quietVigil.kills 4 := by decide +kernel

theorem killed_iff_quiet : ∃ l, 0 ≤ l ∧ l < 4 ∧ (∀ k, l < k → k < 4 → quietChild ∉ quietVigil.kills k) ∧
    (∀ k, l ≤ k → k < 4 → elapsed (quietVigil.now k) (quietVigil.now (k + 1)) ≤
      heartbeatTimeout quietVigil.beatRate) ∧
    heartbeatTimeout quietVigil.beatRate ≤ elapsed (quietVigil.now l) (quietVigil.now 4) ∧
    quietVigil.Silent quietChild 0 l 4 :=
  (Vigil.killed_iff quietVigil_timed quietVigil_ticks quietVigil_lives (Nat.zero_le 4)).mp quietVigil_kills

example : quietVigil.kills 3 = [] := by decide +kernel

end Samples

end Reaper.Pool
