import Reaper.Pool.Hanging

/-! The capacity of a started pool, with the circuits that report a lasting fault. A lost child is
replaced by a scheduled recovery, unless too many children in a row were never ready: then recovery
stops, and after start nothing tells of it. -/

namespace Reaper.Pool

open Reaper.Library ReaperCore

def permanentSqlstateClasses : List String := ["28", "42"]

def permanentSqlstates : List String := ["42501"]

def transientSqlstateClasses : List String := ["08", "40", "53", "55", "57"]

def transientExceptionNames : List String :=
  ["ConnectionError", "ConnectionRefusedError", "ConnectionResetError", "OSError", "TimeoutError"]

def permanentServiceFault (code : String) : Bool :=
  permanentSqlstateClasses.any (fun c => code.startsWith c) || code ∈ permanentSqlstates

/-- The kind is a class name after its last dot. -/
def transientServiceFault (kind code : String) : Bool :=
  (kind.splitOn ".").getLast?.getD "" ∈ transientExceptionNames ||
    transientSqlstateClasses.any fun c => code.startsWith c

structure ServedPool where
  pool : SkeletonPool
  up : Bool := false
  serviceFailureRounds : ℕ := 3
  serviceFault : String := ""
  serviceFaultSlots : Finset ℤ := ∅
  serviceFaultRound : ℕ := 0
  failureEvent : Bool := false

inductive ServedAction
  | pool (a : SkeletonPool.Action)
  | started
  | healthy (identity : SkeletonID)
  | serviceFault (identity : SkeletonID) (kind code : String)
  | reapFault (drive : ℕ)
  deriving DecidableEq

namespace ServedPool

def clearServiceFaults (s : ServedPool) : ServedPool :=
  { s with serviceFault := "", serviceFaultSlots := ∅, serviceFaultRound := 0 }

def openCircuit (s : ServedPool) : ServedPool :=
  if s.failureEvent then s
  else { s with pool := { s.pool with startupError := true }, failureEvent := true }

def recordServiceFault (s : ServedPool) (i : SkeletonID) (kind code : String) : ServedPool :=
  let signature := kind ++ ":" ++ code
  if permanentServiceFault code then s.openCircuit
  else if transientServiceFault kind code then s
  else
    let t := if signature ≠ s.serviceFault then
        { s with serviceFault := signature, serviceFaultSlots := ∅, serviceFaultRound := 0 }
      else s
    let slots := insert i.gen t.serviceFaultSlots
    if slots.card < s.pool.core.target then { t with serviceFaultSlots := slots }
    else
      let round := t.serviceFaultRound + 1
      let u := { t with serviceFaultSlots := ∅, serviceFaultRound := round }
      if u.serviceFailureRounds ≤ round then u.openCircuit else u

def full (p : SkeletonPool) : Bool :=
  p.slots.entries.length = p.core.target && p.slots.values.all fun slot => slot.state = .idle

def step (s : ServedPool) : ServedAction → Option ServedPool
  | .pool a =>
    (s.pool.step a).map fun q =>
      match a with
      | .ready _ => { s with pool := q }.clearServiceFaults
      | _ => { s with pool := q }
  | .started =>
    if s.pool.started && full s.pool && s.pool.drives.all fun d => d.owner ≠ .starter then
      some { s with up := true }
    else none
  | .healthy i => if s.pool.reading i then some s.clearServiceFaults else none
  | .serviceFault i kind code =>
    if s.pool.reading i then some (s.recordServiceFault i kind code) else none
  | .reapFault k =>
    if (s.pool.drives[k]?).any fun d => d.pending.head?.any fun x => x.kind = .reap then
      (s.pool.step (.resume k none)).map fun q => { s with pool := q }.openCircuit
    else none

def run : ServedPool → List ServedAction → Option ServedPool
  | s, [] => some s
  | s, a :: as => (s.step a).bind fun s' => run s' as

end ServedPool

def SkeletonPool.awaits (p : SkeletonPool) (x : ControlEffect) : Bool :=
  x.kind = .reap && (p.slotFor x.identity).isSome

/-- The failures that a resumed drive reports: its spawn, and at its end the loss of a child that was
never ready. A drop is not the end where the child is reaped after it. -/
def SkeletonPool.reported (p : SkeletonPool) (d : Drive) (spawned : Option ℤ) : ℕ :=
  match d.pending with
  | [] => 0
  | x :: xs =>
    (if x.kind = .spawn ∧ spawned = none then 1 else 0) +
      if d.after = .scheduleRecovery true ∧ ¬ (x.kind = .drop ∧ xs.any p.awaits) then 1 else 0

def SkeletonPool.reports (p : SkeletonPool) : SkeletonPool.Action → ℕ
  | .resume k spawned => (p.drives[k]?).elim 0 fun d => p.reported d spawned
  | .eof i | .readerFault i =>
    if (p.slots.get i.fd).any (fun slot => slot.identity = i ∧ slot.state = .starting) ∧
      p.core.find (some i) = none then 1 else 0
  | _ => 0

def SkeletonPool.givesUp (p : SkeletonPool) (a : SkeletonPool.Action) : Bool :=
  p.reports a ≠ 0 ∧ maxPreReadyFailures ≤ p.preReadyFailures + p.reports a

namespace ServedPool

def perseveres (s : ServedPool) : ServedAction → Bool
  | .pool a => !s.up || s.failureEvent || !s.pool.givesUp a
  | _ => true

def along (f : ServedPool → ServedAction → Bool) : ServedPool → List ServedAction → Bool
  | _, [] => true
  | s, a :: as => f s a && (s.step a).all fun s' => along f s' as

end ServedPool

namespace ReaperCore

def total (c : ReaperCore) : ℕ := c.slots.entries.length + c.pendingSpawns.card

def Ends (e : ControlEvent) (g : ℤ) : Prop :=
  (e.kind = .spawned ∨ e.kind = .spawnFailed) ∧ e.gen = some g

def Thins (e : ControlEvent) : Prop := Loses e ∨ e.kind = .spawnFailed

def Refills (e : ControlEvent) : Prop := e.kind = .start ∨ e.kind = .recover ∨ e.kind = .spawned

structure Budget (c : ReaperCore) (e : ControlEvent) (c' : ReaperCore) (fx : List ControlEffect) :
    Prop where
  target : c'.target = c.target
  gens : ∀ g, g ∈ c'.pendingSpawns ↔ g ∈ c.pendingSpawns ∧ ¬ Ends e g ∨ g ∈ spawnGens fx
  under : c.total ≤ c.target → c'.total ≤ c.target
  full : c.total ≤ c.target → c.total = c.target ∧ ¬ Thins e ∨ Refills e → c'.total = c.target
  born : e.kind = .spawned → ∀ i, e.identity = some i → Live c' i

section Budget

variable {c c' : ReaperCore} {e : ControlEvent} {fx : List ControlEffect}

lemma Budget.same (ht : c'.target = c.target) (hp : c'.pendingSpawns = c.pendingSpawns)
    (hs : c'.slots.entries.length = c.slots.entries.length) (hg : spawnGens fx = []) (he : ∀ g, ¬ Ends e g) (hr : ¬ Refills e) : Budget c e c' fx := by
  have htotal : c'.total = c.total := by rw [total, total, hs, hp]
  refine ⟨ht, fun g => ?_, fun h => htotal ▸ h, fun _ h => ?_,
    fun hk => absurd (Or.inr (Or.inr hk)) hr⟩
  · rw [hp, hg]
    simp [he g]
  · rw [htotal]
    exact (h.resolve_right hr).1

lemma fillLoop_total (n : ℕ) (c : ReaperCore) (h : ∀ g ∈ c.pendingSpawns, g ≤ c.nextGen) :
    (fillLoop n c).1.target = c.target ∧ (fillLoop n c).1.total = c.total + n ∧
      ∀ g, g ∈ (fillLoop n c).1.pendingSpawns ↔
        g ∈ c.pendingSpawns ∨ g ∈ spawnGens (fillLoop n c).2 := by
  induction n generalizing c with
  | zero => exact ⟨rfl, rfl, fun g => by simp [fillLoop, spawnGens]⟩
  | succ n ih =>
    have hnew : c.nextGen + 1 ∉ c.pendingSpawns := fun hm => by
      have := h _ hm
      omega
    obtain ⟨ht, htotal, hg⟩ := ih { c with
      nextGen := c.nextGen + 1, pendingSpawns := insert (c.nextGen + 1) c.pendingSpawns } fun g hg => by
        rcases Finset.mem_insert.mp hg with rfl | hg
        · exact le_rfl
        · have := h g hg
          change g ≤ c.nextGen + 1
          omega
    refine ⟨ht, ?_, fun g => ?_⟩
    · rw [fillLoop]
      dsimp only
      rw [htotal, total, total, Finset.card_insert_of_notMem hnew]
      dsimp only
      omega
    · rw [fillLoop]
      dsimp only
      rw [hg]
      simp only [spawnGens, spawnedBy, List.filterMap_cons, if_true, List.mem_cons, Finset.mem_insert]
      tauto

lemma fill_total (c : ReaperCore) (ho : c.closing = false)
    (h : ∀ g ∈ c.pendingSpawns, g ≤ c.nextGen) :
    c.fill.1.target = c.target ∧ (c.total ≤ c.target → c.fill.1.total = c.target) ∧
      (∀ g, g ∈ c.fill.1.pendingSpawns ↔ g ∈ c.pendingSpawns ∨ g ∈ spawnGens c.fill.2) := by
  have hf : c.fill = fillLoop (c.target - c.total) c := by
    rw [fill, ho]
    rfl
  obtain ⟨ht, htotal, hg⟩ := fillLoop_total (c.target - c.total) c h
  rw [hf]
  exact ⟨ht, fun hle => by omega, hg⟩

lemma spawned_budget {i : SkeletonID} {g : ℤ} (ho : c.closing = false)
    (hp : ∀ g ∈ c.pendingSpawns, g ≤ c.nextGen) (hk : e.kind = .spawned)
    (hi : e.identity = some i) (hg : e.gen = some g) (hm : g ∈ c.pendingSpawns)
    (hf : c.slots.get i.fd = none) : Budget c e (c.spawned e).1 (c.spawned e).2 := by
  let d : ReaperCore := { c with
    pendingSpawns := c.pendingSpawns.erase g
    slots := c.slots.set i.fd { identity := i, state := .starting } }
  have hd : c.spawned e = d.fill := by
    rw [spawned, hg, hi]
    dsimp only
    rw [if_neg (not_not.mpr hm), if_neg (by simp [ho])]
  have htotal : d.total = c.total := by
    rw [total, total, Finset.card_erase_of_mem hm, Dict.length_set_new _ _ hf]
    have := Finset.card_pos.mpr ⟨g, hm⟩
    omega
  have hle : ∀ g' ∈ d.pendingSpawns, g' ≤ d.nextGen := fun g' hg' => hp g' (Finset.mem_of_mem_erase hg')
  obtain ⟨ht, hfull, hgens⟩ := fill_total d ho hle
  have hends : ∀ g', Ends e g' ↔ g' = g := by
    intro g'
    simp [Ends, hk, hg, eq_comm]
  rw [hd]
  refine ⟨ht, fun g' => ?_, fun h => (hfull (htotal ▸ h)).le, fun h _ => hfull (htotal ▸ h),
    fun _ j hj => ?_⟩
  · rw [hgens, hends]
    change g' ∈ c.pendingSpawns.erase g ∨ _ ↔ _
    rw [Finset.mem_erase, and_comm]
  · cases hi.symm.trans hj
    exact live_fill.mpr ⟨_, Dict.get_set_self _ _ _, rfl⟩

lemma lost_budget (hl : Loses e) : Budget c e (c.lost e).1 (c.lost e).2 := by
  have hends : ∀ g, ¬ Ends e g := by
    rintro g ⟨hk, -⟩
    rcases hl with hl | hl <;> simp [hl] at hk
  have hrefills : ¬ Refills e := by
    rcases hl with hl | hl <;> simp [Refills, hl]
  rw [lost]
  split
  · exact .same rfl rfl rfl rfl hends hrefills
  · rename_i slot hslot
    have hget := find_spec hslot
    have hlen := Dict.length_erase _ hget
    have hgens : spawnGens (discard slot.identity ++ slot.held.toList.map (failed .workerDied)) = [] := by
      rw [spawnGens_append, spawnGens_discard, (brief_failed _ _).spawnGens]
      rfl
    refine ⟨rfl, fun g => ?_, fun h => ?_, fun _ h => ?_,
      fun hk => absurd (Or.inr (Or.inr hk)) hrefills⟩
    · simp [hends g, hgens]
    · rw [total] at h ⊢
      dsimp only
      omega
    · rcases h with ⟨-, hn⟩ | hr
      · exact absurd (Or.inl hl) hn
      · exact absurd hr hrefills

structure Expected (c : ReaperCore) (e : ControlEvent) : Prop where
  opened : c.closing = false
  gens : ∀ g ∈ c.pendingSpawns, g ≤ c.nextGen
  notClose : e.kind ≠ .close
  spawned : e.kind = .spawned → ∃ i g, e.identity = some i ∧ e.gen = some g ∧
    g ∈ c.pendingSpawns ∧ c.slots.get i.fd = none
  failed : e.kind = .spawnFailed → ∃ g, e.gen = some g ∧ g ∈ c.pendingSpawns

lemma handle_budget (h : Expected c e) : Budget c e (c.handle e).1 (c.handle e).2 := by
  have hset : ∀ {slot new : ControlSlot} {fx : List ControlEffect},
      c.slots.get slot.identity.fd = some slot → spawnGens fx = [] →
      (∀ g, ¬ Ends e g) → ¬ Refills e →
      Budget c e { c with slots := c.slots.set slot.identity.fd new } fx :=
    fun hg hs he hr => .same rfl rfl (Dict.length_set _ _ hg) hs he hr
  have hrefl : (∀ g, ¬ Ends e g) → ¬ Refills e → Budget c e c [] :=
    fun he hr => .same rfl rfl rfl rfl he hr
  rw [handle]
  cases hk : e.kind with
  | start | recover =>
    obtain ⟨ht, hfull, hgens⟩ := fill_total c h.opened h.gens
    refine ⟨ht, fun g => ?_, fun hle => (hfull hle).le, fun hle _ => hfull hle,
      fun hs => (by rw [hk] at hs; cases hs)⟩
    rw [hgens]
    simp [Ends, hk]
  | spawned =>
    obtain ⟨i, g, hi, hg, hm, hf⟩ := h.spawned hk
    exact spawned_budget h.opened h.gens hk hi hg hm hf
  | spawnFailed =>
    obtain ⟨g, hg, hm⟩ := h.failed hk
    have hends : ∀ g', Ends e g' ↔ g' = g := fun g' => by simp [Ends, hk, hg, eq_comm]
    simp only [ReaperCore.spawnFailed, hg]
    have hcard := Finset.card_erase_of_mem hm
    refine ⟨rfl, fun g' => ?_, fun hle => ?_, fun _ hh => ?_,
      fun hs => (by rw [hk] at hs; cases hs)⟩
    · simp [hends, and_comm, spawnGens]
    · rw [total] at hle ⊢
      dsimp only
      omega
    · rcases hh with ⟨-, hn⟩ | hr
      · exact absurd (Or.inr hk) hn
      · simp [Refills, hk] at hr
  | eof => exact lost_budget (Or.inl hk)
  | sendFailed => exact lost_budget (Or.inr hk)
  | close => exact absurd hk h.notClose
  | ready =>
    have he : ∀ g, ¬ Ends e g := fun g => by simp [Ends, hk]
    have hr : ¬ Refills e := by simp [Refills, hk]
    simp only [ready]
    split
    · exact hrefl he hr
    · rename_i slot hslot
      split_ifs
      · exact hrefl he hr
      · exact hset (find_spec hslot) rfl he hr
  | result =>
    have he : ∀ g, ¬ Ends e g := fun g => by simp [Ends, hk]
    have hr : ¬ Refills e := by simp [Refills, hk]
    simp only [result]
    split
    · exact hrefl he hr
    · rename_i slot hslot
      split_ifs
      · exact hrefl he hr
      · exact hrefl he hr
      · exact hset (find_spec hslot) rfl he hr
      · exact hset (find_spec hslot) rfl he hr
  | submit =>
    have he : ∀ g, ¬ Ends e g := fun g => by simp [Ends, hk]
    have hr : ¬ Refills e := by simp [Refills, hk]
    simp only [submit]
    split
    · exact hrefl he hr
    · split_ifs
      · exact hrefl he hr
      · exact hrefl he hr
      · exact .same rfl rfl rfl rfl he hr
  | deadline =>
    have he : ∀ g, ¬ Ends e g := fun g => by simp [Ends, hk]
    have hr : ¬ Refills e := by simp [Refills, hk]
    simp only [deadline, h.opened]
    exact hrefl he hr

lemma apply_budget (h : Expected c e) : Budget c e (c.apply e).1 (c.apply e).2 := by
  obtain ⟨ht, hgens, hunder, hfull, hborn⟩ := handle_budget h
  obtain ⟨ht', -, hp', -, hl'⟩ := (dispatch_handsOut (c.handle e).1).frame
  have hb := (dispatch_slots (c.handle e).1).2.2
  have htotal : (c.handle e).1.dispatch.1.total = (c.handle e).1.total := by
    rw [total, total, hl', hp']
  refine ⟨ht'.trans ht, fun g => ?_, fun hle => htotal ▸ hunder hle,
    fun hle hh => htotal.trans (hfull hle hh), fun hk i hi => dispatch_live (hborn hk i hi)⟩
  change g ∈ (c.handle e).1.dispatch.1.pendingSpawns ↔
    _ ∨ g ∈ spawnGens ((c.handle e).2 ++ (c.handle e).1.dispatch.2)
  rw [hp', hgens, spawnGens_append, hb.spawnGens, List.append_nil]

lemma Expected.releases (h : Expected c e) : Releases c e (c.apply e).1 (c.apply e).2 := by
  refine apply_releases c e fun hk i hi _ => ?_
  obtain ⟨j, g, hj, -, -, hf⟩ := h.spawned hk
  cases hi.symm.trans hj
  exact hf

end Budget

end ReaperCore

namespace SkeletonPool

def Recovers (p : SkeletonPool) (after : After) : Prop :=
  after ≠ .nothing ∨ ∃ d ∈ p.drives, d.after ≠ .nothing

def Letting (p : SkeletonPool) (after : After) (xs : List ControlEffect) (i : SkeletonID) : Prop :=
  after ≠ .nothing ∧ Drops i xs ∨ ∃ d ∈ p.drives, d.after ≠ .nothing ∧ Drops i d.pending

structure Roster (p : SkeletonPool) (after : After) (xs : List ControlEffect) : Prop where
  gens : ∀ g, g ∈ p.core.pendingSpawns ↔ g ∈ spawnGens (p.inPlay xs)
  under : p.core.total ≤ p.core.target
  slots : ∀ fd i, p.ids fd = some i → Live p.core i ∨ p.Letting after xs i

def Staffed (p : SkeletonPool) (after : After) : Prop :=
  p.core.total = p.core.target ∨ p.recoveryTask = true ∨ p.Recovers after

structure Manned (sunk : Prop) (p : SkeletonPool) (after : After) (xs : List ControlEffect) :
    Prop extends Roster p after xs where
  staffed : ¬ sunk → p.Staffed after

section Manned

variable {sunk : Prop} {p q : SkeletonPool} {after after' : After} {x : ControlEffect}
  {xs ys : List ControlEffect} {owner : Owner} {e : ControlEvent}

lemma Manned.regroup (h : Manned sunk p after xs) (hc : q.core = p.core)
    (hg : ∀ g, g ∈ spawnGens (q.inPlay ys) ↔ g ∈ spawnGens (p.inPlay xs))
    (hi : ∀ fd i, q.ids fd = some i → p.ids fd = some i)
    (hl : ∀ fd i, q.ids fd = some i → p.Letting after xs i → q.Letting after' ys i)
    (hr : p.recoveryTask = true → q.recoveryTask = true)
    (hv : ¬ sunk → p.Recovers after → q.recoveryTask = true ∨ q.Recovers after') :
    Manned sunk q after' ys := by
  refine ⟨⟨fun g => ?_, ?_, fun fd i hid => ?_⟩, fun hs => ?_⟩
  · rw [hc, hg]
    exact h.gens g
  · rw [hc]
    exact h.under
  · rw [hc]
    exact (h.slots fd i (hi fd i hid)).imp_right (hl fd i hid)
  · rw [Staffed, hc]
    rcases h.staffed hs with ht | ht | ht
    · exact Or.inl ht
    · exact Or.inr (Or.inl (hr ht))
    · exact Or.inr (hv hs ht)

lemma letting_congr (hd : q.drives = p.drives) (i : SkeletonID) :
    q.Letting after xs i ↔ p.Letting after xs i := by rw [Letting, Letting, hd]

lemma recovers_congr (hd : q.drives = p.drives) : q.Recovers after ↔ p.Recovers after := by
  rw [Recovers, Recovers, hd]

lemma Manned.frame (h : Manned sunk p after xs) (hc : q.core = p.core) (hd : q.drives = p.drives)
    (hi : q.ids = p.ids) (hr : p.recoveryTask = true → q.recoveryTask = true) :
    Manned sunk q after xs := by
  refine h.regroup hc (fun g => by rw [inPlay, inPlay, hd]) (fun fd i hid => hi ▸ hid)
    (fun fd i _ => (letting_congr hd i).mpr) hr fun _ hv => Or.inr ((recovers_congr hd).mpr hv)

lemma Manned.sync (h : Manned sunk p after xs) : Manned sunk p.syncSlots after xs :=
  h.frame rfl rfl (ids_syncSlots p) fun hr => hr

lemma drops_cons (i : SkeletonID) :
    Drops i (x :: xs) ↔ x.kind = .drop ∧ x.identity = some i ∨ Drops i xs := by
  simp only [Drops, List.mem_cons, or_and_right, exists_or, exists_eq_left]

lemma Manned.tail (h : Manned sunk p after (x :: xs)) (hk : x.kind ≠ .spawn)
    (hd : x.kind = .drop → ∀ i fd, x.identity = some i → p.ids fd ≠ some i) :
    Manned sunk p after xs := by
  refine h.regroup rfl (fun g => ?_) (fun _ _ hid => hid) (fun fd i hid hl => ?_) (fun hr => hr)
    fun _ hv => Or.inr hv
  · rw [inPlay, inPlay, List.cons_append, spawnGens, spawnGens, List.filterMap_cons, spawnedBy,
      if_neg hk]
  · rcases hl with ⟨ha, hdr⟩ | hl
    · rcases (drops_cons i).mp hdr with ⟨hkd, hx⟩ | hdr
      · exact absurd hid (hd hkd i fd hx)
      · exact Or.inl ⟨ha, hdr⟩
    · exact Or.inr hl

lemma Manned.park (h : Manned sunk p after xs) (owner : Owner) :
    Manned sunk (p.park owner after xs) .nothing [] := by
  have hnew : { owner := owner, pending := xs, after := after } ∈ (p.park owner after xs).drives :=
    List.mem_append_right _ List.mem_cons_self
  have hold : ∀ d ∈ p.drives, d ∈ (p.park owner after xs).drives := fun d hd =>
    List.mem_append_left _ hd
  refine h.regroup rfl (fun g => ?_) (fun _ _ hid => hid) (fun fd i _ hl => Or.inr ?_) (fun hr => hr)
    fun _ hv => Or.inr (Or.inr ?_)
  · exact ((park_inPlay p owner after xs).filterMap spawnedBy).mem_iff
  · rcases hl with ⟨ha, hdr⟩ | ⟨d, hd, hl⟩
    · exact ⟨_, hnew, ha, hdr⟩
    · exact ⟨d, hold d hd, hl⟩
  · rcases hv with ha | ⟨d, hd, ha⟩
    · exact ⟨_, hnew, ha⟩
    · exact ⟨d, hold d hd, ha⟩

def Bears (sunk : Prop) (p : SkeletonPool) (after : After) : Prop :=
  sunk ∨ after ≠ .scheduleRecovery true ∨ p.preReadyFailures + 1 < maxPreReadyFailures

def Stays (p : SkeletonPool) (xs : List ControlEffect) : Prop := ∃ y ∈ xs, p.awaits y = true

lemma awaits_of {i : SkeletonID} (hk : x.kind = .reap) (hx : x.identity = some i) :
    p.awaits x = true ↔ p.ids i.fd = some i ∨ (p.retiredSlots.get i).isSome = true := by
  rw [awaits, hk, hx, slotFor, ids]
  cases hs : p.slots.get i.fd with
  | none => simp
  | some slot =>
    by_cases hi : slot.identity = i <;> simp [hi, Option.filter]

lemma Stays.keep (h : Stays p xs) (hk : Keeps p q) : Stays q xs := by
  obtain ⟨y, hy, ha⟩ := h
  refine ⟨y, hy, ?_⟩
  have hkind : y.kind = .reap := by
    rw [awaits, Bool.and_eq_true, decide_eq_true_eq] at ha
    exact ha.1
  cases hi : y.identity with
  | none => simp [awaits, hi, slotFor] at ha
  | some i =>
    rw [awaits_of hkind hi] at ha ⊢
    exact hk i ha

lemma Stays.tail (h : Stays p (x :: xs)) (hk : x.kind ≠ .reap) : Stays p xs := by
  obtain ⟨y, hy, ha⟩ := h
  rcases List.mem_cons.mp hy with rfl | hy
  · simp [awaits, hk] at ha
  · exact ⟨y, hy, ha⟩

def Takes (sunk : Prop) (p : SkeletonPool) (n : ℕ) : Prop :=
  sunk ∨ (n ≠ 0 → p.preReadyFailures + n < maxPreReadyFailures)

lemma scheduleRecovery_sets {b : Bool} (ho : p.closing = false)
    (hb : b = true → p.preReadyFailures + 1 < maxPreReadyFailures) :
    (p.scheduleRecovery b).recoveryTask = true := by
  rw [scheduleRecovery, if_neg (by simp [ho])]
  cases b with
  | false => rfl
  | true =>
    dsimp only
    rw [if_pos rfl, if_neg (by have := hb rfl; omega)]

lemma finish_task (p : SkeletonPool) (owner : Owner) (b : Bool) :
    (p.finish owner (.scheduleRecovery b)).recoveryTask = (p.scheduleRecovery b).recoveryTask := by
  cases owner <;> rfl

lemma Manned.finish (h : Manned sunk p after []) (ho : p.closing = false)
    (hb : Bears sunk p after) : Manned sunk (p.finish owner after) .nothing [] := by
  have hlet : ∀ {r : SkeletonPool}, r.drives = p.drives → ∀ i, p.Letting after [] i →
      r.Letting .nothing [] i := by
    intro r hd i hl
    rcases hl with ⟨-, x, hx, -⟩ | hl
    · cases hx
    · exact Or.inr (hd ▸ hl)
  cases after with
  | nothing => exact h
  | scheduleRecovery b =>
    obtain ⟨hc, hd, hi, -⟩ := finish_frame p owner (.scheduleRecovery b)
    have hr := finish_task p owner b
    have hset : ¬ sunk → (p.finish owner (.scheduleRecovery b)).recoveryTask = true := by
      intro hs
      rw [hr]
      refine scheduleRecovery_sets ho fun hbt => ?_
      rcases hb with hb | hb | hb
      · exact absurd hb hs
      · exact absurd (congrArg After.scheduleRecovery hbt) hb
      · exact hb
    refine ⟨⟨fun g => ?_, ?_, fun fd i hid => ?_⟩, fun hs => Or.inr (Or.inl (hset hs))⟩
    · rw [hc, inPlay, hd]
      exact h.gens g
    · rw [hc]
      exact h.under
    · rw [hi] at hid
      rw [hc]
      exact (h.slots fd i hid).imp_right (hlet hd i)

lemma ids_of_slotFor_none (hs : Sound p xs) {i : SkeletonID} (h : p.slotFor (some i) = none) (fd : ℤ) :
    p.ids fd ≠ some i := by
  intro hid
  have hfd := hs.keyed fd i hid
  subst hfd
  obtain ⟨slot, hslot, rfl⟩ := Option.map_eq_some_iff.mp hid
  simp [slotFor, hslot, Option.filter] at h

lemma Manned.dropped {forgot : Prop} {i : SkeletonID} {slot : Slot} (hinv : Inv forgot p (x :: xs))
    (h : Manned sunk p after (x :: xs)) (hk : x.kind = .drop) (hi : x.identity = some i)
    (hslot : slot.identity = i) : Inv forgot (p.drop slot) xs ∧ Manned sunk (p.drop slot) after xs := by
  obtain ⟨hdropped, hgone⟩ := hinv.drop hk hi hslot
  have hm : Manned sunk (p.drop slot) after (x :: xs) :=
    h.regroup rfl (fun g => Iff.rfl) (fun fd j hid => drop_ids p slot hid) (fun _ j _ hl => hl)
      (fun hr => hr) fun _ hv => Or.inr hv
  refine ⟨hdropped, hm.tail (by simp [hk]) fun _ j fd hx hid => ?_⟩
  cases hi.symm.trans hx
  exact hgone (hinv.sound.keyed fd i (drop_ids p slot hid) ▸ hid)

lemma Manned.drive (hinv : Inv True p xs) (h : Manned sunk p after xs) (ho : p.closing = false)
    (hb : Stays p xs ∨ Bears sunk p after) :
    Manned sunk (SkeletonPool.drive owner after xs p) .nothing [] := by
  let P : SkeletonPool → List ControlEffect → Prop := fun p xs =>
    Inv True p xs ∧ Manned sunk p after xs ∧ p.closing = false ∧ (Stays p xs ∨ Bears sunk p after)
  -- the rest still ends with a child reaped where it did before
  have hrest : ∀ {p q : SkeletonPool} {x : ControlEffect} {xs : List ControlEffect},
      Stays p (x :: xs) ∨ Bears sunk p after → x.kind ≠ .reap → Keeps p q →
      q.preReadyFailures = p.preReadyFailures → Stays q.syncSlots xs ∨ Bears sunk q.syncSlots after := by
    intro p q x xs hb hk hkeep hcount
    refine hb.imp (fun hs => (hs.tail hk).keep (hkeep.trans (sync_keeps q))) ?_
    exact Or.imp_right (Or.imp_right fun hlt => hcount.symm ▸ hlt)
  have hrule : DriveRule owner after P (fun p => Manned sunk p .nothing []) := {
    idle := fun {p x xs} ⟨hinv, h, ho, hb⟩ hi => by
      refine ⟨(hinv.tail hi.settledBy).sync, (h.tail ?_ fun hk i fd hx => ?_).sync, ho, ?_⟩
      · rcases hi with hk | hk | hk | hk | ⟨hk | hk, -⟩ <;> simp [hk]
      · have hnone : p.slotFor x.identity = none := by
          rcases hi with hk' | hk' | hk' | hk' | ⟨-, hnone⟩
          all_goals first | exact hnone | simp [hk] at hk'
        exact ids_of_slotFor_none hinv.sound (hx ▸ hnone) fd
      · refine hb.imp (fun ⟨y, hy, ha⟩ => ?_) id
        rcases List.mem_cons.mp hy with rfl | hy
        · rcases hi with hk | hk | hk | hk | ⟨-, hnone⟩
          · simp [awaits, hk] at ha
          · simp [awaits, hk] at ha
          · simp [awaits, hk] at ha
          · simp [awaits, hk] at ha
          · simp [awaits, hnone] at ha
        · exact Stays.keep ⟨y, hy, ha⟩ (sync_keeps p)
    send := fun ⟨hinv, h, ho, hb⟩ hk => by
      have ht := hinv.tail (by simp [settledBy, hk])
      have hm := h.tail (by simp [hk]) (by simp [hk])
      exact ⟨Inv.sync (ht.frame rfl rfl rfl ht.sound.retired rfl rfl rfl rfl rfl rfl),
        Manned.sync (hm.frame rfl rfl rfl fun hr => hr), ho,
        hrest hb (by simp [hk]) (.of_eq rfl rfl) rfl⟩
    settle := fun {p x xs f} ⟨hinv, h, ho, hb⟩ hk hf => by
      obtain ⟨hc, hd, hi, -, hr, hcl, -, hcount⟩ := settle_frame p (x.job.getD "") f
      have hkind : x.kind ≠ .spawn ∧ x.kind ≠ .drop ∧ x.kind ≠ .reap := by
        rcases hk with hk | hk <;> simp [hk]
      have ht := h.tail hkind.1 fun hk => absurd hk hkind.2.1
      exact ⟨(hinv.settle hk hf).sync, (ht.frame hc hd hi fun htask => hr.trans htask).sync, hcl.trans ho,
        hrest hb hkind.2.2 (settle_keeps p _ f) hcount⟩
    drop := fun {p x xs slot} ⟨hinv, h, ho, hb⟩ hk hs => by
      obtain ⟨hdropped, hm⟩ := h.dropped hinv hk (slotFor_named hinv.sound.retired hs) rfl
      exact ⟨hdropped.sync, hm.sync, ho, hrest hb (by simp [hk]) (drop_keeps p slot) rfl⟩
    cancel := fun {p x xs slot} ⟨hinv, h, _, _⟩ hk hs _ => by
      have hd := cancelReader_drives hinv.sound hk (slotFor_named hinv.sound.retired hs)
      have hm : Manned sunk (p.cancelReader slot.identity) after (x :: xs) :=
        h.frame rfl hd rfl fun hr => hr
      exact hm.park owner
    wait := fun ⟨_, h, _, _⟩ _ => h.park owner
    finish := fun ⟨_, h, ho, hb⟩ => h.sync.finish ho (hb.resolve_left fun ⟨_, hy, _⟩ => by cases hy) }
  exact hrule.drive ⟨hinv, h, ho, hb⟩

lemma Manned.event (hunder : p.core.total ≤ p.core.target)
    (hslots : ∀ fd i, p.ids fd = some i → Live p.core i ∨ p.Letting after xs i)
    (hx : Expected p.core e)
    (hgens : ∀ g, g ∈ p.core.pendingSpawns ∧ ¬ Ends e g ↔ g ∈ spawnGens (p.inPlay xs))
    (hc : q.core = (p.core.apply e).1) (hd : q.drives = p.drives)
    (hi : ∀ fd i, q.ids fd = some i → p.ids fd = some i ∨ Live q.core i)
    (ha : after ≠ .nothing → after' ≠ .nothing) (hl : Loses e → after' ≠ .nothing)
    (hst : ¬ sunk → p.Staffed after ∧ ¬ Thins e ∧ q.recoveryTask = p.recoveryTask ∨ Refills e ∨
      after' ≠ .nothing ∨ q.recoveryTask = true) :
    Manned sunk q after' (xs ++ (p.core.apply e).2) := by
  obtain ⟨ht, hg, hu, hfull, -⟩ := apply_budget hx
  refine ⟨⟨fun g => ?_, ?_, fun fd i hid => ?_⟩, fun hs => ?_⟩
  · have hperm : (q.inPlay (xs ++ (p.core.apply e).2)).Perm (p.inPlay xs ++ (p.core.apply e).2) := by
      rw [inPlay, hd]
      exact inPlay_append p xs _
    rw [hc, hg, hgens, ← List.mem_append, ← spawnGens_append]
    exact ((hperm.filterMap spawnedBy).mem_iff).symm
  · rw [hc, ht]
    exact hu hunder
  · rcases hi fd i hid with hid | hlive
    · rcases hslots fd i hid with hlive | hlet
      · rw [hc]
        refine (hx.releases.kept i hlive).imp_right ?_
        rintro ⟨hloses, hdr⟩
        exact Or.inl ⟨hl hloses, drops_append.mpr (Or.inr hdr)⟩
      · refine Or.inr ?_
        rcases hlet with ⟨hne, hdr⟩ | ⟨d, hm, hlet⟩
        · exact Or.inl ⟨ha hne, drops_append.mpr (Or.inl hdr)⟩
        · exact Or.inr ⟨d, hd ▸ hm, hlet⟩
    · exact Or.inl hlive
  · rw [Staffed, hc, ht]
    rcases hst hs with ⟨hstaffed, hthin, hr⟩ | hrefill | hne | hr
    · rcases hstaffed with htot | htask | hrec
      · exact Or.inl (hfull hunder (Or.inl ⟨htot, hthin⟩))
      · exact Or.inr (Or.inl (hr.trans htask))
      · refine Or.inr (Or.inr ?_)
        rcases hrec with hne | ⟨d, hm, hne⟩
        · exact Or.inl (ha hne)
        · exact Or.inr ⟨d, hd ▸ hm, hne⟩
    · exact Or.inl (hfull hunder (Or.inr hrefill))
    · exact Or.inr (Or.inr (Or.inl hne))
    · exact Or.inr (Or.inl hr)

lemma Manned.expects (hs : Sound p xs) (h : Manned sunk p after xs) (ho : p.closing = false)
    (hk : e.kind ≠ .spawned ∧ e.kind ≠ .spawnFailed ∧ e.kind ≠ .close) : Expected p.core e :=
  ⟨core_open hs ho, fun g hg => (hs.fresh g ((h.gens g).mp hg)).1, hk.2.2,
    fun hh => absurd hh hk.1, fun hh => absurd hh hk.2.1⟩

lemma Manned.apply {r : SkeletonPool} (hinv : Inv True q (p.core.apply e).2) (hs : Sound p [])
    (h : Manned sunk p .nothing []) (ho : q.closing = false) (hcl : p.closing = false)
    (hk : e.kind ≠ .spawned ∧ e.kind ≠ .spawnFailed ∧ e.kind ≠ .close)
    (hc : q.core = (p.core.apply e).1) (hd : q.drives = p.drives) (hi : q.ids = p.ids)
    (hl : Loses e → after ≠ .nothing) (hr : q.recoveryTask = p.recoveryTask ∨ Refills e)
    (hb : Bears sunk q after) (hrun : r = SkeletonPool.drive owner after (p.core.apply e).2 q) :
    Manned sunk r .nothing [] := by
  have hends : ∀ g, ¬ Ends e g := fun g hg => by
    rcases hg.1 with hg | hg
    · exact hk.1 hg
    · exact hk.2.1 hg
  have hevent : Manned sunk q after ([] ++ (p.core.apply e).2) := by
    refine Manned.event h.under h.slots (h.expects hs hcl hk) (fun g => ?_) hc hd
      (fun fd i hid => Or.inl (hi ▸ hid)) (fun hn => absurd rfl hn) hl fun hsunk => ?_
    · rw [← h.gens]
      exact and_iff_left (hends g)
    · rcases hr with hr | hr
      · by_cases hthin : Thins e
        · exact Or.inr (Or.inr (Or.inl (hl (hthin.resolve_right hk.2.1))))
        · exact Or.inl ⟨h.staffed hsunk, hthin, hr⟩
      · exact Or.inr (Or.inl hr)
  rw [hrun]
  exact Manned.drive hinv hevent ho (Or.inr hb)

lemma Manned.driveLost {i : SkeletonID} (hs : Sound p (discard i ++ xs))
    (h : Manned sunk p after (discard i ++ xs)) (hid : p.ids i.fd = some i)
    (howner : i ∉ p.readers ∨ owner = .reader i) :
    Manned sunk (SkeletonPool.drive owner after (discard i ++ xs) p) .nothing [] := by
  obtain ⟨slot, hslot, hident⟩ := Option.map_eq_some_iff.mp hid
  have hfor : p.slotFor (some i) = some slot := by simp [slotFor, hslot, hident, Option.filter]
  set r := (p.drop slot).syncSlots.syncSlots.syncSlots with hr
  have hnowait : ¬ (slot.identity ∈ p.readers ∧ owner ≠ .reader slot.identity) := by
    rw [hident]
    rintro ⟨hm, hne⟩
    exact howner.elim (fun hn => hn hm) hne
  have hgone : ∀ fd, (p.drop slot).ids fd ≠ some i := by
    intro fd hfd
    have hfd' := hs.keyed fd i (drop_ids p slot hfd)
    subst hfd'
    rw [ids, SkeletonPool.drop, hident, hslot] at hfd
    dsimp only at hfd
    rw [if_pos hident, Dict.get_erase_self] at hfd
    cases hfd
  have hdropped : Manned sunk (p.drop slot) after (discard i ++ xs) :=
    h.regroup rfl (fun g => Iff.rfl) (fun fd j hj => drop_ids p slot hj) (fun _ j _ hl => hl)
      (fun ht => ht) fun _ hv => Or.inr hv
  have hm : Manned sunk r after ({ kind := .reap, identity := some i } :: xs) := by
    have h₁ := (hdropped.tail (by simp) fun _ j fd hj hfd => hgone fd (by cases hj; exact hfd)).sync
    exact ((h₁.tail (by simp) (by simp)).sync.tail (by simp) (by simp)).sync
  have hretired : (r.slotFor (some i)).isSome = true := by
    rw [slotFor]
    split
    · rfl
    · change ((p.retiredSlots.set slot.identity { slot with state := .dead }).get i).isSome = true
      rw [hident, Dict.get_set_self]
      rfl
  have hrun : SkeletonPool.drive owner after (discard i ++ xs) p =
      r.park owner after ({ kind := .reap, identity := some i } :: xs) := by
    obtain ⟨s, hfound⟩ := Option.isSome_iff_exists.mp hretired
    rw [ReaperCore.discard, List.cons_append, List.cons_append, List.cons_append, List.cons_append]
    simp only [SkeletonPool.drive, hfor, hnowait, if_false, List.nil_append]
    rw [← hr, hfound]
  rw [hrun]
  exact hm.park owner

lemma Manned.lose {i : SkeletonID} (hinv : Inv True p []) (h : Manned sunk p .nothing [])
    (ho : p.closing = false) (howner : i ∉ p.readers ∨ owner = .reader i)
    (hb : Takes sunk p (p.reports (.eof i))) : Manned sunk (p.lose owner i) .nothing [] := by
  rw [SkeletonPool.lose]
  split
  · exact h
  · rename_i slot hslot
    obtain ⟨hget, hident⟩ := Option.filter_eq_some_iff.mp hslot
    let e : ControlEvent := { kind := .eof, identity := some i }
    let after : After := .scheduleRecovery (slot.state = .starting)
    have hafter : after ≠ .nothing := by simp [after]
    have hloses : Loses e := Or.inl rfl
    have hkind : e.kind ≠ .spawned ∧ e.kind ≠ .spawnFailed ∧ e.kind ≠ .close := by simp [e]
    have hreduced := hinv.event hkind.1 (by simp [e]) fun hclose => absurd hclose hkind.2.2
    change Manned sunk (SkeletonPool.drive owner after (p.core.apply e).2
      { p with core := (p.core.apply e).1 }) .nothing []
    cases hfind : p.core.find (some i) with
    | none =>
      refine Manned.apply hreduced hinv.sound h ho ho hkind rfl rfl rfl (fun _ => hafter) (Or.inl rfl)
        ?_ rfl
      by_cases hstart : slot.state = .starting
      · have hone : p.reports (.eof i) = 1 := by
          rw [reports, hget]
          simp [of_decide_eq_true hident, hstart, hfind]
        rw [hone] at hb
        exact hb.imp_right fun hlt => Or.inr (hlt one_ne_zero)
      · exact Or.inr (Or.inl (by simp [after, hstart]))
    | some s =>
      obtain ⟨rest, hfx, -⟩ := apply_found p.core e hloses rfl hfind
      have hevent : Manned sunk { p with core := (p.core.apply e).1 } after
          ([] ++ (p.core.apply e).2) := by
        refine Manned.event h.under h.slots (h.expects hinv.sound ho hkind) (fun g => ?_) rfl rfl
          (fun fd j hid => Or.inl hid) (fun hn => absurd rfl hn) (fun _ => hafter)
          fun _ => Or.inr (Or.inr (Or.inl hafter))
        rw [← h.gens]
        exact and_iff_left fun hg => by rcases hg.1 with hg | hg <;> cases hg
      rw [List.nil_append, hfx] at hevent
      rw [hfx] at hreduced ⊢
      refine hevent.driveLost hreduced.sound ?_ howner
      change p.ids i.fd = some i
      rw [ids, hget, Option.map_some, of_decide_eq_true hident]

lemma Manned.unpark (h : Manned sunk p .nothing []) {k : ℕ} {d : Drive} (hd : p.drives[k]? = some d) :
    Manned sunk { p with drives := p.drives.eraseIdx k } d.after d.pending := by
  have hplay : ({ p with drives := p.drives.eraseIdx k }.inPlay d.pending).Perm (p.inPlay []) :=
    unpark_inPlay hd
  have hmem (d' : Drive) (hd' : d' ∈ p.drives) : d' = d ∨ d' ∈ p.drives.eraseIdx k := by
    obtain ⟨hk, rfl⟩ := List.getElem?_eq_some_iff.mp hd
    exact List.mem_cons.mp ((List.getElem_cons_eraseIdx_perm hk).mem_iff.mpr hd')
  refine h.regroup rfl (fun g => (hplay.filterMap spawnedBy).mem_iff) (fun _ _ hid => hid)
    (fun fd i _ hl => ?_) (fun hr => hr) fun _ hv => Or.inr ?_
  · obtain ⟨hn, -⟩ | ⟨d', hd', hne, hdr⟩ := hl
    · exact absurd rfl hn
    · rcases hmem d' hd' with rfl | hm
      · exact Or.inl ⟨hne, hdr⟩
      · exact Or.inr ⟨d', hm, hne, hdr⟩
  · obtain hn | ⟨d', hd', hne⟩ := hv
    · exact absurd rfl hn
    · rcases hmem d' hd' with rfl | hm
      · exact Or.inl hne
      · exact Or.inr ⟨d', hm, hne⟩

lemma Manned.spawned {gen fd : ℤ} (hs : Sound p (x :: xs)) (h : Manned sunk p after (x :: xs))
    (ho : p.closing = false) (hk : x.kind = .spawn) (hg : x.gen = some gen)
    (hfd : p.slots.get fd = none) :
    let e : ControlEvent := { kind := .spawned, identity := some ⟨fd, gen⟩, gen := some gen }
    Manned sunk { p with
      core := (p.core.apply e).1
      slots := p.slots.set fd { identity := ⟨fd, gen⟩ }
      readers := p.readers ++ [⟨fd, gen⟩] } after (xs ++ (p.core.apply e).2) := by
  intro e
  have hgx : spawnGens (p.inPlay (x :: xs)) = gen :: spawnGens (p.inPlay xs) := by
    simp [spawnGens, inPlay, spawnedBy, hk, hg]
  have hnodup := hs.gens
  rw [hgx, List.nodup_cons] at hnodup
  have hgens : ∀ g, g ∈ p.core.pendingSpawns ↔ g = gen ∨ g ∈ spawnGens (p.inPlay xs) := fun g => by
    rw [h.gens, hgx, List.mem_cons]
  have hopen := core_open hs ho
  have hx : Expected p.core e :=
    ⟨hopen, fun g hm => (hs.fresh g ((h.gens g).mp hm)).1, by simp [e],
      fun _ => ⟨⟨fd, gen⟩, gen, rfl, rfl, (hgens gen).mpr (Or.inl rfl), hs.free hopen hfd⟩, by simp [e]⟩
  refine Manned.event h.under (fun j i hid => ?_) hx (fun g => ?_) rfl rfl (fun j i hid => ?_)
    (fun hn => hn) (fun hl => by rcases hl with hl | hl <;> cases hl) fun _ =>
      Or.inr (Or.inl (Or.inr (Or.inr rfl)))
  · refine (h.slots j i hid).imp_right (Or.imp_left (And.imp_right fun hdr => ?_))
    rcases (drops_cons i).mp hdr with ⟨hkd, -⟩ | hdr
    · rw [hk] at hkd
      cases hkd
    · exact hdr
  · have hends : Ends e g ↔ g = gen := by simp [Ends, e, eq_comm]
    rw [hgens, hends]
    constructor
    · rintro ⟨hm, hne⟩
      exact hm.resolve_left hne
    · intro hm
      exact ⟨Or.inr hm, fun heq => hnodup.1 (heq ▸ hm)⟩
  · rw [ids] at hid
    dsimp only at hid
    rw [Dict.get_set] at hid
    split_ifs at hid with hj
    · cases hid
      exact Or.inr ((apply_budget hx).born rfl _ rfl)
    · exact Or.inl hid

lemma Manned.spawnFailed {gen : ℤ} (hs : Sound p (x :: xs)) (h : Manned sunk p after (x :: xs))
    (ho : p.closing = false) (hk : x.kind = .spawn) (hg : x.gen = some gen)
    (hb : sunk ∨ p.preReadyFailures + 1 < maxPreReadyFailures) :
    let e : ControlEvent := { kind := .spawnFailed, gen := some gen }
    Manned sunk ({ p with core := (p.core.apply e).1 }.scheduleRecovery true) after
      (xs ++ (p.core.apply e).2) := by
  intro e
  have hgx : spawnGens (p.inPlay (x :: xs)) = gen :: spawnGens (p.inPlay xs) := by
    simp [spawnGens, inPlay, spawnedBy, hk, hg]
  have hnodup := hs.gens
  rw [hgx, List.nodup_cons] at hnodup
  have hgens : ∀ g, g ∈ p.core.pendingSpawns ↔ g = gen ∨ g ∈ spawnGens (p.inPlay xs) := fun g => by
    rw [h.gens, hgx, List.mem_cons]
  have hx : Expected p.core e :=
    ⟨core_open hs ho, fun g hm => (hs.fresh g ((h.gens g).mp hm)).1, by simp [e], by simp [e],
      fun _ => ⟨gen, rfl, (hgens gen).mpr (Or.inl rfl)⟩⟩
  obtain ⟨hc, hd, hi, -⟩ := scheduleRecovery_frame { p with core := (p.core.apply e).1 } true
  refine Manned.event h.under (fun j i hid => ?_) hx (fun g => ?_) hc hd
    (fun j i hid => Or.inl (hi ▸ hid)) (fun hn => hn)
    (fun hl => by rcases hl with hl | hl <;> cases hl) fun hsunk => ?_
  · refine (h.slots j i hid).imp_right (Or.imp_left (And.imp_right fun hdr => ?_))
    rcases (drops_cons i).mp hdr with ⟨hkd, -⟩ | hdr
    · rw [hk] at hkd
      cases hkd
    · exact hdr
  · have hends : Ends e g ↔ g = gen := by simp [Ends, e, eq_comm]
    rw [hgens, hends]
    constructor
    · rintro ⟨hm, hne⟩
      exact hm.resolve_left hne
    · intro hm
      exact ⟨Or.inr hm, fun heq => hnodup.1 (heq ▸ hm)⟩
  · exact Or.inr (Or.inr (Or.inr (scheduleRecovery_sets ho fun _ => hb.resolve_left hsunk)))

lemma scheduleRecovery_count (p : SkeletonPool) (ho : p.closing = false) :
    (p.scheduleRecovery true).preReadyFailures = p.preReadyFailures + 1 := by
  rw [scheduleRecovery, if_neg (by simp [ho])]
  dsimp only
  rw [if_pos rfl]
  split_ifs <;> rfl

lemma Manned.resume {d : Drive} {spawned : Option ℤ} (hinv : Inv True p d.pending)
    (h : Manned sunk p d.after d.pending) (ho : p.closing = false)
    (hb : Takes sunk p (p.reported d spawned)) (hq : p.resume d spawned = some q) :
    Manned sunk q .nothing [] := by
  have hend : ∀ {x xs} n, d.pending = x :: xs → (if x.kind = .spawn ∧ spawned = none then 1 else 0) = n →
      ¬ (x.kind = .drop ∧ xs.any p.awaits) → ∀ r : SkeletonPool,
      r.preReadyFailures = p.preReadyFailures + n → Bears sunk r d.after := by
    intro x xs n hx hn hdrop r hr
    by_cases ha : d.after = .scheduleRecovery true
    · rw [reported, hx] at hb
      dsimp only at hb
      rw [hn, if_pos ⟨ha, hdrop⟩] at hb
      refine hb.imp_right fun hlt => Or.inr ?_
      have := hlt (by omega)
      omega
    · exact Or.inr (Or.inl ha)
  -- a drop that ends with its child reaped reports nothing yet
  have hrest : ∀ {x xs}, d.pending = x :: xs → x.kind = .drop → ∀ r : SkeletonPool, Keeps p r →
      r.preReadyFailures = p.preReadyFailures → Stays r xs ∨ Bears sunk r d.after := by
    intro x xs hx hk r hkeep hr
    by_cases hany : xs.any p.awaits = true
    · exact Or.inl (Stays.keep (List.any_eq_true.mp hany) hkeep)
    · exact Or.inr (hend 0 hx (by simp [hk]) (by simp [hany]) r hr)
  cases resumed hq with
  | spawned hx hk hg hfd =>
    have hbears := hend 0 hx (by simp) (by simp [hk])
    rw [hx] at h hinv
    exact Manned.drive (hinv.spawned hk hg hfd).sync (h.spawned hinv.sound ho hk hg hfd).sync ho
      (Or.inr (hbears _ rfl))
  | spawnFailed hx hk hg =>
    have hbears := hend 1 hx (by simp [hk]) (by simp [hk])
    have hone : sunk ∨ p.preReadyFailures + 1 < maxPreReadyFailures := by
      rw [reported, hx] at hb
      dsimp only at hb
      rw [if_pos ⟨hk, rfl⟩] at hb
      refine hb.imp_right fun hlt => ?_
      have := hlt (by omega)
      omega
    rw [hx] at h hinv
    refine Manned.drive (hinv.spawnFailed hk) (h.spawnFailed hinv.sound ho hk hg hone) ?_
      (Or.inr (hbears _ (scheduleRecovery_count _ ho)))
    exact (scheduleRecovery_frame _ true).2.2.2.2.1.trans ho
  | gone hx hk hnone =>
    have hend := hrest hx hk _ (sync_keeps p) rfl
    rw [hx] at h hinv
    refine Manned.drive (hinv.tail (by simp [settledBy, hk])).sync
      (h.tail (by simp [hk]) fun _ i fd hi => ?_).sync ho hend
    rw [hi] at hnone
    exact ids_of_slotFor_none hinv.sound hnone fd
  | dropped hx hk hs =>
    rename_i slot
    have hend := hrest hx hk _ ((drop_keeps p slot).trans (sync_keeps _)) rfl
    rw [hx] at h hinv
    obtain ⟨hdropped, hm⟩ := h.dropped hinv hk (slotFor_named hinv.sound.retired hs) rfl
    exact Manned.drive hdropped.sync hm.sync ho hend
  | reaped hx hk hi =>
    rename_i x xs i
    have hbears := hend 0 hx (by simp [hk]) (by simp [hk])
    rw [hx] at h hinv
    have hm : Manned sunk { p with retiredSlots := p.retiredSlots.erase i } d.after xs :=
      (h.tail (by simp [hk]) (by simp [hk])).frame rfl rfl rfl fun hr => hr
    exact Manned.drive (hinv.reaped hk i).sync hm.sync ho (Or.inr (hbears _ rfl))

lemma drive_closing (owner : Owner) (after : After) (xs : List ControlEffect) (p : SkeletonPool) :
    (SkeletonPool.drive owner after xs p).closing = p.closing := (drive_frame owner after xs p).2.1

lemma lose_closing (p : SkeletonPool) (owner : Owner) (i : SkeletonID) :
    (p.lose owner i).closing = p.closing := by
  rw [SkeletonPool.lose]
  split
  · rfl
  · exact drive_closing _ _ _ _

lemma step_closing {a : Action} (hq : p.step a = some q) (ho : q.closing = false) : p.closing = false := by
  refine Bool.eq_false_iff.mpr fun hp => Bool.eq_false_iff.mp ho ?_
  cases stepped hq with
  | quiet _ same _ => exact same.closing.trans hp
  | cancelFuture _ => exact hp
  | submit submitted =>
    simp only [SkeletonPool.submit, Option.ite_none_left_eq_some, Option.some_inj] at submitted
    rw [← submitted.2]
    exact (drive_closing _ _ _ _).trans hp
  | event _ routes => exact (drive_closing _ _ _ _).trans (routes.same.closing.trans hp)
  | eof _ => exact (lose_closing _ _ _).trans hp
  | readerFault _ => exact (lose_closing _ _ _).trans hp
  | resume _ hr =>
    cases resumed hr with
    | spawnFailed => exact (drive_closing _ _ _ _).trans ((scheduleRecovery_frame _ true).2.2.2.2.1.trans hp)
    | _ => exact (drive_closing _ _ _ _).trans hp
  | close _ => rfl
  | closeNext moved =>
    rw [SkeletonPool.closeNext] at moved
    split_ifs at moved
    split at moved <;> cases moved
    · exact (drive_closing _ _ _ _).trans hp
    · exact (drive_closing _ _ _ _).trans hp
    · exact (drive_closing _ _ _ _).trans hp
    · exact hp

lemma Manned.step {a : Action} (hinv : Inv True p []) (h : Manned sunk p .nothing [])
    (hb : Takes sunk p (p.reports a)) (hq : p.step a = some q) (ho : q.closing = false) :
    Manned sunk q .nothing [] := by
  have hcl := step_closing hq ho
  cases stepped hq with
  | quiet _ same task => exact h.frame same.core same.drives same.ids fun hr => task.trans hr
  | cancelFuture _ => exact h.frame rfl rfl rfl fun hr => hr
  | submit submitted =>
    rename_i token lazy
    have henlist := hinv.enlist (core_opened hinv submitted) token
    simp only [SkeletonPool.submit, Option.ite_none_left_eq_some, Option.some_inj] at submitted
    have hcalm : ∀ r : SkeletonPool, Bears sunk r .nothing := fun _ => Or.inr (Or.inl (by simp))
    exact Manned.apply henlist hinv.sound h hcl hcl (by simp) rfl rfl rfl (by simp [Loses])
      (Or.inl rfl) (hcalm _) submitted.2.symm
  | event _ routes =>
    rename_i r owner after e _
    have hreduced := (hinv.same routes.same).event routes.notSpawned.1 routes.notSubmit
      fun hc => absurd hc routes.notClose
    have hrun : r.apply owner after e = SkeletonPool.drive owner after (p.core.apply e).2
        { r with core := (p.core.apply e).1 } := by
      rw [SkeletonPool.apply, routes.same.core]
    rw [routes.same.core] at hreduced
    exact Manned.apply hreduced hinv.sound h (routes.same.closing.trans hcl) hcl
      ⟨routes.notSpawned.1, routes.notSpawned.2, routes.notClose⟩ rfl routes.same.drives routes.same.ids
      routes.loses (routes.task.imp_right fun ht => ht.imp_right Or.inl) (Or.inr (Or.inl routes.calm)) hrun
  | eof _ => exact Manned.lose hinv h hcl (Or.inr rfl) hb
  | readerFault _ =>
    refine Manned.lose (hinv.same ?_) (h.frame rfl rfl rfl fun hr => hr) hcl (Or.inl (by simp)) hb
    exact ⟨rfl, rfl, rfl, rfl, rfl, rfl, rfl, rfl, rfl, rfl⟩
  | resume parked hr =>
    rw [reports, parked] at hb
    exact (h.unpark parked).resume (hinv.unpark parked) hcl hb hr
  | close _ => cases ho
  | closeNext moved =>
    -- the teardown begins with closing the pool
    have htask : p.closeTask = none := by
      by_contra hne
      rw [hinv.sound.flagged (Or.inr hne)] at hcl
      cases hcl
    simp [SkeletonPool.closeNext, htask] at moved

lemma Manned.new (target : ℕ) (hs : sunk) : Manned sunk (new target) .nothing [] := by
  refine ⟨⟨fun g => ?_, Nat.zero_le _, fun fd i hid => (by cases hid)⟩, fun hn => absurd hs hn⟩
  constructor
  · intro hg
    cases hg
  · intro hg
    cases hg

lemma Manned.mono {sunk' : Prop} (h : Manned sunk p after xs) (hs : sunk → sunk') :
    Manned sunk' p after xs := ⟨h.toRoster, fun hn => h.staffed fun hk => hn (hs hk)⟩

lemma slots_length (hs : Sound p xs) (ho : p.closing = false)
    (hl : ∀ fd i, p.ids fd = some i → Live p.core i) :
    p.slots.entries.length = p.core.slots.entries.length := by
  refine Dict.length_congr fun fd => ?_
  cases hslot : p.slots.get fd with
  | none =>
    rw [hs.free (core_open hs ho) hslot]
    rfl
  | some slot =>
    have hid : p.ids fd = some slot.identity := by rw [ids, hslot, Option.map_some]
    obtain ⟨cs, hcs, -⟩ := hl fd _ hid
    rw [hs.keyed fd _ hid] at hcs
    rw [hcs]
    rfl

lemma Roster.full (h : Roster p .nothing []) (hs : Sound p []) (ho : p.closing = false)
    (hfull : p.slots.entries.length = p.core.target) : p.Staffed .nothing := by
  by_cases hr : p.Recovers .nothing
  · exact Or.inr (Or.inr hr)
  · refine Or.inl (le_antisymm h.under ?_)
    rw [← hfull, total, slots_length hs ho fun fd i hid => ?_]
    · omega
    · refine (h.slots fd i hid).resolve_right ?_
      rintro (⟨hn, -⟩ | ⟨d, hd, hn, -⟩)
      · exact hn rfl
      · exact hr (Or.inr ⟨d, hd, hn⟩)

def live (p : SkeletonPool) : ℕ :=
  (p.slots.values.filter fun slot => (p.core.find (some slot.identity)).isSome).length

lemma Manned.quiet (h : Manned sunk p .nothing []) (hs : Sound p []) (ho : p.closing = false)
    (hd : p.drives = []) (hn : ¬ sunk) : p.live = p.core.target ∨ p.recoveryTask = true := by
  have hlive : ∀ fd i, p.ids fd = some i → Live p.core i := by
    intro fd i hid
    refine (h.slots fd i hid).resolve_right ?_
    rintro (⟨hne, -⟩ | ⟨d, hm, -⟩)
    · exact hne rfl
    · rw [hd] at hm
      cases hm
  have hspawns : p.core.pendingSpawns = ∅ := by
    refine Finset.eq_empty_of_forall_notMem fun g hg => ?_
    rw [h.gens, inPlay, hd] at hg
    cases hg
  have hall : p.live = p.core.slots.entries.length := by
    rw [live, List.filter_eq_self.mpr fun slot hslot => ?_]
    · rw [← slots_length hs ho hlive, Dict.values, List.length_map]
    · obtain ⟨fd, hget⟩ := (Dict.mem_values _ _).mp hslot
      have hid : p.ids fd = some slot.identity := by rw [ids, hget, Option.map_some]
      obtain ⟨cs, hcs, hident⟩ := hlive fd _ hid
      simp [find, hcs, hident, Option.filter]
  rcases h.staffed hn with ht | ht | hr
  · refine Or.inl ?_
    rw [total, hspawns, Finset.card_empty] at ht
    exact hall.trans ht
  · exact Or.inr ht
  · obtain hne | ⟨d, hm, -⟩ := hr
    · exact absurd rfl hne
    · rw [hd] at hm
      cases hm

end Manned

end SkeletonPool

namespace ServedPool

open SkeletonPool

structure Served (s : ServedPool) : Prop where
  inv : Inv True s.pool []
  manned : s.pool.closing = false → Manned (s.up = false ∨ s.failureEvent = true) s.pool .nothing []

section Served

variable {s t : ServedPool}

lemma Served.frame (h : Served s) (hc : t.pool = { s.pool with startupError := t.pool.startupError })
    (hs : s.up = false ∨ s.failureEvent = true → t.up = false ∨ t.failureEvent = true) : Served t := by
  refine ⟨?_, fun ho => ?_⟩
  · rw [hc]
    exact h.inv.frame rfl rfl rfl h.inv.sound.retired rfl rfl rfl rfl rfl rfl
  · rw [hc] at ho ⊢
    exact ((h.manned ho).mono hs).frame rfl rfl rfl fun hr => hr

lemma Served.openCircuit (h : Served s) : Served s.openCircuit := by
  rw [ServedPool.openCircuit]
  split_ifs
  · exact h
  · exact h.frame rfl fun _ => Or.inr rfl

lemma Served.recordServiceFault (h : Served s) (i : SkeletonID) (kind code : String) :
    Served (s.recordServiceFault i kind code) := by
  rw [ServedPool.recordServiceFault]
  dsimp only
  split_ifs
  · exact h.openCircuit
  · exact h
  all_goals
    first
    | exact h.frame rfl fun hs => hs
    | exact Served.openCircuit (h.frame rfl fun hs => hs)

lemma Served.advance {a : SkeletonPool.Action} {q : SkeletonPool} (h : Served s)
    (hb : s.up = false ∨ s.failureEvent = true ∨ s.pool.givesUp a = false) (hq : s.pool.step a = some q) :
    Served { s with pool := q } := by
  refine ⟨h.inv.step (fun hn => absurd trivial hn) hq, fun ho => ?_⟩
  refine (h.manned (step_closing hq ho)).step h.inv ?_ hq ho
  rcases hb with hb | hb | hb
  · exact Or.inl (Or.inl hb)
  · exact Or.inl (Or.inr hb)
  · refine Or.inr fun hn => ?_
    rw [givesUp, decide_eq_false_iff_not, not_and, not_le] at hb
    exact hb hn

lemma Served.step {a : ServedAction} (h : Served s) (hb : s.perseveres a = true)
    (hq : s.step a = some t) : Served t := by
  cases a with
  | pool a =>
    obtain ⟨q, hstep, rfl⟩ := Option.map_eq_some_iff.mp hq
    have hadv : Served { s with pool := q } := by
      refine h.advance ?_ hstep
      simpa [perseveres, or_assoc] using hb
    cases a with
    | ready i => exact hadv.frame rfl fun hs => hs
    | _ => exact hadv
  | started =>
    simp only [ServedPool.step, Option.ite_none_right_eq_some, Option.some_inj, Bool.and_eq_true] at hq
    obtain ⟨⟨⟨-, hfull⟩, -⟩, rfl⟩ := hq
    rw [full, Bool.and_eq_true, decide_eq_true_eq] at hfull
    exact ⟨h.inv, fun ho => ⟨(h.manned ho).toRoster, fun _ =>
      (h.manned ho).toRoster.full h.inv.sound ho hfull.1⟩⟩
  | healthy i =>
    simp only [ServedPool.step, Option.ite_none_right_eq_some, Option.some_inj] at hq
    rw [← hq.2]
    exact h.frame rfl fun hs => hs
  | serviceFault i kind code =>
    simp only [ServedPool.step, Option.ite_none_right_eq_some, Option.some_inj] at hq
    rw [← hq.2]
    exact h.recordServiceFault i kind code
  | reapFault k =>
    simp only [ServedPool.step, Option.ite_none_right_eq_some] at hq
    obtain ⟨q, hstep, rfl⟩ := Option.map_eq_some_iff.mp hq.2
    -- the circuit that opens covers what the drive gives up
    have hopen : Served { s with failureEvent := true } := h.frame rfl fun _ => Or.inr rfl
    have hadv := hopen.advance (Or.inr (Or.inl rfl)) hstep
    refine hadv.frame ?_ fun _ => Or.inr ?_
    · rw [ServedPool.openCircuit]
      split_ifs <;> rfl
    · rw [ServedPool.openCircuit]
      split_ifs with hf
      · exact hf
      · rfl

lemma Served.run (as : List ServedAction) (h : Served s) (hb : along perseveres s as = true)
    (hq : s.run as = some t) : Served t := by
  induction as generalizing s with
  | nil =>
    cases hq
    exact h
  | cons a as ih =>
    obtain ⟨r, hr, hq⟩ := Option.bind_eq_some_iff.mp hq
    rw [along, Bool.and_eq_true, hr] at hb
    exact ih (h.step hb.1 hr) hb.2 hq

end Served

/-- After start, and before close, a pool at rest has all its slots, or recovery is scheduled, or a
circuit is open, unless it has given up on a child that was never ready. -/
theorem started_pool_keeps_capacity (target : ℕ) (as : List ServedAction) (s : ServedPool)
    (hq : ServedPool.run { pool := new target } as = some s)
    (hb : along perseveres { pool := new target } as = true) (hup : s.up = true)
    (ho : s.pool.closing = false) (hd : s.pool.drives = []) :
    s.pool.live = s.pool.core.target ∨ s.pool.recoveryTask = true ∨ s.failureEvent = true := by
  have hnew : Served { pool := new target } := ⟨.new target, fun _ => .new target (Or.inl rfl)⟩
  have h := hnew.run as hb hq
  by_cases hf : s.failureEvent = true
  · exact Or.inr (Or.inr hf)
  · have hquiet := (h.manned ho).quiet h.inv.sound ho hd fun hs => hs.elim (fun hu => by
      rw [hup] at hu
      cases hu) hf
    exact hquiet.imp_right Or.inl

def recoveredRun : List ServedAction :=
  [.pool .start, .pool (.resume 0 (some 7)), .pool (.ready ⟨7, 1⟩), .started, .pool (.eof ⟨7, 1⟩),
    .pool (.resume 0 none), .pool .recover, .pool (.resume 0 (some 8)), .pool (.ready ⟨8, 2⟩)]

theorem started_pool_keeps_capacity_recovered :
    ∃ s, ServedPool.run { pool := new 1 } recoveredRun = some s ∧
      (s.pool.live = s.pool.core.target ∨ s.pool.recoveryTask = true ∨ s.failureEvent = true) :=
  ⟨_, rfl, started_pool_keeps_capacity 1 recoveredRun _ rfl (by decide +kernel) rfl rfl rfl⟩

/-- A child is lost after start, and five spawns in a row fail. -/
def givenUpRun : List ServedAction :=
  [.pool .start, .pool (.resume 0 (some 7)), .pool (.ready ⟨7, 1⟩), .started, .pool (.eof ⟨7, 1⟩),
    .pool (.resume 0 none)] ++
    (List.replicate 5 [.pool .recover, .pool (.resume 0 none)]).flatten

theorem capacity_given_up :
    ∃ s, ServedPool.run { pool := new 1 } givenUpRun = some s ∧ s.up = true ∧
      s.pool.closing = false ∧ s.pool.drives = [] ∧
      ¬ (s.pool.live = s.pool.core.target ∨ s.pool.recoveryTask = true ∨ s.failureEvent = true) := by
  refine ⟨_, rfl, ?_⟩
  decide +kernel

end ServedPool

end Reaper.Pool
