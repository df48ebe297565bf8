import Reaper.Pool.Framing

/-! Senders that share one socket: a lock orders their frames, and a cancelled sender lets go of it. -/

namespace Reaper.Pool

open Reaper.Library Receiver

inductive WriterPhase
  | idle
  | failed
  | waiting
  | holding (written : ℕ)
  | done
  | cancelled (written : ℕ)
  deriving DecidableEq

inductive WriterAction
  | call (i : ℕ)
  | acquire (i : ℕ)
  | write (i k : ℕ)
  | finish (i : ℕ)
  | cancel (i : ℕ)
  deriving DecidableEq

/-- The socket and the calls on it; `order` is that in which they got the lock. -/
structure Stream where
  phase : ℕ → WriterPhase := fun _ => .idle
  holder : Option ℕ := none
  written : List UInt8 := []
  order : List ℕ := []

namespace Stream

variable {V : Type} (p : Pickle V) (value : ℕ → V)

def frame (i : ℕ) : List UInt8 := (encodeMessage p (value i)).getD []

def move (s : Stream) (i : ℕ) (phase : WriterPhase) : Stream := { s with phase := Function.update s.phase i phase }

/-- The lock is taken by any sender that waits, and `sendall` may write as little as one byte at a time. -/
def step (s : Stream) : WriterAction → Option Stream
  | .call i =>
    if s.phase i ≠ .idle then none
    else some (s.move i (if (encodeMessage p (value i)).isSome then .waiting else .failed))
  | .acquire i =>
    if s.phase i = .waiting ∧ s.holder = none then
      some { s.move i (.holding 0) with holder := some i, order := s.order ++ [i] }
    else none
  | .write i k =>
    match s.phase i with
    | .holding n =>
      if 0 < k ∧ n + k ≤ (frame p value i).length then
        some { s.move i (.holding (n + k)) with written := s.written ++ ((frame p value i).drop n).take k }
      else none
    | _ => none
  | .finish i =>
    if s.phase i = .holding (frame p value i).length then some { s.move i .done with holder := none }
    else none
  | .cancel i =>
    match s.phase i with
    | .waiting => some (s.move i (.cancelled 0))
    | .holding n => some { s.move i (.cancelled n) with holder := none }
    | _ => none

def run : Stream → List WriterAction → Option Stream
  | s, [] => some s
  | s, a :: as => (s.step p value a).bind fun s' => run s' as

def Torn (s : Stream) : Prop :=
  ∃ i ∈ s.order, ∃ n < (frame p value i).length, 0 < n ∧ s.phase i = .cancelled n

def Clean (s : Stream) : WriterAction → Prop
  | .write _ _ => ¬ Torn p value s
  | _ => True

def CleanRun : Stream → List WriterAction → Prop
  | _, [] => True
  | s, a :: as => Clean p value s a ∧ ∀ s' ∈ s.step p value a, CleanRun s' as

structure Intact (s : Stream) : Prop where
  once : s.order.Nodup
  stream : ∃ (kept : List ℕ) (cut : List UInt8), kept.Sublist s.order ∧
    s.written = kept.flatMap (frame p value) ++ cut ∧
    (cut = [] ∨ ∃ i ∈ s.order, cut <+: frame p value i ∧ cut.length < (frame p value i).length) ∧
    ∀ r : Receiver, Lets r → r.unread = s.written → ∀ calls, readMessages p calls r =
      ((kept.map value).take calls).map Reading.message ++ List.replicate (calls - kept.length) .nothing

def bytesIn (length : ℕ) : WriterPhase → ℕ
  | .holding n => n
  | .done => length
  | .cancelled n => n
  | _ => 0

def wrote (s : Stream) (i : ℕ) : ℕ := bytesIn (frame p value i).length (s.phase i)

structure Inv (s : Stream) : Prop where
  once : s.order.Nodup
  entered : ∀ i ∈ s.order, s.phase i ≠ .idle ∧ s.phase i ≠ .failed ∧ s.phase i ≠ .waiting
  last : ∀ i n, s.phase i = .holding n → s.order.getLast? = some i ∧ s.holder = some i
  bound : ∀ i, wrote p value s i ≤ (frame p value i).length
  encodes : ∀ i, s.phase i ≠ .idle → s.phase i ≠ .failed → (encodeMessage p (value i)).isSome
  stream : s.written = s.order.flatMap fun i => (frame p value i).take (wrote p value s i)
  parts : s.order.Pairwise fun i j =>
    0 < wrote p value s i → wrote p value s i < (frame p value i).length → wrote p value s j = 0

variable {p value} {s s' : Stream}

lemma Inv.init : Inv p value {} where
  once := List.nodup_nil
  entered := by simp
  last := by simp
  bound := fun i => Nat.zero_le _
  encodes := fun i h => absurd rfl h
  stream := rfl
  parts := List.Pairwise.nil

lemma wrote_move (s : Stream) (i : ℕ) (phase : WriterPhase) (j : ℕ) :
    wrote p value (s.move i phase) j =
      if j = i then bytesIn (frame p value i).length phase else wrote p value s j := by
  by_cases hj : j = i
  · subst hj
    simp [wrote, move]
  · simp [wrote, move, hj]

lemma move_phase (s : Stream) (i : ℕ) (phase : WriterPhase) (j : ℕ) :
    (s.move i phase).phase j = if j = i then phase else s.phase j := by
  by_cases hj : j = i
  · subst hj
    simp [move]
  · simp [move, hj]

lemma Inv.alone (h : Inv p value s) {i j n k : ℕ} (hi : s.phase i = .holding n) (hj : s.phase j = .holding k) :
    i = j :=
  Option.some.inj ((h.last i n hi).2.symm.trans (h.last j k hj).2)

lemma Inv.moved (h : Inv p value s) {i : ℕ} {phase : WriterPhase} {holder : Option ℕ}
    (hbytes : bytesIn (frame p value i).length phase = wrote p value s i)
    (hfree : ∀ n, phase ≠ .holding n)
    (hentered : i ∈ s.order → phase ≠ .idle ∧ phase ≠ .failed ∧ phase ≠ .waiting)
    (hencodes : phase ≠ .idle → phase ≠ .failed → (encodeMessage p (value i)).isSome)
    (hholder : ∀ j n, j ≠ i → s.phase j = .holding n → holder = some j) :
    Inv p value { s.move i phase with holder := holder } := by
  have hwrote : ∀ j, wrote p value { s.move i phase with holder := holder } j = wrote p value s j := by
    intro j
    change wrote p value (s.move i phase) j = _
    rw [wrote_move]
    split_ifs with hj
    · rw [hj, hbytes]
    · rfl
  refine ⟨h.once, fun j hj => ?_, fun j n hj => ?_, fun j => by rw [hwrote]; exact h.bound j,
    fun j hidle hfailed => ?_, ?_, ?_⟩
  · simp only [move_phase]
    split_ifs with hji
    · exact hentered (hji ▸ hj)
    · exact h.entered j hj
  · simp only [move_phase] at hj
    split_ifs at hj with hji
    · exact absurd hj (hfree n)
    · exact ⟨(h.last j n hj).1, hholder j n hji hj⟩
  · simp only [move_phase] at hidle hfailed
    split_ifs at hidle hfailed with hji
    · exact hji ▸ hencodes hidle hfailed
    · exact h.encodes j hidle hfailed
  · simp only [hwrote]
    exact h.stream
  · simp only [hwrote]
    exact h.parts

lemma Inv.acquire (h : Inv p value s) {i : ℕ} (hwait : s.phase i = .waiting) (hlock : s.holder = none) :
    Inv p value { s.move i (.holding 0) with holder := some i, order := s.order ++ [i] } := by
  have hzero : wrote p value s i = 0 := by rw [wrote, hwait]; rfl
  have hwrote : ∀ j, wrote p value { s.move i (.holding 0) with holder := some i, order := s.order ++ [i] } j =
      wrote p value s j := by
    intro j
    change wrote p value (s.move i (.holding 0)) j = _
    rw [wrote_move]
    split_ifs with hj
    · rw [hj, hzero]
      rfl
    · rfl
  have hnew : i ∉ s.order := fun hi => (h.entered i hi).2.2 hwait
  have hnone : ∀ j n, s.phase j ≠ .holding n := fun j n hj => by
    cases hlock.symm.trans (h.last j n hj).2
  refine ⟨?_, fun j hj => ?_, fun j n hj => ?_, fun j => by rw [hwrote]; exact h.bound j,
    fun j hidle hfailed => ?_, ?_, ?_⟩
  · exact List.nodup_append.mpr ⟨h.once, List.nodup_singleton i, fun a ha b hb hab =>
      hnew (List.mem_singleton.mp hb ▸ hab ▸ ha)⟩
  · simp only [move_phase]
    split_ifs with hji
    · simp
    · rcases List.mem_append.mp hj with hj | hj
      · exact h.entered j hj
      · exact absurd (List.mem_singleton.mp hj) hji
  · simp only [move_phase] at hj
    split_ifs at hj with hji
    · exact ⟨by simp [hji], by rw [hji]⟩
    · exact absurd hj (hnone j n)
  · simp only [move_phase] at hidle hfailed
    split_ifs at hidle hfailed with hji
    · exact h.encodes j (by rw [hji, hwait]; simp) (by rw [hji, hwait]; simp)
    · exact h.encodes j hidle hfailed
  · simp only [hwrote, List.flatMap_append, List.flatMap_singleton, hzero, List.take_zero, List.append_nil]
    exact h.stream
  · simp only [hwrote]
    refine List.pairwise_append.mpr ⟨h.parts, List.pairwise_singleton _ _, fun a _ b hb _ _ => ?_⟩
    rw [List.mem_singleton.mp hb, hzero]

lemma Inv.write (h : Inv p value s) (hclean : ¬ Torn p value s) {i n k : ℕ} (hhold : s.phase i = .holding n)
    (hroom : n + k ≤ (frame p value i).length) :
    Inv p value { s.move i (.holding (n + k)) with
      written := s.written ++ ((frame p value i).drop n).take k } := by
  obtain ⟨hlast, hholder⟩ := h.last i n hhold
  obtain ⟨before, horder⟩ := List.getLast?_eq_some_iff.mp hlast
  have hnodup := h.once
  rw [horder] at hnodup
  have hnew : i ∉ before := fun hi =>
    (List.nodup_append.mp hnodup).2.2 i hi i (List.mem_singleton_self i) rfl
  have hwrote : ∀ j, wrote p value { s.move i (.holding (n + k)) with
      written := s.written ++ ((frame p value i).drop n).take k } j =
        if j = i then n + k else wrote p value s j := wrote_move s i _
  have hold : wrote p value s i = n := by rw [wrote, hhold]; rfl
  have hbefore : ∀ j ∈ before, wrote p value { s.move i (.holding (n + k)) with
      written := s.written ++ ((frame p value i).drop n).take k } j = wrote p value s j := by
    intro j hj
    have hne : j ≠ i := fun hji => hnew (hji ▸ hj)
    rw [hwrote, if_neg hne]
  refine ⟨h.once, fun j hj => ?_, fun j m hj => ?_, fun j => ?_, fun j hidle hfailed => ?_, ?_, ?_⟩
  · simp only [move_phase]
    split_ifs with hji
    · simp
    · exact h.entered j hj
  · simp only [move_phase] at hj
    split_ifs at hj with hji
    · exact ⟨hji ▸ hlast, hji ▸ hholder⟩
    · exact h.last j m hj
  · rw [hwrote]
    split_ifs with hji
    · exact hji ▸ hroom
    · exact h.bound j
  · simp only [move_phase] at hidle hfailed
    split_ifs at hidle hfailed with hji
    · exact h.encodes j (by rw [hji, hhold]; simp) (by rw [hji, hhold]; simp)
    · exact h.encodes j hidle hfailed
  · have hstream := h.stream
    have hpieces := List.flatMap_congr fun j hj => congrArg (fun n => (frame p value j).take n) (hbefore j hj)
    rw [horder, List.flatMap_append, List.flatMap_singleton, hold] at hstream
    change s.written ++ _ = s.order.flatMap _
    rw [horder, List.flatMap_append, List.flatMap_singleton, hwrote, if_pos rfl, hpieces, hstream,
      List.take_add, List.append_assoc]
  · change s.order.Pairwise _
    have hparts := h.parts
    rw [horder] at hparts ⊢
    obtain ⟨hpre, -, -⟩ := List.pairwise_append.mp hparts
    refine List.pairwise_append.mpr ⟨hpre.imp_of_mem fun ha hb hab => ?_, List.pairwise_singleton _ _, ?_⟩
    · rw [hbefore _ ha, hbefore _ hb]
      exact hab
    · intro j hj b hb hpos hshort
      rw [hbefore j hj] at hpos hshort
      exfalso
      have hmem : j ∈ s.order := by rw [horder]; exact List.mem_append_left _ hj
      obtain ⟨hidle, hfailed, hwait⟩ := h.entered j hmem
      cases hphase : s.phase j with
      | idle => exact hidle hphase
      | failed => exact hfailed hphase
      | waiting => exact hwait hphase
      | holding m => exact hnew (h.alone hphase hhold ▸ hj)
      | done =>
        rw [wrote, hphase] at hshort
        exact lt_irrefl _ hshort
      | cancelled m =>
        rw [wrote, hphase] at hpos hshort
        exact hclean ⟨j, hmem, m, hshort, hpos, hphase⟩

lemma step_inv {a : WriterAction} (h : Inv p value s) (hclean : Clean p value s a)
    (hstep : s.step p value a = some s') : Inv p value s' := by
  cases a with
  | call i =>
    simp only [step] at hstep
    split_ifs at hstep with hidle hencodes
    all_goals
      rw [not_not] at hidle
      have hzero : wrote p value s i = 0 := by rw [wrote, hidle]; rfl
      cases hstep
    · exact h.moved (hzero ▸ rfl) (by simp) (fun hi => absurd hidle (h.entered i hi).1)
        (fun _ _ => hencodes) fun j n _ hj => (h.last j n hj).2
    · exact h.moved (hzero ▸ rfl) (by simp) (fun hi => absurd hidle (h.entered i hi).1)
        (fun _ hfailed => absurd rfl hfailed) fun j n _ hj => (h.last j n hj).2
  | acquire i =>
    simp only [step] at hstep
    split_ifs at hstep with hready
    cases hstep
    exact h.acquire hready.1 hready.2
  | write i k =>
    simp only [step] at hstep
    split at hstep
    · next n hhold =>
      split_ifs at hstep with hroom
      cases hstep
      exact h.write hclean hhold hroom.2
    · cases hstep
  | finish i =>
    simp only [step] at hstep
    split_ifs at hstep with hhold
    cases hstep
    refine h.moved (by rw [wrote, hhold]; rfl) (by simp) (fun _ => by simp) (fun _ _ => ?_) fun j n hj hhold' => ?_
    · exact h.encodes i (by rw [hhold]; simp) (by rw [hhold]; simp)
    · exact absurd (h.alone hhold' hhold) hj
  | cancel i =>
    simp only [step] at hstep
    split at hstep
    · next hwait =>
      cases hstep
      refine h.moved (by rw [wrote, hwait]; rfl) (by simp) (fun _ => by simp) (fun _ _ => ?_)
        fun j n _ hj => (h.last j n hj).2
      exact h.encodes i (by rw [hwait]; simp) (by rw [hwait]; simp)
    · next n hhold =>
      cases hstep
      refine h.moved (by rw [wrote, hhold]; rfl) (by simp) (fun _ => by simp) (fun _ _ => ?_) fun j m hj hhold' => ?_
      · exact h.encodes i (by rw [hhold]; simp) (by rw [hhold]; simp)
      · exact absurd (h.alone hhold' hhold) hj
    · cases hstep

lemma run_inv (as : List WriterAction) (h : Inv p value s) (hclean : CleanRun p value s as)
    (hrun : s.run p value as = some s') : Inv p value s' := by
  induction as generalizing s with
  | nil =>
    cases hrun
    exact h
  | cons a as ih =>
    obtain ⟨s₁, hstep, hrest⟩ := Option.bind_eq_some_iff.mp hrun
    exact ih (step_inv h hclean.1 hstep) (hclean.2 s₁ hstep) hrest

lemma encode_frame {i : ℕ} (h : (encodeMessage p (value i)).isSome) :
    encodeMessage p (value i) = some (frame p value i) := by
  obtain ⟨data, hdata⟩ := Option.isSome_iff_exists.mp h
  rw [frame, hdata]
  rfl

lemma Inv.intact (h : Inv p value s)
    (hloads : ∀ i data, p.dumps (value i) = some data → p.loads data = some (value i))
    (hmapping : ∀ i, p.isMapping (value i)) : Intact p value s := by
  have hencodes : ∀ i ∈ s.order, encodeMessage p (value i) = some (frame p value i) := fun i hi =>
    encode_frame (h.encodes i (h.entered i hi).1 (h.entered i hi).2.1)
  obtain ⟨kept, cut, hkept, hstream, hcut⟩ :=
    flatMap_take (frame p value) (wrote p value s) s.order (fun i _ => h.bound i) h.parts
  have hcross : List.Forall₂ (Crosses p) (kept.map value) (kept.map (frame p value)) := by
    rw [List.forall₂_map_left_iff, List.forall₂_map_right_iff, List.forall₂_same]
    exact fun i hi => ⟨hencodes i (hkept.subset hi), hloads i, hmapping i⟩
  have hlast : cut = [] ∨ ∃ v f, encodeMessage p v = some f ∧ cut <+: f ∧ cut.length < f.length :=
    hcut.imp_right fun ⟨i, hi, hprefix⟩ => ⟨value i, _, hencodes i hi, hprefix⟩
  refine ⟨h.once, kept, cut, hkept, h.stream.trans hstream, hcut, fun r hl hr calls => ?_⟩
  rw [List.flatMap_def] at hstream
  rw [readMessages_frames hcross hlast hl (hr.trans (h.stream.trans hstream)), List.length_map]

theorem frames_intact (p : Pickle V) (value : ℕ → V)
    (hloads : ∀ i data, p.dumps (value i) = some data → p.loads data = some (value i))
    (hmapping : ∀ i, p.isMapping (value i)) (as : List WriterAction) (s : Stream)
    (hrun : run p value {} as = some s) (hclean : CleanRun p value {} as) : Intact p value s :=
  (run_inv as .init hclean hrun).intact hloads hmapping

instance (s : Stream) (a : WriterAction) : Decidable (Clean p value s a) :=
  match a with
  | .write _ _ => inferInstanceAs (Decidable (¬ ∃ i ∈ s.order, ∃ n < (frame p value i).length,
      0 < n ∧ s.phase i = .cancelled n))
  | .call _ | .acquire _ | .finish _ | .cancel _ => inferInstanceAs (Decidable True)

instance decidableCleanRun : (s : Stream) → (as : List WriterAction) → Decidable (CleanRun p value s as)
  | _, [] => isTrue trivial
  | s, a :: as =>
    have : ∀ s', Decidable (CleanRun p value s' as) := fun s' => decidableCleanRun s' as
    inferInstanceAs (Decidable (Clean p value s a ∧ ∀ s' ∈ s.step p value a, CleanRun p value s' as))

def readyThenStop : ℕ → ControlNote
  | 0 => .ready
  | _ => .stop

def cutAtTheEnd : List WriterAction :=
  [.call 0, .call 1, .acquire 0, .write 0 30, .write 0 2, .finish 0, .acquire 1, .write 1 3, .cancel 1]

/-- The first sender is cancelled once it has written its header; the second one then writes a whole frame. -/
def cutInTheMiddle : List WriterAction :=
  [.call 0, .call 1, .acquire 0, .write 0 4, .cancel 0, .acquire 1, .write 1 31, .finish 1]

theorem frames_intact_cutAtTheEnd :
    ∃ s, run controlNotes readyThenStop {} cutAtTheEnd = some s ∧ Intact controlNotes readyThenStop s := by
  refine ⟨_, rfl, frames_intact controlNotes readyThenStop (fun i data hdata => ?_) (fun _ => rfl) cutAtTheEnd _
    rfl (by decide +kernel)⟩
  cases hdata
  obtain ⟨-, data, hdumps, -, hloads⟩ := controlNotes_sendable (readyThenStop i)
  cases hdumps
  exact hloads

theorem frames_torn_cutInTheMiddle :
    ∃ s, run controlNotes readyThenStop {} cutInTheMiddle = some s ∧
      ¬ Intact controlNotes readyThenStop s := by
  refine ⟨_, rfl, fun h => ?_⟩
  obtain ⟨kept, cut, -, -, -, hread⟩ := h.stream
  have hlets : Lets { unread := header 28 ++ (header 27 ++ ControlNote.stop.bytes), chunk := fun _ => 0 } :=
    fun _ _ hk => (by cases hk)
  have hcalls := hread _ hlets rfl 1
  have hsize : ((header 27 ++ ControlNote.stop.bytes).take 28).length ≤ maxMsg := by decide
  have hloads : controlNotes.loads ((header 27 ++ ControlNote.stop.bytes).take 28) = none := by decide
  have hraised := readMessage_raised hlets hsize hloads rfl
  have hmem : Reading.raised ∈ readMessages controlNotes 1
      { unread := header 28 ++ (header 27 ++ ControlNote.stop.bytes), chunk := fun _ => 0 } := by
    rw [readMessages, hraised]
    exact List.mem_cons_self
  rw [hcalls, List.mem_append, List.mem_map, List.mem_replicate] at hmem
  rcases hmem with ⟨_, _, hmessage⟩ | ⟨_, hnothing⟩
  · cases hmessage
  · cases hnothing

end Stream

end Reaper.Pool
