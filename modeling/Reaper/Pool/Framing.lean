import Reaper.Library.Frames

/-! Messages as length-prefixed frames on a byte stream, and the loop that reads them back. -/

namespace Reaper.Pool

open Reaper.Library

variable {V : Type}

/-- The serializer: it may raise on a value or on bytes, which is `none` here. -/
structure Pickle (V : Type) where
  dumps : V → Option (List UInt8)
  loads : List UInt8 → Option V
  isMapping : V → Bool

def headerSize : ℕ := 4

def maxMsg : ℕ := 64 * 1024 * 1024

def header (size : ℕ) : List UInt8 := bigEndian headerSize size

def encodeMessage (p : Pickle V) (value : V) : Option (List UInt8) := do
  let data ← p.dumps value
  if maxMsg < data.length then none else some (header data.length ++ data)

/-- The receiving end of a socket whose peer has written these bytes and closed. The `n`-th receive returns at
most `chunk n + 1` bytes, and `injected n` is what the hook before it asks for. -/
structure Receiver where
  unread : List UInt8
  chunk : ℕ → ℕ
  injected : ℕ → Option ℤ := fun _ => none
  reads : ℕ := 0

namespace Receiver

def recv (s : Receiver) (requested : ℕ) : List UInt8 × Receiver :=
  let n := min requested (s.chunk s.reads + 1)
  (s.unread.take n, { s with unread := s.unread.drop n, reads := s.reads + 1 })

def requested (s : Receiver) (remaining : ℕ) : ℤ :=
  match s.injected s.reads with
  | none => remaining
  | some k => min (remaining : ℤ) k

def readLoop (size : ℕ) (data : List UInt8) (s : Receiver) : Option (List UInt8) × Receiver :=
  if _hdone : size ≤ data.length then (some data, s)
  else
    let requested := s.requested (size - data.length)
    if requested ≤ 0 then (none, s)
    else
      let r := s.recv requested.toNat
      if _hpart : r.1 = [] then (none, r.2) else readLoop size (data ++ r.1) r.2
termination_by size - data.length
decreasing_by
  have hlength : 0 < (s.recv (s.requested (size - data.length)).toNat).1.length :=
    List.length_pos_iff.mpr _hpart
  rw [List.length_append]
  omega

def readBytes (s : Receiver) (size : ℕ) : Option (List UInt8) × Receiver := readLoop size [] s

end Receiver

inductive Reading (V : Type)
  | message (value : V)
  | nothing
  | raised
  deriving DecidableEq

def readMessage (p : Pickle V) (s : Receiver) : Reading V × Receiver :=
  match s.readBytes headerSize with
  | (none, s) => (.nothing, s)
  | (some head, s) =>
    let size := ofBigEndian head
    if maxMsg < size then (.nothing, s)
    else match s.readBytes size with
      | (none, s) => (.nothing, s)
      | (some data, s) =>
        match p.loads data with
        | none => (.raised, s)
        | some value => if p.isMapping value then (.message value, s) else (.nothing, s)

def readMessages (p : Pickle V) : ℕ → Receiver → List (Reading V)
  | 0, _ => []
  | n + 1, s => (readMessage p s).1 :: readMessages p n (readMessage p s).2

namespace Receiver

structure Same (s s' : Receiver) : Prop where
  chunk : s'.chunk = s.chunk
  injected : s'.injected = s.injected

lemma Same.refl (s : Receiver) : Same s s := ⟨rfl, rfl⟩

lemma Same.trans {s s' s'' : Receiver} (h : Same s s') (h' : Same s' s'') : Same s s'' :=
  ⟨h'.chunk.trans h.chunk, h'.injected.trans h.injected⟩

def Lets (s : Receiver) : Prop := ∀ n, ∀ k ∈ s.injected n, 0 < k

lemma Same.lets {s s' : Receiver} (h : Same s s') (hl : Lets s) : Lets s' := by
  rw [Lets, h.injected]
  exact hl

lemma requested_spec {s : Receiver} (hl : Lets s) {remaining : ℕ} (hpos : 0 < remaining) :
    0 < s.requested remaining ∧ s.requested remaining ≤ remaining := by
  rw [requested]
  cases hk : s.injected s.reads with
  | none => exact ⟨by simpa using hpos, le_rfl⟩
  | some k => exact ⟨lt_min (by simpa using hpos) (hl _ k hk), min_le_left _ _⟩

def advance (s : Receiver) (k : ℕ) : Receiver :=
  { s with unread := s.unread.drop k, reads := s.reads + 1 }

lemma advance_same (s : Receiver) (k : ℕ) : Same s (s.advance k) := ⟨rfl, rfl⟩

lemma readLoop_done {size : ℕ} {data : List UInt8} (s : Receiver) (h : size ≤ data.length) :
    readLoop size data s = (some data, s) := by
  rw [readLoop.eq_1, dif_pos h]

lemma readLoop_step {size : ℕ} {data : List UInt8} {s : Receiver} (hl : Lets s) (h : data.length < size) :
    ∃ k, 0 < k ∧ k ≤ size - data.length ∧
      readLoop size data s = if s.unread = [] then (none, s.advance k)
        else readLoop size (data ++ s.unread.take k) (s.advance k) := by
  obtain ⟨hpos, hle⟩ := requested_spec hl (show 0 < size - data.length by omega)
  obtain ⟨k, hk⟩ : ∃ k, k = min (s.requested (size - data.length)).toNat (s.chunk s.reads + 1) := ⟨_, rfl⟩
  refine ⟨k, by omega, by omega, ?_⟩
  have hrecv : s.recv (s.requested (size - data.length)).toNat = (s.unread.take k, s.advance k) := by
    rw [hk]
    rfl
  rw [readLoop.eq_1, dif_neg (by omega)]
  simp only [hrecv, if_neg (not_le.mpr hpos)]
  by_cases heof : s.unread = []
  · rw [dif_pos (by rw [heof, List.take_nil]), if_pos heof]
  · have hpart : s.unread.take k ≠ [] := by
      rw [ne_eq, List.take_eq_nil_iff, not_or]
      exact ⟨by omega, heof⟩
    rw [dif_neg hpart, if_neg heof]

lemma readLoop_spec (size : ℕ) (data : List UInt8) (s : Receiver) (hl : Lets s) :
    ∃ s', Same s s' ∧ s'.unread = s.unread.drop (size - data.length) ∧
      readLoop size data s =
        (if size - data.length ≤ s.unread.length then some (data ++ s.unread.take (size - data.length))
          else none, s') := by
  induction hn : size - data.length using Nat.strong_induction_on generalizing data s with
  | _ n ih =>
    by_cases hdone : size ≤ data.length
    · have hzero : n = 0 := by omega
      exact ⟨s, .refl s, by simp [hzero], by rw [readLoop_done s hdone]; simp [hzero]⟩
    · obtain ⟨k, hk, hkn, hstep⟩ := readLoop_step hl (not_le.mp hdone)
      rw [hstep]
      by_cases heof : s.unread = []
      · refine ⟨s.advance k, advance_same s k, by simp [advance, heof], ?_⟩
        rw [if_pos heof, if_neg (by rw [heof, List.length_nil]; omega)]
      · have hpos := List.length_pos_iff.mpr heof
        have htake : (s.unread.take k).length = min k s.unread.length := List.length_take
        have hlength : (data ++ s.unread.take k).length = data.length + min k s.unread.length := by
          rw [List.length_append, htake]
        obtain ⟨s', hsame, hunread, hread⟩ := ih (size - (data ++ s.unread.take k).length)
          (by rw [hlength]; omega) (data ++ s.unread.take k) (s.advance k) ((advance_same s k).lets hl) rfl
        have hadvance : (s.advance k).unread = s.unread.drop k := rfl
        refine ⟨s', (advance_same s k).trans hsame, ?_, ?_⟩
        · rw [hunread, hadvance, hlength, List.drop_drop]
          by_cases hfew : s.unread.length ≤ k
          · rw [List.drop_of_length_le (by omega), List.drop_of_length_le (by omega)]
          · congr 1
            omega
        · rw [if_neg heof, hread, hadvance, List.length_drop, hlength]
          by_cases henough : n ≤ s.unread.length
          · have hrest : size - (data.length + min k s.unread.length) = n - k := by omega
            have hjoin : s.unread.take k ++ (s.unread.drop k).take (n - k) = s.unread.take n := by
              rw [← List.take_add, show k + (n - k) = n by omega]
            rw [if_pos (by omega), if_pos henough, hrest, List.append_assoc, hjoin]
          · rw [if_neg (by omega), if_neg henough]

lemma readBytes_full {s : Receiver} (hl : Lets s) {front rest : List UInt8} (h : s.unread = front ++ rest) :
    ∃ s', Same s s' ∧ s'.unread = rest ∧ s.readBytes front.length = (some front, s') := by
  obtain ⟨s', hsame, hunread, hread⟩ := readLoop_spec front.length [] s hl
  simp only [List.length_nil, Nat.sub_zero, List.nil_append, h, List.drop_left, List.take_left] at hunread hread
  exact ⟨s', hsame, hunread, by rw [readBytes, hread, if_pos (by simp)]⟩

lemma readBytes_short {s : Receiver} (hl : Lets s) {size : ℕ} (h : s.unread.length < size) :
    ∃ s', Same s s' ∧ s'.unread = [] ∧ s.readBytes size = (none, s') := by
  obtain ⟨s', hsame, hunread, hread⟩ := readLoop_spec size [] s hl
  simp only [List.length_nil, Nat.sub_zero] at hunread hread
  refine ⟨s', hsame, ?_, by rw [readBytes, hread, if_neg (by omega)]⟩
  rw [hunread, List.drop_of_length_le h.le]

end Receiver

open Receiver

variable {p : Pickle V} {s : Receiver}

lemma header_size {size : ℕ} (h : size ≤ maxMsg) : ofBigEndian (header size) = size :=
  ofBigEndian_bigEndian headerSize size (h.trans_lt (by decide))

lemma header_length (size : ℕ) : (header size).length = headerSize := bigEndian_length headerSize size

lemma encodeMessage_spec {value : V} {frame : List UInt8} (h : encodeMessage p value = some frame) :
    ∃ data, p.dumps value = some data ∧ data.length ≤ maxMsg ∧ frame = header data.length ++ data := by
  cases hdumps : p.dumps value with
  | none => simp [encodeMessage, hdumps] at h
  | some data =>
    by_cases hbig : maxMsg < data.length
    · simp [encodeMessage, hdumps, hbig] at h
    · refine ⟨data, rfl, not_lt.mp hbig, ?_⟩
      simpa [encodeMessage, hdumps, hbig, eq_comm] using h

lemma readMessage_eof (p : Pickle V) (hl : Lets s) (h : s.unread.length < headerSize) :
    ∃ s', Same s s' ∧ s'.unread = [] ∧ readMessage p s = (.nothing, s') := by
  obtain ⟨s', hsame, hunread, hread⟩ := readBytes_short hl h
  exact ⟨s', hsame, hunread, by rw [readMessage, hread]⟩

lemma readMessage_frame (hl : Lets s) {value : V} {data rest : List UInt8}
    (hsize : data.length ≤ maxMsg) (hloads : p.loads data = some value) (hmapping : p.isMapping value)
    (h : s.unread = (header data.length ++ data) ++ rest) :
    ∃ s', Same s s' ∧ s'.unread = rest ∧ readMessage p s = (.message value, s') := by
  rw [List.append_assoc] at h
  obtain ⟨s₁, hsame, hunread, hhead⟩ := readBytes_full hl h
  rw [header_length] at hhead
  obtain ⟨s₂, hsame', hunread', hdata⟩ := readBytes_full (hsame.lets hl) hunread
  refine ⟨s₂, hsame.trans hsame', hunread', ?_⟩
  rw [readMessage, hhead]
  simp only [header_size hsize, if_neg (not_lt.mpr hsize), hdata, hloads, hmapping, if_true]

lemma readMessage_cut (p : Pickle V) (hl : Lets s) {data : List UInt8} (hsize : data.length ≤ maxMsg)
    (hcut : s.unread <+: header data.length ++ data)
    (hshort : s.unread.length < (header data.length ++ data).length) :
    ∃ s', Same s s' ∧ s'.unread = [] ∧ readMessage p s = (.nothing, s') := by
  by_cases hhead : s.unread.length < headerSize
  · exact readMessage_eof p hl hhead
  · have hfront : header data.length <+: s.unread :=
      List.prefix_of_prefix_length_le (List.prefix_append _ _) hcut (by rw [header_length]; omega)
    obtain ⟨part, hpart⟩ := hfront
    obtain ⟨s₁, hsame, hunread, hread⟩ := readBytes_full hl hpart.symm
    rw [header_length] at hread
    have hfew : s₁.unread.length < data.length := by
      rw [← hpart, List.length_append, List.length_append] at hshort
      rw [hunread]
      omega
    obtain ⟨s₂, hsame', hunread', hnone⟩ := readBytes_short (hsame.lets hl) hfew
    refine ⟨s₂, hsame.trans hsame', hunread', ?_⟩
    rw [readMessage, hread]
    simp only [header_size hsize, if_neg (not_lt.mpr hsize), hnone]

lemma readMessage_raised (hl : Lets s) {data rest : List UInt8} (hsize : data.length ≤ maxMsg)
    (hloads : p.loads data = none) (h : s.unread = (header data.length ++ data) ++ rest) :
    (readMessage p s).1 = .raised := by
  rw [List.append_assoc] at h
  obtain ⟨s₁, hsame, hunread, hhead⟩ := readBytes_full hl h
  rw [header_length] at hhead
  obtain ⟨s₂, -, -, hdata⟩ := readBytes_full (hsame.lets hl) hunread
  rw [readMessage, hhead]
  simp only [header_size hsize, if_neg (not_lt.mpr hsize), hdata, hloads]

lemma readMessage_oversized (p : Pickle V) (hl : Lets s) {head payload : List UInt8}
    (hhead : head.length = headerSize) (hbig : maxMsg < ofBigEndian head) (h : s.unread = head ++ payload) :
    ∃ s', s'.unread = payload ∧ readMessage p s = (.nothing, s') := by
  obtain ⟨s', -, hunread, hread⟩ := readBytes_full hl h
  rw [hhead] at hread
  refine ⟨s', hunread, ?_⟩
  rw [readMessage, hread]
  exact if_pos hbig

structure Crosses (p : Pickle V) (value : V) (frame : List UInt8) : Prop where
  encodes : encodeMessage p value = some frame
  loads : ∀ data, p.dumps value = some data → p.loads data = some value
  mapping : p.isMapping value

lemma readMessages_eof (p : Pickle V) (hl : Lets s) (h : s.unread = []) (calls : ℕ) :
    readMessages p calls s = List.replicate calls .nothing := by
  induction calls generalizing s with
  | zero => rfl
  | succ calls ih =>
    obtain ⟨s', hsame, hunread, hread⟩ := readMessage_eof p hl (by rw [h]; decide)
    rw [readMessages, hread, ih (hsame.lets hl) hunread, List.replicate_succ]

lemma readMessages_frames {values : List V} {frames : List (List UInt8)}
    (hcross : List.Forall₂ (Crosses p) values frames) {cut : List UInt8}
    (hcut : cut = [] ∨ ∃ value frame, encodeMessage p value = some frame ∧ cut <+: frame ∧
      cut.length < frame.length)
    (hl : Lets s) (h : s.unread = frames.flatten ++ cut) (calls : ℕ) :
    readMessages p calls s =
      (values.take calls).map Reading.message ++ List.replicate (calls - values.length) .nothing := by
  induction hcross generalizing s calls with
  | nil =>
    rw [List.take_nil, List.map_nil, List.nil_append, List.length_nil, Nat.sub_zero]
    rw [List.flatten_nil, List.nil_append] at h
    rcases hcut with hcut | ⟨value, frame, hframe, hprefix, hshort⟩
    · exact readMessages_eof p hl (h.trans hcut) calls
    · obtain ⟨data, -, hsize, rfl⟩ := encodeMessage_spec hframe
      cases calls with
      | zero => rfl
      | succ calls =>
        rw [← h] at hprefix hshort
        obtain ⟨s', hsame, hunread, hread⟩ := readMessage_cut p hl hsize hprefix hshort
        rw [readMessages, hread, readMessages_eof p (hsame.lets hl) hunread, List.replicate_succ]
  | cons hfirst _ ih =>
    obtain ⟨data, hdumps, hsize, rfl⟩ := encodeMessage_spec hfirst.encodes
    cases calls with
    | zero => simp [readMessages]
    | succ calls =>
      rw [List.flatten_cons, List.append_assoc] at h
      obtain ⟨s', hsame, hunread, hread⟩ :=
        readMessage_frame hl hsize (hfirst.loads data hdumps) hfirst.mapping h
      rw [readMessages, hread, ih (hsame.lets hl) hunread]
      simp

structure Sendable (p : Pickle V) (value : V) : Prop where
  mapping : p.isMapping value
  fits : ∃ data, p.dumps value = some data ∧ data.length ≤ maxMsg ∧ p.loads data = some value

lemma Sendable.crosses {value : V} (h : Sendable p value) : ∃ frame, Crosses p value frame := by
  obtain ⟨data, hdumps, hsize, hloads⟩ := h.fits
  refine ⟨header data.length ++ data, ?_, fun data' hdata' => ?_, h.mapping⟩
  · simp [encodeMessage, hdumps, not_lt.mpr hsize]
  · rw [hdumps, Option.some_inj] at hdata'
    rwa [← hdata']

lemma crosses_all {values : List V} (hsend : ∀ value ∈ values, Sendable p value) :
    ∃ frames, List.Forall₂ (Crosses p) values frames := by
  induction values with
  | nil => exact ⟨[], .nil⟩
  | cons value values ih =>
    obtain ⟨frames, hcross⟩ := ih fun v hv => hsend v (List.mem_cons_of_mem _ hv)
    obtain ⟨frame, hfirst⟩ := (hsend value List.mem_cons_self).crosses
    exact ⟨frame :: frames, .cons hfirst hcross⟩

theorem read_undoes_framing (p : Pickle V) (values : List V) (hsend : ∀ value ∈ values, Sendable p value) :
    ∃ frames, List.Forall₂ (fun value frame => encodeMessage p value = some frame) values frames ∧
      (∀ n s, Lets s → s.unread = frames.flatten.take n → ∀ calls,
        readMessages p calls s = ((values.take (complete n frames)).take calls).map Reading.message ++
          List.replicate (calls - complete n frames) .nothing) ∧
      ∀ s head payload, Lets s → head.length = headerSize → maxMsg < ofBigEndian head →
        s.unread = head ++ payload →
        (readMessage p s).1 = .nothing ∧ (readMessage p s).2.unread = payload := by
  obtain ⟨frames, hcross⟩ := crosses_all hsend
  refine ⟨frames, hcross.imp fun _ _ h => h.encodes, fun n s hl hstream calls => ?_,
    fun s head payload hl hhead hbig hstream => ?_⟩
  · obtain ⟨cut, htake, hcut⟩ := take_flatten n frames
    have hlength : (values.take (complete n frames)).length = complete n frames := by
      rw [List.length_take, hcross.length_eq, min_eq_left (complete_le n frames)]
    have hlast : cut = [] ∨ ∃ value frame, encodeMessage p value = some frame ∧ cut <+: frame ∧
        cut.length < frame.length := by
      refine hcut.imp_right fun ⟨frame, hget, hprefix, hshort⟩ => ?_
      obtain ⟨hlt, rfl⟩ := List.getElem?_eq_some_iff.mp hget
      have hcrosses := (List.forall₂_iff_get.mp hcross).2 _ (hcross.length_eq ▸ hlt) hlt
      exact ⟨_, _, hcrosses.encodes, hprefix, hshort⟩
    rw [readMessages_frames (List.forall₂_take _ hcross) hlast hl (hstream.trans htake), hlength]
  · obtain ⟨s', hunread, hread⟩ := readMessage_oversized p hl hhead hbig hstream
    rw [hread]
    exact ⟨rfl, hunread⟩

inductive ControlNote
  | ready | stop
  deriving DecidableEq

def ControlNote.bytes : ControlNote → List UInt8
  | .ready => [128, 5, 149, 17, 0, 0, 0, 0, 0, 0, 0, 125, 148, 140, 2, 111, 112, 148, 140, 5, 114, 101, 97,
      100, 121, 148, 115, 46]
  | .stop => [128, 5, 149, 16, 0, 0, 0, 0, 0, 0, 0, 125, 148, 140, 2, 111, 112, 148, 140, 4, 115, 116, 111,
      112, 148, 115, 46]

def controlNotes : Pickle ControlNote where
  dumps note := some note.bytes
  loads bytes := [ControlNote.ready, .stop].find? fun note => note.bytes = bytes
  isMapping _ := true

lemma controlNotes_sendable (note : ControlNote) : Sendable controlNotes note :=
  ⟨rfl, note.bytes, rfl, by cases note <;> decide, by cases note <;> decide⟩

theorem read_undoes_framing_cut :
    ∃ s : Receiver, s.unread.length = 40 ∧
      readMessages controlNotes 3 s = [.message .ready, .nothing, .nothing] := by
  obtain ⟨frames, hframes, hread, -⟩ :=
    read_undoes_framing controlNotes [.ready, .stop] fun note _ => controlNotes_sendable note
  obtain _ | ⟨hready, hstop⟩ := hframes
  obtain _ | ⟨hstop, hnil⟩ := hstop
  cases hnil
  cases hready
  cases hstop
  refine ⟨{ unread := _, chunk := fun _ => 2 }, ?_, hread 40 _ (fun _ _ hk => (by cases hk)) rfl 3⟩
  decide

end Reaper.Pool
