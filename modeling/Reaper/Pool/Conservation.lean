import Reaper.Pool.Control
import Mathlib.Tactic

/-! Every accepted job is counted once: as settled by an effect, or as held by the core. -/

namespace Reaper.Pool.ReaperCore

open Reaper.Library

def accepts (c : ReaperCore) (e : ControlEvent) : List String :=
  if e.kind ≠ .submit then []
  else match e.job with
    | none => []
    | some job => if c.closing ∨ job ∈ c.known then [] else [job]

def accepted : ReaperCore → List ControlEvent → List String
  | _, [] => []
  | c, e :: es => c.accepts e ++ accepted (c.apply e).1 es

def settledBy (x : ControlEffect) : Option String :=
  if x.kind = .resolve ∨ x.kind = .fail then x.job else none

def sentBy (x : ControlEffect) : Option String :=
  if x.kind = .sendRun then x.job else none

def settled (fx : List ControlEffect) : List String := fx.filterMap settledBy

def sent (fx : List ControlEffect) : List String := fx.filterMap sentBy

def Holds (c : ReaperCore) (job : String) : Prop :=
  job ∈ c.queue ∨ ∃ slot ∈ c.slots.values, slot.state = .running ∧ slot.job = some job

instance (c : ReaperCore) (job : String) : Decidable (Holds c job) :=
  inferInstanceAs (Decidable (_ ∨ ∃ slot ∈ c.slots.values, slot.state = .running ∧ slot.job = some job))

/-- Submitted job ids are non-empty, and while the core is open a new skeleton comes on a descriptor that no
live slot uses. -/
structure Legal (c : ReaperCore) (e : ControlEvent) : Prop where
  named : e.kind = .submit → e.job ≠ some ""
  fresh : e.kind = .spawned → c.closing = false → ∀ i ∈ e.identity, c.slots.get i.fd = none

def LegalRun : ReaperCore → List ControlEvent → Prop
  | _, [] => True
  | c, e :: es => Legal c e ∧ LegalRun (c.apply e).1 es

structure Tidy (c : ReaperCore) : Prop where
  running : ∀ slot ∈ c.slots.values, slot.held.isSome ↔ slot.state = .running
  distinct : ∀ job, c.known.count job ≤ 1
  named : "" ∉ c.queue
  drained : c.closing → c.known = []

structure Accounts (c : ReaperCore) (jobs : List String) (c' : ReaperCore)
    (fx : List ControlEffect) : Prop where
  count : ∀ job, c.known.count job + jobs.count job = (settled fx).count job + c'.known.count job
  order : c'.closing = false → c.queue ++ jobs = sent fx ++ c'.queue
  shut : c'.closing = true → jobs = [] ∧ sent fx = []
  closing : c.closing = true → c'.closing = true

@[simp] lemma settled_append (xs ys : List ControlEffect) :
    settled (xs ++ ys) = settled xs ++ settled ys := List.filterMap_append

@[simp] lemma sent_append (xs ys : List ControlEffect) : sent (xs ++ ys) = sent xs ++ sent ys :=
  List.filterMap_append

lemma known_count (c : ReaperCore) (job : String) :
    c.known.count job = c.queue.count job + (c.slots.values.filterMap ControlSlot.held).count job := by
  rw [known, List.count_append]

@[simp] lemma held_starting (i : SkeletonID) (s : SkeletonState) :
    (ControlSlot.mk i s none).held = none := rfl

lemma held_some (i : SkeletonID) (s : SkeletonState) {job : String} (h : job ≠ "") :
    (ControlSlot.mk i s (some job)).held = some job := by
  simp [ControlSlot.held, Option.filter, h]

@[simp] lemma settled_discard (i : SkeletonID) : settled (discard i) = [] := rfl

@[simp] lemma sent_discard (i : SkeletonID) : sent (discard i) = [] := rfl

@[simp] lemma settled_failed (reason : FailureReason) (jobs : List String) :
    settled (jobs.map (failed reason)) = jobs := by
  simp [settled, settledBy, failed, List.filterMap_map, Function.comp_def]

@[simp] lemma sent_failed (reason : FailureReason) (jobs : List String) :
    sent (jobs.map (failed reason)) = [] := by
  simp [sent, sentBy, failed, List.filterMap_map, Function.comp_def]

@[simp] lemma settled_stopping (slots : List ControlSlot) :
    settled (slots.flatMap stopping) = slots.filterMap ControlSlot.held := by
  induction slots with
  | nil => rfl
  | cons slot slots ih =>
    rw [List.flatMap_cons, settled_append, ih, stopping, settled_append, settled_failed]
    cases h : slot.held <;> simp [settled, settledBy, h]

@[simp] lemma sent_stopping (slots : List ControlSlot) : sent (slots.flatMap stopping) = [] := by
  induction slots with
  | nil => rfl
  | cons slot slots ih =>
    rw [List.flatMap_cons, sent_append, ih, stopping, sent_append, sent_failed]
    rfl

lemma Accounts.silent {c c' : ReaperCore} {fx : List ControlEffect}
    (hq : c'.queue = c.queue) (hc : c'.closing = c.closing)
    (hk : ∀ job, (c'.slots.values.filterMap ControlSlot.held).count job =
      (c.slots.values.filterMap ControlSlot.held).count job)
    (hs : settled fx = []) (hr : sent fx = []) : Accounts c [] c' fx := by
  refine ⟨fun job => ?_, fun _ => by simp [hq, hr], fun _ => ⟨rfl, hr⟩, fun h => hc.trans h⟩
  rw [known_count, known_count, hq, hk, hs]
  simp

lemma Accounts.trans {c d e : ReaperCore} {jobs : List String} {fx gx : List ControlEffect}
    (h : Accounts c jobs d fx) (hh : Accounts d [] e gx) (hc : e.closing = d.closing) :
    Accounts c jobs e (fx ++ gx) := by
  refine ⟨fun job => ?_, fun he => ?_, fun he => ?_, fun hcl => hc.trans (h.closing hcl)⟩
  · have h₁ := h.count job
    have h₂ := hh.count job
    rw [List.count_nil] at h₂
    rw [settled_append, List.count_append]
    omega
  · rw [h.order (hc.symm.trans he), sent_append, List.append_assoc, ← hh.order he, List.append_nil]
  · obtain ⟨hj, hs⟩ := h.shut (hc.symm.trans he)
    exact ⟨hj, by rw [sent_append, hs, (hh.shut he).2, List.append_nil]⟩

lemma fillLoop_spec (n : ℕ) (c : ReaperCore) :
    (fillLoop n c).1.queue = c.queue ∧ (fillLoop n c).1.slots = c.slots ∧
      (fillLoop n c).1.closing = c.closing ∧
      settled (fillLoop n c).2 = [] ∧ sent (fillLoop n c).2 = [] := by
  induction n generalizing c with
  | zero => exact ⟨rfl, rfl, rfl, rfl, rfl⟩
  | succ n ih => exact ih _

lemma fill_spec (c : ReaperCore) :
    c.fill.1.queue = c.queue ∧ c.fill.1.slots = c.slots ∧ c.fill.1.closing = c.closing ∧
      settled c.fill.2 = [] ∧ sent c.fill.2 = [] := by
  unfold fill
  dsimp only
  split
  · exact ⟨rfl, rfl, rfl, rfl, rfl⟩
  · exact fillLoop_spec _ c

lemma Accounts.distinct {c c' : ReaperCore} {jobs : List String} {fx : List ControlEffect}
    (h : Accounts c jobs c' fx)
    (hj : ∀ job, c.known.count job + jobs.count job ≤ 1) (job : String) :
    c'.known.count job ≤ 1 := by
  have hc := h.count job
  have hd := hj job
  omega

lemma Accounts.drained {c c' : ReaperCore} {fx : List ControlEffect} (h : Accounts c [] c' fx)
    (ht : Tidy c) (hc : c'.closing = c.closing) (hcl : c'.closing = true) : c'.known = [] := by
  apply List.eq_nil_iff_forall_not_mem.mpr
  intro job hm
  have hj := h.count job
  rw [ht.drained (hc.symm.trans hcl)] at hj
  have := List.count_pos_iff.mpr hm
  simp only [List.count_nil] at hj
  omega

inductive HandsOut : ReaperCore → ReaperCore → List ControlEffect → Prop
  | done (c : ReaperCore) : HandsOut c c []
  | take {c c' : ReaperCore} {fd : ℤ} {slot : ControlSlot} {job : String} {queue : List String}
    {fx : List ControlEffect} (get : c.slots.get fd = some slot) (idle : slot.state = .idle)
    (queued : c.queue = job :: queue)
    (rest : HandsOut { c with
      queue := queue
      slots := c.slots.set fd { slot with state := .running, job := some job } } c' fx) :
    HandsOut c c' ({ kind := .sendRun, identity := some slot.identity, job := some job } :: fx)

lemma dispatchLoop_handsOut (rest : List (ℤ × ControlSlot)) (c : ReaperCore)
    (hr : ∀ e ∈ rest, c.slots.get e.1 = some e.2) (hn : (rest.map Prod.fst).Nodup) :
    HandsOut c (dispatchLoop rest c).1 (dispatchLoop rest c).2 := by
  induction rest generalizing c with
  | nil => exact .done c
  | cons e rest ih =>
    obtain ⟨fd, slot⟩ := e
    rw [List.map_cons, List.nodup_cons] at hn
    rw [dispatchLoop]
    split
    · exact .done c
    · rename_i job queue hq
      split_ifs with hs
      · exact ih c (fun e he => hr e (List.mem_cons_of_mem _ he)) hn.2
      · refine .take (hr (fd, slot) List.mem_cons_self) (not_not.mp hs) hq (ih _ (fun e he => ?_) hn.2)
        have hne : e.1 ≠ fd := fun h => hn.1 (List.mem_map.mpr ⟨e, he, h⟩)
        exact (Dict.get_set_ne _ _ hne).trans (hr e (List.mem_cons_of_mem _ he))

lemma dispatch_handsOut (c : ReaperCore) : HandsOut c c.dispatch.1 c.dispatch.2 :=
  dispatchLoop_handsOut _ c (fun _ he => (Dict.mem_entries _ _ _).mp he) c.slots.nodup

lemma HandsOut.frame {c c' : ReaperCore} {fx : List ControlEffect} (h : HandsOut c c' fx) :
    c'.target = c.target ∧ c'.closing = c.closing ∧ c'.pendingSpawns = c.pendingSpawns ∧
      c'.nextGen = c.nextGen ∧ c'.slots.entries.length = c.slots.entries.length := by
  induction h with
  | done c => exact ⟨rfl, rfl, rfl, rfl, rfl⟩
  | take get _ _ _ ih =>
    obtain ⟨ht, hc, hp, hg, hl⟩ := ih
    exact ⟨ht, hc, hp, hg, hl.trans (Dict.length_set _ _ get)⟩

lemma HandsOut.slots {c c' : ReaperCore} {fx : List ControlEffect} (h : HandsOut c c' fx) :
    ∀ fd s', c'.slots.get fd = some s' → ∃ s, c.slots.get fd = some s ∧ s.identity = s'.identity := by
  induction h with
  | done c => exact fun _ s hs => ⟨s, hs, rfl⟩
  | @take c c' fd slot _ _ _ get _ _ _ ih =>
    intro j s' hs'
    obtain ⟨s, hs, hi⟩ := ih j s' hs'
    rw [Dict.get_set] at hs
    split_ifs at hs with hj
    · rw [← Option.some.inj hs] at hi
      exact ⟨slot, hj ▸ get, hi⟩
    · exact ⟨s, hs, hi⟩

lemma HandsOut.sends {c c' : ReaperCore} {fx : List ControlEffect} (h : HandsOut c c' fx) :
    ∀ x ∈ fx, x.kind = .sendRun ∧ ∃ fd s, c.slots.get fd = some s ∧ x.identity = some s.identity := by
  induction h with
  | done c => exact fun x hx => by cases hx
  | @take c c' fd slot _ _ _ get _ _ _ ih =>
    intro x hx
    rcases List.mem_cons.mp hx with rfl | hx
    · exact ⟨rfl, fd, slot, get, rfl⟩
    · obtain ⟨hk, j, s, hs, hi⟩ := ih x hx
      refine ⟨hk, ?_⟩
      rw [Dict.get_set] at hs
      split_ifs at hs with hj
      · cases hs
        exact ⟨fd, slot, get, hi⟩
      · exact ⟨j, s, hs, hi⟩

lemma HandsOut.accounts {c c' : ReaperCore} {fx : List ControlEffect} (h : HandsOut c c' fx) (ht : Tidy c) :
    Accounts c [] c' fx ∧ Tidy c' := by
  induction h with
  | done c => exact ⟨.silent rfl rfl (fun _ => rfl) rfl rfl, ht⟩
  | @take c c' fd slot job queue fx get idle queued rest ih =>
    have hjob : job ≠ "" := fun h => ht.named (by rw [queued, h]; exact List.mem_cons_self)
    have hidle : slot.held = none := by
      have hrun := ht.running slot ((Dict.mem_values _ _).mpr ⟨fd, get⟩)
      cases hh : slot.held with
      | none => rfl
      | some j => simp_all
    have hheld : ({ slot with state := .running, job := some job } : ControlSlot).held = some job :=
      held_some _ _ hjob
    set d : ReaperCore := { c with
      queue := queue
      slots := c.slots.set fd { slot with state := .running, job := some job } } with hd
    have hstep : Accounts c [] d
        [{ kind := .sendRun, identity := some slot.identity, job := some job }] := by
      refine ⟨fun j => ?_, fun _ => by simp [hd, queued, sent, sentBy], fun hcl => ?_, id⟩
      · have hc := Dict.count_set ControlSlot.held c.slots
          { slot with state := .running, job := some job } get j
        rw [hheld, hidle] at hc
        simp only [known_count, queued, hd, List.count_cons]
        simp [settled, settledBy, List.count_cons] at hc ⊢
        omega
      · exact absurd (ht.drained hcl) (by simp [known, queued])
    have htd : Tidy d := by
      refine ⟨fun u hu => ?_, hstep.distinct (by simpa using ht.distinct), fun h => ?_, fun hcl => ?_⟩
      · rcases Dict.mem_values_set _ hu with rfl | hu
        · simp [hheld]
        · exact ht.running u hu
      · exact ht.named (by rw [queued]; exact List.mem_cons_of_mem _ h)
      · exact absurd (ht.drained hcl) (by simp [known, queued])
    obtain ⟨ha, hti⟩ := ih htd
    exact ⟨hstep.trans ha rest.frame.2.1, hti⟩

lemma dispatch_accounts (c : ReaperCore) (ht : Tidy c) :
    Accounts c [] c.dispatch.1 c.dispatch.2 ∧ Tidy c.dispatch.1 ∧ c.dispatch.1.closing = c.closing := by
  obtain ⟨ha, hti⟩ := (dispatch_handsOut c).accounts ht
  exact ⟨ha, hti, (dispatch_handsOut c).frame.2.1⟩

lemma find_spec {c : ReaperCore} {i : Option SkeletonID} {slot : ControlSlot}
    (h : c.find i = some slot) : c.slots.get slot.identity.fd = some slot := by
  cases i with
  | none => cases h
  | some i =>
    obtain ⟨hg, hi⟩ := Option.filter_eq_some_iff.mp h
    rw [decide_eq_true_eq] at hi
    rw [hi, hg]

lemma accounts_set {c : ReaperCore} {fd : ℤ} {slot new : ControlSlot} {fx : List ControlEffect}
    (ht : Tidy c) (hg : c.slots.get fd = some slot) (hnew : new.held = none)
    (hstate : new.state ≠ .running) (hs : settled fx = slot.held.toList) (hr : sent fx = []) :
    Accounts c [] { c with slots := c.slots.set fd new } fx ∧
      Tidy { c with slots := c.slots.set fd new } := by
  have ha : Accounts c [] { c with slots := c.slots.set fd new } fx := by
    refine ⟨fun job => ?_, fun _ => by simp [hr], fun _ => ⟨rfl, hr⟩, id⟩
    have hc := Dict.count_set ControlSlot.held c.slots new hg job
    rw [hnew, ← hs] at hc
    simp only [known_count, Option.toList_none, List.count_nil] at hc ⊢
    omega
  refine ⟨ha, fun u hu => ?_, ha.distinct (by simpa using ht.distinct), ht.named, ha.drained ht rfl⟩
  rcases Dict.mem_values_set _ hu with rfl | hu
  · simp [hnew, hstate]
  · exact ht.running u hu

lemma spawned_accounts (c : ReaperCore) (e : ControlEvent) (ht : Tidy c)
    (hf : c.closing = false → ∀ i, e.identity = some i → c.slots.get i.fd = none) :
    Accounts c [] (c.spawned e).1 (c.spawned e).2 ∧ Tidy (c.spawned e).1 := by
  rw [spawned]
  split
  · rename_i gen i _ hi
    dsimp only
    split_ifs with _ hopen
    · exact ⟨.silent rfl rfl (fun _ => rfl) rfl rfl, ht.running, ht.distinct, ht.named, ht.drained⟩
    · let d : ReaperCore := { c with
        pendingSpawns := c.pendingSpawns.erase gen
        slots := c.slots.set i.fd { identity := i, state := .starting } }
      change Accounts c [] d.fill.1 d.fill.2 ∧ Tidy d.fill.1
      obtain ⟨hq, hs, hcl, hse, hsn⟩ := fill_spec d
      have ha : Accounts c [] d.fill.1 d.fill.2 := by
        refine .silent hq hcl (fun job => ?_) hse hsn
        rw [hs, Dict.count_set_new _ _ _ (hf (by simpa using hopen) i hi)]
        simp
      refine ⟨ha, fun u hu => ?_, ha.distinct (by simpa using ht.distinct), hq ▸ ht.named,
        ha.drained ht hcl⟩
      rw [hs] at hu
      rcases Dict.mem_values_set _ hu with rfl | hu
      · simp
      · exact ht.running u hu
    · exact ⟨.silent rfl rfl (fun _ => rfl) rfl rfl, ht⟩
  · exact ⟨.silent rfl rfl (fun _ => rfl) rfl rfl, ht⟩

lemma spawnFailed_accounts (c : ReaperCore) (e : ControlEvent) (ht : Tidy c) :
    Accounts c [] (c.spawnFailed e).1 (c.spawnFailed e).2 ∧ Tidy (c.spawnFailed e).1 := by
  rw [spawnFailed]
  split
  · exact ⟨.silent rfl rfl (fun _ => rfl) rfl rfl, ht.running, ht.distinct, ht.named, ht.drained⟩
  · exact ⟨.silent rfl rfl (fun _ => rfl) rfl rfl, ht⟩

lemma deadline_accounts (c : ReaperCore) (ht : Tidy c) :
    Accounts c [] c.deadline.1 c.deadline.2 ∧ Tidy c.deadline.1 := by
  rw [deadline]
  split_ifs
  · refine ⟨.silent rfl rfl (fun _ => rfl) ?_ ?_, ht⟩
    · simp [settled, settledBy, List.filterMap_map, Function.comp_def]
    · simp [sent, sentBy, List.filterMap_map, Function.comp_def]
  · exact ⟨.silent rfl rfl (fun _ => rfl) rfl rfl, ht⟩

lemma fill_accounts (c : ReaperCore) (ht : Tidy c) :
    Accounts c [] c.fill.1 c.fill.2 ∧ Tidy c.fill.1 := by
  obtain ⟨hq, hs, hcl, hse, hsn⟩ := fill_spec c
  have hk : c.fill.1.known = c.known := by rw [known, known, hq, hs]
  exact ⟨.silent hq hcl (fun job => by rw [hs]) hse hsn, hs ▸ ht.running, hk ▸ ht.distinct,
    hq ▸ ht.named, fun h => hk.trans (ht.drained (hcl.symm.trans h))⟩

lemma ready_accounts (c : ReaperCore) (e : ControlEvent) (ht : Tidy c) :
    Accounts c [] (c.ready e).1 (c.ready e).2 ∧ Tidy (c.ready e).1 := by
  rw [ready]
  split
  · exact ⟨.silent rfl rfl (fun _ => rfl) rfl rfl, ht⟩
  · rename_i slot hslot
    have hg := find_spec hslot
    split_ifs with hs
    · exact ⟨.silent rfl rfl (fun _ => rfl) rfl rfl, ht⟩
    · have hn : slot.held = none := by
        have hrun := ht.running slot ((Dict.mem_values _ _).mpr ⟨_, hg⟩)
        cases hh : slot.held <;> simp_all
      exact accounts_set ht hg hn (by simp) (by simp [hn, settled]) rfl

lemma result_accounts (c : ReaperCore) (e : ControlEvent) (ht : Tidy c) :
    Accounts c [] (c.result e).1 (c.result e).2 ∧ Tidy (c.result e).1 := by
  rw [result]
  split
  · exact ⟨.silent rfl rfl (fun _ => rfl) rfl rfl, ht⟩
  · rename_i slot hslot
    have hg := find_spec hslot
    split_ifs with hs hj hok
    · exact ⟨.silent rfl rfl (fun _ => rfl) rfl rfl, ht⟩
    · exact ⟨.silent rfl rfl (fun _ => rfl) rfl rfl, ht⟩
    all_goals
      obtain ⟨hj, he⟩ := not_or.mp hj
      obtain ⟨job, he⟩ := Option.ne_none_iff_exists'.mp he
      have hrun := ht.running slot ((Dict.mem_values _ _).mpr ⟨_, hg⟩)
      obtain ⟨job', hh⟩ := Option.isSome_iff_exists.mp (hrun.mpr (not_not.mp hs))
      have hsame := (Option.filter_eq_some_iff.mp hh).1
      rw [not_not.mp hj, he, Option.some_inj] at hsame
      rw [← hsame] at hh
      exact accounts_set ht hg rfl (by simp) (by simp [settled, settledBy, hh, he]) rfl

lemma lost_accounts (c : ReaperCore) (e : ControlEvent) (ht : Tidy c) :
    Accounts c [] (c.lost e).1 (c.lost e).2 ∧ Tidy (c.lost e).1 := by
  rw [lost]
  split
  · exact ⟨.silent rfl rfl (fun _ => rfl) rfl rfl, ht⟩
  · rename_i slot hslot
    have hg := find_spec hslot
    set fails := slot.held.toList.map (failed .workerDied)
    have hs : settled (discard slot.identity ++ fails) = slot.held.toList := by
      rw [settled_append, settled_discard, List.nil_append, settled_failed]
    have hr : sent (discard slot.identity ++ fails) = [] := by
      rw [sent_append, sent_discard, List.nil_append, sent_failed]
    have ha : Accounts c [] { c with slots := c.slots.erase slot.identity.fd }
        (discard slot.identity ++ fails) := by
      refine ⟨fun job => ?_, fun _ => by simp only [hr, List.append_nil, List.nil_append],
        fun _ => ⟨rfl, hr⟩, id⟩
      have hc := Dict.count_erase ControlSlot.held c.slots hg job
      simp only [known_count, hs, List.count_nil]
      omega
    exact ⟨ha, fun u hu => ht.running u (Dict.mem_values_erase _ hu),
      ha.distinct (by simpa using ht.distinct), ht.named, ha.drained ht rfl⟩

lemma close_accounts (c : ReaperCore) (ht : Tidy c) :
    Accounts c [] c.close.1 c.close.2 ∧ Tidy c.close.1 := by
  rw [close]
  split_ifs with hcl
  · exact ⟨.silent rfl rfl (fun _ => rfl) rfl rfl, ht⟩
  · have hh : ∀ slots : List ControlSlot, (slots.map fun slot =>
        ({ slot with state := .stopping, job := none } : ControlSlot)).filterMap ControlSlot.held = [] := by
      intro slots
      simp [List.filterMap_map, Function.comp_def]
    have ha : Accounts c [] { c with
        closing := true, queue := [], pendingSpawns := ∅,
        slots := c.slots.map fun slot => { slot with state := .stopping, job := none } }
        (c.queue.map (failed .closed) ++ c.slots.values.flatMap stopping) := by
      refine ⟨fun job => ?_, fun h => (by cases h), fun _ => ⟨rfl, by simp⟩, fun _ => rfl⟩
      rw [known_count, known_count, settled_append, settled_failed, settled_stopping,
        Dict.values_map, hh, List.count_append]
      simp
    refine ⟨ha, fun u hu => ?_, ha.distinct (by simpa using ht.distinct), by simp, fun _ => ?_⟩
    swap
    · rw [known, Dict.values_map, hh]
      rfl
    rw [Dict.values_map, List.mem_map] at hu
    obtain ⟨slot, -, rfl⟩ := hu
    simp

lemma submit_accounts (c : ReaperCore) (e : ControlEvent) (ht : Tidy c) (hk : e.kind = .submit)
    (hn : e.job ≠ some "") :
    Accounts c (c.accepts e) (c.submit e).1 (c.submit e).2 ∧ Tidy (c.submit e).1 := by
  have hrefl : Accounts c [] c [] := .silent rfl rfl (fun _ => rfl) rfl rfl
  rw [submit, accepts]
  rw [if_neg (not_not.mpr hk)]
  cases hjob : e.job with
  | none => exact ⟨hrefl, ht⟩
  | some job =>
    dsimp only
    by_cases hcl : c.closing = true
    · simpa only [hcl, true_or, if_true] using And.intro hrefl ht
    · by_cases hkn : job ∈ c.known
      · simpa only [hkn, or_true, if_true, ite_self] using And.intro hrefl ht
      rw [if_neg hcl, if_neg hkn, if_neg (not_or.mpr ⟨hcl, hkn⟩)]
      have ha : Accounts c [job] { c with queue := c.queue ++ [job] } [] := by
        refine ⟨fun j => ?_, fun _ => by simp [sent], fun hc => absurd hc hcl, id⟩
        rw [known_count, known_count, List.count_append]
        simp only [settled, List.filterMap_nil, List.count_nil]
        omega
      refine ⟨ha, ht.running, ha.distinct fun j => ?_, ?_, fun hc => absurd hc hcl⟩
      · by_cases hj : j = job
        · have hz := List.count_eq_zero.mpr hkn
          rw [hj, hz]
          simp
        · rw [List.count_singleton, beq_eq_false_iff_ne.mpr (Ne.symm hj)]
          simpa using ht.distinct j
      · rw [List.mem_append, List.mem_singleton]
        rintro (h | h)
        · exact ht.named h
        · exact hn (by rw [hjob, ← h])

lemma handle_accounts (c : ReaperCore) (e : ControlEvent) (ht : Tidy c) (hl : Legal c e) :
    Accounts c (c.accepts e) (c.handle e).1 (c.handle e).2 ∧ Tidy (c.handle e).1 := by
  by_cases hk : e.kind = .submit
  · rw [handle, hk]
    exact submit_accounts c e ht hk (hl.named hk)
  · rw [accepts, if_pos hk]
    rw [handle]
    cases hkind : e.kind with
    | start | recover => exact fill_accounts c ht
    | spawned => exact spawned_accounts c e ht (hl.fresh hkind)
    | spawnFailed => exact spawnFailed_accounts c e ht
    | ready => exact ready_accounts c e ht
    | submit => exact absurd hkind hk
    | result => exact result_accounts c e ht
    | eof | sendFailed => exact lost_accounts c e ht
    | close => exact close_accounts c ht
    | deadline => exact deadline_accounts c ht

lemma apply_accounts (c : ReaperCore) (e : ControlEvent) (ht : Tidy c) (hl : Legal c e) :
    Accounts c (c.accepts e) (c.apply e).1 (c.apply e).2 ∧ Tidy (c.apply e).1 := by
  obtain ⟨ha, hth⟩ := handle_accounts c e ht hl
  obtain ⟨hd, htd, hcl⟩ := dispatch_accounts _ hth
  exact ⟨ha.trans hd hcl, htd⟩

structure Ledger (acc : List String) (c : ReaperCore) (fx : List ControlEffect) : Prop where
  count : ∀ job, acc.count job = (settled fx).count job + c.known.count job
  order : c.closing = false → acc = sent fx ++ c.queue
  sent_prefix : sent fx <+: acc

lemma Ledger.step {acc : List String} {c : ReaperCore} {fx : List ControlEffect} {e : ControlEvent}
    (h : Ledger acc c fx) (ht : Tidy c) (hl : Legal c e) :
    Ledger (acc ++ c.accepts e) (c.apply e).1 (fx ++ (c.apply e).2) := by
  obtain ⟨ha, -⟩ := apply_accounts c e ht hl
  have horder : (c.apply e).1.closing = false →
      acc ++ c.accepts e = sent (fx ++ (c.apply e).2) ++ (c.apply e).1.queue := by
    intro hc
    have hcl : c.closing = false := by
      cases h : c.closing
      · rfl
      · rw [ha.closing h] at hc
        cases hc
    rw [h.order hcl, List.append_assoc, ha.order hc, sent_append, List.append_assoc]
  refine ⟨fun job => ?_, horder, ?_⟩
  · have h₁ := h.count job
    have h₂ := ha.count job
    rw [List.count_append, settled_append, List.count_append]
    omega
  · cases hc : (c.apply e).1.closing
    · exact ⟨_, (horder hc).symm⟩
    · obtain ⟨hj, hs⟩ := ha.shut hc
      rw [hj, List.append_nil, sent_append, hs, List.append_nil]
      exact h.sent_prefix

lemma run_ledger {acc : List String} {c : ReaperCore} {fx : List ControlEffect}
    (es : List ControlEvent) (h : Ledger acc c fx) (ht : Tidy c) (hl : LegalRun c es) :
    Ledger (acc ++ accepted c es) (c.run es).1 (fx ++ (c.run es).2) ∧ Tidy (c.run es).1 := by
  induction es generalizing acc c fx with
  | nil => exact ⟨by simpa only [accepted, run, List.append_nil] using h, ht⟩
  | cons e es ih =>
    have hh := ih (h.step ht hl.1) (apply_accounts c e ht hl.1).2 hl.2
    simpa only [accepted, run, List.append_assoc] using hh

lemma Tidy.init (target : ℕ) : Tidy { target := target } := by
  refine ⟨fun slot hs => ?_, fun job => ?_, by simp, fun _ => rfl⟩
  · cases hs
  · exact Nat.zero_le 1

lemma mem_known {c : ReaperCore} (ht : Tidy c) (job : String) : job ∈ c.known ↔ Holds c job := by
  rw [known, List.mem_append, List.mem_filterMap, Holds]
  refine or_congr_right ⟨?_, ?_⟩
  · rintro ⟨slot, hs, hh⟩
    exact ⟨slot, hs, (ht.running slot hs).mp (by simp [hh]), (Option.filter_eq_some_iff.mp hh).1⟩
  · rintro ⟨slot, hs, hr, hj⟩
    obtain ⟨j, hh⟩ := Option.isSome_iff_exists.mp ((ht.running slot hs).mpr hr)
    have hj' := (Option.filter_eq_some_iff.mp hh).1
    rw [hj] at hj'
    exact ⟨slot, hs, hj' ▸ hh⟩

lemma known_count_holds {c : ReaperCore} (ht : Tidy c) (job : String) :
    c.known.count job = if Holds c job then 1 else 0 := by
  have hd := ht.distinct job
  split_ifs with h
  · have := List.count_pos_iff.mpr ((mem_known ht job).mpr h)
    omega
  · exact List.count_eq_zero.mpr (fun hm => h ((mem_known ht job).mp hm))

theorem jobs_conserved (target : ℕ) (es : List ControlEvent) (h : LegalRun { target := target } es) :
    let jobs := accepted { target := target } es
    let c := (run { target := target } es).1
    let fx := (run { target := target } es).2
    (∀ job, jobs.count job = (settled fx).count job + if Holds c job then 1 else 0) ∧
      c.known.Nodup ∧ sent fx <+: jobs := by
  have h₀ : Ledger [] { target := target } [] := ⟨fun _ => rfl, fun _ => rfl, List.nil_prefix⟩
  obtain ⟨hl, ht⟩ := run_ledger es h₀ (.init target) h
  simp only [List.nil_append] at hl
  refine ⟨fun job => ?_, List.nodup_iff_count_le_one.mpr ht.distinct, hl.sent_prefix⟩
  rw [hl.count job, known_count_holds ht]

instance (c : ReaperCore) (e : ControlEvent) : Decidable (Legal c e) :=
  decidable_of_iff ((e.kind = .submit → e.job ≠ some "") ∧
      (e.kind = .spawned → c.closing = false → ∀ i ∈ e.identity, c.slots.get i.fd = none))
    ⟨fun h => ⟨h.1, h.2⟩, fun h => ⟨h.1, h.2⟩⟩

instance decidableLegalRun : (c : ReaperCore) → (es : List ControlEvent) → Decidable (LegalRun c es)
  | _, [] => isTrue trivial
  | c, e :: es => @instDecidableAnd _ _ _ (decidableLegalRun (c.apply e).1 es)

def sample : List ControlEvent :=
  [{ kind := .start }, { kind := .spawned, gen := some 1, identity := some ⟨7, 1⟩ },
    { kind := .submit, job := some "a" }, { kind := .ready, identity := some ⟨7, 1⟩ },
    { kind := .submit, job := some "b" }, { kind := .eof, identity := some ⟨7, 1⟩ },
    { kind := .submit, job := some "a" }, { kind := .close }]

theorem jobs_conserved_sample :
    (accepted { target := 1 } sample).count "a" =
      (settled (run { target := 1 } sample).2).count "a" +
        if Holds (run { target := 1 } sample).1 "a" then 1 else 0 :=
  (jobs_conserved 1 sample (by decide)).1 "a"

end Reaper.Pool.ReaperCore
