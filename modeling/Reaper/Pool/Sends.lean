import Reaper.Pool.Identities
import Reaper.Pool.Dispatch

/-! An open pool sends a job to the slot that runs it, and sends it once. -/

namespace Reaper.Pool

open Reaper.Library

namespace SkeletonPool

open ReaperCore

def runs (xs : List ControlEffect) : List ControlEffect := xs.filter fun x => x.kind = .sendRun

def Synced (p : SkeletonPool) : Prop :=
  ∀ fd slot s, p.slots.get fd = some slot → p.core.find (some slot.identity) = some s →
    slot.state = s.state ∧ slot.jobId = s.job

def Calm (p : SkeletonPool) : Prop := ∀ d ∈ p.drives, ∀ x ∈ d.pending, x.kind ≠ .sendRun

def Named (p : SkeletonPool) : Prop := ∀ i slot, p.retiredSlots.get i = some slot → slot.identity = i

variable {p q r : SkeletonPool} {owner : Owner} {after : After} {xs ys : List ControlEffect}
  {e : ControlEvent} {i : SkeletonID}

lemma syncSlots_synced (p : SkeletonPool) : Synced p.syncSlots := by
  intro fd slot s hslot hs
  rw [syncSlots, Dict.get_map] at hslot
  obtain ⟨old, -, rfl⟩ := Option.map_eq_some_iff.mp hslot
  have hid : (syncSlot p.core old).identity = old.identity := by
    rw [syncSlot]
    split <;> rfl
  have hold : p.core.find (some old.identity) = some s := hid ▸ hs
  rw [ReaperCore.find] at hold
  rw [syncSlot, hold]
  exact ⟨rfl, rfl⟩

lemma drop_named (hn : Named p) (slot : Slot) : Named (p.drop slot) := by
  intro i s hi
  rw [SkeletonPool.drop, Dict.get_set] at hi
  split_ifs at hi with heq
  · cases hi
    exact heq.symm
  · exact hn i s hi

structure Driven (owner : Owner) (after : After) (p : SkeletonPool) (xs : List ControlEffect) (q : SkeletonPool)
    (ys : List ControlEffect) : Prop where
  sends : q.sends ++ runs ys = p.sends ++ runs xs
  sending : q.sending = p.sending
  cancelled : q.cancelled = p.cancelled
  calm : Calm q
  readers : ∀ i ∈ p.readers, i ∈ q.readers ∨ Drops i xs ∨ owner = .reader i ∧ after ≠ .nothing

structure Ahead (q : SkeletonPool) (xs ys : List ControlEffect) : Prop where
  named : Named q
  suffix : ys ⊆ xs
  prompt : Prompt ys
  synced : Synced q ∨ Brief ys

lemma runs_eq_nil : runs xs = [] ↔ ∀ x ∈ xs, x.kind ≠ .sendRun := by
  simp [runs, List.filter_eq_nil_iff]

lemma runs_cons_of_ne {x : ControlEffect} (hx : x.kind ≠ .sendRun) : runs (x :: xs) = runs xs :=
  List.filter_cons_of_neg (by simpa using hx)

lemma Driven.same (h : Driven owner after p xs q ys) (hs : r.sends = q.sends)
    (hg : r.sending = q.sending) (hc : r.cancelled = q.cancelled) (hd : r.drives = q.drives)
    (hr : r.readers = q.readers) : Driven owner after p xs r ys where
  sends := hs ▸ h.sends
  sending := hg.trans h.sending
  cancelled := hc.trans h.cancelled
  calm := by
    rw [Calm, hd]
    exact h.calm
  readers := by
    rw [hr]
    exact h.readers

lemma Driven.tail {x : ControlEffect} (h : Driven owner after p xs q (x :: ys)) (hx : x.kind ≠ .sendRun) :
    Driven owner after p xs q ys := by
  have hsends := h.sends
  rw [runs_cons_of_ne hx] at hsends
  exact { h with sends := hsends }

lemma Driven.park (h : Driven owner after p xs q ys) (hy : ∀ y ∈ ys, y.kind ≠ .sendRun) :
    Driven owner after p xs (q.park owner after ys) [] where
  sends := by
    have hsends := h.sends
    rwa [runs_eq_nil.mpr hy] at hsends
  sending := h.sending
  cancelled := h.cancelled
  calm := by
    intro d hd
    rcases List.mem_append.mp hd with hd | hd
    · exact h.calm d hd
    · rw [List.mem_singleton.mp hd]
      exact hy
  readers := h.readers

lemma Ahead.next {x : ControlEffect} (h : Ahead q xs (x :: ys)) (hn : Named r) : Ahead r.syncSlots xs ys where
  named := hn
  suffix := fun _ hy => h.suffix (List.mem_cons_of_mem _ hy)
  prompt := h.prompt.imp (fun hb y hy => hb y (List.mem_cons_of_mem _ hy)) fun hnone y hy =>
    hnone y (List.mem_cons_of_mem _ hy)
  synced := Or.inl (syncSlots_synced r)

lemma Ahead.waits {x : ControlEffect} (h : Ahead q xs (x :: ys))
    (hk : x.kind = .spawn ∨ x.kind = .drop ∨ x.kind = .reap) :
    (∀ y ∈ x :: ys, y.kind ≠ .sendRun) ∧ Synced q := by
  have hbrief : ¬ Brief (x :: ys) := fun hb => by
    obtain ⟨h₁, h₂, h₃⟩ := hb x List.mem_cons_self
    rcases hk with hk | hk | hk
    · exact h₁ hk
    · exact h₂ hk
    · exact h₃ hk
  exact ⟨h.prompt.resolve_left hbrief, h.synced.resolve_right hbrief⟩

lemma scheduleRecovery_sends (p : SkeletonPool) (b : Bool) :
    (p.scheduleRecovery b).sends = p.sends ∧ (p.scheduleRecovery b).sending = p.sending ∧
      (p.scheduleRecovery b).cancelled = p.cancelled ∧ (p.scheduleRecovery b).readers = p.readers ∧
      (p.scheduleRecovery b).slots = p.slots := by
  obtain ⟨_, _, _, heq⟩ := scheduleRecovery_eq p b
  rw [heq]
  exact ⟨rfl, rfl, rfl, rfl, rfl⟩

lemma Driven.finish (h : Driven owner after p xs q []) :
    Driven owner after p xs (q.syncSlots.finish owner after) [] := by
  cases after with
  | nothing => exact ⟨h.sends, h.sending, h.cancelled, h.calm, h.readers⟩
  | scheduleRecovery b =>
    obtain ⟨hs, hg, hc, hr, -⟩ := scheduleRecovery_sends q.syncSlots b
    have hd := (scheduleRecovery_frame q.syncSlots b).2.1
    have hplain : Driven owner (.scheduleRecovery b) p xs (q.syncSlots.scheduleRecovery b) [] :=
      h.same hs hg hc hd hr
    cases owner with
    | reader i =>
      refine { hplain with readers := fun j hj => ?_ }
      rcases hplain.readers j hj with hj | hj
      · by_cases hi : j = i
        · exact Or.inr (Or.inr ⟨hi ▸ rfl, by simp⟩)
        · exact Or.inl (List.mem_filter.mpr ⟨hr ▸ hj, by simpa using hi⟩)
      · exact Or.inr hj
    | _ => exact hplain

lemma finish_synced (p : SkeletonPool) (owner : Owner) (after : After) :
    Synced (p.syncSlots.finish owner after) := by
  have hs := syncSlots_synced p
  have hcore := (finish_frame p.syncSlots owner after).1
  have hslots : (p.syncSlots.finish owner after).slots = p.syncSlots.slots := by
    cases after with
    | nothing => rfl
    | scheduleRecovery b =>
      have hr := (scheduleRecovery_sends p.syncSlots b).2.2.2.2
      cases owner <;> exact hr
  rw [Synced, hslots, hcore]
  exact hs

lemma drive_driven (owner : Owner) (after : After) (hn : Named p) (hc : Calm p) (hx : Prompt xs)
    (hs : Synced p ∨ Brief xs) :
    Driven owner after p xs (drive owner after xs p) [] ∧ Synced (drive owner after xs p) := by
  have hrule : DriveRule owner after (fun q ys => Driven owner after p xs q ys ∧ Ahead q xs ys)
      (fun q => Driven owner after p xs q [] ∧ Synced q) := {
    idle := fun {q x ys} ⟨h, ha⟩ hidle => by
      have hk : x.kind ≠ .sendRun := by
        intro hk
        simp [Idles, hk] at hidle
      exact ⟨(h.tail hk).same rfl rfl rfl rfl rfl, ha.next ha.named⟩
    send := fun {q x ys} ⟨h, ha⟩ hk => by
      refine ⟨⟨?_, h.sending, h.cancelled, h.calm, h.readers⟩,
        ha.next (r := { q with sends := q.sends ++ [x] }) ha.named⟩
      rw [← h.sends, runs, runs, List.filter_cons_of_pos (by simpa using hk)]
      exact List.append_assoc _ [x] _
    settle := fun {q x ys f} ⟨h, ha⟩ hk _ => by
      have hne : x.kind ≠ .sendRun := by
        rcases hk with hk | hk <;> rw [hk] <;> simp
      obtain ⟨_, _, heq⟩ := settle_eq q (x.job.getD "") f
      rw [heq]
      exact ⟨(h.tail hne).same rfl rfl rfl rfl rfl, ha.next ha.named⟩
    drop := fun {q x ys slot} ⟨h, ha⟩ hk hslot => by
      exact ⟨(h.tail (by simp [hk])).same rfl rfl rfl rfl rfl, ha.next (drop_named ha.named slot)⟩
    cancel := fun {q x ys slot} ⟨h, ha⟩ hk hslot _ => by
      obtain ⟨hnone, hsync⟩ := ha.waits (Or.inr (Or.inl hk))
      have hgone : Driven owner after p xs (q.cancelReader slot.identity) (x :: ys) := {
        sends := h.sends
        sending := h.sending
        cancelled := h.cancelled
        calm := fun d hd => h.calm d (List.mem_filter.mp hd).1
        readers := fun i hi => by
          rcases h.readers i hi with hi | hi
          · by_cases heq : i = slot.identity
            · refine Or.inr (Or.inl ⟨x, ha.suffix List.mem_cons_self, hk, ?_⟩)
              rw [heq]
              exact slotFor_named ha.named hslot
            · exact Or.inl (List.mem_filter.mpr ⟨hi, by simpa using heq⟩)
          · exact Or.inr hi }
      exact ⟨hgone.park hnone, hsync⟩
    wait := fun {q x ys} ⟨h, ha⟩ hk => by
      obtain ⟨hnone, hsync⟩ := ha.waits (hk.imp_right Or.inr)
      exact ⟨h.park hnone, hsync⟩
    finish := fun {q} ⟨h, _⟩ => ⟨h.finish, finish_synced q owner after⟩ }
  exact hrule.drive ⟨⟨rfl, rfl, rfl, hc, fun _ hi => Or.inl hi⟩, hn, fun _ hx => hx, hx, hs⟩

structure Sending (p : SkeletonPool) : Prop where
  inv : Inv True p []
  known : Known p
  saturated : Saturated p.core
  opened : p.closing = false
  uncancelled : p.cancelled = []
  addressed : ∀ x ∈ p.sends ++ p.sending, ∃ i job, x = sendRun i job ∧ Unique p.core i ∧
    ∀ s, p.core.find (some i) = some s → s.state = .running ∧ s.job = some job
  once : (p.sends ++ p.sending).Nodup
  calm : Calm p
  reads : ∀ i, Live p.core i → i ∈ p.readers
  synced : Synced p

structure Prepared (p r : SkeletonPool) (owner : Owner) (after : After) (xs : List ControlEffect) : Prop where
  inv : Inv True (drive owner after xs r) []
  follows : Follows p (drive owner after xs r)
  opened : r.closing = false
  uncancelled : r.cancelled = []
  sends : r.sends = p.sends
  sending : r.sending.Sublist p.sending
  calm : Calm r
  named : Named r
  prompt : Prompt xs
  synced : Synced r ∨ Brief xs
  saturated : Saturated r.core
  reads : ∀ i, Live r.core i → i ∈ r.readers ∧ ¬ Drops i xs ∧ (owner = .reader i → after = .nothing)
  old : ∀ i job, sendRun i job ∈ p.sends ++ p.sending → ∀ s, r.core.find (some i) = some s →
    s.state = .running ∧ s.job = some job
  new : ∀ x ∈ runs xs, ∃ i s job, x = sendRun i job ∧ r.core.find (some i) = some (taken s job) ∧
    x ∉ p.sends ++ p.sending
  once : (runs xs).Nodup

lemma Sending.drives (h : Sending p) (hp : Prepared p r owner after xs) :
    Sending (drive owner after xs r) ∧ (drive owner after xs r).core = r.core ∧
      (drive owner after xs r).sends = p.sends ++ runs xs ∧ (drive owner after xs r).sending = r.sending := by
  obtain ⟨hd, hsync⟩ := drive_driven owner after hp.named hp.calm hp.prompt hp.synced
  obtain ⟨hcore, hclosing, -⟩ := drive_frame owner after xs r
  have hsends : (drive owner after xs r).sends = p.sends ++ runs xs := by
    have hall := hd.sends
    rwa [hp.sends, runs_eq_nil.mpr (by simp), List.append_nil] at hall
  have hold : ∀ x ∈ p.sends ++ r.sending, x ∈ p.sends ++ p.sending := fun x hx =>
    ((List.Sublist.refl p.sends).append hp.sending).subset hx
  set q := drive owner after xs r with hq
  have hperm : (q.sends ++ q.sending).Perm (runs xs ++ (p.sends ++ r.sending)) := by
    rw [hsends, hd.sending, List.append_assoc]
    exact List.perm_append_comm_assoc _ _ _
  refine ⟨{
    inv := hp.inv
    known := hp.follows.known
    saturated := hcore ▸ hp.saturated
    opened := hclosing.trans hp.opened
    uncancelled := hd.cancelled.trans hp.uncancelled
    addressed := fun x hx => ?_
    once := hperm.nodup_iff.mpr ?_
    calm := hd.calm
    reads := fun i hi => ?_
    synced := hsync }, hcore, hsends, hd.sending⟩
  · rcases List.mem_append.mp (hperm.mem_iff.mp hx) with hx | hx
    · obtain ⟨i, s, job, rfl, hs, -⟩ := hp.new x hx
      have hfind : q.core.find (some i) = some (taken s job) := hcore ▸ hs
      have hid : q.ids i.fd = some i := by
        refine hp.inv.sound.held ?_ i (live_find.mpr ⟨_, hfind⟩)
        exact core_open hp.inv.sound (hclosing.trans hp.opened)
      refine ⟨i, job, rfl, hp.follows.known.unique i.fd i hid, fun s' hs' => ?_⟩
      cases hfind.symm.trans hs'
      exact ⟨rfl, rfl⟩
    · obtain ⟨i, job, rfl, hu, -⟩ := h.addressed x (hold x hx)
      exact ⟨i, job, rfl, hp.follows.unique i hu, hcore ▸ hp.old i job (hold _ hx)⟩
  · refine List.nodup_append.mpr ⟨hp.once, h.once.sublist ((List.Sublist.refl _).append hp.sending), ?_⟩
    rintro x hx y hy rfl
    obtain ⟨i, s, job, -, -, hnew⟩ := hp.new x hx
    exact hnew (hold x hy)
  · obtain ⟨hread, hdrop, howner⟩ := hp.reads i (hcore ▸ hi)
    rcases hd.readers i hread with hread | hdr | ⟨ho, ha⟩
    · exact hread
    · exact absurd hdr hdrop
    · exact absurd (howner ho) ha

inductive Steady (s : Option ControlSlot) (p q : SkeletonPool) (i : SkeletonID) : Prop
  | kept (find : q.core.find (some i) = s) (sends : ∀ job, sendRun i job ∈ q.sends ↔ sendRun i job ∈ p.sends)
  | took {slot : ControlSlot} {job : String} (was : s = some slot) (idle : slot.state = .idle)
    (find : q.core.find (some i) = some (taken slot job)) (sends : sendRun i job ∈ q.sends)

structure Fit (p r : SkeletonPool) (owner : Owner) (after : After) (e : ControlEvent) (xs : List ControlEffect) :
    Prop where
  core : r.core = p.core
  opened : r.closing = false
  uncancelled : r.cancelled = []
  sends : r.sends = p.sends
  sending : r.sending.Sublist p.sending
  calm : Calm r
  named : Named r
  rest : ∀ x ∈ xs, x.kind ≠ .sendRun
  quick : xs = [] ∨ ¬ Quick e
  notClose : e.kind ≠ .close
  fresh : e.kind = .spawned → ∀ i ∈ e.identity, p.core.slots.get i.fd = none
  synced : ¬ Quick e → Synced { r with core := (p.core.handle e).1 }
  reads : ∀ i, Live (p.core.apply e).1 i → i ∈ r.readers ∧ ¬ Drops i (xs ++ (p.core.apply e).2) ∧
    (owner = .reader i → after = .nothing)
  sent : ∀ i ∈ e.identity, ∀ job, sendRun i job ∈ p.sends ++ p.sending →
    ∀ s, (p.core.handle e).1.find (some i) = some s → s.state = .running ∧ s.job = some job

def driven (r : SkeletonPool) (owner : Owner) (after : After) (e : ControlEvent) (xs : List ControlEffect) :
    SkeletonPool :=
  drive owner after (xs ++ (r.core.apply e).2) { r with core := (r.core.apply e).1 }

lemma Sending.event (h : Sending p) (hf : Fit p r owner after e xs)
    (hinv : Inv True (r.driven owner after e xs) []) (hfol : Follows p (r.driven owner after e xs)) :
    Sending (r.driven owner after e xs) ∧ (r.driven owner after e xs).core = (p.core.apply e).1 ∧
      (r.driven owner after e xs).sending = r.sending ∧
      ∀ i, Steady ((p.core.handle e).1.find (some i)) p (r.driven owner after e xs) i := by
  have hplaced := h.inv.sound.placed
  obtain ⟨hsent, hnodup⟩ := apply_sent hplaced e
  have hhandled : ∀ i job, sendRun i job ∈ p.sends ++ p.sending →
      ∀ s, (p.core.handle e).1.find (some i) = some s → s.state = .running ∧ s.job = some job := by
    intro i job hx s hs
    by_cases hi : e.identity = some i
    · exact hf.sent i hi job hx s hs
    · rw [handle_find hf.notClose hi hf.fresh] at hs
      obtain ⟨j, job', heq, -, hrun⟩ := h.addressed _ hx
      cases heq
      exact hrun s hs
  have hruns : runs (xs ++ (p.core.apply e).2) = runs (p.core.apply e).2 := by
    rw [runs, List.filter_append, ← runs, runs_eq_nil.mpr hf.rest, List.nil_append, runs]
  have hprompt : Prompt (xs ++ (p.core.apply e).2) ∧ (Synced { r with core := (p.core.apply e).1 } ∨
      Brief (xs ++ (p.core.apply e).2)) := by
    by_cases hq : Quick e
    · rw [hf.quick.resolve_right (not_not.mpr hq), List.nil_append]
      exact ⟨Or.inl ((apply_reduces _ e).brief hq), Or.inr ((apply_reduces _ e).brief hq)⟩
    · have hdispatch := (handle_saturated h.saturated hq).dispatch
      refine ⟨Or.inr fun x hx => ?_, Or.inl ?_⟩
      · rcases List.mem_append.mp hx with hx | hx
        · exact hf.rest x hx
        · rw [ReaperCore.apply, hdispatch, List.append_nil] at hx
          exact handle_sends _ e x hx
      · rw [ReaperCore.apply, hdispatch]
        exact hf.synced hq
  rw [driven, hf.core] at hinv hfol ⊢
  have hprep : Prepared p { r with core := (p.core.apply e).1 } owner after (xs ++ (p.core.apply e).2) := {
    inv := hinv
    follows := hfol
    opened := hf.opened
    uncancelled := hf.uncancelled
    sends := hf.sends
    sending := hf.sending
    calm := hf.calm
    named := hf.named
    prompt := hprompt.1
    synced := hprompt.2
    saturated := dispatch_saturated _
    reads := hf.reads
    old := fun i job hx s hs => by
      rcases apply_moved hplaced e i with ⟨hfind, -⟩ | ⟨slot, job', hslot, hidle, -, -⟩
      · exact hhandled i job hx s (hfind ▸ hs)
      · have hrun := (hhandled i job hx slot hslot).1
        rw [hidle] at hrun
        cases hrun
    new := fun x hx => by
      rw [hruns] at hx
      obtain ⟨hx, hk⟩ := List.mem_filter.mp hx
      obtain ⟨i, s, job, rfl, hs, hidle, hs'⟩ := hsent x hx (of_decide_eq_true hk)
      refine ⟨i, s, job, rfl, hs', fun hm => ?_⟩
      have hrun := (hhandled i job hm s hs).1
      rw [hidle] at hrun
      cases hrun
    once := hruns ▸ hnodup }
  obtain ⟨hsending, hcore, hsends, hinside⟩ := h.drives hprep
  refine ⟨hsending, hcore, hinside, fun i => ?_⟩
  have hmem : ∀ job, sendRun i job ∈ (p.core.apply e).2 → sendRun i job ∈ runs (p.core.apply e).2 :=
    fun job hx => List.mem_filter.mpr ⟨hx, by simp [sendRun]⟩
  rcases apply_moved hplaced e i with ⟨hfind, hnone⟩ | ⟨slot, job, hslot, hidle, hfind, hx⟩
  · refine .kept (by rw [hcore]; exact hfind) fun job => ?_
    rw [hsends, hruns, List.mem_append]
    exact or_iff_left fun hx => hnone job (List.mem_filter.mp hx).1
  · refine .took hslot hidle (by rw [hcore]; exact hfind) ?_
    rw [hsends, hruns]
    exact List.mem_append_right _ (hmem job hx)

lemma no_drops_live {c : ReaperCore} (hk : e.kind ≠ .spawned) (hi : Live (c.apply e).1 i) :
    ¬ Drops i (c.apply e).2 := by
  intro hd
  rcases (apply_reduces c e).drops i hd with ⟨-, -, hn⟩ | ⟨hs, -⟩
  · exact hn hi
  · exact hk hs

lemma Fit.of_same (h : Sending p) (hc : r.core = p.core) (hslots : r.slots = p.slots)
    (ho : r.closing = p.closing) (hca : r.cancelled = p.cancelled) (hs : r.sends = p.sends)
    (hg : r.sending.Sublist p.sending) (hd : r.drives = p.drives) (hret : r.retiredSlots = p.retiredSlots)
    (hk : e.kind ≠ .spawned ∧ e.kind ≠ .close) (hown : Loses e ∨ Quick e ∨ e.identity = none)
    (hreads : ∀ i, Live (p.core.apply e).1 i → i ∈ r.readers ∧ (owner = .reader i → after = .nothing))
    (hsent : e.kind = .result → ∀ i ∈ e.identity, ∀ job, sendRun i job ∈ p.sends ++ p.sending →
      p.core.find (some i) = none) :
    Fit p r owner after e [] where
  core := hc
  opened := ho.trans h.opened
  uncancelled := hca.trans h.uncancelled
  sends := hs
  sending := hg
  calm := by
    rw [Calm, hd]
    exact h.calm
  named := by
    rw [Named, hret]
    exact h.inv.sound.retired
  rest := by simp
  quick := Or.inl rfl
  notClose := hk.2
  fresh := fun hsp => absurd hsp hk.1
  synced := by
    intro hq fd slot s hslot hfind
    dsimp only at hslot hfind
    rw [hslots] at hslot
    by_cases hi : e.identity = some slot.identity
    · rcases hown with hl | hq' | hnone
      · rw [lost_find hl hi] at hfind
        cases hfind
      · exact absurd hq' hq
      · cases hnone.symm.trans hi
    · rw [handle_find hk.2 hi fun hsp => absurd hsp hk.1] at hfind
      exact h.synced fd slot s hslot hfind
  reads := fun i hi => ⟨(hreads i hi).1, no_drops_live hk.1 hi, (hreads i hi).2⟩
  sent := by
    intro i hi job hx s hs
    obtain ⟨j, job', heq, -, hrun⟩ := h.addressed _ hx
    cases heq
    by_cases hr : e.kind = .result
    · rw [handle_none (hsent hr i hi job hx) (by simp [hr])] at hs
      cases hs
    · rcases hown with hl | hq | hnone
      · rw [lost_find hl hi] at hs
        cases hs
      · refine hrun s ?_
        rw [← hs]
        exact (handle_running (fun s hs => (hrun s hs).1) hr hk.2 hq).symm
      · rw [hnone] at hi
        cases hi

structure Elsewhere (p q : SkeletonPool) (i : SkeletonID) : Prop where
  slot : Steady (p.core.find (some i)) p q i
  sending : ∀ job, sendRun i job ∈ q.sending ↔ sendRun i job ∈ p.sending

lemma Elsewhere.refl (p : SkeletonPool) (i : SkeletonID) : Elsewhere p p i :=
  ⟨.kept rfl fun _ => Iff.rfl, fun _ => Iff.rfl⟩

lemma Sending.quiet (h : Sending p) (hinv : Inv True q []) (hfol : Follows p q) (hc : q.core = p.core)
    (hd : q.drives = p.drives) (hcl : q.closing = p.closing) (hca : q.cancelled = p.cancelled)
    (hr : q.readers = p.readers) (hsync : Synced q)
    (hsub : ∀ x ∈ q.sends ++ q.sending, x ∈ p.sends ++ p.sending) (hn : (q.sends ++ q.sending).Nodup) :
    Sending q where
  inv := hinv
  known := hfol.known
  saturated := hc ▸ h.saturated
  opened := hcl.trans h.opened
  uncancelled := hca.trans h.uncancelled
  addressed := by
    intro x hx
    obtain ⟨i, job, rfl, hu, hrun⟩ := h.addressed x (hsub x hx)
    exact ⟨i, job, rfl, hfol.unique i hu, hc ▸ hrun⟩
  once := hn
  calm := by
    rw [Calm, hd]
    exact h.calm
  reads := by
    rw [hc, hr]
    exact h.reads
  synced := hsync

lemma Sending.new (target : ℕ) : Sending (SkeletonPool.new target) where
  inv := .new target
  known := .new target
  saturated := .init target
  opened := rfl
  uncancelled := rfl
  addressed := by
    intro x hx
    cases hx
  once := List.nodup_nil
  calm := by
    intro d hd
    cases hd
  reads := by
    rintro i ⟨s, hs, -⟩
    cases hs
  synced := by
    intro fd slot s hslot
    cases hslot

lemma Sending.skipNumber (h : Sending p) :
    Sending { p with jobSequence := p.jobSequence + 1 } ∧
      ∀ i, Elsewhere p { p with jobSequence := p.jobSequence + 1 } i := by
  obtain ⟨hsound, hbooks⟩ := h.inv
  have hinv : Inv True { p with jobSequence := p.jobSequence + 1 } [] := {
    sound := hsound.frame rfl rfl rfl hsound.retired rfl rfl
    books := {
      jobs := fun job n hn => (hbooks.jobs job n hn).imp_left Nat.le_succ_of_le
      futures := fun n f hf => Nat.le_succ_of_le (hbooks.futures n f hf)
      covered := hbooks.covered
      once := hbooks.once
      done := hbooks.done } }
  exact ⟨h.quiet hinv (h.known.frame rfl fun _ _ hi => hi) rfl rfl rfl rfl rfl h.synced (fun _ hx => hx) h.once,
    fun i => ⟨.kept rfl fun _ => Iff.rfl, fun _ => Iff.rfl⟩⟩

lemma Sending.nameless (h : Sending p) (hfit : Fit p r owner after e []) (hinv : Inv True (r.apply owner after e) [])
    (hfol : Follows p (r.apply owner after e)) (hg : r.sending = p.sending) (hi : e.identity = none) :
    Sending (r.apply owner after e) ∧ ∀ i, Elsewhere p (r.apply owner after e) i := by
  obtain ⟨hq, -, hsending, hsteady⟩ := h.event hfit hinv hfol
  refine ⟨hq, fun i => ⟨?_, fun job => ?_⟩⟩
  · have hslot := hsteady i
    rwa [handle_find hfit.notClose (by simp [hi]) hfit.fresh] at hslot
  · rw [show (r.apply owner after e).sending = p.sending from hsending.trans hg]

lemma Sending.start (h : Sending p) (hq : p.step .start = some q) : Sending q ∧ ∀ i, Elsewhere p q i := by
  have hinv := h.inv.step (fun hn => absurd trivial hn) hq
  have hfol := h.known.step h.inv hq
  simp only [SkeletonPool.step, Option.ite_none_left_eq_some, Option.some_inj] at hq
  obtain ⟨-, rfl⟩ := hq
  refine h.nameless (.of_same h rfl rfl rfl rfl rfl (.refl _) rfl rfl (by simp) (by simp) (fun i hi => ?_)
    (by simp)) hinv hfol rfl rfl
  exact ⟨h.reads i ((apply_live hi).resolve_right (by simp)), by simp⟩

lemma Sending.recover (h : Sending p) (hq : p.step .recover = some q) : Sending q ∧ ∀ i, Elsewhere p q i := by
  have hinv := h.inv.step (fun hn => absurd trivial hn) hq
  have hfol := h.known.step h.inv hq
  simp only [SkeletonPool.step, Option.ite_none_right_eq_some, Option.some_inj] at hq
  obtain ⟨-, rfl⟩ := hq
  refine h.nameless (.of_same h rfl rfl rfl rfl rfl (.refl _) rfl rfl (by simp) (by simp) (fun i hi => ?_)
    (by simp)) hinv hfol rfl rfl
  exact ⟨h.reads i ((apply_live hi).resolve_right (by simp)), by simp⟩

lemma Sending.submit {token : String} {lazy : Bool} (h : Sending p) (hq : p.step (.submit token lazy) = some q) :
    Sending q ∧ ∀ i, Elsewhere p q i := by
  have hinv := h.inv.step (fun hn => absurd trivial hn) hq
  have hfol := h.known.step h.inv hq
  rw [SkeletonPool.step, SkeletonPool.submit, Option.ite_none_left_eq_some, Option.some_inj] at hq
  obtain ⟨-, rfl⟩ := hq
  refine h.nameless (.of_same h rfl rfl rfl rfl rfl (.refl _) rfl rfl (by simp) (by simp [Quick]) (fun i hi => ?_)
    (by simp)) hinv hfol rfl rfl
  exact ⟨h.reads i ((apply_live hi).resolve_right (by simp)), by simp⟩

lemma Sending.cancelFuture {n : ℕ} (h : Sending p) (hq : p.step (.cancelFuture n) = some q) :
    Sending q ∧ ∀ i, Elsewhere p q i := by
  have hinv := h.inv.step (fun hn => absurd trivial hn) hq
  have hfol := h.known.step h.inv hq
  simp only [SkeletonPool.step, Option.ite_none_right_eq_some, Option.some_inj] at hq
  obtain ⟨-, rfl⟩ := hq
  exact ⟨h.quiet hinv hfol rfl rfl rfl rfl rfl h.synced (fun _ hx => hx) h.once,
    fun i => ⟨.kept rfl fun _ => Iff.rfl, fun _ => Iff.rfl⟩⟩

lemma mem_erase_other {x : ControlEffect} (hx : x.identity ≠ some i) (l : List ControlEffect) (job : String) :
    sendRun i job ∈ l.erase x ↔ sendRun i job ∈ l :=
  List.mem_erase_of_ne fun h => hx (h ▸ rfl)

lemma Sending.send {x : ControlEffect} (h : Sending p) (hq : p.step (.send x) = some q) :
    Sending q ∧ q.core = p.core ∧ (∀ i, x.identity ≠ some i → Elsewhere p q i) ∧
      ∀ i job, x = sendRun i job → Live p.core i → (p.jobs.get job).isSome →
        sendRun i job ∈ q.sending ∧ sendRun i job ∉ q.sends := by
  have hinv := h.inv.step (fun hn => absurd trivial hn) hq
  have hfol := h.known.step h.inv hq
  have hnodup := List.nodup_append.mp h.once
  simp only [SkeletonPool.step, Option.ite_none_left_eq_some] at hq
  obtain ⟨hx, hq⟩ := hq
  rw [not_not] at hx
  obtain ⟨i, job, rfl, -, hrun⟩ := h.addressed x (List.mem_append_left _ hx)
  have hout : sendRun i job ∉ p.sends.erase (sendRun i job) := fun hm => by
    rw [hnodup.1.mem_erase_iff] at hm
    exact hm.1 rfl
  split at hq
  · next slot n hslot hjob =>
    cases hq
    have hid := slotFor_named h.inv.sound.retired hslot
    have hperm : (p.sends.erase (sendRun i job) ++ (p.sending ++ [sendRun i job])).Perm (p.sends ++ p.sending) := by
      refine List.perm_append_comm_assoc _ _ _ |>.trans ?_
      refine (List.Perm.append_left _ ?_).trans List.perm_append_comm
      exact (List.perm_append_singleton _ _).trans (List.perm_cons_erase hx).symm
    have hsync : Synced (SkeletonPool.assignJob { p with sends := p.sends.erase (sendRun i job) } slot (some job)) := by
      intro fd t s ht hs
      simp only [assignJob, Dict.get_map] at ht
      obtain ⟨old, hold, rfl⟩ := Option.map_eq_some_iff.mp ht
      split_ifs at hs ⊢ with heq
      · have hsame : old.identity = i := heq.trans (Option.some.inj hid).symm
        refine ⟨(h.synced fd old s hold hs).1, ?_⟩
        exact (hrun s (hsame ▸ hs)).2.symm
      · exact h.synced fd old s hold hs
    refine ⟨h.quiet hinv hfol rfl rfl rfl rfl rfl hsync (fun y hy => hperm.mem_iff.mp hy)
      (hperm.nodup_iff.mpr h.once), rfl, fun j hj => ⟨.kept rfl fun job' => ?_, fun job' => ?_⟩, fun j job' heq _ _ => ?_⟩
    · exact mem_erase_other hj _ job'
    · refine List.mem_append.trans (or_iff_left fun hm => ?_)
      cases List.mem_singleton.mp hm
      exact hj rfl
    · cases heq
      exact ⟨List.mem_append_right _ List.mem_cons_self, hout⟩
  · next hnone =>
    cases hq
    have hsub : (p.sends.erase (sendRun i job) ++ p.sending).Sublist (p.sends ++ p.sending) :=
      List.erase_sublist.append_right _
    refine ⟨h.quiet hinv hfol rfl rfl rfl rfl rfl h.synced (fun y hy => hsub.subset hy) (h.once.sublist hsub), rfl,
      fun j hj => ⟨.kept rfl fun job' => mem_erase_other hj _ job', fun _ => Iff.rfl⟩, fun j job' heq hlive hjob => ?_⟩
    cases heq
    obtain ⟨n, hn⟩ := Option.isSome_iff_exists.mp hjob
    have hid := h.inv.sound.held (core_open h.inv.sound h.opened) i hlive
    obtain ⟨slot, hslot, hident⟩ := Option.map_eq_some_iff.mp hid
    refine absurd hn (hnone slot n ?_)
    simp [sendRun, slotFor, hslot, hident, Option.filter]

lemma Sending.sent {x : ControlEffect} (h : Sending p) (hq : p.step (.sent x) = some q) :
    Sending q ∧ q.core = p.core ∧ q.sends = p.sends ∧ x ∉ q.sending ∧
      ∀ i, x.identity ≠ some i → Elsewhere p q i := by
  have hinv := h.inv.step (fun hn => absurd trivial hn) hq
  have hfol := h.known.step h.inv hq
  simp only [SkeletonPool.step, Option.ite_none_right_eq_some, Option.some_inj] at hq
  obtain ⟨-, rfl⟩ := hq
  have hsub : (p.sends ++ p.sending.erase x).Sublist (p.sends ++ p.sending) :=
    List.erase_sublist.append_left _
  refine ⟨h.quiet hinv hfol rfl rfl rfl rfl rfl h.synced (fun y hy => hsub.subset hy) (h.once.sublist hsub), rfl, rfl,
    fun hx => ?_, fun i hi => ⟨.kept rfl fun _ => Iff.rfl, mem_erase_other hi _⟩⟩
  exact ((List.nodup_append.mp h.once).2.1.mem_erase_iff.mp hx).1 rfl

lemma lost_gone {c : ReaperCore} (hk : Loses e) (hi : e.identity = some i) : ¬ Live (c.apply e).1 i := by
  rw [ReaperCore.apply, live_dispatch, live_find, lost_find hk hi]
  simp

lemma Sending.lost (h : Sending p) (hfit : Fit p r owner after e []) (hinv : Inv True (r.apply owner after e) [])
    (hfol : Follows p (r.apply owner after e)) (hk : Loses e) (hi : e.identity = some i)
    (hg : ∀ j ≠ i, ∀ job, sendRun j job ∈ r.sending ↔ sendRun j job ∈ p.sending) :
    Sending (r.apply owner after e) ∧ (r.apply owner after e).core.find (some i) = none ∧
      ∀ j ≠ i, Elsewhere p (r.apply owner after e) j := by
  obtain ⟨hq, -, hsending, hsteady⟩ := h.event hfit hinv hfol
  refine ⟨hq, ?_, fun j hj => ⟨?_, fun job => ?_⟩⟩
  · have hslot := hsteady i
    rw [lost_find hk hi] at hslot
    cases hslot with
    | kept find _ => exact find
    | took was => cases was
  · have hslot := hsteady j
    rwa [handle_find hfit.notClose (by simpa [hi] using hj.symm) hfit.fresh] at hslot
  · rw [show (r.apply owner after e).sending = r.sending from hsending]
    exact hg j hj job

lemma Sending.sendFailed {x : ControlEffect} (h : Sending p) (hx : x.identity = some i)
    (hq : p.step (.sendFailed x) = some q) :
    Sending q ∧ q.core.find (some i) = none ∧ ∀ j ≠ i, Elsewhere p q j := by
  have hinv := h.inv.step (fun hn => absurd trivial hn) hq
  have hfol := h.known.step h.inv hq
  simp only [SkeletonPool.step, hx, Option.ite_none_left_eq_some, Option.some_inj] at hq
  obtain ⟨-, rfl⟩ := hq
  refine h.lost (.of_same h rfl rfl rfl rfl rfl List.erase_sublist rfl rfl (by simp) (Or.inl (by simp [Loses]))
    (fun j hj => ?_) (by simp)) hinv hfol (Or.inr rfl) rfl fun j hj => mem_erase_other (by simpa [hx] using hj.symm) _
  exact ⟨h.reads j ((apply_live hj).resolve_right (by simp)), by simp⟩

lemma reading_held (hr : p.reading i = true) :
    ∃ slot, (p.slots.get i.fd).filter (fun s => s.identity = i) = some slot := by
  simp only [reading, Bool.decide_and, Bool.and_eq_true, decide_eq_true_eq, Option.any_eq_true] at hr
  obtain ⟨-, -, -, slot, hslot, hid⟩ := hr
  exact ⟨slot, by rw [hslot, Option.filter_some, if_pos (decide_eq_true hid)]⟩

lemma Sending.eof (h : Sending p) (hq : p.step (.eof i) = some q) :
    Sending q ∧ q.core.find (some i) = none ∧ ∀ j ≠ i, Elsewhere p q j := by
  have hinv := h.inv.step (fun hn => absurd trivial hn) hq
  have hfol := h.known.step h.inv hq
  simp only [SkeletonPool.step, Option.ite_none_right_eq_some, Option.some_inj] at hq
  obtain ⟨hreads, rfl⟩ := hq
  obtain ⟨slot, hslot⟩ := reading_held hreads
  rw [lose, hslot] at hinv hfol ⊢
  refine h.lost (.of_same h rfl rfl rfl rfl rfl (.refl _) rfl rfl (by simp) (Or.inl (by simp [Loses]))
    (fun j hj => ⟨h.reads j ((apply_live hj).resolve_right (by simp)), fun howner => ?_⟩) (by simp)) hinv hfol
    (Or.inl rfl) rfl fun _ _ _ => Iff.rfl
  cases howner
  exact absurd hj (lost_gone (Or.inl rfl) rfl)

lemma Sending.readerFault (h : Sending p) (hq : p.step (.readerFault i) = some q) :
    Sending q ∧ q.core.find (some i) = none ∧ ∀ j ≠ i, Elsewhere p q j := by
  have hinv := h.inv.step (fun hn => absurd trivial hn) hq
  have hfol := h.known.step h.inv hq
  simp only [SkeletonPool.step, Option.ite_none_right_eq_some, Option.some_inj] at hq
  obtain ⟨hreads, rfl⟩ := hq
  obtain ⟨slot, hslot⟩ := reading_held hreads
  rw [lose] at hinv hfol ⊢
  dsimp only at hinv hfol ⊢
  rw [hslot] at hinv hfol ⊢
  refine h.lost (.of_same h rfl rfl rfl rfl rfl (.refl _) rfl rfl (by simp) (Or.inl (by simp [Loses]))
    (fun j hj => ⟨?_, by simp⟩) (by simp)) hinv hfol (Or.inl rfl) rfl fun _ _ _ => Iff.rfl
  refine List.mem_filter.mpr ⟨h.reads j ((apply_live hj).resolve_right (by simp)), ?_⟩
  simpa using fun heq => lost_gone (Or.inl rfl) rfl (heq ▸ hj)

lemma Sending.told (h : Sending p) (hfit : Fit p r owner after e []) (hinv : Inv True (r.apply owner after e) [])
    (hfol : Follows p (r.apply owner after e)) (hi : e.identity = some i) (hg : r.sending = p.sending) :
    Sending (r.apply owner after e) ∧ (r.apply owner after e).sending = p.sending ∧
      Steady ((p.core.handle e).1.find (some i)) p (r.apply owner after e) i ∧
      ∀ j ≠ i, Elsewhere p (r.apply owner after e) j := by
  obtain ⟨hq, -, hsending, hsteady⟩ := h.event hfit hinv hfol
  have hsame : (r.apply owner after e).sending = p.sending := hsending.trans hg
  refine ⟨hq, hsame, hsteady i, fun j hj => ⟨?_, fun job => by rw [hsame]⟩⟩
  have hslot := hsteady j
  rwa [handle_find hfit.notClose (by simpa [hi] using hj.symm) hfit.fresh] at hslot

lemma Sending.ready {slot : ControlSlot} (h : Sending p) (hslot : p.core.find (some i) = some slot)
    (hs : slot.state = .starting) (hq : p.step (.ready i) = some q) :
    Sending q ∧ q.sending = p.sending ∧ Steady (some { slot with state := .idle }) p q i ∧
      ∀ j ≠ i, Elsewhere p q j := by
  have hinv := h.inv.step (fun hn => absurd trivial hn) hq
  have hfol := h.known.step h.inv hq
  simp only [SkeletonPool.step, Option.ite_none_right_eq_some, Option.some_inj] at hq
  obtain ⟨-, rfl⟩ := hq
  rw [← ready_find hslot hs]
  refine h.told (.of_same h rfl rfl rfl rfl rfl (.refl _) rfl rfl (by simp) (Or.inr (Or.inl (by simp [Quick])))
    (fun j hj => ⟨h.reads j ((apply_live hj).resolve_right (by simp)), by simp⟩) (by simp)) hinv hfol rfl rfl

def noted (p : SkeletonPool) (job : String) (n : Note) : SkeletonPool := { p with results := p.results.set job n }

lemma Sending.result_eq {slot : ControlSlot} {job : String} (h : Sending p) (ok : Bool) (n : Note)
    (hslot : p.core.find (some i) = some slot) (hs : slot.state = .running) (hj : slot.job = some job) :
    p.result i job ok n = (p.noted job n).apply (.reader i) .nothing
      { kind := .result, identity := some i, job := some job, ok := ok } := by
  have hid := h.inv.sound.held (core_open h.inv.sound h.opened) i (live_find.mpr ⟨slot, hslot⟩)
  obtain ⟨held, hheld, hident⟩ := Option.map_eq_some_iff.mp hid
  obtain ⟨hstate, hjob⟩ := h.synced i.fd held slot hheld (hident.symm ▸ hslot)
  simp only [result, hheld, hstate, hjob, hs, hj]
  rw [if_neg (by simp)]
  rfl

lemma Sending.result {slot : ControlSlot} {job : String} {ok : Bool} {n : Note} (h : Sending p)
    (hslot : p.core.find (some i) = some slot) (hs : slot.state = .running) (hj : slot.job = some job)
    (hfree : ∀ job, sendRun i job ∉ p.sends ++ p.sending) (hq : p.step (.result i job ok n) = some q) :
    Sending q ∧ q.sending = p.sending ∧ Steady (some { slot with state := .idle, job := none }) p q i ∧
      ∀ j ≠ i, Elsewhere p q j := by
  have hinv := h.inv.step (fun hn => absurd trivial hn) hq
  have hfol := h.known.step h.inv hq
  simp only [SkeletonPool.step, Option.ite_none_right_eq_some, Option.some_inj] at hq
  obtain ⟨-, rfl⟩ := hq
  rw [h.result_eq ok n hslot hs hj] at hinv hfol ⊢
  rw [← (result_find ok hslot hs hj).2]
  refine h.told (.of_same h rfl rfl rfl rfl rfl (.refl _) rfl rfl (by simp) (Or.inr (Or.inl (by simp [Quick])))
    (fun j hj => ⟨h.reads j ((apply_live hj).resolve_right (by simp)), by simp⟩) fun _ j hj job hx => ?_) hinv hfol
    rfl rfl
  cases hj
  exact absurd hx (hfree job)

lemma Sending.stray (h : Sending p) (hfit : Fit p r owner after e []) (hinv : Inv True (r.apply owner after e) [])
    (hfol : Follows p (r.apply owner after e)) (hi : e.identity = some i) (hg : r.sending = p.sending)
    (hk : e.kind ≠ .spawned) (hnone : p.core.find (some i) = none) :
    Sending (r.apply owner after e) ∧ ∀ j, Elsewhere p (r.apply owner after e) j := by
  obtain ⟨hq, hsame, hslot, helse⟩ := h.told hfit hinv hfol hi hg
  refine ⟨hq, fun j => ?_⟩
  by_cases hj : j = i
  · subst hj
    rw [handle_none hnone hk, ← hnone] at hslot
    exact ⟨hslot, fun job => by rw [hsame]⟩
  · exact helse j hj

lemma Sending.readyStray (h : Sending p) (hnone : p.core.find (some i) = none) (hq : p.step (.ready i) = some q) :
    Sending q ∧ ∀ j, Elsewhere p q j := by
  have hinv := h.inv.step (fun hn => absurd trivial hn) hq
  have hfol := h.known.step h.inv hq
  simp only [SkeletonPool.step, Option.ite_none_right_eq_some, Option.some_inj] at hq
  obtain ⟨-, rfl⟩ := hq
  exact h.stray (.of_same h rfl rfl rfl rfl rfl (.refl _) rfl rfl (by simp) (Or.inr (Or.inl (by simp [Quick])))
    (fun j hj => ⟨h.reads j ((apply_live hj).resolve_right (by simp)), by simp⟩) (by simp)) hinv hfol rfl rfl
    (by simp) hnone

lemma result_cases (p : SkeletonPool) (i : SkeletonID) (job : String) (ok : Bool) (n : Note) :
    p.result i job ok n = p ∨ p.result i job ok n = (p.noted job n).apply (.reader i) .nothing
      { kind := .result, identity := some i, job := some job, ok := ok } := by
  rw [SkeletonPool.result]
  split
  · exact Or.inl rfl
  · split_ifs
    · exact Or.inl rfl
    · exact Or.inr rfl

lemma Sending.resultStray {job : String} {ok : Bool} {n : Note} (h : Sending p) (hnone : p.core.find (some i) = none)
    (hq : p.step (.result i job ok n) = some q) : Sending q ∧ ∀ j, Elsewhere p q j := by
  have hinv := h.inv.step (fun hn => absurd trivial hn) hq
  have hfol := h.known.step h.inv hq
  simp only [SkeletonPool.step, Option.ite_none_right_eq_some, Option.some_inj] at hq
  obtain ⟨-, rfl⟩ := hq
  rcases result_cases p i job ok n with hsame | hsame <;> rw [hsame] at hinv hfol ⊢
  · exact ⟨h, fun j => ⟨.kept rfl fun _ => Iff.rfl, fun _ => Iff.rfl⟩⟩
  · refine h.stray (.of_same h rfl rfl rfl rfl rfl (.refl _) rfl rfl (by simp) (Or.inr (Or.inl (by simp [Quick])))
      (fun j hj => ⟨h.reads j ((apply_live hj).resolve_right (by simp)), by simp⟩) fun _ j hj _ _ => ?_) hinv hfol
      rfl rfl (by simp) hnone
    cases hj
    exact hnone

section Resume

variable {k : ℕ} {d : Drive} {x : ControlEffect} {gen fd : ℤ}

def unparked (p : SkeletonPool) (k : ℕ) : SkeletonPool := { p with drives := p.drives.eraseIdx k }

lemma Sending.pending (h : Sending p) (hd : p.drives[k]? = some d) : ∀ x ∈ d.pending, x.kind ≠ .sendRun :=
  h.calm d (List.mem_of_getElem? hd)

lemma Sending.unparked_calm (h : Sending p) (k : ℕ) : Calm (p.unparked k) :=
  fun d hd => h.calm d (List.mem_of_mem_eraseIdx hd)

lemma Sending.pending_gone (h : Sending p) (hd : p.drives[k]? = some d) (hi : Live p.core i) :
    ¬ Drops i d.pending ∧ d.owner ≠ .reader i := by
  have hmem := List.mem_of_getElem? hd
  refine ⟨fun ⟨x, hx, hdrop⟩ => h.inv.sound.dropped i ⟨x, List.mem_flatMap.mpr ⟨d, hmem, hx⟩, hdrop⟩ hi,
    fun ho => ?_⟩
  exact (h.inv.sound.reader d hmem i ho).1 hi

lemma Sending.goesOn (h : Sending p) (hd : p.drives[k]? = some d) (hpend : d.pending = x :: xs)
    (hinv : Inv True (drive d.owner d.after xs r) []) (hfol : Follows p (drive d.owner d.after xs r))
    (hc : r.core = p.core) (hcl : r.closing = p.closing) (hca : r.cancelled = p.cancelled) (hs : r.sends = p.sends)
    (hg : r.sending = p.sending) (hdr : r.drives = (p.unparked k).drives) (hr : r.readers = p.readers) (hn : Named r)
    (hsync : Synced r) :
    Sending (drive d.owner d.after xs r) ∧ ∀ i, Elsewhere p (drive d.owner d.after xs r) i := by
  have hrest : ∀ y ∈ xs, y.kind ≠ .sendRun := fun y hy =>
    h.pending hd y (hpend ▸ List.mem_cons_of_mem _ hy)
  have hprep : Prepared p r d.owner d.after xs := {
    inv := hinv
    follows := hfol
    opened := hcl.trans h.opened
    uncancelled := hca.trans h.uncancelled
    sends := hs
    sending := hg ▸ .refl _
    calm := by
      rw [Calm, hdr]
      exact h.unparked_calm k
    named := hn
    prompt := Or.inr hrest
    synced := Or.inl hsync
    saturated := hc ▸ h.saturated
    reads := fun i hi => by
      rw [hc] at hi
      obtain ⟨hdrop, howner⟩ := h.pending_gone hd hi
      refine ⟨hr ▸ h.reads i hi, fun ⟨y, hy, hy'⟩ => hdrop ⟨y, ?_, hy'⟩, fun ho => absurd ho howner⟩
      exact hpend ▸ List.mem_cons_of_mem _ hy
    old := fun i job hx s hs => by
      obtain ⟨j, job', heq, -, hrun⟩ := h.addressed _ hx
      cases heq
      exact hrun s (hc ▸ hs)
    new := fun y hy => by
      rw [runs_eq_nil.mpr hrest] at hy
      cases hy
    once := by
      rw [runs_eq_nil.mpr hrest]
      exact List.nodup_nil }
  obtain ⟨hq, hcore, hsends, hsending⟩ := h.drives hprep
  rw [runs_eq_nil.mpr hrest, List.append_nil] at hsends
  refine ⟨hq, fun i => ⟨.kept (by rw [hcore, hc]) fun job => by rw [hsends], fun job => ?_⟩⟩
  rw [hsending, hg]

lemma scheduleRecovery_core (p : SkeletonPool) (c : ReaperCore) (b : Bool) :
    { p with core := c }.scheduleRecovery b = { p.scheduleRecovery b with core := c } := by
  rw [scheduleRecovery, scheduleRecovery]
  dsimp only
  split_ifs <;> rfl

lemma Sending.spawnFailed (gen : ℤ) (h : Sending p) (hd : p.drives[k]? = some d) (hpend : d.pending = x :: xs)
    (hq : driven (p.unparked k |>.scheduleRecovery true) d.owner d.after { kind := .spawnFailed, gen := some gen }
      xs = q) (hinv : Inv True q []) (hfol : Follows p q) : Sending q ∧ ∀ i, Elsewhere p q i := by
  subst hq
  obtain ⟨hs, hg, hca, hr, hslots⟩ := scheduleRecovery_sends (p.unparked k) true
  obtain ⟨hc, hdr, -, hret, hcl, -⟩ := scheduleRecovery_frame (p.unparked k) true
  have hfit : Fit p (p.unparked k |>.scheduleRecovery true) d.owner d.after
      { kind := .spawnFailed, gen := some gen } xs := {
    core := hc
    opened := hcl.trans h.opened
    uncancelled := hca.trans h.uncancelled
    sends := hs
    sending := hg ▸ .refl _
    calm := by
      rw [Calm, hdr]
      exact h.unparked_calm k
    named := by
      rw [Named, hret]
      exact h.inv.sound.retired
    rest := fun y hy => h.pending hd y (hpend ▸ List.mem_cons_of_mem _ hy)
    quick := Or.inr (by simp [Quick])
    notClose := by simp
    fresh := by simp
    synced := fun _ fd slot s hslot hfind => by
      dsimp only at hslot hfind
      rw [hslots] at hslot
      rw [handle_find (by simp) (by simp) (by simp)] at hfind
      exact h.synced fd slot s hslot hfind
    reads := fun i hi => by
      have hlive := (apply_live hi).resolve_right (by simp)
      obtain ⟨hdrop, howner⟩ := h.pending_gone hd hlive
      refine ⟨hr ▸ h.reads i hlive, fun hdr => ?_, fun ho => absurd ho howner⟩
      rcases drops_append.mp hdr with ⟨y, hy, hy'⟩ | hdr
      · exact hdrop ⟨y, hpend ▸ List.mem_cons_of_mem _ hy, hy'⟩
      · exact no_drops_live (by simp) hi hdr
    sent := by simp }
  obtain ⟨hq, -, hsending, hsteady⟩ := h.event hfit hinv hfol
  refine ⟨hq, fun i => ⟨?_, fun job => ?_⟩⟩
  · have hslot := hsteady i
    rwa [handle_find (by simp) (by simp) (by simp)] at hslot
  · rw [hsending, hg]
    exact Iff.rfl

def awaiting (p : SkeletonPool) (k : ℕ) (gen fd : ℤ) : SkeletonPool :=
  { ((p.unparked k).bornSlot gen fd).syncSlots with core := p.core }

def bornEvent (gen fd : ℤ) : ControlEvent := { kind := .spawned, identity := some ⟨fd, gen⟩, gen := some gen }

lemma spawned_find {c : ReaperCore} (gen fd : ℤ) :
    (gen ∈ c.pendingSpawns ∧ (c.handle (bornEvent gen fd)).1.find (some ⟨fd, gen⟩) =
        some { identity := ⟨fd, gen⟩, state := .starting }) ∨
      (c.handle (bornEvent gen fd)).1.find (some ⟨fd, gen⟩) = c.find (some ⟨fd, gen⟩) := by
  simp only [handle, bornEvent, spawned]
  split_ifs with hpend hclosing
  · exact Or.inr rfl
  · refine Or.inl ⟨hpend, find_of_get ?_ rfl⟩
    rw [(fill_spec _).2.1]
    exact Dict.get_set_self _ _ _
  · exact Or.inr rfl

lemma Sending.spawned (h : Sending p) (hd : p.drives[k]? = some d) (hpend : d.pending = x :: xs)
    (hk : x.kind = .spawn) (hgen : x.gen = some gen) (hfree : p.slots.get fd = none)
    (hq : driven (p.awaiting k gen fd) d.owner d.after (bornEvent gen fd) xs = q) (hinv : Inv True q [])
    (hfol : Follows p q) :
    Sending q ∧ ∀ i, Elsewhere p q i ∨ i = ⟨fd, gen⟩ ∧ (∀ job, sendRun i job ∉ q.sends ++ q.sending) ∧
      q.core.find (some i) = some { identity := i, state := .starting } := by
  subst hq
  have hempty : p.core.slots.get fd = none := h.inv.sound.free (core_open h.inv.sound h.opened) hfree
  have hnone : p.core.find (some ⟨fd, gen⟩) = none := by
    rw [ReaperCore.find, hempty]
    rfl
  have hmem := List.mem_of_getElem? hd
  have hasked : gen ∈ spawnGens (p.inPlay []) := by
    refine List.mem_filterMap.mpr ⟨x, List.mem_flatMap.mpr ⟨d, hmem, hpend ▸ List.mem_cons_self⟩, ?_⟩
    rw [spawnedBy, if_pos hk, hgen]
  have htraced := (h.inv.sound.fresh gen hasked).2
  -- a send to the new identity would be to one that the core does not wait for
  have hsent : ∀ job, sendRun ⟨fd, gen⟩ job ∈ p.sends ++ p.sending →
      (p.core.handle (bornEvent gen fd)).1.find (some ⟨fd, gen⟩) = none := by
    intro job hx
    obtain ⟨j, job', heq, hu, -⟩ := h.addressed _ hx
    cases heq
    rcases spawned_find gen fd (c := p.core) with ⟨hpending, -⟩ | hsame
    · exact absurd hpending hu.born
    · exact hsame.trans hnone
  have hfit : Fit p (p.awaiting k gen fd) d.owner d.after (bornEvent gen fd) xs := {
    core := rfl
    opened := h.opened
    uncancelled := h.uncancelled
    sends := rfl
    sending := .refl _
    calm := h.unparked_calm k
    named := h.inv.sound.retired
    rest := fun y hy => h.pending hd y (hpend ▸ List.mem_cons_of_mem _ hy)
    quick := Or.inr (by simp [Quick, bornEvent])
    notClose := by simp [bornEvent]
    fresh := fun _ i hi => by
      cases hi
      exact hempty
    synced := fun hq => by
      have hsync := syncSlots_synced ((p.unparked k).bornSlot gen fd)
      have hcore : (((p.unparked k).bornSlot gen fd).syncSlots).core = (p.core.handle (bornEvent gen fd)).1 := by
        change (p.core.apply (bornEvent gen fd)).1 = _
        rw [ReaperCore.apply, (handle_saturated h.saturated hq).dispatch]
      rw [Synced, hcore] at hsync
      exact hsync
    reads := fun i hi => by
      rcases apply_live hi with hlive | ⟨-, hid, -⟩
      · obtain ⟨hdrop, howner⟩ := h.pending_gone hd hlive
        refine ⟨List.mem_append_left _ (h.reads i hlive), fun hdr => ?_, fun ho => absurd ho howner⟩
        rcases drops_append.mp hdr with ⟨y, hy, hy'⟩ | hdr
        · exact hdrop ⟨y, hpend ▸ List.mem_cons_of_mem _ hy, hy'⟩
        · rcases (apply_reduces _ _).drops i hdr with ⟨-, -, hn⟩ | ⟨-, hid, -⟩
          · exact hn hi
          · cases hid
            exact htraced _ (Or.inl hlive) rfl
      · cases hid
        refine ⟨List.mem_append_right _ List.mem_cons_self, fun hdr => ?_, fun ho => ?_⟩
        · rcases drops_append.mp hdr with ⟨y, hy, hy'⟩ | hdr
          · refine htraced _ (Or.inr (Or.inl ⟨y, List.mem_flatMap.mpr ⟨d, hmem, ?_⟩, hy'⟩)) rfl
            exact hpend ▸ List.mem_cons_of_mem _ hy
          · rcases (apply_reduces _ _).drops _ hdr with ⟨-, -, hn⟩ | ⟨-, -, hback⟩
            · exact hn hi
            · obtain ⟨s, hs⟩ := live_find.mp (hback hi)
              cases hnone.symm.trans hs
        · exact absurd rfl (htraced _ (Or.inr (Or.inr ⟨d, hmem, ho⟩)))
    sent := fun i hi job hx s hs => by
      cases hi
      cases (hsent job hx).symm.trans hs }
  obtain ⟨hq, -, hsending, hsteady⟩ := h.event hfit hinv hfol
  refine ⟨hq, fun i => ?_⟩
  have hslot := hsteady i
  by_cases hi : i = ⟨fd, gen⟩
  · subst hi
    rcases spawned_find gen fd (c := p.core) with ⟨hpending, hfind⟩ | hsame
    · refine Or.inr ⟨rfl, fun job hx => ?_, ?_⟩
      · have hx : sendRun ⟨fd, gen⟩ job ∈ p.sends ++ p.sending := by
          rw [hsending] at hx
          cases hslot with
          | kept _ sends => exact List.mem_append.mpr ((List.mem_append.mp hx).imp_left (sends job).mp)
          | took was idle _ _ =>
            cases hfind.symm.trans was
            cases idle
        cases hfind.symm.trans (hsent job hx)
      · cases hslot with
        | kept find _ => exact find.trans hfind
        | took was idle _ _ =>
          cases hfind.symm.trans was
          cases idle
    · rw [hsame] at hslot
      exact Or.inl ⟨hslot, fun job => by rw [hsending]; exact Iff.rfl⟩
  · rw [handle_find hfit.notClose (by simpa [bornEvent] using fun h => hi h.symm) hfit.fresh] at hslot
    exact Or.inl ⟨hslot, fun job => by rw [hsending]; exact Iff.rfl⟩

lemma Sending.resume {spawned : Option ℤ} (h : Sending p) (hq : p.step (.resume k spawned) = some q) :
    Sending q ∧ ∀ i, Elsewhere p q i ∨
      (∃ fd d x, spawned = some fd ∧ p.drives[k]? = some d ∧ d.pending.head? = some x ∧ x.gen = some i.gen ∧
        i.fd = fd) ∧
      p.core.find (some i) = none ∧ (∀ job, sendRun i job ∉ q.sends ++ q.sending) ∧
      q.core.find (some i) = some { identity := i, state := .starting } := by
  have hinv := h.inv.step (fun hn => absurd trivial hn) hq
  have hfol := h.known.step h.inv hq
  simp only [SkeletonPool.step] at hq
  split at hq
  · cases hq
  · next d hd =>
    have hret : Named (p.unparked k) := h.inv.sound.retired
    have hplain : ∀ {r : SkeletonPool} {x xs}, d.pending = x :: xs → drive d.owner d.after xs r = q →
        r.core = p.core → r.closing = p.closing → r.cancelled = p.cancelled → r.sends = p.sends →
        r.sending = p.sending → r.drives = (p.unparked k).drives → r.readers = p.readers → Named r → Synced r →
        Sending q ∧ ∀ i, Elsewhere p q i := by
      intro r x xs hpend hdrive hc hcl hca hs hg hdr hr hn hsync
      subst hdrive
      exact h.goesOn hd hpend hinv hfol hc hcl hca hs hg hdr hr hn hsync
    cases SkeletonPool.resumed hq with
    | spawned pending kind named free =>
      next x xs gen fd =>
      obtain ⟨hsend, helse⟩ := h.spawned hd pending kind named free rfl hinv hfol
      refine ⟨hsend, fun i => (helse i).imp_right ?_⟩
      rintro ⟨rfl, hnone, hfind⟩
      refine ⟨⟨fd, d, x, rfl, hd, by rw [pending]; rfl, named, rfl⟩, ?_, hnone, hfind⟩
      rw [ReaperCore.find, h.inv.sound.free (core_open h.inv.sound h.opened) free]
      rfl
    | spawnFailed pending kind named =>
      next x xs gen =>
      have hdrive := scheduleRecovery_core (p.unparked k) (p.core.apply { kind := .spawnFailed, gen := some gen }).1 true
      obtain ⟨hsend, helse⟩ := h.spawnFailed gen hd pending (by
        rw [driven, (scheduleRecovery_frame (p.unparked k) true).1]
        exact congrArg _ hdrive.symm) hinv hfol
      exact ⟨hsend, fun i => Or.inl (helse i)⟩
    | gone pending _ _ =>
      obtain ⟨hsend, helse⟩ := hplain pending rfl rfl rfl rfl rfl rfl rfl rfl hret (syncSlots_synced _)
      exact ⟨hsend, fun i => Or.inl (helse i)⟩
    | dropped pending kind found =>
      obtain ⟨hsend, helse⟩ :=
        hplain pending rfl rfl rfl rfl rfl rfl rfl rfl (drop_named hret _) (syncSlots_synced _)
      exact ⟨hsend, fun i => Or.inl (helse i)⟩
    | reaped pending kind named =>
      next x xs j =>
      have hn : Named { p.unparked k with retiredSlots := p.retiredSlots.erase j } := by
        intro i s hi
        rw [Dict.get_erase] at hi
        split_ifs at hi
        exact hret i s hi
      obtain ⟨hsend, helse⟩ := hplain pending rfl rfl rfl rfl rfl rfl rfl rfl hn (syncSlots_synced _)
      exact ⟨hsend, fun i => Or.inl (helse i)⟩

end Resume

end SkeletonPool

end Reaper.Pool
