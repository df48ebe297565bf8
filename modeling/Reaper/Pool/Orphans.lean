import Reaper.Library.Dict
import Mathlib.Data.List.Nodup
import Mathlib.Data.Finset.Basic

/-! No child outlives its parent. A child has only its own ends of its socket and pipes, so that the
only writer of a death pipe is the parent, and its reader sees the end when the parent is gone. -/

namespace Reaper.Pool.Orphans

open Reaper.Library

inductive File
  | inherited (n : ℕ)
  | parentSock (gen : ℕ) | childSock (gen : ℕ) | deathReader (gen : ℕ) | deathWriter (gen : ℕ)
  | configReader (gen : ℕ) | configWriter (gen : ℕ) | beat (gen : ℕ)
  deriving DecidableEq

structure Descriptor where
  file : File
  cloexec : Bool
  deriving DecidableEq

abbrev Table := Dict ℕ Descriptor

def childControlFd : ℕ := 3

def childDeathFd : ℕ := 4

def childConfigFd : ℕ := 5

def childBeatFd : ℕ := 6

structure Numbers where
  parentSock : ℕ
  childSock : ℕ
  deathReader : ℕ
  deathWriter : ℕ
  configReader : ℕ
  configWriter : ℕ
  controlSource : ℕ
  deathSource : ℕ
  configSource : ℕ
  beatFd : ℕ
  beatSource : ℕ

inductive FileAction
  | dup2 (source target : ℕ)
  | close (fd : ℕ)

namespace Numbers

variable (n : Numbers)

/-- What is open when the process is spawned. The configuration has been written by then. -/
def opened (gen : ℕ) : List (ℕ × File) :=
  [(n.parentSock, .parentSock gen), (n.childSock, .childSock gen), (n.deathReader, .deathReader gen),
    (n.deathWriter, .deathWriter gen), (n.configReader, .configReader gen),
    (n.controlSource, .childSock gen), (n.deathSource, .deathReader gen),
    (n.configSource, .configReader gen), (n.beatFd, .beat gen), (n.beatSource, .beat gen)]

def fileActions : List FileAction :=
  [.dup2 n.controlSource childControlFd, .dup2 n.deathSource childDeathFd,
    .dup2 n.configSource childConfigFd, .dup2 n.beatSource childBeatFd,
    .close n.controlSource, .close n.deathSource, .close n.configSource, .close n.beatSource]

def sources : List ℕ := [n.controlSource, n.deathSource, n.configSource, n.beatSource]

/-- Everything is open, and the sources are at least ten, as F_DUPFD_CLOEXEC gives them. A descriptor that Python
opens is closed by exec. -/
def Stands (gen : ℕ) (t : Table) : Prop :=
  (∀ e ∈ n.opened gen, t.get e.1 = some ⟨e.2, true⟩) ∧ ∀ fd ∈ n.sources, 10 ≤ fd

instance (gen : ℕ) (t : Table) : Decidable (n.Stands gen t) := inferInstanceAs (Decidable (_ ∧ _))

end Numbers

def act (t : Table) : FileAction → Table
  | .dup2 source target =>
    match t.get source with
    | some d => t.set target { d with cloexec := d.cloexec && source = target }
    | none => t
  | .close fd => t.erase fd

def exec (t : Table) : Table := t.filter fun _ d => !d.cloexec

def posixSpawn (t : Table) (actions : List FileAction) : Table := exec (actions.foldl act t)

def closes (t : Table) (fds : List ℕ) : Table := fds.foldl (fun t fd => t.erase fd) t

structure System where
  parent : Option Table
  children : Dict ℕ Table := Dict.empty
  spawned : List ℕ := []

/-- What the tasks of the parent do comes in any order, so that spawns may overlap. -/
inductive Event
  | parentOpens (fd : ℕ) (file : File)
  | spawn (gen : ℕ) (n : Numbers)
  | parentCloses (fd : ℕ)
  | parentExits
  | childCloses (gen : ℕ) (fd : ℕ)
  | childExits (gen : ℕ)
  /-- the read of watch_parent returns nothing, and the child ends its process group -/
  | watchParent (gen : ℕ)

namespace System

variable (s : System)

def holds (file : File) (t : Table) : Bool := t.entries.any fun e => e.2.file = file

def parentGone (gen : ℕ) : Bool :=
  !(s.parent.any (holds (.deathWriter gen)) || s.children.entries.any fun e => holds (.deathWriter gen) e.2)

def step : Event → Option System
  | .parentOpens fd file => s.parent.bind fun t =>
    if t.get fd = none then some { s with parent := some (t.set fd { file := file, cloexec := true }) } else none
  | .spawn gen n => s.parent.bind fun t =>
    if gen ∉ s.spawned ∧ n.Stands gen t then
      some { s with
        children := s.children.set gen (posixSpawn t n.fileActions)
        spawned := gen :: s.spawned }
    else none
  | .parentCloses fd => s.parent.map fun t => { s with parent := some (t.erase fd) }
  | .parentExits => some { s with parent := none }
  | .childCloses gen fd => (s.children.get gen).map fun t =>
    { s with children := s.children.set gen (t.erase fd) }
  | .childExits gen => some { s with children := s.children.erase gen }
  | .watchParent gen => (s.children.get gen).bind fun t => (t.get childDeathFd).bind fun d =>
    if d.file = .deathReader gen ∧ s.parentGone gen then
      some { s with children := s.children.erase gen }
    else none

def run : System → List Event → Option System
  | s, [] => some s
  | s, e :: es => (s.step e).bind fun s' => run s' es

end System

section Tables

variable {t : Table} {gen : ℕ} {n : Numbers}

lemma get_closes (fds : List ℕ) (fd : ℕ) : (closes t fds).get fd = if fd ∈ fds then none else t.get fd := by
  induction fds generalizing t with
  | nil => simp [closes]
  | cons j fds ih =>
    have hstep : (closes t (j :: fds)).get fd = if fd ∈ fds then none else (t.erase j).get fd := ih
    rw [hstep, Dict.get_erase]
    by_cases hj : fd = j
    · simp [hj]
    · simp [hj]

lemma get_dup2 {source target fd : ℕ} {d : Descriptor} (hd : t.get source = some d) (hne : source ≠ target) :
    (act t (.dup2 source target)).get fd = if fd = target then some { d with cloexec := false } else t.get fd := by
  rw [act]
  simp only [hd, hne, decide_false, Bool.and_false]
  exact Dict.get_set _ _ _ _

lemma get_dup2s (moves : List (ℕ × ℕ × File)) (hn : (moves.map fun m => m.2.1).Nodup)
    (hs : ∀ m ∈ moves, t.get m.1 = some ⟨m.2.2, true⟩ ∧ ∀ m' ∈ moves, m.1 ≠ m'.2.1) :
    (∀ m ∈ moves, ((moves.map fun m => FileAction.dup2 m.1 m.2.1).foldl act t).get m.2.1 = some ⟨m.2.2, false⟩) ∧
      ∀ fd, fd ∉ (moves.map fun m => m.2.1) →
        ((moves.map fun m => FileAction.dup2 m.1 m.2.1).foldl act t).get fd = t.get fd := by
  induction moves generalizing t with
  | nil => exact ⟨fun m hm => (by cases hm), fun _ _ => rfl⟩
  | cons m moves ih =>
    rw [List.map_cons, List.nodup_cons] at hn
    obtain ⟨hm, hne⟩ := hs m List.mem_cons_self
    have hfirst : ∀ fd, (act t (.dup2 m.1 m.2.1)).get fd =
        if fd = m.2.1 then some ⟨m.2.2, false⟩ else t.get fd :=
      fun fd => get_dup2 hm (hne m List.mem_cons_self)
    have hrest : ∀ m' ∈ moves, (act t (.dup2 m.1 m.2.1)).get m'.1 = some ⟨m'.2.2, true⟩ ∧
        ∀ m'' ∈ moves, m'.1 ≠ m''.2.1 := by
      intro m' hm'
      obtain ⟨hget, hne'⟩ := hs m' (List.mem_cons_of_mem _ hm')
      refine ⟨?_, fun m'' hm'' => hne' m'' (List.mem_cons_of_mem _ hm'')⟩
      rw [hfirst, if_neg (hne' m List.mem_cons_self), hget]
    obtain ⟨hmoved, hkept⟩ := ih hn.2 hrest
    refine ⟨fun m' hm' => ?_, fun fd hfd => ?_⟩
    · rcases List.mem_cons.mp hm' with rfl | hm'
      · refine (hkept m'.2.1 hn.1).trans ?_
        rw [hfirst, if_pos rfl]
      · exact hmoved m' hm'
    · rw [List.map_cons, List.mem_cons, not_or] at hfd
      refine (hkept fd hfd.2).trans ?_
      rw [hfirst, if_neg hfd.1]

lemma foldl_close (fds : List ℕ) : (fds.map FileAction.close).foldl act t = closes t fds := by
  induction fds generalizing t with
  | nil => rfl
  | cons fd fds ih => exact ih

namespace Numbers

def moves (n : Numbers) (gen : ℕ) : List (ℕ × ℕ × File) :=
  [(n.controlSource, childControlFd, .childSock gen), (n.deathSource, childDeathFd, .deathReader gen),
    (n.configSource, childConfigFd, .configReader gen), (n.beatSource, childBeatFd, .beat gen)]

lemma fileActions_eq (n : Numbers) (gen : ℕ) : n.fileActions =
    (n.moves gen).map (fun m => FileAction.dup2 m.1 m.2.1) ++ n.sources.map FileAction.close := rfl

lemma moves_opened {m : ℕ × ℕ × File} (h : m ∈ n.moves gen) : (m.1, m.2.2) ∈ n.opened gen := by
  simp only [moves, List.mem_cons, List.not_mem_nil, or_false] at h
  rcases h with rfl | rfl | rfl | rfl <;> simp [opened]

lemma moves_source {m : ℕ × ℕ × File} (h : m ∈ n.moves gen) : m.1 ∈ n.sources := by
  simp only [moves, List.mem_cons, List.not_mem_nil, or_false] at h
  rcases h with rfl | rfl | rfl | rfl <;> simp [sources]

lemma moves_target {m : ℕ × ℕ × File} (h : m ∈ n.moves gen) : m.2.1 < 10 := by
  simp only [moves, List.mem_cons, List.not_mem_nil, or_false] at h
  rcases h with rfl | rfl | rfl | rfl <;> simp [childControlFd, childDeathFd, childConfigFd, childBeatFd]

lemma moves_nodup (n : Numbers) (gen : ℕ) : ((n.moves gen).map fun m => m.2.1).Nodup := by
  have htargets : (n.moves gen).map (fun m => m.2.1) = [3, 4, 5, 6] := rfl
  rw [htargets]
  decide

end Numbers

lemma get_posixSpawn (hn : n.Stands gen t) :
    (∀ m ∈ n.moves gen, (posixSpawn t n.fileActions).get m.2.1 = some ⟨m.2.2, false⟩) ∧
      ∀ fd d, fd ∉ ((n.moves gen).map fun m => m.2.1) → (posixSpawn t n.fileActions).get fd = some d →
        t.get fd = some d ∧ d.cloexec = false := by
  obtain ⟨hopen, hten⟩ := hn
  have hlow : ∀ m ∈ n.moves gen, ∀ fd ∈ n.sources, fd ≠ m.2.1 := by
    intro m hm fd hfd
    have htarget := Numbers.moves_target hm
    have hsource := hten fd hfd
    omega
  obtain ⟨hmoved, hkept⟩ := get_dup2s (t := t) (n.moves gen) (n.moves_nodup gen)
    fun m hm => ⟨hopen _ (Numbers.moves_opened hm), fun m' hm' => hlow m' hm' m.1 (Numbers.moves_source hm)⟩
  have hget : ∀ fd, (posixSpawn t n.fileActions).get fd =
      (if fd ∈ n.sources then none else (((n.moves gen).map fun m => FileAction.dup2 m.1 m.2.1).foldl act
        t).get fd).filter fun d => !d.cloexec := by
    intro fd
    rw [posixSpawn, exec, Dict.get_filter, Numbers.fileActions_eq n gen, List.foldl_append, foldl_close,
      get_closes]
  refine ⟨fun m hm => ?_, fun fd d hfd hd => ?_⟩
  · rw [hget, if_neg fun hm' => hlow m hm _ hm' rfl, hmoved m hm]
    rfl
  · rw [hget, hkept fd hfd, Option.filter_eq_some_iff] at hd
    obtain ⟨hd, hclose⟩ := hd
    split_ifs at hd
    exact ⟨hd, by simpa using hclose⟩

end Tables

def Own (gen : ℕ) (file : File) : Prop :=
  (∃ n, file = .inherited n) ∨ file = .childSock gen ∨ file = .deathReader gen ∨
    file = .configReader gen ∨ file = .beat gen

structure Sound (s : System) : Prop where
  parent : ∀ t, s.parent = some t → ∀ fd d, t.get fd = some d → d.cloexec = false → ∃ n, d.file = .inherited n
  child : ∀ gen t, s.children.get gen = some t → ∀ fd d, t.get fd = some d → Own gen d.file
  death : ∀ gen t, s.children.get gen = some t → ∀ d, t.get childDeathFd = some d → d.file = .deathReader gen

section Runs

variable {s s' : System} {gen : ℕ} {t t' : Table} {e : Event} {es : List Event}

lemma holds_iff {file : File} : System.holds file t = true ↔ ∃ fd d, t.get fd = some d ∧ d.file = file := by
  rw [System.holds, List.any_eq_true]
  constructor
  · rintro ⟨⟨fd, d⟩, hm, hd⟩
    exact ⟨fd, d, (Dict.mem_entries _ _ _).mp hm, of_decide_eq_true hd⟩
  · rintro ⟨fd, d, hd, hf⟩
    exact ⟨(fd, d), (Dict.mem_entries _ _ _).mpr hd, decide_eq_true hf⟩

lemma Sound.start (h : ∀ fd d, t.get fd = some d → ∃ n, d.file = .inherited n) :
    Sound { parent := some t } := by
  refine ⟨fun t' ht fd d hd _ => ?_, fun _ _ ht => (by cases ht), fun _ _ ht => (by cases ht)⟩
  cases ht
  exact h fd d hd

lemma Sound.opens {fd : ℕ} {file : File} (h : Sound s) (ht : s.parent = some t) :
    Sound { s with parent := some (t.set fd { file := file, cloexec := true }) } := by
  refine ⟨fun t' ht' j d hd hc => ?_, h.child, h.death⟩
  cases ht'
  rw [Dict.get_set] at hd
  split_ifs at hd
  · cases hd
    cases hc
  · exact h.parent t ht j d hd hc

lemma Sound.spawn {n : Numbers} (h : Sound s) (ht : s.parent = some t) (hn : n.Stands gen t) :
    Sound { s with
      children := s.children.set gen (posixSpawn t n.fileActions)
      spawned := gen :: s.spawned } := by
  obtain ⟨hmoved, hkept⟩ := get_posixSpawn hn
  refine ⟨h.parent, Dict.forall_set (fun j u _ hu => h.child j u hu) fun fd d hd => ?_,
    Dict.forall_set (fun j u _ hu => h.death j u hu) fun d hd => ?_⟩
  · by_cases hm : fd ∈ (n.moves gen).map fun m => m.2.1
    · obtain ⟨m, hmove, rfl⟩ := List.mem_map.mp hm
      rw [hmoved m hmove, Option.some_inj] at hd
      rw [← hd]
      simp only [Numbers.moves, List.mem_cons, List.not_mem_nil, or_false] at hmove
      rcases hmove with rfl | rfl | rfl | rfl <;> simp [Own]
    · obtain ⟨hparent, hc⟩ := hkept fd d hm hd
      exact Or.inl (h.parent t ht fd d hparent hc)
  · have hm : (n.deathSource, childDeathFd, File.deathReader gen) ∈ n.moves gen := by simp [Numbers.moves]
    rw [hmoved _ hm, Option.some_inj] at hd
    rw [← hd]

lemma Sound.step (h : Sound s) (hs : s.step e = some s') : Sound s' := by
  cases e with
  | parentOpens fd file =>
    obtain ⟨t, ht, hs⟩ := Option.bind_eq_some_iff.mp hs
    split_ifs at hs
    cases hs
    exact h.opens ht
  | spawn gen n =>
    obtain ⟨t, ht, hs⟩ := Option.bind_eq_some_iff.mp hs
    split_ifs at hs with hn
    cases hs
    exact h.spawn ht hn.2
  | parentCloses fd =>
    obtain ⟨t, ht, rfl⟩ := Option.map_eq_some_iff.mp hs
    refine ⟨fun t' ht' j d hd hc => ?_, h.child, h.death⟩
    cases ht'
    rw [Dict.get_erase] at hd
    split_ifs at hd
    exact h.parent t ht j d hd hc
  | parentExits =>
    cases hs
    exact ⟨fun _ ht => (by cases ht), h.child, h.death⟩
  | childCloses gen fd =>
    obtain ⟨t, ht, rfl⟩ := Option.map_eq_some_iff.mp hs
    refine ⟨h.parent, Dict.forall_set (fun j u _ hu => h.child j u hu) fun j d hd => ?_,
      Dict.forall_set (fun j u _ hu => h.death j u hu) fun d hd => ?_⟩
    · rw [Dict.get_erase] at hd
      split_ifs at hd
      exact h.child gen t ht j d hd
    · rw [Dict.get_erase] at hd
      split_ifs at hd
      exact h.death gen t ht d hd
  | childExits gen =>
    cases hs
    exact ⟨h.parent, Dict.forall_erase fun j u _ hu => h.child j u hu,
      Dict.forall_erase fun j u _ hu => h.death j u hu⟩
  | watchParent gen =>
    obtain ⟨t, ht, hs⟩ := Option.bind_eq_some_iff.mp hs
    obtain ⟨d, hd, hs⟩ := Option.bind_eq_some_iff.mp hs
    split_ifs at hs
    cases hs
    exact ⟨h.parent, Dict.forall_erase fun j u _ hu => h.child j u hu,
      Dict.forall_erase fun j u _ hu => h.death j u hu⟩

lemma Sound.run (h : Sound s) (hr : s.run es = some s') : Sound s' := by
  induction es generalizing s with
  | nil =>
    cases hr
    exact h
  | cons e es ih =>
    obtain ⟨s₁, hs, hr⟩ := Option.bind_eq_some_iff.mp hr
    exact ih (h.step hs) hr

lemma Sound.childless (h : Sound s) {j : ℕ} {c : Table} (hc : s.children.get j = some c) (gen : ℕ) :
    System.holds (.deathWriter gen) c = false := by
  rw [Bool.eq_false_iff]
  intro hh
  obtain ⟨fd, d, hd, hf⟩ := holds_iff.mp hh
  have hown := h.child j c hc fd d hd
  rw [hf] at hown
  rcases hown with ⟨n, hn⟩ | hn | hn | hn | hn <;> cases hn

lemma Sound.parentGone (h : Sound s) (gen : ℕ) :
    s.parentGone gen = true ↔ ∀ t, s.parent = some t → System.holds (.deathWriter gen) t = false := by
  have hchildren : (s.children.entries.any fun e => System.holds (.deathWriter gen) e.2) = false := by
    rw [List.any_eq_false]
    intro e he hh
    rw [h.childless ((Dict.mem_entries _ _ _).mp he) gen] at hh
    cases hh
  rw [System.parentGone, hchildren, Bool.or_false, Bool.not_eq_true']
  cases s.parent with
  | none => simp
  | some t => simp

/-- A child that watches its parent is ended by its watcher when the parent is gone, and never while the
parent keeps its end of the death pipe, whatever else was spawned, closed or has exited. No child has that end. -/
theorem children_follow_parent (hinherited : ∀ fd d, t.get fd = some d → ∃ n, d.file = .inherited n)
    (hr : System.run { parent := some t } es = some s) :
    (∀ t', s.parent = some t' → System.holds (.deathWriter gen) t' = true → s.step (.watchParent gen) = none) ∧
      (s.parent = none → ∀ c, s.children.get gen = some c → c.get childDeathFd ≠ none →
        s.step (.watchParent gen) = some { s with children := s.children.erase gen }) ∧
      ∀ j c, s.children.get j = some c → System.holds (.deathWriter gen) c = false := by
  have h := (Sound.start hinherited).run hr
  refine ⟨fun t' ht' hh => ?_, fun hnone c hc hd => ?_, fun j c hc => h.childless hc gen⟩
  · have hgone : s.parentGone gen = false := by
      rw [Bool.eq_false_iff]
      intro hg
      rw [(h.parentGone gen).mp hg t' ht'] at hh
      cases hh
    rw [System.step, Option.bind_eq_none_iff]
    intro c _
    rw [Option.bind_eq_none_iff]
    intro d _
    rw [if_neg (by simp [hgone])]
  · obtain ⟨d, hd⟩ := Option.ne_none_iff_exists'.mp hd
    have hgone : s.parentGone gen = true := (h.parentGone gen).mpr fun t' ht' => by
      rw [hnone] at ht'
      cases ht'
    rw [System.step, hc, Option.bind_some, hd, Option.bind_some, if_pos ⟨h.death gen c hc d hd, hgone⟩]

end Runs

def firstNumbers (k : ℕ) : Numbers where
  parentSock := 20 * k + 20
  childSock := 20 * k + 21
  deathReader := 20 * k + 22
  deathWriter := 20 * k + 23
  configReader := 20 * k + 24
  configWriter := 20 * k + 25
  controlSource := 20 * k + 26
  deathSource := 20 * k + 27
  configSource := 20 * k + 28
  beatFd := 20 * k + 29
  beatSource := 20 * k + 30

def stdio : Table :=
  ((Dict.empty.set 0 ⟨.inherited 0, false⟩).set 1 ⟨.inherited 1, false⟩).set 2 ⟨.inherited 2, false⟩

lemma stdio_inherited (fd : ℕ) (d : Descriptor) (h : stdio.get fd = some d) : ∃ n, d.file = .inherited n := by
  have hall : ∀ e ∈ stdio.entries, e.2.file = .inherited e.1 := by decide
  exact ⟨fd, hall (fd, d) ((Dict.mem_entries _ _ _).mpr h)⟩

def orphaned : List Event :=
  ((firstNumbers 0).opened 1 ++ (firstNumbers 1).opened 2).map (fun e => .parentOpens e.1 e.2) ++
    [.spawn 1 (firstNumbers 0), .spawn 2 (firstNumbers 1)] ++
    ((firstNumbers 0).sources ++ (firstNumbers 1).sources).map .parentCloses ++ [.parentExits]

lemma orphaned_runs : (System.run { parent := some stdio } orphaned).isSome = true := by decide +kernel

def orphans : System := (System.run { parent := some stdio } orphaned).get orphaned_runs

lemma orphans_child : (orphans.children.get 1).isSome = true := by decide +kernel

theorem children_follow_parent_orphaned :
    orphans.step (.watchParent 1) = some { orphans with children := orphans.children.erase 1 } :=
  (children_follow_parent stdio_inherited (Option.some_get orphaned_runs).symm).2.1 rfl _
    (Option.some_get orphans_child).symm (by decide +kernel)

end Reaper.Pool.Orphans
