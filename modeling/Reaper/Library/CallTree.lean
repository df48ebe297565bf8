import Mathlib.Logic.Relation
import Mathlib.Data.List.Basic

/-! Programs that call one another. A program runs until it has a verdict, or until it needs the
verdicts of a batch of calls, and goes on from these. -/

namespace Reaper.Library

open Relation

inductive Pause (C V S : Type)
  | verdict (v : V)
  | stuck
  | batch (calls : List C) (resume : List V → S)

structure CallTree (C V S : Type) where
  start : C → S
  pause : S → Pause C V S

namespace CallTree

variable {C V S : Type} {T : CallTree C V S}

/-- The verdict a program comes to when each call is replaced by the verdict of what it calls, and
the calls that are made, here and below, in order. -/
inductive Evaluates (T : CallTree C V S) : S → V → List C → Prop
  | verdict {s : S} {v : V} (h : T.pause s = .verdict v) : Evaluates T s v []
  | batch {s : S} {calls : List C} {resume : List V → S} {v : V} {log : List C} (vs : C → V)
      (logs : C → List C) (h : T.pause s = .batch calls resume)
      (hc : ∀ c ∈ calls, Evaluates T (T.start c) (vs c) (logs c))
      (hr : Evaluates T (resume (calls.map vs)) v log) :
      Evaluates T s v (calls.flatMap (fun c => c :: logs c) ++ log)

def Advance (T : CallTree C V S) (a b : S × List C) : Prop :=
  ∃ (calls : List C) (resume : List V → S) (vs : C → V) (logs : C → List C),
    T.pause a.1 = .batch calls resume ∧ (∀ c ∈ calls, Evaluates T (T.start c) (vs c) (logs c)) ∧
    b = (resume (calls.map vs), a.2 ++ calls.flatMap fun c => c :: logs c)

def Reaches (T : CallTree C V S) (s t : S) (log : List C) : Prop :=
  ReflTransGen (Advance T) (s, []) (t, log)

def Calls (T : CallTree C V S) (c d : C) : Prop :=
  ∃ s log calls resume, T.Reaches (T.start c) s log ∧ T.pause s = .batch calls resume ∧ d ∈ calls

def Below (T : CallTree C V S) : C → C → Prop := ReflTransGen (Calls T)

theorem Evaluates.unique {s : S} {v v' : V} {log log' : List C} (h : T.Evaluates s v log)
    (h' : T.Evaluates s v' log') : v' = v ∧ log' = log := by
  induction h generalizing v' log' with
  | verdict hp =>
    cases h' with
    | verdict hp' =>
      rw [hp] at hp'
      cases hp'
      exact ⟨rfl, rfl⟩
    | batch _ _ hp' _ _ =>
      rw [hp] at hp'
      cases hp'
  | batch vs logs hp hc hr ih ihr =>
    cases h' with
    | verdict hp' =>
      rw [hp] at hp'
      cases hp'
    | batch vs' logs' hp' hc' hr' =>
      rw [hp] at hp'
      cases hp'
      have hmap := List.map_congr_left fun c hm => (ih c hm (hc' c hm)).1
      have hlog := List.flatMap_congr fun c hm => congrArg (List.cons c) (ih c hm (hc' c hm)).2
      rw [hmap] at hr'
      obtain ⟨rfl, rfl⟩ := ihr hr'
      exact ⟨rfl, by rw [hlog]⟩

lemma verdicts_unique {calls : List C} {vs vs' : C → V} {logs logs' : C → List C}
    (h : ∀ c ∈ calls, T.Evaluates (T.start c) (vs c) (logs c))
    (h' : ∀ c ∈ calls, T.Evaluates (T.start c) (vs' c) (logs' c)) : calls.map vs' = calls.map vs ∧
      (calls.flatMap fun c => c :: logs' c) = calls.flatMap fun c => c :: logs c :=
  ⟨List.map_congr_left fun c hm => ((h c hm).unique (h' c hm)).1,
    List.flatMap_congr fun c hm => congrArg (List.cons c) ((h c hm).unique (h' c hm)).2⟩

lemma advance_unique : Relator.RightUnique (Advance T) := by
  rintro a b b' ⟨calls, resume, vs, logs, hp, hc, rfl⟩ ⟨calls', resume', vs', logs', hp', hc', rfl⟩
  rw [hp] at hp'
  cases hp'
  obtain ⟨hmap, hlog⟩ := verdicts_unique hc' hc
  rw [hmap, hlog]

lemma Reaches.advance {s t : S} {log : List C} {calls : List C} {resume : List V → S} (vs : C → V)
    (logs : C → List C) (h : T.Reaches s t log) (hp : T.pause t = .batch calls resume)
    (hc : ∀ c ∈ calls, T.Evaluates (T.start c) (vs c) (logs c)) :
    T.Reaches s (resume (calls.map vs)) (log ++ calls.flatMap fun c => c :: logs c) :=
  h.tail ⟨calls, resume, vs, logs, hp, hc, rfl⟩

lemma Reaches.evaluates {s t : S} {v : V} {made log : List C} (h : T.Reaches s t made)
    (he : T.Evaluates t v log) : T.Evaluates s v (made ++ log) := by
  suffices hs : ∀ a b : S × List C, ReflTransGen (Advance T) a b → ∀ log', T.Evaluates b.1 v log' →
      ∃ l, T.Evaluates a.1 v l ∧ a.2 ++ l = b.2 ++ log' by
    obtain ⟨l, hl, heq⟩ := hs _ _ h log he
    rw [List.nil_append] at heq
    exact heq ▸ hl
  intro a b hab
  induction hab with
  | refl => exact fun log' he => ⟨log', he, rfl⟩
  | tail _ hbc ih =>
    rintro log' he
    obtain ⟨calls, resume, vs, logs, hp, hc, rfl⟩ := hbc
    obtain ⟨l, hl, heq⟩ := ih _ (.batch vs logs hp hc he)
    exact ⟨l, hl, by rw [heq, List.append_assoc]⟩

lemma Evaluates.rest {s t : S} {v : V} {made log : List C} (he : T.Evaluates s v log)
    (h : T.Reaches s t made) : ∃ rest, T.Evaluates t v rest ∧ log = made ++ rest := by
  suffices hs : ∀ b : S × List C, ReflTransGen (Advance T) (s, []) b →
      ∃ rest, T.Evaluates b.1 v rest ∧ log = b.2 ++ rest from hs _ h
  intro b hab
  induction hab with
  | refl => exact ⟨log, he, rfl⟩
  | tail _ hbc ih =>
    obtain ⟨rest, hrest, rfl⟩ := ih
    obtain ⟨calls, resume, vs, logs, hp, hc, rfl⟩ := hbc
    cases hrest with
    | verdict hp' =>
      rw [hp] at hp'
      cases hp'
    | @batch _ _ _ _ log' vs' logs' hp' hc' hr' =>
      rw [hp] at hp'
      cases hp'
      obtain ⟨hmap, hlog⟩ := verdicts_unique hc hc'
      refine ⟨log', ?_, ?_⟩
      · rw [← hmap]
        exact hr'
      · rw [List.append_assoc, hlog]

theorem Evaluates.mem_log {c d : C} {v : V} {log : List C} (he : T.Evaluates (T.start c) v log)
    (h : T.Below c d) : d ∈ c :: log := by
  induction h using ReflTransGen.head_induction_on generalizing v log with
  | refl => exact List.mem_cons_self
  | @head c c' hc _ ih =>
    obtain ⟨s, made, calls, resume, hreach, hp, hm⟩ := hc
    obtain ⟨rest, hrest, rfl⟩ := he.rest hreach
    cases hrest with
    | verdict hp' =>
      rw [hp] at hp'
      cases hp'
    | @batch _ _ _ _ log' vs logs hp' hcalls _ =>
      rw [hp] at hp'
      cases hp'
      have hd : d ∈ calls.flatMap fun c => c :: logs c :=
        List.mem_flatMap.mpr ⟨c', hm, ih (hcalls c' hm)⟩
      exact List.mem_cons_of_mem _ (List.mem_append_right _ (List.mem_append_left _ hd))

end CallTree

end Reaper.Library
