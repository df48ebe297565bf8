import Reaper.Pool.Exchange

/-! The loop of a general child, from one note that it reads to the next: what it says, and when it dies. -/

namespace Reaper.Pool

open Reaper.Library Reaper.Worker Receiver

namespace Child

def startNote : Message := .lifecycle (({ phase := .connecting } : SkeletonCore).effect { kind := .start })

def readyNote : Message := .lifecycle (({ phase := .idle } : SkeletonCore).effect { kind := .ready })

def working (work : Work) : SkeletonCore := { phase := .running, taskId := work.id }

def startedNote (work : Work) : Message := .lifecycle ((working work).effect (started work))

def finishedNote (work : Work) (r : Result) : Message :=
  .lifecycle (({ phase := .idle } : SkeletonCore).effect (finished work r))

end Child

open Child

def Host.frames (h : Host) (m : Message) : Prop := (encodeMessage h.pickle m).isSome

instance (h : Host) (m : Message) : Decidable (h.frames m) :=
  inferInstanceAs (Decidable ((encodeMessage h.pickle m).isSome = true))

structure Faithful (h : Host) : Prop where
  loads : ∀ m data, h.pickle.dumps m = some data → h.pickle.loads data = some m
  mapping : ∀ m, (∀ work, m ≠ .work work) → h.pickle.isMapping m

structure Honest (h : Host) : Prop extends Faithful h where
  own : ∀ m ∈ [startNote, readyNote, .ready, .state], h.frames m

structure Answers (h : Host) (work : Work) (r : Result) : Prop where
  performs : h.perform work = some r
  started : h.frames (startedNote work)
  finished : h.frames (finishedNote work r)
  result : h.frames (.result r)

structure Carries (h : Host) (s : Receiver) (ms : List Message) : Prop where
  healthy : s.injected = fun _ => none
  frames : ∃ frames, List.Forall₂ (Crosses h.pickle) ms frames ∧ s.unread = frames.flatten

def Message.mute : Message → Bool
  | .state | .lifecycle _ | .fatal _ _ _ => true
  | _ => false

section Streams

variable {h : Host} {s : Receiver} {m : Message} {ms : List Message} {frame : List UInt8}

lemma Faithful.crosses (hh : Faithful h) (hm : ∀ work, m ≠ .work work) (hf : encodeMessage h.pickle m = some frame) :
    Crosses h.pickle m frame :=
  ⟨hf, hh.loads m, hh.mapping m hm⟩

lemma Carries.lets (hc : Carries h s ms) : Lets s := by
  intro n k hk
  rw [hc.healthy] at hk
  cases hk

lemma Carries.empty (chunk : ℕ → ℕ) : Carries h { unread := [], chunk := chunk } [] := ⟨rfl, [], .nil, rfl⟩

lemma Carries.write (hc : Carries h s ms) (hm : Crosses h.pickle m frame) : Carries h (s.write frame) (ms ++ [m]) := by
  obtain ⟨frames, hall, hunread⟩ := hc.frames
  refine ⟨hc.healthy, frames ++ [frame], List.rel_append hall (.cons hm .nil), ?_⟩
  rw [Receiver.write, hunread, List.flatten_append]
  simp

lemma Carries.unread_nil (hc : Carries h s []) : s.unread = [] := by
  obtain ⟨frames, hall, hunread⟩ := hc.frames
  cases hall
  exact hunread

lemma Carries.unread_cons (hc : Carries h s (m :: ms)) : s.unread ≠ [] := by
  obtain ⟨frames, hall, hunread⟩ := hc.frames
  obtain _ | ⟨hm, hrest⟩ := hall
  obtain ⟨data, -, -, rfl⟩ := encodeMessage_spec hm.encodes
  rw [hunread]
  intro hnil
  have hlength := congrArg List.length hnil
  simp [header_length, headerSize] at hlength

lemma Carries.read (hc : Carries h s (m :: ms)) :
    ∃ s', readMessage h.pickle s = (.message m, s') ∧ Carries h s' ms := by
  obtain ⟨frames, hall, hunread⟩ := hc.frames
  obtain _ | ⟨hm, hrest⟩ := hall
  obtain ⟨data, hdumps, hsize, rfl⟩ := encodeMessage_spec hm.encodes
  rw [List.flatten_cons] at hunread
  obtain ⟨s', hsame, hrest', hread⟩ :=
    readMessage_frame hc.lets hsize (hm.loads data hdumps) hm.mapping hunread
  exact ⟨s', hread, hsame.injected.trans hc.healthy, _, hrest, hrest'⟩

lemma Carries.read_nil (hc : Carries h s []) : (readMessage h.pickle s).1 = .nothing := by
  obtain ⟨s', -, -, hread⟩ := readMessage_eof h.pickle hc.lets (by rw [hc.unread_nil]; decide)
  rw [hread]

end Streams

namespace Child

variable {h : Host} {c c' : Child} {work : Work} {r : Result} {m : Message} {ms : List Message} {todo : List Deed}

inductive Booting (c : Child) : Prop
  | starts (todo : c.todo = [.report { kind := .start }, .report { kind := .ready }, .say .ready, .attempt, .read])
    (lifecycle : c.lifecycle = {})
  | connects (todo : c.todo = [.report { kind := .ready }, .say .ready, .attempt, .read])
    (lifecycle : c.lifecycle = { phase := .connecting })
  | announces (todo : c.todo = [.say .ready, .attempt, .read]) (lifecycle : c.lifecycle = { phase := .idle })

inductive Waiting (c : Child) : Prop
  | enters (todo : c.todo = [.attempt, .read]) (lifecycle : c.lifecycle = { phase := .idle })
  | reads (todo : c.todo = [.read]) (lifecycle : c.lifecycle = { phase := .idle })

inductive Working (h : Host) (work : Work) (c : Child) : Prop
  | begins (todo : c.todo = [.report (started work), .say .state, .perform work, .read])
    (lifecycle : c.lifecycle = { phase := .idle })
  | tells (todo : c.todo = [.say .state, .perform work, .read]) (lifecycle : c.lifecycle = working work)
    (told : h.frames (startedNote work))
  | performs (todo : c.todo = [.perform work, .read]) (lifecycle : c.lifecycle = working work)
    (told : h.frames (startedNote work))
  | finishes {r : Result} (todo : c.todo = [.report (finished work r), .say (.result r), .read])
    (lifecycle : c.lifecycle = working work) (told : h.frames (startedNote work)) (performed : h.perform work = some r)
  | answers {r : Result} (todo : c.todo = [.say (.result r), .read]) (lifecycle : c.lifecycle = { phase := .idle })
    (told : h.frames (startedNote work)) (performed : h.perform work = some r)
    (ended : h.frames (finishedNote work r))

def Doomed (c : Child) : Prop := ∀ d ∈ c.todo, (∃ e, d = .report e) ∨ ∃ e, d = .confess e

def effort : Deed → ℕ
  | .report _ | .say _ | .confess _ => 2
  | .perform _ => 5
  | .attempt => 1
  | .read => 0

def distance (c : Child) : ℕ := (c.todo.map effort).sum

structure Utters (h : Host) (c : Child) (ms : List Message) (c' : Child) : Prop where
  inbox : c'.inbox = c.inbox
  outbox : ∀ out, Carries h c.outbox out → Carries h c'.outbox (out ++ ms)

lemma Utters.nothing (hin : c'.inbox = c.inbox) (hout : c'.outbox = c.outbox) : Utters h c [] c' :=
  ⟨hin, fun out hc => by rwa [List.append_nil, hout]⟩

lemma raise_doomed (c : Child) (e : Thrown) : Doomed (c.raise e) := by
  intro d hd
  rw [raise] at hd
  rcases List.mem_append.mp hd with hd | hd
  · split_ifs at hd
    · simp only [ending, List.mem_cons, List.not_mem_nil, or_false] at hd
      rcases hd with rfl | rfl <;> exact Or.inl ⟨_, rfl⟩
    · cases hd
  · rw [List.mem_singleton.mp hd]
    exact Or.inr ⟨e, rfl⟩

lemma step_say (hh : Faithful h) (htodo : c.todo = .say m :: todo) (hm : ∀ work, m ≠ .work work) :
    (h.frames m ∧ ∃ c', c.step h = some c' ∧ c'.todo = todo ∧ c'.lifecycle = c.lifecycle ∧ Utters h c [m] c') ∨
      ¬ h.frames m ∧ ∃ c', c.step h = some c' ∧ Doomed c' ∧ Utters h c [] c' := by
  rw [Host.frames]
  cases hf : encodeMessage h.pickle m with
  | none =>
    refine Or.inr ⟨by simp, c.raise (h.fault (.say m)), ?_, raise_doomed c _, .nothing rfl rfl⟩
    rw [step, htodo]
    simp only [hf]
  | some frame =>
    refine Or.inl ⟨rfl, { c with todo := todo, outbox := c.outbox.write frame }, ?_, rfl, rfl, rfl,
      fun out hc => hc.write (hh.crosses hm hf)⟩
    rw [step, htodo]
    simp only [hf]

lemma step_report {e : LifecycleEvent} {core : SkeletonCore} (hh : Faithful h) (htodo : c.todo = .report e :: todo)
    (happly : c.lifecycle.apply e = some (core, [core.effect e])) :
    (h.frames (.lifecycle (core.effect e)) ∧ ∃ c', c.step h = some c' ∧ c'.todo = todo ∧ c'.lifecycle = core ∧
        Utters h c [.lifecycle (core.effect e)] c') ∨
      ¬ h.frames (.lifecycle (core.effect e)) ∧ ∃ c', c.step h = some c' ∧ Doomed c' ∧ Utters h c [] c' := by
  rw [Host.frames]
  cases hf : encodeMessage h.pickle (.lifecycle (core.effect e)) with
  | none =>
    refine Or.inr ⟨by simp, { c with lifecycle := core }.raise (h.fault (.report e)), ?_,
      raise_doomed _ _, .nothing rfl rfl⟩
    rw [step, htodo]
    simp [happly, hf]
  | some frame =>
    refine Or.inl ⟨rfl, { c with lifecycle := core, todo := todo, outbox := c.outbox.write frame }, ?_, rfl, rfl, rfl,
      fun out hc => hc.write (hh.crosses (by simp) hf)⟩
    rw [step, htodo]
    simp [happly, hf]

lemma booting_step (hh : Honest h) (hc : Booting c) :
    ∃ c', c.step h = some c' ∧ ((Booting c' ∧ ∃ m, m.mute ∧ Utters h c [m] c') ∨ Waiting c' ∧ Utters h c [.ready] c') := by
  cases hc with
  | starts htodo hlife =>
    have happly : c.lifecycle.apply { kind := .start } = some ({ phase := .connecting },
        [({ phase := .connecting } : SkeletonCore).effect { kind := .start }]) := by
      rw [hlife]
      decide
    rcases step_report hh.toFaithful htodo happly with
      ⟨-, c', hstep, htodo', hlife', hsays⟩ | ⟨hnone, -⟩
    · exact ⟨c', hstep, Or.inl ⟨.connects htodo' hlife', _, rfl, hsays⟩⟩
    · exact absurd (hh.own startNote (by simp)) hnone
  | connects htodo hlife =>
    have happly : c.lifecycle.apply { kind := .ready } = some ({ phase := .idle },
        [({ phase := .idle } : SkeletonCore).effect { kind := .ready }]) := by
      rw [hlife]
      decide
    rcases step_report hh.toFaithful htodo happly with
      ⟨-, c', hstep, htodo', hlife', hsays⟩ | ⟨hnone, -⟩
    · exact ⟨c', hstep, Or.inl ⟨.announces htodo' hlife', _, rfl, hsays⟩⟩
    · exact absurd (hh.own readyNote (by simp)) hnone
  | announces htodo hlife =>
    rcases step_say hh.toFaithful htodo (by simp) with ⟨-, c', hstep, htodo', hlife', hsays⟩ | ⟨hnone, -⟩
    · exact ⟨c', hstep, Or.inr ⟨.enters htodo' (hlife'.trans hlife), hsays⟩⟩
    · exact absurd (hh.own .ready (by simp)) hnone

lemma Waiting.congr (hc : Waiting c) (htodo : c'.todo = c.todo) (hlife : c'.lifecycle = c.lifecycle) : Waiting c' := by
  cases hc with
  | enters todo lifecycle => exact .enters (htodo.trans todo) (hlife.trans lifecycle)
  | reads todo lifecycle => exact .reads (htodo.trans todo) (hlife.trans lifecycle)

lemma Booting.congr (hc : Booting c) (htodo : c'.todo = c.todo) (hlife : c'.lifecycle = c.lifecycle) : Booting c' := by
  cases hc with
  | starts todo lifecycle => exact .starts (htodo.trans todo) (hlife.trans lifecycle)
  | connects todo lifecycle => exact .connects (htodo.trans todo) (hlife.trans lifecycle)
  | announces todo lifecycle => exact .announces (htodo.trans todo) (hlife.trans lifecycle)

lemma Working.congr (hc : Working h work c) (htodo : c'.todo = c.todo) (hlife : c'.lifecycle = c.lifecycle) :
    Working h work c' := by
  cases hc with
  | begins todo lifecycle => exact .begins (htodo.trans todo) (hlife.trans lifecycle)
  | tells todo lifecycle told => exact .tells (htodo.trans todo) (hlife.trans lifecycle) told
  | performs todo lifecycle told => exact .performs (htodo.trans todo) (hlife.trans lifecycle) told
  | finishes todo lifecycle told performed =>
    exact .finishes (htodo.trans todo) (hlife.trans lifecycle) told performed
  | answers todo lifecycle told performed ended =>
    exact .answers (htodo.trans todo) (hlife.trans lifecycle) told performed ended

lemma Waiting.alive (hc : Waiting c) : c.todo ≠ [] := by
  cases hc with
  | enters htodo _ => simp [htodo]
  | reads htodo _ => simp [htodo]

lemma waiting_step (hc : Waiting c) (hin : Carries h c.inbox []) (hstep : c.step h = some c') :
    Waiting c' ∧ Utters h c [] c' ∧ c'.distance < c.distance := by
  cases hc with
  | enters htodo hlife =>
    rw [step, htodo] at hstep
    cases hstep
    exact ⟨.reads rfl hlife, .nothing rfl rfl, by simp [distance, htodo, effort]⟩
  | reads htodo _ =>
    rw [step, htodo] at hstep
    simp [hin.unread_nil] at hstep

lemma waiting_read (hc : Waiting c) (hin : Carries h c.inbox [.run work]) :
    ∃ c', c.step h = some c' ∧ ((Waiting c' ∧ Utters h c [] c' ∧ c'.distance < c.distance) ∨
      Working h work c' ∧ Carries h c'.inbox [] ∧ c'.outbox = c.outbox ∧ c'.distance = 9) := by
  cases hc with
  | enters htodo hlife =>
    refine ⟨{ c with todo := [.read], guarded := true }, by rw [step, htodo], Or.inl ⟨.reads rfl hlife, .nothing rfl rfl, ?_⟩⟩
    simp [distance, htodo, effort]
  | reads htodo hlife =>
    obtain ⟨s, hread, hrest⟩ := hin.read
    refine ⟨{ c with inbox := s, todo := [.report (started work), .say .state, .perform work, .read] }, ?_,
      Or.inr ⟨.begins rfl hlife, hrest, rfl, ?_⟩⟩
    · rw [step, htodo]
      simp only [if_neg hin.unread_cons, hread]
    · simp [distance, effort]

lemma started_apply (hid : work.id ≠ "") :
    ({ phase := .idle } : SkeletonCore).apply (started work) = some (working work, [(working work).effect (started work)]) := by
  have hinv : (working work).AssertInvariants := by
    refine ⟨by simp [working, hid], by simp [working], by simp [working], by simp [working]⟩
  have htransition : ({ phase := .idle } : SkeletonCore).transition (started work) = some (working work) := by
    simp [SkeletonCore.transition, started, SkeletonCore.requirePhase, SkeletonCore.enter, SkeletonCore.setTask, hid,
      working]
  rw [SkeletonCore.apply, htransition, Option.bind_some, if_pos hinv]

lemma finished_apply : (working work).apply (finished work r) =
    some ({ phase := .idle }, [({ phase := .idle } : SkeletonCore).effect (finished work r)]) := by
  have hinv : ({ phase := .idle } : SkeletonCore).AssertInvariants := by decide
  have htransition : (working work).transition (finished work r) = some { phase := .idle } := by
    simp [SkeletonCore.transition, finished, SkeletonCore.requirePhase, SkeletonCore.enter, SkeletonCore.clearTask,
      working]
  rw [SkeletonCore.apply, htransition, Option.bind_some, if_pos hinv]

inductive Works (h : Host) (work : Work) (c c' : Child) : Prop
  | goesOn {ms : List Message} (at' : Working h work c') (said : Utters h c ms c') (mute : ∀ m ∈ ms, m.mute)
    (less : c'.distance + ms.length < c.distance)
  | replies {r : Result} (answers : Answers h work r) (waits : Waiting c') (said : Utters h c [.result r] c')
    (less : c'.distance + 1 < c.distance)
  | dies (doomed : Doomed c') (said : Utters h c [] c') (unanswered : ∀ r, ¬ Answers h work r)

lemma working_step (hh : Honest h) (hid : work.id ≠ "") (hc : Working h work c) :
    ∃ c', c.step h = some c' ∧ Works h work c c' := by
  cases hc with
  | begins htodo hlife =>
    rcases step_report hh.toFaithful htodo (hlife ▸ started_apply hid) with
      ⟨hnote, c', hstep, htodo', hlife', hsays⟩ | ⟨hnone, c', hstep, hdoomed, hsays⟩
    · exact ⟨c', hstep, .goesOn (.tells htodo' hlife' hnote) hsays (by simp [Message.mute])
        (by simp [distance, htodo, htodo', effort])⟩
    · exact ⟨c', hstep, .dies hdoomed hsays fun r ha => hnone ha.started⟩
  | tells htodo hlife htold =>
    rcases step_say hh.toFaithful htodo (by simp) with ⟨-, c', hstep, htodo', hlife', hsays⟩ | ⟨hnone, -⟩
    · exact ⟨c', hstep, .goesOn (.performs htodo' (hlife'.trans hlife) htold) hsays (by simp [Message.mute])
        (by simp [distance, htodo, htodo', effort])⟩
    · exact absurd (hh.own .state (by simp)) hnone
  | performs htodo hlife htold =>
    cases hperform : h.perform work with
    | none =>
      refine ⟨c.raise (h.fault (.perform work)), ?_, .dies (raise_doomed c _) (.nothing rfl rfl) fun r ha => ?_⟩
      · rw [step, htodo]
        simp only [hperform]
      · cases hperform.symm.trans ha.performs
    | some r =>
      refine ⟨{ c with todo := [.report (finished work r), .say (.result r), .read] }, ?_,
        .goesOn (.finishes rfl hlife htold hperform) (.nothing rfl rfl) (by simp) ?_⟩
      · rw [step, htodo]
        simp only [hperform]
      · simp [distance, htodo, effort]
  | finishes htodo hlife htold hperform =>
    next r =>
    rcases step_report hh.toFaithful htodo (hlife ▸ finished_apply) with
      ⟨hnote, c', hstep, htodo', hlife', hsays⟩ | ⟨hnone, c', hstep, hdoomed, hsays⟩
    · exact ⟨c', hstep, .goesOn (.answers htodo' hlife' htold hperform hnote) hsays (by simp [Message.mute])
        (by simp [distance, htodo, htodo', effort])⟩
    · refine ⟨c', hstep, .dies hdoomed hsays fun r' ha => hnone ?_⟩
      cases hperform.symm.trans ha.performs
      exact ha.finished
  | answers htodo hlife htold hperform hended =>
    next r =>
    rcases step_say hh.toFaithful htodo (by simp) with
      ⟨hnote, c', hstep, htodo', hlife', hsays⟩ | ⟨hnone, c', hstep, hdoomed, hsays⟩
    · exact ⟨c', hstep, .replies ⟨hperform, htold, hended, hnote⟩ (.reads htodo' (hlife'.trans hlife)) hsays
        (by simp [distance, htodo, htodo', effort])⟩
    · refine ⟨c', hstep, .dies hdoomed hsays fun r' ha => hnone ?_⟩
      cases hperform.symm.trans ha.performs
      exact ha.result

lemma Working.alive (hc : Working h work c) : c.todo ≠ [] := by
  cases hc <;> simp [*]

lemma Booting.alive (hc : Booting c) : c.todo ≠ [] := by
  cases hc <;> simp [*]

lemma doomed_step (hh : Faithful h) (hc : Doomed c) (hstep : c.step h = some c') :
    Doomed c' ∧ ∃ ms, (∀ m ∈ ms, m.mute) ∧ Utters h c ms c' := by
  cases htodo : c.todo with
  | nil =>
    rw [step, htodo] at hstep
    cases hstep
  | cons d todo =>
    have hrest : ∀ d ∈ todo, (∃ e, d = .report e) ∨ ∃ e, d = .confess e := fun d hd =>
      hc d (htodo ▸ List.mem_cons_of_mem _ hd)
    rcases hc d (htodo ▸ List.mem_cons_self) with ⟨e, rfl⟩ | ⟨e, rfl⟩
    · cases happly : c.lifecycle.apply e with
      | none =>
        rw [step, htodo] at hstep
        simp only [happly, Option.some_inj] at hstep
        subst hstep
        exact ⟨raise_doomed c _, [], by simp, .nothing rfl rfl⟩
      | some applied =>
        obtain ⟨core, fx⟩ := applied
        obtain rfl : fx = [core.effect e] := by
          rw [SkeletonCore.apply, Option.bind_eq_some_iff] at happly
          obtain ⟨core', -, happly⟩ := happly
          split_ifs at happly
          cases happly
          rfl
        rcases step_report hh htodo happly with
          ⟨-, c'', hstep', htodo', -, hsays⟩ | ⟨-, c'', hstep', hdoomed, hsays⟩
        · cases hstep.symm.trans hstep'
          refine ⟨?_, _, by simp [Message.mute], hsays⟩
          rw [Doomed, htodo']
          exact hrest
        · cases hstep.symm.trans hstep'
          exact ⟨hdoomed, [], by simp, hsays⟩
    · rw [step, htodo] at hstep
      simp only at hstep
      split at hstep
      · cases hstep
        exact ⟨hrest, [], by simp, .nothing rfl rfl⟩
      · next frame hframe =>
        cases hstep
        obtain ⟨text, -, hencode⟩ := Option.bind_eq_some_iff.mp hframe
        exact ⟨hrest, _, by simp [Message.mute], rfl, fun out hout => hout.write (hh.crosses (by simp) hencode)⟩

end Child

end Reaper.Pool
