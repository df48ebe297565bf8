import Reaper.Store.Notifications

/-! The LISTEN connection of a poll loop. The event that its callback sets is a hint. The loop clears
it before it claims, and what is sent after the claim's snapshot has to be on its way. -/

namespace Reaper.Worker

open Reaper.Library Reaper.Store

/-- A connection to the server. A notification is known by the tasks that it was sent for. -/
structure Connection where
  channel : Option String := none
  heard : Bool := false
  undelivered : List (List Id) := []
  lost : Bool := false
  closed : Bool := false

inductive Maintain
  | check
  | probe
  | connect
  | listen (replacement : ℕ)
  | add (replacement : ℕ)
  | swap (replacement : ℕ)
  | close (previous : ℕ)
  deriving DecidableEq

structure PostgresListener where
  channel : String
  recycleRate : Time
  probeRate : Time
  connection : Option ℕ := none
  notified : Bool := false
  connectedAt : Time := 0
  probedAt : Time := 0

inductive Phase
  | opening (m : Maintain)
  | arming (m : Maintain)
  | polling
  | scanning
  | running
  | waiting
  | waking (m : Maintain)
  | stopped
  deriving DecidableEq

structure Hub where
  store : Swept := {}
  notes : Dict ℕ (List (Id × String)) := Dict.empty
  connections : Dict ℕ Connection := Dict.empty
  listener : PostgresListener
  topic : String
  session : ℕ
  phase : Phase := .opening .connect
  snapshot : Db := {}

inductive Event
  | store (k : ℕ) (a : SweepAction)
  | deliver (c : ℕ)
  | lose (c : ℕ)
  | notice (c : ℕ)
  | maintain (now : Time)
  | probed (answered : Bool) (now : Time)
  | connected (c : ℕ)
  | listened
  | added
  | swapped (now : Time)
  | closed
  | wake (timeout : Bool)
  | fail

def Phase.maintain : Phase → Option Maintain
  | .opening m | .arming m | .waking m => some m
  | _ => none

def Phase.goOn (p : Phase) (m : Maintain) : Phase :=
  match p with
  | .opening _ => .opening m
  | .arming _ => .arming m
  | .waking _ => .waking m
  | p => p

/-- A commit's notification on a channel is one message, whatever the number of its tasks. -/
def Connection.receive (md5 : String → String) (notes : List (Id × String)) (c : Connection) :
    Connection :=
  let told := notes.filter fun n => c.channel = some (taskChannel md5 n.2)
  if c.lost ∨ told = [] then c
  else { c with undelivered := c.undelivered ++ [told.map Prod.fst] }

namespace Hub

def notesOf (h : Hub) (k : ℕ) : List (Id × String) := (h.notes.get k).getD []

def announce (md5 : String → String) (h : Hub) (k : ℕ) (a : SweepAction) (store : Swept) : Hub :=
  let h' := { h with store := store }
  match a with
  | .act (.act b) =>
    match h.store.sys.txns.get k, store.sys.txns.get k with
    | some x, some y =>
      { h' with notes := h.notes.set k (h.notesOf k ++ x.notifies h.store.sys.committed b y) }
    | _, _ => h'
  | .act .commit =>
    { h' with
      notes := h.notes.erase k
      connections := h.connections.map (Connection.receive md5 (h.notesOf k)) }
  | .act .begin | .act .rollback | .begin _ _ | .delete => { h' with notes := h.notes.erase k }
  | .lockNext => h'

def next (h : Hub) (a : SweepAction) (store : Swept) : Option Phase :=
  match h.phase, a with
  | .polling, .act .begin => some .polling
  | .polling, .act (.act (.claim topic _ _)) => if topic = h.topic then some .scanning else none
  | .scanning, .act (.act .claimNext) =>
    match (store.sys.txns.get h.session).map Txn.stage with
    | some (.holding _) => some .running
    | _ => some .scanning
  | .scanning, .act .rollback =>
    match (h.store.sys.txns.get h.session).map Txn.stage with
    | some .failed => some .waiting
    | _ => none
  | .running, .act (.act _) => some .running
  | .running, .act .commit | .running, .act .rollback => some (.arming .check)
  | .stopped, .act .rollback => some .stopped
  | _, _ => none

def claims : SweepAction → Bool
  | .act (.act (.claim ..)) => true
  | _ => false

def storeStep (md5 : String → String) (h : Hub) (k : ℕ) (a : SweepAction) : Option Hub :=
  (h.store.step k a).bind fun store =>
    if k = h.session then
      (h.next a store).map fun phase =>
        { h.announce md5 k a store with
          phase := phase
          snapshot := if claims a then h.store.sys.committed else h.snapshot }
    else some (h.announce md5 k a store)

def deliver (h : Hub) (c : ℕ) : Option Hub :=
  match h.connections.get c with
  | some conn =>
    match conn.undelivered with
    | _ :: left => some { h with
        connections := h.connections.set c { conn with undelivered := left }
        listener := { h.listener with notified := h.listener.notified || conn.heard } }
    | [] => none
  | none => none

def maintained (h : Hub) : Hub :=
  match h.phase with
  | .arming _ => { h with phase := .polling, listener := { h.listener with notified := false } }
  | .opening _ | .waking _ => { h with phase := .arming .check }
  | _ => h

def goOn (h : Hub) (m : Maintain) : Hub := { h with phase := h.phase.goOn m }

/-- Whether maintain finds its connection closed, or as old as the recycle rate. -/
def worn (h : Hub) (now : Time) : Bool :=
  match h.listener.connection.bind h.connections.get with
  | none => true
  | some conn => conn.closed || h.listener.recycleRate ≤ now - h.listener.connectedAt

def maintainStep (h : Hub) : Maintain → Event → Option Hub
  | .check, .maintain now =>
    some (if h.worn now then h.goOn .connect
      else if h.listener.probeRate ≤ now - h.listener.probedAt then h.goOn .probe
      else h.maintained)
  | .probe, .probed true now => some { h with listener := { h.listener with probedAt := now } }.maintained
  | .probe, .probed false _ => some (h.goOn .connect)
  | .connect, .connected c =>
    if h.connections.get c = none then
      some { h.goOn (.listen c) with connections := h.connections.set c {} }
    else none
  | .listen c, .listened =>
    match h.connections.get c with
    | some conn => some { h.goOn (.add c) with
        connections := h.connections.set c { conn with channel := some h.listener.channel } }
    | none => none
  | .add c, .added =>
    match h.connections.get c with
    | some conn => some { h.goOn (.swap c) with
        connections := h.connections.set c { conn with heard := true } }
    | none => none
  | .swap c, .swapped now =>
    let h' := { h with listener := { h.listener with
      connection := some c
      connectedAt := now
      probedAt := now
      notified := true } }
    match h.listener.connection with
    | some previous => some (h'.goOn (.close previous))
    | none => some h'.maintained
  | .close previous, .closed =>
    some { h with connections := h.connections.erase previous }.maintained
  | _, _ => none

def step (md5 : String → String) (h : Hub) : Event → Option Hub
  | .store k a => h.storeStep md5 k a
  | .deliver c => h.deliver c
  | .lose c => (h.connections.get c).map fun conn =>
      { h with connections := h.connections.set c { conn with lost := true } }
  | .notice c => (h.connections.get c).bind fun conn =>
      if conn.lost then some { h with connections := h.connections.set c { conn with closed := true } }
      else none
  | .wake timeout =>
    match h.phase with
    | .waiting => if h.listener.notified || timeout then some { h with phase := .waking .check } else none
    | _ => none
  | .fail => some { h with phase := .stopped }
  | e => h.phase.maintain.bind fun m => h.maintainStep m e

def run (md5 : String → String) : Hub → List Event → Option Hub
  | h, [] => some h
  | h, e :: es => (h.step md5 e).bind fun h' => run md5 h' es

def start (md5 : String → String) (db : Db) (topic : String) (session : ℕ) (recycleRate probeRate : Time) :
    Hub where
  store := { sys := { committed := db } }
  listener := {
    channel := taskChannel md5 topic
    recycleRate := recycleRate
    probeRate := probeRate }
  topic := topic
  session := session

def Tuned (h : Hub) (c : ℕ) : Prop :=
  ∃ conn, h.connections.get c = some conn ∧ conn.channel = some h.listener.channel ∧ conn.heard = true

def Sound (h : Hub) : Maintain → Prop
  | .check | .probe | .connect => True
  | .listen c => h.listener.connection ≠ some c ∧ h.connections.get c ≠ none
  | .add c => h.listener.connection ≠ some c ∧
      ∃ conn, h.connections.get c = some conn ∧ conn.channel = some h.listener.channel
  | .swap c => h.listener.connection ≠ some c ∧ h.Tuned c
  | .close c => h.listener.connection ≠ some c

end Hub

def Maintain.connects : Maintain → Bool
  | .connect | .listen _ | .add _ | .swap _ => true
  | _ => false

def Phase.claimed : Phase → Bool
  | .scanning | .waiting | .waking _ => true
  | _ => false

namespace Hub

structure Linked (h : Hub) : Prop where
  current : ∀ c, h.listener.connection = some c → h.Tuned c
  sound : ∀ m, h.phase.maintain = some m → h.Sound m
  opened : h.listener.connection = none →
    h.phase = .stopped ∨ ∃ m, h.phase = .opening m ∧ m.connects = true

def Hinted (h : Hub) (id : Id) : Prop :=
  h.listener.notified = true ∨ ∃ c conn, h.listener.connection = some c ∧
    h.connections.get c = some conn ∧ (conn.lost = true ∨ ∃ m ∈ conn.undelivered, id ∈ m)

structure Kept (h h' : Hub) : Prop where
  connection : h'.listener.connection = h.listener.connection
  channel : h'.listener.channel = h.listener.channel
  notified : h.listener.notified = true → h'.listener.notified = true
  connections : ∀ c conn, h.connections.get c = some conn → ∃ conn', h'.connections.get c = some conn' ∧
    conn'.channel = conn.channel ∧ conn'.heard = conn.heard ∧
    (conn.lost = true → conn'.lost = true) ∧ ∀ m ∈ conn.undelivered,
      m ∈ conn'.undelivered ∨ (conn.heard = true → h'.listener.notified = true)

end Hub

def Maintain.rests : Maintain → Bool
  | .check | .probe | .connect => true
  | _ => false

namespace Hub

variable {md5 : String → String} {h h' : Hub} {id : Id} {c : ℕ} {m : Maintain}

lemma Sound.of_rests (hm : m.rests = true) : h.Sound m := by
  cases m with
  | check | probe | connect => trivial
  | listen | add | swap | close => cases hm

lemma Kept.of_same (hl : h'.listener.connection = h.listener.connection)
    (hch : h'.listener.channel = h.listener.channel)
    (hn : h.listener.notified = true → h'.listener.notified = true)
    (hc : h'.connections = h.connections) : Kept h h' :=
  ⟨hl, hch, hn, fun _ conn hg => ⟨conn, hc ▸ hg, rfl, rfl, fun hh => hh, fun _ hm => Or.inl hm⟩⟩

lemma Kept.tuned (hk : Kept h h') (ht : h.Tuned c) : h'.Tuned c := by
  obtain ⟨conn, hg, hch, hh⟩ := ht
  obtain ⟨conn', hg', hch', hh', -⟩ := hk.connections c conn hg
  exact ⟨conn', hg', hch'.trans (hk.channel ▸ hch), hh'.trans hh⟩

lemma Kept.sound (hk : Kept h h') (hs : h.Sound m) : h'.Sound m := by
  cases m with
  | check | probe | connect => trivial
  | listen c =>
    refine ⟨hk.connection ▸ hs.1, ?_⟩
    obtain ⟨conn, hg⟩ := Option.ne_none_iff_exists'.mp hs.2
    obtain ⟨conn', hg', -⟩ := hk.connections c conn hg
    rw [hg']
    exact Option.some_ne_none _
  | add c =>
    obtain ⟨conn, hg, hch⟩ := hs.2
    obtain ⟨conn', hg', hch', -⟩ := hk.connections c conn hg
    exact ⟨hk.connection ▸ hs.1, conn', hg', hch'.trans (hk.channel ▸ hch)⟩
  | swap c => exact ⟨hk.connection ▸ hs.1, hk.tuned hs.2⟩
  | close c =>
    change h'.listener.connection ≠ some c
    rw [hk.connection]
    exact hs

lemma Kept.linked (hk : Kept h h') (hl : Linked h)
    (hm : ∀ m, h'.phase.maintain = some m → h.phase.maintain = some m ∨ m.rests = true)
    (ho : h.listener.connection = none → h'.phase = h.phase ∨ h'.phase = .stopped) : Linked h' := by
  refine ⟨fun c hc => ?_, fun m hm' => ?_, fun hn => ?_⟩
  · exact hk.tuned (hl.current c (hk.connection ▸ hc))
  · rcases hm m hm' with hsame | hrest
    · exact hk.sound (hl.sound m hsame)
    · exact .of_rests hrest
  · rw [hk.connection] at hn
    rcases ho hn with hp | hp
    · rw [hp]
      exact hl.opened hn
    · exact Or.inl hp

lemma Kept.hinted (hk : Kept h h') (hl : Linked h) (hh : h.Hinted id) : h'.Hinted id := by
  obtain hn | ⟨c, conn, hc, hg, hway⟩ := hh
  · exact Or.inl (hk.notified hn)
  · obtain ⟨conn₀, hg₀, -, hheard⟩ := hl.current c hc
    cases hg.symm.trans hg₀
    obtain ⟨conn', hg', -, -, hlost, hleft⟩ := hk.connections c conn hg
    rcases hway with hlo | ⟨m, hm, hid⟩
    · exact Or.inr ⟨c, conn', hk.connection ▸ hc, hg', Or.inl (hlost hlo)⟩
    · rcases hleft m hm with hm' | hn
      · exact Or.inr ⟨c, conn', hk.connection ▸ hc, hg', Or.inr ⟨m, hm', hid⟩⟩
      · exact Or.inl (hn hheard)

lemma Linked.connected (hl : Linked h) (hm : h.phase.maintain = some m) (hc : m.connects = false) :
    h.listener.connection ≠ none := by
  intro hn
  rcases hl.opened hn with hp | ⟨m', hp, hcon⟩
  · rw [hp] at hm
    cases hm
  · rw [hp] at hm
    cases hm
    rw [hc] at hcon
    cases hcon

structure Stored (md5 : String → String) (h : Hub) (k : ℕ) (a : SweepAction) (h' : Hub) : Prop where
  step : h.store.step k a = some h'.store
  notes : h'.notes = (h.announce md5 k a h'.store).notes
  connections : h'.connections = (h.announce md5 k a h'.store).connections
  listener : h'.listener = h.listener
  topic : h'.topic = h.topic
  session : h'.session = h.session
  loop : k ≠ h.session ∧ h'.phase = h.phase ∧ h'.snapshot = h.snapshot ∨
    k = h.session ∧ h.next a h'.store = some h'.phase ∧
      h'.snapshot = if claims a then h.store.sys.committed else h.snapshot

variable {k : ℕ} {a : SweepAction} {store : Swept} {p : Phase}

lemma announce_loop (md5 : String → String) (h : Hub) (k : ℕ) (a : SweepAction) (store : Swept) :
    (h.announce md5 k a store).store = store ∧ (h.announce md5 k a store).listener = h.listener ∧
      (h.announce md5 k a store).topic = h.topic ∧ (h.announce md5 k a store).session = h.session ∧
      (h.announce md5 k a store).phase = h.phase ∧
      (h.announce md5 k a store).snapshot = h.snapshot := by
  cases a with
  | begin | lockNext | delete => exact ⟨rfl, rfl, rfl, rfl, rfl, rfl⟩
  | act b =>
    cases b with
    | begin | commit | rollback => exact ⟨rfl, rfl, rfl, rfl, rfl, rfl⟩
    | act c =>
      simp only [announce]
      split <;> exact ⟨rfl, rfl, rfl, rfl, rfl, rfl⟩

lemma Stored.of_step (hs : h.storeStep md5 k a = some h') : Stored md5 h k a h' := by
  obtain ⟨store, hst, hs⟩ := Option.bind_eq_some_iff.mp hs
  obtain ⟨h₁, h₂, h₃, h₄, h₅, h₆⟩ := announce_loop md5 h k a store
  by_cases hk : k = h.session
  · rw [if_pos hk] at hs
    obtain ⟨p, hp, rfl⟩ := Option.map_eq_some_iff.mp hs
    refine ⟨?_, ?_, ?_, h₂, h₃, h₄, Or.inr ⟨hk, ?_, rfl⟩⟩ <;> simp only [h₁]
    · exact hst
    · exact hp
  · rw [if_neg hk] at hs
    cases hs
    refine ⟨?_, ?_, ?_, h₂, h₃, h₄, Or.inl ⟨hk, h₅, h₆⟩⟩ <;> rw [h₁]
    exact hst

lemma Stored.kept (hs : Stored md5 h k a h') : Kept h h' := by
  have hc := hs.connections
  have hsame : h'.connections = h.connections → Kept h h' :=
    Kept.of_same (by rw [hs.listener]) (by rw [hs.listener]) (by rw [hs.listener]; exact fun hn => hn)
  cases a with
  | begin | lockNext | delete => exact hsame hc
  | act b =>
    cases b with
    | begin | rollback => exact hsame hc
    | act c =>
      refine hsame (hc.trans ?_)
      simp only [announce]
      split <;> rfl
    | commit =>
      refine ⟨by rw [hs.listener], by rw [hs.listener], by rw [hs.listener]; exact fun hn => hn, ?_⟩
      intro c conn hg
      refine ⟨conn.receive md5 (h.notesOf k), ?_, ?_⟩
      · rw [hc]
        change (h.connections.map _).get c = _
        rw [Dict.get_map, hg]
        rfl
      · rw [Connection.receive]
        split_ifs
        · exact ⟨rfl, rfl, fun hh => hh, fun m hm => Or.inl hm⟩
        · exact ⟨rfl, rfl, fun hh => hh, fun m hm => Or.inl (List.mem_append_left _ hm)⟩

lemma next_loop (hn : h.next a store = some p) :
    h.phase.maintain = none ∧ (p.maintain = none ∨ p = .arming .check) ∧
      (h.phase = .stopped → p = .stopped) ∧
      (p.claimed = true → claims a = true ∨ h.phase.claimed = true) := by
  simp only [next] at hn
  split at hn
  · rename_i hp
    cases hn
    rw [hp]
    exact ⟨rfl, Or.inl rfl, nofun, nofun⟩
  · rename_i hp
    split_ifs at hn
    cases hn
    rw [hp]
    exact ⟨rfl, Or.inl rfl, nofun, fun _ => Or.inl rfl⟩
  · rename_i hp
    rw [hp]
    split at hn <;> cases hn
    · exact ⟨rfl, Or.inl rfl, nofun, nofun⟩
    · exact ⟨rfl, Or.inl rfl, nofun, fun _ => Or.inr rfl⟩
  · rename_i hp
    rw [hp]
    split at hn <;> cases hn
    exact ⟨rfl, Or.inl rfl, nofun, fun _ => Or.inr rfl⟩
  · rename_i hp
    cases hn
    rw [hp]
    exact ⟨rfl, Or.inl rfl, nofun, nofun⟩
  · rename_i hp
    cases hn
    rw [hp]
    exact ⟨rfl, Or.inr rfl, nofun, nofun⟩
  · rename_i hp
    cases hn
    rw [hp]
    exact ⟨rfl, Or.inr rfl, nofun, nofun⟩
  · rename_i hp
    cases hn
    rw [hp]
    exact ⟨rfl, Or.inl rfl, fun _ => rfl, nofun⟩
  · cases hn

lemma Stored.linked (hs : Stored md5 h k a h') (hl : Linked h) : Linked h' := by
  obtain ⟨-, hp, -⟩ | ⟨-, hn, -⟩ := hs.loop
  · refine hs.kept.linked hl (fun m hm => Or.inl (hp ▸ hm)) fun _ => Or.inl hp
  · obtain ⟨hrest, hp, hstop, -⟩ := next_loop hn
    refine hs.kept.linked hl (fun m hm => Or.inr ?_) fun hnone => Or.inr ?_
    · obtain hp | hp := hp <;> rw [hp] at hm <;> cases hm
      rfl
    · obtain hst | ⟨m, hm, -⟩ := hl.opened hnone
      · exact hstop hst
      · rw [hm] at hrest
        cases hrest

lemma maintained_kept (h : Hub) : h.maintained.connections = h.connections ∧
    h.maintained.listener.connection = h.listener.connection ∧
    h.maintained.listener.channel = h.listener.channel := by
  rw [maintained]
  split <;> exact ⟨rfl, rfl, rfl⟩

lemma maintained_phase (h : Hub) (hm : h.phase.maintain ≠ none) :
    h.maintained.phase = .polling ∨ h.maintained.phase = .arming .check := by
  rw [maintained]
  cases hp : h.phase with
  | opening | waking => exact Or.inr rfl
  | arming => exact Or.inl rfl
  | polling | scanning | running | waiting | stopped =>
    rw [hp] at hm
    exact absurd rfl hm

lemma maintained_not_claimed (h : Hub) (hm : h.phase.maintain ≠ none) :
    h.maintained.phase.claimed = false := by
  obtain hp | hp := maintained_phase h hm <;> rw [hp] <;> rfl

lemma Linked.maintained (hc : ∀ c, h.listener.connection = some c → h.Tuned c)
    (hn : h.listener.connection ≠ none) (hm : h.phase.maintain ≠ none) : Linked h.maintained := by
  obtain ⟨hconn, hcon, hch⟩ := maintained_kept h
  refine ⟨fun c hcur => ?_, fun m hm' => ?_, fun hnone => absurd (hcon ▸ hnone) hn⟩
  · rw [hcon] at hcur
    obtain ⟨conn, hg, hl, hh⟩ := hc c hcur
    exact ⟨conn, hconn ▸ hg, hch ▸ hl, hh⟩
  · obtain hp | hp := maintained_phase h hm <;> rw [hp] at hm' <;> cases hm'
    trivial

lemma goOn_phase {m' : Maintain} (hm : h.phase.maintain = some m) :
    (h.phase.goOn m').maintain = some m' ∧
      ∀ j, h.phase = .opening j → h.phase.goOn m' = .opening m' := by
  cases hp : h.phase with
  | opening => exact ⟨rfl, fun _ _ => rfl⟩
  | arming | waking => exact ⟨rfl, nofun⟩
  | polling | scanning | running | waiting | stopped =>
    rw [hp] at hm
    cases hm

lemma Linked.goOn {m' : Maintain} (hl : Linked h) (hm : h.phase.maintain = some m)
    (hconn : h'.listener.connection = h.listener.connection) (hp : h'.phase = h.phase.goOn m')
    (hc : ∀ c, h.listener.connection = some c → h.Tuned c → h'.Tuned c) (hs : h'.Sound m')
    (hcon : m.connects = true → m'.connects = true) : Linked h' := by
  have hgo : (h.phase.goOn m').maintain = some m' ∧ ∀ j, h.phase = .opening j →
      h.phase.goOn m' = .opening m' := goOn_phase hm
  refine ⟨fun c hcur => ?_, fun j hj => ?_, fun hn => ?_⟩
  · rw [hconn] at hcur
    exact hc c hcur (hl.current c hcur)
  · rw [hp, hgo.1] at hj
    cases hj
    exact hs
  · rw [hconn] at hn
    obtain hst | ⟨j, hj, hjc⟩ := hl.opened hn
    · rw [hst] at hm
      cases hm
    · refine Or.inr ⟨m', hp.trans (hgo.2 j hj), hcon ?_⟩
      rw [hj] at hm
      cases hm
      exact hjc

lemma Tuned.set {conn : Connection} (ht : h.Tuned c) {r : ℕ} (hr : h.listener.connection ≠ some r)
    (hc : h.listener.connection = some c) (hl : h'.listener.channel = h.listener.channel)
    (hs : h'.connections = h.connections.set r conn) : h'.Tuned c := by
  obtain ⟨old, hg, hch, hh⟩ := ht
  refine ⟨old, ?_, hl ▸ hch, hh⟩
  have hne : c ≠ r := fun he => hr (hc.trans (congrArg some he))
  rw [hs, Dict.get_set_ne _ _ hne]
  exact hg

lemma Linked.maintainStep {e : Event} (hl : Linked h) (hm : h.phase.maintain = some m)
    (hs : h.maintainStep m e = some h') : Linked h' := by
  have hne : h.phase.maintain ≠ none := by
    rw [hm]
    exact Option.some_ne_none m
  have hsound := hl.sound m hm
  simp only [Hub.maintainStep] at hs
  split at hs
  · cases hs
    have hcon := hl.connected hm rfl
    split_ifs
    · exact hl.goOn hm rfl rfl (fun _ _ ht => ht) trivial fun hc => (by cases hc)
    · exact hl.goOn hm rfl rfl (fun _ _ ht => ht) trivial fun hc => (by cases hc)
    · exact .maintained hl.current hcon hne
  · cases hs
    exact .maintained hl.current (hl.connected hm rfl) hne
  · cases hs
    exact hl.goOn hm rfl rfl (fun _ _ ht => ht) trivial fun hc => (by cases hc)
  · rename_i c
    split_ifs at hs with hfresh
    cases hs
    have hother : h.listener.connection ≠ some c := by
      intro hc
      obtain ⟨conn, hg, -⟩ := hl.current c hc
      rw [hfresh] at hg
      cases hg
    refine hl.goOn hm rfl rfl (fun _ hc ht => ht.set hother hc rfl rfl) ⟨hother, ?_⟩ fun _ => rfl
    change (h.connections.set c {}).get c ≠ none
    rw [Dict.get_set_self]
    exact Option.some_ne_none _
  · split at hs <;> cases hs
    refine hl.goOn hm rfl rfl (fun _ hc ht => ht.set hsound.1 hc rfl rfl) ⟨hsound.1, ?_⟩ fun _ => rfl
    exact ⟨_, Dict.get_set_self _ _ _, rfl⟩
  · rename_i c
    split at hs <;> cases hs
    rename_i conn hg
    obtain ⟨conn', hg', hch⟩ := hsound.2
    cases hg.symm.trans hg'
    refine hl.goOn hm rfl rfl (fun _ hc ht => ht.set hsound.1 hc rfl rfl) ⟨hsound.1, ?_⟩ fun _ => rfl
    exact ⟨_, Dict.get_set_self _ _ _, hch, rfl⟩
  · rename_i c now
    split at hs
    · rename_i previous hprev
      cases hs
      refine ⟨fun j hj => ?_, fun j hj => ?_, fun hn => by cases hn⟩
      · cases hj
        exact hsound.2
      · have hj' : (h.phase.goOn (.close previous)).maintain = some j := hj
        rw [(goOn_phase hm).1] at hj'
        cases hj'
        intro hc
        exact hsound.1 (hprev.trans hc.symm)
    · cases hs
      refine .maintained (fun j hj => ?_) (Option.some_ne_none c) hne
      cases hj
      exact hsound.2
  · rename_i previous
    cases hs
    refine .maintained (fun c hc => ?_) (hl.connected hm rfl) hne
    obtain ⟨conn, hg, hch, hh⟩ := hl.current c hc
    refine ⟨conn, ?_, hch, hh⟩
    refine (Dict.get_erase_ne _ fun he => ?_).trans hg
    exact hsound (he ▸ hc)
  · cases hs

lemma Hinted.maintainStep {e : Event} (hh : h.Hinted id) (hl : Linked h)
    (hm : h.phase.maintain = some m) (hs : h.maintainStep m e = some h')
    (hp : h'.phase.claimed = true) : h'.Hinted id := by
  have hne : h.phase.maintain ≠ none := by
    rw [hm]
    exact Option.some_ne_none m
  have hsound := hl.sound m hm
  have hset : ∀ {r : ℕ} {conn : Connection}, h.listener.connection ≠ some r →
      h'.connections = h.connections.set r conn → h'.listener = h.listener → h'.Hinted id := by
    intro r conn hr hconns hlis
    obtain hn | ⟨c, old, hc, hg, hway⟩ := hh
    · exact Or.inl (by rw [hlis]; exact hn)
    · refine Or.inr ⟨c, old, by rw [hlis]; exact hc, ?_, hway⟩
      have hcr : c ≠ r := fun he => hr (hc.trans (congrArg some he))
      rw [hconns, Dict.get_set_ne _ _ hcr]
      exact hg
  simp only [Hub.maintainStep] at hs
  split at hs
  · cases hs
    split_ifs at hp ⊢
    · exact hh
    · exact hh
    · cases hp.symm.trans (maintained_not_claimed _ hne)
  · cases hs
    cases hp.symm.trans (maintained_not_claimed _ hne)
  · cases hs
    exact hh
  · rename_i c
    split_ifs at hs with hfresh
    cases hs
    refine hset (fun hc => ?_) rfl rfl
    obtain ⟨conn, hg, -⟩ := hl.current c hc
    rw [hfresh] at hg
    cases hg
  · split at hs <;> cases hs
    exact hset hsound.1 rfl rfl
  · split at hs <;> cases hs
    exact hset hsound.1 rfl rfl
  · split at hs <;> cases hs
    · exact Or.inl rfl
    · cases hp.symm.trans (maintained_not_claimed _ hne)
  · cases hs
    cases hp.symm.trans (maintained_not_claimed _ hne)
  · cases hs

structure Apart (h h' : Hub) : Prop where
  store : h'.store = h.store
  notes : h'.notes = h.notes
  topic : h'.topic = h.topic
  session : h'.session = h.session
  snapshot : h'.snapshot = h.snapshot
  channel : h'.listener.channel = h.listener.channel

lemma Apart.maintained (ha : Apart h h') : Apart h h'.maintained := by
  rw [Hub.maintained]
  split <;> exact ⟨ha.store, ha.notes, ha.topic, ha.session, ha.snapshot, ha.channel⟩

lemma Apart.maintainStep {e : Event} (hs : h.maintainStep m e = some h') : Apart h h' := by
  simp only [Hub.maintainStep] at hs
  split at hs
  · cases hs
    split_ifs
    · exact ⟨rfl, rfl, rfl, rfl, rfl, rfl⟩
    · exact ⟨rfl, rfl, rfl, rfl, rfl, rfl⟩
    · exact .maintained ⟨rfl, rfl, rfl, rfl, rfl, rfl⟩
  · cases hs
    exact .maintained ⟨rfl, rfl, rfl, rfl, rfl, rfl⟩
  · cases hs
    exact ⟨rfl, rfl, rfl, rfl, rfl, rfl⟩
  · split_ifs at hs
    cases hs
    exact ⟨rfl, rfl, rfl, rfl, rfl, rfl⟩
  · split at hs <;> cases hs
    exact ⟨rfl, rfl, rfl, rfl, rfl, rfl⟩
  · split at hs <;> cases hs
    exact ⟨rfl, rfl, rfl, rfl, rfl, rfl⟩
  · split at hs <;> cases hs
    · exact ⟨rfl, rfl, rfl, rfl, rfl, rfl⟩
    · exact .maintained ⟨rfl, rfl, rfl, rfl, rfl, rfl⟩
  · cases hs
    exact .maintained ⟨rfl, rfl, rfl, rfl, rfl, rfl⟩
  · cases hs

lemma maintainStep_claimed {e : Event} (hm : h.phase.maintain = some m)
    (hs : h.maintainStep m e = some h') (hp : h'.phase.claimed = true) : h.phase.claimed = true := by
  have hne : h.phase.maintain ≠ none := by
    rw [hm]
    exact Option.some_ne_none m
  have hgo : ∀ m', (h.phase.goOn m').claimed = h.phase.claimed := fun m' => by cases h.phase <;> rfl
  simp only [Hub.maintainStep] at hs
  split at hs
  · cases hs
    split_ifs at hp
    · exact (hgo _).symm.trans hp
    · exact (hgo _).symm.trans hp
    · cases hp.symm.trans (maintained_not_claimed _ hne)
  · cases hs
    cases hp.symm.trans (maintained_not_claimed _ hne)
  · cases hs
    exact (hgo _).symm.trans hp
  · split_ifs at hs
    cases hs
    exact (hgo _).symm.trans hp
  · split at hs <;> cases hs
    exact (hgo _).symm.trans hp
  · split at hs <;> cases hs
    exact (hgo _).symm.trans hp
  · split at hs <;> cases hs
    · exact (hgo _).symm.trans hp
    · cases hp.symm.trans (maintained_not_claimed _ hne)
  · cases hs
    cases hp.symm.trans (maintained_not_claimed _ hne)
  · cases hs

inductive Stepped (md5 : String → String) (h : Hub) : Event → Hub → Prop
  | store {k : ℕ} {a : SweepAction} {h' : Hub} (hs : Stored md5 h k a h') : Stepped md5 h (.store k a) h'
  | maintain {m : Maintain} {e : Event} {h' : Hub} (hm : h.phase.maintain = some m)
      (hs : h.maintainStep m e = some h') : Stepped md5 h e h'
  | apart {e : Event} {h' : Hub} (hk : Kept h h') (ha : Apart h h')
      (hp : h'.phase = h.phase ∨ h'.phase = .stopped ∨
        h.phase = .waiting ∧ h'.phase = .waking .check) : Stepped md5 h e h'

lemma Kept.set {conn conn' : Connection} (hs : h'.connections = h.connections.set c conn')
    (hg : h.connections.get c = some conn)
    (hch : conn'.channel = conn.channel) (hheard : conn'.heard = conn.heard)
    (hlost : conn.lost = true → conn'.lost = true)
    (hn : h.listener.notified = true → h'.listener.notified = true)
    (hun : ∀ m ∈ conn.undelivered, m ∈ conn'.undelivered ∨
      (conn.heard = true → h'.listener.notified = true))
    (hl : h'.listener.connection = h.listener.connection)
    (hl' : h'.listener.channel = h.listener.channel) : Kept h h' := by
  refine ⟨hl, hl', hn, fun j u hj => ?_⟩
  rw [hs]
  by_cases hjc : j = c
  · subst hjc
    cases hg.symm.trans hj
    exact ⟨conn', Dict.get_set_self _ _ _, hch, hheard, hlost, hun⟩
  · refine ⟨u, ?_, rfl, rfl, fun hh => hh, fun m hm => Or.inl hm⟩
    exact (Dict.get_set_ne _ _ hjc).trans hj

lemma stepped {e : Event} (hs : h.step md5 e = some h') : Stepped md5 h e h' := by
  cases e with
  | store k a => exact .store (.of_step hs)
  | maintain | probed | connected | listened | added | swapped | closed =>
    obtain ⟨m, hm, hs⟩ := Option.bind_eq_some_iff.mp hs
    exact .maintain hm hs
  | fail =>
    cases hs
    exact .apart (.of_same rfl rfl (fun hn => hn) rfl) ⟨rfl, rfl, rfl, rfl, rfl, rfl⟩ (Or.inr (Or.inl rfl))
  | lose c =>
    obtain ⟨conn, hg, rfl⟩ := Option.map_eq_some_iff.mp hs
    exact .apart (.set rfl hg rfl rfl (fun _ => rfl) (fun hn => hn) (fun m hm => Or.inl hm) rfl rfl)
      ⟨rfl, rfl, rfl, rfl, rfl, rfl⟩ (Or.inl rfl)
  | notice c =>
    obtain ⟨conn, hg, hs⟩ := Option.bind_eq_some_iff.mp hs
    split_ifs at hs
    cases hs
    exact .apart (.set rfl hg rfl rfl (fun hh => hh) (fun hn => hn) (fun m hm => Or.inl hm) rfl rfl)
      ⟨rfl, rfl, rfl, rfl, rfl, rfl⟩ (Or.inl rfl)
  | wake timeout =>
    simp only [step] at hs
    split at hs
    · rename_i hw
      split_ifs at hs
      cases hs
      exact .apart (.of_same rfl rfl (fun hn => hn) rfl) ⟨rfl, rfl, rfl, rfl, rfl, rfl⟩
        (Or.inr (Or.inr ⟨hw, rfl⟩))
    · cases hs
  | deliver c =>
    simp only [step, deliver] at hs
    split at hs
    · rename_i conn hg
      split at hs
      · cases hs
        refine .apart (.set rfl hg rfl rfl (fun hh => hh) (fun hn => ?_)
          (fun m hm => Or.inr fun hheard => ?_) rfl rfl) ⟨rfl, rfl, rfl, rfl, rfl, rfl⟩ (Or.inl rfl)
        · change (h.listener.notified || conn.heard) = true
          rw [hn, Bool.true_or]
        · change (h.listener.notified || conn.heard) = true
          rw [hheard, Bool.or_true]
      · cases hs
    · cases hs

lemma Linked.step {e : Event} (hl : Linked h) (hs : Stepped md5 h e h') : Linked h' := by
  cases hs with
  | store hs => exact hs.linked hl
  | maintain hm hs => exact hl.maintainStep hm hs
  | apart hk ha hp =>
    refine hk.linked hl (fun m hm => ?_) fun hn => ?_
    · obtain hp | hp | ⟨-, hp⟩ := hp
      · exact Or.inl (hp ▸ hm)
      · rw [hp] at hm
        cases hm
      · rw [hp] at hm
        cases hm
        exact Or.inr rfl
    · obtain hp | hp | ⟨hw, -⟩ := hp
      · exact Or.inl hp
      · exact Or.inr hp
      · obtain hst | ⟨m, hm, -⟩ := hl.opened hn
        · cases hw.symm.trans hst
        · cases hw.symm.trans hm

lemma Hinted.step {e : Event} (hh : h.Hinted id) (hl : Linked h) (hs : Stepped md5 h e h')
    (hp : h'.phase.claimed = true) : h'.Hinted id := by
  cases hs with
  | store hs => exact hs.kept.hinted hl hh
  | maintain hm hs => exact hh.maintainStep hl hm hs hp
  | apart hk => exact hk.hinted hl hh

def isClaim (session : ℕ) : Event → Prop
  | .store k a => k = session ∧ claims a = true
  | _ => False

lemma Stepped.claimed {e : Event} (hs : Stepped md5 h e h') (hp : h'.phase.claimed = true)
    (he : ¬ isClaim h.session e) : h.phase.claimed = true ∧ h'.snapshot = h.snapshot := by
  cases hs with
  | @store k a h' hs =>
    obtain ⟨-, hphase, hsnap⟩ | ⟨hk, hn, hsnap⟩ := hs.loop
    · exact ⟨hphase ▸ hp, hsnap⟩
    · have hc : ¬ claims a = true := fun hc => he ⟨hk, hc⟩
      rw [if_neg hc] at hsnap
      exact ⟨((next_loop hn).2.2.2 hp).resolve_left hc, hsnap⟩
  | @maintain m e h' hm hs =>
    exact ⟨maintainStep_claimed hm hs hp, (Apart.maintainStep hs).snapshot⟩
  | apart hk ha hp' =>
    refine ⟨?_, ha.snapshot⟩
    obtain hp' | hp' | ⟨hw, -⟩ := hp'
    · exact hp' ▸ hp
    · rw [hp'] at hp
      cases hp
    · rw [hw]
      rfl

def Announced (h : Hub) : Prop :=
  ∀ k x, h.store.sys.txns.get k = some x → Noted x (h.notesOf k)

lemma notesOf_set_ne {k j : ℕ} {v : List (Id × String)} (hj : j ≠ k)
    (hn : h'.notes = h.notes.set k v) : h'.notesOf j = h.notesOf j := by
  rw [notesOf, notesOf, hn, Dict.get_set_ne _ _ hj]

lemma notesOf_erase_ne {k j : ℕ} (hj : j ≠ k) (hn : h'.notes = h.notes.erase k) :
    h'.notesOf j = h.notesOf j := by
  rw [notesOf, notesOf, hn, Dict.get_erase_ne _ hj]

lemma Stored.announced (hs : Stored md5 h k a h') (ha : h.Announced) : h'.Announced := by
  have hstep := hs.step
  have hnotes := hs.notes
  have herase : ∀ {y : Txn} {j : ℕ} {u : Txn}, h'.notes = h.notes.erase k →
      (∀ notes, Noted y notes) → (h.store.sys.txns.set k y).get j = some u →
      Noted u (h'.notesOf j) := by
    intro y j u hn hy hj
    rw [Dict.get_set] at hj
    split_ifs at hj with hjk
    · cases hj
      exact hy _
    · rw [notesOf_erase_ne hjk hn]
      exact ha j u hj
  cases a with
  | begin before limit =>
    rw [Swept.step, Swept.begin, Option.ite_none_left_eq_some] at hstep
    obtain ⟨-, hstep⟩ := hstep
    intro j u hj
    rw [← Option.some_inj.mp hstep] at hj
    exact herase hnotes (fun _ => .empty rfl fun _ => List.not_mem_nil) hj
  | lockNext =>
    obtain ⟨x, hx, hstep⟩ := Option.bind_eq_some_iff.mp hstep
    obtain ⟨w, hw, hstep⟩ := Option.bind_eq_some_iff.mp hstep
    dsimp only at hstep
    intro j u hj
    have hsame : h'.notesOf j = h.notesOf j := by
      rw [notesOf, notesOf, hnotes]
      rfl
    rw [hsame]
    split at hstep
    · cases hstep
    · rw [Option.ite_none_left_eq_some] at hstep
      obtain ⟨-, hstep⟩ := hstep
      split_ifs at hstep <;> rw [← Option.some_inj.mp hstep] at hj
      · rw [Dict.get_set] at hj
        split_ifs at hj with hjk
        · cases hj
          exact hjk ▸ (ha k x hx).same rfl rfl
        · exact ha j u hj
      · exact ha j u hj
  | delete =>
    obtain ⟨w, hw, hstep⟩ := Option.bind_eq_some_iff.mp hstep
    rw [Option.ite_none_left_eq_some] at hstep
    obtain ⟨-, hstep⟩ := hstep
    intro j u hj
    rw [← Option.some_inj.mp hstep] at hj
    dsimp only at hj
    rw [Dict.get_map, Option.map_eq_some_iff] at hj
    obtain ⟨x, hx, rfl⟩ := hj
    rw [Dict.get_erase] at hx
    split_ifs at hx with hjk
    rw [notesOf_erase_ne hjk hnotes]
    exact (ha j x hx).forget _
  | act b =>
    rw [Swept.step, Option.ite_none_left_eq_some] at hstep
    obtain ⟨-, hstep⟩ := hstep
    obtain ⟨sys, hsys, hstep⟩ := Option.map_eq_some_iff.mp hstep
    intro j u hj
    rw [← hstep] at hj
    obtain ⟨rfl, -, rfl⟩ | ⟨c, x, y, rfl, hx, hy, rfl⟩ | ⟨x, rfl, hx, hst, rfl⟩ | ⟨rfl, rfl⟩ :=
      Sys.step_cases hsys
    · exact herase hnotes (fun _ => .empty rfl fun _ => List.not_mem_nil) hj
    · have hget : h'.store.sys.txns.get k = some y := by
        rw [← hstep]
        exact Dict.get_set_self _ _ _
      simp only [announce, hx, hget] at hnotes
      dsimp only at hj
      rw [Dict.get_set] at hj
      split_ifs at hj with hjk
      · cases hj
        have hself : h'.notesOf j = h.notesOf k ++ x.notifies h.store.sys.committed c u := by
          rw [notesOf, hnotes, hjk, Dict.get_set_self]
          rfl
        rw [hself]
        exact (ha k x hx).step hy
      · rw [notesOf_set_ne hjk hnotes]
        exact ha j u hj
    · dsimp only at hj
      rw [Dict.get_erase] at hj
      split_ifs at hj with hjk
      rw [notesOf_erase_ne hjk hnotes]
      exact ha j u hj
    · dsimp only at hj
      rw [Dict.get_erase] at hj
      split_ifs at hj with hjk
      rw [notesOf_erase_ne hjk hnotes]
      exact ha j u hj

lemma Stored.ready (hs : Stored md5 h k a h') (ha : h.Announced) {topic : String}
    (hr : h'.store.sys.committed.ready topic id = true) :
    (a = .act .commit ∧ (id, topic) ∈ h.notesOf k) ∨
      (∀ x, a = .act .commit → h.store.sys.txns.get k = some x → x.delta.tasks.get id = none) ∧
      h.store.sys.committed.ready topic id = true ∧
        h'.store.sys.committed.tasks.get id = h.store.sys.committed.tasks.get id := by
  have hstep := hs.step
  have hother (hne : a ≠ .act .commit) (x : Txn) (hc : a = .act .commit) :
      h.store.sys.txns.get k = some x → x.delta.tasks.get id = none := absurd hc hne
  cases a with
  | begin before limit =>
    rw [Swept.step, Swept.begin, Option.ite_none_left_eq_some] at hstep
    obtain ⟨-, hstep⟩ := hstep
    rw [← Option.some_inj.mp hstep] at hr ⊢
    exact Or.inr ⟨hother (by simp), hr, rfl⟩
  | lockNext =>
    obtain ⟨x, hx, hstep⟩ := Option.bind_eq_some_iff.mp hstep
    obtain ⟨w, hw, hstep⟩ := Option.bind_eq_some_iff.mp hstep
    dsimp only at hstep
    split at hstep
    · cases hstep
    · rw [Option.ite_none_left_eq_some] at hstep
      obtain ⟨-, hstep⟩ := hstep
      split_ifs at hstep <;> rw [← Option.some_inj.mp hstep] at hr ⊢ <;>
        exact Or.inr ⟨hother (by simp), hr, rfl⟩
  | delete =>
    obtain ⟨w, hw, hstep⟩ := Option.bind_eq_some_iff.mp hstep
    rw [Option.ite_none_left_eq_some] at hstep
    obtain ⟨-, hstep⟩ := hstep
    rw [← Option.some_inj.mp hstep] at hr ⊢
    exact Or.inr ⟨hother (by simp), Db.ready_deleteGraphs hr⟩
  | act b =>
    rw [Swept.step, Option.ite_none_left_eq_some] at hstep
    obtain ⟨-, hstep⟩ := hstep
    obtain ⟨sys, hsys, hstep⟩ := Option.map_eq_some_iff.mp hstep
    rw [← hstep] at hr ⊢
    obtain ⟨rfl, -, rfl⟩ | ⟨c, x, y, rfl, hx, hy, rfl⟩ | ⟨x, rfl, hx, hst, rfl⟩ | ⟨rfl, rfl⟩ :=
      Sys.step_cases hsys
    · exact Or.inr ⟨hother (by simp), hr, rfl⟩
    · exact Or.inr ⟨hother (by simp), hr, rfl⟩
    · rcases (ha k x hx).commit hr with hn | ⟨hd, hready, hsame⟩
      · exact Or.inl ⟨rfl, hn⟩
      · refine Or.inr ⟨fun u _ hu => ?_, hready, hsame⟩
        cases hx.symm.trans hu
        exact hd
    · exact Or.inr ⟨hother (by simp), hr, rfl⟩

/-- The row of a task is as the snapshot of the last CLAIM has it, where it is claimable. -/
def Seen (h : Hub) (id : Id) : Prop :=
  h.snapshot.tasks.get id = h.store.sys.committed.tasks.get id ∧ h.snapshot.ready h.topic id = true

structure Inv (md5 : String → String) (h : Hub) : Prop where
  linked : Linked h
  announced : h.Announced
  channel : h.listener.channel = taskChannel md5 h.topic
  known : h.phase.claimed = true → ∀ id, h.store.sys.committed.ready h.topic id = true →
    h.Seen id ∨ h.Hinted id

lemma Linked.open (hl : Linked h) (hp : h.phase.claimed = true) :
    ∃ c, h.listener.connection = some c ∧ h.Tuned c := by
  cases hc : h.listener.connection with
  | some c => exact ⟨c, rfl, hl.current c hc⟩
  | none =>
    obtain hst | ⟨m, hm, -⟩ := hl.opened hc
    · rw [hst] at hp
      cases hp
    · rw [hm] at hp
      cases hp

lemma Stored.hinted (hs : Stored md5 h k (.act .commit) h') (hi : Inv md5 h)
    (hp : h.phase.claimed = true) (hn : (id, h.topic) ∈ h.notesOf k) : h'.Hinted id := by
  obtain ⟨c, hc, conn, hg, hch, -⟩ := hi.linked.open hp
  rw [hi.channel] at hch
  refine Or.inr ⟨c, conn.receive md5 (h.notesOf k), by rw [hs.listener]; exact hc, ?_, ?_⟩
  · rw [hs.connections]
    change (h.connections.map _).get c = _
    rw [Dict.get_map, hg]
    rfl
  · have hmem : (id, h.topic) ∈
        (h.notesOf k).filter fun n => conn.channel = some (taskChannel md5 n.2) :=
      List.mem_filter.mpr ⟨hn, decide_eq_true hch⟩
    rw [Connection.receive]
    split_ifs with hlost
    · refine Or.inl (hlost.resolve_right fun hnil => ?_)
      rw [hnil] at hmem
      cases hmem
    · refine Or.inr ⟨_, List.mem_append_right _ (List.mem_singleton.mpr rfl), ?_⟩
      exact List.mem_map.mpr ⟨_, hmem, rfl⟩

lemma Inv.apart (hi : Inv md5 h) (hl : Linked h') (ha : Apart h h')
    (hp : h'.phase.claimed = true → h.phase.claimed = true)
    (hh : ∀ id, h'.phase.claimed = true → h.Hinted id → h'.Hinted id) : Inv md5 h' := by
  refine ⟨hl, fun k x hx => ?_, ?_, fun hc id hr => ?_⟩
  · rw [notesOf, ha.notes]
    exact hi.announced k x (ha.store ▸ hx)
  · rw [ha.channel, ha.topic]
    exact hi.channel
  · rw [ha.store, ha.topic] at hr
    refine (hi.known (hp hc) id hr).imp (fun hseen => ?_) (hh id hc)
    rw [Seen, ha.snapshot, ha.store, ha.topic]
    exact hseen

lemma Inv.step {e : Event} (hi : Inv md5 h) (hs : Stepped md5 h e h') : Inv md5 h' := by
  have hl := hi.linked.step hs
  cases hs with
  | @store k a h' hs =>
    refine ⟨hl, hs.announced hi.announced, by rw [hs.listener, hs.topic]; exact hi.channel, ?_⟩
    intro hp id hr
    rw [hs.topic] at hr
    by_cases hc : isClaim h.session (.store k a)
    · -- the snapshot is what is committed, and CLAIM commits nothing
      obtain ⟨hk, -⟩ | ⟨-, -, hsnap⟩ := hs.loop
      · exact absurd hc.1 hk
      · rw [if_pos hc.2] at hsnap
        rcases hs.ready hi.announced hr with ⟨rfl, -⟩ | ⟨-, hr₀, hsame⟩
        · cases hc.2
        · refine Or.inl ⟨?_, ?_⟩
          · rw [hsnap, hsame]
          · rw [hsnap, hs.topic]
            exact hr₀
    · obtain ⟨hp₀, hsnap⟩ := Stepped.claimed (.store hs) hp hc
      rcases hs.ready hi.announced hr with ⟨rfl, hn⟩ | ⟨-, hr₀, hsame⟩
      · exact Or.inr (hs.hinted hi hp₀ hn)
      · rcases hi.known hp₀ id hr₀ with ⟨hseen, hready⟩ | hh
        · refine Or.inl ⟨?_, ?_⟩
          · rw [hsnap, hsame]
            exact hseen
          · rw [hsnap, hs.topic]
            exact hready
        · exact Or.inr (hs.kept.hinted hi.linked hh)
  | maintain hm hs =>
    exact hi.apart hl (.maintainStep hs) (maintainStep_claimed hm hs) fun id hp hh =>
      hh.maintainStep hi.linked hm hs hp
  | apart hk ha hp =>
    refine hi.apart hl ha (fun hc => ?_) fun id _ hh => hk.hinted hi.linked hh
    obtain hp | hp | ⟨hw, -⟩ := hp
    · exact hp ▸ hc
    · rw [hp] at hc
      cases hc
    · rw [hw]
      rfl

lemma Inv.start (db : Db) (topic : String) (session : ℕ) (recycleRate probeRate : Time) :
    Inv md5 (start md5 db topic session recycleRate probeRate) := by
  refine ⟨⟨nofun, fun m hm => ?_, fun _ => Or.inr ⟨_, rfl, rfl⟩⟩, fun k x hx => ?_, rfl, nofun⟩
  · cases hm
    trivial
  · cases hx

variable {es : List Event}

lemma Inv.run (hi : Inv md5 h) (hr : run md5 h es = some h') : Inv md5 h' := by
  induction es generalizing h with
  | nil =>
    cases hr
    exact hi
  | cons e es ih =>
    obtain ⟨g, hs, hr⟩ := Option.bind_eq_some_iff.mp hr
    exact ih (hi.step (stepped hs)) hr

lemma Stepped.session {e : Event} (hs : Stepped md5 h e h') : h'.session = h.session := by
  cases hs with
  | store hs => exact hs.session
  | maintain hm hs => exact (Apart.maintainStep hs).session
  | apart hk ha => exact ha.session

lemma Hinted.run (hl : Linked h) (hr : Hub.run md5 h es = some h')
    (he : ∀ e ∈ es, ¬ isClaim h.session e) (hp : h'.phase.claimed = true) :
    h.phase.claimed = true ∧ h'.snapshot = h.snapshot ∧ ∀ id, h.Hinted id → h'.Hinted id := by
  induction es generalizing h with
  | nil =>
    cases hr
    exact ⟨hp, rfl, fun _ hh => hh⟩
  | cons e es ih =>
    obtain ⟨g, hs, hr⟩ := Option.bind_eq_some_iff.mp hr
    have hs := stepped hs
    have hrest : ∀ e ∈ es, ¬ isClaim g.session e := by
      rw [hs.session]
      exact fun e hm => he e (List.mem_cons_of_mem _ hm)
    obtain ⟨hg, hsnap, hhint⟩ := ih (hl.step hs) hr hrest
    obtain ⟨hh, hsnap'⟩ := hs.claimed hg (he e List.mem_cons_self)
    exact ⟨hh, hsnap.trans hsnap', fun id hid => hhint id (hid.step hl hs hg)⟩

lemma run_session {g : Hub} (hr : Hub.run md5 h es = some g) : g.session = h.session ∧ g.topic = h.topic := by
  induction es generalizing h with
  | nil =>
    cases hr
    exact ⟨rfl, rfl⟩
  | cons e es ih =>
    obtain ⟨g', hs, hr⟩ := Option.bind_eq_some_iff.mp hr
    have hs := stepped hs
    have htopic : g'.topic = h.topic := by
      cases hs with
      | store hs => exact hs.topic
      | maintain hm hs => exact (Apart.maintainStep hs).topic
      | apart hk ha => exact ha.topic
    exact ⟨(ih hr).1.trans hs.session, (ih hr).2.trans htopic⟩

/-- The tasks that are claimable when a commit has been made, and with them those that it made
claimable, are known to a loop that waits with its event clear. It has claimed since the commit, or
the commit left the row as the snapshot of its last CLAIM has it, or a notification that was sent for
the task is on its way on the connection, or that connection is lost. -/
theorem waiting_loop_has_every_hint {db : Db} {topic : String} {session : ℕ}
    {recycleRate probeRate : Time} {es₁ es₂ : List Event} {k : ℕ} {x : Txn} {a b c : Hub} {id : Id}
    (h₁ : run md5 (start md5 db topic session recycleRate probeRate) es₁ = some a)
    (hx : a.store.sys.txns.get k = some x) (hc : a.step md5 (.store k (.act .commit)) = some b)
    (h₂ : run md5 b es₂ = some c) (hr : b.store.sys.committed.ready topic id = true)
    (hw : c.phase = .waiting) (hn : c.listener.notified = false) :
    (∃ e ∈ es₂, isClaim session e) ∨
      (x.delta.tasks.get id = none ∧
        c.snapshot.tasks.get id = b.store.sys.committed.tasks.get id ∧
        c.snapshot.ready topic id = true) ∨
      ∃ n conn, c.listener.connection = some n ∧ c.connections.get n = some conn ∧
        conn.channel = some (taskChannel md5 topic) ∧
        (conn.lost = true ∨ ∃ m ∈ conn.undelivered, id ∈ m) := by
  by_cases hclaim : ∃ e ∈ es₂, isClaim session e
  · exact Or.inl hclaim
  have hstart : Inv md5 (start md5 db topic session recycleRate probeRate) := .start ..
  have hia := hstart.run h₁
  have hsession : a.session = session := (run_session h₁).1
  have htopic : a.topic = topic := (run_session h₁).2
  have hs : Stored md5 a k (.act .commit) b := .of_step hc
  have hstep : Stepped md5 a (.store k (.act .commit)) b := .store hs
  have hcommit : ¬ isClaim a.session (.store k (.act .commit)) := fun hh => nomatch hh.2
  have hib := hia.step hstep
  have hno : ∀ e ∈ es₂, ¬ isClaim b.session e := by
    rw [hs.session, hsession]
    exact fun e he hh => hclaim ⟨e, he, hh⟩
  have hwait : c.phase.claimed = true := by
    rw [hw]
    rfl
  obtain ⟨hpb, hsnap, hhint⟩ := Hinted.run hib.linked h₂ hno hwait
  obtain ⟨hpa, hsnap'⟩ := hstep.claimed hpb hcommit
  have hfinal : b.Hinted id → ∃ n conn, c.listener.connection = some n ∧
      c.connections.get n = some conn ∧ conn.channel = some (taskChannel md5 topic) ∧
      (conn.lost = true ∨ ∃ m ∈ conn.undelivered, id ∈ m) := by
    intro hh
    obtain hset | ⟨n, conn, hcon, hg, hway⟩ := hhint id hh
    · rw [hn] at hset
      cases hset
    · have hic := hib.run h₂
      obtain ⟨conn', hg', hch, -⟩ := hic.linked.current n hcon
      cases hg.symm.trans hg'
      refine ⟨n, conn, hcon, hg, ?_, hway⟩
      rw [hch, hic.channel, (run_session h₂).2, hs.topic, htopic]
  rcases hs.ready hia.announced hr with ⟨-, hnote⟩ | ⟨hunwritten, hra, hsame⟩
  · exact Or.inr (Or.inr (hfinal (hs.hinted hia hpa (htopic ▸ hnote))))
  · rw [← htopic] at hra
    rcases hia.known hpa id hra with ⟨hseen, hready⟩ | hh
    · refine Or.inr (Or.inl ⟨hunwritten x rfl hx, ?_, ?_⟩)
      · rw [hsnap, hsnap', hsame]
        exact hseen
      · rw [hsnap, hsnap', ← htopic]
        exact hready
    · exact Or.inr (Or.inr (hfinal (hs.kept.hinted hia.linked hh)))

open Sys (opening rootCall)

def digest : String → String := fun _ => "c21f969b5f03d33d43e04f8f136e7682"

def idling : List Event :=
  [.connected 1, .listened, .added, .swapped 0, .maintain 0, .store 7 (.act .begin),
    .store 7 (.act (.act (.claim "default" [] 5))), .store 7 (.act (.act .claimNext)),
    .store 7 (.act .rollback)] ++
    (opening 0 [.submitCalls [rootCall], .insertNext, .insertEnd]).map fun e => .store e.1 (.act e.2)

lemma idling_runs : (run digest (start digest {} "default" 7 100 50) idling).isSome = true := by
  decide +kernel

def idle : Hub := (run digest (start digest {} "default" 7 100 50) idling).get idling_runs

lemma idle_submits : (idle.store.sys.txns.get 0).isSome = true := by decide +kernel

lemma idle_commits : (idle.step digest (.store 0 (.act .commit))).isSome = true := by decide +kernel

def told : Hub := (idle.step digest (.store 0 (.act .commit))).get idle_commits

theorem waiting_loop_has_every_hint_submitted :
    (∃ e ∈ ([] : List Event), isClaim 7 e) ∨
      (((idle.store.sys.txns.get 0).get idle_submits).delta.tasks.get "root" = none ∧
        told.snapshot.tasks.get "root" = told.store.sys.committed.tasks.get "root" ∧
        told.snapshot.ready "default" "root" = true) ∨
      ∃ n conn, told.listener.connection = some n ∧ told.connections.get n = some conn ∧
        conn.channel = some (taskChannel digest "default") ∧
        (conn.lost = true ∨ ∃ m ∈ conn.undelivered, "root" ∈ m) :=
  waiting_loop_has_every_hint (Option.some_get idling_runs).symm (Option.some_get idle_submits).symm
    (Option.some_get idle_commits).symm (rfl : run digest told [] = some told) (by decide +kernel)
    (by decide +kernel) (by decide +kernel)

end Hub

end Reaper.Worker
