import Auxlry.Proof.Context
import Auxlry.Proof.DaemonSteps
import Auxlry.Proof.Delivery
import Auxlry.Sys.Progress
import Mathlib.Data.Finset.Card

/-!
# The daemon catches up

Tasks of the daemon wait for each other: the bridge for the sessions, a debounce task for
room in the channel of batches, a batch for the one that is processed. None of them waits
for good: from every state, as long as the channel is open, a run leads to one where
nothing is left to do, and on the way every message that was there has reached the model.

* `Sound.step`, `Since.step`: what every step keeps, and what the steps keep that need
  nothing from outside.
* `rank_lt`: each of these but a wait leaves less to do.
* `catches_up`: **the daemon may always catch up**.
-/

namespace Auxlry

/-- A message that was added, by its session and its text. -/
def AddedMessage.label (e : AddedMessage) : String × String × String := (e.key, e.msg.author, e.msg.content)

def InboundMessage.label (m : InboundMessage) : String × String × String :=
  (sessionKey m.interface m.channel, m.author, m.content)

namespace Daemon

open Startup (waiting inHand)

variable {s s' start : Daemon} {a : Action}

/-! ## What holds in every state -/

structure Sound (s : Daemon) : Prop where
  manager : s.manager.Inv
  tracked : s.Tracked
  sent : s.manager.sent = s.delivered.map (·.1)
  /-- a batch whose history is loaded is in front of the model -/
  prompted : ∀ r, s.interface.phase = .processing r → s.history.isSome → ∃ c ∈ s.contexts, c.received = r

theorem sound_init (now : ℕ) (adapters : List String) (messages : MessageTable) :
    (init now adapters messages).Sound where
  manager := SessionManager.Inv.init debounceMs now
  tracked := tracked_init now adapters messages
  sent := rfl
  prompted r hr := by cases hr

/-- Processing starts with the next batch, and in no other step. -/
theorem processing_of_step {agent agent' : InterfaceAgent} {action : InterfaceAgent.Action} {r : Received}
    (h : agent.step action = some agent') (hnext : action ≠ .next) (hr : agent'.phase = .processing r) :
    agent.phase = .processing r := by
  cases InterfaceAgent.step_change h with
  | deliver | close | agents | steer | defer => exact hr
  | pop | take | stop => exact absurd rfl hnext
  | drain phase => exact hr
  | complete | drained | respond => cases hr

/-- What a task that wakes up does to the batches. -/
theorem wake_sent {manager : SessionManager} {task : ℕ} (hbatches : s.manager.batches = [])
    (h : s.manager.step (.wake task) = some manager) : manager.sent = s.manager.sent ++ manager.batches := by
  rcases SessionManager.wake_cases h with ⟨-, -, batches, sent, -⟩ | ⟨t, session, -, -, rfl⟩
  · rw [batches, hbatches, sent, List.append_nil]
  · show s.manager.sent ++ [_] = s.manager.sent ++ (s.manager.batches ++ [_])
    rw [hbatches, List.nil_append]

theorem wake_added {manager : SessionManager} {task : ℕ} (h : s.manager.step (.wake task) = some manager) :
    manager.added = s.manager.added := by
  rcases SessionManager.wake_cases h with ⟨-, added, -⟩ | ⟨t, session, -, -, rfl⟩
  · exact added
  · rfl

theorem Sound.step (hS : s.Sound) (h : s.step a = some s') : s'.Sound := by
  have htracked := hS.tracked.step h
  cases step_did h with
  | elapse ms =>
    have hpast : ∀ e ∈ s.manager.added, e.addedAt ≤ s.manager.now + ms :=
      fun e he => (hS.manager.past e he).trans (Nat.le_add_right _ _)
    exact ⟨{ hS.manager with past := hpast }, htracked, hS.sent, hS.prompted⟩
  | publish | recv => exact ⟨hS.manager, htracked, hS.sent, hS.prompted⟩
  | @add m receivedAt =>
    refine ⟨hS.manager.addMessage, htracked, ?_, hS.prompted⟩
    have hsent : (s.manager.addMessage m.interface m.channel ⟨m.author, m.content, receivedAt⟩).sent =
        s.manager.sent := by
      unfold SessionManager.addMessage
      dsimp only
      split <;> rfl
    exact hsent.trans hS.sent
  | insert =>
    unfold Daemon.insert at htracked ⊢
    split at htracked
    · exact ⟨hS.manager, htracked, hS.sent, hS.prompted⟩
    · exact ⟨hS.manager, htracked, hS.sent, hS.prompted⟩
  | slept wake none =>
    refine ⟨hS.manager.step wake, htracked, ?_, hS.prompted⟩
    show _ = s.delivered.map (·.1)
    rw [wake_sent hS.tracked.batches wake, none, List.append_nil, hS.sent]
  | @flushed task manager b rest interface wake batches deliver =>
    refine ⟨{ hS.manager.step wake with }, htracked, ?_, fun r hr => ?_⟩
    · have hrest : rest = [] := htracked.batches
      show manager.sent = (s.delivered ++ [(b, s.pending b.key)]).map (·.1)
      rw [wake_sent hS.tracked.batches wake, batches, hrest, hS.sent, List.map_append]
      rfl
    · exact hS.prompted r (processing_of_step deliver (fun he => by cases he) hr)
  | next => exact ⟨hS.manager, htracked, hS.sent, fun r _ hsome => by cases hsome⟩
  | interface own _ other =>
    exact ⟨hS.manager, htracked, hS.sent, fun r hr => hS.prompted r (processing_of_step own other.1 hr)⟩
  | @prompt r order rows processing =>
    refine ⟨hS.manager, htracked, hS.sent, fun q hq _ => ?_⟩
    have hq : s.interface.phase = .processing q := hq
    rw [processing] at hq
    cases hq
    exact ⟨_, List.mem_append_right _ (List.mem_singleton_self _), rfl⟩
  | answer now queryOk responding respond | apology now queryOk responding respond =>
    refine ⟨hS.manager, htracked, hS.sent, fun q hq => ?_⟩
    have hphase := processing_of_step respond (fun he => by cases he) hq
    rw [responding] at hphase
    cases hphase

/-! ## What holds since a state -/

/-- What the daemon does by itself: no event comes from outside, no agent acts, processing does
not fail, and a batch is only received to be processed. -/
def Action.Own : Action → Prop
  | .publish _ | .interface .close | .interface (.additional _) | .interface (.agents _) => False
  | .interface (.complete (.error _)) => False
  | _ => True

/-- Every message that has been added since was on its way before, and every batch that has
been processed since is in front of the model, or about to be. -/
structure Since (start s : Daemon) : Prop where
  opened : s.interface.closed = false
  steered : s.interface.steered = start.interface.steered
  processed : ∀ r ∈ s.interface.processed, r ∈ start.interface.processed ∨ (∃ c ∈ s.contexts, c.received = r) ∨
    (s.interface.phase = .processing r ∧ s.history = none)
  added : s.manager.added.map (·.label) ++ (waiting s).map (·.label) =
    start.manager.added.map (·.label) ++ (waiting start).map (·.label)

theorem Since.refl (h : s.interface.closed = false) : Since s s :=
  ⟨h, rfl, fun _ hr => .inl hr, rfl⟩

/-- A step that leaves the interface agent alone. -/
theorem Since.keep (hT : Since start s) (interface : s'.interface = s.interface) (history : s'.history = s.history)
    (contexts : s'.contexts = s.contexts)
    (added : s'.manager.added.map (·.label) ++ (waiting s').map (·.label) =
      s.manager.added.map (·.label) ++ (waiting s).map (·.label)) : Since start s' := by
  refine ⟨?_, ?_, ?_, added.trans hT.added⟩
  · rw [interface]
    exact hT.opened
  · rw [interface]
    exact hT.steered
  · rw [interface, history, contexts]
    exact hT.processed

/-- A step of the interface agent that leaves the messages alone. A batch that was about to
be in front of the model still is, or has been put there. -/
theorem Since.of_interface (hT : Since start s) (closed : s'.interface.closed = s.interface.closed)
    (steered : s'.interface.steered = s.interface.steered) (contexts : s'.contexts = s.contexts)
    (processed : ∀ r ∈ s'.interface.processed, r ∈ s.interface.processed ∨
      (s'.interface.phase = .processing r ∧ s'.history = none))
    (phase : ∀ r, s.interface.phase = .processing r → s.history = none →
      s'.interface.phase = .processing r ∧ s'.history = none)
    (added : s'.manager.added = s.manager.added) (waits : waiting s' = waiting s) : Since start s' := by
  refine ⟨closed.trans hT.opened, steered.trans hT.steered, fun r hr => ?_, ?_⟩
  · rw [contexts]
    rcases processed r hr with hold | hnew
    · rcases hT.processed r hold with hstart | hcontext | ⟨hphase, hhistory⟩
      · exact .inl hstart
      · exact .inr (.inl hcontext)
      · exact .inr (.inr (phase r hphase hhistory))
    · exact .inr (.inr hnew)
  · rw [added, waits]
    exact hT.added

theorem waiting_recv {event : EventPayload} {rest : List EventPayload} (idle : s.bridge = .idle)
    (bus : s.bus = event :: rest) :
    waiting { s with bus := rest, bridge := receive s.manager.now event } = waiting s := by
  unfold waiting
  rw [idle, bus]
  dsimp only
  rw [Startup.inHand_receive, List.filterMap_cons]
  cases event <;> rfl

/-- An answer on the bus is no message. -/
theorem waiting_reply {interface channel content : String} (bus : s.bus = []) :
    (Daemon.publish s.bus (.interfaceReply interface channel content)).filterMap (·.message) =
      s.bus.filterMap (·.message) := by
  rw [bus]
  rfl

/-- What the daemon does by itself keeps every message, if answers find room on the bus. -/
theorem Since.step (hT : Since start s) (hown : a.Own) (hroom : ∀ now queryOk, a = .respond now queryOk → s.bus = [])
    (h : s.step a = some s') : Since start s' := by
  cases step_did h with
  | elapse => exact hT.keep rfl rfl rfl rfl
  | publish => exact absurd hown id
  | recv idle bus =>
    refine hT.keep rfl rfl rfl ?_
    rw [waiting_recv idle bus]
  | @add m receivedAt adding =>
    refine hT.keep rfl rfl rfl ?_
    obtain ⟨-, hadded, -⟩ :=
      SessionManager.addMessage_kept s.manager m.interface m.channel ⟨m.author, m.content, receivedAt⟩
    unfold waiting
    dsimp only
    rw [hadded, adding, List.map_append, List.append_assoc]
    rfl
  | insert now queryOk inserting =>
    unfold Daemon.insert
    split
    · refine hT.keep rfl rfl rfl ?_
      unfold waiting
      rw [inserting]
      rfl
    · refine hT.keep rfl rfl rfl ?_
      unfold waiting
      rw [inserting]
      rfl
  | slept wake =>
    refine hT.keep rfl rfl rfl ?_
    dsimp only
    rw [wake_added wake]
    rfl
  | flushed wake batches deliver =>
    have hadded := wake_added wake
    cases InterfaceAgent.step_change deliver
    exact hT.of_interface rfl rfl rfl (fun r hr => .inl hr) (fun r hphase hhistory => ⟨hphase, hhistory⟩) hadded rfl
  | next took =>
    have hopened := hT.opened
    cases InterfaceAgent.step_change took with
    | @pop ds r idle | @take r rest idle =>
      refine hT.of_interface rfl rfl rfl (fun q hq => ?_) (fun q hq => ?_) rfl rfl
      · rcases List.mem_append.1 hq with hq | hq
        · exact .inl hq
        · rw [List.mem_singleton.1 hq]
          exact .inr ⟨rfl, rfl⟩
      · rw [idle] at hq
        cases hq
    | stop _ _ _ closed =>
      rw [hopened] at closed
      cases closed
  | @interface action interface own delivered other prompted =>
    cases InterfaceAgent.step_change own with
    | deliver => cases delivered
    | close | agents | steer | defer => exact absurd hown id
    | pop | take | stop => exact absurd rfl other.1
    | respond => exact absurd rfl other.2
    | @complete r result processing =>
      cases result with
      | error e => exact absurd hown id
      | ok response =>
        refine hT.of_interface rfl rfl rfl (fun q hq => .inl hq) (fun q _ hhistory => ?_) rfl rfl
        have hsome := prompted response rfl
        rw [hhistory] at hsome
        cases hsome
    | drain draining | drained draining =>
      refine hT.of_interface rfl rfl rfl (fun q hq => .inl hq) (fun q hq => ?_) rfl rfl
      rw [draining] at hq
      cases hq
  | @prompt r order rows processing =>
    refine ⟨hT.opened, hT.steered, fun q hq => ?_, hT.added⟩
    rcases hT.processed q hq with hstart | ⟨c, hc, hreceived⟩ | ⟨hphase, -⟩
    · exact .inl hstart
    · exact .inr (.inl ⟨c, List.mem_append_left _ hc, hreceived⟩)
    · rw [processing] at hphase
      cases hphase
      exact .inr (.inl ⟨_, List.mem_append_right _ (List.mem_singleton_self _), rfl⟩)
  | answer now queryOk responding respond =>
    cases InterfaceAgent.step_change respond
    refine hT.of_interface rfl rfl rfl (fun q hq => .inl hq) (fun q hq => ?_) rfl ?_
    · rw [responding] at hq
      cases hq
    · unfold waiting
      dsimp only
      rw [waiting_reply (hroom now queryOk rfl)]
  | apology now queryOk responding respond =>
    cases InterfaceAgent.step_change respond
    refine hT.of_interface rfl rfl rfl (fun q hq => .inl hq) (fun q hq => ?_) rfl rfl
    rw [responding] at hq
    cases hq

/-! ## What is left to do -/

/-- The live debounce tasks. -/
def live (m : SessionManager) : Finset ℕ := (Finset.range m.nextTask).filter fun i => (m.tasks i).isSome

/-- How much there is to do for a message on the bus: it is taken off, added, inserted, and its
session is sent, received, processed and answered. An answer is only taken off. -/
def rankEvent (event : EventPayload) : ℕ := if event.message.isSome then 11 else 1

def rankBus : List EventPayload → ℕ
  | [] => 0
  | event :: bus => rankEvent event + rankBus bus

def rankBridge : BridgePhase → ℕ
  | .idle => 0
  | .inserting _ => 1
  | .adding _ _ => 10

def rankPhase (history : Option (List ChatMessage)) : InterfacePhase → ℕ
  | .idle | .stopped => 0
  | .responding _ _ => 2
  | .draining _ _ => 3
  | .processing _ => if history.isSome then 4 else 5

def rank (s : Daemon) : ℕ :=
  rankBus s.bus + rankBridge s.bridge + 8 * (live s.manager).card + 7 * s.interface.queue.length +
    6 * s.interface.deferred.length + rankPhase s.history s.interface.phase

theorem mem_live {m : SessionManager} {i : ℕ} (hI : m.Inv) : i ∈ live m ↔ (m.tasks i).isSome := by
  unfold live
  rw [Finset.mem_filter, Finset.mem_range, and_iff_right_iff_imp]
  intro hsome
  by_contra hle
  rw [hI.fresh i (not_lt.1 hle)] at hsome
  cases hsome

/-- A message spawns one task at most. -/
theorem live_addMessage {m : SessionManager} (hI : m.Inv) (interface channel : String) (msg : PendingMessage) :
    (live (m.addMessage interface channel msg)).card ≤ (live m).card + 1 := by
  have hsub : live (m.addMessage interface channel msg) ⊆ Insert.insert m.nextTask (live m) := by
    intro i hi
    rw [mem_live hI.addMessage] at hi
    rw [Finset.mem_insert, mem_live hI]
    unfold SessionManager.addMessage at hi
    dsimp only at hi
    split at hi
    · obtain ⟨u, hu⟩ := Option.isSome_iff_exists.1 hi
      rcases SessionManager.spawn_tasks hu with ⟨hnew, -⟩ | ⟨-, hold⟩
      · exact .inl hnew
      · exact .inr (Option.isSome_iff_exists.2 ⟨u, hold⟩)
    · exact .inr hi
  exact (Finset.card_le_card hsub).trans (Finset.card_insert_le _ _)

/-- A task ends when it sends its session. -/
theorem live_flush {m : SessionManager} (hI : m.Inv) {i : ℕ} {t : DebounceTask} {session : ChannelSession}
    (ht : m.tasks i = some t) (hs : m.sessions t.key = some session) :
    (live (m.flush i t session)).card + 1 = (live m).card := by
  have herase : live (m.flush i t session) = (live m).erase i := by
    ext j
    rw [mem_live (hI.flush ht hs), Finset.mem_erase, mem_live hI]
    constructor
    · intro hj
      obtain ⟨u, hu⟩ := Option.isSome_iff_exists.1 hj
      obtain ⟨hne, hu⟩ := SessionManager.flush_tasks hu
      exact ⟨hne, Option.isSome_iff_exists.2 ⟨u, hu⟩⟩
    · rintro ⟨hne, hj⟩
      have hsame : (m.flush i t session).tasks j = m.tasks j := Function.update_of_ne hne ..
      rw [hsame]
      exact hj
  have hmem : i ∈ live m := (mem_live hI).2 (by rw [ht]; rfl)
  rw [herase, Finset.card_erase_of_mem hmem]
  have hpos := Finset.card_pos.2 ⟨i, hmem⟩
  omega

theorem rankBus_append (bus later : List EventPayload) : rankBus (bus ++ later) = rankBus bus + rankBus later := by
  induction bus with
  | nil => exact (Nat.zero_add _).symm
  | cons event bus ih => rw [List.cons_append, rankBus, rankBus, ih, Nat.add_assoc]

theorem rankBus_publish_le (bus : List EventPayload) (event : EventPayload) :
    rankBus (Daemon.publish bus event) ≤ rankBus bus + rankEvent event := by
  have hall : rankBus (bus ++ [event]) = rankBus bus + rankEvent event := rankBus_append bus [event]
  have hsplit := rankBus_append ((bus ++ [event]).take (bus.length + 1 - busCapacity))
    ((bus ++ [event]).drop (bus.length + 1 - busCapacity))
  rw [List.take_append_drop] at hsplit
  unfold Daemon.publish
  omega

theorem rankBridge_receive (now : ℕ) (event : EventPayload) : rankBridge (receive now event) < rankEvent event := by
  cases event with
  | messageReceived => exact Nat.lt_succ_self 10
  | interfaceReply | other => exact Nat.lt_succ_self 0

/-- **Every step but a wait leaves less to do.** -/
theorem rank_lt (hS : s.Sound) (hopened : s.interface.closed = false) (hown : a.Own) (hwait : ∀ ms, a ≠ .elapse ms)
    (hwoken : ∀ task, a = .wake task → s'.delivered ≠ s.delivered) (h : s.step a = some s') : s'.rank < s.rank := by
  unfold rank
  cases step_did h with
  | elapse ms => exact absurd rfl (hwait ms)
  | publish => exact absurd hown id
  | @recv event rest idle bus =>
    have hlt := rankBridge_receive s.manager.now event
    simp only [idle, bus, rankBus, rankBridge] at hlt ⊢
    omega
  | @add m receivedAt adding =>
    have hlive := live_addMessage hS.manager m.interface m.channel ⟨m.author, m.content, receivedAt⟩
    simp only [adding, rankBridge]
    omega
  | insert now queryOk inserting =>
    unfold Daemon.insert
    split
    · simp only [inserting, rankBridge]
      omega
    · simp only [inserting, rankBridge]
      omega
  | slept => exact absurd rfl (hwoken _ rfl)
  | @flushed task manager b rest interface wake batches deliver =>
    rcases SessionManager.wake_cases wake with ⟨-, -, hbatches, -⟩ | ⟨t, session, ht, hsession, rfl⟩
    · rw [hbatches, hS.tracked.batches] at batches
      cases batches
    · have hlive := live_flush hS.manager ht hsession
      have hsame : live { s.manager.flush task t session with batches := rest } =
          live (s.manager.flush task t session) := rfl
      cases InterfaceAgent.step_change deliver with
      | deliver =>
        simp only [hsame, List.length_append, List.length_singleton]
        omega
  | next took =>
    cases InterfaceAgent.step_change took with
    | pop idle deferred =>
      simp only [InterfaceAgent.process, idle, deferred, rankPhase, List.length_append, List.length_singleton,
        Option.isSome_none, Bool.false_eq_true, if_false]
      omega
    | take idle deferred queue =>
      simp only [InterfaceAgent.process, InterfaceAgent.afterRecv, idle, deferred, queue, rankPhase, List.length_cons,
        Option.isSome_none, Bool.false_eq_true, if_false]
      omega
    | stop _ _ _ closed =>
      rw [hopened] at closed
      cases closed
  | @interface action interface own delivered other prompted =>
    cases InterfaceAgent.step_change own with
    | deliver => cases delivered
    | close | agents | steer | defer => exact absurd hown id
    | pop | take | stop => exact absurd rfl other.1
    | respond => exact absurd rfl other.2
    | @complete r result processing =>
      simp only [processing, rankPhase]
      split <;> omega
    | drain draining queue =>
      simp only [InterfaceAgent.defer, InterfaceAgent.afterRecv, queue, List.length_append, List.length_cons,
        List.length_nil]
      omega
    | drained draining =>
      simp only [draining, rankPhase]
      omega
  | prompt rows processing history =>
    simp only [Daemon.ask, processing, history, rankPhase, Option.isSome_some, Option.isSome_none,
      Bool.false_eq_true, if_true, if_false]
    omega
  | @answer r response interface now queryOk responding respond =>
    have hsum := rankBus_publish_le s.bus (.interfaceReply r.batch.interface r.batch.channel response)
    have hreply : rankEvent (.interfaceReply r.batch.interface r.batch.channel response) = 1 := rfl
    cases InterfaceAgent.step_change respond with
    | respond phase =>
      simp only [InterfaceAgent.respond, phase, rankPhase]
      omega
  | apology now queryOk responding respond =>
    cases InterfaceAgent.step_change respond with
    | respond phase =>
      simp only [InterfaceAgent.respond, phase, rankPhase]
      omega

/-! ## There is always a step -/

/-- Nothing is left to do. -/
structure Settled (s : Daemon) : Prop where
  bus : s.bus = []
  bridge : s.bridge = .idle
  pending : ∀ key, s.manager.pending key = []
  queue : s.interface.queue = []
  deferred : s.interface.deferred = []
  phase : s.interface.phase = .idle

/-- Some of what is left can be done. -/
def Advances (start s : Daemon) : Prop :=
  ∃ t, Sys.Can Daemon.step Action.Own s t ∧ (t.Sound ∧ Since start t) ∧ t.rank < s.rank

theorem advances_of_step (hS : s.Sound) (hT : Since start s) (h : s.step a = some s') (hown : a.Own)
    (hroom : ∀ now queryOk, a = .respond now queryOk → s.bus = []) (hwait : ∀ ms, a ≠ .elapse ms)
    (hwoken : ∀ task, a = .wake task → s'.delivered ≠ s.delivered) : Advances start s :=
  ⟨s', .single hown h, ⟨hS.step h, hT.step hown hroom h⟩, rank_lt hS hT.opened hown hwait hwoken h⟩

/-- Time may pass first. -/
theorem advances_of_elapse (hS : s.Sound) (hT : Since start s) (ms : ℕ)
    (h : ∀ t, s.step (.elapse ms) = some t → t.Sound → Since start t → Advances start t) : Advances start s := by
  have hstep : s.step (.elapse ms) = some { s with manager := { s.manager with now := s.manager.now + ms } } := rfl
  have hown : Action.Own (.elapse ms) := trivial
  have hroom : ∀ now queryOk, Action.elapse ms = .respond now queryOk → s.bus = [] := fun _ _ he => by cases he
  obtain ⟨t, hcan, ht, hlt⟩ := h _ hstep (hS.step hstep) (hT.step hown hroom hstep)
  exact ⟨t, .cons hown hstep hcan, ht, hlt⟩

/-- The bridge is never stuck. -/
theorem advances_of_bridge (hS : s.Sound) (hT : Since start s) (h : s.bridge ≠ .idle ∨ s.bus ≠ []) :
    Advances start s := by
  cases hb : s.bridge with
  | idle =>
    obtain ⟨event, rest, hbus⟩ := List.exists_cons_of_ne_nil (h.resolve_left (not_not_intro hb))
    have hstep : s.step .recv = some { s with bus := rest, bridge := receive s.manager.now event } := by
      simp only [Daemon.step, hb, hbus]
    exact advances_of_step hS hT hstep trivial (fun _ _ he => by cases he) (fun _ he => by cases he)
      fun _ he => by cases he
  | inserting m =>
    have hstep : s.step (.insert 0 true) = some (s.insert m 0 true) := by simp only [Daemon.step, hb]
    exact advances_of_step hS hT hstep trivial (fun _ _ he => by cases he) (fun _ he => by cases he)
      fun _ he => by cases he
  | adding m receivedAt =>
    -- the message is not from the future once enough time has passed
    refine advances_of_elapse hS hT receivedAt fun t ht hSt hTt => ?_
    cases ht
    obtain ⟨d, hd⟩ : ∃ d, Daemon.step { s with manager := { s.manager with now := s.manager.now + receivedAt } }
        .add = some d := by
      simp only [Daemon.step, hb, Daemon.add, SessionManager.step]
      rw [if_pos (Nat.le_add_left _ _)]
      exact ⟨_, rfl⟩
    exact advances_of_step hSt hTt hd trivial (fun _ _ he => by cases he) (fun _ he => by cases he)
      fun _ he => by cases he

/-- The interface agent is never stuck. -/
theorem advances_of_interface (hS : s.Sound) (hT : Since start s) (hbus : s.bus = [])
    (h : s.interface.phase ≠ .idle ∨ s.interface.queue ≠ [] ∨ s.interface.deferred ≠ []) : Advances start s := by
  have hgo : ∀ {a : Action}, (∃ t, s.step a = some t) → a.Own → (∀ ms, a ≠ .elapse ms) → (∀ task, a ≠ .wake task) →
      Advances start s := by
    rintro a ⟨t, ht⟩ hown hwait hwake
    exact advances_of_step hS hT ht hown (fun _ _ _ => hbus) hwait fun task he => absurd he (hwake task)
  cases hp : s.interface.phase with
  | idle =>
    have hwork : s.interface.queue ≠ [] ∨ s.interface.deferred ≠ [] := h.resolve_left (not_not_intro hp)
    refine hgo (a := .interface .next) ?_ trivial (fun _ he => by cases he) fun _ he => by cases he
    obtain ⟨interface, hnext⟩ : ∃ interface, s.interface.step .next = some interface := by
      simp only [InterfaceAgent.step, hp, InterfaceAgent.next]
      split
      · exact ⟨_, rfl⟩
      · rename_i hpop
        split
        · exact ⟨_, rfl⟩
        · rename_i hrecv
          rcases hwork with hqueue | hdeferred
          · exact absurd (InterfaceAgent.recv_none hrecv) hqueue
          · exact absurd (InterfaceAgent.pop_none hpop) hdeferred
    exact ⟨_, by simp only [Daemon.step, interfaceStep, hnext, Option.map_some]; rfl⟩
  | processing r =>
    cases hh : s.history with
    | none =>
      refine hgo (a := .prompt none) ⟨s.ask r [], ?_⟩ trivial (fun _ he => by cases he) fun _ he => by cases he
      simp only [Daemon.step, hp, hh]
    | some history =>
      refine hgo (a := .interface (.complete (.ok ""))) ?_ trivial (fun _ he => by cases he) fun _ he => by cases he
      simp only [Daemon.step, interfaceStep, InterfaceAgent.step, hp, hh, Option.isSome_some, if_true,
        Option.map_some]
      exact ⟨_, rfl⟩
  | draining r result =>
    refine hgo (a := .interface .drain) ?_ trivial (fun _ he => by cases he) fun _ he => by cases he
    simp only [Daemon.step, interfaceStep, InterfaceAgent.step, hp]
    split <;> exact ⟨_, rfl⟩
  | responding r result =>
    refine hgo (a := .respond 0 true) ?_ trivial (fun _ he => by cases he) fun _ he => by cases he
    simp only [Daemon.step, Daemon.respond, hp, InterfaceAgent.step, Option.map_some]
    exact ⟨_, rfl⟩
  | stopped =>
    obtain ⟨hclosed, -⟩ := hS.tracked.accounts.stopped hp
    rw [hT.opened] at hclosed
    cases hclosed

/-- A batch that a task sends is delivered. -/
theorem wake_of_flush (task : DebounceTask) (session : ChannelSession) {i : ℕ} {interface : InterfaceAgent}
    (hbatches : s.manager.batches = [])
    (hflush : s.manager.step (.wake i) = some (s.manager.flush i task session))
    (hdeliver : s.interface.step (.deliver ⟨task.interface, task.channel, session.pending⟩) = some interface) :
    ∃ d, s.step (.wake i) = some d ∧ d.delivered ≠ s.delivered := by
  have hsent : (s.manager.flush i task session).batches = [⟨task.interface, task.channel, session.pending⟩] := by
    unfold SessionManager.flush
    rw [hbatches]
    rfl
  simp only [Daemon.step, Daemon.wake, hflush, Option.bind_some, hsent, hdeliver, Option.map_some]
  refine ⟨_, rfl, fun he => ?_⟩
  have hlength := congrArg List.length he
  simp at hlength

/-- A session is sent once it has been quiet, as there is room in both channels. -/
theorem advances_of_session (hS : s.Sound) (hT : Since start s) (hqueue : s.interface.queue = []) {key : String}
    (h : s.manager.pending key ≠ []) : Advances start s := by
  obtain ⟨session, hsession⟩ : ∃ session, s.manager.sessions key = some session := by
    cases hs : s.manager.sessions key with
    | none =>
      rw [SessionManager.pending, hs] at h
      exact absurd rfl h
    | some session => exact ⟨session, rfl⟩
  obtain ⟨i, task, htask, rfl⟩ := hS.manager.timer key session hsession
  refine advances_of_elapse hS hT (task.wakeAt + (session.lastReceived + s.manager.debounce)) fun t ht hSt hTt => ?_
  cases ht
  have hbatches : s.manager.batches.length < batchCapacity := by
    rw [hS.tracked.batches]
    decide
  have hroom : s.interface.queue.length < batchCapacity ∧ s.interface.closed = false := by
    rw [hqueue]
    exact ⟨by decide, hT.opened⟩
  obtain ⟨d, hd, hdelivered⟩ := wake_of_flush task session (i := i) hSt.tracked.batches (by
    simp only [SessionManager.step, htask, SessionManager.wake, hsession]
    rw [if_pos (by omega), if_pos (by omega), if_pos hbatches]) (if_pos hroom)
  exact advances_of_step hSt hTt hd trivial (fun _ _ he => by cases he) (fun _ he => by cases he)
    fun _ _ => hdelivered

/-- **While something is left, some of it can be done.** -/
theorem advances (hS : s.Sound) (hT : Since start s) (hbusy : ¬ s.Settled) : Advances start s := by
  by_cases hbridge : s.bridge ≠ .idle ∨ s.bus ≠ []
  · exact advances_of_bridge hS hT hbridge
  · rw [not_or, not_not, not_not] at hbridge
    obtain ⟨hidle, hbus⟩ := hbridge
    by_cases hinterface : s.interface.phase ≠ .idle ∨ s.interface.queue ≠ [] ∨ s.interface.deferred ≠ []
    · exact advances_of_interface hS hT hbus hinterface
    · rw [not_or, not_or, not_not, not_not, not_not] at hinterface
      obtain ⟨hphase, hqueue, hdeferred⟩ := hinterface
      by_cases hsessions : ∃ key, s.manager.pending key ≠ []
      · obtain ⟨key, hkey⟩ := hsessions
        exact advances_of_session hS hT hqueue hkey
      · refine absurd ⟨hbus, hidle, fun key => ?_, hqueue, hdeferred, hphase⟩ hbusy
        by_contra hkey
        exact hsessions ⟨key, hkey⟩

/-- **The daemon may always catch up**: from every state that a run reaches, unless the channel of
batches is closed, it can go on by itself until nothing is left to do. Then the messages
that were added are the earlier ones and those that were on their way, all are in the batches that
were delivered, each of which is processed or was handed over before, and each that was
processed since has been in front of the model. -/
theorem catches_up {now : ℕ} {adapters : List String} {messages : MessageTable}
    (h : Sys.Reaches step (init now adapters messages) s) (hopened : s.interface.closed = false) :
    ∃ t, Sys.Can step Action.Own s t ∧ t.Settled ∧
      t.manager.added.map (·.label) = s.manager.added.map (·.label) ++ (waiting s).map (·.label) ∧
      (∀ key, ((t.delivered.map (·.1)).filter (·.key = key)).flatMap (·.messages) = t.manager.addedTo key) ∧
      ((t.interface.processed ++ s.interface.steered).map (·.number)).Perm (List.range t.delivered.length) ∧
      (∀ r ∈ t.interface.processed ++ s.interface.steered, t.delivered[r.number]?.map (·.1) = some r.batch) ∧
      ∀ r ∈ t.interface.processed, r ∈ s.interface.processed ∨ ∃ c ∈ t.contexts, c.received = r := by
  have hS : s.Sound := h.inv (fun _ _ _ ht hstep => ht.step hstep) (sound_init now adapters messages)
  obtain ⟨t, hcan, ⟨hSt, hTt⟩, hsettled⟩ := Sys.exists_can (E := Action.Own)
    (J := fun t => t.Sound ∧ Since s t) (G := Settled) rank
    (fun u hu hbusy => by
      obtain ⟨v, hcan, hv, hlt⟩ := advances hu.1 hu.2 hbusy
      exact ⟨v, hcan, hv, hlt⟩) ⟨hS, Since.refl hopened⟩
  have haccounts := hSt.tracked.accounts
  have hheld : t.interface.held = t.interface.processed ++ s.interface.steered := by
    rw [InterfaceAgent.held, hsettled.deferred, List.append_nil, hTt.steered]
  refine ⟨t, hcan, hsettled, ?_, fun key => ?_, ?_, fun r hr => ?_, fun r hr => ?_⟩
  · have hnone : waiting t = [] := by
      unfold waiting
      rw [hsettled.bridge, hsettled.bus]
      rfl
    have hadded := hTt.added
    rw [hnone, List.map_nil, List.append_nil] at hadded
    exact hadded
  · have hall := hSt.manager.delivered key
    rw [hsettled.pending, List.append_nil] at hall
    rw [← hSt.sent]
    exact hall
  · -- the channel is empty, so all that was delivered was received
    have hqueue := haccounts.queue
    rw [hsettled.queue] at hqueue
    have hle := List.drop_eq_nil_iff.1 hqueue.symm
    have hreceived := hle.antisymm haccounts.received_le
    rw [List.length_map] at hreceived
    rw [← hheld, hreceived]
    exact haccounts.once
  · rw [← List.getElem?_map]
    exact haccounts.batch r (hheld ▸ hr)
  · rcases hTt.processed r hr with hold | hcontext | ⟨hphase, -⟩
    · exact .inl hold
    · exact .inr hcontext
    · rw [hsettled.phase] at hphase
      cases hphase

/-- A message on the bus, and nobody who has received it. -/
theorem catches_up_published :
    ∃ s, Sys.run step (init 0 ["discord"] .empty) [.publish (.messageReceived "discord" "1" "ann" "hi")] = some s ∧
      s.manager.added = [] ∧ ∃ t, Sys.Can step Action.Own s t ∧ t.Settled ∧
        t.manager.added.map (·.label) = [("discord:1", "ann", "hi")] := by
  have h : Sys.run step (init 0 ["discord"] .empty) [.publish (.messageReceived "discord" "1" "ann" "hi")] =
      some _ := rfl
  obtain ⟨t, hcan, hsettled, hadded, -⟩ := catches_up ⟨_, h⟩ rfl
  exact ⟨_, h, rfl, t, hcan, hsettled, hadded⟩

end Daemon

end Auxlry
