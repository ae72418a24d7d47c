import Auxlry.Spec.Interface
import Auxlry.Spec.Messages

/-!
# From the event bus to the model

An adapter publishes the messages it receives on the event bus. The bridge takes them off
the bus one at a time, adds each to its session and then inserts it in the messages table.
Debounce tasks flush sessions as batches to the interface agent, and to process a batch the
agent loads the recent messages of its channel and prompts the model with them and with
the batch. All of these run side by side.

The last fields of a daemon are bookkeeping, read only by themselves. A message has the
number that it was added with; they follow these numbers into sessions, batches, rows and
what the model was given.
-/

namespace Auxlry

/-- An event; those that this part of the daemon does not look at are all alike. -/
inductive EventPayload
  | messageReceived (interface channel author content : String)
  | interfaceReply (interface channel content : String)
  | other
  deriving DecidableEq, Repr

/-- A message on its way from the bus. -/
structure InboundMessage where
  interface : String
  channel : String
  author : String
  content : String
  deriving DecidableEq, Repr

inductive BridgePhase
  | idle
  /-- waits for the sessions, since `receivedAt` -/
  | adding (m : InboundMessage) (receivedAt : ℕ)
  | inserting (m : InboundMessage)
  deriving DecidableEq, Repr

/-- A message of the chat with the model. -/
inductive ChatMessage
  | user (text : String)
  | assistant (text : String)
  deriving DecidableEq, Repr

def StoredMessage.chat (m : StoredMessage) : ChatMessage :=
  if m.direction = "inbound" then .user (m.author ++ ": " ++ m.content) else .assistant m.content

/-- What the model is given to process a batch. -/
structure Context where
  received : Received
  history : List ChatMessage
  prompt : String
  /-- the inbound messages of the history, by their numbers -/
  earlier : List ℕ
  /-- the messages of the batch -/
  own : List ℕ

/-- How many events a subscriber of the bus may be behind. -/
def busCapacity : ℕ := 1024

def debounceMs : ℕ := 1500

/-- How many recent messages are loaded. -/
def historyLimit : ℕ := 50

structure Daemon where
  manager : SessionManager
  interface : InterfaceAgent
  messages : MessageTable
  /-- the events that the bridge has not received -/
  bus : List EventPayload
  bridge : BridgePhase
  /-- the history of the batch in process, once it is loaded -/
  history : Option (List ChatMessage)
  pending : String → List ℕ
  delivered : List (BatchedInput × List ℕ)
  rowNumber : ℕ → Option ℕ
  contexts : List Context

namespace Daemon

/-- The daemon starts with the messages of earlier runs. -/
def init (now : ℕ) (adapters : List String) (messages : MessageTable) : Daemon where
  manager := .new debounceMs now
  interface := .init adapters
  messages := messages
  bus := []
  bridge := .idle
  history := none
  pending := fun _ => []
  delivered := []
  rowNumber := fun _ => none
  contexts := []

inductive Action
  /-- time passes -/
  | elapse (ms : ℕ)
  | publish (event : EventPayload)
  /-- the bridge receives an event -/
  | recv
  /-- the bridge has the sessions and adds its message -/
  | add
  /-- the bridge inserts its message, at a time of the wall clock -/
  | insert (now : ℕ) (queryOk : Bool)
  /-- a debounce task wakes up -/
  | wake (task : ℕ)
  /-- the interface agent, but for the steps that have their own action -/
  | interface (action : InterfaceAgent.Action)
  /-- processing loads the history, from rows that the query has put in an order, and
  prompts the model; the query may fail -/
  | prompt (order : Option (List MessageRow))
  | respond (now : ℕ) (queryOk : Bool)

/-- A subscriber that lags loses the oldest events. -/
def publish (bus : List EventPayload) (event : EventPayload) : List EventPayload :=
  (bus ++ [event]).drop (bus.length + 1 - busCapacity)

/-- What the bridge does with an event. -/
def receive (now : ℕ) : EventPayload → BridgePhase
  | .messageReceived interface channel author content => .adding ⟨interface, channel, author, content⟩ now
  | _ => .idle

/-- Add a message to its session. -/
def add (s : Daemon) (m : InboundMessage) (receivedAt : ℕ) : Option Daemon :=
  (s.manager.step (.addMessage m.interface m.channel m.author m.content receivedAt)).map fun manager =>
    let key := sessionKey m.interface m.channel
    { s with
      manager := manager
      bridge := .inserting m
      pending := Function.update s.pending key (s.pending key ++ [s.manager.added.length]) }

/-- Insert a message that was just added; if that fails, the bridge goes on. -/
def insert (s : Daemon) (m : InboundMessage) (now : ℕ) (queryOk : Bool) : Daemon :=
  match s.messages.insertMessage ⟨m.interface, m.channel, m.author, m.content, "inbound", now, queryOk⟩ with
  | .ok messages =>
    { s with
      messages := messages
      bridge := .idle
      rowNumber := Function.update s.rowNumber messages.seq (some (s.manager.added.length - 1)) }
  | .error _ => { s with bridge := .idle }

/-- A debounce task wakes up; a batch that it flushes goes to the interface agent. -/
def wake (s : Daemon) (task : ℕ) : Option Daemon :=
  (s.manager.step (.wake task)).bind fun manager =>
    match manager.batches with
    | [] => some { s with manager := manager }
    | b :: rest =>
      (s.interface.step (.deliver b)).map fun interface =>
        { s with
          manager := { manager with batches := rest }
          interface := interface
          pending := Function.update s.pending b.key []
          delivered := s.delivered ++ [(b, s.pending b.key)] }

/-- The messages of a batch that was received, by their numbers. -/
def numbers (s : Daemon) (r : Received) : List ℕ := (s.delivered[r.number]?).elim [] (·.2)

/-- Prompt the model with the rows that the query has returned, and with the batch. -/
def ask (s : Daemon) (r : Received) (rows : List MessageRow) : Daemon :=
  let history := (MessageTable.getRecentMessages rows).map StoredMessage.chat
  { s with
    history := some history
    contexts := s.contexts ++
      [⟨r, history, r.batch.combined, rows.reverse.filterMap (s.rowNumber ·.id), s.numbers r⟩] }

/-- A step of the interface agent. Processing has an answer only when it has prompted. -/
def interfaceStep (s : Daemon) (a : InterfaceAgent.Action) : Option Daemon :=
  match a with
  | .deliver _ | .respond => none
  | .next => (s.interface.step a).map fun interface => { s with interface := interface, history := none }
  | .complete (.ok _) =>
    if s.history.isSome then (s.interface.step a).map fun interface => { s with interface := interface }
    else none
  | _ => (s.interface.step a).map fun interface => { s with interface := interface }

/-- Persist, publish and deliver a response. -/
def respond (s : Daemon) (now : ℕ) (queryOk : Bool) : Option Daemon :=
  match s.interface.phase with
  | .responding r result =>
    (s.interface.step .respond).map fun interface =>
      match result with
      | .ok response =>
        let row : InsertCall := ⟨r.batch.interface, r.batch.channel, "auxlry", response, "outbound", now, queryOk⟩
        { s with
          interface := interface
          messages := (s.messages.insertMessage row).toOption.getD s.messages
          bus := publish s.bus (.interfaceReply r.batch.interface r.batch.channel response) }
      | .error _ => { s with interface := interface }
  | _ => none

/-- One step of the daemon. -/
def step (s : Daemon) : Action → Option Daemon
  | .elapse ms => some { s with manager := { s.manager with now := s.manager.now + ms } }
  | .publish event => some { s with bus := publish s.bus event }
  | .recv =>
    match s.bridge, s.bus with
    | .idle, event :: rest => some { s with bus := rest, bridge := receive s.manager.now event }
    | _, _ => none
  | .add =>
    match s.bridge with
    | .adding m receivedAt => s.add m receivedAt
    | _ => none
  | .insert now queryOk =>
    match s.bridge with
    | .inserting m => some (s.insert m now queryOk)
    | _ => none
  | .wake task => s.wake task
  | .interface action => s.interfaceStep action
  | .prompt order =>
    match s.interface.phase, s.history with
    | .processing r, none =>
      match order with
      | none => some (s.ask r [])
      | some order =>
        if Sql.OrderBy MessageRow.createdAt (s.messages.select r.batch.interface r.batch.channel) order then
          some (s.ask r (order.take historyLimit))
        else none
    | _, _ => none
  | .respond now queryOk => s.respond now queryOk

end Daemon

end Auxlry
