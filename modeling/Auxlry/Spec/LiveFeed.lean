import Auxlry.Spec.Agent
import Auxlry.Spec.Persister

/-!
# The live feed

`/api/events` subscribes to the event bus and streams every event that it receives; what it
missed it skips. The dashboard listens to the kinds of events that it knows, and keeps the
newest events of the stream.

JSON is written by `serde_json` and read by the browser, events of the stream are made by `axum`
and dispatched by the browser's `EventSource`: what these do is a parameter (`Streaming`).

The last fields of a connection are bookkeeping: the events published since it subscribed,
those it has streamed, and how many it skipped.
-/

namespace Auxlry.Events

open Sys (Receiver)

/-! ## Events -/

inductive DelegateTarget
  | synapse
  | operator
  deriving DecidableEq, Repr

inductive EventPayload
  -- Core lifecycle
  | coreStarted
  | coreStopping
  -- Messages (from adapters)
  | messageReceived (interface channel author content : String)
  | messageSent (interface channel content : String)
  -- Interface
  | interfaceAck (interface channel content : String)
  | interfaceReply (interface channel content : String)
  | interfaceDelegate (interface channel taskDescription : String) (delegateTo : DelegateTarget)
      (context : Option String)
  -- Synapse (thinker)
  | synapseStarted (synapseId task : String)
  | synapseProgress (synapseId status : String)
  | synapseCompleted (synapseId result : String)
  | synapseFailed (synapseId error : String)
  -- Operator (actor)
  | operatorStarted (operatorId task node : String)
  | operatorProgress (operatorId status : String)
  | operatorCompleted (operatorId result : String)
  | operatorFailed (operatorId error : String)
  -- Node
  | nodeConnected (node : String)
  | nodeDisconnected (node : String)
  -- Agent intervention
  | agentInterrupted (agentId : String) (kind : AgentKind) (partialResult : String)
  | agentSteered (agentId : String) (kind : AgentKind) (message : String)
  -- Memory
  | memoryStored (key summary : String)
  deriving DecidableEq, Repr

namespace EventPayload

/-- The kind of a payload, as events are streamed by. -/
def kind : EventPayload → String
  | coreStarted => "core_started"
  | coreStopping => "core_stopping"
  | messageReceived .. => "message_received"
  | messageSent .. => "message_sent"
  | interfaceAck .. => "interface_ack"
  | interfaceReply .. => "interface_reply"
  | interfaceDelegate .. => "interface_delegate"
  | synapseStarted .. => "synapse_started"
  | synapseProgress .. => "synapse_progress"
  | synapseCompleted .. => "synapse_completed"
  | synapseFailed .. => "synapse_failed"
  | operatorStarted .. => "operator_started"
  | operatorProgress .. => "operator_progress"
  | operatorCompleted .. => "operator_completed"
  | operatorFailed .. => "operator_failed"
  | nodeConnected .. => "node_connected"
  | nodeDisconnected .. => "node_disconnected"
  | agentInterrupted .. => "agent_interrupted"
  | agentSteered .. => "agent_steered"
  | memoryStored .. => "memory_stored"

end EventPayload

/-! ## The packages that stream -/

/-- An event of the stream: its kind, and its data. -/
structure Frame where
  event : String
  data : String
  deriving DecidableEq, Repr

/-- What other packages do. A stream is made of events and of comments that keep it alive
(`none`); objects of the browser are of type `V`. -/
structure Streaming (V : Type) where
  /-- `serde_json::to_string` -/
  toJson : Event EventPayload → Option String
  /-- an event of `axum` panics over its kind or its data -/
  panics : Frame → Bool
  /-- the number of bytes of a stream -/
  size : List (Option Frame) → ℕ
  /-- what `EventSource` has dispatched when so many bytes of a stream have arrived -/
  dispatched : List (Option Frame) → ℕ → List Frame
  /-- `JSON.parse`, unless it throws -/
  parse : String → Option V

variable {V : Type} (f : Streaming V)

/-! ## The server -/

/-- An event in the stream; one that cannot be serialized has no data. -/
def sseEvent (e : Event EventPayload) : Frame := ⟨e.payload.kind, (f.toJson e).getD ""⟩

/-! ## The dashboard -/

/-- The event types that the dashboard listens to. -/
def eventTypes : List String :=
  ["core_started", "core_stopping", "message_received", "message_sent", "interface_ack", "interface_reply",
   "interface_delegate", "synapse_started", "synapse_progress", "synapse_completed", "synapse_failed",
   "operator_started", "operator_progress", "operator_completed", "operator_failed", "node_connected",
   "node_disconnected", "memory_stored"]

/-- An event comes in; one whose data is no JSON is ignored. -/
def handler (maxEvents : ℕ) (prev : List V) (e : Frame) : List V :=
  if e.event ∈ eventTypes then
    match f.parse e.data with
    | some parsed => (parsed :: prev).take maxEvents
    | none => prev
  else prev

/-- The events that the dashboard holds, after those that the stream has dispatched. -/
def useEventStream (maxEvents : ℕ) (dispatched : List Frame) : List V :=
  dispatched.foldl (handler f maxEvents) []

/-! ## A connection -/

/-- A connection of a dashboard to the stream: the server's end of the bus, what it has
written, and how many bytes of that have arrived at the dashboard. -/
structure LiveFeed where
  rx : Receiver (Event EventPayload)
  /-- an event of the stream could not be made -/
  panicked : Bool
  written : List (Option Frame)
  arrived : ℕ
  published : List (Event EventPayload)
  streamed : List (Event EventPayload)
  skipped : ℕ

namespace LiveFeed

/-- A stream starts with a subscription. -/
def subscribe : LiveFeed := ⟨.new, false, [], 0, [], [], 0⟩

inductive Action
  | publish (event : Event EventPayload)
  /-- the server takes what it receives next -/
  | poll
  /-- nothing was written for a while -/
  | keepAlive
  /-- more bytes arrive -/
  | arrive (n : ℕ)

def step (s : LiveFeed) : Action → Option LiveFeed
  | .publish event =>
    some { s with rx := s.rx.send busCapacity event, published := s.published ++ [event] }
  | .poll =>
    if s.panicked then none
    else
      match s.rx.recv with
      | none => none
      | some (.lagged n, rx) => some { s with rx := rx, skipped := s.skipped + n }
      | some (.value event, rx) =>
        if f.panics (sseEvent f event) then some { s with rx := rx, panicked := true }
        else some { s with
          rx := rx
          written := s.written ++ [some (sseEvent f event)]
          streamed := s.streamed ++ [event] }
  | .keepAlive => if s.panicked then none else some { s with written := s.written ++ [none] }
  | .arrive n => some { s with arrived := min (s.arrived + n) (f.size s.written) }

/-- What the stream has dispatched to the dashboard. -/
def dispatched (s : LiveFeed) : List Frame := f.dispatched s.written s.arrived

end LiveFeed

end Auxlry.Events
