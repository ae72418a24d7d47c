import Auxlry.Spec.Daemon

/-!
# The daemon as it starts

The daemon spawns its adapters before the bridge subscribes to the event bus, so they may
publish with nobody listening. A subscriber gets the events that are published from then on.

`published`, `heard` and `passed` are bookkeeping: the messages that adapters have
published, those of them that the bus had the bridge as a subscriber for, and those that
the bridge has added to their sessions.
-/

namespace Auxlry

/-- The message of an event. -/
def EventPayload.message : EventPayload → Option InboundMessage
  | .messageReceived interface channel author content => some ⟨interface, channel, author, content⟩
  | _ => none

inductive Stage
  | starting
  /-- the adapters are spawned -/
  | spawned
  /-- the bridge is subscribed, and then spawned -/
  | subscribed
  deriving DecidableEq, Repr

structure Startup where
  stage : Stage
  daemon : Daemon
  published : List InboundMessage
  heard : List InboundMessage
  passed : List InboundMessage

namespace Startup

def init (now : ℕ) (adapters : List String) (messages : MessageTable) : Startup where
  stage := .starting
  daemon := .init now adapters messages
  published := []
  heard := []
  passed := []

inductive Action
  | spawnAdapters
  | subscribe
  | daemon (action : Daemon.Action)

/-- The events that a step publishes. -/
def events (d : Daemon) : Daemon.Action → List EventPayload
  | .publish event => [event]
  | .respond _ _ =>
    match d.interface.phase with
    | .responding r (.ok response) => [.interfaceReply r.batch.interface r.batch.channel response]
    | _ => []
  | _ => []

/-- The message that a step adds to its session. -/
def adds (d : Daemon) : Daemon.Action → List InboundMessage
  | .add =>
    match d.bridge with
    | .adding m _ => [m]
    | _ => []
  | _ => []

/-- One step of the daemon, from its start on. Until the bridge is subscribed there is only
time that passes and events that are published; messages come from adapters. -/
def step (s : Startup) : Action → Option Startup
  | .spawnAdapters => if s.stage = .starting then some { s with stage := .spawned } else none
  | .subscribe => if s.stage = .spawned then some { s with stage := .subscribed } else none
  | .daemon a =>
    match s.stage with
    | .subscribed =>
      (s.daemon.step a).map fun d =>
        { s with
          daemon := d
          published := s.published ++ (events s.daemon a).filterMap (·.message)
          heard := s.heard ++ (events s.daemon a).filterMap (·.message)
          passed := s.passed ++ adds s.daemon a }
    | stage =>
      match a with
      | .elapse _ => (s.daemon.step a).map fun d => { s with daemon := d }
      | .publish event =>
        if event.message = none ∨ stage = .spawned then
          some { s with published := s.published ++ [event].filterMap (·.message) }
        else none
      | _ => none

end Startup

end Auxlry
