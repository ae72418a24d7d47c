import Auxlry.Spec.Agent

/-!
# The registry of running agents

`AgentRegistry` is the map of running agents next to their runs: a run inserts its entry
when it registers and removes it when it deregisters, and signals look the agent up. How
often the entry of an id was removed is counted; nothing reads it.
-/

namespace Auxlry

/-- An entry of the registry. -/
structure ActiveAgent where
  kind : AgentKind
  task : String
  interface : Option String
  channel : Option String
  deriving DecidableEq, Repr

/-- The entry that a run registers with. -/
def Agent.entry (a : Agent) : ActiveAgent := ⟨a.kind, a.task, a.interface, a.channel⟩

structure AgentRegistry where
  agents : ActiveAgents
  inner : String → Option ActiveAgent
  removals : String → ℕ

namespace AgentRegistry

def init : AgentRegistry := ⟨ActiveAgents.init, fun _ => none, fun _ => 0⟩

/-- Register a new active agent. -/
def register (s : AgentRegistry) (id : String) (entry : ActiveAgent) : AgentRegistry :=
  { s with inner := Function.update s.inner id (some entry) }

/-- Remove an agent from the registry. -/
def deregister (s : AgentRegistry) (id : String) : AgentRegistry :=
  { s with
    inner := Function.update s.inner id none
    removals := if (s.inner id).isSome then Function.update s.removals id (s.removals id + 1)
      else s.removals }

/-- Send a signal to an agent that was looked up. -/
def send (s : AgentRegistry) (id : String) (sig : AgentSignal) : Except String AgentRegistry :=
  match (s.agents id).receive sig with
  | some a => .ok { s with agents := Function.update s.agents id a }
  | none => .error "agent receiver dropped"

/-- Send a signal to an agent by ID. -/
def signal (s : AgentRegistry) (id : String) (sig : AgentSignal) : Except String AgentRegistry :=
  match s.inner id with
  | some _ => s.send id sig
  | none => .error ("no active agent with id '" ++ id ++ "'")

/-- Send a signal to the agent running on a specific interface and channel, `first` being
the first one in the order of the map. -/
def signalChannel (s : AgentRegistry) (interface channel : String) (sig : AgentSignal) (first : String) :
    Except String AgentRegistry :=
  match s.inner first with
  | some agent =>
    if agent.interface = some interface ∧ agent.channel = some channel then s.send first sig
    else .error ("no active agent on " ++ interface ++ ":" ++ channel)
  | none => .error ("no active agent on " ++ interface ++ ":" ++ channel)

inductive Action
  | agents (action : ActiveAgents.Action)
  /-- the prompt is cancelled for a reason that the hook did not give -/
  | cancel (id reason lastText : String)
  deriving DecidableEq, Repr

/-- The step of a run in the registry. -/
def track (s : AgentRegistry) (id : String) : Agent.Step → AgentRegistry
  | .register => s.register id (s.agents id).entry
  | .deregister => s.deregister id
  | _ => s

/-- One step of the runs, of their senders, or of a prompt that is cancelled. -/
def step (s : AgentRegistry) : Action → Option AgentRegistry
  | .agents (.run id b) =>
    ((s.agents id).step b).map fun a => { s.track id b with agents := Function.update s.agents id a }
  | .agents (.signal id sig) => if sig = .none then none else (s.signal id sig).toOption
  | .agents (.signalChannel interface channel sig first) =>
    if sig = .none then none else (s.signalChannel interface channel sig first).toOption
  | .cancel id reason lastText =>
    (Agent.checkedAttempt false (s.agents id).phase).map fun _ =>
      let a := { s.agents id with phase := .cancelled reason lastText }
      { s with agents := Function.update s.agents id a }

end AgentRegistry

end Auxlry
