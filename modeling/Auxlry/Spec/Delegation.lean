import Auxlry.Spec.ActiveAgents

/-!
# Permits and delegation

`SynapseAgent::run` and `OperatorAgent::run` take a permit of their pool, register, run
and deregister, and drop the permit when they return. Calls of `run` come from the
interface, and those of operators from `delegate_operator` in a synapse too, which then
waits for the operator. `Delegation` puts the calls and the permits next to the runs.

A call is named by the id its run gets. The semaphores hand permits out in order; here
any waiting call may be next.
-/

namespace Auxlry

/-- Bounds on the agents that run at a time. -/
structure ConcurrencyConfig where
  maxSynapses : ℕ
  maxOperators : ℕ
  deriving DecidableEq, Repr

/-- The permits of a pool. -/
def ConcurrencyConfig.max (c : ConcurrencyConfig) : AgentKind → ℕ
  | .synapse => c.maxSynapses
  | .operator => c.maxOperators

/-- Where a call of `run` stands. -/
inductive Place
  | absent
  /-- in `acquire` -/
  | waiting
  /-- it has its permit -/
  | holding
  /-- it has returned -/
  | ended
  deriving DecidableEq, Repr

structure Call where
  kind : AgentKind
  /-- the synapse whose `delegate_operator` made the call -/
  caller : Option String
  place : Place
  /-- the operators whose results it waits for -/
  operators : List String
  deriving DecidableEq, Repr

/-- The call holds a permit of the pool. -/
def Call.Holds (c : Call) (kind : AgentKind) : Prop := c.place = .holding ∧ c.kind = kind

instance (c : Call) (kind : AgentKind) : Decidable (c.Holds kind) := inferInstanceAs (Decidable (_ ∧ _))

structure Delegation where
  registry : AgentRegistry
  calls : String → Call
  /-- the permits that are left -/
  permits : AgentKind → ℕ

namespace Delegation

def init (c : ConcurrencyConfig) : Delegation := ⟨.init, fun _ => ⟨.synapse, none, .absent, []⟩, c.max⟩

inductive Action
  /-- `run` is called, by the interface or by a synapse -/
  | call (id : String) (kind : AgentKind) (caller : Option String)
  | acquire (id : String)
  /-- the node of an operator is not found -/
  | unresolved (id : String)
  | agents (action : AgentRegistry.Action)
  /-- a run that has deregistered returns -/
  | finish (id : String)
  deriving DecidableEq, Repr

/-- A call that the hook has let pass is under way. -/
def calling : AgentPhase → Bool
  | .calling _ => true
  | _ => false

/-- Who may call `run`: the interface, and for an operator a synapse in a tool call. -/
def mayCall (s : Delegation) (kind : AgentKind) : Option String → Bool
  | none => true
  | some c => decide (kind = .operator ∧ (s.calls c).Holds .synapse) && calling (s.registry.agents c).phase

/-- `run` is called; the caller of a delegation waits for it. -/
def call (s : Delegation) (id : String) (kind : AgentKind) (caller : Option String) : Delegation :=
  { s with calls := fun i =>
      if i = id then ⟨kind, caller, .waiting, []⟩
      else { s.calls i with
        operators := if caller = some i then id :: (s.calls i).operators else (s.calls i).operators } }

/-- `run` returns: the permit is dropped, and the caller has its result. -/
def leave (s : Delegation) (id : String) : Delegation :=
  { s with
    permits := Function.update s.permits (s.calls id).kind (s.permits (s.calls id).kind + 1)
    calls := fun i => { s.calls i with
      place := if i = id then .ended else (s.calls i).place
      operators := if (s.calls id).caller = some i then (s.calls i).operators.erase id
        else (s.calls i).operators } }

/-- A run starts when its call has the permit, and a tool returns when its operators have. -/
def admits (s : Delegation) : AgentRegistry.Action → Bool
  | .agents (.run id (.start kind ..)) => decide ((s.calls id).Holds kind)
  | .agents (.run id .call) => (s.calls id).operators.isEmpty
  | _ => true

/-- One step of the calls, or of their runs. -/
def step (s : Delegation) : Action → Option Delegation
  | .call id kind caller =>
    if (s.calls id).place = .absent ∧ s.mayCall kind caller then some (s.call id kind caller) else none
  | .acquire id =>
    let r := s.calls id
    if r.place = .waiting ∧ 0 < s.permits r.kind then
      some { s with
        calls := Function.update s.calls id { r with place := .holding }
        permits := Function.update s.permits r.kind (s.permits r.kind - 1) }
    else none
  | .unresolved id =>
    if (s.calls id).Holds .operator ∧ (s.registry.agents id).phase = .absent then some (s.leave id) else none
  | .agents action =>
    if s.admits action then (s.registry.step action).map fun registry => { s with registry := registry }
    else none
  | .finish id =>
    if (s.calls id).place = .holding ∧ (s.registry.agents id).phase = .gone then some (s.leave id) else none

/-- `a` waits for `b`: for a permit that `b` holds, or for the result of the operator `b`. -/
inductive WaitsFor (s : Delegation) : String → String → Prop
  | permit {a b : String} (waits : (s.calls a).place = .waiting) (holds : (s.calls b).Holds (s.calls a).kind) :
      WaitsFor s a b
  | operator {a b : String} (delegated : b ∈ (s.calls a).operators) : WaitsFor s a b

end Delegation

end Auxlry
