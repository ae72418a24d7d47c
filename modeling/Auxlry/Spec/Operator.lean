import Auxlry.Spec.Handler

/-!
# Where an operator runs

An operator asks the registry for the node of its task. The registry is a hash map, so
its iteration order is arbitrary: it is given as the list of the names in that order.
-/

namespace Auxlry

namespace NodeRegistry

/-- An iteration order of the registry: each registered name once. -/
def Order (r : NodeRegistry) (order : List String) : Prop :=
  order.Nodup ∧ ∀ name, name ∈ order ↔ (r.get name).isSome

/-- List all registered node names. -/
def list (_r : NodeRegistry) (order : List String) : List String := order

/-- Get the first registered node: `"local"` if it exists, otherwise any. -/
def first (r : NodeRegistry) (order : List String) : Option NodeExecutor :=
  match r.get "local" with
  | some node => some node
  | none => order.head?.bind r.get

end NodeRegistry

/-- The node that the prompts of synapses and of the interface mark as the default: in the list
of available nodes, the first. -/
def markedDefault (availableNodes : List String) : Option String := availableNodes.head?

/-- Resolve a node by name, falling back to the first registered node. -/
def OperatorAgent.resolveNode (nodes : NodeRegistry) (order : List String) :
    Option String → Except String NodeExecutor
  | some name =>
    match nodes.get name with
    | some node => .ok node
    | none => .error ("node '" ++ name ++ "' not found in registry")
  | none =>
    match nodes.first order with
    | some node => .ok node
    | none => .error "no nodes registered"

end Auxlry
