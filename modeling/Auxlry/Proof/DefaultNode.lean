import Auxlry.Proof.OwnNode

/-!
# The default node of a prompt

The prompts mark the first node that the registry lists as the one that runs a task by
default. A task without a node name goes to the node called `local`, if there is one, and
otherwise to the first. A list of all nodes begins anywhere.

* `marked_iff`: the marked node runs the task **exactly if** no node is called `local`, or
  the order of the registry begins with that one.
* `keyed_of_visits`: the registry of a core has every node under its own name.
-/

namespace Auxlry

/-- The name of a node. -/
def NodeExecutor.name : NodeExecutor → String
  | .localNode node => node.nodeName
  | .remoteNode name _ => name

namespace NodeRegistry

/-- Every node is registered under its own name. -/
def Keyed (r : NodeRegistry) : Prop := ∀ name node, r.get name = some node → node.name = name

/-- A task without a node name runs on the node that is marked. -/
def MarksDefault (r : NodeRegistry) (order : List String) : Prop :=
  ∀ name, markedDefault (r.list order) = some name →
    ∃ node, OperatorAgent.resolveNode r order none = .ok node ∧ node.name = name

variable {r : NodeRegistry} {order : List String}

theorem resolveNode_none {node : NodeExecutor} :
    OperatorAgent.resolveNode r order none = .ok node ↔ r.first order = some node := by
  simp only [OperatorAgent.resolveNode]
  cases r.first order <;> simp

/-- **The prompts mark the node that runs a task**, in an order of the registry, exactly if it
begins with `local` or no node is called so. -/
theorem marked_iff (hkeyed : r.Keyed) (horder : r.Order order) :
    r.MarksDefault order ↔ r.get "local" = none ∨ order.head? = some "local" := by
  constructor
  · intro hmarks
    cases hlocal : r.get "local" with
    | none => exact .inl rfl
    | some node =>
      right
      -- there is a first node, and the task goes to `local`
      have hmem : "local" ∈ order := (horder.2 "local").2 (by rw [hlocal]; rfl)
      obtain ⟨name, rest, rfl⟩ := List.exists_cons_of_ne_nil (List.ne_nil_of_mem hmem)
      obtain ⟨node', hresolved, hname⟩ := hmarks name rfl
      rw [resolveNode_none, first, hlocal] at hresolved
      cases hresolved
      rw [List.head?_cons, ← hname, hkeyed "local" node hlocal]
  · intro h name hmarked
    have hhead : order.head? = some name := hmarked
    have hmem : name ∈ order := List.mem_of_head? hhead
    obtain ⟨node, hget⟩ := Option.isSome_iff_exists.1 ((horder.2 name).1 hmem)
    refine ⟨node, resolveNode_none.2 ?_, hkeyed name node hget⟩
    unfold first
    cases hlocal : r.get "local" with
    | none => simp [hhead, hget]
    | some node' =>
      have hname : name = "local" := by
        rcases h with hnone | hfirst
        · rw [hnone] at hlocal; cases hlocal
        · exact Option.some.inj (hhead.symm.trans hfirst)
      subst hname
      exact hlocal.symm.trans hget

theorem Keyed.register (h : r.Keyed) {name : String} {node : NodeExecutor} (hnode : node.name = name) :
    (r.register name node).Keyed := by
  intro name' node' hget
  rcases eq_or_ne name' name with rfl | hne
  · rw [Core.get_register_self] at hget
    exact Option.some.inj hget ▸ hnode
  · rw [Core.get_register_ne _ _ hne] at hget
    exact h name' node' hget

theorem Keyed.unregister (h : r.Keyed) (name : String) : (r.unregister name).Keyed := by
  intro name' node' hget
  rcases eq_or_ne name' name with rfl | hne
  · rw [Core.get_unregister_self] at hget
    cases hget
  · rw [Core.get_unregister_ne _ hne] at hget
    exact h name' node' hget

end NodeRegistry

namespace Core

variable {s s' : Core} {a : CoreAction}

theorem keyed_step (hJ : s.registry.Keyed) (h : s.step a = some s') : s'.registry.Keyed := by
  cases step_change h with
  | quiet guard registry | serve task registry | leave served registry => exact registry ▸ hJ
  | register task registry => exact registry ▸ hJ.register rfl
  | unregister task registry => exact registry ▸ hJ.unregister _

theorem keyed_init (workspace : String) (nodeCfg : Option (String × NodeMode)) (db : Database) (now : ℕ) :
    (Core.init workspace nodeCfg db now).registry.Keyed :=
  NodeRegistry.Keyed.register (r := fun _ => none) (fun name node hget => by cases hget) rfl

/-- Nodes are registered under their own names. -/
theorem keyed_of_visits (workspace : String) (nodeCfg : Option (String × NodeMode)) (db : Database) (now : ℕ)
    (as : List CoreAction) {t : Core} (h : Sys.Visits step (Core.init workspace nodeCfg db now) as t) :
    t.registry.Keyed :=
  h.inv (fun _ _ _ hJ hs => keyed_step hJ hs) (keyed_init workspace nodeCfg db now)

end Core

/-- The local node, and a remote one. -/
def twoNodes : NodeRegistry :=
  (Core.init "/w" none ⟨[], []⟩ 0).registry.register "a" (.remoteNode "a" 0)

namespace NodeRegistry

theorem twoNodes_order : twoNodes.Order ["a", "local"] :=
  Core.order_register (Core.order_register (r := fun _ => none) ⟨List.nodup_nil, fun m => by simp [get]⟩ "local"
    (.localNode (daemonNode "/w" none))) "a" (.remoteNode "a" 0)

theorem twoNodes_keyed : twoNodes.Keyed := (Core.keyed_init "/w" none ⟨[], []⟩ 0).register rfl

/-- With `local` first, the prompts are right. -/
theorem marked_local_first : twoNodes.MarksDefault ["local", "a"] :=
  (marked_iff twoNodes_keyed ⟨by decide, fun name => by
    rw [← twoNodes_order.2 name]; simp [or_comm]⟩).2 (.inr rfl)

/-- **A remote node is marked**, and the task runs on the local one. -/
theorem marked_remote :
    (∃ s, Sys.run Core.step (Core.init "/w" none ⟨[], []⟩ 0) (Core.link 0 "000000" "a" "t") = some s ∧
      s.registry = twoNodes) ∧
      twoNodes.Order ["a", "local"] ∧ markedDefault (twoNodes.list ["a", "local"]) = some "a" ∧
      OperatorAgent.resolveNode twoNodes ["a", "local"] none = .ok (.localNode (daemonNode "/w" none)) ∧
      ¬ twoNodes.MarksDefault ["a", "local"] := by
  have hrun : Sys.run Core.step (Core.init "/w" none ⟨[], []⟩ 0) (Core.link 0 "000000" "a" "t") = some _ := rfl
  refine ⟨⟨_, hrun, rfl⟩, twoNodes_order, rfl, rfl, fun h => ?_⟩
  obtain ⟨node, hresolved, hname⟩ := h "a" rfl
  cases hresolved
  exact absurd hname (by decide)

end NodeRegistry

end Auxlry
