import Auxlry.Proof.Registry
import Auxlry.Spec.Operator

/-!
# The core's own node

The daemon registers its local node under a configured name, and every connection is
registered under the name it was admitted with. Operators reach the local node through
the registry: by its name, or by naming no node at all.

* `ownNode_iff`: the local node **keeps its entry** exactly in the runs where no
  connection is registered under its name.
* `resolvesLocally_iff`: a task without a node name **runs on the local node** exactly in
  the runs where connections are registered only next to a local node called `local`,
  under other names.
-/

namespace Auxlry

/-- The name that a task is registered under. -/
def Task.registeredName : Task → Option String
  | .registered n | .announced n | .serving n _ | .left n => some n
  | _ => none

namespace Core

variable {s s' : Core} {a : CoreAction} {c : ℕ} {own : LocalNode}

/-! ## Registered names -/

/-- The registered connections have names with `Q`. -/
def Named (s : Core) (Q : String → Prop) : Prop := ∀ c n, (s.task c).registeredName = some n → Q n

/-- A connection that is registered gets a name with `Q`. -/
def NamesNext (s : Core) (Q : String → Prop) : CoreAction → Prop
  | .register c => ∀ n, s.task c = .authenticated n → Q n
  | _ => True

variable {Q : String → Prop}

/-- A task that moves on keeps its name, if it has one. -/
theorem Named.setTask (hJ : s.Named Q) {s₀ : Core} {t : Task} (ht₀ : s₀.task = s.task)
    (ht : ∀ n, t.registeredName = some n → Q n) : (s₀.setTask c t).Named Q := by
  have htask : (s₀.setTask c t).task = Function.update s.task c t := by rw [← ht₀]; rfl
  unfold Named
  rw [htask]
  exact (Function.forall_update_iff s.task fun _ task => ∀ n, task.registeredName = some n → Q n).2
    ⟨ht, fun c' _ => hJ c'⟩

theorem Named.step (hJ : s.Named Q) (hg : s.NamesNext Q a) (h : s.step a = some s') : s'.Named Q := by
  cases step_move h with
  | tick | storePendingCode => exact hJ
  | @register c n task =>
    have hn := hg n task
    refine hJ.setTask rfl fun m hm => ?_
    cases hm; exact hn
  | @publishConnected c n task | @createWorkspace c n task | @leave c n _ task =>
    have hn := hJ c n (by rw [task]; rfl)
    refine hJ.setTask rfl fun m hm => ?_
    cases hm; exact hn
  | accept | noMessage | consume | findToken | reject | storeToken | tokenLost | replied | rejected
  | notSent | noWorkspace | unregister | publishDisconnected =>
    refine hJ.setTask rfl fun m hm => ?_
    cases hm

theorem named_init (workspace : String) (nodeCfg : Option (String × NodeMode)) (db : Database) (now : ℕ) :
    (Core.init workspace nodeCfg db now).Named Q := by
  intro c n hn; cases hn

/-- **What a step does to the entry of a name.** -/
theorem get_step (h : s.step a = some s') (name : String) :
    (∃ c, a = .register c ∧ s.task c = .authenticated name ∧
        s'.registry.get name = some (.remoteNode name c)) ∨
      (∃ c, a = .unregister c ∧ s.task c = .left name) ∨
      s.NamesNext (· ≠ name) a ∧ s'.registry.get name = s.registry.get name := by
  cases step_change h with
  | quiet guard registry =>
    refine .inr (.inr ⟨?_, by rw [registry]⟩)
    cases a with
    | register c => exact guard.elim
    | _ => trivial
  | serve task registry | leave served registry => exact .inr (.inr ⟨trivial, by rw [registry]⟩)
  | @register c n task registry =>
    rw [registry]
    by_cases hn : name = n
    · subst hn
      exact .inl ⟨c, rfl, task, get_register_self ..⟩
    · refine .inr (.inr ⟨fun m hm => ?_, get_register_ne _ _ hn⟩)
      rw [task] at hm; cases hm
      exact Ne.symm hn
  | @unregister c n task registry =>
    rw [registry]
    by_cases hn : name = n
    · subst hn
      exact .inr (.inl ⟨c, rfl, task⟩)
    · exact .inr (.inr ⟨trivial, get_unregister_ne _ hn⟩)

/-! ## By name -/

/-- The local node of the daemon is registered under its name. -/
def HasOwn (s : Core) (own : LocalNode) : Prop := s.registry.get own.nodeName = some (.localNode own)

/-- A step keeps the entry exactly if it does not register a connection under the name. -/
theorem hasOwn_step (hJ : s.Named (· ≠ own.nodeName)) (hP : s.HasOwn own) (h : s.step a = some s') :
    s'.HasOwn own ↔ s.NamesNext (· ≠ own.nodeName) a := by
  unfold HasOwn at hP ⊢
  rcases get_step h own.nodeName with ⟨c, rfl, task, hget⟩ | ⟨c, rfl, task⟩ | ⟨hg, hget⟩
  · -- the connection takes the place of the local node
    rw [hget]
    refine iff_of_false (fun he => by cases he) fun hg => ?_
    exact hg _ task rfl
  · -- no connection was registered under the name
    exact absurd rfl (hJ c _ (by rw [task]; rfl))
  · rw [hget]
    exact iff_of_true hP hg

theorem hasOwn_init (workspace : String) (nodeCfg : Option (String × NodeMode)) (db : Database) (now : ℕ) :
    (Core.init workspace nodeCfg db now).HasOwn (daemonNode workspace nodeCfg) := get_register_self ..

/-- **The local node keeps its entry** throughout a run exactly if no connection is
registered under its name. -/
theorem ownNode_iff (workspace : String) (nodeCfg : Option (String × NodeMode)) (db : Database)
    (now : ℕ) (as : List CoreAction) :
    (∀ t, Sys.Visits step (Core.init workspace nodeCfg db now) as t →
        t.registry.get (daemonNode workspace nodeCfg).nodeName =
          some (.localNode (daemonNode workspace nodeCfg))) ↔
      ∀ t a, Sys.Takes step (Core.init workspace nodeCfg db now) as t a →
        t.NamesNext (· ≠ (daemonNode workspace nodeCfg).nodeName) a :=
  Sys.visits_iff_takes (J := fun t : Core => t.Named (· ≠ (daemonNode workspace nodeCfg).nodeName))
    (P := fun t : Core => t.HasOwn (daemonNode workspace nodeCfg)) (fun _ _ _ hJ _ hg h => hJ.step hg h)
    (fun _ _ _ hJ hP h => hasOwn_step hJ hP h) as (named_init workspace nodeCfg db now)
    (hasOwn_init workspace nodeCfg db now)

/-- A node links under the name of the local node, and disconnects. -/
def linkAsOwn : List CoreAction := link 0 "000000" "local" "t" ++ [.leave 0, .unregister 0]

/-- **A remote node replaces the local one**, and removes it from the registry as it leaves. -/
theorem link_replaces_own :
    (∃ s, Sys.run step (Core.init "/w" none ⟨[], []⟩ 0) (link 0 "000000" "local" "t") = some s ∧
      s.registry.get (daemonNode "/w" none).nodeName = some (.remoteNode "local" 0)) ∧
      ∃ s, Sys.run step (Core.init "/w" none ⟨[], []⟩ 0) linkAsOwn = some s ∧
        s.registry.get (daemonNode "/w" none).nodeName = none := by
  have hlink : Sys.run step (Core.init "/w" none ⟨[], []⟩ 0) (link 0 "000000" "local" "t") = some _ := rfl
  have hleave : Sys.run step (Core.init "/w" none ⟨[], []⟩ 0) linkAsOwn = some _ := rfl
  exact ⟨⟨_, hlink, rfl⟩, _, hleave, rfl⟩

/-! ## By no name -/

theorem order_register {r : NodeRegistry} {order : List String} (h : r.Order order) (name : String)
    (node : NodeExecutor) : (r.register name node).Order (name :: order.erase name) := by
  obtain ⟨hnodup, hmem⟩ := h
  refine ⟨List.nodup_cons.2 ⟨hnodup.not_mem_erase, hnodup.erase name⟩, fun m => ?_⟩
  rw [List.mem_cons, hnodup.mem_erase_iff]
  by_cases hm : m = name
  · subst hm; simp
  · rw [get_register_ne _ _ hm, hmem]
    simp [hm]

theorem order_unregister {r : NodeRegistry} {order : List String} (h : r.Order order) (name : String) :
    (r.unregister name).Order (order.erase name) := by
  obtain ⟨hnodup, hmem⟩ := h
  refine ⟨hnodup.erase name, fun m => ?_⟩
  rw [hnodup.mem_erase_iff]
  by_cases hm : m = name
  · subst hm; simp
  · rw [get_unregister_ne _ hm, hmem]
    simp [hm]

/-- In any order of the registry, a task without a node name gets the local node. -/
def ResolvesLocally (s : Core) (own : LocalNode) : Prop :=
  ∀ order, s.registry.Order order →
    OperatorAgent.resolveNode s.registry order none = .ok (.localNode own)

/-- A name that a connection may have next to the local node. -/
def Beside (own : LocalNode) (name : String) : Prop := own.nodeName = "local" ∧ name ≠ "local"

/-- The local node is registered, and everything else beside it. -/
structure OwnFirst (own : LocalNode) (s : Core) : Prop where
  named : s.Named (Beside own)
  hasOwn : s.HasOwn own
  entries : ∀ name node, s.registry.get name = some node →
    name = own.nodeName ∧ node = .localNode own ∨ Beside own name
  finite : ∃ order, s.registry.Order order

theorem Beside.ne_own {name : String} (h : Beside own name) : name ≠ own.nodeName := by
  rw [h.1]; exact h.2

theorem OwnFirst.resolves (h : OwnFirst own s) : s.ResolvesLocally own := by
  intro order horder
  suffices hfirst : s.registry.first order = some (.localNode own) by
    simp only [OperatorAgent.resolveNode, hfirst]
  unfold NodeRegistry.first
  by_cases hlocal : own.nodeName = "local"
  · have hget := h.hasOwn
    rw [HasOwn, hlocal] at hget
    rw [hget]
  · -- nothing else is registered
    have honly : ∀ name node, s.registry.get name = some node →
        name = own.nodeName ∧ node = .localNode own := by
      intro name node hget
      rcases h.entries name node hget with hown | hbeside
      · exact hown
      · exact absurd hbeside.1 hlocal
    have hnone : s.registry.get "local" = none := by
      by_contra hne
      obtain ⟨node, hget⟩ := Option.ne_none_iff_exists'.1 hne
      exact hlocal (honly _ _ hget).1.symm
    rw [hnone]
    have hmem : own.nodeName ∈ order := (horder.2 _).2 (by rw [h.hasOwn]; rfl)
    obtain ⟨name, rest, rfl⟩ := List.exists_cons_of_ne_nil (List.ne_nil_of_mem hmem)
    obtain ⟨node, hget⟩ := Option.isSome_iff_exists.1 ((horder.2 name).1 List.mem_cons_self)
    rw [(honly _ _ hget).2] at hget
    exact hget

theorem ownFirst_init (workspace : String) (nodeCfg : Option (String × NodeMode)) (db : Database)
    (now : ℕ) : OwnFirst (daemonNode workspace nodeCfg) (Core.init workspace nodeCfg db now) where
  named := named_init workspace nodeCfg db now
  hasOwn := hasOwn_init workspace nodeCfg db now
  entries := by
    intro name node hget
    by_cases hn : name = (daemonNode workspace nodeCfg).nodeName
    · subst hn
      rw [hasOwn_init] at hget
      exact .inl ⟨rfl, (Option.some.inj hget).symm⟩
    · rw [show (Core.init workspace nodeCfg db now).registry.get name = none from
        get_register_ne _ _ hn] at hget
      cases hget
  finite := ⟨_, order_register ⟨List.nodup_nil, fun m => by simp [NodeRegistry.get]⟩ _ _⟩

theorem finite_step (hJ : ∃ order, s.registry.Order order) (h : s.step a = some s') :
    ∃ order, s'.registry.Order order := by
  obtain ⟨order, horder⟩ := hJ
  cases step_change h with
  | quiet guard registry | serve task registry | leave served registry =>
    rw [registry]
    exact ⟨order, horder⟩
  | register task registry =>
    rw [registry]
    exact ⟨_, order_register horder _ _⟩
  | unregister task registry =>
    rw [registry]
    exact ⟨_, order_unregister horder _⟩

theorem OwnFirst.step (hJ : OwnFirst own s) (hg : s.NamesNext (Beside own) a) (h : s.step a = some s') :
    OwnFirst own s' where
  named := hJ.named.step hg h
  hasOwn := by
    have hnamed : s.Named (· ≠ own.nodeName) := fun c n hn => (hJ.named c n hn).ne_own
    refine (hasOwn_step hnamed hJ.hasOwn h).2 ?_
    cases a with
    | register c => exact fun n hn => (hg n hn).ne_own
    | _ => trivial
  entries := by
    intro name node hget
    rcases get_step h name with ⟨c, rfl, task, -⟩ | ⟨c, rfl, task⟩ | ⟨-, hsame⟩
    · exact .inr (hg name task)
    · exact .inr (hJ.named c name (by rw [task]; rfl))
    · exact hJ.entries name node (hsame ▸ hget)
  finite := finite_step hJ.finite h

/-- A connection that is registered, and is not beside the local node, is the first node in
some order. -/
theorem beside_of_resolves (hJ : OwnFirst own s) (hP' : s'.ResolvesLocally own)
    (h : s.step a = some s') : s.NamesNext (Beside own) a := by
  cases step_move h with
  | @register c n task =>
    intro m hm
    rw [task] at hm; cases hm
    obtain ⟨order, horder⟩ := hJ.finite
    have hfirst := hP' _ (order_register horder n (.remoteNode n c))
    by_cases hn : n = "local"
    · -- the connection is the preferred node
      subst hn
      simp only [OperatorAgent.resolveNode, NodeRegistry.first, setTask, get_register_self] at hfirst
      cases hfirst
    refine ⟨?_, hn⟩
    cases hget : s.registry.get "local" with
    | some node =>
      rcases hJ.entries _ _ hget with ⟨hown, -⟩ | ⟨hown, -⟩
      · exact hown.symm
      · exact hown
    | none =>
      simp only [OperatorAgent.resolveNode, NodeRegistry.first, setTask, get_register_ne _ _ (Ne.symm hn), hget,
        List.head?_cons, Option.bind_some, get_register_self] at hfirst
      cases hfirst
  | _ => trivial

theorem resolvesLocally_step (hJ : OwnFirst own s) (h : s.step a = some s') :
    s'.ResolvesLocally own ↔ s.NamesNext (Beside own) a :=
  ⟨fun hP' => beside_of_resolves hJ hP' h, fun hg => (hJ.step hg h).resolves⟩

/-- **A task without a node name runs on the local node** throughout a run, in any order of
the registry, exactly if each connection that is registered has another name than `local`
and the local node has that one. -/
theorem resolvesLocally_iff (workspace : String) (nodeCfg : Option (String × NodeMode)) (db : Database)
    (now : ℕ) (as : List CoreAction) :
    (∀ t, Sys.Visits Core.step (Core.init workspace nodeCfg db now) as t →
        ∀ order, t.registry.Order order →
          OperatorAgent.resolveNode t.registry order none = .ok (.localNode (daemonNode workspace nodeCfg))) ↔
      ∀ t a, Sys.Takes Core.step (Core.init workspace nodeCfg db now) as t a →
        t.NamesNext (fun n => (daemonNode workspace nodeCfg).nodeName = "local" ∧ n ≠ "local") a :=
  Sys.visits_iff_takes (J := OwnFirst (daemonNode workspace nodeCfg))
    (P := fun t : Core => t.ResolvesLocally (daemonNode workspace nodeCfg))
    (fun _ _ _ hJ _ hg h => hJ.step hg h) (fun _ _ _ hJ _ h => resolvesLocally_step hJ h) as
    (ownFirst_init workspace nodeCfg db now) (ownFirst_init workspace nodeCfg db now).resolves

/-- **A core node called `core`**: a node that links as `a` gets the tasks that name none. -/
theorem link_takes_tasks :
    ∃ s, Sys.run Core.step (Core.init "/w" (some ("core", .workspace)) ⟨[], []⟩ 0)
        (link 0 "000000" "a" "t") = some s ∧
      s.registry.Order ["a", "core"] ∧
      OperatorAgent.resolveNode s.registry ["a", "core"] none = .ok (.remoteNode "a" 0) := by
  have hrun : Sys.run Core.step (Core.init "/w" (some ("core", .workspace)) ⟨[], []⟩ 0)
      (link 0 "000000" "a" "t") = some _ := rfl
  have hcore := order_register (r := fun _ => none) ⟨List.nodup_nil, fun m => by simp [NodeRegistry.get]⟩ "core"
    (.localNode (daemonNode "/w" (some ("core", .workspace))))
  exact ⟨_, hrun, order_register hcore "a" (.remoteNode "a" 0), rfl⟩

end Core

end Auxlry
