import Auxlry.Proof.Connections
import Auxlry.Sys.Run

/-!
# The registry and the connections that serve

A name's entry in the registry should lead to a connection that serves under it, as
long as there is one (`RegistryLive`). The registry knows only names, and several
connections may have authenticated under one.

* `registryLive_iff`: **the exact condition** on the steps of a run.
* `unregister_removes_newer`: an old connection that ends takes the entry of the new
  one with it.
-/

namespace Auxlry

namespace Core

/-- The connection `c` is in its protocol loop, authenticated as `n`. -/
def Serves (s : Core) (c : ℕ) (n : String) : Prop := ∃ node, s.Serving c n node

/-- Every name that some connection serves under is registered, with a connection that
serves under it. -/
def RegistryLive (s : Core) : Prop :=
  ∀ n, (∃ c, s.Serves c n) → ∃ c, s.registry.get n = some (.remoteNode n c) ∧ s.Serves c n

/-- What a step may not do, for the registry to stay live: replace or remove the entry
of a name that is being served; enter the loop under a name whose entry does not serve;
leave the loop as the registered connection of a name that others serve too. -/
def KeepsLive (s : Core) : CoreAction → Prop
  | .register c => ∀ n, s.task c = .authenticated n → ∀ c', ¬ s.Serves c' n
  | .unregister c => ∀ n, s.task c = .left n → ∀ c', ¬ s.Serves c' n
  | .createWorkspace c true => ∀ n, s.task c = .announced n →
      ∃ c', s.registry.get n = some (.remoteNode n c') ∧ (c' = c ∨ s.Serves c' n)
  | .leave c => ∀ n, s.Serves c n → s.registry.get n = some (.remoteNode n c) →
      ∀ c', c' ≠ c → ¬ s.Serves c' n
  | _ => True

variable {s s' : Core} {a : CoreAction} {c : ℕ}

/-! ## The registry stays live -/

@[simp] theorem get_register_self (r : NodeRegistry) (n : String) (e : NodeExecutor) :
    (r.register n e).get n = some e := Function.update_self ..

theorem get_register_ne (r : NodeRegistry) {n m : String} (e : NodeExecutor) (h : m ≠ n) :
    (r.register n e).get m = r.get m := Function.update_of_ne h ..

@[simp] theorem get_unregister_self (r : NodeRegistry) (n : String) :
    (r.unregister n).get n = none := Function.update_self ..

theorem get_unregister_ne (r : NodeRegistry) {n m : String} (h : m ≠ n) :
    (r.unregister n).get m = r.get m := Function.update_of_ne h ..

theorem serves_congr (h : ∀ c m node, s'.Serving c m node ↔ s.Serving c m node) (c : ℕ) (n : String) :
    s'.Serves c n ↔ s.Serves c n := exists_congr fun node => h c n node

/-- From a live registry, a step leads to a live one exactly when it keeps to the condition. -/
theorem registryLive_step (hP : s.RegistryLive) (h : s.step a = some s') :
    s'.RegistryLive ↔ s.KeepsLive a := by
  unfold RegistryLive at hP ⊢
  cases step_change h with
  | quiet guard registry serving =>
    simp only [registry, serves_congr serving]
    refine ⟨fun _ => ?_, fun _ => hP⟩
    cases a with
    | createWorkspace c dirOk => cases dirOk with
      | false => trivial
      | true => exact guard.elim
    | _ => first | exact trivial | exact guard.elim
  | @register c n task registry serving =>
    simp only [registry, serves_congr serving, KeepsLive]
    constructor
    · -- the new entry does not serve yet
      intro hall m hm c' hc'
      obtain rfl : n = m := by rw [task] at hm; exact Task.authenticated.inj hm
      obtain ⟨c₁, hc₁, hs₁⟩ := hall n ⟨c', hc'⟩
      rw [get_register_self] at hc₁
      cases hc₁
      obtain ⟨node, hs₁⟩ := hs₁
      rw [Serving, task] at hs₁; cases hs₁
    · rintro hg m ⟨c', hc'⟩
      have hne : m ≠ n := by rintro rfl; exact hg m task c' hc'
      rw [get_register_ne _ _ hne]
      exact hP m ⟨c', hc'⟩
  | @serve c n task registry serving =>
    have hserves : ∀ c' m, s'.Serves c' m ↔ s.Serves c' m ∨ c' = c ∧ m = n := by
      intro c' m
      unfold Serves
      simp only [serving, exists_or, exists_and_left, exists_eq, and_true]
    simp only [registry, hserves, KeepsLive]
    constructor
    · -- from now on `c` itself needs an entry that serves
      intro hall m hm
      obtain rfl : n = m := by rw [task] at hm; exact Task.announced.inj hm
      obtain ⟨c₁, hc₁, hs₁⟩ := hall n ⟨c, .inr ⟨rfl, rfl⟩⟩
      exact ⟨c₁, hc₁, hs₁.elim .inr fun h => .inl h.1⟩
    · rintro hg m ⟨c', hc' | ⟨rfl, rfl⟩⟩
      · obtain ⟨c₁, hc₁, hs₁⟩ := hP m ⟨c', hc'⟩
        exact ⟨c₁, hc₁, .inl hs₁⟩
      · obtain ⟨c₁, hc₁, hs₁⟩ := hg m task
        exact ⟨c₁, hc₁, hs₁.elim (fun h => .inr ⟨h, rfl⟩) .inl⟩
  | @leave c n node served registry serving =>
    have hserves : ∀ c' m, s'.Serves c' m ↔ s.Serves c' m ∧ c' ≠ c := by
      intro c' m
      unfold Serves
      simp only [serving, exists_and_right]
    simp only [registry, hserves, KeepsLive]
    constructor
    · -- the entry of another serving connection cannot be the one that leaves
      intro hall m hm hreg c' hne hc'
      obtain ⟨c₁, hc₁, -, hne₁⟩ := hall m ⟨c', hc', hne⟩
      rw [hreg] at hc₁
      cases hc₁; exact hne₁ rfl
    · rintro hg m ⟨c', hc', hne⟩
      obtain ⟨c₁, hc₁, hs₁⟩ := hP m ⟨c', hc'⟩
      refine ⟨c₁, hc₁, hs₁, ?_⟩
      rintro rfl
      exact hg m hs₁ hc₁ c' hne hc'
  | @unregister c n task registry serving =>
    simp only [registry, serves_congr serving, KeepsLive]
    constructor
    · -- nothing is registered under the name any more
      intro hall m hm c' hc'
      obtain rfl : n = m := by rw [task] at hm; exact Task.left.inj hm
      obtain ⟨c₁, hc₁, -⟩ := hall n ⟨c', hc'⟩
      rw [get_unregister_self] at hc₁; cases hc₁
    · rintro hg m ⟨c', hc'⟩
      have hne : m ≠ n := by rintro rfl; exact hg m task c' hc'
      rw [get_unregister_ne _ hne]
      exact hP m ⟨c', hc'⟩

theorem registryLive_init (workspace : String) (nodeCfg : Option (String × NodeMode)) (db : Database)
    (now : ℕ) : (Core.init workspace nodeCfg db now).RegistryLive := by
  rintro n ⟨c, node, h⟩; cases h

/-- An entry that a step leaves or makes. -/
theorem entry_step (h : s.step a = some s') {key name : String}
    (hget : s'.registry.get key = some (.remoteNode name c)) :
    s.registry.get key = some (.remoteNode name c) ∨
      a = .register c ∧ s.task c = .authenticated name ∧ key = name := by
  cases step_change h with
  | quiet guard registry | serve task registry | leave served registry => exact .inl (registry ▸ hget)
  | @register c' m task registry =>
    rw [registry] at hget
    rcases eq_or_ne key m with rfl | hne
    · rw [get_register_self] at hget
      cases hget
      exact .inr ⟨rfl, task, rfl⟩
    · rw [get_register_ne _ _ hne] at hget
      exact .inl hget
  | @unregister c' m task registry =>
    rw [registry] at hget
    rcases eq_or_ne key m with rfl | hne
    · rw [get_unregister_self] at hget
      cases hget
    · rw [get_unregister_ne _ hne] at hget
      exact .inl hget

/-- A connection that unregisters leaves no entry under its name. -/
theorem get_after_unregister (h : s.step (.unregister c) = some s') {name : String} (task : s.task c = .left name) :
    s'.registry.get name = none := by
  simp only [step, task, Option.some.injEq] at h
  subst h
  exact get_unregister_self ..

/-- At the start there is only the local node. -/
theorem no_remote_init (workspace : String) (nodeCfg : Option (String × NodeMode)) (db : Database) (now : ℕ)
    {key name : String} (hget : (Core.init workspace nodeCfg db now).registry.get key = some (.remoteNode name c)) :
    False := by
  rcases eq_or_ne key (daemonNode workspace nodeCfg).nodeName with rfl | hne
  · rw [show (Core.init workspace nodeCfg db now).registry.get (daemonNode workspace nodeCfg).nodeName =
      some (.localNode (daemonNode workspace nodeCfg)) from get_register_self ..] at hget
    cases hget
  · rw [show (Core.init workspace nodeCfg db now).registry.get key = none from get_register_ne _ _ hne] at hget
    cases hget

/-- **The exact condition** for the registry to stay live through a run of the core. -/
theorem registryLive_iff (workspace : String) (nodeCfg : Option (String × NodeMode)) (db : Database)
    (now : ℕ) (as : List CoreAction) :
    (∀ t, Sys.Visits step (Core.init workspace nodeCfg db now) as t → t.RegistryLive) ↔
      ∀ t a, Sys.Takes step (Core.init workspace nodeCfg db now) as t a → t.KeepsLive a :=
  Sys.visits_iff_takes (J := fun _ => True) (fun _ _ _ _ _ _ _ => trivial)
    (fun _ _ _ _ hP h => registryLive_step hP h) as trivial (registryLive_init workspace nodeCfg db now)

/-! ## A reconnect -/

/-- A connection with a link code and a name of its choice, up to its protocol loop. -/
def link (c : ℕ) (code name token : String) : List CoreAction :=
  [.storePendingCode code, .accept c, .receive c (.authRequest code name) true, .storeToken c token true,
    .sendReply c true, .register c, .publishConnected c, .createWorkspace c true]

/-- A connection with the token of a node, up to its protocol loop. -/
def connect (c : ℕ) (token : String) : List CoreAction :=
  [.accept c, .receive c (.tokenAuth token) true, .sendReply c true, .register c, .publishConnected c,
    .createWorkspace c true]

/-- The node `n` connects, connects again, and then the first connection times out. -/
def reconnect : List CoreAction := connect 0 "t" ++ connect 1 "t" ++ [.leave 0, .unregister 0]

/-- **The old connection removes the entry of the new one**, which is still serving. -/
theorem unregister_removes_newer :
    ∃ s, Sys.run step (Core.init "/w" none ⟨[], [⟨"n", "t"⟩]⟩ 0) reconnect = some s ∧
      s.Serves 1 "n" ∧ s.registry.get "n" = none ∧ ¬ s.RegistryLive := by
  have hserve : ∀ s, Sys.run step (Core.init "/w" none ⟨[], [⟨"n", "t"⟩]⟩ 0) reconnect = some s →
      s.Serves 1 "n" ∧ s.registry.get "n" = none := by
    intro s h
    cases h
    exact ⟨⟨_, rfl⟩, rfl⟩
  refine ⟨_, rfl, (hserve _ rfl).1, (hserve _ rfl).2, fun hall => ?_⟩
  obtain ⟨c, hc, -⟩ := hall "n" ⟨1, (hserve _ rfl).1⟩
  rw [(hserve _ rfl).2] at hc; cases hc

end Core

end Auxlry
