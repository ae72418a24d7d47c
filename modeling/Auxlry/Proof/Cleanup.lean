import Auxlry.Proof.OwnNode

/-!
# What a connection leaves behind

A task that registered its connection should leave no entry for it in the registry when it
returns, and have told of the end as it told of the beginning. `published` is bookkeeping:
the events that the task of each connection has put on the bus.

* `cleanedUp_iff`: every task cleans up **exactly in the runs where** each workspace
  directory can be created.
* `noWorkspace_leaves_entry`: a node with a name that no directory can have.
-/

namespace Auxlry

/-- An event on the bus. -/
def Effect.onBus : Effect → Bool
  | .nodeConnected _ | .nodeDisconnected _ => true
  | .reply .. | .close .. => false

/-- The core, with the events that each task has published. -/
structure Observed where
  core : Core
  published : ℕ → List Effect

namespace Observed

def init (workspace : String) (nodeCfg : Option (String × NodeMode)) (db : Database) (now : ℕ) : Observed :=
  ⟨Core.init workspace nodeCfg db now, fun _ => []⟩

def publishedAfter (s : Observed) (a : CoreAction) : ℕ → List Effect :=
  match a.conn with
  | some c => Function.update s.published c (s.published c ++ (s.core.effects a).filter (·.onBus))
  | none => s.published

/-- A step of the core. -/
def step (s : Observed) (a : CoreAction) : Option Observed :=
  (s.core.step a).map fun core => ⟨core, s.publishedAfter a⟩

/-- A task that has returned left no entry in the registry, and said that its node is gone if it
had said that it is there. -/
def CleanedUp (s : Observed) : Prop :=
  ∀ c, s.core.task c = .returned →
    (∀ key name, s.core.registry.get key ≠ some (.remoteNode name c)) ∧
      (s.published c = [] ∨ ∃ n, s.published c = [.nodeConnected n, .nodeDisconnected n])

/-- The workspace directory of a node can be created. -/
def CreatesWorkspace : CoreAction → Prop
  | .createWorkspace _ dirOk => dirOk = true
  | _ => True

/-- The events of a task that stands here. -/
def Told (es : List Effect) : Task → Prop
  | .announced n | .serving n _ | .left n | .unregistered n => es = [.nodeConnected n]
  | .returned => es = [] ∨ ∃ n, es = [.nodeConnected n, .nodeDisconnected n]
  | _ => es = []

/-- The entries are of registered tasks, under their names, and the tasks have told what they
should. -/
structure Inv (s : Observed) : Prop where
  entries : ∀ key name c, s.core.registry.get key = some (.remoteNode name c) →
    key = name ∧ (s.core.task c).registeredName = some name
  told : ∀ c, Told (s.published c) (s.core.task c)

variable {s s' : Observed} {a : CoreAction} {c : ℕ} {core : Core}

/-! ## The events -/

/-- What the task of a connection publishes in a step, by where it stands. -/
def publishes (t : Task) : CoreAction → List Effect
  | .publishConnected _ =>
    match t with
    | .registered name => [.nodeConnected name]
    | _ => []
  | .publishDisconnected _ =>
    match t with
    | .unregistered name => [.nodeDisconnected name]
    | _ => []
  | _ => []

theorem effects_onBus (s : Core) (h : a.conn = some c) :
    (s.effects a).filter (·.onBus) = publishes (s.task c) a := by
  cases a with
  | sendReply c sendOk =>
    cases sendOk with
    | false => rfl
    | true =>
      simp only [Core.effects, publishes]
      split <;> rfl
  | publishConnected c' | publishDisconnected c' =>
    cases h
    simp only [Core.effects, publishes]
    cases s.task c <;> rfl
  | storeToken c token queryOk | createWorkspace c queryOk => cases queryOk <;> rfl
  | _ => rfl

theorem publishedAfter_ne (h : a.conn ≠ some c) : s.publishedAfter a c = s.published c := by
  unfold publishedAfter
  cases hconn : a.conn with
  | none => rfl
  | some c' => exact Function.update_of_ne (fun he => h (hconn.trans (congrArg some he.symm))) ..

theorem publishedAfter_self (h : a.conn = some c) :
    s.publishedAfter a c = s.published c ++ publishes (s.core.task c) a := by
  unfold publishedAfter
  rw [h, ← effects_onBus s.core h]
  exact Function.update_self ..

/-! ## A step -/

theorem told_step (hJ : ∀ c, Told (s.published c) (s.core.task c)) (hg : CreatesWorkspace a)
    (h : s.core.step a = some core) (c : ℕ) : Told (s.publishedAfter a c) (core.task c) := by
  have hold := hJ c
  rcases Core.step_turn h c with ⟨hconn, htask⟩ | hturn
  · rw [publishedAfter_ne hconn, htask]
    exact hold
  · rw [publishedAfter_self hturn.conn]
    generalize s.core.task c = t at hold hturn
    generalize core.task c = t' at hturn
    generalize s.published c = es at hold
    cases hturn with
    | replied pending =>
      rcases Core.pendingReply_cases pending with ⟨n, token, rfl, -⟩ | ⟨n, rfl, -⟩ | ⟨rfl, -⟩ <;>
        simpa [publishes, Told] using hold
    | rejected pending | notSent pending =>
      rcases Core.pendingReply_cases pending with ⟨n, token, rfl, -⟩ | ⟨n, rfl, -⟩ | ⟨rfl, -⟩ <;>
        exact .inl (by simpa [publishes, Told] using hold)
    | noMessage | tokenLost => exact .inl (by simpa [publishes, Told] using hold)
    | noWorkspace => cases hg
    | publishConnected | publishDisconnected =>
      have hes := hold
      simp only [Told] at hes
      subst hes
      simp [publishes, Told]
    | _ => simpa [publishes, Told] using hold

theorem entries_step (hJ : s.Inv) (hg : CreatesWorkspace a) (h : s.core.step a = some core) (key name : String)
    (c : ℕ) (hget : core.registry.get key = some (.remoteNode name c)) :
    key = name ∧ (core.task c).registeredName = some name := by
  have hturn := Core.step_turn h c
  rcases Core.entry_step h hget with hold | ⟨rfl, task, rfl⟩
  · obtain ⟨rfl, hname⟩ := hJ.entries key name c hold
    refine ⟨rfl, ?_⟩
    have hgone : ∀ n, a = .unregister c → s.core.task c = .left n → n ≠ key := by
      rintro n rfl task rfl
      rw [Core.get_after_unregister h task] at hget
      cases hget
    generalize s.core.task c = t at hname hturn hgone
    generalize core.task c = t' at hturn
    rcases hturn with ⟨-, rfl⟩ | hturn
    · exact hname
    · cases hturn with
      | publishConnected | createWorkspace | leave => exact hname
      | noWorkspace => cases hg
      | @unregister n => exact absurd (Option.some.inj hname) (hgone n rfl rfl)
      | replied pending | rejected pending | notSent pending =>
        rcases Core.pendingReply_cases pending with ⟨n, token, rfl, -⟩ | ⟨n, rfl, -⟩ | ⟨rfl, -⟩ <;> cases hname
      | _ => cases hname
  · rcases hturn with ⟨hconn, -⟩ | hturn
    · exact absurd rfl hconn
    · rw [task] at hturn
      generalize core.task c = t' at hturn
      cases hturn
      exact ⟨rfl, rfl⟩

theorem Inv.step (hJ : s.Inv) (hg : CreatesWorkspace a) (h : s.step a = some s') : s'.Inv := by
  obtain ⟨core, hcore, rfl⟩ := Option.map_eq_some_iff.1 h
  exact ⟨entries_step hJ hg hcore, told_step hJ.told hg hcore⟩

theorem Inv.cleanedUp (hJ : s.Inv) : s.CleanedUp := by
  intro c hreturned
  refine ⟨fun key name hget => ?_, ?_⟩
  · obtain ⟨-, hname⟩ := hJ.entries key name c hget
    rw [hreturned] at hname
    cases hname
  · have htold := hJ.told c
    rw [hreturned] at htold
    exact htold

/-- **One step** leaves what should be left exactly when it does not fail to create a directory. -/
theorem cleanedUp_step (hJ : s.Inv) (h : s.step a = some s') : s'.CleanedUp ↔ CreatesWorkspace a := by
  refine ⟨fun hP' => ?_, fun hg => (hJ.step hg h).cleanedUp⟩
  obtain ⟨core, hcore, rfl⟩ := Option.map_eq_some_iff.1 h
  cases Core.step_move hcore with
  | createWorkspace => rfl
  | @noWorkspace c name task =>
    -- the task has told of the beginning, and returns
    have htold : s.published c = [.nodeConnected name] := by simpa [task, Told] using hJ.told c
    obtain ⟨-, hes⟩ := hP' c (Function.update_self ..)
    have hafter : s.publishedAfter (.createWorkspace c false) c = [.nodeConnected name] := by
      rw [publishedAfter_self rfl, htold]
      rfl
    simp [hafter] at hes
  | _ => trivial

theorem inv_init (workspace : String) (nodeCfg : Option (String × NodeMode)) (db : Database) (now : ℕ) :
    (init workspace nodeCfg db now).Inv where
  entries := fun _ _ _ hget => (Core.no_remote_init workspace nodeCfg db now hget).elim
  told := fun _ => rfl

/-- **Every task cleans up** in a run exactly if each workspace directory can be created. -/
theorem cleanedUp_iff (workspace : String) (nodeCfg : Option (String × NodeMode)) (db : Database) (now : ℕ)
    (as : List CoreAction) :
    (∀ t, Sys.Visits step (init workspace nodeCfg db now) as t → t.CleanedUp) ↔
      ∀ t a, Sys.Takes step (init workspace nodeCfg db now) as t a → CreatesWorkspace a :=
  Sys.visits_iff_takes (J := Inv) (P := CleanedUp) (fun _ _ _ hJ _ hg h => hJ.step hg h)
    (fun _ _ _ hJ _ h => cleanedUp_step hJ h) as (inv_init workspace nodeCfg db now)
    (inv_init workspace nodeCfg db now).cleanedUp

/-- A node links under a name with a NUL byte. -/
def linkNul : List CoreAction :=
  [.storePendingCode "000000", .accept 0, .receive 0 (.authRequest "000000" "n\x00") true,
    .storeToken 0 "t" true, .sendReply 0 true, .register 0, .publishConnected 0, .createWorkspace 0 false]

/-- **No directory, no cleanup**: the task has returned and closed its connection, the entry
stays, and the node is never said to be gone. -/
theorem noWorkspace_leaves_entry :
    ∃ s, Sys.run step (init "/w" none ⟨[], []⟩ 0) linkNul = some s ∧ s.core.task 0 = .returned ∧
      .close 0 2 "internal error" ∈ s.core.log ∧
      s.core.registry.get "n\x00" = some (.remoteNode "n\x00" 0) ∧
      s.published 0 = [.nodeConnected "n\x00"] ∧ ¬ s.CleanedUp := by
  have hrun : Sys.run step (init "/w" none ⟨[], []⟩ 0) linkNul = some _ := rfl
  have hclosed : Effect.close 0 2 "internal error" ∈
    [Effect.reply 0 (.authResponse true (some "t")), .nodeConnected "n\x00", .close 0 2 "internal error"] := by
    decide
  refine ⟨_, hrun, rfl, hclosed, rfl, rfl, fun h => ?_⟩
  exact (h 0 rfl).1 "n\x00" "n\x00" rfl

end Observed

end Auxlry
