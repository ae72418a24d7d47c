import Auxlry.Proof.OwnNode
import Auxlry.Spec.Peers

/-!
# Registered nodes that answer

An entry of the registry should lead to a node that answers requests: to a `node start` in
its protocol loop, or about to enter it. The core registers every connection that it has
authenticated, those of `node link` as well.

* `entriesAnswer_iff`: every open entry leads to a node that answers **exactly in the runs
  where** no connection of `node link` is registered.
* `link_is_offered`: a link that succeeds, and its connection as the node that an operator
  gets.
-/

namespace Auxlry

/-- The connection has ended for the core. -/
def Task.Ended : Task → Prop
  | .left _ | .unregistered _ | .returned => True
  | _ => False

/-- The task has been registered, now or before. -/
def Task.Entered : Task → Prop
  | .registered _ | .announced _ | .serving .. | .left _ | .unregistered _ | .returned => True
  | _ => False

/-- `authenticate` has returned the name of the node, and the connection has not ended. -/
def Task.Admitted : Task → Prop
  | .authenticated _ | .registered _ | .announced _ | .serving .. => True
  | _ => False

/-- The task was let in with a code, and has not answered. -/
def Task.ByCode : Task → Prop
  | .consumed _ | .stored .. => True
  | _ => False

namespace Peer

def Starts : Peer → Prop
  | .start .. => True
  | _ => False

def HasQuit : Peer → Prop
  | .absent | .link _ _ .exited | .start _ .ended => True
  | _ => False

variable {p p' : Peer} {msg : ProtocolMessage}

/-- Reading a reply and quitting keep what kind of peer it is. -/
theorem starts_hear (h : p.hear msg = some p') : p ≠ .absent ∧ p' ≠ .absent ∧ (p'.Starts ↔ p.Starts) := by
  unfold hear at h
  split at h
  · split at h <;> cases h <;> simp [Starts]
  · split at h <;> cases h <;> simp [Starts]
  · cases h

theorem starts_quit (h : p.quit = some p') : p ≠ .absent ∧ p' ≠ .absent ∧ (p'.Starts ↔ p.Starts) := by
  unfold quit at h
  split at h <;> cases h <;> simp_all [Starts]

end Peer

namespace PeerNet

open Auxlry.Core

/-- The connection is open at both ends. -/
def Open (s : PeerNet) (c : ℕ) : Prop := ¬ (s.core.task c).Ended ∧ ¬ (s.peer c).HasQuit

/-- All that was written on a connection is that its token was accepted. -/
def OnlyAdmitted (core : Core) (c : ℕ) : Prop :=
  .reply c (.tokenAuthResponse true) ∈ core.log ∧
    ∀ msg, .reply c msg ∈ core.log → msg = .tokenAuthResponse true

/-- The peer is in its protocol loop, or about to enter it. -/
def Answers (s : PeerNet) (c : ℕ) : Prop :=
  ∃ token, s.peer c = .start token .looping ∨ s.peer c = .start token .waiting ∧ OnlyAdmitted s.core c

/-- The entries of the registry lead to nodes that answer, and none to a link. -/
def Executable (s : PeerNet) : Prop :=
  ∀ key name c, s.core.registry.get key = some (.remoteNode name c) →
    (s.Open c → s.Answers c) ∧ (s.peer c).Starts

/-- A connection of `node link` is not registered. -/
def RegistersNodes (s : PeerNet) : Action → Prop
  | .core (.register c) => (s.peer c).Starts
  | _ => True

/-- What a connection of `node start` has come to, at the core. -/
structure Started (core : Core) (c : ℕ) : Prop where
  byToken : ¬ (core.task c).ByCode
  admitted : (core.task c).Admitted → OnlyAdmitted core c

structure Inv (s : PeerNet) : Prop where
  silent : s.core.Silent
  opened : ∀ c, s.peer c = .absent → s.core.task c = .absent
  started : ∀ c, (s.peer c).Starts → Started s.core c
  entered : ∀ key name c, s.core.registry.get key = some (.remoteNode name c) → (s.core.task c).Entered

variable {s s' : PeerNet} {a : Action} {c : ℕ}

/-- It is enough that the entries are of `node start`. -/
theorem Inv.executable_iff (hJ : s.Inv) : s.Executable ↔
    ∀ key name c, s.core.registry.get key = some (.remoteNode name c) → (s.peer c).Starts := by
  constructor
  · intro h key name c hget
    exact (h key name c hget).2
  · intro h key name c hget
    have hstarts := h key name c hget
    refine ⟨fun ⟨hended, hquit⟩ => ?_, hstarts⟩
    have hadmitted : (s.core.task c).Admitted := by
      have hentered := hJ.entered key name c hget
      generalize s.core.task c = t at hended hentered
      cases t with
      | registered | announced | serving => trivial
      | left | unregistered | returned => exact absurd trivial hended
      | _ => cases hentered
    have honly := (hJ.started c hstarts).admitted hadmitted
    unfold Answers
    generalize s.peer c = p at hstarts hquit
    cases p with
    | start token stage =>
      cases stage with
      | waiting => exact ⟨token, .inr ⟨rfl, honly⟩⟩
      | looping => exact ⟨token, .inl rfl⟩
      | ended => exact absurd trivial hquit
    | _ => cases hstarts

/-! ## The steps -/

/-- The steps of a core and of its peers. -/
inductive Move (s : PeerNet) : Action → PeerNet → Prop
  | core {action : CoreAction} {core : Core} (carries : s.Carries action) (step : s.core.step action = some core) :
      Move s (.core action) { s with core := core }
  | openLink {c : ℕ} {code name : String} (peer : s.peer c = .absent) :
      Move s (.openLink c code name) (s.setPeer c (.link code name .waiting))
  | openStart {c : ℕ} {token : String} (peer : s.peer c = .absent) :
      Move s (.openStart c token) (s.setPeer c (.start token .waiting))
  | hear {c : ℕ} {msg : ProtocolMessage} {p : Peer} (sent : .reply c msg ∈ s.core.log)
      (hear : (s.peer c).hear msg = some p) : Move s (.hear c msg) (s.setPeer c p)
  | quit {c : ℕ} {p : Peer} (quit : (s.peer c).quit = some p) : Move s (.quit c) (s.setPeer c p)

/-- **The steps of a core and of its peers.** -/
theorem step_move (h : s.step a = some s') : s.Move a s' := by
  cases a with
  | openLink c code name =>
    simp only [step] at h
    split at h <;> cases h
    rename_i habsent
    exact .openLink habsent
  | openStart c token =>
    simp only [step] at h
    split at h <;> cases h
    rename_i habsent
    exact .openStart habsent
  | core action =>
    obtain ⟨hcarries, h⟩ := Option.ite_none_right_eq_some.1 h
    obtain ⟨core, hcore, rfl⟩ := Option.map_eq_some_iff.1 h
    exact .core hcarries hcore
  | hear c msg =>
    obtain ⟨hsent, h⟩ := Option.ite_none_right_eq_some.1 h
    obtain ⟨p, hp, rfl⟩ := Option.map_eq_some_iff.1 h
    exact .hear hsent hp
  | quit c =>
    obtain ⟨p, hp, rfl⟩ := Option.map_eq_some_iff.1 h
    exact .quit hp

@[simp] theorem setPeer_core (s : PeerNet) (c : ℕ) (p : Peer) : (s.setPeer c p).core = s.core := rfl

@[simp] theorem setPeer_self (s : PeerNet) (c : ℕ) (p : Peer) : (s.setPeer c p).peer c = p :=
  Function.update_self ..

theorem setPeer_ne {c' : ℕ} (p : Peer) (h : c' ≠ c) : (s.setPeer c p).peer c' = s.peer c' :=
  Function.update_of_ne h ..

/-! ## The peers -/

/-- A peer that goes on, or a new one on a connection that the core does not know yet. -/
theorem Inv.setPeer (hJ : s.Inv) {p : Peer} (hp : p ≠ .absent)
    (hstarts : p.Starts → (s.peer c).Starts ∨ s.peer c = .absent) : (s.setPeer c p).Inv where
  silent := hJ.silent
  opened := by
    refine (Function.forall_update_iff s.peer fun c p => p = .absent → s.core.task c = .absent).2 ⟨?_, ?_⟩
    · exact fun h => absurd h hp
    · exact fun c' _ => hJ.opened c'
  started := by
    refine (Function.forall_update_iff s.peer fun c p => p.Starts → Started s.core c).2 ⟨fun h => ?_, ?_⟩
    · rcases hstarts h with hold | habsent
      · exact hJ.started c hold
      · have htask := hJ.opened c habsent
        exact ⟨by rw [htask]; exact id, fun h => by rw [htask] at h; cases h⟩
    · exact fun c' _ => hJ.started c'
  entered := hJ.entered

/-! ## The core -/

section Core

variable {core core' : Core} {action : CoreAction}

theorem onlyAdmitted_step (h : core.step action = some core') (hne : action ≠ .sendReply c true)
    (honly : OnlyAdmitted core c) : OnlyAdmitted core' c := by
  constructor
  · rw [step_log h]
    exact List.mem_append_left _ honly.1
  · intro msg hmsg
    rcases replied_step h hmsg with hmsg | ⟨he, -⟩
    · exact honly.2 msg hmsg
    · exact absurd he hne

/-- The reply to a token that was found is all that is written. -/
theorem onlyAdmitted_found {name : String} (hsilent : core.Silent) (h : core.step (.sendReply c true) = some core')
    (task : core.task c = .found name) : OnlyAdmitted core' c := by
  constructor
  · rw [step_log h]
    refine List.mem_append_right _ ?_
    simp [effects, task, pendingReply]
  · intro msg hmsg
    rcases replied_step h hmsg with hmsg | ⟨-, name', hpending⟩
    · exact absurd hmsg (hsilent c msg (by rw [task]; trivial))
    · rw [task] at hpending
      cases hpending; rfl

/-- A connection of `node start` goes on at the core. -/
theorem Started.step (hJ : Started core c) (hsilent : core.Silent) (h : core.step action = some core')
    (hcarries : ∀ code name queryOk, action ≠ .receive c (.authRequest code name) queryOk) :
    Started core' c := by
  obtain ⟨hcode, hadmitted⟩ := hJ
  have hfound : ∀ name, action = .sendReply c true → core.task c = .found name → OnlyAdmitted core' c := by
    rintro name rfl task
    exact onlyAdmitted_found hsilent h task
  have hkeep : action ≠ .sendReply c true → OnlyAdmitted core c → OnlyAdmitted core' c :=
    onlyAdmitted_step h
  have hturn := step_turn h c
  constructor
  · generalize core.task c = t at hcode hturn
    generalize core'.task c = t' at hturn
    rcases hturn with ⟨-, rfl⟩ | hturn
    · exact hcode
    · cases hturn with
      | consume => exact absurd rfl (hcarries _ _ _)
      | storeToken => exact absurd trivial hcode
      | _ => exact id
  · generalize core.task c = t at hcode hadmitted hfound hturn
    generalize core'.task c = t' at hturn
    intro ht'
    rcases hturn with ⟨hconn, rfl⟩ | hturn
    · refine hkeep ?_ (hadmitted ht')
      rintro rfl
      exact hconn rfl
    · cases hturn with
      | @replied _ reply name pending =>
        -- a code was not presented, so the token was found
        rcases pendingReply_cases pending with ⟨n, token, rfl, -⟩ | ⟨n, rfl, -⟩ | ⟨-, hname⟩
        · exact absurd trivial hcode
        · exact hfound _ rfl rfl
        · cases hname
      | register | publishConnected | createWorkspace => exact hkeep (fun h => by cases h) (hadmitted trivial)
      | _ => cases ht'

/-- A task that was registered stays so. -/
theorem entered_step (h : core.step action = some core') (hentered : (core.task c).Entered) :
    (core'.task c).Entered := by
  have hturn := step_turn h c
  generalize core.task c = t at hentered hturn
  generalize core'.task c = t' at hturn
  rcases hturn with ⟨-, rfl⟩ | hturn
  · exact hentered
  · cases hturn with
    | replied pending =>
      rcases pendingReply_cases pending with ⟨n, token, rfl, -⟩ | ⟨n, rfl, -⟩ | ⟨rfl, -⟩ <;> cases hentered
    | accept | consume | findToken | reject | storeToken => cases hentered
    | _ => trivial

end Core

theorem Inv.core (hJ : s.Inv) {action : CoreAction} {core : Core} (hcarries : s.Carries action)
    (h : s.core.step action = some core) : Inv ⟨core, s.peer⟩ where
  silent := hJ.silent.step h
  opened := by
    intro c hpeer
    have habsent := hJ.opened c hpeer
    have hturn := step_turn h c
    rw [habsent] at hturn
    rcases hturn with ⟨-, htask⟩ | hturn
    · exact htask
    · generalize core.task c = t at hturn
      cases hturn with
      | accept => exact absurd hpeer hcarries
      | replied pending | rejected pending | notSent pending => cases pending
  started := by
    intro c hstarts
    refine (hJ.started c hstarts).step hJ.silent h ?_
    rintro code name queryOk rfl
    have hsends : (s.peer c).sends = some (.authRequest code name) := hcarries
    generalize s.peer c = p at hstarts hsends
    cases p with
    | start => cases hsends
    | _ => cases hstarts
  entered := by
    intro key name c hget
    rcases entry_step h hget with hold | ⟨rfl, task, -⟩
    · exact entered_step h (hJ.entered key name c hold)
    · rcases step_turn h c with ⟨hconn, -⟩ | hturn
      · exact absurd rfl hconn
      · generalize s.core.task c = t at hturn
        generalize core.task c = t' at hturn
        cases hturn
        trivial

/-! ## A run -/

theorem Inv.step (hJ : s.Inv) (h : s.step a = some s') : s'.Inv := by
  cases step_move h with
  | core carries step => exact hJ.core carries step
  | openLink peer => exact hJ.setPeer (by simp) False.elim
  | openStart peer => exact hJ.setPeer (by simp) fun _ => .inr peer
  | hear sent hear =>
    obtain ⟨-, hne, hsame⟩ := Peer.starts_hear hear
    exact hJ.setPeer hne fun hstarts => .inl (hsame.1 hstarts)
  | quit quit =>
    obtain ⟨-, hne, hsame⟩ := Peer.starts_quit quit
    exact hJ.setPeer hne fun hstarts => .inl (hsame.1 hstarts)

/-- A peer that changes, with the entries as they are. -/
theorem starts_setPeer {p : Peer} (hp : s.peer c = .absent ∨ (p.Starts ↔ (s.peer c).Starts))
    (hP : ∀ key name c, s.core.registry.get key = some (.remoteNode name c) → (s.peer c).Starts) :
    ∀ key name c', s.core.registry.get key = some (.remoteNode name c') →
      ((s.setPeer c p).peer c').Starts := by
  intro key name c' hget
  have hold := hP key name c' hget
  rcases eq_or_ne c' c with rfl | hne
  · rcases hp with habsent | hsame
    · rw [habsent] at hold; cases hold
    · rw [setPeer_self]
      exact hsame.2 hold
  · rw [setPeer_ne p hne]
    exact hold

/-- **One step** leaves open entries that answer exactly when it registers no link. -/
theorem executable_step (hJ : s.Inv) (hP : s.Executable) (h : s.step a = some s') :
    s'.Executable ↔ s.RegistersNodes a := by
  rw [(hJ.step h).executable_iff]
  rw [hJ.executable_iff] at hP
  cases step_move h with
  | openLink peer | openStart peer => exact iff_of_true (starts_setPeer (.inl peer) hP) trivial
  | hear sent hear => exact iff_of_true (starts_setPeer (.inr (Peer.starts_hear hear).2.2) hP) trivial
  | quit quit => exact iff_of_true (starts_setPeer (.inr (Peer.starts_quit quit).2.2) hP) trivial
  | @core action core carries step =>
    constructor
    · intro hP'
      cases action with
      | register c =>
        cases step_change step with
        | quiet guard => exact guard.elim
        | @register _ n task registry =>
          refine hP' n n c ?_
          simp only [registry]
          exact get_register_self ..
      | _ => trivial
    · intro hg key name c hget
      rcases entry_step step hget with hold | ⟨rfl, -⟩
      · exact hP key name c hold
      · exact hg

theorem inv_init (workspace : String) (nodeCfg : Option (String × NodeMode)) (db : Database) (now : ℕ) :
    (init (Core.init workspace nodeCfg db now)).Inv where
  silent := fun _ _ _ hlog => by cases hlog
  opened := fun _ _ => rfl
  started := fun _ hstarts => hstarts.elim
  entered := fun _ _ _ hget => (no_remote_init workspace nodeCfg db now hget).elim

/-- **The open entries of the registry answer** throughout a run exactly if no connection of
`node link` is registered. -/
theorem entriesAnswer_iff (workspace : String) (nodeCfg : Option (String × NodeMode)) (db : Database) (now : ℕ)
    (as : List Action) :
    (∀ t, Sys.Visits step (init (Core.init workspace nodeCfg db now)) as t → t.Executable) ↔
      ∀ t a, Sys.Takes step (init (Core.init workspace nodeCfg db now)) as t a → t.RegistersNodes a :=
  Sys.visits_iff_takes (fun _ _ _ hJ _ _ h => Inv.step hJ h) (fun _ _ _ hJ hP h => executable_step hJ hP h) as
    (inv_init workspace nodeCfg db now)
    fun _ _ _ hget => (no_remote_init workspace nodeCfg db now hget).elim

/-- A node links, and saves its token while the core goes on. -/
def linkAndSave : List Action :=
  [.openLink 0 "000000" "n", .core (.storePendingCode "000000"), .core (.accept 0),
    .core (.receive 0 (.authRequest "000000" "n") true), .core (.storeToken 0 "t" true),
    .core (.sendReply 0 true), .hear 0 (.authResponse true (some "t")), .core (.register 0)]

/-- **A link is offered as a node**: its connection is open, it saves its token and answers no
request. -/
theorem link_is_offered :
    ∃ s, Sys.run step (init (Core.init "/w" none ⟨[], []⟩ 0)) linkAndSave = some s ∧
      s.peer 0 = .link "000000" "n" (.saving "t") ∧ s.Open 0 ∧
      (∀ order, OperatorAgent.resolveNode s.core.registry order (some "n") = .ok (.remoteNode "n" 0)) ∧
      ¬ s.Executable := by
  have hrun : Sys.run step (init (Core.init "/w" none ⟨[], []⟩ 0)) linkAndSave = some _ := rfl
  refine ⟨_, hrun, rfl, ⟨id, id⟩, fun _ => rfl, fun h => ?_⟩
  exact (h "n" "n" 0 rfl).2

end PeerNet

end Auxlry
