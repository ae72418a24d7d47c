import Auxlry.Proof.Connections
import Auxlry.Spec.NodeCmd
import Auxlry.Sys.Run

/-!
# The two ends agree on a token

A node whose token is unknown should learn so and stop; one that goes on should have been
accepted. The core closes the connection right after it has written the rejection, and
the close may arrive first.

* `agree_iff`: the ends agree **exactly in the runs where** no close reaches a node that
  still waits to hear that its token is unknown.
* `close_overtakes`: a rejected node that takes the close for a broken network, and goes on
  to connect again.
-/

namespace Auxlry

/-- The connection that an effect is on. -/
def Effect.conn : Effect → Option ℕ
  | .reply c _ | .close c _ _ => some c
  | .nodeConnected _ | .nodeDisconnected _ => none

namespace AuthNet

variable {s s' : AuthNet} {a : Action} {c : ℕ}

/-- The node learns that its token is unknown, and it is let in only if it was accepted. -/
structure Agree (s : AuthNet) (c : ℕ) : Prop where
  rejected : s.verdict c = some .unknownToken → ∀ r, s.node c = .done r →
    r = NodeCmd.authResult (.tokenAuthResponse false)
  admitted : s.node c = .done (.ok ()) → s.verdict c = some .accepted

/-- What the core has found out about a connection whose task stands here. -/
def Stage (v : Option Verdict) : Task → Prop
  | .absent | .accepted => v = none
  | .found _ => v = some .accepted
  | .rejecting reply =>
    reply ≠ .tokenAuthResponse true ∧ (v = some .unknownToken → reply = .tokenAuthResponse false)
  | .returned => True
  | _ => v ≠ some .unknownToken

/-- What may be sent on a connection with this verdict. -/
def MaySend (v : Option Verdict) (msg : ProtocolMessage) : Prop :=
  (msg = .tokenAuthResponse true → v = some .accepted) ∧
    (v = some .unknownToken → msg = .tokenAuthResponse false)

/-- The task of a connection has not read its first message. -/
def Unread (s : AuthNet) (c : ℕ) : Prop := s.core.task c = .absent ∨ s.core.task c = .accepted

/-- The verdict on a connection goes with its task, with what was sent, and with what has
arrived. -/
structure Wired (s : AuthNet) (c : ℕ) : Prop where
  stage : Stage (s.verdict c) (s.core.task c)
  sent : ∀ msg, .reply c msg ∈ s.core.log → MaySend (s.verdict c) msg
  silent : s.Unread c → ∀ e ∈ s.core.log, e.conn ≠ some c
  undone : s.Unread c → ∀ r, s.node c ≠ .done r

/-! ## The core -/

section Core

variable {core : Core} {verdict : ℕ → Option Verdict} {t : Task} {es : List Effect}

/-- A step of the task of `c`, with its effects and what it finds out. -/
theorem wired_task (hJ : ∀ c, s.Wired c) (htask : core.task = Function.update s.core.task c t)
    (hlog : core.log = s.core.log ++ es) (hconn : ∀ e ∈ es, ∀ c', e.conn = some c' → c' = c)
    (hverdict : ∀ c', c' ≠ c → verdict c' = s.verdict c') (hstage : Stage (verdict c) t)
    (hread : t = .absent ∨ t = .accepted → s.Unread c ∧ es = [])
    (hsent : ∀ msg, .reply c msg ∈ s.core.log ++ es → MaySend (verdict c) msg) (c' : ℕ) :
    Wired ⟨core, s.node, verdict⟩ c' := by
  by_cases hc : c' = c
  · subst hc
    have hself : core.task c' = t := by rw [htask, Function.update_self]
    have hunread : Unread ⟨core, s.node, verdict⟩ c' → s.Unread c' ∧ es = [] := by
      rw [Unread, hself]
      exact hread
    refine ⟨hself.symm ▸ hstage, fun msg hmsg => hsent msg (hlog ▸ hmsg), fun h e he => ?_, fun h => ?_⟩
    · obtain ⟨hold, rfl⟩ := hunread h
      exact (hJ c').silent hold e (by simpa [hlog] using he)
    · exact (hJ c').undone (hunread h).1
  · have hother : core.task c' = s.core.task c' := by rw [htask, Function.update_of_ne hc]
    have hold : ∀ e ∈ core.log, e.conn = some c' → e ∈ s.core.log := by
      intro e he hec
      rcases List.mem_append.1 (hlog ▸ he) with he | he
      · exact he
      · exact absurd (hconn e he c' hec) hc
    have hunread : Unread ⟨core, s.node, verdict⟩ c' → s.Unread c' := by
      rw [Unread, hother]
      exact id
    refine ⟨?_, fun msg hmsg => ?_, fun h e he hec => ?_, fun h => ?_⟩
    · show Stage (verdict c') (core.task c')
      rw [hother, hverdict c' hc]
      exact (hJ c').stage
    · show MaySend (verdict c') msg
      rw [hverdict c' hc]
      exact (hJ c').sent msg (hold _ hmsg rfl)
    · exact (hJ c').silent (hunread h) e (hold e he hec) hec
    · exact (hJ c').undone (hunread h)

/-- A first message: the verdict on the connection is new, and nothing was sent on it. -/
theorem wired_receive (hJ : ∀ c, s.Wired c) (task : s.core.task c = .accepted)
    (htask : core.task = Function.update s.core.task c t) (hlog : core.log = s.core.log)
    (hverdict : ∀ c', c' ≠ c → verdict c' = s.verdict c') (hstage : Stage (verdict c) t)
    (hread : t ≠ .absent ∧ t ≠ .accepted) : ∀ c', Wired ⟨core, s.node, verdict⟩ c' := by
  have hlog' : core.log = s.core.log ++ [] := by rw [hlog, List.append_nil]
  refine wired_task hJ htask hlog' (by simp) hverdict hstage
    (fun h => (h.elim hread.1 hread.2).elim) fun msg hmsg => ?_
  rw [List.append_nil] at hmsg
  exact absurd rfl ((hJ c).silent (.inr task) _ hmsg)

/-- A step that finds nothing out, and sends at most what it may. -/
theorem wired_quiet (hJ : ∀ c, s.Wired c) (htask : core.task = Function.update s.core.task c t)
    (hlog : core.log = s.core.log ++ es) (hconn : ∀ e ∈ es, ∀ c', e.conn = some c' → c' = c)
    (hstage : Stage (s.verdict c) t) (hread : t ≠ .absent ∧ t ≠ .accepted)
    (hsent : ∀ msg, .reply c msg ∈ es → MaySend (s.verdict c) msg) :
    ∀ c', Wired ⟨core, s.node, s.verdict⟩ c' := by
  refine wired_task hJ htask hlog hconn (fun c' _ => rfl) hstage
    (fun h => (h.elim hread.1 hread.2).elim) fun msg hmsg => ?_
  rcases List.mem_append.1 hmsg with hmsg | hmsg
  · exact (hJ c).sent msg hmsg
  · exact hsent msg hmsg

/-- A reply that `authenticate` is about to send may be sent. -/
theorem maySend_pending {v : Option Verdict} {task : Task} {reply : ProtocolMessage} {name : Option String}
    (hstage : Stage v task) (pending : Core.pendingReply task = some (reply, name)) : MaySend v reply := by
  rcases Core.pendingReply_cases pending with ⟨n, token, rfl, rfl, -⟩ | ⟨n, rfl, rfl, -⟩ | ⟨rfl, -⟩
  · exact ⟨by simp, fun h => absurd h hstage⟩
  · have hv : v = some .accepted := hstage
    exact ⟨fun _ => hv, fun h => by rw [hv] at h; cases h⟩
  · exact ⟨fun h => absurd h hstage.1, hstage.2⟩

/-- A name that `authenticate` returns was not found for an unknown token. -/
theorem known_pending {v : Option Verdict} {task : Task} {reply : ProtocolMessage} {name : String}
    (hstage : Stage v task) (pending : Core.pendingReply task = some (reply, some name)) :
    v ≠ some .unknownToken := by
  rcases Core.pendingReply_cases pending with ⟨n, token, rfl, -⟩ | ⟨n, rfl, -⟩ | ⟨-, hname⟩
  · exact hstage
  · have hv : v = some .accepted := hstage
    simp [hv]
  · cases hname

theorem wired_core {action : CoreAction} (hJ : ∀ c, s.Wired c) (move : Core.Move s.core action core) :
    ∀ c', Wired ⟨core, s.node, s.verdictAfter action⟩ c' := by
  have hstage : ∀ {c : ℕ} {task : Task}, s.core.task c = task → Stage (s.verdict c) task :=
    fun htask => htask ▸ (hJ _).stage
  cases move with
  | tick | storePendingCode =>
    exact fun c' => ⟨(hJ c').stage, (hJ c').sent, (hJ c').silent, (hJ c').undone⟩
  | @accept c task =>
    refine wired_task hJ rfl (List.append_nil _).symm (by simp) (fun _ _ => rfl) (hstage task :)
      (fun _ => ⟨.inl task, rfl⟩) fun msg hmsg => ?_
    exact (hJ c).sent msg (by simpa using hmsg)
  | @consume c code name task pending =>
    refine wired_receive hJ task rfl rfl (fun _ _ => rfl) ?_ (by simp)
    have hnone : s.verdict c = none := hstage task
    show s.verdict c ≠ some .unknownToken
    rw [hnone]
    simp
  | @findToken c token name task found =>
    refine wired_receive hJ task rfl rfl (fun c' hc => Function.update_of_ne hc ..) ?_ (by simp)
    show s.verdictAfter (.receive c (.tokenAuth token) true) c = some .accepted
    simp [verdictAfter, found]
  | @reject c msg queryOk task refused =>
    have hnone : s.verdict c = none := hstage task
    refine wired_receive hJ task rfl rfl ?_ ?_ (by simp)
    · intro c' hc
      cases msg <;> first | rfl | exact Function.update_of_ne hc ..
    · -- only a token that was looked up is unknown
      cases msg <;> simp [Stage, Core.refusal, verdictAfter, hnone]
  | @replied c reply name pending =>
    have hmay := maySend_pending (hJ c).stage pending
    exact wired_quiet hJ rfl rfl (by simp [Effect.conn]) (known_pending (hJ c).stage pending) (by simp)
      (by simpa using hmay)
  | @rejected c reply pending =>
    have hmay := maySend_pending (hJ c).stage pending
    exact wired_quiet hJ rfl (List.append_assoc ..) (by simp [Effect.conn]) trivial (by simp)
      (by simpa using hmay)
  | noMessage | tokenLost | notSent | noWorkspace | publishDisconnected =>
    exact wired_quiet hJ rfl rfl (by simp [Effect.conn]) trivial (by simp) (by simp)
  | publishConnected task =>
    exact wired_quiet hJ rfl rfl (by simp [Effect.conn]) (hstage task :) (by simp) (by simp)
  | storeToken task | register task | createWorkspace task | leave task | unregister task =>
    exact wired_quiet hJ rfl (List.append_nil _).symm (by simp) (hstage task :) (by simp) (by simp)

end Core

/-! ## Runs -/

/-- The close does not overtake the news that a token is unknown. -/
def InTime (s : AuthNet) (a : Action) : Prop := ∀ c, a = .close c → s.verdict c ≠ some .unknownToken

/-- An effect on a connection whose task has read its first message. -/
theorem read_of_effect {e : Effect} (hJ : s.Wired c) (he : e ∈ s.core.log) (hc : e.conn = some c) :
    ¬ s.Unread c := fun h => hJ.silent h e he hc

/-- A step finds something out only about a token that it reads. -/
theorem verdictAfter_read {action : CoreAction} {core : Core} (move : Core.Move s.core action core)
    (hread : ¬ s.Unread c) : s.verdictAfter action c = s.verdict c := by
  cases move with
  | @findToken c' token name task | @reject c' msg queryOk task =>
    have hc : c ≠ c' := by
      rintro rfl
      exact hread (.inr task)
    first
      | exact Function.update_of_ne hc ..
      | cases msg <;> first | rfl | exact Function.update_of_ne hc ..
  | _ => rfl

/-- What a node hears of a connection whose first message was read changes nothing else. -/
theorem wired_hear (hJ : ∀ c, s.Wired c) {r : Except AuthError Unit} (hread : ¬ s.Unread c) (c' : ℕ) :
    Wired { s with node := Function.update s.node c (.done r) } c' := by
  refine ⟨(hJ c').stage, (hJ c').sent, (hJ c').silent, fun h => ?_⟩
  rcases eq_or_ne c' c with rfl | hc
  · exact absurd h hread
  · simpa only [Function.update_of_ne hc] using (hJ c').undone h

/-- The steps of the net. -/
inductive Move (s : AuthNet) : Action → AuthNet → Prop
  | open {c : ℕ} {token : String} (task : s.core.task c = .absent) (node : s.node c = .absent) :
      Move s (.open c token) { s with node := Function.update s.node c (.waiting token) }
  | core {action : CoreAction} {core : Core} (carries : s.Carries action) (move : s.core.Move action core) :
      Move s (.core action) ⟨core, s.node, s.verdictAfter action⟩
  | reply {c : ℕ} {token : String} {msg : ProtocolMessage} (node : s.node c = .waiting token)
      (sent : .reply c msg ∈ s.core.log) :
      Move s (.reply c msg) { s with node := Function.update s.node c (.done (NodeCmd.authResult msg)) }
  | close {c code : ℕ} {token reason : String} (node : s.node c = .waiting token)
      (closed : .close c code reason ∈ s.core.log) :
      Move s (.close c) { s with node := Function.update s.node c (.done NodeCmd.lost) }

theorem closed_iff : s.closed c = true ↔ ∃ code reason, .close c code reason ∈ s.core.log := by
  constructor
  · intro h
    obtain ⟨e, he, hec⟩ := List.any_eq_true.1 h
    cases e with
    | close c' code reason =>
      obtain rfl : c' = c := by simpa using hec
      exact ⟨code, reason, he⟩
    | _ => cases hec
  · rintro ⟨code, reason, h⟩
    exact List.any_eq_true.2 ⟨_, h, by simp⟩

/-- **The steps of the net.** -/
theorem step_move (h : s.step a = some s') : s.Move a s' := by
  cases a with
  | «open» c token =>
    simp only [step] at h
    split at h <;> cases h
    rename_i htask hnode
    exact .open htask hnode
  | core action =>
    obtain ⟨hcarries, h⟩ := Option.ite_none_right_eq_some.1 h
    obtain ⟨core, hcore, rfl⟩ := Option.map_eq_some_iff.1 h
    exact .core hcarries (Core.step_move hcore)
  | reply c msg =>
    simp only [step] at h
    split at h
    · rename_i hnode
      split at h <;> cases h
      rename_i hsent
      exact .reply hnode hsent
    · cases h
  | close c =>
    simp only [step] at h
    split at h
    · rename_i hnode
      split at h <;> cases h
      rename_i hclosed
      obtain ⟨code, reason, hmem⟩ := closed_iff.1 hclosed
      exact .close hnode hmem
    · cases h

theorem step_wired (hJ : ∀ c, s.Wired c) (h : s.step a = some s') : ∀ c, s'.Wired c := by
  cases step_move h with
  | @«open» c token task =>
    intro c'
    refine ⟨(hJ c').stage, (hJ c').sent, (hJ c').silent, fun h => ?_⟩
    rcases eq_or_ne c' c with rfl | hc
    · simp
    · simpa only [Function.update_of_ne hc] using (hJ c').undone h
  | core carries move => exact wired_core hJ move
  | reply node sent => exact wired_hear hJ (read_of_effect (hJ _) sent rfl)
  | close node closed => exact wired_hear hJ (read_of_effect (hJ _) closed rfl)

theorem wired_init (core : Core) (htask : ∀ c, core.task c = .absent) (hlog : core.log = []) (c : ℕ) :
    (init core).Wired c where
  stage := by simp [init, htask, Stage]
  sent := by simp [init, hlog]
  silent := by simp [init, hlog]
  undone := by simp [init]

/-- What a node hears concerns its own connection. -/
theorem agree_hear {r : Except AuthError Unit} (hP : ∀ c, s.Agree c) :
    (∀ c', Agree { s with node := Function.update s.node c (.done r) } c') ↔
      (s.verdict c = some .unknownToken → r = NodeCmd.authResult (.tokenAuthResponse false)) ∧
      (r = .ok () → s.verdict c = some .accepted) := by
  constructor
  · intro h
    have hself := Function.update_self c (.done r) s.node
    exact ⟨fun hv => (h c).rejected hv r hself, fun hr => (h c).admitted (hr ▸ hself)⟩
  · rintro ⟨hrejected, hadmitted⟩ c'
    rcases eq_or_ne c' c with rfl | hc
    · refine ⟨fun hv r' hr' => ?_, fun hr' => ?_⟩
      · obtain rfl : r = r' := by simpa using hr'
        exact hrejected hv
      · exact hadmitted (by simpa using hr')
    · refine ⟨fun hv r' hr' => (hP c').rejected hv r' ?_, fun hr' => (hP c').admitted ?_⟩
      · simpa only [Function.update_of_ne hc] using hr'
      · simpa only [Function.update_of_ne hc] using hr'

/-- **One step** from where the ends agree: they go on to agree exactly when no close
overtakes the news. -/
theorem step_agree (hJ : ∀ c, s.Wired c) (hP : ∀ c, s.Agree c) (h : s.step a = some s') :
    (∀ c, s'.Agree c) ↔ s.InTime a := by
  cases step_move h with
  | @«open» c token =>
    refine iff_of_true (fun c' => ?_) (by simp [InTime])
    rcases eq_or_ne c' c with rfl | hc
    · exact ⟨by simp, by simp⟩
    · refine ⟨fun hv r hr => (hP c').rejected hv r ?_, fun hr => (hP c').admitted ?_⟩
      · simpa only [Function.update_of_ne hc] using hr
      · simpa only [Function.update_of_ne hc] using hr
  | @core action core carries move =>
    refine iff_of_true (fun c' => ?_) (by simp [InTime])
    -- a node that is done waited on a task that has read its token
    have hverdict : ∀ r, s.node c' = .done r → s.verdictAfter action c' = s.verdict c' :=
      fun r hr => verdictAfter_read move fun hunread => (hJ c').undone hunread r hr
    refine ⟨fun hv r hr => ?_, fun hr => ?_⟩
    · exact (hP c').rejected (hverdict r hr ▸ hv) r hr
    · exact (hverdict _ hr).trans ((hP c').admitted hr)
  | @reply c token msg node sent =>
    refine iff_of_true ((agree_hear hP).2 ⟨fun hv => ?_, fun hr => ?_⟩) (by simp [InTime])
    · rw [((hJ c).sent msg sent).2 hv]
    · refine ((hJ c).sent msg sent).1 ?_
      unfold NodeCmd.authResult at hr
      split at hr <;> first | rfl | cases hr
  | @close c =>
    rw [agree_hear hP]
    simp [InTime, NodeCmd.lost, NodeCmd.authResult]

/-- **Exactly when the two ends agree on every token.** -/
theorem agree_iff (workspace : String) (nodeCfg : Option (String × NodeMode)) (db : Database) (now : ℕ)
    (acts : List Action) :
    (∀ t, Sys.Visits step (init (Core.init workspace nodeCfg db now)) acts t → ∀ c, t.Agree c) ↔
      ∀ t a, Sys.Takes step (init (Core.init workspace nodeCfg db now)) acts t a → t.InTime a := by
  refine Sys.visits_iff_takes (J := fun s => ∀ c, s.Wired c) (fun t a t' hJ _ _ h => step_wired hJ h)
    (fun t a t' hJ hP h => step_agree hJ hP h) acts (wired_init _ (fun _ => rfl) rfl) fun c => ?_
  exact ⟨by simp [init], by simp [init]⟩

/-- **A close that overtakes the rejection**: no token is stored, the core has written the
rejection and closed the connection, and the node takes the close for a broken network. -/
theorem close_overtakes : ∃ t,
    Sys.run step (init (Core.init "/ws" none ⟨[], []⟩ 0))
      [.open 0 "t", .core (.accept 0), .core (.receive 0 (.tokenAuth "t") true),
        .core (.sendReply 0 true), .close 0] = some t ∧
      .reply 0 (.tokenAuthResponse false) ∈ t.core.log ∧ t.verdict 0 = some .unknownToken ∧
      t.node 0 = .done NodeCmd.lost ∧ NodeCmd.next NodeCmd.lost = .retry ∧ ¬ t.Agree 0 := by
  refine ⟨_, rfl, ?_, rfl, rfl, rfl, fun h => ?_⟩
  · decide
  · have hlost : NodeCmd.lost = NodeCmd.authResult (.tokenAuthResponse false) := h.rejected rfl _ rfl
    cases hlost

end AuthNet

end Auxlry
