import Auxlry.Spec.Handler

/-!
# A node authenticates with its token

The node end of a connection next to the core: the node sends its token and waits for the
reply. A reply that the core has written and a close that it has asked for are under way
to the node until it sees one of them: a close that arrives first takes the place of a
reply still under way, and of one that was discarded with what the core had not yet
transmitted. What the core found out about a token is kept in `verdict`; nothing reads it.
-/

namespace Auxlry

inductive AuthError
  | invalidToken (msg : String)
  | network (msg : String)
  deriving DecidableEq, Repr

namespace NodeCmd

/-- What the node makes of the reply to its token. -/
def authResult : ProtocolMessage → Except AuthError Unit
  | .tokenAuthResponse true => .ok ()
  | .tokenAuthResponse false =>
    .error (.invalidToken "authentication failed — token may be invalid, try re-linking")
  | _ => .error (.network "unexpected auth response")

/-- What the node makes of a close in place of the reply. -/
def lost : Except AuthError Unit := .error (.network "failed to read message length")

/-- What `start` does next. -/
inductive Next
  | protocolLoop
  | stop (msg : String)
  /-- wait, and connect again -/
  | retry
  deriving DecidableEq, Repr

def next : Except AuthError Unit → Next
  | .ok () => .protocolLoop
  | .error (.invalidToken msg) => .stop msg
  | .error (.network _) => .retry

end NodeCmd

/-- The node end of a connection. -/
inductive NodeEnd
  | absent
  /-- has sent its token -/
  | waiting (token : String)
  /-- `authenticate` has returned -/
  | done (result : Except AuthError Unit)

/-- What the core found out about the token of a connection. -/
inductive Verdict
  | accepted
  | unknownToken
  | queryFailed
  deriving DecidableEq, Repr

structure AuthNet where
  core : Core
  node : ℕ → NodeEnd
  verdict : ℕ → Option Verdict

namespace AuthNet

def init (core : Core) : AuthNet := ⟨core, fun _ => .absent, fun _ => none⟩

inductive Action
  /-- a node opens a connection and sends its token -/
  | open (conn : ℕ) (token : String)
  | core (action : CoreAction)
  /-- a reply reaches the node -/
  | reply (conn : ℕ) (msg : ProtocolMessage)
  /-- the close of the connection reaches the node -/
  | close (conn : ℕ)
  deriving DecidableEq, Repr

/-- The core receives what the node has sent; on other connections, anything. -/
def Carries (s : AuthNet) : CoreAction → Prop
  | .receive c msg _ =>
    match s.node c with
    | .waiting token => msg = .tokenAuth token
    | _ => True
  | _ => True

instance (s : AuthNet) (a : CoreAction) : Decidable (s.Carries a) := by
  unfold Carries
  split
  · split <;> infer_instance
  · infer_instance

/-- What the core finds out in a step. -/
def verdictAfter (s : AuthNet) : CoreAction → ℕ → Option Verdict
  | .receive c (.tokenAuth token) queryOk =>
    Function.update s.verdict c <| some <|
      if queryOk then if (s.core.db.findNodeByToken token).isSome then .accepted else .unknownToken
      else .queryFailed
  | _ => s.verdict

/-- The core has closed the connection. -/
def closed (s : AuthNet) (c : ℕ) : Bool :=
  s.core.log.any fun | .close c' _ _ => c' = c | _ => false

/-- One step of the core, of a node, or of the network between them. -/
def step (s : AuthNet) : Action → Option AuthNet
  | .open c token =>
    match s.core.task c, s.node c with
    | .absent, .absent => some { s with node := Function.update s.node c (.waiting token) }
    | _, _ => none
  | .core a =>
    if s.Carries a then
      (s.core.step a).map fun core => { s with core := core, verdict := s.verdictAfter a }
    else none
  | .reply c msg =>
    match s.node c with
    | .waiting _ =>
      if .reply c msg ∈ s.core.log then
        some { s with node := Function.update s.node c (.done (NodeCmd.authResult msg)) }
      else none
    | _ => none
  | .close c =>
    match s.node c with
    | .waiting _ =>
      if s.closed c then some { s with node := Function.update s.node c (.done NodeCmd.lost) }
      else none
    | _ => none

end AuthNet

end Auxlry
