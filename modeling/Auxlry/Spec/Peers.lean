import Auxlry.Spec.NodeCmd

/-!
# The programs at the other end

A connection to the core is opened by `node link` or by `node start`. Each sends one
message and waits for the reply. `link` saves the token that it gets and exits; `start`
enters its protocol loop, where it answers requests until the connection ends. A core
and its peers take steps in any order, and the core gets from a peer what that has sent.
-/

namespace Auxlry

namespace NodeCmd

/-- What `link` makes of the reply to its code: the token to save, or the error it fails with. -/
def linkResult : ProtocolMessage → Except String String
  | .authResponse true (some token) => .ok token
  | .authResponse false _ => .error "linking failed — invalid code"
  | _ => .error "unexpected response from core"

end NodeCmd

/-- Where `link` stands. -/
inductive LinkStage
  | waiting
  /-- has the token and saves it -/
  | saving (token : String)
  | exited
  deriving DecidableEq, Repr

/-- Where `start` stands, with one of its connections. -/
inductive StartStage
  | waiting
  /-- in `run_protocol_loop` -/
  | looping
  /-- has given the connection up -/
  | ended
  deriving DecidableEq, Repr

/-- The other end of a connection. -/
inductive Peer
  | absent
  | link (code name : String) (stage : LinkStage)
  | start (token : String) (stage : StartStage)
  deriving DecidableEq, Repr

namespace Peer

/-- The message that a peer sends. -/
def sends : Peer → Option ProtocolMessage
  | .absent => none
  | .link code name _ => some (.authRequest code name)
  | .start token _ => some (.tokenAuth token)

/-- The peer reads the reply. -/
def hear (msg : ProtocolMessage) : Peer → Option Peer
  | .link code name .waiting =>
    match NodeCmd.linkResult msg with
    | .ok token => some (.link code name (.saving token))
    | .error _ => some (.link code name .exited)
  | .start token .waiting =>
    match NodeCmd.next (NodeCmd.authResult msg) with
    | .protocolLoop => some (.start token .looping)
    | .stop _ | .retry => some (.start token .ended)
  | _ => none

/-- The peer lets go of the connection: it is done, or something has failed. -/
def quit : Peer → Option Peer
  | .absent | .link _ _ .exited | .start _ .ended => none
  | .link code name _ => some (.link code name .exited)
  | .start token _ => some (.start token .ended)

end Peer

/-- The core with the other ends of its connections. -/
structure PeerNet where
  core : Core
  peer : ℕ → Peer

namespace PeerNet

def init (core : Core) : PeerNet := ⟨core, fun _ => .absent⟩

inductive Action
  /-- `node link` connects and sends its code -/
  | openLink (conn : ℕ) (code name : String)
  /-- `node start` connects and sends its token -/
  | openStart (conn : ℕ) (token : String)
  | core (action : CoreAction)
  /-- a reply reaches the peer -/
  | hear (conn : ℕ) (msg : ProtocolMessage)
  | quit (conn : ℕ)
  deriving DecidableEq, Repr

/-- The core accepts the connections of its peers, and receives what they have sent. -/
def Carries (s : PeerNet) : CoreAction → Prop
  | .accept c => s.peer c ≠ .absent
  | .receive c msg _ => (s.peer c).sends = some msg
  | _ => True

instance (s : PeerNet) : (a : CoreAction) → Decidable (s.Carries a)
  | .accept c => inferInstanceAs (Decidable (¬ s.peer c = .absent))
  | .receive c msg _ => inferInstanceAs (Decidable ((s.peer c).sends = some msg))
  | .tick | .storePendingCode _ | .noMessage _ | .storeToken .. | .sendReply .. | .register _
  | .publishConnected _ | .createWorkspace .. | .leave _ | .unregister _ | .publishDisconnected _ => .isTrue trivial

def setPeer (s : PeerNet) (c : ℕ) (p : Peer) : PeerNet := { s with peer := Function.update s.peer c p }

/-- One step of the core or of a peer. -/
def step (s : PeerNet) : Action → Option PeerNet
  | .openLink c code name =>
    match s.peer c with
    | .absent => some (s.setPeer c (.link code name .waiting))
    | _ => none
  | .openStart c token =>
    match s.peer c with
    | .absent => some (s.setPeer c (.start token .waiting))
    | _ => none
  | .core a => if s.Carries a then (s.core.step a).map fun core => { s with core := core } else none
  | .hear c msg =>
    if .reply c msg ∈ s.core.log then ((s.peer c).hear msg).map (s.setPeer c) else none
  | .quit c => (s.peer c).quit.map (s.setPeer c)

end PeerNet

end Auxlry
