import Auxlry.Spec.NodeCmd
import Auxlry.Sys.Run

/-!
# A node that keeps its connection

`node start` from where it has read its token and a core address that parses. It connects,
authenticates and serves, and waits before it connects again. What the network and the core do
is in the actions.
-/

namespace Auxlry

/-- `quinn::ConnectionError`: the peer closed the connection with a code and a reason, or
anything else. -/
inductive ConnectionError
  | applicationClosed (code : ℕ) (reason : String)
  | other (text : String)
  deriving DecidableEq, Repr

inductive LoopExit
  | gracefulClose
  | connectionError (text : String)
  deriving DecidableEq, Repr

/-- How the protocol loop ends when `accept_bi` fails. -/
def ConnectionError.loopExit : ConnectionError → LoopExit
  | .applicationClosed _ _ => .gracefulClose
  | .other text => .connectionError text

inductive StartPhase
  /-- about to create the workspace -/
  | starting
  /-- at the head of the loop -/
  | idle
  /-- has an endpoint -/
  | bound
  | handshaking
  | authenticating
  /-- in the protocol loop -/
  | serving
  /-- sleeps before the next attempt -/
  | waiting
  | returned (result : Except String Unit)

structure NodeStart where
  phase : StartPhase
  /-- in seconds -/
  backoff : ℕ

namespace NodeStart

def backoffInitial : ℕ := 1

def backoffMax : ℕ := 30

def init : NodeStart := ⟨.starting, backoffInitial⟩

inductive Action
  | createWorkspace (result : Except String Unit)
  | clientEndpoint (result : Except String Unit)
  | connect (result : Except String Unit)
  | handshake (result : Except ConnectionError Unit)
  /-- the core's answer to the token -/
  | authReply (msg : ProtocolMessage)
  /-- a stream fails before the answer is read -/
  | authLost (text : String)
  /-- a stream of the core is served, or its message cannot be read -/
  | serve
  /-- `accept_bi` fails -/
  | ended (e : ConnectionError)
  /-- the sleep is over -/
  | wake

def returnWith (s : NodeStart) (result : Except String Unit) : NodeStart :=
  { s with phase := .returned result }

/-- The result of the steps that end the command if they fail. -/
def orReturn (s : NodeStart) (phase : StartPhase) : Except String Unit → NodeStart
  | .ok () => { s with phase := phase }
  | .error e => s.returnWith (.error e)

/-- What comes of the authentication. -/
def authenticated (s : NodeStart) (result : Except AuthError Unit) : NodeStart :=
  match NodeCmd.next result with
  | .protocolLoop => ⟨.serving, backoffInitial⟩
  | .stop msg => s.returnWith (.error msg)
  | .retry => { s with phase := .waiting }

/-- One step of `start`. -/
def step (s : NodeStart) (a : Action) : Option NodeStart :=
  match s.phase, a with
  | .starting, .createWorkspace result => some (s.orReturn .idle result)
  | .idle, .clientEndpoint result => some (s.orReturn .bound result)
  | .bound, .connect (.ok ()) => some { s with phase := .handshaking }
  | .bound, .connect (.error _) => some { s with phase := .waiting }
  | .handshaking, .handshake (.ok ()) => some { s with phase := .authenticating }
  | .handshaking, .handshake (.error _) => some { s with phase := .waiting }
  | .authenticating, .authReply msg => some (s.authenticated (NodeCmd.authResult msg))
  | .authenticating, .authLost text => some (s.authenticated (.error (.network text)))
  | .serving, .serve => some s
  | .serving, .ended e =>
    match e.loopExit with
    | .gracefulClose => some (s.returnWith (.ok ()))
    | .connectionError _ => some { s with phase := .waiting }
  | .waiting, .wake => some ⟨.idle, min (s.backoff * 2) backoffMax⟩
  | _, _ => none

end NodeStart

end Auxlry
