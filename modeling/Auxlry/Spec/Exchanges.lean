import Auxlry.Spec.Turn
import Auxlry.Sys.Run

/-!
# Exchanges over UDP

Both clients bind a socket that is not connected, send a request with a transaction id that
they draw, and take what they receive. The socket queues what arrives, whoever sent it. The
network is in the actions: it may deliver any datagram at any time, again or never.

`sent`, `taken`, `authTxId` and `authReply` are bookkeeping: what a client sent, and what
it took as the answer.
-/

namespace Auxlry

open Wire

structure Datagram where
  sender : SocketAddr
  data : List UInt8
  deriving DecidableEq, Repr

/-- `recv_from` into a buffer of this size: what does not fit is lost. -/
def recvFrom (size : ℕ) (d : Datagram) : List UInt8 := d.data.take size

/-- A result with the text of its error replaced by a context. -/
def withContext {α : Type} (text : String) : Except Failure α → Except Failure α
  | .error (.bail _) => .error (.bail text)
  | result => result

/-! ## A Binding request -/

/-- The STUN binding request. -/
def bindingRequest (txId : Vector UInt8 12) : List UInt8 :=
  [0x00, 0x01, 0x00, 0x00, 0x21, 0x12, 0xA4, 0x42] ++ txId.toList

/-- What comes of a response. -/
def stunAnswer (response : List UInt8) : Except Failure SocketAddr :=
  withContext "failed to parse STUN response" (parseXorMappedAddress response)

inductive StunPhase
  | starting
  | waiting
  | returned (result : Except Failure SocketAddr)

/-- `stun_discover` on its way. -/
structure StunDiscover where
  phase : StunPhase
  socket : List Datagram
  sent : Option (List UInt8)
  taken : Option (List UInt8)

namespace StunDiscover

def init : StunDiscover := ⟨.starting, [], none, none⟩

inductive Action
  /-- the socket, the lookup or sending fails, or nothing is received in time -/
  | fail (message : String)
  | send (txId : Vector UInt8 12)
  | arrive (d : Datagram)
  | receive

def step (s : StunDiscover) : Action → Option StunDiscover
  | .fail message =>
    match s.phase with
    | .returned _ => none
    | _ => some { s with phase := .returned (.error (.bail message)) }
  | .send txId =>
    match s.phase with
    | .starting => some { s with phase := .waiting, sent := some (bindingRequest txId) }
    | _ => none
  | .arrive d => some { s with socket := s.socket ++ [d] }
  | .receive =>
    match s.phase, s.socket with
    | .waiting, d :: rest =>
      let response := recvFrom 512 d
      some { s with
        phase := .returned (stunAnswer response)
        socket := rest
        taken := some response }
    | _, _ => none

end StunDiscover

/-! ## An allocation -/

inductive AllocatePhase
  | starting
  /-- the first request is out -/
  | waiting
  | challenged (realm nonce : String)
  /-- the request with the credentials is out -/
  | waitingAuth
  | returned (result : Except Failure TurnRelay)

/-- `TurnClient::allocate` on its way. -/
structure Allocate where
  phase : AllocatePhase
  socket : List Datagram
  sent : List (List UInt8)
  authTxId : Option (Vector UInt8 12)
  authReply : Option (List UInt8)

namespace Allocate

def init : Allocate := ⟨.starting, [], [], none, none⟩

inductive Action
  /-- sending fails, or nothing is received in time -/
  | fail (message : String)
  | send (txId : Vector UInt8 12)
  | arrive (d : Datagram)
  | receive

/-- What comes of the response to the first request. -/
def first (client : TurnClient) (response : List UInt8) : AllocatePhase :=
  if TurnClient.getMessageType response = allocateError then
    match TurnClient.extractAuthChallenge response with
    | .error e => .returned (.error e)
    | .ok (realm, nonce) => .challenged realm nonce
  else if TurnClient.getMessageType response = allocateResponse then
    .returned (client.parseAllocateResponse response)
  else .returned (.error (.bail "unexpected TURN response type"))

/-- What comes of the response to the second. -/
def second (client : TurnClient) (response : List UInt8) : Except Failure TurnRelay :=
  if TurnClient.getMessageType response ≠ allocateResponse then
    .error (.bail "TURN allocation failed after authentication")
  else client.parseAllocateResponse response

def step (digests : Digests) (client : TurnClient) (s : Allocate) : Action → Option Allocate
  | .fail message =>
    match s.phase with
    | .returned _ => none
    | _ => some { s with phase := .returned (.error (.bail message)) }
  | .send txId =>
    match s.phase with
    | .starting =>
      some { s with
        phase := .waiting
        sent := s.sent ++ [client.buildAllocateRequest digests txId none] }
    | .challenged realm nonce =>
      some { s with
        phase := .waitingAuth
        sent := s.sent ++ [client.buildAllocateRequest digests txId (some (realm, nonce))]
        authTxId := some txId }
    | _ => none
  | .arrive d => some { s with socket := s.socket ++ [d] }
  | .receive =>
    match s.phase, s.socket with
    | .waiting, d :: rest => some { s with phase := first client (recvFrom 1024 d), socket := rest }
    | .waitingAuth, d :: rest =>
      let response := recvFrom 1024 d
      some { s with
        phase := .returned (second client response)
        socket := rest
        authReply := some response }
    | _, _ => none

end Allocate

end Auxlry
