import Auxlry.Spec.Exchanges

/-!
# NAT detection and traversal

Each probe binds a socket of its own, which takes datagrams from anyone. What happens to a
socket is an input: whether it can be bound and sent from, and what arrives at it when.
-/

namespace Auxlry

/-! ## Detection -/

inductive NatType
  | openInternet
  | fullCone
  | restrictedCone
  | portRestricted
  | symmetric
  | unknown
  deriving DecidableEq, Repr

/-- Detect the NAT type by probing two STUN servers and comparing mapped addresses. The
probes are numbered: each has its own socket. -/
def detectNatType (stunDiscover : ℕ → String → Except Failure SocketAddr) :
    List String → Except Failure (NatType × SocketAddr)
  | [] => .error (.bail "no STUN servers configured")
  | server1 :: servers =>
    match withContext "first STUN probe failed" (stunDiscover 0 server1), servers with
    | .error e, _ => .error e
    -- a full detection takes two servers
    | .ok addr1, [] => .ok (.unknown, addr1)
    | .ok addr1, server2 :: _ =>
      match stunDiscover 1 server2 with
      | .error .panicked => .error .panicked
      | .error (.bail _) => .ok (.unknown, addr1)
      | .ok addr2 => .ok (if addr1 = addr2 then .fullCone else .symmetric, addr1)

/-! ## Traversal -/

inductive TraversalResult
  | direct (addr : SocketAddr)
  | holePunched (addr : SocketAddr)
  | relayed (relay : TurnRelay)
  deriving DecidableEq, Repr

/-- What `recv_from` comes back with, and when, in milliseconds since the socket was bound. -/
structure Arrival where
  time : ℕ
  event : Except String Datagram

/-- What happens to a socket: binding it, sending from it for the first, second, third time,
and what it receives, in this order. -/
structure SocketWorld where
  bind : Except String Unit
  send : ℕ → Except String Unit
  arrivals : List Arrival

/-- What `recv_from` comes back with until the deadline, if anything. -/
def SocketWorld.received (w : SocketWorld) (deadline : ℕ) : Option (Except String Datagram) :=
  (w.arrivals.find? (·.time ≤ deadline)).map (·.event)

/-- A result with the error of a system call as it is. -/
def systemCall {α : Type} : Except String α → Except Failure α
  | .ok a => .ok a
  | .error e => .error (.bail e)

/-- Try a direct UDP probe to the target. -/
def tryDirect (w : SocketWorld) (target : SocketAddr) (timeout : ℕ) : Except Failure SocketAddr := do
  systemCall w.bind
  systemCall (w.send 0)
  match w.received timeout with
  | none => throw (.bail "direct probe timeout")
  | some (.error _) => throw (.bail "direct probe failed")
  | some (.ok _) => return target

/-- Try STUN-based hole punching: three probes with pauses, and three seconds to answer. -/
def tryHolePunch (stunDiscover : String → Except Failure SocketAddr) (w : SocketWorld)
    (target : SocketAddr) (server : String) : Except Failure SocketAddr := do
  let _ ← stunDiscover server
  systemCall w.bind
  systemCall (w.send 0)
  systemCall (w.send 1)
  systemCall (w.send 2)
  match w.received (300 + 3000) with
  | none => throw (.bail "hole-punch timeout")
  | some (.error _) => throw (.bail "hole-punch failed")
  | some (.ok _) => return target

/-- The fields of the configuration that are used here. -/
structure CoreConfig where
  stunServers : List String
  turnServer : Option String
  turnUsername : Option String
  turnCredential : Option String

/-- What the strategies meet: the socket of the direct probe, the STUN probe and the socket
of the hole punch, and the client and the allocation at the TURN server. -/
structure TraversalWorld where
  direct : SocketWorld
  stun : String → Except Failure SocketAddr
  punch : SocketWorld
  turnClient : (server username credential : String) → Except Failure TurnClient
  allocate : TurnClient → Except Failure TurnRelay

/-- The relay, if it is configured. -/
def tryRelay (w : TraversalWorld) (target : String) (config : CoreConfig) :
    Except Failure TraversalResult :=
  match config.turnServer, config.turnUsername, config.turnCredential with
  | some server, some username, some credential => do
    let client ← w.turnClient server username credential
    let relay ← withContext "TURN allocation failed" (w.allocate client)
    return .relayed relay
  | _, _, _ => throw (.bail ("all NAT traversal strategies failed for " ++ target ++
      " — configure a TURN server for symmetric NAT environments"))

/-- Attempt to establish connectivity to a target: directly, by a STUN hole-punch, by a TURN
relay. -/
def establishConnection (display : SocketAddr → String) (w : TraversalWorld) (target : SocketAddr)
    (config : CoreConfig) : Except Failure TraversalResult :=
  match tryDirect w.direct target 3000 with
  | .ok addr => .ok (.direct addr)
  | .error .panicked => .error .panicked
  | .error (.bail _) =>
    match config.stunServers with
    | [] => tryRelay w (display target) config
    | server :: _ =>
      match tryHolePunch w.stun w.punch target server with
      | .ok addr => .ok (.holePunched addr)
      | .error .panicked => .error .panicked
      | .error (.bail _) => tryRelay w (display target) config

end Auxlry
