import Auxlry.Spec.Remote
import Auxlry.Spec.Transport

/-!
# Requests in bytes

`RemoteNode.request` opens a stream: it writes its message, finishes its end of the stream and
waits for the response. The peer accepts the streams in the order they were opened, and has
one at a time: it reads the message, lets its local node answer and writes the response. What
is written arrives in pieces, at any time later; a stream or the connection may break at any
time. A request on a connection that is closed fails at once, and is left out.
-/

namespace Auxlry

/-- One direction of a stream: what was written, and how many of its bytes have arrived. -/
structure Pipe where
  written : List UInt8
  arrived : ℕ
  /-- nothing more is written -/
  finished : Bool
  /-- nothing more arrives -/
  cut : Bool
  deriving DecidableEq, Repr

namespace Pipe

def empty : Pipe := ⟨[], 0, false, false⟩

/-- Write the last bytes. -/
def finish (p : Pipe) (data : List UInt8) : Pipe := { p with written := p.written ++ data, finished := true }

def seen (p : Pipe) : List UInt8 := p.written.take p.arrived

/-- The reader learns that nothing more comes. -/
def ended (p : Pipe) : Bool := p.cut || (p.finished && p.written.length ≤ p.arrived)

def arrive (p : Pipe) (n : ℕ) : Pipe :=
  if p.cut then p else { p with arrived := min (p.arrived + n) p.written.length }

/-- The stream breaks, and the reader may lose some of what has arrived. -/
def breakAt (p : Pipe) (n : ℕ) : Pipe := { p with arrived := min p.arrived n, cut := true }

/-- A message can be read without waiting: it has arrived, or its length is refused. -/
def enough (recv : List UInt8) : Bool :=
  match readExact 4 recv with
  | none => false
  | some (lenBuf, recv) => 64 * 1024 * 1024 < Wire.ofBeBytes lenBuf || Wire.ofBeBytes lenBuf ≤ recv.length

/-- Read a message, or wait. -/
def recv (codec : Bincode) (p : Pipe) : Option (Except String ProtocolMessage) :=
  if p.ended || enough p.seen then some (recvMessage codec p.seen).1 else none

end Pipe

/-- A request of the calling side, on a stream of its own. -/
structure Proxied where
  call : NodeCall
  request : Pipe
  response : Pipe
  result : Option (Except String call.Result)

namespace Proxied

/-- Open a stream, which breaks for the sender after `room` bytes, and send the message. -/
def start (codec : Bincode) (call : NodeCall) (room : Option ℕ) : Proxied :=
  let sent := sendMessage codec ⟨[], room⟩ (RemoteNode.request call).message
  { call := call
    request := Pipe.empty.finish sent.2.written
    response := .empty
    result := match sent.1 with
      | .ok () => none
      | .error e => some (.error e) }

/-- What the request returns for what was received. -/
def receive (c : Proxied) (received : Except String ProtocolMessage) : Proxied :=
  { c with result := some (received.bind (RemoteNode.request c.call).response) }

/-- The peer has no more to write. -/
def respond (c : Proxied) (data : List UInt8) : Proxied := { c with response := c.response.finish data }

def breakOff (c : Proxied) : Proxied :=
  { c with
    request := { c.request with cut := true }
    response := { c.response with cut := true } }

end Proxied

/-- The operation that a message asks for. -/
def ProtocolMessage.asked : ProtocolMessage → Option NodeCall
  | .runCommand command cwd => some (.runCommand command cwd)
  | .readFile path => some (.readFile path)
  | .writeFile path content => some (.writeFile path content)
  | .listDir path => some (.listDir path)
  | .searchFiles pattern root => some (.searchFiles pattern root)
  | _ => none

/-- An operation that the local node of the peer was asked for, and what it returned. -/
structure Executed where
  stream : ℕ
  call : NodeCall
  returned : Except String call.Result

/-- Where the loop of the peer is, and at which stream. -/
inductive ServePhase
  | accepting
  | reading (stream : ℕ)
  | handling (stream : ℕ) (msg : ProtocolMessage)
  | responding (stream : ℕ) (response : ProtocolMessage)
  | exited
  deriving DecidableEq, Repr

/-- A connection, with the requests of one side in the order of their streams. -/
structure Proxy where
  requests : List Proxied
  accepted : ℕ
  phase : ServePhase
  closed : Bool
  /-- bookkeeping: nothing reads it -/
  executed : List Executed

namespace Proxy

def init : Proxy := ⟨[], 0, .accepting, false, []⟩

inductive Action
  | request (call : NodeCall) (room : Option ℕ)
  | arriveRequest (stream n : ℕ)
  | arriveResponse (stream n : ℕ)
  | breakRequest (stream n : ℕ)
  | breakResponse (stream n : ℕ)
  /-- the connection is closed or lost -/
  | close
  | accept
  | recv
  | handle (node : Executor)
  | respond (room : Option ℕ)
  | exit
  | receive (stream : ℕ)

def modify (s : Proxy) (stream : ℕ) (f : Proxied → Proxied) : Proxy :=
  { s with requests := s.requests.modify stream f }

/-- One step of the calling side, of the network or of a peer that dispatches as `d`. -/
def step (codec : Bincode) (debug : ProtocolMessage → String) (d : Dispatcher) (s : Proxy) :
    Action → Option Proxy
  | .request call room =>
    if s.closed then none else some { s with requests := s.requests ++ [.start codec call room] }
  | .arriveRequest i n => some (s.modify i fun c => { c with request := c.request.arrive n })
  | .arriveResponse i n => some (s.modify i fun c => { c with response := c.response.arrive n })
  | .breakRequest i n => some (s.modify i fun c => { c with request := c.request.breakAt n })
  | .breakResponse i n => some (s.modify i fun c => { c with response := c.response.breakAt n })
  | .close => some { s with closed := true, requests := s.requests.map .breakOff }
  | .accept =>
    match s.phase with
    | .accepting =>
      if s.accepted < s.requests.length then
        some { s with phase := .reading s.accepted, accepted := s.accepted + 1 }
      else none
    | _ => none
  | .recv =>
    match s.phase with
    | .reading i =>
      (s.requests[i]?.bind fun c => c.request.recv codec).map fun
        | .ok msg => { s with phase := .handling i msg }
        -- the stream is dropped, and so finished
        | .error _ => { s.modify i (·.respond []) with phase := .accepting }
    | _ => none
  | .handle node =>
    match s.phase with
    | .handling i msg =>
      some { s with
        phase := .responding i (d.dispatch debug node msg)
        executed := s.executed ++ msg.asked.toList.map fun call => ⟨i, call, node call⟩ }
    | _ => none
  | .respond room =>
    match s.phase with
    | .responding i response =>
      -- a response that could not be sent is logged, and the stream finished
      some { s.modify i (·.respond (sendMessage codec ⟨[], room⟩ response).2.written) with phase := .accepting }
    | _ => none
  | .exit =>
    match s.phase with
    | .accepting => if s.closed then some { s with phase := .exited } else none
    | _ => none
  | .receive i =>
    s.requests[i]?.bind fun c =>
      match c.result with
      | some _ => none
      | none => (c.response.recv codec).map fun received => s.modify i (·.receive received)

end Proxy

end Auxlry
