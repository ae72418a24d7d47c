import Auxlry.Spec.Protocol
import Auxlry.Wire.BigEndian
import Mathlib.Algebra.Order.Group.Nat

/-!
# Messages on a stream

A message is sent as the length of its encoding, in four bytes, and the encoding. What
the encoding looks like is a parameter (`Bincode`); so is the number of bytes after which
a stream breaks, when its peer stops it or the connection is lost.
-/

namespace Auxlry

open Wire

/-- The encoding of messages; it may refuse one, and decoding undoes it. -/
structure Bincode where
  encode : ProtocolMessage → Option (List UInt8)
  decode : List UInt8 → Option ProtocolMessage
  decode_encode : ∀ m data, encode m = some data → decode data = some m

/-- A part of an encoding ends too early to be decoded. -/
def Bincode.RefusesParts (codec : Bincode) : Prop :=
  ∀ m body part, codec.encode m = some body → part <+: body → part ≠ body → codec.decode part = none

/-- What can be decoded can be encoded, and in no more bytes: lengths and numbers are written in
the fewest that they can be read from. -/
def Bincode.WritesShortest (codec : Bincode) : Prop :=
  ∀ data m, codec.decode data = some m → ∃ body, codec.encode m = some body ∧ body.length ≤ data.length

/-- The sending end of a stream: what was written, and how many bytes it still takes, if not
any number. -/
structure SendStream where
  written : List UInt8
  room : Option ℕ
  deriving DecidableEq, Repr

namespace SendStream

/-- Write all of the data; a stream that breaks has taken the first of it. -/
def writeAll (s : SendStream) (data : List UInt8) : Bool × SendStream :=
  match s.room with
  | none => (true, { s with written := s.written ++ data })
  | some room =>
    if data.length ≤ room then (true, ⟨s.written ++ data, some (room - data.length)⟩)
    else (false, ⟨s.written ++ data.take room, some 0⟩)

end SendStream

/-- Send a protocol message over a QUIC stream. -/
def sendMessage (codec : Bincode) (send : SendStream) (msg : ProtocolMessage) :
    Except String Unit × SendStream :=
  match codec.encode msg with
  | none => (.error "failed to encode message", send)
  | some data =>
    -- the length is cast to 32 bits
    match send.writeAll (toBeBytes (data.length % 2 ^ 32)) with
    | (false, send) => (.error "failed to write message length", send)
    | (true, send) =>
      match send.writeAll data with
      | (false, send) => (.error "failed to write message data", send)
      | (true, send) => (.ok (), send)

/-- Read `n` bytes, and what is left to read. -/
def readExact (n : ℕ) (recv : List UInt8) : Option (List UInt8 × List UInt8) :=
  if n ≤ recv.length then some (recv.take n, recv.drop n) else none

/-- Receive a protocol message from a QUIC stream. -/
def recvMessage (codec : Bincode) (recv : List UInt8) : Except String ProtocolMessage × List UInt8 :=
  match readExact 4 recv with
  | none => (.error "failed to read message length", [])
  | some (lenBuf, recv) =>
    let len := ofBeBytes lenBuf
    if len > 64 * 1024 * 1024 then (.error ("message too large: " ++ toString len ++ " bytes"), recv)
    else
      match readExact len recv with
      | none => (.error "failed to read message data", [])
      | some (buf, recv) =>
        match codec.decode buf with
        | none => (.error "failed to decode message", recv)
        | some msg => (.ok msg, recv)

/-- Send messages one after another: those that were accepted, and the stream. -/
def sendAll (codec : Bincode) : SendStream → List ProtocolMessage → List ProtocolMessage × SendStream
  | send, [] => ([], send)
  | send, msg :: msgs =>
    match sendMessage codec send msg with
    | (.ok (), send) => ((msg :: (sendAll codec send msgs).1), (sendAll codec send msgs).2)
    | (.error _, send) => sendAll codec send msgs

/-- Receive `n` messages. -/
def recvAll (codec : Bincode) : ℕ → List UInt8 → List (Except String ProtocolMessage)
  | 0, _ => []
  | n + 1, recv => (recvMessage codec recv).1 :: recvAll codec n (recvMessage codec recv).2

end Auxlry
