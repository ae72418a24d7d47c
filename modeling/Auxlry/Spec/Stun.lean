import Auxlry.Wire.Attributes
import Mathlib.Data.UInt

/-!
# STUN and TURN messages

A message that came from the network is read at fixed places, which may lie outside it: a
read there panics. Both clients look for an address in the same way, in an attribute of
another type.
-/

namespace Auxlry

open Wire

inductive SocketAddr
  | v4 (ip : Vector UInt8 4) (port : UInt16)
  | v6 (ip : Vector UInt8 16) (port : UInt16) (flowinfo scopeId : UInt32)
  deriving DecidableEq, Repr

inductive Failure
  /-- an index was out of range -/
  | panicked
  | bail (message : String)
  deriving DecidableEq, Repr

/-- `response[i]`. -/
def byteAt (response : List UInt8) (i : ℕ) : Except Failure UInt8 :=
  match response[i]? with
  | some b => .ok b
  | none => .error .panicked

/-- `u16::from_be_bytes([response[i], response[i + 1]])`. -/
def u16At (response : List UInt8) (i : ℕ) : Except Failure UInt16 := do
  let hi ← byteAt response i
  let lo ← byteAt response (i + 1)
  return u16OfBeBytes hi lo

/-- The address in an attribute whose value starts at `pos`, if it is of the family of IPv4.
It was XORed with the magic cookie. -/
def addressAt (response : List UInt8) (pos : ℕ) : Except Failure (Option SocketAddr) := do
  let family ← byteAt response (pos + 1)
  let port ← u16At response (pos + 2)
  if family = 0x01 then
    let a ← byteAt response (pos + 4)
    let b ← byteAt response (pos + 5)
    let c ← byteAt response (pos + 6)
    let d ← byteAt response (pos + 7)
    return some (.v4 #v[a ^^^ 0x21, b ^^^ 0x12, c ^^^ 0xA4, d ^^^ 0x42] (port ^^^ 0x2112))
  else return none

/-- Look through the attributes from `pos` on for an address in one of the wanted type. -/
def findAddress (wanted : UInt16) (missing : String) (response : List UInt8) (pos : ℕ) :
    Except Failure SocketAddr :=
  if pos + 4 ≤ response.length then do
    let attrType ← u16At response pos
    let attrLen ← u16At response (pos + 2)
    let found ←
      if attrType = wanted ∧ 8 ≤ attrLen.toNat ∧ pos + 4 + attrLen.toNat ≤ response.length then
        addressAt response (pos + 4)
      else pure none
    match found with
    | some addr => return addr
    -- align to a boundary of four bytes
    | none => findAddress wanted missing response (pos + 4 + padded attrLen.toNat)
  else throw (.bail missing)
termination_by response.length - pos
decreasing_by omega

def parseXorMappedAddress (response : List UInt8) : Except Failure SocketAddr :=
  if response.length < 20 then throw (.bail "STUN response too short")
  else findAddress 0x0020 "XOR-MAPPED-ADDRESS not found in STUN response" response 20

end Auxlry
