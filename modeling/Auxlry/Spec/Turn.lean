import Auxlry.Spec.Stun
import Auxlry.Utf8.Lossy

/-!
# The TURN client

Requests are built in memory: the attributes first, then a header with their length in two
bytes. Only the digests come from elsewhere; they are parameters, with the lengths of their
outputs.
-/

namespace Auxlry

open Utf8 Wire

structure TurnRelay where
  relayAddr : SocketAddr
  serverAddr : SocketAddr
  deriving DecidableEq, Repr

structure TurnClient where
  serverAddr : SocketAddr
  username : String
  credential : String
  deriving DecidableEq, Repr

/-- The digests that requests are signed with. -/
structure Digests where
  sha1 : List UInt8 → Vector UInt8 20
  md5 : List UInt8 → Vector UInt8 16

def allocateRequest : UInt16 := 0x0003

def allocateResponse : UInt16 := 0x0103

def allocateError : UInt16 := 0x0113

def magicCookie : ℕ := 0x2112A442

def attrXorRelayedAddress : UInt16 := 0x0016

def attrRequestedTransport : UInt16 := 0x0019

def attrUsername : UInt16 := 0x0006

def attrRealm : UInt16 := 0x0014

def attrNonce : UInt16 := 0x0015

def attrMessageIntegrity : UInt16 := 0x0008

/-- Simple HMAC-SHA1 implementation. -/
def hmacSha1 (sha1 : List UInt8 → Vector UInt8 20) (key message : List UInt8) : Vector UInt8 20 :=
  let paddedKey :=
    if key.length > 64 then (sha1 key).toList ++ List.replicate 44 0
    else key ++ List.replicate (64 - key.length) 0
  let ipad := paddedKey.map (0x36 ^^^ ·)
  let opad := paddedKey.map (0x5c ^^^ ·)
  sha1 (opad ++ (sha1 (ipad ++ message)).toList)

/-- An attribute of text, with zeros behind it. -/
def textAttribute (type : UInt16) (value : List UInt8) : List UInt8 :=
  u16ToBeBytes type ++ u16ToBeBytes (.ofNat value.length) ++ value ++
    List.replicate (padded value.length - value.length) 0

/-- The header and the attributes of an Allocate request. -/
def allocateMessage (len : UInt16) (txId : Vector UInt8 12) (attrs : List UInt8) : List UInt8 :=
  u16ToBeBytes allocateRequest ++ u16ToBeBytes len ++ toBeBytes magicCookie ++ txId.toList ++ attrs

/-- The attributes of a request, as it is signed and as it is sent. -/
def requestedTransport : List UInt8 :=
  u16ToBeBytes attrRequestedTransport ++ u16ToBeBytes 4 ++ [0x11, 0x00, 0x00, 0x00]

namespace TurnClient

/-- `MD5(username:realm:password)`. -/
def key (d : Digests) (client : TurnClient) (realm : String) : List UInt8 :=
  (d.md5 (bytes (client.username ++ ":" ++ realm ++ ":" ++ client.credential))).toList

def buildAllocateRequest (d : Digests) (client : TurnClient) (txId : Vector UInt8 12)
    (auth : Option (String × String)) : List UInt8 :=
  let attrs :=
    match auth with
    | none => requestedTransport
    | some (realm, nonce) =>
      let attrs := requestedTransport ++ textAttribute attrUsername (bytes client.username) ++
        textAttribute attrRealm (bytes realm) ++ textAttribute attrNonce (bytes nonce)
      -- the length of what is signed counts the integrity attribute that is still to come
      let integrityMsgLen := UInt16.ofNat (attrs.length + 4 + 20)
      let tempMsg := allocateMessage integrityMsgLen txId attrs
      let hmac := hmacSha1 d.sha1 (client.key d realm) tempMsg
      attrs ++ u16ToBeBytes attrMessageIntegrity ++ u16ToBeBytes 20 ++ hmac.toList
  allocateMessage (.ofNat attrs.length) txId attrs

def getMessageType (msg : List UInt8) : UInt16 :=
  match msg with
  | hi :: lo :: _ => u16OfBeBytes hi lo
  | _ => 0

/-- The realm and the nonce in the attributes from `pos` on, up to one that breaks off. -/
def challengeFrom (response : List UInt8) (pos : ℕ) (realm nonce : Option String) :
    Except Failure (Option String × Option String) :=
  if pos + 4 ≤ response.length then do
    let attrType ← u16At response pos
    let attrLen ← u16At response (pos + 2)
    if response.length < pos + 4 + attrLen.toNat then return (realm, nonce)
    else
      let value := fromUtf8Lossy ((response.drop (pos + 4)).take attrLen.toNat)
      let next := pos + 4 + padded attrLen.toNat
      if attrType = attrRealm then challengeFrom response next (some value) nonce
      else if attrType = attrNonce then challengeFrom response next realm (some value)
      else challengeFrom response next realm nonce
  else return (realm, nonce)
termination_by response.length - pos
decreasing_by all_goals omega

def extractAuthChallenge (response : List UInt8) : Except Failure (String × String) := do
  match ← challengeFrom response 20 none none with
  | (none, _) => throw (.bail "no realm in 401 response")
  | (some _, none) => throw (.bail "no nonce in 401 response")
  | (some realm, some nonce) => return (realm, nonce)

def parseAllocateResponse (client : TurnClient) (response : List UInt8) : Except Failure TurnRelay := do
  let relayAddr ← findAddress attrXorRelayedAddress
    "XOR-RELAYED-ADDRESS not found in Allocate response" response 20
  return ⟨relayAddr, client.serverAddr⟩

end TurnClient

end Auxlry
