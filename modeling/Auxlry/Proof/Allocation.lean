import Auxlry.Proof.Stun

/-!
# The signed Allocate request

* `challengeFrom_eq`: the search for realm and nonce is a walk, too, up to the first attribute
  that is not all there.
* `allocate_request_well_formed`: **a signed request that fits a datagram is what it says**.
  Its header counts its attributes, a walk meets the five of them and nothing else, the last
  signs all that stands before it, and reading it as a challenge gives realm and nonce.
-/

namespace Auxlry

open Utf8 Wire

/-! ## The search for realm and nonce -/

/-- The last realm and the last nonce before an attribute that is not all there. -/
def challengeOf : List Attribute → Option String → Option String → Option String × Option String
  | [], realm, nonce => (realm, nonce)
  | a :: as, realm, nonce =>
    if ¬ a.Complete then (realm, nonce)
    else if a.type = attrRealm then challengeOf as (some (fromUtf8Lossy a.value)) nonce
    else if a.type = attrNonce then challengeOf as realm (some (fromUtf8Lossy a.value))
    else challengeOf as realm nonce

/-- **The search for realm and nonce is a walk.** -/
theorem challengeFrom_eq (response : List UInt8) (pos : ℕ) (realm nonce : Option String) :
    TurnClient.challengeFrom response pos realm nonce =
      .ok (challengeOf (walk pos (response.drop pos)) realm nonce) := by
  induction hm : response.length - pos using Nat.strong_induction_on generalizing pos realm nonce with
  | _ m ih =>
    rw [TurnClient.challengeFrom]
    by_cases h : pos + 4 ≤ response.length
    · obtain ⟨attrType, attrLen, ht, hl, hw⟩ := walk_reads h
      have hshort : response.length < pos + 4 + attrLen.toNat ↔
          ¬ pos + 4 + attrLen.toNat ≤ response.length := Nat.not_le.symm
      have hnext : ∀ realm nonce, TurnClient.challengeFrom response (pos + 4 + padded attrLen.toNat)
          realm nonce = _ := fun realm nonce => ih _ (by omega) _ realm nonce rfl
      rw [if_pos h, ht, hl, hw, challengeOf]
      simp only [complete_iff h, ok_bind, hshort, hnext]
      split_ifs <;> rfl
    · rw [if_neg h, walk_short (by omega)]; rfl

/-! ## The attributes of a request -/

def transportAttribute : Sent where
  type := attrRequestedTransport
  value := [0x11, 0x00, 0x00, 0x00]
  padding := []
  fits := by decide
  aligned := by decide

def integrityAttribute (hmac : Vector UInt8 20) : Sent where
  type := attrMessageIntegrity
  value := hmac.toList
  padding := []
  fits := by rw [Vector.length_toList]; decide
  aligned := by rw [Vector.length_toList]; decide

theorem requestedTransport_eq : requestedTransport = transportAttribute.encode := by decide

theorem integrity_eq (hmac : Vector UInt8 20) :
    u16ToBeBytes attrMessageIntegrity ++ u16ToBeBytes 20 ++ hmac.toList =
      (integrityAttribute hmac).encode := by
  have hlen : UInt16.ofNat hmac.toList.length = 20 := by rw [Vector.length_toList]; rfl
  simp only [Sent.encode, integrityAttribute, hlen, List.append_nil]

@[simp] theorem length_textAttribute (type : UInt16) (value : List UInt8) :
    (textAttribute type value).length = 4 + padded value.length := by
  have := le_padded value.length
  simp only [textAttribute, List.length_append, length_u16ToBeBytes, List.length_replicate]; omega

/-- A text whose attribute is shorter than a datagram has a length of two bytes. -/
theorem textAttribute_eq {type : UInt16} {value : List UInt8} (h : value.length < 65536) :
    textAttribute type value = (Sent.zeros type value h).encode := rfl

theorem length_allocateMessage (len : UInt16) (txId : Vector UInt8 12) (attrs : List UInt8) :
    (allocateMessage len txId attrs).length = 20 + attrs.length := by
  simp only [allocateMessage, List.length_append, length_u16ToBeBytes, length_toBeBytes,
    Vector.length_toList]

theorem allocateMessage_append (len : UInt16) (txId : Vector UInt8 12) (as bs : List UInt8) :
    allocateMessage len txId (as ++ bs) = allocateMessage len txId as ++ bs :=
  (List.append_assoc _ _ _).symm

theorem drop_allocateMessage (len : UInt16) (txId : Vector UInt8 12) (attrs : List UInt8) :
    (allocateMessage len txId attrs).drop 20 = attrs := by
  have h := length_allocateMessage len txId []
  rw [← List.nil_append attrs, allocateMessage_append, List.nil_append]
  exact List.drop_left' h

/-! ## The request -/

/-- The attributes of a request that are signed. -/
def signedAttrs (client : TurnClient) (realm nonce : String) : List UInt8 :=
  requestedTransport ++ textAttribute attrUsername (bytes client.username) ++
    textAttribute attrRealm (bytes realm) ++ textAttribute attrNonce (bytes nonce)

/-- **What is signed is what is sent** before the signature: the length in the signed header
is the length in the sent one. -/
theorem buildAllocateRequest_eq (d : Digests) (client : TurnClient) (txId : Vector UInt8 12)
    (realm nonce : String) :
    let attrs := signedAttrs client realm nonce
    let signed := allocateMessage (.ofNat (attrs.length + 24)) txId attrs
    client.buildAllocateRequest d txId (some (realm, nonce)) =
      signed ++ (integrityAttribute (hmacSha1 d.sha1 (client.key d realm) signed)).encode := by
  intro attrs signed
  have hlen : ∀ hmac : Vector UInt8 20,
      (attrs ++ (integrityAttribute hmac).encode).length = attrs.length + 24 := by
    intro hmac
    rw [List.length_append, Sent.length_encode]
    simp only [integrityAttribute, Vector.length_toList, padded]
  have hall : client.buildAllocateRequest d txId (some (realm, nonce)) =
      allocateMessage (.ofNat (attrs ++ u16ToBeBytes attrMessageIntegrity ++ u16ToBeBytes 20 ++
        (hmacSha1 d.sha1 (client.key d realm) signed).toList).length) txId
        (attrs ++ u16ToBeBytes attrMessageIntegrity ++ u16ToBeBytes 20 ++
          (hmacSha1 d.sha1 (client.key d realm) signed).toList) := rfl
  rw [hall, List.append_assoc, List.append_assoc, ← List.append_assoc (u16ToBeBytes _), integrity_eq,
    hlen, allocateMessage_append]

theorem length_request (d : Digests) (client : TurnClient) (txId : Vector UInt8 12)
    (realm nonce : String) :
    (client.buildAllocateRequest d txId (some (realm, nonce))).length =
      20 + (signedAttrs client realm nonce).length + 24 := by
  have hmsg := buildAllocateRequest_eq d client txId realm nonce
  rw [hmsg, List.length_append, length_allocateMessage, Sent.length_encode]
  simp only [integrityAttribute, Vector.length_toList, padded]

theorem length_signedAttrs (client : TurnClient) (realm nonce : String) :
    (signedAttrs client realm nonce).length = 8 + (4 + padded (bytes client.username).length) +
      (4 + padded (bytes realm).length) + (4 + padded (bytes nonce).length) := by
  simp only [signedAttrs, List.length_append, length_textAttribute]; rfl

/-- The attributes of a request, with texts whose lengths fit two bytes. -/
def requestAttributes (client : TurnClient) (realm nonce : String) (hmac : Vector UInt8 20)
    (hu : (bytes client.username).length < 65536) (hr : (bytes realm).length < 65536)
    (hn : (bytes nonce).length < 65536) : List Sent :=
  [transportAttribute, .zeros attrUsername _ hu, .zeros attrRealm _ hr, .zeros attrNonce _ hn,
    integrityAttribute hmac]

section

variable {client : TurnClient} {realm nonce : String} {hmac : Vector UInt8 20}
  {hu : (bytes client.username).length < 65536} {hr : (bytes realm).length < 65536}
  {hn : (bytes nonce).length < 65536}

theorem encodeAll_requestAttributes :
    Sent.encodeAll (requestAttributes client realm nonce hmac hu hr hn) =
      signedAttrs client realm nonce ++ (integrityAttribute hmac).encode := by
  rw [signedAttrs, requestedTransport_eq, textAttribute_eq hu, textAttribute_eq hr, textAttribute_eq hn]
  simp only [Sent.encodeAll, requestAttributes, List.flatMap_cons, List.flatMap_nil, List.append_assoc,
    List.append_nil]

/-- The signature stands behind the signed attributes. -/
theorem last_requestAttributes :
    (Sent.metAll 20 (requestAttributes client realm nonce hmac hu hr hn)).getLast?.map (·.offset) =
      some (20 + (signedAttrs client realm nonce).length) := by
  have hlen := length_signedAttrs client realm nonce
  have ht : transportAttribute.encode.length = 8 := transportAttribute.length_encode
  simp only [Sent.metAll, requestAttributes, Sent.met, List.getLast?_cons_cons,
    List.getLast?_singleton, Option.map_some, ht]
  simp only [Sent.length_encode, Sent.zeros, hlen, Option.some.injEq]
  omega

/-- Read as a challenge, they give the realm and the nonce. -/
theorem challengeOf_requestAttributes :
    challengeOf (Sent.metAll 20 (requestAttributes client realm nonce hmac hu hr hn)) none none =
      (some realm, some nonce) := by
  simp only [Sent.metAll, requestAttributes, challengeOf, Sent.met_complete, not_true_eq_false, if_false]
  simp [Sent.met, transportAttribute, Sent.zeros, integrityAttribute, attrRequestedTransport,
    attrUsername, attrRealm, attrNonce, attrMessageIntegrity]

end

/-- **A signed Allocate request that fits a datagram is well formed.** Its header counts its
attributes; a walk meets the five of them, each in words of its own; the last is the signature
of what stands before it; and as a challenge it reads as the realm and the nonce. -/
theorem allocate_request_well_formed (d : Digests) (client : TurnClient) (txId : Vector UInt8 12)
    (realm nonce : String)
    (hfits : (client.buildAllocateRequest d txId (some (realm, nonce))).length ≤ 65507) :
    let msg := client.buildAllocateRequest d txId (some (realm, nonce))
    let attrs := walk 20 (msg.drop 20)
    let key := (d.md5 (bytes (client.username ++ ":" ++ realm ++ ":" ++ client.credential))).toList
    ∃ (len : UInt16) (offset : ℕ),
      msg.take 20 = u16ToBeBytes 0x0003 ++ u16ToBeBytes len ++ toBeBytes 0x2112A442 ++ txId.toList ∧
      20 + len.toNat = msg.length ∧
      attrs.map (fun a => (a.type, a.value)) =
        [(0x0019, [0x11, 0x00, 0x00, 0x00]), (0x0006, bytes client.username), (0x0014, bytes realm),
          (0x0015, bytes nonce), (0x0008, (hmacSha1 d.sha1 key (msg.take offset)).toList)] ∧
      (∀ a ∈ attrs, a.offset % 4 = 0 ∧ a.Complete) ∧
      attrs.getLast?.map (·.offset) = some offset ∧ offset + 24 = msg.length ∧
      TurnClient.extractAuthChallenge msg = .ok (realm, nonce) := by
  intro msg attrs key
  have hmsg : msg = _ := buildAllocateRequest_eq d client txId realm nonce
  set signed := allocateMessage (.ofNat ((signedAttrs client realm nonce).length + 24)) txId
    (signedAttrs client realm nonce) with hsigned
  set hmac := hmacSha1 d.sha1 (client.key d realm) signed with hhmac
  have hmax : msg.length ≤ 65507 := hfits
  have hlen : msg.length = _ := length_request d client txId realm nonce
  have hattrs := length_signedAttrs client realm nonce
  -- the texts are shorter than the datagram, so their lengths fit two bytes
  have hu : (bytes client.username).length < 65536 := by
    have := le_padded (bytes client.username).length; omega
  have hr : (bytes realm).length < 65536 := by have := le_padded (bytes realm).length; omega
  have hn : (bytes nonce).length < 65536 := by have := le_padded (bytes nonce).length; omega
  set sent := requestAttributes client realm nonce hmac hu hr hn with hset
  have hsent : msg = allocateMessage (.ofNat ((signedAttrs client realm nonce).length + 24)) txId
      (Sent.encodeAll sent) := by
    rw [hmsg, hset, encodeAll_requestAttributes, allocateMessage_append]
  have hwalk : attrs = Sent.metAll 20 sent := by
    have h := walk_encodeAll 20 sent []
    rw [List.append_nil, walk_nil, List.append_nil] at h
    rw [← h]
    exact congrArg (walk 20) (by rw [hsent, drop_allocateMessage])
  have hsigns : msg.take (20 + (signedAttrs client realm nonce).length) = signed := by
    rw [hmsg]; exact List.take_left' (length_allocateMessage _ _ _)
  refine ⟨.ofNat ((signedAttrs client realm nonce).length + 24),
    20 + (signedAttrs client realm nonce).length, ?_, ?_, ?_, ?_, ?_, by omega, ?_⟩
  · rw [hsent, ← List.nil_append (Sent.encodeAll sent), allocateMessage_append]
    exact (List.take_left' (length_allocateMessage _ _ _)).trans (List.append_nil _)
  · rw [UInt16.toNat_ofNat']; omega
  · rw [hwalk, hsigns]; rfl
  · intro a ha
    rw [hwalk] at ha
    exact ⟨Sent.offset_metAll (by decide) ha, Sent.metAll_complete ha⟩
  · rw [hwalk]; exact last_requestAttributes
  · rw [TurnClient.extractAuthChallenge, challengeFrom_eq]
    change (Except.ok (challengeOf attrs none none) >>= _) = _
    rw [hwalk, hset, challengeOf_requestAttributes]; rfl

/-- The digests as they come out for one-letter texts and a transaction id of zeros: of the
key, of the inner hash and of the outer one, which are told apart by their lengths. -/
def smallDigests : Digests where
  md5 _ := #v[0x44, 0xAD, 0xD2, 0x2B, 0x6F, 0x31, 0x79, 0xB7, 0x51, 0xEA, 0xFD, 0x68, 0xEE, 0x37,
    0x0F, 0x7D]
  sha1 m :=
    if m.length = 116 then
      #v[0x16, 0x80, 0xDF, 0x9F, 0xCD, 0x3B, 0x17, 0xEA, 0x85, 0xD2, 0x6E, 0x9C, 0x76, 0x1A, 0x14,
        0x49, 0xBB, 0x47, 0x7C, 0x93]
    else
      #v[0xB4, 0x6E, 0x1F, 0x96, 0xF4, 0x56, 0xAC, 0x3D, 0x7C, 0xE7, 0x3A, 0xA0, 0x31, 0x34, 0x86,
        0x01, 0x60, 0x94, 0x0D, 0x1A]

def smallClient : TurnClient := ⟨.v4 #v[192, 0, 2, 1] 3478, "u", "p"⟩

/-- With texts of one letter, the request fits a datagram. -/
theorem allocate_request_of_letters :
    let msg := smallClient.buildAllocateRequest smallDigests (.replicate 12 0) (some ("r", "n"))
    msg.length ≤ 65507 ∧ (walk 20 (msg.drop 20)).length = 5 ∧
      TurnClient.extractAuthChallenge msg = .ok ("r", "n") := by
  have hfits : (smallClient.buildAllocateRequest smallDigests (.replicate 12 0)
      (some ("r", "n"))).length ≤ 65507 := by
    rw [length_request, length_signedAttrs]; decide
  obtain ⟨_, _, _, _, hattrs, _, _, _, hread⟩ :=
    allocate_request_well_formed smallDigests smallClient (.replicate 12 0) "r" "n" hfits
  exact ⟨hfits, by simpa using congrArg List.length hattrs, hread⟩

end Auxlry
