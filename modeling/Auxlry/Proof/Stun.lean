import Auxlry.Spec.Turn

/-!
# Addresses in STUN and TURN messages

Both clients read a message that anyone may have sent.

* `parsers_read_first_address`: **no message makes them panic**, and the address they return
  is that of the first attribute of their type that carries one, in a walk by words of four
  bytes. The two differ in the type they look for and in nothing else, and what a server
  encodes is what they decode.
-/

namespace Auxlry

open Wire

/-! ## Reading -/

theorem ok_bind {α β : Type} (a : α) (f : α → Except Failure β) : (Except.ok a >>= f) = f a := rfl

theorem byteAt_of_getElem? {response : List UInt8} {i : ℕ} {b : UInt8} (h : response[i]? = some b) :
    byteAt response i = .ok b := by
  rw [byteAt, h]

theorem u16At_of_getElem? {response : List UInt8} {i : ℕ} {hi lo : UInt8}
    (hhi : response[i]? = some hi) (hlo : response[i + 1]? = some lo) :
    u16At response i = .ok (u16OfBeBytes hi lo) := by
  rw [u16At, byteAt_of_getElem? hhi, byteAt_of_getElem? hlo]; rfl

/-- **Where four bytes are left, type and length are read**, as a walk meets them. -/
theorem walk_reads {response : List UInt8} {pos : ℕ} (h : pos + 4 ≤ response.length) :
    ∃ attrType attrLen, u16At response pos = .ok attrType ∧ u16At response (pos + 2) = .ok attrLen ∧
      walk pos (response.drop pos) =
        ⟨pos, attrType, attrLen, (response.drop (pos + 4)).take attrLen.toNat⟩ ::
        walk (pos + 4 + padded attrLen.toNat) (response.drop (pos + 4 + padded attrLen.toNat)) := by
  have get : ∀ i, i < response.length → ∃ b, response[i]? = some b := fun i hi =>
    ⟨response[i], List.getElem?_eq_getElem hi⟩
  obtain ⟨t, ht⟩ := get pos (by omega)
  obtain ⟨t', ht'⟩ := get (pos + 1) (by omega)
  obtain ⟨l, hl⟩ := get (pos + 2) (by omega)
  obtain ⟨l', hl'⟩ := get (pos + 3) (by omega)
  exact ⟨_, _, u16At_of_getElem? ht ht', u16At_of_getElem? hl hl', walk_drop ht ht' hl hl'⟩

/-- A value is all there if the message goes on for its length. -/
theorem complete_iff {response : List UInt8} {pos : ℕ} {attrType attrLen : UInt16}
    (h : pos + 4 ≤ response.length) :
    (Attribute.mk pos attrType attrLen ((response.drop (pos + 4)).take attrLen.toNat)).Complete ↔
      pos + 4 + attrLen.toNat ≤ response.length := by
  simp only [Attribute.Complete, List.length_take, List.length_drop]; omega

/-! ## The address of an attribute -/

/-- The address in a value of the family of IPv4, with the magic cookie taken off. -/
def unxored : List UInt8 → Option SocketAddr
  | _ :: family :: p :: p' :: a :: b :: c :: d :: _ =>
    if family = 0x01 then
      some (.v4 (.zipWith (· ^^^ ·) #v[a, b, c, d] #v[0x21, 0x12, 0xA4, 0x42]) (u16OfBeBytes p p' ^^^ 0x2112))
    else none
  | _ => none

/-- The address that an attribute carries: it is of the wanted type, has eight bytes or more,
and they are all there. -/
def carried (wanted : UInt16) (a : Attribute) : Option SocketAddr :=
  if a.type = wanted ∧ 8 ≤ a.len.toNat ∧ a.Complete then unxored a.value else none

/-- The address of the first attribute of a message that carries one. -/
def firstAddress (wanted : UInt16) (response : List UInt8) : Option SocketAddr :=
  (walk 20 (response.drop 20)).findSome? (carried wanted)

theorem zipWith_xor (a b c d e f g h : UInt8) :
    Vector.zipWith (· ^^^ ·) #v[a, b, c, d] #v[e, f, g, h] = #v[a ^^^ e, b ^^^ f, c ^^^ g, d ^^^ h] := by
  simp

/-- The reads of an address stay inside the value. -/
theorem addressAt_eq {response : List UInt8} {pos len : ℕ} (hlen : 8 ≤ len)
    (hin : pos + len ≤ response.length) :
    addressAt response pos = .ok (unxored ((response.drop pos).take len)) := by
  have read : ∀ i, i < len → response[pos + i]? = ((response.drop pos).take len)[i]? := by
    intro i hi
    rw [List.getElem?_take_of_lt hi, List.getElem?_drop]
  have hsize : ((response.drop pos).take len).length = len := by
    rw [List.length_take, List.length_drop]; omega
  -- the value starts with eight bytes
  obtain ⟨z, f, p, p', a, b, c, d, rest, hv⟩ : ∃ z f p p' a b c d rest,
      (response.drop pos).take len = z :: f :: p :: p' :: a :: b :: c :: d :: rest := by
    rcases hv : (response.drop pos).take len with
      _ | ⟨z, _ | ⟨f, _ | ⟨p, _ | ⟨p', _ | ⟨a, _ | ⟨b, _ | ⟨c, _ | ⟨d, rest⟩⟩⟩⟩⟩⟩⟩⟩
    case cons.cons.cons.cons.cons.cons.cons.cons => exact ⟨z, f, p, p', a, b, c, d, rest, rfl⟩
    all_goals rw [hv] at hsize; simp only [List.length_cons, List.length_nil] at hsize; omega
  rw [hv] at read ⊢
  have hport : u16At response (pos + 2) = .ok (u16OfBeBytes p p') :=
    u16At_of_getElem? (read 2 (by omega)) (read 3 (by omega))
  rw [addressAt, byteAt_of_getElem? (read 1 (by omega)), hport,
    byteAt_of_getElem? (read 4 (by omega)), byteAt_of_getElem? (read 5 (by omega)),
    byteAt_of_getElem? (read 6 (by omega)), byteAt_of_getElem? (read 7 (by omega))]
  simp only [ok_bind, unxored, zipWith_xor]
  split <;> rfl

/-! ## The search -/

/-- **One attribute of the search**: its address is the result, or the search goes on. -/
theorem findAddress_step (wanted : UInt16) (missing : String) {response : List UInt8} {pos : ℕ}
    (h : pos + 4 ≤ response.length) :
    ∃ a : Attribute, walk pos (response.drop pos) =
        a :: walk (pos + 4 + padded a.len.toNat) (response.drop (pos + 4 + padded a.len.toNat)) ∧
      findAddress wanted missing response pos =
        match carried wanted a with
        | some addr => .ok addr
        | none => findAddress wanted missing response (pos + 4 + padded a.len.toNat) := by
  obtain ⟨attrType, attrLen, ht, hl, hw⟩ := walk_reads h
  refine ⟨_, hw, ?_⟩
  rw [findAddress, if_pos h, ht, hl, carried]
  simp only [complete_iff h, ok_bind]
  by_cases hc : attrType = wanted ∧ 8 ≤ attrLen.toNat ∧ pos + 4 + attrLen.toNat ≤ response.length
  · simp only [if_pos hc, addressAt_eq hc.2.1 hc.2.2, ok_bind]
    cases unxored ((response.drop (pos + 4)).take attrLen.toNat) <;> rfl
  · simp only [if_neg hc]; rfl

/-- **The search is the walk**: it finds the first address, or there is none. -/
theorem findAddress_eq (wanted : UInt16) (missing : String) (response : List UInt8) (pos : ℕ) :
    findAddress wanted missing response pos =
      match (walk pos (response.drop pos)).findSome? (carried wanted) with
      | some addr => .ok addr
      | none => .error (.bail missing) := by
  fun_induction findAddress wanted missing response pos with
  | case1 pos h ih =>
    obtain ⟨a, hw, hs⟩ := findAddress_step wanted missing h
    rw [findAddress, if_pos h] at hs
    rw [hs, hw, List.findSome?_cons]
    cases carried wanted a with
    | none => exact ih a.len
    | some addr => rfl
  | case2 pos h =>
    rw [walk_short (by omega)]; rfl

theorem parseXorMappedAddress_eq (response : List UInt8) :
    parseXorMappedAddress response =
      match firstAddress 0x0020 response with
      | some addr => .ok addr
      | none => .error (.bail (if response.length < 20 then "STUN response too short"
          else "XOR-MAPPED-ADDRESS not found in STUN response")) := by
  rw [parseXorMappedAddress]
  by_cases h : response.length < 20
  · -- too short for a header, so for an attribute as well
    have hw : walk 20 (response.drop 20) = [] := walk_short (by omega)
    rw [if_pos h, firstAddress, hw, if_pos h]; rfl
  · rw [if_neg h, findAddress_eq, if_neg h]; rfl

theorem parseAllocateResponse_eq (client : TurnClient) (response : List UInt8) :
    client.parseAllocateResponse response =
      match firstAddress 0x0016 response with
      | some addr => .ok ⟨addr, client.serverAddr⟩
      | none => .error (.bail "XOR-RELAYED-ADDRESS not found in Allocate response") := by
  rw [TurnClient.parseAllocateResponse, findAddress_eq]
  change _ = match (walk 20 (response.drop 20)).findSome? (carried attrXorRelayedAddress) with
    | some addr => _
    | none => _
  cases (walk 20 (response.drop 20)).findSome? (carried attrXorRelayedAddress) <;> rfl

/-! ## What a server encodes -/

/-- The attribute that a server sends an address in. -/
def addressAttribute (type : UInt16) (ip : Vector UInt8 4) (port : UInt16) : Sent where
  type := type
  value := 0x00 :: 0x01 :: u16ToBeBytes (port ^^^ 0x2112) ++
    [ip[0] ^^^ 0x21, ip[1] ^^^ 0x12, ip[2] ^^^ 0xA4, ip[3] ^^^ 0x42]
  padding := []
  fits := by simp
  aligned := by simp [padded]

theorem xor_xor_u8 (a b : UInt8) : a ^^^ b ^^^ b = a := by
  rw [UInt8.xor_assoc, UInt8.xor_self, UInt8.xor_zero]

theorem xor_xor_u16 (a b : UInt16) : a ^^^ b ^^^ b = a := by
  rw [UInt16.xor_assoc, UInt16.xor_self, UInt16.xor_zero]

/-- **The attribute carries the address** it was made of. -/
theorem carried_addressAttribute (type : UInt16) (ip : Vector UInt8 4) (port : UInt16) (pos : ℕ) :
    carried type ((addressAttribute type ip port).met pos) = some (.v4 ip port) := by
  have hlen : ((addressAttribute type ip port).met pos).len.toNat = 8 :=
    (addressAttribute type ip port).toNat_len pos
  rw [carried, if_pos ⟨rfl, hlen.ge, Sent.met_complete _ _⟩]
  have hip : #v[ip[0], ip[1], ip[2], ip[3]] = ip := by
    ext i hi
    match i, hi with
    | 0, _ => rfl
    | 1, _ => rfl
    | 2, _ => rfl
    | 3, _ => rfl
  simp only [Sent.met, addressAttribute, u16ToBeBytes, List.cons_append, List.nil_append, unxored,
    zipWith_xor, u16OfBeBytes_ofNat, xor_xor_u8, xor_xor_u16, if_true, hip]

/-- **Behind attributes of other types**, whatever their lengths and their padding, the
address is found. -/
theorem firstAddress_encode {wanted : UInt16} {header : List UInt8} (hheader : header.length = 20)
    {pre : List Sent} (hpre : ∀ a ∈ pre, a.type ≠ wanted) (ip : Vector UInt8 4) (port : UInt16)
    (rest : List UInt8) :
    firstAddress wanted (header ++ Sent.encodeAll pre ++ (addressAttribute wanted ip port).encode ++ rest) =
      some (.v4 ip port) := by
  have hdrop : (header ++ Sent.encodeAll pre ++ (addressAttribute wanted ip port).encode ++ rest).drop 20 =
      Sent.encodeAll pre ++ ((addressAttribute wanted ip port).encode ++ rest) := by
    rw [List.append_assoc, List.append_assoc, ← hheader, List.drop_left]
  have hother : (Sent.metAll 20 pre).findSome? (carried wanted) = none := by
    rw [List.findSome?_eq_none_iff]
    intro x hx
    obtain ⟨a, ha, ht⟩ := Sent.type_metAll hx
    exact if_neg fun h => hpre a ha (ht ▸ h.1)
  rw [firstAddress, hdrop, walk_encodeAll, walk_encode, List.findSome?_append, hother,
    List.findSome?_cons, carried_addressAttribute]
  rfl

/-! ## The two types -/

/-- The one type for the other. -/
def swapped (type : UInt16) : UInt16 :=
  if type = 0x0020 then 0x0016 else if type = 0x0016 then 0x0020 else type

theorem carried_swapped (a : Attribute) :
    carried 0x0016 { a with type := swapped a.type } = carried 0x0020 a := by
  have ht : swapped a.type = 0x0016 ↔ a.type = 0x0020 := by
    unfold swapped
    split
    · simp [*]
    split
    · simp [*]
    · simp [*]
  have hc : (Attribute.mk a.offset (swapped a.type) a.len a.value).Complete ↔ a.Complete := Iff.rfl
  simp only [carried, ht, hc]

/-- **No message makes the parsers panic; they return the address of the first attribute
of their type that carries one**, and agree on messages that differ in the two types. -/
theorem parsers_read_first_address (client : TurnClient) (response : List UInt8) :
    parseXorMappedAddress response ≠ .error .panicked ∧
      client.parseAllocateResponse response ≠ .error .panicked ∧
      (∀ addr, parseXorMappedAddress response = .ok addr ↔ firstAddress 0x0020 response = some addr) ∧
      (∀ relay, client.parseAllocateResponse response = .ok relay ↔
        firstAddress 0x0016 response = some relay.relayAddr ∧ relay.serverAddr = client.serverAddr) ∧
      (∀ (header : List UInt8) (pre : List Sent) (ip : Vector UInt8 4) (port : UInt16)
        (rest : List UInt8), header.length = 20 →
        ((∀ a ∈ pre, a.type ≠ 0x0020) → parseXorMappedAddress
          (header ++ Sent.encodeAll pre ++ (addressAttribute 0x0020 ip port).encode ++ rest) =
            .ok (.v4 ip port)) ∧
        ((∀ a ∈ pre, a.type ≠ 0x0016) → client.parseAllocateResponse
          (header ++ Sent.encodeAll pre ++ (addressAttribute 0x0016 ip port).encode ++ rest) =
            .ok ⟨.v4 ip port, client.serverAddr⟩)) ∧
      ∀ other : List UInt8,
        walk 20 (other.drop 20) =
          (walk 20 (response.drop 20)).map (fun a => { a with type := swapped a.type }) →
        ∀ addr, parseXorMappedAddress response = .ok addr ↔
          client.parseAllocateResponse other = .ok ⟨addr, client.serverAddr⟩ := by
  have mapped : ∀ addr, parseXorMappedAddress response = .ok addr ↔
      firstAddress 0x0020 response = some addr := by
    intro addr
    rw [parseXorMappedAddress_eq]
    cases firstAddress 0x0020 response <;> simp
  have relayed : ∀ (message : List UInt8) (relay : TurnRelay),
      client.parseAllocateResponse message = .ok relay ↔
        firstAddress 0x0016 message = some relay.relayAddr ∧ relay.serverAddr = client.serverAddr := by
    intro message relay
    rw [parseAllocateResponse_eq]
    cases firstAddress 0x0016 message with
    | none => simp
    | some addr =>
      simp only [Except.ok.injEq, Option.some.injEq]
      exact ⟨fun h => h ▸ ⟨rfl, rfl⟩, fun h => by rw [h.1, ← h.2]⟩
  refine ⟨?_, ?_, mapped, relayed response, ?_, ?_⟩
  · rw [parseXorMappedAddress_eq]
    cases firstAddress 0x0020 response <;> simp
  · rw [parseAllocateResponse_eq]
    cases firstAddress 0x0016 response <;> simp
  · intro header pre ip port rest hheader
    constructor
    · intro hpre
      rw [parseXorMappedAddress_eq, firstAddress_encode hheader hpre]
    · intro hpre
      rw [parseAllocateResponse_eq, firstAddress_encode hheader hpre]
  · intro other hother addr
    rw [mapped, relayed, firstAddress, firstAddress, hother, List.findSome?_map]
    simp only [Function.comp_def, carried_swapped, and_true]

end Auxlry
