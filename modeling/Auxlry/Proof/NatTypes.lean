import Auxlry.Proof.Stun
import Auxlry.Spec.Traversal

/-!
# NAT types

The type is read off two mapped addresses. Each was mapped from the socket of its own probe.

* `classified_iff`: for servers that answer, the type is the one of the NAT **exactly when**
  the two probes happen to use one local endpoint behind a cone NAT, and to be mapped to two
  public ones behind a NAT that maps by destination.
* `cone_as_symmetric`: a NAT that maps every destination alike, and is said to be symmetric.
-/

namespace Auxlry

open Wire

/-- An endpoint of IPv4. -/
structure Endpoint where
  ip : Vector UInt8 4
  port : UInt16
  deriving DecidableEq, Repr

def Endpoint.addr (e : Endpoint) : SocketAddr := .v4 e.ip e.port

theorem addr_inj {e e' : Endpoint} : e.addr = e'.addr ↔ e = e' := by
  constructor
  · intro h
    injection h with hip hport
    cases e; cases e'
    exact congrArg₂ _ hip hport
  · rintro rfl; rfl

/-- A NAT maps a local endpoint and a destination to a public endpoint, different local
endpoints to different public ones. -/
structure NatMapping where
  map : Endpoint → SocketAddr → Endpoint
  injective : ∀ dest, Function.Injective (map · dest)

namespace NatMapping

/-- The mapping does not depend on the destination. -/
def Cone (nat : NatMapping) : Prop := ∀ l dest dest', nat.map l dest = nat.map l dest'

/-- Each local endpoint has different public endpoints at the two servers. -/
def Differs (nat : NatMapping) (server1 server2 : SocketAddr) : Prop :=
  ∀ l, nat.map l server1 ≠ nat.map l server2

/-- The type that was found is that of the NAT. -/
structure Classified (nat : NatMapping) (server1 server2 : SocketAddr)
    (result : Except Failure (NatType × SocketAddr)) : Prop where
  cone : nat.Cone → ∃ addr, result = .ok (.fullCone, addr)
  differs : nat.Differs server1 server2 → ∃ addr, result = .ok (.symmetric, addr)

end NatMapping

/-- A response with this endpoint in it, behind attributes of other types. -/
def Reports (e : Endpoint) (response : List UInt8) : Prop :=
  ∃ (header : List UInt8) (pre : List Sent) (rest : List UInt8), header.length = 20 ∧
    (∀ a ∈ pre, a.type ≠ 0x0020) ∧
    response = header ++ Sent.encodeAll pre ++ (addressAttribute 0x0020 e.ip e.port).encode ++ rest

theorem Reports.answer {e : Endpoint} {response : List UInt8} (h : Reports e response) :
    stunAnswer response = .ok e.addr := by
  obtain ⟨header, pre, rest, hheader, hpre, rfl⟩ := h
  rw [stunAnswer, parseXorMappedAddress_eq, firstAddress_encode hheader hpre]; rfl

/-- **Two answers give a type**: the one for equal endpoints or the one for different ones. -/
theorem detectNatType_reports {e1 e2 : Endpoint} {response : ℕ → List UInt8}
    (h1 : Reports e1 (response 0)) (h2 : Reports e2 (response 1)) (name1 name2 : String)
    (more : List String) :
    detectNatType (fun i _ => stunAnswer (response i)) (name1 :: name2 :: more) =
      .ok (if e1 = e2 then .fullCone else .symmetric, e1.addr) := by
  have hsame : e1.addr = e2.addr ↔ e1 = e2 := addr_inj
  simp only [detectNatType, h1.answer, h2.answer, withContext, hsame]

/-- **The type is that of the NAT exactly when** the probes use one local endpoint behind a
cone NAT, and are mapped to different public ones behind a NAT that maps by destination. -/
theorem classified_iff (nat : NatMapping) (l : ℕ → Endpoint) (server : ℕ → SocketAddr)
    (response : ℕ → List UInt8) (h0 : Reports (nat.map (l 0) (server 0)) (response 0))
    (h1 : Reports (nat.map (l 1) (server 1)) (response 1)) (name1 name2 : String)
    (more : List String) :
    nat.Classified (server 0) (server 1)
        (detectNatType (fun i _ => stunAnswer (response i)) (name1 :: name2 :: more)) ↔
      (nat.Cone → l 0 = l 1) ∧
      (nat.Differs (server 0) (server 1) →
        nat.map (l 0) (server 0) ≠ nat.map (l 1) (server 1)) := by
  rw [detectNatType_reports h0 h1]
  -- behind a cone NAT, the public endpoints are those of the local ones
  have hcone : nat.Cone →
      (nat.map (l 0) (server 0) = nat.map (l 1) (server 1) ↔ l 0 = l 1) := by
    intro h
    rw [h (l 1) (server 1) (server 0)]
    exact (nat.injective (server 0)).eq_iff
  constructor
  · intro h
    refine ⟨fun hc => ?_, fun hd heq => ?_⟩
    · obtain ⟨addr, haddr⟩ := h.cone hc
      by_contra hne
      rw [if_neg (mt (hcone hc).1 hne)] at haddr
      cases haddr
    · obtain ⟨addr, haddr⟩ := h.differs hd
      rw [if_pos heq] at haddr
      cases haddr
  · rintro ⟨hl, hm⟩
    exact ⟨fun hc => ⟨_, by rw [if_pos ((hcone hc).2 (hl hc))]⟩,
      fun hd => ⟨_, by rw [if_neg (hm hd)]⟩⟩

/-! ## A cone NAT and two sockets -/

/-- No NAT: every host is seen at its own endpoint. -/
def plainNat : NatMapping := ⟨fun l _ => l, fun _ _ _ h => h⟩

/-- The endpoints that the system gives to one socket after the other. -/
def socketEndpoint (i : ℕ) : Endpoint := ⟨#v[192, 0, 2, 33], .ofNat (40000 + i)⟩

def stunServer (i : ℕ) : SocketAddr := .v4 #v[198, 51, 100, .ofNat i] 3478

def mappedResponse (i : ℕ) : List UInt8 :=
  List.replicate 20 0 ++ Sent.encodeAll [] ++
    (addressAttribute 0x0020 (socketEndpoint i).ip (socketEndpoint i).port).encode ++ []

theorem mappedResponse_reports (i : ℕ) :
    Reports (plainNat.map (socketEndpoint i) (stunServer i)) (mappedResponse i) :=
  ⟨_, [], [], List.length_replicate, by simp, rfl⟩

/-- The two probes of a host without a NAT have two endpoints, so its type is not the one
that it should be. -/
theorem classified_iff_plain :
    plainNat.Classified (stunServer 0) (stunServer 1)
        (detectNatType (fun i _ => stunAnswer (mappedResponse i)) ["a:3478", "b:3478"]) ↔
      (plainNat.Cone → socketEndpoint 0 = socketEndpoint 1) ∧
      (plainNat.Differs (stunServer 0) (stunServer 1) →
        plainNat.map (socketEndpoint 0) (stunServer 0) ≠
          plainNat.map (socketEndpoint 1) (stunServer 1)) :=
  classified_iff plainNat socketEndpoint stunServer mappedResponse (mappedResponse_reports 0)
    (mappedResponse_reports 1) _ _ []

/-- **No NAT at all is taken for a symmetric one.** -/
theorem cone_as_symmetric :
    plainNat.Cone ∧
      detectNatType (fun i _ => stunAnswer (mappedResponse i)) ["a:3478", "b:3478"] =
        .ok (.symmetric, (socketEndpoint 0).addr) := by
  have hne : socketEndpoint 0 ≠ socketEndpoint 1 := by decide
  refine ⟨fun _ _ _ => rfl, ?_⟩
  rw [detectNatType_reports (mappedResponse_reports 0) (mappedResponse_reports 1)]
  exact congrArg Except.ok (congrArg (·, _) (if_neg hne))

end Auxlry
