import Auxlry.Proof.Allocation
import Auxlry.Spec.Exchanges

/-!
# Whose answer it is

Each request carries a transaction id that was drawn for it, but neither client compares it
with that of the response, and a socket that is not connected takes from anyone.

* `answers_match_iff`: the address comes from a success response to the request, and the
  second reply answers the second request, **exactly in the runs where** no datagram that
  stands first when a client receives is another one.
* `others_answer`: a forged datagram that gives an address, and a repeated first reply that
  is taken for the second.
-/

namespace Auxlry

open Wire

/-- The message carries this transaction id. -/
def HasTxId (txId : Vector UInt8 12) (msg : List UInt8) : Prop := (msg.drop 8).take 12 = txId.toList

/-- A Binding success response with the magic cookie and the transaction id of the request. -/
def AnswersBinding (request msg : List UInt8) : Prop :=
  msg.take 2 = [0x01, 0x01] ∧ (msg.drop 4).take 4 = toBeBytes magicCookie ∧
    ∃ txId, request = bindingRequest txId ∧ HasTxId txId msg

/-! ## A Binding request -/

namespace StunDiscover

variable {s s' : StunDiscover} {a : Action}

/-- The address was taken from the answer to the request. -/
def Sound (s : StunDiscover) : Prop :=
  ∀ addr, s.phase = .returned (.ok addr) →
    ∃ request response, s.sent = some request ∧ s.taken = some response ∧ AnswersBinding request response

/-- The datagram that stands first when the client receives has no address in it, or is the
answer to the request. -/
def Answered (s : StunDiscover) (a : Action) : Prop :=
  a = .receive → ∀ request d rest, s.sent = some request → s.socket = d :: rest →
    firstAddress 0x0020 (recvFrom 512 d) = none ∨ AnswersBinding request (recvFrom 512 d)

/-- One step: the client fails, sends, has a datagram put in its queue, or takes the first. -/
theorem step_some (h : step s a = some s') :
    (∃ message, a = .fail message ∧ s' = { s with phase := .returned (.error (.bail message)) }) ∨
    (∃ txId, a = .send txId ∧ s' = { s with phase := .waiting, sent := some (bindingRequest txId) }) ∨
    (∃ d, a = .arrive d ∧ s' = { s with socket := s.socket ++ [d] }) ∨
    ∃ d rest, a = .receive ∧ s.phase = .waiting ∧ s.socket = d :: rest ∧
      s' = ⟨.returned (stunAnswer (recvFrom 512 d)), rest, s.sent, some (recvFrom 512 d)⟩ := by
  unfold step at h
  split at h
  · split at h
    · cases h
    · exact .inl ⟨_, rfl, (Option.some.inj h).symm⟩
  · split at h
    · exact .inr (.inl ⟨_, rfl, (Option.some.inj h).symm⟩)
    · cases h
  · exact .inr (.inr (.inl ⟨_, rfl, (Option.some.inj h).symm⟩))
  · split at h
    · exact .inr (.inr (.inr ⟨_, _, rfl, ‹_›, ‹_›, (Option.some.inj h).symm⟩))
    · cases h

/-- A response gives an address if one of its attributes carries one. -/
theorem stunAnswer_ok {response : List UInt8} :
    (∃ addr, stunAnswer response = .ok addr) ↔ firstAddress 0x0020 response ≠ none := by
  rw [stunAnswer, parseXorMappedAddress_eq]
  cases firstAddress 0x0020 response <;> simp [withContext]

/-- A client that waits has sent a request. -/
def Sent (s : StunDiscover) : Prop := s.phase = .waiting → s.sent.isSome

theorem sent_step (hJ : s.Sent) (h : step s a = some s') : s'.Sent := by
  rcases step_some h with ⟨_, -, rfl⟩ | ⟨_, -, rfl⟩ | ⟨_, -, rfl⟩ | ⟨_, _, -, _, _, rfl⟩
  · intro hw; cases hw
  · intro _; rfl
  · exact hJ
  · intro hw; cases hw

/-- **One step keeps the client sound exactly if** what it takes is the answer. -/
theorem sound_step (hJ : s.Sent) (hP : s.Sound) (h : step s a = some s') : s'.Sound ↔ s.Answered a := by
  rcases step_some h with ⟨m, rfl, rfl⟩ | ⟨txId, rfl, rfl⟩ | ⟨d, rfl, rfl⟩ | ⟨d, rest, rfl, hw, hs, rfl⟩
  · exact iff_of_true (fun _ h => by cases h) (fun h => by cases h)
  · exact iff_of_true (fun _ h => by cases h) (fun h => by cases h)
  · exact iff_of_true hP (fun h => by cases h)
  · obtain ⟨request, hreq⟩ := Option.isSome_iff_exists.1 (hJ hw)
    constructor
    · intro hsound _ request' d' rest' hreq' hs'
      rw [hreq] at hreq'; obtain rfl := Option.some.inj hreq'
      rw [hs] at hs'; obtain ⟨rfl, rfl⟩ := List.cons.inj hs'
      by_cases hf : firstAddress 0x0020 (recvFrom 512 d) = none
      · exact .inl hf
      · -- the address it gives comes from this datagram
        obtain ⟨addr, haddr⟩ := stunAnswer_ok.2 hf
        obtain ⟨request', response, h1, h2, hans⟩ := hsound addr (congrArg StunPhase.returned haddr)
        rw [hreq] at h1; obtain rfl := Option.some.inj h1
        obtain rfl := Option.some.inj h2
        exact .inr hans
    · intro hans addr haddr
      have hok : stunAnswer (recvFrom 512 d) = .ok addr := by injection haddr
      refine ⟨request, _, hreq, rfl, ?_⟩
      exact (hans rfl request d rest hreq hs).resolve_left (stunAnswer_ok.1 ⟨addr, hok⟩)

end StunDiscover

/-! ## An allocation -/

namespace Allocate

variable {digests : Digests} {client : TurnClient} {s s' : Allocate} {a : Action}

/-- The reply to the second request carries its transaction id. -/
def Sound (s : Allocate) : Prop :=
  ∀ response, s.authReply = some response → ∃ txId, s.authTxId = some txId ∧ HasTxId txId response

/-- The datagram that stands first when the client receives for the second time answers the
second request. -/
def Answered (s : Allocate) (a : Action) : Prop :=
  a = .receive → s.phase = .waitingAuth → ∀ txId d rest, s.authTxId = some txId →
    s.socket = d :: rest → HasTxId txId (recvFrom 1024 d)

/-- One step: the client fails, sends the first request or the second, has a datagram put in
its queue, or takes the first for the one reply or for the other. -/
theorem step_some (h : step digests client s a = some s') :
    (∃ message, a = .fail message ∧ s' = { s with phase := .returned (.error (.bail message)) }) ∨
    (∃ txId sent, a = .send txId ∧ s.phase = .starting ∧ s' = { s with phase := .waiting, sent := sent }) ∨
    (∃ txId realm nonce sent, a = .send txId ∧ s.phase = .challenged realm nonce ∧
      s' = { s with phase := .waitingAuth, sent := sent, authTxId := some txId }) ∨
    (∃ d, a = .arrive d ∧ s' = { s with socket := s.socket ++ [d] }) ∨
    (∃ d rest, a = .receive ∧ s.phase = .waiting ∧
      s' = { s with phase := first client (recvFrom 1024 d), socket := rest }) ∨
    ∃ d rest, a = .receive ∧ s.phase = .waitingAuth ∧ s.socket = d :: rest ∧
      s' = ⟨.returned (second client (recvFrom 1024 d)), rest, s.sent, s.authTxId,
        some (recvFrom 1024 d)⟩ := by
  unfold step at h
  split at h
  · split at h
    · cases h
    · exact .inl ⟨_, rfl, (Option.some.inj h).symm⟩
  · split at h
    · exact .inr (.inl ⟨_, _, rfl, ‹_›, (Option.some.inj h).symm⟩)
    · exact .inr (.inr (.inl ⟨_, _, _, _, rfl, ‹_›, (Option.some.inj h).symm⟩))
    · cases h
  · exact .inr (.inr (.inr (.inl ⟨_, rfl, (Option.some.inj h).symm⟩)))
  · split at h
    · exact .inr (.inr (.inr (.inr (.inl ⟨_, _, rfl, ‹_›, (Option.some.inj h).symm⟩))))
    · exact .inr (.inr (.inr (.inr (.inr ⟨_, _, rfl, ‹_›, ‹_›, (Option.some.inj h).symm⟩))))
    · cases h

/-- The second request is out before its reply is waited for, and its reply is the end. -/
structure Staged (s : Allocate) : Prop where
  sent : s.phase = .waitingAuth → s.authTxId.isSome
  ended : s.authReply.isSome → ∃ result, s.phase = .returned result

theorem staged_step (hJ : s.Staged) (h : step digests client s a = some s') : s'.Staged := by
  rcases step_some h with ⟨m, -, rfl⟩ | ⟨_, _, -, hp, rfl⟩ | ⟨_, _, _, _, -, hp, rfl⟩ |
    ⟨d, -, rfl⟩ | ⟨d, _, -, hp, rfl⟩ | ⟨d, _, -, hp, -, rfl⟩
  · exact ⟨fun h => (by cases h), fun _ => ⟨_, rfl⟩⟩
  · -- nothing was replied before
    refine ⟨fun h => (by cases h), fun hr => ?_⟩
    obtain ⟨_, hr⟩ := hJ.ended hr
    rw [hp] at hr; cases hr
  · refine ⟨fun _ => rfl, fun hr => ?_⟩
    obtain ⟨_, hr⟩ := hJ.ended hr
    rw [hp] at hr; cases hr
  · exact ⟨hJ.sent, hJ.ended⟩
  · refine ⟨fun hw => ?_, fun hr => ?_⟩
    · -- the first reply ends the call or brings a challenge
      have hne : first client (recvFrom 1024 d) ≠ .waitingAuth := by
        unfold first
        split
        · split <;> exact fun h => by cases h
        · split <;> exact fun h => by cases h
      exact absurd hw hne
    · obtain ⟨_, hr⟩ := hJ.ended hr
      rw [hp] at hr; cases hr
  · exact ⟨fun h => (by cases h), fun _ => ⟨_, rfl⟩⟩

/-- **One step keeps the client sound exactly if** what it takes for the second reply is. -/
theorem sound_step (hJ : s.Staged) (hP : s.Sound) (h : step digests client s a = some s') :
    s'.Sound ↔ s.Answered a := by
  rcases step_some h with ⟨m, rfl, rfl⟩ | ⟨_, _, rfl, hp, rfl⟩ | ⟨_, _, _, _, rfl, hp, rfl⟩ |
    ⟨d, rfl, rfl⟩ | ⟨d, _, rfl, hp, rfl⟩ | ⟨d, rest, rfl, hp, hs, rfl⟩
  · exact iff_of_true hP (fun h => by cases h)
  · exact iff_of_true hP (fun h => by cases h)
  · refine iff_of_true (fun response hr => ?_) (fun h => by cases h)
    obtain ⟨_, hret⟩ := hJ.ended (Option.isSome_iff_exists.2 ⟨response, hr⟩)
    rw [hp] at hret; cases hret
  · exact iff_of_true hP (fun h => by cases h)
  · exact iff_of_true hP (fun _ hw => by rw [hp] at hw; cases hw)
  · obtain ⟨txId, htx⟩ := Option.isSome_iff_exists.1 (hJ.sent hp)
    constructor
    · intro hsound _ _ txId' d' rest' htx' hs'
      rw [hs] at hs'; obtain ⟨rfl, rfl⟩ := List.cons.inj hs'
      obtain ⟨txId'', h1, hans⟩ := hsound _ rfl
      have h2 : txId'' = txId' := Option.some.inj (h1.symm.trans htx')
      exact h2 ▸ hans
    · intro hans response hr
      obtain rfl := Option.some.inj hr
      exact ⟨txId, htx, hans rfl hp txId d rest htx hs⟩

end Allocate

/-- **Answers are those to the client's own request** exactly in the runs where each datagram
that a client finds first when it receives is such an answer, or has no address for a Binding
request. -/
theorem answers_match_iff (digests : Digests) (client : TurnClient) :
    (∀ as, (∀ s, Sys.Visits StunDiscover.step .init as s → s.Sound) ↔
      ∀ s a, Sys.Takes StunDiscover.step .init as s a → s.Answered a) ∧
    ∀ as, (∀ s, Sys.Visits (Allocate.step digests client) .init as s → s.Sound) ↔
      ∀ s a, Sys.Takes (Allocate.step digests client) .init as s a → s.Answered a := by
  constructor
  · intro as
    exact Sys.visits_iff_takes (J := StunDiscover.Sent)
      (fun s a s' hJ _ _ h => StunDiscover.sent_step hJ h)
      (fun s a s' hJ hP h => StunDiscover.sound_step hJ hP h) as
      (fun h => by cases h) (fun _ h => by cases h)
  · intro as
    exact Sys.visits_iff_takes (J := Allocate.Staged)
      (fun s a s' hJ _ _ h => Allocate.staged_step hJ h)
      (fun s a s' hJ hP h => Allocate.sound_step hJ hP h) as
      ⟨fun h => (by cases h), fun h => (by cases h)⟩ (fun _ h => by cases h)

/-! ## Other datagrams -/

/-- A header that is that of no answer: zeros all over, with a cookie and an id of zeros. -/
def zeroHeader : List UInt8 := List.replicate 20 0

def strangerAddr : SocketAddr := .v4 #v[203, 0, 113, 9] 4444

/-- An address that a stranger sends to the socket. -/
def forged : Datagram :=
  ⟨strangerAddr, zeroHeader ++ Sent.encodeAll [] ++ (addressAttribute 0x0020 #v[203, 0, 113, 9] 4444).encode ++ []⟩

theorem stunAnswer_forged : stunAnswer (recvFrom 512 forged) = .ok strangerAddr := by
  have hall : recvFrom 512 forged = forged.data := List.take_of_length_le (by decide)
  have hfound : firstAddress 0x0020 forged.data = some strangerAddr :=
    firstAddress_encode (by decide) (by simp) _ _ _
  rw [stunAnswer, parseXorMappedAddress_eq, hall, hfound]; rfl

/-- The challenge of the server, for a transaction id of zeros. -/
def challenge : Datagram :=
  ⟨smallClient.serverAddr, u16ToBeBytes allocateError ++ List.replicate 18 0 ++
    Sent.encodeAll [.zeros attrRealm [0x72] (by decide), .zeros attrNonce [0x6E] (by decide)]⟩

theorem first_challenge : Allocate.first smallClient (recvFrom 1024 challenge) = .challenged "r" "n" := by
  have hall : recvFrom 1024 challenge = challenge.data := List.take_of_length_le (by decide)
  have hwalk : walk 20 (challenge.data.drop 20) =
      Sent.metAll 20 [.zeros attrRealm [0x72] (by decide), .zeros attrNonce [0x6E] (by decide)] := by
    have h := walk_encodeAll 20
      [.zeros attrRealm [0x72] (by decide), .zeros attrNonce [0x6E] (by decide)] []
    rw [List.append_nil, walk_nil, List.append_nil] at h
    exact h
  have hread : TurnClient.extractAuthChallenge challenge.data = .ok ("r", "n") := by
    have hr : Utf8.fromUtf8Lossy [0x72] = "r" := Utf8.fromUtf8Lossy_bytes "r"
    have hn : Utf8.fromUtf8Lossy [0x6E] = "n" := Utf8.fromUtf8Lossy_bytes "n"
    rw [TurnClient.extractAuthChallenge, challengeFrom_eq, hwalk]
    have hboth : challengeOf (Sent.metAll 20 [.zeros attrRealm [0x72] (by decide),
        .zeros attrNonce [0x6E] (by decide)]) none none = (some "r", some "n") := by
      simp only [Sent.metAll, challengeOf, Sent.met_complete, not_true_eq_false, if_false]
      simp [Sent.met, Sent.zeros, attrRealm, attrNonce, hr, hn]
    rw [hboth]; rfl
  have htype : TurnClient.getMessageType challenge.data = allocateError := by decide
  rw [hall, Allocate.first, if_pos htype, hread]

/-- **A stranger's datagram gives an address, and a repeated challenge is taken for the reply**
to the second request. -/
theorem others_answer :
    (∃ as s, Sys.Visits StunDiscover.step .init as s ∧ ¬ s.Sound) ∧
      ∃ as s, Sys.Visits (Allocate.step smallDigests smallClient) .init as s ∧ ¬ s.Sound := by
  constructor
  · refine ⟨[.send (.replicate 12 1), .arrive forged, .receive], _,
      ⟨_, List.prefix_rfl, rfl⟩, fun hsound => ?_⟩
    obtain ⟨request, response, -, hr, hans⟩ := hsound strangerAddr (congrArg _ stunAnswer_forged)
    obtain rfl := Option.some.inj hr
    exact absurd hans.1 (by decide)
  · have hrun : Sys.run (Allocate.step smallDigests smallClient) .init
        [.send (.replicate 12 0), .arrive challenge, .arrive challenge, .receive] =
          some ⟨.challenged "r" "n", [challenge],
            [smallClient.buildAllocateRequest smallDigests (.replicate 12 0) none], none, none⟩ := by
      rw [← first_challenge]; rfl
    let requests := [smallClient.buildAllocateRequest smallDigests (.replicate 12 0) none,
      smallClient.buildAllocateRequest smallDigests (.replicate 12 1) (some ("r", "n"))]
    refine ⟨[.send (.replicate 12 0), .arrive challenge, .arrive challenge, .receive] ++
      [.send (.replicate 12 1), .receive],
      ⟨.returned (Allocate.second smallClient (recvFrom 1024 challenge)), [], requests,
        some (.replicate 12 1), some (recvFrom 1024 challenge)⟩,
      ⟨_, List.prefix_rfl, ?_⟩, fun hsound => ?_⟩
    · rw [Sys.run_append, hrun]; rfl
    · obtain ⟨txId, htx, hans⟩ := hsound _ rfl
      obtain rfl := Option.some.inj htx
      exact absurd hans (by unfold HasTxId; decide)

end Auxlry
