import Auxlry.Proof.Frames
import Auxlry.Spec.Proxy
import Mathlib.Data.List.Pairwise

/-!
# What is received of a frame

A stream may break after any number of bytes, and a reader takes what has arrived. What the
encoding is said to do is a hypothesis, where it is used: `Bincode.RefusesParts` and
`Bincode.WritesShortest`.

* `recvMessage_part`: **a part of a frame** is received as its message or not at all.
* `Pipe.recv_whole`: from a stream that does not break, a message is received **exactly if** it
  has at most 64 MiB.
* `received_can_be_sent`: **what was received can be sent on**, and is received again.
-/

namespace Auxlry

open Wire (ofBeBytes toBeBytes length_toBeBytes)

variable {codec : Bincode}

/-! ## What fails -/

def transportErrors : List String :=
  ["failed to encode message", "failed to write message length", "failed to write message data",
    "failed to read message length", "failed to read message data", "failed to decode message"]

/-- The errors of sending and receiving. -/
def TransportError (e : String) : Prop :=
  e ∈ transportErrors ∨ ∃ n : ℕ, e = "message too large: " ++ toString n ++ " bytes"

/-- A message was not sent or not received. -/
def Failed {α : Type} (res : Except String α) : Prop := ∃ e, res = .error e ∧ TransportError e

theorem not_failed_ok {α : Type} {v : α} : ¬ Failed (.ok v : Except String α) := by
  rintro ⟨e, he, -⟩
  cases he

theorem writeAll_prefix (send : SendStream) (data : List UInt8) :
    (send.writeAll data).2.written <+: send.written ++ data := by
  unfold SendStream.writeAll
  split
  · exact List.prefix_rfl
  · split
    · exact List.prefix_rfl
    · exact List.prefix_append_right_inj _ |>.2 (List.take_prefix _ _)

/-- What was sent is a part of the frame, and all of it if nothing failed. -/
theorem sendMessage_part (codec : Bincode) (room : Option ℕ) (m : ProtocolMessage) :
    (sendMessage codec ⟨[], room⟩ m).2.written <+: frameOf codec m ∧
      ∀ e, (sendMessage codec ⟨[], room⟩ m).1 = .error e → TransportError e := by
  cases hdata : codec.encode m with
  | none =>
    simp only [sendMessage, hdata, frameOf]
    exact ⟨List.nil_prefix, fun e he => by cases he; exact .inl (by decide)⟩
  | some data =>
    have hlength := writeAll_prefix ⟨[], room⟩ (toBeBytes (data.length % 2 ^ 32))
    have hcases := writeAll_cases ⟨[], room⟩ (toBeBytes (data.length % 2 ^ 32))
    generalize hw : SendStream.writeAll ⟨[], room⟩ (toBeBytes (data.length % 2 ^ 32)) = w at hlength hcases
    obtain ⟨ok, send₁⟩ := w
    have hframe : toBeBytes (data.length % 2 ^ 32) <+: frame data := List.prefix_append _ _
    simp only [sendMessage, hdata, hw, frameOf]
    cases ok with
    | false => exact ⟨hlength.trans hframe, fun e he => by cases he; exact .inl (by decide)⟩
    | true =>
      have hwritten : send₁.written = toBeBytes (data.length % 2 ^ 32) := by
        rcases hcases with ⟨-, hwritten⟩ | ⟨hfalse, -⟩
        · exact hwritten
        · cases hfalse
      have hbody := writeAll_prefix send₁ data
      generalize hw' : send₁.writeAll data = w' at hbody
      obtain ⟨ok', send₂⟩ := w'
      rw [hwritten] at hbody
      simp only [hw']
      cases ok' with
      | false => exact ⟨hbody, fun e he => by cases he; exact .inl (by decide)⟩
      | true => exact ⟨hbody, fun e he => by cases he⟩

theorem recvMessage_failed {recv : List UInt8} {e : String} (h : (recvMessage codec recv).1 = .error e) :
    TransportError e := by
  unfold recvMessage at h
  split at h
  · cases h
    exact .inl (by decide)
  dsimp only at h
  split at h
  · cases h
    exact .inr ⟨_, rfl⟩
  split at h
  · cases h
    exact .inl (by decide)
  split at h
  · cases h
    exact .inl (by decide)
  · cases h

/-- From a part of a frame its own message is received, if any, and then its body is not too large. -/
theorem recvMessage_frame_part (hparts : codec.RefusesParts) {m msg : ProtocolMessage}
    {body part : List UInt8} (hbody : codec.encode m = some body) (hpart : part <+: frame body)
    (h : (recvMessage codec part).1 = .ok msg) : msg = m ∧ body.length ≤ maxBody := by
  have hrest : recvMessage codec part = (.ok msg, (recvMessage codec part).2) := by
    rw [← h]
  obtain ⟨hfour, data, hdata, hmax, hdecode⟩ := recvMessage_ok hrest
  obtain ⟨more, hmore⟩ := hpart
  have hmore : part ++ more = toBeBytes (body.length % 2 ^ 32) ++ body := hmore
  -- the length that is read is the one of the frame
  have hdrop : part.drop 4 <+: body := by
    refine ⟨more, ?_⟩
    rw [← List.drop_append_of_le_length hfour, hmore, List.drop_left' (length_toBeBytes _)]
  have hpre : data <+: body := hdata ▸ (List.take_prefix _ _).trans hdrop
  by_cases hall : data = body
  · subst hall
    rw [codec.decode_encode m data hbody] at hdecode
    cases hdecode
    exact ⟨rfl, hmax⟩
  · -- a shorter body is no message
    rw [hparts m body data hbody hpre hall] at hdecode
    cases hdecode

/-- **A part of a frame** is received as its message or not at all, whatever the size. -/
theorem recvMessage_part (hparts : codec.RefusesParts) {m : ProtocolMessage} {part : List UInt8}
    (hpart : part <+: frameOf codec m) :
    (recvMessage codec part).1 = .ok m ∨ Failed (recvMessage codec part).1 := by
  cases hrecv : (recvMessage codec part).1 with
  | error e => exact .inr ⟨e, rfl, recvMessage_failed hrecv⟩
  | ok msg =>
    left
    cases hbody : codec.encode m with
    | none =>
      -- nothing was sent
      rw [frameOf, hbody] at hpart
      rw [List.prefix_nil.1 hpart] at hrecv
      cases hrecv
    | some body =>
      rw [frameOf, hbody] at hpart
      rw [(recvMessage_frame_part hparts hbody hpart hrecv).1]

theorem Pipe.recv_part (hparts : codec.RefusesParts) {p : Pipe} {m : ProtocolMessage}
    {received : Except String ProtocolMessage} (hp : p.written <+: frameOf codec m)
    (h : p.recv codec = some received) : received = .ok m ∨ Failed received := by
  unfold Pipe.recv at h
  split at h
  · cases h
    exact recvMessage_part hparts ((List.take_prefix _ _).trans hp)
  · cases h

/-- Nothing was written. -/
theorem Pipe.recv_nil {p : Pipe} {received : Except String ProtocolMessage} (hp : p.written = [])
    (h : p.recv codec = some received) : Failed received := by
  unfold Pipe.recv Pipe.seen at h
  rw [hp, List.take_nil] at h
  split at h
  · cases h
    exact ⟨_, rfl, .inl (by decide)⟩
  · cases h

/-! ## Streams that do not break -/

/-- A message that can be encoded, in at most 64 MiB. -/
def Carried (codec : Bincode) (m : ProtocolMessage) : Prop :=
  ∃ body, codec.encode m = some body ∧ body.length ≤ maxBody

/-- What comes behind a message that can be read without waiting is not looked at. -/
theorem recvMessage_enough {part whole : List UInt8} (hpart : part <+: whole) (h : Pipe.enough part = true) :
    (recvMessage codec part).1 = (recvMessage codec whole).1 := by
  obtain ⟨more, rfl⟩ := hpart
  unfold Pipe.enough at h
  split at h
  · cases h
  rename_i lenBuf rest hlen
  have hlen' : readExact 4 (part ++ more) = some (lenBuf, rest ++ more) := by
    unfold readExact at hlen ⊢
    split at hlen
    · rename_i hfour
      cases hlen
      rw [if_pos (by rw [List.length_append]; omega), List.take_append_of_le_length hfour,
        List.drop_append_of_le_length hfour]
    · cases hlen
  simp only [recvMessage, hlen, hlen']
  split
  · rfl
  · rename_i hsmall
    have hfits : ofBeBytes lenBuf ≤ rest.length := by
      rcases Bool.or_eq_true_iff.1 h with hlarge | hfits
      · exact absurd (of_decide_eq_true hlarge) hsmall
      · exact of_decide_eq_true hfits
    have hfits' : ofBeBytes lenBuf ≤ (rest ++ more).length := by rw [List.length_append]; omega
    unfold readExact
    rw [if_pos hfits, if_pos hfits', List.take_append_of_le_length hfits, List.drop_append_of_le_length hfits]
    dsimp only
    split <;> rfl

/-- A whole frame is received **exactly if** its body is not too large. -/
theorem recvMessage_whole (hparts : codec.RefusesParts) (m : ProtocolMessage) :
    (recvMessage codec (frameOf codec m)).1 = .ok m ↔ Carried codec m := by
  constructor
  · intro hok
    cases hbody : codec.encode m with
    | none =>
      rw [frameOf, hbody] at hok
      cases hok
    | some body =>
      rw [frameOf, hbody] at hok
      exact ⟨body, hbody, (recvMessage_frame_part hparts hbody List.prefix_rfl hok).2⟩
  · rintro ⟨body, hbody, hmax⟩
    have hrecv := recvMessage_frame hbody hmax []
    rw [List.append_nil] at hrecv
    rw [frameOf, hbody]
    exact congrArg Prod.fst hrecv

/-- Nothing else is received from a stream that does not break, however much of it has arrived. -/
theorem Pipe.recv_whole {p : Pipe} {m : ProtocolMessage} {received : Except String ProtocolMessage}
    (hwritten : p.written = frameOf codec m) (hcut : p.cut = false) (h : p.recv codec = some received) :
    received = (recvMessage codec (frameOf codec m)).1 := by
  unfold Pipe.recv at h
  split at h
  · rename_i hready
    cases h
    rcases Bool.or_eq_true_iff.1 hready with hended | henough
    · unfold Pipe.ended at hended
      rw [hcut, Bool.false_or] at hended
      have hall := of_decide_eq_true (Bool.and_eq_true_iff.1 hended).2
      rw [Pipe.seen, List.take_of_length_le hall, hwritten]
    · exact recvMessage_enough (hwritten ▸ List.take_prefix _ _) henough
  · cases h

/-! ## The encodings of a few messages -/

/-- Neither of two encodings begins with the other. -/
def Separate (a b : ProtocolMessage × List UInt8) : Prop := ¬ a.2 <+: b.2 ∧ ¬ b.2 <+: a.2

instance (a b : ProtocolMessage × List UInt8) : Decidable (Separate a b) := inferInstanceAs (Decidable (_ ∧ _))

instance : Std.Symm Separate := ⟨fun _ _ => And.symm⟩

theorem eq_of_prefix {table : List (ProtocolMessage × List UInt8)} (h : table.Pairwise Separate)
    {a b : ProtocolMessage × List UInt8} (ha : a ∈ table) (hb : b ∈ table) (hpre : a.2 <+: b.2) : a = b := by
  by_contra hne
  exact (h.forall ha hb hne).1 hpre

/-- The encodings of a few messages; any other message is refused. -/
def Bincode.ofTable (table : List (ProtocolMessage × List UInt8)) (h : table.Pairwise Separate) : Bincode where
  encode m := (table.find? fun e => e.1 = m).map (·.2)
  decode data := (table.find? fun e => e.2 = data).map (·.1)
  decode_encode := by
    intro m data hm
    obtain ⟨e, he, rfl⟩ := Option.map_eq_some_iff.1 hm
    have hmem := List.mem_of_find?_eq_some he
    have hmsg : e.1 = m := by simpa using List.find?_some he
    obtain ⟨e', he'⟩ : ∃ e', table.find? (fun x => x.2 = e.2) = some e' :=
      Option.isSome_iff_exists.1 (List.find?_isSome.2 ⟨e, hmem, decide_eq_true rfl⟩)
    have hdata : e'.2 = e.2 := by simpa using List.find?_some he'
    rw [he', Option.map_some, eq_of_prefix h (List.mem_of_find?_eq_some he') hmem (hdata ▸ List.prefix_rfl), hmsg]

variable {table : List (ProtocolMessage × List UInt8)}

theorem mem_of_decode {h : table.Pairwise Separate} {data : List UInt8} {m : ProtocolMessage}
    (hm : (Bincode.ofTable table h).decode data = some m) : (m, data) ∈ table := by
  obtain ⟨e, he, rfl⟩ := Option.map_eq_some_iff.1 hm
  have hdata : e.2 = data := by simpa using List.find?_some he
  rw [← hdata]
  exact List.mem_of_find?_eq_some he

theorem mem_of_encode {h : table.Pairwise Separate} {data : List UInt8} {m : ProtocolMessage}
    (hm : (Bincode.ofTable table h).encode m = some data) : (m, data) ∈ table := by
  obtain ⟨e, he, rfl⟩ := Option.map_eq_some_iff.1 hm
  have hmsg : e.1 = m := by simpa using List.find?_some he
  rw [← hmsg]
  exact List.mem_of_find?_eq_some he

theorem refusesParts_ofTable (h : table.Pairwise Separate) : (Bincode.ofTable table h).RefusesParts := by
  intro m body part hbody hpre hne
  cases hpart : (Bincode.ofTable table h).decode part with
  | none => rfl
  | some m' =>
    have heq := eq_of_prefix h (mem_of_decode hpart) (mem_of_encode hbody) hpre
    exact absurd (congrArg Prod.snd heq) hne

/-! ## Sending on -/

/-- **What was received can be sent on.** Whatever bytes a message was received from, a stream that
does not break takes it, and its peer receives it as it was, in front of whatever follows. -/
theorem received_can_be_sent (hshortest : codec.WritesShortest) {recv rest : List UInt8} {m : ProtocolMessage}
    (h : recvMessage codec recv = (.ok m, rest)) {send : SendStream} (hroom : send.room = none) :
    ∃ send' sent, sendMessage codec send m = (.ok (), send') ∧ send'.written = send.written ++ sent ∧
      ∀ more, recvMessage codec (sent ++ more) = (.ok m, more) := by
  obtain ⟨-, data, -, hmax, hdecode⟩ := recvMessage_ok h
  obtain ⟨body, hbody, hlen⟩ := hshortest data m hdecode
  refine ⟨_, frame body, sendMessage_unbroken hroom hbody, rfl, fun more => ?_⟩
  exact recvMessage_frame hbody (Nat.le_trans hlen hmax) more

/-- A ping, received and sent on. -/
theorem received_can_be_sent_ping :
    ∃ send' sent, sendMessage (.ofTable [(.ping, [15])] (by decide)) ⟨[], none⟩ .ping = (.ok (), send') ∧
      send'.written = sent ∧ sent.length = 5 := by
  have hshortest : (Bincode.ofTable [(.ping, [15])] (by decide)).WritesShortest := by
    intro data m hm
    cases List.mem_singleton.1 (mem_of_decode hm)
    exact ⟨[15], rfl, Nat.le_refl _⟩
  have hbody : (Bincode.ofTable [(.ping, [15])] (by decide)).encode .ping = some [15] := rfl
  have hrecv := recvMessage_frame hbody (by decide) []
  have hroom : SendStream.room ⟨[], none⟩ = none := rfl
  obtain ⟨send', sent, hsend, hsent, -⟩ := received_can_be_sent hshortest hrecv hroom
  refine ⟨send', sent, hsend, hsent, ?_⟩
  rw [sendMessage_unbroken rfl hbody] at hsend
  cases hsend
  exact (congrArg List.length hsent).symm

end Auxlry
