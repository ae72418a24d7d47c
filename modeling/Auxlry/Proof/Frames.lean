import Auxlry.Spec.Transport

/-!
# Frames of messages

What a stream accepts should be what its peer receives. The sender writes the length of
a body in 32 bits whatever it is, and the receiver takes bodies of at most 64 MiB.

* `sendAll_written`: a stream holds the frames of the accepted messages, and at most a
  part of one more.
* `delivered_iff`: **every stream delivers** what it accepts, with true lengths, exactly
  if no body is larger than 64 MiB.
* `large_refused`: bodies of 64 MiB and of 4 GiB that are accepted, and refused.
-/

namespace Auxlry

open Wire

variable {codec : Bincode} {send send' : SendStream} {msg : ProtocolMessage} {msgs : List ProtocolMessage}
  {data rest : List UInt8}

/-- The largest body that is received. -/
def maxBody : ℕ := 64 * 1024 * 1024

/-- The frame of a body. -/
def frame (data : List UInt8) : List UInt8 := toBeBytes (data.length % 2 ^ 32) ++ data

/-- The frame of a message, if it can be encoded. -/
def frameOf (codec : Bincode) (msg : ProtocolMessage) : List UInt8 := (codec.encode msg).elim [] frame

/-- A stream delivers: the receiver gets the accepted messages, in order, and each of them is
announced with its true length. -/
def Delivered (codec : Bincode) (send : SendStream) (msgs : List ProtocolMessage) : Prop :=
  recvAll codec (sendAll codec send msgs).1.length (sendAll codec send msgs).2.written =
      (sendAll codec send msgs).1.map .ok ∧
    ∀ msg ∈ (sendAll codec send msgs).1, ∀ data, codec.encode msg = some data →
      ofBeBytes ((frame data).take 4) = data.length

/-! ## Writing -/

theorem writeAll_cases (send : SendStream) (data : List UInt8) :
    ((send.writeAll data).1 = true ∧ (send.writeAll data).2.written = send.written ++ data) ∨
      ((send.writeAll data).1 = false ∧ (send.writeAll data).2.room = some 0 ∧
        ∃ part, (send.writeAll data).2.written = send.written ++ part) := by
  unfold SendStream.writeAll
  split
  · exact .inl ⟨rfl, rfl⟩
  · split
    · exact .inl ⟨rfl, rfl⟩
    · exact .inr ⟨rfl, rfl, _, rfl⟩

/-- A message is accepted with its whole frame, refused before any of it, or refused because
the stream breaks. -/
theorem sendMessage_cases (codec : Bincode) (send : SendStream) (msg : ProtocolMessage) :
    (∃ data send', codec.encode msg = some data ∧ sendMessage codec send msg = (.ok (), send') ∧
        send'.written = send.written ++ frame data) ∨
      (∃ e, codec.encode msg = none ∧ sendMessage codec send msg = (.error e, send)) ∨
      ∃ e send' part, sendMessage codec send msg = (.error e, send') ∧ send'.room = some 0 ∧
        send'.written = send.written ++ part := by
  cases hdata : codec.encode msg with
  | none => exact .inr (.inl ⟨_, rfl, by simp only [sendMessage, hdata]; rfl⟩)
  | some data =>
    have hlength := writeAll_cases send (toBeBytes (data.length % 2 ^ 32))
    generalize hw : send.writeAll (toBeBytes (data.length % 2 ^ 32)) = w at hlength
    obtain ⟨ok, send₁⟩ := w
    rcases hlength with ⟨rfl, hwritten⟩ | ⟨rfl, hroom, part, hwritten⟩
    · have hbody := writeAll_cases send₁ data
      generalize hw' : send₁.writeAll data = w' at hbody
      obtain ⟨ok', send₂⟩ := w'
      rcases hbody with ⟨rfl, hwritten'⟩ | ⟨rfl, hroom, part, hwritten'⟩
      · refine .inl ⟨data, send₂, rfl, by simp only [sendMessage, hdata, hw, hw'], ?_⟩
        rw [hwritten', hwritten, frame, List.append_assoc]
      · refine .inr (.inr ⟨_, send₂, toBeBytes (data.length % 2 ^ 32) ++ part,
          by simp only [sendMessage, hdata, hw, hw']; rfl, hroom, ?_⟩)
        rw [hwritten', hwritten, List.append_assoc]
    · exact .inr (.inr ⟨_, send₁, part, by simp only [sendMessage, hdata, hw]; rfl, hroom, hwritten⟩)

/-- A broken stream accepts nothing more. -/
theorem sendAll_broken (hroom : send.room = some 0) (msgs : List ProtocolMessage) :
    sendAll codec send msgs = ([], send) := by
  obtain ⟨written, room⟩ := send
  obtain rfl : room = some 0 := hroom
  induction msgs with
  | nil => rfl
  | cons msg msgs ih =>
    have hlength : ∀ n, SendStream.writeAll ⟨written, some 0⟩ (toBeBytes n) = (false, ⟨written, some 0⟩) := by
      intro n
      simp [SendStream.writeAll]
    have hsend : ∃ e, sendMessage codec ⟨written, some 0⟩ msg = (.error e, ⟨written, some 0⟩) := by
      unfold sendMessage
      split
      · exact ⟨_, rfl⟩
      · simp only [hlength]
        exact ⟨_, rfl⟩
    obtain ⟨e, he⟩ := hsend
    simp only [sendAll, he]
    exact ih

/-- **What a stream holds**: the frames of the accepted messages, and a part of one that was
not. Every accepted message can be encoded, and is one of those sent. -/
theorem sendAll_written (codec : Bincode) (send : SendStream) (msgs : List ProtocolMessage) :
    (∃ part, (sendAll codec send msgs).2.written =
        send.written ++ (sendAll codec send msgs).1.flatMap (frameOf codec) ++ part) ∧
      ∀ msg ∈ (sendAll codec send msgs).1, msg ∈ msgs ∧ ∃ data, codec.encode msg = some data := by
  induction msgs generalizing send with
  | nil => exact ⟨⟨[], by simp [sendAll]⟩, by simp [sendAll]⟩
  | cons msg msgs ih =>
    rcases sendMessage_cases codec send msg with ⟨data, send', hdata, he, hwritten⟩ | ⟨e, -, he⟩ |
      ⟨e, send', part, he, hroom, hwritten⟩
    · simp only [sendAll, he]
      obtain ⟨⟨part, hpart⟩, hmem⟩ := ih send'
      refine ⟨⟨part, ?_⟩, ?_⟩
      · rw [hpart, hwritten, List.flatMap_cons, frameOf, hdata]
        simp
      · intro m hm
        rcases List.mem_cons.1 hm with rfl | hm
        · exact ⟨List.mem_cons_self, data, hdata⟩
        · exact ⟨List.mem_cons_of_mem _ (hmem m hm).1, (hmem m hm).2⟩
    · simp only [sendAll, he]
      obtain ⟨hpart, hmem⟩ := ih send
      exact ⟨hpart, fun m hm => ⟨List.mem_cons_of_mem _ (hmem m hm).1, (hmem m hm).2⟩⟩
    · simp only [sendAll, he, sendAll_broken hroom]
      exact ⟨⟨part, by simpa using hwritten⟩, by simp⟩

/-- A stream that does not break takes what can be encoded. -/
theorem sendMessage_unbroken (hroom : send.room = none) {m : ProtocolMessage} {body : List UInt8}
    (hbody : codec.encode m = some body) :
    sendMessage codec send m = (.ok (), { send with written := send.written ++ frame body }) := by
  simp [sendMessage, hbody, SendStream.writeAll, hroom, frame]

/-- A stream that does not break accepts what can be encoded. -/
theorem sendAll_unbroken (codec : Bincode) (hroom : send.room = none) (msgs : List ProtocolMessage) :
    (sendAll codec send msgs).1 = msgs.filter fun msg => (codec.encode msg).isSome := by
  induction msgs generalizing send with
  | nil => rfl
  | cons msg msgs ih =>
    cases hdata : codec.encode msg with
    | none =>
      have hsend : sendMessage codec send msg = (.error "failed to encode message", send) := by
        simp only [sendMessage, hdata]
      simp [sendAll, hsend, hdata, ih hroom]
    | some data =>
      simp only [sendAll, sendMessage_unbroken hroom hdata, List.filter_cons, hdata, Option.isSome_some, if_true]
      exact congrArg (msg :: ·) (ih hroom)

/-! ## Reading -/

theorem readExact_append {n : ℕ} (h : data.length = n) (rest : List UInt8) :
    readExact n (data ++ rest) = some (data, rest) := by
  subst h
  simp [readExact]

theorem take_frame (data : List UInt8) : (frame data).take 4 = toBeBytes (data.length % 2 ^ 32) :=
  List.take_left' (length_toBeBytes _)

/-- The announced length of a body of less than 4 GiB is true. -/
theorem length_frame {data : List UInt8} (h : data.length < 2 ^ 32) :
    ofBeBytes (toBeBytes (data.length % 2 ^ 32)) = data.length := by
  rw [Nat.mod_eq_of_lt h]
  exact ofBeBytes_toBeBytes (by omega)

theorem recvMessage_frame (hdata : codec.encode msg = some data) (hmax : data.length ≤ maxBody)
    (rest : List UInt8) : recvMessage codec (frame data ++ rest) = (.ok msg, rest) := by
  unfold maxBody at hmax
  have hlength : ofBeBytes (toBeBytes (data.length % 2 ^ 32)) = data.length := length_frame (by omega)
  simp only [recvMessage, frame, List.append_assoc, readExact_append (length_toBeBytes _), hlength]
  rw [if_neg (by omega), readExact_append rfl]
  simp only [codec.decode_encode msg data hdata]

/-- A body that is too large, but not too large for its length, is refused. -/
theorem recvMessage_large (codec : Bincode) {data : List UInt8} (hlarge : maxBody < data.length)
    (hlt : data.length < 2 ^ 32) (rest : List UInt8) : (recvMessage codec (frame data ++ rest)).1 =
      .error ("message too large: " ++ toString data.length ++ " bytes") := by
  unfold maxBody at hlarge
  simp only [recvMessage, frame, List.append_assoc, readExact_append (length_toBeBytes _), length_frame hlt]
  rw [if_pos hlarge]

/-- What a message was received from: a body of at most 64 MiB, behind its length. -/
theorem recvMessage_ok {recv : List UInt8} {m : ProtocolMessage}
    (h : recvMessage codec recv = (.ok m, rest)) :
    4 ≤ recv.length ∧ ∃ data, data = (recv.drop 4).take (ofBeBytes (recv.take 4)) ∧ data.length ≤ maxBody ∧
      codec.decode data = some m := by
  unfold recvMessage at h
  split at h
  · cases h
  rename_i lenBuf recv' hlen
  dsimp only at h
  split at h
  · cases h
  rename_i hsmall
  split at h
  · cases h
  rename_i data recv'' hdata
  split at h
  · cases h
  rename_i msg hmsg
  cases h
  unfold readExact at hlen hdata
  split at hlen
  · rename_i hfour
    cases hlen
    split at hdata
    · cases hdata
      refine ⟨hfour, _, rfl, ?_, hmsg⟩
      rw [List.length_take, maxBody]; omega
    · cases hdata
  · cases hlen

/-- Of frames with true lengths, all are received exactly if none is too large. -/
theorem recvAll_frames (msgs : List ProtocolMessage)
    (henc : ∀ msg ∈ msgs, ∃ data, codec.encode msg = some data ∧ data.length < 2 ^ 32) :
    recvAll codec msgs.length (msgs.flatMap (frameOf codec) ++ rest) = msgs.map .ok ↔
      ∀ msg ∈ msgs, ∀ data, codec.encode msg = some data → data.length ≤ maxBody := by
  induction msgs with
  | nil => simp [recvAll]
  | cons msg msgs ih =>
    obtain ⟨data, hdata, hlt⟩ := henc msg List.mem_cons_self
    have ih := ih fun m hm => henc m (List.mem_cons_of_mem _ hm)
    have hframe : (msg :: msgs).flatMap (frameOf codec) ++ rest =
        frame data ++ (msgs.flatMap (frameOf codec) ++ rest) := by
      rw [List.flatMap_cons, frameOf, hdata, List.append_assoc]; rfl
    rw [hframe, List.length_cons, recvAll, List.map_cons, List.forall_mem_cons]
    by_cases hmax : data.length ≤ maxBody
    · rw [recvMessage_frame hdata hmax, List.cons.injEq, ih]
      have hfirst : ∀ d, codec.encode msg = some d → d.length ≤ maxBody := by
        intro d hd
        rw [hdata] at hd; cases hd
        exact hmax
      exact and_congr (iff_of_true rfl hfirst) .rfl
    · have hlarge := recvMessage_large codec (Nat.lt_of_not_le hmax) hlt
        (msgs.flatMap (frameOf codec) ++ rest)
      refine iff_of_false (fun h => ?_) fun h => hmax (h.1 data hdata)
      have hhead := (List.cons.inj h).1
      rw [hlarge] at hhead
      cases hhead

/-! ## Delivery -/

/-- **The exact condition** for every stream to deliver a sequence of messages, wherever it
breaks: no message has a body of more than 64 MiB. -/
theorem delivered_iff (codec : Bincode) (msgs : List ProtocolMessage) :
    (∀ room, Delivered codec ⟨[], room⟩ msgs) ↔
      ∀ msg ∈ msgs, ∀ data, codec.encode msg = some data → data.length ≤ maxBody := by
  constructor
  · -- the stream that does not break accepts them all
    intro h
    obtain ⟨hrecv, hprefix⟩ := h none
    obtain ⟨⟨part, hwritten⟩, hmem⟩ := sendAll_written codec ⟨[], none⟩ msgs
    have henc : ∀ msg ∈ (sendAll codec ⟨[], none⟩ msgs).1,
        ∃ data, codec.encode msg = some data ∧ data.length < 2 ^ 32 := by
      intro msg hmsg
      obtain ⟨-, data, hdata⟩ := hmem msg hmsg
      have htrue := hprefix msg hmsg data hdata
      have hannounced : data.length % 2 ^ 32 < 2 ^ 32 := Nat.mod_lt _ (by decide)
      rw [take_frame, ofBeBytes_toBeBytes hannounced] at htrue
      exact ⟨data, hdata, by omega⟩
    rw [hwritten, List.nil_append, recvAll_frames _ henc] at hrecv
    intro msg hmsg data hdata
    refine hrecv msg ?_ data hdata
    rw [sendAll_unbroken codec rfl]
    exact List.mem_filter.2 ⟨hmsg, by rw [hdata]; rfl⟩
  · intro hmax room
    obtain ⟨⟨part, hwritten⟩, hmem⟩ := sendAll_written codec ⟨[], room⟩ msgs
    have hlt : ∀ msg ∈ (sendAll codec ⟨[], room⟩ msgs).1, ∀ data, codec.encode msg = some data →
        data.length ≤ maxBody := fun msg hmsg => hmax msg (hmem msg hmsg).1
    have h32 : maxBody < 2 ^ 32 := by decide
    refine ⟨?_, fun msg hmsg data hdata => ?_⟩
    · rw [hwritten, List.nil_append, recvAll_frames]
      · exact hlt
      · intro msg hmsg
        obtain ⟨-, data, hdata⟩ := hmem msg hmsg
        exact ⟨data, hdata, Nat.lt_of_le_of_lt (hlt msg hmsg data hdata) h32⟩
    · rw [take_frame]
      exact length_frame (Nat.lt_of_le_of_lt (hlt msg hmsg data hdata) h32)

/-! ## Large files -/

/-- A file of `n` letters. -/
def file (n : ℕ) : ProtocolMessage := .readFileResult ⟨"f", .ofList (.replicate n 'a')⟩

/-- Its encoding, from the variant, the path and the length of the content. -/
def fileBody (header : List UInt8) (n : ℕ) : List UInt8 := header ++ .replicate n 97

/-- The encoding of that message; the others are left out. -/
def fileCodec (header : List UInt8) (n : ℕ) : Bincode where
  encode msg := if msg = file n then some (fileBody header n) else none
  decode data := if data = fileBody header n then some (file n) else none
  decode_encode := by
    intro m data h
    split at h
    · rename_i hm
      cases h
      rw [if_pos rfl, hm]
    · cases h

variable {header : List UInt8} {n : ℕ}

theorem encode_file : (fileCodec header n).encode (file n) = some (fileBody header n) := if_pos rfl

theorem length_fileBody : (fileBody header n).length = header.length + n := by
  rw [fileBody, List.length_append, List.length_replicate]

theorem sendMessage_file : sendMessage (fileCodec header n) ⟨[], none⟩ (file n) =
    (.ok (), ⟨frame (fileBody header n), none⟩) := by
  simp only [sendMessage, encode_file, SendStream.writeAll, frame, List.nil_append]

/-- The announced length of a body of 4 GiB and a header is that of the header. -/
theorem announced_file (hheader : header.length < 256) (hn : n = 2 ^ 32) :
    ofBeBytes (toBeBytes ((fileBody header n).length % 2 ^ 32)) = header.length := by
  rw [length_fileBody, hn, Nat.add_mod_right, Nat.mod_eq_of_lt (by omega), ofBeBytes_toBeBytes (by omega)]

theorem recvMessage_file (hheader : header.length < 256) (hn : n = 2 ^ 32) :
    (recvMessage (fileCodec header n) (frame (fileBody header n))).1 = .error "failed to decode message" := by
  have hdecode : (fileCodec header n).decode header = none := by
    refine if_neg fun he => ?_
    have hlen := congrArg List.length he
    rw [length_fileBody] at hlen
    omega
  simp only [recvMessage, frame, readExact_append (length_toBeBytes _), announced_file hheader hn]
  rw [if_neg (by omega), fileBody, readExact_append rfl]
  simp only [hdecode]

/-- **Large files are accepted and refused**: one of 64 MiB because of its length, and one of
4 GiB because the sender announces a body of 12 bytes. -/
theorem large_refused :
    ((sendMessage (fileCodec [7, 1, 102, 252, 0, 0, 0, 4] (2 ^ 26)) ⟨[], none⟩ (file (2 ^ 26))).1 = .ok () ∧
      (recvMessage (fileCodec [7, 1, 102, 252, 0, 0, 0, 4] (2 ^ 26))
          (sendMessage (fileCodec [7, 1, 102, 252, 0, 0, 0, 4] (2 ^ 26)) ⟨[], none⟩ (file (2 ^ 26))).2.written).1 =
        .error ("message too large: " ++ toString 67108872 ++ " bytes")) ∧
    ((sendMessage (fileCodec [7, 1, 102, 253, 0, 0, 0, 0, 1, 0, 0, 0] (2 ^ 32)) ⟨[], none⟩ (file (2 ^ 32))).1 =
        .ok () ∧
      (recvMessage (fileCodec [7, 1, 102, 253, 0, 0, 0, 0, 1, 0, 0, 0] (2 ^ 32))
          (sendMessage (fileCodec [7, 1, 102, 253, 0, 0, 0, 0, 1, 0, 0, 0] (2 ^ 32)) ⟨[], none⟩
            (file (2 ^ 32))).2.written).1 = .error "failed to decode message" ∧
      ofBeBytes ((frame (fileBody [7, 1, 102, 253, 0, 0, 0, 0, 1, 0, 0, 0] (2 ^ 32))).take 4) = 12) := by
  refine ⟨⟨by rw [sendMessage_file], ?_⟩, by rw [sendMessage_file], ?_, ?_⟩
  · have hlen : (fileBody [7, 1, 102, 252, 0, 0, 0, 4] (2 ^ 26)).length = 67108872 := length_fileBody
    have hmax : maxBody < (fileBody [7, 1, 102, 252, 0, 0, 0, 4] (2 ^ 26)).length := by rw [hlen]; decide
    rw [sendMessage_file, ← List.append_nil (frame _),
      recvMessage_large _ hmax (by rw [hlen]; decide) [], hlen]
  · rw [sendMessage_file]
    exact recvMessage_file (by decide) rfl
  · rw [take_frame]
    exact announced_file (by decide) rfl

end Auxlry
