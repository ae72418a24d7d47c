import Mathlib.Data.List.Basic

/-!
# UTF-8 bytes

The encoding of a string as a list of bytes, and the places where it may be cut.

* `isBoundary_encode`: **the boundary test is right**. On an encoding it accepts the
  lengths of the encodings of the initial parts, and nothing else.
* `isBoundary_drop`: cutting at a boundary keeps the boundaries behind it.
* `isBoundary_succ`: a byte below 128 ends at a boundary.
* `across_iff`: the places inside an encoding that are no boundaries have a character across them.
* `decode_bytes`: what was encoded reads back as it was.
-/

namespace Utf8

/-- The encoding of a list of characters. -/
def encode (cs : List Char) : List UInt8 := cs.flatMap String.utf8EncodeChar

/-- The bytes of a string. -/
def bytes (s : String) : List UInt8 := encode s.toList

/-- `String::from_utf8`: the text, if the bytes are an encoding. -/
def decode (bs : List UInt8) : Option String := String.fromUTF8? bs.toByteArray

/-- **What was encoded reads back** as it was. -/
theorem decode_bytes (s : String) : decode (bytes s) = some s := by
  have hs : (bytes s).toByteArray = s.toByteArray := String.utf8Encode_toList
  unfold decode String.fromUTF8?
  rw [hs, dif_pos s.isValidUTF8]; rfl

/-- **What reads back is an encoding**, that of the text. -/
theorem bytes_of_decode {bs : List UInt8} {s : String} (h : decode bs = some s) : bytes s = bs := by
  have hs : (bytes s).toByteArray = s.toByteArray := String.utf8Encode_toList
  unfold decode String.fromUTF8? at h
  split at h
  · cases h
    have hsame : (bytes (String.fromUTF8 bs.toByteArray ‹_›)).toByteArray = bs.toByteArray := hs
    have hlist := congrArg (fun b : ByteArray => b.data.toList) hsame
    simpa using hlist
  · cases h

/-- A byte that continues a character. -/
def Cont (b : UInt8) : Prop := 128 ≤ b.toNat ∧ b.toNat < 192

instance (b : UInt8) : Decidable (Cont b) := inferInstanceAs (Decidable (_ ∧ _))

/-- `str::is_char_boundary`. -/
def IsBoundary (bs : List UInt8) (i : ℕ) : Prop :=
  i = 0 ∨ i = bs.length ∨ ∃ b ∈ bs[i]?, ¬ Cont b

instance (bs : List UInt8) (i : ℕ) : Decidable (IsBoundary bs i) := by
  unfold IsBoundary; infer_instance

/-! ## One character -/

/-- A character is a first byte and continuations, and a first byte below 128 is all of it. -/
theorem encodeChar_cases (c : Char) :
    ∃ b bs, String.utf8EncodeChar c = b :: bs ∧ ¬ Cont b ∧ (∀ x ∈ bs, Cont x) ∧
      (b.toNat < 128 → bs = []) := by
  have hv : c.toNat < 1114112 := by
    have := c.valid
    simp only [UInt32.isValidChar, Nat.isValidChar] at this
    change c.val.toNat < 1114112
    omega
  -- one to four bytes, by the size of the code point
  unfold String.utf8EncodeChar
  simp only [Cont, Char.toNat_val]
  split
  · exact ⟨_, _, rfl, by simp; omega, by simp, fun _ => rfl⟩
  split
  · exact ⟨_, _, rfl, by simp; omega, by simp; omega, by simp; omega⟩
  split
  · exact ⟨_, _, rfl, by simp; omega, by simp; omega, by simp; omega⟩
  · exact ⟨_, _, rfl, by simp; omega, by simp; omega, by simp; omega⟩

theorem encode_cons (c : Char) (cs : List Char) :
    encode (c :: cs) = String.utf8EncodeChar c ++ encode cs := List.flatMap_cons

theorem encode_append (as bs : List Char) : encode (as ++ bs) = encode as ++ encode bs :=
  List.flatMap_append

/-! ## Boundaries -/

theorem isBoundary_zero (bs : List UInt8) : IsBoundary bs 0 := .inl rfl

/-- The end of an initial part of an encoding. -/
theorem isBoundary_length_encode (as bs : List Char) :
    IsBoundary (encode (as ++ bs)) (encode as).length := by
  rw [encode_append]
  rcases bs with _ | ⟨c, bs⟩
  · exact .inr (.inl (by simp [encode]))
  · obtain ⟨b, cs, hc, hb, -, -⟩ := encodeChar_cases c
    exact .inr (.inr ⟨b, by simp [encode_cons, hc], hb⟩)

/-- **The boundary test is right.** -/
theorem isBoundary_encode {cs : List Char} {i : ℕ} :
    IsBoundary (encode cs) i ↔ ∃ as, as <+: cs ∧ (encode as).length = i := by
  constructor
  · induction cs generalizing i with
    | nil =>
      rintro (rfl | rfl | ⟨b, hb, -⟩)
      · exact ⟨[], List.nil_prefix, rfl⟩
      · exact ⟨[], List.nil_prefix, rfl⟩
      · simp [encode] at hb
    | cons c cs ih =>
      obtain ⟨b, bs, hc, hb, hbs, -⟩ := encodeChar_cases c
      have hlen : (String.utf8EncodeChar c).length = bs.length + 1 := by rw [hc]; rfl
      intro h
      rcases Nat.lt_or_ge i (bs.length + 1) with hi | hi
      · -- inside the first character, only its start is a boundary
        refine ⟨[], List.nil_prefix, ?_⟩
        rcases h with rfl | rfl | ⟨x, hx, hn⟩
        · rfl
        · rw [encode_cons, List.length_append, hlen] at hi; omega
        · rcases i with _ | i
          · rfl
          · rw [encode_cons, hc, List.cons_append, List.getElem?_cons_succ,
              List.getElem?_append_left (by omega)] at hx
            exact absurd (hbs x (List.mem_of_getElem? hx)) hn
      · -- behind it, the boundaries are those of the rest
        obtain ⟨j, rfl⟩ := Nat.exists_eq_add_of_le hi
        have hj : IsBoundary (encode cs) j := by
          rcases h with h | h | ⟨x, hx, hn⟩
          · omega
          · rw [encode_cons, List.length_append, hlen] at h; exact .inr (.inl (by omega))
          · refine .inr (.inr ⟨x, ?_, hn⟩)
            rwa [encode_cons, List.getElem?_append_right (by omega), hlen, Nat.add_sub_cancel_left] at hx
        obtain ⟨as, has, rfl⟩ := ih hj
        exact ⟨c :: as, List.cons_prefix_cons.2 ⟨rfl, has⟩, by rw [encode_cons, List.length_append, hlen]⟩
  · rintro ⟨as, ⟨bs, rfl⟩, rfl⟩
    exact isBoundary_length_encode as bs

/-- **Cutting at a boundary** of an encoding leaves an encoding, with the boundaries
behind the cut. -/
theorem isBoundary_drop {cs : List Char} {o : ℕ} (ho : IsBoundary (encode cs) o) :
    ∃ as bs, cs = as ++ bs ∧ (encode cs).drop o = encode bs ∧
      ∀ i, IsBoundary (encode bs) i ↔ IsBoundary (encode cs) (o + i) := by
  obtain ⟨as, ⟨bs, rfl⟩, rfl⟩ := isBoundary_encode.1 ho
  refine ⟨as, bs, rfl, by rw [encode_append, List.drop_left], fun i => ?_⟩
  constructor
  · intro h
    obtain ⟨ds, ⟨es, rfl⟩, rfl⟩ := isBoundary_encode.1 h
    rw [← List.append_assoc, ← List.length_append, ← encode_append]
    exact isBoundary_length_encode (as ++ ds) es
  · rintro (h | h | ⟨b, hb, hn⟩)
    · exact .inl (by omega)
    · rw [encode_append, List.length_append] at h; exact .inr (.inl (by omega))
    · rw [encode_append, List.getElem?_append_right (by omega), Nat.add_sub_cancel_left] at hb
      exact .inr (.inr ⟨b, hb, hn⟩)

/-- **A byte below 128 ends at a boundary.** -/
theorem isBoundary_succ {cs : List Char} {i : ℕ} {b : UInt8} (h : (encode cs)[i]? = some b)
    (hb : b.toNat < 128) : IsBoundary (encode cs) (i + 1) := by
  have hi : IsBoundary (encode cs) i := .inr (.inr ⟨b, h, fun hc => by have := hc.1; omega⟩)
  obtain ⟨as, bs, rfl, hd, hbd⟩ := isBoundary_drop hi
  have h0 : (encode bs)[0]? = some b := by rw [← hd, List.getElem?_drop]; exact h
  -- the byte starts a character, and is all of it
  refine (hbd 1).1 ?_
  rcases bs with _ | ⟨c, bs⟩
  · simp [encode] at h0
  · obtain ⟨x, xs, hc, -, -, hxs⟩ := encodeChar_cases c
    rw [encode_cons, hc, List.cons_append, List.getElem?_cons_zero] at h0
    have hlen : (encode [c]).length = 1 := by
      rw [encode, List.flatMap_singleton, hc, hxs (by rw [Option.some.inj h0]; exact hb)]; rfl
    exact hlen ▸ isBoundary_length_encode [c] bs

/-! ## Characters across a place -/

/-- A character starts before the place `i` of the encoding and ends behind it. -/
def Across (cs : List Char) (i : ℕ) : Prop :=
  ∃ as c bs, cs = as ++ c :: bs ∧ (encode as).length < i ∧ i < (encode as).length + c.utf8Size

theorem length_encode_cons (c : Char) (cs : List Char) :
    (encode (c :: cs)).length = c.utf8Size + (encode cs).length := by
  rw [encode_cons, List.length_append, String.length_utf8EncodeChar]

theorem Across.cons {cs : List Char} {i : ℕ} (c : Char) (h : Across cs i) : Across (c :: cs) (c.utf8Size + i) := by
  obtain ⟨as, x, bs, rfl, hlt, hgt⟩ := h
  refine ⟨c :: as, x, bs, rfl, ?_, ?_⟩ <;> rw [length_encode_cons] <;> omega

/-- **A place inside an encoding** is a boundary, or a character lies across it. -/
theorem across_iff {cs : List Char} {i : ℕ} :
    Across cs i ↔ i < (encode cs).length ∧ ¬ IsBoundary (encode cs) i := by
  constructor
  · rintro ⟨as, c, bs, rfl, hlt, hgt⟩
    have hlen : (encode (as ++ c :: bs)).length = (encode as).length + (c.utf8Size + (encode bs).length) := by
      rw [encode_append, List.length_append, length_encode_cons]
    refine ⟨by omega, fun hb => ?_⟩
    -- a boundary ends an initial part, which has the character or has it not
    obtain ⟨ds, hds, rfl⟩ := isBoundary_encode.1 hb
    rcases List.prefix_or_prefix_of_prefix hds (List.prefix_append as (c :: bs)) with ⟨es, rfl⟩ | ⟨es, rfl⟩
    · rw [encode_append, List.length_append] at hlt; omega
    · rw [encode_append, List.length_append] at hlt hgt
      rcases es with _ | ⟨e, es⟩
      · simp [encode] at hlt
      · obtain ⟨rfl, -⟩ := List.cons_prefix_cons.1 ((List.prefix_append_right_inj as).1 hds)
        rw [length_encode_cons] at hgt; omega
  · rintro ⟨hi, hn⟩
    induction cs generalizing i with
    | nil => exact absurd hi (Nat.not_lt_zero i)
    | cons c cs ih =>
      rcases Nat.lt_or_ge i c.utf8Size with hlt | hge
      · -- inside the first character
        have hpos : 0 < i := Nat.pos_of_ne_zero fun h => hn (h ▸ isBoundary_zero _)
        refine ⟨[], c, cs, rfl, hpos, ?_⟩
        rw [show (encode []).length = 0 from rfl]; omega
      · obtain ⟨j, rfl⟩ := Nat.exists_eq_add_of_le hge
        rw [length_encode_cons] at hi
        refine (ih (by omega) fun hb => hn ?_).cons c
        obtain ⟨as, has, rfl⟩ := isBoundary_encode.1 hb
        exact isBoundary_encode.2 ⟨c :: as, List.cons_prefix_cons.2 ⟨rfl, has⟩, length_encode_cons c as⟩

end Utf8
