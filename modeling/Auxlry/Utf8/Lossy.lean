import Auxlry.Utf8.Bytes

/-!
# Lossy decoding of UTF-8

Bytes that are not an encoding are read as replacement characters: one for each longest
beginning of a character that breaks off, or for a byte that starts none.

* `fromUtf8Lossy_bytes`: **what was encoded reads back** as it was, with nothing replaced.
-/

namespace Utf8

/-- The bounds of the bytes that continue a character, by its first byte. -/
def tails (b : ℕ) : List (ℕ × ℕ) :=
  if 0xC2 ≤ b ∧ b ≤ 0xDF then [(0x80, 0xBF)]
  else if b = 0xE0 then [(0xA0, 0xBF), (0x80, 0xBF)]
  else if b = 0xED then [(0x80, 0x9F), (0x80, 0xBF)]
  else if 0xE1 ≤ b ∧ b ≤ 0xEF then [(0x80, 0xBF), (0x80, 0xBF)]
  else if b = 0xF0 then [(0x90, 0xBF), (0x80, 0xBF), (0x80, 0xBF)]
  else if 0xF1 ≤ b ∧ b ≤ 0xF3 then [(0x80, 0xBF), (0x80, 0xBF), (0x80, 0xBF)]
  else if b = 0xF4 then [(0x80, 0x8F), (0x80, 0xBF), (0x80, 0xBF)]
  else []

/-- How many bytes are as they should be, before the first that is not. -/
def matching : List (ℕ × ℕ) → List UInt8 → ℕ
  | (low, high) :: bounds, b :: bs =>
    if low ≤ b.toNat ∧ b.toNat ≤ high then matching bounds bs + 1 else 0
  | _, _ => 0

/-- The characters of the bytes. -/
def lossy : List UInt8 → List Char
  | [] => []
  | b :: bs =>
    match (b :: bs).toByteArray.utf8DecodeChar? 0 with
    | some c => c :: lossy ((b :: bs).drop c.utf8Size)
    -- the beginning of a character, as far as it goes
    | none => '\uFFFD' :: lossy (bs.drop (matching (tails b.toNat) bs))
termination_by bs => bs.length
decreasing_by
  · have := c.utf8Size_pos
    simp only [List.length_drop, List.length_cons]; omega
  · simp only [List.length_drop, List.length_cons]; omega

/-- `String::from_utf8_lossy`. -/
def fromUtf8Lossy (bs : List UInt8) : String := String.ofList (lossy bs)

theorem lossy_encode (cs : List Char) : lossy (encode cs) = cs := by
  induction cs with
  | nil => simp [encode, lossy]
  | cons c cs ih =>
    have hlen : (String.utf8EncodeChar c).length = c.utf8Size := String.length_utf8EncodeChar c
    have hdec : (encode (c :: cs)).toByteArray.utf8DecodeChar? 0 = some c := by
      rw [encode_cons, List.toByteArray_append]
      exact ByteArray.utf8DecodeChar?_utf8EncodeChar_append
    have hdrop : (encode (c :: cs)).drop c.utf8Size = encode cs := by
      rw [encode_cons, ← hlen, List.drop_left]
    obtain ⟨b, bs, hb⟩ : ∃ b bs, encode (c :: cs) = b :: bs := by
      obtain ⟨b, bs, hc, -, -, -⟩ := encodeChar_cases c
      exact ⟨b, bs ++ encode cs, by rw [encode_cons, hc, List.cons_append]⟩
    rw [hb] at hdec hdrop ⊢
    rw [lossy]
    simp only [hdec, hdrop, ih]

/-- **What was encoded reads back** as it was. -/
@[simp] theorem fromUtf8Lossy_bytes (s : String) : fromUtf8Lossy (bytes s) = s := by
  rw [fromUtf8Lossy, bytes, lossy_encode, String.ofList_toList]

end Utf8
