import Auxlry.Wire.BigEndian
import Mathlib.Data.List.Basic

/-!
# Attributes in a message

The attributes of a message follow each other: a type and a length of two bytes each, the
value, and as many bytes as bring the next attribute to a multiple of four. A walk over
bytes that nobody vouches for takes each length at its word, also past the end.

* `walk_encode`: **what was put in is met**, behind it the walk goes on as it would there.
* `walk_encodeAll`: the same of any number of attributes.
* `walk_drop`, `walk_short`: the walk of the rest of a message, one attribute at a time.
-/

namespace Wire

/-- The room for `n` bytes in words of four: `(n + 3) & !3`. -/
def padded (n : ℕ) : ℕ := (n + 3) / 4 * 4

theorem le_padded (n : ℕ) : n ≤ padded n := by unfold padded; omega

theorem padded_mod (n : ℕ) : padded n % 4 = 0 := by unfold padded; omega

/-- An attribute as a walk meets it: where it starts, its type, the length it announces, and
as much of its value as is there. -/
structure Attribute where
  offset : ℕ
  type : UInt16
  len : UInt16
  value : List UInt8
  deriving DecidableEq, Repr

/-- All bytes of the value are there. -/
def Attribute.Complete (a : Attribute) : Prop := a.value.length = a.len.toNat

instance (a : Attribute) : Decidable a.Complete := inferInstanceAs (Decidable (_ = _))

/-- The attributes that a walk meets in these bytes, which start at the offset. -/
def walk (pos : ℕ) : List UInt8 → List Attribute
  | t :: t' :: l :: l' :: rest =>
    ⟨pos, u16OfBeBytes t t', u16OfBeBytes l l', rest.take (u16OfBeBytes l l').toNat⟩ ::
      walk (pos + 4 + padded (u16OfBeBytes l l').toNat) (rest.drop (padded (u16OfBeBytes l l').toNat))
  | _ => []
termination_by bs => bs.length
decreasing_by simp only [List.length_drop, List.length_cons]; omega

@[simp] theorem walk_nil (pos : ℕ) : walk pos [] = [] := by rw [walk]; simp

/-- An attribute to send: its length fits two bytes, and it is padded to words of four. -/
structure Sent where
  type : UInt16
  value : List UInt8
  padding : List UInt8
  fits : value.length < 65536
  aligned : value.length + padding.length = padded value.length

namespace Sent

/-- The attribute with padding of zeros. -/
def zeros (type : UInt16) (value : List UInt8) (fits : value.length < 65536) : Sent :=
  ⟨type, value, List.replicate (padded value.length - value.length) 0, fits, by
    have := le_padded value.length
    rw [List.length_replicate]; omega⟩

/-- The bytes of an attribute. -/
def encode (a : Sent) : List UInt8 :=
  u16ToBeBytes a.type ++ u16ToBeBytes (.ofNat a.value.length) ++ a.value ++ a.padding

/-- What a walk meets of it. -/
def met (pos : ℕ) (a : Sent) : Attribute := ⟨pos, a.type, .ofNat a.value.length, a.value⟩

/-- The bytes of attributes. -/
def encodeAll (as : List Sent) : List UInt8 := as.flatMap encode

/-- What a walk meets of them. -/
def metAll (pos : ℕ) : List Sent → List Attribute
  | [] => []
  | a :: as => a.met pos :: metAll (pos + a.encode.length) as

theorem length_encode (a : Sent) : a.encode.length = 4 + padded a.value.length := by
  have := a.aligned
  simp only [encode, List.length_append, length_u16ToBeBytes]; omega

theorem toNat_len (a : Sent) (pos : ℕ) : (a.met pos).len.toNat = a.value.length := by
  have := a.fits
  simp only [met, UInt16.toNat_ofNat']; omega

/-- All of it is met. -/
theorem met_complete (a : Sent) (pos : ℕ) : (a.met pos).Complete := (a.toNat_len pos).symm

theorem metAll_complete {as : List Sent} {pos : ℕ} {x : Attribute} (hx : x ∈ metAll pos as) :
    x.Complete := by
  induction as generalizing pos with
  | nil => cases hx
  | cons a as ih =>
    rcases List.mem_cons.1 hx with rfl | hx
    · exact a.met_complete pos
    · exact ih hx

theorem type_metAll {as : List Sent} {pos : ℕ} {x : Attribute} (hx : x ∈ metAll pos as) :
    ∃ a ∈ as, x.type = a.type := by
  induction as generalizing pos with
  | nil => cases hx
  | cons a as ih =>
    rcases List.mem_cons.1 hx with rfl | hx
    · exact ⟨a, List.mem_cons_self, rfl⟩
    · obtain ⟨b, hb, ht⟩ := ih hx
      exact ⟨b, List.mem_cons_of_mem a hb, ht⟩

/-- **Every attribute starts in a word of its own**, if the first does. -/
theorem offset_metAll {as : List Sent} {pos : ℕ} (hpos : pos % 4 = 0) {x : Attribute}
    (hx : x ∈ metAll pos as) : x.offset % 4 = 0 := by
  induction as generalizing pos with
  | nil => cases hx
  | cons a as ih =>
    rcases List.mem_cons.1 hx with rfl | hx
    · exact hpos
    · have hp := padded_mod a.value.length
      have hl := a.length_encode
      exact ih (by omega) hx

end Sent

open Sent

/-- **What was put in is met**, and behind it the walk goes on as it would there. -/
theorem walk_encode (pos : ℕ) (a : Sent) (rest : List UInt8) :
    walk pos (a.encode ++ rest) = a.met pos :: walk (pos + a.encode.length) rest := by
  have hlen : (UInt16.ofNat a.value.length).toNat = a.value.length := a.toNat_len pos
  have hpad : (a.value ++ (a.padding ++ rest)).drop (padded a.value.length) = rest := by
    rw [← List.append_assoc, ← a.aligned, ← List.length_append, List.drop_left]
  rw [a.length_encode]
  simp only [encode, u16ToBeBytes, List.cons_append, List.nil_append, List.append_assoc]
  rw [walk]
  simp only [u16OfBeBytes_ofNat]
  simp only [hlen, hpad, List.take_left, Nat.add_assoc]
  rfl

/-- **What was put in is met**, all of it and in its order. -/
theorem walk_encodeAll (pos : ℕ) (as : List Sent) (rest : List UInt8) :
    walk pos (encodeAll as ++ rest) = metAll pos as ++ walk (pos + (encodeAll as).length) rest := by
  induction as generalizing pos with
  | nil => rfl
  | cons a as ih =>
    have hlen : pos + (encodeAll (a :: as)).length = pos + a.encode.length + (encodeAll as).length := by
      simp only [encodeAll, List.flatMap_cons, List.length_append]; omega
    rw [hlen, encodeAll, List.flatMap_cons, List.append_assoc, walk_encode]
    exact congrArg _ (ih (pos + a.encode.length))

/-- **A walk that stands where four bytes are left** meets an attribute there. -/
theorem walk_drop {bs : List UInt8} {pos : ℕ} {t t' l l' : UInt8} (ht : bs[pos]? = some t)
    (ht' : bs[pos + 1]? = some t') (hl : bs[pos + 2]? = some l) (hl' : bs[pos + 3]? = some l') :
    walk pos (bs.drop pos) =
      ⟨pos, u16OfBeBytes t t', u16OfBeBytes l l',
        (bs.drop (pos + 4)).take (u16OfBeBytes l l').toNat⟩ ::
      walk (pos + 4 + padded (u16OfBeBytes l l').toNat)
        (bs.drop (pos + 4 + padded (u16OfBeBytes l l').toNat)) := by
  have head : ∀ {i : ℕ} {b : UInt8}, bs[i]? = some b → bs.drop i = b :: bs.drop (i + 1) := by
    intro i b hb
    obtain ⟨hi, rfl⟩ := List.getElem?_eq_some_iff.1 hb
    exact List.drop_eq_getElem_cons hi
  rw [head ht, head ht', head hl, head hl', walk, List.drop_drop]

/-- **Fewer than four bytes are no attribute.** -/
theorem walk_short {bs : List UInt8} {pos : ℕ} (h : bs.length < pos + 4) :
    walk pos (bs.drop pos) = [] := by
  have hlen : (bs.drop pos).length < 4 := by rw [List.length_drop]; omega
  rcases hbs : bs.drop pos with _ | ⟨a, _ | ⟨b, _ | ⟨c, _ | ⟨d, rest⟩⟩⟩⟩
  · exact walk_nil pos
  · rw [walk]; simp
  · rw [walk]; simp
  · rw [walk]; simp
  · rw [hbs] at hlen; simp only [List.length_cons] at hlen; omega

end Wire
