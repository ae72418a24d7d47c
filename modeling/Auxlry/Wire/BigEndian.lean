import Mathlib.Data.Nat.Notation

/-!
# Big-endian words

A 32-bit word as four bytes and a 16-bit word as two, the highest first.
-/

namespace Wire

/-- `u32::to_be_bytes`. -/
def toBeBytes (n : ℕ) : List UInt8 :=
  [.ofNat (n / 16777216), .ofNat (n / 65536), .ofNat (n / 256), .ofNat n]

/-- `u32::from_be_bytes`. -/
def ofBeBytes (bs : List UInt8) : ℕ := bs.foldl (fun n b => n * 256 + b.toNat) 0

@[simp] theorem length_toBeBytes (n : ℕ) : (toBeBytes n).length = 4 := rfl

theorem ofBeBytes_toBeBytes {n : ℕ} (h : n < 4294967296) : ofBeBytes (toBeBytes n) = n := by
  simp only [ofBeBytes, toBeBytes, List.foldl_cons, List.foldl_nil, UInt8.toNat_ofNat']
  omega

/-- `u16::to_be_bytes`. -/
def u16ToBeBytes (n : UInt16) : List UInt8 := [.ofNat (n.toNat / 256), .ofNat n.toNat]

/-- `u16::from_be_bytes`. -/
def u16OfBeBytes (hi lo : UInt8) : UInt16 := .ofNat (hi.toNat * 256 + lo.toNat)

@[simp] theorem length_u16ToBeBytes (n : UInt16) : (u16ToBeBytes n).length = 2 := rfl

/-- The two bytes of a word give the word. -/
@[simp] theorem u16OfBeBytes_ofNat (n : UInt16) :
    u16OfBeBytes (.ofNat (n.toNat / 256)) (.ofNat n.toNat) = n := by
  have hn : n.toNat < 65536 := n.toNat_lt
  have hw : n.toNat / 256 % 256 * 256 + n.toNat % 256 = n.toNat := by omega
  rw [u16OfBeBytes, UInt8.toNat_ofNat', UInt8.toNat_ofNat', hw, UInt16.ofNat_toNat]

end Wire
