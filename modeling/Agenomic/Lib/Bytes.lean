import Mathlib

/-!
# Byte strings and little-endian words

A file is a list of bytes. The only machine words a file holds here are
unsigned, little-endian, two or four bytes wide; a word below its range survives
the round trip through its bytes.
-/

namespace Lib

/-- A byte string: the content of a file, or a part of it. -/
abbrev Bytes := List UInt8

/-- The four little-endian bytes of a word. -/
def le32 (n : Nat) : Bytes :=
  [UInt8.ofNat n, UInt8.ofNat (n / 256), UInt8.ofNat (n / 65536), UInt8.ofNat (n / 16777216)]

/-- The word four little-endian bytes spell. -/
def ofLe32 (b0 b1 b2 b3 : UInt8) : Nat :=
  b0.toNat + 256 * b1.toNat + 65536 * b2.toNat + 16777216 * b3.toNat

/-- The two little-endian bytes of a half word. -/
def le16 (n : Nat) : Bytes := [UInt8.ofNat n, UInt8.ofNat (n / 256)]

/-- The half word two little-endian bytes spell. -/
def ofLe16 (b0 b1 : UInt8) : Nat := b0.toNat + 256 * b1.toNat

/-- The little-endian bytes of a number, so many of them. -/
def leBytes : Nat → Nat → Bytes
  | 0, _ => []
  | width + 1, n => UInt8.ofNat n :: leBytes width (n / 256)

/-- The number little-endian bytes spell. -/
def ofLeBytes (bs : Bytes) : Nat := bs.foldr (fun b n => b.toNat + 256 * n) 0

@[simp] theorem leBytes_length : ∀ width n : Nat, (leBytes width n).length = width
  | 0, _ => rfl
  | width + 1, n => congrArg (· + 1) (leBytes_length width (n / 256))

/-- A number survives the round trip through as many bytes as it needs. -/
theorem ofLeBytes_leBytes : ∀ {width n : Nat}, n < 256 ^ width → ofLeBytes (leBytes width n) = n
  | 0, n, h => by
      rw [Nat.pow_zero, Nat.lt_one_iff] at h
      exact h.symm
  | width + 1, n, h => by
      have hdiv : n / 256 < 256 ^ width := by
        rw [Nat.pow_succ] at h
        exact Nat.div_lt_of_lt_mul (Nat.mul_comm _ _ ▸ h)
      have ih := ofLeBytes_leBytes hdiv
      change (UInt8.ofNat n).toNat + 256 * ofLeBytes (leBytes width (n / 256)) = n
      rw [ih, UInt8.toNat_ofNat']
      omega

@[simp] theorem le32_length (n : Nat) : (le32 n).length = 4 := rfl

@[simp] theorem le16_length (n : Nat) : (le16 n).length = 2 := rfl

/-- A four-byte word survives the round trip. -/
theorem ofLe32_le32 {n : Nat} (h : n < 4294967296) :
    ofLe32 (UInt8.ofNat n) (UInt8.ofNat (n / 256)) (UInt8.ofNat (n / 65536))
      (UInt8.ofNat (n / 16777216)) = n := by
  simp only [ofLe32, UInt8.toNat_ofNat']
  omega

/-- The bytes read as a word are the bytes of that word. -/
theorem le32_ofLe32 (b0 b1 b2 b3 : UInt8) : le32 (ofLe32 b0 b1 b2 b3) = [b0, b1, b2, b3] := by
  have h0 := b0.toNat_lt
  have h1 := b1.toNat_lt
  have h2 := b2.toNat_lt
  have h3 := b3.toNat_lt
  have e0 : ofLe32 b0 b1 b2 b3 % 256 = b0.toNat := by unfold ofLe32; omega
  have e1 : ofLe32 b0 b1 b2 b3 / 256 % 256 = b1.toNat := by unfold ofLe32; omega
  have e2 : ofLe32 b0 b1 b2 b3 / 65536 % 256 = b2.toNat := by unfold ofLe32; omega
  have e3 : ofLe32 b0 b1 b2 b3 / 16777216 % 256 = b3.toNat := by unfold ofLe32; omega
  unfold le32
  congr 1
  · exact UInt8.toNat_inj.mp (by rw [UInt8.toNat_ofNat']; exact e0)
  congr 1
  · exact UInt8.toNat_inj.mp (by rw [UInt8.toNat_ofNat']; exact e1)
  congr 1
  · exact UInt8.toNat_inj.mp (by rw [UInt8.toNat_ofNat']; exact e2)
  congr 1
  exact UInt8.toNat_inj.mp (by rw [UInt8.toNat_ofNat']; exact e3)

end Lib
