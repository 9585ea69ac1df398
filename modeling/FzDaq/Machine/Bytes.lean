import Mathlib

/-!
# Numbers in bytes

Unsigned numbers as sequences of bytes, the least or the most significant one first.
-/

namespace FzDaq.Machine

/-- The number in bytes from the least significant one on. -/
def ofLittleEndian (bytes : List UInt8) : Nat := Nat.ofDigits 256 (bytes.map UInt8.toNat)

/-- The number in bytes from the most significant one on. -/
def ofBigEndian (bytes : List UInt8) : Nat := ofLittleEndian bytes.reverse

/-- `width` bytes of a number from the least significant one on. -/
def littleEndian : Nat → Nat → List UInt8
  | 0, _ => []
  | width + 1, n => UInt8.ofNat n :: littleEndian width (n / 256)

theorem length_littleEndian (width n : Nat) : (littleEndian width n).length = width := by
  induction width generalizing n with
  | zero => rfl
  | succ width ih => rw [littleEndian, List.length_cons, ih]

theorem ofLittleEndian_cons (b : UInt8) (bytes : List UInt8) :
    ofLittleEndian (b :: bytes) = b.toNat + 256 * ofLittleEndian bytes :=
  Nat.ofDigits_cons ..

theorem ofLittleEndian_littleEndian (width n : Nat) :
    ofLittleEndian (littleEndian width n) = n % 256 ^ width := by
  induction width generalizing n with
  | zero => rw [Nat.pow_zero, Nat.mod_one]; rfl
  | succ width ih =>
    have hbyte : (UInt8.ofNat n).toNat = n % 256 := UInt8.toNat_ofNat'
    rw [littleEndian, ofLittleEndian_cons, ih, hbyte, Nat.pow_succ', Nat.mod_mul]

end FzDaq.Machine
