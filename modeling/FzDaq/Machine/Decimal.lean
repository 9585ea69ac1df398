import Mathlib

/-!
# Zero-padded decimals

Numbers written in a field of a least width, with leading zeros.
-/

namespace FzDaq.Machine

/-- The decimal digits of a number behind zeros up to a width. -/
def zeroPadded (width n : Nat) : List Char :=
  List.replicate (width - (Nat.toDigits 10 n).length) '0' ++ Nat.toDigits 10 n

theorem ofDigitChars_zeros (k : Nat) (cs : List Char) :
    Nat.ofDigitChars 10 (List.replicate k '0' ++ cs) 0 = Nat.ofDigitChars 10 cs 0 := by
  induction k with
  | zero => rfl
  | succ k ih => exact ih

theorem ofDigitChars_zeroPadded (width n : Nat) :
    Nat.ofDigitChars 10 (zeroPadded width n) 0 = n := by
  rw [zeroPadded, ofDigitChars_zeros]
  exact Nat.ofDigitChars_ten_toDigits

theorem zeroPadded_injective (width : Nat) {m n : Nat}
    (h : zeroPadded width m = zeroPadded width n) : m = n := by
  rw [← ofDigitChars_zeroPadded width m, h, ofDigitChars_zeroPadded]

end FzDaq.Machine
