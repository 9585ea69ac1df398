import Mathlib

/-!
# Masks

The words of a wire format are taken apart with masks and shifts; in proofs their
fields are quotients and remainders.
-/

namespace FzDaq.Machine

/-- A mask of the `k` highest bits of a number of `m + k` bits. -/
theorem and_high_bits (n k m : Nat) (hn : n < 2 ^ (m + k)) :
    n &&& ((2 ^ k - 1) <<< m) = n / 2 ^ m * 2 ^ m := by
  rw [← Nat.shiftRight_eq_div_pow, ← Nat.shiftLeft_eq]
  apply Nat.eq_of_testBit_eq
  intro i
  rw [Nat.testBit_and, Nat.testBit_shiftLeft, Nat.testBit_shiftLeft, Nat.testBit_two_pow_sub_one,
    Nat.testBit_shiftRight]
  by_cases hi : m ≤ i
  · rw [show m + (i - m) = i by omega]
    by_cases hk : i - m < k
    · simp [hi, hk]
    · have hbit : n.testBit i = false := Nat.testBit_lt_two_pow
        (Nat.lt_of_lt_of_le hn (Nat.pow_le_pow_right (by decide) (by omega)))
      simp [hbit]
  · simp [hi]

/-- A field of `k` bits behind the `m` lowest ones. -/
theorem and_shiftRight (n k m : Nat) :
    (n &&& ((2 ^ k - 1) <<< m)) >>> m = n / 2 ^ m % 2 ^ k := by
  rw [Nat.shiftRight_and_distrib, Nat.shiftLeft_shiftRight, Nat.and_two_pow_sub_one_eq_mod,
    Nat.shiftRight_eq_div_pow]

end FzDaq.Machine
