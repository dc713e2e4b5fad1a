/-
Rounding with masks: a number without its low bits is rounded down to a
multiple of a power of two, and words rounded up this way wrap near the
end. The product of two halves of a word does not.
-/
import Mathlib

namespace Masks

variable {x k w : Nat}

theorem and_mask (hk : k ≤ w) (hx : x < 2 ^ w) :
    x &&& (2 ^ w - 1 - (2 ^ k - 1)) = x / 2 ^ k * 2 ^ k := by
  have hmask : 2 ^ w - 1 - (2 ^ k - 1) = (2 ^ (w - k) - 1) * 2 ^ k := by
    have hpow : 2 ^ w = 2 ^ (w - k) * 2 ^ k := by
      rw [← Nat.pow_add, Nat.sub_add_cancel hk]
    have hpos : 0 < 2 ^ k := Nat.two_pow_pos k
    rw [Nat.sub_mul, hpow]
    omega
  rw [hmask]
  apply Nat.eq_of_testBit_eq
  intro i
  rw [Nat.testBit_and, Nat.testBit_mul_two_pow, Nat.testBit_mul_two_pow,
    Nat.testBit_two_pow_sub_one, Nat.testBit_div_two_pow]
  by_cases hlow : k ≤ i
  · have hback : i - k + k = i := by omega
    rw [hback]
    by_cases hhigh : i < w
    · have hin : i - k < w - k := by omega
      simp [hlow, hin]
    · have hzero : x.testBit i = false := by
        apply Nat.testBit_lt_two_pow
        exact Nat.lt_of_lt_of_le hx (Nat.pow_le_pow_right (by decide) (by omega))
      simp [hzero]
  · simp [hlow]

theorem and_not_toNat (v m : UInt64) (hk : k ≤ 64) (hm : m.toNat = 2 ^ k - 1) :
    (v &&& ~~~m).toNat = v.toNat / 2 ^ k * 2 ^ k := by
  rw [UInt64.toNat_and, UInt64.toNat_not, hm]
  exact and_mask hk v.toNat_lt

theorem and_toNat (v m : UInt64) (hm : m.toNat = 2 ^ k - 1) :
    (v &&& m).toNat = v.toNat % 2 ^ k := by
  rw [UInt64.toNat_and, hm, Nat.and_two_pow_sub_one_eq_mod]

theorem toNat_mul_words (a b : UInt32) :
    (a.toUInt64 * b.toUInt64).toNat = a.toNat * b.toNat := by
  rw [UInt64.toNat_mul, UInt32.toNat_toUInt64, UInt32.toNat_toUInt64]
  apply Nat.mod_eq_of_lt
  calc a.toNat * b.toNat < 2 ^ 32 * 2 ^ 32 :=
        Nat.mul_lt_mul_of_lt_of_lt a.toNat_lt b.toNat_lt
    _ = 2 ^ 64 := by decide

end Masks
