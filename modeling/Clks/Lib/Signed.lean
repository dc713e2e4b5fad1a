/-
Words of 32 bits as signed numbers.

A cast keeps the bits, and a sum that is too large, or too small, comes out
at the other end: `bmod_word` says where.
-/
import Mathlib

namespace Signed

theorem bmod_word {n : Int} (hge : -2 ^ 32 ≤ n) (hlt : n < 2 ^ 32) :
    n.bmod (2 ^ 32)
      = if n < -2 ^ 31 then n + 2 ^ 32
        else if n < 2 ^ 31 then n else n - 2 ^ 32 := by
  rw [Int.bmod_def]
  split_ifs <;> omega

theorem toInt_toInt32 (a : UInt32) :
    a.toInt32.toInt
      = if a.toNat < 2 ^ 31 then (a.toNat : Int) else a.toNat - 2 ^ 32 := by
  have hcond := BitVec.toInt_eq_toNat_cond a.toBitVec
  have hnat : a.toBitVec.toNat = a.toNat := rfl
  rw [hnat] at hcond
  show a.toBitVec.toInt = _
  rw [hcond]
  split
  · rw [if_pos (by omega)]
  · rw [if_neg (by omega)]
    rfl

theorem toNat_toUInt32 (a : Int32) :
    (a.toUInt32.toNat : Int)
      = if a.toInt < 0 then a.toInt + 2 ^ 32 else a.toInt := by
  have hcond := toInt_toInt32 a.toUInt32
  have hlt := a.toUInt32.toNat_lt
  rw [Int32.toInt32_toUInt32] at hcond
  split_ifs at hcond ⊢ <;> omega

section sums

variable {a b : Int32}

theorem toInt_add_word (hge : -2 ^ 32 ≤ a.toInt + b.toInt)
    (hlt : a.toInt + b.toInt < 2 ^ 32) :
    (a + b).toInt
      = if a.toInt + b.toInt < -2 ^ 31 then a.toInt + b.toInt + 2 ^ 32
        else if a.toInt + b.toInt < 2 ^ 31 then a.toInt + b.toInt
        else a.toInt + b.toInt - 2 ^ 32 := by
  rw [Int32.toInt_add, bmod_word hge hlt]

theorem toInt_sub_word (hge : -2 ^ 32 ≤ a.toInt - b.toInt)
    (hlt : a.toInt - b.toInt < 2 ^ 32) :
    (a - b).toInt
      = if a.toInt - b.toInt < -2 ^ 31 then a.toInt - b.toInt + 2 ^ 32
        else if a.toInt - b.toInt < 2 ^ 31 then a.toInt - b.toInt
        else a.toInt - b.toInt - 2 ^ 32 := by
  rw [Int32.toInt_sub, bmod_word hge hlt]

theorem toInt_neg_word (a : Int32) :
    (-a).toInt = if a.toInt = -2 ^ 31 then -2 ^ 31 else -a.toInt := by
  have hlt := a.toInt_lt
  have hle := a.le_toInt
  rw [Int32.toInt_neg, bmod_word (by omega) (by omega)]
  split_ifs <;> omega

end sums

end Signed
