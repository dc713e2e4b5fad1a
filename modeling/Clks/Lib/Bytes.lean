/-
Byte memories: a map from addresses to bytes, block writes, and the
little-endian words stored in it.

Everything that a C program does to a buffer (`memset`, `memcpy`, a
store through a pointer) is one block write, `blit`; a read back is a
case split on whether the address lies in the block.
-/
import Mathlib

namespace Bytes

/-- A byte memory. -/
abbrev Mem := Nat → UInt8

-- ==== block writes

/-- Overwrite `len` bytes from `off` on with the bytes of `src`. -/
def blit (m : Mem) (off len : Nat) (src : Nat → UInt8) : Mem := fun i =>
  if off ≤ i ∧ i < off + len then src (i - off) else m i

variable {m m' : Mem} {off len i : Nat} {src src' : Nat → UInt8}

theorem blit_in (h1 : off ≤ i) (h2 : i < off + len) :
    blit m off len src i = src (i - off) := by
  simp only [blit, h1, h2, and_self, if_true]

theorem blit_out (h : i < off ∨ off + len ≤ i) :
    blit m off len src i = m i := by
  have hn : ¬ (off ≤ i ∧ i < off + len) := by omega
  simp only [blit, hn, if_false]

@[simp] theorem blit_zero : blit m off 0 src = m := by
  funext i
  exact blit_out (by omega)

theorem blit_congr (hm : ∀ i, (i < off ∨ off + len ≤ i) → m i = m' i)
    (hs : ∀ k < len, src k = src' k) :
    blit m off len src = blit m' off len src' := by
  funext i
  by_cases h : off ≤ i ∧ i < off + len
  · rw [blit_in h.1 h.2, blit_in h.1 h.2]
    exact hs _ (by omega)
  · rw [blit_out (by omega), blit_out (by omega)]
    exact hm _ (by omega)

theorem blit_append (m : Mem) (off a b : Nat) (src : Nat → UInt8) :
    blit (blit m off a src) (off + a) b (fun k => src (a + k))
      = blit m off (a + b) src := by
  funext i
  by_cases h2 : off + a ≤ i ∧ i < off + a + b
  · rw [blit_in h2.1 h2.2, blit_in (by omega) (by omega)]
    congr 1
    omega
  · rw [blit_out (by omega)]
    by_cases h1 : off ≤ i ∧ i < off + a
    · rw [blit_in h1.1 h1.2, blit_in (by omega) (by omega)]
    · rw [blit_out (by omega), blit_out (by omega)]

theorem blit_blit_inside (m : Mem) (off : Nat) {o l : Nat}
    (h : o + l ≤ len) (src src' : Nat → UInt8) :
    blit (blit m off len src) (off + o) l src'
      = blit m off len (blit src o l src') := by
  funext i
  by_cases h1 : off + o ≤ i ∧ i < off + o + l
  · rw [blit_in h1.1 h1.2, blit_in (by omega) (by omega),
      blit_in (by omega) (by omega)]
    congr 1
    omega
  · rw [blit_out (by omega)]
    by_cases h2 : off ≤ i ∧ i < off + len
    · rw [blit_in h2.1 h2.2, blit_in h2.1 h2.2, blit_out (by omega)]
    · rw [blit_out (by omega), blit_out (by omega)]

-- ==== little-endian words

/-- The 16-bit word stored at `off`. -/
def readU16 (m : Mem) (off : Nat) : Nat :=
  (m off).toNat + (m (off + 1)).toNat * 256

/-- The 32-bit word stored at `off`. -/
def readU32 (m : Mem) (off : Nat) : Nat :=
  (m off).toNat + (m (off + 1)).toNat * 256
    + (m (off + 2)).toNat * 65536 + (m (off + 3)).toNat * 16777216

/-- The bytes of a word, lowest first. -/
def wordByte (x k : Nat) : UInt8 := UInt8.ofNat (x / 256 ^ k)

/-- Store a 16-bit word at `off`. -/
def writeU16 (m : Mem) (off x : Nat) : Mem := blit m off 2 (wordByte x)

/-- Store a 32-bit word at `off`. -/
def writeU32 (m : Mem) (off x : Nat) : Mem := blit m off 4 (wordByte x)

theorem wordByte_toNat (x k : Nat) :
    (wordByte x k).toNat = x / 256 ^ k % 256 := by
  simp [wordByte]

theorem readU32_lt (m : Mem) (off : Nat) : readU32 m off < 2 ^ 32 := by
  have h0 := (m off).toNat_lt
  have h1 := (m (off + 1)).toNat_lt
  have h2 := (m (off + 2)).toNat_lt
  have h3 := (m (off + 3)).toNat_lt
  unfold readU32
  omega

theorem readU32_congr (h : ∀ k < 4, m (off + k) = m' (off + k)) :
    readU32 m off = readU32 m' off := by
  have h0 : m off = m' off := h 0 (by omega)
  simp only [readU32, h0, h 1 (by omega), h 2 (by omega), h 3 (by omega)]

theorem readU32_writeU32 (m : Mem) (off x : Nat) :
    readU32 (writeU32 m off x) off = x % 2 ^ 32 := by
  have hb : ∀ k < 4, writeU32 m off x (off + k) = wordByte x k := by
    intro k hk
    unfold writeU32
    rw [blit_in (by omega) (by omega), Nat.add_sub_cancel_left]
  have h0 : writeU32 m off x off = wordByte x 0 := hb 0 (by omega)
  simp only [readU32, h0, hb 1 (by omega), hb 2 (by omega),
    hb 3 (by omega), wordByte_toNat]
  omega

theorem readU16_congr (h : ∀ k < 2, m (off + k) = m' (off + k)) :
    readU16 m off = readU16 m' off := by
  have h0 : m off = m' off := h 0 (by omega)
  simp only [readU16, h0, h 1 (by omega)]

theorem readU16_writeU16 (m : Mem) (off x : Nat) :
    readU16 (writeU16 m off x) off = x % 2 ^ 16 := by
  have hb : ∀ k < 2, writeU16 m off x (off + k) = wordByte x k := by
    intro k hk
    unfold writeU16
    rw [blit_in (by omega) (by omega), Nat.add_sub_cancel_left]
  have h0 : writeU16 m off x off = wordByte x 0 := hb 0 (by omega)
  simp only [readU16, h0, hb 1 (by omega), wordByte_toNat]
  omega

theorem readU16_blit_out (h : i + 2 ≤ off ∨ off + len ≤ i) :
    readU16 (blit m off len src) i = readU16 m i :=
  readU16_congr fun k hk => blit_out (by omega)

theorem readU16_writeU16_out {x : Nat} (h : i + 2 ≤ off ∨ off + 2 ≤ i) :
    readU16 (writeU16 m off x) i = readU16 m i :=
  readU16_blit_out h

theorem readU32_blit_out (h : i + 4 ≤ off ∨ off + len ≤ i) :
    readU32 (blit m off len src) i = readU32 m i :=
  readU32_congr fun k hk => blit_out (by omega)

end Bytes
