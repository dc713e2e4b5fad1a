/-
SHA-256 of FIPS 180-4.

The words are bit vectors, the schedule is the recurrence, and the
constants are what the standard derives them from: the first 32 bits of
the fractional parts of the square roots of the first eight primes, and of
the cube roots of the first 64. A message is a string of bytes; its length
in the padding is what 64 bits hold of it.
-/
import Mathlib

namespace Sha256

abbrev Word := BitVec 32

-- ==== the functions

section functions

variable (x y z : Word)

def ch : Word := (x &&& y) ^^^ (~~~x &&& z)

def maj : Word := (x &&& y) ^^^ (x &&& z) ^^^ (y &&& z)

def bigSigma0 : Word :=
  x.rotateRight 2 ^^^ x.rotateRight 13 ^^^ x.rotateRight 22

def bigSigma1 : Word :=
  x.rotateRight 6 ^^^ x.rotateRight 11 ^^^ x.rotateRight 25

def sigma0 : Word := x.rotateRight 7 ^^^ x.rotateRight 18 ^^^ x >>> 3

def sigma1 : Word := x.rotateRight 17 ^^^ x.rotateRight 19 ^^^ x >>> 10

end functions

-- ==== the constants

/-- The integer part of a root. -/
def floorRoot (k n : Nat) : Nat := Nat.findGreatest (fun b => b ^ k ≤ n) n

theorem floorRoot_eq {k n b : Nat} (hk : k ≠ 0) (hle : b ^ k ≤ n)
    (hlt : n < (b + 1) ^ k) : floorRoot k n = b := by
  refine Nat.findGreatest_eq_iff.mpr ⟨?_, fun _ => hle, ?_⟩
  · exact Nat.le_trans (Nat.le_self_pow hk b) hle
  · intro c hc _ hpow
    have hmono : (b + 1) ^ k ≤ c ^ k := Nat.pow_le_pow_left hc k
    omega

/-- The first 32 bits of the fractional part of a root. -/
def rootFraction (k n : Nat) : Word :=
  BitVec.ofNat 32 (floorRoot k (n * 2 ^ (32 * k)))

/-- The primes below 312, of which there are 64. -/
def primes : List Nat :=
  (List.range 312).filter fun n =>
    2 ≤ n && (List.range n).all fun d => d < 2 || n % d != 0

theorem primes_eq : primes =
    [2, 3, 5, 7, 11, 13, 17, 19, 23, 29, 31, 37, 41, 43, 47, 53, 59, 61, 67,
      71, 73, 79, 83, 89, 97, 101, 103, 107, 109, 113, 127, 131, 137, 139,
      149, 151, 157, 163, 167, 173, 179, 181, 191, 193, 197, 199, 211, 223,
      227, 229, 233, 239, 241, 251, 257, 263, 269, 271, 277, 281, 283, 293,
      307, 311] := by
  decide +kernel

/-- The constant of a round. -/
def K (t : Nat) : Word := rootFraction 3 (primes.getD t 0)

/-- A word of the initial hash value. -/
def initial (i : Nat) : Word := rootFraction 2 (primes.getD i 0)

-- ==== the schedule

/-- The schedule of a block with the words `M`. -/
def schedule (M : Nat → Word) (t : Nat) : Word :=
  if t < 16 then M t
  else
    sigma1 (schedule M (t - 2)) + schedule M (t - 7)
      + sigma0 (schedule M (t - 15)) + schedule M (t - 16)
termination_by t

/-- The hash value, or the working variables. -/
structure Vars where
  a : Word
  b : Word
  c : Word
  d : Word
  e : Word
  f : Word
  g : Word
  h : Word

/-- A round. -/
def round (k w : Word) (v : Vars) : Vars :=
  let t1 := v.h + bigSigma1 v.e + ch v.e v.f v.g + k + w
  let t2 := bigSigma0 v.a + maj v.a v.b v.c
  ⟨t1 + t2, v.a, v.b, v.c, v.d + t1, v.e, v.f, v.g⟩

/-- Four bytes as a word, the most significant one first. -/
def wordOf (b₀ b₁ b₂ b₃ : UInt8) : Word :=
  b₀.toBitVec ++ b₁.toBitVec ++ b₂.toBitVec ++ b₃.toBitVec

/-- A word of a block. -/
def blockWord (block : List UInt8) (j : Nat) : Word :=
  wordOf (block.getD (4 * j) 0) (block.getD (4 * j + 1) 0)
    (block.getD (4 * j + 2) 0) (block.getD (4 * j + 3) 0)

/-- The next hash value. -/
def compress (H : Vars) (block : List UInt8) : Vars :=
  let v := (List.range 64).foldl
    (fun v t => round (K t) (schedule (blockWord block) t) v) H
  ⟨v.a + H.a, v.b + H.b, v.c + H.c, v.d + H.d, v.e + H.e, v.f + H.f,
    v.g + H.g, v.h + H.h⟩

-- ==== the message

/-- The number of zero bytes in the padding. -/
def zeroBytes (length : Nat) : Nat := (119 - length % 64) % 64

/-- A length in bits, in 64 bits, the most significant byte first. -/
def lengthBytes (bits : Nat) : List UInt8 :=
  (List.range 8).map fun i => UInt8.ofNat (bits / 2 ^ (8 * (7 - i)))

/-- The padded message: a one bit, the zero bits, and the length. -/
def pad (message : List UInt8) : List UInt8 :=
  message ++ 0x80 :: (List.replicate (zeroBytes message.length) 0
    ++ lengthBytes (8 * message.length))

/-- The blocks of 64 bytes of a padded message. -/
def blocks (message : List UInt8) : List (List UInt8) :=
  (List.range (message.length / 64)).map fun i =>
    (message.drop (64 * i)).take 64

/-- The initial hash value. -/
def H₀ : Vars :=
  ⟨initial 0, initial 1, initial 2, initial 3, initial 4, initial 5,
    initial 6, initial 7⟩

/-- The bytes of a word, the most significant one first. -/
def wordBytes (w : Word) : List UInt8 :=
  [⟨w.extractLsb' 24 8⟩, ⟨w.extractLsb' 16 8⟩, ⟨w.extractLsb' 8 8⟩,
    ⟨w.extractLsb' 0 8⟩]

/-- The bytes of a hash value. -/
def Vars.bytes (H : Vars) : List UInt8 :=
  [H.a, H.b, H.c, H.d, H.e, H.f, H.g, H.h].flatMap wordBytes

/-- The digest of a message. -/
def digest (message : List UInt8) : List UInt8 :=
  ((blocks (pad message)).foldl compress H₀).bytes

-- ==== the laws

theorem blocks_append {a : List UInt8} (h : 64 ∣ a.length) (b : List UInt8) :
    blocks (a ++ b) = blocks a ++ blocks b := by
  obtain ⟨n, hn⟩ := h
  have hcount : (a ++ b).length / 64 = n + b.length / 64 := by
    rw [List.length_append, hn]
    omega
  have hfront : a.length / 64 = n := by omega
  unfold blocks
  rw [hcount, hfront, List.range_add, List.map_append, List.map_map]
  congr 1
  · refine List.map_congr_left fun i hi => ?_
    have hi : i < n := List.mem_range.mp hi
    rw [List.drop_append_of_le_length (by omega),
      List.take_append_of_le_length (by rw [List.length_drop]; omega)]
  · refine List.map_congr_left fun i _ => ?_
    show ((a ++ b).drop (64 * (n + i))).take 64 = _
    rw [Nat.mul_add, ← hn, List.drop_length_add_append]

theorem blocks_one {b : List UInt8} (h : b.length = 64) : blocks b = [b] := by
  unfold blocks
  rw [h]
  show [b.take 64] = [b]
  rw [← h, List.take_length]

end Sha256
