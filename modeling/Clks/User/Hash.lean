/-
The password hash of the user system (user.c): SHA-256, in lower-case
hexadecimal digits.

The context holds the bytes of the last block that is not full yet.
-/
import Mathlib

namespace Clks.User

-- ==== constants

/-- The table `k` of `clks_user_sha256_transform`. -/
def sha256K : List UInt32 :=
  [0x428A2F98, 0x71374491, 0xB5C0FBCF, 0xE9B5DBA5, 0x3956C25B, 0x59F111F1,
    0x923F82A4, 0xAB1C5ED5, 0xD807AA98, 0x12835B01, 0x243185BE, 0x550C7DC3,
    0x72BE5D74, 0x80DEB1FE, 0x9BDC06A7, 0xC19BF174, 0xE49B69C1, 0xEFBE4786,
    0x0FC19DC6, 0x240CA1CC, 0x2DE92C6F, 0x4A7484AA, 0x5CB0A9DC, 0x76F988DA,
    0x983E5152, 0xA831C66D, 0xB00327C8, 0xBF597FC7, 0xC6E00BF3, 0xD5A79147,
    0x06CA6351, 0x14292967, 0x27B70A85, 0x2E1B2138, 0x4D2C6DFC, 0x53380D13,
    0x650A7354, 0x766A0ABB, 0x81C2C92E, 0x92722C85, 0xA2BFE8A1, 0xA81A664B,
    0xC24B8B70, 0xC76C51A3, 0xD192E819, 0xD6990624, 0xF40E3585, 0x106AA070,
    0x19A4C116, 0x1E376C08, 0x2748774C, 0x34B0BCB5, 0x391C0CB3, 0x4ED8AA4A,
    0x5B9CCA4F, 0x682E6FF3, 0x748F82EE, 0x78A5636F, 0x84C87814, 0x8CC70208,
    0x90BEFFFA, 0xA4506CEB, 0xBEF9A3F7, 0xC67178F2]

/-- The eight words of the hash, or of a round. -/
structure Sha256Words where
  a : UInt32
  b : UInt32
  c : UInt32
  d : UInt32
  e : UInt32
  f : UInt32
  g : UInt32
  h : UInt32

/-- `clks_user_sha256_ctx`. -/
structure Sha256Ctx where
  data : List UInt8
  bitlen : UInt64
  state : Sha256Words

-- ==== one block

/-- `clks_user_rotr`. -/
def rotr (value count : UInt32) : UInt32 :=
  value >>> count ||| value <<< (32 - count)

/-- `clks_user_load_be32`. -/
def loadBe32 (data : List UInt8) (off : Nat) : UInt32 :=
  (data.getD off 0).toUInt32 <<< 24 ||| (data.getD (off + 1) 0).toUInt32 <<< 16
    ||| (data.getD (off + 2) 0).toUInt32 <<< 8
    ||| (data.getD (off + 3) 0).toUInt32

/-- `clks_user_store_be32`. -/
def storeBe32 (value : UInt32) : List UInt8 :=
  [(value >>> 24).toUInt8, (value >>> 16).toUInt8, (value >>> 8).toUInt8,
    value.toUInt8]

/-- The next word of the schedule `m`, behind the ones that are there. -/
def nextWord (m : List UInt32) : UInt32 :=
  let word := fun back => m.getD (m.length - back) 0
  let s0 := rotr (word 15) 7 ^^^ rotr (word 15) 18 ^^^ word 15 >>> 3
  let s1 := rotr (word 2) 17 ^^^ rotr (word 2) 19 ^^^ word 2 >>> 10
  word 16 + s0 + word 7 + s1

/-- The schedule of a block. -/
def schedule (data : List UInt8) : List UInt32 :=
  (List.range 48).foldl (fun m _ => m ++ [nextWord m])
    ((List.range 16).map fun i => loadBe32 data (i * 4))

/-- One round, with its constant and its word of the schedule. -/
def sha256Round (w : Sha256Words) (km : UInt32 × UInt32) : Sha256Words :=
  let s1 := rotr w.e 6 ^^^ rotr w.e 11 ^^^ rotr w.e 25
  let ch := w.e &&& w.f ^^^ ~~~w.e &&& w.g
  let temp1 := w.h + s1 + ch + km.1 + km.2
  let s0 := rotr w.a 2 ^^^ rotr w.a 13 ^^^ rotr w.a 22
  let maj := w.a &&& w.b ^^^ w.a &&& w.c ^^^ w.b &&& w.c
  let temp2 := s0 + maj
  ⟨temp1 + temp2, w.a, w.b, w.c, w.d + temp1, w.e, w.f, w.g⟩

/-- `clks_user_sha256_transform`. -/
def sha256Transform (s : Sha256Words) (data : List UInt8) : Sha256Words :=
  let w := (sha256K.zip (schedule data)).foldl sha256Round s
  ⟨s.a + w.a, s.b + w.b, s.c + w.c, s.d + w.d, s.e + w.e, s.f + w.f,
    s.g + w.g, s.h + w.h⟩

-- ==== the message

/-- `clks_user_sha256_init`. -/
def sha256Init : Sha256Ctx where
  data := []
  bitlen := 0
  state :=
    ⟨0x6A09E667, 0xBB67AE85, 0x3C6EF372, 0xA54FF53A, 0x510E527F, 0x9B05688C,
      0x1F83D9AB, 0x5BE0CD19⟩

/-- One byte of `clks_user_sha256_update`. -/
def sha256Byte (c : Sha256Ctx) (b : UInt8) : Sha256Ctx :=
  let data := c.data ++ [b]
  if data.length = 64 then
    { data := [], bitlen := c.bitlen + 512
      state := sha256Transform c.state data }
  else { c with data }

/-- `clks_user_sha256_update`. -/
def sha256Update (c : Sha256Ctx) (data : List UInt8) : Sha256Ctx :=
  data.foldl sha256Byte c

/-- `clks_user_sha256_final`. -/
def sha256Final (c : Sha256Ctx) : List UInt8 :=
  let ended := c.data ++ [0x80]
  let (block, state) :=
    if c.data.length < 56 then
      (ended ++ List.replicate (56 - ended.length) 0, c.state)
    else
      (List.replicate 56 0,
        sha256Transform c.state
          (ended ++ List.replicate (64 - ended.length) 0))
  let bitlen := c.bitlen + UInt64.ofNat c.data.length * 8
  let lengthBytes :=
    storeBe32 (bitlen >>> 32).toUInt32 ++ storeBe32 bitlen.toUInt32
  let w := sha256Transform state (block ++ lengthBytes)
  [w.a, w.b, w.c, w.d, w.e, w.f, w.g, w.h].flatMap storeBe32

/-- `clks_user_hex_digit`. -/
def hexDigit (value : UInt8) : UInt8 :=
  let value := value &&& 0xF
  if value < 10 then 0x30 + value else 0x61 + (value - 10)

/-- `clks_user_hash_password`. -/
def hashPassword (password : List UInt8) : List UInt8 :=
  (sha256Final (sha256Update sha256Init password)).flatMap fun (b : UInt8) =>
    [hexDigit (b >>> 4), hexDigit b]

-- ==== the digits

/-- A digit of a hash. -/
def isHexDigit (c : UInt8) : Bool :=
  0x30 ≤ c && c ≤ 0x39 || 0x61 ≤ c && c ≤ 0x66

theorem isHexDigit_hexDigit (b : UInt8) : isHexDigit (hexDigit b) = true := by
  have hall : ∀ n < 256, isHexDigit (hexDigit (UInt8.ofNat n)) = true := by
    decide +kernel
  have h := hall b.toNat b.toNat_lt
  rwa [UInt8.ofNat_toNat] at h

theorem hashPassword_digits (password : List UInt8) :
    (hashPassword password).length = 64 ∧
      ∀ c ∈ hashPassword password, isHexDigit c = true := by
  constructor
  · unfold hashPassword sha256Final
    simp [storeBe32]
  · intro c hc
    obtain ⟨b, -, hb⟩ := List.mem_flatMap.mp hc
    simp only [List.mem_cons, List.not_mem_nil, or_false] at hb
    cases hb with
    | inl h =>
      rw [h]
      exact isHexDigit_hexDigit _
    | inr h =>
      rw [h]
      exact isHexDigit_hexDigit _

end Clks.User
