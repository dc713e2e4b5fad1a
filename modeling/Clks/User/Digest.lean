/-
The password hash is SHA-256 (`hashPassword_eq`).

The words of the code are `UInt32`, those of the standard bit vectors. A
context stands for the bytes it was fed: the whole blocks of them are in
its hash value and the rest is in its buffer (`Sha256Ctx.Fed`), however
they were cut into pieces. The last one or two blocks are then the end of
the padded message.
-/
import Clks.User.Hash
import Clks.Lib.Sha256

namespace Clks.User

open Sha256 (Vars primes primes_eq rootFraction floorRoot_eq)

-- ==== the constants

/-- The integer part of the cube root of a number below 343. -/
def cubePart (n : Nat) : Nat :=
  if n < 8 then 1 else if n < 27 then 2 else if n < 64 then 3
  else if n < 125 then 4 else if n < 216 then 5 else 6

theorem rootFraction_eq {k n q : Nat} {w : UInt32} (hk : k ≠ 0)
    (hle : (q * 2 ^ 32 + w.toNat) ^ k ≤ n * 2 ^ (32 * k))
    (hlt : n * 2 ^ (32 * k) < (q * 2 ^ 32 + w.toNat + 1) ^ k) :
    rootFraction k n = w.toBitVec := by
  unfold rootFraction
  rw [floorRoot_eq hk hle hlt]
  apply BitVec.eq_of_toNat_eq
  rw [BitVec.toNat_ofNat, Nat.mul_add_mod', Nat.mod_eq_of_lt w.toNat_lt]
  rfl

theorem sha256K_eq {t : Nat} (ht : t < 64) :
    (sha256K.getD t 0).toBitVec = Sha256.K t := by
  have hall : ∀ t < 64,
      (cubePart (primes.getD t 0) * 2 ^ 32 + (sha256K.getD t 0).toNat) ^ 3
          ≤ primes.getD t 0 * 2 ^ (32 * 3) ∧
        primes.getD t 0 * 2 ^ (32 * 3)
          < (cubePart (primes.getD t 0) * 2 ^ 32
              + (sha256K.getD t 0).toNat + 1) ^ 3 := by
    rw [primes_eq]
    decide +kernel
  obtain ⟨hle, hlt⟩ := hall t ht
  exact (rootFraction_eq (by decide) hle hlt).symm

/-- The words of a hash value as bit vectors. -/
def Sha256Words.vars (w : Sha256Words) : Vars :=
  ⟨w.a.toBitVec, w.b.toBitVec, w.c.toBitVec, w.d.toBitVec, w.e.toBitVec,
    w.f.toBitVec, w.g.toBitVec, w.h.toBitVec⟩

theorem sha256Init_vars : sha256Init.state.vars = Sha256.H₀ := by
  have hroot : ∀ (w : UInt32) (i q : Nat),
      (q * 2 ^ 32 + w.toNat) ^ 2 ≤ primes.getD i 0 * 2 ^ (32 * 2) ∧
        primes.getD i 0 * 2 ^ (32 * 2) < (q * 2 ^ 32 + w.toNat + 1) ^ 2 →
      w.toBitVec = Sha256.initial i :=
    fun w i q h => (rootFraction_eq (by decide) h.1 h.2).symm
  unfold Sha256.H₀
  rw [← hroot 0x6A09E667 0 1 (by rw [primes_eq]; decide),
    ← hroot 0xBB67AE85 1 1 (by rw [primes_eq]; decide),
    ← hroot 0x3C6EF372 2 2 (by rw [primes_eq]; decide),
    ← hroot 0xA54FF53A 3 2 (by rw [primes_eq]; decide),
    ← hroot 0x510E527F 4 3 (by rw [primes_eq]; decide),
    ← hroot 0x9B05688C 5 3 (by rw [primes_eq]; decide),
    ← hroot 0x1F83D9AB 6 4 (by rw [primes_eq]; decide),
    ← hroot 0x5BE0CD19 7 4 (by rw [primes_eq]; decide)]
  rfl

-- ==== a block

theorem wordOf_getLsbD (b0 b1 b2 b3 : UInt8) (i : Nat) :
    (Sha256.wordOf b0 b1 b2 b3).getLsbD i =
      if i < 8 then b3.toBitVec.getLsbD i
      else if i < 16 then b2.toBitVec.getLsbD (i - 8)
      else if i < 24 then b1.toBitVec.getLsbD (i - 16)
      else b0.toBitVec.getLsbD (i - 24) := by
  show (b0.toBitVec ++ b1.toBitVec ++ b2.toBitVec ++ b3.toBitVec).getLsbD i
    = _
  simp only [BitVec.getLsbD_append, Nat.sub_sub]
  grind

theorem loadBe32_toBitVec (data : List UInt8) (j : Nat) :
    (loadBe32 data (j * 4)).toBitVec = Sha256.blockWord data j := by
  unfold loadBe32 Sha256.blockWord
  rw [Nat.mul_comm j 4]
  generalize data.getD (4 * j) 0 = b0
  generalize data.getD (4 * j + 1) 0 = b1
  generalize data.getD (4 * j + 2) 0 = b2
  generalize data.getD (4 * j + 3) 0 = b3
  have hout : ∀ (b : UInt8) (k : Nat), 8 ≤ k →
      b.toBitVec.getLsbD k = false :=
    fun b k hk => BitVec.getLsbD_of_ge _ _ hk
  apply BitVec.eq_of_getLsbD_eq
  intro i hi
  rw [wordOf_getLsbD]
  simp only [UInt32.toBitVec_or, UInt32.toBitVec_shiftLeft,
    UInt8.toBitVec_toUInt32]
  simp
  grind

theorem nextWord_toBitVec {m : List UInt32} {M : Nat → BitVec 32}
    (hlen : 16 ≤ m.length)
    (hm : ∀ t < m.length, (m.getD t 0).toBitVec = Sha256.schedule M t) :
    (nextWord m).toBitVec = Sha256.schedule M m.length := by
  have hword : ∀ back, 0 < back → back ≤ 16 →
      (m.getD (m.length - back) 0).toBitVec
        = Sha256.schedule M (m.length - back) :=
    fun back hpos hle => hm _ (by omega)
  rw [Sha256.schedule, if_neg (by omega), ← hword 2 (by decide) (by decide),
    ← hword 7 (by decide) (by decide), ← hword 15 (by decide) (by decide),
    ← hword 16 (by decide) (by decide)]
  show (m.getD (m.length - 16) 0).toBitVec
      + Sha256.sigma0 (m.getD (m.length - 15) 0).toBitVec
      + (m.getD (m.length - 7) 0).toBitVec
      + Sha256.sigma1 (m.getD (m.length - 2) 0).toBitVec = _
  ac_rfl

/-- The schedule with so many words behind the first 16. -/
def wordsUpTo (data : List UInt8) (n : Nat) : List UInt32 :=
  (List.range n).foldl (fun m _ => m ++ [nextWord m])
    ((List.range 16).map fun i => loadBe32 data (i * 4))

theorem wordsUpTo_succ (data : List UInt8) (n : Nat) :
    wordsUpTo data (n + 1)
      = wordsUpTo data n ++ [nextWord (wordsUpTo data n)] := by
  unfold wordsUpTo
  rw [List.range_succ (n := n), List.foldl_append]
  rfl

theorem wordsUpTo_schedule (data : List UInt8) (n : Nat) :
    (wordsUpTo data n).length = 16 + n ∧ ∀ t < (wordsUpTo data n).length,
      ((wordsUpTo data n).getD t 0).toBitVec
        = Sha256.schedule (Sha256.blockWord data) t := by
  induction n with
  | zero =>
    refine ⟨rfl, fun t ht => ?_⟩
    have ht : t < 16 := ht
    rw [Sha256.schedule, if_pos ht, ← loadBe32_toBitVec]
    simp [wordsUpTo, List.getD_eq_getElem?_getD, ht]
  | succ n ih =>
    obtain ⟨hlen, hm⟩ := ih
    rw [wordsUpTo_succ]
    generalize wordsUpTo data n = m at hlen hm ⊢
    have hnext : (m ++ [nextWord m]).length = m.length + 1 :=
      List.length_append
    rw [hnext]
    refine ⟨by omega, fun t ht => ?_⟩
    by_cases hlast : t = m.length
    · rw [hlast, ← nextWord_toBitVec (by omega) hm]
      simp [List.getD_eq_getElem?_getD]
    · rw [← hm t (by omega)]
      simp [List.getD_eq_getElem?_getD,
        List.getElem?_append_left (show t < m.length by omega)]

theorem schedule_word (data : List UInt8) {t : Nat} (ht : t < 64) :
    ((schedule data).getD t 0).toBitVec
      = Sha256.schedule (Sha256.blockWord data) t := by
  obtain ⟨hlen, hm⟩ := wordsUpTo_schedule data 48
  exact hm t (by omega)

theorem sha256Round_vars (w : Sha256Words) (k m : UInt32) :
    (sha256Round w (k, m)).vars
      = Sha256.round k.toBitVec m.toBitVec w.vars :=
  rfl

theorem zip_schedule (data : List UInt8) :
    sha256K.zip (schedule data)
      = (List.range 64).map fun t =>
          (sha256K.getD t 0, (schedule data).getD t 0) := by
  have hlen : (schedule data).length = 64 := (wordsUpTo_schedule data 48).1
  refine List.ext_getElem ?_ fun i hi _ => ?_
  · rw [List.length_zip, hlen, List.length_map, List.length_range]
    rfl
  · rw [List.length_zip, hlen] at hi
    have hk : i < sha256K.length := Nat.lt_of_lt_of_le hi (Nat.min_le_left ..)
    have hm : i < (schedule data).length := by omega
    simp [List.getD_eq_getElem?_getD, hk, hm]

theorem rounds_vars (data : List UInt8) (s : Sha256Words) {n : Nat}
    (hn : n ≤ 64) :
    (((List.range n).map fun t => (sha256K.getD t 0,
          (schedule data).getD t 0)).foldl sha256Round s).vars
      = (List.range n).foldl (fun v t => Sha256.round (Sha256.K t)
          (Sha256.schedule (Sha256.blockWord data) t) v) s.vars := by
  induction n with
  | zero => rfl
  | succ n ih =>
    rw [List.range_succ, List.map_append, List.foldl_append,
      List.foldl_append, ← ih (by omega)]
    simp only [List.foldl_cons, List.foldl_nil, List.map_cons, List.map_nil]
    rw [sha256Round_vars, sha256K_eq (by omega), schedule_word data (by omega)]

theorem sha256Transform_vars (s : Sha256Words) (data : List UInt8) :
    (sha256Transform s data).vars = Sha256.compress s.vars data := by
  unfold sha256Transform Sha256.compress
  rw [zip_schedule, ← rounds_vars data s (Nat.le_refl 64)]
  generalize ((List.range 64).map _).foldl sha256Round s = w
  simp only [Sha256Words.vars, UInt32.toBitVec_add, BitVec.add_comm]

-- ==== the message

/-- A context was fed a message: what is in front is compressed, and the
rest is in the buffer. -/
structure Sha256Ctx.Fed (message : List UInt8) (c : Sha256Ctx) : Prop where
  short : c.data.length < 64
  front : ∃ front, message = front ++ c.data ∧ 64 ∣ front.length ∧
    c.state.vars = (Sha256.blocks front).foldl Sha256.compress Sha256.H₀ ∧
    c.bitlen = UInt64.ofNat (8 * front.length)

theorem sha256Init_fed : sha256Init.Fed [] where
  short := by decide
  front := ⟨[], rfl, Nat.dvd_zero 64, sha256Init_vars, rfl⟩

theorem Sha256Ctx.Fed.byte {message : List UInt8} {c : Sha256Ctx}
    (h : c.Fed message) (b : UInt8) :
    (sha256Byte c b).Fed (message ++ [b]) := by
  obtain ⟨hshort, front, rfl, hdvd, hstate, hbits⟩ := h
  have hlen : (c.data ++ [b]).length = c.data.length + 1 :=
    List.length_append
  unfold sha256Byte
  simp only []
  rw [hlen]
  split
  · next hfull =>
    rw [List.append_assoc]
    refine ⟨Nat.succ_pos 63, front ++ (c.data ++ [b]), ?_, ?_, ?_, ?_⟩
    · rw [List.append_nil]
    · rw [List.length_append, hlen]
      omega
    · rw [Sha256.blocks_append hdvd, List.foldl_append,
        Sha256.blocks_one (hlen.trans hfull), ← hstate]
      exact sha256Transform_vars c.state _
    · show c.bitlen + 512 = _
      rw [List.length_append, hlen, hfull, hbits, Nat.mul_add,
        UInt64.ofNat_add]
      rfl
  · refine ⟨?_, front, List.append_assoc .., hdvd, hstate, hbits⟩
    show (c.data ++ [b]).length < 64
    omega

theorem Sha256Ctx.Fed.update {message : List UInt8} {c : Sha256Ctx}
    (h : c.Fed message) (data : List UInt8) :
    (sha256Update c data).Fed (message ++ data) := by
  induction data generalizing c message with
  | nil =>
    rw [List.append_nil]
    exact h
  | cons b data ih =>
    have hnext := ih (h.byte b)
    rw [List.append_assoc] at hnext
    exact hnext

theorem Sha256Ctx.Fed.pieces {message : List UInt8} {c : Sha256Ctx}
    (h : c.Fed message) (pieces : List (List UInt8)) :
    (pieces.foldl sha256Update c).Fed (message ++ pieces.flatten) := by
  induction pieces generalizing c message with
  | nil =>
    rw [List.flatten_nil, List.append_nil]
    exact h
  | cons piece pieces ih =>
    have hnext := ih (h.update piece)
    rw [List.append_assoc] at hnext
    exact hnext

theorem lengthBytes_eq (n : Nat) :
    storeBe32 (UInt64.ofNat n >>> 32).toUInt32
        ++ storeBe32 (UInt64.ofNat n).toUInt32
      = Sha256.lengthBytes n := by
  have hrange : List.range 8 = [0, 1, 2, 3, 4, 5, 6, 7] := rfl
  unfold Sha256.lengthBytes storeBe32
  rw [hrange]
  simp only [List.cons_append, List.nil_append, List.map_cons, List.map_nil,
    List.cons.injEq, and_true, ← UInt8.toNat_inj]
  simp [Nat.shiftRight_eq_div_pow]
  omega

theorem transform_bytes {s w : Sha256Words} {data : List UInt8}
    (hw : sha256Transform s data = w) :
    [w.a, w.b, w.c, w.d, w.e, w.f, w.g, w.h].flatMap storeBe32
      = (Sha256.compress s.vars data).bytes := by
  rw [← sha256Transform_vars, hw]
  rfl

theorem Sha256Ctx.Fed.final {message : List UInt8} {c : Sha256Ctx}
    (h : c.Fed message) : sha256Final c = Sha256.digest message := by
  obtain ⟨hshort, front, rfl, hdvd, hstate, hbits⟩ := h
  have hbitlen : c.bitlen + UInt64.ofNat c.data.length * 8
      = UInt64.ofNat (8 * (front ++ c.data).length) := by
    rw [hbits, List.length_append, Nat.mul_add, UInt64.ofNat_add,
      Nat.mul_comm 8 c.data.length, UInt64.ofNat_mul c.data.length]
    rfl
  have hzeros : Sha256.zeroBytes (front ++ c.data).length
      = (119 - c.data.length) % 64 := by
    unfold Sha256.zeroBytes
    rw [List.length_append]
    omega
  have hended : (c.data ++ [0x80]).length = c.data.length + 1 :=
    List.length_append
  have hlast : (Sha256.lengthBytes (8 * (front ++ c.data).length)).length
      = 8 := by
    simp [Sha256.lengthBytes]
  unfold sha256Final Sha256.digest Sha256.pad
  rw [hzeros, List.append_assoc, Sha256.blocks_append hdvd, List.foldl_append,
    ← hstate]
  simp only [hbitlen, lengthBytes_eq, hended]
  generalize Sha256.lengthBytes (8 * (front ++ c.data).length) = L at hlast ⊢
  by_cases hlt : c.data.length < 56
  · have htail : c.data ++ 0x80 ::
          (List.replicate ((119 - c.data.length) % 64) 0 ++ L)
        = c.data ++ [0x80]
            ++ List.replicate (56 - (c.data.length + 1)) 0 ++ L := by
      rw [show (119 - c.data.length) % 64 = 56 - (c.data.length + 1) by omega]
      simp
    simp only [hlt, if_true]
    rw [transform_bytes rfl, htail, Sha256.blocks_one]
    · rfl
    · simp only [List.length_append, List.length_replicate, hended, hlast]
      omega
  · have htail : c.data ++ 0x80 ::
          (List.replicate ((119 - c.data.length) % 64) 0 ++ L)
        = (c.data ++ [0x80]
              ++ List.replicate (64 - (c.data.length + 1)) 0)
            ++ (List.replicate 56 0 ++ L) := by
      rw [show (119 - c.data.length) % 64 = 64 - (c.data.length + 1) + 56
        by omega, ← List.replicate_append_replicate]
      simp
    have hfirst : (c.data ++ [0x80]
        ++ List.replicate (64 - (c.data.length + 1)) 0).length = 64 := by
      rw [List.length_append, List.length_replicate, hended]
      omega
    have hsecond : (List.replicate 56 0 ++ L).length = 64 := by
      rw [List.length_append, List.length_replicate, hlast]
    simp only [hlt, if_false]
    rw [transform_bytes rfl, htail,
      Sha256.blocks_append ⟨1, hfirst⟩,
      Sha256.blocks_one hfirst, Sha256.blocks_one hsecond,
      sha256Transform_vars]
    rfl

-- ==== the digits

/-- A string of bytes in lower-case hexadecimal digits. -/
def lowerHex (bytes : List UInt8) : List Char :=
  bytes.flatMap fun b =>
    ["0123456789abcdef".toList.getD (b.toNat / 16) '0',
      "0123456789abcdef".toList.getD (b.toNat % 16) '0']

theorem hexDigit_char (b : UInt8) :
    [hexDigit (b >>> 4), hexDigit b].map (fun c => Char.ofUInt8 c)
      = lowerHex [b] := by
  have hall : ∀ n < 256,
      [hexDigit (UInt8.ofNat n >>> 4), hexDigit (UInt8.ofNat n)].map
          (fun c => Char.ofUInt8 c)
        = lowerHex [UInt8.ofNat n] := by
    decide +kernel
  have h := hall b.toNat b.toNat_lt
  rwa [UInt8.ofNat_toNat] at h

theorem hexDigits_lowerHex (bytes : List UInt8) :
    (bytes.flatMap fun (b : UInt8) => [hexDigit (b >>> 4), hexDigit b]).map
        (fun c => Char.ofUInt8 c)
      = lowerHex bytes := by
  rw [List.map_flatMap]
  refine congrArg (fun f => bytes.flatMap f) (funext fun b => ?_)
  exact (hexDigit_char b).trans (List.flatMap_singleton ..)

/-- The password hash is the SHA-256 digest in hexadecimal digits, and the
digest is that of the whole message, however it is cut into pieces. -/
theorem hashPassword_eq :
    (∀ password : List UInt8,
      (hashPassword password).map (fun c => Char.ofUInt8 c)
        = lowerHex (Sha256.digest password)) ∧
    ∀ pieces : List (List UInt8),
      sha256Final (pieces.foldl sha256Update sha256Init)
        = Sha256.digest pieces.flatten := by
  refine ⟨fun password => ?_, fun pieces => ?_⟩
  · unfold hashPassword
    rw [hexDigits_lowerHex]
    exact congrArg lowerHex (sha256Init_fed.update password).final
  · exact (sha256Init_fed.pieces pieces).final

end Clks.User
