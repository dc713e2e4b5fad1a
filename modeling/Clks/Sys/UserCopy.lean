/-
Strings of a program (syscall/usercopy.rs).

A program's memory is which of its ranges can be read, and its bytes. A
string of it is what stands before the first NUL, all of which can be
read. A copy ends at the NUL, at a byte that cannot be read, or where the
destination is full; it reports a success in the first case and in the
last (`copied_iff`).
-/
import Mathlib

namespace Clks.Sys

/-- What a syscall sees of its caller's memory. -/
structure UserMemory where
  inUserExecContext : Bool
  readable : UInt64 → UInt64 → Bool
  byte : UInt64 → UInt8

/-- What a buffer holds up to its first NUL. -/
def cString (buf : List UInt8) : List UInt8 := buf.takeWhile (· ≠ 0)

namespace UserMemory

variable (m : UserMemory)

-- ==== the code

/-- `user_ptr_readable`. -/
def userPtrReadable (addr size : UInt64) : Bool :=
  if addr = 0 ∨ size = 0 then false
  else if !m.inUserExecContext then true
  else m.readable addr size

/-- The loop of `copy_user_string`, with so many rounds left. -/
def copyLoop (src : UInt64) : Nat → Nat → List UInt8 → Bool × List UInt8
  | 0, _, dst => (true, dst.set (dst.length - 1) 0)
  | n + 1, i, dst =>
    let charAddr := src + UInt64.ofNat i
    if charAddr < src ∨ m.userPtrReadable charAddr 1 = false then (false, dst)
    else
      let ch := m.byte charAddr
      if ch = 0 then (true, dst.set i ch)
      else copyLoop src n (i + 1) (dst.set i ch)

/-- `copy_user_string`: whether it succeeds, and the destination. -/
def copyUserString (src : UInt64) (dst : List UInt8) : Bool × List UInt8 :=
  if src = 0 ∨ dst = [] then (false, dst)
  else m.copyLoop src (dst.length - 1) 0 dst

-- ==== the strings

/-- The byte at an offset behind an address, if it can be read. -/
def byteAt (src : UInt64) (i : Nat) : Option UInt8 :=
  let addr := UInt64.ofNat (src.toNat + i)
  if src.toNat + i < 2 ^ 64 ∧ m.userPtrReadable addr 1 = true then
    some (m.byte addr)
  else none

/-- The string at an address. -/
structure IsString (src : UInt64) (s : List UInt8) : Prop where
  bytes : ∀ i (h : i < s.length), s[i] ≠ 0 ∧ m.byteAt src i = some s[i]
  nul : m.byteAt src s.length = some 0

/-- A copy into `dst` reports a success only for the whole string. -/
def Copied (src : UInt64) (dst : List UInt8) : Prop :=
  (m.copyUserString src dst).1 = true →
    ∃ s, m.IsString src s ∧ s ++ [0] <+: (m.copyUserString src dst).2

/-- A buffer of `n` bytes is full before the string is over: there are
`n - 1` bytes that can be read and are no NUL, and behind them there is
none either. -/
structure Overruns (src : UInt64) (n : Nat) : Prop where
  addr : src ≠ 0
  size : 0 < n
  bytes : ∀ i < n - 1, ∃ b, m.byteAt src i = some b ∧ b ≠ 0
  behind : m.byteAt src (n - 1) ≠ some 0

/-- The bytes before a NUL or before the end of what can be read, at most
`n` from an offset on. -/
def text (src : UInt64) : Nat → Nat → List UInt8
  | 0, _ => []
  | n + 1, i =>
    match m.byteAt src i with
    | some b => if b = 0 then [] else b :: text src n (i + 1)
    | none => []

variable {m} {src : UInt64} {dst s : List UInt8} {i n : Nat}

-- ==== the text

theorem byteAt_eq (hi : i < 2 ^ 64) :
    m.byteAt src i
      = if src + UInt64.ofNat i < src ∨
            m.userPtrReadable (src + UInt64.ofNat i) 1 = false then none
        else some (m.byte (src + UInt64.ofNat i)) := by
  have hsrc := src.toNat_lt
  have haddr : UInt64.ofNat (src.toNat + i) = src + UInt64.ofNat i := by
    rw [UInt64.ofNat_add, UInt64.ofNat_toNat]
  have hwrap : src + UInt64.ofNat i < src ↔ ¬ src.toNat + i < 2 ^ 64 := by
    rw [UInt64.lt_iff_toNat_lt, UInt64.toNat_add, UInt64.toNat_ofNat',
      Nat.mod_eq_of_lt hi]
    omega
  unfold byteAt
  simp only [haddr, hwrap]
  by_cases hin : src.toNat + i < 2 ^ 64
  · cases hread : m.userPtrReadable (src + UInt64.ofNat i) 1 with
    | true =>
      rw [if_pos ⟨hin, rfl⟩, if_neg]
      exact fun hor => hor.elim (fun h => h hin) Bool.noConfusion
    | false => rw [if_neg fun h => Bool.noConfusion h.2, if_pos (.inr rfl)]
  · rw [if_neg fun h => hin h.1, if_pos (.inl hin)]

theorem text_ne_zero (src : UInt64) (n i : Nat) : 0 ∉ m.text src n i := by
  induction n generalizing i with
  | zero => exact List.not_mem_nil
  | succ n ih =>
    unfold text
    cases m.byteAt src i with
    | none => exact List.not_mem_nil
    | some b =>
      by_cases hb : b = 0
      · simp [hb]
      · simp [hb, Ne.symm hb, ih (i + 1)]

theorem text_length_le (src : UInt64) (n i : Nat) :
    (m.text src n i).length ≤ n := by
  induction n generalizing i with
  | zero => exact Nat.le_refl 0
  | succ n ih =>
    unfold text
    have hrest := ih (i + 1)
    cases m.byteAt src i with
    | none => exact Nat.zero_le _
    | some b => by_cases hb : b = 0 <;> simp [hb, hrest]

theorem text_getElem (src : UInt64) (n i : Nat) {j : Nat}
    (hj : j < (m.text src n i).length) :
    m.byteAt src (i + j) = some (m.text src n i)[j] := by
  induction n generalizing i j with
  | zero => cases hj
  | succ n ih =>
    cases hbyte : m.byteAt src i with
    | none =>
      unfold text at hj
      simp [hbyte] at hj
    | some b =>
      by_cases hb : b = 0
      · unfold text at hj
        simp [hbyte, hb] at hj
      · have htext : m.text src (n + 1) i = b :: m.text src n (i + 1) := by
          rw [text, hbyte]
          exact if_neg hb
        simp only [htext] at hj ⊢
        cases j with
        | zero => exact hbyte
        | succ j =>
          rw [show i + (j + 1) = i + 1 + j by omega]
          exact ih (i + 1) (Nat.lt_of_succ_lt_succ hj)

theorem text_full (h : ∀ j < n, ∃ b, m.byteAt src (i + j) = some b ∧ b ≠ 0) :
    (m.text src n i).length = n := by
  induction n generalizing i with
  | zero => rfl
  | succ n ih =>
    obtain ⟨b, hbyte, hb⟩ := h 0 (Nat.succ_pos n)
    have hrest : (m.text src n (i + 1)).length = n := by
      refine ih fun j hj => ?_
      rw [show i + 1 + j = i + (j + 1) by omega]
      exact h (j + 1) (Nat.succ_lt_succ hj)
    rw [text, show m.byteAt src i = some b from hbyte]
    show (if b = 0 then [] else b :: m.text src n (i + 1)).length = n + 1
    rw [if_neg hb, List.length_cons, hrest]

theorem text_isString (h : m.byteAt src (m.text src n 0).length = some 0) :
    m.IsString src (m.text src n 0) where
  bytes j hj := by
    have hbyte := text_getElem src n 0 hj
    rw [Nat.zero_add] at hbyte
    refine ⟨fun hzero => @text_ne_zero m src n 0 ?_, hbyte⟩
    rw [← hzero]
    exact List.getElem_mem hj
  nul := h

theorem IsString.ne_zero (h : m.IsString src s) : 0 ∉ s := by
  intro hzero
  obtain ⟨i, hi, hget⟩ := List.getElem_of_mem hzero
  exact (h.bytes i hi).1 hget

theorem cString_of_starts {buf : List UInt8} (h : s ++ [0] <+: buf)
    (hs : 0 ∉ s) : cString buf = s := by
  obtain ⟨rest, rfl⟩ := h
  unfold cString
  rw [List.append_assoc, List.takeWhile_append_of_pos]
  · simp
  · intro b hb
    simpa using fun hzero : b = 0 => hs (hzero ▸ hb)

-- ==== the copy

theorem take_append_set (h : i < dst.length) (ch : UInt8) :
    dst.take i ++ [ch] <+: dst.set i ch := by
  rw [List.set_eq_take_append_cons_drop, if_pos h]
  exact ⟨dst.drop (i + 1), List.append_assoc ..⟩

theorem take_set (h : i < dst.length) (ch : UInt8) :
    (dst.set i ch).take (i + 1) = dst.take i ++ [ch] := by
  have hlen : (dst.take i ++ [ch]).length = i + 1 := by
    rw [List.length_append, List.length_take_of_le (Nat.le_of_lt h)]
    rfl
  exact (List.prefix_iff_eq_take.mp (take_append_set h ch)).symm ▸
    congrArg (fun k => (dst.set i ch).take k) hlen.symm

theorem copyLoop_text (hlen : dst.length = i + n + 1)
    (hmax : dst.length ≤ 2 ^ 64) :
    ((m.copyLoop src n i dst).1 = true ↔
        (m.text src n i).length = n ∨
          m.byteAt src (i + (m.text src n i).length) = some 0) ∧
      ((m.copyLoop src n i dst).1 = true →
        dst.take i ++ (m.text src n i ++ [0])
          <+: (m.copyLoop src n i dst).2) := by
  induction n generalizing i dst with
  | zero =>
    have hend : dst.length - 1 = i := by omega
    refine ⟨⟨fun _ => .inl rfl, fun _ => rfl⟩, fun _ => ?_⟩
    show dst.take i ++ [0] <+: dst.set (dst.length - 1) 0
    rw [hend]
    exact take_append_set (by omega) 0
  | succ n ih =>
    have hbyte := @byteAt_eq m src i (by omega)
    unfold copyLoop text
    simp only []
    by_cases hread : src + UInt64.ofNat i < src ∨
        m.userPtrReadable (src + UInt64.ofNat i) 1 = false
    · rw [if_pos hread] at hbyte ⊢
      simp [hbyte]
    · rw [if_neg hread] at hbyte ⊢
      generalize m.byte (src + UInt64.ofNat i) = b at hbyte ⊢
      rw [hbyte]
      by_cases hb : b = 0
      · subst hb
        simp [hbyte, take_append_set (show i < dst.length by omega)]
      · simp only [hb, if_false]
        obtain ⟨hiff, hdst⟩ := @ih (dst.set i b) (i + 1)
          (by rw [List.length_set]; omega) (by rw [List.length_set]; omega)
        refine ⟨?_, fun hok => ?_⟩
        · rw [hiff, List.length_cons, Nat.add_right_cancel_iff]
          have hnext : i + 1 + (m.text src n (i + 1)).length
              = i + ((m.text src n (i + 1)).length + 1) := by omega
          rw [hnext]
        · have hall := hdst hok
          rw [take_set (by omega), List.append_assoc] at hall
          exact hall

theorem copyUserString_text (hsrc : src ≠ 0) (hdst : dst ≠ [])
    (hmax : dst.length ≤ 2 ^ 64) :
    ((m.copyUserString src dst).1 = true ↔
        (m.text src (dst.length - 1) 0).length = dst.length - 1 ∨
          m.byteAt src (m.text src (dst.length - 1) 0).length = some 0) ∧
      ((m.copyUserString src dst).1 = true →
        m.text src (dst.length - 1) 0 ++ [0]
          <+: (m.copyUserString src dst).2) := by
  have hpos := List.length_pos_iff.mpr hdst
  have hloop := @copyLoop_text m src dst 0 (dst.length - 1) (by omega) hmax
  rw [Nat.zero_add] at hloop
  unfold copyUserString
  rw [if_neg (by simp [hsrc, hdst])]
  exact hloop

theorem copyUserString_args (hok : (m.copyUserString src dst).1 = true) :
    src ≠ 0 ∧ dst ≠ [] := by
  refine not_or.mp fun hnone => ?_
  unfold copyUserString at hok
  rw [if_pos hnone] at hok
  cases hok

theorem copyUserString_cString (hmax : dst.length ≤ 2 ^ 64)
    (hok : (m.copyUserString src dst).1 = true) :
    cString (m.copyUserString src dst).2 ++ [0]
      <+: (m.copyUserString src dst).2 := by
  obtain ⟨hsrc, hdst⟩ := copyUserString_args hok
  have htext := (copyUserString_text hsrc hdst hmax).2 hok
  rw [cString_of_starts htext (text_ne_zero src _ 0)]
  exact htext

theorem copied_iff (hmax : dst.length ≤ 2 ^ 64) :
    m.Copied src dst ↔ ¬ m.Overruns src dst.length := by
  constructor
  · intro hcopied hover
    obtain ⟨hsrc, hpos, hbytes, hbehind⟩ := hover
    obtain ⟨hiff, htext⟩ := @copyUserString_text m src dst hsrc
      (List.length_pos_iff.mp hpos) hmax
    have hfull : (m.text src (dst.length - 1) 0).length = dst.length - 1 := by
      refine text_full fun j hj => ?_
      rw [Nat.zero_add]
      exact hbytes j hj
    have hok := hiff.mpr (.inl hfull)
    obtain ⟨s, hs, hpre⟩ := hcopied hok
    have hsame : s = m.text src (dst.length - 1) 0 :=
      (cString_of_starts hpre hs.ne_zero).symm.trans
        (cString_of_starts (htext hok) (text_ne_zero src _ 0))
    have hnul := hs.nul
    rw [hsame, hfull] at hnul
    exact hbehind hnul
  · intro hover hok
    obtain ⟨hsrc, hdst⟩ := copyUserString_args hok
    obtain ⟨hiff, htext⟩ := @copyUserString_text m src dst hsrc hdst hmax
    refine ⟨m.text src (dst.length - 1) 0, text_isString ?_, htext hok⟩
    cases hiff.mp hok with
    | inr hnul => exact hnul
    | inl hfull =>
      by_contra hnul
      rw [hfull] at hnul
      refine hover ⟨hsrc, List.length_pos_iff.mpr hdst, fun i hi => ?_, hnul⟩
      have hi' : i < (m.text src (dst.length - 1) 0).length := by omega
      have hbyte := text_getElem src _ 0 hi'
      rw [Nat.zero_add] at hbyte
      refine ⟨_, hbyte, fun hzero =>
        @text_ne_zero m src (dst.length - 1) 0 ?_⟩
      rw [← hzero]
      exact List.getElem_mem hi'

end UserMemory

end Clks.Sys
