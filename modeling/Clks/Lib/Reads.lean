/-
Checked reads of a byte buffer.

A pointer into a received buffer is an offset, and a read through it is
checked against the length of the buffer: one outside of it is a fault,
and so is a loop that is still running when its rounds are over. The
entries of an array of fixed size are read and written in the same way, and
a division by zero is a fault too.
`Safe` says that a reader ends without a fault on the buffer at hand,
and it is closed under every way of building a reader, so that the
safety of a parser is assembled along its syntax. What is left at the
leaves is the arithmetic of its length fields.
-/
import Mathlib

namespace Reads

/-- What can go wrong. -/
inductive Fault
  | outside (off : Nat)
  | unfinished
  | zeroDivisor
  deriving DecidableEq, Repr

/-- A result, or a fault. -/
abbrev Checked (α : Type) := Except Fault α

/-- Bytes of a fixed number. -/
abbrev Block (n : Nat) := { bs : List UInt8 // bs.length = n }

variable {α β : Type} {b : List UInt8} {off n : Nat}

-- ==== the reads

/-- Read a byte. -/
def byteAt (b : List UInt8) (off : Nat) : Checked UInt8 :=
  if h : off < b.length then .ok b[off] else .error (.outside off)

/-- Read a big-endian word of 16 bits. -/
def be16At (b : List UInt8) (off : Nat) : Checked UInt16 := do
  let hi ← byteAt b off
  let lo ← byteAt b (off + 1)
  return hi.toUInt16 <<< 8 ||| lo.toUInt16

/-- Read a big-endian word of 32 bits. -/
def be32At (b : List UInt8) (off : Nat) : Checked UInt32 := do
  let b₀ ← byteAt b off
  let b₁ ← byteAt b (off + 1)
  let b₂ ← byteAt b (off + 2)
  let b₃ ← byteAt b (off + 3)
  return b₀.toUInt32 <<< 24 ||| b₁.toUInt32 <<< 16 ||| b₂.toUInt32 <<< 8
    ||| b₃.toUInt32

/-- Read a little-endian word of 32 bits. -/
def le32At (b : List UInt8) (off : Nat) : Checked UInt32 := do
  let b₀ ← byteAt b off
  let b₁ ← byteAt b (off + 1)
  let b₂ ← byteAt b (off + 2)
  let b₃ ← byteAt b (off + 3)
  return b₀.toUInt32 ||| b₁.toUInt32 <<< 8 ||| b₂.toUInt32 <<< 16
    ||| b₃.toUInt32 <<< 24

/-- Read a little-endian word of 16 bits. -/
def le16At (b : List UInt8) (off : Nat) : Checked UInt16 := do
  let lo ← byteAt b off
  let hi ← byteAt b (off + 1)
  return lo.toUInt16 ||| hi.toUInt16 <<< 8

/-- Read a little-endian word of 64 bits. -/
def le64At (b : List UInt8) (off : Nat) : Checked UInt64 := do
  let lo ← le32At b off
  let hi ← le32At b (off + 4)
  return lo.toUInt64 ||| hi.toUInt64 <<< 32

/-- Copy some bytes, one after the other. -/
def blockAt (b : List UInt8) (off : Nat) : (n : Nat) → Checked (Block n)
  | 0 => return ⟨[], rfl⟩
  | n + 1 => do
    let x ← byteAt b off
    let xs ← blockAt b (off + 1) n
    return ⟨x :: xs.val, by rw [List.length_cons, xs.property]⟩

/-- Write some bytes, one after the other. -/
def putAt : List UInt8 → Nat → List UInt8 → Checked (List UInt8)
  | b, _, [] => return b
  | b, off, x :: xs =>
    if off < b.length then putAt (b.set off x) (off + 1) xs
    else .error (.outside off)

/-- The bytes of a word of 64 bits, lowest first. -/
def le64 (w : UInt64) : List UInt8 :=
  [w.toUInt8, (w >>> 8).toUInt8, (w >>> 16).toUInt8, (w >>> 24).toUInt8,
   (w >>> 32).toUInt8, (w >>> 40).toUInt8, (w >>> 48).toUInt8,
   (w >>> 56).toUInt8]

/-- Are the bytes from an offset on the given ones? It stops at the first
one that is not. -/
def equalAt (b : List UInt8) : Nat → List UInt8 → Checked Bool
  | _, [] => return true
  | off, x :: xs => do
    let y ← byteAt b off
    if y ≠ x then return false else equalAt b (off + 1) xs

/-- Read an entry of an array. -/
def fetch (v : Vector α n) (i : Nat) : Checked α :=
  if h : i < n then .ok (v.get ⟨i, h⟩) else .error (.outside i)

/-- Write an entry of an array. -/
def store (v : Vector α n) (i : Nat) (a : α) : Checked (Vector α n) :=
  if h : i < n then .ok (v.set i a h) else .error (.outside i)

/-- Divide. -/
def divided [Div α] [OfNat α 0] [DecidableEq α] (a c : α) : Checked α :=
  if c = 0 then .error .zeroDivisor else .ok (a / c)

-- ==== safety

/-- The reader ends without a fault. -/
def Safe (x : Checked α) : Prop := ∃ a, x = .ok a

theorem ok_bind (a : α) (f : α → Checked β) :
    (Except.ok a : Checked α) >>= f = f a := rfl

theorem Safe.ok (a : α) : Safe (.ok a) := ⟨a, rfl⟩

theorem Safe.pure (a : α) : Safe (Pure.pure a : Checked α) := ⟨a, rfl⟩

theorem Safe.bind {x : Checked α} {f : α → Checked β} (hx : Safe x)
    (hf : ∀ a, Safe (f a)) : Safe (x >>= f) := by
  obtain ⟨a, rfl⟩ := hx
  exact hf a

theorem Safe.ite {p : Prop} [Decidable p] {x y : Checked α}
    (hx : p → Safe x) (hy : ¬ p → Safe y) : Safe (if p then x else y) := by
  split_ifs with h
  · exact hx h
  · exact hy h

/-- A return in front of the rest. -/
theorem Safe.early {p : Prop} [Decidable p] {a : α} {y : Checked α}
    (hy : ¬ p → Safe y) : Safe (if p then Pure.pure a else y) :=
  .ite (fun _ => .pure a) hy

theorem byteAt_safe (h : off < b.length) : Safe (byteAt b off) := by
  unfold byteAt
  rw [dif_pos h]
  exact .ok _

theorem be16At_safe (h : off + 2 ≤ b.length) : Safe (be16At b off) :=
  .bind (byteAt_safe (by omega)) fun _ =>
  .bind (byteAt_safe (by omega)) fun _ => .pure _

theorem be32At_safe (h : off + 4 ≤ b.length) : Safe (be32At b off) :=
  .bind (byteAt_safe (by omega)) fun _ =>
  .bind (byteAt_safe (by omega)) fun _ =>
  .bind (byteAt_safe (by omega)) fun _ =>
  .bind (byteAt_safe (by omega)) fun _ => .pure _

theorem le32At_safe (h : off + 4 ≤ b.length) : Safe (le32At b off) :=
  .bind (byteAt_safe (by omega)) fun _ =>
  .bind (byteAt_safe (by omega)) fun _ =>
  .bind (byteAt_safe (by omega)) fun _ =>
  .bind (byteAt_safe (by omega)) fun _ => .pure _

theorem le16At_safe (h : off + 2 ≤ b.length) : Safe (le16At b off) :=
  .bind (byteAt_safe (by omega)) fun _ =>
  .bind (byteAt_safe (by omega)) fun _ => .pure _

theorem le64At_safe (h : off + 8 ≤ b.length) : Safe (le64At b off) :=
  .bind (le32At_safe (by omega)) fun _ =>
  .bind (le32At_safe (by omega)) fun _ => .pure _

theorem blockAt_safe (h : off + n ≤ b.length) : Safe (blockAt b off n) := by
  induction n generalizing off with
  | zero => exact .pure _
  | succ n ih =>
    exact .bind (byteAt_safe (by omega)) fun _ =>
      .bind (ih (by omega)) fun _ => .pure _

theorem equalAt_safe {xs : List UInt8} (h : off + xs.length ≤ b.length) :
    Safe (equalAt b off xs) := by
  induction xs generalizing off with
  | nil => exact .pure _
  | cons x xs ih =>
    rw [List.length_cons] at h
    apply Safe.bind (byteAt_safe (by omega))
    intro y
    apply Safe.ite
    · exact fun _ => .pure _
    · exact fun _ => ih (by omega)

variable {P : α → Prop} {Q : β → Prop} {x : Checked α}

/-- The reader ends without a fault, and its result is one of these. -/
def Gives (P : α → Prop) (x : Checked α) : Prop := ∃ a, x = .ok a ∧ P a

theorem Gives.pure {a : α} (h : P a) : Gives P (Pure.pure a : Checked α) :=
  ⟨a, rfl, h⟩

theorem Gives.bind {f : α → Checked β} (hx : Gives P x)
    (hf : ∀ a, P a → Gives Q (f a)) : Gives Q (x >>= f) := by
  obtain ⟨a, rfl, ha⟩ := hx
  exact hf a ha

theorem Safe.andThen {f : α → Checked β} (hx : Safe x)
    (hf : ∀ a, Gives Q (f a)) : Gives Q (x >>= f) := by
  obtain ⟨a, rfl⟩ := hx
  exact hf a

theorem Gives.ite {p : Prop} [Decidable p] {y : Checked α}
    (hx : p → Gives P x) (hy : ¬ p → Gives P y) :
    Gives P (if p then x else y) := by
  split_ifs with h
  · exact hx h
  · exact hy h

theorem Gives.mono {R : α → Prop} (hx : Gives P x) (h : ∀ a, P a → R a) :
    Gives R x := by
  obtain ⟨a, heq, ha⟩ := hx
  exact ⟨a, heq, h a ha⟩

theorem Gives.safe (hx : Gives P x) : Safe x := by
  obtain ⟨a, heq, -⟩ := hx
  exact ⟨a, heq⟩

theorem Gives.of_ok (hx : Gives P x) {a : α} (h : x = .ok a) : P a := by
  obtain ⟨c, heq, hc⟩ := hx
  rw [heq] at h
  cases h
  exact hc

-- ==== writes

/-- The buffer with some bytes written over it. -/
def overwrite (b : List UInt8) (off : Nat) (xs : List UInt8) : List UInt8 :=
  b.take off ++ xs ++ b.drop (off + xs.length)

variable {xs : List UInt8}

theorem length_overwrite (h : off + xs.length ≤ b.length) :
    (overwrite b off xs).length = b.length := by
  unfold overwrite
  rw [List.length_append, List.length_append, List.length_take,
    List.length_drop]
  omega

theorem overwrite_inside (h : off + xs.length ≤ b.length) {i : Nat}
    (h1 : off ≤ i) (h2 : i < off + xs.length) :
    (overwrite b off xs)[i]? = xs[i - off]? := by
  have hlen : (b.take off).length = off := by
    rw [List.length_take]
    omega
  unfold overwrite
  rw [List.append_assoc, List.getElem?_append_right (by omega), hlen,
    List.getElem?_append_left (by omega)]

theorem overwrite_outside (h : off + xs.length ≤ b.length) {i : Nat}
    (hi : i < off ∨ off + xs.length ≤ i) : (overwrite b off xs)[i]? = b[i]? := by
  have hlen : (b.take off).length = off := by
    rw [List.length_take]
    omega
  unfold overwrite
  rw [List.append_assoc]
  rcases hi with hi | hi
  · rw [List.getElem?_append_left (by omega), List.getElem?_take_of_lt hi]
  · rw [List.getElem?_append_right (by omega), hlen,
      List.getElem?_append_right (by omega), List.getElem?_drop]
    congr 1
    omega

theorem overwrite_set (h : off < b.length) (x : UInt8) :
    overwrite (b.set off x) (off + 1) xs = overwrite b off (x :: xs) := by
  have htake : (b.set off x).take (off + 1) = b.take off ++ [x] := by
    rw [List.set_eq_take_append_cons_drop, if_pos h, List.take_append,
      List.length_take, Nat.min_eq_left (by omega), List.take_take,
      Nat.min_eq_right (by omega), Nat.add_sub_cancel_left]
    rfl
  unfold overwrite
  rw [htake, List.drop_set_of_lt (by omega), List.length_cons,
    List.append_assoc (b.take off), Nat.add_right_comm, Nat.add_assoc off]
  rfl

theorem putAt_eq (h : off + xs.length ≤ b.length) :
    putAt b off xs = .ok (overwrite b off xs) := by
  induction xs generalizing b off with
  | nil =>
    show Except.ok b = _
    unfold overwrite
    rw [List.append_nil, List.length_nil, Nat.add_zero,
      List.take_append_drop]
  | cons x xs ih =>
    rw [List.length_cons] at h
    unfold putAt
    rw [if_pos (by omega), ih (by rw [List.length_set]; omega),
      overwrite_set (by omega)]

theorem blockAt_gives (h : off + n ≤ b.length) :
    Gives (fun bs => bs.val = (b.drop off).take n) (blockAt b off n) := by
  induction n generalizing off with
  | zero => exact .pure rfl
  | succ n ih =>
    have hbyte : byteAt b off = .ok b[off] := dif_pos (by omega)
    have htail : off + 1 + n ≤ b.length := by omega
    have hdrop : b.drop off = b[off] :: b.drop (off + 1) :=
      List.drop_eq_getElem_cons (by omega)
    unfold blockAt
    rw [hbyte]
    show Gives _ (blockAt b (off + 1) n >>= _)
    refine (ih htail).bind fun bs hbs => .pure ?_
    show b[off] :: bs.val = _
    rw [hbs, hdrop, List.take_succ_cons]

theorem equalAt_eq (h : off + xs.length ≤ b.length) :
    equalAt b off xs = .ok ((b.drop off).take xs.length == xs) := by
  induction xs generalizing off with
  | nil => rfl
  | cons x xs ih =>
    rw [List.length_cons] at h
    have hbyte : byteAt b off = .ok b[off] := dif_pos (by omega)
    have hdrop : b.drop off = b[off] :: b.drop (off + 1) :=
      List.drop_eq_getElem_cons (by omega)
    unfold equalAt
    rw [hbyte, hdrop, List.length_cons, List.take_succ_cons]
    show (if b[off] ≠ x then _ else _) = Except.ok (_ && _)
    by_cases heq : b[off] = x
    · rw [if_neg (not_not.mpr heq), ih (by omega), heq, beq_self_eq_true,
        Bool.true_and]
      rfl
    · rw [if_pos heq, beq_eq_false_iff_ne.mpr heq, Bool.false_and]
      rfl

-- ==== partial results

/-- What the reader results in, if it ends without a fault. -/
def Only (P : α → Prop) (x : Checked α) : Prop := ∀ a, x = .ok a → P a

theorem Only.pure {a : α} (h : P a) : Only P (Pure.pure a : Checked α) := by
  intro c hc
  cases hc
  exact h

theorem Only.bind {f : α → Checked β} (hf : ∀ a, Only Q (f a)) :
    Only Q (x >>= f) := by
  intro c hc
  cases x with
  | error e => cases hc
  | ok a => exact hf a c hc

theorem Only.ite {p : Prop} [Decidable p] {y : Checked α}
    (hx : p → Only P x) (hy : ¬ p → Only P y) :
    Only P (if p then x else y) := by
  split_ifs with h
  · exact hx h
  · exact hy h

end Reads
