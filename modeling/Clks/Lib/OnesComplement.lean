/-
The checksum of RFC 1071.

A sender complements the ones' complement sum of its words of 16 bits, and
the sum of a receiver over all words is then all ones. What both come to
does not depend on where the carries are added: it is known by its residue
modulo `2 ^ 16 - 1` and by whether it is zero (`Folds`).
-/
import Mathlib

namespace OnesComplement

-- ==== the words

/-- The words of some bytes, the high byte first; behind an odd byte there
is a zero. -/
def words : List UInt8 → List Nat
  | hi :: lo :: rest => (hi.toNat * 256 + lo.toNat) :: words rest
  | [hi] => [hi.toNat * 256]
  | [] => []

variable {bytes : List UInt8} {ws : List Nat} {n f : Nat}

theorem words_append {a : List UInt8} (h : a.length % 2 = 0)
    (b : List UInt8) : words (a ++ b) = words a ++ words b := by
  induction a using words.induct with
  | case1 hi lo rest ih =>
    have hrest : rest.length % 2 = 0 := by
      rw [List.length_cons, List.length_cons] at h
      omega
    show _ :: words (rest ++ b) = _
    rw [ih hrest]
    rfl
  | case2 hi => exact absurd (show 1 % 2 = 0 from h) (by decide)
  | case3 => rfl

theorem words_lt (bytes : List UInt8) : ∀ w ∈ words bytes, w < 2 ^ 16 := by
  induction bytes using words.induct with
  | case1 hi lo rest ih =>
    intro w hw
    have hhi := hi.toNat_lt
    have hlo := lo.toNat_lt
    cases hw with
    | head => omega
    | tail _ hw => exact ih w hw
  | case2 hi =>
    intro w hw
    have hhi := hi.toNat_lt
    rw [List.mem_singleton.mp hw]
    omega
  | case3 => simp [words]

theorem words_sum_le (bytes : List UInt8) :
    2 * (words bytes).sum ≤ 0xFFFF * (bytes.length + 1) := by
  induction bytes using words.induct with
  | case1 hi lo rest ih =>
    have hhi := hi.toNat_lt
    have hlo := lo.toNat_lt
    rw [words, List.sum_cons, List.length_cons, List.length_cons]
    omega
  | case2 hi =>
    have hhi := hi.toNat_lt
    simp only [words, List.sum_cons, List.sum_nil, List.length_cons,
      List.length_nil]
    omega
  | case3 => decide

-- ==== the sum

/-- A sum of two words with the carry added at the end. -/
def add (x y : Nat) : Nat := (x + y) % 2 ^ 16 + (x + y) / 2 ^ 16

/-- The ones' complement sum. -/
def sum (ws : List Nat) : Nat := ws.foldl add 0

/-- What a receiver asks for: the sum is all ones. -/
def Verifies (bytes : List UInt8) : Prop := sum (words bytes) = 0xFFFF

/-- A word comes from a number by adding carries. -/
structure Folds (n f : Nat) : Prop where
  lt : f < 2 ^ 16
  mod : f % 0xFFFF = n % 0xFFFF
  zero : f = 0 ↔ n = 0

theorem Folds.refl (h : n < 2 ^ 16) : Folds n n := ⟨h, rfl, Iff.rfl⟩

theorem Folds.carry (h : Folds (n % 2 ^ 16 + n / 2 ^ 16) f) : Folds n f := by
  obtain ⟨hlt, hmod, hzero⟩ := h
  refine ⟨hlt, ?_, ?_⟩
  · rw [hmod]
    omega
  · rw [hzero]
    omega

theorem Folds.add {x : Nat} (h : Folds n f) (hx : x < 2 ^ 16) :
    Folds (n + x) (OnesComplement.add f x) := by
  obtain ⟨hlt, hmod, hzero⟩ := h
  unfold OnesComplement.add
  refine ⟨by omega, by omega, by omega⟩

theorem sum_folds (h : ∀ w ∈ ws, w < 2 ^ 16) : Folds ws.sum (sum ws) := by
  have hfrom : ∀ (ws : List Nat) (n f : Nat), Folds n f →
      (∀ w ∈ ws, w < 2 ^ 16) →
      Folds (n + ws.sum) (ws.foldl OnesComplement.add f) := by
    intro ws
    induction ws with
    | nil => exact fun n f hf _ => hf
    | cons w ws ih =>
      intro n f hf hws
      rw [List.sum_cons, ← Nat.add_assoc]
      exact ih _ _ (hf.add (hws w List.mem_cons_self)) fun v hv =>
        hws v (List.mem_cons_of_mem _ hv)
  have hsum := hfrom ws 0 0 (.refl (by decide)) h
  rwa [Nat.zero_add] at hsum

theorem verifies_iff : Verifies bytes ↔
    (words bytes).sum ≠ 0 ∧ (words bytes).sum % 0xFFFF = 0 := by
  obtain ⟨hlt, hmod, hzero⟩ := sum_folds (words_lt bytes)
  unfold Verifies
  omega

-- ==== the checksum

/-- The complement of the sum with the field at zero. -/
def IsChecksum (n c : Nat) : Prop :=
  c < 2 ^ 16 ∧ ∃ f, Folds n f ∧ (c = 0xFFFF - f ∨ f = 0xFFFF ∧ c = 0xFFFF)

theorem IsChecksum.verifies {c : Nat} (h : IsChecksum n c)
    (hsum : (words bytes).sum = n + c) : Verifies bytes := by
  obtain ⟨hlt, f, hf, hc⟩ := h
  obtain ⟨hflt, hmod, hzero⟩ := hf
  rw [verifies_iff, hsum]
  omega

end OnesComplement
