/-
A scan that begins where the last one has found something.

The slots are taken in turn from a cursor on, and the first that is ready is
chosen; the cursor goes behind it. A slot that stays ready gets nearer to
the cursor whenever another one is chosen, so it is passed over fewer times
than there are slots.
-/
import Mathlib

namespace Clks.RoundRobin

variable {n : Nat} [NeZero n]

/-- The first slot that is ready, from the cursor on. -/
def scan (cursor : Nat) (ready : Fin n → Bool) : Option (Fin n) :=
  ((List.finRange n).map fun attempt =>
    Fin.ofNat n (cursor + attempt.val)).find? ready

/-- How far a slot is from the cursor. -/
def lag (cursor : Nat) (i : Fin n) : Nat := (i - Fin.ofNat n cursor).val

theorem lag_lt (cursor : Nat) (i : Fin n) : lag cursor i < n :=
  (i - Fin.ofNat n cursor).isLt

theorem ofNat_attempt (cursor : Nat) (attempt : Fin n) :
    Fin.ofNat n (cursor + attempt.val) = Fin.ofNat n cursor + attempt := by
  apply Fin.ext
  simp [Fin.val_add]

theorem scan_some {cursor : Nat} {ready : Fin n → Bool} {j : Fin n}
    (hscan : scan cursor ready = some j) : ready j = true :=
  List.find?_some hscan

theorem scan_isSome {cursor : Nat} {ready : Fin n → Bool} {i : Fin n}
    (hi : ready i = true) : ∃ j, scan cursor ready = some j := by
  apply Option.isSome_iff_exists.mp
  unfold scan
  rw [List.find?_isSome]
  refine ⟨i, ?_, hi⟩
  rw [List.mem_map]
  refine ⟨i - Fin.ofNat n cursor, List.mem_finRange _, ?_⟩
  rw [ofNat_attempt]
  exact add_sub_cancel ..

theorem lag_decreases {cursor : Nat} {ready : Fin n → Bool} {i j : Fin n}
    (hi : ready i = true) (hscan : scan cursor ready = some j) (hij : j ≠ i) :
    lag (j.val + 1) i < lag cursor i := by
  obtain ⟨-, a, ha, hj, hbefore⟩ := List.find?_eq_some_iff_getElem.mp hscan
  rw [List.length_map, List.length_finRange] at ha
  simp only [List.getElem_map, List.getElem_finRange, Fin.cast_mk] at hj hbefore
  rw [ofNat_attempt cursor ⟨a, ha⟩] at hj
  -- the slot itself would have been found at its own distance
  have hle : a ≤ lag cursor i := by
    by_contra hlt
    have hready := hbefore (lag cursor i) (by omega)
    rw [show Fin.ofNat n (cursor + lag cursor i) = i by
      rw [lag, ofNat_attempt]
      exact add_sub_cancel .., hi] at hready
    cases hready
  have hne : a ≠ lag cursor i := by
    intro heq
    apply hij
    rw [← hj]
    subst heq
    exact add_sub_cancel ..
  have hlag : i - Fin.ofNat n (j.val + 1)
      = (i - Fin.ofNat n cursor) - ⟨a, ha⟩ - 1 := by
    have hnext : Fin.ofNat n (j.val + 1) = j + 1 := by
      apply Fin.ext
      simp [Fin.val_add]
    rw [hnext, ← hj]
    rw [sub_add_eq_sub_sub, sub_add_eq_sub_sub]
  have hsub : ((i - Fin.ofNat n cursor) - ⟨a, ha⟩).val = lag cursor i - a :=
    Fin.sub_val_of_le hle
  have hn : 1 < n := by
    have := lag_lt cursor i
    omega
  have hone : (1 : Fin n).val = 1 := Fin.val_one' n |>.trans (Nat.mod_eq_of_lt hn)
  show (i - Fin.ofNat n (j.val + 1)).val < lag cursor i
  rw [hlag, Fin.sub_val_of_le, hsub, hone]
  · omega
  · rw [Fin.le_def, hone, hsub]
    omega

end Clks.RoundRobin
