/-
Places in a list, and loops that move them.

A loop moves the start of a slice up while its elements have a property
(`scan`), or the end of it down (`scanBack`). What is behind the place is then
the slice without its first elements, or without its last ones.
-/
import Mathlib

namespace Slices

variable {α : Type} {p : α → Bool} {l : List α} {a b : Nat}

/-- The elements from a place on up to another one. -/
def slice (l : List α) (a b : Nat) : List α := (l.take b).drop a

/-- `while a < b && p(l[a]) { a += 1 }`, with the rounds that `b` leaves. -/
def scan (p : α → Bool) (l : List α) : (rounds : Nat) → (a : Nat) → Nat
  | 0, a => a
  | rounds + 1, a =>
    match l[a]? with
    | none => a
    | some x => if p x then scan p l rounds (a + 1) else a

/-- `while b > a && p(l[b - 1]) { b -= 1 }`. -/
def scanBack (p : α → Bool) (l : List α) : (rounds : Nat) → (b : Nat) → Nat
  | 0, b => b
  | rounds + 1, b =>
    match l[b - 1]? with
    | none => b
    | some x => if p x then scanBack p l rounds (b - 1) else b

theorem length_slice (hb : b ≤ l.length) : (slice l a b).length = b - a := by
  rw [slice, List.length_drop, List.length_take]
  omega

theorem slice_nil (h : b ≤ a) : slice l a b = [] := by
  refine List.drop_of_length_le ?_
  rw [List.length_take]
  omega

theorem slice_whole : slice l 0 l.length = l := List.take_length

theorem slice_cons (h : a < b) (hb : b ≤ l.length) :
    slice l a b = l[a] :: slice l (a + 1) b := by
  have hlen : a < (l.take b).length := by
    rw [List.length_take]
    omega
  unfold slice
  rw [List.drop_eq_getElem_cons hlen, List.getElem_take]

theorem slice_concat (h : a < b) (hb : b ≤ l.length) :
    slice l a b = slice l a (b - 1) ++ [l[b - 1]] := by
  have hlast : l.take b = l.take (b - 1) ++ [l[b - 1]] := by
    conv_lhs => rw [show b = b - 1 + 1 by omega]
    exact (List.take_append_getElem (by omega)).symm
  unfold slice
  rw [hlast, List.drop_append_of_le_length]
  rw [List.length_take]
  omega

-- ==== the two loops

theorem scan_spec (h : a ≤ b) (hb : b ≤ l.length) :
    a ≤ scan p l (b - a) a ∧ scan p l (b - a) a ≤ b ∧
      slice l a (scan p l (b - a) a) = (slice l a b).takeWhile p ∧
      slice l (scan p l (b - a) a) b = (slice l a b).dropWhile p := by
  induction hn : b - a generalizing a with
  | zero =>
    rw [scan, slice_nil (Nat.le_refl a), slice_nil (a := a) (by omega)]
    exact ⟨Nat.le_refl a, h, rfl, rfl⟩
  | succ n ih =>
    have hlt : a < l.length := by omega
    rw [scan, List.getElem?_eq_getElem hlt, slice_cons (by omega) hb]
    dsimp only
    cases hx : p l[a] with
    | true =>
      obtain ⟨hle, hle', htake, hdrop⟩ := ih (a := a + 1) (by omega) (by omega)
      rw [if_pos rfl, List.takeWhile_cons_of_pos hx,
        List.dropWhile_cons_of_pos hx, hdrop, ← htake]
      exact ⟨by omega, hle', slice_cons (by omega) (by omega), rfl⟩
    | false =>
      rw [if_neg Bool.false_ne_true, List.takeWhile_cons_of_neg (by simp [hx]),
        List.dropWhile_cons_of_neg (by simp [hx]), slice_nil (Nat.le_refl a),
        slice_cons (by omega) hb]
      exact ⟨Nat.le_refl a, h, rfl, rfl⟩

theorem scanBack_spec (h : a ≤ b) (hb : b ≤ l.length) :
    a ≤ scanBack p l (b - a) b ∧ scanBack p l (b - a) b ≤ b ∧
      slice l a (scanBack p l (b - a) b) = (slice l a b).rdropWhile p := by
  induction hn : b - a generalizing b with
  | zero =>
    rw [scanBack, slice_nil (by omega), List.rdropWhile_nil]
    exact ⟨h, Nat.le_refl b, rfl⟩
  | succ n ih =>
    have hlt : b - 1 < l.length := by omega
    rw [scanBack, List.getElem?_eq_getElem hlt, slice_concat (by omega) hb]
    dsimp only
    cases hx : p l[b - 1] with
    | true =>
      obtain ⟨hle, hle', hdrop⟩ := ih (b := b - 1) (by omega) (by omega) (by omega)
      rw [if_pos rfl, List.rdropWhile_concat_pos _ _ _ hx]
      exact ⟨hle, by omega, hdrop⟩
    | false =>
      rw [if_neg Bool.false_ne_true,
        List.rdropWhile_concat_neg _ _ _ (by simp [hx])]
      exact ⟨h, Nat.le_refl b, slice_concat (by omega) hb⟩

end Slices
