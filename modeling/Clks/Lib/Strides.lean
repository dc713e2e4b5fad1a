/-
A pass over a ring that counts from where it is.

A pass has a count, which goes up to the size of the ring, and looks at the
place that is so far ahead of it. Where it finds what is ready it moves
there, or on from there (`go`), while its count goes on; so it does not go
around the ring once.
-/
import Mathlib

namespace Strides

/-- How far a place of a ring of `n` is ahead of another. -/
def ahead (n c r : Nat) : Nat := (r + (n - c % n)) % n

section ring

variable {n c r i : Nat}

theorem ahead_lt (hn : 0 < n) : ahead n c r < n := Nat.mod_lt _ hn

theorem place_iff (hr : r < n) (hi : i < n) :
    (c + i) % n = r ↔ i = ahead n c r := by
  have hc : c % n < n := Nat.mod_lt c (Nat.lt_of_le_of_lt (Nat.zero_le r) hr)
  have hplace : (c + i) % n = if c % n + i < n then c % n + i else c % n + i - n := by
    rw [Nat.add_mod, Nat.mod_eq_of_lt hi]
    split
    · next h => exact Nat.mod_eq_of_lt h
    · next h => rw [Nat.mod_eq_sub_mod (by omega), Nat.mod_eq_of_lt (by omega)]
  have hahead : ahead n c r = if r < c % n then r + n - c % n else r - c % n := by
    unfold ahead
    split
    · next h => rw [Nat.mod_eq_of_lt (by omega)]; omega
    · next h =>
      rw [Nat.mod_eq_sub_mod (by omega), Nat.mod_eq_of_lt (by omega)]
      omega
  rw [hplace, hahead]
  split <;> split <;> omega

theorem place_ahead (hr : r < n) : (c + ahead n c r) % n = r :=
  (place_iff hr (ahead_lt (Nat.lt_of_le_of_lt (Nat.zero_le r) hr))).mpr rfl

end ring

-- ==== the pass

variable (n : Nat) (ready : Nat → Bool) (go : Nat → Nat → Nat)

/-- A pass, with so many places left to look at: its count `i`, how many
places it may still find, how many it has found, and where it is. -/
def walk : Nat → Nat → Nat → Nat → Nat → List Nat
  | 0, _, _, _, _ => []
  | left + 1, i, b, k, c =>
    if b = 0 then []
    else if ready ((c + i) % n) then
      (c + i) % n :: walk left (i + 1) (b - 1) (k + 1) (go k ((c + i) % n))
    else walk left (i + 1) b k c

/-- Each place of the list is the first ready one that is far enough ahead,
and there is none behind the last, unless no more may be found. -/
def Follows : Nat → Nat → Nat → Nat → List Nat → Prop
  | b, _, c, e, [] => b = 0 ∨ ∀ r < n, ready r = true → ahead n c r < e
  | b, k, c, e, r :: l =>
    0 < b ∧ (r < n ∧ ready r = true ∧ e ≤ ahead n c r) ∧
      (∀ q < n, ready q = true → e ≤ ahead n c q → ahead n c r ≤ ahead n c q) ∧
      Follows (b - 1) (k + 1) (go k r) (ahead n c r + 1) l

/-- The ready places, each once. -/
structure Enumerates (l : List Nat) : Prop where
  nodup : l.Nodup
  mem : ∀ r, r ∈ l ↔ r < n ∧ ready r = true

section walk

variable {n} {ready} {go} {left i b k c e : Nat} {l l' : List Nat}

theorem Follows.skip (h : Follows n ready go b k c (e + 1) l)
    (hnone : ∀ r < n, ready r = true → ahead n c r ≠ e) :
    Follows n ready go b k c e l := by
  cases l with
  | nil =>
    cases h with
    | inl hb => exact .inl hb
    | inr hlt =>
      refine .inr fun r hr hready => ?_
      have := hlt r hr hready
      have := hnone r hr hready
      omega
  | cons r l =>
    obtain ⟨hb, ⟨hr, hready, hle⟩, hfirst, hrest⟩ := h
    refine ⟨hb, ⟨hr, hready, by omega⟩, fun q hq hqready hqle => ?_, hrest⟩
    have := hnone q hq hqready
    exact hfirst q hq hqready (by omega)

theorem walk_follows (hleft : i + left = n) :
    Follows n ready go b k c i (walk n ready go left i b k c) := by
  induction left generalizing i b k c with
  | zero =>
    refine .inr fun r hr _ => ?_
    have := @ahead_lt n c r (by omega)
    omega
  | succ left ih =>
    unfold walk
    by_cases hb : b = 0
    · rw [if_pos hb]
      exact .inl hb
    rw [if_neg hb]
    have hplace : (c + i) % n < n := Nat.mod_lt _ (by omega)
    have hahead : ahead n c ((c + i) % n) = i :=
      ((place_iff hplace (by omega)).mp rfl).symm
    by_cases hready : ready ((c + i) % n) = true
    · rw [if_pos hready]
      refine ⟨Nat.pos_of_ne_zero hb, ⟨hplace, hready, ?_⟩, fun q _ _ hq => ?_, ?_⟩
      · exact Nat.le_of_eq hahead.symm
      · rwa [hahead]
      · rw [hahead]
        exact ih (by omega)
    · rw [if_neg hready]
      refine (ih (by omega)).skip fun r hr hr' heq => hready ?_
      rw [(place_iff hr (by omega)).mpr heq.symm]
      exact hr'

theorem Follows.unique (h : Follows n ready go b k c e l)
    (h' : Follows n ready go b k c e l') : l = l' := by
  induction l generalizing b k c e l' with
  | nil =>
    cases l' with
    | nil => rfl
    | cons r' l' =>
      obtain ⟨hb, ⟨hr, hready, hle⟩, -⟩ := h'
      cases h with
      | inl hzero => omega
      | inr hlt =>
        have := hlt r' hr hready
        omega
  | cons r l ih =>
    obtain ⟨hb, ⟨hr, hready, hle⟩, hfirst, hrest⟩ := h
    cases l' with
    | nil =>
      cases h' with
      | inl hzero => omega
      | inr hlt =>
        have := hlt r hr hready
        omega
    | cons r' l' =>
      obtain ⟨-, ⟨hr', hready', hle'⟩, hfirst', hrest'⟩ := h'
      have hsame : ahead n c r = ahead n c r' :=
        Nat.le_antisymm (hfirst r' hr' hready' hle') (hfirst' r hr hready hle)
      have heq : r = r' := by
        rw [← @place_ahead n c r hr, hsame, place_ahead hr']
      subst heq
      rw [ih hrest hrest']

theorem Follows.ready_of_mem (h : Follows n ready go b k c e l) :
    ∀ r ∈ l, r < n ∧ ready r = true := by
  induction l generalizing b k c e with
  | nil => exact fun r hr => nomatch hr
  | cons q l ih =>
    obtain ⟨-, ⟨hq, hready, -⟩, -, hrest⟩ := h
    intro r hr
    cases List.mem_cons.mp hr with
    | inl heq => exact heq ▸ ⟨hq, hready⟩
    | inr hmem => exact ih hrest r hmem

theorem walk_once_iff (b c : Nat) :
    (∀ r < n, ready r = true → (walk n ready go n 0 b 0 c).count r = 1) ↔
      ∃ order, Enumerates n ready order ∧ Follows n ready go b 0 c 0 order := by
  have hwalk : Follows n ready go b 0 c 0 (walk n ready go n 0 b 0 c) :=
    walk_follows (Nat.zero_add n)
  constructor
  · intro honce
    refine ⟨_, ⟨List.nodup_iff_count_le_one.mpr fun r => ?_, fun r => ?_⟩, hwalk⟩
    · by_cases hmem : r ∈ walk n ready go n 0 b 0 c
      · obtain ⟨hr, hready⟩ := hwalk.ready_of_mem r hmem
        exact Nat.le_of_eq (honce r hr hready)
      · rw [List.count_eq_zero_of_not_mem hmem]
        exact Nat.zero_le 1
    · refine ⟨hwalk.ready_of_mem r, fun h => ?_⟩
      have hcount := honce r h.1 h.2
      exact List.count_pos_iff.mp (by omega)
  · intro horder r hr hready
    obtain ⟨order, henum, hfollows⟩ := horder
    rw [← hfollows.unique hwalk]
    exact List.count_eq_one_of_mem henum.nodup ((henum.mem r).mpr ⟨hr, hready⟩)

end walk

end Strides
