/-
A search that goes around.

From every place there is an order in which all places are looked at, the
place itself last, and the search stops at the first one that passes a test.
If the order from a place that was found is the one that there was, turned to
that place (`Turns`), then searching again and again finds the places that
pass in that order, and all of them before any one again (`visits_all`).
-/
import Mathlib

namespace Clks.Cyclic

-- ==== the searches

section searches

variable {α : Type} (around : α → List α) (p : α → Bool)

/-- The first place in the order that passes. -/
def next (s : α) : Option α := (around s).find? p

/-- The places that so many searches find, each from the last one. -/
def visits : Nat → α → List α
  | 0, _ => []
  | k + 1, s =>
    match next around p s with
    | none => []
    | some m => m :: visits k m

/-- The order from a place is the order that it was found in, turned. -/
def Turns : Prop :=
  ∀ s front m back, around s = front ++ m :: back →
    around m = back ++ front ++ [m]

variable {around p}

theorem visits_eq (h : Turns around) (k : Nat) (s : α)
    (hk : k ≤ ((around s).filter p).length) :
    visits around p k s = ((around s).filter p).take k := by
  induction k generalizing s with
  | zero => rw [List.take_zero]; rfl
  | succ k ih =>
    cases hnext : (around s).find? p with
    | none =>
      have hnone : (around s).filter p = [] :=
        List.filter_eq_nil_iff.mpr (List.find?_eq_none.mp hnext)
      rw [hnone] at hk
      exact absurd hk (Nat.not_succ_le_zero k)
    | some m =>
      obtain ⟨hm, front, back, hsplit, hfront⟩ :=
        List.find?_eq_some_iff_append.mp hnext
      have hempty : front.filter p = [] :=
        List.filter_eq_nil_iff.mpr fun a ha => by simpa using hfront a ha
      have hhere : (around s).filter p = m :: back.filter p := by
        rw [hsplit, List.filter_append, hempty, List.nil_append,
          List.filter_cons_of_pos hm]
      have hthere : (around m).filter p = back.filter p ++ [m] := by
        rw [h s front m back hsplit, List.filter_append, List.filter_append,
          hempty, List.append_nil, List.filter_cons_of_pos hm, List.filter_nil]
      rw [hhere, List.length_cons] at hk
      have hle : k ≤ (back.filter p).length := by omega
      have hrest := ih m (by
        rw [hthere, List.length_append, List.length_singleton]
        omega)
      rw [hthere, List.take_append_of_le_length hle] at hrest
      unfold visits next
      rw [hnext]
      dsimp only
      rw [hrest, hhere, List.take_succ_cons]

theorem visits_all (h : Turns around) (s : α) :
    visits around p ((around s).filter p).length s = (around s).filter p := by
  rw [visits_eq h _ s (Nat.le_refl _), List.take_length]

end searches

-- ==== the orders

variable {n d : Nat}

/-- The places from `s` on, each `d` behind the one before. -/
def steps (n d s : Nat) : List Nat :=
  (List.range n).map fun i => (s + d * (i + 1)) % n

theorem length_steps (n d s : Nat) : (steps n d s).length = n := by
  rw [steps, List.length_map, List.length_range]

theorem getElem_steps (s : Nat) {i : Nat} (h : i < (steps n d s).length) :
    (steps n d s)[i] = (s + d * (i + 1)) % n := by
  simp only [steps, List.getElem_map, List.getElem_range]

theorem steps_turn (s j : Nat) :
    steps n d ((s + d * (j + 1)) % n) = (steps n d s).rotate (j + 1) := by
  apply List.ext_getElem
  · rw [List.length_rotate, length_steps, length_steps]
  · intro i hi hi'
    rw [List.getElem_rotate, getElem_steps, getElem_steps, length_steps]
    -- Both are the same number of steps away, modulo `n`.
    have hmod : (i + (j + 1)) % n + 1 ≡ i + (j + 1) + 1 [MOD n] :=
      (Nat.mod_modEq _ n).add_right 1
    calc ((s + d * (j + 1)) % n + d * (i + 1)) % n
        = (s + d * (j + 1) + d * (i + 1)) % n := by rw [Nat.mod_add_mod]
      _ = (s + d * (i + (j + 1) + 1)) % n := by
          congr 1
          ring
      _ = (s + d * ((i + (j + 1)) % n + 1)) % n :=
          ((hmod.mul_left d).add_left s).symm

theorem turns_steps (n d : Nat) : Turns (steps n d) := by
  intro s front m back hsplit
  have hlen := length_steps n d s
  rw [hsplit, List.length_append, List.length_cons] at hlen
  have hlt : front.length < (steps n d s).length := by
    rw [length_steps]
    omega
  have hm : m = (s + d * (front.length + 1)) % n := by
    rw [← getElem_steps s hlt]
    simp only [hsplit, List.getElem_append_right (Nat.le_refl _), Nat.sub_self,
      List.getElem_cons_zero]
  have hfront : (front ++ [m]).length = front.length + 1 := List.length_append
  rw [hm, steps_turn, ← hm, ← hfront, hsplit,
    ← List.singleton_append, ← List.append_assoc, List.rotate_append_length_eq,
    List.append_assoc]

theorem steps_perm (hn : 0 < n) (hd : Nat.Coprime n d) (s : Nat) :
    (steps n d s).Perm (List.range n) := by
  have hnodup : (steps n d s).Nodup := by
    refine List.Nodup.map_on ?_ List.nodup_range
    intro i hi j hj heq
    rw [List.mem_range] at hi hj
    have hsteps : d * (i + 1) ≡ d * (j + 1) [MOD n] :=
      Nat.ModEq.add_left_cancel' s heq
    have hmod : i + 1 ≡ j + 1 [MOD n] :=
      Nat.ModEq.cancel_left_of_coprime hd hsteps
    exact (Nat.ModEq.add_right_cancel' 1 hmod).eq_of_lt_of_lt hi hj
  have hsubset : steps n d s ⊆ List.range n := by
    intro a ha
    obtain ⟨i, -, rfl⟩ := List.mem_map.mp ha
    exact List.mem_range.mpr (Nat.mod_lt _ hn)
  refine (List.subperm_of_subset hnodup hsubset).perm_of_length_le ?_
  rw [length_steps, List.length_range]

theorem visits_steps_perm (hn : 0 < n) (hd : Nat.Coprime n d) (p : Nat → Bool)
    (k s : Nat) :
    ((visits (steps n d) p (k + ((List.range n).filter p).length) s).drop k).Perm
      ((List.range n).filter p) := by
  have hperm (s : Nat) := (steps_perm hn hd s).filter p
  induction k generalizing s with
  | zero =>
    rw [Nat.zero_add, List.drop_zero, ← (hperm s).length_eq,
      visits_all (turns_steps n d) s]
    exact hperm s
  | succ k ih =>
    rw [Nat.add_right_comm]
    unfold visits
    cases hnext : next (steps n d) p s with
    | none =>
      have hnone : (steps n d s).filter p = [] :=
        List.filter_eq_nil_iff.mpr (List.find?_eq_none.mp hnext)
      have hnil := hperm s
      rw [hnone] at hnil
      rw [List.drop_nil]
      exact hnil
    | some m =>
      rw [List.drop_succ_cons]
      exact ih m

theorem step_back (s : Nat) {i : Nat} (hi : i ≤ n) :
    (s + n - i) % n = (s + (n - 1) * i) % n := by
  have hback : s + n - i + i ≡ s [MOD n] := by
    rw [Nat.sub_add_cancel (by omega)]
    exact Nat.add_mod_right s n
  have hsteps : s + (n - 1) * i + i ≡ s [MOD n] := by
    rcases Nat.eq_zero_or_pos n with rfl | hn
    · rw [Nat.le_zero.mp hi]
      rfl
    · have hmul : (n - 1) * i + i = n * i := by
        rw [← Nat.succ_mul, Nat.succ_eq_add_one, Nat.sub_add_cancel hn]
      rw [Nat.add_assoc, hmul]
      exact Nat.add_mul_mod_self_left s n i
  exact Nat.ModEq.add_right_cancel' i (hback.trans hsteps.symm)

theorem coprime_back (hn : 0 < n) : Nat.Coprime n (n - 1) :=
  (Nat.coprime_self_sub_right hn).mpr (Nat.coprime_one_right n)

end Clks.Cyclic
