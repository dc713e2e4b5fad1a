/-
Lists in two tiers: what is low comes before what is high.

An element is put in at the end of its tier, with one index: the end of
the list for a high one, and the first high one for a low one. The list
stays in tiers, and gets the element and nothing else.
-/
import Mathlib

namespace Tiers

variable {α : Type} {high : α → Bool} {l : List α} {x : α}

/-- Behind a high element there are only high ones. -/
def Tiered (high : α → Bool) (l : List α) : Prop :=
  l.Pairwise fun a b => high a = true → high b = true

/-- Where an element goes: to the end of its tier. -/
def place (high : α → Bool) (x : α) (l : List α) : Nat :=
  if high x then l.length else l.findIdx high

/-- The list with the element. -/
def insert (high : α → Bool) (x : α) (l : List α) : List α :=
  l.insertIdx (place high x l) x

theorem place_le (high : α → Bool) (x : α) (l : List α) :
    place high x l ≤ l.length := by
  unfold place
  split_ifs
  · exact Nat.le_refl _
  · exact List.findIdx_le_length

theorem insert_perm (high : α → Bool) (x : α) (l : List α) :
    (insert high x l).Perm (x :: l) :=
  List.perm_insertIdx x l (place_le high x l)

theorem mem_insert {y : α} : y ∈ insert high x l ↔ y = x ∨ y ∈ l := by
  rw [(insert_perm high x l).mem_iff, List.mem_cons]

theorem insert_nodup (hx : x ∉ l) (hl : l.Nodup) :
    (insert high x l).Nodup :=
  (insert_perm high x l).nodup_iff.mpr (List.nodup_cons.mpr ⟨hx, hl⟩)

theorem Tiered.insert (h : Tiered high l) (x : α) :
    Tiered high (insert high x l) := by
  unfold Tiers.insert place
  by_cases hx : high x = true
  · rw [if_pos hx, List.insertIdx_length_self]
    refine List.pairwise_append.mpr ⟨h, List.pairwise_singleton _ _, ?_⟩
    intro a _ b hb _
    rw [List.mem_singleton.mp hb]
    exact hx
  · rw [if_neg hx]
    induction l with
    | nil => exact List.pairwise_singleton _ _
    | cons y l ih =>
      obtain ⟨hy, hl⟩ := List.pairwise_cons.mp h
      rw [List.findIdx_cons]
      cases hhigh : high y with
      | true => exact List.pairwise_cons.mpr ⟨fun b _ hxb => absurd hxb hx, h⟩
      | false =>
        refine List.pairwise_cons.mpr ⟨fun b _ hyb => ?_, ih hl⟩
        rw [hhigh] at hyb
        cases hyb

theorem Tiered.congr {high' : α → Bool} (h : Tiered high l)
    (heq : ∀ y ∈ l, high' y = high y) : Tiered high' l := by
  refine List.Pairwise.imp_of_mem ?_ h
  intro a b ha hb hab
  rw [heq a ha, heq b hb]
  exact hab

end Tiers
