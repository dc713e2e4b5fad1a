/-
Lists of regions, and the points that they cover.

A region is anything with a set of points. Joining two regions may take in
more points than both have, and never fewer; replacing a member of a list
by its join with another region loses no point.
-/
import Mathlib

namespace Clks

variable {ρ α : Type} (pts : ρ → Set α)

/-- The points of all regions of a list. -/
def covered (l : List ρ) : Set α := {p | ∃ a ∈ l, p ∈ pts a}

variable {pts} {l : List ρ} {a : ρ} {p : α}

@[simp] theorem covered_nil : covered pts [] = ∅ := by
  ext p
  simp [covered]

@[simp] theorem covered_cons :
    covered pts (a :: l) = pts a ∪ covered pts l := by
  ext p
  simp [covered]

theorem covered_singleton : covered pts [a] = pts a := by simp

theorem covered_append {l' : List ρ} :
    covered pts (l ++ l') = covered pts l ∪ covered pts l' := by
  ext p
  simp [covered, or_and_right, exists_or]

theorem covered_modify {f : ρ → ρ} (hf : ∀ a, pts a ⊆ pts (f a)) (i : Nat) :
    covered pts l ⊆ covered pts (l.modify i f) := by
  rintro p ⟨a, ha, hp⟩
  obtain ⟨j, hj⟩ := List.mem_iff_getElem?.mp ha
  by_cases hij : i = j
  · subst hij
    refine ⟨f a, List.mem_iff_getElem?.mpr ⟨i, ?_⟩, hf a hp⟩
    rw [List.getElem?_modify_eq, hj]
    rfl
  · refine ⟨a, List.mem_iff_getElem?.mpr ⟨j, ?_⟩, hp⟩
    rw [List.getElem?_modify_ne f l hij, hj]

theorem subset_covered_modify {f : ρ → ρ} {S : Set α}
    (hf : ∀ a, S ⊆ pts (f a)) {i : Nat} (hi : i < l.length) :
    S ⊆ covered pts (l.modify i f) := by
  refine fun p hp => ⟨f l[i], List.mem_iff_getElem?.mpr ⟨i, ?_⟩, hf _ hp⟩
  rw [List.getElem?_modify_eq, List.getElem?_eq_getElem hi]
  rfl

theorem of_mem_modify {f : ρ → ρ} {P : ρ → Prop} {i : Nat}
    (hl : ∀ a ∈ l, P a) (hf : ∀ a, P a → P (f a)) :
    ∀ a ∈ l.modify i f, P a := by
  intro a ha
  obtain ⟨j, hj⟩ := List.mem_iff_getElem?.mp ha
  by_cases hij : i = j
  · subst hij
    rw [List.getElem?_modify_eq] at hj
    obtain ⟨b, hb, rfl⟩ := Option.map_eq_some_iff.mp hj
    exact hf b (hl b (List.mem_of_getElem? hb))
  · rw [List.getElem?_modify_ne f l hij] at hj
    exact hl a (List.mem_of_getElem? hj)

end Clks
