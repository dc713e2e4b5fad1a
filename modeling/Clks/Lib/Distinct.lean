/-
Lists of different texts, of which only so many are kept.

An element is offered to the list and goes to its end, but not if the list is
full or shows it already. What a list shows of an element (`f`) may be less
than the element; an element that is shown whole is one with `f x = x`.
-/
import Mathlib

namespace Distinct

variable {α : Type} [DecidableEq α] (f : α → α) (cap : Nat)

/-- An element is offered to the list. -/
def offer (kept : List α) (x : α) : List α :=
  if cap ≤ kept.length ∨ x ∈ kept.map f then kept else kept ++ [x]

/-- The elements are offered one after the other. -/
def offerAll (xs : List α) : List α := xs.foldl (offer f cap) []

/-- An element comes before the list is full: less than `cap` different ones
are shown before it. -/
def Early (before : List α) : Prop := (before.map f).toFinset.card < cap

variable {f cap}

theorem offerAll_concat (xs : List α) (x : α) :
    offerAll f cap (xs ++ [x]) = offer f cap (offerAll f cap xs) x :=
  List.foldl_concat ..

theorem prefix_offer (kept : List α) (x : α) : kept <+: offer f cap kept x := by
  unfold offer
  split_ifs
  · exact List.prefix_refl _
  · exact List.prefix_append _ _

theorem offerAll_subset (xs : List α) : offerAll f cap xs ⊆ xs := by
  induction xs using List.reverseRecOn with
  | nil => exact List.Subset.refl _
  | append_singleton xs x ih =>
    rw [offerAll_concat]
    unfold offer
    split_ifs
    · exact List.Subset.trans ih (List.subset_append_left _ _)
    · exact List.append_subset.mpr
        ⟨List.Subset.trans ih (List.subset_append_left _ _),
          List.subset_append_right _ _⟩

theorem shown_of_room (hf : ∀ x, f (f x) = f x) (xs : List α)
    (hroom : (offerAll f cap xs).length < cap) {x : α} (hx : x ∈ xs) :
    f x ∈ (offerAll f cap xs).map f := by
  induction xs using List.reverseRecOn with
  | nil => exact absurd hx List.not_mem_nil
  | append_singleton xs y ih =>
    rw [offerAll_concat] at hroom ⊢
    have hpre : offerAll f cap xs <+: offer f cap (offerAll f cap xs) y :=
      prefix_offer _ _
    have hbefore : (offerAll f cap xs).length < cap :=
      Nat.lt_of_le_of_lt hpre.length_le hroom
    rcases List.mem_append.mp hx with hx | hx
    · exact (hpre.map f).subset (ih hbefore hx)
    · obtain rfl := List.mem_singleton.mp hx
      unfold offer
      split_ifs with h
      · rcases h with h | h
        · omega
        · obtain ⟨z, hz, rfl⟩ := List.mem_map.mp h
          exact List.mem_map.mpr ⟨z, hz, (hf z).symm⟩
      · exact List.mem_map_of_mem (List.mem_append_right _ List.mem_cons_self)

theorem early_iff_room (hf : ∀ x, f (f x) = f x) (xs : List α)
    (hnodup : ((offerAll f cap xs).map f).Nodup) :
    Early f cap xs ↔ (offerAll f cap xs).length < cap := by
  have hcard : ((offerAll f cap xs).map f).toFinset.card
      = (offerAll f cap xs).length := by
    rw [List.toFinset_card_of_nodup hnodup, List.length_map]
  constructor
  · intro hearly
    have hsub : ((offerAll f cap xs).map f).toFinset ⊆ (xs.map f).toFinset := by
      intro t ht
      rw [List.mem_toFinset] at ht ⊢
      exact List.map_subset f (offerAll_subset xs) ht
    have hle := Finset.card_le_card hsub
    unfold Early at hearly
    omega
  · intro hroom
    have hsub : (xs.map f).toFinset ⊆ ((offerAll f cap xs).map f).toFinset := by
      intro t ht
      rw [List.mem_toFinset] at ht ⊢
      obtain ⟨x, hx, rfl⟩ := List.mem_map.mp ht
      exact shown_of_room hf xs hroom hx
    have hle := Finset.card_le_card hsub
    unfold Early
    omega

theorem offerAll_iff (hf : ∀ x, f (f x) = f x) (P : α → Prop) (xs : List α) :
    ((∀ t ∈ (offerAll f cap xs).map f, P t) ∧
        ((offerAll f cap xs).map f).Nodup) ↔
      ∀ before x after, xs = before ++ x :: after → Early f cap before →
        P (f x) ∧ (f x ≠ x → f x ∉ before.map f) := by
  induction xs using List.reverseRecOn with
  | nil =>
    constructor
    · intro _ before x after h
      exact absurd h.symm (by simp)
    · intro _
      exact ⟨fun t ht => absurd ht List.not_mem_nil, List.nodup_nil⟩
  | append_singleton xs y ih =>
    -- The splits of the longer list: at its last element, or before.
    have hsplit : (∀ before x after, xs ++ [y] = before ++ x :: after →
        Early f cap before → P (f x) ∧ (f x ≠ x → f x ∉ before.map f)) ↔
        (∀ before x after, xs = before ++ x :: after → Early f cap before →
          P (f x) ∧ (f x ≠ x → f x ∉ before.map f)) ∧
        (Early f cap xs → P (f y) ∧ (f y ≠ y → f y ∉ xs.map f)) := by
      constructor
      · intro h
        refine ⟨fun before x after hxs => h before x (after ++ [y]) ?_, h xs y [] rfl⟩
        rw [hxs, List.append_assoc, List.cons_append]
      · intro ⟨hinner, hlast⟩ before x after hxs
        rcases List.eq_nil_or_concat after with rfl | ⟨after', z, rfl⟩
        · obtain ⟨rfl, hy⟩ := List.append_inj' hxs rfl
          obtain rfl := (List.cons.inj hy).1
          exact hlast
        · rw [List.concat_eq_append, ← List.cons_append, ← List.append_assoc] at hxs
          exact hinner before x after' (List.append_inj' hxs rfl).1
    rw [hsplit, ← ih, offerAll_concat]
    constructor
    · intro ⟨hkind, hnodup⟩
      have hpre : (offerAll f cap xs).map f
          <+: (offer f cap (offerAll f cap xs) y).map f :=
        (prefix_offer _ _).map f
      have hbefore := hpre.sublist.nodup hnodup
      refine ⟨⟨fun t ht => hkind t (hpre.subset ht), hbefore⟩, fun hearly => ?_⟩
      have hroom := (early_iff_room hf xs hbefore).mp hearly
      by_cases hshown : y ∈ (offerAll f cap xs).map f
      · obtain ⟨z, hz, rfl⟩ := List.mem_map.mp hshown
        exact ⟨hkind _ (hpre.subset (by rwa [hf])), fun h => absurd (hf z) h⟩
      · rw [offer, if_neg (by simp only [not_or, Nat.not_le]; exact ⟨hroom, hshown⟩),
          List.map_append, List.map_singleton] at hkind hnodup
        refine ⟨hkind _ (List.mem_append_right _ List.mem_cons_self),
          fun _ hmem => ?_⟩
        obtain ⟨x, hx, hfx⟩ := List.mem_map.mp hmem
        have hin := shown_of_room hf xs hroom hx
        rw [hfx] at hin
        exact (List.disjoint_of_nodup_append hnodup) hin List.mem_cons_self
    · intro ⟨⟨hkind, hnodup⟩, hlast⟩
      unfold offer
      split_ifs with h
      · exact ⟨hkind, hnodup⟩
      · rw [not_or, Nat.not_le] at h
        obtain ⟨hroom, hnew⟩ := h
        obtain ⟨hy, hcut⟩ := hlast ((early_iff_room hf xs hnodup).mpr hroom)
        have hfresh : f y ∉ (offerAll f cap xs).map f := by
          by_cases hwhole : f y = y
          · rwa [hwhole]
          · exact fun hmem => hcut hwhole
              (List.map_subset f (offerAll_subset xs) hmem)
        rw [List.map_append, List.map_singleton]
        refine ⟨fun t ht => ?_, List.nodup_append.mpr
          ⟨hnodup, List.nodup_singleton _, fun t ht u hu => ?_⟩⟩
        · rcases List.mem_append.mp ht with ht | ht
          · exact hkind t ht
          · rwa [List.mem_singleton.mp ht]
        · intro heq
          rw [List.mem_singleton.mp hu] at heq
          exact hfresh (heq ▸ ht)

end Distinct
