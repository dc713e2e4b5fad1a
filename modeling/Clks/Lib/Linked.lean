/-
Linked allocation: a table in which each cell holds the next cell of a
chain, an end mark, or a free mark.
-/
import Mathlib

namespace Linked

/-- Which values are cells, end marks and free marks. -/
structure Marks (α : Type*) where
  ok : α → Prop
  stop : α → Prop
  free : α → Prop
  ok_not_stop : ∀ {a}, ok a → ¬ stop a
  free_not_ok : ∀ {a}, free a → ¬ ok a
  free_not_stop : ∀ {a}, free a → ¬ stop a

variable {α ι : Type*} {M : Marks α} {next next' : α → α}

-- ==== chains

/-- From cell `a`, the links visit the cells of the list in order and
the last of them holds an end mark. -/
inductive Chain (M : Marks α) (next : α → α) : α → List α → Prop
  | last {a : α} : M.ok a → M.stop (next a) → Chain M next a [a]
  | cons {a : α} {l : List α} :
      M.ok a → Chain M next (next a) l → Chain M next a (a :: l)

namespace Chain

variable {a b : α} {l l' : List α}

theorem ne_nil (h : Chain M next a l) : l ≠ [] := by
  cases h <;> exact List.cons_ne_nil _ _

theorem head_ok (h : Chain M next a l) : M.ok a := by
  cases h <;> assumption

theorem eq_cons (h : Chain M next a l) : ∃ t, l = a :: t := by
  cases h with
  | last => exact ⟨[], rfl⟩
  | @cons _ t => exact ⟨t, rfl⟩

theorem head_mem (h : Chain M next a l) : a ∈ l := by
  obtain ⟨t, rfl⟩ := h.eq_cons
  exact List.mem_cons_self

theorem ok_of_mem (h : Chain M next a l) : ∀ x ∈ l, M.ok x := by
  induction h with
  | last ha _ => simpa using ha
  | cons ha _ ih => simpa using ⟨ha, ih⟩

theorem not_free (h : Chain M next a l) : ∀ x ∈ l, ¬ M.free (next x) := by
  induction h with
  | last _ hs =>
    intro x hx hf
    rw [List.mem_singleton] at hx
    subst hx
    exact M.free_not_stop hf hs
  | cons _ hc ih =>
    intro x hx
    rcases List.mem_cons.mp hx with rfl | hx
    · exact fun hf => M.free_not_ok hf hc.head_ok
    · exact ih x hx

theorem unique (h : Chain M next a l) (h' : Chain M next a l') :
    l = l' := by
  induction h generalizing l' with
  | last _ hs =>
    cases h' with
    | last => rfl
    | cons _ hc => exact absurd hs (M.ok_not_stop hc.head_ok)
  | cons _ hc ih =>
    cases h' with
    | last _ hs => exact absurd hs (M.ok_not_stop hc.head_ok)
    | cons _ hc' => rw [ih hc']

theorem of_mem (h : Chain M next a l) {x : α} (hx : x ∈ l) :
    ∃ pre suf, l = pre ++ suf ∧ Chain M next x suf := by
  induction h with
  | last ha hs =>
    rw [List.mem_singleton] at hx
    subst hx
    exact ⟨[], _, rfl, .last ha hs⟩
  | cons ha hc ih =>
    rcases List.mem_cons.mp hx with rfl | hx
    · exact ⟨[], _, rfl, .cons ha hc⟩
    · obtain ⟨pre, suf, rfl, hsuf⟩ := ih hx
      exact ⟨_ :: pre, suf, rfl, hsuf⟩

theorem nodup (h : Chain M next a l) : l.Nodup := by
  induction h with
  | last => exact List.nodup_singleton _
  | @cons a l ha hc ih =>
    refine List.nodup_cons.mpr ⟨fun hmem => ?_, ih⟩
    obtain ⟨pre, suf, rfl, hsuf⟩ := hc.of_mem hmem
    have hlen := congrArg List.length ((Chain.cons ha hc).unique hsuf)
    simp at hlen
    omega

theorem congr (h : Chain M next a l)
    (he : ∀ x ∈ l, next' x = next x) : Chain M next' a l := by
  induction h with
  | last ha hs =>
    refine .last ha ?_
    rwa [he _ List.mem_cons_self]
  | cons ha hc ih =>
    refine .cons ha ?_
    rw [he _ List.mem_cons_self]
    exact ih fun x hx => he x (List.mem_cons_of_mem _ hx)

theorem tail {x : α} (h : Chain M next a (x :: l)) (hl : l ≠ []) :
    x = a ∧ M.ok a ∧ Chain M next (next a) l := by
  cases h with
  | last => exact absurd rfl hl
  | cons ha hc => exact ⟨rfl, ha, hc⟩

theorem append {pre : List α} {z : α} (h : Chain M next a (pre ++ [z]))
    (h' : Chain M next' b l') (hz : next' z = b)
    (he : ∀ x ∈ pre, next' x = next x) :
    Chain M next' a (pre ++ z :: l') := by
  induction pre generalizing a with
  | nil =>
    obtain ⟨t, ht⟩ := h.eq_cons
    cases ht
    exact .cons h.head_ok (hz ▸ h')
  | cons x pre ih =>
    obtain ⟨rfl, ha, hc⟩ := h.tail (by simp)
    refine .cons ha ?_
    rw [he _ List.mem_cons_self]
    exact ih hc fun y hy => he y (List.mem_cons_of_mem _ hy)

end Chain

-- ==== ownership

/-- The cells that are not free belong to owners, each with one chain or
none. -/
structure Owned (M : Marks α) (next : α → α) (own : ι → List α) : Prop where
  chain : ∀ i, own i = [] ∨ ∃ a, Chain M next a (own i)
  disjoint : ∀ i j, i ≠ j → List.Disjoint (own i) (own j)
  cover : ∀ a, M.ok a → (¬ M.free (next a) ↔ ∃ i, a ∈ own i)

namespace Owned

variable {own : ι → List α}

theorem ok_of_mem (h : Owned M next own) {i : ι} {a : α}
    (ha : a ∈ own i) : M.ok a := by
  rcases h.chain i with he | ⟨b, hc⟩
  · rw [he] at ha
    cases ha
  · exact hc.ok_of_mem a ha

theorem not_free (h : Owned M next own) {i : ι} {a : α}
    (ha : a ∈ own i) : ¬ M.free (next a) :=
  (h.cover a (h.ok_of_mem ha)).mpr ⟨i, ha⟩

theorem owner_unique (h : Owned M next own) {i j : ι} {a : α}
    (hi : a ∈ own i) (hj : a ∈ own j) : i = j := by
  by_contra hne
  exact h.disjoint i j hne hi hj

theorem chain_of_head (h : Owned M next own) {i : ι} {a : α}
    {t : List α} (ha : own i = a :: t) : Chain M next a (own i) := by
  rcases h.chain i with he | ⟨b, hc⟩
  · rw [he] at ha
    cases ha
  · obtain ⟨t', ht⟩ := hc.eq_cons
    rw [ha] at ht
    rw [(List.cons.inj ht).1]
    exact hc

variable [DecidableEq ι]

theorem replace (h : Owned M next own) (i : ι) (l' : List α)
    (hsame : ∀ a, a ∉ own i → a ∉ l' → next' a = next a)
    (hl : l' = [] ∨ ∃ a, Chain M next' a l')
    (hnew : ∀ a ∈ l', a ∉ own i → M.free (next a))
    (hold : ∀ a ∈ own i, a ∉ l' → M.free (next' a)) :
    Owned M next' (Function.update own i l') := by
  -- The cells of the other owners are neither in the old chain nor, not
  -- being free, in the new one.
  have hout : ∀ j, j ≠ i → ∀ a ∈ own j, a ∉ own i ∧ a ∉ l' := by
    intro j hj a ha
    have hni : a ∉ own i := fun hi => hj (h.owner_unique ha hi)
    exact ⟨hni, fun hal => h.not_free ha (hnew a hal hni)⟩
  have hlok : ∀ a ∈ l', M.ok a ∧ ¬ M.free (next' a) := by
    intro a ha
    rcases hl with rfl | ⟨b, hc⟩
    · cases ha
    · exact ⟨hc.ok_of_mem a ha, hc.not_free a ha⟩
  refine ⟨fun j => ?_, fun j k hjk => ?_, fun a ha => ?_⟩
  · by_cases hj : j = i
    · subst hj
      simpa using hl
    · rw [Function.update_of_ne hj]
      rcases h.chain j with he | ⟨b, hc⟩
      · exact .inl he
      · refine .inr ⟨b, hc.congr fun x hx => ?_⟩
        obtain ⟨h1, h2⟩ := hout j hj x hx
        exact hsame x h1 h2
  · intro a haj hak
    by_cases hj : j = i
    · subst hj
      rw [Function.update_self] at haj
      rw [Function.update_of_ne (Ne.symm hjk)] at hak
      exact (hout k (Ne.symm hjk) a hak).2 haj
    · rw [Function.update_of_ne hj] at haj
      by_cases hk : k = i
      · subst hk
        rw [Function.update_self] at hak
        exact (hout j hjk a haj).2 hak
      · rw [Function.update_of_ne hk] at hak
        exact h.disjoint j k hjk haj hak
  · constructor
    · intro hnf
      by_cases hal : a ∈ l'
      · exact ⟨i, by rwa [Function.update_self]⟩
      · have hni : a ∉ own i := fun hi => hnf (hold a hi hal)
        rw [hsame a hni hal, h.cover a ha] at hnf
        obtain ⟨j, hj⟩ := hnf
        refine ⟨j, ?_⟩
        rwa [Function.update_of_ne]
        rintro rfl
        exact hni hj
    · rintro ⟨j, hj⟩
      by_cases hji : j = i
      · subst hji
        rw [Function.update_self] at hj
        exact (hlok a hj).2
      · rw [Function.update_of_ne hji] at hj
        obtain ⟨h1, h2⟩ := hout j hji a hj
        rw [hsame a h1 h2]
        exact h.not_free hj

theorem move (h : Owned M next own) {i j : ι} (hij : i ≠ j)
    (hj : own j = []) :
    Owned M next
      (Function.update (Function.update own j (own i)) i []) := by
  have hown : ∀ k, Function.update (Function.update own j (own i)) i [] k
      = if k = i then [] else if k = j then own i else own k := by
    intro k
    simp only [Function.update_apply]
  refine ⟨fun k => ?_, fun k m hkm => ?_, fun a ha => ?_⟩
  · rw [hown]
    split_ifs
    · exact .inl rfl
    · exact h.chain i
    · exact h.chain k
  · rw [hown, hown]
    split_ifs with h1 h2 h3 h4 h5 h6 <;>
      first
      | exact List.disjoint_nil_left _
      | exact List.disjoint_nil_right _
      | (subst_vars; exact absurd rfl hkm)
      | (apply h.disjoint; first | assumption | (apply Ne.symm; assumption))
  · rw [h.cover a ha]
    constructor
    · rintro ⟨k, hk⟩
      by_cases hki : k = i
      · subst hki
        exact ⟨j, by rwa [hown, if_neg (Ne.symm hij), if_pos rfl]⟩
      · have hkj : k ≠ j := by
          rintro rfl
          rw [hj] at hk
          cases hk
        exact ⟨k, by rwa [hown, if_neg hki, if_neg hkj]⟩
    · rintro ⟨k, hk⟩
      rw [hown] at hk
      split_ifs at hk
      · cases hk
      · exact ⟨i, hk⟩
      · exact ⟨k, hk⟩

end Owned

end Linked
