/-
Texts of lines and lines of fields: a separator between them, and blanks
that are trimmed off at both ends.

The laws say what cutting a text into pieces does to what is written
behind it, what trimming does to a line whose separators are not blank
(it reaches no further than the outer fields), and what the first field
of a line is when more text is written behind it.
-/
import Mathlib

namespace Fields

variable {α : Type} {p q : α → Bool} {a b l m : List α} {x : α}

-- ==== one separator

theorem takeWhile_sep (ha : ∀ y ∈ a, q y = true) (hx : q x = false) :
    (a ++ x :: b).takeWhile q = a := by
  rw [List.takeWhile_append_of_pos ha, List.takeWhile_cons_of_neg (by simp [hx]),
    List.append_nil]

theorem dropWhile_sep (ha : ∀ y ∈ a, q y = true) (hx : q x = false) :
    (a ++ x :: b).dropWhile q = x :: b := by
  rw [List.dropWhile_append_of_pos ha, List.dropWhile_cons_of_neg (by simp [hx])]

theorem cut_at_first (h : ∃ y ∈ l, q y = false) :
    ∃ a x b, l = a ++ x :: b ∧ (∀ y ∈ a, q y = true) ∧ q x = false := by
  induction l with
  | nil =>
    obtain ⟨y, hy, -⟩ := h
    cases hy
  | cons z l ih =>
    cases hz : q z with
    | false => exact ⟨[], z, l, rfl, by simp, hz⟩
    | true =>
      have htail : ∃ y ∈ l, q y = false := by
        obtain ⟨y, hy, hq⟩ := h
        cases List.mem_cons.mp hy with
        | inl heq =>
          rw [heq, hz] at hq
          cases hq
        | inr hmem => exact ⟨y, hmem, hq⟩
      obtain ⟨a, x, b, rfl, ha, hx⟩ := ih htail
      refine ⟨z :: a, x, b, rfl, ?_, hx⟩
      intro y hy
      cases List.mem_cons.mp hy with
      | inl heq =>
        rw [heq]
        exact hz
      | inr hmem => exact ha y hmem

-- ==== trimming

theorem rdropWhile_append_cons (hx : p x = false) :
    (l ++ x :: m).rdropWhile p = l ++ x :: m.rdropWhile p := by
  unfold List.rdropWhile
  rw [List.reverse_append, List.reverse_cons, List.append_assoc,
    List.dropWhile_append]
  by_cases hnil : (m.reverse.dropWhile p) = []
  · rw [hnil]
    simp [hx]
  · simp [hnil]

theorem trim_rdropWhile (u : List α) :
    ((u.rdropWhile p).dropWhile p).rdropWhile p
      = (u.dropWhile p).rdropWhile p := by
  by_cases h : ∃ y ∈ u, p y = false
  · obtain ⟨a, x, b, rfl, ha, hx⟩ := cut_at_first h
    rw [rdropWhile_append_cons hx, dropWhile_sep ha hx, dropWhile_sep ha hx,
      ← List.nil_append (x :: b.rdropWhile p), ← List.nil_append (x :: b),
      rdropWhile_append_cons hx, rdropWhile_append_cons hx,
      List.rdropWhile_idempotent]
  · push Not at h
    have hall : ∀ y ∈ u, p y = true := fun y hy => by simpa using h y hy
    have hright : u.rdropWhile p = [] := List.rdropWhile_eq_nil_iff.mpr hall
    have hleft : u.dropWhile p = [] := List.dropWhile_eq_nil_iff.mpr hall
    rw [hright, hleft, List.dropWhile_nil]

theorem trim_self (hhead : ∀ y, l.head? = some y → p y = false)
    (hlast : ∀ y, l.getLast? = some y → p y = false) :
    (l.dropWhile p).rdropWhile p = l := by
  have hleft : l.dropWhile p = l := by
    cases l with
    | nil => rfl
    | cons y l =>
      rw [List.dropWhile_cons_of_neg (by simp [hhead y rfl])]
  rw [hleft, List.rdropWhile_eq_self_iff]
  intro hl
  rw [hlast _ (List.getLast?_eq_some_getLast hl)]
  exact Bool.false_ne_true

theorem dropWhile_append_of_mem (h : ∃ y ∈ l, p y = false) (m : List α) :
    (l ++ m).dropWhile p = l.dropWhile p ++ m := by
  obtain ⟨a, x, b, rfl, ha, hx⟩ := cut_at_first h
  rw [List.append_assoc, List.cons_append, dropWhile_sep ha hx,
    dropWhile_sep ha hx, List.cons_append]

theorem takeWhile_trim_append (hsep : ∃ y ∈ l.dropWhile p, q y = false)
    (hq : ∀ y, q y = false → p y = false) (m : List α) :
    ((l ++ m).dropWhile p |>.rdropWhile p).takeWhile q
      = (l.dropWhile p).takeWhile q := by
  have hblank : ∃ y ∈ l, p y = false := by
    obtain ⟨y, hy, hqy⟩ := hsep
    exact ⟨y, List.dropWhile_sublist p |>.mem hy, hq y hqy⟩
  rw [dropWhile_append_of_mem hblank]
  obtain ⟨a, x, b, hab, ha, hx⟩ := cut_at_first hsep
  rw [hab, List.append_assoc, List.cons_append,
    rdropWhile_append_cons (hq x hx), takeWhile_sep ha hx,
    takeWhile_sep ha hx]

-- ==== pieces

section pieces

variable [BEq α] [LawfulBEq α] {sep : α} {c : List α}

theorem sep_notMem_of_splitOn (h : c ∈ l.splitOn sep) : sep ∉ c := by
  induction l generalizing c with
  | nil =>
    rw [List.splitOn_nil, List.mem_singleton] at h
    simp [h]
  | cons x l ih =>
    rw [List.splitOn_cons_eq_if_modifyHead] at h
    split at h
    · cases List.mem_cons.mp h with
      | inl heq => simp [heq]
      | inr hmem => exact ih hmem
    · next hx =>
      cases hs : l.splitOn sep with
      | nil => exact absurd hs (List.splitOn_ne_nil sep l)
      | cons y ys =>
        rw [hs] at h ih
        cases List.mem_cons.mp h with
        | inl heq =>
          rw [heq, List.mem_cons, not_or]
          refine ⟨?_, ih List.mem_cons_self⟩
          intro hsep
          rw [hsep] at hx
          exact hx (beq_self_eq_true _)
        | inr hmem => exact ih (List.mem_cons_of_mem _ hmem)

omit [LawfulBEq α] in
theorem mem_of_mem_splitOn {y : α} (h : c ∈ l.splitOn sep) (hy : y ∈ c) :
    y ∈ l := by
  induction l generalizing c with
  | nil =>
    rw [List.splitOn_nil, List.mem_singleton] at h
    rw [h] at hy
    exact hy
  | cons x l ih =>
    rw [List.splitOn_cons_eq_if_modifyHead] at h
    split at h
    · cases List.mem_cons.mp h with
      | inl heq =>
        rw [heq] at hy
        cases hy
      | inr hmem => exact List.mem_cons_of_mem _ (ih hmem hy)
    · cases hs : l.splitOn sep with
      | nil => exact absurd hs (List.splitOn_ne_nil sep l)
      | cons z zs =>
        rw [hs] at h ih
        cases List.mem_cons.mp h with
        | inl heq =>
          rw [heq] at hy
          cases List.mem_cons.mp hy with
          | inl hyx =>
            rw [hyx]
            exact List.mem_cons_self
          | inr hyz =>
            exact List.mem_cons_of_mem _ (ih List.mem_cons_self hyz)
        | inr hmem =>
          exact List.mem_cons_of_mem _ (ih (List.mem_cons_of_mem _ hmem) hy)

theorem splitOn_append {init : List (List α)} {tail : List α}
    (h : l.splitOn sep = init ++ [tail]) (hm : sep ∉ m) :
    (l ++ m).splitOn sep = init ++ [tail ++ m] := by
  have hglue : ∀ init : List (List α),
      [sep].intercalate (init ++ [tail]) ++ m
        = [sep].intercalate (init ++ [tail ++ m]) := by
    intro init
    induction init with
    | nil => simp [List.intercalate_singleton]
    | cons c init ih =>
      rw [List.cons_append, List.cons_append,
        List.intercalate_cons_of_ne_nil (by simp),
        List.intercalate_cons_of_ne_nil (by simp), List.append_assoc, ih]
  have hl : l = [sep].intercalate (init ++ [tail]) := by
    rw [← h, List.intercalate_splitOn]
  rw [hl, hglue]
  apply List.splitOn_intercalate
  · intro c hc
    cases List.mem_append.mp hc with
    | inl hinit =>
      exact sep_notMem_of_splitOn (h ▸ List.mem_append_left _ hinit)
    | inr hlast =>
      rw [List.mem_singleton.mp hlast, List.mem_append, not_or]
      exact ⟨sep_notMem_of_splitOn
        (h ▸ List.mem_append_right _ List.mem_cons_self), hm⟩
  · simp

end pieces

end Fields
