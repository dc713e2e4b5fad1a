/-
Looking for room by jumping over what is in the way.

Rows lie on a line, each from a `lo` to a `hi`. A search for a place with
`size` free cells from a cursor on goes over the rows in some order, and
where one is in the way it jumps `gap` cells behind it; when nothing was in
the way during a whole pass, the cursor is the place. Where less than
`size` cells are left in front of the end of the window it begins again at
its start, and behind the end it gives up.
-/
import Mathlib

/-- What is searched, and for how much room. -/
structure FirstFit (α : Type) where
  lo : α → Nat
  hi : α → Nat
  gap : Nat
  size : Nat
  first : Nat
  last : Nat

namespace FirstFit

variable {α : Type} (S : FirstFit α)

/-- The row is in the way of a place. -/
def Blocks (c : Nat) (a : α) : Prop := c < S.hi a ∧ S.lo a < c + S.size

instance (c : Nat) (a : α) : Decidable (S.Blocks c a) :=
  inferInstanceAs (Decidable (_ ∧ _))

/-- Jump behind a row that is in the way. -/
def jump (c : Nat) (a : α) : Nat := if S.Blocks c a then S.hi a + S.gap else c

/-- Go over the rows once. -/
def pass (rows : List α) (c : Nat) : Nat := rows.foldl S.jump c

/-- The cursor, or the start of the window where it leaves no room. -/
def start (c : Nat) : Nat :=
  if c < S.first ∨ S.last < c + S.size then S.first else c

/-- The search, with at most so many passes that move the cursor. -/
def search (rows : List α) : Nat → Nat → Option Nat
  | 0, c => if S.pass rows (S.start c) = S.start c then some (S.start c) else none
  | n + 1, c =>
    if S.pass rows (S.start c) = S.start c then some (S.start c)
    else if S.last ≤ S.pass rows (S.start c) then none
    else search rows n (S.pass rows (S.start c))

/-- Nothing is in the way. -/
def Clear (rows : List α) (c : Nat) : Prop := ∀ a ∈ rows, ¬ S.Blocks c a

/-- A jump over one of the rows. -/
def Hop (rows : List α) (c c' : Nat) : Prop :=
  ∃ a ∈ rows, S.Blocks c a ∧ c' = S.hi a + S.gap

/-- Any number of jumps. -/
abbrev Hops (rows : List α) : Nat → Nat → Prop :=
  Relation.ReflTransGen (S.Hop rows)

/-- What a good place needs. -/
structure Sound (rows : List α) (Good : Nat → Prop) : Prop where
  first : ∀ x, Good x → S.first ≤ x
  last : ∀ x, Good x → x + S.size ≤ S.last
  apart : ∀ x, Good x → ∀ a ∈ rows,
    S.hi a + S.gap ≤ x ∨ x + S.size ≤ S.lo a

/-- A place where a search should not end: the end of the window, or room
that is not good. -/
def Bad (rows : List α) (Good : Nat → Prop) (t : Nat) : Prop :=
  S.last ≤ t ∨ t + S.size ≤ S.last ∧ S.Clear rows t ∧ ¬ Good t

/-- Where a search from a cursor jumps from: the cursor, and the start of
the window if there is no good place from the cursor on. -/
def From (Good : Nat → Prop) (c s : Nat) : Prop :=
  s = c ∨ s = S.first ∧ ∀ y, Good y → y < c

/-- No jumps lead to a bad place. -/
def Guided (rows : List α) (Good : Nat → Prop) (c : Nat) : Prop :=
  ∀ s t, S.From Good c s → S.Hops rows s t → ¬ S.Bad rows Good t

-- ==== one pass

section pass

variable {S} {rows P : List α} {Good : Nat → Prop} {c c' t x : Nat} {a : α}

theorem jump_of_blocks (h : S.Blocks c a) : S.jump c a = S.hi a + S.gap :=
  if_pos h

theorem jump_of_clear (h : ¬ S.Blocks c a) : S.jump c a = c := if_neg h

theorem le_jump (c : Nat) (a : α) : c ≤ S.jump c a := by
  unfold jump
  split
  · next h => exact Nat.le_trans (Nat.le_of_lt h.1) (Nat.le_add_right _ _)
  · exact Nat.le_refl c

theorem pass_cons (a : α) (rows : List α) (c : Nat) :
    S.pass (a :: rows) c = S.pass rows (S.jump c a) := rfl

theorem pass_append (P rows : List α) (c : Nat) :
    S.pass (P ++ rows) c = S.pass rows (S.pass P c) := List.foldl_append

theorem le_pass (rows : List α) (c : Nat) : c ≤ S.pass rows c := by
  induction rows generalizing c with
  | nil => exact Nat.le_refl c
  | cons a rows ih => exact Nat.le_trans (le_jump c a) (ih _)

theorem exists_of_pass_ne (hne : S.pass rows c ≠ c) :
    ∃ a ∈ rows, c < S.hi a ∧ S.hi a + S.gap ≤ S.pass rows c := by
  induction rows generalizing c with
  | nil => exact absurd rfl hne
  | cons a rows ih =>
    rw [pass_cons] at hne ⊢
    by_cases hb : S.Blocks c a
    · rw [jump_of_blocks hb]
      exact ⟨a, List.mem_cons_self, hb.1, le_pass rows _⟩
    · rw [jump_of_clear hb] at hne ⊢
      obtain ⟨b, hmem, hb⟩ := ih hne
      exact ⟨b, List.mem_cons_of_mem a hmem, hb⟩

theorem Hops.mono (h : S.Hops rows c t) : c ≤ t := by
  induction h with
  | refl => exact Nat.le_refl c
  | tail _ hhop ih =>
    obtain ⟨a, -, hb, rfl⟩ := hhop
    have := hb.1
    omega

theorem Hops.le (hs : S.Sound rows Good) (hx : Good x) (hc : c ≤ x)
    (h : S.Hops rows c t) : t ≤ x := by
  induction h with
  | refl => exact hc
  | tail _ hhop ih =>
    obtain ⟨a, ha, hb, rfl⟩ := hhop
    cases hs.apart x hx a ha with
    | inl hbehind => exact hbehind
    | inr hfront =>
      have := hb.2
      omega

end pass

-- ==== a good end

section good

variable {S} {rows : List α} {Good : Nat → Prop} {c t x : Nat}

theorem countP_lt {p q : α → Bool} {a : α} (ha : a ∈ rows)
    (hq : q a = true) (hp : p a = false) (h : ∀ b, p b = true → q b = true) :
    rows.countP p < rows.countP q := by
  induction rows with
  | nil => cases ha
  | cons b rows ih =>
    rw [List.countP_cons, List.countP_cons]
    have hle := List.countP_mono_left (l := rows) fun b _ => h b
    cases List.mem_cons.mp ha with
    | inl heq =>
      rw [← heq, hq, hp]
      simp only [Bool.false_eq_true, if_false, if_true]
      omega
    | inr hmem =>
      have hlt := ih hmem
      cases hpb : p b with
      | false =>
        simp only [Bool.false_eq_true, if_false]
        omega
      | true =>
        rw [h b hpb]
        simp only [if_true]
        omega

/-- The rows between a place and a good one: those that a search has yet
to jump over. -/
def ahead (S : FirstFit α) (rows : List α) (c x : Nat) : Nat :=
  rows.countP fun a => c < S.hi a && S.hi a + S.gap ≤ x

/-- The rows that are not behind a place. -/
def above (S : FirstFit α) (rows : List α) (c : Nat) : Nat :=
  rows.countP fun a => c < S.hi a

theorem ahead_lt (hgap : 0 < S.gap) (hne : S.pass rows c ≠ c)
    (hx : S.pass rows c ≤ x) :
    S.ahead rows (S.pass rows c) x < S.ahead rows c x := by
  obtain ⟨a, ha, hlt, hle⟩ := exists_of_pass_ne hne
  refine countP_lt ha ?_ ?_ ?_
  · simp only [Bool.and_eq_true, decide_eq_true_eq]
    omega
  · simp only [Bool.and_eq_false_iff, decide_eq_false_iff_not]
    omega
  · intro b hb
    have hmono := le_pass (S := S) rows c
    simp only [Bool.and_eq_true, decide_eq_true_eq] at hb ⊢
    omega

end good

-- ==== a bad end

section bad

variable {S} {rows P rest : List α} {Good : Nat → Prop} {c s t x : Nat}

theorem Hops.path (hgap : 0 < S.gap) (h : S.Hops rows s t) :
    ∃ P : List α, P.Nodup ∧ P ⊆ rows ∧ S.pass P s = t ∧
      ∀ a ∈ P, S.hi a < t := by
  induction h with
  | refl => exact ⟨[], .nil, List.nil_subset _, rfl, fun a ha => nomatch ha⟩
  | @tail c _ _ hhop ih =>
    obtain ⟨P, hnodup, hsub, hpass, hlt⟩ := ih
    obtain ⟨a, ha, hb, rfl⟩ := hhop
    have hnew : a ∉ P := fun hmem => by
      have := hlt a hmem
      have := hb.1
      omega
    refine ⟨P ++ [a], ?_, ?_, ?_, ?_⟩
    · exact List.nodup_append.mpr ⟨hnodup, List.pairwise_singleton _ a, by
        intro b hb c hc heq
        rw [List.mem_singleton.mp hc] at heq
        exact hnew (heq ▸ hb)⟩
    · exact List.append_subset.mpr ⟨hsub, fun b hb =>
        List.mem_singleton.mp hb ▸ ha⟩
    · rw [pass_append, hpass]
      exact jump_of_blocks hb
    · intro b hmem
      have hbc := hb.1
      cases List.mem_append.mp hmem with
      | inl hP =>
        have := hlt b hP
        omega
      | inr ha =>
        rw [List.mem_singleton.mp ha]
        omega

end bad

-- ==== every order

section order

variable {S} {rows rows' : List α} {Good : Nat → Prop} {c t x : Nat}

theorem Hop.of_subset (hsub : rows ⊆ rows') (h : S.Hop rows c t) :
    S.Hop rows' c t := by
  obtain ⟨a, ha, hrest⟩ := h
  exact ⟨a, hsub ha, hrest⟩

theorem Guided.perm (hperm : rows'.Perm rows) (h : S.Guided rows Good c) :
    S.Guided rows' Good c := by
  intro s t hfrom hhops hbad
  have hhops := Relation.ReflTransGen.mono
    (fun _ _ hhop => Hop.of_subset hperm.subset hhop) s t hhops
  apply h s t hfrom hhops
  cases hbad with
  | inl hlast => exact .inl hlast
  | inr hplace =>
    obtain ⟨hlast, hclear, hnot⟩ := hplace
    exact .inr ⟨hlast, fun a ha => hclear a (hperm.mem_iff.mpr ha), hnot⟩

theorem Sound.perm (hperm : rows'.Perm rows) (h : S.Sound rows Good) :
    S.Sound rows' Good :=
  ⟨h.first, h.last, fun x hx a ha => h.apart x hx a (hperm.mem_iff.mp ha)⟩

/-- The search over rows that are found under other names. -/
def comap {β : Type} (S : FirstFit α) (f : β → α) : FirstFit β :=
  { S with lo := S.lo ∘ f, hi := S.hi ∘ f }

end order

end FirstFit
