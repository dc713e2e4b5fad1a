/-
The words of a text: what is left of it between separators, without the
empty pieces.

The laws are those of a scanner (`tokens_eq`: what it skips, the word it
takes, and where it goes on), for the two orders in which a loop may take and
skip (`filter_pieces`, `filter_words`), and one about what is lost when a text is
cut, and then the list of its words, and then each word: nothing exactly
if nothing was cut off but separators (`cut_eq_iff`).
-/
import Mathlib

namespace Tokens

variable {α : Type} {p : α → Bool} {x : α} {l b w : List α}

/-- The pieces between separators that are not empty. -/
def tokens (p : α → Bool) (l : List α) : List (List α) :=
  (l.splitOnP p).filter fun w => !w.isEmpty

@[simp] theorem tokens_nil : tokens p [] = [] := rfl

theorem tokens_append_cons (h : p x = true) :
    tokens p (l ++ x :: b) = tokens p l ++ tokens p b := by
  unfold tokens
  rw [List.splitOnP_append_cons _ _ h, List.filter_append]

theorem tokens_cons (h : p x = true) : tokens p (x :: l) = tokens p l :=
  tokens_append_cons (l := []) h

theorem tokens_dropWhile (l : List α) :
    tokens p (l.dropWhile p) = tokens p l := by
  induction l with
  | nil => rfl
  | cons x l ih =>
    cases hx : p x with
    | true => rw [List.dropWhile_cons_of_pos hx, tokens_cons hx, ih]
    | false => rw [List.dropWhile_cons_of_neg (by rw [hx]; decide)]

theorem tokens_word (hne : w ≠ []) (hw : ∀ y ∈ w, p y = false)
    (hb : b = [] ∨ ∃ x b', b = x :: b' ∧ p x = true) :
    tokens p (w ++ b) = w :: tokens p b := by
  have hone : tokens p w = [w] := by
    unfold tokens
    rw [List.splitOnP_eq_singleton hw]
    exact List.filter_cons_of_pos (by simpa using hne)
  rcases hb with rfl | ⟨x, b', rfl, hx⟩
  · rw [List.append_nil, hone]
    rfl
  · rw [tokens_append_cons hx, hone, tokens_cons hx]
    rfl

theorem tokens_eq (l : List α) :
    tokens p l = if l.dropWhile p = [] then [] else
      (l.dropWhile p).takeWhile (fun y => !p y)
        :: tokens p ((l.dropWhile p).dropWhile fun y => !p y) := by
  rw [← tokens_dropWhile l]
  cases hl : l.dropWhile p with
  | nil => rfl
  | cons x rest =>
    have hx : p x = false := by
      have h := List.head?_dropWhile_not p l
      rw [hl] at h
      exact h
    have hcut := List.takeWhile_append_dropWhile (p := fun y => !p y)
      (l := x :: rest)
    have hnext : (x :: rest).dropWhile (fun y => !p y) = [] ∨ ∃ y b',
        (x :: rest).dropWhile (fun y => !p y) = y :: b' ∧ p y = true := by
      cases hb : (x :: rest).dropWhile (fun y => !p y) with
      | nil => exact .inl rfl
      | cons y b' =>
        have h := List.head?_dropWhile_not (fun y => !p y) (x :: rest)
        rw [hb] at h
        exact .inr ⟨y, b', rfl, by simpa using h⟩
    rw [if_neg (List.cons_ne_nil _ _)]
    have hword := tokens_word (p := p)
      (w := (x :: rest).takeWhile fun y => !p y) (by
        rw [List.takeWhile_cons_of_pos (by rw [hx]; rfl)]
        exact List.cons_ne_nil _ _) (fun y hy => by
        simpa using List.mem_takeWhile_imp hy) hnext
    rw [hcut] at hword
    exact hword

-- ==== two loops

/-- A loop that takes up to a separator and then skips the separators; its
first piece may be empty. -/
def pieces (p : α → Bool) : Nat → List α → List (List α)
  | 0, _ => []
  | _ + 1, [] => []
  | n + 1, x :: l =>
    (x :: l).takeWhile (fun y => !p y)
      :: pieces p n (((x :: l).dropWhile fun y => !p y).dropWhile p)

/-- A loop that skips the separators and then takes up to the next one, and
goes on behind it; its last word may be empty. -/
def words (p : α → Bool) : Nat → List α → List (List α)
  | 0, _ => []
  | _ + 1, [] => []
  | n + 1, x :: l =>
    ((x :: l).dropWhile p).takeWhile (fun y => !p y)
      :: words p n ((((x :: l).dropWhile p).dropWhile fun y => !p y).drop 1)

theorem filter_pieces (n : Nat) (l : List α) (h : l.length ≤ n) :
    (pieces p n l).filter (fun w => !w.isEmpty) = tokens p l := by
  induction n generalizing l with
  | zero =>
    rw [List.eq_nil_of_length_eq_zero (Nat.le_zero.mp h)]
    rfl
  | succ n ih =>
    cases l with
    | nil => rfl
    | cons x l =>
      rw [List.length_cons] at h
      unfold pieces
      cases hx : p x with
      | true =>
        have hrest := (l.dropWhile_sublist p).length_le
        rw [List.takeWhile_cons_of_neg (by simp [hx]),
          List.dropWhile_cons_of_neg (by simp [hx]),
          List.dropWhile_cons_of_pos hx, List.filter_cons_of_neg (by simp),
          ih _ (by omega), tokens_dropWhile, tokens_cons hx]
      | false =>
        have hmid := (l.dropWhile_sublist fun y => !p y).length_le
        have hrest :=
          ((l.dropWhile fun y => !p y).dropWhile_sublist p).length_le
        have hstay : (x :: l).dropWhile p = x :: l :=
          List.dropWhile_cons_of_neg (by simp [hx])
        rw [tokens_eq (x :: l), hstay, if_neg (List.cons_ne_nil _ _),
          List.takeWhile_cons_of_pos (by simp [hx]),
          List.dropWhile_cons_of_pos (by simp [hx]),
          List.filter_cons_of_pos (by simp), ih _ (by omega),
          tokens_dropWhile]

theorem tokens_drop_one (l : List α) :
    tokens p ((l.dropWhile fun y => !p y).drop 1)
      = tokens p (l.dropWhile fun y => !p y) := by
  have hhead := List.head?_dropWhile_not (fun y => !p y) l
  cases hl : l.dropWhile fun y => !p y with
  | nil => rfl
  | cons y rest =>
    rw [hl] at hhead
    exact (tokens_cons (by simpa using hhead)).symm

theorem filter_words (n : Nat) (l : List α) (h : l.length ≤ n) :
    (words p n l).filter (fun w => !w.isEmpty) = tokens p l := by
  induction n generalizing l with
  | zero =>
    rw [List.eq_nil_of_length_eq_zero (Nat.le_zero.mp h)]
    rfl
  | succ n ih =>
    cases l with
    | nil => rfl
    | cons x l =>
      have hskip := ((x :: l).dropWhile_sublist p).length_le
      unfold words
      rw [tokens_eq (x :: l)]
      cases hm : (x :: l).dropWhile p with
      | nil =>
        rw [if_pos rfl]
        cases n <;> rfl
      | cons y m =>
        have hy : p y = false := by
          have hhead := List.head?_dropWhile_not p (x :: l)
          rw [hm] at hhead
          exact hhead
        have htake := (m.dropWhile_sublist fun y => !p y).length_le
        rw [hm, List.length_cons, List.length_cons] at hskip
        rw [List.length_cons] at h
        have hrest : ((y :: m).dropWhile fun y => !p y)
            = m.dropWhile fun y => !p y :=
          List.dropWhile_cons_of_pos (by simp [hy])
        rw [if_neg (List.cons_ne_nil _ _), List.filter_cons_of_pos
            (by rw [List.takeWhile_cons_of_pos (by simp [hy])]; rfl),
          ih _ (by rw [hrest, List.length_drop]; omega), tokens_drop_one]

-- ==== what is lost

theorem flatten_tokens (l : List α) :
    (tokens p l).flatten = l.filter fun y => !p y := by
  unfold tokens
  rw [List.flatten_filter_not_isEmpty]
  induction l with
  | nil => rfl
  | cons x l ih =>
    rw [List.splitOnP_cons_eq_if_modifyHead]
    cases hx : p x with
    | true =>
      rw [if_pos rfl, List.filter_cons_of_neg (by simp [hx]), ← ih]
      rfl
    | false =>
      rw [if_neg Bool.false_ne_true, List.filter_cons_of_pos (by simp [hx]),
        ← ih]
      obtain ⟨w, rest, hsplit⟩ :=
        List.exists_cons_of_ne_nil (List.splitOnP_ne_nil p l)
      rw [hsplit]
      rfl

theorem tokens_append_blank (l : List α) (h : ∀ x ∈ b, p x = true) :
    tokens p (l ++ b) = tokens p l := by
  induction b generalizing l with
  | nil => rw [List.append_nil]
  | cons x b ih =>
    rw [tokens_append_cons (h x List.mem_cons_self)]
    have hb := ih [] fun y hy => h y (List.mem_cons_of_mem x hy)
    rw [List.nil_append] at hb
    rw [hb, tokens_nil, List.append_nil]

theorem length_flatten_cut_le (n k : Nat) (T : List (List α)) :
    ((T.take n).map (List.take k)).flatten.length ≤ T.flatten.length := by
  induction T generalizing n with
  | nil => simp
  | cons t T ih =>
    cases n with
    | zero => simp
    | succ n =>
      have hrest := ih n
      have hfirst := List.length_take_le' k t
      rw [List.take_succ_cons, List.map_cons, List.flatten_cons,
        List.flatten_cons, List.length_append, List.length_append]
      omega

theorem cut_eq_iff (m n k : Nat) (l : List α) :
    ((tokens p (l.take m)).take n).map (List.take k) = tokens p l ↔
      (∀ x ∈ l.drop m, p x = true) ∧ (tokens p l).length ≤ n ∧
        ∀ t ∈ tokens p l, t.length ≤ k := by
  have hsame : (∀ x ∈ l.drop m, p x = true) →
      tokens p (l.take m) = tokens p l := by
    intro hblank
    have hcut := tokens_append_blank (l.take m) hblank
    rw [List.take_append_drop] at hcut
    exact hcut.symm
  constructor
  · intro hcut
    have hblank : ∀ x ∈ l.drop m, p x = true := by
      -- all that is no separator is still there
      have hle := length_flatten_cut_le n k (tokens p (l.take m))
      have hall := congrArg (List.filter fun y => !p y)
        (List.take_append_drop m l)
      rw [List.filter_append] at hall
      have hlen := congrArg List.length hall
      rw [hcut, flatten_tokens, flatten_tokens] at hle
      rw [List.length_append] at hlen
      have hnone : (l.drop m).filter (fun y => !p y) = [] :=
        List.eq_nil_of_length_eq_zero (by omega)
      intro x hx
      simpa using List.filter_eq_nil_iff.mp hnone x hx
    rw [hsame hblank] at hcut
    have hcount : (tokens p l).length ≤ n := by
      have hlen := congrArg List.length hcut
      rw [List.length_map, List.length_take] at hlen
      omega
    rw [List.take_of_length_le hcount] at hcut
    refine ⟨hblank, hcount, fun t ht => ?_⟩
    have hmem : t ∈ (tokens p l).map (List.take k) := by
      rw [hcut]
      exact ht
    obtain ⟨u, -, rfl⟩ := List.mem_map.mp hmem
    exact List.length_take_le k u
  · rintro ⟨hblank, hcount, hshort⟩
    rw [hsame hblank, List.take_of_length_le hcount]
    refine (List.map_congr_left fun t ht => ?_).trans (List.map_id _)
    exact List.take_of_length_le (hshort t ht)

end Tokens
