/-
Ring buffers that overwrite their oldest element when they are full.

A ring is an array of `cap` cells with a head, a tail and a count, and
what it holds is the list of the `count` cells from the head on
(`toList`). The bounds that keep the indices in the array are part of
the structure, so a ring is always well formed; the laws say what the
operations do to the list.
-/
import Mathlib

/-- A ring buffer with `cap` cells. -/
structure RingBuf (α : Type) (cap : Nat) where
  buf : Nat → α
  head : Nat
  tail : Nat
  count : Nat
  head_lt : head < cap
  count_le : count ≤ cap
  tail_eq : tail = (head + count) % cap

namespace RingBuf

variable {α : Type} {cap : Nat}

theorem eq_of_fields {r s : RingBuf α cap} (hbuf : r.buf = s.buf)
    (hhead : r.head = s.head) (htail : r.tail = s.tail)
    (hcount : r.count = s.count) : r = s := by
  cases r
  cases s
  simp only at hbuf hhead htail hcount
  subst hbuf hhead htail hcount
  rfl

/-- The ring with cleared cells. -/
def empty (a : α) (h : 0 < cap) : RingBuf α cap where
  buf := fun _ => a
  head := 0
  tail := 0
  count := 0
  head_lt := h
  count_le := Nat.zero_le _
  tail_eq := by simp

/-- The elements in order. -/
def toList (r : RingBuf α cap) : List α :=
  (List.range r.count).map fun i => r.buf ((r.head + i) % cap)

@[simp] theorem length_toList (r : RingBuf α cap) :
    r.toList.length = r.count := by
  simp [toList]

theorem drop_toList (r : RingBuf α cap) {i : Nat} (hi : i < r.count) :
    r.toList.drop i
      = r.buf ((r.head + i) % cap) :: r.toList.drop (i + 1) := by
  have hlen : i < r.toList.length := by
    rw [length_toList]
    exact hi
  rw [List.drop_eq_getElem_cons hlen]
  simp [toList]

theorem cap_pos (r : RingBuf α cap) : 0 < cap := Nat.zero_lt_of_lt r.head_lt

@[simp] theorem toList_empty (a : α) (h : 0 < cap) :
    (empty a h).toList = [] := rfl

-- ==== the head

/-- The first element is dropped, if there is one. -/
def dropHead (r : RingBuf α cap) : RingBuf α cap :=
  if h : r.count = 0 then r
  else
    { buf := r.buf
      head := (r.head + 1) % cap
      tail := r.tail
      count := r.count - 1
      head_lt := Nat.mod_lt _ r.cap_pos
      count_le := Nat.le_trans (Nat.sub_le _ _) r.count_le
      tail_eq := by
        rw [r.tail_eq, Nat.mod_add_mod]
        congr 1
        omega }

theorem dropHead_count (r : RingBuf α cap) :
    r.dropHead.count = r.count - 1 := by
  unfold dropHead
  split_ifs with h
  · omega
  · rfl

theorem dropHead_buf (r : RingBuf α cap) : r.dropHead.buf = r.buf := by
  unfold dropHead
  split_ifs <;> rfl

theorem dropHead_tail (r : RingBuf α cap) : r.dropHead.tail = r.tail := by
  unfold dropHead
  split_ifs <;> rfl

theorem dropHead_head (r : RingBuf α cap) (h : r.count ≠ 0) :
    r.dropHead.head = (r.head + 1) % cap := by
  unfold dropHead
  rw [dif_neg h]

theorem toList_eq_cons (r : RingBuf α cap) (h : r.count ≠ 0) :
    r.toList = r.buf r.head :: r.dropHead.toList := by
  have hrange : List.range r.count
      = 0 :: (List.range (r.count - 1)).map Nat.succ := by
    rw [← List.range_succ_eq_map]
    congr 1
    omega
  unfold toList
  rw [hrange, dropHead_count, dropHead_buf, dropHead_head r h, List.map_cons,
    List.map_map]
  congr 1
  · rw [Nat.add_zero, Nat.mod_eq_of_lt r.head_lt]
  · apply List.map_congr_left
    intro i _
    simp only [Function.comp_apply]
    rw [Nat.mod_add_mod, Nat.succ_eq_add_one, Nat.add_assoc, Nat.add_comm 1 i]

theorem toList_dropHead (r : RingBuf α cap) :
    r.dropHead.toList = r.toList.tail := by
  by_cases h : r.count = 0
  · have hnil : r.toList = [] := by
      rw [← List.length_eq_zero_iff, length_toList, h]
    rw [hnil, dropHead, dif_pos h, hnil]
    rfl
  · rw [toList_eq_cons r h, List.tail_cons]

/-- The first element is taken out. -/
def pop? (r : RingBuf α cap) : Option (α × RingBuf α cap) :=
  if r.count = 0 then none else some (r.buf r.head, r.dropHead)

/-- At most so many elements are taken out. -/
def popMany : Nat → RingBuf α cap → List α × RingBuf α cap
  | 0, r => ([], r)
  | n + 1, r =>
    match r.pop? with
    | none => ([], r)
    | some (a, r') => (a :: (popMany n r').1, (popMany n r').2)

theorem popMany_eq (n : Nat) (r : RingBuf α cap) :
    (popMany n r).1 ++ (popMany n r).2.toList = r.toList := by
  induction n generalizing r with
  | zero => rfl
  | succ n ih =>
    unfold popMany pop?
    by_cases h : r.count = 0
    · rw [if_pos h]
      rfl
    · rw [if_neg h]
      simp only [List.cons_append, ih]
      exact (toList_eq_cons r h).symm

theorem length_popMany (n : Nat) (r : RingBuf α cap) :
    (popMany n r).1.length = min n r.count := by
  induction n generalizing r with
  | zero => exact (Nat.zero_min _).symm
  | succ n ih =>
    unfold popMany pop?
    by_cases h : r.count = 0
    · rw [if_pos h, h]
      rfl
    · rw [if_neg h]
      dsimp only
      rw [List.length_cons, ih, dropHead_count]
      omega

theorem popMany_take_drop (n : Nat) (r : RingBuf α cap) :
    (popMany n r).1 = r.toList.take n ∧
      (popMany n r).2.toList = r.toList.drop n := by
  have happend := popMany_eq n r
  have hlength := length_popMany n r
  by_cases hn : n ≤ r.count
  · rw [Nat.min_eq_left hn] at hlength
    rw [← happend]
    exact ⟨(List.take_left' hlength).symm, (List.drop_left' hlength).symm⟩
  · rw [Nat.min_eq_right (Nat.le_of_not_le hn)] at hlength
    have hwhole := congrArg List.length happend
    rw [List.length_append, hlength, length_toList r] at hwhole
    have hnil : (popMany n r).2.toList = [] :=
      List.length_eq_zero_iff.mp (by omega)
    rw [hnil, List.append_nil] at happend
    have hle : r.toList.length ≤ n := by
      rw [length_toList]
      omega
    rw [List.take_of_length_le hle, List.drop_eq_nil_of_le hle]
    exact ⟨happend, hnil⟩

-- ==== the end

/-- An element is put into the cell behind the last one, which has to be
free. -/
def put (r : RingBuf α cap) (a : α) (h : r.count < cap) : RingBuf α cap where
  buf := Function.update r.buf r.tail a
  head := r.head
  tail := (r.tail + 1) % cap
  count := r.count + 1
  head_lt := r.head_lt
  count_le := h
  tail_eq := by rw [r.tail_eq, Nat.mod_add_mod, Nat.add_assoc]

private theorem cell_ne {head i j : Nat} (hi : i < j) (hj : j < cap) :
    (head + i) % cap ≠ (head + j) % cap := by
  intro h
  have hsub := Nat.sub_mod_eq_zero_of_mod_eq h.symm
  rw [Nat.add_sub_add_left, Nat.mod_eq_of_lt (by omega)] at hsub
  omega

theorem toList_put (r : RingBuf α cap) (a : α) (h : r.count < cap) :
    (r.put a h).toList = r.toList ++ [a] := by
  have hbuf : (r.put a h).buf
      = Function.update r.buf ((r.head + r.count) % cap) a := by
    rw [← r.tail_eq]
    rfl
  have hhead : (r.put a h).head = r.head := rfl
  have hcount : (r.put a h).count = r.count + 1 := rfl
  unfold toList
  rw [hbuf, hhead, hcount, List.range_succ, List.map_append,
    List.map_singleton, Function.update_self]
  congr 1
  apply List.map_congr_left
  intro i hi
  rw [Function.update_of_ne (cell_ne (List.mem_range.mp hi) h)]

/-- An element takes the place of the last one. -/
def setLast (r : RingBuf α cap) (a : α) : RingBuf α cap :=
  { r with buf := Function.update r.buf ((r.head + r.count - 1) % cap) a }

theorem toList_setLast (r : RingBuf α cap) (a : α) (h : 0 < r.count) :
    (r.setLast a).toList = r.toList.dropLast ++ [a] := by
  have hle := r.count_le
  obtain ⟨n, hn⟩ : ∃ n, r.count = n + 1 := ⟨r.count - 1, by omega⟩
  have hrange : ∀ (buf : Nat → α), (List.range r.count).map
      (fun i => buf ((r.head + i) % cap))
        = (List.range n).map (fun i => buf ((r.head + i) % cap))
          ++ [buf ((r.head + n) % cap)] := by
    intro buf
    rw [hn, List.range_succ, List.map_append, List.map_singleton]
  have hlast : r.head + r.count - 1 = r.head + n := by omega
  unfold toList setLast
  dsimp only
  rw [hrange, hrange, List.dropLast_concat, hlast, Function.update_self]
  congr 1
  apply List.map_congr_left
  intro i hi
  rw [Function.update_of_ne (cell_ne (List.mem_range.mp hi) (by omega))]

theorem getLast?_toList (r : RingBuf α cap) (h : 0 < r.count) :
    r.toList.getLast? = some (r.buf ((r.head + r.count - 1) % cap)) := by
  obtain ⟨n, hn⟩ : ∃ n, r.count = n + 1 := ⟨r.count - 1, by omega⟩
  have hlast : r.head + r.count - 1 = r.head + n := by omega
  unfold toList
  rw [hlast, hn, List.range_succ, List.map_append, List.map_singleton,
    List.getLast?_concat]

/-- An element is put behind the last one, over the first one if the ring
is full. -/
def push (r : RingBuf α cap) (a : α) : RingBuf α cap :=
  if h : r.count < cap then r.put a h
  else r.dropHead.put a (by
    rw [dropHead_count]
    have := r.cap_pos
    have := r.count_le
    omega)

section push

variable (r : RingBuf α cap) (a : α)

theorem push_buf : (r.push a).buf = Function.update r.buf r.tail a := by
  unfold push
  split_ifs
  · rfl
  · show Function.update r.dropHead.buf r.dropHead.tail a = _
    rw [dropHead_buf, dropHead_tail]

theorem push_tail : (r.push a).tail = (r.tail + 1) % cap := by
  unfold push
  split_ifs
  · rfl
  · show (r.dropHead.tail + 1) % cap = _
    rw [dropHead_tail]

theorem push_head :
    (r.push a).head = if r.count < cap then r.head else (r.head + 1) % cap := by
  unfold push
  split_ifs with h
  · rfl
  · have hpos := r.cap_pos
    exact dropHead_head r (by omega)

theorem push_count :
    (r.push a).count = if r.count < cap then r.count + 1 else r.count := by
  unfold push
  split_ifs with h
  · rfl
  · show r.dropHead.count + 1 = r.count
    have hpos := r.cap_pos
    rw [dropHead_count]
    omega

end push

theorem toList_push (r : RingBuf α cap) (a : α) :
    (r.push a).toList
      = (if r.count < cap then r.toList else r.toList.tail) ++ [a] := by
  unfold push
  split_ifs with h
  · exact toList_put r a h
  · rw [toList_put, toList_dropHead]

/-- Elements are pushed one after the other. -/
def pushAll (r : RingBuf α cap) (as : List α) : RingBuf α cap :=
  as.foldl push r

theorem toList_pushAll (r : RingBuf α cap) (as : List α) :
    (r.pushAll as).toList
      = (r.toList ++ as).drop (r.count + as.length - cap) := by
  induction as generalizing r with
  | nil =>
    have := r.count_le
    rw [List.append_nil, List.length_nil, Nat.add_zero,
      Nat.sub_eq_zero_of_le this]
    rfl
  | cons a as ih =>
    have hle := r.count_le
    have hpos := r.cap_pos
    have hlen := congrArg List.length (toList_push r a)
    unfold pushAll at ih ⊢
    rw [List.foldl_cons, ih, toList_push]
    by_cases h : r.count < cap
    · rw [if_pos h] at hlen ⊢
      simp only [length_toList, List.length_append,
        List.length_singleton] at hlen
      rw [hlen, List.append_assoc, List.singleton_append, List.length_cons,
        Nat.add_right_comm, Nat.add_assoc]
    · rw [if_neg h] at hlen ⊢
      simp only [length_toList, List.length_append, List.length_tail,
        List.length_singleton] at hlen
      have hcons := toList_eq_cons r (by omega)
      have hsub : r.count + (a :: as).length - cap
          = r.count - 1 + 1 + as.length - cap + 1 := by
        rw [List.length_cons]
        omega
      rw [hlen, hcons, List.tail_cons, hsub, List.cons_append,
        List.drop_succ_cons, List.append_assoc, List.singleton_append]

theorem toList_push_rtake (r : RingBuf α cap) (a : α) :
    (r.push a).toList = (r.toList ++ [a]).rtake cap := by
  have hall := toList_pushAll r [a]
  unfold List.rtake
  rwa [List.length_append, length_toList]

theorem rtake_append_rtake (n : Nat) (as bs : List α) :
    (as.rtake n ++ bs).rtake n = (as ++ bs).rtake n := by
  unfold List.rtake
  have hlen : (as.drop (as.length - n)).length = min as.length n := by
    rw [List.length_drop]
    omega
  rw [List.length_append, List.length_append, hlen, List.drop_append,
    List.drop_append, List.drop_drop, hlen]
  congr 2 <;> omega

theorem toList_pushAll_of_fits (r : RingBuf α cap) (as : List α)
    (h : as.length ≤ cap - r.count) :
    (r.pushAll as).toList = r.toList ++ as := by
  have hle := r.count_le
  rw [toList_pushAll, Nat.sub_eq_zero_of_le (by omega), List.drop_zero]

end RingBuf
