/-
The most recent entry of each key.

A history lists what has been stored under which key, the last store first.
`recents` keeps of each key what was stored last, in the order of these
stores: a cache that drops what has not been stored for longest keeps the
front of it. Where a key stands there is how many others have been stored
since (`recents_split`), and a store does to the front what a cache does to
its table: the key moves up (`take_touch_of_mem`), or comes in and the last
one is dropped (`take_touch_of_not_mem`).
-/
import Mathlib

namespace Recency

variable {K V : Type} [DecidableEq K]

/-- A store puts its key in front. -/
def touch (u : K × V) (l : List (K × V)) : List (K × V) :=
  u :: l.filter fun e => e.1 ≠ u.1

/-- What has been stored last under each key of a history. -/
def recents : List (K × V) → List (K × V)
  | [] => []
  | u :: h => touch u (recents h)

/-- What is stored under a key. -/
def find (k : K) (l : List (K × V)) : Option V :=
  (l.find? fun e => e.1 = k).map Prod.snd

/-- The other keys under which something has been stored since. -/
def since (k : K) (h : List (K × V)) : Finset K :=
  ((h.takeWhile fun e => e.1 ≠ k).map Prod.fst).toFinset

variable {k : K} {v : V} {u : K × V} {h l : List (K × V)} {n : Nat}

@[simp]
theorem find_nil : find k ([] : List (K × V)) = none := rfl

theorem find_cons_self (hu : u.1 = k) : find k (u :: l) = some u.2 := by
  unfold find
  rw [List.find?_cons_of_pos (by simpa using hu)]
  rfl

theorem find_cons_of_ne (hu : u.1 ≠ k) : find k (u :: l) = find k l := by
  unfold find
  rw [List.find?_cons_of_neg (by simpa using hu)]

theorem find_eq_none : find k l = none ↔ ∀ e ∈ l, e.1 ≠ k := by
  unfold find
  rw [Option.map_eq_none_iff, List.find?_eq_none]
  exact forall₂_congr fun e _ => by rw [decide_eq_true_iff]

theorem find_split {pre post : List (K × V)} (hpre : ∀ e ∈ pre, e.1 ≠ k) :
    find k (pre ++ (k, v) :: post) = some v := by
  induction pre with
  | nil => exact find_cons_self rfl
  | cons e pre ih =>
    rw [List.cons_append, find_cons_of_ne (hpre e List.mem_cons_self)]
    exact ih fun e' he' => hpre e' (List.mem_cons_of_mem e he')

theorem find_eq_some (hl : (l.map Prod.fst).Nodup) :
    find k l = some v ↔ (k, v) ∈ l := by
  induction l with
  | nil => exact ⟨nofun, nofun⟩
  | cons e l ih =>
    rw [List.map_cons, List.nodup_cons] at hl
    rw [List.mem_cons]
    by_cases he : e.1 = k
    · rw [find_cons_self he, Option.some_inj]
      constructor
      · rintro rfl
        exact .inl (Prod.ext he.symm rfl)
      · intro h
        rcases h with h | h
        · rw [← h]
        · refine absurd ?_ hl.1
          rw [he]
          exact List.mem_map_of_mem h
    · rw [find_cons_of_ne he, ih hl.2]
      constructor
      · exact .inr
      · intro h
        refine h.resolve_left ?_
        rintro rfl
        exact he rfl

theorem find_perm {l' : List (K × V)} (hl : (l.map Prod.fst).Nodup)
    (hperm : l.Perm l') : find k l = find k l' := by
  refine Option.ext fun v => ?_
  rw [find_eq_some hl, find_eq_some ((hperm.map _).nodup_iff.mp hl),
    hperm.mem_iff]

theorem since_split {pre post : List (K × V)} (hpre : ∀ e ∈ pre, e.1 ≠ k) :
    since k (pre ++ (k, v) :: post) = (pre.map Prod.fst).toFinset := by
  unfold since
  rw [List.takeWhile_append_of_pos fun e he => decide_eq_true (hpre e he),
    List.takeWhile_cons_of_neg (by simp), List.append_nil]

theorem touch_nodup (hl : (l.map Prod.fst).Nodup) :
    ((touch u l).map Prod.fst).Nodup := by
  unfold touch
  rw [List.map_cons, List.nodup_cons]
  constructor
  · intro hmem
    obtain ⟨e, he, heq⟩ := List.mem_map.mp hmem
    exact of_decide_eq_true (List.mem_filter.mp he).2 heq
  · exact hl.sublist (List.filter_sublist.map Prod.fst)

theorem recents_nodup : ((recents h).map Prod.fst).Nodup := by
  induction h with
  | nil => exact List.nodup_nil
  | cons u h ih => exact touch_nodup ih

theorem recents_split (hlast : find k h = some v) :
    ∃ pre post, recents h = pre ++ (k, v) :: post ∧
      pre.length = (since k h).card ∧ ∀ e ∈ pre, e.1 ≠ k := by
  suffices hsplit : ∃ pre post, recents h = pre ++ (k, v) :: post ∧
      (pre.map Prod.fst).toFinset = since k h ∧ ∀ e ∈ pre, e.1 ≠ k by
    obtain ⟨pre, post, heq, hset, hpre⟩ := hsplit
    refine ⟨pre, post, heq, ?_, hpre⟩
    have hnodup : ((recents h).map Prod.fst).Nodup := recents_nodup
    rw [heq, List.map_append] at hnodup
    rw [← hset, List.toFinset_card_of_nodup (List.Nodup.of_append_left hnodup),
      List.length_map]
  induction h with
  | nil => cases hlast
  | cons u h ih =>
    by_cases hu : u.1 = k
    · rw [find_cons_self hu] at hlast
      obtain rfl := Option.some.inj hlast
      subst hu
      refine ⟨[], _, rfl, ?_, nofun⟩
      unfold since
      rw [List.takeWhile_cons_of_neg (by simp)]
    · rw [find_cons_of_ne hu] at hlast
      obtain ⟨pre, post, heq, hset, hpre⟩ := ih hlast
      refine ⟨touch u pre, post.filter fun e => e.1 ≠ u.1, ?_, ?_, ?_⟩
      · show touch u (recents h) = _
        unfold touch
        rw [heq, List.filter_append, List.filter_cons_of_pos (by
          simpa using Ne.symm hu)]
        rfl
      · ext k'
        have hcons : since k (u :: h) = insert u.1 (since k h) := by
          unfold since
          rw [List.takeWhile_cons_of_pos (by simpa using hu), List.map_cons,
            List.toFinset_cons]
        rw [hcons, Finset.mem_insert, ← hset]
        unfold touch
        rw [List.mem_toFinset, List.map_cons, List.mem_cons, List.mem_toFinset,
          List.mem_map, List.mem_map]
        constructor
        · intro hk'
          refine hk'.imp_right fun ⟨e, he, hek⟩ => ⟨e, ?_, hek⟩
          exact (List.mem_filter.mp he).1
        · intro hk'
          refine or_iff_not_imp_left.mpr fun hne => ?_
          obtain ⟨e, he, hek⟩ := hk'.resolve_left hne
          refine ⟨e, List.mem_filter.mpr ⟨he, ?_⟩, hek⟩
          rw [hek]
          exact decide_eq_true hne
      · intro e he
        rcases List.mem_cons.mp he with rfl | he
        · exact hu
        · exact hpre e (List.mem_filter.mp he).1

theorem find_touch_of_ne (hu : u.1 ≠ k) : find k (touch u l) = find k l := by
  unfold touch
  rw [find_cons_of_ne hu]
  induction l with
  | nil => rfl
  | cons e l ih =>
    by_cases he : e.1 = u.1
    · rw [List.filter_cons_of_neg (by simpa using he), ih,
        find_cons_of_ne (by rw [he]; exact hu)]
    · rw [List.filter_cons_of_pos (by simpa using he)]
      by_cases hk : e.1 = k
      · rw [find_cons_self hk, find_cons_self hk]
      · rw [find_cons_of_ne hk, find_cons_of_ne hk, ih]

theorem find_recents : find k (recents h) = find k h := by
  induction h with
  | nil => rfl
  | cons u h ih =>
    by_cases hu : u.1 = k
    · rw [find_cons_self hu]
      exact find_cons_self hu
    · rw [find_cons_of_ne hu, ← ih]
      exact find_touch_of_ne hu

theorem find_take_recents :
    find k ((recents h).take n)
      = if (since k h).card < n then find k h else none := by
  cases hlast : find k h with
  | none =>
    rw [ite_self, find_eq_none]
    intro e he
    rw [← find_recents, find_eq_none] at hlast
    exact hlast e (List.mem_of_mem_take he)
  | some v =>
    obtain ⟨pre, post, heq, hlength, hpre⟩ := recents_split hlast
    rw [heq]
    split
    · next hlt =>
      obtain ⟨m, hm⟩ : ∃ m, n - pre.length = m + 1 :=
        ⟨n - pre.length - 1, by omega⟩
      rw [List.take_append, hm, List.take_succ_cons, List.take_of_length_le
        (by omega)]
      exact find_split hpre
    · next hge =>
      rw [List.take_append_of_le_length (by omega), find_eq_none]
      exact fun e he => hpre e (List.mem_of_mem_take he)

theorem take_touch_of_mem (hl : (l.map Prod.fst).Nodup)
    (hmem : u.1 ∈ (l.take n).map Prod.fst) :
    (touch u l).take n = touch u (l.take n) := by
  cases n with
  | zero => cases hmem
  | succ n =>
    unfold touch
    rw [List.take_succ_cons]
    congr 1
    obtain ⟨e, he, hek⟩ := List.mem_map.mp hmem
    obtain ⟨pre, post, hsplit⟩ := List.append_of_mem he
    have hlength : pre.length ≤ n := by
      have hle := List.length_take_le (n + 1) l
      rw [hsplit, List.length_append, List.length_cons] at hle
      omega
    have hwhole : l = pre ++ e :: (post ++ l.drop (n + 1)) := by
      rw [← List.cons_append, ← List.append_assoc, ← hsplit,
        List.take_append_drop]
    have hkeep : ∀ l' : List (K × V), (∀ e' ∈ l', e'.1 ≠ u.1) →
        l'.filter (fun e' => e'.1 ≠ u.1) = l' := by
      intro l' hl'
      rw [List.filter_eq_self]
      exact fun e' he' => decide_eq_true (hl' e' he')
    rw [hwhole, List.map_append, List.map_cons] at hl
    obtain ⟨-, hnodup, hapart⟩ := List.nodup_append.mp hl
    have hpre : ∀ e' ∈ pre, e'.1 ≠ u.1 := by
      intro e' he' heq
      exact hapart e'.1 (List.mem_map_of_mem he') e.1 List.mem_cons_self
        (heq.trans hek.symm)
    have hpost : ∀ e' ∈ post ++ l.drop (n + 1), e'.1 ≠ u.1 := by
      intro e' he' heq
      refine (List.nodup_cons.mp hnodup).1 ?_
      rw [hek, ← heq]
      exact List.mem_map_of_mem he'
    have hfilter : l.filter (fun e' => e'.1 ≠ u.1)
        = pre ++ (post ++ l.drop (n + 1)) := by
      conv_lhs => rw [hwhole]
      rw [List.filter_append, List.filter_cons_of_neg (by simpa using hek),
        hkeep _ hpre, hkeep _ hpost]
    have hfront : (l.take (n + 1)).filter (fun e' => e'.1 ≠ u.1) = pre ++ post := by
      rw [hsplit, List.filter_append, List.filter_cons_of_neg (by simpa using hek),
        hkeep _ hpre, hkeep _ fun e' he' => hpost e' (List.mem_append_left _ he')]
    rw [hfilter, hfront, ← List.append_assoc]
    by_cases hshort : l.length ≤ n + 1
    · rw [List.drop_eq_nil_of_le hshort, List.append_nil]
      refine List.take_of_length_le ?_
      have htake := congrArg List.length hsplit
      rw [List.length_take, List.length_append, List.length_cons] at htake
      rw [List.length_append]
      omega
    · have htake := congrArg List.length hsplit
      rw [List.length_take, List.length_append, List.length_cons] at htake
      rw [List.take_append_of_le_length (by rw [List.length_append]; omega)]
      refine List.take_of_length_le ?_
      rw [List.length_append]
      omega

theorem take_touch_of_not_mem (hmem : u.1 ∉ (l.take n).map Prod.fst) :
    (touch u l).take n = (u :: l.take n).take n := by
  cases n with
  | zero => rfl
  | succ n =>
    unfold touch
    rw [List.take_succ_cons, List.take_succ_cons]
    congr 1
    have hfront : (l.take (n + 1)).filter (fun e => e.1 ≠ u.1) = l.take (n + 1) := by
      rw [List.filter_eq_self]
      intro e he
      refine decide_eq_true fun heq => hmem ?_
      rw [← heq]
      exact List.mem_map_of_mem he
    conv_lhs => rw [← List.take_append_drop (n + 1) l]
    rw [List.filter_append, hfront, List.take_take]
    by_cases hshort : l.length ≤ n
    · rw [List.drop_eq_nil_of_le (by omega), List.filter_nil, List.append_nil,
        List.take_take]
    · rw [List.take_append_of_le_length (by rw [List.length_take]; omega),
        List.take_take]

end Recency
