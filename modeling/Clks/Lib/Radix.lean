/-
Radix trees of tables in a store.

A table has an entry for each index, and an entry may lead to a table of
the next level (`next`) or be an end; which entries say anything is told by
`valid`. A store is good for walks when no table is used at two levels
(`Leveled`), and better when no table is reached by two paths (`Tree`).
-/
import Mathlib

namespace Radix

variable {ν ι ε : Type}

/-- An entry is written. -/
def put [DecidableEq ν] [DecidableEq ι] (t : ν) (i : ι) (e : ε) (mem : ν → ι → ε) : ν → ι → ε :=
  Function.update mem t (Function.update (mem t) i e)

/-- The table at the end of a path, from a table of a level on. -/
def reach (next : Nat → ε → Option ν) (mem : ν → ι → ε) :
    Nat → ν → List ι → Option ν
  | _, t, [] => some t
  | l, t, i :: p =>
    match next l (mem t i) with
    | none => none
    | some u => reach next mem (l + 1) u p

/-- The entry that a walk ends at, with its level, if it says anything. -/
def lookup (next : Nat → ε → Option ν) (valid : ε → Bool) (mem : ν → ι → ε) :
    Nat → ν → List ι → Option (Nat × ε)
  | _, _, [] => none
  | l, t, [i] => if valid (mem t i) then some (l, mem t i) else none
  | l, t, i :: j :: p =>
    match next l (mem t i) with
    | none => if valid (mem t i) then some (l, mem t i) else none
    | some u => lookup next valid mem (l + 1) u (j :: p)

/-- A table is reached from another by a path of at most this length. -/
def Below (next : Nat → ε → Option ν) (mem : ν → ι → ε) (l : Nat) (t : ν)
    (depth : Nat) (u : ν) : Prop :=
  ∃ s : List ι, s.length ≤ depth ∧ reach next mem l t s = some u

/-- The tables at the end of paths that are owned are at the end of no other
path. -/
def Unshared (next : Nat → ε → Option ν) (mem : ν → ι → ε) (root : ν)
    (depth : Nat) (own : List ι → Prop) : Prop :=
  ∀ p q u, own p → p.length ≤ depth → q.length ≤ depth →
    reach next mem 0 root p = some u → reach next mem 0 root q = some u → p = q

/-- Different paths lead to different tables. -/
def Tree (next : Nat → ε → Option ν) (mem : ν → ι → ε) (root : ν)
    (depth : Nat) : Prop :=
  Unshared next mem root depth fun _ => True

/-- A table is used at one level only. -/
def Leveled (next : Nat → ε → Option ν) (mem : ν → ι → ε) (root : ν)
    (depth : Nat) : Prop :=
  ∀ p q u, p.length ≤ depth → q.length ≤ depth →
    reach next mem 0 root p = some u → reach next mem 0 root q = some u →
    p.length = q.length

/-- A fresh table is cleared, and an entry that leads to it is written. -/
def attach [DecidableEq ν] [DecidableEq ι] (t : ν) (i : ι) (u : ν) (e blank : ε)
    (mem : ν → ι → ε) : ν → ι → ε :=
  put t i e (Function.update mem u fun _ => blank)

section laws

variable {next : Nat → ε → Option ν} {valid : ε → Bool} {mem : ν → ι → ε}
  {root t u : ν} {depth l : Nat} {i j : ι} {p q rest : List ι} {e blank : ε}

-- ==== paths

theorem reach_cons :
    reach next mem l t (i :: p)
      = (next l (mem t i)).bind fun u => reach next mem (l + 1) u p := by
  conv_lhs => unfold reach
  cases next l (mem t i) <;> rfl

theorem reach_append :
    reach next mem l t (p ++ q)
      = (reach next mem l t p).bind fun u =>
        reach next mem (l + p.length) u q := by
  induction p generalizing l t with
  | nil => rfl
  | cons i p ih =>
    rw [List.cons_append, reach_cons, reach_cons]
    cases next l (mem t i) with
    | none => rfl
    | some u =>
      show reach next mem (l + 1) u (p ++ q) = _
      have hlevel : l + (i :: p).length = l + 1 + p.length := by
        rw [List.length_cons]
        omega
      rw [ih, hlevel]
      rfl

theorem reach_concat (h : reach next mem l t p = some u) :
    reach next mem l t (p ++ [i]) = next (l + p.length) (mem u i) := by
  rw [reach_append, h, Option.bind_some, reach_cons]
  cases next (l + p.length) (mem u i) <;> rfl

theorem reach_prefix (h : reach next mem l t (p ++ q) = some u) :
    ∃ v, reach next mem l t p = some v := by
  rw [reach_append] at h
  obtain ⟨v, hv, -⟩ := Option.bind_eq_some_iff.mp h
  exact ⟨v, hv⟩

theorem reach_congr {mem' : ν → ι → ε}
    (h : ∀ q u j, q.length < depth → reach next mem l t q = some u →
      mem' u j = mem u j) (hq : q.length ≤ depth) :
    reach next mem' l t q = reach next mem l t q := by
  induction q using List.reverseRecOn with
  | nil => rfl
  | append_singleton q j ih =>
    rw [List.length_append, List.length_singleton] at hq
    rw [reach_append, reach_append, ih (by omega)]
    cases hreach : reach next mem l t q with
    | none => rfl
    | some v =>
      simp only [Option.bind_some, reach_cons, h q v j (by omega) hreach]
      cases next (l + q.length) (mem v j) <;> rfl

theorem lookup_cons :
    lookup next valid mem l t (i :: j :: p)
      = match next l (mem t i) with
        | none => if valid (mem t i) then some (l, mem t i) else none
        | some u => lookup next valid mem (l + 1) u (j :: p) := rfl

theorem lookup_append (h : reach next mem l t p = some u) :
    lookup next valid mem l t (p ++ i :: rest)
      = lookup next valid mem (l + p.length) u (i :: rest) := by
  induction p generalizing l t with
  | nil =>
    obtain rfl := Option.some.inj h
    rfl
  | cons j p ih =>
    rw [reach_cons] at h
    obtain ⟨v, hv, hreach⟩ := Option.bind_eq_some_iff.mp h
    have hstep : lookup next valid mem l t (j :: (p ++ i :: rest))
        = lookup next valid mem (l + 1) v (p ++ i :: rest) := by
      obtain ⟨k, tail, heq⟩ : ∃ k tail, p ++ i :: rest = k :: tail := by
        cases p with
        | nil => exact ⟨i, rest, rfl⟩
        | cons k p => exact ⟨k, p ++ i :: rest, rfl⟩
      rw [heq, lookup_cons, hv]
    have hlevel : l + (j :: p).length = l + 1 + p.length := by
      rw [List.length_cons]
      omega
    rw [List.cons_append, hstep, ih hreach, hlevel]

theorem reach_of_lookup (h : lookup next valid mem l t (p ++ [i])
    = some (l + p.length, e)) :
    ∃ u, reach next mem l t p = some u ∧ mem u i = e ∧ valid e = true := by
  induction p generalizing l t with
  | nil =>
    unfold lookup at h
    obtain ⟨hvalid, h⟩ := Option.ite_none_right_eq_some.mp h
    obtain ⟨-, rfl⟩ := Prod.mk.inj (Option.some.inj h)
    exact ⟨t, rfl, rfl, hvalid⟩
  | cons j p ih =>
    obtain ⟨k, tail, heq⟩ : ∃ k tail, p ++ [i] = k :: tail := by
      cases p with
      | nil => exact ⟨i, [], rfl⟩
      | cons k p => exact ⟨k, p ++ [i], rfl⟩
    rw [List.cons_append, heq, lookup_cons] at h
    rw [reach_cons]
    cases hnext : next l (mem t j) with
    | none =>
      rw [hnext] at h
      obtain ⟨-, h⟩ := Option.ite_none_right_eq_some.mp h
      have hlevel := (Prod.mk.inj (Option.some.inj h)).1
      rw [List.length_cons] at hlevel
      omega
    | some u =>
      rw [hnext, ← heq] at h
      rw [List.length_cons, show l + (p.length + 1) = l + 1 + p.length by omega] at h
      exact ih h

theorem lookup_congr {mem' : ν → ι → ε}
    (h : ∀ q u j, (∃ tail, p ++ rest = q ++ j :: tail) →
      reach next mem 0 root q = some u → mem' u j = mem u j)
    (hp : reach next mem 0 root p = some t) :
    lookup next valid mem' p.length t rest
      = lookup next valid mem p.length t rest := by
  induction rest generalizing p t with
  | nil => rfl
  | cons i rest ih =>
    have hentry := h p t i ⟨rest, rfl⟩ hp
    cases rest with
    | nil =>
      unfold lookup
      rw [hentry]
    | cons j rest =>
      rw [lookup_cons, lookup_cons, hentry]
      cases hnext : next p.length (mem t i) with
      | none => rfl
      | some u =>
        have hreach : reach next mem 0 root (p ++ [i]) = some u := by
          rw [reach_concat hp, Nat.zero_add]
          exact hnext
        have hrest := ih (p := p ++ [i]) (t := u) (by
          rw [List.append_assoc]
          exact h) hreach
        rw [List.length_append, List.length_singleton] at hrest
        exact hrest

theorem Tree.eq (htree : Tree next mem root depth) (hp : p.length ≤ depth)
    (hq : q.length ≤ depth) (hreach : reach next mem 0 root p = some t)
    (hreach' : reach next mem 0 root q = some t) : p = q :=
  htree p q t trivial hp hq hreach hreach'

-- ==== writing

variable [DecidableEq ν] [DecidableEq ι]

@[simp]
theorem put_self : put t i e mem t i = e := by
  unfold put
  rw [Function.update_self, Function.update_self]

theorem put_other (h : ¬ (u = t ∧ j = i)) : put t i e mem u j = mem u j := by
  unfold put
  by_cases hu : u = t
  · subst hu
    rw [Function.update_self, Function.update_of_ne fun hj => h ⟨rfl, hj⟩]
  · rw [Function.update_of_ne hu]

theorem lookup_put (htree : Tree next mem root depth)
    (hp : reach next mem 0 root p = some t) (hlength : p.length ≤ depth)
    (hq : q.length ≤ depth + 1) (hnot : ¬ p ++ [i] <+: q) :
    lookup next valid (put t i e mem) 0 root q
      = lookup next valid mem 0 root q := by
  refine lookup_congr (p := []) (fun q' u j hq' hreach => ?_) rfl
  obtain ⟨tail, heq⟩ := hq'
  rw [List.nil_append] at heq
  subst heq
  apply put_other
  rintro ⟨rfl, rfl⟩
  rw [List.length_append, List.length_cons] at hq
  obtain rfl := htree.eq hlength (by omega) hp hreach
  exact hnot ⟨tail, by rw [List.append_assoc]; rfl⟩

-- ==== the last level

section last

variable (hlevel : Leveled next mem root depth)
  (hp : reach next mem 0 root p = some t) (hlength : p.length = depth)

include hlevel hp hlength

theorem reach_put_last (hq : q.length ≤ depth) :
    reach next (put t i e mem) 0 root q = reach next mem 0 root q := by
  refine reach_congr (fun q' u j hq' hreach => ?_) hq
  apply put_other
  rintro ⟨rfl, -⟩
  have hsame := hlevel p q' u (by omega) (by omega) hp hreach
  omega

theorem Leveled.put : Leveled next (put t i e mem) root depth := by
  intro p' q' u hp' hq' hreach hreach'
  rw [reach_put_last hlevel hp hlength hp'] at hreach
  rw [reach_put_last hlevel hp hlength hq'] at hreach'
  exact hlevel p' q' u hp' hq' hreach hreach'

theorem Unshared.put {own : List ι → Prop}
    (hown : Unshared next mem root depth own) :
    Unshared next (Radix.put t i e mem) root depth own := by
  intro p' q' u hmine hp' hq' hreach hreach'
  rw [reach_put_last hlevel hp hlength hp'] at hreach
  rw [reach_put_last hlevel hp hlength hq'] at hreach'
  exact hown p' q' u hmine hp' hq' hreach hreach'

theorem lookup_put_self :
    lookup next valid (Radix.put t i e mem) 0 root (p ++ [i])
      = if valid e then some (p.length, e) else none := by
  have hreach : reach next (Radix.put t i e mem) 0 root p = some t :=
    (reach_put_last hlevel hp hlength (by omega)).trans hp
  rw [lookup_append hreach, Nat.zero_add]
  unfold lookup
  rw [put_self]

end last

-- ==== new tables

section attaching

variable (hfresh : ∀ q, q.length ≤ depth → reach next mem 0 root q ≠ some u)
  (hp : reach next mem 0 root p = some t) (hlength : p.length < depth)
  (hold : valid (mem t i) = false) (hblank : valid blank = false)
  (hlink : ∀ l, next l e = some u)
  (hnext : ∀ l e v, next l e = some v → valid e = true)

omit [DecidableEq ν] [DecidableEq ι] in
include hnext in
theorem next_eq_none (h : valid e = false) : next l e = none := by
  cases hc : next l e with
  | none => rfl
  | some v =>
    rw [hnext l e v hc] at h
    cases h

omit [DecidableEq ν] [DecidableEq ι] in
include hfresh hp hlength in
theorem fresh_ne : u ≠ t := by
  rintro rfl
  exact hfresh p (by omega) hp

theorem attach_apply (v : ν) (j : ι) (hne : u ≠ t) :
    attach t i u e blank mem v j
      = if v = u then blank else if v = t ∧ j = i then e else mem v j := by
  unfold attach
  by_cases hu : v = u
  · subst hu
    rw [if_pos rfl, put_other fun h => hne h.1, Function.update_self]
  · rw [if_neg hu]
    by_cases hti : v = t ∧ j = i
    · obtain ⟨rfl, rfl⟩ := hti
      rw [if_pos ⟨rfl, rfl⟩, put_self]
    · rw [if_neg hti, put_other hti, Function.update_of_ne hu]

include hfresh hp hlength hold hblank hlink hnext

theorem reach_attach (v : ν) (hq : q.length ≤ depth) :
    reach next (attach t i u e blank mem) 0 root q = some v ↔
      reach next mem 0 root q = some v ∨
        v = u ∧ ∃ p', q = p' ++ [i] ∧ reach next mem 0 root p' = some t := by
  have hne := fresh_ne hfresh hp hlength
  induction q using List.reverseRecOn generalizing v with
  | nil =>
    refine ⟨fun h => Or.inl h, ?_⟩
    rintro (h | ⟨-, p', hnil, -⟩)
    · exact h
    · simp at hnil
  | append_singleton q j ih =>
    rw [List.length_append, List.length_singleton] at hq
    have step : ∀ (mem : ν → ι → ε) (v : ν),
        reach next mem 0 root (q ++ [j]) = some v ↔
          ∃ w, reach next mem 0 root q = some w ∧
            next q.length (mem w j) = some v := by
      intro mem v
      rw [reach_append, Option.bind_eq_some_iff]
      refine exists_congr fun w => and_congr_right fun _ => ?_
      rw [reach_cons, Nat.zero_add, Option.bind_eq_some_iff]
      exact ⟨fun ⟨x, hx, heq⟩ => hx.trans heq, fun h => ⟨v, h, rfl⟩⟩
    rw [step, step]
    constructor
    · rintro ⟨w, hw, hv⟩
      rw [attach_apply w j hne] at hv
      rcases (ih w (by omega)).mp hw with hold' | ⟨rfl, -⟩
      · have hwu : w ≠ u := by
          rintro rfl
          exact hfresh q (by omega) hold'
        rw [if_neg hwu] at hv
        split at hv
        · next h =>
          obtain ⟨rfl, rfl⟩ := h
          rw [hlink] at hv
          exact Or.inr ⟨(Option.some.inj hv).symm, q, rfl, hold'⟩
        · exact Or.inl ⟨w, hold', hv⟩
      · rw [if_pos rfl, next_eq_none hnext hblank] at hv
        cases hv
    · rintro (⟨w, hw, hv⟩ | ⟨rfl, p', heq, hp'⟩)
      · have hwu : w ≠ u := by
          rintro rfl
          exact hfresh q (by omega) hw
        refine ⟨w, (ih w (by omega)).mpr (Or.inl hw), ?_⟩
        rw [attach_apply w j hne, if_neg hwu, if_neg]
        · exact hv
        · rintro ⟨rfl, rfl⟩
          rw [next_eq_none hnext hold] at hv
          cases hv
      · obtain ⟨rfl, hj⟩ := List.append_inj' heq rfl
        obtain rfl := List.singleton_inj.mp hj
        refine ⟨t, (ih t (by omega)).mpr (Or.inl hp'), ?_⟩
        rw [attach_apply t j hne, if_neg hne.symm, if_pos ⟨rfl, rfl⟩, hlink]

theorem Leveled.attach (hlevel : Leveled next mem root depth) :
    Leveled next (attach t i u e blank mem) root depth := by
  intro p' q' v hp' hq' hreach hreach'
  rw [reach_attach hfresh hp hlength hold hblank hlink hnext v hp'] at hreach
  rw [reach_attach hfresh hp hlength hold hblank hlink hnext v hq'] at hreach'
  rcases hreach with hreach | ⟨rfl, p1, rfl, hp1⟩
  · rcases hreach' with hreach' | ⟨rfl, -⟩
    · exact hlevel p' q' v hp' hq' hreach hreach'
    · exact absurd hreach (hfresh p' hp')
  · rcases hreach' with hreach' | ⟨-, q1, rfl, hq1⟩
    · exact absurd hreach' (hfresh q' hq')
    · rw [List.length_append, List.length_singleton] at hp' hq' ⊢
      rw [List.length_append, List.length_singleton,
        hlevel p1 q1 t (by omega) (by omega) hp1 hq1]

theorem Unshared.attach {own : List ι → Prop}
    (hclosed : ∀ p i, own (p ++ [i]) → own p ∨ ∀ q, reach next mem 0 root q ≠ some t)
    (hown : Unshared next mem root depth own) :
    Unshared next (Radix.attach t i u e blank mem) root depth own := by
  intro p' q' v hmine hp' hq' hreach hreach'
  rw [reach_attach hfresh hp hlength hold hblank hlink hnext v hp'] at hreach
  rw [reach_attach hfresh hp hlength hold hblank hlink hnext v hq'] at hreach'
  rcases hreach with hreach | ⟨rfl, p1, rfl, hp1⟩
  · rcases hreach' with hreach' | ⟨rfl, -⟩
    · exact hown p' q' v hmine hp' hq' hreach hreach'
    · exact absurd hreach (hfresh p' hp')
  · rcases hreach' with hreach' | ⟨-, q1, rfl, hq1⟩
    · exact absurd hreach' (hfresh q' hq')
    · rw [List.length_append, List.length_singleton] at hp' hq'
      rcases hclosed p1 i hmine with hmine | hnone
      · rw [hown p1 q1 t hmine (by omega) (by omega) hp1 hq1]
      · exact absurd hp1 (hnone p1)

theorem lookup_attach (hlevel : Leveled next mem root depth)
    (hq : q.length = depth + 1) :
    lookup next valid (attach t i u e blank mem) 0 root q
      = lookup next valid mem 0 root q := by
  have hne := fresh_ne hfresh hp hlength
  have main : ∀ (rest q0 : List ι) (w : ν), q0.length + rest.length = depth + 1 →
      reach next mem 0 root q0 = some w →
      lookup next valid (attach t i u e blank mem) q0.length w rest
        = lookup next valid mem q0.length w rest := by
    intro rest
    induction rest with
    | nil =>
      intro q0 w _ _
      rfl
    | cons j rest ih =>
      intro q0 w hlen hw
      rw [List.length_cons] at hlen
      have hentry : attach t i u e blank mem w j = _ := attach_apply w j hne
      have hwu : w ≠ u := by
        rintro rfl
        exact hfresh q0 (by omega) hw
      rw [if_neg hwu] at hentry
      cases rest with
      | nil =>
        rw [List.length_nil] at hlen
        rw [if_neg] at hentry
        · unfold lookup
          rw [hentry]
        · rintro ⟨rfl, -⟩
          have hsame := hlevel p q0 w (by omega) (by omega) hp hw
          omega
      | cons k rest =>
        rw [lookup_cons, lookup_cons, hentry]
        by_cases hti : w = t ∧ j = i
        · obtain ⟨rfl, rfl⟩ := hti
          rw [if_pos ⟨rfl, rfl⟩, hlink, next_eq_none hnext hold, hold]
          have hzero : Radix.attach w j u e blank mem u k = blank := by
            rw [attach_apply u k hne, if_pos rfl]
          show lookup next valid (Radix.attach w j u e blank mem) (q0.length + 1)
            u (k :: rest) = none
          cases rest with
          | nil =>
            unfold lookup
            rw [hzero, hblank]
            rfl
          | cons m rest =>
            rw [lookup_cons, hzero, next_eq_none hnext hblank, hblank]
            rfl
        · rw [if_neg hti]
          cases hnx : next q0.length (mem w j) with
          | none => rfl
          | some x =>
            have hx : reach next mem 0 root (q0 ++ [j]) = some x := by
              rw [reach_concat hw, Nat.zero_add]
              exact hnx
            have hstep := ih (q0 ++ [j]) x (by
              rw [List.length_append, List.length_singleton]
              omega) hx
            rw [List.length_append, List.length_singleton] at hstep
            exact hstep
  exact main q [] root (by rw [List.length_nil]; omega) rfl

end attaching

end laws

end Radix
