/-
Segments that tile an arena.

An arena is cut into segments; each has a header of `header` bytes before
its payload, and is free or in use. A free segment is placed by cutting off
what is not needed (`place`), and a segment that is given back joins the
free neighbours on both sides (`release`).
-/
import Mathlib

namespace Arena

/-- The bytes of the payload, and whether nobody uses it. -/
structure Seg where
  size : Nat
  free : Bool
  deriving DecidableEq, Repr

/-- What is where: the beginning and the bytes of each payload in use, in
segments that begin at an address. -/
def payloads (header : Nat) : Nat → List Seg → List (Nat × Nat)
  | _, [] => []
  | a, s :: segs =>
    if s.free then payloads header (a + header + s.size) segs
    else (a + header, s.size) :: payloads header (a + header + s.size) segs

/-- The bytes of segments, with their headers. -/
def extent (header : Nat) (segs : List Seg) : Nat :=
  (segs.map fun s => header + s.size).sum

/-- The bytes of the payloads in use. -/
def used (segs : List Seg) : Nat :=
  ((segs.filter fun s => !s.free).map Seg.size).sum

/-- No two neighbours are both free. -/
def Coalesced (segs : List Seg) : Prop :=
  segs.IsChain fun s t => ¬ (s.free = true ∧ t.free = true)

/-- A free segment is taken; what is over stays free, if it is enough for a
header and `tail` bytes. -/
def place (header tail need : Nat) (s : Seg) : List Seg :=
  if s.size < need + (header + tail) then [⟨s.size, false⟩]
  else [⟨need, false⟩, ⟨s.size - need - header, true⟩]

/-- A segment takes in the one behind it, if that is free. -/
def absorb (header : Nat) (s : Seg) : List Seg → List Seg
  | [] => [s]
  | t :: segs =>
    if t.free then ⟨s.size + header + t.size, s.free⟩ :: segs
    else s :: t :: segs

/-- The segments behind a free one are given to the last one before it, if
that is free as well. -/
def absorbLast (header : Nat) : List Seg → List Seg → List Seg
  | [], segs => segs
  | [s], segs => if s.free then absorb header s segs else s :: segs
  | s :: t :: before, segs => s :: absorbLast header (t :: before) segs

/-- A segment is given back. -/
def release (header : Nat) (before : List Seg) (s : Seg) (after : List Seg) :
    List Seg :=
  absorbLast header before (absorb header { s with free := true } after)

section laws

variable {header tail need a : Nat} {s t : Seg} {segs before after : List Seg}

-- ==== sizes

@[simp]
theorem extent_nil : extent header [] = 0 := rfl

@[simp]
theorem extent_cons :
    extent header (s :: segs) = header + s.size + extent header segs := rfl

@[simp]
theorem extent_append :
    extent header (before ++ after)
      = extent header before + extent header after := by
  unfold extent
  rw [List.map_append, List.sum_append]

theorem length_le_extent (hheader : 0 < header) :
    segs.length ≤ extent header segs := by
  induction segs with
  | nil => exact Nat.zero_le _
  | cons s segs ih =>
    rw [List.length_cons, extent_cons]
    omega

@[simp]
theorem used_nil : used [] = 0 := rfl

theorem used_cons :
    used (s :: segs) = (if s.free then 0 else s.size) + used segs := by
  unfold used
  cases hfree : s.free with
  | true => simp [hfree]
  | false => simp [hfree]

@[simp]
theorem used_append : used (before ++ after) = used before + used after := by
  unfold used
  rw [List.filter_append, List.map_append, List.sum_append]

theorem used_le_extent : used segs ≤ extent header segs := by
  induction segs with
  | nil => exact Nat.le_refl _
  | cons s segs ih =>
    rw [used_cons, extent_cons]
    split
    · omega
    · omega

-- ==== placing

theorem place_eq :
    ∃ got rest, place header tail need s = ⟨got, false⟩ :: rest ∧
      (need ≤ s.size → need ≤ got) ∧ (rest = [] ∨ ∃ n, rest = [⟨n, true⟩]) := by
  unfold place
  split
  · exact ⟨s.size, [], rfl, fun h => h, .inl rfl⟩
  · exact ⟨need, _, rfl, fun _ => Nat.le_refl _, .inr ⟨_, rfl⟩⟩

theorem Coalesced.place (hfree : s.free = true)
    (h : Coalesced (before ++ s :: after)) :
    Coalesced (before ++ (place header tail need s ++ after)) := by
  obtain ⟨got, rest, hplace, -, hrest⟩ := @place_eq header tail need s
  rw [hplace]
  unfold Coalesced at h ⊢
  rw [List.isChain_append] at h ⊢
  obtain ⟨hbefore, hafter, hseam⟩ := h
  refine ⟨hbefore, ?_, ?_⟩
  · rcases hrest with rfl | ⟨n, rfl⟩
    · rw [List.cons_append, List.nil_append]
      refine List.isChain_cons.mpr ⟨?_, (List.isChain_cons.mp hafter).2⟩
      rintro t - ⟨hnot, -⟩
      cases hnot
    · rw [List.cons_append, List.cons_append, List.nil_append]
      refine List.isChain_cons.mpr ⟨?_, List.isChain_cons.mpr ⟨?_, ?_⟩⟩
      · rintro t - ⟨hnot, -⟩
        cases hnot
      · intro t ht hboth
        exact (List.isChain_cons.mp hafter).1 t ht ⟨hfree, hboth.2⟩
      · exact (List.isChain_cons.mp hafter).2
  · rintro t - u hu ⟨-, hnot⟩
    obtain rfl := Option.some.inj hu
    cases hnot

-- ==== giving back

theorem absorb_cons :
    absorb header s (t :: segs)
      = if t.free then ⟨s.size + header + t.size, s.free⟩ :: segs
        else s :: t :: segs := rfl

theorem absorbLast_single :
    absorbLast header [s] segs
      = if s.free then absorb header s segs else s :: segs := rfl

theorem absorbLast_cons :
    absorbLast header (s :: t :: before) segs
      = s :: absorbLast header (t :: before) segs := rfl

theorem absorb_eq :
    ∃ n rest, absorb header s segs = ⟨n, s.free⟩ :: rest := by
  cases segs with
  | nil => exact ⟨s.size, [], rfl⟩
  | cons t segs =>
    rw [absorb_cons]
    split
    · exact ⟨_, segs, rfl⟩
    · exact ⟨s.size, t :: segs, rfl⟩

theorem Coalesced.absorb (h : Coalesced segs) :
    Coalesced (absorb header s segs) := by
  cases segs with
  | nil => exact List.isChain_singleton s
  | cons t segs =>
    unfold Coalesced at h ⊢
    rw [absorb_cons]
    split
    · next hfree =>
      obtain ⟨hhead, hrest⟩ := List.isChain_cons.mp h
      refine List.isChain_cons.mpr ⟨?_, hrest⟩
      intro u hu hboth
      exact hhead u hu ⟨hfree, hboth.2⟩
    · next hused =>
      refine List.isChain_cons.mpr ⟨?_, h⟩
      intro u hu hboth
      obtain rfl := Option.some.inj hu
      exact hused hboth.2

theorem used_absorb (hfree : s.free = true) :
    used (absorb header s segs) = used segs := by
  cases segs with
  | nil =>
    show used [s] = used []
    rw [used_cons, if_pos hfree, Nat.zero_add]
  | cons t segs =>
    rw [absorb_cons]
    split
    · next ht =>
      rw [used_cons, used_cons, if_pos hfree, if_pos ht]
    · rw [used_cons, if_pos hfree, Nat.zero_add]

theorem absorbLast_eq :
    ∃ n rest, absorbLast header (t :: before) segs = ⟨n, t.free⟩ :: rest := by
  cases before with
  | nil =>
    rw [absorbLast_single]
    split
    · exact absorb_eq
    · exact ⟨t.size, segs, rfl⟩
  | cons u before => exact ⟨t.size, _, rfl⟩

theorem Coalesced.absorbLast (hbefore : Coalesced before)
    (h : Coalesced segs) : Coalesced (absorbLast header before segs) := by
  induction before, segs using absorbLast.induct with
  | case1 segs => exact h
  | case2 s segs hfree =>
    rw [absorbLast_single, if_pos hfree]
    exact h.absorb
  | case3 s segs hused =>
    rw [absorbLast_single, if_neg hused]
    refine List.isChain_cons.mpr ⟨?_, h⟩
    rintro t - ⟨hfree, -⟩
    exact hused hfree
  | case4 s t before segs ih =>
    obtain ⟨hhead, hrest⟩ := List.isChain_cons.mp hbefore
    obtain ⟨n, rest, heq⟩ := @absorbLast_eq header t segs before
    rw [absorbLast_cons]
    refine List.isChain_cons.mpr ⟨?_, ih hrest h⟩
    rw [heq]
    intro u hu hboth
    obtain rfl := Option.some.inj hu
    exact hhead t rfl hboth

theorem used_absorbLast :
    used (absorbLast header before segs) = used before + used segs := by
  induction before, segs using absorbLast.induct with
  | case1 segs => simp [absorbLast]
  | case2 s segs hfree =>
    rw [absorbLast_single, if_pos hfree, used_absorb hfree, used_cons,
      if_pos hfree, used_nil, Nat.zero_add]
  | case3 s segs hused =>
    rw [absorbLast_single, if_neg hused, used_cons, used_cons, used_nil,
      Nat.add_zero]
  | case4 s t before segs ih =>
    rw [absorbLast_cons, used_cons, ih, used_cons (s := s), Nat.add_assoc]

theorem Coalesced.release (h : Coalesced (before ++ s :: after)) :
    Coalesced (release header before s after) := by
  obtain ⟨hbefore, hafter, -⟩ := List.isChain_append.mp h
  exact Coalesced.absorbLast hbefore
    (Coalesced.absorb (List.isChain_cons.mp hafter).2)

theorem used_release :
    used (release header before s after) = used before + used after := by
  unfold release
  rw [used_absorbLast, used_absorb rfl]

-- ==== payloads

theorem payloads_cons :
    payloads header a (s :: segs)
      = if s.free then payloads header (a + header + s.size) segs
        else (a + header, s.size) :: payloads header (a + header + s.size) segs :=
  rfl

theorem payloads_append :
    payloads header a (before ++ after)
      = payloads header a before
        ++ payloads header (a + extent header before) after := by
  induction before generalizing a with
  | nil => simp [payloads]
  | cons s before ih =>
    have hstart : a + header + s.size + extent header before
        = a + extent header (s :: before) := by
      rw [extent_cons]
      omega
    rw [List.cons_append, payloads_cons, payloads_cons, ih, hstart]
    split
    · rfl
    · rfl

theorem payloads_place (hneed : need ≤ s.size) :
    ∃ got, need ≤ got ∧
      payloads header a (place header tail need s ++ after)
        = (a + header, got) :: payloads header (a + header + s.size) after := by
  unfold place
  split
  · exact ⟨s.size, hneed, rfl⟩
  · refine ⟨need, Nat.le_refl _, ?_⟩
    have hend : a + header + need + header + (s.size - need - header)
        = a + header + s.size := by omega
    simp only [List.cons_append, List.nil_append, payloads, hend,
      Bool.false_eq_true, if_false, if_true]

theorem payloads_absorb (hfree : s.free = true) :
    payloads header a (absorb header s segs)
      = payloads header (a + header + s.size) segs := by
  cases segs with
  | nil => simp [absorb, payloads, hfree]
  | cons t segs =>
    rw [absorb_cons]
    split
    · next ht =>
      have hend : a + header + (s.size + header + t.size)
          = a + header + s.size + header + t.size := by omega
      simp only [payloads, hfree, ht, hend, if_true]
    · simp only [payloads, hfree, if_true]

theorem payloads_absorbLast :
    payloads header a (absorbLast header before segs)
      = payloads header a before
        ++ payloads header (a + extent header before) segs := by
  induction before, segs using absorbLast.induct generalizing a with
  | case1 segs => simp [absorbLast, payloads]
  | case2 s segs hfree =>
    have hstart : a + extent header [s] = a + header + s.size := by
      rw [extent_cons, extent_nil]
      omega
    rw [absorbLast_single, if_pos hfree, payloads_absorb hfree, hstart]
    simp [payloads, hfree]
  | case3 s segs hused =>
    have hstart : a + extent header [s] = a + header + s.size := by
      rw [extent_cons, extent_nil]
      omega
    rw [absorbLast_single, if_neg hused, hstart]
    simp [payloads, hused]
  | case4 s t before segs ih =>
    have hstart : a + header + s.size + extent header (t :: before)
        = a + extent header (s :: t :: before) := by
      rw [extent_cons (s := s)]
      omega
    rw [absorbLast_cons, payloads_cons, payloads_cons (s := s), ih, hstart]
    split
    · rfl
    · rfl

theorem payloads_release :
    payloads header a (release header before s after)
      = payloads header a before
        ++ payloads header (a + extent header before + header + s.size)
          after := by
  unfold release
  rw [payloads_absorbLast, payloads_absorb rfl]

theorem mem_payloads {p n : Nat} (h : (p, n) ∈ payloads header a segs) :
    ∃ before s after, segs = before ++ s :: after ∧ s.free = false ∧
      p = a + extent header before + header ∧ n = s.size := by
  induction segs generalizing a with
  | nil => cases h
  | cons s segs ih =>
    rw [payloads_cons] at h
    have hlater : (p, n) ∈ payloads header (a + header + s.size) segs →
        ∃ before t after, s :: segs = before ++ t :: after ∧ t.free = false ∧
          p = a + extent header before + header ∧ n = t.size := by
      intro hmem
      obtain ⟨before, t, after, rfl, hused, hp, hn⟩ := ih hmem
      refine ⟨s :: before, t, after, rfl, hused, ?_, hn⟩
      rw [hp, extent_cons]
      omega
    split at h
    · exact hlater h
    · next hused =>
      rcases List.mem_cons.mp h with heq | hmem
      · obtain ⟨rfl, rfl⟩ := Prod.mk.inj heq
        exact ⟨[], s, segs, rfl, eq_false_of_ne_true hused, rfl, rfl⟩
      · exact hlater hmem

theorem payloads_bound {p : Nat × Nat} (h : p ∈ payloads header a segs) :
    a + header ≤ p.1 ∧ p.1 + p.2 ≤ a + extent header segs := by
  obtain ⟨before, s, after, rfl, -, hp, hn⟩ := mem_payloads (p := p.1)
    (n := p.2) h
  rw [hp, hn, extent_append, extent_cons]
  omega

theorem payloads_apart :
    (payloads header a segs).Pairwise fun p q => p.1 + p.2 + header ≤ q.1 := by
  induction segs generalizing a with
  | nil => exact List.Pairwise.nil
  | cons s segs ih =>
    rw [payloads_cons]
    split
    · exact ih
    · refine List.pairwise_cons.mpr ⟨?_, ih⟩
      intro q hq
      have hbound := (payloads_bound hq).1
      show a + header + s.size + header ≤ q.1
      exact hbound

theorem single_of_free (h : Coalesced segs) (hne : segs ≠ [])
    (hnone : payloads header a segs = []) : ∃ n, segs = [⟨n, true⟩] := by
  cases segs with
  | nil => exact absurd rfl hne
  | cons s segs =>
    rw [payloads_cons] at hnone
    split at hnone
    · next hfree =>
      have hs : s = ⟨s.size, true⟩ := by rw [← hfree]
      cases segs with
      | nil => exact ⟨s.size, by rw [hs]⟩
      | cons t segs =>
        exfalso
        rw [payloads_cons] at hnone
        split at hnone
        · next ht => exact (List.isChain_cons.mp h).1 t rfl ⟨hfree, ht⟩
        · cases hnone
    · cases hnone

end laws

end Arena
