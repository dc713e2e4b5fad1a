/-
The damage lists of the window manager (wm/rect_damage.inc, display.c).

A damage list says what of the screen is to be drawn again. A rectangle
that is added is clipped to the screen, and then swallows every listed one
that it overlaps or nearly touches; when there is no room it is joined to
the one that grows the least, and when the list says most of the screen it
is the whole screen from then on.
-/
import Clks.Lib.Cover

namespace Clks.Wm

-- ==== rectangles

/-- `CLKS_WM_MAX_DAMAGE_RECTS`. -/
abbrev maxDamageRects : Nat := 48

/-- `struct clks_wm_rect`. -/
structure Rect where
  l : Int32
  t : Int32
  r : Int32
  b : Int32
  deriving DecidableEq, Repr

/-- `clks_wm_width` and `clks_wm_height`. -/
structure Screen where
  width : UInt32
  height : UInt32
  deriving DecidableEq, Repr

namespace Rect

/-- `clks_wm_rect_clip_to_screen`. -/
def clipToScreen (s : Screen) (l t r b : Int32) : Option Rect :=
  if s.width = 0 ∨ s.height = 0 then none
  else
    let maxR := s.width.toInt32
    let maxB := s.height.toInt32
    let l := if l < 0 then 0 else l
    let t := if t < 0 then 0 else t
    let r := if maxR < r then maxR else r
    let b := if maxB < b then maxB else b
    if r ≤ l ∨ b ≤ t then none else some ⟨l, t, r, b⟩

/-- `clks_wm_rect_area`. -/
def area (a : Rect) : UInt64 :=
  if a.r ≤ a.l ∨ a.b ≤ a.t then 0
  else (a.r - a.l).toUInt32.toUInt64 * (a.b - a.t).toUInt32.toUInt64

/-- `clks_wm_rect_union`. -/
def union (a b : Rect) : Rect where
  l := if a.l < b.l then a.l else b.l
  t := if a.t < b.t then a.t else b.t
  r := if b.r < a.r then a.r else b.r
  b := if b.b < a.b then a.b else b.b

/-- `clks_wm_rect_contains`. -/
def contains (outer inner : Rect) : Bool :=
  outer.l ≤ inner.l && outer.t ≤ inner.t && inner.r ≤ outer.r
    && inner.b ≤ outer.b

/-- `clks_wm_rect_mergeable`, with a gap of
`CLKS_WM_DAMAGE_MERGE_GAP`. -/
def mergeable (a b : Rect) : Bool :=
  !(a.r + 4 < b.l || b.r + 4 < a.l) && !(a.b + 4 < b.t || b.b + 4 < a.t)

end Rect

-- ==== one list

/-- `clks_wm_damage_force_full`. -/
def damageForceFull (s : Screen) (list : List Rect) : List Rect :=
  if s.width = 0 ∨ s.height = 0 then list
  else [⟨0, 0, s.width.toInt32, s.height.toInt32⟩]

/-- The loop of `clks_wm_damage_add` over the list: what stays listed, and
the rectangle with all that it swallowed, unless a listed one contains
it. -/
def absorb (rect : Rect) : List Rect → List Rect × Option Rect
  | [] => ([], some rect)
  | a :: rest =>
    if a.contains rect then (a :: rest, none)
    else if rect.contains a || a.mergeable rect then
      absorb (rect.union a) rest
    else
      let (kept, rect) := absorb rect rest
      (a :: kept, rect)

/-- How much more a listed rectangle covers when another joins it. -/
def growth (rect a : Rect) : UInt64 :=
  let oldArea := a.area
  let newArea := (a.union rect).area
  if oldArea < newArea then newArea - oldArea else 0

/-- The loop that looks for the listed rectangle that grows the least:
the best so far, its growth, and the index. -/
def bestFrom (rect : Rect) : List Rect → Nat → UInt64 → Nat → Nat
  | [], best, _, _ => best
  | a :: rest, best, bestGrowth, i =>
    if growth rect a < bestGrowth then
      bestFrom rect rest i (growth rect a) (i + 1)
    else bestFrom rect rest best bestGrowth (i + 1)

/-- Enter a rectangle that nothing listed touches. -/
def enter (rect : Rect) (list : List Rect) : List Rect :=
  if list.length < maxDamageRects then list ++ [rect]
  else
    let best := bestFrom rect list 0 (0 - 1) 0
    list.modify best (·.union rect)

/-- Is most of the screen listed? The sum is kept in 64 bits, and
`CLKS_WM_DAMAGE_FULL_THRESHOLD_PERCENT` is 78. -/
def overThreshold (s : Screen) (list : List Rect) : Bool :=
  let totalArea := (list.map Rect.area).foldl (· + ·) 0
  let screenArea := s.width.toUInt64 * s.height.toUInt64
  screenArea ≠ 0 && screenArea * 78 < totalArea * 100

/-- `clks_wm_damage_add`. The first argument is
`CLKS_CFG_WM_MULTI_RECT_DAMAGE`. -/
def damageAdd (multi : Bool) (s : Screen) (input : Rect)
    (list : List Rect) : List Rect :=
  match Rect.clipToScreen s input.l input.t input.r input.b with
  | none => list
  | some rect =>
    if multi then
      match absorb rect list with
      | (list, none) => list
      | (list, some rect) =>
        let list := enter rect list
        if overThreshold s list then damageForceFull s list else list
    else
      match list with
      | [] => [rect]
      | first :: rest => first.union rect :: rest

-- ==== pixels

/-- The pixels of a rectangle. -/
def Rect.pixels (a : Rect) : Set (Int × Int) :=
  {p | a.l.toInt ≤ p.1 ∧ p.1 < a.r.toInt ∧
    a.t.toInt ≤ p.2 ∧ p.2 < a.b.toInt}

/-- The pixels of the screen. -/
def Screen.pixels (s : Screen) : Set (Int × Int) :=
  {p | 0 ≤ p.1 ∧ p.1 < s.width.toInt32.toInt ∧
    0 ≤ p.2 ∧ p.2 < s.height.toInt32.toInt}

/-- A rectangle within the screen; it is not empty. -/
structure Within (s : Screen) (a : Rect) : Prop where
  left : 0 ≤ a.l.toInt
  width : a.l.toInt < a.r.toInt
  right : a.r.toInt ≤ s.width.toInt32.toInt
  top : 0 ≤ a.t.toInt
  height : a.t.toInt < a.b.toInt
  bottom : a.b.toInt ≤ s.height.toInt32.toInt

section pixels

variable {s : Screen} {a b rect : Rect} {list : List Rect}

theorem toInt_ite_min (x y : Int32) :
    (if x < y then x else y).toInt = min x.toInt y.toInt := by
  split
  · next h => rw [Int32.lt_iff_toInt_lt] at h; omega
  · next h => rw [Int32.lt_iff_toInt_lt] at h; omega

theorem toInt_ite_max (x y : Int32) :
    (if y < x then x else y).toInt = max x.toInt y.toInt := by
  split
  · next h => rw [Int32.lt_iff_toInt_lt] at h; omega
  · next h => rw [Int32.lt_iff_toInt_lt] at h; omega

theorem pixels_union : a.pixels ∪ b.pixels ⊆ (a.union b).pixels := by
  rintro ⟨x, y⟩ h
  simp only [Rect.pixels, Rect.union, Set.mem_union, Set.mem_ofPred_eq,
    toInt_ite_min, toInt_ite_max] at h ⊢
  omega

theorem Within.union (ha : Within s a) (hb : Within s b) :
    Within s (a.union b) := by
  obtain ⟨al, aw, ar, at', ah, ab⟩ := ha
  obtain ⟨bl, bw, br, bt, bh, bb⟩ := hb
  constructor <;> simp only [Rect.union, toInt_ite_min, toInt_ite_max]
    <;> omega

theorem pixels_of_contains (h : a.contains b = true) :
    b.pixels ⊆ a.pixels := by
  simp only [Rect.contains, Bool.and_eq_true, decide_eq_true_eq,
    Int32.le_iff_toInt_le] at h
  rintro ⟨x, y⟩ ⟨hl, hr, ht, hb⟩
  dsimp only at hl hr ht hb
  refine ⟨?_, ?_, ?_, ?_⟩ <;> dsimp only <;> omega

theorem clipToScreen_cases (s : Screen) (a : Rect) :
    (Rect.clipToScreen s a.l a.t a.r a.b = none ∧
      a.pixels ∩ s.pixels ⊆ ∅) ∨
    ∃ rect, Rect.clipToScreen s a.l a.t a.r a.b = some rect ∧
      Within s rect ∧ a.pixels ∩ s.pixels ⊆ rect.pixels := by
  have hl := toInt_ite_max 0 a.l
  have ht := toInt_ite_max 0 a.t
  have hr := toInt_ite_min s.width.toInt32 a.r
  have hb := toInt_ite_min s.height.toInt32 a.b
  rw [Int32.toInt_zero] at hl ht
  unfold Rect.clipToScreen
  by_cases hzero : s.width = 0 ∨ s.height = 0
  · left
    refine ⟨if_pos hzero, ?_⟩
    rintro ⟨x, y⟩ ⟨-, hx, hw, hy, hh⟩
    dsimp only at hx hw hy hh
    rcases hzero with h | h
    · rw [h, show (0 : UInt32).toInt32.toInt = 0 from rfl] at hw
      omega
    · rw [h, show (0 : UInt32).toInt32.toInt = 0 from rfl] at hh
      omega
  · rw [if_neg hzero]
    dsimp only
    generalize (if a.l < 0 then (0 : Int32) else a.l) = l at *
    generalize (if a.t < 0 then (0 : Int32) else a.t) = t at *
    generalize (if s.width.toInt32 < a.r then s.width.toInt32 else a.r) = r
      at *
    generalize (if s.height.toInt32 < a.b then s.height.toInt32
      else a.b) = b at *
    by_cases hempty : r ≤ l ∨ b ≤ t
    · left
      refine ⟨if_pos hempty, ?_⟩
      rw [Int32.le_iff_toInt_le, Int32.le_iff_toInt_le] at hempty
      rintro ⟨x, y⟩ ⟨⟨hal, har, hat, hab⟩, hx, hw, hy, hh⟩
      dsimp only at hal har hat hab hx hw hy hh
      exfalso
      omega
    · right
      refine ⟨_, if_neg hempty, ?_, ?_⟩
      · rw [Int32.le_iff_toInt_le, Int32.le_iff_toInt_le] at hempty
        constructor <;> dsimp only <;> omega
      · rintro ⟨x, y⟩ ⟨⟨hal, har, hat, hab⟩, hx, hw, hy, hh⟩
        dsimp only at hal har hat hab hx hw hy hh
        refine ⟨?_, ?_, ?_, ?_⟩ <;> dsimp only <;> omega

-- ==== the list

theorem absorb_covers (rect : Rect) (list : List Rect) :
    rect.pixels ∪ covered Rect.pixels list ⊆
      covered Rect.pixels
        ((absorb rect list).1 ++ (absorb rect list).2.toList) := by
  induction list generalizing rect with
  | nil => simp [absorb]
  | cons a rest ih =>
    unfold absorb
    split
    · next h =>
      have hsub := pixels_of_contains h
      simp only [Option.toList_none, List.append_nil, covered_cons]
      exact Set.union_subset (hsub.trans Set.subset_union_left) (le_refl _)
    · split
      · rw [covered_cons, ← Set.union_assoc]
        exact (Set.union_subset_union_left _ pixels_union).trans (ih _)
      · dsimp only
        rw [covered_cons, List.cons_append, covered_cons,
          Set.union_left_comm]
        exact Set.union_subset_union_right _ (ih _)

theorem absorb_within (hrect : Within s rect)
    (hlist : ∀ a ∈ list, Within s a) :
    ∀ a ∈ (absorb rect list).1 ++ (absorb rect list).2.toList,
      Within s a := by
  induction list generalizing rect with
  | nil => simpa [absorb] using hrect
  | cons a rest ih =>
    have ha := hlist a List.mem_cons_self
    have hrest : ∀ c ∈ rest, Within s c := fun c hc => hlist c (.tail _ hc)
    unfold absorb
    split
    · simpa using hlist
    · split
      · exact ih (hrect.union ha) hrest
      · dsimp only
        intro c hc
        rcases List.mem_cons.mp hc with rfl | hc
        · exact ha
        · exact ih hrect hrest c hc

theorem absorb_length (rect : Rect) (list : List Rect) :
    (absorb rect list).1.length ≤ list.length := by
  induction list generalizing rect with
  | nil => exact Nat.le_refl _
  | cons a rest ih =>
    unfold absorb
    split
    · exact Nat.le_refl _
    · split
      · exact Nat.le_trans (ih _) (Nat.le_succ _)
      · exact Nat.succ_le_succ (ih _)

theorem bestFrom_lt (rect : Rect) (list : List Rect) (best : Nat)
    (bestGrowth : UInt64) (i : Nat) :
    bestFrom rect list best bestGrowth i = best ∨
      bestFrom rect list best bestGrowth i < i + list.length := by
  induction list generalizing best bestGrowth i with
  | nil => exact .inl rfl
  | cons a rest ih =>
    unfold bestFrom
    rw [List.length_cons]
    split
    · rcases ih i (growth rect a) (i + 1) with h | h
      · right
        omega
      · right
        omega
    · rcases ih best bestGrowth (i + 1) with h | h
      · exact .inl h
      · right
        omega

theorem enter_covers (rect : Rect) (list : List Rect) :
    covered Rect.pixels (list ++ [rect]) ⊆
      covered Rect.pixels (enter rect list) := by
  unfold enter
  split
  · exact le_refl _
  · next hfull =>
    have hpos : 48 ≤ list.length := Nat.le_of_not_lt hfull
    have hbest : bestFrom rect list 0 (0 - 1) 0 < list.length := by
      rcases bestFrom_lt rect list 0 (0 - 1) 0 with h | h
      · rw [h]
        omega
      · omega
    dsimp only
    generalize bestFrom rect list 0 (0 - 1) 0 = best at hbest ⊢
    have hleft : ∀ a : Rect, a.pixels ⊆ (a.union rect).pixels :=
      fun a => Set.subset_union_left.trans pixels_union
    have hright : ∀ a : Rect, rect.pixels ⊆ (a.union rect).pixels :=
      fun a => Set.subset_union_right.trans pixels_union
    rw [covered_append, covered_singleton]
    exact Set.union_subset (covered_modify hleft best)
      (subset_covered_modify hright hbest)

theorem enter_within (hrect : Within s rect)
    (hlist : ∀ a ∈ list, Within s a) :
    ∀ a ∈ enter rect list, Within s a := by
  unfold enter
  split
  · intro a ha
    rcases List.mem_append.mp ha with ha | ha
    · exact hlist a ha
    · rw [List.mem_singleton.mp ha]
      exact hrect
  · exact of_mem_modify hlist fun a ha => ha.union hrect

theorem enter_length (h : list.length ≤ maxDamageRects) :
    (enter rect list).length ≤ maxDamageRects := by
  unfold enter
  split
  · next hlt =>
    rw [List.length_append]
    exact hlt
  · rw [List.length_modify]
    exact h

theorem forceFull_pixels (hrect : Within s rect) :
    ∃ full, damageForceFull s list = [full] ∧ Within s full ∧
      s.pixels ⊆ full.pixels := by
  have hwidth : 0 < s.width.toInt32.toInt :=
    Int.lt_of_le_of_lt hrect.left (Int.lt_of_lt_of_le hrect.width hrect.right)
  have hheight : 0 < s.height.toInt32.toInt :=
    Int.lt_of_le_of_lt hrect.top (Int.lt_of_lt_of_le hrect.height hrect.bottom)
  refine ⟨⟨0, 0, s.width.toInt32, s.height.toInt32⟩, if_neg ?_, ?_, ?_⟩
  · rintro (h | h)
    · rw [h] at hwidth
      exact absurd hwidth (by decide)
    · rw [h] at hheight
      exact absurd hheight (by decide)
  · constructor <;> simp only [Int32.toInt_zero] <;> omega
  · rintro ⟨x, y⟩ h
    simpa [Rect.pixels, Screen.pixels] using h

/-- Damage that covers everything: the pixels of what was added that are
on the screen, in a list of rectangles of the screen that there is room
for. -/
structure Shows (s : Screen) (added list : List Rect) : Prop where
  covers : covered Rect.pixels added ∩ s.pixels ⊆ covered Rect.pixels list
  within : ∀ a ∈ list, Within s a
  length : list.length ≤ maxDamageRects

theorem Shows.empty (s : Screen) : Shows s [] [] where
  covers := by simp
  within _ h := nomatch h
  length := Nat.zero_le _

theorem Shows.add {added : List Rect} (h : Shows s added list)
    (multi : Bool) (input : Rect) :
    Shows s (input :: added) (damageAdd multi s input list) := by
  have hold := h.covers
  have hcovers : ∀ list', input.pixels ∩ s.pixels ⊆
      covered Rect.pixels list' →
      covered Rect.pixels list ⊆ covered Rect.pixels list' →
      covered Rect.pixels (input :: added) ∩ s.pixels ⊆
        covered Rect.pixels list' := by
    intro list' hinput hlist
    rw [covered_cons, Set.union_inter_distrib_right]
    exact Set.union_subset hinput (hold.trans hlist)
  unfold damageAdd
  rcases clipToScreen_cases s input with ⟨hclip, hnone⟩ | ⟨rect, hclip,
    hrect, hpixels⟩
  · rw [hclip]
    exact ⟨hcovers list (hnone.trans (Set.empty_subset _)) (le_refl _),
      h.within, h.length⟩
  · rw [hclip]
    dsimp only
    cases multi with
    | true =>
      have habsorb := absorb_covers rect list
      have hwithin := absorb_within hrect h.within
      have hlength := Nat.le_trans (absorb_length rect list) h.length
      rw [if_pos rfl]
      cases hres : absorb rect list with
      | mk kept left =>
        rw [hres] at habsorb hwithin hlength
        cases left with
        | none =>
          rw [Option.toList_none, List.append_nil] at habsorb hwithin
          exact ⟨hcovers kept
            (hpixels.trans (Set.subset_union_left.trans habsorb))
            (Set.subset_union_right.trans habsorb), hwithin, hlength⟩
        | some grown =>
          have hgrown : Within s grown := hwithin grown (by simp)
          have hkept : ∀ a ∈ kept, Within s a :=
            fun a ha => hwithin a (by simp [ha])
          have hall := habsorb.trans (enter_covers grown kept)
          dsimp only
          split
          · obtain ⟨full, hfull, hin, hscreen⟩ : ∃ full,
                damageForceFull s (enter grown kept) = [full] ∧
                  Within s full ∧ s.pixels ⊆ full.pixels :=
              forceFull_pixels hgrown
            rw [hfull]
            refine ⟨?_, ?_, (by omega : 1 ≤ 48)⟩
            · rw [covered_singleton]
              exact Set.inter_subset_right.trans hscreen
            · intro a ha
              rw [List.mem_singleton.mp ha]
              exact hin
          · exact ⟨hcovers _
              (hpixels.trans (Set.subset_union_left.trans hall))
              (Set.subset_union_right.trans hall),
              enter_within hgrown hkept, enter_length hlength⟩
    | false =>
      rw [if_neg (by decide)]
      cases list with
      | nil =>
        refine ⟨hcovers _ ?_ (by simp), ?_, (by omega : 1 ≤ 48)⟩
        · rw [covered_singleton]
          exact hpixels
        · intro a ha
          rw [List.mem_singleton.mp ha]
          exact hrect
      | cons first rest =>
        have hfirst := h.within first List.mem_cons_self
        refine ⟨hcovers _ ?_ ?_, ?_, h.length⟩
        · rw [covered_cons]
          exact hpixels.trans (Set.subset_union_right.trans
            (pixels_union.trans Set.subset_union_left))
        · rw [covered_cons, covered_cons]
          exact Set.union_subset_union_left _
            (Set.subset_union_left.trans pixels_union)
        · intro a ha
          rcases List.mem_cons.mp ha with rfl | ha
          · exact hfirst.union hrect
          · exact h.within a (.tail _ ha)

end pixels

end Clks.Wm
