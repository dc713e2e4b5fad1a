/-
Blits into the framebuffer (hal/video/framebuffer.c): the destination
rectangle is clipped to the screen, and the rows that are left are copied.

The arithmetic is that of 32 bits, in which a large rectangle comes out at
the other end. The code asks for a pitch of four bytes for each pixel of a
row, and that product wraps too.
-/
import Clks.Lib.Bytes
import Clks.Lib.Signed

namespace Clks.Video

open Bytes Signed

-- ==== the framebuffer

/-- What `clks_fb` has of the screen. `memory` and `shadow` are what is
behind `address` and `shadow`; a row of the screen is in its pitch. -/
structure Framebuffer where
  ready : Bool
  width : UInt32
  height : UInt32
  pitch : UInt32
  bpp : UInt16
  shadowReady : Bool
  memory : Mem
  shadow : Mem
  rows_fit : width.toNat * (bpp.toNat / 8) ≤ pitch.toNat

-- ==== the clipping

/-- One axis of a blit: `blit_x`, `src_start_x` and `blit_w`, or those of
the other axis. -/
structure Span where
  place : Int32
  start : Int32
  length : Int32
  deriving DecidableEq, Repr

/-- What is before the screen is left out. -/
def lowEdge (dst : Int32) (size : UInt32) : Span :=
  if dst < 0 then ⟨0, -dst, size.toInt32 - -dst⟩
  else ⟨dst, 0, size.toInt32⟩

/-- What is behind the screen is left out. -/
def Span.highEdge (s : Span) (limit : UInt32) : Span :=
  if limit.toInt32 < s.place + s.length then
    { s with length := limit.toInt32 - s.place }
  else s

/-- The checks and the clipping of `clks_fb_blit_rgba_internal`: the two
axes, where something is to be copied. -/
def clip (fb : Framebuffer) (dstX dstY : Int32)
    (srcWidth srcHeight srcPitchBytes : UInt32) : Option (Span × Span) :=
  if fb.ready = false ∨ fb.bpp ≠ 32 then none
  else if srcWidth = 0 ∨ srcHeight = 0 then none
  else if srcPitchBytes < srcWidth * 4 then none
  else
    let across := lowEdge dstX srcWidth
    let down := lowEdge dstY srcHeight
    if across.length ≤ 0 ∨ down.length ≤ 0 then none
    else if fb.width.toInt32 ≤ across.place ∨ fb.height.toInt32 ≤ down.place then
      none
    else
      let across := across.highEdge fb.width
      let down := down.highEdge fb.height
      if across.length ≤ 0 ∨ down.length ≤ 0 then none
      else some (across, down)

-- ==== the copying

/-- `clks_fb_copy_forward_bytes` of a row: where it goes and where it is
read, from the first byte of the screen and of the source on. -/
structure RowCopy where
  dst : Nat
  src : Nat
  bytes : Nat
  deriving DecidableEq, Repr

/-- A round of the loop. -/
def rowCopy (pitch srcPitchBytes : UInt32) (across down : Span) (row : Nat) :
    RowCopy where
  dst := (down.place.toUInt32 + UInt32.ofNat row).toNat * pitch.toNat
    + across.place.toUInt32.toNat * 4
  src := down.start.toUInt32.toNat * srcPitchBytes.toNat
    + across.start.toUInt32.toNat * 4 + row * srcPitchBytes.toNat
  bytes := across.length.toUInt32.toNat * 4

/-- The loop over the rows. -/
def rowCopies (fb : Framebuffer) (dstX dstY : Int32)
    (srcWidth srcHeight srcPitchBytes : UInt32) : List RowCopy :=
  match clip fb dstX dstY srcWidth srcHeight srcPitchBytes with
  | none => []
  | some (across, down) =>
    (List.range down.length.toUInt32.toNat).map
      (rowCopy fb.pitch srcPitchBytes across down)

/-- A row goes into a memory. -/
def RowCopy.run (c : RowCopy) (src m : Mem) : Mem :=
  blit m c.dst c.bytes fun i => src (c.src + i)

/-- A row goes to the screen, and into what shadows it. -/
def Framebuffer.copyRow (src : Mem) (updateShadow : Bool) (fb : Framebuffer)
    (c : RowCopy) : Framebuffer :=
  { fb with
    shadow := if updateShadow && fb.shadowReady then c.run src fb.shadow
      else fb.shadow
    memory := c.run src fb.memory }

/-- `clks_fb_blit_rgba_internal`; `src`: what is behind `src_pixels`. -/
def Framebuffer.blitRgbaInternal (fb : Framebuffer) (dstX dstY : Int32)
    (src : Option Mem) (srcWidth srcHeight srcPitchBytes : UInt32)
    (updateShadow : Bool) : Framebuffer :=
  match src with
  | none => fb
  | some src =>
    (rowCopies fb dstX dstY srcWidth srcHeight srcPitchBytes).foldl
      (copyRow src updateShadow) fb

-- ==== the bytes

/-- The bytes that move: where to, and where from. -/
def moves (rows : List RowCopy) : Set (Nat × Nat) :=
  { m | ∃ c ∈ rows, ∃ i < c.bytes, m = (c.dst + i, c.src + i) }

/-- A pixel of the screen that is in the destination rectangle. -/
structure Shown (fb : Framebuffer) (dstX dstY : Int32)
    (srcWidth srcHeight : UInt32) (x y : Nat) : Prop where
  x_lt : x < fb.width.toNat
  y_lt : y < fb.height.toNat
  left : dstX.toInt ≤ x
  right : x < dstX.toInt + srcWidth.toNat
  top : dstY.toInt ≤ y
  bottom : y < dstY.toInt + srcHeight.toNat

/-- The bytes that should move: those of each pixel that is shown, from the
pixel at its offset in the source, and none where a row does not fit the
pitch. -/
def pictured (fb : Framebuffer) (dstX dstY : Int32)
    (srcWidth srcHeight srcPitchBytes : UInt32) : Set (Nat × Nat) :=
  { m | 4 * srcWidth.toNat ≤ srcPitchBytes.toNat ∧
    ∃ x y k, Shown fb dstX dstY srcWidth srcHeight x y ∧ k < 4 ∧
      m = (y * fb.pitch.toNat + 4 * x + k,
        (y - dstY.toInt).toNat * srcPitchBytes.toNat
          + 4 * (x - dstX.toInt).toNat + k) }

-- ==== one axis

/-- The code finds something to copy on an axis. -/
structure Enters (dst : Int32) (size limit : UInt32) : Prop where
  pos : 0 < size.toNat + min dst.toInt 0
  small : size.toNat + min dst.toInt 0 < 2 ^ 31
  limit_small : limit.toNat < 2 ^ 31
  before : max dst.toInt 0 < limit.toNat

section axis

variable {dst : Int32} {size limit : UInt32}

theorem lowEdge_toInt (dst : Int32) (size : UInt32) :
    (lowEdge dst size).place.toInt = max dst.toInt 0 ∧
      (lowEdge dst size).length.toInt
        = (if size.toNat + min dst.toInt 0 < 2 ^ 31 then
            size.toNat + min dst.toInt 0
          else size.toNat + min dst.toInt 0 - 2 ^ 32) ∧
      ((lowEdge dst size).start.toUInt32.toNat : Int) = -min dst.toInt 0 := by
  have h0 : (0 : Int32).toInt = 0 := rfl
  have hlt := dst.toInt_lt
  have hle := dst.le_toInt
  have hsize := size.toNat_lt
  have hword := toInt_toInt32 size
  have hneg := toInt_neg_word dst
  unfold lowEdge
  by_cases hdst : dst < 0
  · rw [if_pos hdst]
    rw [Int32.lt_iff_toInt_lt, h0] at hdst
    dsimp only
    rw [toInt_sub_word (by split_ifs at hword hneg <;> omega)
      (by split_ifs at hword hneg <;> omega), h0]
    refine ⟨by omega, ?_, ?_⟩
    · split_ifs at hword hneg ⊢ <;> omega
    · rw [toNat_toUInt32]
      split_ifs at hneg ⊢ <;> omega
  · rw [if_neg hdst]
    rw [Int32.lt_iff_toInt_lt, h0] at hdst
    dsimp only
    refine ⟨by omega, ?_, ?_⟩
    · split_ifs at hword ⊢ <;> omega
    · rw [toNat_toUInt32, h0, if_neg (by omega)]
      omega

theorem enters_iff (dst : Int32) (size limit : UInt32) :
    Enters dst size limit ↔ ¬ (lowEdge dst size).length ≤ 0 ∧
      ¬ limit.toInt32 ≤ (lowEdge dst size).place := by
  have h0 : (0 : Int32).toInt = 0 := rfl
  have hlt := dst.toInt_lt
  have hsize := size.toNat_lt
  have hlimit := limit.toNat_lt
  have hword := toInt_toInt32 limit
  obtain ⟨hplace, hlength, -⟩ := lowEdge_toInt dst size
  rw [Int32.not_le, Int32.not_le, Int32.lt_iff_toInt_lt, Int32.lt_iff_toInt_lt,
    h0, hplace, hlength, hword]
  constructor
  · intro ⟨hpos, hsmall, hlimitSmall, hbefore⟩
    rw [if_pos hsmall, if_pos hlimitSmall]
    exact ⟨hpos, by omega⟩
  · intro ⟨hpos, hbefore⟩
    split_ifs at hpos hbefore
    all_goals exact ⟨by omega, by omega, by omega, by omega⟩

theorem highEdge_toNat (h : Enters dst size limit) :
    let s := (lowEdge dst size).highEdge limit
    (s.place.toUInt32.toNat : Int) = max dst.toInt 0 ∧
      (s.start.toUInt32.toNat : Int) = -min dst.toInt 0 ∧
      (s.length.toUInt32.toNat : Int)
        = (if dst.toInt + size.toNat < 2 ^ 31 then
            min (dst.toInt + size.toNat) limit.toNat - max dst.toInt 0
          else dst.toInt + size.toNat - max dst.toInt 0) ∧
      0 < s.length.toInt := by
  have hlt := dst.toInt_lt
  have hword := toInt_toInt32 limit
  obtain ⟨hpos, hsmall, hlimit, hbefore⟩ := h
  obtain ⟨hplace, hlength, hstart⟩ := lowEdge_toInt dst size
  rw [if_pos hsmall] at hlength
  rw [if_pos hlimit] at hword
  have hsum := toInt_add_word (a := (lowEdge dst size).place)
    (b := (lowEdge dst size).length) (by omega) (by omega)
  have hroom := toInt_sub_word (a := limit.toInt32)
    (b := (lowEdge dst size).place) (by omega) (by omega)
  have hplaceNat := toNat_toUInt32 (lowEdge dst size).place
  have hlengthNat := toNat_toUInt32 (lowEdge dst size).length
  have hroomNat := toNat_toUInt32 (limit.toInt32 - (lowEdge dst size).place)
  unfold Span.highEdge
  by_cases hcut : limit.toInt32
      < (lowEdge dst size).place + (lowEdge dst size).length
  · rw [if_pos hcut]
    rw [Int32.lt_iff_toInt_lt, hword, hsum] at hcut
    dsimp only
    refine ⟨by split_ifs at hplaceNat <;> omega, hstart, ?_, ?_⟩
    · split_ifs at hsum hroom hroomNat hcut ⊢ <;> omega
    · split_ifs at hroom <;> omega
  · rw [if_neg hcut]
    rw [Int32.lt_iff_toInt_lt, hword, hsum] at hcut
    dsimp only
    refine ⟨by split_ifs at hplaceNat <;> omega, hstart, ?_, ?_⟩
    · split_ifs at hsum hlengthNat hcut ⊢ <;> omega
    · omega

end axis

-- ==== both axes

section moves

variable {fb : Framebuffer} {dstX dstY : Int32}
  {srcWidth srcHeight srcPitchBytes : UInt32}

/-- The code copies something. -/
structure Copies (fb : Framebuffer) (dstX dstY : Int32)
    (srcWidth srcHeight srcPitchBytes : UInt32) : Prop where
  pitch : 4 * srcWidth.toNat % 2 ^ 32 ≤ srcPitchBytes.toNat
  across : Enters dstX srcWidth fb.width
  down : Enters dstY srcHeight fb.height

theorem clip_of_copies (hready : fb.ready = true) (hbpp : fb.bpp = 32)
    (h : Copies fb dstX dstY srcWidth srcHeight srcPitchBytes) :
    clip fb dstX dstY srcWidth srcHeight srcPitchBytes
      = some ((lowEdge dstX srcWidth).highEdge fb.width,
          (lowEdge dstY srcHeight).highEdge fb.height) := by
  have h0 : (0 : Int32).toInt = 0 := rfl
  have hfour : UInt32.toNat 4 = 4 := rfl
  obtain ⟨hpitch, hacross, hdown⟩ := h
  obtain ⟨hx, hx'⟩ := (enters_iff dstX srcWidth fb.width).mp hacross
  obtain ⟨hy, hy'⟩ := (enters_iff dstY srcHeight fb.height).mp hdown
  have hw := hacross.pos
  have hh := hdown.pos
  have hwidth : ¬ (srcWidth = 0 ∨ srcHeight = 0) := by
    intro hzero
    obtain rfl | rfl := hzero
    · rw [show UInt32.toNat 0 = 0 from rfl] at hw
      omega
    · rw [show UInt32.toNat 0 = 0 from rfl] at hh
      omega
  have hlastX := (highEdge_toNat hacross).2.2.2
  have hlastY := (highEdge_toNat hdown).2.2.2
  unfold clip
  rw [if_neg (by rw [hready, hbpp]; decide), if_neg hwidth, if_neg (by
    rw [UInt32.lt_iff_toNat_lt, UInt32.toNat_mul, hfour]
    omega)]
  dsimp only
  rw [if_neg (not_or.mpr ⟨hx, hy⟩), if_neg (not_or.mpr ⟨hx', hy'⟩), if_neg]
  rw [not_or, Int32.not_le, Int32.not_le, Int32.lt_iff_toInt_lt,
    Int32.lt_iff_toInt_lt, h0]
  exact ⟨hlastX, hlastY⟩

theorem clip_of_not_copies
    (h : ¬ Copies fb dstX dstY srcWidth srcHeight srcPitchBytes) :
    clip fb dstX dstY srcWidth srcHeight srcPitchBytes = none := by
  have hfour : UInt32.toNat 4 = 4 := rfl
  unfold clip
  dsimp only
  split
  · rfl
  split
  · rfl
  split
  · rfl
  next hpitch =>
  split
  · rfl
  next hlength =>
  split
  · rfl
  next hplace =>
  rw [UInt32.lt_iff_toNat_lt, UInt32.toNat_mul, hfour] at hpitch
  rw [not_or] at hlength hplace
  refine absurd ⟨by omega, ?_, ?_⟩ h
  · exact (enters_iff dstX srcWidth fb.width).mpr ⟨hlength.1, hplace.1⟩
  · exact (enters_iff dstY srcHeight fb.height).mpr ⟨hlength.2, hplace.2⟩

theorem moves_of_not_copies
    (h : ¬ Copies fb dstX dstY srcWidth srcHeight srcPitchBytes) :
    moves (rowCopies fb dstX dstY srcWidth srcHeight srcPitchBytes) = ∅ := by
  unfold rowCopies
  rw [clip_of_not_copies h, Set.eq_empty_iff_forall_notMem]
  intro m ⟨c, hc, _⟩
  exact List.not_mem_nil hc

/-- The end of an axis, as the code finds it. -/
def codeEnd (dst : Int32) (size limit : UInt32) : Int :=
  if dst.toInt + size.toNat < 2 ^ 31 then
    min (dst.toInt + size.toNat) limit.toNat
  else dst.toInt + size.toNat

theorem mem_moves (hready : fb.ready = true) (hbpp : fb.bpp = 32)
    (h : Copies fb dstX dstY srcWidth srcHeight srcPitchBytes) (m : Nat × Nat) :
    m ∈ moves (rowCopies fb dstX dstY srcWidth srcHeight srcPitchBytes) ↔
      ∃ x y k : Nat, dstX.toInt ≤ x ∧ x < codeEnd dstX srcWidth fb.width ∧
        dstY.toInt ≤ y ∧ y < codeEnd dstY srcHeight fb.height ∧ k < 4 ∧
        m = (y * fb.pitch.toNat + 4 * x + k,
          (y - dstY.toInt).toNat * srcPitchBytes.toNat
            + 4 * (x - dstX.toInt).toNat + k) := by
  obtain ⟨hplaceX, hstartX, hlengthX, -⟩ := highEdge_toNat h.across
  obtain ⟨hplaceY, hstartY, hlengthY, -⟩ := highEdge_toNat h.down
  unfold rowCopies moves
  rw [clip_of_copies hready hbpp h]
  dsimp only
  generalize (lowEdge dstX srcWidth).highEdge fb.width = across
    at hplaceX hstartX hlengthX ⊢
  generalize (lowEdge dstY srcHeight).highEdge fb.height = down
    at hplaceY hstartY hlengthY ⊢
  have hendX : (across.length.toUInt32.toNat : Int)
      = codeEnd dstX srcWidth fb.width - max dstX.toInt 0 := by
    rw [hlengthX]
    unfold codeEnd
    split_ifs <;> rfl
  have hendY : (down.length.toUInt32.toNat : Int)
      = codeEnd dstY srcHeight fb.height - max dstY.toInt 0 := by
    rw [hlengthY]
    unfold codeEnd
    split_ifs <;> rfl
  have hsmallX := h.across.small
  have hsmallY := h.down.small
  have hltY := dstY.toInt_lt
  have hrow : ∀ row : Nat, row < down.length.toUInt32.toNat →
      (down.place.toUInt32 + UInt32.ofNat row).toNat
        = down.place.toUInt32.toNat + row := by
    intro row hlt
    have hend : codeEnd dstY srcHeight fb.height
        ≤ dstY.toInt + srcHeight.toNat := by
      unfold codeEnd
      split_ifs <;> omega
    rw [UInt32.toNat_add, UInt32.toNat_ofNat', Nat.mod_eq_of_lt (a := row) (by omega),
      Nat.mod_eq_of_lt (by omega)]
  constructor
  · intro ⟨c, hc, i, hi, hm⟩
    obtain ⟨row, hmem, rfl⟩ := List.mem_map.mp hc
    rw [List.mem_range] at hmem
    unfold rowCopy at hi hm
    dsimp only at hi hm
    rw [hrow row hmem] at hm
    refine ⟨across.place.toUInt32.toNat + i / 4, down.place.toUInt32.toNat + row,
      i % 4, by omega, by omega, by omega, by omega, by omega, ?_⟩
    have hy : ((down.place.toUInt32.toNat + row : Nat) - dstY.toInt).toNat
        = down.start.toUInt32.toNat + row := by omega
    have hx : ((across.place.toUInt32.toNat + i / 4 : Nat) - dstX.toInt).toNat
        = across.start.toUInt32.toNat + i / 4 := by omega
    rw [hm, hy, hx, Nat.add_mul _ row srcPitchBytes.toNat]
    refine Prod.ext ?_ ?_
    · show _ + _ = _ + _
      omega
    · show _ + _ + _ + _ = _ + _ + _
      omega
  · intro ⟨x, y, k, hx, hx', hy, hy', hk, hm⟩
    refine ⟨rowCopy fb.pitch srcPitchBytes across down
        (y - down.place.toUInt32.toNat), ?_,
      4 * (x - across.place.toUInt32.toNat) + k, ?_, ?_⟩
    · exact List.mem_map.mpr ⟨_, List.mem_range.mpr (by omega), rfl⟩
    · show _ < _ * 4
      omega
    · unfold rowCopy
      dsimp only
      rw [hrow _ (by omega), hm]
      have hyNat : down.place.toUInt32.toNat + (y - down.place.toUInt32.toNat)
          = y := by omega
      have hysrc : (y - dstY.toInt).toNat = down.start.toUInt32.toNat
          + (y - down.place.toUInt32.toNat) := by omega
      have hxsrc : (x - dstX.toInt).toNat = across.start.toUInt32.toNat
          + (x - across.place.toUInt32.toNat) := by omega
      rw [hyNat, hysrc, hxsrc, Nat.add_mul]
      refine Prod.ext ?_ ?_
      · show _ + _ = _ + _
        omega
      · show _ + _ + _ = _ + _ + _ + _
        omega

theorem moves_nonempty (hready : fb.ready = true) (hbpp : fb.bpp = 32)
    (h : Copies fb dstX dstY srcWidth srcHeight srcPitchBytes) :
    moves (rowCopies fb dstX dstY srcWidth srcHeight srcPitchBytes) ≠ ∅ := by
  have hposX := h.across.pos
  have hbeforeX := h.across.before
  have hposY := h.down.pos
  have hbeforeY := h.down.before
  refine Set.Nonempty.ne_empty ⟨_, (mem_moves hready hbpp h _).mpr
    ⟨(max dstX.toInt 0).toNat, (max dstY.toInt 0).toNat, 0, ?_, ?_, ?_, ?_,
      by omega, rfl⟩⟩
  · omega
  · unfold codeEnd
    split_ifs <;> omega
  · omega
  · unfold codeEnd
    split_ifs <;> omega

theorem pixel_inj {pitch width x x' y y' k k' : Nat} (hfit : 4 * width ≤ pitch)
    (hx : x < width) (hx' : x' < width) (hk : k < 4) (hk' : k' < 4)
    (h : y * pitch + 4 * x + k = y' * pitch + 4 * x' + k') :
    y = y' ∧ x = x' ∧ k = k' := by
  have hle : ∀ {a b : Nat}, a < b → a * pitch + pitch ≤ b * pitch := by
    intro a b hab
    calc a * pitch + pitch = (a + 1) * pitch := (Nat.succ_mul a pitch).symm
      _ ≤ b * pitch := Nat.mul_le_mul_right pitch hab
  obtain hlt | rfl | hgt := Nat.lt_trichotomy y y'
  · have := hle hlt
    omega
  · omega
  · have := hle hgt
    omega

/-- What is copied is the part of the rectangle that is on the screen, or
the arithmetic of the code does not see that it is not: a row fits the pitch
and, where something is shown, the rectangle ends before the last row that a
signed number has, and the screen too; or a row does not fit and the code
copies nothing. -/
def ClipsExactly (fb : Framebuffer) (dstX dstY : Int32)
    (srcWidth srcHeight srcPitchBytes : UInt32) : Prop :=
  (4 * srcWidth.toNat ≤ srcPitchBytes.toNat ∧
    ∀ x y, Shown fb dstX dstY srcWidth srcHeight x y →
      dstY.toInt + srcHeight.toNat < 2 ^ 31 ∧ fb.height.toNat < 2 ^ 31) ∨
  (srcPitchBytes.toNat < 4 * srcWidth.toNat ∧
    ¬ Copies fb dstX dstY srcWidth srcHeight srcPitchBytes)

theorem copies_of_shown {x y : Nat} (hfit : 4 * fb.width.toNat ≤ fb.pitch.toNat)
    (hrow : 4 * srcWidth.toNat ≤ srcPitchBytes.toNat)
    (h : Shown fb dstX dstY srcWidth srcHeight x y)
    (hend : dstY.toInt + srcHeight.toNat < 2 ^ 31)
    (hheight : fb.height.toNat < 2 ^ 31) :
    Copies fb dstX dstY srcWidth srcHeight srcPitchBytes := by
  have hpitch := fb.pitch.toNat_lt
  have hsrc := srcPitchBytes.toNat_lt
  obtain ⟨hx, hy, hleft, hright, htop, hbottom⟩ := h
  exact ⟨by omega, ⟨by omega, by omega, by omega, by omega⟩,
    ⟨by omega, by omega, by omega, by omega⟩⟩

theorem shown_of_copies
    (h : Copies fb dstX dstY srcWidth srcHeight srcPitchBytes) :
    Shown fb dstX dstY srcWidth srcHeight (max dstX.toInt 0).toNat
      (max dstY.toInt 0).toNat := by
  have hposX := h.across.pos
  have hbeforeX := h.across.before
  have hposY := h.down.pos
  have hbeforeY := h.down.before
  exact ⟨by omega, by omega, by omega, by omega, by omega, by omega⟩

theorem mem_moves_iff (hready : fb.ready = true) (hbpp : fb.bpp = 32)
    (hfit : 4 * fb.width.toNat ≤ fb.pitch.toNat)
    (h : Copies fb dstX dstY srcWidth srcHeight srcPitchBytes)
    (hrow : 4 * srcWidth.toNat ≤ srcPitchBytes.toNat)
    (hend : dstY.toInt + srcHeight.toNat < 2 ^ 31) (m : Nat × Nat) :
    m ∈ moves (rowCopies fb dstX dstY srcWidth srcHeight srcPitchBytes) ↔
      m ∈ pictured fb dstX dstY srcWidth srcHeight srcPitchBytes := by
  have hpitch := fb.pitch.toNat_lt
  have hsrc := srcPitchBytes.toNat_lt
  have hbefore := h.across.before
  have hendX : codeEnd dstX srcWidth fb.width
      = min (dstX.toInt + srcWidth.toNat) fb.width.toNat := if_pos (by omega)
  have hendY : codeEnd dstY srcHeight fb.height
      = min (dstY.toInt + srcHeight.toNat) fb.height.toNat := if_pos hend
  rw [mem_moves hready hbpp h, hendX, hendY]
  constructor
  · intro ⟨x, y, k, hx, hx', hy, hy', hk, hm⟩
    exact ⟨hrow, x, y, k,
      ⟨by omega, by omega, hx, by omega, hy, by omega⟩, hk, hm⟩
  · intro ⟨_, x, y, k, hshown, hk, hm⟩
    obtain ⟨hx, hy, hleft, hright, htop, hbottom⟩ := hshown
    exact ⟨x, y, k, hleft, by omega, htop, by omega, hk, hm⟩

theorem fits_pitch (hbpp : fb.bpp = 32) :
    4 * fb.width.toNat ≤ fb.pitch.toNat := by
  have hrows := fb.rows_fit
  rw [hbpp, show UInt16.toNat 32 / 8 = 4 from rfl] at hrows
  omega

theorem moves_of_exact (hready : fb.ready = true) (hbpp : fb.bpp = 32)
    (h : ClipsExactly fb dstX dstY srcWidth srcHeight srcPitchBytes) :
    moves (rowCopies fb dstX dstY srcWidth srcHeight srcPitchBytes)
      = pictured fb dstX dstY srcWidth srcHeight srcPitchBytes := by
  obtain ⟨hrow, hends⟩ | ⟨hrow, hno⟩ := h
  · ext m
    by_cases hcopies : Copies fb dstX dstY srcWidth srcHeight srcPitchBytes
    · obtain ⟨hend, -⟩ := hends _ _ (shown_of_copies hcopies)
      exact mem_moves_iff hready hbpp (fits_pitch hbpp) hcopies hrow hend m
    · rw [moves_of_not_copies hcopies]
      refine ⟨fun h => absurd h (Set.notMem_empty m), ?_⟩
      intro ⟨_, x, y, k, hshown, _, _⟩
      obtain ⟨hend, hheight⟩ := hends x y hshown
      exact absurd
        (copies_of_shown (fits_pitch hbpp) hrow hshown hend hheight) hcopies
  · rw [moves_of_not_copies hno]
    exact (Set.eq_empty_iff_forall_notMem.mpr fun _ h => by
      have := h.1
      omega).symm

theorem end_of_moves (hready : fb.ready = true) (hbpp : fb.bpp = 32)
    (hcopies : Copies fb dstX dstY srcWidth srcHeight srcPitchBytes)
    (hrow : 4 * srcWidth.toNat ≤ srcPitchBytes.toNat)
    (heq : moves (rowCopies fb dstX dstY srcWidth srcHeight srcPitchBytes)
      = pictured fb dstX dstY srcWidth srcHeight srcPitchBytes) :
    dstY.toInt + srcHeight.toNat < 2 ^ 31 := by
  by_contra hend
  have hfit := fits_pitch hbpp
  have hpitch := fb.pitch.toNat_lt
  have hsrc := srcPitchBytes.toNat_lt
  have hbeforeX := hcopies.across.before
  have hbeforeY := hcopies.down.before
  have hsmall := hcopies.down.limit_small
  have hendX : codeEnd dstX srcWidth fb.width
      = min (dstX.toInt + srcWidth.toNat) fb.width.toNat := if_pos (by omega)
  have hendY : codeEnd dstY srcHeight fb.height
      = dstY.toInt + srcHeight.toNat := if_neg hend
  obtain ⟨hx, hy, hleft, hright, htop, hbottom⟩ := shown_of_copies hcopies
  have hbelow := (mem_moves hready hbpp hcopies (_, _)).mpr
    ⟨(max dstX.toInt 0).toNat, fb.height.toNat, 0, hleft, by omega, by omega,
      by omega, by omega, rfl⟩
  rw [heq] at hbelow
  obtain ⟨-, x', y', k', hshown', hk', hm⟩ := hbelow
  obtain ⟨hyeq, -, -⟩ := pixel_inj hfit hx hshown'.x_lt (by omega) hk'
    (congrArg Prod.fst hm)
  have := hshown'.y_lt
  omega

theorem exact_of_moves (hready : fb.ready = true) (hbpp : fb.bpp = 32)
    (heq : moves (rowCopies fb dstX dstY srcWidth srcHeight srcPitchBytes)
      = pictured fb dstX dstY srcWidth srcHeight srcPitchBytes) :
    ClipsExactly fb dstX dstY srcWidth srcHeight srcPitchBytes := by
  by_cases hrow : 4 * srcWidth.toNat ≤ srcPitchBytes.toNat
  · refine .inl ⟨hrow, fun x y hshown => ?_⟩
    have hcopies : Copies fb dstX dstY srcWidth srcHeight srcPitchBytes := by
      by_contra hno
      rw [moves_of_not_copies hno] at heq
      have hmem : (_, _) ∈ pictured fb dstX dstY srcWidth srcHeight
          srcPitchBytes := ⟨hrow, x, y, 0, hshown, by omega, rfl⟩
      rw [← heq] at hmem
      exact hmem
    exact ⟨end_of_moves hready hbpp hcopies hrow heq, hcopies.down.limit_small⟩
  · refine .inr ⟨by omega, fun hcopies => ?_⟩
    refine moves_nonempty hready hbpp hcopies ?_
    rw [heq]
    exact Set.eq_empty_iff_forall_notMem.mpr fun _ h => hrow h.1

/-- The bytes that a blit moves are those of the picture, each from its place
in the source and no other, if and only if the arithmetic stays in the words. -/
theorem moves_exactly_iff (hready : fb.ready = true) (hbpp : fb.bpp = 32) :
    moves (rowCopies fb dstX dstY srcWidth srcHeight srcPitchBytes)
        = pictured fb dstX dstY srcWidth srcHeight srcPitchBytes ↔
      ClipsExactly fb dstX dstY srcWidth srcHeight srcPitchBytes :=
  ⟨exact_of_moves hready hbpp, moves_of_exact hready hbpp⟩

end moves

/-- A screen of four by four pixels. -/
def smallScreen : Framebuffer where
  ready := true
  width := 4
  height := 4
  pitch := 16
  bpp := 32
  shadowReady := false
  memory := fun _ => 0
  shadow := fun _ => 0
  rows_fit := by decide

/-- A row of 2^30 pixels does not fit a pitch of zero, and is copied; and a
rectangle of 2^31 - 1 rows that starts in the second row of the screen is
copied to its last row. -/
theorem wrapped_is_copied :
    rowCopies smallScreen 0 0 0x40000000 1 0 = [⟨0, 0, 16⟩] ∧
      pictured smallScreen 0 0 0x40000000 1 0 = ∅ ∧
      clip smallScreen 0 1 1 0x7FFFFFFF 4 = some (⟨0, 0, 1⟩, ⟨1, 0, 0x7FFFFFFF⟩) := by
  refine ⟨by decide, ?_, by decide⟩
  exact Set.eq_empty_iff_forall_notMem.mpr fun _ h => absurd h.1 (by decide)

/-- Two pixels of a rectangle that begins above and left of the screen. -/
theorem moves_exactly_corner :
    moves (rowCopies smallScreen (-1) (-1) 3 2 12)
      = pictured smallScreen (-1) (-1) 3 2 12 :=
  (moves_exactly_iff rfl rfl).mpr (.inl ⟨by decide, fun _ _ _ => by decide⟩)

-- ==== the memories

section memory

variable {rows : List RowCopy} {src m : Mem} {d s : Nat}

theorem run_rows (hone : ∀ d s s', (d, s) ∈ moves rows → (d, s') ∈ moves rows →
    s = s') :
    (∀ s, (d, s) ∈ moves rows →
      rows.foldl (fun m c => c.run src m) m d = src s) ∧
    ((∀ s, (d, s) ∉ moves rows) →
      rows.foldl (fun m c => c.run src m) m d = m d) := by
  induction rows generalizing m with
  | nil => exact ⟨fun s h => absurd h.choose_spec.1 List.not_mem_nil, fun _ => rfl⟩
  | cons c rows ih =>
    have hlater : ∀ {p : Nat × Nat}, p ∈ moves rows → p ∈ moves (c :: rows) :=
      fun ⟨c', hc', h⟩ => ⟨c', List.mem_cons_of_mem c hc', h⟩
    have hfirst : ∀ i < c.bytes, (c.dst + i, c.src + i) ∈ moves (c :: rows) :=
      fun i hi => ⟨c, List.mem_cons_self, i, hi, rfl⟩
    obtain ⟨hmoved, hstill⟩ := ih (m := c.run src m)
      fun d s s' h h' => hone d s s' (hlater h) (hlater h')
    rw [List.foldl_cons]
    refine ⟨fun s hs => ?_, fun hno => ?_⟩
    · by_cases hexists : ∃ s', (d, s') ∈ moves rows
      · obtain ⟨s', hs'⟩ := hexists
        rw [hmoved s' hs', hone d s s' hs (hlater hs')]
      · rw [hstill fun s' hs' => hexists ⟨s', hs'⟩]
        obtain ⟨c', hc', i, hi, hp⟩ := hs
        obtain rfl | hmem := List.mem_cons.mp hc'
        · obtain ⟨rfl, rfl⟩ := Prod.mk.inj hp
          unfold RowCopy.run
          rw [blit_in (by omega) (by omega), Nat.add_sub_cancel_left]
        · exact absurd ⟨s, c', hmem, i, hi, hp⟩ hexists
    · rw [hstill fun s hs => hno s (hlater hs)]
      refine blit_out ?_
      by_contra hin
      have hmem := hfirst (d - c.dst) (by omega)
      rw [Nat.add_sub_cancel' (by omega)] at hmem
      exact hno _ hmem

theorem memory_blit (fb : Framebuffer) (dstX dstY : Int32) (src : Mem)
    (srcWidth srcHeight srcPitchBytes : UInt32) (updateShadow : Bool) :
    (fb.blitRgbaInternal dstX dstY (some src) srcWidth srcHeight srcPitchBytes
        updateShadow).memory
      = (rowCopies fb dstX dstY srcWidth srcHeight srcPitchBytes).foldl
          (fun m c => c.run src m) fb.memory := by
  show ((rowCopies fb dstX dstY srcWidth srcHeight srcPitchBytes).foldl
    (Framebuffer.copyRow src updateShadow) fb).memory = _
  generalize rowCopies fb dstX dstY srcWidth srcHeight srcPitchBytes = rows
  induction rows generalizing fb with
  | nil => rfl
  | cons c rows ih => exact ih (fb.copyRow src updateShadow c)

/-- A blit that is clipped exactly leaves the picture on the screen, and all
the rest of the screen as it was. -/
theorem blit_shows {fb : Framebuffer} {dstX dstY : Int32}
    {srcWidth srcHeight srcPitchBytes : UInt32} (hready : fb.ready = true)
    (hbpp : fb.bpp = 32)
    (hexact : ClipsExactly fb dstX dstY srcWidth srcHeight srcPitchBytes)
    (src : Mem) (updateShadow : Bool) :
    let after := (fb.blitRgbaInternal dstX dstY (some src) srcWidth srcHeight
      srcPitchBytes updateShadow).memory
    let picture := pictured fb dstX dstY srcWidth srcHeight srcPitchBytes
    (∀ d s, (d, s) ∈ picture → after d = src s) ∧
      ∀ d, (∀ s, (d, s) ∉ picture) → after d = fb.memory d := by
  have hfit := fits_pitch hbpp
  have heq := moves_of_exact hready hbpp hexact
  have hone : ∀ d s s',
      (d, s) ∈ moves (rowCopies fb dstX dstY srcWidth srcHeight srcPitchBytes) →
      (d, s') ∈ moves (rowCopies fb dstX dstY srcWidth srcHeight srcPitchBytes) →
      s = s' := by
    intro d s s' hs hs'
    rw [heq] at hs hs'
    obtain ⟨_, x, y, k, hshown, hk, hp⟩ := hs
    obtain ⟨_, x', y', k', hshown', hk', hp'⟩ := hs'
    obtain ⟨rfl, rfl⟩ := Prod.mk.inj hp
    obtain ⟨hd, rfl⟩ := Prod.mk.inj hp'
    obtain ⟨rfl, rfl, rfl⟩ := pixel_inj hfit hshown.x_lt hshown'.x_lt hk hk' hd
    rfl
  dsimp only
  rw [memory_blit, ← heq]
  exact ⟨fun d s => (run_rows hone).1 s, fun d => (run_rows hone).2⟩

/-- The corner of the screen shows the second pixel of the second row. -/
theorem blit_shows_corner :
    (smallScreen.blitRgbaInternal (-1) (-1) (some fun n => UInt8.ofNat n) 3 2 12
      true).memory 0 = 16 :=
  (blit_shows rfl rfl (.inl ⟨by decide, fun _ _ _ => by decide⟩) _ _).1 0 16
    ⟨by decide, 0, 0, 0, by constructor <;> decide, by decide, by decide⟩

end memory

end Clks.Video
