/-
TrueType fonts (font/ttf.c).

The font is a byte string of any kind and a pointer into it is an offset:
every byte is read through `Reads`, and so is every entry of the arrays on
the stack, whose contents at the start are an input (`Stack`). Sums of
fields of the font are words that wrap as they do in the code. The
positions inside a glyph, the counts of points and contours and the places
in a character map are numbers: they stay below the size of the font, which
is at most 64 MiB.
-/
import Clks.Lib.Reads

namespace Clks.Font

open Reads

-- ==== constants

/-- `XIAOBAIOS_TTF_MAX_POINTS`, `XIAOBAIOS_TTF_MAX_CONTOURS` and
`XIAOBAIOS_TTF_MAX_EDGES`. -/
abbrev ttfMaxPoints : Nat := 512

abbrev ttfMaxContours : Nat := 96

abbrev ttfMaxEdges : Nat := 768

/-- `struct xiaobaios_ttf_table`. -/
structure TtfTable where
  offset : UInt32
  length : UInt32
  deriving DecidableEq, Repr

/-- `struct xiaobaios_ttf_font`, without the pointer to the bytes. -/
structure TtfFont where
  ready : Bool
  size : UInt64
  cmap : TtfTable
  head : TtfTable
  hhea : TtfTable
  hmtx : TtfTable
  loca : TtfTable
  glyf : TtfTable
  maxp : TtfTable
  cmap4 : UInt32
  cmap12 : UInt32
  unitsPerEm : UInt16
  indexToLocFormat : Int16
  numGlyphs : UInt16
  numHmetrics : UInt16
  ascent : Int16
  descent : Int16
  deriving DecidableEq

namespace TtfFont

/-- A font of which nothing is known but its size. -/
def empty (size : UInt64) : TtfFont where
  ready := false
  size
  cmap := ⟨0, 0⟩
  head := ⟨0, 0⟩
  hhea := ⟨0, 0⟩
  hmtx := ⟨0, 0⟩
  loca := ⟨0, 0⟩
  glyf := ⟨0, 0⟩
  maxp := ⟨0, 0⟩
  cmap4 := 0
  cmap12 := 0
  unitsPerEm := 0
  indexToLocFormat := 0
  numGlyphs := 0
  numHmetrics := 0
  ascent := 0
  descent := 0

/-- `ttf_range_valid`. -/
def rangeValid (font : TtfFont) (offset len : UInt32) : Bool :=
  offset.toUInt64 ≤ font.size && len.toUInt64 ≤ font.size - offset.toUInt64

/-- `ttf_ptr`. -/
def ptr (font : TtfFont) (offset len : UInt32) : Option Nat :=
  if font.rangeValid offset len then some offset.toNat else none

end TtfFont

section font

variable (b : List UInt8)

/-- `ttf_be_i16`. -/
def beI16At (off : Nat) : Checked Int16 := do
  let value ← be16At b off
  return value.toInt16

/-- `ttf_glyph_offset`. -/
def glyphOffset (font : TtfFont) (glyphId : UInt16) : Checked UInt32 :=
  if font.numGlyphs ≤ glyphId then return 0
  else if font.indexToLocFormat = 0 then
    match font.ptr (font.loca.offset + glyphId.toUInt32 * 2) 2 with
    | none => return 0
    | some loca => do
      let half ← be16At b loca
      return half.toUInt32 * 2
  else
    match font.ptr (font.loca.offset + glyphId.toUInt32 * 4) 4 with
    | none => return 0
    | some loca => be32At b loca

/-- `ttf_advance_width`. -/
def advanceWidth (font : TtfFont) (glyphId : UInt16) : Checked UInt16 :=
  let metricIndex :=
    if font.numHmetrics ≤ glyphId then font.numHmetrics.toUInt32 - 1
    else glyphId.toUInt32
  match font.ptr (font.hmtx.offset + metricIndex * 4) 2 with
  | none => return font.unitsPerEm / 2
  | some metric => be16At b metric

end font

-- ==== outlines

/-- `struct xiaobaios_ttf_point`. -/
structure TtfPoint where
  x : Int32
  y : Int32
  onCurve : UInt8
  deriving DecidableEq, Repr

/-- `struct xiaobaios_ttf_edge`. -/
structure TtfEdge where
  x0 : Int32
  y0 : Int32
  x1 : Int32
  y1 : Int32
  deriving DecidableEq, Repr

/-- `struct xiaobaios_ttf_intersection`. -/
structure TtfIntersection where
  x : Int32
  windingDelta : Int32
  deriving DecidableEq, Repr

abbrev Points := Vector TtfPoint ttfMaxPoints

abbrev Ends := Vector UInt16 ttfMaxContours

abbrev Flags := Vector UInt8 ttfMaxPoints

/-- What the arrays on the stack are found with. -/
structure Stack where
  points : Points
  endPoints : Ends
  localEnds : Ends
  flags : Flags
  edges : Vector TtfEdge ttfMaxEdges
  xs : Vector TtfIntersection ttfMaxEdges

/-- The points and the contours that are gathered. -/
structure Outline where
  points : Points
  pointCount : Nat
  endPoints : Ends
  contourCount : Nat

section outline

variable (b : List UInt8) (glyph len : Nat)

/-- A component of a compound glyph. -/
structure Component where
  flags : UInt16
  glyphId : UInt16
  dx : Int32
  dy : Int32

/-- The arguments of a component, behind its flags and its glyph. -/
def componentArgs (flags : UInt16) (pos : Nat) :
    Checked (Option ((Int32 × Int32) × Nat)) :=
  if flags &&& 0x0001 ≠ 0 then
    if len < pos + 4 then return none
    else if flags &&& 0x0002 ≠ 0 then do
      let arg1 ← beI16At b (glyph + pos)
      let arg2 ← beI16At b (glyph + pos + 2)
      return some ((arg1.toInt32, arg2.toInt32), pos + 4)
    else do
      let arg1 ← be16At b (glyph + pos)
      let arg2 ← be16At b (glyph + pos + 2)
      return some ((arg1.toUInt32.toInt32, arg2.toUInt32.toInt32), pos + 4)
  else if len < pos + 2 then return none
  else do
    let arg1 ← byteAt b (glyph + pos)
    let arg2 ← byteAt b (glyph + pos + 1)
    if flags &&& 0x0002 ≠ 0 then
      return some ((arg1.toInt8.toInt32, arg2.toInt8.toInt32), pos + 2)
    else
      return some ((arg1.toUInt32.toInt32, arg2.toUInt32.toInt32), pos + 2)

/-- The bytes of the scale of a component. -/
def scaleSize (flags : UInt16) : Nat :=
  if flags &&& 0x0008 ≠ 0 then 2
  else if flags &&& 0x0040 ≠ 0 then 4
  else if flags &&& 0x0080 ≠ 0 then 8
  else 0

/-- A component, and where it ends. -/
def nextComponent (pos : Nat) : Checked (Option (Component × Nat)) := do
  let flags ← be16At b (glyph + pos)
  let glyphId ← be16At b (glyph + pos + 2)
  let args ← componentArgs b glyph len flags (pos + 4)
  match args with
  | none => return none
  | some ((arg1, arg2), pos) =>
    let pos := pos + scaleSize flags
    if len < pos then return none
    else
      let (dx, dy) := if flags &&& 0x0002 ≠ 0 then (arg1, arg2) else (0, 0)
      return some (⟨flags, glyphId, dx, dy⟩, pos)

end outline

section glyphs

variable (b : List UInt8) (font : TtfFont) (stack : Stack)

end glyphs

-- ==== edges

namespace Edges

end Edges

end Clks.Font
