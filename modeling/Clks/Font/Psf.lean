/-
PSF bitmap fonts (psf_font.c, and the reads of the bitmap loop of
framebuffer.c).

The blob is a byte string of any kind, a pointer into it is an offset, and
every byte of it is read through `Reads`. The fields of the headers are
words of 32 bits and `usize` is a word of 64, so sums and products wrap as
they do in the code. The offsets in the Unicode table are numbers: they
stay below the size of the blob.
-/
import Clks.Lib.Masks
import Clks.Lib.Reads
import Clks.Text.Unicode

namespace Clks.Font

open Reads
open Text

-- ==== constants

/-- `CLKS_PSF1_HEADER_SIZE`. -/
abbrev psf1HeaderSize : UInt64 := 4

/-- `CLKS_PSF1_MAGIC0` and `CLKS_PSF1_MAGIC1`. -/
abbrev psf1Magic0 : UInt8 := 0x36

abbrev psf1Magic1 : UInt8 := 0x04

/-- `CLKS_PSF2_MAGIC`. -/
abbrev psf2Magic : UInt32 := 0x864AB572

/-- `CLKS_PSF2_HEADER_MIN_SIZE`. -/
abbrev psf2HeaderMinSize : UInt32 := 32

/-- `CLKS_PSF2_HAS_UNICODE_TABLE`. -/
abbrev psf2HasUnicodeTable : UInt32 := 0x01

/-- `CLKS_PSF_UNICODE_SEPARATOR`. -/
abbrev psfUnicodeSeparator : UInt8 := 0xFF

/-- `CLKS_PSF_UNICODE_STARTSEQ`. -/
abbrev psfUnicodeStartseq : UInt8 := 0xFE

/-- `(u32)-1`. -/
abbrev noGlyph : UInt32 := 0xFFFFFFFF

-- ==== parsing

/-- `struct clks_psf_font`. -/
structure PsfFont where
  width : UInt32
  height : UInt32
  glyphCount : UInt32
  bytesPerGlyph : UInt32
  bytesPerRow : UInt32
  glyphs : Nat
  unicodeTable : Option Nat
  unicodeTableSize : UInt64
  deriving DecidableEq, Repr

section font

variable (blob : List UInt8)

/-- `clks_psf_parse_psf1`. -/
def parsePsf1 (blobSize : UInt64) : Checked (Option PsfFont) := do
  if blobSize < psf1HeaderSize then return none
  else do
    let magic0 ← byteAt blob 0
    let magic1 ← byteAt blob 1
    if magic0 ≠ psf1Magic0 ∨ magic1 ≠ psf1Magic1 then return none
    else do
      let mode ← byteAt blob 2
      let charsize ← byteAt blob 3
      let glyphCount : UInt32 := if mode &&& 0x01 ≠ 0 then 512 else 256
      let glyphBytes := charsize.toUInt32
      if glyphBytes = 0 then return none
      else
        let payloadSize := glyphCount.toUInt64 * glyphBytes.toUInt64
        if blobSize < psf1HeaderSize + payloadSize then return none
        else
          return some
            { width := 8
              height := glyphBytes
              glyphCount
              bytesPerGlyph := glyphBytes
              bytesPerRow := 1
              glyphs := psf1HeaderSize.toNat
              unicodeTable := none
              unicodeTableSize := 0 }

/-- `struct clks_psf2_header`. -/
structure Psf2Header where
  magic : UInt32
  version : UInt32
  headersize : UInt32
  flags : UInt32
  length : UInt32
  charsize : UInt32
  height : UInt32
  width : UInt32

/-- The header at the start of the blob. -/
def psf2Header : Checked Psf2Header := do
  let magic ← le32At blob 0
  let version ← le32At blob 4
  let headersize ← le32At blob 8
  let flags ← le32At blob 12
  let length ← le32At blob 16
  let charsize ← le32At blob 20
  let height ← le32At blob 24
  let width ← le32At blob 28
  return { magic, version, headersize, flags, length, charsize, height, width }

/-- `clks_psf_parse_psf2` behind the size check: the font of a header. -/
def Psf2Header.font (hdr : Psf2Header) (blobSize : UInt64) : Option PsfFont :=
  if hdr.magic ≠ psf2Magic then none
  else if hdr.headersize < psf2HeaderMinSize ∨
      blobSize < hdr.headersize.toUInt64 then none
  else if hdr.width = 0 ∨ hdr.height = 0 ∨ hdr.length = 0 ∨
      hdr.charsize = 0 then none
  else
    let bytesPerRow := (hdr.width + 7) / 8
    if bytesPerRow = 0 then none
    else
      let minBytesPerGlyph := bytesPerRow.toUInt64 * hdr.height.toUInt64
      if hdr.charsize.toUInt64 < minBytesPerGlyph then none
      else if 0xFFFFFFFFFFFFFFFF / hdr.charsize.toUInt64
          < hdr.length.toUInt64 then none
      else
        let payloadSize := hdr.length.toUInt64 * hdr.charsize.toUInt64
        if blobSize - hdr.headersize.toUInt64 < payloadSize then none
        else
          let tableOffset := hdr.headersize.toUInt64 + payloadSize
          let hasTable := hdr.flags &&& psf2HasUnicodeTable ≠ 0 ∧
            tableOffset < blobSize
          some
            { width := hdr.width
              height := hdr.height
              glyphCount := hdr.length
              bytesPerGlyph := hdr.charsize
              bytesPerRow
              glyphs := hdr.headersize.toNat
              unicodeTable := if hasTable then some tableOffset.toNat else none
              unicodeTableSize := if hasTable then blobSize - tableOffset else 0 }

/-- `clks_psf_parse_psf2`. -/
def parsePsf2 (blobSize : UInt64) : Checked (Option PsfFont) := do
  if blobSize < psf2HeaderMinSize.toUInt64 then return none
  else do
    let hdr ← psf2Header blob
    return hdr.font blobSize

/-- `clks_psf_parse_font`. -/
def parseFont (blobSize : UInt64) : Checked (Option PsfFont) := do
  if blobSize = 0 then return none
  else if 4 ≤ blobSize then do
    let magic32 ← le32At blob 0
    if magic32 = psf2Magic then parsePsf2 blob blobSize
    else parsePsf1 blob blobSize
  else parsePsf1 blob blobSize

-- ==== the Unicode table

/-- The continuation bytes of `clks_rust_utf8_next_impl`, in a text at
`off`. -/
def takeContsAt (off : Nat) :
    Nat → Nat → UInt32 → Checked (Nat × Option UInt32)
  | 0, index, value => return (index, some value)
  | need + 1, index, value => do
    let bx ← byteAt blob (off + index)
    if !isCont bx then return (index + 1, none)
    else takeContsAt off need (index + 1) (shiftIn value bx)

/-- `clks_rust_utf8_next_strict`, on the text of this size at `off`. -/
def utf8NextStrictAt (off size index : Nat) :
    Checked (Bool × Nat × Option UInt32) :=
  if size ≤ index then return (false, index, none)
  else do
    let b0 ← byteAt blob (off + index)
    let index := index + 1
    if b0 < 0x80 then return (true, index, some b0.toUInt32)
    else
      match firstByte b0 with
      | none => return (false, index, some replacement)
      | some (value, need, expected) =>
        if size < index + need then return (false, size, some replacement)
        else do
          let conts ← takeContsAt blob off need index value
          match conts with
          | (index, none) => return (false, index, some replacement)
          | (index, some value) =>
            if validFinished value expected then
              return (true, index, some value)
            else return (false, index, some replacement)

/-- `clks_psf_decode_utf8_table_codepoint`. -/
def decodeUtf8TableCodepoint (table size offset : Nat) :
    Checked (Bool × Nat × Option UInt32) :=
  if size ≤ offset then return (false, offset, none)
  else utf8NextStrictAt blob table size offset

/-- The inner loop of `clks_psf_unicode_lookup`, for some rounds: the
sequences of a glyph are skipped. -/
def skipSequences (table size : Nat) : Nat → Nat → Checked Nat
  | 0, _ => throw .unfinished
  | rounds + 1, offset =>
    if size ≤ offset then return offset
    else do
      let b ← byteAt blob (table + offset)
      if b = psfUnicodeSeparator then return offset
      else do
        let (decoded, offset, _) ←
          decodeUtf8TableCodepoint blob table size offset
        if decoded then skipSequences table size rounds offset
        else return offset

/-- The loop of `clks_psf_unicode_lookup`, for some rounds. -/
def unicodeLookupLoop (glyphCount codepoint : UInt32) (table size : Nat) :
    Nat → Nat → UInt32 → Checked UInt32
  | 0, _, _ => throw .unfinished
  | rounds + 1, offset, glyph =>
    if size ≤ offset ∨ glyphCount ≤ glyph then return noGlyph
    else do
      let b ← byteAt blob (table + offset)
      if b = psfUnicodeSeparator then
        unicodeLookupLoop glyphCount codepoint table size rounds
          (offset + 1) (glyph + 1)
      else if b = psfUnicodeStartseq then do
        let offset ← skipSequences blob table size (size + 1) (offset + 1)
        unicodeLookupLoop glyphCount codepoint table size rounds offset glyph
      else do
        let (decoded, offset, mapped) ←
          decodeUtf8TableCodepoint blob table size offset
        if decoded ∧ mapped = some codepoint then return glyph
        else
          unicodeLookupLoop glyphCount codepoint table size rounds offset glyph

/-- `clks_psf_unicode_lookup`. -/
def unicodeLookup (font : PsfFont) (codepoint : UInt32) : Checked UInt32 :=
  match font.unicodeTable with
  | none => return noGlyph
  | some table =>
    unicodeLookupLoop blob font.glyphCount codepoint table
      font.unicodeTableSize.toNat (font.unicodeTableSize.toNat + 1) 0 0

/-- `clks_psf_glyph`: where the glyph is in the blob, or nothing for
`clks_psf_unknown`. -/
def psfGlyph (font : PsfFont) (codepoint : UInt32) : Checked (Option Nat) :=
  if font.bytesPerGlyph = 0 then return none
  else do
    let mapped ←
      (if font.unicodeTable.isSome ∧ 128 ≤ codepoint then
        unicodeLookup blob font codepoint
      else pure noGlyph)
    let index := if mapped ≠ noGlyph then mapped else codepoint
    let index :=
      if font.glyphCount ≤ index then
        if font.glyphCount ≤ 0x3F then 0 else 0x3F
      else index
    return some (font.glyphs +
      (index.toUInt64 * font.bytesPerGlyph.toUInt64).toNat)

-- ==== drawing

/-- A pixel of the bitmap loop of `clks_fb_draw_codepoint_scaled_clip`: is
it set in the row of the glyph, or for a bold one left of it? -/
def glyphPixel (glyph rowStride : Nat) (bold : Bool)
    (glyphRow glyphCol : Nat) : Checked Bool := do
  let rowBits := glyph + glyphRow * rowStride
  let bits ← byteAt blob (rowBits + glyphCol / 8)
  let pixelOn := bits &&& (0x80 >>> UInt8.ofNat (glyphCol % 8)) ≠ 0
  if bold ∧ ¬ pixelOn ∧ 0 < glyphCol then do
    let leftBits ← byteAt blob (rowBits + (glyphCol - 1) / 8)
    return leftBits &&& (0x80 >>> UInt8.ofNat ((glyphCol - 1) % 8)) ≠ 0
  else return pixelOn

end font

-- ==== fonts

/-- What is in a font that is accepted: its rows in their glyphs, and its
glyphs and its table in the blob. -/
structure PsfFont.Inside (f : PsfFont) (size : Nat) : Prop where
  count : 0 < f.glyphCount.toNat
  bytes : 0 < f.bytesPerGlyph.toNat
  width : f.width.toNat ≤ 8 * f.bytesPerRow.toNat
  rows : f.height.toNat * f.bytesPerRow.toNat ≤ f.bytesPerGlyph.toNat
  glyphs : f.glyphs + f.glyphCount.toNat * f.bytesPerGlyph.toNat ≤ size
  table : ∀ table, f.unicodeTable = some table →
    table + f.unicodeTableSize.toNat ≤ size

section parsing

variable {blob : List UInt8} {blobSize : UInt64} {f : PsfFont}
  {hdr : Psf2Header}

theorem bytesPerRow_width (width : UInt32) (h : (width + 7) / 8 ≠ 0) :
    width.toNat ≤ 8 * ((width + 7) / 8).toNat := by
  have hne : ((width + 7) / 8).toNat ≠ 0 := fun h0 =>
    h (UInt32.toNat_inj.mp h0)
  have hlt := width.toNat_lt
  rw [UInt32.toNat_div, UInt32.toNat_add] at hne ⊢
  rw [show UInt32.toNat 7 = 7 from rfl, show UInt32.toNat 8 = 8 from rfl]
    at hne ⊢
  omega

theorem Psf2Header.payload (hhead : ¬ blobSize < hdr.headersize.toUInt64)
    (h : ¬ blobSize - hdr.headersize.toUInt64
      < hdr.length.toUInt64 * hdr.charsize.toUInt64) :
    hdr.headersize.toNat + hdr.length.toNat * hdr.charsize.toNat
        ≤ blobSize.toNat ∧
      (hdr.headersize.toUInt64 + hdr.length.toUInt64 * hdr.charsize.toUInt64).toNat
        = hdr.headersize.toNat + hdr.length.toNat * hdr.charsize.toNat := by
  have hle : hdr.headersize.toUInt64 ≤ blobSize := UInt64.not_lt.mp hhead
  have hnat : hdr.headersize.toNat ≤ blobSize.toNat := by
    rw [UInt64.le_iff_toNat_le, UInt32.toNat_toUInt64] at hle
    exact hle
  rw [UInt64.lt_iff_toNat_lt, Masks.toNat_mul_words,
    UInt64.toNat_sub_of_le _ _ hle, UInt32.toNat_toUInt64] at h
  have hlt := blobSize.toNat_lt
  refine ⟨by omega, ?_⟩
  rw [UInt64.toNat_add, Masks.toNat_mul_words, UInt32.toNat_toUInt64]
  exact Nat.mod_eq_of_lt (by omega)

theorem Psf2Header.font_inside (h : hdr.font blobSize = some f) :
    f.Inside blobSize.toNat := by
  unfold Psf2Header.font at h
  dsimp only at h
  split_ifs at h with hmagic hheader hzero hrow hmin hover hpayload htable
  all_goals
    cases h
    push Not at hzero
    rw [not_or] at hheader
    rw [UInt64.lt_iff_toNat_lt, Masks.toNat_mul_words, UInt32.toNat_toUInt64,
      Nat.not_lt, Nat.mul_comm] at hmin
    obtain ⟨hglyphs, hoffset⟩ := Psf2Header.payload hheader.2 hpayload
    have hlength : hdr.length.toNat ≠ 0 := fun h0 =>
      hzero.2.2.1 (UInt32.toNat_inj.mp h0)
    have hcharsize : hdr.charsize.toNat ≠ 0 := fun h0 =>
      hzero.2.2.2 (UInt32.toNat_inj.mp h0)
    refine ⟨Nat.pos_of_ne_zero hlength, Nat.pos_of_ne_zero hcharsize,
      bytesPerRow_width hdr.width hrow, hmin, hglyphs, ?_⟩
  · intro table htab
    cases htab
    have hlt := htable.2
    show _ + (blobSize - _).toNat ≤ _
    rw [UInt64.toNat_sub_of_le _ _ (UInt64.le_of_lt hlt)]
    rw [UInt64.lt_iff_toNat_lt] at hlt
    omega
  · exact fun _ htab => nomatch htab

theorem psf2Header_safe (h : 32 ≤ blob.length) : Safe (psf2Header blob) :=
  .bind (le32At_safe (by omega)) fun _ =>
  .bind (le32At_safe (by omega)) fun _ =>
  .bind (le32At_safe (by omega)) fun _ =>
  .bind (le32At_safe (by omega)) fun _ =>
  .bind (le32At_safe (by omega)) fun _ =>
  .bind (le32At_safe (by omega)) fun _ =>
  .bind (le32At_safe (by omega)) fun _ =>
  .bind (le32At_safe (by omega)) fun _ => .pure _

/-- A font that is accepted, if any, is inside of the blob. -/
def Accepts (size : Nat) (o : Option PsfFont) : Prop :=
  ∀ f, o = some f → f.Inside size

theorem accepts_none (size : Nat) : Accepts size none :=
  fun _ h => nomatch h

theorem parsePsf2_gives (hsize : blobSize.toNat = blob.length) :
    Gives (Accepts blob.length) (parsePsf2 blob blobSize) := by
  apply Gives.ite
  · exact fun _ => .pure (accepts_none _)
  · intro hmin
    rw [UInt64.lt_iff_toNat_lt, hsize] at hmin
    refine (psf2Header_safe (Nat.not_lt.mp hmin)).andThen fun hdr => .pure ?_
    intro f hf
    rw [← hsize]
    exact hdr.font_inside hf

theorem parsePsf1_gives (hsize : blobSize.toNat = blob.length) :
    Gives (Accepts blob.length) (parsePsf1 blob blobSize) := by
  apply Gives.ite
  · exact fun _ => .pure (accepts_none _)
  intro hmin
  rw [UInt64.lt_iff_toNat_lt, hsize, Nat.not_lt] at hmin
  have hfour : 4 ≤ blob.length := hmin
  refine (byteAt_safe (by omega)).andThen fun magic0 => ?_
  refine (byteAt_safe (by omega)).andThen fun magic1 => ?_
  apply Gives.ite
  · exact fun _ => .pure (accepts_none _)
  intro _
  refine (byteAt_safe (by omega)).andThen fun mode => ?_
  refine (byteAt_safe (by omega)).andThen fun charsize => ?_
  apply Gives.ite
  · exact fun _ => .pure (accepts_none _)
  intro hzero
  apply Gives.ite
  · exact fun _ => .pure (accepts_none _)
  intro hpayload
  refine .pure ?_
  intro f hf
  cases hf
  have hcount : ((if mode &&& 0x01 ≠ 0 then 512 else 256 : UInt32)).toNat ≤ 512
      ∧ 0 < ((if mode &&& 0x01 ≠ 0 then 512 else 256 : UInt32)).toNat := by
    split_ifs
    · decide
    · decide
  have hchar : charsize.toUInt32.toNat < 256 := by
    rw [UInt8.toNat_toUInt32]
    exact charsize.toNat_lt
  have hpos : charsize.toUInt32.toNat ≠ 0 := fun h0 =>
    hzero (UInt32.toNat_inj.mp h0)
  refine ⟨hcount.2, Nat.pos_of_ne_zero hpos, Nat.le_refl 8,
    Nat.le_of_eq (Nat.mul_one _), ?_, fun _ htab => nomatch htab⟩
  rw [UInt64.lt_iff_toNat_lt, UInt64.toNat_add, Masks.toNat_mul_words, hsize] at hpayload
  have hprod : ((if mode &&& 0x01 ≠ 0 then 512 else 256 : UInt32)).toNat
      * charsize.toUInt32.toNat ≤ 512 * 256 :=
    Nat.mul_le_mul hcount.1 (Nat.le_of_lt hchar)
  rw [Nat.mod_eq_of_lt (by
    show 4 + _ < 2 ^ 64
    omega)] at hpayload
  exact Nat.not_lt.mp hpayload

theorem parseFont_gives (hsize : blobSize.toNat = blob.length) :
    Gives (Accepts blob.length) (parseFont blob blobSize) := by
  apply Gives.ite
  · exact fun _ => .pure (accepts_none _)
  intro _
  apply Gives.ite
  · intro hfour
    rw [UInt64.le_iff_toNat_le, hsize] at hfour
    have hlen : 4 ≤ blob.length := hfour
    refine (le32At_safe (by omega)).andThen fun magic32 => ?_
    apply Gives.ite
    · exact fun _ => parsePsf2_gives hsize
    · exact fun _ => parsePsf1_gives hsize
  · exact fun _ => parsePsf1_gives hsize

end parsing

-- ==== the walk

section walk

variable {blob : List UInt8} {table size : Nat} {f : PsfFont}

/-- The text of the table. -/
def tableText (blob : List UInt8) (table size : Nat) : List UInt8 :=
  (blob.drop table).take size

theorem length_tableText (h : table + size ≤ blob.length) :
    (tableText blob table size).length = size := by
  unfold tableText
  rw [List.length_take, List.length_drop]
  omega

theorem byteAt_table {index : Nat} (h : table + size ≤ blob.length)
    (hlt : index < size) :
    byteAt blob (table + index)
      = .ok ((tableText blob table size).get ⟨index, by
          rw [length_tableText h]
          exact hlt⟩) := by
  unfold byteAt tableText
  rw [dif_pos (by omega), List.get_eq_getElem, List.getElem_take,
    List.getElem_drop]

theorem takeContsAt_eq (h : table + size ≤ blob.length) {need index : Nat}
    (hroom : index + need ≤ size) (value : UInt32) :
    takeContsAt blob table need index value
      = .ok (takeConts (tableText blob table size) need index value) := by
  induction need generalizing index value with
  | zero => rfl
  | succ need ih =>
    have hlt : index < size := by omega
    have hget : (tableText blob table size).getD index 0
        = (tableText blob table size).get ⟨index, by
            rw [length_tableText h]
            exact hlt⟩ := by
      rw [List.getD_eq_getElem?_getD, List.getElem?_eq_getElem,
        Option.getD_some, List.get_eq_getElem]
    unfold takeContsAt takeConts
    dsimp only
    rw [byteAt_table h hlt, hget]
    show (if _ then _ else _) = _
    split_ifs with hcont
    · rfl
    · exact ih (by omega) _

theorem utf8NextStrictAt_eq (h : table + size ≤ blob.length) (index : Nat) :
    utf8NextStrictAt blob table size index
      = .ok (utf8NextStrict (tableText blob table size) index) := by
  have hlen := length_tableText h
  by_cases hend : size ≤ index
  · unfold utf8NextStrictAt utf8NextStrict
    rw [if_pos hend, utf8NextImpl_end true (hlen.symm ▸ hend)]
    rfl
  · have hlt : index < size := Nat.not_le.mp hend
    unfold utf8NextStrictAt utf8NextStrict utf8NextImpl
    rw [if_neg hend, byteAt_table h hlt, List.getElem?_eq_getElem (by omega)]
    have hindex : index < (tableText blob table size).length := by omega
    rw [List.get_eq_getElem]
    generalize (tableText blob table size)[index] = b0
    show (if _ then _ else _) = _
    dsimp only
    split_ifs with hascii
    · rfl
    · cases firstByte b0 with
      | none => rfl
      | some first =>
        obtain ⟨value, need, expected⟩ := first
        dsimp only
        rw [hlen]
        split_ifs with hshort
        · rfl
        · rw [takeContsAt_eq h (Nat.not_lt.mp hshort)]
          simp only [bind, Except.bind]
          cases takeConts (tableText blob table size) need (index + 1) value with
          | mk next o =>
            cases o with
            | none => rfl
            | some value =>
              dsimp only
              split_ifs
              · rfl
              · rfl

theorem decodeUtf8TableCodepoint_gives (h : table + size ≤ blob.length)
    {offset : Nat} (hlt : offset < size) :
    Gives (fun r => offset < r.2.1)
      (decodeUtf8TableCodepoint blob table size offset) := by
  unfold decodeUtf8TableCodepoint
  rw [if_neg (Nat.not_le.mpr hlt), utf8NextStrictAt_eq h]
  refine ⟨_, rfl, ?_⟩
  exact utf8NextImpl_index true (by rw [length_tableText h]; exact hlt)

theorem skipSequences_gives (h : table + size ≤ blob.length)
    {rounds offset : Nat} (hrounds : size - offset < rounds) :
    Gives (offset ≤ ·) (skipSequences blob table size rounds offset) := by
  induction rounds generalizing offset with
  | zero => exact absurd hrounds (Nat.not_lt_zero _)
  | succ rounds ih =>
    unfold skipSequences
    apply Gives.ite
    · exact fun _ => .pure (Nat.le_refl offset)
    intro hlt
    rw [Nat.not_le] at hlt
    refine (byteAt_safe (by omega)).andThen fun b => ?_
    apply Gives.ite
    · exact fun _ => .pure (Nat.le_refl offset)
    intro _
    refine (decodeUtf8TableCodepoint_gives h hlt).bind fun r hr => ?_
    obtain ⟨decoded, next, mapped⟩ := r
    dsimp only at hr ⊢
    apply Gives.ite
    · exact fun _ => (ih (by omega)).mono fun last hlast => by omega
    · exact fun _ => .pure (Nat.le_of_lt hr)

theorem unicodeLookupLoop_gives (h : table + size ≤ blob.length)
    (glyphCount codepoint : UInt32) {rounds offset : Nat} {glyph : UInt32}
    (hrounds : size - offset < rounds) :
    Gives (fun mapped => mapped = noGlyph ∨ mapped < glyphCount)
      (unicodeLookupLoop blob glyphCount codepoint table size rounds offset
        glyph) := by
  induction rounds generalizing offset glyph with
  | zero => exact absurd hrounds (Nat.not_lt_zero _)
  | succ rounds ih =>
    unfold unicodeLookupLoop
    apply Gives.ite
    · exact fun _ => .pure (Or.inl rfl)
    intro hin
    rw [not_or, Nat.not_le] at hin
    obtain ⟨hlt, hglyph⟩ := hin
    refine (byteAt_safe (by omega)).andThen fun b => ?_
    apply Gives.ite
    · exact fun _ => ih (by omega)
    intro _
    apply Gives.ite
    · intro _
      refine (skipSequences_gives h (by omega)).bind fun next hnext => ?_
      exact ih (by omega)
    intro _
    refine (decodeUtf8TableCodepoint_gives h hlt).bind fun r hr => ?_
    obtain ⟨decoded, next, mapped⟩ := r
    dsimp only at hr ⊢
    apply Gives.ite
    · exact fun _ => .pure (Or.inr (UInt32.not_le.mp hglyph))
    · exact fun _ => ih (by omega)

theorem unicodeLookup_gives (hf : f.Inside blob.length) (codepoint : UInt32) :
    Gives (fun mapped => mapped = noGlyph ∨ mapped < f.glyphCount)
      (unicodeLookup blob f codepoint) := by
  unfold unicodeLookup
  cases htable : f.unicodeTable with
  | none => exact .pure (Or.inl rfl)
  | some table =>
    exact unicodeLookupLoop_gives (hf.table table htable) _ _ (by omega)

theorem psfGlyph_gives (hf : f.Inside blob.length) (codepoint : UInt32) :
    Gives (fun o => ∃ off, o = some off ∧ f.glyphs ≤ off ∧
        off + f.bytesPerGlyph.toNat ≤ blob.length)
      (psfGlyph blob f codepoint) := by
  have hbytes : f.bytesPerGlyph ≠ 0 := by
    intro h0
    have := hf.bytes
    rw [h0] at this
    exact absurd this (Nat.lt_irrefl 0)
  -- An index in front of the number of glyphs gives a glyph.
  have hplace : ∀ index : UInt32, index < f.glyphCount →
      f.glyphs + (index.toUInt64 * f.bytesPerGlyph.toUInt64).toNat
        + f.bytesPerGlyph.toNat ≤ blob.length := by
    intro index hindex
    rw [Masks.toNat_mul_words]
    have hmul := Nat.mul_le_mul_right f.bytesPerGlyph.toNat
      (UInt32.lt_iff_toNat_lt.mp hindex)
    rw [Nat.succ_mul] at hmul
    have := hf.glyphs
    omega
  unfold psfGlyph
  rw [if_neg hbytes]
  have hmapped : Safe (if f.unicodeTable.isSome ∧ 128 ≤ codepoint then
      unicodeLookup blob f codepoint else pure noGlyph) := by
    apply Safe.ite
    · exact fun _ => (unicodeLookup_gives hf codepoint).safe
    · exact fun _ => .pure _
  refine hmapped.andThen fun mapped => .pure ⟨_, rfl, Nat.le_add_right _ _, ?_⟩
  apply hplace
  generalize (if mapped ≠ noGlyph then mapped else codepoint) = index
  split_ifs with hover hquestion
  · exact UInt32.lt_iff_toNat_lt.mpr hf.count
  · exact UInt32.not_le.mp hquestion
  · exact UInt32.not_le.mp hover

theorem glyphPixel_safe (hf : f.Inside blob.length) {off row col : Nat}
    (hoff : off + f.bytesPerGlyph.toNat ≤ blob.length)
    (hrow : row < f.height.toNat) (hcol : col < f.width.toNat) (bold : Bool) :
    row * f.bytesPerRow.toNat + col / 8 < f.bytesPerGlyph.toNat ∧
      Safe (glyphPixel blob off f.bytesPerRow.toNat bold row col) := by
  have hin : row * f.bytesPerRow.toNat + col / 8 < f.bytesPerGlyph.toNat := by
    have hmul := Nat.mul_le_mul_right f.bytesPerRow.toNat hrow
    rw [Nat.succ_mul] at hmul
    have hwidth := hf.width
    have hrows := hf.rows
    omega
  refine ⟨hin, ?_⟩
  refine .bind (byteAt_safe (by omega)) fun bits => ?_
  apply Safe.ite
  · intro _
    refine .bind (byteAt_safe ?_) fun left => .pure _
    have hleft : (col - 1) / 8 ≤ col / 8 := Nat.div_le_div_right (Nat.sub_le ..)
    omega
  · exact fun _ => .pure _

end walk

-- ==== safety

/-- Every blob is parsed without a read outside of it. Of a font that is
accepted the table walk ends, and every character has a glyph inside the
blob whose pixels, in the width and the height of the font, are read from
its own bytes. -/
theorem psf_safe {blob : List UInt8} {blobSize : UInt64}
    (hsize : blobSize.toNat = blob.length) :
    Safe (parseFont blob blobSize) ∧
      ∀ f, parseFont blob blobSize = .ok (some f) → ∀ codepoint : UInt32,
        Safe (unicodeLookup blob f codepoint) ∧
          ∃ off, psfGlyph blob f codepoint = .ok (some off) ∧
            off + f.bytesPerGlyph.toNat ≤ blob.length ∧
            ∀ row col bold, row < f.height.toNat → col < f.width.toNat →
              row * f.bytesPerRow.toNat + col / 8 < f.bytesPerGlyph.toNat ∧
                Safe (glyphPixel blob off f.bytesPerRow.toNat bold row col) := by
  have hparse := parseFont_gives hsize
  refine ⟨hparse.safe, ?_⟩
  intro f hok codepoint
  have hf : f.Inside blob.length := hparse.of_ok hok f rfl
  obtain ⟨o, hglyph, off, rfl, -, hoff⟩ := psfGlyph_gives hf codepoint
  exact ⟨(unicodeLookup_gives hf codepoint).safe, off, hglyph, hoff,
    fun row col bold hrow hcol => glyphPixel_safe hf hoff hrow hcol bold⟩

/-- A PSF1 font of 256 glyphs that have one row each. -/
def flatFont : List UInt8 := [0x36, 0x04, 0x00, 0x01] ++ List.replicate 256 0x18

/-- What it is read as. -/
def flatPsf : PsfFont where
  width := 8
  height := 1
  glyphCount := 256
  bytesPerGlyph := 1
  bytesPerRow := 1
  glyphs := 4
  unicodeTable := none
  unicodeTableSize := 0

/-- The glyph of a character that the font does not have. -/
theorem psf_safe_flat :
    parseFont flatFont 260 = .ok (some flatPsf) ∧
      ∃ off, psfGlyph flatFont flatPsf 0x20AC = .ok (some off) ∧
        off + 1 ≤ 260 ∧ Safe (glyphPixel flatFont off 1 true 0 7) := by
  have hparse : parseFont flatFont 260 = .ok (some flatPsf) := by
    decide +kernel
  obtain ⟨-, hfont⟩ := @psf_safe flatFont 260 (by decide +kernel)
  obtain ⟨-, off, hglyph, hoff, hpixels⟩ := hfont flatPsf hparse 0x20AC
  have hlength : flatFont.length = 260 := by decide +kernel
  rw [hlength] at hoff
  exact ⟨hparse, off, hglyph, hoff,
    (hpixels 0 7 true (by decide) (by decide)).2⟩

end Clks.Font
