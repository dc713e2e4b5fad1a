/-
The two UTF-8 decoders (unicode.rs).

`decodeByte` is fed one byte at a time and keeps what it has of a sequence
in a state of its own; the terminal draws with it. `utf8Next` walks over a
string with an index; texts are counted and measured with it. Both answer
a sequence that is cut off, overlong, a surrogate or out of range with the
replacement character.
-/
import Mathlib

namespace Clks.Text

-- ==== both decoders

/-- `REPLACEMENT`. -/
abbrev replacement : UInt32 := 0xFFFD

def isCont (byte : UInt8) : Bool := byte &&& 0xC0 = 0x80

def validFinished (codepoint : UInt32) (expected : UInt8) : Bool :=
  !((expected = 2 && codepoint < 0x80)
    || (expected = 3 && codepoint < 0x800)
    || (expected = 4 && codepoint < 0x10000)
    || 0x10FFFF < codepoint
    || (0xD800 ≤ codepoint && codepoint ≤ 0xDFFF))

/-- The six bits of a continuation byte behind those that are there. -/
def shiftIn (value : UInt32) (byte : UInt8) : UInt32 :=
  (value <<< 6) ||| (byte &&& 0x3F).toUInt32

-- ==== one byte after another

/-- `struct ClksRustUtf8State`. -/
structure Utf8State where
  codepoint : UInt32
  remaining : UInt8
  expected : UInt8
  deriving DecidableEq, Repr

/-- `clks_rust_utf8_state_reset`. -/
def Utf8State.reset : Utf8State := ⟨0, 0, 0⟩

/-- `UTF8_STATUS_*`, with what is in `out_codepoint`. -/
inductive Utf8Status
  | needMore
  | codepoint (c : UInt32)
  | replacement
  deriving DecidableEq, Repr

/-- `clks_rust_utf8_decode_byte`. -/
def decodeByte (state : Utf8State) (byte : UInt8) :
    Utf8State × Utf8Status :=
  if state.remaining = 0 then
    if byte < 0x80 then (state, .codepoint byte.toUInt32)
    else if byte &&& 0xE0 = 0xC0 then
      (⟨(byte &&& 0x1F).toUInt32, 1, 2⟩, .needMore)
    else if byte &&& 0xF0 = 0xE0 then
      (⟨(byte &&& 0x0F).toUInt32, 2, 3⟩, .needMore)
    else if byte &&& 0xF8 = 0xF0 then
      (⟨(byte &&& 0x07).toUInt32, 3, 4⟩, .needMore)
    else (state, .replacement)
  else if !isCont byte then (.reset, .replacement)
  else
    let state :=
      { state with
        codepoint := shiftIn state.codepoint byte
        remaining := state.remaining - 1 }
    if state.remaining ≠ 0 then (state, .needMore)
    else if validFinished state.codepoint state.expected then
      (.reset, .codepoint state.codepoint)
    else (.reset, .replacement)

/-- The character that a status stands for. -/
def Utf8Status.chars : Utf8Status → List UInt32
  | .needMore => []
  | .codepoint c => [c]
  | .replacement => [Text.replacement]

/-- Feed all bytes of a string. -/
def feed : Utf8State → List UInt8 → List UInt32
  | _, [] => []
  | state, byte :: rest =>
    (decodeByte state byte).2.chars ++ feed (decodeByte state byte).1 rest

/-- What a string says, byte after byte. -/
def streamed (input : List UInt8) : List UInt32 := feed .reset input

-- ==== by the index

/-- The loop over the continuation bytes: the index behind the last byte
that was read, and the value unless that byte was none. -/
def takeConts (input : List UInt8) : Nat → Nat → UInt32 → Nat × Option UInt32
  | 0, index, value => (index, some value)
  | need + 1, index, value =>
    let bx := input.getD index 0
    if !isCont bx then (index + 1, none)
    else takeConts input need (index + 1) (shiftIn value bx)

/-- The bits of a first byte, how many bytes follow it, and `expected`. -/
def firstByte (b0 : UInt8) : Option (UInt32 × Nat × UInt8) :=
  if b0 &&& 0xE0 = 0xC0 then some ((b0 &&& 0x1F).toUInt32, 1, 2)
  else if b0 &&& 0xF0 = 0xE0 then some ((b0 &&& 0x0F).toUInt32, 2, 3)
  else if b0 &&& 0xF8 = 0xF0 then some ((b0 &&& 0x07).toUInt32, 3, 4)
  else none

/-- `clks_rust_utf8_next_impl`: what it returns, `*io_index`, and what it
writes to `*out_codepoint`. -/
def utf8NextImpl (strict : Bool) (input : List UInt8) (index : Nat) :
    Bool × Nat × Option UInt32 :=
  match input[index]? with
  | none => (false, index, none)
  | some b0 =>
    let index := index + 1
    if b0 < 0x80 then (true, index, some b0.toUInt32)
    else
      match firstByte b0 with
      | none => (!strict, index, some replacement)
      | some (value, need, expected) =>
        if input.length < index + need then
          (!strict, input.length, some replacement)
        else
          match takeConts input need index value with
          | (index, none) => (!strict, index, some replacement)
          | (index, some value) =>
            if validFinished value expected then (true, index, some value)
            else (!strict, index, some replacement)

/-- `clks_rust_utf8_next`. -/
def utf8Next : List UInt8 → Nat → Bool × Nat × Option UInt32 :=
  utf8NextImpl false

/-- `clks_rust_utf8_next_strict`. -/
def utf8NextStrict : List UInt8 → Nat → Bool × Nat × Option UInt32 :=
  utf8NextImpl true

theorem takeConts_index (input : List UInt8) (need index : Nat)
    (value : UInt32) : index ≤ (takeConts input need index value).1 := by
  induction need generalizing index value with
  | zero => exact Nat.le_refl _
  | succ need ih =>
    unfold takeConts
    dsimp only
    split
    · exact Nat.le_succ index
    · exact Nat.le_trans (Nat.le_succ index) (ih _ _)

theorem utf8NextImpl_index (strict : Bool) {input : List UInt8}
    {index : Nat} (hlt : index < input.length) :
    index < (utf8NextImpl strict input index).2.1 := by
  unfold utf8NextImpl
  rw [List.getElem?_eq_getElem hlt]
  dsimp only
  split
  · exact Nat.lt_succ_self index
  · split
    · exact Nat.lt_succ_self index
    · next value need expected _ =>
      have hle := takeConts_index input need (index + 1) value
      split
      · exact hlt
      · split
        · next hconts => rw [hconts] at hle; exact hle
        · next hconts =>
          rw [hconts] at hle
          split
          · exact hle
          · exact hle

theorem utf8NextImpl_end (strict : Bool) {input : List UInt8} {index : Nat}
    (h : input.length ≤ index) :
    utf8NextImpl strict input index = (false, index, none) := by
  unfold utf8NextImpl
  rw [List.getElem?_eq_none h]

/-- Walk over a string from an index on, until `utf8Next` returns 0. -/
def utf8Walk (input : List UInt8) (index : Nat) : List UInt32 :=
  match _h : utf8Next input index with
  | (true, next, c) => c.toList ++ utf8Walk input next
  | (false, _, _) => []
termination_by input.length - index
decreasing_by
  have hlt : index < input.length := by
    refine Nat.lt_of_not_le fun hle => ?_
    rw [utf8Next, utf8NextImpl_end false hle] at _h
    cases _h
  have hnext := utf8NextImpl_index false hlt
  rw [← utf8Next, _h] at hnext
  dsimp only at hnext
  omega

/-- What a string says, by the index. -/
def indexed (input : List UInt8) : List UInt32 := utf8Walk input 0

-- ==== widths

/-- Is the codepoint in one of the ranges? -/
def inRanges (ranges : List (UInt32 × UInt32)) (codepoint : UInt32) : Bool :=
  ranges.any fun range => range.1 ≤ codepoint && codepoint ≤ range.2

/-- What is drawn over the character before it. -/
def combining : List (UInt32 × UInt32) :=
  [(0x0300, 0x036F), (0x0483, 0x0489), (0x0591, 0x05BD), (0x05BF, 0x05BF),
    (0x05C1, 0x05C2), (0x05C4, 0x05C5), (0x05C7, 0x05C7), (0x0610, 0x061A),
    (0x064B, 0x065F), (0x0670, 0x0670), (0x06D6, 0x06DC), (0x06DF, 0x06E4),
    (0x06E7, 0x06E8), (0x06EA, 0x06ED), (0x1AB0, 0x1AFF), (0x1DC0, 0x1DFF),
    (0x20D0, 0x20FF), (0xFE00, 0xFE0F), (0xE0100, 0xE01EF), (0x200D, 0x200D)]

/-- Symbols two cells wide. -/
def wideSymbols : List (UInt32 × UInt32) :=
  [(0x1F000, 0x1FAFF), (0x2600, 0x27BF)]

/-- Letters two cells wide. -/
def wideLetters : List (UInt32 × UInt32) :=
  [(0x1100, 0x115F), (0x2329, 0x2329), (0x232A, 0x232A), (0x2E80, 0xA4CF),
    (0xAC00, 0xD7A3), (0xF900, 0xFAFF), (0xFE10, 0xFE19), (0xFE30, 0xFE6F),
    (0xFF00, 0xFF60), (0xFFE0, 0xFFE6), (0x20000, 0x3FFFD)]

/-- `clks_rust_unicode_width`. -/
def unicodeWidth (codepoint : UInt32) : Nat :=
  if codepoint = 0 then 0
  else if inRanges combining codepoint then 0
  else if inRanges wideSymbols codepoint then 2
  else if codepoint < 0x1100 then 1
  else if inRanges wideLetters codepoint then 2
  else 1

end Clks.Text
