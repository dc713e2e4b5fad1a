/-
The escape parser (tty/ansi.inc).

A sequence is collected byte for byte in the parameters, and its last byte
runs it. The numbers in it are read with the arithmetic of `u32`.
-/
import Clks.Tty.Screen

namespace Clks.Tty

open Guarded

-- ==== colours

/-- `clks_tty_ansi_clamp_255`. -/
def ansiClamp255 (value : Nat) : Nat := if 255 < value then 255 else value

/-- `steps` of `clks_tty_ansi_color_from_256`. -/
def colorStep (i : Nat) : Nat := [0, 95, 135, 175, 215, 255].getD i 0

/-- A colour from its parts. -/
def rgb (r g b : Nat) : Nat := r <<< 16 ||| g <<< 8 ||| b

/-- `clks_tty_ansi_color_from_256`. -/
def ansiColorFrom256 (index : Nat) : Nat :=
  if index < 16 then ansiPalette index
  else if index ≤ 231 then
    let n := index - 16
    rgb (colorStep (n / 36)) (colorStep (n / 6 % 6)) (colorStep (n % 6))
  else if index ≤ 255 then
    let gray := 8 + (index - 232) * 10
    rgb gray gray gray
  else defaultFg

-- ==== the numbers

/-- The loop of `clks_tty_ansi_parse_params`: the numbers that end with a
semicolon. -/
def parseNumbers (value : Nat) (hasDigit : Bool) : List UInt8 → List Nat
  | [] => []
  | ch :: rest =>
    if 0x30 ≤ ch ∧ ch ≤ 0x39 then
      parseNumbers ((value * 10 + (ch - 0x30).toNat) % 2 ^ 32) true rest
    else if ch = 0x3B then
      (if hasDigit then value else 0) :: parseNumbers 0 false rest
    else parseNumbers value hasDigit rest

/-- `clks_tty_ansi_parse_params`, of which the values are a list. -/
def ansiParseParams (params : List UInt8) (maxValues : Nat) : List Nat :=
  if params = [] then [0]
  else (parseNumbers 0 false (params ++ [0x3B])).take maxValues

/-- `clks_tty_ansi_param_or_default`. -/
def ansiParamOrDefault (params : List Nat) (index defaultValue : Nat) : Nat :=
  if params.getD index 0 = 0 then defaultValue else params.getD index 0

-- ==== clearing

/-- `clks_tty_ansi_clear_line_mode`. -/
def ansiClearLineMode (t mode : Nat) : Act Unit := do
  let y ← terminal t
  let c ← state
  let start := if mode = 0 then y.cursorCol else 0
  let stop := if mode = 1 then add32 y.cursorCol 1 else c.cols
  when (y.cursorRow < c.contentRows) do
    forRange (min start c.cols) (min stop c.cols) fun col =>
      setCell t y.cursorRow col (blank 0x20)
    when (t = c.activeIndex) do
      if c.deferDraw then dirtyMarkRow y.cursorRow
      else
        forRange (min start c.cols) (min stop c.cols) fun col =>
          drawCell t y.cursorRow col

/-- Clear a row between two columns. -/
def clearRange (t row start stop : Nat) : Act Unit :=
  forRange start stop fun col => setCell t row col (blank 0x20)

/-- What `clks_tty_ansi_clear_screen_mode` clears. -/
def clearCells (t mode cursorRow cursorCol contentRows cols : Nat) :
    Act Unit :=
  if mode = 0 then
    forRange cursorRow contentRows fun row =>
      clearRange t row (if row = cursorRow then cursorCol else 0) cols
  else if mode = 1 then
    forRange 0 (cursorRow + 1) fun row =>
      clearRange t row 0 (if row = cursorRow then cursorCol + 1 else cols)
  else
    forRange 0 contentRows fun row => clearRange t row 0 cols

/-- `clks_tty_ansi_clear_screen_mode`. -/
def ansiClearScreenMode (t mode : Nat) : Act Unit := do
  let y ← terminal t
  let c ← state
  let cursorRow :=
    if c.contentRows ≤ y.cursorRow then pred32 c.contentRows else y.cursorRow
  let cursorCol := if c.cols ≤ y.cursorCol then pred32 c.cols else y.cursorCol
  clearCells t mode cursorRow cursorCol c.contentRows c.cols
  when (mode = 3) do
    modifyTty t fun y => { y with
      scrollbackHead := 0
      scrollbackCount := 0
      scrollbackOffset := 0 }
  when (t = c.activeIndex) redrawActive

-- ==== colours and scales

def Terminal.setFg (y : Terminal) (color : Nat) : Terminal :=
  { y with currentFg := color }

def Terminal.setBg (y : Terminal) (color : Nat) : Terminal :=
  { y with currentBg := color }

def Terminal.setBold (y : Terminal) (on : Bool) : Terminal :=
  { y with ansi := { y.ansi with bold := on } }

def Terminal.setUnderline (y : Terminal) (on : Bool) : Terminal :=
  { y with ansi := { y.ansi with underline := on } }

def Terminal.setInverse (y : Terminal) (on : Bool) : Terminal :=
  { y with ansi := { y.ansi with inverse := on } }

/-- What a number does in `clks_tty_ansi_apply_sgr_params` by itself. -/
def Terminal.applySgr (y : Terminal) (code : Nat) : Terminal :=
  if code = 0 then y.resetColorState
  else if code = 1 then y.setBold true
  else if code = 4 then y.setUnderline true
  else if code = 7 then y.setInverse true
  else if code = 21 ∨ code = 22 then y.setBold false
  else if code = 24 then y.setUnderline false
  else if code = 27 then y.setInverse false
  else if code = 39 then y.setFg defaultFg
  else if code = 49 then y.setBg defaultBg
  else if 30 ≤ code ∧ code ≤ 37 then
    y.setFg (ansiPalette (if y.ansi.bold then code - 30 + 8 else code - 30))
  else if 90 ≤ code ∧ code ≤ 97 then y.setFg (ansiPalette (code - 90 + 8))
  else if 40 ≤ code ∧ code ≤ 47 then y.setBg (ansiPalette (code - 40))
  else if 100 ≤ code ∧ code ≤ 107 then y.setBg (ansiPalette (code - 100 + 8))
  else y

/-- The colour behind 38 or 48. -/
def Terminal.setColor (y : Terminal) (code color : Nat) : Terminal :=
  if code = 38 then y.setFg color else y.setBg color

/-- The loop of `clks_tty_ansi_apply_sgr_params`. -/
def Terminal.applySgrParams (y : Terminal) : List Nat → Terminal
  | [] => y
  | code :: rest =>
    if code = 38 ∨ code = 48 then
      match rest with
      | 5 :: n :: rest =>
        (y.setColor code (ansiColorFrom256 n)).applySgrParams rest
      | 2 :: r :: g :: b :: rest =>
        (y.setColor code
          (rgb (ansiClamp255 r) (ansiClamp255 g)
            (ansiClamp255 b))).applySgrParams rest
      | rest => y.applySgrParams rest
    else (y.applySgr code).applySgrParams rest

/-- `clks_tty_ansi_apply_font_scale`. -/
def Terminal.applyFontScale (y : Terminal) (values : List Nat) : Terminal :=
  { y with
    ansi := { y.ansi with
      fontScale := clampScale (ansiParamOrDefault values 0 1) } }

-- ==== moving the cursor

/-- A row or column that is moved back, but not below zero. -/
def moveBack (position n : Nat) : Nat :=
  if position < n then 0 else position - n

/-- A row or column that is moved on, but not behind the last one. -/
def moveOn (position n count : Nat) : Nat :=
  if pred32 count < add32 position n then pred32 count else add32 position n

/-- The last row or column for one that is not on the screen. -/
def clampTo (position count : Nat) : Nat :=
  if count ≤ position then pred32 count else position

def Terminal.setCursor (y : Terminal) (row col : Nat) : Terminal :=
  { y with cursorRow := row, cursorCol := col }

def Terminal.saveCursor (y : Terminal) : Terminal :=
  { y with
    ansi := { y.ansi with savedRow := y.cursorRow, savedCol := y.cursorCol } }

/-- The cursor goes where it was saved. -/
def Terminal.restoreCursor (y : Terminal) (contentRows cols : Nat) :
    Terminal :=
  y.setCursor (clampTo y.ansi.savedRow contentRows)
    (clampTo y.ansi.savedCol cols)

/-- What `clks_tty_ansi_process_csi_final` does to a terminal's own
variables. -/
def Terminal.csiFinal (y : Terminal) (contentRows cols : Nat)
    (values : List Nat) (final : Char) : Terminal :=
  let n := ansiParamOrDefault values 0 1
  if final = 'm' then y.applySgrParams values
  else if final = 'z' then y.applyFontScale values
  else if final = 'H' ∨ final = 'f' then
    y.setCursor (clampTo (n - 1) contentRows)
      (clampTo (ansiParamOrDefault values 1 1 - 1) cols)
  else if final = 'A' then y.setCursor (moveBack y.cursorRow n) y.cursorCol
  else if final = 'B' then
    y.setCursor (moveOn y.cursorRow n contentRows) y.cursorCol
  else if final = 'C' then y.setCursor y.cursorRow (moveOn y.cursorCol n cols)
  else if final = 'D' then y.setCursor y.cursorRow (moveBack y.cursorCol n)
  else if final = 'E' then y.setCursor (moveOn y.cursorRow n contentRows) 0
  else if final = 'F' then y.setCursor (moveBack y.cursorRow n) 0
  else if final = 'G' then y.setCursor y.cursorRow (clampTo (n - 1) cols)
  else if final = 'd' then
    y.setCursor (clampTo (n - 1) contentRows) y.cursorCol
  else if final = 's' then y.saveCursor
  else if final = 'u' then y.restoreCursor contentRows cols
  else y

/-- What it does where the cursor is switched on or off. -/
def setBlinkEnabled (t : Nat) (on : Bool) : Act Unit := do
  update fun c => { c with blinkEnabled := on }
  let c ← state
  when (t = c.activeIndex) (if on then drawCursor else hideCursor)

/-- `clks_tty_ansi_process_csi_final`. -/
def ansiProcessCsiFinal (t : Nat) (params : List UInt8) (final : Char) :
    Act Unit := do
  let values := ansiParseParams params 16
  let privateMode := params.head? = some 0x3F
  if final = 'J' then ansiClearScreenMode t (values.getD 0 0)
  else if final = 'K' then ansiClearLineMode t (values.getD 0 0)
  else if final = 'h' ∨ final = 'l' then
    when (privateMode ∧ values.getD 0 0 = 25) do
      setBlinkEnabled t (final = 'h')
  else
    let c ← state
    modifyTty t fun y => y.csiFinal c.contentRows c.cols values final

-- ==== the parser

/-- What is in the parameters of the sequence. -/
def paramsOf (t : Nat) : (i n : Nat) → Act (List UInt8)
  | _, 0 => return []
  | i, n + 1 => do
    let ch ← paramAt t i
    let rest ← paramsOf t (i + 1) n
    return ch :: rest

/-- The byte behind an escape. -/
def ansiEscape (t : Nat) (ch : UInt8) : Act Unit :=
  if ch = 0x5B then
    modifyTty t fun y => { y with ansi := { y.ansi with sawCsi := true } }
  else if ch = 0x37 then do
    modifyTty t Terminal.saveCursor
    resetAnsiState t
  else if ch = 0x38 then do
    let c ← state
    modifyTty t fun y => y.restoreCursor c.contentRows c.cols
    resetAnsiState t
  else resetAnsiState t

/-- A byte of the parameters, of which there are `len` before it. -/
def ansiCollect (t len : Nat) (ch : UInt8) : Act Unit :=
  if len < ansiMaxLen then do
    setParam t len ch
    modifyTty t fun y => { y with ansi := { y.ansi with len := len + 1 } }
    setParam t (len + 1) 0
  else resetAnsiState t

/-- Is it a byte of the parameters? -/
def isParam (ch : UInt8) : Prop :=
  (0x30 ≤ ch ∧ ch ≤ 0x39) ∨ ch = 0x3B ∨ ch = 0x3F

instance (ch : UInt8) : Decidable (isParam ch) :=
  inferInstanceAs (Decidable (_ ∨ _))

/-- `clks_tty_ansi_process_byte`. -/
def ansiProcessByte (t : Nat) (ch : UInt8) : Act Bool := do
  let y ← terminal t
  if y.ansi.inEscape = false then
    if ch = 0x1B then
      modifyTty t fun y => { y with
        ansi := { y.ansi with inEscape := true, sawCsi := false, len := 0 } }
      setParam t 0 0
      return true
    else
      return false
  else if y.ansi.sawCsi = false then
    ansiEscape t ch
    return true
  else if isParam ch then
    ansiCollect t y.ansi.len ch
    return true
  else
    let params ← paramsOf t 0 y.ansi.len
    ansiProcessCsiFinal t params (Char.ofUInt8 ch)
    resetAnsiState t
    return true

end Clks.Tty
