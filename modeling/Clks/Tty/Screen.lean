/-
The screen of a terminal (tty/screen.inc): its rows, the cursor, and
putting a character.

A loop that scrolls while a row lies below the screen counts that row
down. Where the screen has no rows at all it would count below zero and go
on: that is a fault.
-/
import Clks.Tty.Drawing

namespace Clks.Tty

open Guarded

-- ==== the rows

/-- A cleared cell. -/
def blank (codepoint : UInt32) : Cell :=
  ⟨codepoint, defaultFg, defaultBg, styleNone, 1⟩

/-- The state that `clks_tty_reset_color_state` leaves. -/
def Terminal.resetColorState (y : Terminal) : Terminal :=
  { y with
    currentFg := defaultFg
    currentBg := defaultBg
    ansi := { y.ansi with
      bold := false
      underline := false
      inverse := false
      fontScale := 1 } }

/-- `clks_tty_reset_color_state`. -/
def resetColorState (t : Nat) : Act Unit :=
  modifyTty t Terminal.resetColorState

/-- `clks_tty_reset_ansi_state`. -/
def resetAnsiState (t : Nat) : Act Unit := do
  modifyTty t fun y => { y with
    ansi := { y.ansi with inEscape := false, sawCsi := false, len := 0 } }
  setParam t 0 0
  modifyTty t fun y => { y with utf8 := .reset }

/-- `clks_tty_fill_row`. -/
def fillRow (t row : Nat) (codepoint : UInt32) : Act Unit := do
  let cols ← view Console.cols
  forRange 0 cols fun col => setCell t row col (blank codepoint)

/-- `clks_tty_clear_tty`. -/
def clearTty (t : Nat) : Act Unit := do
  let contentRows ← view Console.contentRows
  forRange 0 contentRows fun row => fillRow t row 0x20
  modifyTty t fun y => { y with
    cursorRow := 0
    cursorCol := 0
    lineScale := 1
    scrollbackHead := 0
    scrollbackCount := 0
    scrollbackOffset := 0 }
  setQuery t 0 0
  modifyTty t fun y => { y with
    searchLen := 0
    searchEditing := false
    searchHasMatch := false
    searchNotFound := false
    searchMatchDoc := 0 }

-- ==== the cursor

/-- Note whether the cursor is drawn. -/
def setCursorVisible (b : Bool) : Act Unit :=
  update fun c => { c with cursorVisible := b }

/-- `clks_tty_hide_cursor`. -/
def hideCursor : Act Unit := do
  let c ← state
  when (c.isReady ∧ c.cursorVisible) do
    let y ← terminal c.activeIndex
    when (¬ y.scrollbackIsActive ∧ y.cursorRow < c.contentRows ∧
        y.cursorCol < c.cols) do
      drawCell c.activeIndex y.cursorRow y.cursorCol
    setCursorVisible false

/-- `clks_tty_draw_cursor`. -/
def drawCursor : Act Unit := do
  let c ← state
  when (c.isReady = true) do
    if c.activeIndex = desktopIndex then setCursorVisible false
    else
      let y ← terminal c.activeIndex
      if y.scrollbackIsActive ∨ c.contentRows ≤ y.cursorRow ∨
          c.cols ≤ y.cursorCol then
        setCursorVisible false
      else
        let cell ← cellAt c.activeIndex y.cursorRow y.cursorCol
        drawCellWithColors y.cursorRow y.cursorCol
          { cell with fg := cell.bg, bg := cell.fg }
        setCursorVisible true

/-- `clks_tty_draw_scrollbar`. -/
def drawScrollbar (scrollCount scrollOffset : Nat) : Act Unit := do
  let c ← state
  let docRows := scrollCount + c.contentRows
  let trackW := min scrollbarW c.cellWidth
  let trackX := c.cols * c.cellWidth - trackW
  let trackH := c.contentRows * c.cellHeight
  when (scrollOffset ≠ 0 ∧ c.cols ≠ 0 ∧ c.cellWidth ≠ 0 ∧ c.cellHeight ≠ 0 ∧
      c.contentRows ≠ 0 ∧ scrollCount ≠ 0 ∧ trackH ≠ 0) do
    let thumbH := min (max (trackH * c.contentRows / docRows) c.cellHeight)
      trackH
    let thumbY :=
      if trackH = thumbH then 0
      else (trackH - thumbH) * (scrollCount - scrollOffset)
        / (docRows - c.contentRows)
    draw (.fillRect trackX 0 trackW trackH scrollbarTrack)
    draw (.fillRect trackX thumbY trackW thumbH scrollbarThumb)

/-- `clks_tty_redraw_active`. -/
def redrawActive : Act Unit := do
  let t ← view Console.activeIndex
  let scrollOffset ← clampedOffset t
  let y ← terminal t
  let c ← state
  let startDoc := y.scrollbackCount - scrollOffset
  draw (.clear defaultBg)
  setCursorVisible false
  update fun c => { c with deferredScrollRows := 0 }
  dirtyReset
  forRange 0 c.contentRows fun row =>
    if startDoc + row < y.scrollbackCount then
      forRange 0 c.cols fun col => do
        let cell ← scrollbackAt t (y.logicalToPhysical (startDoc + row)) col
        drawCellWithColors row col cell
    else
      when (startDoc + row - y.scrollbackCount < c.contentRows) do
        forRange 0 c.cols fun col => do
          let cell ← cellAt t (startDoc + row - y.scrollbackCount) col
          drawCellWithColors row col cell
  (if scrollOffset = 0 then drawCursor
    else drawScrollbar y.scrollbackCount scrollOffset)
  drawStatusBar

-- ==== scrolling

/-- What of `clks_tty_scroll_up` is drawn. -/
def drawScrolled (t : Nat) : Act Unit := do
  let c ← state
  let y ← terminal t
  if y.scrollbackIsActive then redrawActive
  else if c.deferDraw then
    when (c.deferredScrollRows < c.contentRows) do
      update fun c => { c with deferredScrollRows := c.deferredScrollRows + 1 }
    dirtyShiftUpOne
    dirtyMarkRow (pred32 c.contentRows)
  else
    draw (.scrollUp c.cellHeight defaultBg)
    forRange 0 c.cols fun col => drawCell t (pred32 c.contentRows) col

/-- `clks_tty_scroll_up`. -/
def scrollUp (t : Nat) : Act Unit := do
  let c ← state
  modifyTty t fun y => { y with
    lineScale := if 1 < y.lineScale then y.lineScale - 1 else y.lineScale }
  scrollbackPushRow t 0
  forRange 1 c.contentRows fun row =>
    forRange 0 c.cols fun col => do
      let cell ← cellAt t row col
      setCell t (row - 1) col cell
  fillRow t (pred32 c.contentRows) 0x20
  when (t = c.activeIndex) (drawScrolled t)

/-- `while (row >= clks_tty_content_rows()) { clks_tty_scroll_up(t); row--; }`,
and the row behind it. -/
def scrollFrom (t : Nat) : Nat → Act Nat
  | 0 => do
    let contentRows ← view Console.contentRows
    if contentRows = 0 then fault else pure 0
  | row + 1 => do
    let contentRows ← view Console.contentRows
    if contentRows ≤ row + 1 then do
      scrollUp t
      scrollFrom t row
    else pure (row + 1)

/-- Assign to the row of the cursor. -/
def setCursorRow (t row : Nat) : Act Unit :=
  modifyTty t fun y => { y with cursorRow := row }

/-- The same loop where the row is that of the cursor. -/
def scrollCursor (t : Nat) : Nat → Act Unit
  | 0 => do
    let contentRows ← view Console.contentRows
    if contentRows = 0 then fault else pure ()
  | row + 1 => do
    let contentRows ← view Console.contentRows
    when (contentRows ≤ row + 1) do
      scrollUp t
      setCursorRow t row
      scrollCursor t row

/-- The loop that scrolls until so many rows from the cursor on are on the
screen, or the cursor is in the first one. -/
def makeRoom (t scale : Nat) : Nat → Act Unit
  | 0 => do
    let contentRows ← view Console.contentRows
    when (contentRows < add32 0 scale) (scrollUp t)
  | row + 1 => do
    let contentRows ← view Console.contentRows
    when (contentRows < add32 (row + 1) scale) do
      scrollUp t
      setCursorRow t row
      makeRoom t scale row

-- ==== putting a character

/-- The cells that a character takes, with what is drawn of them. -/
def putSpan (t row col spanRows spanCols : Nat) (cell : Cell) : Act Unit := do
  forRange 0 spanRows fun rr =>
    forRange 0 spanCols fun cc =>
      setCell t (row + rr) (col + cc)
        (if rr = 0 ∧ cc = 0 then cell
          else { cell with codepoint := cellContinuation })
  let c ← state
  when (t = c.activeIndex) do
    if c.deferDraw then
      forRange 0 spanRows fun rr => dirtyMarkRow (row + rr)
    else
      forRange 0 spanRows fun rr =>
        forRange 0 spanCols fun cc => drawCell t (row + rr) (col + cc)
      drawCell t row col

/-- How a character is put into cells. -/
def Terminal.cell (y : Terminal) (codepoint : UInt32) : Cell where
  codepoint := codepoint
  fg := if y.ansi.inverse then y.currentBg else y.currentFg
  bg := if y.ansi.inverse then y.currentFg else y.currentBg
  style := (if y.ansi.bold then styleBold else styleNone)
    + (if y.ansi.underline then styleUnderline else styleNone)
  scale := clampScale y.ansi.fontScale

/-- `clks_tty_put_visible`. -/
def putVisible (t row col : Nat) (codepoint : UInt32) : Act Unit := do
  let y ← terminal t
  let c ← state
  let scale := clampScale y.ansi.fontScale
  let codeWidth := codepointWidth codepoint
  when (row < c.contentRows ∧ col < c.cols ∧ codeWidth ≠ 0) do
    let spanRows :=
      if c.contentRows < add32 row scale then c.contentRows - row else scale
    let spanCols :=
      if c.cols < add32 col (scale * codeWidth) then c.cols - col
      else scale * codeWidth
    when (spanRows ≠ 0 ∧ spanCols ≠ 0) do
      putSpan t row col spanRows spanCols (y.cell codepoint)

/-- `clks_tty_advance_after_visible`. -/
def advanceAfterVisible (t widthCells : Nat) : Act Unit := do
  modifyTty t fun y => { y with cursorCol := add32 y.cursorCol widthCells }
  let y ← terminal t
  let cols ← view Console.cols
  when (cols ≤ y.cursorCol) do
    let row ← scrollFrom t (add32 y.cursorRow y.lineScale)
    modifyTty t fun y => { y with
      cursorRow := row
      cursorCol := 0
      lineScale := 1 }

/-- The next line: the cursor goes down, and the screen up where it has to. -/
def nextLine (t : Nat) : Act Unit := do
  modifyTty t fun y => { y with
    cursorCol := 0
    cursorRow := add32 y.cursorRow y.lineScale
    lineScale := 1 }
  let y ← terminal t
  scrollCursor t y.cursorRow

/-- `clks_tty_put_codepoint_raw` of `'\b'`. -/
def putBackspace (t : Nat) : Act Unit := do
  let y ← terminal t
  let cols ← view Console.cols
  when (y.cursorCol ≠ 0 ∨ y.cursorRow ≠ 0) do
    let row := if y.cursorCol = 0 then y.cursorRow - 1 else y.cursorRow
    let col := if y.cursorCol = 0 then pred32 cols else y.cursorCol - 1
    modifyTty t fun y => { y with ansi := { y.ansi with fontScale := 1 } }
    putVisible t row col 0x20
    modifyTty t fun z => { z with
      cursorRow := row
      cursorCol := col
      ansi := { z.ansi with fontScale := y.ansi.fontScale } }

/-- What `clks_tty_put_codepoint_raw` does before a character that is wide
or scaled. -/
def fitWide (t scale advanceWidth : Nat) : Act Unit := do
  let y ← terminal t
  makeRoom t scale y.cursorRow
  let cols ← view Console.cols
  when (cols < add32 y.cursorCol advanceWidth) do
    nextLine t
    let y ← terminal t
    makeRoom t scale y.cursorRow
  modifyTty t fun y => { y with
    lineScale := if y.lineScale < scale then scale else y.lineScale }

/-- `clks_tty_put_codepoint_raw` of a character that is no control. -/
def putPrinted (t : Nat) (codepoint : UInt32) : Act Unit := do
  let y ← terminal t
  let scale := clampScale y.ansi.fontScale
  let charWidth := codepointWidth codepoint
  let advanceWidth := scale * charWidth
  when (advanceWidth ≠ 0) do
    when (1 < scale ∨ 1 < charWidth) (fitWide t scale advanceWidth)
    let y ← terminal t
    putVisible t y.cursorRow y.cursorCol codepoint
    advanceAfterVisible t advanceWidth

/-- `clks_tty_put_codepoint_raw`. -/
def putCodepointRaw (t : Nat) (codepoint : UInt32) : Act Unit :=
  if codepoint = 0x0D then
    modifyTty t fun y => { y with cursorCol := 0 }
  else if codepoint = 0x0A then nextLine t
  else if codepoint = 0x08 then putBackspace t
  else if codepoint = 0x09 then do
    putPrinted t 0x20
    putPrinted t 0x20
    putPrinted t 0x20
    putPrinted t 0x20
  else putPrinted t codepoint

end Clks.Tty
