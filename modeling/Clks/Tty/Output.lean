/-
The functions that others call (tty/output.inc, tty/switch_tick.inc,
tty/scrollback_keys.inc), and the console they make together: `Console.step`
runs one of them, and a fault leaves no console behind.

The size of the screen comes from the display mode and from the font, which
may be another one each time it is looked at.
-/
import Clks.Tty.Ansi

namespace Clks.Tty

open Guarded

-- ==== the geometry

/-- `clks_display_clamp_dimension`. -/
def clampDimension (value physical minValue : Nat) : Nat :=
  if physical = 0 then 0
  else min (max value minValue) physical

/-- `clks_display_mode_set` of the terminals. -/
def Display.modeSet (d : Display) (width height : Nat) : Option Display :=
  let logicalWidth := clampDimension width d.physicalWidth 64
  let logicalHeight := clampDimension height d.physicalHeight 48
  if d.ready = false ∨ logicalWidth = 0 ∨ logicalHeight = 0 then none
  else
    some { d with logicalWidth := logicalWidth, logicalHeight := logicalHeight }

/-- `clks_display_width`. -/
def Display.width (d : Display) : Nat := if d.ready then d.logicalWidth else 0

/-- `clks_display_height`. -/
def Display.height (d : Display) : Nat :=
  if d.ready then d.logicalHeight else 0

/-- The default for a font that says nothing. -/
def orEight (n : Nat) : Nat := if n = 0 then 8 else n

/-- `clks_tty_recompute_geometry`. -/
def Console.recomputeGeometry (c : Console) : Console :=
  { c with
    cellWidth := orEight c.font.halfCellWidth
    cellHeight := orEight c.font.cellHeight
    rows := min (c.display.height / orEight c.font.cellHeight) maxRows
    cols := min (c.display.width / orEight c.font.halfCellWidth) maxCols }

/-- What `clks_tty_init` does to each terminal. -/
def initTty (t : Nat) : Act Unit := do
  modifyTty t fun y => y.setCursor 0 0
  resetColorState t
  resetAnsiState t
  clearTty t

/-- `clks_tty_init`. -/
def init : Act Unit := do
  let c ← state
  if c.fbReady = false then update fun c => { c with isReady := false }
  else
    update Console.recomputeGeometry
    let c ← state
    if c.rows = 0 ∨ c.cols = 0 then
      update fun c => { c with isReady := false }
    else
      forRange 0 ttyCount initTty
      update fun c => { c with
        activeIndex := 0
        isReady := true
        cursorVisible := false
        blinkEnabled := true
        deferDraw := false
        deferredScrollRows := 0 }
      dirtyReset
      resetBlinkTimer
      redrawActive

/-- The part of `clks_tty_set_resolution` behind the new geometry. -/
def applyGeometry : Act Unit := do
  let c ← state
  when (c.activeIndex < ttyCount) do
    modifyTty c.activeIndex fun y =>
      y.setCursor (clampTo y.cursorRow c.contentRows)
        (clampTo y.cursorCol c.cols)
  setCursorVisible false
  dirtyReset
  redrawActive
  resetBlinkTimer

/-- `clks_tty_set_resolution`. -/
def setResolution (width height : Nat) : Act Bool := do
  let c ← state
  match c.display.modeSet width height with
  | none => return false
  | some display =>
    update fun c => { c with display := display }
    update Console.recomputeGeometry
    let c ← state
    if c.rows = 0 ∨ c.cols = 0 then
      return false
    else
      applyGeometry
      return true

-- ==== writing

/-- `clks_tty_utf8_emit_byte`. -/
def utf8EmitByte (t : Nat) (byte : UInt8) : Act Unit := do
  let y ← terminal t
  let (state, status) := Text.decodeByte y.utf8 byte
  modifyTty t fun y => { y with utf8 := state }
  match status with
  | .needMore => return
  | .codepoint codepoint => putCodepointRaw t codepoint
  | .replacement => putCodepointRaw t Text.replacement

/-- What is done with each byte that is written. -/
def writeByte (t : Nat) (byte : UInt8) : Act Unit := do
  let taken ← ansiProcessByte t byte
  when (taken = false) (utf8EmitByte t byte)

/-- The loop over the bytes. -/
def writeBytes (t : Nat) : List UInt8 → Act Unit
  | [] => return
  | byte :: rest => do
    writeByte t byte
    writeBytes t rest

/-- `clks_tty_flush_dirty`. -/
def flushDirty : Act Unit := do
  let c ← state
  when (c.isReady ∧ c.dirtyAny) do
    let y ← terminal c.activeIndex
    (if y.scrollbackIsActive then redrawActive
      else
        forRange 0 c.contentRows fun row => do
          let (mark, colStart, colEnd) ← dirtyAt row
          when (mark = true ∧ colStart < c.cols) do
            forRange colStart (min colEnd (c.cols - 1) + 1) fun col =>
              drawCell c.activeIndex row col)
    dirtyReset

/-- What `clks_tty_write_n_internal` does before the bytes go to the
terminal that is shown. -/
def beginShown (t : Nat) : Act Unit := do
  update fun c => { c with deferredScrollRows := 0 }
  hideCursor
  let y ← terminal t
  when y.scrollbackIsActive do
    scrollbackFollowTail t
    redrawActive

/-- What it does behind them. -/
def endShown : Act Unit := do
  let c ← state
  when (0 < c.deferredScrollRows) do
    draw (.scrollUp (c.deferredScrollRows * c.cellHeight) defaultBg)
    update fun c => { c with deferredScrollRows := 0 }
  flushDirty
  drawCursor
  drawStatusBar
  resetBlinkTimer

/-- `clks_tty_write_n_internal` of a terminal that there is. -/
def writeTo (t : Nat) (text : List UInt8) : Act Unit := do
  let active ← view Console.activeIndex
  when (t = active) (beginShown t)
  update fun c => { c with deferDraw := true }
  writeBytes t text
  update fun c => { c with deferDraw := false }
  when (t = active) endShown

/-- `clks_tty_write_n_internal`. -/
def writeNInternal (t : Nat) (text : List UInt8) : Act Unit := do
  let c ← state
  when (c.isReady = true ∧ text ≠ []) do
    writeTo (if ttyCount ≤ t then c.activeIndex else t) text

/-- `clks_tty_write_n`. -/
def writeN (text : List UInt8) : Act Unit := do
  let active ← view Console.activeIndex
  writeNInternal active text

/-- `clks_tty_clear_active`. -/
def clearActive : Act Unit := do
  let c ← state
  when (c.isReady = true) do
    hideCursor
    clearTty c.activeIndex
    update fun c => { c with deferredScrollRows := 0, cursorVisible := false }
    dirtyReset
    resetBlinkTimer
    redrawActive

-- ==== switches and ticks

/-- `clks_tty_switch`. -/
def switch (t : Nat) : Act Unit := do
  let c ← state
  when (c.isReady = true ∧ t < ttyCount) do
    hideCursor
    update fun c => { c with
      activeIndex := t
      cursorVisible := false
      deferredScrollRows := 0 }
    redrawActive
    resetBlinkTimer

/-- `clks_tty_tick` of a terminal that shows its cursor. -/
def blink (tick : UInt64) : Act Unit := do
  let c ← state
  if c.blinkLastTick = blinkTickUnset then
    update fun c => { c with blinkLastTick := tick }
    when (c.cursorVisible = false) drawCursor
  else if tick < c.blinkLastTick then
    update fun c => { c with blinkLastTick := tick }
  else
    when (cursorBlinkIntervalTicks ≤ tick - c.blinkLastTick) do
      update fun c => { c with blinkLastTick := tick }
      if c.cursorVisible then hideCursor else drawCursor

/-- `clks_tty_tick`. -/
def tick (tick : UInt64) : Act Unit := do
  let c ← state
  when (c.isReady ∧ c.blinkEnabled) do
    if c.activeIndex = desktopIndex then setCursorVisible false
    else
      let y ← terminal c.activeIndex
      if y.scrollbackIsActive then setCursorVisible false
      else blink tick

-- ==== the scrollback

/-- Scroll the terminal that is shown, and draw it. -/
def moveOffset (t offset : Nat) : Act Unit := do
  let y ← terminal t
  when (offset ≠ y.scrollbackOffset) do
    modifyTty t fun y => { y with scrollbackOffset := offset }
    redrawActive
    resetBlinkTimer

/-- `clks_tty_scrollback_page_up`. -/
def scrollbackPageUp : Act Unit := do
  let c ← state
  let t := c.activeIndex
  when (c.isReady = true ∧ t ≠ desktopIndex) do
    let y ← terminal t
    when (y.scrollbackCount ≠ 0) do
      hideCursor
      let offset ← clampedOffset t
      moveOffset t (min (offset + c.pageStep) y.scrollbackCount)

/-- `clks_tty_scrollback_page_down`. -/
def scrollbackPageDown : Act Unit := do
  let c ← state
  let t := c.activeIndex
  when (c.isReady = true ∧ t ≠ desktopIndex) do
    let offset ← clampedOffset t
    when (offset ≠ 0) do
      hideCursor
      moveOffset t (offset - c.pageStep)

/-- `clks_tty_redraw_active` and `clks_tty_reset_blink_timer`. -/
def redraw : Act Unit := do
  redrawActive
  resetBlinkTimer

/-- No match is known of a query that was changed. -/
def forgetMatch (t : Nat) : Act Unit :=
  modifyTty t fun y => { y with
    searchHasMatch := false
    searchNotFound := false }

/-- The last byte of the query is taken away. -/
def eraseQuery (t : Nat) : Act Unit := do
  let y ← terminal t
  when (0 < y.searchLen) do
    modifyTty t fun z => { z with searchLen := y.searchLen - 1 }
    setQuery t (y.searchLen - 1) 0
    forgetMatch t

/-- A byte is put to the query. -/
def extendQuery (t : Nat) (ch : UInt8) : Act Unit := do
  let y ← terminal t
  when (y.searchLen + 1 < searchMax) do
    setQuery t y.searchLen ch
    modifyTty t fun z => { z with searchLen := y.searchLen + 1 }
    setQuery t (y.searchLen + 1) 0
    forgetMatch t

/-- The query is done. -/
def stopEditing (t : Nat) : Act Unit :=
  modifyTty t fun y => { y with
    searchEditing := false
    searchNotFound := false }

/-- A search, whatever it finds. -/
def findNext (t : Nat) (reverse : Bool) : Act Unit := do
  let _ ← searchFind t reverse

/-- `clks_tty_scrollback_handle_key` while a query is edited. -/
def editKey (t : Nat) (ch : UInt8) : Act Bool := do
  if ch = 27 then
    stopEditing t
    redraw
    return true
  else if ch = 8 ∨ ch = 127 then
    eraseQuery t
    redraw
    return true
  else if ch = 0x0A ∨ ch = 0x0D then
    modifyTty t fun y => { y with searchEditing := false }
    let y ← terminal t
    when (0 < y.searchLen) (findNext t false)
    redraw
    return true
  else if 0x20 ≤ ch ∧ ch ≤ 0x7E then
    extendQuery t ch
    redraw
    return true
  else
    return true

/-- `clks_tty_scrollback_handle_key` while none is edited. -/
def scrollKey (t : Nat) (ch : UInt8) : Act Bool := do
  if ch = 0x2F then
    modifyTty t fun y => { y with searchEditing := true, searchLen := 0 }
    setQuery t 0 0
    forgetMatch t
    redraw
    return true
  else if ch = 0x6E ∨ ch = 0x4E then
    let y ← terminal t
    when (0 < y.searchLen) do
      findNext t (ch = 0x4E)
      redraw
    return true
  else if ch = 27 then
    stopEditing t
    redraw
    return true
  else
    return false

/-- `clks_tty_scrollback_handle_key`. -/
def scrollbackHandleKey (ch : UInt8) : Act Bool := do
  let c ← state
  let t := c.activeIndex
  if c.isReady = false ∨ t = desktopIndex then return false
  else
    let y ← terminal t
    if y.searchEditing then editKey t ch
    else if y.scrollbackIsActive then scrollKey t ch
    else return false

-- ==== the console

/-- The calls of the console, and what changes the display and the font
under it. -/
inductive Op
  | init
  | write (t : Nat) (text : List UInt8)
  | writeActive (text : List UInt8)
  | clear
  | switch (t : Nat)
  | tick (tick : UInt64)
  | pageUp
  | pageDown
  | key (ch : UInt8)
  | statusRefresh
  | setResolution (width height : Nat)
  | outside (fbReady : Bool) (font : Font) (display : Display)

def Op.run : Op → Act Unit
  | .init => Tty.init
  | .write t text => writeNInternal t text
  | .writeActive text => writeN text
  | .clear => clearActive
  | .switch t => Tty.switch t
  | .tick n => Tty.tick n
  | .pageUp => scrollbackPageUp
  | .pageDown => scrollbackPageDown
  | .key ch => do
    let _ ← scrollbackHandleKey ch
  | .statusRefresh => Tty.statusRefresh
  | .setResolution width height => do
    let _ ← Tty.setResolution width height
  | .outside fbReady font display =>
    update fun c => { c with
      fbReady := fbReady
      font := font
      display := display }

/-- The console behind a call, unless it has a fault. -/
def Console.step (c : Console) (op : Op) : Option Console :=
  (op.run c).map Prod.snd

/-- A change of the resolution leaves a row and a column. -/
def Console.Leaves (c : Console) : Op → Prop
  | .setResolution width height =>
    ∀ display, c.display.modeSet width height = some display →
      0 < ({ c with display := display }).recomputeGeometry.rows ∧
        0 < ({ c with display := display }).recomputeGeometry.cols
  | _ => True

/-- A terminal's variables before the first call. -/
def Terminal.zero : Terminal where
  cells := fun _ _ => ⟨0, 0, 0, 0, 0⟩
  cursorRow := 0
  cursorCol := 0
  currentFg := 0
  currentBg := 0
  ansi := ⟨false, false, false, false, false, 0, 0, 0, 0, fun _ => 0⟩
  utf8 := ⟨0, 0, 0⟩
  lineScale := 0
  scrollback := fun _ _ => ⟨0, 0, 0, 0, 0⟩
  scrollbackHead := 0
  scrollbackCount := 0
  scrollbackOffset := 0
  searchQuery := fun _ => 0
  searchLen := 0
  searchEditing := false
  searchHasMatch := false
  searchNotFound := false
  searchMatchDoc := 0

/-- The console before the first call. -/
def boot : Console where
  ttys := fun _ => .zero
  rows := 0
  cols := 0
  activeIndex := 0
  cellWidth := 8
  cellHeight := 8
  isReady := false
  cursorVisible := false
  blinkEnabled := true
  deferDraw := false
  dirtyAny := false
  dirtyRows := fun _ => false
  dirtyColMin := fun _ => 0
  dirtyColMax := fun _ => 0
  deferredScrollRows := 0
  blinkLastTick := blinkTickUnset
  fbReady := false
  font := ⟨8, 8⟩
  display := ⟨false, 0, 0, 0, 0⟩
  drawn := []

/-- The consoles that calls lead to, if no change of the resolution takes
the last row or column. -/
inductive Reachable : Console → Prop
  | boot : Reachable boot
  | step {c c' : Console} {op : Op} (h : Reachable c) (hleaves : c.Leaves op)
      (hstep : c.step op = some c') : Reachable c'

end Clks.Tty
