/-
Drawing the terminals, their scrollback and the search in it
(tty/draw_dirty.inc, tty/scrollback_search.inc, tty/status.inc).
-/
import Clks.Tty.State

namespace Clks.Tty

open Guarded

-- ==== drawing

/-- `clks_tty_ansi_palette`. -/
def ansiPalette (index : Nat) : Nat :=
  [0x00000000, 0x00CD3131, 0x000DBC79, 0x00E5E510, 0x002472C8, 0x00BC3FBC,
    0x0011A8CD, 0x00E5E5E5, 0x00666666, 0x00F14C4C, 0x0023D18B, 0x00F5F543,
    0x003B8EEA, 0x00D670D6, 0x0029B8DB, 0x00FFFFFF].getD index defaultFg

/-- `clks_tty_reset_blink_timer`. -/
def resetBlinkTimer : Act Unit :=
  update fun c => { c with blinkLastTick := blinkTickUnset }

/-- `clks_tty_draw_cell_with_colors`. -/
def drawCellWithColors (row col : Nat) (cell : Cell) : Act Unit :=
  when (cell.codepoint ≠ cellContinuation) do
    let c ← state
    let scale := clampScale cell.scale
    let areaW := c.cellWidth * codepointWidth cell.codepoint * scale
    let areaH := c.cellHeight * scale
    draw (.fillRect (col * c.cellWidth) (row * c.cellHeight) areaW areaH
      cell.bg)
    draw (.codepoint (col * c.cellWidth) (row * c.cellHeight) cell.codepoint
      cell.fg cell.bg cell.style scale scale areaW areaH)

/-- `clks_tty_draw_cell`. -/
def drawCell (t row col : Nat) : Act Unit := do
  let cell ← cellAt t row col
  drawCellWithColors row col cell

/-- `clks_tty_dirty_reset`. -/
def dirtyReset : Act Unit := do
  forRange 0 maxRows fun row => setDirty row false maxCols 0
  update fun c => { c with dirtyAny := false }

/-- `clks_tty_dirty_mark_row`. -/
def dirtyMarkRow (row : Nat) : Act Unit := do
  let c ← state
  when (row < c.contentRows ∧ row < maxRows) do
    setDirty row true 0 (if 0 < c.cols then c.cols - 1 else 0)
    update fun c => { c with dirtyAny := true }

/-- `clks_tty_dirty_shift_up_one`. -/
def dirtyShiftUpOne : Act Unit := do
  let contentRows ← view Console.contentRows
  when (contentRows ≠ 0) do
    forRange 1 contentRows fun row => do
      let (mark, colMin, colMax) ← dirtyAt row
      setDirty (row - 1) mark colMin colMax
    setDirty (contentRows - 1) false maxCols 0
    let found ← findRange 0 contentRows fun row => do
      let (mark, _) ← dirtyAt row
      return mark
    update fun c => { c with dirtyAny := found.isSome }

-- ==== the scrollback

/-- `clks_tty_scrollback_clamped_offset`. -/
def clampedOffset (t : Nat) : Act Nat := do
  let y ← terminal t
  when (y.scrollbackCount < y.scrollbackOffset) do
    modifyTty t fun y => { y with scrollbackOffset := y.scrollbackCount }
  return min y.scrollbackOffset y.scrollbackCount

/-- `clks_tty_scrollback_push_row`. -/
def scrollbackPushRow (t row : Nat) : Act Unit := do
  let cols ← view Console.cols
  let y ← terminal t
  let slot := y.scrollbackHead
  forRange 0 cols fun col => do
    let cell ← cellAt t row col
    setScrollback t slot col cell
  modifyTty t fun y => { y with
    scrollbackHead := add32 slot 1 % scrollbackLines
    scrollbackCount :=
      if y.scrollbackCount < scrollbackLines then y.scrollbackCount + 1
      else y.scrollbackCount }

/-- `clks_tty_scrollback_follow_tail`. -/
def scrollbackFollowTail (t : Nat) : Act Unit :=
  modifyTty t fun y => { y with scrollbackOffset := 0 }

/-- `clks_tty_ascii_tolower`. -/
def asciiTolower (codepoint : UInt32) : UInt32 :=
  if 0x41 ≤ codepoint ∧ codepoint ≤ 0x5A then codepoint + 0x20
  else codepoint

/-- What a search sees in a cell. -/
def Cell.searched (cell : Cell) : UInt32 :=
  if cell.codepoint = cellContinuation then 0x20 else cell.codepoint

/-- `clks_tty_doc_char_at`. -/
def docCharAt (t docIndex col : Nat) : Act UInt32 := do
  let c ← state
  if ttyCount ≤ t ∨ c.cols ≤ col then
    return 0x20
  else
    let y ← terminal t
    if docIndex < y.scrollbackCount then
      let cell ← scrollbackAt t (y.logicalToPhysical docIndex) col
      return cell.searched
    else if docIndex - y.scrollbackCount < c.contentRows then
      let cell ← cellAt t (docIndex - y.scrollbackCount) col
      return cell.searched
    else
      return 0x20

/-- `clks_tty_doc_row_contains_query`. -/
def docRowContainsQuery (t docIndex : Nat) : Act Bool := do
  let c ← state
  if ttyCount ≤ t ∨ c.cols = 0 then
    return false
  else
    let y ← terminal t
    let queryLen := y.searchLen
    if queryLen = 0 ∨ searchMax ≤ queryLen ∨ c.cols < queryLen then
      return false
    else
      let found ← findRange 0 (c.cols + 1 - queryLen) fun col => do
        let differs ← findRange 0 queryLen fun q => do
          let left ← docCharAt t docIndex (col + q)
          let right ← queryAt t q
          return asciiTolower left != asciiTolower right.toUInt32
        return differs.isNone
      return found.isSome

/-- `clks_tty_scroll_to_doc_row`. -/
def scrollToDocRow (t docIndex : Nat) : Act Unit :=
  when (t < ttyCount) do
    modifyTty t fun y => { y with
      scrollbackOffset := y.scrollbackCount - docIndex }

/-- The line from which `clks_tty_search_find` goes on. -/
def searchStart (t : Nat) : Act Nat := do
  let y ← terminal t
  if y.searchHasMatch ∧ y.searchMatchDoc < y.scrollbackCount then
    return y.searchMatchDoc
  else
    let offset ← clampedOffset t
    return y.scrollbackCount - offset

/-- The line that it looks at in a round. -/
def searchCandidate (reverse : Bool) (startDoc docRows i : Nat) : Nat :=
  if reverse then (startDoc + docRows - i) % docRows
  else (startDoc + i) % docRows

/-- `clks_tty_search_find`. -/
def searchFind (t : Nat) (reverse : Bool) : Act Bool :=
  if ttyCount ≤ t then return false
  else do
    let y ← terminal t
    let docRows := y.scrollbackCount
    if y.searchLen = 0 ∨ docRows = 0 then
      return false
    else
      let startDoc ← searchStart t
      let found ← findRange 1 (docRows + 1) fun i =>
        docRowContainsQuery t (searchCandidate reverse startDoc docRows i)
      match found with
      | some i =>
        modifyTty t fun y => { y with
          searchHasMatch := true
          searchNotFound := false
          searchMatchDoc := searchCandidate reverse startDoc docRows i }
        scrollToDocRow t (searchCandidate reverse startDoc docRows i)
        return true
      | none =>
        modifyTty t fun y => { y with searchNotFound := true }
        return false

-- ==== the status bar

/-- `clks_tty_draw_status_bar`. -/
def drawStatusBar : Act Unit := do
  let c ← state
  when (c.isReady ∧ 1 < c.rows ∧ c.activeIndex ≠ desktopIndex) do
    let _ ← clampedOffset c.activeIndex
    draw (.statusBar (c.rows - 1))

/-- `clks_tty_status_refresh`. -/
def statusRefresh : Act Unit := do
  let c ← state
  when (c.isReady = true) drawStatusBar

end Clks.Tty
