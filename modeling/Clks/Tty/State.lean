/-
The text terminals (interface/tty.c): the static variables, and the
accesses to them.

There are four terminals, and each has its cells, a ring of lines that
left the screen, a cursor, and what its escape parser has read of a
sequence. The number of rows and columns is one for all of them, and it
may shrink while the cursors of those that are not shown stay where they
are.
-/
import Clks.Lib.Guarded
import Clks.Text.Unicode

namespace Clks.Tty

-- ==== the constants

abbrev ttyCount : Nat := 4
abbrev maxRows : Nat := 128
abbrev maxCols : Nat := 256

abbrev defaultFg : Nat := 0x00E6E6E6
abbrev defaultBg : Nat := 0x00101010
abbrev cursorBlinkIntervalTicks : UInt64 := 5
abbrev blinkTickUnset : UInt64 := 0xFFFFFFFFFFFFFFFF
abbrev desktopIndex : Nat := 1
abbrev ansiMaxLen : Nat := 95
abbrev scrollbackLines : Nat := 256
abbrev styleNone : Nat := 0
abbrev styleBold : Nat := 1
abbrev styleUnderline : Nat := 2
abbrev cellContinuation : UInt32 := 0
abbrev fontScaleMin : Nat := 1
abbrev fontScaleMax : Nat := 3
abbrev scrollbarTrack : Nat := 0x002A2A2A
abbrev scrollbarThumb : Nat := 0x00A8A8A8
abbrev scrollbarW : Nat := 4
abbrev searchMax : Nat := 32

/-- A sum of two `u32`. -/
def add32 (a b : Nat) : Nat := (a + b) % 2 ^ 32

/-- `a - 1U`. -/
def pred32 (a : Nat) : Nat := if a = 0 then 0xFFFFFFFF else a - 1

theorem pred32_lt {a b : Nat} (ha : 0 < a) (hab : a ≤ b) : pred32 a < b := by
  unfold pred32
  rw [if_neg (by omega)]
  omega

-- ==== the data

/-- What the five arrays hold of a cell. -/
structure Cell where
  codepoint : UInt32
  fg : Nat
  bg : Nat
  style : Nat
  scale : Nat
  deriving DecidableEq, Repr

/-- `clks_tty_ansi_state`. -/
structure AnsiState where
  inEscape : Bool
  sawCsi : Bool
  bold : Bool
  underline : Bool
  inverse : Bool
  fontScale : Nat
  savedRow : Nat
  savedCol : Nat
  len : Nat
  params : Nat → UInt8

/-- What the arrays hold of one terminal. -/
structure Terminal where
  cells : Nat → Nat → Cell
  cursorRow : Nat
  cursorCol : Nat
  currentFg : Nat
  currentBg : Nat
  ansi : AnsiState
  utf8 : Text.Utf8State
  lineScale : Nat
  scrollback : Nat → Nat → Cell
  scrollbackHead : Nat
  scrollbackCount : Nat
  scrollbackOffset : Nat
  searchQuery : Nat → UInt8
  searchLen : Nat
  searchEditing : Bool
  searchHasMatch : Bool
  searchNotFound : Bool
  searchMatchDoc : Nat

/-- What the framebuffer is called for. -/
inductive Draw
  | clear (rgb : Nat)
  | scrollUp (pixelRows rgb : Nat)
  | fillRect (x y width height rgb : Nat)
  | codepoint (x y : Nat) (codepoint : UInt32)
      (fg bg style scaleX scaleY clipWidth clipHeight : Nat)
  | statusBar (row : Nat)
  deriving DecidableEq, Repr

/-- What `display.c` keeps of the screen and of the mode of the terminals. -/
structure Display where
  ready : Bool
  physicalWidth : Nat
  physicalHeight : Nat
  logicalWidth : Nat
  logicalHeight : Nat
  deriving DecidableEq, Repr

/-- The size of a glyph of the framebuffer's font. -/
structure Font where
  halfCellWidth : Nat
  cellHeight : Nat
  deriving DecidableEq, Repr

/-- The static variables. -/
structure Console where
  ttys : Nat → Terminal
  rows : Nat
  cols : Nat
  activeIndex : Nat
  cellWidth : Nat
  cellHeight : Nat
  isReady : Bool
  cursorVisible : Bool
  blinkEnabled : Bool
  deferDraw : Bool
  dirtyAny : Bool
  dirtyRows : Nat → Bool
  dirtyColMin : Nat → Nat
  dirtyColMax : Nat → Nat
  deferredScrollRows : Nat
  blinkLastTick : UInt64
  fbReady : Bool
  font : Font
  display : Display
  drawn : List Draw

/-- What the code does with them. -/
abbrev Act := Guarded Console

-- ==== the accesses

/-- A terminal's variables. -/
def terminal (t : Nat) : Act Terminal := do
  Guarded.check (t < ttyCount)
  Guarded.view fun c => c.ttys t

theorem terminal_apply {t : Nat} (ht : t < ttyCount) (c : Console) :
    terminal t c = some (c.ttys t, c) := by
  unfold terminal
  rw [Guarded.check_pos ht]
  rfl

/-- The console with another terminal `t`. -/
def Console.setTty (c : Console) (t : Nat) (y : Terminal) : Console :=
  { c with ttys := Function.update c.ttys t y }

theorem setTty_self (c : Console) (t : Nat) (y : Terminal) :
    (c.setTty t y).ttys t = y :=
  Function.update_self ..

theorem setTty_setTty (c : Console) (t : Nat) (y z : Terminal) :
    (c.setTty t y).setTty t z = c.setTty t z := by
  unfold Console.setTty
  rw [Function.update_idem]

/-- Assign to some of a terminal's variables. -/
def modifyTty (t : Nat) (f : Terminal → Terminal) : Act Unit := do
  Guarded.check (t < ttyCount)
  Guarded.update fun c => c.setTty t (f (c.ttys t))

theorem modifyTty_apply {t : Nat} {f : Terminal → Terminal} {c : Console}
    (ht : t < ttyCount) : modifyTty t f c = some ((), c.setTty t (f (c.ttys t))) := by
  unfold modifyTty
  rw [Guarded.check_pos ht]
  rfl

/-- Read a cell. -/
def cellAt (t row col : Nat) : Act Cell := do
  Guarded.check (t < ttyCount ∧ row < maxRows ∧ col < maxCols)
  Guarded.view fun c => (c.ttys t).cells row col

/-- Write a cell. -/
def setCell (t row col : Nat) (cell : Cell) : Act Unit := do
  Guarded.check (row < maxRows ∧ col < maxCols)
  modifyTty t fun y => { y with
    cells := Function.update y.cells row
      (Function.update (y.cells row) col cell) }

/-- Read a cell of the scrollback. -/
def scrollbackAt (t slot col : Nat) : Act Cell := do
  Guarded.check (t < ttyCount ∧ slot < scrollbackLines ∧ col < maxCols)
  Guarded.view fun c => (c.ttys t).scrollback slot col

/-- Write a cell of the scrollback. -/
def setScrollback (t slot col : Nat) (cell : Cell) : Act Unit := do
  Guarded.check (slot < scrollbackLines ∧ col < maxCols)
  modifyTty t fun y => { y with
    scrollback := Function.update y.scrollback slot
      (Function.update (y.scrollback slot) col cell) }

/-- Write a byte of the escape parameters. -/
def setParam (t i : Nat) (ch : UInt8) : Act Unit := do
  Guarded.check (i < ansiMaxLen + 1)
  modifyTty t fun y => { y with
    ansi := { y.ansi with params := Function.update y.ansi.params i ch } }

/-- Read a byte of the escape parameters. -/
def paramAt (t i : Nat) : Act UInt8 := do
  Guarded.check (t < ttyCount ∧ i < ansiMaxLen + 1)
  Guarded.view fun c => (c.ttys t).ansi.params i

/-- Write a byte of the query. -/
def setQuery (t i : Nat) (ch : UInt8) : Act Unit := do
  Guarded.check (i < searchMax)
  modifyTty t fun y => { y with
    searchQuery := Function.update y.searchQuery i ch }

/-- Read a byte of the query. -/
def queryAt (t i : Nat) : Act UInt8 := do
  Guarded.check (t < ttyCount ∧ i < searchMax)
  Guarded.view fun c => (c.ttys t).searchQuery i

/-- The marks of a row that is to be drawn again. -/
def dirtyAt (row : Nat) : Act (Bool × Nat × Nat) := do
  Guarded.check (row < maxRows)
  Guarded.view fun c => (c.dirtyRows row, c.dirtyColMin row, c.dirtyColMax row)

/-- Assign to them. -/
def setDirty (row : Nat) (mark : Bool) (colMin colMax : Nat) : Act Unit := do
  Guarded.check (row < maxRows)
  Guarded.update fun c => { c with
    dirtyRows := Function.update c.dirtyRows row mark
    dirtyColMin := Function.update c.dirtyColMin row colMin
    dirtyColMax := Function.update c.dirtyColMax row colMax }

/-- A call of the framebuffer. -/
def draw (d : Draw) : Act Unit :=
  Guarded.update fun c => { c with drawn := c.drawn ++ [d] }

-- ==== small functions

/-- `clks_tty_content_rows`. -/
def Console.contentRows (c : Console) : Nat :=
  if 1 < c.rows then c.rows - 1 else c.rows

/-- `clks_tty_scrollback_is_active`. -/
def Terminal.scrollbackIsActive (y : Terminal) : Prop := 0 < y.scrollbackOffset

instance (y : Terminal) : Decidable y.scrollbackIsActive :=
  inferInstanceAs (Decidable (0 < y.scrollbackOffset))

/-- `clks_tty_scrollback_logical_to_physical`. -/
def Terminal.logicalToPhysical (y : Terminal) (logicalIndex : Nat) : Nat :=
  if y.scrollbackCount < scrollbackLines then logicalIndex
  else add32 y.scrollbackHead logicalIndex % scrollbackLines

/-- `clks_tty_scrollback_page_step`. -/
def Console.pageStep (c : Console) : Nat :=
  if 2 < c.contentRows then c.contentRows - 2 else 1

/-- `clks_tty_clamp_scale`. -/
def clampScale (scale : Nat) : Nat :=
  if scale < fontScaleMin then fontScaleMin
  else if fontScaleMax < scale then fontScaleMax
  else scale

/-- `clks_tty_codepoint_width`. -/
def codepointWidth (codepoint : UInt32) : Nat := Text.unicodeWidth codepoint

end Clks.Tty
