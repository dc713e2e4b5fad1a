/-
Every index is inside its array.

What the arrays ask for is little: at most as many rows and columns as
there are, at least one of each, and heads, counts and lengths within
their bounds (`Console.Fits`). Nothing is asked of the cursors. Those of
the terminals that are not shown may lie outside of the screen after a
change of the resolution, and each function that indexes with a cursor
compares it first.
-/
import Clks.Tty.Output

namespace Clks.Tty

open Guarded

-- ==== the invariant

/-- A size that the arrays have room for. -/
structure Geometry where
  rows : Nat
  cols : Nat
  rows_pos : 0 < rows
  rows_le : rows ≤ maxRows
  cols_pos : 0 < cols
  cols_le : cols ≤ maxCols

/-- What is asked of a terminal's own variables. -/
structure Terminal.Fits (y : Terminal) : Prop where
  head : y.scrollbackHead < scrollbackLines
  count : y.scrollbackCount ≤ scrollbackLines
  len : y.ansi.len ≤ ansiMaxLen
  query : y.searchLen < searchMax

/-- What is asked of the console, for a size of the screen. -/
structure Console.Fits (g : Geometry) (c : Console) : Prop where
  rows : c.rows = g.rows
  cols : c.cols = g.cols
  active : c.activeIndex < ttyCount
  ttys : ∀ t, (c.ttys t).Fits

variable {g : Geometry} {α : Type} {t : Nat}

namespace Console.Fits

variable {c : Console}

theorem contentRows_le (hc : c.Fits g) : c.contentRows ≤ maxRows := by
  have hle := g.rows_le
  unfold Console.contentRows
  rw [hc.rows]
  split <;> omega

theorem cols_le (hc : c.Fits g) : c.cols ≤ maxCols := by
  rw [hc.cols]
  exact g.cols_le

theorem contentRows_pos (hc : c.Fits g) : 0 < c.contentRows := by
  have hpos := g.rows_pos
  unfold Console.contentRows
  rw [hc.rows]
  split <;> omega

theorem lastCol_lt (hc : c.Fits g) : pred32 c.cols < maxCols := by
  refine pred32_lt ?_ hc.cols_le
  rw [hc.cols]
  exact g.cols_pos

theorem lastRow_lt (hc : c.Fits g) : pred32 c.contentRows < maxRows :=
  pred32_lt hc.contentRows_pos hc.contentRows_le

end Console.Fits

theorem Terminal.Fits.slot {y : Terminal} (hy : y.Fits) {docIndex : Nat}
    (h : docIndex < y.scrollbackCount) :
    y.logicalToPhysical docIndex < scrollbackLines := by
  have hcount := hy.count
  unfold Terminal.logicalToPhysical
  split
  · omega
  · exact Nat.mod_lt _ (by decide)

-- ==== the accesses

theorem keeps_terminalBind {k : Terminal → Act α} (ht : t < ttyCount)
    (hk : ∀ y, y.Fits → Keeps (Console.Fits g) (k y)) :
    Keeps (Console.Fits g) (terminal t >>= k) := by
  intro c hc
  obtain ⟨a, c', hrun, hc'⟩ := hk (c.ttys t) (hc.ttys t) c hc
  refine ⟨a, c', ?_, hc'⟩
  rw [← hrun]
  unfold terminal check
  rw [if_pos ht]
  rfl

theorem keeps_modifyTty {f : Terminal → Terminal} (ht : t < ttyCount)
    (hf : ∀ y, y.Fits → (f y).Fits) :
    Keeps (Console.Fits g) (modifyTty t f) := by
  refine .checkBind ht (.update fun c hc => ⟨hc.rows, hc.cols, hc.active, ?_⟩)
  intro u
  show (Function.update c.ttys t (f (c.ttys t)) u).Fits
  by_cases hu : u = t
  · rw [hu, Function.update_self]
    exact hf _ (hc.ttys t)
  · rw [Function.update_of_ne hu]
    exact hc.ttys u

/-- What is asked of a terminal is about these. -/
def Terminal.sizes (y : Terminal) : Nat × Nat × Nat × Nat :=
  (y.scrollbackHead, y.scrollbackCount, y.ansi.len, y.searchLen)

/-- What is asked of the console is about these. -/
def Console.frame (c : Console) : Nat × Nat × Nat × (Nat → Terminal) :=
  (c.rows, c.cols, c.activeIndex, c.ttys)

theorem keeps_modifySame {f : Terminal → Terminal} (ht : t < ttyCount)
    (hf : ∀ y, (f y).sizes = y.sizes) :
    Keeps (Console.Fits g) (modifyTty t f) := by
  refine keeps_modifyTty ht fun y hy => ?_
  have hsame := hf y
  simp only [Terminal.sizes, Prod.mk.injEq] at hsame
  obtain ⟨hhead, hcount, hlen, hquery⟩ := hsame
  exact ⟨hhead ▸ hy.head, hcount ▸ hy.count, hlen ▸ hy.len, hquery ▸ hy.query⟩

theorem keeps_update {f : Console → Console}
    (hf : ∀ c, (f c).frame = c.frame) : Keeps (Console.Fits g) (update f) := by
  refine .update fun c hc => ?_
  have hsame := hf c
  simp only [Console.frame, Prod.mk.injEq] at hsame
  obtain ⟨hrows, hcols, hactive, httys⟩ := hsame
  exact ⟨hrows ▸ hc.rows, hcols ▸ hc.cols, hactive ▸ hc.active,
    httys ▸ hc.ttys⟩

theorem keeps_view {f : Console → α} : Keeps (Console.Fits g) (view f) :=
  fun c hc => ⟨f c, c, rfl, hc⟩

theorem keeps_draw (d : Draw) : Keeps (Console.Fits g) (draw d) :=
  keeps_update fun _ => rfl

section

variable {row col i slot : Nat}

theorem keeps_cellAt (ht : t < ttyCount) (hrow : row < maxRows)
    (hcol : col < maxCols) : Keeps (Console.Fits g) (cellAt t row col) :=
  .checkBind ⟨ht, hrow, hcol⟩ keeps_view

theorem keeps_setCell {cell : Cell} (ht : t < ttyCount) (hrow : row < maxRows)
    (hcol : col < maxCols) : Keeps (Console.Fits g) (setCell t row col cell) :=
  .checkBind ⟨hrow, hcol⟩ (keeps_modifySame ht fun _ => rfl)

theorem keeps_scrollbackAt (ht : t < ttyCount) (hslot : slot < scrollbackLines)
    (hcol : col < maxCols) :
    Keeps (Console.Fits g) (scrollbackAt t slot col) :=
  .checkBind ⟨ht, hslot, hcol⟩ keeps_view

theorem keeps_setScrollback {cell : Cell} (ht : t < ttyCount)
    (hslot : slot < scrollbackLines) (hcol : col < maxCols) :
    Keeps (Console.Fits g) (setScrollback t slot col cell) :=
  .checkBind ⟨hslot, hcol⟩ (keeps_modifySame ht fun _ => rfl)

theorem keeps_setParam {ch : UInt8} (ht : t < ttyCount) (hi : i ≤ ansiMaxLen) :
    Keeps (Console.Fits g) (setParam t i ch) :=
  .checkBind (Nat.lt_succ_of_le hi) (keeps_modifySame ht fun _ => rfl)

theorem keeps_paramAt (ht : t < ttyCount) (hi : i < ansiMaxLen) :
    Keeps (Console.Fits g) (paramAt t i) :=
  .checkBind ⟨ht, Nat.lt_succ_of_lt hi⟩ keeps_view

theorem keeps_setQuery {ch : UInt8} (ht : t < ttyCount) (hi : i < searchMax) :
    Keeps (Console.Fits g) (setQuery t i ch) :=
  .checkBind hi (keeps_modifySame ht fun _ => rfl)

theorem keeps_queryAt (ht : t < ttyCount) (hi : i < searchMax) :
    Keeps (Console.Fits g) (queryAt t i) :=
  .checkBind ⟨ht, hi⟩ keeps_view

theorem keeps_dirtyAt (hrow : row < maxRows) :
    Keeps (Console.Fits g) (dirtyAt row) :=
  .checkBind hrow keeps_view

theorem keeps_setDirty {mark : Bool} {colMin colMax : Nat}
    (hrow : row < maxRows) :
    Keeps (Console.Fits g) (setDirty row mark colMin colMax) :=
  .checkBind hrow (keeps_update fun _ => rfl)

end

-- ==== drawing

theorem keeps_drawCellWithColors (row col : Nat) (cell : Cell) :
    Keeps (Console.Fits g) (drawCellWithColors row col cell) := by
  refine .when fun _ => .stateBind fun c hc => ?_
  exact .bind (keeps_draw _) fun _ => keeps_draw _

theorem keeps_drawCell {row col : Nat} (ht : t < ttyCount)
    (hrow : row < maxRows) (hcol : col < maxCols) :
    Keeps (Console.Fits g) (drawCell t row col) :=
  .bind (keeps_cellAt ht hrow hcol) fun _ => keeps_drawCellWithColors _ _ _

theorem keeps_resetBlinkTimer : Keeps (Console.Fits g) resetBlinkTimer :=
  keeps_update fun _ => rfl

theorem keeps_setCursorVisible (b : Bool) :
    Keeps (Console.Fits g) (setCursorVisible b) :=
  keeps_update fun _ => rfl

theorem keeps_dirtyReset : Keeps (Console.Fits g) dirtyReset := by
  refine .bind (.forRange fun row _ hrow => keeps_setDirty hrow) fun _ => ?_
  exact keeps_update fun _ => rfl

theorem keeps_dirtyMarkRow (row : Nat) :
    Keeps (Console.Fits g) (dirtyMarkRow row) := by
  refine .stateBind fun c hc => .when fun hrow => ?_
  refine .bind (keeps_setDirty hrow.2) fun _ => ?_
  exact keeps_update fun _ => rfl

theorem keeps_dirtyShiftUpOne : Keeps (Console.Fits g) dirtyShiftUpOne := by
  refine .viewBind fun c hc => .when fun _ => ?_
  have hpos := hc.contentRows_pos
  have hle := hc.contentRows_le
  refine .bind (.forRange fun row hone hrow => ?_) fun _ => ?_
  · refine .bind (keeps_dirtyAt (by omega)) fun _ => ?_
    exact keeps_setDirty (by omega)
  refine .bind (keeps_setDirty (by omega)) fun _ => ?_
  refine .bind (.findRange fun row _ hrow => ?_) fun _ => ?_
  · exact .bind (keeps_dirtyAt (by omega)) fun _ => .pure _
  · exact keeps_update fun _ => rfl

-- ==== the scrollback

theorem keeps_clampedOffset (ht : t < ttyCount) :
    Keeps (Console.Fits g) (clampedOffset t) := by
  refine keeps_terminalBind ht fun y hy => .bind (.when fun _ => ?_) fun _ =>
    .pure _
  exact keeps_modifySame ht fun _ => rfl

theorem keeps_scrollbackPushRow {row : Nat} (ht : t < ttyCount)
    (hrow : row < maxRows) :
    Keeps (Console.Fits g) (scrollbackPushRow t row) := by
  refine .viewBind fun c hc => keeps_terminalBind ht fun y hy => ?_
  have hcols := hc.cols_le
  refine .bind (.forRange fun col _ hcol => ?_) fun _ => ?_
  · refine .bind (keeps_cellAt ht hrow (by omega)) fun _ => ?_
    exact keeps_setScrollback ht hy.head (by omega)
  · refine keeps_modifyTty ht fun z hz => ⟨?_, ?_, hz.len, hz.query⟩
    · exact Nat.mod_lt _ (by decide)
    · have hcount := hz.count
      show (if z.scrollbackCount < scrollbackLines then z.scrollbackCount + 1
        else z.scrollbackCount) ≤ scrollbackLines
      split <;> omega

theorem keeps_docCharAt (t docIndex col : Nat) :
    Keeps (Console.Fits g) (docCharAt t docIndex col) := by
  refine .stateBind fun c hc => .ite (fun _ => .pure _) fun hin => ?_
  have hcols := hc.cols_le
  have hrows := hc.contentRows_le
  have ht : t < ttyCount := by omega
  refine keeps_terminalBind ht fun y hy => .ite (fun hdoc => ?_) fun _ => ?_
  · exact .bind (keeps_scrollbackAt ht (hy.slot hdoc) (by omega)) fun _ =>
      .pure _
  · refine .ite (fun hrow => ?_) fun _ => .pure _
    exact .bind (keeps_cellAt ht (by omega) (by omega)) fun _ => .pure _

theorem keeps_docRowContainsQuery (t docIndex : Nat) :
    Keeps (Console.Fits g) (docRowContainsQuery t docIndex) := by
  refine .stateBind fun c hc => .ite (fun _ => .pure _) fun hin => ?_
  have ht : t < ttyCount := by omega
  refine keeps_terminalBind ht fun y hy => .ite (fun _ => .pure _) fun hq => ?_
  refine .bind (.findRange fun col _ _ => ?_) fun _ => .pure _
  refine .bind (.findRange fun q _ hlt => ?_) fun _ => .pure _
  refine .bind (keeps_docCharAt _ _ _) fun _ => ?_
  exact .bind (keeps_queryAt ht (by omega)) fun _ => .pure _

theorem keeps_searchStart (ht : t < ttyCount) :
    Keeps (Console.Fits g) (searchStart t) := by
  refine keeps_terminalBind ht fun y hy => .ite (fun _ => .pure _) fun _ => ?_
  exact .bind (keeps_clampedOffset ht) fun _ => .pure _

theorem keeps_searchFind (t : Nat) (reverse : Bool) :
    Keeps (Console.Fits g) (searchFind t reverse) := by
  refine .ite (fun _ => .pure _) fun hlt => ?_
  have ht : t < ttyCount := by omega
  refine keeps_terminalBind ht fun y hy => .ite (fun _ => .pure _) fun _ => ?_
  refine .bind (keeps_searchStart ht) fun start => ?_
  refine .bind (.findRange fun i _ _ => keeps_docRowContainsQuery _ _)
    fun found => ?_
  cases found with
  | none =>
    refine .bind ?_ fun _ => .pure _
    exact keeps_modifySame ht fun _ => rfl
  | some i =>
    refine .bind ?_ fun _ => .bind (.when fun _ => ?_) fun _ => .pure _
    · exact keeps_modifySame ht fun _ => rfl
    · exact keeps_modifySame ht fun _ => rfl

theorem keeps_drawStatusBar : Keeps (Console.Fits g) drawStatusBar := by
  refine .stateBind fun c hc => .when fun _ => ?_
  exact .bind (keeps_clampedOffset hc.active) fun _ => keeps_draw _

-- ==== the screen

theorem keeps_resetAnsiState (ht : t < ttyCount) :
    Keeps (Console.Fits g) (resetAnsiState t) := by
  refine .bind (keeps_modifyTty ht fun y hy => ?_) fun _ => ?_
  · exact ⟨hy.head, hy.count, Nat.zero_le _, hy.query⟩
  refine .bind (keeps_setParam ht (Nat.zero_le _)) fun _ => ?_
  exact keeps_modifySame ht fun _ => rfl

theorem keeps_fillRow {row : Nat} (codepoint : UInt32) (ht : t < ttyCount)
    (hrow : row < maxRows) : Keeps (Console.Fits g) (fillRow t row codepoint) := by
  refine .viewBind fun c hc => ?_
  have hcols := hc.cols_le
  exact .forRange fun col _ hcol => keeps_setCell ht hrow (by omega)

theorem keeps_clearTty (ht : t < ttyCount) :
    Keeps (Console.Fits g) (clearTty t) := by
  refine .viewBind fun c hc => ?_
  have hle := hc.contentRows_le
  refine .bind (.forRange fun row _ hrow => keeps_fillRow _ ht (by omega))
    fun _ => .bind (keeps_modifyTty ht fun y hy => ?_) fun _ =>
    .bind (keeps_setQuery ht (by decide)) fun _ =>
    keeps_modifyTty ht fun y hy => ?_
  · exact ⟨Nat.zero_lt_succ _, Nat.zero_le _, hy.len, hy.query⟩
  · exact ⟨hy.head, hy.count, hy.len, Nat.zero_lt_succ _⟩

theorem keeps_hideCursor : Keeps (Console.Fits g) hideCursor := by
  refine .stateBind fun c hc => .when fun _ => ?_
  have hrows := hc.contentRows_le
  have hcols := hc.cols_le
  refine keeps_terminalBind hc.active fun y hy => ?_
  refine .bind (.when fun hin => ?_) fun _ => keeps_setCursorVisible false
  exact keeps_drawCell hc.active (by omega) (by omega)

theorem keeps_drawCursor : Keeps (Console.Fits g) drawCursor := by
  refine .stateBind fun c hc => .when fun _ => ?_
  have hrows := hc.contentRows_le
  have hcols := hc.cols_le
  refine .ite (fun _ => keeps_setCursorVisible false) fun _ => ?_
  refine keeps_terminalBind hc.active fun y hy => ?_
  refine .ite (fun _ => keeps_setCursorVisible false) fun hin => ?_
  refine .bind (keeps_cellAt hc.active (by omega) (by omega)) fun _ => ?_
  refine .bind (keeps_drawCellWithColors _ _ _) fun _ => ?_
  exact keeps_setCursorVisible true

theorem keeps_drawScrollbar (count offset : Nat) :
    Keeps (Console.Fits g) (drawScrollbar count offset) := by
  refine .stateBind fun c hc => .when fun _ => ?_
  exact .bind (keeps_draw _) fun _ => keeps_draw _

theorem keeps_redrawActive : Keeps (Console.Fits g) redrawActive := by
  refine .viewBind fun c0 hc0 => ?_
  have ht := hc0.active
  refine .bind (keeps_clampedOffset ht) fun offset => ?_
  refine keeps_terminalBind ht fun y hy => .stateBind fun c hc => ?_
  have hrows := hc.contentRows_le
  have hcols := hc.cols_le
  refine .bind (keeps_draw _) fun _ => ?_
  refine .bind (keeps_setCursorVisible false) fun _ => ?_
  refine .bind (keeps_update fun _ => rfl) fun _ => ?_
  refine .bind keeps_dirtyReset fun _ => ?_
  refine .bind (.forRange fun row _ hrow => .ite (fun hdoc => ?_) fun _ =>
    .when fun hin => ?_) fun _ => ?_
  · refine .forRange fun col _ hcol => ?_
    refine .bind (keeps_scrollbackAt ht (hy.slot hdoc) (by omega)) fun _ => ?_
    exact keeps_drawCellWithColors _ _ _
  · refine .forRange fun col _ hcol => ?_
    refine .bind (keeps_cellAt ht (by omega) (by omega)) fun _ => ?_
    exact keeps_drawCellWithColors _ _ _
  · refine .bind (.ite (fun _ => keeps_drawCursor) fun _ => ?_) fun _ =>
      keeps_drawStatusBar
    exact keeps_drawScrollbar _ _

-- ==== scrolling

theorem keeps_drawScrolled (ht : t < ttyCount) :
    Keeps (Console.Fits g) (drawScrolled t) := by
  refine .stateBind fun c hc => keeps_terminalBind ht fun y hy => ?_
  have hcols := hc.cols_le
  refine .ite (fun _ => keeps_redrawActive) fun _ => .ite (fun _ => ?_)
    fun _ => ?_
  · refine .bind (.when fun _ => keeps_update fun _ => rfl) fun _ => ?_
    exact .bind keeps_dirtyShiftUpOne fun _ => keeps_dirtyMarkRow _
  · refine .bind (keeps_draw _) fun _ => .forRange fun col _ hcol => ?_
    exact keeps_drawCell ht hc.lastRow_lt (by omega)

theorem keeps_scrollUp (ht : t < ttyCount) :
    Keeps (Console.Fits g) (scrollUp t) := by
  refine .stateBind fun c hc => ?_
  have hrows := hc.contentRows_le
  have hcols := hc.cols_le
  refine .bind (keeps_modifySame ht fun _ => rfl) fun _ => ?_
  refine .bind (keeps_scrollbackPushRow ht (by decide)) fun _ => ?_
  refine .bind (.forRange fun row hone hrow => .forRange fun col _ hcol => ?_)
    fun _ => ?_
  · refine .bind (keeps_cellAt ht (by omega) (by omega)) fun _ => ?_
    exact keeps_setCell ht (by omega) (by omega)
  · refine .bind (keeps_fillRow _ ht hc.lastRow_lt) fun _ => ?_
    exact .when fun _ => keeps_drawScrolled ht

theorem keeps_scrollFrom (ht : t < ttyCount) (row : Nat) :
    Keeps (Console.Fits g) (scrollFrom t row) := by
  induction row with
  | zero =>
    refine .viewBind fun c hc => .ite (fun hnone => ?_) fun _ => .pure _
    have hpos := hc.contentRows_pos
    omega
  | succ row ih =>
    refine .viewBind fun c hc => .ite (fun _ => ?_) fun _ => .pure _
    exact .bind (keeps_scrollUp ht) fun _ => ih

theorem keeps_setCursorRow (ht : t < ttyCount) (row : Nat) :
    Keeps (Console.Fits g) (setCursorRow t row) :=
  keeps_modifySame ht fun _ => rfl

theorem keeps_scrollCursor (ht : t < ttyCount) (row : Nat) :
    Keeps (Console.Fits g) (scrollCursor t row) := by
  induction row with
  | zero =>
    refine .viewBind fun c hc => .ite (fun hnone => ?_) fun _ => .pure _
    have hpos := hc.contentRows_pos
    omega
  | succ row ih =>
    refine .viewBind fun c hc => .when fun _ => ?_
    refine .bind (keeps_scrollUp ht) fun _ => ?_
    exact .bind (keeps_setCursorRow ht row) fun _ => ih

theorem keeps_makeRoom (ht : t < ttyCount) (scale row : Nat) :
    Keeps (Console.Fits g) (makeRoom t scale row) := by
  induction row with
  | zero => exact .viewBind fun c hc => .when fun _ => keeps_scrollUp ht
  | succ row ih =>
    refine .viewBind fun c hc => .when fun _ => ?_
    refine .bind (keeps_scrollUp ht) fun _ => ?_
    exact .bind (keeps_setCursorRow ht row) fun _ => ih

-- ==== putting a character

theorem keeps_putSpan {row col spanRows spanCols : Nat} (cell : Cell)
    (ht : t < ttyCount) (hrow : row + spanRows ≤ maxRows)
    (hcol : col + spanCols ≤ maxCols) (hrows : spanRows ≠ 0)
    (hcols : spanCols ≠ 0) :
    Keeps (Console.Fits g) (putSpan t row col spanRows spanCols cell) := by
  refine .bind (.forRange fun rr _ hrr => .forRange fun cc _ hcc => ?_)
    fun _ => .stateBind fun c hc => .when fun _ => .ite (fun _ => ?_)
    fun _ => ?_
  · exact keeps_setCell ht (by omega) (by omega)
  · exact .forRange fun rr _ _ => keeps_dirtyMarkRow _
  · refine .bind (.forRange fun rr _ hrr => .forRange fun cc _ hcc => ?_)
      fun _ => keeps_drawCell ht (by omega) (by omega)
    exact keeps_drawCell ht (by omega) (by omega)

theorem clipped_le {position span count limit : Nat}
    (hin : position < count) (hle : count ≤ limit) (hspan : span < 2 ^ 16)
    (hlimit : limit < 2 ^ 16) :
    position + (if count < add32 position span then count - position
      else span) ≤ limit := by
  unfold add32
  split <;> omega

theorem clampScale_le (scale : Nat) : clampScale scale ≤ 3 := by
  unfold clampScale
  dsimp only [fontScaleMin, fontScaleMax]
  split
  · decide
  · split <;> omega

theorem codepointWidth_le (codepoint : UInt32) :
    codepointWidth codepoint ≤ 2 := by
  unfold codepointWidth Text.unicodeWidth
  repeat' split
  all_goals decide

theorem keeps_putVisible (row col : Nat) (codepoint : UInt32)
    (ht : t < ttyCount) :
    Keeps (Console.Fits g) (putVisible t row col codepoint) := by
  refine keeps_terminalBind ht fun y hy => .stateBind fun c hc => ?_
  have hrows := hc.contentRows_le
  have hcols := hc.cols_le
  have hscale := clampScale_le y.ansi.fontScale
  have hwidth := codepointWidth_le codepoint
  have hspan : clampScale y.ansi.fontScale * codepointWidth codepoint ≤ 6 :=
    Nat.mul_le_mul hscale hwidth
  refine .when fun hin => .when fun hpos => ?_
  refine keeps_putSpan _ ht ?_ ?_ hpos.1 hpos.2
  · exact clipped_le hin.1 hrows (by omega) (by decide)
  · exact clipped_le hin.2.1 hcols (by omega) (by decide)

theorem keeps_advanceAfterVisible (widthCells : Nat) (ht : t < ttyCount) :
    Keeps (Console.Fits g) (advanceAfterVisible t widthCells) := by
  refine .bind (keeps_modifySame ht fun _ => rfl) fun _ => ?_
  refine keeps_terminalBind ht fun y hy => .viewBind fun c hc => ?_
  refine .when fun _ => .bind (keeps_scrollFrom ht _) fun _ => ?_
  exact keeps_modifySame ht fun _ => rfl

theorem keeps_nextLine (ht : t < ttyCount) :
    Keeps (Console.Fits g) (nextLine t) := by
  refine .bind (keeps_modifySame ht fun _ => rfl) fun _ => ?_
  exact keeps_terminalBind ht fun y hy => keeps_scrollCursor ht _

theorem keeps_putBackspace (ht : t < ttyCount) :
    Keeps (Console.Fits g) (putBackspace t) := by
  refine keeps_terminalBind ht fun y hy => .viewBind fun c hc => ?_
  refine .when fun _ => .bind (keeps_modifySame ht fun _ => rfl) fun _ => ?_
  refine .bind (keeps_putVisible _ _ _ ht) fun _ => ?_
  exact keeps_modifySame ht fun _ => rfl

theorem keeps_fitWide (scale advanceWidth : Nat) (ht : t < ttyCount) :
    Keeps (Console.Fits g) (fitWide t scale advanceWidth) := by
  refine keeps_terminalBind ht fun y hy => ?_
  refine .bind (keeps_makeRoom ht _ _) fun _ => .viewBind fun c hc => ?_
  refine .bind (.when fun _ => ?_) fun _ => keeps_modifySame ht fun _ => rfl
  refine .bind (keeps_nextLine ht) fun _ => ?_
  exact keeps_terminalBind ht fun z hz => keeps_makeRoom ht _ _

theorem keeps_putPrinted (codepoint : UInt32) (ht : t < ttyCount) :
    Keeps (Console.Fits g) (putPrinted t codepoint) := by
  refine keeps_terminalBind ht fun y hy => .when fun _ => ?_
  refine .bind (.when fun _ => keeps_fitWide _ _ ht) fun _ => ?_
  refine keeps_terminalBind ht fun z hz => ?_
  refine .bind (keeps_putVisible _ _ _ ht) fun _ => ?_
  exact keeps_advanceAfterVisible _ ht

theorem keeps_putCodepointRaw (codepoint : UInt32) (ht : t < ttyCount) :
    Keeps (Console.Fits g) (putCodepointRaw t codepoint) := by
  refine .ite (fun _ => keeps_modifySame ht fun _ => rfl) fun _ => ?_
  refine .ite (fun _ => keeps_nextLine ht) fun _ => ?_
  refine .ite (fun _ => keeps_putBackspace ht) fun _ => ?_
  refine .ite (fun _ => ?_) fun _ => keeps_putPrinted _ ht
  refine .bind (keeps_putPrinted _ ht) fun _ => ?_
  refine .bind (keeps_putPrinted _ ht) fun _ => ?_
  exact .bind (keeps_putPrinted _ ht) fun _ => keeps_putPrinted _ ht

end Clks.Tty
