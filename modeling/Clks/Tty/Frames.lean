/-
What the functions of the console leave alone.

The escape parser and the decoder have their state in each terminal, and the
scrollback is a ring in it. Drawing, searching and moving the cursor change
neither (`Quiet`). What prints characters changes the ring, but only where it
scrolls, and what clears a screen empties it (`Printing`); the state of the
parser and the decoder is changed by themselves.
-/
import Clks.Tty.Safety

namespace Clks.Tty

open Guarded

variable {α : Type} {t : Nat}

-- ==== the views

/-- What the escape parser and the decoder have of a sequence. -/
structure Reader where
  inEscape : Bool
  utf8 : Text.Utf8State
  deriving DecidableEq, Repr

/-- The lines that left the screen. -/
structure Ring where
  lines : Nat → Nat → Cell
  head : Nat
  count : Nat

def Terminal.reader (y : Terminal) : Reader := ⟨y.ansi.inEscape, y.utf8⟩

def Terminal.ring (y : Terminal) : Ring :=
  ⟨y.scrollback, y.scrollbackHead, y.scrollbackCount⟩

def Terminal.kept (y : Terminal) : Reader × Ring := (y.reader, y.ring)

/-- The width of the screen, and what a terminal keeps behind it. -/
def Console.kept (t : Nat) (c : Console) : Nat × Reader × Ring :=
  (c.cols, (c.ttys t).kept)

/-- A terminal, scrolled back no further than there are lines. -/
def Terminal.settled (y : Terminal) : Terminal :=
  { y with scrollbackOffset := min y.scrollbackOffset y.scrollbackCount }

/-- What is not about drawing: what is shown, the size, and the terminals. -/
def Console.settled (c : Console) :
    Bool × Nat × Nat × Nat × Display × (Nat → Terminal) :=
  (c.isReady, c.activeIndex, c.rows, c.cols, c.display,
    fun u => (c.ttys u).settled)

/-- None of it is changed. -/
abbrev Drawing (m : Act α) : Prop := Saves Console.settled m

/-- Neither of the two is. -/
abbrev Quiet (t : Nat) (m : Act α) : Prop := Saves (Console.kept t) m

theorem Drawing.quiet {m : Act α} (h : Drawing m) : Quiet t m :=
  Saves.comp h fun (_, _, _, cols, _, ttys) => (cols, (ttys t).kept)

-- ==== the accesses

theorem saves_modifyTty {γ : Type} {p : Terminal → γ} {f : Terminal → Terminal}
    (u : Nat) (hf : ∀ y, p (f y) = p y) :
    Saves (fun c => (c.cols, p (c.ttys t))) (modifyTty u f) := by
  refine .bind .check fun _ => .update fun c => ?_
  show (c.cols, p (Function.update c.ttys u (f (c.ttys u)) t)) = _
  by_cases hu : t = u
  · rw [hu, Function.update_self, hf]
  · rw [Function.update_of_ne hu]

theorem quiet_modifyTty {f : Terminal → Terminal} (u : Nat)
    (hf : ∀ y, (f y).kept = y.kept) : Quiet t (modifyTty u f) :=
  saves_modifyTty u hf

theorem drawing_terminal (u : Nat) : Drawing (terminal u) :=
  .bind .check fun _ => .view _

theorem drawing_draw (d : Draw) : Drawing (draw d) := .update fun _ => rfl

theorem drawing_cellAt (u row col : Nat) : Drawing (cellAt u row col) :=
  .bind .check fun _ => .view _

theorem quiet_setCell (u row col : Nat) (cell : Cell) :
    Quiet t (setCell u row col cell) :=
  .bind .check fun _ => quiet_modifyTty u fun _ => rfl

theorem drawing_scrollbackAt (u slot col : Nat) :
    Drawing (scrollbackAt u slot col) :=
  .bind .check fun _ => .view _

theorem quiet_setParam (u i : Nat) (ch : UInt8) : Quiet t (setParam u i ch) :=
  .bind .check fun _ => quiet_modifyTty u fun _ => rfl

theorem drawing_paramAt (u i : Nat) : Drawing (paramAt u i) :=
  .bind .check fun _ => .view _

theorem quiet_setQuery (u i : Nat) (ch : UInt8) : Quiet t (setQuery u i ch) :=
  .bind .check fun _ => quiet_modifyTty u fun _ => rfl

theorem drawing_queryAt (u i : Nat) : Drawing (queryAt u i) :=
  .bind .check fun _ => .view _

theorem drawing_dirtyAt (row : Nat) : Drawing (dirtyAt row) :=
  .bind .check fun _ => .view _

theorem drawing_setDirty (row : Nat) (mark : Bool) (colMin colMax : Nat) :
    Drawing (setDirty row mark colMin colMax) :=
  .bind .check fun _ => .update fun _ => rfl

-- ==== drawing

theorem drawing_drawCellWithColors (row col : Nat) (cell : Cell) :
    Drawing (drawCellWithColors row col cell) :=
  .when (.bind .state fun _ => .bind (drawing_draw _) fun _ => drawing_draw _)

theorem drawing_drawCell (u row col : Nat) : Drawing (drawCell u row col) :=
  .bind (drawing_cellAt u row col) fun _ => drawing_drawCellWithColors _ _ _

theorem drawing_resetBlinkTimer : Drawing resetBlinkTimer := .update fun _ => rfl

theorem drawing_setCursorVisible (b : Bool) : Drawing (setCursorVisible b) :=
  .update fun _ => rfl

theorem drawing_dirtyReset : Drawing dirtyReset :=
  .bind (.forRange fun _ => drawing_setDirty _ _ _ _) fun _ => .update fun _ => rfl

theorem drawing_dirtyMarkRow (row : Nat) : Drawing (dirtyMarkRow row) := by
  refine .bind .state fun c => .when (.bind (drawing_setDirty _ _ _ _) fun _ => ?_)
  exact .update fun _ => rfl

theorem drawing_dirtyShiftUpOne : Drawing dirtyShiftUpOne := by
  refine .bind (.view _) fun contentRows => .when (.bind (.forRange fun row => ?_)
    fun _ => .bind (drawing_setDirty _ _ _ _) fun _ => .bind (.findRange fun row => ?_)
    fun _ => .update fun _ => rfl)
  · exact .bind (drawing_dirtyAt _) fun _ => drawing_setDirty _ _ _ _
  · exact .bind (drawing_dirtyAt _) fun _ => .pure _

theorem Terminal.settled_settled (y : Terminal) : y.settled.settled = y.settled := by
  unfold settled
  dsimp only
  rw [Nat.min_assoc, Nat.min_self]

theorem clampedOffset_apply {u : Nat} (hu : u < ttyCount) (c : Console) :
    clampedOffset u c = some (min (c.ttys u).scrollbackOffset
      (c.ttys u).scrollbackCount, c.setTty u (c.ttys u).settled) := by
  unfold clampedOffset
  rw [bind_some (terminal_apply hu c)]
  by_cases hlt : (c.ttys u).scrollbackCount < (c.ttys u).scrollbackOffset
  · rw [when_pos hlt, bind_some (modifyTty_apply hu)]
    unfold Terminal.settled
    rw [Nat.min_eq_right (Nat.le_of_lt hlt)]
    rfl
  · have hsame : (c.ttys u).settled = c.ttys u := by
      unfold Terminal.settled
      rw [Nat.min_eq_left (Nat.not_lt.mp hlt)]
    rw [when_neg hlt, hsame]
    unfold Console.setTty
    rw [Function.update_eq_self]
    rfl

theorem drawing_clampedOffset (u : Nat) : Drawing (clampedOffset u) := by
  intro c a c' hrun
  by_cases hu : u < ttyCount
  · rw [clampedOffset_apply hu] at hrun
    cases hrun
    have httys : (fun v => (Function.update c.ttys u (c.ttys u).settled v).settled)
        = fun v => (c.ttys v).settled := by
      funext v
      by_cases hv : v = u
      · rw [hv, Function.update_self, Terminal.settled_settled]
      · rw [Function.update_of_ne hv]
    exact congrArg (fun ttys => (c.isReady, c.activeIndex, c.rows, c.cols,
      c.display, ttys)) httys
  · obtain ⟨y, c1, hterminal, -⟩ := bind_some_inv hrun
    exact absurd (check_bind_inv hterminal).1 hu

theorem drawing_drawStatusBar : Drawing drawStatusBar := by
  refine .bind .state fun c => .when (.bind (drawing_clampedOffset _) fun _ => ?_)
  exact drawing_draw _

theorem drawing_hideCursor : Drawing hideCursor := by
  refine .bind .state fun c => .when (.bind (drawing_terminal _) fun y => ?_)
  refine .bind (.when (drawing_drawCell _ _ _)) fun _ => ?_
  exact drawing_setCursorVisible false

theorem drawing_drawCursor : Drawing drawCursor := by
  refine .bind .state fun c => .when (.ite (drawing_setCursorVisible false) ?_)
  refine .bind (drawing_terminal _) fun y => ?_
  refine .ite (drawing_setCursorVisible false) ?_
  refine .bind (drawing_cellAt _ _ _) fun cell => ?_
  refine .bind (drawing_drawCellWithColors _ _ _) fun _ => ?_
  exact drawing_setCursorVisible true

theorem drawing_drawScrollbar (count offset : Nat) :
    Drawing (drawScrollbar count offset) := by
  refine .bind .state fun c => .when ?_
  exact .bind (drawing_draw _) fun _ => drawing_draw _

theorem drawing_redrawActive : Drawing redrawActive := by
  refine .bind (.view _) fun u => .bind (drawing_clampedOffset u) fun _ => ?_
  refine .bind (drawing_terminal u) fun y => .bind .state fun c => ?_
  refine .bind (drawing_draw _) fun _ => ?_
  refine .bind (drawing_setCursorVisible false) fun _ => ?_
  refine .bind (.update fun _ => rfl) fun _ => ?_
  refine .bind drawing_dirtyReset fun _ => ?_
  refine .bind (.forRange fun row => .ite (.forRange fun col => ?_)
    (.when (.forRange fun col => ?_))) fun _ => .bind ?_ fun _ => ?_
  · exact .bind (drawing_scrollbackAt _ _ _) fun _ => drawing_drawCellWithColors _ _ _
  · exact .bind (drawing_cellAt _ _ _) fun _ => drawing_drawCellWithColors _ _ _
  · exact .ite drawing_drawCursor (drawing_drawScrollbar _ _)
  · exact drawing_drawStatusBar

theorem drawing_redraw : Drawing redraw :=
  .bind drawing_redrawActive fun _ => drawing_resetBlinkTimer

theorem drawing_flushDirty : Drawing flushDirty := by
  refine .bind .state fun c => .when (.bind (drawing_terminal _) fun y => ?_)
  refine .bind (.ite drawing_redrawActive (.forRange fun row => ?_)) fun _ =>
    drawing_dirtyReset
  refine .bind (drawing_dirtyAt _) fun dirty => .when (.forRange fun col => ?_)
  exact drawing_drawCell _ _ _

theorem drawing_drawScrolled (u : Nat) : Drawing (drawScrolled u) := by
  refine .bind .state fun c => .bind (drawing_terminal u) fun y => ?_
  refine .ite drawing_redrawActive (.ite ?_ ?_)
  · refine .bind (.when (.update fun _ => rfl)) fun _ => ?_
    exact .bind drawing_dirtyShiftUpOne fun _ => drawing_dirtyMarkRow _
  · refine .bind (drawing_draw _) fun _ => .forRange fun col => ?_
    exact drawing_drawCell _ _ _

-- ==== searching

theorem drawing_docCharAt (u docIndex col : Nat) :
    Drawing (docCharAt u docIndex col) := by
  refine .bind .state fun c => .ite (.pure _) (.bind (drawing_terminal u) fun y => ?_)
  refine .ite (.bind (drawing_scrollbackAt _ _ _) fun _ => .pure _) (.ite ?_ (.pure _))
  exact .bind (drawing_cellAt _ _ _) fun _ => .pure _

theorem drawing_docRowContainsQuery (u docIndex : Nat) :
    Drawing (docRowContainsQuery u docIndex) := by
  refine .bind .state fun c => .ite (.pure _) (.bind (drawing_terminal u) fun y => ?_)
  refine .ite (.pure _) (.bind (.findRange fun col => ?_) fun _ => .pure _)
  refine .bind (.findRange fun q => ?_) fun _ => .pure _
  refine .bind (drawing_docCharAt _ _ _) fun _ => ?_
  exact .bind (drawing_queryAt _ _) fun _ => .pure _

theorem drawing_searchStart (u : Nat) : Drawing (searchStart u) := by
  refine .bind (drawing_terminal u) fun y => .ite (.pure _) ?_
  exact .bind (drawing_clampedOffset u) fun _ => .pure _

theorem quiet_searchFind (u : Nat) (reverse : Bool) :
    Quiet t (searchFind u reverse) := by
  refine .ite (.pure _) (.bind (drawing_terminal u).quiet fun y => .ite (.pure _) ?_)
  refine .bind (drawing_searchStart u).quiet fun start => ?_
  refine .bind (.findRange fun i => (drawing_docRowContainsQuery _ _).quiet) fun found => ?_
  cases found with
  | none => exact .bind (quiet_modifyTty u fun _ => rfl) fun _ => .pure _
  | some i =>
    refine .bind (quiet_modifyTty u fun _ => rfl) fun _ => ?_
    refine .bind (.when ?_) fun _ => .pure _
    exact quiet_modifyTty u fun _ => rfl

-- ==== the keys

theorem quiet_moveOffset (u offset : Nat) : Quiet t (moveOffset u offset) := by
  refine .bind (drawing_terminal u).quiet fun y => .when ?_
  exact .bind (quiet_modifyTty u fun _ => rfl) fun _ => drawing_redraw.quiet

theorem quiet_scrollbackPageUp : Quiet t scrollbackPageUp := by
  refine .bind .state fun c => .when (.bind (drawing_terminal _).quiet fun y => .when ?_)
  refine .bind drawing_hideCursor.quiet fun _ => ?_
  exact .bind (drawing_clampedOffset _).quiet fun _ => quiet_moveOffset _ _

theorem quiet_scrollbackPageDown : Quiet t scrollbackPageDown := by
  refine .bind .state fun c => .when (.bind (drawing_clampedOffset _).quiet fun _ => ?_)
  exact .when (.bind drawing_hideCursor.quiet fun _ => quiet_moveOffset _ _)

theorem quiet_forgetMatch (u : Nat) : Quiet t (forgetMatch u) :=
  quiet_modifyTty u fun _ => rfl

theorem quiet_eraseQuery (u : Nat) : Quiet t (eraseQuery u) := by
  refine .bind (drawing_terminal u).quiet fun y => .when ?_
  refine .bind (quiet_modifyTty u fun _ => rfl) fun _ => ?_
  exact .bind (quiet_setQuery _ _ _) fun _ => quiet_forgetMatch u

theorem quiet_extendQuery (u : Nat) (ch : UInt8) :
    Quiet t (extendQuery u ch) := by
  refine .bind (drawing_terminal u).quiet fun y => .when ?_
  refine .bind (quiet_setQuery _ _ _) fun _ => ?_
  refine .bind (quiet_modifyTty u fun _ => rfl) fun _ => ?_
  exact .bind (quiet_setQuery _ _ _) fun _ => quiet_forgetMatch u

theorem quiet_stopEditing (u : Nat) : Quiet t (stopEditing u) :=
  quiet_modifyTty u fun _ => rfl

theorem quiet_findNext (u : Nat) (reverse : Bool) :
    Quiet t (findNext u reverse) :=
  .bind (quiet_searchFind u reverse) fun _ => .pure _

theorem quiet_editKey (u : Nat) (ch : UInt8) : Quiet t (editKey u ch) := by
  have hredraw : Quiet t (redraw >>= fun _ => pure true) :=
    .bind drawing_redraw.quiet fun _ => .pure true
  refine .ite (.bind (quiet_stopEditing u) fun _ => hredraw)
    (.ite (.bind (quiet_eraseQuery u) fun _ => hredraw) (.ite ?_
      (.ite (.bind (quiet_extendQuery u ch) fun _ => hredraw) (.pure true))))
  refine .bind (quiet_modifyTty u fun _ => rfl) fun _ => ?_
  refine .bind (drawing_terminal u).quiet fun y => ?_
  exact .bind (.when (quiet_findNext u false)) fun _ => hredraw

theorem quiet_scrollKey (u : Nat) (ch : UInt8) : Quiet t (scrollKey u ch) := by
  have hredraw : Quiet t (redraw >>= fun _ => pure true) :=
    .bind drawing_redraw.quiet fun _ => .pure true
  refine .ite ?_ (.ite ?_ (.ite (.bind (quiet_stopEditing u) fun _ => hredraw)
    (.pure false)))
  · refine .bind (quiet_modifyTty u fun _ => rfl) fun _ => ?_
    refine .bind (quiet_setQuery _ _ _) fun _ => ?_
    exact .bind (quiet_forgetMatch u) fun _ => hredraw
  · refine .bind (drawing_terminal u).quiet fun y => .bind (.when ?_) fun _ => .pure true
    exact .bind (quiet_findNext u _) fun _ => drawing_redraw.quiet

theorem quiet_scrollbackHandleKey (ch : UInt8) :
    Quiet t (scrollbackHandleKey ch) := by
  refine .bind .state fun c => .ite (.pure false) ?_
  refine .bind (drawing_terminal _).quiet fun y => .ite (quiet_editKey _ ch) ?_
  exact .ite (quiet_scrollKey _ ch) (.pure false)

-- ==== the other calls

theorem quiet_switch (u : Nat) : Quiet t (switch u) := by
  refine .bind .state fun c => .when (.bind drawing_hideCursor.quiet fun _ => ?_)
  exact .bind (.update fun _ => rfl) fun _ => drawing_redraw.quiet

theorem drawing_blink (n : UInt64) : Drawing (blink n) := by
  refine .bind .state fun c => .ite ?_ (.ite (.update fun _ => rfl) (.when ?_))
  · exact .bind (.update fun _ => rfl) fun _ => .when drawing_drawCursor
  · exact .bind (.update fun _ => rfl) fun _ => .ite drawing_hideCursor drawing_drawCursor

theorem drawing_tick (n : UInt64) : Drawing (tick n) := by
  refine .bind .state fun c => .when (.ite (drawing_setCursorVisible false) ?_)
  refine .bind (drawing_terminal _) fun y => ?_
  exact .ite (drawing_setCursorVisible false) (drawing_blink n)

theorem drawing_statusRefresh : Drawing statusRefresh :=
  .bind .state fun _ => .when drawing_drawStatusBar

theorem quiet_beginShown (u : Nat) : Quiet t (beginShown u) := by
  refine .bind (.update fun _ => rfl) fun _ => .bind drawing_hideCursor.quiet fun _ => ?_
  refine .bind (drawing_terminal u).quiet fun y => .when (.bind ?_ fun _ => drawing_redrawActive.quiet)
  exact quiet_modifyTty u fun _ => rfl

theorem quiet_endShown : Quiet t endShown := by
  refine .bind .state fun c => .bind (.when ?_) fun _ => ?_
  · exact .bind (drawing_draw _).quiet fun _ => .update fun _ => rfl
  refine .bind drawing_flushDirty.quiet fun _ => .bind drawing_drawCursor.quiet fun _ => ?_
  exact .bind drawing_drawStatusBar.quiet fun _ => drawing_resetBlinkTimer.quiet

-- ==== the cells

theorem quiet_fillRow (u row : Nat) (codepoint : UInt32) :
    Quiet t (fillRow u row codepoint) :=
  .bind (.view _) fun _ => .forRange fun _ => quiet_setCell _ _ _ _

theorem quiet_clearRange (u row start stop : Nat) :
    Quiet t (clearRange u row start stop) :=
  .forRange fun _ => quiet_setCell _ _ _ _

theorem quiet_clearCells (u mode cursorRow cursorCol contentRows cols : Nat) :
    Quiet t (clearCells u mode cursorRow cursorCol contentRows cols) :=
  .ite (.forRange fun _ => quiet_clearRange _ _ _ _)
    (.ite (.forRange fun _ => quiet_clearRange _ _ _ _)
      (.forRange fun _ => quiet_clearRange _ _ _ _))

theorem quiet_ansiClearLineMode (u mode : Nat) :
    Quiet t (ansiClearLineMode u mode) := by
  refine .bind (drawing_terminal u).quiet fun y => .bind .state fun c => .when ?_
  refine .bind (.forRange fun col => quiet_setCell _ _ _ _) fun _ => .when ?_
  exact .ite (drawing_dirtyMarkRow _).quiet (.forRange fun col => (drawing_drawCell _ _ _).quiet)

theorem quiet_putSpan (u row col spanRows spanCols : Nat) (cell : Cell) :
    Quiet t (putSpan u row col spanRows spanCols cell) := by
  refine .bind (.forRange fun rr => .forRange fun cc => quiet_setCell _ _ _ _)
    fun _ => .bind .state fun c => .when (.ite ?_ ?_)
  · exact .forRange fun rr => (drawing_dirtyMarkRow _).quiet
  · refine .bind (.forRange fun rr => .forRange fun cc => ?_) fun _ =>
      (drawing_drawCell _ _ _).quiet
    exact (drawing_drawCell _ _ _).quiet

theorem quiet_putVisible (u row col : Nat) (codepoint : UInt32) :
    Quiet t (putVisible u row col codepoint) := by
  refine .bind (drawing_terminal u).quiet fun y => .bind .state fun c => ?_
  exact .when (.when (quiet_putSpan _ _ _ _ _ _))

theorem quiet_putBackspace (u : Nat) : Quiet t (putBackspace u) := by
  refine .bind (drawing_terminal u).quiet fun y => .bind (.view _) fun cols => .when ?_
  refine .bind (quiet_modifyTty u fun _ => rfl) fun _ => ?_
  refine .bind (quiet_putVisible _ _ _ _) fun _ => ?_
  exact quiet_modifyTty u fun _ => rfl

theorem quiet_setBlinkEnabled (u : Nat) (on : Bool) :
    Quiet t (setBlinkEnabled u on) := by
  refine .bind (.update fun _ => rfl) fun _ => .bind .state fun c => .when ?_
  exact .ite drawing_drawCursor.quiet drawing_hideCursor.quiet

theorem drawing_paramsOf (u i n : Nat) : Drawing (paramsOf u i n) := by
  induction n generalizing i with
  | zero => exact .pure []
  | succ n ih =>
    exact .bind (drawing_paramAt u i) fun _ => .bind (ih (i + 1)) fun _ => .pure _

-- ==== printing and clearing

/-- The scrollback of a terminal is emptied, and its reader left alone. -/
def Terminal.Emptied (y z : Terminal) : Prop :=
  z.reader = y.reader ∧ z.ring = ⟨y.scrollback, 0, 0⟩

/-- What is true of all that changes neither, of scrolling, of emptying the
scrollback, and of sequences of these. -/
structure Printing (t : Nat) (P : ∀ α : Type, Act α → Prop) : Prop where
  closed : Closed P
  quiet : ∀ {α : Type} {m : Act α}, Quiet t m → P α m
  scroll : ∀ u, P Unit (scrollUp u)
  empty : ∀ u f, (∀ y : Terminal, y.Emptied (f y)) → P Unit (modifyTty u f)

namespace Printing

variable {P : ∀ α : Type, Act α → Prop}

theorem scrollFrom (h : Printing t P) (u row : Nat) :
    P Nat (Tty.scrollFrom u row) := by
  induction row with
  | zero =>
    refine h.closed.bind (h.quiet (.view _)) fun _ => ?_
    refine Closed.ite (h.quiet fun _ _ _ hrun => ?_) (h.closed.pure 0)
    cases hrun
  | succ row ih =>
    refine h.closed.bind (h.quiet (.view _)) fun _ => ?_
    refine Closed.ite ?_ (h.closed.pure _)
    exact h.closed.bind (h.scroll u) fun _ => ih

theorem scrollCursor (h : Printing t P) (u row : Nat) :
    P Unit (Tty.scrollCursor u row) := by
  induction row with
  | zero =>
    refine h.closed.bind (h.quiet (.view _)) fun _ => ?_
    refine Closed.ite (h.quiet fun _ _ _ hrun => ?_) (h.closed.pure ())
    cases hrun
  | succ row ih =>
    refine h.closed.bind (h.quiet (.view _)) fun _ => h.closed.when ?_
    refine h.closed.bind (h.scroll u) fun _ => h.closed.bind ?_ fun _ => ih
    exact h.quiet (quiet_modifyTty u fun _ => rfl)

theorem makeRoom (h : Printing t P) (u scale row : Nat) :
    P Unit (Tty.makeRoom u scale row) := by
  induction row with
  | zero =>
    exact h.closed.bind (h.quiet (.view _)) fun _ => h.closed.when (h.scroll u)
  | succ row ih =>
    refine h.closed.bind (h.quiet (.view _)) fun _ => h.closed.when ?_
    refine h.closed.bind (h.scroll u) fun _ => h.closed.bind ?_ fun _ => ih
    exact h.quiet (quiet_modifyTty u fun _ => rfl)

theorem advanceAfterVisible (h : Printing t P) (u widthCells : Nat) :
    P Unit (Tty.advanceAfterVisible u widthCells) := by
  refine h.closed.bind (h.quiet (quiet_modifyTty u fun _ => rfl)) fun _ => ?_
  refine h.closed.bind (h.quiet (drawing_terminal u).quiet) fun y => ?_
  refine h.closed.bind (h.quiet (.view _)) fun _ => h.closed.when ?_
  refine h.closed.bind (h.scrollFrom u _) fun row => ?_
  exact h.quiet (quiet_modifyTty u fun _ => rfl)

theorem nextLine (h : Printing t P) (u : Nat) : P Unit (Tty.nextLine u) := by
  refine h.closed.bind (h.quiet (quiet_modifyTty u fun _ => rfl)) fun _ => ?_
  refine h.closed.bind (h.quiet (drawing_terminal u).quiet) fun y => ?_
  exact h.scrollCursor u _

theorem fitWide (h : Printing t P) (u scale advanceWidth : Nat) :
    P Unit (Tty.fitWide u scale advanceWidth) := by
  refine h.closed.bind (h.quiet (drawing_terminal u).quiet) fun y => ?_
  refine h.closed.bind (h.makeRoom u _ _) fun _ => ?_
  refine h.closed.bind (h.quiet (.view _)) fun cols => ?_
  refine h.closed.bind (h.closed.when ?_) fun _ => ?_
  · refine h.closed.bind (h.nextLine u) fun _ => ?_
    refine h.closed.bind (h.quiet (drawing_terminal u).quiet) fun z => ?_
    exact h.makeRoom u _ _
  · exact h.quiet (quiet_modifyTty u fun _ => rfl)

theorem putPrinted (h : Printing t P) (u : Nat) (codepoint : UInt32) :
    P Unit (Tty.putPrinted u codepoint) := by
  refine h.closed.bind (h.quiet (drawing_terminal u).quiet) fun y => h.closed.when ?_
  refine h.closed.bind (h.closed.when (h.fitWide u _ _)) fun _ => ?_
  refine h.closed.bind (h.quiet (drawing_terminal u).quiet) fun z => ?_
  refine h.closed.bind (h.quiet (quiet_putVisible _ _ _ _)) fun _ => ?_
  exact h.advanceAfterVisible u _

theorem putCodepointRaw (h : Printing t P) (u : Nat) (codepoint : UInt32) :
    P Unit (Tty.putCodepointRaw u codepoint) := by
  refine Closed.ite (h.quiet (quiet_modifyTty u fun _ => rfl)) ?_
  refine Closed.ite (h.nextLine u) (Closed.ite (h.quiet (quiet_putBackspace u)) ?_)
  refine Closed.ite ?_ (h.putPrinted u _)
  refine h.closed.bind (h.putPrinted u _) fun _ => ?_
  refine h.closed.bind (h.putPrinted u _) fun _ => ?_
  exact h.closed.bind (h.putPrinted u _) fun _ => h.putPrinted u _

theorem clearTty (h : Printing t P) (u : Nat) : P Unit (Tty.clearTty u) := by
  refine h.closed.bind (h.quiet (.view _)) fun _ => ?_
  refine h.closed.bind (h.quiet (.forRange fun _ => quiet_fillRow _ _ _)) fun _ => ?_
  refine h.closed.bind (h.empty u _ fun _ => ⟨rfl, rfl⟩) fun _ => ?_
  refine h.closed.bind (h.quiet (quiet_setQuery _ _ _)) fun _ => ?_
  exact h.quiet (quiet_modifyTty u fun _ => rfl)

theorem clearActive (h : Printing t P) : P Unit Tty.clearActive := by
  refine h.closed.bind (h.quiet .state) fun c => h.closed.when ?_
  refine h.closed.bind (h.quiet drawing_hideCursor.quiet) fun _ => ?_
  refine h.closed.bind (h.clearTty _) fun _ => ?_
  refine h.quiet (.bind (.update fun _ => rfl) fun _ => ?_)
  refine .bind drawing_dirtyReset.quiet fun _ => .bind drawing_resetBlinkTimer.quiet fun _ => ?_
  exact drawing_redrawActive.quiet

theorem ansiClearScreenMode (h : Printing t P) (u mode : Nat) :
    P Unit (Tty.ansiClearScreenMode u mode) := by
  refine h.closed.bind (h.quiet (drawing_terminal u).quiet) fun y => ?_
  refine h.closed.bind (h.quiet .state) fun c => ?_
  refine h.closed.bind (h.quiet (quiet_clearCells _ _ _ _ _ _)) fun _ => ?_
  refine h.closed.bind (h.closed.when (h.empty u _ fun _ => ⟨rfl, rfl⟩)) fun _ => ?_
  exact h.quiet (.when drawing_redrawActive.quiet)

theorem ansiProcessCsiFinal (h : Printing t P) (u : Nat) (params : List UInt8)
    (final : Char) : P Unit (Tty.ansiProcessCsiFinal u params final) := by
  refine Closed.ite (h.ansiClearScreenMode u _) (Closed.ite ?_ (Closed.ite ?_ ?_))
  · exact h.quiet (quiet_ansiClearLineMode u _)
  · exact h.quiet (.when (quiet_setBlinkEnabled u _))
  · refine h.quiet (.bind .state fun c => quiet_modifyTty u fun y => ?_)
    exact congrArg (fun u => (Reader.mk u.2.1 u.2.2.1, Ring.mk u.2.2.2 u.1.1 u.1.2.1))
      (y.unmoved_csiFinal _ _ _ _)

end Printing

end Clks.Tty
