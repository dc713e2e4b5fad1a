/-
From the parser to the run: no call of the console has a fault.

A call keeps the size, or it is one of the two that compute a new one; in
front of the first successful `clks_tty_init` there is no size, and nothing
is indexed. `Console.Sound` is what all reachable consoles have
(`Reachable.sound`), and from it a call ends with every access made inside
of its array (`step_in_bounds`).
-/
import Clks.Tty.Bounds

namespace Clks.Tty

open Guarded

variable {g : Geometry} {t : Nat} {c c' : Console} {op : Op}

-- ==== the parser

theorem keeps_ansiClearLineMode (mode : Nat) (ht : t < ttyCount) :
    Keeps (Console.Fits g) (ansiClearLineMode t mode) := by
  refine keeps_terminalBind ht fun y hy => .stateBind fun c hc => ?_
  have hrows := hc.contentRows_le
  have hcols := hc.cols_le
  refine .when fun hrow => .bind (.forRange fun col _ hcol => ?_) fun _ =>
    .when fun _ => .ite (fun _ => keeps_dirtyMarkRow _) fun _ =>
    .forRange fun col _ hcol => ?_
  · exact keeps_setCell ht (by omega) (by omega)
  · exact keeps_drawCell ht (by omega) (by omega)

theorem keeps_clearRange {row start stop : Nat} (ht : t < ttyCount)
    (hrow : row < maxRows) (hstop : stop ≤ maxCols) :
    Keeps (Console.Fits g) (clearRange t row start stop) :=
  .forRange fun _ _ hcol => keeps_setCell ht hrow (by omega)

theorem keeps_clearCells {cursorRow cursorCol contentRows cols : Nat}
    (mode : Nat) (ht : t < ttyCount) (hrows : contentRows ≤ maxRows)
    (hcols : cols ≤ maxCols) (hrow : cursorRow < maxRows)
    (hcol : cursorCol < maxCols) :
    Keeps (Console.Fits g)
      (clearCells t mode cursorRow cursorCol contentRows cols) := by
  refine .ite (fun _ => .forRange fun row _ hlt => ?_) fun _ =>
    .ite (fun _ => .forRange fun row _ hlt => ?_) fun _ =>
    .forRange fun row _ hlt => keeps_clearRange ht (by omega) hcols
  · exact keeps_clearRange ht (by omega) hcols
  · refine keeps_clearRange ht (by omega) ?_
    split <;> omega

theorem keeps_ansiClearScreenMode (mode : Nat) (ht : t < ttyCount) :
    Keeps (Console.Fits g) (ansiClearScreenMode t mode) := by
  refine keeps_terminalBind ht fun y hy => .stateBind fun c hc => ?_
  refine .bind (keeps_clearCells mode ht hc.contentRows_le hc.cols_le ?_ ?_)
    fun _ => .bind (.when fun _ => keeps_modifyTty ht fun z hz => ?_) fun _ =>
    .when fun _ => keeps_redrawActive
  · have hrows := hc.contentRows_le
    have hlast := hc.lastRow_lt
    split <;> omega
  · have hcols := hc.cols_le
    have hlast := hc.lastCol_lt
    split <;> omega
  · exact ⟨Nat.zero_lt_succ _, Nat.zero_le _, hz.len, hz.query⟩

-- ==== what only moves and colours

/-- What neither the cursor nor the colours of a terminal are part of. -/
def Terminal.unmoved (y : Terminal) :
    (Nat × Nat × Nat × Nat) × Bool × Text.Utf8State × (Nat → Nat → Cell) :=
  (y.sizes, y.ansi.inEscape, y.utf8, y.scrollback)

section

variable (y : Terminal)

theorem Terminal.unmoved_resetColorState : y.resetColorState.unmoved = y.unmoved :=
  rfl

theorem Terminal.unmoved_setFg (color : Nat) :
    (y.setFg color).unmoved = y.unmoved := rfl

theorem Terminal.unmoved_setBg (color : Nat) :
    (y.setBg color).unmoved = y.unmoved := rfl

theorem Terminal.unmoved_setBold (on : Bool) : (y.setBold on).unmoved = y.unmoved :=
  rfl

theorem Terminal.unmoved_setUnderline (on : Bool) :
    (y.setUnderline on).unmoved = y.unmoved := rfl

theorem Terminal.unmoved_setInverse (on : Bool) :
    (y.setInverse on).unmoved = y.unmoved := rfl

theorem Terminal.unmoved_applyFontScale (values : List Nat) :
    (y.applyFontScale values).unmoved = y.unmoved := rfl

theorem Terminal.unmoved_setCursor (row col : Nat) :
    (y.setCursor row col).unmoved = y.unmoved := rfl

theorem Terminal.unmoved_saveCursor : y.saveCursor.unmoved = y.unmoved := rfl

theorem Terminal.unmoved_restoreCursor (contentRows cols : Nat) :
    (y.restoreCursor contentRows cols).unmoved = y.unmoved := rfl

theorem Terminal.unmoved_applySgr (code : Nat) :
    (y.applySgr code).unmoved = y.unmoved := by
  unfold applySgr
  simp only [apply_ite unmoved, unmoved_resetColorState, unmoved_setFg, unmoved_setBg,
    unmoved_setBold, unmoved_setUnderline, unmoved_setInverse, ite_self]

theorem Terminal.unmoved_setColor (code color : Nat) :
    (y.setColor code color).unmoved = y.unmoved := by
  unfold setColor
  simp only [apply_ite unmoved, unmoved_setFg, unmoved_setBg, ite_self]

theorem Terminal.unmoved_applySgrParams (values : List Nat) :
    (y.applySgrParams values).unmoved = y.unmoved := by
  fun_induction applySgrParams y values with
  | case1 => rfl
  | case2 y code _ n rest ih => rw [ih, unmoved_setColor]
  | case3 y code _ r g b rest ih => rw [ih, unmoved_setColor]
  | case4 y code rest _ _ _ ih => exact ih
  | case5 y code rest _ ih => rw [ih, unmoved_applySgr]

theorem Terminal.unmoved_csiFinal (contentRows cols : Nat) (values : List Nat)
    (final : Char) :
    (y.csiFinal contentRows cols values final).unmoved = y.unmoved := by
  unfold csiFinal
  simp only [apply_ite unmoved, unmoved_applySgrParams, unmoved_applyFontScale,
    unmoved_setCursor, unmoved_saveCursor, unmoved_restoreCursor, ite_self]

end

-- ==== the parser

theorem keeps_setBlinkEnabled (on : Bool) :
    Keeps (Console.Fits g) (setBlinkEnabled t on) := by
  refine .bind (keeps_update fun _ => rfl) fun _ => .stateBind fun c hc => ?_
  exact .when fun _ => .ite (fun _ => keeps_drawCursor) fun _ =>
    keeps_hideCursor

theorem keeps_ansiProcessCsiFinal (params : List UInt8) (final : Char)
    (ht : t < ttyCount) :
    Keeps (Console.Fits g) (ansiProcessCsiFinal t params final) := by
  refine .ite (fun _ => keeps_ansiClearScreenMode _ ht) fun _ => ?_
  refine .ite (fun _ => keeps_ansiClearLineMode _ ht) fun _ => ?_
  refine .ite (fun _ => .when fun _ => keeps_setBlinkEnabled _) fun _ => ?_
  refine .stateBind fun c hc => keeps_modifySame ht fun y => ?_
  exact congrArg Prod.fst (y.unmoved_csiFinal ..)

theorem keeps_paramsOf (ht : t < ttyCount) (i n : Nat)
    (hn : i + n ≤ ansiMaxLen) : Keeps (Console.Fits g) (paramsOf t i n) := by
  induction n generalizing i with
  | zero => exact .pure []
  | succ n ih =>
    refine .bind (keeps_paramAt ht (by omega)) fun ch => ?_
    exact .bind (ih (i + 1) (by omega)) fun rest => .pure _

theorem keeps_ansiEscape (ch : UInt8) (ht : t < ttyCount) :
    Keeps (Console.Fits g) (ansiEscape t ch) := by
  refine .ite (fun _ => keeps_modifySame ht fun _ => rfl) fun _ => ?_
  refine .ite (fun _ => ?_) fun _ => .ite (fun _ => ?_) fun _ =>
    keeps_resetAnsiState ht
  · refine .bind (keeps_modifySame ht fun _ => rfl) fun _ => ?_
    exact keeps_resetAnsiState ht
  · refine .stateBind fun c hc => ?_
    refine .bind (keeps_modifySame ht fun _ => rfl) fun _ => ?_
    exact keeps_resetAnsiState ht

theorem keeps_ansiCollect (len : Nat) (ch : UInt8) (ht : t < ttyCount) :
    Keeps (Console.Fits g) (ansiCollect t len ch) := by
  refine .ite (fun hlen => ?_) fun _ => keeps_resetAnsiState ht
  refine .bind (keeps_setParam ht (Nat.le_of_lt hlen)) fun _ => ?_
  refine .bind (keeps_modifyTty ht fun y hy => ?_) fun _ =>
    keeps_setParam ht hlen
  exact ⟨hy.head, hy.count, hlen, hy.query⟩

theorem keeps_ansiProcessByte (ch : UInt8) (ht : t < ttyCount) :
    Keeps (Console.Fits g) (ansiProcessByte t ch) := by
  refine keeps_terminalBind ht fun y hy => .ite (fun _ => ?_) fun _ => ?_
  · refine .ite (fun _ => ?_) fun _ => .pure _
    refine .bind (keeps_modifyTty ht fun z hz => ?_) fun _ => ?_
    · exact ⟨hz.head, hz.count, Nat.zero_le _, hz.query⟩
    · exact .bind (keeps_setParam ht (Nat.zero_le _)) fun _ => .pure _
  refine .ite (fun _ => ?_) fun _ => .ite (fun _ => ?_) fun _ => ?_
  · exact .bind (keeps_ansiEscape ch ht) fun _ => .pure _
  · exact .bind (keeps_ansiCollect _ ch ht) fun _ => .pure _
  · have hlen := hy.len
    refine .bind (keeps_paramsOf ht 0 _ (by omega)) fun params => ?_
    refine .bind (keeps_ansiProcessCsiFinal _ _ ht) fun _ => ?_
    exact .bind (keeps_resetAnsiState ht) fun _ => .pure _

-- ==== writing

theorem keeps_utf8EmitByte (byte : UInt8) (ht : t < ttyCount) :
    Keeps (Console.Fits g) (utf8EmitByte t byte) := by
  refine keeps_terminalBind ht fun y hy => ?_
  generalize Text.decodeByte y.utf8 byte = decoded
  obtain ⟨utf8, status⟩ := decoded
  refine .bind (keeps_modifySame ht fun _ => rfl) fun _ => ?_
  cases status with
  | needMore => exact .pure ()
  | codepoint codepoint => exact keeps_putCodepointRaw codepoint ht
  | replacement => exact keeps_putCodepointRaw _ ht

theorem keeps_writeByte (byte : UInt8) (ht : t < ttyCount) :
    Keeps (Console.Fits g) (writeByte t byte) :=
  .bind (keeps_ansiProcessByte byte ht) fun _ => .when fun _ =>
    keeps_utf8EmitByte byte ht

theorem keeps_writeBytes (text : List UInt8) (ht : t < ttyCount) :
    Keeps (Console.Fits g) (writeBytes t text) := by
  induction text with
  | nil => exact .pure ()
  | cons byte rest ih =>
    exact .bind (keeps_writeByte byte ht) fun _ => ih

theorem keeps_flushDirty : Keeps (Console.Fits g) flushDirty := by
  refine .stateBind fun c hc => .when fun _ => ?_
  have ht := hc.active
  have hrows := hc.contentRows_le
  have hcols := hc.cols_le
  refine keeps_terminalBind ht fun y hy => ?_
  refine .bind (.ite (fun _ => keeps_redrawActive) fun _ => ?_) fun _ =>
    keeps_dirtyReset
  refine .forRange fun row _ hrow => ?_
  refine .bind (keeps_dirtyAt (by omega)) fun dirty => ?_
  obtain ⟨mark, colStart, colEnd⟩ := dirty
  refine .when fun hdirty => .forRange fun col hstart hcol => ?_
  exact keeps_drawCell ht (by omega) (by omega)

theorem keeps_beginShown (ht : t < ttyCount) :
    Keeps (Console.Fits g) (beginShown t) := by
  refine .bind (keeps_update fun _ => rfl) fun _ => ?_
  refine .bind keeps_hideCursor fun _ => ?_
  refine keeps_terminalBind ht fun y hy => .when fun _ => ?_
  exact .bind (keeps_modifySame ht fun _ => rfl) fun _ => keeps_redrawActive

theorem keeps_endShown : Keeps (Console.Fits g) endShown := by
  refine .stateBind fun c hc => ?_
  refine .bind (.when fun _ => .bind (keeps_draw _) fun _ =>
    keeps_update fun _ => rfl) fun _ => ?_
  refine .bind keeps_flushDirty fun _ => ?_
  refine .bind keeps_drawCursor fun _ => ?_
  exact .bind keeps_drawStatusBar fun _ => keeps_resetBlinkTimer

theorem keeps_writeTo (text : List UInt8) (ht : t < ttyCount) :
    Keeps (Console.Fits g) (writeTo t text) := by
  refine .viewBind fun c hc => ?_
  refine .bind (.when fun _ => keeps_beginShown ht) fun _ => ?_
  refine .bind (keeps_update fun _ => rfl) fun _ => ?_
  refine .bind (keeps_writeBytes text ht) fun _ => ?_
  refine .bind (keeps_update fun _ => rfl) fun _ => ?_
  exact .when fun _ => keeps_endShown

theorem keeps_writeNInternal (t : Nat) (text : List UInt8) :
    Keeps (Console.Fits g) (writeNInternal t text) := by
  refine .stateBind fun c hc => .when fun _ => keeps_writeTo text ?_
  have hactive := hc.active
  split <;> omega

theorem keeps_clearActive : Keeps (Console.Fits g) clearActive := by
  refine .stateBind fun c hc => .when fun _ => ?_
  refine .bind keeps_hideCursor fun _ => ?_
  refine .bind (keeps_clearTty hc.active) fun _ => ?_
  refine .bind (keeps_update fun _ => rfl) fun _ => ?_
  refine .bind keeps_dirtyReset fun _ => ?_
  exact .bind keeps_resetBlinkTimer fun _ => keeps_redrawActive

-- ==== switches, ticks, scrollback

theorem keeps_redraw : Keeps (Console.Fits g) redraw :=
  .bind keeps_redrawActive fun _ => keeps_resetBlinkTimer

theorem keeps_switch (t : Nat) : Keeps (Console.Fits g) (switch t) := by
  refine .stateBind fun c hc => .when fun hin => ?_
  refine .bind keeps_hideCursor fun _ => ?_
  refine .bind (.update fun c hc => ?_) fun _ => keeps_redraw
  exact ⟨hc.rows, hc.cols, hin.2, hc.ttys⟩

theorem keeps_blink (n : UInt64) : Keeps (Console.Fits g) (blink n) := by
  refine .stateBind fun c hc => .ite (fun _ => ?_) fun _ => ?_
  · refine .bind (keeps_update fun _ => rfl) fun _ => ?_
    exact .when fun _ => keeps_drawCursor
  refine .ite (fun _ => keeps_update fun _ => rfl) fun _ => .when fun _ => ?_
  refine .bind (keeps_update fun _ => rfl) fun _ => ?_
  exact .ite (fun _ => keeps_hideCursor) fun _ => keeps_drawCursor

theorem keeps_tick (n : UInt64) : Keeps (Console.Fits g) (tick n) := by
  refine .stateBind fun c hc => .when fun _ => ?_
  refine .ite (fun _ => keeps_setCursorVisible false) fun _ => ?_
  refine keeps_terminalBind hc.active fun y hy => ?_
  exact .ite (fun _ => keeps_setCursorVisible false) fun _ => keeps_blink n

theorem keeps_moveOffset (offset : Nat) (ht : t < ttyCount) :
    Keeps (Console.Fits g) (moveOffset t offset) := by
  refine keeps_terminalBind ht fun y hy => .when fun _ => ?_
  exact .bind (keeps_modifySame ht fun _ => rfl) fun _ => keeps_redraw

theorem keeps_scrollbackPageUp : Keeps (Console.Fits g) scrollbackPageUp := by
  refine .stateBind fun c hc => .when fun _ => ?_
  refine keeps_terminalBind hc.active fun y hy => .when fun _ => ?_
  refine .bind keeps_hideCursor fun _ => ?_
  refine .bind (keeps_clampedOffset hc.active) fun offset => ?_
  exact keeps_moveOffset _ hc.active

theorem keeps_scrollbackPageDown :
    Keeps (Console.Fits g) scrollbackPageDown := by
  refine .stateBind fun c hc => .when fun _ => ?_
  refine .bind (keeps_clampedOffset hc.active) fun offset => .when fun _ => ?_
  exact .bind keeps_hideCursor fun _ => keeps_moveOffset _ hc.active

theorem keeps_forgetMatch (ht : t < ttyCount) :
    Keeps (Console.Fits g) (forgetMatch t) :=
  keeps_modifySame ht fun _ => rfl

theorem keeps_eraseQuery (ht : t < ttyCount) :
    Keeps (Console.Fits g) (eraseQuery t) := by
  refine keeps_terminalBind ht fun y hy => .when fun _ => ?_
  have hlen : y.searchLen - 1 < searchMax :=
    Nat.lt_of_le_of_lt (Nat.sub_le ..) hy.query
  refine .bind (keeps_modifyTty ht fun z hz => ?_) fun _ => ?_
  · exact ⟨hz.head, hz.count, hz.len, hlen⟩
  · exact .bind (keeps_setQuery ht hlen) fun _ => keeps_forgetMatch ht

theorem keeps_extendQuery (ch : UInt8) (ht : t < ttyCount) :
    Keeps (Console.Fits g) (extendQuery t ch) := by
  refine keeps_terminalBind ht fun y hy => .when fun hlen => ?_
  refine .bind (keeps_setQuery ht hy.query) fun _ => ?_
  refine .bind (keeps_modifyTty ht fun z hz => ?_) fun _ => ?_
  · exact ⟨hz.head, hz.count, hz.len, hlen⟩
  · exact .bind (keeps_setQuery ht hlen) fun _ => keeps_forgetMatch ht

theorem keeps_stopEditing (ht : t < ttyCount) :
    Keeps (Console.Fits g) (stopEditing t) :=
  keeps_modifySame ht fun _ => rfl

theorem keeps_findNext (reverse : Bool) :
    Keeps (Console.Fits g) (findNext t reverse) :=
  .bind (keeps_searchFind t reverse) fun _ => .pure _

theorem keeps_editKey (ch : UInt8) (ht : t < ttyCount) :
    Keeps (Console.Fits g) (editKey t ch) := by
  have hredraw : Keeps (Console.Fits g) (redraw >>= fun _ => pure true) :=
    .bind keeps_redraw fun _ => .pure true
  refine .ite (fun _ => .bind (keeps_stopEditing ht) fun _ => hredraw)
    fun _ => .ite (fun _ => .bind (keeps_eraseQuery ht) fun _ => hredraw)
    fun _ => .ite (fun _ => ?_)
    fun _ => .ite (fun _ => .bind (keeps_extendQuery ch ht) fun _ => hredraw)
    fun _ => .pure true
  refine .bind (keeps_modifySame ht fun _ => rfl) fun _ => ?_
  refine keeps_terminalBind ht fun y hy => ?_
  exact .bind (.when fun _ => keeps_findNext false) fun _ => hredraw

theorem keeps_scrollKey (ch : UInt8) (ht : t < ttyCount) :
    Keeps (Console.Fits g) (scrollKey t ch) := by
  have hredraw : Keeps (Console.Fits g) (redraw >>= fun _ => pure true) :=
    .bind keeps_redraw fun _ => .pure true
  refine .ite (fun _ => ?_) fun _ => .ite (fun _ => ?_)
    fun _ => .ite (fun _ => .bind (keeps_stopEditing ht) fun _ => hredraw)
    fun _ => .pure false
  · refine .bind (keeps_modifyTty ht fun y hy => ?_) fun _ => ?_
    · exact ⟨hy.head, hy.count, hy.len, Nat.zero_lt_succ _⟩
    refine .bind (keeps_setQuery ht (by decide)) fun _ => ?_
    exact .bind (keeps_forgetMatch ht) fun _ => hredraw
  · refine keeps_terminalBind ht fun y hy => ?_
    refine .bind (.when fun _ => ?_) fun _ => .pure true
    exact .bind (keeps_findNext _) fun _ => keeps_redraw

theorem keeps_scrollbackHandleKey (ch : UInt8) :
    Keeps (Console.Fits g) (scrollbackHandleKey ch) := by
  refine .stateBind fun c hc => .ite (fun _ => .pure false) fun _ => ?_
  refine keeps_terminalBind hc.active fun y hy => ?_
  refine .ite (fun _ => keeps_editKey ch hc.active) fun _ => ?_
  exact .ite (fun _ => keeps_scrollKey ch hc.active) fun _ => .pure false

-- ==== the run

theorem idle_when {p : Prop} [Decidable p] {m : Act Unit} (hp : ¬ p) :
    Guarded.when p m c = some ((), c) := by
  rw [when_neg hp]
  rfl

/-- What a reachable console has: a size that the arrays have room for if
it is ready, and bounded heads, counts and lengths. -/
structure Console.Sound (c : Console) : Prop where
  active : c.activeIndex < ttyCount
  ttys : ∀ t, (c.ttys t).Fits
  sized : c.isReady = true → 0 < c.rows ∧ 0 < c.cols
  rows_le : c.rows ≤ maxRows
  cols_le : c.cols ≤ maxCols

theorem Console.Sound.fits (h : c.Sound) (hrows : 0 < c.rows)
    (hcols : 0 < c.cols) : ∃ g, c.Fits g :=
  ⟨⟨c.rows, c.cols, hrows, h.rows_le, hcols, h.cols_le⟩, rfl, rfl, h.active,
    h.ttys⟩

theorem Console.Fits.sound (h : c.Fits g) : c.Sound where
  active := h.active
  ttys := h.ttys
  sized _ := by
    rw [h.rows, h.cols]
    exact ⟨g.rows_pos, g.cols_pos⟩
  rows_le := by
    rw [h.rows]
    exact g.rows_le
  cols_le := by
    rw [h.cols]
    exact g.cols_le

theorem Console.Sound.recomputed (h : c.Sound)
    (hrows : 0 < c.recomputeGeometry.rows)
    (hcols : 0 < c.recomputeGeometry.cols) :
    ∃ g, c.recomputeGeometry.Fits g :=
  ⟨⟨_, _, hrows, Nat.min_le_right .., hcols, Nat.min_le_right ..⟩, rfl, rfl,
    h.active, h.ttys⟩

/-- The call ends, every access made, and leaves a sound console. -/
def EndsSound {α : Type} (m : Act α) (c : Console) : Prop :=
  ∃ a c', m c = some (a, c') ∧ c'.Sound

namespace EndsSound

variable {α β : Type} {m : Act α} {k : α → Act β}

theorem pure (a : α) (h : c.Sound) : EndsSound (Pure.pure a : Act α) c :=
  ⟨a, c, rfl, h⟩

theorem of_keeps (hm : Keeps (Console.Fits g) m) (hc : c.Fits g) :
    EndsSound m c := by
  obtain ⟨a, c', hrun, hc'⟩ := hm c hc
  exact ⟨a, c', hrun, hc'.sound⟩

theorem update {f : Console → Console} (h : (f c).Sound) :
    EndsSound (Guarded.update f) c :=
  ⟨(), f c, rfl, h⟩

theorem updateBind {f : Console → Console} {k : Unit → Act β}
    (h : EndsSound (k ()) (f c)) : EndsSound (Guarded.update f >>= k) c := h

theorem stateBind {k : Console → Act β} (h : EndsSound (k c) c) :
    EndsSound (state >>= k) c := h

theorem ite {p : Prop} [Decidable p] {m1 m2 : Act α}
    (h1 : p → EndsSound m1 c) (h2 : ¬ p → EndsSound m2 c) :
    EndsSound (if p then m1 else m2) c := by
  split
  · next hp => exact h1 hp
  · next hp => exact h2 hp

theorem ignore (h : EndsSound m c) : EndsSound (m >>= fun _ => Pure.pure ()) c := by
  obtain ⟨a, c', hrun, hc'⟩ := h
  exact ⟨(), c', bind_some hrun, hc'⟩

theorem of_ready (h : c.Sound)
    (hidle : c.isReady = false → ∃ a, m c = some (a, c))
    (hm : ∀ g, Keeps (Console.Fits g) m) : EndsSound m c := by
  cases hready : c.isReady with
  | false =>
    obtain ⟨a, hrun⟩ := hidle hready
    exact ⟨a, c, hrun, h⟩
  | true =>
    obtain ⟨hrows, hcols⟩ := h.sized hready
    obtain ⟨g, hfits⟩ := h.fits hrows hcols
    exact .of_keeps (hm g) hfits

end EndsSound

-- ==== the calls that take a size

theorem keeps_initTty (ht : t < ttyCount) :
    Keeps (Console.Fits g) (initTty t) := by
  refine .bind (keeps_modifySame ht fun _ => rfl) fun _ => ?_
  refine .bind (keeps_modifySame ht fun _ => rfl) fun _ => ?_
  exact .bind (keeps_resetAnsiState ht) fun _ => keeps_clearTty ht

theorem Console.Sound.unready (h : c.Sound) :
    ({ c with isReady := false }).Sound :=
  ⟨h.active, h.ttys, (fun hready => nomatch hready), h.rows_le, h.cols_le⟩

theorem Console.Sound.init (h : c.Sound) : EndsSound Tty.init c := by
  refine .stateBind (.ite (fun _ => .update h.unready) fun _ => ?_)
  refine .updateBind (.stateBind (.ite (fun _ => .update ?_) fun hsome => ?_))
  · exact ⟨h.active, h.ttys, (fun hready => nomatch hready),
      Nat.min_le_right .., Nat.min_le_right ..⟩
  · obtain ⟨g, hfits⟩ := h.recomputed (by omega) (by omega)
    refine .of_keeps ?_ hfits
    refine .bind (.forRange fun t _ ht => keeps_initTty ht) fun _ => ?_
    refine .bind (.update fun c hc => ?_) fun _ => ?_
    · exact ⟨hc.rows, hc.cols, Nat.zero_lt_succ _, hc.ttys⟩
    refine .bind keeps_dirtyReset fun _ => ?_
    exact .bind keeps_resetBlinkTimer fun _ => keeps_redrawActive

theorem keeps_applyGeometry : Keeps (Console.Fits g) applyGeometry := by
  refine .stateBind fun c hc => ?_
  refine .bind (.when fun ht => keeps_modifySame ht fun _ => rfl) fun _ => ?_
  refine .bind (keeps_setCursorVisible false) fun _ => ?_
  exact .bind keeps_dirtyReset fun _ => keeps_redraw

theorem Console.Sound.setResolution {width height : Nat} (h : c.Sound)
    (hleaves : c.Leaves (.setResolution width height)) :
    EndsSound (Tty.setResolution width height) c := by
  unfold Tty.setResolution
  refine .stateBind ?_
  cases hmode : c.display.modeSet width height with
  | none => exact .pure false h
  | some display =>
    obtain ⟨hrows, hcols⟩ := hleaves display hmode
    have hsound : ({ c with display := display } : Console).Sound :=
      ⟨h.active, h.ttys, h.sized, h.rows_le, h.cols_le⟩
    obtain ⟨g, hfits⟩ := hsound.recomputed hrows hcols
    refine .updateBind (.updateBind (.stateBind (.ite (fun hnone => ?_)
      fun _ => ?_)))
    · exact absurd hnone (by omega)
    · exact .of_keeps (.bind keeps_applyGeometry fun _ => .pure true) hfits

-- ==== the theorem

theorem Console.Sound.run (h : c.Sound) (hleaves : c.Leaves op) :
    EndsSound op.run c := by
  cases op with
  | init => exact h.init
  | write t text =>
    refine .of_ready h (fun hready => ⟨(), ?_⟩) fun _ =>
      keeps_writeNInternal t text
    exact idle_when (by simp [hready])
  | writeActive text =>
    refine .of_ready h (fun hready => ⟨(), ?_⟩) fun _ =>
      .viewBind fun c hc => keeps_writeNInternal _ text
    exact idle_when (by simp [hready])
  | clear =>
    refine .of_ready h (fun hready => ⟨(), ?_⟩) fun _ => keeps_clearActive
    exact idle_when (by simp [hready])
  | switch t =>
    refine .of_ready h (fun hready => ⟨(), ?_⟩) fun _ => keeps_switch t
    exact idle_when (by simp [hready])
  | tick n =>
    refine .of_ready h (fun hready => ⟨(), ?_⟩) fun _ => keeps_tick n
    exact idle_when (by simp [hready])
  | pageUp =>
    refine .of_ready h (fun hready => ⟨(), ?_⟩) fun _ =>
      keeps_scrollbackPageUp
    exact idle_when (by simp [hready])
  | pageDown =>
    refine .of_ready h (fun hready => ⟨(), ?_⟩) fun _ =>
      keeps_scrollbackPageDown
    exact idle_when (by simp [hready])
  | key ch =>
    refine .ignore (.of_ready h (fun hready => ⟨false, ?_⟩) fun _ =>
      keeps_scrollbackHandleKey ch)
    show (if _ then _ else _ : Act Bool) c = _
    rw [if_pos (.inl hready)]
    rfl
  | statusRefresh =>
    refine .of_ready h (fun hready => ⟨(), ?_⟩) fun _ => .stateBind
      fun c hc => .when fun _ => keeps_drawStatusBar
    exact idle_when (by simp [hready])
  | setResolution width height => exact .ignore (h.setResolution hleaves)
  | outside fbReady font display =>
    exact .update ⟨h.active, h.ttys, h.sized, h.rows_le, h.cols_le⟩

theorem Terminal.zero_fits : Terminal.zero.Fits :=
  ⟨by decide, by decide, by decide, by decide⟩

theorem boot_sound : boot.Sound :=
  ⟨by decide, fun _ => Terminal.zero_fits,
    (fun hready => nomatch hready), by decide, by decide⟩

theorem step_run {op : Op} (h : c.step op = some c') : op.run c = some ((), c') := by
  obtain ⟨⟨_, c1⟩, hrun, hsnd⟩ := Option.map_eq_some_iff.mp h
  obtain rfl : c1 = c' := hsnd
  exact hrun

theorem step_of_run {α : Type} {m : Act α} {a : α}
    (h : m c = some (a, c')) : (m c).map Prod.snd = some c' := by
  rw [h]
  rfl

theorem Reachable.sound (h : Reachable c) : c.Sound := by
  induction h with
  | boot => exact boot_sound
  | step _ hleaves hstep ih =>
    obtain ⟨a, c1, hrun, hsound⟩ := ih.run hleaves
    have heq := step_of_run hrun
    rw [Option.some.inj (hstep.symm.trans heq)]
    exact hsound

/-- Whatever is written, switched, cleared or scrolled, a call of the
console makes every access inside of its array, and no terminal has more
escape parameters than there is room for. -/
theorem step_in_bounds (h : Reachable c) (hleaves : c.Leaves op) :
    ∃ c', c.step op = some c' ∧
      ∀ t, t < ttyCount → (c'.ttys t).ansi.len ≤ ansiMaxLen := by
  obtain ⟨a, c', hrun, hsound⟩ := h.sound.run hleaves
  exact ⟨c', step_of_run hrun, fun t _ => (hsound.ttys t).len⟩

/-- A display of eight columns and six rows. -/
def smallDisplay : Op := .outside true ⟨8, 8⟩ ⟨true, 64, 48, 64, 48⟩

/-- A terminal that is not shown gets an escape sequence. -/
theorem step_in_bounds_written : ∃ c, Reachable c ∧ c.isReady = true ∧
    ∃ c', c.step (.write 2 [0x1B, 0x5B, 0x39, 0x42, 0x0A]) = some c' ∧
      ∀ t, t < ttyCount → (c'.ttys t).ansi.len ≤ ansiMaxLen := by
  have hrun : ((boot.step smallDisplay).bind fun c => c.step .init).any
      (fun c => c.isReady) = true := by decide +kernel
  obtain ⟨c₂, hsome, hready⟩ := (Option.any_eq_true ..).mp hrun
  obtain ⟨c₁, hdisplay, hinit⟩ := Option.bind_eq_some_iff.mp hsome
  have hreach : Reachable c₂ :=
    @Reachable.step _ _ .init (@Reachable.step _ _ smallDisplay .boot trivial
      hdisplay) trivial hinit
  exact ⟨c₂, hreach, hready, step_in_bounds hreach trivial⟩

end Clks.Tty
