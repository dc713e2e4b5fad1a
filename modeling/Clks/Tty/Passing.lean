/-
What the terminals pass on of what is written to them.

The functions of output.inc are taken again with what becomes of each byte
as their result (`Op.traced`); without it they are the functions that they
were (`Op.traced_run`). `Written` is a console with the fates of all that was
written to one of its terminals since the console was initialized, in any
number of calls and with any other calls in between.
-/
import Clks.Tty.Fates

namespace Clks.Tty

open Guarded

-- ==== the traces

/-- What `clks_tty_utf8_emit_byte` does with what the decoder says. -/
def pass (t : Nat) : Text.Utf8Status → Act Unit
  | .needMore => return
  | .codepoint codepoint => putCodepointRaw t codepoint
  | .replacement => putCodepointRaw t Text.replacement

/-- What is done with a byte, and what becomes of it. -/
def fateOf (t : Nat) (byte : UInt8) : Act Fate := do
  let taken ← ansiProcessByte t byte
  if taken = false then do
    let y ← terminal t
    let (state, status) := Text.decodeByte y.utf8 byte
    modifyTty t fun y => { y with utf8 := state }
    pass t status
    return .decoded y.utf8 byte status
  else return .escaped

/-- The loop over the bytes. -/
def fatesOf (t : Nat) : List UInt8 → Act (List Fate)
  | [] => return []
  | byte :: rest => do
    let fate ← fateOf t byte
    let fates ← fatesOf t rest
    return fate :: fates

/-- `clks_tty_write_n_internal` of a terminal that there is. -/
def tracedTo (t : Nat) (text : List UInt8) : Act (List Fate) := do
  let active ← view Console.activeIndex
  when (t = active) (beginShown t)
  update fun c => { c with deferDraw := true }
  let fates ← fatesOf t text
  update fun c => { c with deferDraw := false }
  when (t = active) endShown
  return fates

/-- `clks_tty_write_n_internal`, and what becomes of the bytes that go to the
terminal `t`. -/
def tracedN (t u : Nat) (text : List UInt8) : Act (List Fate) := do
  let c ← state
  let target := if ttyCount ≤ u then c.activeIndex else u
  if c.isReady = true ∧ text ≠ [] then do
    let fates ← tracedTo target text
    return if target = t then fates else []
  else return []

/-- A call, and what becomes of the bytes that it writes to the terminal. -/
def Op.traced (t : Nat) : Op → Act (List Fate)
  | .write u text => tracedN t u text
  | .writeActive text => do
    let active ← view Console.activeIndex
    tracedN t active text
  | op => do
    op.run
    return []

/-- `clks_tty_init` will find a screen with room for a terminal. -/
def Console.Starts (c : Console) : Prop :=
  c.fbReady = true ∧ c.recomputeGeometry.rows ≠ 0 ∧
    c.recomputeGeometry.cols ≠ 0

instance (c : Console) : Decidable c.Starts :=
  inferInstanceAs (Decidable (_ ∧ _))

/-- A console, and what became of the bytes that were written to one of its
terminals since it was initialized. -/
inductive Written (t : Nat) : Console → List Fate → Prop
  | boot : Written t Tty.boot []
  | init {c c' : Console} {fates : List Fate} (h : Written t c fates)
      (hstep : c.step .init = some c') :
      Written t c' (if c.Starts then [] else fates)
  | step {c c' : Console} {op : Op} {fates more : List Fate}
      (h : Written t c fates) (hop : op ≠ .init)
      (htraced : op.traced t c = some (more, c')) : Written t c' (fates ++ more)

-- ==== what they are traces of

variable {t u : Nat} {c c' : Console}

theorem utf8EmitByte_eq (t : Nat) (byte : UInt8) :
    utf8EmitByte t byte = (do
      let y ← terminal t
      let (state, status) := Text.decodeByte y.utf8 byte
      modifyTty t fun y => { y with utf8 := state }
      pass t status) := by
  unfold utf8EmitByte
  congr 1

theorem fateOf_run (t : Nat) (byte : UInt8) :
    (fateOf t byte >>= fun _ => pure ()) = writeByte t byte := by
  unfold fateOf writeByte
  rw [bind_assoc]
  congr 1
  funext taken
  cases taken with
  | true => rfl
  | false =>
    rw [when_pos rfl, if_pos rfl, utf8EmitByte_eq]
    simp only [bind_assoc, pure_bind, bind_pure_unit]

theorem fatesOf_run (t : Nat) (text : List UInt8) :
    (fatesOf t text >>= fun _ => pure ()) = writeBytes t text := by
  induction text with
  | nil => rfl
  | cons byte rest ih =>
    unfold fatesOf writeBytes
    rw [← fateOf_run, ← ih]
    simp only [bind_assoc, pure_bind]

theorem tracedTo_run (t : Nat) (text : List UInt8) :
    (tracedTo t text >>= fun _ => pure ()) = writeTo t text := by
  unfold tracedTo writeTo
  rw [← fatesOf_run]
  simp only [bind_assoc, pure_bind, bind_pure_unit]

theorem tracedN_run (t u : Nat) (text : List UInt8) :
    (tracedN t u text >>= fun _ => pure ()) = writeNInternal u text := by
  unfold tracedN writeNInternal
  rw [bind_assoc]
  congr 1
  funext c
  by_cases hc : c.isReady = true ∧ text ≠ []
  · rw [when_pos hc, if_pos hc, ← tracedTo_run]
    simp only [bind_assoc, pure_bind]
  · rw [when_neg hc, if_neg hc]
    rfl

theorem Op.traced_run (t : Nat) (op : Op) :
    (op.traced t >>= fun _ => pure ()) = op.run := by
  cases op with
  | write u text => exact tracedN_run t u text
  | writeActive text =>
    unfold traced run writeN
    rw [bind_assoc]
    congr 1
    funext active
    exact tracedN_run t active text
  | _ =>
    unfold traced
    simp only [bind_assoc, pure_bind, bind_pure_unit]

-- ==== the reader

/-- The reader of a terminal. -/
def Console.reader (t : Nat) (c : Console) : Reader := (c.ttys t).reader

abbrev KeepsReader (t : Nat) {α : Type} (m : Act α) : Prop :=
  Saves (Console.reader t) m

theorem Quiet.reader {α : Type} {m : Act α} (h : Quiet t m) : KeepsReader t m :=
  Saves.comp h fun kept => kept.2.1

theorem Drawing.reader {α : Type} {m : Act α} (h : Drawing m) : KeepsReader t m :=
  h.quiet.reader

theorem reader_modifyTty {f : Terminal → Terminal} (u : Nat)
    (hf : ∀ y, (f y).reader = y.reader) : KeepsReader t (modifyTty u f) :=
  Saves.comp (saves_modifyTty u hf) Prod.snd

theorem reader_other (hu : u ≠ t) (f : Terminal → Terminal) :
    KeepsReader t (modifyTty u f) := by
  refine .bind .check fun _ => .update fun c => ?_
  show (Function.update c.ttys u (f (c.ttys u)) t).reader = _
  rw [Function.update_of_ne (Ne.symm hu)]
  rfl

theorem reader_scrollbackPushRow (u row : Nat) :
    KeepsReader t (scrollbackPushRow u row) := by
  refine .bind (.view _) fun cols => ?_
  refine .bind (drawing_terminal u).reader fun y => .bind (.forRange fun col => ?_)
    fun _ => reader_modifyTty u fun _ => rfl
  refine .bind (drawing_cellAt u row col).reader fun cell => ?_
  exact .bind .check fun _ => reader_modifyTty u fun _ => rfl

theorem reader_scrollUp (u : Nat) : KeepsReader t (scrollUp u) := by
  refine .bind .state fun c => ?_
  refine .bind (reader_modifyTty u fun _ => rfl) fun _ => ?_
  refine .bind (reader_scrollbackPushRow u 0) fun _ => ?_
  refine .bind (.forRange fun row => .forRange fun col => ?_) fun _ => ?_
  · refine .bind (drawing_cellAt _ _ _).reader fun cell => ?_
    exact (quiet_setCell _ _ _ _).reader
  · refine .bind (quiet_fillRow _ _ _).reader fun _ => ?_
    exact .when (drawing_drawScrolled u).reader

theorem printing_reader (t : Nat) : Printing t fun _ m => KeepsReader t m where
  closed := Saves.closed _
  quiet := Quiet.reader
  scroll := reader_scrollUp
  empty u _ hf := reader_modifyTty u fun y => (hf y).1

theorem Printing.pass {P : ∀ α : Type, Act α → Prop} (h : Printing t P) (u : Nat)
    (status : Text.Utf8Status) : P Unit (Tty.pass u status) := by
  cases status with
  | needMore => exact h.closed.pure ()
  | codepoint codepoint => exact h.putCodepointRaw u codepoint
  | replacement => exact h.putCodepointRaw u _

-- ==== bytes of other terminals

theorem reader_resetAnsiState_other (hu : u ≠ t) :
    KeepsReader t (resetAnsiState u) := by
  refine .bind (reader_other hu _) fun _ => ?_
  exact .bind (quiet_setParam _ _ _).reader fun _ => reader_other hu _

theorem reader_ansiEscape_other (hu : u ≠ t) (ch : UInt8) :
    KeepsReader t (ansiEscape u ch) := by
  have hreset := reader_resetAnsiState_other hu
  refine .ite (reader_other hu _) (.ite ?_ (.ite ?_ hreset))
  · exact .bind (reader_other hu _) fun _ => hreset
  · exact .bind .state fun c => .bind (reader_other hu _) fun _ => hreset

theorem reader_ansiCollect_other (hu : u ≠ t) (len : Nat) (ch : UInt8) :
    KeepsReader t (ansiCollect u len ch) := by
  refine .ite ?_ (reader_resetAnsiState_other hu)
  refine .bind (quiet_setParam _ _ _).reader fun _ => ?_
  exact .bind (reader_other hu _) fun _ => (quiet_setParam _ _ _).reader

theorem reader_ansiProcessByte_other (hu : u ≠ t) (ch : UInt8) :
    KeepsReader t (ansiProcessByte u ch) := by
  refine .bind (drawing_terminal u).reader fun y => .ite (.ite ?_ (.pure _)) ?_
  · refine .bind (reader_other hu _) fun _ => ?_
    exact .bind (quiet_setParam _ _ _).reader fun _ => .pure _
  refine .ite ?_ (.ite ?_ ?_)
  · exact .bind (reader_ansiEscape_other hu ch) fun _ => .pure _
  · exact .bind (reader_ansiCollect_other hu _ ch) fun _ => .pure _
  · refine .bind (drawing_paramsOf _ _ _).reader fun params => ?_
    refine .bind ((printing_reader t).ansiProcessCsiFinal u _ _) fun _ => ?_
    exact .bind (reader_resetAnsiState_other hu) fun _ => .pure _

theorem reader_fateOf_other (hu : u ≠ t) (byte : UInt8) :
    KeepsReader t (fateOf u byte) := by
  refine .bind (reader_ansiProcessByte_other hu byte) fun taken => .ite ?_ (.pure _)
  refine .bind (drawing_terminal u).reader fun y => ?_
  refine .bind (reader_other hu _) fun _ => ?_
  exact .bind ((printing_reader t).pass u _) fun _ => .pure _

theorem reader_fatesOf_other (hu : u ≠ t) (text : List UInt8) :
    KeepsReader t (fatesOf u text) := by
  induction text with
  | nil => exact .pure []
  | cons byte rest ih =>
    exact .bind (reader_fateOf_other hu byte) fun _ => .bind ih fun _ => .pure _

-- ==== its own bytes

theorem modifyTty_run {f : Terminal → Terminal} {a : Unit}
    (h : modifyTty t f c = some (a, c')) : c' = c.setTty t (f (c.ttys t)) := by
  obtain ⟨-, hrun⟩ := check_bind_inv h
  cases hrun
  rfl

theorem reader_setTty (c : Console) (t : Nat) (y : Terminal) :
    (c.setTty t y).reader t = y.reader := by
  show (Function.update c.ttys t y t).reader = y.reader
  rw [Function.update_self]

theorem resetAnsiState_run {a : Unit} (h : resetAnsiState t c = some (a, c')) :
    c'.reader t = ⟨false, .reset⟩ := by
  obtain ⟨_, c1, hescape, h⟩ := bind_some_inv h
  obtain ⟨_, c2, hparam, h⟩ := bind_some_inv h
  have hsame : c2.reader t = c1.reader t :=
    (quiet_setParam t 0 0).reader _ _ _ hparam
  rw [modifyTty_run h, reader_setTty]
  rw [modifyTty_run hescape, reader_setTty] at hsame
  exact congrArg (fun r => (⟨r.inEscape, .reset⟩ : Reader)) hsame

theorem ansiEscape_next {a : Unit} {ch : UInt8}
    (h : ansiEscape t ch c = some (a, c')) (hescape : (c.reader t).inEscape = true) :
    Next (c.reader t) .escaped (c'.reader t) := by
  have hreader : c.reader t = ⟨true, (c.reader t).utf8⟩ := by
    rw [← hescape]
  rw [hreader]
  unfold ansiEscape at h
  split_ifs at h
  · have hsame : c'.reader t = c.reader t := by
      rw [modifyTty_run h, reader_setTty]
      rfl
    rw [hsame, hreader]
    exact .within _
  · obtain ⟨_, c1, -, h⟩ := bind_some_inv h
    rw [resetAnsiState_run h]
    exact .ends _
  · obtain ⟨_, c1, -, h⟩ := bind_some_inv h
    obtain ⟨_, c2, -, h⟩ := bind_some_inv h
    rw [resetAnsiState_run h]
    exact .ends _
  · rw [resetAnsiState_run h]
    exact .ends _

theorem ansiCollect_next {a : Unit} {len : Nat} {ch : UInt8}
    (h : ansiCollect t len ch c = some (a, c'))
    (hescape : (c.reader t).inEscape = true) :
    Next (c.reader t) .escaped (c'.reader t) := by
  have hreader : c.reader t = ⟨true, (c.reader t).utf8⟩ := by
    rw [← hescape]
  rw [hreader]
  unfold ansiCollect at h
  split_ifs at h
  · have hquiet : KeepsReader t (do
        setParam t len ch
        modifyTty t fun y => { y with ansi := { y.ansi with len := len + 1 } }
        setParam t (len + 1) 0) :=
      .bind (quiet_setParam _ _ _).reader fun _ =>
        .bind (reader_modifyTty t fun _ => rfl) fun _ =>
          (quiet_setParam _ _ _).reader
    rw [hquiet _ _ _ h, hreader]
    exact .within _
  · rw [resetAnsiState_run h]
    exact .ends _

theorem ansiProcessByte_next {taken : Bool} {ch : UInt8}
    (h : ansiProcessByte t ch c = some (taken, c')) :
    taken = true ∧ Next (c.reader t) .escaped (c'.reader t) ∨
      taken = false ∧ (c.reader t).inEscape = false ∧ c' = c := by
  obtain ⟨y, c1, hterminal, h⟩ := bind_some_inv h
  obtain ⟨-, hview⟩ := check_bind_inv hterminal
  cases hview
  have hreader : c.reader t = ⟨(c.ttys t).ansi.inEscape, (c.ttys t).utf8⟩ := rfl
  cases hescape : (c.ttys t).ansi.inEscape with
  | false =>
    rw [if_pos hescape] at h
    split_ifs at h with hesc
    · obtain ⟨_, c2, hbegin, h⟩ := bind_some_inv h
      obtain ⟨_, c3, hparam, h⟩ := bind_some_inv h
      cases h
      have hsame : c'.reader t = c2.reader t :=
        (quiet_setParam t 0 0).reader _ _ _ hparam
      rw [modifyTty_run hbegin, reader_setTty] at hsame
      refine .inl ⟨rfl, ?_⟩
      rw [hsame, hreader, hescape]
      exact .begins _
    · cases h
      exact .inr ⟨rfl, hescape, rfl⟩
  | true =>
    rw [if_neg (by rw [hescape]; decide)] at h
    split_ifs at h
    · obtain ⟨_, c2, hescaped, h⟩ := bind_some_inv h
      cases h
      exact .inl ⟨rfl, ansiEscape_next hescaped hescape⟩
    · obtain ⟨_, c2, hcollected, h⟩ := bind_some_inv h
      cases h
      exact .inl ⟨rfl, ansiCollect_next hcollected hescape⟩
    · obtain ⟨params, c2, -, h⟩ := bind_some_inv h
      obtain ⟨_, c3, -, h⟩ := bind_some_inv h
      obtain ⟨_, c4, hreset, h⟩ := bind_some_inv h
      cases h
      refine .inl ⟨rfl, ?_⟩
      rw [resetAnsiState_run hreset, hreader, hescape]
      exact .ends _

theorem fateOf_next {fate : Fate} {byte : UInt8}
    (h : fateOf t byte c = some (fate, c')) :
    Next (c.reader t) fate (c'.reader t) := by
  obtain ⟨taken, c1, hparsed, hrest⟩ := bind_some_inv h
  rcases ansiProcessByte_next hparsed with ⟨rfl, hnext⟩ | ⟨rfl, hescape, rfl⟩
  · cases hrest
    exact hnext
  · rw [if_pos rfl] at hrest
    obtain ⟨y, c2, hterminal, hdecoded⟩ := bind_some_inv hrest
    obtain ⟨-, hview⟩ := check_bind_inv hterminal
    cases hview
    obtain ⟨_, c3, hstored, hshown⟩ := bind_some_inv hdecoded
    obtain ⟨_, c4, hpassed, hend⟩ := bind_some_inv hshown
    cases hend
    have hsame : c'.reader t = c3.reader t :=
      (printing_reader t).pass t _ _ _ _ hpassed
    rw [modifyTty_run hstored, reader_setTty] at hsame
    have hreader : c1.reader t = ⟨false, (c1.ttys t).utf8⟩ := by
      rw [← hescape]
      rfl
    have hbehind : c'.reader t
        = ⟨false, (Text.decodeByte (c1.ttys t).utf8 byte).1⟩ := by
      rw [hsame, ← hescape]
      rfl
    rw [hreader, hbehind]
    exact .decodes _ _

theorem fatesOf_follows {fates : List Fate} {text : List UInt8}
    (h : fatesOf t text c = some (fates, c')) :
    Follows (c.reader t) fates (c'.reader t) := by
  induction text generalizing c fates with
  | nil =>
    cases h
    exact .nil _
  | cons byte rest ih =>
    obtain ⟨fate, c1, hfirst, h⟩ := bind_some_inv h
    obtain ⟨fates', c2, hrest, h⟩ := bind_some_inv h
    cases h
    exact .cons (fateOf_next hfirst) (ih hrest)

-- ==== the calls

theorem tracedTo_follows {fates : List Fate} {text : List UInt8}
    (h : tracedTo t text c = some (fates, c')) :
    Follows (c.reader t) fates (c'.reader t) := by
  obtain ⟨active, c1, hview, h⟩ := bind_some_inv h
  cases hview
  obtain ⟨_, c2, hbegin, h⟩ := bind_some_inv h
  obtain ⟨_, c3, hdefer, h⟩ := bind_some_inv h
  cases hdefer
  obtain ⟨fates', c4, hwritten, h⟩ := bind_some_inv h
  obtain ⟨_, c5, hdraw, h⟩ := bind_some_inv h
  cases hdraw
  obtain ⟨_, c6, hend, h⟩ := bind_some_inv h
  cases h
  have hfollows := fatesOf_follows hwritten
  have hbefore : c2.reader t = c.reader t :=
    Saves.when (quiet_beginShown t).reader _ _ _ hbegin
  have hkeeps : KeepsReader t (when (t = c.activeIndex) endShown) :=
    .when quiet_endShown.reader
  have hbehind := hkeeps _ _ _ hend
  rw [hbehind, ← hbefore]
  exact hfollows

theorem reader_tracedTo_other (hu : u ≠ t) (text : List UInt8) :
    KeepsReader t (tracedTo u text) := by
  refine .bind (.view _) fun active => ?_
  refine .bind (.when (quiet_beginShown u).reader) fun _ => ?_
  refine .bind (.update fun _ => rfl) fun _ => ?_
  refine .bind (reader_fatesOf_other hu text) fun _ => ?_
  refine .bind (.update fun _ => rfl) fun _ => ?_
  exact .bind (.when quiet_endShown.reader) fun _ => .pure _

theorem tracedN_follows {fates : List Fate} {text : List UInt8}
    (h : tracedN t u text c = some (fates, c')) :
    Follows (c.reader t) fates (c'.reader t) := by
  obtain ⟨c0, c1, hstate, h⟩ := bind_some_inv h
  cases hstate
  dsimp only at h
  generalize (if ttyCount ≤ u then c.activeIndex else u) = target at h
  by_cases hwrites : c.isReady = true ∧ text ≠ []
  · rw [if_pos hwrites] at h
    obtain ⟨fates', c2, hwritten, h⟩ := bind_some_inv h
    by_cases htarget : target = t
    · rw [if_pos htarget] at h
      cases h
      rw [htarget] at hwritten
      exact tracedTo_follows hwritten
    · rw [if_neg htarget] at h
      cases h
      rw [reader_tracedTo_other htarget text _ _ _ hwritten]
      exact .nil _
  · rw [if_neg hwrites] at h
    cases h
    exact .nil _

theorem kept_setResolution (width height : Nat) :
    Saves (fun c => (c.ttys t).kept) (setResolution width height) := by
  have hkept {α : Type} {m : Act α} (hm : Drawing m) :
      Saves (fun c => (c.ttys t).kept) m := Saves.comp hm.quiet Prod.snd
  refine .bind .state fun c => ?_
  cases c.display.modeSet width height with
  | none => exact .pure _
  | some display =>
    refine .bind (.update fun _ => rfl) fun _ => ?_
    refine .bind (.update fun _ => rfl) fun _ => .bind .state fun c => ?_
    refine .ite (.pure _) (.bind (.bind .state fun c => .bind (.when ?_)
      fun _ => ?_) fun _ => .pure _)
    · have hcursor : Quiet t (modifyTty c.activeIndex fun y =>
          y.setCursor (clampTo y.cursorRow c.contentRows)
            (clampTo y.cursorCol c.cols)) := quiet_modifyTty _ fun _ => rfl
      exact Saves.comp hcursor Prod.snd
    · refine .bind (hkept (drawing_setCursorVisible false)) fun _ => ?_
      refine .bind (hkept drawing_dirtyReset) fun _ => ?_
      exact .bind (hkept drawing_redrawActive) fun _ => hkept drawing_resetBlinkTimer

theorem reader_setResolution (width height : Nat) :
    KeepsReader t (setResolution width height) :=
  Saves.comp (kept_setResolution width height) Prod.fst

theorem follows_of_keeps {fates : List Fate} {m : Act Unit}
    (hm : KeepsReader t m)
    (h : (m >>= fun _ => pure []) c = some (fates, c')) :
    Follows (c.reader t) fates (c'.reader t) := by
  obtain ⟨_, c1, hrun, h⟩ := bind_some_inv h
  cases h
  rw [hm _ _ _ hrun]
  exact .nil _

theorem traced_follows {op : Op} {fates : List Fate} (hop : op ≠ .init)
    (h : op.traced t c = some (fates, c')) :
    Follows (c.reader t) fates (c'.reader t) := by
  cases op with
  | init => exact absurd rfl hop
  | write u text => exact tracedN_follows h
  | writeActive text =>
    obtain ⟨active, c1, hview, h⟩ := bind_some_inv h
    cases hview
    exact tracedN_follows h
  | clear => exact follows_of_keeps (printing_reader t).clearActive h
  | switch u => exact follows_of_keeps (quiet_switch u).reader h
  | tick n => exact follows_of_keeps (drawing_tick n).reader h
  | pageUp => exact follows_of_keeps quiet_scrollbackPageUp.reader h
  | pageDown => exact follows_of_keeps quiet_scrollbackPageDown.reader h
  | key ch =>
    exact follows_of_keeps
      (.bind (quiet_scrollbackHandleKey ch).reader fun _ => .pure ()) h
  | statusRefresh => exact follows_of_keeps drawing_statusRefresh.reader h
  | setResolution width height =>
    exact follows_of_keeps
      (.bind (reader_setResolution width height) fun _ => .pure ()) h
  | outside fbReady font display =>
    exact follows_of_keeps (m := (Op.outside fbReady font display).run)
      (.update fun _ => rfl) h

-- ==== the initialization

theorem reader_initTty_other (hu : u ≠ t) : KeepsReader t (initTty u) := by
  refine .bind (reader_modifyTty u fun _ => rfl) fun _ => ?_
  refine .bind (reader_modifyTty u fun _ => rfl) fun _ => ?_
  refine .bind (reader_resetAnsiState_other hu) fun _ => ?_
  exact (printing_reader t).clearTty u

theorem initTty_run {a : Unit} (h : initTty t c = some (a, c')) :
    c'.reader t = ⟨false, .reset⟩ := by
  obtain ⟨_, c1, -, h⟩ := bind_some_inv h
  obtain ⟨_, c2, -, h⟩ := bind_some_inv h
  obtain ⟨_, c3, hreset, h⟩ := bind_some_inv h
  rw [(printing_reader t).clearTty t _ _ _ h]
  exact resetAnsiState_run hreset

theorem initLoop_run {γ : Type} {p : Console → γ} {x : γ} {a : Unit}
    (ht : t < ttyCount) (hother : ∀ u, u ≠ t → Saves p (initTty u))
    (hself : ∀ c a c', initTty t c = some (a, c') → p c' = x)
    (h : forRange 0 ttyCount initTty c = some (a, c')) : p c' = x := by
  let before (j : Nat) (c : Console) : Prop := t < j → p c = x
  have hloop : Yields (before 0) (forRange 0 ttyCount initTty)
      fun _ => before ttyCount := by
    refine .forRange (Nat.zero_le _) fun j _ _ s a s' hs hrun hlt => ?_
    by_cases hj : j = t
    · rw [hj] at hrun
      exact hself s a s' hrun
    · rw [hother j hj _ _ _ hrun]
      exact hs (by omega)
  exact hloop c a c' (fun hlt => absurd hlt (Nat.not_lt_zero t)) h ht

theorem init_cases {a : Unit} (h : init c = some (a, c')) :
    (¬ c.Starts ∧ c'.ttys = c.ttys) ∨
      (c.Starts ∧ ∃ b c1, forRange 0 ttyCount initTty c.recomputeGeometry = some (b, c1) ∧
        ∀ t, c'.kept t = c1.kept t) := by
  obtain ⟨c0, c1, hstate, h⟩ := bind_some_inv h
  cases hstate
  by_cases hready : c.fbReady = true
  · rw [if_neg (by rw [hready]; decide)] at h
    obtain ⟨_, c2, hsize, h⟩ := bind_some_inv h
    cases hsize
    obtain ⟨c3, c4, hstate, h⟩ := bind_some_inv h
    cases hstate
    by_cases hsize : c.recomputeGeometry.rows = 0 ∨ c.recomputeGeometry.cols = 0
    · rw [if_pos hsize] at h
      cases h
      refine .inl ⟨fun hstarts => ?_, rfl⟩
      rcases hsize with h0 | h0
      · exact hstarts.2.1 h0
      · exact hstarts.2.2 h0
    · rw [if_neg hsize] at h
      obtain ⟨b, c5, hloop, h⟩ := bind_some_inv h
      have hquiet (t : Nat) : Quiet t (do
          update fun c => { c with
            activeIndex := 0
            isReady := true
            cursorVisible := false
            blinkEnabled := true
            deferDraw := false
            deferredScrollRows := 0 }
          dirtyReset
          resetBlinkTimer
          redrawActive) :=
        .bind (.update fun _ => rfl) fun _ =>
          .bind drawing_dirtyReset.quiet fun _ =>
          .bind drawing_resetBlinkTimer.quiet fun _ => drawing_redrawActive.quiet
      exact .inr ⟨⟨hready, not_or.mp hsize⟩, b, c5, hloop, fun t => hquiet t _ _ _ h⟩
  · rw [if_pos (Bool.eq_false_iff.mpr hready)] at h
    cases h
    exact .inl ⟨fun hstarts => hready hstarts.1, rfl⟩

theorem init_reader {a : Unit} (ht : t < ttyCount)
    (h : init c = some (a, c')) :
    c'.reader t = if c.Starts then ⟨false, .reset⟩ else c.reader t := by
  rcases init_cases h with ⟨hstarts, httys⟩ | ⟨hstarts, b, c1, hloop, hkept⟩
  · rw [if_neg hstarts]
    unfold Console.reader
    rw [httys]
  · rw [if_pos hstarts]
    have hsame : c'.reader t = c1.reader t := congrArg (fun k => k.2.1) (hkept t)
    rw [hsame]
    exact initLoop_run ht (fun _ => reader_initTty_other) (fun _ _ _ => initTty_run) hloop

-- ==== the theorem

theorem Written.follows (ht : t < ttyCount) {fates : List Fate}
    (h : Written t c fates) :
    ∃ r : Reader, r.utf8.remaining = 0 ∧ Follows r fates (c.reader t) := by
  induction h with
  | boot => exact ⟨⟨false, .reset⟩, rfl, .nil _⟩
  | @init c c' fates _ hstep ih =>
    rw [init_reader ht (step_run hstep)]
    split_ifs
    · exact ⟨⟨false, .reset⟩, rfl, .nil _⟩
    · exact ih
  | step _ hop htraced ih =>
    obtain ⟨r, hheld, hfollows⟩ := ih
    exact ⟨r, hheld, hfollows.append (traced_follows hop htraced)⟩

theorem Reachable.written (t : Nat) (h : Reachable c) :
    ∃ fates, Written t c fates := by
  induction h with
  | boot => exact ⟨[], .boot⟩
  | @step c c' op _ _ hstep ih =>
    obtain ⟨fates, hwritten⟩ := ih
    by_cases hop : op = .init
    · rw [hop] at hstep
      exact ⟨_, hwritten.init hstep⟩
    · have hrun := step_run hstep
      rw [← Op.traced_run t op] at hrun
      obtain ⟨more, c2, htraced, hend⟩ := bind_some_inv hrun
      cases hend
      exact ⟨_, hwritten.step hop htraced⟩

/-- What is written to a terminal, in any calls and with any others between
them, is passed on faithfully if, and only if, the decoder holds nothing where
a character begins and no escape sequence stands inside of one. -/
theorem written_faithful_iff (ht : t < ttyCount) {fates : List Fate}
    (h : Written t c fates) : Faithful fates ↔ Undisturbed fates := by
  obtain ⟨r, hheld, hfollows⟩ := h.follows ht
  exact faithful_iff hfollows hheld

/-- A console of eight columns and six rows that is initialized. -/
def started : Option Console :=
  (boot.step smallDisplay).bind fun c => c.step .init

theorem started_written {text : List UInt8} {fates : List Fate}
    (h : (started.bind fun c => ((Op.write 2 text).traced 2 c).map Prod.fst)
      = some fates) : ∃ c, Written 2 c fates := by
  obtain ⟨c2, hstarted, hfates⟩ := Option.bind_eq_some_iff.mp h
  obtain ⟨c1, hdisplay, hinit⟩ := Option.bind_eq_some_iff.mp hstarted
  obtain ⟨⟨fates', c3⟩, htraced, hfst⟩ := Option.map_eq_some_iff.mp hfates
  obtain rfl : fates' = fates := hfst
  have hsmall : smallDisplay.traced 2 boot = some ([], c1) := by
    cases hdisplay
    rfl
  have hboot : Written 2 c1 [] := Written.boot.step Op.noConfusion hsmall
  have hready := hboot.init hinit
  rw [ite_self] at hready
  exact ⟨c3, hready.step Op.noConfusion htraced⟩

/-- A letter behind nothing. -/
theorem written_faithful_iff_letter :
    ∃ c, Written 2 c [.decoded ⟨0, 0, 0⟩ 0x41 (.codepoint 0x41)] ∧
      Faithful [.decoded ⟨0, 0, 0⟩ 0x41 (.codepoint 0x41)] := by
  have hrun : (started.bind fun c => ((Op.write 2 [0x41]).traced 2 c).map
      Prod.fst) = some [.decoded ⟨0, 0, 0⟩ 0x41 (.codepoint 0x41)] := by
    decide +kernel
  obtain ⟨c, hwritten⟩ := started_written hrun
  refine ⟨c, hwritten, (written_faithful_iff (by decide) hwritten).mpr ⟨?_, ?_⟩⟩
  · intro front held byte status back c heq _
    have hmem : Fate.decoded held byte status ∈
        [Fate.decoded ⟨0, 0, 0⟩ 0x41 (.codepoint 0x41)] := by
      rw [heq]
      exact List.mem_append_right _ List.mem_cons_self
    cases List.mem_singleton.mp hmem
    rfl
  · intro front back c pre post heq
    have hmem : Fate.escaped ∈
        [Fate.decoded ⟨0, 0, 0⟩ 0x41 (.codepoint 0x41)] := by
      rw [heq]
      exact List.mem_append_right _ List.mem_cons_self
    exact nomatch List.mem_singleton.mp hmem

/-- A letter behind the first byte of a sequence of three is not passed on. -/
theorem letter_is_lost :
    ∃ c fates, Written 2 c fates ∧ bytes fates = [0xE4, 0x41] ∧
      passed fates = [.replacement] ∧ ¬ Faithful fates := by
  have hrun : (started.bind fun c => ((Op.write 2 [0xE4, 0x41]).traced 2 c).map
      Prod.fst) = some [.decoded ⟨0, 0, 0⟩ 0xE4 .needMore,
        .decoded ⟨4, 2, 3⟩ 0x41 .replacement] := by
    decide +kernel
  obtain ⟨c, hwritten⟩ := started_written hrun
  refine ⟨c, _, hwritten, rfl, rfl, fun hfaithful => ?_⟩
  have hletter := hfaithful.kept [.decoded ⟨0, 0, 0⟩ 0xE4 .needMore]
    [.decoded ⟨4, 2, 3⟩ 0x41 .replacement] [] 'A' rfl (by decide)
  exact nomatch hletter

end Clks.Tty
