/-
The keyboard (input/keyboard.c): the scan codes, the modifier keys, and the
queues of characters.

What the keyboard calls, the terminals, the input methods and the processes,
is a state of its own with a function for each call (`Calls`). None of it
reaches the flags of the modifier keys: they are static here, and only the
functions of this file assign to them. An input method may put text into the
queues.
-/
import Clks.Lib.RingBuf
import Clks.Tty.State

namespace Clks.Input

-- ==== the constants

abbrev scEsc : UInt8 := 0x01
abbrev scAlt : UInt8 := 0x38
abbrev scLshift : UInt8 := 0x2A
abbrev scRshift : UInt8 := 0x36
abbrev scCtrl : UInt8 := 0x1D
abbrev scF1 : UInt8 := 0x3B
abbrev scF4 : UInt8 := 0x3E
abbrev scC : UInt8 := 0x2E
abbrev scSpace : UInt8 := 0x39
abbrev scExtPrefix : UInt8 := 0xE0
abbrev scExtPageup : UInt8 := 0x49
abbrev scExtPagedown : UInt8 := 0x51

/-- `CLKS_KBD_INPUT_CAP`. -/
abbrev kbdInputCap : Nat := 256

theorem kbdInputCap_pos : 0 < kbdInputCap := by decide

/-- `CLKS_KBD_TTY_MAX`. -/
abbrev kbdTtyMax : Nat := 8

/-- `CLKS_CFG_KBD_*`. -/
structure Config where
  ttySwitchHotkey : Bool
  ctrlShortcuts : Bool
  forceStopHotkey : Bool

/-- `clks_kbd_map`. -/
def kbdMap (code : UInt8) : UInt8 :=
  [0, 0, 49, 50, 51, 52, 53, 54, 55, 56, 57, 48, 45, 61, 8, 9,
    113, 119, 101, 114, 116, 121, 117, 105, 111, 112, 91, 93, 10, 0,
    97, 115, 100, 102, 103, 104, 106, 107, 108, 59, 39, 96, 0, 92,
    122, 120, 99, 118, 98, 110, 109, 44, 46, 47, 0, 0, 0, 32].getD
      code.toNat 0

/-- `clks_kbd_shift_map`. -/
def kbdShiftMap (code : UInt8) : UInt8 :=
  [0, 0, 33, 64, 35, 36, 37, 94, 38, 42, 40, 41, 95, 43, 8, 9,
    81, 87, 69, 82, 84, 89, 85, 73, 79, 80, 123, 125, 10, 0,
    65, 83, 68, 70, 71, 72, 74, 75, 76, 58, 34, 126, 0, 124,
    90, 88, 67, 86, 66, 78, 77, 60, 62, 63, 0, 0, 0, 32].getD code.toNat 0

-- ==== the queues

/-- `clks_keyboard_effective_tty_count`. -/
def effectiveTtyCount : Nat :=
  if Tty.ttyCount = 0 then 1 else min Tty.ttyCount kbdTtyMax

/-- `clks_keyboard_clamp_tty_index`. -/
def clampTtyIndex (ttyIndex : Nat) : Nat :=
  if effectiveTtyCount ≤ ttyIndex then 0 else ttyIndex

/-- `clks_kbd_input_queue` with its indices and counts. -/
structure Queues where
  input : Nat → RingBuf UInt8 kbdInputCap
  pushCount : UInt64
  popCount : UInt64
  dropCount : UInt64

namespace Queues

/-- The queues that `clks_keyboard_flush` leaves. -/
def flush (q : Queues) : Queues :=
  { q with input := fun _ => .empty 0 (by decide) }

/-- What waits for a terminal. -/
def waiting (ttyIndex : Nat) (q : Queues) : List UInt8 :=
  (q.input (clampTtyIndex ttyIndex)).toList

/-- `clks_keyboard_queue_push_for_tty`. -/
def pushForTty (ttyIndex : Nat) (ch : UInt8) (q : Queues) : Bool × Queues :=
  let tty := clampTtyIndex ttyIndex
  if h : (q.input tty).count < kbdInputCap then
    (true,
      { q with
        input := Function.update q.input tty ((q.input tty).put ch h)
        pushCount := q.pushCount + 1 })
  else (false, { q with dropCount := q.dropCount + 1 })

/-- `clks_keyboard_inject_text_for_tty`, of the bytes before the one that
ends the text. -/
def injectTextForTty (ttyIndex : Nat) : List UInt8 → Queues → Bool × Queues
  | [], q => (true, q)
  | ch :: text, q =>
    match q.pushForTty ttyIndex ch with
    | (false, q) => (false, q)
    | (true, q) => injectTextForTty ttyIndex text q

end Queues

-- ==== the keyboard

/-- The flags of the keys that are held, and those beside them. -/
structure Modifiers where
  altDown : Bool
  lshiftDown : Bool
  rshiftDown : Bool
  lctrlDown : Bool
  rctrlDown : Bool
  e0Prefix : Bool
  forceStopLatch : Bool
  deriving DecidableEq, Repr

namespace Modifiers

/-- `clks_keyboard_reset_modifier_state`. -/
def reset : Modifiers := ⟨false, false, false, false, false, false, false⟩

/-- `clks_keyboard_shift_active`. -/
def shiftActive (m : Modifiers) : Bool := m.lshiftDown || m.rshiftDown

/-- `clks_keyboard_ctrl_active`. -/
def ctrlActive (m : Modifiers) : Bool := m.lctrlDown || m.rctrlDown

end Modifiers

/-- What the keyboard calls, on a state of its own. -/
structure Calls (σ : Type) where
  ttyActive : σ → Nat
  ttySwitch : Nat → σ → σ
  scrollbackPageUp : σ → σ
  scrollbackPageDown : σ → σ
  scrollbackHandleKey : UInt8 → σ → Bool × σ
  inputmCycle : σ → σ
  inputmHandleChar : Nat → UInt8 → Queues → σ → Bool × Queues × σ
  forceStopTtyRunningProcess : Nat → σ → σ

/-- The static variables, and what is called. -/
structure Keyboard (σ : Type) where
  modifiers : Modifiers
  inputReady : Bool
  hotkeySwitches : UInt64
  queues : Queues
  rest : σ

namespace Keyboard

variable {σ : Type} (cfg : Config) (calls : Calls σ)

/-- A character goes into the queue of a terminal. -/
def push (ttyIndex : Nat) (ch : UInt8) (k : Keyboard σ) : Keyboard σ :=
  { k with queues := (k.queues.pushForTty ttyIndex ch).2 }

/-- `clks_keyboard_flush`. -/
def flush (k : Keyboard σ) : Keyboard σ :=
  { k with queues := k.queues.flush, modifiers := .reset }

/-- `clks_keyboard_set_input_ready`. -/
def setInputReady (ready : Bool) (k : Keyboard σ) : Keyboard σ :=
  { k.flush with inputReady := ready }

-- ==== the shortcuts

/-- `clks_keyboard_translate_ext_scancode`; 0 is no character. -/
def translateExtScancode (code : UInt8) (k : Keyboard σ) : UInt8 :=
  let shift := k.modifiers.shiftActive
  if code = 0x4B then (if shift then 0x13 else 0x01)
  else if code = 0x4D then (if shift then 0x14 else 0x02)
  else if code = 0x48 then 0x03
  else if code = 0x50 then 0x04
  else if code = 0x47 then (if shift then 0x15 else 0x05)
  else if code = 0x4F then (if shift then 0x16 else 0x06)
  else if code = 0x53 then 0x07
  else 0

/-- `clks_keyboard_translate_scancode`. -/
def translateScancode (code : UInt8) (k : Keyboard σ) : UInt8 :=
  if k.modifiers.shiftActive then kbdShiftMap code else kbdMap code

/-- The character of a key that is held with Ctrl. -/
def ctrlShortcut (code : UInt8) : Option UInt8 :=
  if code = 0x1E then some 0x18
  else if code = 0x2E then some 0x11
  else if code = 0x2F then some 0x12
  else if code = 0x13 then some 0x17
  else if code = 0x12 then some 0x19
  else if code = 0x16 then some 0x1A
  else if code = 0x25 then some 0x1C
  else if code = 0x11 then some 0x1D
  else if code = 0x26 then some 0x1E
  else if code = 0x20 then some 0x1F
  else none

/-- `clks_keyboard_try_emit_ctrl_shortcut`. -/
def tryEmitCtrlShortcut (code : UInt8) (ttyIndex : Nat) (k : Keyboard σ) :
    Bool × Keyboard σ :=
  if cfg.ctrlShortcuts = false ∨ k.modifiers.ctrlActive = false then (false, k)
  else
    match ctrlShortcut code with
    | none => (false, k)
    | some shortcut =>
      ((k.queues.pushForTty ttyIndex shortcut).1, k.push ttyIndex shortcut)

/-- `clks_keyboard_try_force_stop_hotkey`. -/
def tryForceStopHotkey (code : UInt8) (k : Keyboard σ) : Bool × Keyboard σ :=
  if cfg.forceStopHotkey = false ∨ code ≠ scC ∨ k.modifiers.altDown = false ∨
      k.modifiers.ctrlActive = false then
    (false, k)
  else if k.modifiers.forceStopLatch then (true, k)
  else
    (true,
      { k with
        modifiers := { k.modifiers with forceStopLatch := true }
        rest := calls.forceStopTtyRunningProcess (calls.ttyActive k.rest) k.rest })

-- ==== the scan codes

/-- A key of Ctrl, pressed or released. -/
def handleCtrl (released : Bool) (m : Modifiers) : Modifiers :=
  let latch := if released then false else m.forceStopLatch
  if m.e0Prefix then
    { m with rctrlDown := !released, forceStopLatch := latch, e0Prefix := false }
  else { m with lctrlDown := !released, forceStopLatch := latch }

/-- A key of Alt. -/
def handleAlt (released : Bool) (m : Modifiers) : Modifiers :=
  { m with
    altDown := !released
    forceStopLatch := if released then false else m.forceStopLatch
    e0Prefix := if m.e0Prefix then false else m.e0Prefix }

/-- Another key, released. -/
def handleRelease (code : UInt8) (m : Modifiers) : Modifiers :=
  { m with
    forceStopLatch := if code = scC then false else m.forceStopLatch
    e0Prefix := if m.e0Prefix then false else m.e0Prefix }

/-- Another key behind a prefix, pressed. -/
def handleExtended (code : UInt8) (k : Keyboard σ) : Keyboard σ :=
  let activeTty := calls.ttyActive k.rest
  let k := { k with modifiers := { k.modifiers with e0Prefix := false } }
  if code = scExtPageup then { k with rest := calls.scrollbackPageUp k.rest }
  else if code = scExtPagedown then
    { k with rest := calls.scrollbackPageDown k.rest }
  else
    let ext := k.translateExtScancode code
    if ext ≠ 0 then k.push activeTty ext else k

/-- The terminal is switched. -/
def switchTty (target : Nat) (k : Keyboard σ) : Keyboard σ :=
  let before := calls.ttyActive k.rest
  let rest := calls.ttySwitch target k.rest
  { k with
    rest
    hotkeySwitches :=
      if calls.ttyActive rest ≠ before then k.hotkeySwitches + 1
      else k.hotkeySwitches }

/-- A character goes to the scrollback, to the input method or into the
queue, to the first that takes it. -/
def deliver (activeTty : Nat) (ch : UInt8) (k : Keyboard σ) : Keyboard σ :=
  if ch = 0 then k
  else
    let (taken, rest) := calls.scrollbackHandleKey ch k.rest
    if taken then { k with rest }
    else
      let (taken, queues, rest) := calls.inputmHandleChar activeTty ch k.queues rest
      if taken then { k with queues, rest }
      else { k with queues, rest }.push activeTty ch

/-- What is typed with a key, behind all keys of special meaning. -/
def typeKey (code : UInt8) (k : Keyboard σ) : Keyboard σ :=
  let activeTty := calls.ttyActive k.rest
  let (stopped, k) := k.tryForceStopHotkey cfg calls code
  if stopped then k
  else
    let (emitted, k) := k.tryEmitCtrlShortcut cfg code activeTty
    if emitted then k
    else k.deliver calls activeTty (k.translateScancode code)

/-- The key of Escape, which the scrollback or the input method may take. -/
def handleEsc (code : UInt8) (k : Keyboard σ) : Keyboard σ :=
  let (taken, rest) := calls.scrollbackHandleKey 27 k.rest
  if taken then { k with rest }
  else
    let (taken, queues, rest) :=
      calls.inputmHandleChar (calls.ttyActive rest) 27 k.queues rest
    if taken then { k with queues, rest }
    else { k with queues, rest }.typeKey cfg calls code

/-- Another key without a prefix, pressed. -/
def handlePress (code : UInt8) (k : Keyboard σ) : Keyboard σ :=
  if cfg.ttySwitchHotkey ∧ k.modifiers.altDown ∧ scF1 ≤ code ∧ code ≤ scF4 then
    k.switchTty calls (code - scF1).toNat
  else if code = scSpace ∧ k.modifiers.ctrlActive ∧ k.modifiers.shiftActive then
    { k with rest := calls.inputmCycle k.rest }
  else if code = scEsc then k.handleEsc cfg calls code
  else k.typeKey cfg calls code

/-- `clks_keyboard_handle_scancode`. -/
def handleScancode (k : Keyboard σ) (scancode : UInt8) : Keyboard σ :=
  if k.inputReady = false then { k with modifiers := .reset }
  else if scancode = scExtPrefix then
    { k with modifiers := { k.modifiers with e0Prefix := true } }
  else
    let released : Bool := scancode &&& 0x80 ≠ 0
    let code := scancode &&& 0x7F
    if code = scCtrl then
      { k with modifiers := handleCtrl released k.modifiers }
    else if code = scAlt then
      { k with modifiers := handleAlt released k.modifiers }
    else if code = scLshift then
      { k with modifiers := { k.modifiers with lshiftDown := !released } }
    else if code = scRshift then
      { k with modifiers := { k.modifiers with rshiftDown := !released } }
    else if released then
      { k with modifiers := handleRelease code k.modifiers }
    else if k.modifiers.e0Prefix then k.handleExtended calls code
    else k.handlePress cfg calls code

end Keyboard

end Clks.Input
