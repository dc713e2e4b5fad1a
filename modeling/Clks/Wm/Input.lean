/-
What the window manager does in time (wm/input_dispatch.inc,
cursor_present.inc, init_query.inc, display.c): it takes the mouse and the
keyboard to the windows, it presents, and it flushes.

What it asks of the rest of the kernel is an input: whether its terminal is
active, the state of the mouse, the characters that were typed, and whether
it is time for a frame. A flush empties the damage lists; what it draws is
left out.
-/
import Clks.Wm.Windows

namespace Clks.Wm

-- ==== inputs

/-- `CLKS_MOUSE_BTN_LEFT`. -/
abbrev mouseBtnLeft : UInt8 := 0x01

/-- The left button is down. -/
def leftDown (buttons : UInt8) : Bool := buttons &&& mouseBtnLeft ≠ 0

/-- `struct clks_mouse_state`. -/
structure MouseState where
  x : Int32
  y : Int32
  buttons : UInt8
  ready : Bool
  deriving DecidableEq, Repr

/-- The rest of the kernel, at a call that pumps or flushes. -/
structure Surroundings where
  ttyActive : Bool
  mouse : MouseState
  typed : List UInt8
  framePaced : Bool

namespace Display

/-- `clks_display_origin_axis`. -/
def originAxis (physical logical : UInt32) : Int32 :=
  if physical ≤ logical then 0 else ((physical - logical) / 2).toInt32

/-- `clks_display_map_x_phys_to_logical`. -/
def mapX (d : Display) (x : Int32) : Int32 :=
  if !d.ready || d.logicalWidth = 0 then x
  else x - originAxis d.physicalWidth d.logicalWidth

/-- `clks_display_map_y_phys_to_logical`. -/
def mapY (d : Display) (y : Int32) : Int32 :=
  if !d.ready || d.logicalHeight = 0 then y
  else y - originAxis d.physicalHeight d.logicalHeight

end Display

namespace Manager

-- ==== the mouse

/-- The pointer in the coordinates of the windows. -/
def logicalX (mouse : MouseState) (s : Manager) : Int32 :=
  s.damage.display.mapX mouse.x

def logicalY (mouse : MouseState) (s : Manager) : Int32 :=
  s.damage.display.mapY mouse.y

/-- The mouse is there, and on the screen of the windows. -/
def mouseReady (mouse : MouseState) (s : Manager) : Bool :=
  let x := s.logicalX mouse
  let y := s.logicalY mouse
  mouse.ready && !(x < 0 || y < 0 || s.damage.screen.width.toInt32 ≤ x ||
    s.damage.screen.height.toInt32 ≤ y)

/-- `clks_wm_window_hit_test`. -/
def windowHitTest (x y : Int32) (s : Manager) : Option Slot :=
  s.zOrder.reverse.find? fun slot =>
    match s.windows slot with
    | none => false
    | some w =>
      w.rect.l ≤ x && x < w.rect.r && w.rect.t ≤ y && y < w.rect.b

/-- The window under the pointer. -/
def hitSlot (mouse : MouseState) (s : Manager) : Option Slot :=
  if s.mouseReady mouse then
    s.windowHitTest (s.logicalX mouse) (s.logicalY mouse)
  else none

/-- The left button is pressed, and was not before. -/
def newlyPressed (mouse : MouseState) (s : Manager) : Bool :=
  s.mouseReady mouse && leftDown mouse.buttons && !leftDown s.lastMouseButtons

/-- The window that a press gives the focus to. -/
def pressedSlot (mouse : MouseState) (s : Manager) : Option Slot :=
  if s.newlyPressed mouse then s.hitSlot mouse else none

/-- The window that the events of the mouse go to. -/
def mouseTarget (mouse : MouseState) (s : Manager) : Option Slot :=
  let focusedSlot := (s.pressedSlot mouse).or s.focusedSlot
  if !s.mouseReady mouse then none
  else if leftDown (mouse.buttons ||| s.lastMouseButtons) &&
      focusedSlot.isSome then focusedSlot
  else (s.hitSlot mouse).or s.focusedSlot

/-- The events of the mouse for a window. -/
def mouseEvents (mouse : MouseState) (w : Window) (s : Manager) :
    List Event :=
  let x := (s.logicalX mouse).toInt64
  let y := (s.logicalY mouse).toInt64
  let localX := (x - w.x.toInt64).toUInt64
  let localY := (y - w.y.toInt64).toUInt64
  (if s.logicalX mouse ≠ s.lastMouseX ∨ s.logicalY mouse ≠ s.lastMouseY then
    [⟨.mouseMove, x.toUInt64, y.toUInt64, localX, localY⟩] else []) ++
  (if mouse.buttons ≠ s.lastMouseButtons then
    [⟨.mouseButton, mouse.buttons.toUInt64,
      (mouse.buttons ^^^ s.lastMouseButtons).toUInt64, localX, localY⟩]
  else [])

/-- `clks_wm_mark_dirty_cursor`, with `CLKS_WM_CURSOR_DAMAGE_RADIUS` = 9. -/
def markDirtyCursor (x y : Int32) (s : Manager) : Manager :=
  { s with
    damage := s.damage.markPresentDirtyRect s.multi
      ⟨x - 9, y - 9, x + 9 + 1, y + 9 + 1⟩ }

/-- The mouse is not where it was, or its buttons are not. -/
def mouseChanged (mouse : MouseState) (s : Manager) : Bool :=
  s.mouseReady mouse ≠ s.lastMouseReady ||
    s.logicalX mouse ≠ s.lastMouseX || s.logicalY mouse ≠ s.lastMouseY ||
    mouse.buttons ≠ s.lastMouseButtons

/-- The window under a press gets the focus. -/
def pressFocus (mouse : MouseState) (s : Manager) : Manager :=
  match s.pressedSlot mouse with
  | none => s
  | some slot => s.setFocusSlot (some slot)

/-- The events of the mouse go to a window. -/
def sendMouse (mouse : MouseState) (target : Option Slot) (s : Manager) :
    Manager :=
  match target with
  | none => s
  | some slot =>
    match s.windows slot with
    | none => s
    | some w => (s.mouseEvents mouse w).foldl (fun s e => s.eventPush slot e) s

/-- The cursor is drawn again where it was and where it is. -/
def markMouse (mouse : MouseState) (s : Manager) : Manager :=
  let ready := s.mouseReady mouse
  let x := s.logicalX mouse
  let y := s.logicalY mouse
  let changed := s.mouseChanged mouse
  let s := if s.lastMouseReady && changed then
      s.markDirtyCursor s.lastMouseX s.lastMouseY else s
  if ready && changed then s.markDirtyCursor x y else s

/-- The mouse is remembered as it is. -/
def rememberMouse (mouse : MouseState) (s : Manager) : Manager :=
  { s with
    lastMouseReady := s.mouseReady mouse
    lastMouseX := s.logicalX mouse
    lastMouseY := s.logicalY mouse
    lastMouseButtons := mouse.buttons }

/-- `clks_wm_dispatch_mouse`. -/
def dispatchMouse (mouse : MouseState) (s : Manager) : Manager :=
  let target := s.mouseTarget mouse
  let s := s.pressFocus mouse
  let s := s.sendMouse mouse target
  let s := s.markMouse mouse
  s.rememberMouse mouse

-- ==== the keyboard

/-- `clks_wm_dispatch_keyboard_to_focused`, with a budget of 64. -/
def dispatchKeyboardToFocused (typed : List UInt8) (s : Manager) : Manager :=
  match s.focusedSlot with
  | none => s
  | some slot =>
    (typed.take 64).foldl
      (fun s ch => s.eventPush slot ⟨.key, ch.toUInt64, 0, 0, 0⟩) s

-- ==== frames

/-- `clks_wm_mark_dirty_full` and `clks_wm_mark_stats_dirty`, at the first
frame of a foreground. -/
def markFirst (s : Manager) : Manager :=
  if s.activeLast then s
  else
    { s with
      damage := (s.damage.markDirtyFull s.multi).markStatsDirty s.multi }

/-- `clks_wm_flush_present_damage`. -/
def flushPresentDamage (s : Manager) : Manager :=
  if s.damage.presentDamage = [] then s
  else { s with damage := s.damage.clear.markStatsDirty s.multi }

/-- `clks_wm_flush_present_damage_now`. -/
def flushPresentDamageNow (env : Surroundings) (s : Manager) : Manager :=
  if !s.ready || !env.ttyActive then s
  else { s.markFirst with activeLast := true }.flushPresentDamage

/-- `clks_wm_pump_foreground`. -/
def pumpForeground (env : Surroundings) (s : Manager) : Manager :=
  if !s.ready then s
  else if !env.ttyActive then
    { s with activeLast := false, damage := s.damage.clear }
  else
    let s := s.markFirst
    let s := s.dispatchMouse env.mouse
    let s := s.dispatchKeyboardToFocused env.typed
    let s := if env.framePaced then s.flushPresentDamage else s
    { s with activeLast := true }

/-- `clks_wm_present`: `src` is the pixel of a row and a column. -/
def present (env : Surroundings) (ownerPid windowId : UInt64)
    (src : Nat → Nat → UInt32) (srcWidth srcHeight srcPitchBytes : UInt32)
    (s : Manager) : Bool × Manager :=
  match s.target ownerPid windowId with
  | none => (false, s)
  | some (slot, w) =>
    if srcWidth ≠ w.width ∨ srcHeight ≠ w.height ∨
        srcPitchBytes < w.width * 4 then (false, s)
    else
      let pixels := (List.range w.height.toNat).flatMap fun y =>
        (List.range w.width.toNat).map (src y)
      let s := s.modifyWindow slot fun w =>
        { w with pixels, presented := true }
      let s := s.markDirtyWindow slot
      (true, s.flushPresentDamageNow env)

/-- `clks_wm_poll_event`. -/
def pollEvent (env : Surroundings) (ownerPid windowId : UInt64)
    (s : Manager) : Option Event × Manager :=
  match s.target ownerPid windowId with
  | none => (none, s)
  | some (slot, _) =>
    let s := s.pumpForeground env
    match s.windows slot with
    | none => (none, s)
    | some w =>
      (w.queue.head?,
        s.modifyWindow slot fun w => { w with queue := w.queue.tail })

/-- `clks_wm_tick`. -/
def tick (env : Surroundings) (alive : UInt64 → Bool) (s : Manager) :
    Manager :=
  if !s.ready then s else (s.reapDeadOwners alive).pumpForeground env

/-- `clks_wm_set_resolution`. -/
def setResolution (width height : UInt32) (s : Manager) : Bool × Manager :=
  match s.damage.display.modeSet width height with
  | none => (false, s)
  | some _ =>
    (true,
      { s with
        damage := s.damage.setResolution s.multi width height
        activeLast := false })

-- ==== runs

/-- What the window manager is asked for. -/
inductive Op
  | create (allocated : Bool) (ownerPid : UInt64) (x y : Int32)
      (width height : UInt32) (flags : UInt64)
  | destroy (ownerPid windowId : UInt64)
  | present (env : Surroundings) (ownerPid windowId : UInt64)
      (src : Nat → Nat → UInt32) (width height pitchBytes : UInt32)
  | move (ownerPid windowId : UInt64) (x y : Int32)
  | setFocus (windowId : UInt64)
  | setFlags (ownerPid windowId flags : UInt64)
  | resize (allocated : Bool) (ownerPid windowId : UInt64)
      (width height : UInt32)
  | setResolution (width height : UInt32)
  | reap (alive : UInt64 → Bool)
  | poll (env : Surroundings) (ownerPid windowId : UInt64)
  | tick (env : Surroundings) (alive : UInt64 → Bool)

/-- One call. -/
def step (s : Manager) : Op → Manager
  | .create allocated ownerPid x y width height flags =>
    (s.create allocated ownerPid x y width height flags).2
  | .destroy ownerPid windowId => (s.destroy ownerPid windowId).2
  | .present env ownerPid windowId src width height pitchBytes =>
    (s.present env ownerPid windowId src width height pitchBytes).2
  | .move ownerPid windowId x y => (s.move ownerPid windowId x y).2
  | .setFocus windowId => (s.setFocus windowId).2
  | .setFlags ownerPid windowId flags =>
    (s.setFlags ownerPid windowId flags).2
  | .resize allocated ownerPid windowId width height =>
    (s.resize allocated ownerPid windowId width height).2
  | .setResolution width height => (s.setResolution width height).2
  | .reap alive => s.reapDeadOwners alive
  | .poll env ownerPid windowId => (s.pollEvent env ownerPid windowId).2
  | .tick env alive => s.tick env alive

/-- One call after another. -/
def run (s : Manager) (ops : List Op) : Manager := ops.foldl step s

/-- A call makes a window: it takes a number. -/
def makes (s : Manager) (op : Op) : Bool :=
  (s.step op).nextWindowId ≠ s.nextWindowId

/-- How many windows the calls make. -/
def creations : Manager → List Op → Nat
  | _, [] => 0
  | s, op :: ops => (s.makes op).toNat + creations (s.step op) ops

end Manager

end Clks.Wm
