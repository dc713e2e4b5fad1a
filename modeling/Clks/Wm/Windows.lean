/-
The windows of the window manager (wm/window_list.inc, focus_lifecycle.inc,
create_present.inc, public_api.inc).

A slot in use holds a window and a free one nothing, since a slot is
cleared when its window goes. The first `clks_wm_z_count` entries of the
z-order are a list, from the back to the front, and an event queue is the
list of the events from its head on. Memory is taken from the heap, and
whether there was some is an input. What is drawn is left out here; what is
marked for drawing goes to the damage lists.
-/
import Clks.Wm.Compositor

namespace Clks.Wm

-- ==== constants

/-- `CLKS_WM_MAX_WINDOWS`. -/
abbrev maxWindows : Nat := 16

/-- `CLKS_WM_EVENT_QUEUE_CAP`. -/
abbrev eventQueueCap : Nat := 64

/-- `CLKS_WM_MIN_WIDTH`, `CLKS_WM_MIN_HEIGHT`, `CLKS_WM_MAX_WIDTH` and
`CLKS_WM_MAX_HEIGHT`. -/
abbrev minWidth : UInt32 := 64

abbrev minHeight : UInt32 := 48

abbrev maxWidth : UInt32 := 4096

abbrev maxHeight : UInt32 := 4096

/-- `CLKS_WM_TOPBAR_HEIGHT`. -/
abbrev topbarHeight : Int32 := 24

/-- `CLKS_WM_FLAG_TOPMOST`. -/
abbrev flagTopmost : UInt64 := 0x1

-- ==== events

/-- `CLKS_WM_EVENT_*`. -/
inductive EventType
  | focusGained
  | focusLost
  | key
  | mouseMove
  | mouseButton
  deriving DecidableEq, Repr

/-- `struct clks_wm_event`. -/
structure Event where
  type : EventType
  arg0 : UInt64
  arg1 : UInt64
  arg2 : UInt64
  arg3 : UInt64
  deriving DecidableEq, Repr

/-- A movement replaces a movement that is the last event. -/
def replaces (e : Event) (queue : List Event) : Bool :=
  e.type = .mouseMove && (queue.getLast?.map Event.type) = some .mouseMove

/-- A full queue loses its first event. -/
def overflows (e : Event) (queue : List Event) : Bool :=
  !replaces e queue && eventQueueCap ≤ queue.length

/-- `clks_wm_event_push` on a queue. -/
def pushEvent (e : Event) (queue : List Event) : List Event :=
  if replaces e queue then queue.dropLast ++ [e]
  else (if overflows e queue then queue.tail else queue) ++ [e]

/-- An event that was sent, the window that it was sent to, and whether the
queue overflowed. -/
structure Sent where
  window : UInt64
  event : Event
  full : Bool
  deriving DecidableEq, Repr

-- ==== windows

/-- `struct clks_wm_window`, of a slot in use. -/
structure Window where
  presented : Bool
  focused : Bool
  id : UInt64
  ownerPid : UInt64
  flags : UInt64
  x : Int32
  y : Int32
  width : UInt32
  height : UInt32
  pixels : List UInt32
  pixelCount : UInt64
  queue : List Event
  deriving DecidableEq, Repr

/-- A window that stays in front of the others. -/
def Window.topmost (w : Window) : Bool := w.flags &&& flagTopmost ≠ 0

/-- `clks_wm_owner_allows`, for a slot in use. -/
def Window.ownerAllows (w : Window) (ownerPid : UInt64) : Bool :=
  ownerPid = 0 || w.ownerPid = ownerPid

/-- What a window covers. -/
def Window.rect (w : Window) : Rect :=
  ⟨w.x, w.y, w.x + w.width.toInt32, w.y + w.height.toInt32⟩

abbrev Slot := Fin maxWindows

/-- The state of the window manager; `multi` is
`CLKS_CFG_WM_MULTI_RECT_DAMAGE`, and `sent` is the history of the events,
the last one first, which nothing reads. -/
structure Manager where
  windows : Slot → Option Window
  zOrder : List Slot
  nextWindowId : UInt64
  ready : Bool
  activeLast : Bool
  lastMouseX : Int32
  lastMouseY : Int32
  lastMouseButtons : UInt8
  lastMouseReady : Bool
  damage : Compositor
  multi : Bool
  sent : List Sent

namespace Manager

/-- `clks_wm_init`, with the framebuffer ready. -/
def init (display : Display) (cellWidth cellHeight : UInt32) (multi : Bool) :
    Manager where
  windows := fun _ => none
  zOrder := []
  nextWindowId := 1
  ready := true
  activeLast := false
  lastMouseX := -1
  lastMouseY := -1
  lastMouseButtons := 0
  lastMouseReady := false
  damage := Compositor.init display cellWidth cellHeight
  multi
  sent := []

-- ==== slots

/-- `clks_wm_find_slot_by_id`. -/
def findSlotById (id : UInt64) (s : Manager) : Option Slot :=
  if id = 0 then none
  else (List.finRange maxWindows).find? fun i =>
    match s.windows i with
    | some w => w.id = id
    | none => false

/-- `clks_wm_find_free_slot`. -/
def findFreeSlot (s : Manager) : Option Slot :=
  (List.finRange maxWindows).find? fun i => (s.windows i).isNone

/-- A slot whose window is topmost. -/
def topmost (s : Manager) (slot : Slot) : Bool :=
  match s.windows slot with
  | some w => w.topmost
  | none => false

/-- A slot whose window has the focus. -/
def focused (s : Manager) (slot : Slot) : Bool :=
  match s.windows slot with
  | some w => w.focused
  | none => false

/-- `clks_wm_focused_slot`. -/
def focusedSlot (s : Manager) : Option Slot :=
  (List.finRange maxWindows).find? s.focused

/-- The window of a slot is changed, if there is one. -/
def modifyWindow (slot : Slot) (f : Window → Window) (s : Manager) : Manager :=
  { s with
    windows := Function.update s.windows slot ((s.windows slot).map f) }

-- ==== z-order

/-- `clks_wm_z_remove_slot`. -/
def zRemoveSlot (slot : Slot) (s : Manager) : Manager :=
  { s with zOrder := s.zOrder.erase slot }

/-- `clks_wm_z_insert_for_flags`. -/
def zInsertForFlags (slot : Slot) (s : Manager) : Manager :=
  if maxWindows ≤ s.zOrder.length ∨ s.windows slot = none then s
  else
    let pos :=
      if s.topmost slot then s.zOrder.length else s.zOrder.findIdx s.topmost
    { s with zOrder := s.zOrder.insertIdx pos slot }

-- ==== damage

/-- `clks_wm_mark_scene_dirty_rect`. -/
def markSceneDirtyRect (rect : Rect) (s : Manager) : Manager :=
  { s with damage := s.damage.markSceneDirtyRect s.multi rect }

/-- `clks_wm_mark_dirty_window`, of a slot. -/
def markDirtyWindow (slot : Slot) (s : Manager) : Manager :=
  match s.windows slot with
  | none => s
  | some w =>
    if w.width = 0 ∨ w.height = 0 then s else s.markSceneDirtyRect w.rect

-- ==== focus

/-- `clks_wm_event_push`. -/
def eventPush (slot : Slot) (e : Event) (s : Manager) : Manager :=
  match s.windows slot with
  | none => s
  | some w =>
    { s.modifyWindow slot fun w => { w with queue := pushEvent e w.queue } with
      sent := ⟨w.id, e, overflows e w.queue⟩ :: s.sent }

/-- The window that has the focus loses it. -/
def loseFocus (s : Manager) : Manager :=
  match s.focusedSlot with
  | none => s
  | some slot =>
    let s := s.markDirtyWindow slot
    let s := s.modifyWindow slot fun w => { w with focused := false }
    s.eventPush slot ⟨.focusLost, 0, 0, 0, 0⟩

/-- A window gets the focus, and goes to the front of its kind. -/
def gainFocus (slot : Slot) (s : Manager) : Manager :=
  let s := s.markDirtyWindow slot
  let s := s.modifyWindow slot fun w => { w with focused := true }
  let s := s.zRemoveSlot slot
  let s := s.zInsertForFlags slot
  let s := s.markDirtyWindow slot
  s.eventPush slot ⟨.focusGained, 1, 0, 0, 0⟩

/-- `clks_wm_set_focus_slot`. -/
def setFocusSlot (newSlot : Option Slot) (s : Manager) : Manager :=
  if s.focusedSlot = newSlot then s
  else
    let s := s.loseFocus
    match newSlot with
    | none => s
    | some slot => s.gainFocus slot

/-- A slot is cleared. -/
def clearSlot (slot : Slot) (s : Manager) : Manager :=
  { s with windows := Function.update s.windows slot none }

/-- `clks_wm_remove_slot`. -/
def removeSlot (slot : Slot) (s : Manager) : Manager :=
  match s.windows slot with
  | none => s
  | some w =>
    let s := s.markDirtyWindow slot
    let s := s.clearSlot slot
    let s := s.zRemoveSlot slot
    let s := if w.focused then s.setFocusSlot s.zOrder.getLast? else s
    if s.zOrder = [] then { s with damage := s.damage.clear } else s

/-- `clks_wm_reap_dead_owners`: `alive` says of a process that it is there
and has not exited. -/
def reapDeadOwners (alive : UInt64 → Bool) (s : Manager) : Manager :=
  (List.finRange maxWindows).foldl
    (fun s i =>
      match s.windows i with
      | none => s
      | some w =>
        if w.ownerPid = 0 ∨ alive w.ownerPid then s else s.removeSlot i)
    s

-- ==== operations

/-- Where a window of a size goes that is put at a place. -/
def clampPlace (screen : Screen) (width height : UInt32) (x y : Int32) :
    Int32 × Int32 :=
  let maxX := screen.width.toInt32 - width.toInt32
  let maxY := screen.height.toInt32 - height.toInt32
  let maxX := if maxX < 0 then 0 else maxX
  let maxY := if maxY < 0 then 0 else maxY
  let x := if x < 0 then 0 else x
  let y := if y < topbarHeight then topbarHeight else y
  (if maxX < x then maxX else x, if maxY < y then maxY else y)

/-- A size that a window may have. -/
def sizeAllowed (screen : Screen) (width height : UInt32) : Bool :=
  !(width < minWidth || height < minHeight || maxWidth < width ||
    maxHeight < height) &&
    !(screen.width < width || screen.height < height)

/-- The window that `clks_wm_create` makes. -/
def newWindow (ownerPid : UInt64) (x y : Int32) (width height : UInt32)
    (flags : UInt64) (s : Manager) : Window :=
  let pixelCount := width.toUInt64 * height.toUInt64
  { presented := false
    focused := false
    id := s.nextWindowId
    ownerPid
    flags := flags &&& flagTopmost
    x
    y
    width
    height
    pixels := List.replicate pixelCount.toNat 0
    pixelCount
    queue := [] }

/-- It is put into a slot. -/
def addWindow (slot : Slot) (w : Window) (s : Manager) : Manager :=
  { s with
    windows := Function.update s.windows slot (some w)
    nextWindowId := s.nextWindowId + 1 }

/-- `clks_wm_create`. -/
def create (allocated : Bool) (ownerPid : UInt64) (x y : Int32)
    (width height : UInt32) (flags : UInt64) (s : Manager) :
    UInt64 × Manager :=
  if !s.ready || !sizeAllowed s.damage.screen width height then (0, s)
  else
    let (x, y) := clampPlace s.damage.screen width height x y
    match s.findFreeSlot with
    | none => (0, s)
    | some slot =>
      if !allocated then (0, s)
      else
        let w := s.newWindow ownerPid x y width height flags
        let s := s.addWindow slot w
        let s := s.zInsertForFlags slot
        (w.id, s.setFocusSlot (some slot))

/-- The window that a call of a process is about. -/
def target (ownerPid windowId : UInt64) (s : Manager) :
    Option (Slot × Window) :=
  match s.findSlotById windowId with
  | none => none
  | some slot =>
    match s.windows slot with
    | none => none
    | some w => if w.ownerAllows ownerPid then some (slot, w) else none

/-- `clks_wm_destroy`. -/
def destroy (ownerPid windowId : UInt64) (s : Manager) : Bool × Manager :=
  match s.target ownerPid windowId with
  | none => (false, s)
  | some (slot, _) => (true, s.removeSlot slot)

/-- `clks_wm_move`. -/
def move (ownerPid windowId : UInt64) (x y : Int32) (s : Manager) :
    Bool × Manager :=
  match s.target ownerPid windowId with
  | none => (false, s)
  | some (slot, w) =>
    let (x, y) := clampPlace s.damage.screen w.width w.height x y
    if w.x ≠ x ∨ w.y ≠ y then
      let s := s.markSceneDirtyRect w.rect
      let s := s.modifyWindow slot fun w => { w with x, y }
      (true, s.markDirtyWindow slot)
    else (true, s)

/-- `clks_wm_set_focus`. -/
def setFocus (windowId : UInt64) (s : Manager) : Bool × Manager :=
  match s.findSlotById windowId with
  | none => (false, s)
  | some slot => (true, s.setFocusSlot (some slot))

/-- `clks_wm_set_flags`. -/
def setFlags (ownerPid windowId flags : UInt64) (s : Manager) :
    Bool × Manager :=
  match s.target ownerPid windowId with
  | none => (false, s)
  | some (slot, w) =>
    let nextFlags := flags &&& flagTopmost
    if w.flags = nextFlags then (true, s)
    else
      let s := s.markDirtyWindow slot
      let s := s.modifyWindow slot fun w => { w with flags := nextFlags }
      let s := s.zRemoveSlot slot
      let s := s.zInsertForFlags slot
      (true, s.markDirtyWindow slot)

/-- The pixels of a window of another size: what fits of the old ones, and
black. -/
def resizedPixels (w : Window) (width height : UInt32) : List UInt32 :=
  (List.range height.toNat).flatMap fun y =>
    (List.range width.toNat).map fun x =>
      if y < w.height.toNat ∧ x < w.width.toNat then
        w.pixels.getD (y * w.width.toNat + x) 0
      else 0

/-- Where a window goes that gets another size. -/
def resizePlace (screen : Screen) (width height : UInt32) (x y : Int32) :
    Int32 × Int32 :=
  let maxX := screen.width.toInt32 - width.toInt32
  let maxY := screen.height.toInt32 - height.toInt32
  let maxX := if maxX < 0 then 0 else maxX
  let maxY := if maxY < 0 then 0 else maxY
  let x := if maxX < x then maxX else x
  let y := if maxY < y then maxY else y
  (x, if y < topbarHeight then topbarHeight else y)

/-- `clks_wm_resize`. -/
def resize (allocated : Bool) (ownerPid windowId : UInt64)
    (width height : UInt32) (s : Manager) : Bool × Manager :=
  match s.target ownerPid windowId with
  | none => (false, s)
  | some (slot, w) =>
    if !sizeAllowed s.damage.screen width height then (false, s)
    else if !allocated then (false, s)
    else
      let pixelCount := width.toUInt64 * height.toUInt64
      let pixels := resizedPixels w width height
      let s := s.markDirtyWindow slot
      let (x, y) := resizePlace s.damage.screen width height w.x w.y
      let s := s.modifyWindow slot fun w =>
        { w with pixels, pixelCount, width, height, x, y }
      (true, s.markDirtyWindow slot)

end Manager

end Clks.Wm
