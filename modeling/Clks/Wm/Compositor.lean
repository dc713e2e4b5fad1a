/-
The two damage lists over a run (wm/rect_damage.inc, init_query.inc,
display.c).

`clks_wm_scene_damage` says what is drawn again into the scene layer, and
`clks_wm_present_damage` what is copied to the framebuffer; the marks of
windows go to both and those of the cursor and the statistics to the
second. Whatever drops the layer, or shows the lists, empties them. The
size of the screen changes in one place, and there the lists are emptied
too and the whole screen is marked.
-/
import Clks.Wm.Damage

namespace Clks.Wm

/-- The window manager's target of display.c: the framebuffer, and the
part of it that is used. -/
structure Display where
  ready : Bool
  physicalWidth : UInt32
  physicalHeight : UInt32
  logicalWidth : UInt32
  logicalHeight : UInt32

namespace Display

/-- `clks_display_init`, with a framebuffer of a size. -/
def init (width height : UInt32) : Display where
  ready := 0 < width && 0 < height
  physicalWidth := width
  physicalHeight := height
  logicalWidth := width
  logicalHeight := height

/-- `clks_display_width` and `clks_display_height`. -/
def screen (d : Display) : Screen :=
  if d.ready then ⟨d.logicalWidth, d.logicalHeight⟩ else ⟨0, 0⟩

/-- `clks_display_clamp_dimension`. -/
def clampDimension (value physical minValue : UInt32) : UInt32 :=
  if physical = 0 then 0
  else
    let value := if value < minValue then minValue else value
    if physical < value then physical else value

/-- `clks_display_mode_set`. -/
def modeSet (width height : UInt32) (d : Display) : Option Display :=
  if !d.ready then none
  else
    let width := clampDimension width d.physicalWidth 64
    let height := clampDimension height d.physicalHeight 48
    if width = 0 ∨ height = 0 then none
    else some { d with logicalWidth := width, logicalHeight := height }

end Display

/-- What was added since a list was emptied. -/
structure History where
  scene : List Rect
  present : List Rect

/-- The window manager: the screen, the size of a cell of the font, and
the lists. -/
structure Compositor where
  display : Display
  cellWidth : UInt32
  cellHeight : UInt32
  sceneDamage : List Rect
  presentDamage : List Rect
  history : History

/-- What touches the lists. -/
inductive DamageEvent
  | markScene (rect : Rect)
  | markPresent (rect : Rect)
  | clearScene
  | clear
  | setResolution (width height : UInt32)

namespace Compositor

/-- `clks_wm_init`. -/
def init (display : Display) (cellWidth cellHeight : UInt32) :
    Compositor where
  display := display
  cellWidth := cellWidth
  cellHeight := cellHeight
  sceneDamage := []
  presentDamage := []
  history := ⟨[], []⟩

/-- The screen, as the damage lists see it. -/
def screen (wm : Compositor) : Screen := wm.display.screen

variable (multi : Bool)

/-- `clks_wm_mark_present_dirty_rect`. -/
def markPresentDirtyRect (rect : Rect) (wm : Compositor) : Compositor :=
  { wm with
    presentDamage := damageAdd multi wm.screen rect wm.presentDamage
    history := { wm.history with present := rect :: wm.history.present } }

/-- `clks_wm_mark_scene_dirty_rect`. -/
def markSceneDirtyRect (rect : Rect) (wm : Compositor) : Compositor :=
  { wm with
    sceneDamage := damageAdd multi wm.screen rect wm.sceneDamage
    presentDamage := damageAdd multi wm.screen rect wm.presentDamage
    history := ⟨rect :: wm.history.scene, rect :: wm.history.present⟩ }

/-- `clks_wm_scene_damage.count = 0`: the scene layer was drawn. -/
def clearScene (wm : Compositor) : Compositor :=
  { wm with
    sceneDamage := []
    history := { wm.history with scene := [] } }

/-- Both counts are set to 0. -/
def clear (wm : Compositor) : Compositor :=
  { wm with
    sceneDamage := []
    presentDamage := []
    history := ⟨[], []⟩ }

/-- `clks_wm_mark_dirty_full`. -/
def markDirtyFull (wm : Compositor) : Compositor :=
  wm.markSceneDirtyRect multi
    ⟨0, 0, wm.screen.width.toInt32, wm.screen.height.toInt32⟩

/-- `clks_wm_mark_stats_dirty`, with `CLKS_WM_STATS_TEXT_CELLS` = 16. -/
def markStatsDirty (wm : Compositor) : Compositor :=
  let width := wm.screen.width
  let height := wm.screen.height
  let boxW := 16 * wm.cellWidth + 8
  let boxH := wm.cellHeight + 6
  if width = 0 ∨ height = 0 ∨ wm.cellWidth = 0 ∨ wm.cellHeight = 0 then wm
  else if width < boxW + 4 ∨ height < boxH + 4 then wm
  else
    wm.markPresentDirtyRect multi
      ⟨(width - boxW - 4).toInt32, (height - boxH - 4).toInt32,
        (width - 4).toInt32, (height - 4).toInt32⟩

/-- `clks_wm_set_resolution`. -/
def setResolution (width height : UInt32) (wm : Compositor) : Compositor :=
  match wm.display.modeSet width height with
  | none => wm
  | some display =>
    (({ wm with display := display }.clear).markDirtyFull multi).markStatsDirty
      multi

/-- One event. -/
def step (wm : Compositor) : DamageEvent → Compositor
  | .markScene rect => wm.markSceneDirtyRect multi rect
  | .markPresent rect => wm.markPresentDirtyRect multi rect
  | .clearScene => wm.clearScene
  | .clear => wm.clear
  | .setResolution width height => wm.setResolution multi width height

/-- Both lists show what was added to them. -/
structure Covering (wm : Compositor) : Prop where
  scene : Shows wm.screen wm.history.scene wm.sceneDamage
  present : Shows wm.screen wm.history.present wm.presentDamage

section covering

variable {multi} {wm : Compositor}

theorem Covering.markPresentDirtyRect (h : wm.Covering) (rect : Rect) :
    (wm.markPresentDirtyRect multi rect).Covering :=
  ⟨h.scene, h.present.add multi rect⟩

theorem Covering.markSceneDirtyRect (h : wm.Covering) (rect : Rect) :
    (wm.markSceneDirtyRect multi rect).Covering :=
  ⟨h.scene.add multi rect, h.present.add multi rect⟩

theorem clear_covering (wm : Compositor) : wm.clear.Covering :=
  ⟨.empty _, .empty _⟩

theorem Covering.markStatsDirty (h : wm.Covering) :
    (wm.markStatsDirty multi).Covering := by
  unfold Compositor.markStatsDirty
  dsimp only
  split
  · exact h
  · split
    · exact h
    · exact h.markPresentDirtyRect _

theorem Covering.setResolution (h : wm.Covering) (width height : UInt32) :
    (wm.setResolution multi width height).Covering := by
  unfold Compositor.setResolution
  split
  · exact h
  · exact ((clear_covering _).markSceneDirtyRect _).markStatsDirty

theorem Covering.step (h : wm.Covering) (e : DamageEvent) :
    (wm.step multi e).Covering := by
  cases e with
  | markScene rect => exact h.markSceneDirtyRect rect
  | markPresent rect => exact h.markPresentDirtyRect rect
  | clearScene => exact ⟨.empty _, h.present⟩
  | clear => exact clear_covering wm
  | setResolution width height => exact h.setResolution width height

theorem Covering.run (h : wm.Covering) (events : List DamageEvent) :
    (events.foldl (Compositor.step multi) wm).Covering := by
  induction events generalizing wm with
  | nil => exact h
  | cons e events ih => exact ih (h.step e)

end covering

/-- Two windows that nearly touch are one rectangle, a third is far off
and partly off the screen. -/
example :
    ([DamageEvent.markScene ⟨0, 0, 10, 10⟩, .markScene ⟨12, 2, 20, 12⟩,
        .markScene ⟨90, 90, 200, 200⟩].foldl (step true)
      (init (Display.init 100 100) 8 16)).sceneDamage
      = [⟨0, 0, 20, 12⟩, ⟨90, 90, 100, 100⟩] := by decide

end Compositor

end Clks.Wm
