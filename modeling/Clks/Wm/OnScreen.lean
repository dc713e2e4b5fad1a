/-
Where the windows are (wm/create_present.inc, public_api.inc,
init_query.inc).

A window that is made or moved is put below the bar first and above the
bottom of the screen after it, so that a tall one goes above the bottom of
the bar; one that is resized is put above the bottom first and below the
bar after it, so that a tall one goes below the bottom of the screen; and a
change of the resolution moves no window at all. So all windows stay on
the screen exactly if no window is made or resized that is too tall for
the room below the bar, and no resolution is set that a window reaches
beyond (`Fits`).
-/
import Clks.Lib.Signed
import Clks.Wm.Buttons

namespace Clks.Wm

-- ==== the places

/-- Where a window is, and its size. -/
structure Place where
  x : Int32
  y : Int32
  width : UInt32
  height : UInt32
  deriving DecidableEq, Repr

def Window.place (w : Window) : Place := ⟨w.x, w.y, w.width, w.height⟩

/-- A place on the screen, and below the bar. -/
structure Place.Inside (p : Place) (screen : Screen) : Prop where
  left : 0 ≤ p.x.toInt
  right : p.x.toInt + p.width.toNat ≤ screen.width.toNat
  top : topbarHeight.toInt ≤ p.y.toInt
  bottom : p.y.toInt + p.height.toNat ≤ screen.height.toNat

/-- There is room for a height below the bar. -/
def Below (screen : Screen) (height : UInt32) : Prop :=
  24 + height.toNat ≤ screen.height.toNat

/-- What is left of the screen is a signed number. -/
def Measured (screen : Screen) (height : UInt32) : Prop :=
  screen.height.toNat - height.toNat < 2 ^ 31

-- ==== the clamps

section clamps

variable {screen : Screen} {width height : UInt32} {x y : Int32}

theorem toInt_room {total size : UInt32} (h : size.toNat ≤ total.toNat) :
    (total.toInt32 - size.toInt32).toInt
      = if total.toNat - size.toNat < 2 ^ 31 then
          (total.toNat : Int) - size.toNat
        else (total.toNat : Int) - size.toNat - 2 ^ 32 := by
  rw [← UInt32.toInt32_sub, Signed.toInt_toInt32,
    UInt32.toNat_sub_of_le _ _ (UInt32.le_iff_toNat_le.mpr h)]
  split <;> omega

theorem clampPlace_toInt (screen : Screen) (width height : UInt32)
    (x y : Int32) :
    (Manager.clampPlace screen width height x y).1.toInt
        = min (max x.toInt 0)
            (max (screen.width.toInt32 - width.toInt32).toInt 0) ∧
      (Manager.clampPlace screen width height x y).2.toInt
        = min (max y.toInt 24)
            (max (screen.height.toInt32 - height.toInt32).toInt 0) := by
  have h0 : (0 : Int32).toInt = 0 := rfl
  have h24 : topbarHeight.toInt = 24 := rfl
  unfold Manager.clampPlace
  simp only [Int32.lt_iff_toInt_lt, apply_ite Int32.toInt, h0, h24]
  constructor <;> split_ifs <;> omega

theorem resizePlace_toInt (screen : Screen) (width height : UInt32)
    (x y : Int32) :
    (Manager.resizePlace screen width height x y).1.toInt
        = min x.toInt
            (max (screen.width.toInt32 - width.toInt32).toInt 0) ∧
      (Manager.resizePlace screen width height x y).2.toInt
        = max (min y.toInt
            (max (screen.height.toInt32 - height.toInt32).toInt 0)) 24 := by
  have h0 : (0 : Int32).toInt = 0 := rfl
  have h24 : topbarHeight.toInt = 24 := rfl
  unfold Manager.resizePlace
  simp only [Int32.lt_iff_toInt_lt, apply_ite Int32.toInt, h0, h24]
  constructor <;> split_ifs <;> omega

theorem inside_clampPlace_iff (hwidth : width.toNat ≤ screen.width.toNat)
    (hheight : height.toNat ≤ screen.height.toNat) :
    (Place.mk (Manager.clampPlace screen width height x y).1
        (Manager.clampPlace screen width height x y).2 width height).Inside
        screen ↔ Below screen height ∧ Measured screen height := by
  obtain ⟨hx, hy⟩ := clampPlace_toInt screen width height x y
  rw [toInt_room hwidth] at hx
  rw [toInt_room hheight] at hy
  have hlt := screen.width.toNat_lt
  have hlt' := screen.height.toNat_lt
  have h24 : topbarHeight.toInt = 24 := rfl
  unfold Below Measured
  constructor
  · intro ⟨_, _, htop, hbottom⟩
    simp only [hy, h24] at htop hbottom
    split at htop <;> omega
  · intro ⟨hbelow, hmeasured⟩
    rw [if_pos hmeasured] at hy
    refine ⟨?_, ?_, ?_, ?_⟩ <;> simp only [hx, hy, h24]
    · split <;> omega
    · split <;> omega
    · omega
    · omega

theorem inside_resizePlace_iff (hwidth : width.toNat ≤ screen.width.toNat)
    (hheight : height.toNat ≤ screen.height.toNat) (hleft : 0 ≤ x.toInt) :
    (Place.mk (Manager.resizePlace screen width height x y).1
        (Manager.resizePlace screen width height x y).2 width height).Inside
        screen ↔ Below screen height := by
  obtain ⟨hx, hy⟩ := resizePlace_toInt screen width height x y
  rw [toInt_room hwidth] at hx
  rw [toInt_room hheight] at hy
  have hlt := screen.width.toNat_lt
  have hlt' := screen.height.toNat_lt
  have h24 : topbarHeight.toInt = 24 := rfl
  unfold Below
  constructor
  · intro ⟨_, _, _, hbottom⟩
    simp only [hy] at hbottom
    omega
  · intro hbelow
    refine ⟨?_, ?_, ?_, ?_⟩ <;> simp only [hx, hy, h24]
    · split <;> omega
    · split <;> omega
    · omega
    · split <;> omega

end clamps

namespace Manager

-- ==== what changes

/-- The place of the window of a slot. -/
def place (s : Manager) (i : Slot) : Option Place :=
  (s.windows i).map Window.place

/-- The screen of the windows. -/
def screen (s : Manager) : Screen := s.damage.screen

/-- Every window is on the screen. -/
def OnScreen (s : Manager) : Prop :=
  ∀ i p, s.place i = some p → p.Inside s.screen

/-- All windows stay where they are. -/
structure Still (s t : Manager) : Prop where
  place : t.place = s.place
  display : t.damage.display = s.damage.display

/-- All windows stay where they are, or go. -/
structure Fewer (s t : Manager) : Prop where
  place : ∀ i, t.place i = none ∨ t.place i = s.place i
  display : t.damage.display = s.damage.display

section still

variable {s t u : Manager} {slot : Slot} {f : Window → Window}

theorem Still.refl (s : Manager) : Still s s := ⟨rfl, rfl⟩

theorem Still.trans (h : Still s t) (h' : Still t u) : Still s u :=
  ⟨h'.place.trans h.place, h'.display.trans h.display⟩

theorem Still.fewer (h : Still s t) : Fewer s t :=
  ⟨fun i => .inr (congrFun h.place i), h.display⟩

theorem Fewer.trans (h : Fewer s t) (h' : Fewer t u) : Fewer s u := by
  refine ⟨fun i => ?_, h'.display.trans h.display⟩
  cases h'.place i with
  | inl hnone => exact .inl hnone
  | inr hsame =>
    rw [hsame]
    exact h.place i

theorem screen_eq (h : t.damage.display = s.damage.display) :
    t.screen = s.screen := by
  show t.damage.display.screen = s.damage.display.screen
  rw [h]

theorem Still.onScreen_iff (h : Still s t) : t.OnScreen ↔ s.OnScreen := by
  unfold OnScreen
  rw [h.place, screen_eq h.display]

theorem Still.onScreen (h : Still s t) (hs : s.OnScreen) : t.OnScreen :=
  h.onScreen_iff.mpr hs

theorem Fewer.onScreen (h : Fewer s t) (hs : s.OnScreen) : t.OnScreen := by
  intro i p hp
  rw [screen_eq h.display]
  cases h.place i with
  | inl hnone =>
    rw [hnone] at hp
    cases hp
  | inr hsame => exact hs i p (hsame ▸ hp)

theorem still_modifyWindow (h : ∀ w, (f w).place = w.place) :
    Still s (s.modifyWindow slot f) := by
  refine ⟨?_, rfl⟩
  funext i
  unfold Manager.place
  rw [modifyWindow_windows]
  split_ifs with hi
  · rw [Option.map_map]
    exact congrArg (Option.map · (s.windows i)) (funext h)
  · rfl

theorem still_markSceneDirtyRect (rect : Rect) (s : Manager) :
    Still s (s.markSceneDirtyRect rect) := ⟨rfl, rfl⟩

theorem still_markDirtyWindow (slot : Slot) (s : Manager) :
    Still s (s.markDirtyWindow slot) := by
  unfold markDirtyWindow
  cases s.windows slot with
  | none => exact .refl s
  | some w =>
    dsimp only
    split_ifs
    · exact .refl s
    · exact still_markSceneDirtyRect _ s

theorem still_eventPush (slot : Slot) (e : Event) (s : Manager) :
    Still s (s.eventPush slot e) := by
  unfold eventPush
  cases s.windows slot with
  | none => exact .refl s
  | some w =>
    have hqueue : Still s (s.modifyWindow slot fun w =>
        { w with queue := pushEvent e w.queue }) :=
      still_modifyWindow fun _ => rfl
    exact ⟨hqueue.place, hqueue.display⟩

theorem still_eventPushes {α : Type} (slot : Slot) (g : α → Event)
    (es : List α) (s : Manager) :
    Still s (es.foldl (fun s a => s.eventPush slot (g a)) s) := by
  induction es generalizing s with
  | nil => exact .refl s
  | cons a es ih => exact (still_eventPush slot (g a) s).trans (ih _)

theorem still_zInsertForFlags (slot : Slot) (s : Manager) :
    Still s (s.zInsertForFlags slot) := by
  unfold zInsertForFlags
  split
  · exact .refl s
  · exact ⟨rfl, rfl⟩

theorem still_zRemoveSlot (slot : Slot) (s : Manager) :
    Still s (s.zRemoveSlot slot) := ⟨rfl, rfl⟩

theorem still_setFocused (b : Bool) (slot : Slot) (s : Manager) :
    Still s (s.modifyWindow slot fun w => { w with focused := b }) :=
  still_modifyWindow fun _ => rfl

theorem still_loseFocus (s : Manager) : Still s s.loseFocus := by
  unfold loseFocus
  cases s.focusedSlot with
  | none => exact .refl s
  | some slot =>
    have hlost := (still_markDirtyWindow slot s).trans
      (still_setFocused false slot _)
    exact hlost.trans (still_eventPush slot _ _)

theorem still_gainFocus (slot : Slot) (s : Manager) :
    Still s (s.gainFocus slot) := by
  have hgained := (still_markDirtyWindow slot s).trans
    (still_setFocused true slot _)
  have hraised := (hgained.trans (still_zRemoveSlot slot _)).trans
    (still_zInsertForFlags slot _)
  exact (hraised.trans (still_markDirtyWindow slot _)).trans
    (still_eventPush slot _ _)

theorem still_setFocusSlot (newSlot : Option Slot) (s : Manager) :
    Still s (s.setFocusSlot newSlot) := by
  unfold setFocusSlot
  split
  · exact .refl s
  · cases newSlot with
    | none => exact still_loseFocus s
    | some slot => exact (still_loseFocus s).trans (still_gainFocus slot _)

theorem fewer_clearSlot (slot : Slot) (s : Manager) :
    Fewer s (s.clearSlot slot) := by
  refine ⟨fun i => ?_, rfl⟩
  by_cases hi : i = slot
  · left
    show (Function.update s.windows slot none i).map Window.place = none
    rw [hi, Function.update_self]
    rfl
  · right
    show (Function.update s.windows slot none i).map Window.place = s.place i
    rw [Function.update_of_ne hi]
    rfl

theorem fewer_removeSlot (slot : Slot) (s : Manager) :
    Fewer s (s.removeSlot slot) := by
  unfold removeSlot
  cases s.windows slot with
  | none => exact (Still.refl s).fewer
  | some w =>
    dsimp only
    have hcleared := ((still_markDirtyWindow slot s).fewer.trans
      (fewer_clearSlot slot _)).trans (still_zRemoveSlot slot _).fewer
    generalize ((s.markDirtyWindow slot).clearSlot slot).zRemoveSlot slot = r
      at hcleared
    have hfocus : Fewer s
        (if w.focused then r.setFocusSlot r.zOrder.getLast? else r) := by
      split
      · exact hcleared.trans (still_setFocusSlot _ r).fewer
      · exact hcleared
    generalize (if w.focused then r.setFocusSlot r.zOrder.getLast? else r) = t
      at hfocus
    split
    · exact ⟨hfocus.place, hfocus.display⟩
    · exact hfocus

theorem fewer_reapDeadOwners (alive : UInt64 → Bool) (s : Manager) :
    Fewer s (s.reapDeadOwners alive) := by
  unfold reapDeadOwners
  induction List.finRange maxWindows generalizing s with
  | nil => exact (Still.refl s).fewer
  | cons i is ih =>
    rw [List.foldl_cons]
    refine Fewer.trans ?_ (ih _)
    cases s.windows i with
    | none => exact (Still.refl s).fewer
    | some w =>
      dsimp only
      split
      · exact (Still.refl s).fewer
      · exact fewer_removeSlot i s

theorem markStatsDirty_display (multi : Bool) (wm : Compositor) :
    (wm.markStatsDirty multi).display = wm.display := by
  unfold Compositor.markStatsDirty
  dsimp only
  split
  · rfl
  split
  · rfl
  · rfl

theorem still_flushPresentDamage (s : Manager) :
    Still s s.flushPresentDamage := by
  unfold flushPresentDamage
  split
  · exact .refl s
  · exact ⟨rfl, markStatsDirty_display _ _⟩

theorem still_markFirst (s : Manager) : Still s s.markFirst := by
  unfold markFirst
  split
  · exact .refl s
  · exact ⟨rfl, markStatsDirty_display _ _⟩

theorem still_flushPresentDamageNow (env : Surroundings) (s : Manager) :
    Still s (s.flushPresentDamageNow env) := by
  unfold flushPresentDamageNow
  split
  · exact .refl s
  · have hfirst := still_markFirst s
    have hactive : Still s { s.markFirst with activeLast := true } :=
      ⟨hfirst.place, hfirst.display⟩
    exact hactive.trans (still_flushPresentDamage _)

theorem still_dispatchMouse (mouse : MouseState) (s : Manager) :
    Still s (s.dispatchMouse mouse) := by
  have hpress : Still s (s.pressFocus mouse) := by
    unfold pressFocus
    cases s.pressedSlot mouse with
    | none => exact .refl s
    | some slot => exact still_setFocusSlot _ s
  have hsent (m : Manager) : Still m (m.sendMouse mouse (s.mouseTarget mouse)) := by
    unfold sendMouse
    cases s.mouseTarget mouse with
    | none => exact .refl m
    | some slot =>
      dsimp only
      cases m.windows slot with
      | none => exact .refl m
      | some w => exact still_eventPushes slot id _ m
  have hmark (m : Manager) : Still m (m.markMouse mouse) := by
    unfold markMouse
    dsimp only
    split <;> split <;> exact ⟨rfl, rfl⟩
  have hall := (hpress.trans (hsent _)).trans (hmark _)
  exact ⟨hall.place, hall.display⟩

theorem still_pumpForeground (env : Surroundings) (s : Manager) :
    Still s (s.pumpForeground env) := by
  unfold pumpForeground
  split
  · exact .refl s
  split
  · exact ⟨rfl, rfl⟩
  dsimp only
  have hkeys (m : Manager) : Still m (m.dispatchKeyboardToFocused env.typed) := by
    unfold dispatchKeyboardToFocused
    cases m.focusedSlot with
    | none => exact .refl m
    | some slot => exact still_eventPushes slot _ _ m
  have hsent := ((still_markFirst s).trans
    (still_dispatchMouse env.mouse _)).trans (hkeys _)
  split
  · have hflush := hsent.trans (still_flushPresentDamage _)
    exact ⟨hflush.place, hflush.display⟩
  · exact ⟨hsent.place, hsent.display⟩

end still

-- ==== the law

/-- `clks_wm_create` makes a window. -/
def creates (allocated : Bool) (width height : UInt32) (s : Manager) : Bool :=
  s.ready && sizeAllowed s.screen width height && s.findFreeSlot.isSome &&
    allocated

/-- A window that is made or resized is not too tall for the room below
the bar, and no window reaches beyond a resolution that is set. -/
def Fits (s : Manager) : Op → Prop
  | .create allocated _ _ _ width height _ =>
    s.creates allocated width height = true →
      Below s.screen height ∧ Measured s.screen height
  | .move ownerPid windowId _ _ =>
    ∀ t ∈ s.target ownerPid windowId, Measured s.screen t.2.height
  | .resize allocated ownerPid windowId width height =>
    (s.target ownerPid windowId).isSome = true →
      sizeAllowed s.screen width height = true → allocated = true →
        Below s.screen height
  | .setResolution width height =>
    ∀ d ∈ s.damage.display.modeSet width height, ∀ i p, s.place i = some p →
      p.x.toInt + p.width.toNat ≤ d.screen.width.toNat ∧
        p.y.toInt + p.height.toNat ≤ d.screen.height.toNat
  | _ => True

section law

variable {s t : Manager} {slot : Slot} {p : Place} {w : Window}

theorem sizeAllowed_le {screen : Screen} {width height : UInt32}
    (h : sizeAllowed screen width height = true) :
    width.toNat ≤ screen.width.toNat ∧ height.toNat ≤ screen.height.toNat := by
  unfold sizeAllowed at h
  simp only [Bool.and_eq_true, Bool.not_eq_true', Bool.or_eq_false_iff,
    decide_eq_false_iff_not, UInt32.not_lt, UInt32.le_iff_toNat_le] at h
  exact h.2

theorem place_of_windows (h : s.windows slot = some w) :
    s.place slot = some w.place := by
  unfold Manager.place
  rw [h]
  rfl

theorem onScreen_placed_iff (h : s.OnScreen)
    (hplace : t.place = Function.update s.place slot (some p))
    (hdisplay : t.damage.display = s.damage.display) :
    t.OnScreen ↔ p.Inside s.screen := by
  unfold OnScreen
  rw [hplace, screen_eq hdisplay]
  constructor
  · intro hall
    exact hall slot p (Function.update_self ..)
  · intro hin i q hq
    by_cases hi : i = slot
    · rw [hi, Function.update_self] at hq
      cases hq
      exact hin
    · rw [Function.update_of_ne hi] at hq
      exact h i q hq

theorem update_place (f : Window → Window) (hw : s.windows slot = some w) :
    (s.modifyWindow slot f).place
      = Function.update s.place slot (some (f w).place) := by
  funext i
  unfold Manager.place
  rw [modifyWindow_windows]
  by_cases hi : i = slot
  · rw [if_pos hi, hi, Function.update_self, hw]
    rfl
  · rw [if_neg hi, Function.update_of_ne hi]

theorem onScreen_create_iff (h : s.OnScreen) (allocated : Bool)
    (ownerPid : UInt64) (x y : Int32) (width height : UInt32)
    (flags : UInt64) :
    (s.create allocated ownerPid x y width height flags).2.OnScreen ↔
      s.Fits (.create allocated ownerPid x y width height flags) := by
  show _ ↔ (s.creates allocated width height = true →
    Below s.screen height ∧ Measured s.screen height)
  unfold Manager.create creates
  dsimp only
  by_cases hsize : (!s.ready || !sizeAllowed s.damage.screen width height)
      = true
  · rw [if_pos hsize]
    refine iff_of_true h fun hcreates => ?_
    unfold Manager.screen at hcreates
    revert hsize hcreates
    cases s.ready <;> cases sizeAllowed s.damage.screen width height <;> simp
  rw [if_neg hsize]
  simp only [Bool.or_eq_true, Bool.not_eq_true', not_or,
    Bool.not_eq_false] at hsize
  obtain ⟨hready, hallowed⟩ := hsize
  cases hfree : s.findFreeSlot with
  | none => exact iff_of_true h fun hcreates => by simp at hcreates
  | some slot =>
    dsimp only
    cases allocated with
    | false => exact iff_of_true h fun hcreates => by simp at hcreates
    | true =>
      have hall : (s.ready && sizeAllowed s.screen width height &&
          (some slot).isSome && true) = true := by
        rw [hready, show sizeAllowed s.screen width height = true from hallowed]
        rfl
      rw [imp_iff_right hall, if_neg (by decide)]
      obtain ⟨hwidth, hheight⟩ := sizeAllowed_le hallowed
      generalize hnew : s.newWindow ownerPid _ _ width height flags = new
      have hplace : new.place = ⟨(clampPlace s.screen width height x y).1,
          (clampPlace s.screen width height x y).2, width, height⟩ := by
        rw [← hnew]
        rfl
      have hstill := (still_zInsertForFlags slot (s.addWindow slot new)).trans
        (still_setFocusSlot (some slot) _)
      have hadded : (s.addWindow slot new).place
          = Function.update s.place slot (some new.place) := by
        funext i
        show (Function.update s.windows slot (some new) i).map Window.place = _
        by_cases hi : i = slot
        · rw [hi, Function.update_self, Function.update_self]
          rfl
        · rw [Function.update_of_ne hi, Function.update_of_ne hi]
          rfl
      rw [hstill.onScreen_iff, onScreen_placed_iff h hadded rfl, hplace]
      exact inside_clampPlace_iff hwidth hheight

theorem onScreen_move_iff (h : s.OnScreen) (ownerPid windowId : UInt64)
    (x y : Int32) :
    (s.move ownerPid windowId x y).2.OnScreen ↔
      s.Fits (.move ownerPid windowId x y) := by
  show _ ↔ ∀ t ∈ s.target ownerPid windowId, Measured s.screen t.2.height
  unfold Manager.move
  cases htarget : s.target ownerPid windowId with
  | none => exact iff_of_true h fun _ ht => nomatch ht
  | some p =>
    obtain ⟨slot, w⟩ := p
    have hw := target_windows htarget
    have hin := h slot w.place (place_of_windows hw)
    have hwidth : w.width.toNat ≤ s.screen.width.toNat := by
      have hleft : 0 ≤ w.x.toInt := hin.left
      have hright : w.x.toInt + w.width.toNat ≤ s.screen.width.toNat :=
        hin.right
      omega
    have hbelow : Below s.screen w.height := by
      have htop : 24 ≤ w.y.toInt := hin.top
      have hbottom : w.y.toInt + w.height.toNat ≤ s.screen.height.toNat :=
        hin.bottom
      unfold Below
      omega
    have hheight : w.height.toNat ≤ s.screen.height.toNat :=
      Nat.le_trans (Nat.le_add_left _ 24) hbelow
    have hclamp := @inside_clampPlace_iff s.screen w.width w.height x y
      hwidth hheight
    have hfits : (∀ t ∈ some (slot, w), Measured s.screen t.2.height) ↔
        Below s.screen w.height ∧ Measured s.screen w.height := by
      refine ⟨fun hall => ⟨hbelow, hall _ rfl⟩, fun hboth t ht => ?_⟩
      cases ht
      exact hboth.2
    rw [hfits, ← hclamp]
    dsimp only
    split
    · have hplace := @update_place (s.markSceneDirtyRect w.rect) slot w
        (fun v => { v with
          x := (clampPlace s.damage.screen w.width w.height x y).1
          y := (clampPlace s.damage.screen w.width w.height x y).2 }) hw
      rw [(still_markDirtyWindow slot _).onScreen_iff]
      exact onScreen_placed_iff h hplace rfl
    · next hsame =>
      rw [not_or, not_ne_iff, not_ne_iff] at hsame
      refine iff_of_true h ?_
      have heq : (⟨(clampPlace s.screen w.width w.height x y).1,
          (clampPlace s.screen w.width w.height x y).2, w.width, w.height⟩ :
          Place) = w.place := by
        unfold Window.place
        rw [hsame.1, hsame.2]
        rfl
      rw [heq]
      exact hin

theorem onScreen_resize_iff (h : s.OnScreen) (allocated : Bool)
    (ownerPid windowId : UInt64) (width height : UInt32) :
    (s.resize allocated ownerPid windowId width height).2.OnScreen ↔
      s.Fits (.resize allocated ownerPid windowId width height) := by
  show _ ↔ ((s.target ownerPid windowId).isSome = true →
    sizeAllowed s.screen width height = true → allocated = true →
      Below s.screen height)
  unfold Manager.resize
  cases htarget : s.target ownerPid windowId with
  | none => exact iff_of_true h fun hnone => nomatch hnone
  | some p =>
    obtain ⟨slot, w⟩ := p
    have hw := target_windows htarget
    have hin := h slot w.place (place_of_windows hw)
    dsimp only
    cases hallowed : sizeAllowed s.damage.screen width height with
    | false =>
      refine iff_of_true h fun _ hyes => ?_
      exact Bool.noConfusion (hallowed.symm.trans hyes)
    | true =>
      cases allocated with
      | false => exact iff_of_true h fun _ _ hno => nomatch hno
      | true =>
        obtain ⟨hwidth, hheight⟩ := sizeAllowed_le hallowed
        have hsize : sizeAllowed s.screen width height = true := hallowed
        have hmark := still_markDirtyWindow slot s
        have hw' : (s.markDirtyWindow slot).windows slot = some w := by
          rw [markDirtyWindow_windows]
          exact hw
        have hfits : ((some (slot, w)).isSome = true →
            sizeAllowed s.screen width height = true → true = true →
              Below s.screen height) ↔ Below s.screen height :=
          ⟨fun hall => hall rfl hsize rfl, fun hbelow _ _ _ => hbelow⟩
        have hclamp := @inside_resizePlace_iff s.screen width height w.x w.y
          hwidth hheight hin.left
        rw [hfits, ← hclamp, if_neg (by decide), if_neg (by decide),
          (still_markDirtyWindow slot _).onScreen_iff]
        refine (onScreen_placed_iff (hmark.onScreen h)
          (update_place _ hw') rfl).trans ?_
        rw [show (s.markDirtyWindow slot).damage.screen = s.screen from
          screen_eq hmark.display, screen_eq hmark.display]
        exact Iff.rfl

theorem onScreen_setResolution_iff (h : s.OnScreen) (width height : UInt32) :
    (s.setResolution width height).2.OnScreen ↔
      s.Fits (.setResolution width height) := by
  show _ ↔ ∀ d ∈ s.damage.display.modeSet width height, ∀ i p,
    s.place i = some p →
      p.x.toInt + p.width.toNat ≤ d.screen.width.toNat ∧
        p.y.toInt + p.height.toNat ≤ d.screen.height.toNat
  unfold Manager.setResolution
  cases hmode : s.damage.display.modeSet width height with
  | none => exact iff_of_true h fun _ hd => nomatch hd
  | some d =>
    have hscreen : (s.damage.setResolution s.multi width height).screen
        = d.screen := by
      unfold Compositor.setResolution
      rw [hmode]
      exact congrArg Display.screen (markStatsDirty_display _ _)
    constructor
    · intro hall d' hd' i p hp
      cases hd'
      have hin := hall i p hp
      unfold Manager.screen at hin
      rw [hscreen] at hin
      exact ⟨hin.right, hin.bottom⟩
    · intro hall i p hp
      obtain ⟨hright, hbottom⟩ := hall d rfl i p hp
      have hin := h i p hp
      unfold Manager.screen
      rw [hscreen]
      exact ⟨hin.left, hright, hin.top, hbottom⟩

theorem onScreen_step_iff (h : s.OnScreen) (op : Op) :
    (s.step op).OnScreen ↔ s.Fits op := by
  cases op with
  | create allocated ownerPid x y width height flags =>
    exact onScreen_create_iff h allocated ownerPid x y width height flags
  | destroy ownerPid windowId =>
    refine iff_of_true ?_ trivial
    show (s.destroy ownerPid windowId).2.OnScreen
    unfold Manager.destroy
    cases s.target ownerPid windowId with
    | none => exact h
    | some p => exact (fewer_removeSlot p.1 s).onScreen h
  | present env ownerPid windowId src width height pitchBytes =>
    refine iff_of_true ?_ trivial
    show (s.present env ownerPid windowId src width height
      pitchBytes).2.OnScreen
    unfold Manager.present
    cases s.target ownerPid windowId with
    | none => exact h
    | some p =>
      dsimp only
      split
      · exact h
      · rw [(still_flushPresentDamageNow env _).onScreen_iff,
          (still_markDirtyWindow _ _).onScreen_iff]
        refine Still.onScreen ?_ h
        exact still_modifyWindow fun _ => rfl
  | move ownerPid windowId x y => exact onScreen_move_iff h ownerPid windowId x y
  | setFocus windowId =>
    refine iff_of_true ?_ trivial
    show (s.setFocus windowId).2.OnScreen
    unfold Manager.setFocus
    cases s.findSlotById windowId with
    | none => exact h
    | some slot => exact (still_setFocusSlot (some slot) s).onScreen h
  | setFlags ownerPid windowId flags =>
    refine iff_of_true ?_ trivial
    show (s.setFlags ownerPid windowId flags).2.OnScreen
    unfold Manager.setFlags
    cases s.target ownerPid windowId with
    | none => exact h
    | some p =>
      dsimp only
      split
      · exact h
      · rw [(still_markDirtyWindow _ _).onScreen_iff,
          (still_zInsertForFlags _ _).onScreen_iff,
          (still_zRemoveSlot _ _).onScreen_iff]
        refine Still.onScreen ?_ ((still_markDirtyWindow p.1 s).onScreen h)
        exact still_modifyWindow fun _ => rfl
  | resize allocated ownerPid windowId width height =>
    exact onScreen_resize_iff h allocated ownerPid windowId width height
  | setResolution width height => exact onScreen_setResolution_iff h width height
  | reap alive => exact iff_of_true ((fewer_reapDeadOwners alive s).onScreen h) trivial
  | poll env ownerPid windowId =>
    refine iff_of_true ?_ trivial
    show (s.pollEvent env ownerPid windowId).2.OnScreen
    unfold Manager.pollEvent
    cases s.target ownerPid windowId with
    | none => exact h
    | some p =>
      dsimp only
      have hpump := (still_pumpForeground env s).onScreen h
      generalize s.pumpForeground env = t at hpump
      cases t.windows p.1 with
      | none => exact hpump
      | some w =>
        refine Still.onScreen ?_ hpump
        exact still_modifyWindow fun _ => rfl
  | tick env alive =>
    refine iff_of_true ?_ trivial
    show (s.tick env alive).OnScreen
    unfold Manager.tick
    split
    · exact h
    · exact (still_pumpForeground env _).onScreen
        ((fewer_reapDeadOwners alive s).onScreen h)

/-- In every run from the start all windows stay on the screen, at every
call, exactly if every call fits. -/
theorem onScreen_throughout_iff (display : Display)
    (cellWidth cellHeight : UInt32) (multi : Bool) (ops : List Op) :
    Throughout (fun s op => (s.step op).OnScreen)
        (init display cellWidth cellHeight multi) ops ↔
      Throughout Fits (init display cellWidth cellHeight multi) ops := by
  have hinit : (init display cellWidth cellHeight multi).OnScreen :=
    fun _ _ hp => nomatch hp
  generalize init display cellWidth cellHeight multi = s at hinit
  induction ops generalizing s with
  | nil => exact Iff.rfl
  | cons op ops ih =>
    constructor
    · intro ⟨hstep, hrest⟩
      exact ⟨(onScreen_step_iff hinit op).mp hstep, (ih _ hstep).mp hrest⟩
    · intro ⟨hfits, hrest⟩
      have hstep := (onScreen_step_iff hinit op).mpr hfits
      exact ⟨hstep, (ih _ hstep).mpr hrest⟩

/-- A window of 760 lines, on a screen of 768, has its top edge at 8. -/
theorem above_the_bar :
    ¬ Throughout (fun s op => (s.step op).OnScreen)
      (init (Display.init 1024 768) 8 16 true)
      [.create true 1 100 100 200 760 0] := by
  intro ⟨hstep, _⟩
  have hplace : ((init (Display.init 1024 768) 8 16 true).step
      (.create true 1 100 100 200 760 0)).place 0
      = some ⟨100, 8, 200, 760⟩ := by decide +kernel
  exact absurd (hstep 0 _ hplace).top (by decide)

end law

end Manager

end Clks.Wm
