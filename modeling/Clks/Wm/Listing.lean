/-
The window list over a run.

The z-order, the focus, the numbers of the windows and the sizes of their
buffers depend on little of a window (`Shape`), and most of what the window
manager does changes nothing of that (`Like`): it moves, presents, marks
and sends events. What is left is a window that is put into the z-order,
taken out of it, or both (`raise`), and a focus that goes from one window
to another; while a window is taken out, the others are listed
(`ListedBut`).
-/
import Clks.Lib.Tiers
import Clks.Wm.Input

namespace Clks.Wm

/-- What of a window the lists depend on. -/
structure Shape where
  id : UInt64
  flags : UInt64
  width : UInt32
  height : UInt32
  size : Nat

def Window.shape (w : Window) : Shape :=
  ⟨w.id, w.flags, w.width, w.height, w.pixels.length⟩

namespace Manager

/-- The shape of the window in a slot. -/
def shape (s : Manager) (i : Slot) : Option Shape :=
  (s.windows i).map Window.shape

/-- The same lists. -/
structure Like (s t : Manager) : Prop where
  shape : t.shape = s.shape
  focused : t.focused = s.focused
  zOrder : t.zOrder = s.zOrder
  nextWindowId : t.nextWindowId = s.nextWindowId

section like

variable {s t u : Manager} {i j slot : Slot} {f : Window → Window}

theorem isSome_shape (s : Manager) (i : Slot) :
    (s.shape i).isSome = (s.windows i).isSome := Option.isSome_map

theorem topmost_eq (s : Manager) (i : Slot) :
    s.topmost i
      = match s.shape i with
        | some sh => decide (sh.flags &&& flagTopmost ≠ 0)
        | none => false := by
  unfold topmost shape
  cases s.windows i <;> rfl

theorem Like.refl (s : Manager) : Like s s := ⟨rfl, rfl, rfl, rfl⟩

theorem Like.trans (h : Like s t) (h' : Like t u) : Like s u :=
  ⟨h'.shape.trans h.shape, h'.focused.trans h.focused,
    h'.zOrder.trans h.zOrder, h'.nextWindowId.trans h.nextWindowId⟩

theorem Like.topmost (h : Like s t) : t.topmost = s.topmost := by
  funext i
  rw [topmost_eq, topmost_eq, h.shape]

theorem modifyWindow_windows (slot : Slot) (f : Window → Window)
    (s : Manager) (i : Slot) :
    (s.modifyWindow slot f).windows i
      = if i = slot then (s.windows i).map f else s.windows i := by
  show Function.update s.windows slot ((s.windows slot).map f) i = _
  by_cases h : i = slot
  · rw [if_pos h, h, Function.update_self]
  · rw [if_neg h, Function.update_of_ne h]

theorem modifyWindow_shape (h : ∀ w, s.windows slot = some w →
    (f w).shape = w.shape) : (s.modifyWindow slot f).shape = s.shape := by
  funext i
  unfold Manager.shape
  rw [modifyWindow_windows]
  split_ifs with hi
  · rw [hi, Option.map_map]
    cases hw : s.windows slot with
    | none => rfl
    | some w => exact congrArg some (h w hw)
  · rfl

theorem modifyWindow_focused (h : ∀ w, s.windows slot = some w →
    (f w).focused = w.focused) :
    (s.modifyWindow slot f).focused = s.focused := by
  funext i
  unfold Manager.focused
  rw [modifyWindow_windows]
  split_ifs with hi
  · rw [hi]
    cases hw : s.windows slot with
    | none => rfl
    | some w => exact h w hw
  · rfl

theorem like_modifyWindow (hshape : ∀ w, s.windows slot = some w →
      (f w).shape = w.shape)
    (hfocused : ∀ w, s.windows slot = some w → (f w).focused = w.focused) :
    Like s (s.modifyWindow slot f) :=
  ⟨modifyWindow_shape hshape, modifyWindow_focused hfocused, rfl, rfl⟩

theorem like_markDirtyWindow (slot : Slot) (s : Manager) :
    Like s (s.markDirtyWindow slot) := by
  unfold markDirtyWindow
  cases s.windows slot with
  | none => exact .refl s
  | some w =>
    dsimp only
    split_ifs
    · exact .refl s
    · exact ⟨rfl, rfl, rfl, rfl⟩

theorem like_eventPush (slot : Slot) (e : Event) (s : Manager) :
    Like s (s.eventPush slot e) := by
  unfold eventPush
  cases s.windows slot with
  | none => exact .refl s
  | some w =>
    have hqueue : Like s (s.modifyWindow slot fun w =>
        { w with queue := pushEvent e w.queue }) :=
      like_modifyWindow (fun _ _ => rfl) (fun _ _ => rfl)
    exact ⟨hqueue.shape, hqueue.focused, rfl, rfl⟩

theorem like_eventPushes {α : Type} (slot : Slot) (g : α → Event)
    (es : List α) (s : Manager) :
    Like s (es.foldl (fun s a => s.eventPush slot (g a)) s) := by
  induction es generalizing s with
  | nil => exact .refl s
  | cons a es ih => exact (like_eventPush slot (g a) s).trans (ih _)

end like

-- ==== listings

/-- The z-order has the slots in use, once each, and the topmost ones in
front. -/
structure Listed (s : Manager) : Prop where
  nodup : s.zOrder.Nodup
  used : ∀ i, i ∈ s.zOrder ↔ (s.shape i).isSome
  tiers : Tiers.Tiered s.topmost s.zOrder

/-- The same of all slots but one. -/
structure ListedBut (slot : Slot) (s : Manager) : Prop where
  nodup : s.zOrder.Nodup
  used : ∀ i, i ∈ s.zOrder ↔ (s.shape i).isSome ∧ i ≠ slot
  tiers : Tiers.Tiered s.topmost s.zOrder

section listed

variable {s t : Manager} {i slot : Slot}

theorem Listed.congr (h : Listed s) (hlike : Like s t) : Listed t := by
  refine ⟨?_, ?_, ?_⟩
  · rw [hlike.zOrder]
    exact h.nodup
  · rw [hlike.zOrder, hlike.shape]
    exact h.used
  · rw [hlike.zOrder, hlike.topmost]
    exact h.tiers

theorem Listed.zRemoveSlot (h : Listed s) (slot : Slot) :
    ListedBut slot (s.zRemoveSlot slot) := by
  refine ⟨h.nodup.erase slot, ?_, h.tiers.sublist List.erase_sublist⟩
  intro i
  show i ∈ s.zOrder.erase slot ↔ _
  rw [h.nodup.mem_erase_iff, h.used i, and_comm]
  rfl

theorem ListedBut.congr (h : ListedBut slot s) (hz : t.zOrder = s.zOrder)
    (hshape : ∀ i, i ≠ slot → t.shape i = s.shape i) :
    ListedBut slot t := by
  refine ⟨hz ▸ h.nodup, ?_, ?_⟩
  · intro i
    rw [hz, h.used i]
    by_cases hi : i = slot
    · simp [hi]
    · rw [hshape i hi]
  · rw [hz]
    refine h.tiers.congr ?_
    intro i hi
    rw [topmost_eq, topmost_eq, hshape i ((h.used i).mp hi).2]

theorem ListedBut.listed (h : ListedBut slot s)
    (hfree : (s.shape slot).isSome = false) : Listed s := by
  refine ⟨h.nodup, ?_, h.tiers⟩
  intro i
  rw [h.used i]
  constructor
  · exact fun hi => hi.1
  · intro hi
    refine ⟨hi, ?_⟩
    intro heq
    rw [heq, hfree] at hi
    cases hi

theorem ListedBut.zInsertForFlags (h : ListedBut slot s)
    (hused : (s.shape slot).isSome) :
    Listed (s.zInsertForFlags slot) ∧
      (s.zInsertForFlags slot).zOrder
        = Tiers.insert s.topmost slot s.zOrder := by
  have hnot : slot ∉ s.zOrder := fun hmem => ((h.used slot).mp hmem).2 rfl
  have hroom : s.zOrder.length < maxWindows := by
    have hle := List.Nodup.length_le_card (List.nodup_cons.mpr ⟨hnot, h.nodup⟩)
    rw [Fintype.card_fin, List.length_cons] at hle
    exact hle
  have hsome : s.windows slot ≠ none := by
    rw [isSome_shape] at hused
    exact Option.isSome_iff_ne_none.mp hused
  have heq : s.zInsertForFlags slot
      = { s with zOrder := Tiers.insert s.topmost slot s.zOrder } := by
    unfold Manager.zInsertForFlags
    rw [if_neg (by
      rw [not_or, Nat.not_le]
      exact ⟨hroom, hsome⟩)]
    rfl
  rw [heq]
  refine ⟨⟨Tiers.insert_nodup hnot h.nodup, ?_, h.tiers.insert slot⟩, rfl⟩
  intro i
  show i ∈ Tiers.insert s.topmost slot s.zOrder ↔ (s.shape i).isSome
  rw [Tiers.mem_insert, h.used i]
  by_cases hi : i = slot
  · rw [hi]
    simp [hused]
  · simp [hi]

theorem zInsertForFlags_windows (slot : Slot) (s : Manager) :
    (s.zInsertForFlags slot).windows = s.windows ∧
      (s.zInsertForFlags slot).nextWindowId = s.nextWindowId := by
  unfold zInsertForFlags
  split
  · exact ⟨rfl, rfl⟩
  · exact ⟨rfl, rfl⟩

theorem ListedBut.raise (h : ListedBut slot (s.zRemoveSlot slot))
    (hused : (s.shape slot).isSome) :
    Listed ((s.zRemoveSlot slot).zInsertForFlags slot) :=
  (h.zInsertForFlags hused).1

end listed

-- ==== focus

/-- The same windows, listed, with the focus on one of them or on none. -/
structure Refocused (newSlot : Option Slot) (s t : Manager) : Prop where
  listed : Listed t
  shape : t.shape = s.shape
  nextWindowId : t.nextWindowId = s.nextWindowId
  focused : ∀ i, t.focused i = decide (newSlot = some i)

section focus

variable {s t : Manager} {i slot : Slot} {newSlot : Option Slot}

theorem focused_of_focusedSlot (h : s.focusedSlot = some i) :
    s.focused i = true := List.find?_some h

theorem not_focused_of_none (h : s.focusedSlot = none) (i : Slot) :
    s.focused i = false := by
  have := List.find?_eq_none.mp h i (List.mem_finRange i)
  simpa using this

theorem modifyWindow_setFocused (b : Bool) (slot : Slot) (s : Manager)
    (i : Slot) :
    (s.modifyWindow slot fun w => { w with focused := b }).focused i
      = if i = slot then (s.shape i).isSome && b else s.focused i := by
  unfold Manager.focused
  rw [modifyWindow_windows, isSome_shape]
  split_ifs
  · cases s.windows i <;> rfl
  · rfl

theorem modifyWindow_setFocused_shape (b : Bool) (slot : Slot)
    (s : Manager) :
    (s.modifyWindow slot fun w => { w with focused := b }).shape = s.shape :=
  modifyWindow_shape fun _ _ => rfl

theorem loseFocus_refocused (h : Listed s)
    (hone : ∀ i j, s.focused i = true → s.focused j = true → i = j) :
    Refocused none s s.loseFocus := by
  unfold loseFocus
  cases hold : s.focusedSlot with
  | none => exact ⟨h, rfl, rfl, not_focused_of_none hold⟩
  | some slot =>
    dsimp only
    have hmark := like_markDirtyWindow slot s
    have hpush := like_eventPush slot ⟨.focusLost, 0, 0, 0, 0⟩
      ((s.markDirtyWindow slot).modifyWindow slot
        fun w => { w with focused := false })
    have hshape := modifyWindow_setFocused_shape false slot
      (s.markDirtyWindow slot)
    refine ⟨Listed.congr ?_ hpush, ?_, ?_, ?_⟩
    · have hm := h.congr hmark
      refine ⟨hm.nodup, ?_, ?_⟩
      · rw [hshape]
        exact hm.used
      · refine hm.tiers.congr fun i _ => ?_
        rw [topmost_eq, topmost_eq, hshape]
    · rw [hpush.shape, hshape, hmark.shape]
    · rw [hpush.nextWindowId]
      exact hmark.nextWindowId
    · intro i
      rw [hpush.focused, modifyWindow_setFocused, hmark.focused]
      by_cases hi : i = slot
      · rw [if_pos hi, Bool.and_false]
        rfl
      · rw [if_neg hi]
        by_contra hno
        have hfocused : s.focused i = true := by simpa using hno
        exact hi (hone i slot hfocused (focused_of_focusedSlot hold))

theorem gainFocus_refocused (h : Listed s) (hused : (s.shape slot).isSome)
    (hnone : ∀ i, s.focused i = false) :
    Refocused (some slot) s (s.gainFocus slot) := by
  have hmark := like_markDirtyWindow slot s
  -- The window with the focus is listed where it was.
  have hset : Listed ((s.markDirtyWindow slot).modifyWindow slot
      fun w => { w with focused := true }) := by
    have hm := h.congr hmark
    have hsame := modifyWindow_setFocused_shape true slot
      (s.markDirtyWindow slot)
    refine ⟨hm.nodup, ?_, ?_⟩
    · rw [hsame]
      exact hm.used
    · refine hm.tiers.congr fun i _ => ?_
      rw [topmost_eq, topmost_eq, hsame]
  have hshape : ((s.markDirtyWindow slot).modifyWindow slot
      fun w => { w with focused := true }).shape = s.shape := by
    rw [modifyWindow_setFocused_shape, hmark.shape]
  have hfocused : ∀ i, ((s.markDirtyWindow slot).modifyWindow slot
      fun w => { w with focused := true }).focused i
        = decide (some slot = some i) := by
    intro i
    rw [modifyWindow_setFocused, hmark.focused, hmark.shape, hnone i]
    by_cases hi : i = slot
    · simp [hi, hused]
    · simp [hi, Ne.symm hi]
  have hnext : ((s.markDirtyWindow slot).modifyWindow slot
      fun w => { w with focused := true }).nextWindowId = s.nextWindowId :=
    hmark.nextWindowId
  unfold gainFocus
  dsimp only
  generalize (s.markDirtyWindow slot).modifyWindow slot
    (fun w => { w with focused := true }) = t at hset hshape hfocused hnext
  obtain ⟨hwin, hid⟩ := zInsertForFlags_windows slot (t.zRemoveSlot slot)
  have hlisted := (hset.zRemoveSlot slot).raise (hshape ▸ hused)
  have hlike := (like_markDirtyWindow slot
    ((t.zRemoveSlot slot).zInsertForFlags slot)).trans
      (like_eventPush slot ⟨.focusGained, 1, 0, 0, 0⟩ _)
  refine ⟨hlisted.congr hlike, ?_, ?_, ?_⟩
  · rw [hlike.shape, ← hshape]
    funext i
    unfold Manager.shape
    rw [hwin]
    rfl
  · rw [hlike.nextWindowId, hid]
    exact hnext
  · intro i
    rw [hlike.focused, ← hfocused i]
    unfold Manager.focused
    rw [hwin]
    rfl

theorem setFocusSlot_refocused (h : Listed s)
    (hone : ∀ i j, s.focused i = true → s.focused j = true → i = j)
    (hused : ∀ i, newSlot = some i → (s.shape i).isSome) :
    Refocused newSlot s (s.setFocusSlot newSlot) := by
  unfold setFocusSlot
  dsimp only
  by_cases hsame : s.focusedSlot = newSlot
  · rw [if_pos hsame]
    refine ⟨h, rfl, rfl, ?_⟩
    intro i
    cases hold : s.focusedSlot with
    | none =>
      rw [hold] at hsame
      rw [not_focused_of_none hold, ← hsame]
      rfl
    | some j =>
      rw [hold] at hsame
      rw [← hsame]
      have hj := focused_of_focusedSlot hold
      by_cases hij : i = j
      · rw [hij, hj]
        simp
      · have hi : s.focused i = false := by
          by_contra hno
          exact hij (hone i j (by simpa using hno) hj)
        rw [hi]
        simp [Ne.symm hij]
  · rw [if_neg hsame]
    have hlost := loseFocus_refocused h hone
    cases newSlot with
    | none => exact hlost
    | some slot =>
      have hgain := gainFocus_refocused hlost.listed
        (hlost.shape ▸ hused slot rfl) hlost.focused
      exact ⟨hgain.listed, hgain.shape.trans hlost.shape,
        hgain.nextWindowId.trans hlost.nextWindowId, hgain.focused⟩

end focus

end Manager

end Clks.Wm
