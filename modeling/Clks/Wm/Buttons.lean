/-
The presses and the releases of the left button.

A window that was sent a press is owed a release when the button comes up.
While the button is down, and when it comes up, the window manager sends the
events of the mouse to the window that has the focus (`mouseTarget`), which
is the window of the press unless the focus went on in between; and it sends
nothing while the pointer is off the screen of the windows, but remembers the
buttons. So a release arrives exactly when the
window of the press has the focus and the pointer is on the screen.
-/
import Clks.Wm.Consistency

namespace Clks.Wm

-- ==== statement

/-- The left button is newly pressed in an event. -/
def Event.presses (e : Event) : Bool :=
  e.type = .mouseButton && leftDown e.arg0.toUInt8 && leftDown e.arg1.toUInt8

/-- It is released. -/
def Event.releases (e : Event) : Bool :=
  e.type = .mouseButton && !leftDown e.arg0.toUInt8 && leftDown e.arg1.toUInt8

/-- A window was sent a press, and after it no release, and its queue did
not overflow after it. -/
def owes (id : UInt64) : List Sent → Bool
  | [] => false
  | e :: older =>
    if e.window ≠ id then owes id older
    else if e.event.presses then true
    else !(e.event.releases || e.full) && owes id older

namespace Manager

/-- The button comes up. -/
def released (mouse : MouseState) (s : Manager) : Bool :=
  leftDown s.lastMouseButtons && !leftDown mouse.buttons

/-- The windows there are that are owed a release. -/
def owed (s : Manager) : List UInt64 :=
  (List.finRange maxWindows).filterMap fun i =>
    match s.windows i with
    | none => none
    | some w => if owes w.id s.sent then some w.id else none

/-- The window that has the focus. -/
def focusedId (s : Manager) : Option UInt64 :=
  s.focusedSlot.bind fun i => (s.windows i).map Window.id

/-- What is sent between two states. -/
def newSent (s t : Manager) : List Sent :=
  t.sent.take (t.sent.length - s.sent.length)

/-- The mouse that a pump takes to the windows, and the state it finds. -/
def pumped (env : Surroundings) (s : Manager) :
    Option (MouseState × Manager) :=
  if !s.ready || !env.ttyActive then none else some (env.mouse, s.markFirst)

/-- The same of a call. -/
def dispatched (s : Manager) : Op → Option (MouseState × Manager)
  | .poll env ownerPid windowId =>
    match s.target ownerPid windowId with
    | none => none
    | some _ => s.pumped env
  | .tick env alive =>
    if !s.ready then none else (s.reapDeadOwners alive).pumped env
  | _ => none

/-- When the button comes up in a call, each window that is owed a release
is sent one. -/
def Paired (s : Manager) (op : Op) : Prop :=
  ∀ d ∈ s.dispatched op, d.2.released d.1 = true → ∀ id ∈ d.2.owed,
    ∃ e ∈ newSent d.2 (s.step op), e.window = id ∧ e.event.releases = true

/-- When the button comes up in a call, the pointer is on the screen, and a
window that is owed a release has the focus. -/
def Kept (s : Manager) (op : Op) : Prop :=
  ∀ d ∈ s.dispatched op, d.2.released d.1 = true → ∀ id ∈ d.2.owed,
    d.2.mouseReady d.1 = true ∧ d.2.focusedId = some id

/-- At every call of a run. -/
def Throughout (P : Manager → Op → Prop) : Manager → List Op → Prop
  | _, [] => True
  | s, op :: ops => P s op ∧ Throughout P (s.step op) ops

-- The windows are looked at as a list: there are too many numbers.
instance (s : Manager) (op : Op) : Decidable (Paired s op) :=
  have (d : MouseState × Manager) :
      Decidable (∀ id ∈ d.2.owed, ∃ e ∈ newSent d.2 (s.step op),
        e.window = id ∧ e.event.releases = true) :=
    List.decidableBAll _ _
  inferInstanceAs (Decidable (∀ d ∈ s.dispatched op, d.2.released d.1 = true →
    ∀ id ∈ d.2.owed, ∃ e ∈ newSent d.2 (s.step op),
      e.window = id ∧ e.event.releases = true))

instance decidableThroughout (P : Manager → Op → Prop)
    [∀ s op, Decidable (P s op)] :
    ∀ (s : Manager) (ops : List Op), Decidable (Throughout P s ops)
  | _, [] => isTrue trivial
  | s, op :: ops =>
    have := decidableThroughout P (s.step op) ops
    inferInstanceAs (Decidable (P s op ∧ Throughout P (s.step op) ops))

-- ==== buttons

theorem leftDown_eq (b : UInt8) : leftDown b = b.toNat.testBit 0 := by
  unfold leftDown mouseBtnLeft
  rw [Bool.eq_iff_iff, decide_eq_true_eq, Nat.testBit_zero, decide_eq_true_eq,
    Ne, ← UInt8.toNat_inj, UInt8.toNat_and]
  show ¬b.toNat &&& 1 = 0 ↔ _
  rw [Nat.and_one_is_mod]
  omega

theorem leftDown_or (a b : UInt8) :
    leftDown (a ||| b) = (leftDown a || leftDown b) := by
  rw [leftDown_eq, leftDown_eq, leftDown_eq, UInt8.toNat_or, Nat.testBit_or]

theorem leftDown_xor (a b : UInt8) :
    leftDown (a ^^^ b) = (leftDown a ^^ leftDown b) := by
  rw [leftDown_eq, leftDown_eq, leftDown_eq, UInt8.toNat_xor, Nat.testBit_xor]

section release

variable {s t : Manager} {mouse : MouseState} {slot : Slot} {w : Window}

theorem released_iff : s.released mouse = true ↔
    leftDown s.lastMouseButtons = true ∧ leftDown mouse.buttons = false := by
  unfold released
  rw [Bool.and_eq_true, Bool.not_eq_true']

theorem mem_mouseEvents_of_released (h : s.released mouse = true)
    (w : Window) : ∃ e ∈ s.mouseEvents mouse w, e.releases = true := by
  obtain ⟨hlast, hnow⟩ := released_iff.mp h
  have hne : mouse.buttons ≠ s.lastMouseButtons := by
    intro heq
    rw [heq, hlast] at hnow
    cases hnow
  unfold mouseEvents
  dsimp only
  rw [if_pos hne]
  refine ⟨_, List.mem_append_right _ (List.mem_singleton_self _), ?_⟩
  unfold Event.releases
  dsimp only
  rw [UInt8.toUInt8_toUInt64, UInt8.toUInt8_toUInt64, leftDown_xor, hnow, hlast]
  rfl

theorem pressedSlot_of_released (h : s.released mouse = true) :
    s.pressedSlot mouse = none := by
  obtain ⟨-, hnow⟩ := released_iff.mp h
  unfold pressedSlot newlyPressed
  rw [hnow, Bool.and_false, Bool.false_and]
  rfl

theorem mouseTarget_of_released (h : s.released mouse = true)
    (hfocus : s.focusedSlot.isSome) :
    s.mouseTarget mouse
      = if s.mouseReady mouse then s.focusedSlot else none := by
  obtain ⟨hlast, -⟩ := released_iff.mp h
  unfold mouseTarget
  dsimp only
  rw [pressedSlot_of_released h, Option.none_or, leftDown_or, hlast,
    Bool.or_true, hfocus]
  cases s.mouseReady mouse <;> rfl

end release

-- ==== history

section history

variable {s t u : Manager} {mouse : MouseState} {slot : Slot} {w : Window}

/-- What was sent is sent, and something of a kind after it. -/
def Sends (P : Sent → Prop) (s t : Manager) : Prop :=
  ∃ new, t.sent = new ++ s.sent ∧ ∀ e ∈ new, P e

theorem Sends.of_eq {P : Sent → Prop} (h : t.sent = s.sent) : Sends P s t :=
  ⟨[], h, fun _ he => nomatch he⟩

theorem Sends.trans {P : Sent → Prop} (h : Sends P s t) (h' : Sends P t u) :
    Sends P s u := by
  obtain ⟨new, heq, hP⟩ := h
  obtain ⟨new', heq', hP'⟩ := h'
  refine ⟨new' ++ new, ?_, ?_⟩
  · rw [heq', heq, List.append_assoc]
  · intro e he
    obtain he | he := List.mem_append.mp he
    · exact hP' e he
    · exact hP e he

theorem eventPush_sent (e : Event) (hw : s.windows slot = some w) :
    (s.eventPush slot e).sent = ⟨w.id, e, overflows e w.queue⟩ :: s.sent ∧
      (s.eventPush slot e).windows slot
        = some { w with queue := pushEvent e w.queue } := by
  unfold Manager.eventPush
  rw [hw]
  refine ⟨rfl, ?_⟩
  show (s.modifyWindow slot _).windows slot = _
  rw [modifyWindow_windows, if_pos rfl, hw]
  rfl

theorem eventPushes_sent (es : List Event) (hw : s.windows slot = some w) :
    ∃ new, (es.foldl (fun s e => s.eventPush slot e) s).sent = new ++ s.sent ∧
      (∀ x ∈ new, x.window = w.id ∧ x.event ∈ es) ∧
      ∀ e ∈ es, ∃ x ∈ new, x.window = w.id ∧ x.event = e := by
  induction es generalizing s w with
  | nil =>
    exact ⟨[], rfl, (fun _ hx => nomatch hx), (fun _ he => nomatch he)⟩
  | cons e es ih =>
    obtain ⟨hsent, hwindow⟩ := eventPush_sent e hw
    obtain ⟨new, heq, honly, hall⟩ := ih hwindow
    refine ⟨new ++ [⟨w.id, e, overflows e w.queue⟩], ?_, ?_, ?_⟩
    · rw [List.foldl_cons, heq, hsent]
      simp
    · intro x hx
      obtain hx | hx := List.mem_append.mp hx
      · obtain ⟨hid, hmem⟩ := honly x hx
        exact ⟨hid, List.mem_cons_of_mem e hmem⟩
      · rw [List.mem_singleton.mp hx]
        exact ⟨rfl, List.mem_cons_self ..⟩
    · intro f hf
      obtain heq | hf := List.mem_cons.mp hf
      · exact ⟨_, List.mem_append_right _ (List.mem_singleton_self _), rfl,
          heq.symm⟩
      · obtain ⟨x, hx, hxid⟩ := hall f hf
        exact ⟨x, List.mem_append_left _ hx, hxid⟩

theorem dispatchMouse_sent (h : s.released mouse = true)
    (hfocus : s.focusedSlot = some slot) (hw : s.windows slot = some w) :
    ∃ new, (s.dispatchMouse mouse).sent = new ++ s.sent ∧
      (∀ x ∈ new, x.window = w.id ∧ s.mouseReady mouse = true) ∧
      (s.mouseReady mouse = true →
        ∃ x ∈ new, x.window = w.id ∧ x.event.releases = true) := by
  have hpress : s.pressFocus mouse = s := by
    unfold Manager.pressFocus
    rw [pressedSlot_of_released h]
  have hmark : ∀ t : Manager, (t.markMouse mouse).sent = t.sent := by
    intro t
    unfold markMouse
    dsimp only
    split <;> split <;> rfl
  have hsent : (s.dispatchMouse mouse).sent
      = (s.sendMouse mouse (s.mouseTarget mouse)).sent := by
    show ((Manager.sendMouse mouse (s.mouseTarget mouse)
      (s.pressFocus mouse)).markMouse mouse).sent = _
    rw [hmark, hpress]
  rw [hsent, mouseTarget_of_released h (by
    rw [hfocus]
    rfl)]
  cases hready : s.mouseReady mouse with
  | false =>
    exact ⟨[], rfl, (fun _ hx => nomatch hx), (fun hno => nomatch hno)⟩
  | true =>
    rw [if_pos rfl, hfocus]
    unfold sendMouse
    dsimp only
    rw [hw]
    obtain ⟨new, heq, honly, hall⟩ :=
      eventPushes_sent (s.mouseEvents mouse w) hw
    refine ⟨new, heq, fun x hx => ⟨(honly x hx).1, rfl⟩, ?_⟩
    intro _
    obtain ⟨e, he, hreleases⟩ := mem_mouseEvents_of_released h w
    obtain ⟨x, hx, hid, hxe⟩ := hall e he
    exact ⟨x, hx, hid, hxe ▸ hreleases⟩

theorem sends_eventPush {e : Event} (he : e.releases = false) (slot : Slot)
    (s : Manager) :
    Sends (fun e => e.event.releases = false) s (s.eventPush slot e) := by
  unfold Manager.eventPush
  cases s.windows slot with
  | none => exact Sends.of_eq rfl
  | some w =>
    refine ⟨[_], rfl, ?_⟩
    intro x hx
    rw [List.mem_singleton.mp hx]
    exact he

theorem sends_dispatchKeyboard (typed : List UInt8) (s : Manager) :
    Sends (fun e => e.event.releases = false) s
      (s.dispatchKeyboardToFocused typed) := by
  unfold dispatchKeyboardToFocused
  cases s.focusedSlot with
  | none => exact Sends.of_eq rfl
  | some slot =>
    dsimp only
    induction typed.take 64 generalizing s with
    | nil => exact Sends.of_eq rfl
    | cons ch chs ih => exact (sends_eventPush rfl slot s).trans (ih _)

theorem flushPresentDamage_sent (s : Manager) :
    s.flushPresentDamage.sent = s.sent := by
  unfold flushPresentDamage
  split <;> rfl

theorem sends_pumpForeground {env : Surroundings} {m : Manager}
    (h : s.pumped env = some (mouse, m)) :
    Sends (fun e => e.event.releases = false) (m.dispatchMouse mouse)
      (s.pumpForeground env) := by
  unfold pumped at h
  split_ifs at h with hoff
  cases h
  rw [Bool.or_eq_true, not_or] at hoff
  unfold Manager.pumpForeground
  rw [if_neg hoff.1, if_neg hoff.2]
  dsimp only
  refine (sends_dispatchKeyboard env.typed _).trans (Sends.of_eq ?_)
  show Manager.sent (if _ then _ else _) = _
  split
  · exact flushPresentDamage_sent _
  · rfl

theorem sends_step {op : Op} {m : Manager}
    (h : s.dispatched op = some (mouse, m)) :
    Sends (fun e => e.event.releases = false) (m.dispatchMouse mouse)
      (s.step op) := by
  cases op with
  | poll env ownerPid windowId =>
    show Sends _ _ (s.pollEvent env ownerPid windowId).2
    unfold dispatched at h
    dsimp only at h
    unfold Manager.pollEvent
    cases htarget : s.target ownerPid windowId with
    | none =>
      rw [htarget] at h
      cases h
    | some p =>
      rw [htarget] at h
      dsimp only at h ⊢
      have hpump := sends_pumpForeground h
      cases (s.pumpForeground env).windows p.1 with
      | none => exact hpump
      | some w => exact hpump
  | tick env alive =>
    show Sends _ _ (s.tick env alive)
    unfold dispatched at h
    dsimp only at h
    unfold Manager.tick
    split_ifs at h ⊢
    exact sends_pumpForeground h
  | _ => cases h

theorem Sound.dispatched {n : Nat} {op : Op} {m : Manager} (hs : Sound n s)
    (h : s.dispatched op = some (mouse, m)) : Sound n m := by
  have hpumped : ∀ {t : Manager} {env}, Sound n t →
      t.pumped env = some (mouse, m) → Sound n m := by
    intro t env ht hpump
    unfold pumped at hpump
    split_ifs at hpump
    cases hpump
    exact ht.congr (like_markFirst t)
  cases op with
  | poll env ownerPid windowId =>
    unfold Manager.dispatched at h
    dsimp only at h
    cases htarget : s.target ownerPid windowId with
    | none =>
      rw [htarget] at h
      cases h
    | some p =>
      rw [htarget] at h
      exact hpumped hs h
  | tick env alive =>
    unfold Manager.dispatched at h
    dsimp only at h
    split_ifs at h
    exact hpumped (hs.reapDeadOwners alive) h
  | _ => cases h

end history

-- ==== pairing

section pairing

variable {s : Manager} {n : Nat}

theorem mem_owed {id : UInt64} (h : id ∈ s.owed) : ∃ i, s.windows i ≠ none := by
  unfold owed at h
  obtain ⟨i, -, hi⟩ := List.mem_filterMap.mp h
  refine ⟨i, ?_⟩
  intro hnone
  rw [hnone] at hi
  cases hi

theorem Sound.focusedSlot (h : Sound n s) (hany : ∃ i, s.windows i ≠ none) :
    ∃ i w, s.focusedSlot = some i ∧ s.windows i = some w := by
  obtain ⟨i, hi⟩ := hany
  have hmem : i ∈ s.zOrder := by
    rw [h.listed.used, isSome_shape, Option.isSome_iff_ne_none]
    exact hi
  obtain ⟨j, hj⟩ := h.any (List.ne_nil_of_mem hmem)
  cases hslot : s.focusedSlot with
  | none =>
    rw [not_focused_of_none hslot] at hj
    cases hj
  | some k =>
    have hk := focused_of_focusedSlot hslot
    unfold Manager.focused at hk
    cases hw : s.windows k with
    | none =>
      rw [hw] at hk
      cases hk
    | some w => exact ⟨k, w, rfl, hw⟩

theorem Sound.paired_iff (h : Sound n s) (op : Op) :
    Paired s op ↔ Kept s op := by
  refine forall_congr' fun d => forall_congr' fun hd => forall_congr' fun hup =>
    forall_congr' fun id => forall_congr' fun hid => ?_
  obtain ⟨mouse, m⟩ := d
  have hdispatched : s.dispatched op = some (mouse, m) := hd
  have hm := h.dispatched hdispatched
  obtain ⟨slot, w, hslot, hw⟩ := hm.focusedSlot (mem_owed hid)
  have hfocusedId : m.focusedId = some w.id := by
    unfold focusedId
    rw [hslot, Option.bind_some, hw]
    rfl
  obtain ⟨new, hnew, honly, hall⟩ := dispatchMouse_sent hup hslot hw
  obtain ⟨after, hafter, hkeys⟩ := sends_step hdispatched
  -- What is sent from the dispatch on is what comes after it and what it
  -- sends.
  have hnewSent : newSent m (s.step op) = after ++ new := by
    unfold newSent
    rw [hafter, hnew, ← List.append_assoc, List.length_append,
      Nat.add_sub_cancel, List.take_left]
  show (∃ e ∈ newSent m (s.step op), _) ↔
    m.mouseReady mouse = true ∧ m.focusedId = some id
  rw [hnewSent, hfocusedId]
  constructor
  · intro hsent
    obtain ⟨e, he, heid, hreleases⟩ := hsent
    obtain he | he := List.mem_append.mp he
    · rw [hkeys e he] at hreleases
      cases hreleases
    · obtain ⟨hwid, hready⟩ := honly e he
      exact ⟨hready, congrArg some (hwid.symm.trans heid)⟩
  · intro hkept
    obtain ⟨e, he, hwid, hreleases⟩ := hall hkept.1
    exact ⟨e, List.mem_append_right _ he,
      hwid.trans (Option.some.inj hkept.2), hreleases⟩

theorem Sound.throughout_iff (h : Sound n s) (ops : List Op) :
    Throughout Paired s ops ↔ Throughout Kept s ops := by
  induction ops generalizing n s with
  | nil => exact Iff.rfl
  | cons op ops ih => exact and_congr (h.paired_iff op) (ih (h.step op))

/-- From the start on. -/
theorem paired_throughout_iff (display : Display)
    (cellWidth cellHeight : UInt32) (multi : Bool) (ops : List Op) :
    Throughout Paired (init display cellWidth cellHeight multi) ops ↔
      Throughout Kept (init display cellWidth cellHeight multi) ops :=
  (sound_init display cellWidth cellHeight multi).throughout_iff ops

/-- The pointer is at a place, with the left button down or not. -/
def pointerAt (x y : Int32) (down : Bool) : Surroundings where
  ttyActive := true
  mouse := ⟨x, y, if down then mouseBtnLeft else 0, true⟩
  typed := []
  framePaced := false

/-- A window is pressed, a process makes another window, and the button
comes up. -/
theorem release_to_new_window :
    ¬ Throughout Paired (init (Display.init 1024 768) 8 16 true)
      [.create true 1 100 100 200 100 0,
        .tick (pointerAt 150 150 true) fun _ => true,
        .create true 2 400 400 200 100 0,
        .tick (pointerAt 150 150 false) fun _ => true] := by
  decide +kernel

end pairing

end Manager

end Clks.Wm
