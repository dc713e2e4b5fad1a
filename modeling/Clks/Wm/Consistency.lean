/-
What holds of the windows over a run.

The lists are sound after any calls (`Sound`): every call lists the windows
as before, or with one more or one less, and leaves the focus on one of
them. The number of windows made so far bounds the numbers of the windows,
so that a new one has another number for as long as the counter does not
come round.
-/
import Clks.Lib.Masks
import Clks.Wm.Listing

namespace Clks.Wm

namespace Manager

-- ==== soundness

/-- Windows that were among the first `n`. -/
structure Numbered (n : Nat) (shape : Slot → Option Shape) : Prop where
  ids : ∀ i sh, shape i = some sh → 0 < sh.id.toNat ∧ sh.id.toNat ≤ n
  distinct : ∀ i j sh th, shape i = some sh → shape j = some th →
    sh.id = th.id → i = j

/-- Buffers of the sizes of the windows. -/
def Sized (shape : Slot → Option Shape) : Prop :=
  ∀ i sh, shape i = some sh → sh.size = sh.width.toNat * sh.height.toNat

/-- What holds after `n` windows were made; of their numbers, for as long
as the counter did not come round. -/
structure Sound (n : Nat) (s : Manager) : Prop where
  listed : Listed s
  one : ∀ i j, s.focused i = true → s.focused j = true → i = j
  any : s.zOrder ≠ [] → ∃ i, s.focused i = true
  sized : Sized s.shape
  next : s.nextWindowId = UInt64.ofNat (n + 1)
  numbered : n < 2 ^ 64 → Numbered n s.shape

section sound

variable {n : Nat} {s t : Manager} {slot : Slot} {newSlot : Option Slot}
  {shape : Slot → Option Shape}

theorem Sound.congr (h : Sound n s) (hlike : Like s t) : Sound n t := by
  refine ⟨h.listed.congr hlike, ?_, ?_, ?_, ?_, ?_⟩
  · rw [hlike.focused]
    exact h.one
  · rw [hlike.zOrder, hlike.focused]
    exact h.any
  · rw [hlike.shape]
    exact h.sized
  · rw [hlike.nextWindowId]
    exact h.next
  · rw [hlike.shape]
    exact h.numbered

theorem Refocused.sound (h : Refocused newSlot s t)
    (hany : t.zOrder ≠ [] → newSlot ≠ none) (hsized : Sized s.shape)
    (hnext : s.nextWindowId = UInt64.ofNat (n + 1))
    (hnumbered : n < 2 ^ 64 → Numbered n s.shape) : Sound n t := by
  refine ⟨h.listed, ?_, ?_, h.shape ▸ hsized, h.nextWindowId.trans hnext,
    h.shape ▸ hnumbered⟩
  · intro i j hi hj
    rw [h.focused, decide_eq_true_eq] at hi hj
    exact Option.some.inj (hi.symm.trans hj)
  · intro hne
    obtain ⟨i, hi⟩ := Option.ne_none_iff_exists'.mp (hany hne)
    refine ⟨i, ?_⟩
    rw [h.focused, hi]
    exact decide_eq_true rfl

theorem Sound.setFocusSlot (h : Sound n s)
    (hused : (s.shape slot).isSome) : Sound n (s.setFocusSlot (some slot)) := by
  have hre := setFocusSlot_refocused h.listed h.one fun i hi =>
    (Option.some.inj hi : slot = i) ▸ hused
  exact hre.sound (fun _ => Option.some_ne_none _) h.sized h.next h.numbered

theorem Numbered.sub (h : Numbered n shape) {shape' : Slot → Option Shape}
    (hsub : ∀ i sh, shape' i = some sh → shape i = some sh) :
    Numbered n shape' :=
  ⟨fun i sh hi => h.ids i sh (hsub i sh hi),
    fun i j sh th hi hj => h.distinct i j sh th (hsub i sh hi) (hsub j th hj)⟩

theorem Sized.update (h : Sized shape) {o : Option Shape}
    (ho : ∀ sh, o = some sh → sh.size = sh.width.toNat * sh.height.toNat) :
    Sized (Function.update shape slot o) := by
  intro i sh hi
  by_cases heq : i = slot
  · rw [heq, Function.update_self] at hi
    exact ho sh hi
  · rw [Function.update_of_ne heq] at hi
    exact h i sh hi

theorem Numbered.update (h : Numbered n shape) {sh sh' : Shape}
    (hold : shape slot = some sh) (hid : sh'.id = sh.id) :
    Numbered n (Function.update shape slot (some sh')) := by
  -- Every window has the number of one that was there.
  have hfrom : ∀ i th, Function.update shape slot (some sh') i = some th →
      ∃ oh, shape i = some oh ∧ th.id = oh.id := by
    intro i th hi
    by_cases heq : i = slot
    · rw [heq, Function.update_self] at hi
      cases hi
      exact ⟨sh, heq ▸ hold, hid⟩
    · rw [Function.update_of_ne heq] at hi
      exact ⟨th, hi, rfl⟩
  refine ⟨?_, ?_⟩
  · intro i th hi
    obtain ⟨oh, hoh, heq⟩ := hfrom i th hi
    rw [heq]
    exact h.ids i oh hoh
  · intro i j th uh hi hj heq
    obtain ⟨oh, hoh, hto⟩ := hfrom i th hi
    obtain ⟨ph, hph, hup⟩ := hfrom j uh hj
    exact h.distinct i j oh ph hoh hph (hto.symm.trans (heq.trans hup))

theorem Numbered.add (h : Numbered n shape) (hn : n + 1 < 2 ^ 64) {sh : Shape}
    (hid : sh.id = UInt64.ofNat (n + 1)) :
    Numbered (n + 1) (Function.update shape slot (some sh)) := by
  have hnat : sh.id.toNat = n + 1 := by
    rw [hid, UInt64.toNat_ofNat']
    exact Nat.mod_eq_of_lt hn
  have hold : ∀ i th, i ≠ slot →
      Function.update shape slot (some sh) i = some th → shape i = some th := by
    intro i th hi hth
    rwa [Function.update_of_ne hi] at hth
  -- The old windows have smaller numbers.
  have hless : ∀ i th, i ≠ slot →
      Function.update shape slot (some sh) i = some th → th.id ≠ sh.id := by
    intro i th hi hth heq
    have hle := (h.ids i th (hold i th hi hth)).2
    rw [heq, hnat] at hle
    omega
  refine ⟨?_, ?_⟩
  · intro i th hi
    by_cases heq : i = slot
    · rw [heq, Function.update_self] at hi
      cases hi
      omega
    · have hids := h.ids i th (hold i th heq hi)
      omega
  · intro i j th uh hi hj heq
    by_cases his : i = slot
    · by_cases hjs : j = slot
      · exact his.trans hjs.symm
      · rw [his, Function.update_self] at hi
        cases hi
        exact absurd heq.symm (hless j uh hjs hj)
    · by_cases hjs : j = slot
      · rw [hjs, Function.update_self] at hj
        cases hj
        exact absurd heq (hless i th his hi)
      · exact h.distinct i j th uh (hold i th his hi) (hold j uh hjs hj) heq

theorem update_shape (s : Manager) (slot : Slot) (o : Option Window) :
    ({ s with windows := Function.update s.windows slot o } : Manager).shape
      = Function.update s.shape slot (o.map Window.shape) := by
  funext i
  show (Function.update s.windows slot o i).map Window.shape = _
  by_cases h : i = slot
  · rw [h, Function.update_self, Function.update_self]
  · rw [Function.update_of_ne h, Function.update_of_ne h]
    rfl

-- ==== steps

theorem Sound.cleared (h : Sound n s) (slot : Slot) :
    Listed ((s.clearSlot slot).zRemoveSlot slot) ∧
      Sized ((s.clearSlot slot).zRemoveSlot slot).shape ∧
      (n < 2 ^ 64 → Numbered n ((s.clearSlot slot).zRemoveSlot slot).shape) ∧
      ∀ i, ((s.clearSlot slot).zRemoveSlot slot).focused i
        = (decide (i ≠ slot) && s.focused i) := by
  have hshape : ((s.clearSlot slot).zRemoveSlot slot).shape
      = Function.update s.shape slot none := update_shape s slot none
  have hbut : ListedBut slot ((s.clearSlot slot).zRemoveSlot slot) := by
    refine (h.listed.zRemoveSlot slot).congr rfl ?_
    intro i hi
    rw [hshape, Function.update_of_ne hi]
    rfl
  refine ⟨hbut.listed ?_, ?_, ?_, ?_⟩
  · rw [hshape, Function.update_self]
    rfl
  · rw [hshape]
    exact h.sized.update fun sh hsh => nomatch hsh
  · rw [hshape]
    intro hn
    refine (h.numbered hn).sub ?_
    intro i sh hi
    by_cases heq : i = slot
    · rw [heq, Function.update_self] at hi
      cases hi
    · rwa [Function.update_of_ne heq] at hi
  · intro i
    have hw : ((s.clearSlot slot).zRemoveSlot slot).windows
        = Function.update s.windows slot none := rfl
    unfold Manager.focused
    rw [hw]
    by_cases heq : i = slot
    · rw [heq, Function.update_self]
      simp
    · rw [Function.update_of_ne heq]
      simp only [ne_eq, heq, not_false_eq_true, decide_true, Bool.true_and]

theorem Sound.removeSlot (h : Sound n s) (slot : Slot) :
    Sound n (s.removeSlot slot) := by
  unfold Manager.removeSlot
  cases hw : s.windows slot with
  | none => exact h
  | some w =>
    dsimp only
    have hmark := h.congr (like_markDirtyWindow slot s)
    have hfocus : w.focused = (s.markDirtyWindow slot).focused slot := by
      rw [(like_markDirtyWindow slot s).focused]
      unfold Manager.focused
      rw [hw]
    rw [hfocus]
    generalize s.markDirtyWindow slot = m at hmark
    obtain ⟨hlisted, hsized, hnumbered, hfocused⟩ := hmark.cleared slot
    have hz : ((m.clearSlot slot).zRemoveSlot slot).zOrder
        = m.zOrder.erase slot := rfl
    have hnext : ((m.clearSlot slot).zRemoveSlot slot).nextWindowId
        = UInt64.ofNat (n + 1) := hmark.next
    generalize (m.clearSlot slot).zRemoveSlot slot = r
      at hlisted hsized hnumbered hfocused hz hnext
    have hone : ∀ i j, r.focused i = true → r.focused j = true → i = j := by
      intro i j hi hj
      rw [hfocused, Bool.and_eq_true] at hi hj
      exact hmark.one i j hi.2 hj.2
    have hresult : Sound n
        (if m.focused slot then r.setFocusSlot r.zOrder.getLast? else r) := by
      split_ifs with hwas
      · have hre := setFocusSlot_refocused hlisted hone fun i hi =>
          (hlisted.used i).mp (List.mem_of_getLast? hi)
        refine hre.sound ?_ hsized hnext hnumbered
        intro hne hnone
        obtain ⟨i, hi⟩ := List.exists_mem_of_ne_nil _ hne
        have hused := (hre.listed.used i).mp hi
        rw [hre.shape, ← hlisted.used i,
          List.getLast?_eq_none_iff.mp hnone] at hused
        cases hused
      · -- Another window has the focus, and keeps it.
        refine ⟨hlisted, hone, ?_, hsized, hnext, hnumbered⟩
        intro hne
        have hmne : m.zOrder ≠ [] := by
          intro hnil
          rw [hz, hnil] at hne
          exact hne rfl
        obtain ⟨j, hj⟩ := hmark.any hmne
        refine ⟨j, ?_⟩
        rw [hfocused, hj, Bool.and_true, decide_eq_true_eq]
        intro heq
        exact hwas (heq ▸ hj)
    generalize (if m.focused slot then r.setFocusSlot r.zOrder.getLast? else r)
      = t at hresult
    by_cases hempty : t.zOrder = []
    · rw [if_pos hempty]
      exact hresult.congr ⟨rfl, rfl, rfl, rfl⟩
    · rw [if_neg hempty]
      exact hresult

theorem Sound.reapDeadOwners (h : Sound n s) (alive : UInt64 → Bool) :
    Sound n (s.reapDeadOwners alive) := by
  unfold Manager.reapDeadOwners
  induction List.finRange maxWindows generalizing s with
  | nil => exact h
  | cons i is ih =>
    rw [List.foldl_cons]
    apply ih
    cases s.windows i with
    | none => exact h
    | some w =>
      dsimp only
      split_ifs
      · exact h
      · exact h.removeSlot i

theorem Sound.addWindow (h : Sound n s) (hfree : s.windows slot = none) {w : Window}
    (hid : w.id = s.nextWindowId) (hfocused : w.focused = false)
    (hsize : w.pixels.length = w.width.toNat * w.height.toNat) :
    Sound (n + 1)
      (((s.addWindow slot w).zInsertForFlags slot).setFocusSlot
        (some slot)) := by
  have hshape : (s.addWindow slot w).shape
      = Function.update s.shape slot (some w.shape) :=
    update_shape s slot (some w)
  have hnone : s.shape slot = none := by
    unfold Manager.shape
    rw [hfree]
    rfl
  have hbut : ListedBut slot (s.addWindow slot w) := by
    refine ⟨h.listed.nodup, ?_, ?_⟩
    · intro i
      show i ∈ s.zOrder ↔ _
      rw [h.listed.used i, hshape]
      by_cases hi : i = slot
      · simp [hi, hnone]
      · rw [Function.update_of_ne hi]
        simp [hi]
    · refine h.listed.tiers.congr fun i hi => ?_
      have hne : i ≠ slot := by
        intro heq
        have hused := (h.listed.used i).mp hi
        rw [heq, hnone] at hused
        cases hused
      rw [topmost_eq, topmost_eq, hshape, Function.update_of_ne hne]
  have hused : ((s.addWindow slot w).shape slot).isSome := by
    rw [hshape, Function.update_self]
    rfl
  have hlisted := (hbut.zInsertForFlags hused).1
  obtain ⟨hwin, hnext⟩ := zInsertForFlags_windows slot (s.addWindow slot w)
  have hshape' : ((s.addWindow slot w).zInsertForFlags slot).shape
      = Function.update s.shape slot (some w.shape) := by
    rw [← hshape]
    funext i
    unfold Manager.shape
    rw [hwin]
  -- The window has the focus only behind this.
  have hold : ∀ i, ((s.addWindow slot w).zInsertForFlags slot).focused i = true →
      s.focused i = true := by
    intro i hi
    unfold Manager.focused at hi
    rw [hwin] at hi
    by_cases heq : i = slot
    · rw [heq] at hi
      simp only [Manager.addWindow, Function.update_self] at hi
      rw [hfocused] at hi
      cases hi
    · simp only [Manager.addWindow, Function.update_of_ne heq] at hi
      exact hi
  have hre := setFocusSlot_refocused hlisted
    (fun i j hi hj => h.one i j (hold i hi) (hold j hj))
    (fun i hi => by
      rw [hshape', ← (Option.some.inj hi : slot = i), Function.update_self]
      rfl)
  refine hre.sound (fun _ => Option.some_ne_none slot) ?_ ?_ ?_
  · rw [hshape']
    refine h.sized.update fun sh hsh => ?_
    cases hsh
    exact hsize
  · rw [hnext]
    show s.nextWindowId + 1 = _
    rw [h.next]
    exact (UInt64.ofNat_add (n + 1) 1).symm
  · rw [hshape']
    intro hn
    exact (h.numbered (Nat.lt_of_succ_lt hn)).add hn (hid.trans h.next)

theorem setFocusSlot_nextWindowId (newSlot : Option Slot) (s : Manager) :
    (s.setFocusSlot newSlot).nextWindowId = s.nextWindowId := by
  have hlose : s.loseFocus.nextWindowId = s.nextWindowId := by
    unfold loseFocus
    cases s.focusedSlot with
    | none => rfl
    | some slot =>
      show (Manager.eventPush slot _ _).nextWindowId = _
      rw [(like_eventPush slot _ _).nextWindowId]
      exact (like_markDirtyWindow slot s).nextWindowId
  unfold Manager.setFocusSlot
  split
  · rfl
  cases newSlot with
  | none => exact hlose
  | some slot =>
    rw [← hlose]
    show (Manager.eventPush slot _ _).nextWindowId = _
    rw [(like_eventPush slot _ _).nextWindowId,
      (like_markDirtyWindow slot _).nextWindowId,
      (zInsertForFlags_windows slot _).2]
    exact (like_markDirtyWindow slot _).nextWindowId

theorem Sound.create (h : Sound n s) (allocated : Bool) (ownerPid : UInt64)
    (x y : Int32) (width height : UInt32) (flags : UInt64) {t : Manager}
    (ht : (s.create allocated ownerPid x y width height flags).2 = t) :
    Sound n t ∨ t.nextWindowId = s.nextWindowId + 1 ∧ Sound (n + 1) t := by
  subst ht
  unfold Manager.create
  dsimp only
  split
  · exact Or.inl h
  cases hfree : s.findFreeSlot with
  | none => exact Or.inl h
  | some slot =>
    dsimp only
    split
    · exact Or.inl h
    have hnone : s.windows slot = none := by
      unfold Manager.findFreeSlot at hfree
      have := List.find?_some hfree
      exact Option.isNone_iff_eq_none.mp this
    refine Or.inr ⟨?_, ?_⟩
    · rw [setFocusSlot_nextWindowId, (zInsertForFlags_windows slot _).2]
      rfl
    · refine h.addWindow hnone rfl rfl ?_
      show (List.replicate _ _).length = _
      rw [List.length_replicate]
      exact Masks.toNat_mul_words width height

theorem target_windows {ownerPid windowId : UInt64} {w : Window}
    (h : s.target ownerPid windowId = some (slot, w)) :
    s.windows slot = some w := by
  unfold target at h
  cases hslot : s.findSlotById windowId with
  | none =>
    rw [hslot] at h
    cases h
  | some i =>
    rw [hslot] at h
    dsimp only at h
    cases hw : s.windows i with
    | none =>
      rw [hw] at h
      cases h
    | some v =>
      rw [hw] at h
      dsimp only at h
      split_ifs at h
      cases h
      exact hw

theorem Sound.destroy (h : Sound n s) (ownerPid windowId : UInt64) :
    Sound n (s.destroy ownerPid windowId).2 := by
  unfold Manager.destroy
  cases s.target ownerPid windowId with
  | none => exact h
  | some p => exact h.removeSlot p.1

theorem like_move (ownerPid windowId : UInt64) (x y : Int32) (s : Manager) :
    Like s (s.move ownerPid windowId x y).2 := by
  unfold move
  cases s.target ownerPid windowId with
  | none => exact .refl s
  | some p =>
    dsimp only
    split
    · have hmark : Like s (s.markSceneDirtyRect p.2.rect) := ⟨rfl, rfl, rfl, rfl⟩
      refine (hmark.trans ?_).trans (like_markDirtyWindow _ _)
      exact like_modifyWindow (fun _ _ => rfl) (fun _ _ => rfl)
    · exact .refl s

theorem Sound.setFocus (h : Sound n s) (windowId : UInt64) :
    Sound n (s.setFocus windowId).2 := by
  unfold Manager.setFocus
  cases hslot : s.findSlotById windowId with
  | none => exact h
  | some slot =>
    refine h.setFocusSlot ?_
    unfold findSlotById at hslot
    split_ifs at hslot
    have hfound := List.find?_some hslot
    rw [isSome_shape]
    cases hw : s.windows slot with
    | none =>
      rw [hw] at hfound
      cases hfound
    | some w => rfl

theorem Sound.updated (h : Sound n s) {w : Window} {f : Window → Window}
    (hw : s.windows slot = some w) (hid : (f w).id = w.id)
    (hfocused : (f w).focused = w.focused)
    (hsize : (f w).pixels.length = (f w).width.toNat * (f w).height.toNat)
    (hwindows : t.windows = (s.modifyWindow slot f).windows)
    (hnext : t.nextWindowId = s.nextWindowId) (hlisted : Listed t) :
    Sound n t := by
  have hf : t.focused = s.focused := by
    rw [← @modifyWindow_focused s slot f]
    · funext i
      unfold Manager.focused
      rw [hwindows]
    · intro v hv
      rw [hw] at hv
      cases hv
      exact hfocused
  have hold : s.shape slot = some w.shape := by
    show (s.windows slot).map Window.shape = _
    rw [hw]
    rfl
  have hshape : t.shape = Function.update s.shape slot (some (f w).shape) := by
    have hupdate := update_shape s slot ((s.windows slot).map f)
    rw [hw] at hupdate
    rw [← Option.map_some, ← Option.map_some, ← hupdate]
    funext i
    unfold Manager.shape
    rw [hwindows]
    show (Function.update s.windows slot ((s.windows slot).map f) i).map _ = _
    rw [hw]
  refine ⟨hlisted, ?_, ?_, ?_, ?_, ?_⟩
  · rw [hf]
    exact h.one
  · intro _
    rw [hf]
    refine h.any (List.ne_nil_of_mem (a := slot) ?_)
    rw [h.listed.used, hold]
    rfl
  · rw [hshape]
    refine h.sized.update fun sh hsh => ?_
    cases hsh
    exact hsize
  · rw [hnext]
    exact h.next
  · rw [hshape]
    exact fun hn => (h.numbered hn).update hold hid

theorem Sound.size (h : Sound n s) {w : Window} (hw : s.windows slot = some w) :
    w.pixels.length = w.width.toNat * w.height.toNat := by
  refine h.sized slot w.shape ?_
  show (s.windows slot).map Window.shape = _
  rw [hw]
  rfl

theorem modifyWindow_shape_ne {f : Window → Window} {i : Slot}
    (hi : i ≠ slot) : (s.modifyWindow slot f).shape i = s.shape i := by
  unfold Manager.shape
  rw [modifyWindow_windows, if_neg hi]

theorem modifyWindow_isSome {f : Window → Window} (i : Slot) :
    ((s.modifyWindow slot f).shape i).isSome = (s.shape i).isSome := by
  rw [isSome_shape, isSome_shape, modifyWindow_windows]
  split_ifs
  · exact Option.isSome_map
  · rfl

theorem markDirtyWindow_windows (slot : Slot) (s : Manager) :
    (s.markDirtyWindow slot).windows = s.windows := by
  unfold markDirtyWindow
  cases s.windows slot with
  | none => rfl
  | some w =>
    dsimp only
    split_ifs
    · rfl
    · rfl

theorem Sound.setFlags (h : Sound n s) (ownerPid windowId flags : UInt64) :
    Sound n (s.setFlags ownerPid windowId flags).2 := by
  unfold Manager.setFlags
  cases htarget : s.target ownerPid windowId with
  | none => exact h
  | some p =>
    obtain ⟨slot, w⟩ := p
    dsimp only
    split
    · exact h
    refine Sound.congr ?_ (like_markDirtyWindow slot _)
    have hw : (s.markDirtyWindow slot).windows slot = some w := by
      rw [markDirtyWindow_windows]
      exact target_windows htarget
    have hmark := h.congr (like_markDirtyWindow slot s)
    generalize s.markDirtyWindow slot = m at hw hmark
    -- With other flags it has another place among the others.
    have hbut : ListedBut slot ((m.modifyWindow slot fun w =>
        { w with flags := flags &&& flagTopmost }).zRemoveSlot slot) :=
      (hmark.listed.zRemoveSlot slot).congr rfl fun i hi =>
        modifyWindow_shape_ne hi
    have hused : ((m.modifyWindow slot fun w =>
        { w with flags := flags &&& flagTopmost }).shape slot).isSome := by
      rw [modifyWindow_isSome, isSome_shape, hw]
      rfl
    obtain ⟨hwindows, hnext⟩ := zInsertForFlags_windows slot
      ((m.modifyWindow slot fun w =>
        { w with flags := flags &&& flagTopmost }).zRemoveSlot slot)
    have hsize := hmark.size hw
    exact hmark.updated hw rfl rfl hsize hwindows hnext (hbut.raise hused)

theorem length_rows (width height : Nat) (g : Nat → Nat → UInt32) :
    ((List.range height).flatMap fun y => (List.range width).map (g y)).length
      = width * height := by
  rw [List.length_flatMap, Nat.mul_comm]
  simp

theorem Sound.resize (h : Sound n s) (allocated : Bool)
    (ownerPid windowId : UInt64) (width height : UInt32) :
    Sound n (s.resize allocated ownerPid windowId width height).2 := by
  unfold Manager.resize
  cases htarget : s.target ownerPid windowId with
  | none => exact h
  | some p =>
    obtain ⟨slot, w⟩ := p
    dsimp only
    split
    · exact h
    split
    · exact h
    refine Sound.congr ?_ (like_markDirtyWindow slot _)
    have hw : (s.markDirtyWindow slot).windows slot = some w := by
      rw [markDirtyWindow_windows]
      exact target_windows htarget
    have hmark := h.congr (like_markDirtyWindow slot s)
    generalize s.markDirtyWindow slot = m at hw hmark
    refine hmark.updated hw rfl rfl (length_rows _ _ _) rfl rfl ?_
    -- Its place among the others is what it was.
    refine ⟨hmark.listed.nodup, ?_, ?_⟩
    · intro i
      rw [modifyWindow_isSome]
      exact hmark.listed.used i
    · refine hmark.listed.tiers.congr fun i _ => ?_
      unfold Manager.topmost
      rw [modifyWindow_windows]
      split_ifs
      · cases m.windows i <;> rfl
      · rfl

theorem like_flushPresentDamage (s : Manager) :
    Like s s.flushPresentDamage := by
  unfold flushPresentDamage
  split
  · exact .refl s
  · exact ⟨rfl, rfl, rfl, rfl⟩

theorem like_markFirst (s : Manager) : Like s s.markFirst := by
  unfold markFirst
  split
  · exact .refl s
  · exact ⟨rfl, rfl, rfl, rfl⟩

theorem like_flushPresentDamageNow (env : Surroundings) (s : Manager) :
    Like s (s.flushPresentDamageNow env) := by
  unfold flushPresentDamageNow
  split
  · exact .refl s
  · have hactive : Like s.markFirst { s.markFirst with activeLast := true } :=
      ⟨rfl, rfl, rfl, rfl⟩
    exact ((like_markFirst s).trans hactive).trans (like_flushPresentDamage _)

theorem Sound.present (h : Sound n s) (env : Surroundings)
    (ownerPid windowId : UInt64) (src : Nat → Nat → UInt32)
    (srcWidth srcHeight srcPitchBytes : UInt32) :
    Sound n (s.present env ownerPid windowId src srcWidth srcHeight
      srcPitchBytes).2 := by
  unfold Manager.present
  cases htarget : s.target ownerPid windowId with
  | none => exact h
  | some p =>
    obtain ⟨slot, w⟩ := p
    dsimp only
    split
    · exact h
    refine Sound.congr ?_ (like_flushPresentDamageNow env _)
    refine Sound.congr ?_ (like_markDirtyWindow slot _)
    have hw := target_windows htarget
    refine h.congr (like_modifyWindow ?_ fun _ _ => rfl)
    -- The buffer has the size that it had.
    intro v hv
    rw [hw] at hv
    cases hv
    show (⟨w.id, w.flags, w.width, w.height, _⟩ : Shape) = w.shape
    rw [length_rows, ← h.size hw]
    rfl

theorem like_markDirtyCursor (x y : Int32) (s : Manager) :
    Like s (s.markDirtyCursor x y) := ⟨rfl, rfl, rfl, rfl⟩

theorem pressedSlot_used (h : Listed s) {mouse : MouseState}
    (hslot : s.pressedSlot mouse = some slot) : (s.shape slot).isSome := by
  unfold pressedSlot at hslot
  split_ifs at hslot
  unfold hitSlot at hslot
  split_ifs at hslot
  unfold windowHitTest at hslot
  have hmem := List.mem_of_find?_eq_some hslot
  exact (h.used slot).mp (List.mem_reverse.mp hmem)

theorem Sound.pressFocus (h : Sound n s) (mouse : MouseState) :
    Sound n (s.pressFocus mouse) := by
  unfold Manager.pressFocus
  cases hslot : s.pressedSlot mouse with
  | none => exact h
  | some slot => exact h.setFocusSlot (pressedSlot_used h.listed hslot)

theorem like_sendMouse (mouse : MouseState) (target : Option Slot)
    (s : Manager) : Like s (s.sendMouse mouse target) := by
  unfold sendMouse
  cases target with
  | none => exact .refl s
  | some slot =>
    dsimp only
    cases s.windows slot with
    | none => exact .refl s
    | some w => exact like_eventPushes slot id _ s

theorem like_markMouse (mouse : MouseState) (s : Manager) :
    Like s (s.markMouse mouse) := by
  unfold markMouse
  dsimp only
  have hleft : Like s (if s.lastMouseReady && s.mouseChanged mouse then
      s.markDirtyCursor s.lastMouseX s.lastMouseY else s) := by
    split
    · exact like_markDirtyCursor _ _ s
    · exact .refl s
  split
  · exact hleft.trans (like_markDirtyCursor _ _ _)
  · exact hleft

theorem Sound.dispatchMouse (h : Sound n s) (mouse : MouseState) :
    Sound n (s.dispatchMouse mouse) := by
  have hpress := h.pressFocus mouse
  have hsent := hpress.congr (like_sendMouse mouse (s.mouseTarget mouse) _)
  have hmark := hsent.congr (like_markMouse mouse _)
  exact hmark.congr ⟨rfl, rfl, rfl, rfl⟩

theorem like_dispatchKeyboardToFocused (typed : List UInt8) (s : Manager) :
    Like s (s.dispatchKeyboardToFocused typed) := by
  unfold dispatchKeyboardToFocused
  cases s.focusedSlot with
  | none => exact .refl s
  | some slot => exact like_eventPushes slot _ _ s

theorem Sound.pumpForeground (h : Sound n s) (env : Surroundings) :
    Sound n (s.pumpForeground env) := by
  unfold Manager.pumpForeground
  split
  · exact h
  split
  · exact h.congr ⟨rfl, rfl, rfl, rfl⟩
  dsimp only
  have hsent := (((h.congr (like_markFirst s)).dispatchMouse env.mouse).congr
    (like_dispatchKeyboardToFocused env.typed _))
  split
  · have hflush := hsent.congr (like_flushPresentDamage _)
    exact hflush.congr ⟨rfl, rfl, rfl, rfl⟩
  · exact hsent.congr ⟨rfl, rfl, rfl, rfl⟩

theorem Sound.pollEvent (h : Sound n s) (env : Surroundings)
    (ownerPid windowId : UInt64) :
    Sound n (s.pollEvent env ownerPid windowId).2 := by
  unfold Manager.pollEvent
  cases s.target ownerPid windowId with
  | none => exact h
  | some p =>
    dsimp only
    have hpump := h.pumpForeground env
    generalize s.pumpForeground env = t at hpump
    cases t.windows p.1 with
    | none => exact hpump
    | some w => exact hpump.congr (like_modifyWindow (fun _ _ => rfl) fun _ _ => rfl)

theorem Sound.tick (h : Sound n s) (env : Surroundings)
    (alive : UInt64 → Bool) : Sound n (s.tick env alive) := by
  unfold Manager.tick
  split
  · exact h
  · exact (h.reapDeadOwners alive).pumpForeground env

theorem like_setResolution (width height : UInt32) (s : Manager) :
    Like s (s.setResolution width height).2 := by
  unfold setResolution
  cases s.damage.display.modeSet width height with
  | none => exact .refl s
  | some d => exact ⟨rfl, rfl, rfl, rfl⟩

theorem Sound.step (h : Sound n s) (op : Op) :
    Sound (n + (s.makes op).toNat) (s.step op) := by
  have hsame : Sound n (s.step op) →
      Sound (n + (s.makes op).toNat) (s.step op) := by
    intro ht
    have hno : s.makes op = false := by
      unfold makes
      rw [ht.next, h.next]
      simp
    rw [hno]
    exact ht
  cases op with
  | create allocated ownerPid x y width height flags =>
    obtain ht | ⟨hnext, ht⟩ :=
      h.create allocated ownerPid x y width height flags rfl
    · exact hsame ht
    · have hyes : s.makes (.create allocated ownerPid x y width height flags)
          = true := by
        unfold makes
        rw [decide_eq_true_eq]
        show (s.create allocated ownerPid x y width height flags).2.nextWindowId
          ≠ _
        rw [hnext]
        intro heq
        simp at heq
      rw [hyes]
      exact ht
  | destroy ownerPid windowId => exact hsame (h.destroy ownerPid windowId)
  | present env ownerPid windowId src width height pitchBytes =>
    exact hsame (h.present env ownerPid windowId src width height pitchBytes)
  | move ownerPid windowId x y =>
    exact hsame (h.congr (like_move ownerPid windowId x y s))
  | setFocus windowId => exact hsame (h.setFocus windowId)
  | setFlags ownerPid windowId flags =>
    exact hsame (h.setFlags ownerPid windowId flags)
  | resize allocated ownerPid windowId width height =>
    exact hsame (h.resize allocated ownerPid windowId width height)
  | setResolution width height =>
    exact hsame (h.congr (like_setResolution width height s))
  | reap alive => exact hsame (h.reapDeadOwners alive)
  | poll env ownerPid windowId =>
    exact hsame (h.pollEvent env ownerPid windowId)
  | tick env alive => exact hsame (h.tick env alive)

theorem Sound.run (h : Sound n s) (ops : List Op) :
    Sound (n + s.creations ops) (s.run ops) := by
  induction ops generalizing n s with
  | nil => exact h
  | cons op ops ih =>
    unfold creations
    rw [← Nat.add_assoc]
    exact ih (h.step op)

end sound

theorem sound_init (display : Display) (cellWidth cellHeight : UInt32)
    (multi : Bool) : Sound 0 (init display cellWidth cellHeight multi) := by
  refine ⟨⟨List.nodup_nil, ?_, List.Pairwise.nil⟩, ?_, ?_, ?_, rfl,
    fun _ => ⟨?_, ?_⟩⟩
  · intro i
    exact ⟨(fun hi => nomatch hi), (fun hi => nomatch hi)⟩
  · intro i j hi
    cases hi
  · intro hne
    exact absurd rfl hne
  · intro i sh hi
    cases hi
  · intro i sh hi
    cases hi
  · intro i j sh th hi
    cases hi

-- ==== consistency

/-- The windows, the z-order and the focus go together. -/
structure Consistent (s : Manager) : Prop where
  nodup : s.zOrder.Nodup
  used : ∀ i, i ∈ s.zOrder ↔ s.windows i ≠ none
  front : s.zOrder.Pairwise fun i j => s.topmost i = true → s.topmost j = true
  focus : (∃ i, s.windows i ≠ none) → ∃! i, s.focused i = true
  ids : ∀ i w, s.windows i = some w → w.id ≠ 0
  distinct : ∀ i j v w, s.windows i = some v → s.windows j = some w →
    v.id = w.id → i = j
  sizes : ∀ i w, s.windows i = some w →
    w.pixels.length = w.width.toNat * w.height.toNat

theorem Sound.consistent {n : Nat} {s : Manager} (h : Sound n s)
    (hn : n < 2 ^ 64) : Consistent s := by
  have hnumbered := h.numbered hn
  have hshape : ∀ i w, s.windows i = some w → s.shape i = some w.shape := by
    intro i w hw
    show (s.windows i).map Window.shape = _
    rw [hw]
    rfl
  have hused : ∀ i, i ∈ s.zOrder ↔ s.windows i ≠ none := by
    intro i
    rw [h.listed.used, isSome_shape, Option.isSome_iff_ne_none]
  refine ⟨h.listed.nodup, hused, h.listed.tiers, ?_, ?_, ?_, ?_⟩
  · intro hany
    obtain ⟨i, hi⟩ := hany
    obtain ⟨j, hj⟩ := h.any (List.ne_nil_of_mem ((hused i).mpr hi))
    exact ⟨j, hj, fun k hk => h.one k j hk hj⟩
  · intro i w hw hzero
    have hpos := (hnumbered.ids i w.shape (hshape i w hw)).1
    rw [show w.shape.id = 0 from hzero] at hpos
    exact Nat.lt_irrefl 0 hpos
  · intro i j v w hv hw heq
    exact hnumbered.distinct i j v.shape w.shape (hshape i v hv)
      (hshape j w hw) heq
  · intro i w hw
    exact h.size hw

/-- From the start on, for as long as fewer than 2^64 windows were made. -/
theorem consistent_run (display : Display) (cellWidth cellHeight : UInt32)
    (multi : Bool) (ops : List Op)
    (hfew : (init display cellWidth cellHeight multi).creations ops < 2 ^ 64) :
    Consistent ((init display cellWidth cellHeight multi).run ops) := by
  have hsound := (sound_init display cellWidth cellHeight multi).run ops
  rw [Nat.zero_add] at hsound
  exact hsound.consistent hfew

theorem creations_le (s : Manager) (ops : List Op) :
    s.creations ops ≤ ops.length := by
  induction ops generalizing s with
  | nil => exact Nat.le_refl 0
  | cons op ops ih =>
    unfold creations
    rw [List.length_cons, Nat.add_comm]
    exact Nat.add_le_add (ih _) (Bool.toNat_le _)

/-- Two windows, of which the first is moved in front of the other, and a
window that is too small. -/
theorem consistent_run_three :
    Consistent ((init (Display.init 1024 768) 8 16 true).run
      [.create true 1 10 10 200 100 0, .create true 2 50 50 200 100 0,
        .setFlags 1 1 1, .create true 3 0 0 10 10 0, .reap fun p => p = 1]) :=
  consistent_run _ _ _ _ _
    (Nat.lt_of_le_of_lt (creations_le _ _) (by decide))

end Manager

end Clks.Wm
