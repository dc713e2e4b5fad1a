/-
What a change of the resolution leaves behind.

The answer and the state do not always agree. The display mode is set and
the size is computed before the size is looked at, so that a refusal for
want of a row or a column comes after both have changed; and only the
cursor of the terminal that is shown is brought onto the new screen.
`setResolution_atomic_iff` says for which states and which requests that
does not show.
-/
import Clks.Tty.Frames

namespace Clks.Tty

open Guarded

variable {g : Geometry} {α : Type} {t width height : Nat} {c c' : Console}

-- ==== what drawing leaves alone

/-- A terminal, however far it is scrolled back. -/
def Terminal.unscrolled (y : Terminal) : Terminal :=
  { y with scrollbackOffset := 0 }

/-- The size, the mode and the terminals. -/
def Console.held (c : Console) : Nat × Nat × Display × (Nat → Terminal) :=
  (c.rows, c.cols, c.display, fun t => (c.ttys t).unscrolled)

abbrev Holds (m : Act α) : Prop := Saves Console.held m

theorem Drawing.holds {m : Act α} (h : Drawing m) : Holds m :=
  Saves.comp h fun (_, _, rows, cols, display, ttys) =>
    (rows, cols, display, fun t => (ttys t).unscrolled)

-- ==== the new resolution

/-- The console with another mode, and with the size that it gives. -/
def Console.remoded (c : Console) (display : Display) : Console :=
  ({ c with display := display }).recomputeGeometry

/-- A terminal whose cursor is brought onto the screen. -/
def Terminal.clamped (y : Terminal) (contentRows cols : Nat) : Terminal :=
  y.setCursor (clampTo y.cursorRow contentRows) (clampTo y.cursorCol cols)

/-- The cursor of the terminal is in the content area. -/
def Console.CursorIn (c : Console) (y : Terminal) : Prop :=
  y.cursorRow < c.contentRows ∧ y.cursorCol < c.cols

/-- What is asked of the console's counts and lengths. -/
structure Console.Bounded (c : Console) : Prop where
  active : c.activeIndex < ttyCount
  ttys : ∀ t, (c.ttys t).Fits

theorem Console.Sound.bounded (h : c.Sound) : c.Bounded := ⟨h.active, h.ttys⟩

theorem Console.Bounded.remoded (h : c.Bounded) {display : Display}
    (hrows : (c.remoded display).rows ≠ 0)
    (hcols : (c.remoded display).cols ≠ 0) :
    ∃ g, (c.remoded display).Fits g :=
  ⟨⟨_, _, Nat.pos_of_ne_zero hrows, Nat.min_le_right ..,
    Nat.pos_of_ne_zero hcols, Nat.min_le_right ..⟩, rfl, rfl, h.active, h.ttys⟩

theorem clampTo_lt {position count : Nat} (h : 0 < count) :
    clampTo position count < count := by
  unfold clampTo
  split
  · exact pred32_lt h (Nat.le_refl count)
  · omega

theorem holds_afterCursor : Holds (do
    setCursorVisible false
    dirtyReset
    redrawActive
    resetBlinkTimer) := by
  refine .bind (drawing_setCursorVisible false).holds fun _ => ?_
  refine .bind drawing_dirtyReset.holds fun _ => ?_
  exact .bind drawing_redrawActive.holds fun _ => drawing_resetBlinkTimer.holds

theorem applyGeometry_held (hc : c.Fits g) :
    ∃ c', applyGeometry c = some ((), c') ∧
      c'.held = (c.setTty c.activeIndex
        ((c.ttys c.activeIndex).clamped c.contentRows c.cols)).held := by
  obtain ⟨_, c', hrun, -⟩ := keeps_applyGeometry c hc
  refine ⟨c', hrun, ?_⟩
  unfold applyGeometry at hrun
  obtain ⟨_, c0, hstate, hrun⟩ := bind_some_inv hrun
  cases hstate
  obtain ⟨_, c1, hcursor, hrun⟩ := bind_some_inv hrun
  rw [when_pos hc.active, modifyTty_apply hc.active] at hcursor
  cases hcursor
  exact holds_afterCursor _ _ _ hrun

-- ==== the theorem

/-- The change is complete where it is granted, and nothing where it is
refused. -/
def Console.Atomic (c : Console) (width height : Nat) : Prop :=
  ∃ answer c', setResolution width height c = some (answer, c') ∧
    (answer = true → ∀ t, t < ttyCount → c'.CursorIn (c'.ttys t)) ∧
    (answer = false → c'.rows = c.rows ∧ c'.cols = c.cols ∧
      c'.display = c.display ∧ c'.ttys = c.ttys)

/-- The mode is refused; or there is a row and a column and the cursors of
the terminals that are not shown are on the new screen; or there is none,
and it is the size and the mode that there were. -/
def Console.Resizes (c : Console) (width height : Nat) : Prop :=
  ∀ display, c.display.modeSet width height = some display →
    if (c.remoded display).rows = 0 ∨ (c.remoded display).cols = 0 then
      (c.remoded display).rows = c.rows ∧ (c.remoded display).cols = c.cols ∧
        display = c.display
    else
      ∀ t, t < ttyCount → t ≠ c.activeIndex →
        (c.remoded display).CursorIn (c.ttys t)

theorem setResolution_refused (h : c.display.modeSet width height = none) :
    setResolution width height c = some (false, c) := by
  unfold setResolution
  rw [bind_some (show state c = some (c, c) from rfl), h]
  rfl

theorem setResolution_empty {display : Display}
    (h : c.display.modeSet width height = some display)
    (hnone : (c.remoded display).rows = 0 ∨ (c.remoded display).cols = 0) :
    setResolution width height c = some (false, c.remoded display) := by
  unfold setResolution
  rw [bind_some (show state c = some (c, c) from rfl), h]
  show (if (c.remoded display).rows = 0 ∨ (c.remoded display).cols = 0 then
    pure false else _ : Act Bool) (c.remoded display) = _
  rw [if_pos hnone]
  rfl

theorem setResolution_granted {display : Display} (hc : c.Bounded)
    (h : c.display.modeSet width height = some display)
    (hsome : ¬ ((c.remoded display).rows = 0 ∨ (c.remoded display).cols = 0)) :
    ∃ c', setResolution width height c = some (true, c') ∧
      c'.held = ((c.remoded display).setTty c.activeIndex
        ((c.ttys c.activeIndex).clamped (c.remoded display).contentRows
          (c.remoded display).cols)).held := by
  obtain ⟨hrows, hcols⟩ := not_or.mp hsome
  obtain ⟨g, hfits⟩ := hc.remoded hrows hcols
  obtain ⟨c', hrun, hheld⟩ := applyGeometry_held hfits
  refine ⟨c', ?_, hheld⟩
  unfold setResolution
  rw [bind_some (show state c = some (c, c) from rfl), h]
  show (if (c.remoded display).rows = 0 ∨ (c.remoded display).cols = 0 then
    _ else applyGeometry >>= fun _ => pure true : Act Bool)
    (c.remoded display) = _
  rw [if_neg hsome]
  exact bind_some hrun

theorem cursorIn_of_held (h : c'.held = c.held) (t : Nat) :
    c'.CursorIn (c'.ttys t) ↔ c.CursorIn (c.ttys t) := by
  simp only [Console.held, Prod.mk.injEq] at h
  obtain ⟨hrows, hcols, -, httys⟩ := h
  have htty := congrFun httys t
  have hrow : (c'.ttys t).cursorRow = (c.ttys t).cursorRow :=
    (congrArg Terminal.cursorRow htty :)
  have hcol : (c'.ttys t).cursorCol = (c.ttys t).cursorCol :=
    (congrArg Terminal.cursorCol htty :)
  unfold Console.CursorIn Console.contentRows
  rw [hrows, hcols, hrow, hcol]

/-- A change of the resolution is atomic and complete where it is refused,
or finds the cursors of all terminals that are not shown on the new
screen. -/
theorem setResolution_atomic_iff (hc : c.Bounded) :
    c.Atomic width height ↔ c.Resizes width height := by
  cases hmode : c.display.modeSet width height with
  | none =>
    have hrun := setResolution_refused hmode
    constructor
    · intro _ display hsome
      rw [hmode] at hsome
      cases hsome
    · intro _
      exact ⟨false, c, hrun, (fun hyes => nomatch hyes),
        fun _ => ⟨rfl, rfl, rfl, rfl⟩⟩
  | some display =>
    have hdisplay : ∀ d, c.display.modeSet width height = some d →
        d = display := fun d hd => Option.some.inj (hd.symm.trans hmode)
    by_cases hnone : (c.remoded display).rows = 0 ∨
        (c.remoded display).cols = 0
    · have hrun := setResolution_empty hmode hnone
      constructor
      · intro hatomic d hd
        obtain ⟨answer, c', hrun', -, hno⟩ := hatomic
        rw [hrun] at hrun'
        cases hrun'
        obtain ⟨hrows, hcols, hsame, -⟩ := hno rfl
        rw [hdisplay d hd, if_pos hnone]
        exact ⟨hrows, hcols, hsame⟩
      · intro hsame
        have hkept := hsame display hmode
        rw [if_pos hnone] at hkept
        obtain ⟨hrows, hcols, hsame⟩ := hkept
        exact ⟨false, _, hrun, (fun hyes => nomatch hyes),
          fun _ => ⟨hrows, hcols, hsame, rfl⟩⟩
    · obtain ⟨c', hrun, hheld⟩ := setResolution_granted hc hmode hnone
      have hother : ∀ t, t ≠ c.activeIndex →
          (c'.CursorIn (c'.ttys t) ↔
            (c.remoded display).CursorIn (c.ttys t)) := by
        intro t ht
        rw [cursorIn_of_held hheld]
        show Console.CursorIn _ (Function.update c.ttys _ _ t) ↔ _
        rw [Function.update_of_ne ht]
        rfl
      have hactive : c'.CursorIn (c'.ttys c.activeIndex) := by
        rw [cursorIn_of_held hheld]
        show Console.CursorIn _ (Function.update c.ttys _ _ c.activeIndex)
        rw [Function.update_self]
        obtain ⟨hrows, hcols⟩ := not_or.mp hnone
        obtain ⟨g, hfits⟩ := hc.remoded hrows hcols
        exact ⟨clampTo_lt hfits.contentRows_pos,
          clampTo_lt (Nat.pos_of_ne_zero hcols)⟩
      constructor
      · intro hatomic d hd
        obtain ⟨answer, c₁, hrun', hyes, -⟩ := hatomic
        rw [hrun] at hrun'
        cases hrun'
        rw [hdisplay d hd, if_neg hnone]
        exact fun t ht hne => (hother t hne).mp (hyes rfl t ht)
      · intro hin
        have hcursors := hin display hmode
        rw [if_neg hnone] at hcursors
        refine ⟨true, c', hrun, fun _ t ht => ?_, (fun hno => nomatch hno)⟩
        by_cases hne : t = c.activeIndex
        · rw [hne]
          exact hactive
        · exact (hother t hne).mpr (hcursors t ht hne)

/-- A console of twelve rows, behind six lines written to terminal 2. -/
def sixLines : List Op :=
  [.outside true ⟨8, 8⟩ ⟨true, 64, 96, 64, 96⟩, .init,
    .write 2 [0x0A, 0x0A, 0x0A, 0x0A, 0x0A, 0x0A]]

/-- Calls one after the other. -/
def Console.steps (c : Console) : List Op → Option Console
  | [] => some c
  | op :: ops => (c.step op).bind fun c' => c'.steps ops

/-- No call changes the resolution. -/
def Fixed (ops : List Op) : Prop := ∀ op ∈ ops, ∀ c : Console, c.Leaves op

theorem Reachable.steps {ops : List Op} (h : Reachable c) (hfixed : Fixed ops)
    (hsteps : c.steps ops = some c') : Reachable c' := by
  induction ops generalizing c with
  | nil =>
    cases hsteps
    exact h
  | cons op ops ih =>
    obtain ⟨c1, hstep, hrest⟩ := Option.bind_eq_some_iff.mp hsteps
    refine ih (.step h (hfixed op List.mem_cons_self c) hstep) ?_ hrest
    exact fun op' hop => hfixed op' (List.mem_cons_of_mem _ hop)

theorem sixLines_fixed : Fixed sixLines := by
  intro op hop c
  simp only [sixLines, List.mem_cons, List.not_mem_nil, or_false] at hop
  rcases hop with rfl | rfl | rfl
  all_goals trivial

/-- The screen becomes six rows high. The answer is yes, and the cursor of
terminal 2, which is not shown, is below them. -/
theorem setResolution_below : ∃ c, Reachable c ∧ c.isReady = true ∧
    ¬ c.Atomic 64 48 := by
  have hrun : (boot.steps sixLines).any (fun c => c.isReady &&
      (setResolution 64 48 c).any fun r => r.1 &&
        decide (r.2.contentRows ≤ (r.2.ttys 2).cursorRow)) = true := by
    decide +kernel
  obtain ⟨c, hsteps, hc⟩ := (Option.any_eq_true ..).mp hrun
  rw [Bool.and_eq_true] at hc
  obtain ⟨hready, hset⟩ := hc
  refine ⟨c, Reachable.boot.steps sixLines_fixed hsteps, hready, ?_⟩
  intro hatomic
  obtain ⟨answer, c', hgranted, hyes, -⟩ := hatomic
  obtain ⟨r, hsome, hr⟩ := (Option.any_eq_true ..).mp hset
  rw [hgranted] at hsome
  cases hsome
  rw [Bool.and_eq_true, decide_eq_true_eq] at hr
  obtain ⟨htrue, hbelow⟩ := hr
  exact absurd (hyes htrue 2 (by decide)).1 (Nat.not_lt.mpr hbelow)

/-- The size that there is is asked for. -/
theorem setResolution_atomic_same : ∃ c, Reachable c ∧ c.isReady = true ∧
    (c.Atomic 64 96 ↔ c.Resizes 64 96) := by
  have hrun : (boot.steps sixLines).any (fun c => c.isReady) = true := by
    decide +kernel
  obtain ⟨c, hsteps, hready⟩ := (Option.any_eq_true ..).mp hrun
  have hreach := Reachable.boot.steps sixLines_fixed hsteps
  exact ⟨c, hreach, hready, setResolution_atomic_iff hreach.sound.bounded⟩

end Clks.Tty
