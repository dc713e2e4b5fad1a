/-
The lines that leave the screen.

A terminal keeps them in a ring (`Ring`), of which the head is the slot that
is written next: while there is room the lines are in the slots from the first
on, and behind that from the head on. So it is a ring buffer (`Ring.buffer`),
and a line that is pushed takes the place of the oldest one.
-/
import Clks.Lib.RingBuf
import Clks.Tty.Passing

namespace Clks.Tty

open Guarded

variable {α : Type} {t : Nat} {c c' : Console}

-- ==== the ring

/-- The cells of a line. -/
abbrev Line := List Cell

namespace Ring

/-- The rings that pushes lead to. -/
structure Valid (r : Ring) : Prop where
  head_lt : r.head < scrollbackLines
  count_le : r.count ≤ scrollbackLines
  head_eq : r.count < scrollbackLines → r.head = r.count

/-- The slot of a line. -/
def slot (r : Ring) (i : Nat) : Nat :=
  if r.count < scrollbackLines then i
  else add32 r.head i % scrollbackLines

/-- The lines, the oldest one first. -/
def toLines (cols : Nat) (r : Ring) : List Line :=
  (List.range r.count).map fun i => (List.range cols).map (r.lines (r.slot i))

/-- A row is put into the slot at the head. -/
def push (r : Ring) (row : Nat → Cell) : Ring where
  lines := Function.update r.lines r.head row
  head := add32 r.head 1 % scrollbackLines
  count := if r.count < scrollbackLines then r.count + 1 else r.count

variable {r : Ring}

/-- The ring as one with its first line at the head. -/
def buffer (r : Ring) (h : r.Valid) : RingBuf (Nat → Cell) scrollbackLines where
  buf := r.lines
  head := if r.count < scrollbackLines then 0 else r.head
  tail := r.head
  count := r.count
  head_lt := by
    split
    · decide
    · exact h.head_lt
  count_le := h.count_le
  tail_eq := by
    split
    · next hlt => rw [Nat.zero_add, ← h.head_eq hlt, Nat.mod_eq_of_lt h.head_lt]
    · next hlt =>
      rw [Nat.le_antisymm h.count_le (Nat.not_lt.mp hlt), Nat.add_mod_right,
        Nat.mod_eq_of_lt h.head_lt]

theorem add32_eq {i j : Nat} (hi : i < scrollbackLines) (hj : j < scrollbackLines) :
    add32 i j = i + j := by
  have hcap : scrollbackLines = 256 := rfl
  exact Nat.mod_eq_of_lt (by omega)

theorem slot_eq (h : r.Valid) {i : Nat} (hi : i < r.count) :
    r.slot i = ((r.buffer h).head + i) % scrollbackLines := by
  have hlt : i < scrollbackLines := Nat.lt_of_lt_of_le hi h.count_le
  have hhead : (r.buffer h).head = if r.count < scrollbackLines then 0 else r.head := rfl
  unfold slot
  rw [hhead]
  split
  · rw [Nat.zero_add, Nat.mod_eq_of_lt hlt]
  · rw [add32_eq h.head_lt hlt]

theorem toLines_eq (h : r.Valid) (cols : Nat) :
    r.toLines cols = (r.buffer h).toList.map fun row => (List.range cols).map row := by
  unfold toLines RingBuf.toList
  rw [List.map_map]
  refine List.map_congr_left fun i hi => ?_
  rw [slot_eq h (List.mem_range.mp hi)]
  rfl

theorem Valid.empty (lines : Nat → Nat → Cell) : (⟨lines, 0, 0⟩ : Ring).Valid where
  head_lt := Nat.zero_lt_succ 255
  count_le := Nat.zero_le _
  head_eq _ := rfl

theorem Valid.push (h : r.Valid) (row : Nat → Cell) : (r.push row).Valid where
  head_lt := Nat.mod_lt _ (by decide)
  count_le := by
    have hle := h.count_le
    unfold Ring.push
    dsimp only
    split <;> omega
  head_eq := by
    have hcap : scrollbackLines = 256 := rfl
    unfold Ring.push
    dsimp only
    split
    · next hlt =>
      intro hlt'
      rw [h.head_eq hlt, add32_eq hlt (by decide), Nat.mod_eq_of_lt hlt']
    · next hlt => exact fun hlt' => absurd hlt' hlt

theorem buffer_push (h : r.Valid) (row : Nat → Cell) :
    (r.push row).buffer (h.push row) = (r.buffer h).push row := by
  have hcap : scrollbackLines = 256 := rfl
  have hcount := h.count_le
  have hnext : add32 r.head 1 % scrollbackLines = (r.head + 1) % scrollbackLines := by
    rw [add32_eq h.head_lt (by decide)]
  refine RingBuf.eq_of_fields ?_ ?_ ?_ ?_
  · rw [RingBuf.push_buf]
    rfl
  · rw [RingBuf.push_head]
    show (if (r.push row).count < scrollbackLines then 0 else (r.push row).head)
      = if r.count < scrollbackLines then (if r.count < scrollbackLines then 0 else r.head)
        else ((if r.count < scrollbackLines then 0 else r.head) + 1) % scrollbackLines
    unfold push
    dsimp only
    rw [hnext]
    by_cases hlt : r.count < scrollbackLines
    · rw [if_pos hlt, if_pos hlt, if_pos hlt, h.head_eq hlt]
      split
      · rfl
      · have hfull : r.count + 1 = scrollbackLines := by omega
        rw [hfull, Nat.mod_self]
    · rw [if_neg hlt, if_neg hlt, if_neg hlt, if_neg hlt]
  · rw [RingBuf.push_tail]
    exact hnext
  · rw [RingBuf.push_count]
    rfl

theorem toLines_push (h : r.Valid) (cols : Nat) (row : Nat → Cell) :
    (r.push row).toLines cols
      = (r.toLines cols ++ [(List.range cols).map row]).rtake scrollbackLines := by
  rw [toLines_eq (h.push row), buffer_push, RingBuf.toList_push_rtake, toLines_eq h]
  unfold List.rtake
  rw [List.map_drop, List.map_append, List.map_singleton, List.length_append,
    List.length_append, List.length_map]
  rfl

end Ring

-- ==== the scrollback

/-- The scrollback of a terminal. -/
def Console.ring (t : Nat) (c : Console) : Ring := (c.ttys t).ring

/-- The lines in it, the oldest one first, as wide as the screen. -/
def Console.history (t : Nat) (c : Console) : List Line :=
  (c.ring t).toLines c.cols

/-- The top row of a terminal's screen. -/
def Console.topLine (t : Nat) (c : Console) : Line :=
  (List.range c.cols).map ((c.ttys t).cells 0)

/-- The width, and the scrollback. -/
def Console.rolled (t : Nat) (c : Console) : Nat × Ring := (c.cols, c.ring t)

abbrev KeepsRing (t : Nat) (m : Act α) : Prop := Saves (Console.rolled t) m

theorem Quiet.ring {m : Act α} (h : Quiet t m) : KeepsRing t m :=
  Saves.comp h fun (cols, _, ring) => (cols, ring)

theorem ring_modifyTty {f : Terminal → Terminal} (u : Nat)
    (hf : ∀ y, (f y).ring = y.ring) : KeepsRing t (modifyTty u f) :=
  saves_modifyTty u hf

theorem ring_other {u : Nat} (hu : u ≠ t) (f : Terminal → Terminal) :
    KeepsRing t (modifyTty u f) := by
  refine .bind .check fun _ => .update fun c => ?_
  show (c.cols, (Function.update c.ttys u (f (c.ttys u)) t).ring) = _
  rw [Function.update_of_ne (Ne.symm hu)]
  rfl

-- ==== scrolling

/-- A row that is stored goes over the slot at the head, as wide as the screen. -/
def Console.stored (t row stop : Nat) (c : Console) (col : Nat) : Cell :=
  if col < stop then (c.ttys t).cells row col
  else (c.ttys t).scrollback (c.ttys t).scrollbackHead col

/-- What `clks_tty_scrollback_push_row` has done when it comes to a column. -/
structure Storing (t row stop : Nat) (c s : Console) : Prop where
  cols : s.cols = c.cols
  cells : (s.ttys t).cells = (c.ttys t).cells
  head : (s.ttys t).scrollbackHead = (c.ttys t).scrollbackHead
  count : (s.ttys t).scrollbackCount = (c.ttys t).scrollbackCount
  lines : (s.ttys t).scrollback
    = Function.update (c.ttys t).scrollback (c.ttys t).scrollbackHead
        (c.stored t row stop)

theorem Storing.start (t row : Nat) (c : Console) : Storing t row 0 c c where
  cols := rfl
  cells := rfl
  head := rfl
  count := rfl
  lines := by
    have hsame : c.stored t row 0
        = (c.ttys t).scrollback (c.ttys t).scrollbackHead := by
      funext col
      exact if_neg (Nat.not_lt_zero col)
    rw [hsame, Function.update_eq_self]

theorem Storing.cell {row col : Nat} {s : Console} (h : Storing t row col c s) :
    Storing t row (col + 1) c (s.setTty t { s.ttys t with
      scrollback := Function.update (s.ttys t).scrollback (c.ttys t).scrollbackHead
        (Function.update ((s.ttys t).scrollback (c.ttys t).scrollbackHead) col
          ((s.ttys t).cells row col)) }) where
  cols := h.cols
  cells := by
    rw [setTty_self]
    exact h.cells
  head := by
    rw [setTty_self]
    exact h.head
  count := by
    rw [setTty_self]
    exact h.count
  lines := by
    rw [setTty_self]
    dsimp only
    rw [h.lines, h.cells, Function.update_idem, Function.update_self]
    congr 1
    funext i
    unfold Console.stored
    by_cases hi : i = col
    · rw [hi, Function.update_self, if_pos (Nat.lt_succ_self col)]
    · rw [Function.update_of_ne hi]
      by_cases hlt : i < col
      · rw [if_pos hlt, if_pos (Nat.lt_succ_of_lt hlt)]
      · rw [if_neg hlt, if_neg (by omega)]

theorem scrollbackPushRow_run {row : Nat} {a : Unit}
    (h : scrollbackPushRow t row c = some (a, c')) :
    c'.cols = c.cols ∧ c'.ring t = (c.ring t).push (c.stored t row c.cols) := by
  obtain ⟨cols, c1, hview, h⟩ := bind_some_inv h
  cases hview
  obtain ⟨y, c2, hterminal, h⟩ := bind_some_inv h
  obtain ⟨-, hview⟩ := check_bind_inv hterminal
  cases hview
  obtain ⟨_, c3, hloop, h⟩ := bind_some_inv h
  have hstored : Storing t row c.cols c c3 := by
    refine @Yields.forRange _ (fun j s => Storing t row j c s) _ 0 c.cols
      (Nat.zero_le _) ?_ c _ c3 (.start t row c) hloop
    intro j _ _ s a s' hs hrun
    obtain ⟨cell, s1, hcell, hrun⟩ := bind_some_inv hrun
    obtain ⟨-, hview⟩ := check_bind_inv hcell
    cases hview
    obtain ⟨-, hset⟩ := check_bind_inv hrun
    rw [modifyTty_run hset]
    exact hs.cell
  rw [modifyTty_run h]
  refine ⟨hstored.cols, ?_⟩
  unfold Console.ring Ring.push
  rw [setTty_self]
  unfold Terminal.ring
  dsimp only
  rw [hstored.lines, hstored.count]

theorem scrollUp_run {a : Unit} (h : scrollUp t c = some (a, c')) :
    c'.cols = c.cols ∧ c'.ring t = (c.ring t).push (c.stored t 0 c.cols) := by
  obtain ⟨c0, c1, hstate, h⟩ := bind_some_inv h
  cases hstate
  obtain ⟨_, c2, hscale, h⟩ := bind_some_inv h
  obtain ⟨_, c3, hpush, h⟩ := bind_some_inv h
  have hrest : KeepsRing t (do
      forRange 1 c.contentRows fun row =>
        forRange 0 c.cols fun col => do
          let cell ← cellAt t row col
          setCell t (row - 1) col cell
      fillRow t (pred32 c.contentRows) 0x20
      when (t = c.activeIndex) (drawScrolled t)) := by
    refine .bind (.forRange fun row => .forRange fun col => ?_) fun _ => ?_
    · refine .bind (drawing_cellAt _ _ _).quiet.ring fun cell => ?_
      exact (quiet_setCell _ _ _ _).ring
    · refine .bind (quiet_fillRow _ _ _).ring fun _ => ?_
      exact .when (drawing_drawScrolled t).quiet.ring
  have hbehind : (c'.cols, c'.ring t) = (c3.cols, c3.ring t) := hrest _ _ _ h
  obtain ⟨hcols, hring⟩ := Prod.mk.inj hbehind
  obtain ⟨hcols', hring'⟩ := scrollbackPushRow_run hpush
  have hc2 := modifyTty_run hscale
  have hsame : c2.ring t = c.ring t := by
    rw [hc2]
    unfold Console.ring
    rw [setTty_self]
    rfl
  have hstored : c2.stored t 0 c2.cols = c.stored t 0 c.cols := by
    rw [hc2]
    unfold Console.stored
    rw [setTty_self]
    rfl
  rw [hsame, hstored] at hring'
  refine ⟨hcols.trans (hcols'.trans ?_), hring.trans hring'⟩
  rw [hc2]
  rfl

theorem ring_scrollUp_other {u : Nat} (hu : u ≠ t) : KeepsRing t (scrollUp u) := by
  refine .bind .state fun c => .bind (ring_other hu _) fun _ => ?_
  refine .bind (.bind (.view _) fun cols => ?_) fun _ => ?_
  · refine .bind (drawing_terminal u).quiet.ring fun y => .bind (.forRange fun col => ?_)
      fun _ => ring_other hu _
    refine .bind (drawing_cellAt _ _ _).quiet.ring fun cell => ?_
    exact .bind .check fun _ => ring_other hu _
  · refine .bind (.forRange fun row => .forRange fun col => ?_) fun _ => ?_
    · refine .bind (drawing_cellAt _ _ _).quiet.ring fun cell => ?_
      exact (quiet_setCell _ _ _ _).ring
    · refine .bind (quiet_fillRow _ _ _).ring fun _ => ?_
      exact .when (drawing_drawScrolled u).quiet.ring

theorem scrollUp_history {a : Unit} (hvalid : (c.ring t).Valid)
    (h : scrollUp t c = some (a, c')) :
    c'.history t = (c.history t ++ [c.topLine t]).rtake scrollbackLines := by
  obtain ⟨hcols, hring⟩ := scrollUp_run h
  have htop : (List.range c.cols).map (c.stored t 0 c.cols) = c.topLine t :=
    List.map_congr_left fun col hcol => if_pos (List.mem_range.mp hcol)
  unfold Console.history
  rw [hcols, hring, Ring.toLines_push hvalid, htop]

-- ==== the logs

/-- What happens to the scrollback. -/
inductive Event
  | scrolled (line : Line)
  | cleared

/-- The lines behind it, where nothing is too much. -/
def Event.after (lines : List Line) : Event → List Line
  | .scrolled line => lines ++ [line]
  | .cleared => []

/-- The lines that left the screen since the scrollback was last cleared. -/
def since (lines : List Line) (events : List Event) : List Line :=
  events.foldl Event.after lines

/-- A run of a command, and what it does to the scrollback of a terminal:
every call of `clks_tty_scroll_up` lets the top row go, and an assignment may
empty the ring. -/
inductive Logs (t : Nat) :
    {α : Type} → Act α → Console → List Event → α → Console → Prop
  | quiet {α : Type} {m : Act α} {c c' : Console} {a : α} (hm : KeepsRing t m)
      (hrun : m c = some (a, c')) : Logs t m c [] a c'
  | scroll {c c' : Console} (hrun : scrollUp t c = some ((), c')) :
      Logs t (scrollUp t) c [.scrolled (c.topLine t)] () c'
  | clear {f : Terminal → Terminal} {c c' : Console}
      (hf : ∀ y : Terminal, y.Emptied (f y))
      (hrun : modifyTty t f c = some ((), c')) :
      Logs t (modifyTty t f) c [.cleared] () c'
  | bind {α β : Type} {m : Act α} {f : α → Act β} {c c₁ c' : Console} {a : α}
      {b : β} {events more : List Event} (hm : Logs t m c events a c₁)
      (hf : Logs t (f a) c₁ more b c') : Logs t (m >>= f) c (events ++ more) b c'

theorem Logs.run {m : Act α} {events : List Event} {a : α}
    (h : Logs t m c events a c') : m c = some (a, c') := by
  induction h with
  | quiet _ hrun => exact hrun
  | scroll hrun => exact hrun
  | clear _ hrun => exact hrun
  | bind _ _ ihm ihf => exact (bind_some ihm).trans ihf

theorem rtake_since (n : Nat) (lines : List Line) (events : List Event) :
    (since (lines.rtake n) events).rtake n = (since lines events).rtake n := by
  have hrtake (ls : List Line) : (ls.rtake n).rtake n = ls.rtake n := by
    have h := RingBuf.rtake_append_rtake n ls []
    rwa [List.append_nil, List.append_nil] at h
  have hconcat (ls : List Line) (events : List Event) (event : Event) :
      since ls (events ++ [event]) = event.after (since ls events) :=
    List.foldl_concat _ _ _ _
  induction events using List.reverseRecOn with
  | nil => exact hrtake lines
  | append_singleton events event ih =>
    rw [hconcat, hconcat]
    cases event with
    | cleared => rfl
    | scrolled line =>
      show (since _ events ++ [line]).rtake n = (since _ events ++ [line]).rtake n
      rw [← RingBuf.rtake_append_rtake, ih, RingBuf.rtake_append_rtake]

theorem length_history (c : Console) : (c.history t).length = (c.ring t).count := by
  unfold Console.history Ring.toLines
  rw [List.length_map, List.length_range]

theorem rtake_history (hvalid : (c.ring t).Valid) :
    (c.history t).rtake scrollbackLines = c.history t := by
  have hle := hvalid.count_le
  unfold List.rtake
  rw [length_history, Nat.sub_eq_zero_of_le hle, List.drop_zero]

theorem Logs.history {m : Act α} {events : List Event} {a : α}
    (h : Logs t m c events a c') (hvalid : (c.ring t).Valid) :
    (c'.ring t).Valid ∧
      c'.history t = (since (c.history t) events).rtake scrollbackLines := by
  induction h with
  | quiet hm hrun =>
    have hsame : (_, _) = (_, _) := hm _ _ _ hrun
    obtain ⟨hcols, hring⟩ := Prod.mk.inj hsame
    refine ⟨hring ▸ hvalid, ?_⟩
    unfold Console.history
    rw [hcols, hring]
    exact (rtake_history hvalid).symm
  | scroll hrun =>
    refine ⟨?_, scrollUp_history hvalid hrun⟩
    rw [(scrollUp_run hrun).2]
    exact hvalid.push _
  | @clear f c c' hf hrun =>
    have hring : c'.ring t = ⟨(c.ttys t).scrollback, 0, 0⟩ := by
      rw [modifyTty_run hrun]
      unfold Console.ring
      rw [setTty_self]
      exact (hf _).2
    have hnil : c'.history t = [] := by
      unfold Console.history
      rw [hring]
      rfl
    have hcleared : since (c.history t) [.cleared] = [] := rfl
    rw [hnil, hcleared, hring, List.rtake_nil]
    exact ⟨Ring.Valid.empty _, rfl⟩
  | @bind α β m f c c1 c' a b events more _ _ ihm ihf =>
    obtain ⟨hvalid1, hhistory1⟩ := ihm hvalid
    obtain ⟨hvalid', hhistory'⟩ := ihf hvalid1
    refine ⟨hvalid', ?_⟩
    have happend : since (c.history t) (events ++ more)
        = since (since (c.history t) events) more := List.foldl_append
    rw [hhistory', hhistory1, rtake_since, happend]

/-- The console's functions have their logs. -/
def Logged (t : Nat) (α : Type) (m : Act α) : Prop :=
  ∀ c a c', m c = some (a, c') → ∃ events, Logs t m c events a c'

theorem KeepsRing.logged {m : Act α} (h : KeepsRing t m) : Logged t α m :=
  fun _ _ _ hrun => ⟨[], .quiet h hrun⟩

theorem printing_logged (t : Nat) : Printing t (Logged t) where
  closed := by
    refine ⟨fun a => KeepsRing.logged (.pure a), fun hm hf c b c' hrun => ?_⟩
    obtain ⟨a, c1, hfirst, hrest⟩ := bind_some_inv hrun
    obtain ⟨events, hevents⟩ := hm c a c1 hfirst
    obtain ⟨more, hmore⟩ := hf a c1 b c' hrest
    exact ⟨events ++ more, hevents.bind hmore⟩
  quiet h := KeepsRing.logged h.ring
  scroll u := by
    by_cases hu : u = t
    · rw [hu]
      exact fun _ _ _ hrun => ⟨_, .scroll hrun⟩
    · exact KeepsRing.logged (ring_scrollUp_other hu)
  empty u f hf := by
    by_cases hu : u = t
    · rw [hu]
      exact fun _ _ _ hrun => ⟨_, .clear hf hrun⟩
    · exact KeepsRing.logged (ring_other hu f)

-- ==== the parser

theorem ring_resetAnsiState (u : Nat) : KeepsRing t (resetAnsiState u) := by
  refine .bind (ring_modifyTty u fun _ => rfl) fun _ => ?_
  exact .bind (quiet_setParam _ _ _).ring fun _ => ring_modifyTty u fun _ => rfl

theorem ring_ansiEscape (u : Nat) (ch : UInt8) : KeepsRing t (ansiEscape u ch) := by
  have hreset : KeepsRing t (resetAnsiState u) := ring_resetAnsiState u
  refine .ite (ring_modifyTty u fun _ => rfl) (.ite ?_ (.ite ?_ hreset))
  · exact .bind (ring_modifyTty u fun _ => rfl) fun _ => hreset
  · exact .bind .state fun c => .bind (ring_modifyTty u fun _ => rfl) fun _ => hreset

theorem ring_ansiCollect (u len : Nat) (ch : UInt8) :
    KeepsRing t (ansiCollect u len ch) := by
  refine .ite ?_ (ring_resetAnsiState u)
  refine .bind (quiet_setParam _ _ _).ring fun _ => ?_
  exact .bind (ring_modifyTty u fun _ => rfl) fun _ => (quiet_setParam _ _ _).ring

theorem logged_ansiProcessByte (u : Nat) (ch : UInt8) :
    Logged t Bool (ansiProcessByte u ch) := by
  have h := printing_logged t
  refine h.closed.bind (h.quiet (drawing_terminal u).quiet) fun y => ?_
  refine Closed.ite (KeepsRing.logged (.ite ?_ (.pure _))) (Closed.ite ?_ (Closed.ite ?_ ?_))
  · refine .bind (ring_modifyTty u fun _ => rfl) fun _ => ?_
    exact .bind (quiet_setParam _ _ _).ring fun _ => .pure _
  · exact KeepsRing.logged (.bind (ring_ansiEscape u ch) fun _ => .pure _)
  · exact KeepsRing.logged (.bind (ring_ansiCollect u _ ch) fun _ => .pure _)
  · refine h.closed.bind (h.quiet (drawing_paramsOf _ _ _).quiet) fun params => ?_
    refine h.closed.bind (h.ansiProcessCsiFinal u _ _) fun _ => ?_
    exact KeepsRing.logged (.bind (ring_resetAnsiState u) fun _ => .pure _)

theorem logged_utf8EmitByte (u : Nat) (byte : UInt8) :
    Logged t Unit (utf8EmitByte u byte) := by
  have h := printing_logged t
  rw [utf8EmitByte_eq]
  refine h.closed.bind (h.quiet (drawing_terminal u).quiet) fun y => ?_
  refine h.closed.bind (KeepsRing.logged (ring_modifyTty u fun _ => rfl)) fun _ => ?_
  exact h.pass u _

theorem logged_writeBytes (u : Nat) (text : List UInt8) :
    Logged t Unit (writeBytes u text) := by
  have h := printing_logged t
  induction text with
  | nil => exact h.closed.pure ()
  | cons byte rest ih =>
    refine h.closed.bind (h.closed.bind (logged_ansiProcessByte u byte) fun taken => ?_)
      fun _ => ih
    exact h.closed.when (logged_utf8EmitByte u byte)

-- ==== the calls

theorem logged_writeNInternal (u : Nat) (text : List UInt8) :
    Logged t Unit (writeNInternal u text) := by
  have h := printing_logged t
  refine h.closed.bind (h.quiet .state) fun c => h.closed.when ?_
  refine h.closed.bind (h.quiet (.view _)) fun active => ?_
  refine h.closed.bind (h.closed.when (h.quiet (quiet_beginShown _))) fun _ => ?_
  refine h.closed.bind (h.quiet (.update fun _ => rfl)) fun _ => ?_
  refine h.closed.bind (logged_writeBytes _ text) fun _ => ?_
  refine h.closed.bind (h.quiet (.update fun _ => rfl)) fun _ => ?_
  exact h.closed.when (h.quiet quiet_endShown)

/-- The calls that choose the size of the screen. -/
def Op.Sizes : Op → Prop
  | .init => True
  | .setResolution _ _ => True
  | _ => False

theorem Op.logged (t : Nat) {op : Op} (hop : ¬ op.Sizes) : Logged t Unit op.run := by
  have h := printing_logged t
  cases op with
  | init => exact absurd trivial hop
  | setResolution width height => exact absurd trivial hop
  | write u text => exact logged_writeNInternal u text
  | writeActive text =>
    exact h.closed.bind (h.quiet (.view _)) fun active => logged_writeNInternal active text
  | clear => exact h.clearActive
  | switch u => exact h.quiet (quiet_switch u)
  | tick n => exact h.quiet (drawing_tick n).quiet
  | pageUp => exact h.quiet quiet_scrollbackPageUp
  | pageDown => exact h.quiet quiet_scrollbackPageDown
  | key ch =>
    exact h.quiet (.bind (quiet_scrollbackHandleKey ch) fun _ => .pure ())
  | statusRefresh => exact h.quiet drawing_statusRefresh.quiet
  | outside fbReady font display => exact h.quiet (.update fun _ => rfl)

-- ==== the consoles that are reached

theorem ring_setResolution (width height : Nat) :
    Saves (Console.ring t) (setResolution width height) :=
  Saves.comp (kept_setResolution width height) Prod.snd

theorem clearTty_run {a : Unit} (h : clearTty t c = some (a, c')) :
    (c'.ring t).head = 0 ∧ (c'.ring t).count = 0 := by
  obtain ⟨contentRows, c1, hview, h⟩ := bind_some_inv h
  obtain ⟨_, c2, hfill, h⟩ := bind_some_inv h
  obtain ⟨_, c3, hempty, h⟩ := bind_some_inv h
  have hrest : KeepsRing t (do
      setQuery t 0 0
      modifyTty t fun y => { y with
        searchLen := 0
        searchEditing := false
        searchHasMatch := false
        searchNotFound := false
        searchMatchDoc := 0 }) :=
    .bind (quiet_setQuery _ _ _).ring fun _ => ring_modifyTty t fun _ => rfl
  have hsame : c'.ring t = c3.ring t := congrArg Prod.snd (hrest _ _ _ h)
  have hring : (c3.ring t).head = 0 ∧ (c3.ring t).count = 0 := by
    rw [modifyTty_run hempty]
    unfold Console.ring
    rw [setTty_self]
    exact ⟨rfl, rfl⟩
  rw [hsame]
  exact hring

theorem ring_initTty_other {u : Nat} (hu : u ≠ t) : KeepsRing t (initTty u) := by
  refine .bind (ring_other hu _) fun _ => .bind (ring_other hu _) fun _ => ?_
  refine .bind (ring_resetAnsiState u) fun _ => .bind (.view _) fun contentRows => ?_
  refine .bind (.forRange fun _ => (quiet_fillRow _ _ _).ring) fun _ => ?_
  refine .bind (ring_other hu _) fun _ => ?_
  exact .bind (quiet_setQuery _ _ _).ring fun _ => ring_other hu _

theorem init_ring {a : Unit} (ht : t < ttyCount) (h : init c = some (a, c')) :
    if c.Starts then (c'.ring t).head = 0 ∧ (c'.ring t).count = 0
    else c'.ring t = c.ring t := by
  rcases init_cases h with ⟨hstarts, httys⟩ | ⟨hstarts, b, c1, hloop, hkept⟩
  · rw [if_neg hstarts]
    unfold Console.ring
    rw [httys]
  · rw [if_pos hstarts]
    have hsame : c'.ring t = c1.ring t := congrArg (fun k => k.2.2) (hkept t)
    have hother (u : Nat) (hu : u ≠ t) :
        Saves (fun c => ((c.ring t).head, (c.ring t).count)) (initTty u) :=
      Saves.comp (ring_initTty_other hu) fun (_, ring) => (ring.head, ring.count)
    have hself (c : Console) (a : Unit) (c' : Console)
        (hrun : initTty t c = some (a, c')) :
        ((c'.ring t).head, (c'.ring t).count) = (0, 0) := by
      obtain ⟨_, c1, -, hrun⟩ := bind_some_inv hrun
      obtain ⟨_, c2, -, hrun⟩ := bind_some_inv hrun
      obtain ⟨_, c3, -, hrun⟩ := bind_some_inv hrun
      obtain ⟨hhead, hcount⟩ := clearTty_run hrun
      rw [hhead, hcount]
    rw [hsame]
    exact Prod.mk.inj (initLoop_run ht hother hself hloop)

theorem Reachable.valid (ht : t < ttyCount) (h : Reachable c) : (c.ring t).Valid := by
  induction h with
  | boot => exact .empty _
  | @step c c' op _ _ hstep ih =>
    have hrun := step_run hstep
    by_cases hop : op.Sizes
    · cases op with
      | init =>
        have hring := init_ring ht hrun
        split_ifs at hring
        · exact ⟨by rw [hring.1]; exact Nat.zero_lt_succ 255,
            by rw [hring.2]; exact Nat.zero_le _, fun _ => by rw [hring.1, hring.2]⟩
        · rw [hring]
          exact ih
      | setResolution width height =>
        have hring : Saves (Console.ring t) (Op.setResolution width height).run :=
          .bind (ring_setResolution width height) fun _ => .pure ()
        rw [hring _ _ _ hrun]
        exact ih
      | _ => exact hop.elim
    · obtain ⟨events, hlogs⟩ := Op.logged t hop _ _ _ hrun
      exact (hlogs.history ih).1

-- ==== the streams

/-- Calls at an unchanged resolution, and what they do to the scrollback. -/
inductive Stream (t : Nat) (c : Console) : List Event → Console → Prop
  | nil : Stream t c [] c
  | call {c₁ c' : Console} {op : Op} {events more : List Event}
      (h : Stream t c events c₁) (hop : ¬ op.Sizes)
      (hlogs : Logs t op.run c₁ more () c') : Stream t c (events ++ more) c'
  | resized {c₁ c' : Console} {width height : Nat} {events : List Event}
      (h : Stream t c events c₁) (hcols : c'.cols = c₁.cols)
      (hstep : c₁.step (.setResolution width height) = some c') :
      Stream t c events c'

theorem Stream.step {c1 : Console} {op : Op} {events : List Event}
    (h : Stream t c events c1) (hop : op ≠ .init) (hcols : c'.cols = c1.cols)
    (hstep : c1.step op = some c') : ∃ more, Stream t c (events ++ more) c' := by
  by_cases hsizes : op.Sizes
  · cases op with
    | init => exact absurd rfl hop
    | setResolution width height =>
      refine ⟨[], ?_⟩
      rw [List.append_nil]
      exact h.resized hcols hstep
    | _ => exact hsizes.elim
  · obtain ⟨more, hlogs⟩ := Op.logged t hsizes _ _ _ (step_run hstep)
    exact ⟨more, h.call hsizes hlogs⟩

theorem Stream.history {events : List Event} (h : Stream t c events c')
    (hvalid : (c.ring t).Valid) :
    (c'.ring t).Valid ∧
      c'.history t = (since (c.history t) events).rtake scrollbackLines := by
  induction h with
  | nil => exact ⟨hvalid, (rtake_history hvalid).symm⟩
  | @call c1 c' op events more _ _ hlogs ih =>
    obtain ⟨hvalid1, hhistory1⟩ := ih
    obtain ⟨hvalid', hhistory'⟩ := hlogs.history hvalid1
    have happend : since (c.history t) (events ++ more)
        = since (since (c.history t) events) more := List.foldl_append
    rw [hhistory', hhistory1, rtake_since, happend]
    exact ⟨hvalid', rfl⟩
  | @resized c1 c' width height events _ hcols hstep ih =>
    have hring : Saves (Console.ring t) (Op.setResolution width height).run :=
      .bind (ring_setResolution width height) fun _ => .pure ()
    have hsame : c'.history t = c1.history t := by
      unfold Console.history
      rw [hcols, hring _ _ _ (step_run hstep)]
    rw [hsame, hring _ _ _ (step_run hstep)]
    exact ih

theorem init_history (ht : t < ttyCount) (hstarts : c.Starts)
    (hstep : c.step .init = some c') : c'.history t = [] := by
  have hring := init_ring ht (step_run hstep)
  rw [if_pos hstarts] at hring
  rw [← List.length_eq_zero_iff, length_history, hring.2]

end Clks.Tty
