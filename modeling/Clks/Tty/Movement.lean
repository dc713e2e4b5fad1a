/-
The escape sequences that move the cursor by a number (tty/ansi.inc).

`Move.aim` is where a move by the integer that the digits denote ends:
on the row or column that many away, or on the edge of the screen. The
code reads the digits with the arithmetic of `u32`, and adds the number to
the position with it, so that a move ends there exactly if nothing wraps
around, or wraps around to something that is still behind the edge
(`Move.moves_iff`).
-/
import Clks.Tty.Safety

namespace Clks.Tty

open Guarded

-- ==== the moves

/-- The sequences with the final bytes A, B, C, D, E and F. -/
inductive Move
  | up
  | down
  | right
  | left
  | nextLine
  | previousLine
  deriving DecidableEq, Repr

namespace Move

/-- The final byte. -/
def final : Move → UInt8
  | up => 0x41
  | down => 0x42
  | right => 0x43
  | left => 0x44
  | nextLine => 0x45
  | previousLine => 0x46

/-- The sequence with some digits. -/
def sequence (m : Move) (digits : List UInt8) : List UInt8 :=
  0x1B :: 0x5B :: (digits ++ [m.final])

/-- The row and column of a cursor at `row` and `col` after a move by
`n`, of which zero means one. -/
def aim (m : Move) (row col rows cols n : Nat) : Nat × Nat :=
  match m with
  | up => (row - max 1 n, col)
  | down => (min (row + max 1 n) (rows - 1), col)
  | right => (row, min (col + max 1 n) (cols - 1))
  | left => (row, col - max 1 n)
  | nextLine => (min (row + max 1 n) (rows - 1), 0)
  | previousLine => (row - max 1 n, 0)

/-- A move back by `n` does not wrap around, or reaches the edge all the
same. -/
def Back (position n : Nat) : Prop :=
  n < 2 ^ 32 ∨ position ≤ max 1 (n % 2 ^ 32)

/-- A move on by `n` does not wrap around, or reaches the edge all the
same. -/
def On (position n count : Nat) : Prop :=
  n < 2 ^ 32 ∧ position + max 1 n < 2 ^ 32 ∨
    count - 1 ≤ (position + max 1 (n % 2 ^ 32)) % 2 ^ 32

/-- The one of the two that a move is. -/
def InRange (m : Move) (row col rows cols n : Nat) : Prop :=
  match m with
  | up => Back row n
  | down => On row n rows
  | right => On col n cols
  | left => Back col n
  | nextLine => On row n rows
  | previousLine => Back row n

end Move

/-- An ASCII digit. -/
def isDigit (ch : UInt8) : Prop := 0x30 ≤ ch ∧ ch ≤ 0x39

/-- The integer that digits denote. -/
def decimal (digits : List UInt8) : Nat :=
  digits.foldl (fun n ch => n * 10 + (ch - 0x30).toNat) 0

-- ==== the numbers

theorem parseNumbers_digits {digits : List UInt8}
    (h : ∀ ch ∈ digits, isDigit ch) (value : Nat) :
    parseNumbers (value % 2 ^ 32) true (digits ++ [0x3B])
      = [digits.foldl (fun n ch => n * 10 + (ch - 0x30).toNat) value
          % 2 ^ 32] := by
  induction digits generalizing value with
  | nil => rfl
  | cons ch digits ih =>
    have hch : 0x30 ≤ ch ∧ ch ≤ 0x39 := h ch List.mem_cons_self
    rw [List.cons_append, parseNumbers, if_pos hch, List.foldl_cons,
      ← ih fun d hd => h d (List.mem_cons_of_mem _ hd)]
    congr 1
    rw [Nat.add_mod, Nat.mul_mod, Nat.mod_mod, ← Nat.mul_mod, ← Nat.add_mod]

theorem ansiParseParams_digits {digits : List UInt8}
    (h : ∀ ch ∈ digits, isDigit ch) :
    ansiParseParams digits 16 = [decimal digits % 2 ^ 32] := by
  cases digits with
  | nil => rfl
  | cons ch digits =>
    have hch : 0x30 ≤ ch ∧ ch ≤ 0x39 := h ch List.mem_cons_self
    unfold ansiParseParams
    rw [if_neg (List.cons_ne_nil _ _), List.cons_append, parseNumbers,
      if_pos hch,
      parseNumbers_digits fun d hd => h d (List.mem_cons_of_mem _ hd)]
    rfl

theorem ansiParamOrDefault_one (n : Nat) :
    ansiParamOrDefault [n] 0 1 = max 1 n := by
  unfold ansiParamOrDefault
  show (if n = 0 then 1 else n) = max 1 n
  split
  · next hn => rw [hn]; rfl
  · omega

-- ==== the positions

section positions

variable {position n count : Nat}

theorem moveBack_eq (position n : Nat) :
    moveBack position n = position - n := by
  unfold moveBack
  split <;> omega

theorem Move.moveBack_iff (hp : position < 2 ^ 32) :
    moveBack position (max 1 (n % 2 ^ 32)) = position - max 1 n ↔
      Back position n := by
  rw [moveBack_eq]
  unfold Back
  by_cases hn : n < 2 ^ 32
  · rw [Nat.mod_eq_of_lt hn]
    exact ⟨fun _ => .inl hn, fun _ => rfl⟩
  · omega

theorem moveOn_eq (hpos : 0 < count) (position n : Nat) :
    moveOn position n count
      = min ((position + n) % 2 ^ 32) (count - 1) := by
  have hlast : pred32 count = count - 1 := if_neg (by omega)
  unfold moveOn add32
  rw [hlast]
  split <;> omega

theorem Move.moveOn_iff (hpos : 0 < count) (hcount : count ≤ 2 ^ 32) :
    moveOn position (max 1 (n % 2 ^ 32)) count
        = min (position + max 1 n) (count - 1) ↔
      On position n count := by
  rw [moveOn_eq hpos]
  unfold On
  by_cases hn : n < 2 ^ 32
  · rw [Nat.mod_eq_of_lt hn]
    by_cases hsum : position + max 1 n < 2 ^ 32
    · rw [Nat.mod_eq_of_lt hsum]
      exact ⟨fun _ => .inl ⟨hn, hsum⟩, fun _ => rfl⟩
    · have hedge : min (position + max 1 n) (count - 1) = count - 1 :=
        Nat.min_eq_right (by omega)
      rw [hedge, min_eq_right_iff]
      exact ⟨.inr, fun h => h.resolve_left fun hin => hsum hin.2⟩
  · have hedge : min (position + max 1 n) (count - 1) = count - 1 :=
      Nat.min_eq_right (by omega)
    rw [hedge, min_eq_right_iff]
    exact ⟨.inr, fun h => h.resolve_left fun hin => hn hin.1⟩

end positions

theorem Move.csiFinal_cursor (m : Move) (y : Terminal) (rows cols : Nat)
    (n : Nat) :
    ((y.csiFinal rows cols [n] (Char.ofUInt8 m.final)).cursorRow,
        (y.csiFinal rows cols [n] (Char.ofUInt8 m.final)).cursorCol)
      = match m with
        | up => (moveBack y.cursorRow (max 1 n), y.cursorCol)
        | down => (moveOn y.cursorRow (max 1 n) rows, y.cursorCol)
        | right => (y.cursorRow, moveOn y.cursorCol (max 1 n) cols)
        | left => (y.cursorRow, moveBack y.cursorCol (max 1 n))
        | nextLine => (moveOn y.cursorRow (max 1 n) rows, 0)
        | previousLine => (moveBack y.cursorRow (max 1 n), 0) := by
  rw [← ansiParamOrDefault_one]
  cases m <;> rfl

theorem Move.csiFinal_iff (m : Move) {y : Terminal} {rows cols : Nat} (n : Nat)
    (hrow : y.cursorRow < 2 ^ 32) (hcol : y.cursorCol < 2 ^ 32)
    (hrows : 0 < rows ∧ rows ≤ 2 ^ 32) (hcols : 0 < cols ∧ cols ≤ 2 ^ 32) :
    ((y.csiFinal rows cols [n % 2 ^ 32] (Char.ofUInt8 m.final)).cursorRow,
        (y.csiFinal rows cols [n % 2 ^ 32] (Char.ofUInt8 m.final)).cursorCol)
        = m.aim y.cursorRow y.cursorCol rows cols n ↔
      m.InRange y.cursorRow y.cursorCol rows cols n := by
  rw [csiFinal_cursor]
  cases m with
  | up => simp only [aim, InRange, Prod.mk.injEq, moveBack_iff hrow, and_true]
  | down =>
    simp only [aim, InRange, Prod.mk.injEq, moveOn_iff hrows.1 hrows.2,
      and_true]
  | right =>
    simp only [aim, InRange, Prod.mk.injEq, moveOn_iff hcols.1 hcols.2,
      true_and]
  | left =>
    simp only [aim, InRange, Prod.mk.injEq, moveBack_iff hcol, true_and]
  | nextLine =>
    simp only [aim, InRange, Prod.mk.injEq, moveOn_iff hrows.1 hrows.2,
      and_true]
  | previousLine =>
    simp only [aim, InRange, Prod.mk.injEq, moveBack_iff hrow, and_true]

-- ==== the run

section run

variable {g : Geometry} {c c' : Console} {t : Nat} {y : Terminal}
  {row col : Nat} {digits : List UInt8} {ch : UInt8}

/-- A terminal with another byte of the escape parameters. -/
def Terminal.putParam (y : Terminal) (i : Nat) (ch : UInt8) : Terminal :=
  { y with
    ansi := { y.ansi with params := Function.update y.ansi.params i ch } }

theorem setParam_apply (ht : t < ttyCount) {i : Nat} (hi : i ≤ ansiMaxLen)
    (ch : UInt8) (c : Console) :
    setParam t i ch c = some ((), c.setTty t ((c.ttys t).putParam i ch)) := by
  unfold setParam
  rw [check_pos (by omega), bind_some rfl]
  exact modifyTty_apply ht

theorem writeByte_taken (h : ansiProcessByte t ch c = some (true, c')) :
    writeByte t ch c = some ((), c') := by
  unfold writeByte
  rw [bind_some h]
  rfl

/-- A terminal behind an escape. -/
def Terminal.openEscape (y : Terminal) : Terminal := { y with
  ansi := { y.ansi with inEscape := true, sawCsi := false, len := 0 } }

/-- A terminal behind an escape and a bracket. -/
def Terminal.openCsi (y : Terminal) : Terminal :=
  { y with ansi := { y.ansi with sawCsi := true } }

theorem writeByte_escape (ht : t < ttyCount)
    (hidle : (c.ttys t).ansi.inEscape = false) :
    writeByte t 0x1B c
      = some ((), c.setTty t ((c.ttys t).openEscape.putParam 0 0)) := by
  refine writeByte_taken ?_
  unfold ansiProcessByte
  rw [bind_some (terminal_apply ht c), if_pos hidle, if_pos rfl,
    bind_some (modifyTty_apply ht),
    bind_some (setParam_apply ht (Nat.zero_le _) ..), setTty_self,
    setTty_setTty]
  rfl

theorem writeByte_bracket (ht : t < ttyCount)
    (hopen : (c.ttys t).ansi.inEscape = true)
    (hsaw : (c.ttys t).ansi.sawCsi = false) :
    writeByte t 0x5B c = some ((), c.setTty t (c.ttys t).openCsi) := by
  refine writeByte_taken ?_
  unfold ansiProcessByte
  rw [bind_some (terminal_apply ht c), if_neg (by simp [hopen]), if_pos hsaw]
  unfold ansiEscape
  rw [if_pos rfl, bind_some (modifyTty_apply ht)]
  rfl

/-- The parser has read the digits of a sequence, and the cursor is at
`row` and `col`. -/
structure Terminal.Reading (row col : Nat) (digits : List UInt8)
    (y : Terminal) : Prop where
  cursorRow : y.cursorRow = row
  cursorCol : y.cursorCol = col
  inEscape : y.ansi.inEscape = true
  sawCsi : y.ansi.sawCsi = true
  len : y.ansi.len = digits.length
  params : (List.range digits.length).map y.ansi.params = digits

theorem writeBytes_start (ht : t < ttyCount)
    (hidle : (c.ttys t).ansi.inEscape = false) (rest : List UInt8) :
    ∃ y, y.Reading (c.ttys t).cursorRow (c.ttys t).cursorCol [] ∧
      writeBytes t (0x1B :: 0x5B :: rest) c
        = writeBytes t rest (c.setTty t y) := by
  refine ⟨((c.ttys t).openEscape.putParam 0 0).openCsi,
    ⟨rfl, rfl, rfl, rfl, rfl, rfl⟩, ?_⟩
  have hbracket := @writeByte_bracket
    (c.setTty t ((c.ttys t).openEscape.putParam 0 0)) t ht
  rw [setTty_self, setTty_setTty] at hbracket
  show (writeByte t 0x1B >>= fun _ => writeByte t 0x5B >>= fun _ =>
    writeBytes t rest) c = _
  rw [bind_some (writeByte_escape ht hidle), bind_some (hbracket rfl rfl)]

/-- A terminal with one more byte of the escape parameters. -/
def Terminal.collect (y : Terminal) (len : Nat) (ch : UInt8) : Terminal :=
  { y.putParam len ch with
    ansi := { (y.putParam len ch).ansi with len := len + 1 } }

theorem ansiCollect_apply (ht : t < ttyCount) {len : Nat}
    (hlen : len < ansiMaxLen) (ch : UInt8) (c : Console) :
    ansiCollect t len ch c = some ((),
      c.setTty t (((c.ttys t).collect len ch).putParam (len + 1) 0)) := by
  unfold ansiCollect
  rw [if_pos hlen, bind_some (setParam_apply ht (Nat.le_of_lt hlen) ..),
    bind_some (modifyTty_apply ht), setParam_apply ht hlen, setTty_self,
    setTty_setTty, setTty_self, setTty_setTty]
  rfl

theorem writeByte_digit (ht : t < ttyCount) (hch : isDigit ch)
    (h : (c.ttys t).Reading row col digits)
    (hlen : digits.length < ansiMaxLen) :
    ∃ y, y.Reading row col (digits ++ [ch]) ∧
      writeByte t ch c = some ((), c.setTty t y) := by
  obtain ⟨hrow, hcol, hopen, hsaw, hcount, hparams⟩ := h
  refine ⟨((c.ttys t).collect digits.length ch).putParam
    (digits.length + 1) 0, ?_, writeByte_taken ?_⟩
  · have hsize : (digits ++ [ch]).length = digits.length + 1 :=
      List.length_append
    refine ⟨hrow, hcol, hopen, hsaw, hsize.symm, ?_⟩
    rw [hsize, List.range_succ, List.map_append]
    congr 1
    · refine Eq.trans (List.map_congr_left fun i hi => ?_) hparams
      have hi : i < digits.length := List.mem_range.mp hi
      show Function.update
        (Function.update (c.ttys t).ansi.params digits.length ch)
        (digits.length + 1) 0 i = _
      rw [Function.update_of_ne (by omega), Function.update_of_ne (by omega)]
    · show [Function.update
        (Function.update (c.ttys t).ansi.params digits.length ch)
        (digits.length + 1) 0 digits.length] = _
      rw [Function.update_of_ne (by omega), Function.update_self]
  · unfold ansiProcessByte
    rw [bind_some (terminal_apply ht c), if_neg (by simp [hopen]),
      if_neg (by simp [hsaw]), if_pos (.inl hch), hcount,
      bind_some (ansiCollect_apply ht hlen ch c)]
    rfl

theorem writeBytes_digits (ht : t < ttyCount) {more : List UInt8}
    (hmore : ∀ ch ∈ more, isDigit ch)
    (h : (c.ttys t).Reading row col digits)
    (hlen : digits.length + more.length ≤ ansiMaxLen) (rest : List UInt8) :
    ∃ y, y.Reading row col (digits ++ more) ∧
      writeBytes t (more ++ rest) c = writeBytes t rest (c.setTty t y) := by
  induction more generalizing c digits with
  | nil =>
    refine ⟨c.ttys t, ?_, ?_⟩
    · rw [List.append_nil]
      exact h
    · unfold Console.setTty
      rw [Function.update_eq_self]
      rfl
  | cons ch more ih =>
    rw [List.length_cons] at hlen
    obtain ⟨y, hy, hrun⟩ := writeByte_digit ht
      (hmore ch List.mem_cons_self) h (by omega)
    have hy' : ((c.setTty t y).ttys t).Reading row col (digits ++ [ch]) := by
      rw [setTty_self]
      exact hy
    obtain ⟨z, hz, hrest⟩ := ih (fun d hd => hmore d
      (List.mem_cons_of_mem _ hd)) hy' (by simp; omega)
    refine ⟨z, ?_, ?_⟩
    · rw [List.append_assoc] at hz
      exact hz
    · rw [setTty_setTty] at hrest
      rw [← hrest]
      exact bind_some hrun

theorem paramsOf_apply (ht : t < ttyCount) (c : Console) (i n : Nat)
    (hn : i + n ≤ ansiMaxLen) :
    paramsOf t i n c
      = some ((List.range' i n).map (c.ttys t).ansi.params, c) := by
  induction n generalizing i with
  | zero => rfl
  | succ n ih =>
    have hchar : paramAt t i c = some ((c.ttys t).ansi.params i, c) := by
      unfold paramAt
      rw [check_pos ⟨ht, by omega⟩]
      rfl
    unfold paramsOf
    rw [bind_some hchar, bind_some (ih (i + 1) (by omega))]
    rfl

theorem resetAnsiState_apply (ht : t < ttyCount) (c : Console) :
    ∃ y, resetAnsiState t c = some ((), c.setTty t y) ∧
      y.cursorRow = (c.ttys t).cursorRow ∧
      y.cursorCol = (c.ttys t).cursorCol := by
  unfold resetAnsiState
  rw [bind_some (modifyTty_apply ht),
    bind_some (setParam_apply ht (Nat.zero_le _) ..), modifyTty_apply ht,
    setTty_setTty, setTty_setTty]
  refine ⟨_, rfl, ?_, ?_⟩
  · rw [setTty_self, setTty_self]
    rfl
  · rw [setTty_self, setTty_self]
    rfl

theorem Move.processCsiFinal_apply (m : Move) (ht : t < ttyCount)
    (params : List UInt8) (c : Console) :
    ansiProcessCsiFinal t params (Char.ofUInt8 m.final) c
      = some ((), c.setTty t ((c.ttys t).csiFinal c.contentRows c.cols
          (ansiParseParams params 16) (Char.ofUInt8 m.final))) := by
  have hrun : ansiProcessCsiFinal t params (Char.ofUInt8 m.final)
      = (state >>= fun c => modifyTty t fun y => y.csiFinal c.contentRows
          c.cols (ansiParseParams params 16) (Char.ofUInt8 m.final)) := by
    cases m <;> rfl
  rw [hrun, bind_some rfl]
  exact modifyTty_apply ht

theorem Move.writeByte_final (m : Move) (ht : t < ttyCount)
    (h : (c.ttys t).Reading row col digits)
    (hlen : digits.length ≤ ansiMaxLen) :
    ∃ c', writeByte t m.final c = some ((), c') ∧
      (c'.ttys t).cursorRow = ((c.ttys t).csiFinal c.contentRows c.cols
        (ansiParseParams digits 16) (Char.ofUInt8 m.final)).cursorRow ∧
      (c'.ttys t).cursorCol = ((c.ttys t).csiFinal c.contentRows c.cols
        (ansiParseParams digits 16) (Char.ofUInt8 m.final)).cursorCol := by
  obtain ⟨-, -, hopen, hsaw, hcount, hparams⟩ := h
  have hdigits : paramsOf t 0 (c.ttys t).ansi.len c = some (digits, c) := by
    rw [paramsOf_apply ht c 0 _ (by omega), hcount,
      ← List.range_eq_range', hparams]
  have hfinal : ¬isParam m.final := by
    cases m <;> decide
  generalize hmoved : (c.ttys t).csiFinal c.contentRows c.cols
    (ansiParseParams digits 16) (Char.ofUInt8 m.final) = moved
  have hmove := m.processCsiFinal_apply ht digits c
  rw [hmoved] at hmove
  obtain ⟨y, hrun, hrow, hcol⟩ := resetAnsiState_apply ht (c.setTty t moved)
  rw [setTty_self] at hrow hcol
  rw [setTty_setTty] at hrun
  refine ⟨c.setTty t y, writeByte_taken ?_, ?_, ?_⟩
  · unfold ansiProcessByte
    rw [bind_some (terminal_apply ht c), if_neg (by simp [hopen]),
      if_neg (by simp [hsaw]), if_neg hfinal, bind_some hdigits,
      bind_some hmove, bind_some hrun]
    rfl
  · rw [setTty_self, hrow]
  · rw [setTty_self, hcol]

/-- A sequence that moves the cursor moves it to where the number says,
whatever the number, exactly if the move is in range. -/
theorem Move.moves_iff (m : Move) (hc : c.Fits g) (ht : t < ttyCount)
    (hidle : (c.ttys t).ansi.inEscape = false)
    (hrow : (c.ttys t).cursorRow < 2 ^ 32)
    (hcol : (c.ttys t).cursorCol < 2 ^ 32)
    (hdigits : ∀ ch ∈ digits, isDigit ch)
    (hlen : digits.length ≤ ansiMaxLen) :
    (∃ c', writeBytes t (m.sequence digits) c = some ((), c') ∧
        ((c'.ttys t).cursorRow, (c'.ttys t).cursorCol)
          = m.aim (c.ttys t).cursorRow (c.ttys t).cursorCol c.contentRows
              c.cols (decimal digits)) ↔
      m.InRange (c.ttys t).cursorRow (c.ttys t).cursorCol c.contentRows
        c.cols (decimal digits) := by
  obtain ⟨y, hy, hstart⟩ := writeBytes_start ht hidle (digits ++ [m.final])
  have hy' : ((c.setTty t y).ttys t).Reading (c.ttys t).cursorRow
      (c.ttys t).cursorCol [] := by
    rw [setTty_self]
    exact hy
  obtain ⟨z, hz, hread⟩ := writeBytes_digits ht hdigits hy'
    (by simpa using hlen) [m.final]
  rw [setTty_setTty] at hread
  have hz' : ((c.setTty t z).ttys t).Reading (c.ttys t).cursorRow
      (c.ttys t).cursorCol digits := by
    rw [setTty_self]
    exact hz
  obtain ⟨c', hfinal, hmovedRow, hmovedCol⟩ := m.writeByte_final ht hz' hlen
  rw [setTty_self, ansiParseParams_digits hdigits] at hmovedRow hmovedCol
  have hrun : writeBytes t (m.sequence digits) c = some ((), c') := by
    rw [Move.sequence, hstart, hread]
    exact bind_some hfinal
  have hedge : 0 < c.cols := by
    rw [hc.cols]
    exact g.cols_pos
  have hmoved := m.csiFinal_iff (decimal digits)
    (hz.cursorRow.symm ▸ hrow) (hz.cursorCol.symm ▸ hcol)
    ⟨hc.contentRows_pos, Nat.le_trans hc.contentRows_le (by decide)⟩
    ⟨hedge, Nat.le_trans hc.cols_le (by decide)⟩
  rw [hz.cursorRow, hz.cursorCol] at hmoved
  rw [← hmoved]
  constructor
  · intro hmoves
    obtain ⟨d, hd, hpos⟩ := hmoves
    rw [hrun] at hd
    cases hd
    rw [← hpos, hmovedRow, hmovedCol]
    rfl
  · intro hpos
    refine ⟨c', hrun, ?_⟩
    rw [← hpos, hmovedRow, hmovedCol]
    rfl

end run

-- ==== a long number

/-- A screen of 25 rows and 80 columns under the status bar, with the
cursor in row five. -/
def fifthRow : Console := { boot with
  rows := 26
  cols := 80
  ttys := fun _ => { Terminal.zero with cursorRow := 5, cursorCol := 5 } }

theorem fifthRow_fits : fifthRow.Fits
    ⟨26, 80, by decide, by decide, by decide, by decide⟩ where
  rows := rfl
  cols := rfl
  active := by decide
  ttys _ :=
    have h := Terminal.zero_fits
    ⟨h.head, h.count, h.len, h.query⟩

/-- The digits of `2 ^ 32 + 1`. -/
def wrapped : List UInt8 :=
  [0x34, 0x32, 0x39, 0x34, 0x39, 0x36, 0x37, 0x32, 0x39, 0x37]

/-- A move up by `2 ^ 32 + 1` rows ends one row up. -/
theorem fifthRow_up_wrapped :
    (∀ ch ∈ wrapped, isDigit ch) ∧ wrapped.length ≤ ansiMaxLen ∧
      decimal wrapped = 2 ^ 32 + 1 ∧
      Move.up.aim 5 5 25 80 (decimal wrapped) = (0, 5) ∧
      ∃ c',
        writeBytes 0 (Move.up.sequence wrapped) fifthRow = some ((), c') ∧
        ((c'.ttys 0).cursorRow, (c'.ttys 0).cursorCol) = (4, 5) := by
  refine ⟨?_, by decide, by decide, by decide, ?_⟩
  · unfold isDigit
    decide +kernel
  · have hrun : (writeBytes 0 (Move.up.sequence wrapped) fifthRow).any
        (fun r => ((r.2.ttys 0).cursorRow, (r.2.ttys 0).cursorCol) = (4, 5))
        = true := by decide +kernel
    obtain ⟨r, hr, hpos⟩ := (Option.any_eq_true ..).mp hrun
    exact ⟨r.2, hr, of_decide_eq_true hpos⟩

/-- A move by three rows. -/
theorem fifthRow_up_three :
    (∃ c', writeBytes 0 (Move.up.sequence [0x33]) fifthRow = some ((), c') ∧
        ((c'.ttys 0).cursorRow, (c'.ttys 0).cursorCol)
          = Move.up.aim 5 5 25 80 (decimal [0x33])) ↔
      Move.up.InRange 5 5 25 80 (decimal [0x33]) :=
  Move.up.moves_iff fifthRow_fits (by decide) rfl (by decide) (by decide)
    (by unfold isDigit; decide +kernel) (by decide)

end Clks.Tty
