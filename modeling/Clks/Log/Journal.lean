/-
The kernel log (rust/src/klog.rs).

The journal is an array of entries of fixed size: a line is cut to what its
array holds, and so is a tag. `head` is where the next entry goes, and
`count` is how many there are. The two walks of the filtered calls go from
the oldest entry to the newest one.
-/
import Mathlib

namespace Clks.Log

def KLOG_CAP : Nat := 512
def KLOG_LINE_MAX : Nat := 256
def KLOG_TAG_MAX : Nat := 32

/-- A string, without the zero byte at its end. -/
abbrev CString := { s : List UInt8 // 0 ∉ s }

/-- A pointer to a string. -/
abbrev CStr := Option CString

/-- Where the bytes behind a pointer are not looked at, there are none. -/
def CStr.bytes (s : CStr) : List UInt8 := s.elim [] Subtype.val

/-- `KlogEntry`. -/
structure KlogEntry where
  level : UInt8
  tag : List UInt8
  line : List UInt8
  tag_length : tag.length = KLOG_TAG_MAX
  line_length : line.length = KLOG_LINE_MAX

/-- `copy_cstr_to_array`: at most `n - 1` bytes, and zeros behind them. -/
def copyCstrToArray (n : Nat) (src : CStr) : List UInt8 :=
  let bytes := src.bytes.take (n - 1)
  bytes ++ List.replicate (n - bytes.length) 0

theorem length_copyCstrToArray (n : Nat) (src : CStr) :
    (copyCstrToArray n src).length = n := by
  unfold copyCstrToArray
  rw [List.length_append, List.length_replicate, List.length_take]
  omega

/-- The statics of the journal. -/
structure Klog where
  journal : Nat → KlogEntry
  head : Nat
  count : Nat
  head_lt : head < KLOG_CAP
  count_le : count ≤ KLOG_CAP

namespace Klog

/-- `clks_rust_klog_init`. -/
def init (k : Klog) : Klog where
  journal := k.journal
  head := 0
  count := 0
  head_lt := by decide
  count_le := by decide

/-- What an entry is made of. -/
def entry (level : UInt32) (tag line : CStr) : KlogEntry where
  level := if level > 255 then 255 else level.toUInt8
  tag := copyCstrToArray KLOG_TAG_MAX tag
  line := copyCstrToArray KLOG_LINE_MAX line
  tag_length := length_copyCstrToArray _ _
  line_length := length_copyCstrToArray _ _

/-- `clks_rust_klog_push`. -/
def push (k : Klog) (level : UInt32) (tag line : CStr) : Klog :=
  if line = none then k
  else
    { journal := Function.update k.journal k.head (entry level tag line)
      head := (k.head + 1) % KLOG_CAP
      count := if k.count < KLOG_CAP then k.count + 1 else k.count
      head_lt := Nat.mod_lt _ (by decide)
      count_le := by
        have := k.count_le
        split <;> omega }

-- ==== reading

/-- What a call returns, and the text that it leaves behind. -/
abbrev Answer := Bool × Option (List UInt8)

/-- The buffer of the caller: its size, unless it is null. -/
abbrev Out := Option UInt64

/-- Is there a byte to write to? -/
def writable (out : Out) : Bool := out.any (· ≠ 0)

/-- There is nothing at the index: an empty text. -/
def nothing (out : Out) : Answer :=
  (false, if writable out then some [] else none)

/-- `copy_array_to_out`. -/
def copyArrayToOut (src : List UInt8) (out : Out) : Answer :=
  match out with
  | none => (false, none)
  | some outSize =>
    if outSize = 0 then (false, none)
    else
      let cap := outSize.toNat
      let len := (src.takeWhile (· ≠ 0)).length
      let copyLen := if len + 1 > cap then cap - 1 else len
      (true, some (src.take copyLen))

/-- `tag_matches`. -/
def tagMatches (entry : KlogEntry) (tag : CStr) : Bool :=
  match tag with
  | none => true
  | some tag =>
    entry.tag.takeWhile (· ≠ 0) == tag.val.take (KLOG_TAG_MAX - 1)

/-- The slot of the oldest entry. -/
def oldest (k : Klog) : Nat := (k.head + KLOG_CAP - k.count) % KLOG_CAP

/-- The entry that is the `i`-th from the oldest one on. -/
def nth (k : Klog) (i : Nat) : KlogEntry :=
  k.journal ((k.oldest + i) % KLOG_CAP)

/-- `clks_rust_klog_read`. -/
def read (k : Klog) (indexFromOldest : UInt64) (out : Out) : Answer :=
  if indexFromOldest ≥ UInt64.ofNat k.count then nothing out
  else copyArrayToOut (k.nth indexFromOldest.toNat).line out

/-- Does an entry pass the filter? -/
def passes (minLevel : UInt32) (tag : CStr) (entry : KlogEntry) : Bool :=
  entry.level.toUInt32 ≥ minLevel && tagMatches entry tag

/-- The walk of the count. -/
def countFrom (k : Klog) (minLevel : UInt32) (tag : CStr) :
    (left i : Nat) → (matched : UInt64) → UInt64
  | 0, _, matched => matched
  | left + 1, i, matched =>
    countFrom k minLevel tag left (i + 1)
      (if passes minLevel tag (k.nth i) then matched + 1 else matched)

/-- `clks_rust_klog_count_filtered`. -/
def countFiltered (k : Klog) (minLevel : UInt32) (tag : CStr) : UInt64 :=
  countFrom k minLevel tag k.count 0 0

/-- The walk of the read. -/
def readFrom (k : Klog) (minLevel : UInt32) (tag : CStr) (index : UInt64)
    (out : Out) : (left i : Nat) → (seen : UInt64) → Answer
  | 0, _, _ => nothing out
  | left + 1, i, seen =>
    if passes minLevel tag (k.nth i) then
      if seen = index then copyArrayToOut (k.nth i).line out
      else readFrom k minLevel tag index out left (i + 1) (seen + 1)
    else readFrom k minLevel tag index out left (i + 1) seen

/-- `clks_rust_klog_read_filtered`. -/
def readFiltered (k : Klog) (minLevel : UInt32) (tag : CStr)
    (indexFromOldestMatching : UInt64) (out : Out) : Answer :=
  readFrom k minLevel tag indexFromOldestMatching out k.count 0 0

end Klog

end Clks.Log
