/-
The input methods (input/inputm.c): the letters of a composition, and the
words of a rule table that are offered for them.

A rule table is a file with a line for each key: the key, a tab, and words
between blanks. What the code looks at in it are the files that `readAll`
gives (`clks_fs_read_all`). A buffer is the list of the bytes that were copied
into it, before the NUL that the code puts behind them; what is read of it as
a string ends at the first NUL (`cstr`).
-/
import Clks.Input.Keyboard
import Clks.Lib.Distinct
import Clks.Lib.Tokens

namespace Clks.Input

-- ==== the constants

/-- `CLKS_INPUTM_COMP_MAX`. -/
abbrev inputmCompMax : Nat := 32

/-- `CLKS_INPUTM_CAND_MAX`. -/
abbrev inputmCandMax : Nat := 64

/-- `CLKS_INPUTM_CAND_PAGE_SIZE`. -/
abbrev inputmCandPageSize : Nat := 5

/-- `CLKS_INPUTM_CAND_BYTES`. -/
abbrev inputmCandBytes : Nat := 64

/-- `CLKS_INPUTM_SPLIT_MAX_PARTS`. -/
abbrev inputmSplitMaxParts : Nat := 12

/-- `CLKS_INPUTM_SPLIT_MAX_SYLLABLE`. -/
abbrev inputmSplitMaxSyllable : Nat := 6

/-- `CLKS_INPUTM_SPLIT_ALT_MAX`. -/
abbrev inputmSplitAltMax : Nat := 2

/-- `CLKS_INPUTM_FLAG_RULE_TABLE`, and those behind it. -/
abbrev flagRuleTable : UInt64 := 0x100

abbrev flagRuleLowercase : UInt64 := 0x200

abbrev flagRuleSplit : UInt64 := 0x400

abbrev flagRuleCommitRaw : UInt64 := 0x800

-- ==== the strings

/-- What is read of a buffer as a string. -/
def cstr (buffer : List UInt8) : List UInt8 := buffer.takeWhile (· ≠ 0)

/-- `clks_inputm_copy_string`. -/
def copyString (dstSize : Nat) (src : List UInt8) : List UInt8 :=
  (cstr src).take (dstSize - 1)

/-- `clks_inputm_append_candidate_bytes`. -/
def appendCandidateBytes (outSize : Nat) (out text : List UInt8) : List UInt8 :=
  out ++ (cstr text).take (outSize - 1 - out.length)

/-- `clks_inputm_is_alpha`. -/
def isAlpha (ch : UInt8) : Bool :=
  (0x61 ≤ ch ∧ ch ≤ 0x7A) ∨ (0x41 ≤ ch ∧ ch ≤ 0x5A)

/-- `clks_inputm_lower`. -/
def lower (ch : UInt8) : UInt8 :=
  if 0x41 ≤ ch ∧ ch ≤ 0x5A then ch - 0x41 + 0x61 else ch

theorem isAlpha_lower {ch : UInt8} (h : isAlpha ch = true) :
    isAlpha (lower ch) = true := by
  have hall : ∀ n < 256, isAlpha (UInt8.ofNat n) = true →
      isAlpha (lower (UInt8.ofNat n)) = true := by
    decide +kernel
  have hch := hall ch.toNat ch.toNat_lt
  rw [UInt8.ofNat_toNat] at hch
  exact hch h

-- ==== the state

/-- `struct clks_inputm_entry`, what its table is and how it is used. -/
structure InputmEntry where
  used : Bool
  rulePath : List UInt8
  flags : UInt64

/-- `clks_inputm_comp` and its length. -/
structure Composition where
  text : List UInt8
  short : text.length < inputmCompMax
  letters : ∀ ch ∈ text, isAlpha ch = true

/-- `clks_inputm_candidates` and their count. -/
structure Candidates where
  list : List (List UInt8)
  few : list.length ≤ inputmCandMax
  short : ∀ c ∈ list, c.length < inputmCandBytes

/-- The static variables. -/
structure Inputm where
  entries : List InputmEntry
  currentIndex : Nat
  comp : Composition
  candidates : Candidates
  candidatePage : Nat

namespace Composition

def empty : Composition := ⟨[], by decide, fun _ h => nomatch h⟩

/-- A letter more. -/
def push (comp : Composition) (ch : UInt8) (hch : isAlpha ch = true)
    (hroom : comp.text.length + 1 < inputmCompMax) : Composition where
  text := comp.text ++ [ch]
  short := by rwa [List.length_append, List.length_singleton]
  letters := by
    intro c hc
    rcases List.mem_append.mp hc with hc | hc
    · exact comp.letters c hc
    · rwa [List.mem_singleton.mp hc]

/-- A letter less. -/
def pop (comp : Composition) : Composition where
  text := comp.text.dropLast
  short := Nat.lt_of_le_of_lt (List.dropLast_sublist _).length_le comp.short
  letters := fun ch hch => comp.letters ch (List.dropLast_subset _ hch)

end Composition

namespace Candidates

def empty : Candidates := ⟨[], by decide, fun _ h => nomatch h⟩

/-- What is offered. -/
def texts (cands : Candidates) : List (List UInt8) := cands.list.map cstr

/-- `clks_inputm_add_candidate`. -/
def add (cands : Candidates) (start : List UInt8) : Candidates :=
  if h : start = [] ∨ inputmCandMax ≤ cands.list.length then cands
  else
    let copied := start.take (inputmCandBytes - 1)
    if cands.list.any (fun c => cstr c = copied) then cands
    else
      { list := cands.list ++ [copied]
        few := by
          rw [List.length_append, List.length_singleton]
          omega
        short := by
          intro c hc
          rcases List.mem_append.mp hc with hc | hc
          · exact cands.short c hc
          · rw [List.mem_singleton.mp hc]
            exact Nat.lt_of_le_of_lt (List.length_take_le _ _) (by decide) }

end Candidates

-- ==== the rule tables

def isEol (b : UInt8) : Bool := b = 0x0A ∨ b = 0x0D

def isBlank (b : UInt8) : Bool := b = 0x20

/-- The lines of a table, as the loops over `pos` find them. -/
def lines (data : List UInt8) : List (List UInt8) :=
  Tokens.pieces isEol data.length data

/-- The words behind a key, as the loops over `cand_start` find them. -/
def words (line : List UInt8) : List (List UInt8) :=
  (Tokens.words isBlank line.length line).filter fun w => !w.isEmpty

/-- The loop over `key_pos`: what is behind the key and the tab. -/
def behindKey : (key line : List UInt8) → Option (List UInt8)
  | [], b :: line => if b = 0x09 then some line else none
  | k :: key, b :: line => if b = k then behindKey key line else none
  | _, [] => none

/-- What a line has for a key; a line that begins with `#` is a comment. -/
def keyedLine (key line : List UInt8) : Option (List UInt8) :=
  if line = [] ∨ line.head? = some 0x23 then none else behindKey key line

/-- The same for a key with a length of its own, as
`clks_inputm_lookup_candidate_in_data` has it. -/
def keyedLineAt (key line : List UInt8) : Option (List UInt8) :=
  if line = [] ∨ line.head? = some 0x23 then none
  else if (line)[key.length]? ≠ some 0x09 then none
  else if line.take key.length ≠ key then none
  else some (line.drop (key.length + 1))

/-- The word with an index, in the first line for the key that has so many. -/
def wordAt (keyed : List UInt8 → Option (List UInt8)) (data : List UInt8)
    (candidateIndex : Nat) : Option (List UInt8) :=
  (lines data).findSome? fun line =>
    (keyed line).bind fun rest => (words rest)[candidateIndex]?

/-- `clks_inputm_lookup_candidate_in_data`. -/
def lookupCandidateInData (data key : List UInt8) (candidateIndex outSize : Nat) :
    Option (List UInt8) :=
  (wordAt (keyedLineAt key) data candidateIndex).map (List.take (outSize - 1))

/-- The candidates of the loop over `alt`, which ends where there is none. -/
def alternatives (data key : List UInt8) : List (List UInt8) :=
  (((List.range inputmSplitAltMax).map fun alt =>
    lookupCandidateInData data key alt inputmCandBytes).takeWhile
      Option.isSome).reduceOption

/-- The ends of the loop over `end`. -/
def ends (compLen start : Nat) : List Nat :=
  ((List.range inputmSplitMaxSyllable).map (start + 1 + ·)).filter (· ≤ compLen)

/-- `clks_inputm_rebuild_split_candidates_rec`, with the parts that are left
for the depth. -/
def rebuildSplitCandidatesRec (data comp : List UInt8) :
    (parts start : Nat) → (phrase : List UInt8) → Candidates → Candidates
  | 0, _, _, cands => cands
  | parts + 1, start, phrase, cands =>
    if inputmCandMax ≤ cands.list.length then cands
    else if comp.length ≤ start then
      if phrase ≠ [] then cands.add phrase else cands
    else
      let tryCandidate (s : List UInt8 × Candidates) (end' : Nat)
          (cand : List UInt8) : List UInt8 × Candidates :=
        let saved := copyString inputmCandBytes s.1
        let appended := appendCandidateBytes inputmCandBytes s.1 cand
        (copyString inputmCandBytes saved,
          rebuildSplitCandidatesRec data comp parts end' appended s.2)
      ((ends comp.length start).foldl (fun s end' =>
        (alternatives data ((comp.take end').drop start)).foldl
          (fun s cand => tryCandidate s end' cand) s) (phrase, cands)).2

/-- `clks_inputm_rebuild_split_candidates`. -/
def rebuildSplitCandidates (data comp : List UInt8) (cands : Candidates) :
    Candidates :=
  if data = [] ∨ comp.length < 2 then cands
  else rebuildSplitCandidatesRec data comp inputmSplitMaxParts 0 [] cands

-- ==== the operations

namespace Inputm

variable (readAll : List UInt8 → Option (List UInt8))

/-- The table of the current input method, if it has one. -/
def ruleTable (m : Inputm) : Option (List UInt8) :=
  match m.entries[m.currentIndex]? with
  | none => none
  | some entry =>
    match readAll entry.rulePath with
    | none => none
    | some data => if entry.rulePath = [] ∨ data = [] then none else some data

/-- `clks_inputm_lookup_candidate`. -/
def lookupCandidate (m : Inputm) (key : List UInt8)
    (candidateIndex outSize : Nat) : Option (List UInt8) :=
  match m.ruleTable readAll with
  | none => none
  | some data =>
    (wordAt (keyedLine key) data candidateIndex).map (List.take (outSize - 1))

/-- `clks_inputm_clear_candidates`. -/
def clearCandidates (m : Inputm) : Inputm :=
  { m with candidates := .empty, candidatePage := 0 }

/-- The words that a table lists for the composition, in its lines. -/
def listCandidates (data comp : List UInt8) (cands : Candidates) : Candidates :=
  (lines data).foldl (fun cands line =>
    if inputmCandMax ≤ cands.list.length then cands
    else
      match keyedLine comp line with
      | none => cands
      | some rest =>
        (words rest).foldl (fun cands word =>
          if inputmCandMax ≤ cands.list.length then cands
          else cands.add word) cands) cands

/-- The flags of the current input method. -/
def flags (m : Inputm) : UInt64 :=
  match m.entries[m.currentIndex]? with
  | none => 0
  | some entry => entry.flags

/-- `clks_inputm_rebuild_candidates`. -/
def rebuildCandidates (m : Inputm) : Inputm :=
  let m := m.clearCandidates
  if m.comp.text = [] then m
  else
    match m.ruleTable readAll with
    | none => m
    | some data =>
      let cands := listCandidates data m.comp.text m.candidates
      if cands.list.length < inputmCandMax ∧ m.flags &&& flagRuleSplit ≠ 0 then
        { m with
          candidates := rebuildSplitCandidates data m.comp.text cands }
      else { m with candidates := cands }

/-- What `clks_inputm_refresh_status` does to the page. -/
def refreshStatus (m : Inputm) : Inputm :=
  if m.comp.text ≠ [] ∧
      m.candidates.list.length ≤ m.candidatePage * inputmCandPageSize then
    { m with candidatePage := 0 }
  else m

/-- The composition is given up, with its candidates. -/
def dropComp (m : Inputm) : Inputm :=
  ({ m with comp := .empty }.clearCandidates).refreshStatus

/-- `clks_inputm_commit_comp`. -/
def commitComp (ttyIndex candidateIndex : Nat) (flags : UInt64) (q : Queues)
    (m : Inputm) : Bool × Queues × Inputm :=
  if m.comp.text = [] then (false, q, m)
  else
    let absoluteIndex := m.candidatePage * inputmCandPageSize + candidateIndex
    let q :=
      match m.candidates.list[absoluteIndex]? with
      | some cand => (q.injectTextForTty ttyIndex (cstr cand)).2
      | none =>
        match m.lookupCandidate readAll m.comp.text absoluteIndex
            inputmCandBytes with
        | some cand => (q.injectTextForTty ttyIndex (cstr cand)).2
        | none =>
          if flags &&& flagRuleCommitRaw ≠ 0 then
            (q.injectTextForTty ttyIndex m.comp.text).2
          else q
    (true, q, m.dropComp)

/-- `clks_inputm_select`. -/
def select (index : Nat) (m : Inputm) : Bool × Inputm :=
  match m.entries[index]? with
  | none => (false, m)
  | some entry =>
    if entry.used = false then (false, m)
    else (true, { m with currentIndex := index }.dropComp)

/-- `clks_inputm_cycle`. -/
def cycle (m : Inputm) : Inputm :=
  if m.entries = [] then m
  else (m.select ((m.currentIndex + 1) % m.entries.length)).2

/-- The letters are other ones: candidates for them are looked for. -/
def setComp (comp : Composition) (m : Inputm) : Inputm :=
  ({ m with comp }.rebuildCandidates readAll).refreshStatus

/-- The number of pages. -/
def pageCount (m : Inputm) : Nat :=
  (m.candidates.list.length + inputmCandPageSize - 1) / inputmCandPageSize

/-- The key `+`. -/
def nextPage (m : Inputm) : Inputm :=
  if 0 < m.pageCount then
    { m with candidatePage := (m.candidatePage + 1) % m.pageCount }.refreshStatus
  else m

/-- The key `-`. -/
def previousPage (m : Inputm) : Inputm :=
  if 0 < m.pageCount then
    { m with
      candidatePage :=
        if m.candidatePage = 0 then m.pageCount - 1
        else m.candidatePage - 1 }.refreshStatus
  else m

/-- `clks_inputm_handle_char`; all but letters are for a composition that has
begun. -/
def handleChar (ttyIndex : Nat) (ch : UInt8) (q : Queues) (m : Inputm) :
    Bool × Queues × Inputm :=
  match m.entries[m.currentIndex]? with
  | none => (false, q, m)
  | some entry =>
    let flags := entry.flags
    if flags &&& flagRuleTable = 0 then (false, q, m)
    else if halpha : isAlpha ch = true then
      if hroom : m.comp.text.length + 1 < inputmCompMax then
        let comp :=
          if flags &&& flagRuleLowercase ≠ 0 then
            m.comp.push (lower ch) (isAlpha_lower halpha) hroom
          else m.comp.push ch halpha hroom
        (true, q, m.setComp readAll comp)
      else (true, q, m)
    else if m.comp.text = [] then (false, q, m)
    else if 0x31 ≤ ch ∧ ch ≤ 0x35 then
      m.commitComp readAll ttyIndex (ch - 0x31).toNat flags q
    else if ch = 0x2B then (true, q, m.nextPage)
    else if ch = 0x2D then (true, q, m.previousPage)
    else if ch = 0x20 then m.commitComp readAll ttyIndex 0 flags q
    else if ch = 0x08 then (true, q, m.setComp readAll m.comp.pop)
    else if ch = 27 then (true, q, m.dropComp)
    else (false, (m.commitComp readAll ttyIndex 0 flags q).2)

-- ==== histories

/-- `clks_inputm_init`. -/
def init (entries : List InputmEntry) : Inputm := ⟨entries, 0, .empty, .empty, 0⟩

/-- A key, a choice of the input method, or a list of them that is another
one (`clks_inputm_register_rule`). -/
inductive Event
  | char (readAll : List UInt8 → Option (List UInt8)) (ttyIndex : Nat)
      (ch : UInt8)
  | select (index : Nat)
  | cycle
  | register (entries : List InputmEntry)

def Event.run : Queues × Inputm → Event → Queues × Inputm
  | (q, m), .char readAll ttyIndex ch => (m.handleChar readAll ttyIndex ch q).2
  | (q, m), .select index => (q, (m.select index).2)
  | (q, m), .cycle => (q, m.cycle)
  | (q, m), .register entries => (q, { m with entries }.refreshStatus)

section histories

variable {readAll} {m : Inputm} {q : Queues} {ttyIndex : Nat}

end histories

end Inputm

end Clks.Input
