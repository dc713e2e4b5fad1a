/-
The parser of key=value texts (rust/src/config.rs).

The code goes through a text with positions: lines, the text before the first
`=` of each, and what is behind it, both without blanks at their ends. A table
of entries says which keys are looked for and where their values go; each
entry has a buffer of its own.
-/
import Clks.Lib.Bytes
import Clks.Lib.Slices
import Clks.Lib.Tokens

namespace Clks.Text

open Bytes (Mem blit)
open Slices (slice scan scanBack)

-- ==== the code

/-- `ClksRustKvEntry`; a pointer that is null is `none`. -/
structure KvEntry where
  key : Option (List UInt8)
  outValue : Option Mem
  outSize : UInt64
  found : UInt32
  truncated : UInt32

/-- `is_space`. -/
def isSpace (byte : UInt8) : Bool :=
  byte = 0x20 ∨ byte = 0x09 ∨ byte = 0x0D ∨ byte = 0x0A

/-- The ends of a line. -/
def isLineEnd (byte : UInt8) : Bool := byte = 0x0A ∨ byte = 0x0D

/-- `trim_range`. -/
def trimRange (data : List UInt8) (start stop : Nat) : Nat × Nat :=
  let start := scan isSpace data (stop - start) start
  (start, scanBack isSpace data (stop - start) stop)

/-- `copy_bytes_trimmed`: whether the value was cut, and the buffer. -/
def copyBytesTrimmed (src : List UInt8) (out : Option Mem) (outSize : UInt64) :
    UInt32 × Option Mem :=
  match out with
  | none => (1, none)
  | some out =>
    if outSize = 0 then (1, some out)
    else
      let (start, stop) := trimRange src 0 src.length
      let value := slice src start stop
      let cap := outSize.toNat
      let copyLen := if value.length + 1 > cap then cap - 1 else value.length
      let out := blit out 0 copyLen fun i => value.getD i 0
      let out := Function.update out copyLen 0
      (if copyLen < value.length then 1 else 0, some out)

/-- `key_equals`. -/
def keyEquals (data : List UInt8) (keyStart keyEnd : Nat) (key : List UInt8) :
    Bool :=
  keyStart ≤ keyEnd ∧ keyEnd ≤ data.length ∧ slice data keyStart keyEnd = key

/-- The loop over the entries, which ends at the first one with the key. -/
def assign (isKey : List UInt8 → Bool) (value : List UInt8) :
    List KvEntry → List KvEntry
  | [] => []
  | entry :: entries =>
    match entry.key, entry.outValue with
    | some key, some _ =>
      if entry.outSize = 0 then entry :: assign isKey value entries
      else if isKey key then
        let (truncated, outValue) :=
          copyBytesTrimmed value entry.outValue entry.outSize
        { entry with found := 1, truncated, outValue } :: entries
      else entry :: assign isKey value entries
    | _, _ => entry :: assign isKey value entries

/-- What is done with a line. -/
def parseLine (data : List UInt8) (lineStart lineEnd : Nat)
    (entries : List KvEntry) : List KvEntry :=
  let (keyStart, trimmedEnd) := trimRange data lineStart lineEnd
  if trimmedEnd ≤ keyStart ∨ data[keyStart]? = some 0x23 ∨
      data[keyStart]? = some 0x3B then
    entries
  else
    let eq := scan (· ≠ 0x3D) data (trimmedEnd - keyStart) keyStart
    if trimmedEnd ≤ eq ∨ data[eq]? ≠ some 0x3D then entries
    else
      let trimmedEnd := scanBack isSpace data (trimmedEnd - (eq + 1)) trimmedEnd
      let keyEnd := scanBack isSpace data (eq - keyStart) eq
      let (valueStart, valueEnd) := trimRange data (eq + 1) trimmedEnd
      assign (keyEquals data keyStart keyEnd) (slice data valueStart valueEnd)
        entries

/-- The loop over the lines, with the rounds that the text leaves. -/
def parseLines (data : List UInt8) :
    (rounds : Nat) → (pos : Nat) → List KvEntry → List KvEntry
  | 0, _, entries => entries
  | rounds + 1, pos, entries =>
    if data.length ≤ pos then entries
    else
      let lineEnd := scan (fun b => !isLineEnd b) data (data.length - pos) pos
      let next := scan isLineEnd data (data.length - lineEnd) lineEnd
      parseLines data rounds next (parseLine data pos lineEnd entries)

/-- An entry as the parser begins with it. -/
def KvEntry.clear (entry : KvEntry) : KvEntry :=
  { entry with
    found := 0
    truncated := 0
    outValue :=
      match entry.outValue with
      | none => none
      | some out =>
        if 0 < entry.outSize then some (Function.update out 0 0) else some out }

/-- `clks_rust_parse_key_values`. -/
def parseKeyValues (data : Option (List UInt8)) (entries : Option (List KvEntry)) :
    UInt32 × Option (List KvEntry) :=
  match data, entries with
  | some data, some entries =>
    (1, some (parseLines data data.length 0 (entries.map .clear)))
  | _, _ => (0, entries)

-- ==== the meaning

/-- A text without the blanks at its ends. -/
def trim (text : List UInt8) : List UInt8 :=
  (text.dropWhile isSpace).rdropWhile isSpace

/-- What a line says: the key before its first `=` and the value behind it, if
it is neither blank nor a comment and has one. -/
def assignment (line : List UInt8) : Option (List UInt8 × List UInt8) :=
  let first := (line.dropWhile isSpace).head?
  if first = none ∨ first = some 0x23 ∨ first = some 0x3B ∨ 0x3D ∉ line then none
  else
    some (trim (line.takeWhile (· ≠ 0x3D)),
      trim ((line.dropWhile (· ≠ 0x3D)).drop 1))

/-- What a text says, line by line. -/
def assignments (text : List UInt8) : List (List UInt8 × List UInt8) :=
  (Tokens.tokens isLineEnd text).filterMap assignment

/-- The last value of a key. -/
def setting (said : List (List UInt8 × List UInt8)) (key : List UInt8) :
    Option (List UInt8) :=
  ((said.filter (·.1 = key)).getLast?).map (·.2)

/-- A buffer holds a text, and the NUL behind it. -/
def Holds (out : Mem) (text : List UInt8) : Prop :=
  (∀ i, (hi : i < text.length) → out i = text[i]) ∧ out text.length = 0

-- ==== the trimming

section trim

variable {p : UInt8 → Bool} {x : UInt8} {l pre post : List UInt8}

theorem rdropWhile_append_cons (hx : p x = false) (pre post : List UInt8) :
    (pre ++ x :: post).rdropWhile p = pre ++ x :: post.rdropWhile p := by
  induction post using List.reverseRecOn with
  | nil => exact List.rdropWhile_concat_neg _ _ _ (by simp [hx])
  | append_singleton post y ih =>
    rw [← List.cons_append, ← List.append_assoc, List.rdropWhile_concat,
      List.rdropWhile_concat, ih]
    split_ifs
    · rfl
    · rw [List.append_assoc, List.cons_append]

theorem dropWhile_append_cons (hx : p x = false) (pre post : List UInt8) :
    (pre ++ x :: post).dropWhile p = pre.dropWhile p ++ x :: post := by
  induction pre with
  | nil => exact List.dropWhile_cons_of_neg (by simp [hx])
  | cons y pre ih =>
    rw [List.cons_append]
    cases hy : p y with
    | true =>
      rw [List.dropWhile_cons_of_pos hy, List.dropWhile_cons_of_pos hy, ih]
    | false =>
      rw [List.dropWhile_cons_of_neg (by simp [hy]),
        List.dropWhile_cons_of_neg (by simp [hy])]
      rfl

theorem blank_or_first (l : List UInt8) :
    l.dropWhile isSpace = [] ∨ ∃ pre x post, l = pre ++ x :: post ∧
      isSpace x = false ∧ l.dropWhile isSpace = x :: post := by
  cases hd : l.dropWhile isSpace with
  | nil => exact .inl rfl
  | cons x post =>
    have hx := List.head?_dropWhile_not isSpace l
    rw [hd] at hx
    refine .inr ⟨l.takeWhile isSpace, x, post, ?_, hx, rfl⟩
    rw [← hd, List.takeWhile_append_dropWhile]

theorem trim_of_blank (h : l.dropWhile isSpace = []) : trim l = [] := by
  rw [trim, h, List.rdropWhile_nil]

theorem head?_trim (l : List UInt8) :
    (trim l).head? = (l.dropWhile isSpace).head? := by
  rcases blank_or_first l with h | ⟨pre, x, post, -, hx, hd⟩
  · rw [trim_of_blank h, h]
  · rw [trim, hd]
    have hcons := rdropWhile_append_cons hx [] post
    rw [List.nil_append] at hcons
    rw [hcons]
    rfl

theorem trim_rdropWhile (l : List UInt8) :
    trim (l.rdropWhile isSpace) = trim l := by
  rcases blank_or_first l with h | ⟨pre, x, post, rfl, hx, hd⟩
  · have hall : ∀ y ∈ l, isSpace y = true := List.dropWhile_eq_nil_iff.mp h
    rw [trim_of_blank h, List.rdropWhile_eq_nil_iff.mpr hall]
    rfl
  · have hcons := rdropWhile_append_cons hx
    unfold trim
    rw [hcons, dropWhile_append_cons hx, dropWhile_append_cons hx, hcons, hcons,
      List.rdropWhile_idempotent]

theorem trim_trim (l : List UInt8) : trim (trim l) = trim l := by
  have hdrop : (l.dropWhile isSpace).dropWhile isSpace = l.dropWhile isSpace := by
    rcases blank_or_first l with h | ⟨pre, x, post, -, hx, hd⟩
    · rw [h, List.dropWhile_nil]
    · rw [hd, List.dropWhile_cons_of_neg (by simp [hx])]
  refine (trim_rdropWhile (l.dropWhile isSpace)).trans ?_
  rw [trim, hdrop, trim]

end trim

-- ==== the lines

section lines

variable {data : List UInt8} {a b : Nat}

theorem getElem?_of_slice {x : UInt8} {rest : List UInt8} (hb : b ≤ data.length)
    (h : slice data a b = x :: rest) :
    a < b ∧ data[a]? = some x ∧ slice data (a + 1) b = rest := by
  have hlt : a < b := by
    by_contra hle
    rw [Slices.slice_nil (Nat.not_lt.mp hle)] at h
    exact nomatch h
  rw [Slices.slice_cons hlt hb] at h
  obtain ⟨hx, hrest⟩ := List.cons.inj h
  exact ⟨hlt, by rw [List.getElem?_eq_getElem (by omega), hx], hrest⟩

theorem trimRange_spec (h : a ≤ b) (hb : b ≤ data.length) :
    a ≤ (trimRange data a b).1 ∧
      (trimRange data a b).1 ≤ (trimRange data a b).2 ∧
      (trimRange data a b).2 ≤ b ∧
      slice data (trimRange data a b).1 (trimRange data a b).2
        = trim (slice data a b) := by
  obtain ⟨hle, hle', -, hdrop⟩ := Slices.scan_spec (p := isSpace) h hb
  obtain ⟨hback, hback', hrdrop⟩ := Slices.scanBack_spec (p := isSpace) hle' hb
  refine ⟨hle, hback, hback', ?_⟩
  rw [trim, ← hdrop]
  exact hrdrop

/-- What the entries are behind a line that says something. -/
def step (entries : List KvEntry) (said : List UInt8 × List UInt8) :
    List KvEntry :=
  assign (fun key => said.1 = key) said.2 entries

theorem split_at_eq {line : List UInt8} (h : 0x3D ∈ line) :
    ∃ pre post, line = pre ++ 0x3D :: post ∧
      line.takeWhile (· ≠ 0x3D) = pre ∧
      line.dropWhile (· ≠ 0x3D) = 0x3D :: post := by
  have hjoin := List.takeWhile_append_dropWhile (p := (· ≠ 0x3D)) (l := line)
  cases hd : line.dropWhile (· ≠ 0x3D) with
  | nil =>
    have hnone := List.dropWhile_eq_nil_iff.mp hd 0x3D h
    exact absurd hnone (by decide)
  | cons x post =>
    have hx := List.head?_dropWhile_not (fun b : UInt8 => b ≠ 0x3D) line
    rw [hd] at hx hjoin
    obtain rfl : x = 0x3D := by simpa using hx
    exact ⟨_, post, hjoin.symm, rfl, rfl⟩

theorem trim_at_eq (pre post : List UInt8) :
    trim (pre ++ 0x3D :: post) =
      pre.dropWhile isSpace ++ 0x3D :: post.rdropWhile isSpace := by
  rw [trim, dropWhile_append_cons (by decide), rdropWhile_append_cons (by decide)]

theorem mem_trim_iff (line : List UInt8) : 0x3D ∈ trim line ↔ 0x3D ∈ line := by
  constructor
  · intro h
    exact (List.dropWhile_sublist isSpace).subset
      ((List.rdropWhile_prefix isSpace _).subset h)
  · intro h
    obtain ⟨pre, post, rfl, -, -⟩ := split_at_eq h
    rw [trim_at_eq]
    exact List.mem_append_right _ List.mem_cons_self

theorem parseLine_eq (h : a ≤ b) (hb : b ≤ data.length)
    (entries : List KvEntry) :
    parseLine data a b entries =
      match assignment (slice data a b) with
      | none => entries
      | some said => step entries said := by
  obtain ⟨-, hkt, hte, htrim⟩ := trimRange_spec h hb
  have hfirst := head?_trim (slice data a b)
  have hmem := mem_trim_iff (slice data a b)
  unfold parseLine assignment
  generalize trimRange data a b = r at *
  obtain ⟨keyStart, trimmedEnd⟩ := r
  dsimp only at hkt hte htrim ⊢
  rw [← hfirst]
  cases ht : trim (slice data a b) with
  | nil =>
    rw [ht] at htrim
    have hlen := Slices.length_slice (l := data) (a := keyStart)
      (b := trimmedEnd) (by omega)
    rw [htrim, List.length_nil] at hlen
    rw [if_pos (.inl (by omega)), if_pos (.inl rfl)]
  | cons x t =>
    rw [ht] at htrim
    obtain ⟨hlt, hget, -⟩ := getElem?_of_slice (by omega) htrim
    rw [hget, List.head?_cons]
    by_cases hcomment : x = 0x23 ∨ x = 0x3B
    · rcases hcomment with rfl | rfl
      · rw [if_pos (.inr (.inl rfl)), if_pos (.inr (.inl rfl))]
      · rw [if_pos (.inr (.inr rfl)), if_pos (.inr (.inr (.inl rfl)))]
    obtain ⟨hhash, hsemi⟩ := not_or.mp hcomment
    rw [if_neg (by simp [hhash, hsemi]; omega)]
    obtain ⟨hle, hle', htake, hdrop⟩ := Slices.scan_spec (l := data)
      (p := (· ≠ 0x3D)) (Nat.le_of_lt hlt) (by omega)
    rw [htrim, ← ht] at htake hdrop
    generalize scan (· ≠ 0x3D) data (trimmedEnd - keyStart) keyStart = eq at *
    by_cases hline : 0x3D ∈ slice data a b
    · obtain ⟨pre, post, hparts, htakeLine, hdropLine⟩ := split_at_eq hline
      have hnone : ∀ y ∈ pre, (y ≠ 0x3D) := fun y hy => by
        rw [← htakeLine] at hy
        simpa using List.mem_takeWhile_imp hy
      have hinner : ∀ y ∈ pre.dropWhile isSpace, (y ≠ 0x3D) := fun y hy =>
        hnone y ((List.dropWhile_sublist isSpace).subset hy)
      rw [hparts, trim_at_eq] at htake hdrop
      rw [List.takeWhile_append_of_pos (by simpa using hinner),
        List.takeWhile_cons_of_neg (by decide), List.append_nil] at htake
      rw [List.dropWhile_append_of_pos (by simpa using hinner),
        List.dropWhile_cons_of_neg (by decide)] at hdrop
      obtain ⟨hlt', hget', hrest⟩ := getElem?_of_slice (by omega) hdrop
      -- The blanks behind the value, those behind the key, and the value.
      obtain ⟨hend, hend', hvalue⟩ := Slices.scanBack_spec (p := isSpace)
        (l := data) (a := eq + 1) (b := trimmedEnd) hlt' (by omega)
      obtain ⟨hkey, hkey', hkeyText⟩ := Slices.scanBack_spec (p := isSpace)
        (l := data) hle (by omega)
      obtain ⟨-, -, -, htext⟩ := @trimRange_spec data _ _ hend (by omega)
      rw [hvalue, hrest, List.rdropWhile_idempotent, trim_rdropWhile] at htext
      rw [htake] at hkeyText
      have hkeys : keyEquals data keyStart
          (scanBack isSpace data (eq - keyStart) eq) = fun key => trim pre = key := by
        funext key
        unfold keyEquals
        rw [hkeyText]
        refine decide_eq_decide.mpr ⟨fun h => h.2.2, fun h => ⟨hkey, by omega, h⟩⟩
      rw [if_neg (by rw [hget']; simp; omega),
        if_neg (by simp [hhash, hsemi, hline]), hkeys, htakeLine, hdropLine]
      dsimp only
      rw [htext]
      rfl
    · have hnil : (trim (slice data a b)).dropWhile (· ≠ 0x3D) = [] := by
        refine List.dropWhile_eq_nil_iff.mpr fun y hy => ?_
        simp only [decide_eq_true_eq]
        rintro rfl
        exact hline (hmem.mp hy)
      rw [hnil] at hdrop
      have hlen := Slices.length_slice (l := data) (a := eq) (b := trimmedEnd)
        (by omega)
      rw [hdrop, List.length_nil] at hlen
      rw [if_pos (.inl (by omega)), if_pos (.inr (.inr (.inr hline)))]

/-- What the entries are behind a line. -/
def lineStep (entries : List KvEntry) (line : List UInt8) : List KvEntry :=
  match assignment line with
  | none => entries
  | some said => step entries said

theorem slice_end (pos : Nat) : slice data pos data.length = data.drop pos := by
  rw [slice, List.take_length]

theorem parseLines_eq (rounds pos : Nat) (hpos : pos ≤ data.length)
    (entries : List KvEntry) :
    parseLines data rounds pos entries =
      (Tokens.pieces isLineEnd rounds (data.drop pos)).foldl lineStep entries := by
  induction rounds generalizing pos entries with
  | zero => rfl
  | succ rounds ih =>
    unfold parseLines
    by_cases hend : data.length ≤ pos
    · rw [if_pos hend, List.drop_of_length_le hend]
      rfl
    obtain ⟨hle, hle', hline, hrest⟩ := Slices.scan_spec (l := data)
      (p := fun b => !isLineEnd b) hpos (Nat.le_refl _)
    obtain ⟨hnext, hnext', -, hnextRest⟩ := Slices.scan_spec (l := data)
      (p := isLineEnd) hle' (Nat.le_refl _)
    rw [slice_end] at hline hnextRest
    rw [slice_end, slice_end] at hrest
    rw [slice_end, hrest] at hnextRest
    rw [if_neg hend]
    dsimp only
    rw [ih _ hnext', hnextRest, parseLine_eq hle hle', hline]
    cases hd : data.drop pos with
    | nil => exact absurd (List.drop_eq_nil_iff.mp hd) hend
    | cons x l =>
      rw [Tokens.pieces, List.foldl_cons]
      rfl

theorem parse_eq (data : List UInt8) (entries : List KvEntry) :
    parseLines data data.length 0 entries =
      (assignments data).foldl step entries := by
  rw [parseLines_eq _ 0 (Nat.zero_le _), List.drop_zero, assignments,
    ← Tokens.filter_pieces data.length data (Nat.le_refl _),
    List.foldl_filterMap, List.foldl_filter]
  congr 1
  funext entries line
  cases line with
  | nil => rfl
  | cons b line =>
    unfold lineStep
    cases assignment (b :: line) <;> rfl

end lines

-- ==== the entries

/-- An entry that the parser may write to. -/
structure KvEntry.Usable (entry : KvEntry) : Prop where
  key : entry.key.isSome
  outValue : entry.outValue.isSome
  outSize : 0 < entry.outSize

/-- A value is put into an entry. -/
def KvEntry.put (value : List UInt8) (entry : KvEntry) : KvEntry :=
  { entry with
    found := 1
    truncated := (copyBytesTrimmed value entry.outValue entry.outSize).1
    outValue := (copyBytesTrimmed value entry.outValue entry.outSize).2 }

/-- What is said is put into the entry with the key. -/
def KvEntry.hear (entry : KvEntry) (said : List UInt8 × List UInt8) : KvEntry :=
  if entry.key = some said.1 then entry.put said.2 else entry

theorem step_eq_map {entries : List KvEntry} (said : List UInt8 × List UInt8)
    (husable : ∀ e ∈ entries, e.Usable)
    (hdistinct : (entries.map KvEntry.key).Nodup) :
    step entries said = entries.map (·.hear said) := by
  unfold step
  induction entries with
  | nil => rfl
  | cons e entries ih =>
    obtain ⟨hkey, hout, hsize⟩ := husable e List.mem_cons_self
    obtain ⟨key, hkey⟩ := Option.isSome_iff_exists.mp hkey
    obtain ⟨out, hout⟩ := Option.isSome_iff_exists.mp hout
    rw [List.map_cons, List.nodup_cons] at hdistinct
    have hrest := ih (fun e he => husable e (List.mem_cons_of_mem _ he)) hdistinct.2
    unfold assign
    rw [hkey, hout]
    dsimp only
    rw [if_neg (UInt64.pos_iff_ne_zero.mp hsize), List.map_cons]
    by_cases hsaid : said.1 = key
    · -- the entries behind it have other keys
      have hothers : entries.map (·.hear said) = entries := by
        refine (List.map_congr_left fun e' he' => ?_).trans (List.map_id _)
        refine if_neg fun hsame => hdistinct.1 ?_
        rw [hkey, ← hsaid, ← hsame]
        exact List.mem_map_of_mem he'
      rw [if_pos (by simpa using hsaid), hothers, KvEntry.hear,
        if_pos (by rw [hkey, hsaid])]
      unfold KvEntry.put
      rw [hout, hkey]
    · rw [if_neg (by simpa using hsaid), hrest, KvEntry.hear,
        if_neg (by rw [hkey]; exact fun h => hsaid (Option.some.inj h).symm)]

theorem copyBytesTrimmed_spec (src : List UInt8) (out : Mem) {outSize : UInt64}
    (hsize : 0 < outSize) :
    ∃ out', copyBytesTrimmed src (some out) outSize =
        (if outSize.toNat - 1 < (trim src).length then 1 else 0, some out') ∧
      Holds out' ((trim src).take (outSize.toNat - 1)) ∧
      ∀ i, outSize.toNat ≤ i → out' i = out i := by
  have hpos : 0 < outSize.toNat := UInt64.lt_iff_toNat_lt.mp hsize
  obtain ⟨-, -, -, htext⟩ := @trimRange_spec src _ _ (Nat.zero_le _)
    (Nat.le_refl src.length)
  rw [Slices.slice_whole] at htext
  unfold copyBytesTrimmed
  dsimp only
  rw [if_neg (UInt64.pos_iff_ne_zero.mp hsize), htext]
  have hcopy : (if (trim src).length + 1 > outSize.toNat then outSize.toNat - 1
      else (trim src).length) = ((trim src).take (outSize.toNat - 1)).length := by
    rw [List.length_take]
    split_ifs <;> omega
  rw [hcopy]
  have hle := List.length_take_le (outSize.toNat - 1) (trim src)
  refine ⟨_, Prod.ext ?_ rfl, ⟨fun i hi => ?_, Function.update_self ..⟩,
    fun i hi => ?_⟩
  · rw [List.length_take]
    dsimp only
    split_ifs <;> first | rfl | omega
  · rw [Function.update_of_ne (Nat.ne_of_lt hi), Bytes.blit_in (Nat.zero_le i)
      (by omega), Nat.sub_zero, List.getElem_take]
    rw [List.length_take] at hi
    rw [List.getD_eq_getElem?_getD, List.getElem?_eq_getElem (by omega)]
    rfl
  · rw [Function.update_of_ne (by omega), Bytes.blit_out (.inr (by omega))]

theorem hear_key (e : KvEntry) (said : List UInt8 × List UInt8) :
    (e.hear said).key = e.key := by
  unfold KvEntry.hear
  split_ifs <;> rfl

theorem hear_usable {e : KvEntry} (h : e.Usable)
    (said : List UInt8 × List UInt8) : (e.hear said).Usable := by
  unfold KvEntry.hear
  split_ifs
  · obtain ⟨out, hout⟩ := Option.isSome_iff_exists.mp h.outValue
    obtain ⟨out', hcopy, -⟩ := copyBytesTrimmed_spec said.2 out h.outSize
    refine ⟨h.key, ?_, h.outSize⟩
    unfold KvEntry.put
    rw [hout, hcopy]
    rfl
  · exact h

theorem foldl_step_eq_map (said : List (List UInt8 × List UInt8))
    {entries : List KvEntry} (husable : ∀ e ∈ entries, e.Usable)
    (hdistinct : (entries.map KvEntry.key).Nodup) :
    said.foldl step entries = entries.map fun e => said.foldl KvEntry.hear e := by
  induction said generalizing entries with
  | nil => exact (List.map_id _).symm
  | cons s said ih =>
    rw [List.foldl_cons, step_eq_map s husable hdistinct, ih, List.map_map]
    · rfl
    · intro e he
      obtain ⟨e, hmem, rfl⟩ := List.mem_map.mp he
      exact hear_usable (husable e hmem) s
    · have hkeys : (entries.map (·.hear s)).map KvEntry.key
          = entries.map KvEntry.key := by
        rw [List.map_map]
        exact List.map_congr_left fun e _ => hear_key e s
      rwa [hkeys]

/-- An entry shows the last value that is said for its key, cut to its buffer,
or that there is none. -/
structure Settled (said : List (List UInt8 × List UInt8)) (e e' : KvEntry) :
    Prop where
  key : e'.key = e.key
  outSize : e'.outSize = e.outSize
  shown : ∃ key out, e.key = some key ∧ e'.outValue = some out ∧
    match setting said key with
    | none => e'.found = 0 ∧ e'.truncated = 0 ∧ Holds out []
    | some value =>
      e'.found = 1 ∧
        e'.truncated = (if e.outSize.toNat - 1 < value.length then 1 else 0) ∧
        Holds out (value.take (e.outSize.toNat - 1))

theorem setting_concat (said : List (List UInt8 × List UInt8))
    (s : List UInt8 × List UInt8) (key : List UInt8) :
    setting (said ++ [s]) key =
      if s.1 = key then some s.2 else setting said key := by
  unfold setting
  rw [List.filter_append]
  by_cases h : s.1 = key
  · rw [List.filter_cons_of_pos (by simpa using h), if_pos h]
    simp
  · rw [List.filter_cons_of_neg (by simpa using h), if_neg h]
    simp

theorem clear_settled {e : KvEntry} (h : e.Usable) : Settled [] e e.clear := by
  obtain ⟨key, hkey⟩ := Option.isSome_iff_exists.mp h.key
  obtain ⟨out, hout⟩ := Option.isSome_iff_exists.mp h.outValue
  refine ⟨rfl, rfl, key, Function.update out 0 0, hkey, ?_, rfl, rfl, ?_⟩
  · unfold KvEntry.clear
    rw [hout]
    exact if_pos h.outSize
  · exact ⟨fun i hi => absurd hi (Nat.not_lt_zero i), Function.update_self ..⟩

theorem foldl_hear_settled {e : KvEntry} (h : e.Usable)
    (said : List (List UInt8 × List UInt8)) (htrim : ∀ s ∈ said, trim s.2 = s.2) :
    Settled said e (said.foldl KvEntry.hear e.clear) := by
  induction said using List.reverseRecOn with
  | nil => exact clear_settled h
  | append_singleton said s ih =>
    obtain ⟨hkey', hsize', key, out, hkey, hout, hshown⟩ :=
      ih fun s hs => htrim s (List.mem_append_left _ hs)
    rw [List.foldl_concat]
    generalize said.foldl KvEntry.hear e.clear = e' at *
    unfold KvEntry.hear
    split_ifs with hsame
    · rw [hkey', hkey] at hsame
      obtain ⟨out', hcopy, hholds, -⟩ := copyBytesTrimmed_spec s.2 out
        (hsize' ▸ h.outSize)
      rw [htrim s (List.mem_append_right _ List.mem_cons_self), hsize'] at hcopy
      rw [htrim s (List.mem_append_right _ List.mem_cons_self), hsize'] at hholds
      unfold KvEntry.put
      rw [hout, hsize', hcopy]
      refine ⟨hkey', rfl, key, out', hkey, rfl, ?_⟩
      rw [setting_concat, if_pos (Option.some.inj hsame).symm]
      exact ⟨rfl, rfl, hholds⟩
    · rw [hkey', hkey] at hsame
      refine ⟨hkey', hsize', key, out, hkey, hout, ?_⟩
      rw [setting_concat, if_neg fun h => hsame (congrArg some h.symm)]
      exact hshown

theorem clear_usable {e : KvEntry} (h : e.Usable) : e.clear.Usable := by
  obtain ⟨out, hout⟩ := Option.isSome_iff_exists.mp h.outValue
  refine ⟨h.key, ?_, h.outSize⟩
  unfold KvEntry.clear
  rw [hout]
  dsimp only
  rw [if_pos h.outSize]
  rfl

theorem trim_of_assignments {text : List UInt8} {s : List UInt8 × List UInt8}
    (h : s ∈ assignments text) : trim s.2 = s.2 := by
  obtain ⟨line, -, hs⟩ := List.mem_filterMap.mp h
  unfold assignment at hs
  dsimp only at hs
  split_ifs at hs
  rw [← Option.some.inj hs]
  exact trim_trim _

/-- For every text and every table of different keys, each entry shows behind
the parser what the text says last for its key. -/
theorem parseKeyValues_settles (text : List UInt8) (entries : List KvEntry)
    (husable : ∀ e ∈ entries, e.Usable)
    (hdistinct : (entries.map KvEntry.key).Nodup) :
    ∃ parsed, parseKeyValues (some text) (some entries) = (1, some parsed) ∧
      List.Forall₂ (Settled (assignments text)) entries parsed := by
  refine ⟨_, rfl, ?_⟩
  have hkeys : (entries.map KvEntry.clear).map KvEntry.key
      = entries.map KvEntry.key := by
    rw [List.map_map]
    rfl
  have hclear : ∀ e ∈ entries.map KvEntry.clear, e.Usable := by
    intro e he
    obtain ⟨e, hmem, rfl⟩ := List.mem_map.mp he
    exact clear_usable (husable e hmem)
  rw [parse_eq, foldl_step_eq_map _ hclear (hkeys ▸ hdistinct), List.map_map,
    List.forall₂_map_right_iff]
  refine List.forall₂_same.mpr fun e he => ?_
  exact foldl_hear_settled (husable e he) _ fun s hs => trim_of_assignments hs

/-- Two settings of `a`, the second one with a comment before it. -/
def sampleText : List UInt8 :=
  [0x61, 0x3D, 0x31, 0x0D, 0x0A, 0x23, 0x62, 0x3D, 0x0A, 0x20, 0x61, 0x20, 0x3D,
    0x20, 0x32, 0x33, 0x34, 0x20]

/-- Entries for `a` and `b`, with buffers of three bytes. -/
def sampleEntries : List KvEntry :=
  [⟨some [0x61], some fun _ => 0xFF, 3, 7, 7⟩,
    ⟨some [0x62], some fun _ => 0xFF, 3, 7, 7⟩]

theorem parseKeyValues_settles_sample :
    assignments sampleText = [([0x61], [0x31]), ([0x61], [0x32, 0x33, 0x34])] ∧
      ∃ parsed, parseKeyValues (some sampleText) (some sampleEntries)
          = (1, some parsed) ∧
        List.Forall₂ (Settled (assignments sampleText)) sampleEntries parsed := by
  refine ⟨by decide, parseKeyValues_settles sampleText sampleEntries ?_ (by decide)⟩
  intro e he
  simp only [sampleEntries, List.mem_cons, List.not_mem_nil, or_false] at he
  rcases he with rfl | rfl <;> exact ⟨rfl, rfl, by decide⟩

end Clks.Text
