/-
Creating a user.

The line of the new user is appended to the text as it is, whatever that
ends in, and the whole text is read again by every later call, into a
buffer of 4096 bytes. So the new user is found, and nobody is lost,
exactly if the text still fits and its last line is closed, or does not
matter to the new one (`create_keepsUsers_iff`).
-/
import Clks.User.Database
import Clks.User.RoundTrip

namespace Clks.User

-- ==== what a text contains

section texts

variable {text line x name : List UInt8} {q r : Record}

theorem findIn_eq (name text : List UInt8) :
    findIn name text = (records text).find? fun r => r.name = name := by
  unfold findIn records
  induction text.splitOn newline with
  | nil => rfl
  | cons piece pieces ih =>
    rw [List.findSome?_cons, List.filterMap_cons]
    cases parseLine piece with
    | none => exact ih
    | some r =>
      by_cases hr : r.name = name
      · simp [hr]
      · simp only [hr, if_false]
        rw [List.find?_cons_of_neg (by simp [hr])]
        exact ih

theorem find_eq (name text : List UInt8) :
    find name ⟨some text⟩
      = if nameValid name = true ∧ text.length < dbMax then
          (records text).find? fun r => r.name = name
        else none := by
  unfold find readDb
  cases hname : nameValid name with
  | false => simp
  | true =>
    by_cases hlen : text.length < dbMax
    · have hroom : ¬ dbMax < text.length + 1 := Nat.not_lt.mpr hlen
      simp [hroom, hlen, findIn_eq]
    · have hroom : dbMax < text.length + 1 :=
        Nat.lt_succ_of_le (Nat.le_of_not_lt hlen)
      simp [hroom, hlen]

/-- The last line of a text, without a newline behind it. -/
def lastLine (text : List UInt8) : List UInt8 :=
  (text.splitOn newline).getLast (List.splitOn_ne_nil newline text)

/-- The lines in front of the last one. -/
def closedLines (text : List UInt8) : List (List UInt8) :=
  (text.splitOn newline).dropLast

theorem splitOn_eq (text : List UInt8) :
    text.splitOn newline = closedLines text ++ [lastLine text] :=
  (List.dropLast_append_getLast (List.splitOn_ne_nil newline text)).symm

theorem parseLine_nil : parseLine [] = none := by decide

theorem records_eq (text : List UInt8) :
    records text = (closedLines text).filterMap parseLine
      ++ (parseLine (lastLine text)).toList := by
  unfold records
  rw [splitOn_eq, List.filterMap_append]
  cases h : parseLine (lastLine text) <;> simp [h]

theorem records_append (hline : newline ∉ line) :
    records (text ++ (line ++ [newline]))
      = (closedLines text).filterMap parseLine
        ++ (parseLine (lastLine text ++ line)).toList := by
  have hsplit : (text ++ (line ++ [newline])).splitOn newline
      = closedLines text ++ [lastLine text ++ line] ++ [[]] := by
    rw [← List.append_assoc, List.splitOn_append_cons_self,
      Fields.splitOn_append (splitOn_eq text) hline, List.splitOn_nil]
  unfold records
  rw [hsplit, List.filterMap_append, List.filterMap_append]
  cases h : parseLine (lastLine text ++ line) <;> simp [h, parseLine_nil]

-- ==== a longer line

theorem parseRecord_name (h : parseRecord line = some r) :
    r.name = (trim (copy recordMax line)).takeWhile (· ≠ colon) ∧
      colon ∈ trim (copy recordMax line) := by
  unfold parseRecord at h
  simp only [nextField] at h
  generalize trim (copy recordMax line) = tmp at h ⊢
  split_ifs at h with hguard
  cases hd : tmp.dropWhile (· ≠ colon) with
  | nil =>
    rw [hd] at h
    cases h
  | cons c rest =>
    rw [hd] at h
    have hcolon : colon ∈ tmp := by
      by_contra hno
      have hnil : tmp.dropWhile (· ≠ colon) = [] := by
        rw [List.dropWhile_eq_nil_iff]
        intro y hy
        rw [decide_eq_true_eq]
        intro heq
        exact hno (heq ▸ hy)
      rw [hd] at hnil
      cases hnil
    refine ⟨?_, hcolon⟩
    split at h
    · next name roleText hash home hname _ _ _ =>
      split_ifs at h with hcheck
      obtain ⟨uid, -, hr⟩ := Option.map_eq_some_iff.mp h
      have hvalid : nameValid name = true := by
        by_contra hno
        simp [hno] at hcheck
      have hshort := (nameValid_iff.mp hvalid).2.1
      have hcopy : copy nameMax name = name :=
        List.take_of_length_le (Nat.le_pred_of_lt hshort)
      rw [← hr]
      show copy nameMax name = _
      rw [hcopy]
      exact (Option.some.inj hname).symm
    · cases h

theorem takeWhile_append_prefix (p : UInt8 → Bool) (l x : List UInt8) :
    ∃ y, (l ++ x).takeWhile p = l.takeWhile p ++ y := by
  by_cases h : ∀ y ∈ l, p y = true
  · exact ⟨x.takeWhile p, by
      rw [List.takeWhile_append_of_pos h, List.takeWhile_eq_self_iff.mpr h]⟩
  · push Not at h
    have hcut : ∃ y ∈ l, p y = false := by
      obtain ⟨y, hy, hp⟩ := h
      exact ⟨y, hy, by simpa using hp⟩
    obtain ⟨a, z, b, rfl, ha, hz⟩ := Fields.cut_at_first hcut
    exact ⟨[], by
      rw [List.append_assoc, List.cons_append, Fields.takeWhile_sep ha hz,
        Fields.takeWhile_sep ha hz, List.append_nil]⟩

theorem cutLine_append (line x : List UInt8) :
    ∃ y, copy recordMax (cutLine (line ++ x))
      = copy recordMax (cutLine line) ++ y := by
  have hcut : ∀ l, copy recordMax (cutLine l) = cutLine l := by
    intro l
    apply List.take_of_length_le
    have h1 := (List.takeWhile_prefix (· ≠ (0 : UInt8))
      (l := l.take (recordMax - 1))).length_le
    have h2 := List.length_take_le (recordMax - 1) l
    exact Nat.le_trans h1 h2
  rw [hcut, hcut]
  unfold cutLine cstr
  rw [List.take_append]
  exact takeWhile_append_prefix _ _ _

theorem parseLine_append (hq : parseLine line = some q)
    (hr : parseLine (line ++ x) = some r) : r.name = q.name := by
  obtain ⟨y, hy⟩ := cutLine_append line x
  obtain ⟨hqn, hqc⟩ := parseRecord_name hq
  obtain ⟨hrn, -⟩ := parseRecord_name hr
  rw [hqn, hrn, hy]
  generalize copy recordMax (cutLine line) = l at hqc ⊢
  have hsep : ∃ z ∈ l.dropWhile isBlank, decide (z ≠ colon) = false :=
    ⟨colon, (List.rdropWhile_prefix isBlank _).subset hqc, by decide⟩
  have hq : ∀ z, decide (z ≠ colon) = false → isBlank z = false := by
    intro z hz
    have heq : z = colon := by simpa using hz
    rw [heq]
    exact blank_colon
  have hlong := Fields.takeWhile_trim_append hsep hq y
  have hshort := Fields.takeWhile_trim_append hsep hq []
  rw [List.append_nil] at hshort
  exact hlong.trans hshort.symm

end texts

-- ==== the new user

/-- The new user is found, and everyone who was found before is found as
before. -/
structure KeepsUsers (s s' : Storage) (r : Record) : Prop where
  added : find r.name s' = some r
  kept : ∀ name q, find name s = some q → find name s' = some q

/-- The text and the line of a record fit into the buffer that they are
read into, and the line is still read as the record where it stands. -/
structure HasRoom (text : List UInt8) (r : Record) : Prop where
  size : text.length + (recordLine r).length < dbMax
  line : parseLine (lastLine text ++ r.text) = some r

section create

variable {e : CreateEnv} {c : Caller} {name password text : List UInt8}
  {role : Role} {s : Storage} {r : Record}

theorem hexDigit_facts (d : UInt8) (h : isHexDigit d = true) :
    d ≠ colon ∧ d ≠ newline ∧ d ≠ 0 := by
  have hnot : ∀ b, isHexDigit b = false → d ≠ b := by
    intro b hb heq
    rw [heq, hb] at h
    cases h
  exact ⟨hnot _ (by decide), hnot _ (by decide), hnot _ (by decide)⟩

theorem homeFor_eq (hname : nameValid name = true) :
    homeFor name = txt "/home/" ++ name := by
  have hshort : name.length < 32 := (nameValid_iff.mp hname).2.1
  have hfirst : append homeMax [] (txt "/home/")
      = (txt "/home/").take (homeMax - 1) :=
    append_take (x := []) (by decide)
  unfold homeFor
  rw [hfirst, append_take (by decide)]
  apply List.take_of_length_le
  rw [List.length_append]
  show 6 + name.length ≤ 95
  omega

theorem newRecord_valid (password : List UInt8) (role : Role)
    (hname : nameValid name = true) :
    (newRecord name password role).Valid := by
  obtain ⟨hne, hshort, hchars⟩ := nameValid_iff.mp hname
  have hcopy : copy nameMax name = name :=
    List.take_of_length_le (Nat.le_pred_of_lt hshort)
  have hlt : name.length < 32 := hshort
  have hhome : (newRecord name password role).home = txt "/home/" ++ name :=
    homeFor_eq hname
  refine ⟨?_, (hashPassword_digits password).1, fun c hc =>
    hexDigit_facts c ((hashPassword_digits password).2 c hc), ?_, ?_, ?_⟩
  · show nameValid (copy nameMax name) = true
    rw [hcopy]
    exact hname
  · rw [hhome, List.length_append]
    show 6 + name.length < 96
    omega
  · rw [hhome]
    rfl
  · intro c hc
    rw [hhome] at hc
    cases List.mem_append.mp hc with
    | inl hpre =>
      have hall : ∀ c ∈ txt "/home/", c ≠ colon ∧ c ≠ newline ∧ c ≠ 0 := by
        decide +kernel
      exact hall c hpre
    | inr hin =>
      obtain ⟨-, h1, -, h2, h3⟩ := nameChar_facts c (hchars c hin)
      exact ⟨h1, h3, h2⟩

theorem newRecord_trimmed (password : List UInt8) (role : Role)
    (hname : nameValid name = true) :
    (newRecord name password role).Trimmed := by
  obtain ⟨hne, -, hchars⟩ := nameValid_iff.mp hname
  have hhome : (newRecord name password role).home = txt "/home/" ++ name :=
    homeFor_eq hname
  intro c hc
  rw [hhome, List.getLast?_append] at hc
  cases hlast : name.getLast? with
  | none => exact absurd (List.getLast?_eq_none_iff.mp hlast) hne
  | some d =>
    rw [hlast] at hc
    cases hc
    exact (nameChar_facts c (hchars c (List.mem_of_getLast? hlast))).1

theorem text_chars (h : r.Valid) {c : UInt8} (hc : c ∈ r.text) :
    c ≠ newline ∧ c ≠ 0 := by
  have hchar : ∀ c, isNameChar c = true → c ≠ newline ∧ c ≠ 0 := fun c hc =>
    ⟨(nameChar_facts c hc).2.2.2.2, (nameChar_facts c hc).2.2.2.1⟩
  have hrole : ∀ c ∈ roleText r.role, isNameChar c = true := by
    cases r.role <;> decide +kernel
  have hcolon : colon ≠ newline ∧ colon ≠ 0 := by decide
  unfold Record.text fieldText at hc
  simp only [List.mem_append, List.mem_cons] at hc
  cases hc with
  | inl hname => exact hchar c ((nameValid_iff.mp h.name).2.2 c hname)
  | inr hc =>
  cases hc with
  | inl heq => exact heq ▸ hcolon
  | inr hc =>
  cases hc with
  | inl hin => exact hchar c (hrole c hin)
  | inr hc =>
  cases hc with
  | inl heq => exact heq ▸ hcolon
  | inr hc =>
  cases hc with
  | inl hhash => exact (h.hash c hhash).2
  | inr hc =>
  cases hc with
  | inl heq => exact heq ▸ hcolon
  | inr hc =>
  cases hc with
  | inl hhome => exact (h.home c hhome).2
  | inr hc =>
  cases hc with
  | inl heq => exact heq ▸ hcolon
  | inr huid => exact hchar c (decDigits_char r.uid huid)

theorem newline_notMem_text (h : r.Valid) : newline ∉ r.text :=
  fun hc => (text_chars h hc).1 rfl

theorem length_decDigits_le (uid : UInt64) : (decDigits uid).length ≤ 32 := by
  unfold decDigits
  split_ifs
  · decide
  · rw [List.length_reverse]
    exact length_digitLoop_le 32 _

theorem length_newRecord_text (password : List UInt8) (role : Role)
    (hname : nameValid name = true) :
    (newRecord name password role).text.length + 1 < recordMax := by
  have hvalid := newRecord_valid password role hname
  have hshort := (nameValid_iff.mp hvalid.name).2.1
  have hrole : (roleText (newRecord name password role).role).length ≤ 5 := by
    cases (newRecord name password role).role <;> decide
  have hlen := hvalid.hashLen
  have hhome : (newRecord name password role).home.length ≤ 37 := by
    have heq : (newRecord name password role).home = txt "/home/" ++ name :=
      homeFor_eq hname
    have hlt : name.length < 32 := (nameValid_iff.mp hname).2.1
    rw [heq, List.length_append]
    show 6 + name.length ≤ 37
    omega
  have huid := length_decDigits_le (newRecord name password role).uid
  unfold Record.text fieldText
  simp only [List.length_append, List.length_cons]
  simp only [nameMax, hashHexLen, recordMax] at *
  omega

theorem recordLine_newRecord (hname : nameValid name = true) :
    recordLine (newRecord name password role)
      = (newRecord name password role).text ++ [newline] := by
  rw [recordLine_eq]
  apply List.take_of_length_le
  rw [List.length_append]
  exact Nat.le_pred_of_lt (length_newRecord_text password role hname)

theorem create_true (h : (create e c name password role s).1 = true) :
    nameValid name = true ∧
      find name ⟨some (s.db.getD [])⟩ = none ∧
      (create e c name password role s).2
        = ⟨some (s.db.getD []
            ++ recordLine (newRecord name password role))⟩ := by
  have hensure : (dbEnsure e.ensured s).1 = true →
      (dbEnsure e.ensured s).2 = ⟨some (s.db.getD [])⟩ := by
    intro hok
    unfold dbEnsure fsWriteAll at hok ⊢
    cases hdb : s.db with
    | none =>
      simp only [hdb, Option.isSome_none, Bool.false_eq_true, if_false] at hok ⊢
      split_ifs at hok ⊢
      rfl
    | some text =>
      simp only [Option.isSome_some, if_true]
      rw [← hdb]
      cases s
      simp_all
  unfold create at h ⊢
  simp only [] at h ⊢
  split_ifs at h ⊢ with hargs hold hhomes
  have hargs' : nameValid name = true := by
    by_contra hno
    simp [hno] at hargs
  have hready : (dbEnsure e.ensured s).1 = true := by
    by_contra hno
    simp [hno] at hold
  have hstate := hensure hready
  have hnew : find name ⟨some (s.db.getD [])⟩ = none := by
    rw [← hstate]
    cases hf : find name (dbEnsure e.ensured s).2 with
    | none => rfl
    | some q => simp [hf] at hold
  refine ⟨hargs', hnew, ?_⟩
  rw [hstate] at h ⊢
  unfold fsAppend at h ⊢
  split_ifs at h ⊢
  rfl

theorem keepsUsers_iff (hname : nameValid r.name = true)
    (hline : newline ∉ r.text) (hrec : recordLine r = r.text ++ [newline])
    (hnew : find r.name ⟨some text⟩ = none) :
    KeepsUsers ⟨some text⟩ ⟨some (text ++ recordLine r)⟩ r ↔
      HasRoom text r := by
  have hlen : (text ++ recordLine r).length
      = text.length + (recordLine r).length := List.length_append
  have hafter := @records_append text _ hline
  rw [← hrec] at hafter
  rw [find_eq] at hnew
  constructor
  · intro hkeeps
    have hadded := hkeeps.added
    rw [find_eq, hlen] at hadded
    split_ifs at hadded with hsize
    have hsmall : text.length < dbMax := by omega
    refine ⟨hsize.2, ?_⟩
    rw [if_pos ⟨hname, hsmall⟩, records_eq, List.find?_append,
      Option.or_eq_none_iff] at hnew
    rw [hafter, List.find?_append, hnew.1, Option.none_or] at hadded
    cases hp : parseLine (lastLine text ++ r.text) with
    | none =>
      rw [hp] at hadded
      cases hadded
    | some q =>
      rw [hp] at hadded
      have hmem := List.mem_of_find?_eq_some hadded
      rw [Option.toList_some, List.mem_singleton] at hmem
      rw [hmem]
  · intro hroom
    have hsize := hroom.size
    have hsmall : text.length < dbMax := by omega
    rw [if_pos ⟨hname, hsmall⟩, records_eq, List.find?_append,
      Option.or_eq_none_iff] at hnew
    constructor
    · rw [find_eq, hlen, if_pos ⟨hname, hsize⟩, hafter, List.find?_append,
        hnew.1, Option.none_or, hroom.line]
      simp
    · intro name q hq
      rw [find_eq] at hq ⊢
      split_ifs at hq with hold
      rw [hlen, if_pos ⟨hold.1, hsize⟩, hafter, List.find?_append]
      rw [records_eq, List.find?_append] at hq
      cases hclosed : ((closedLines text).filterMap parseLine).find?
          fun r => r.name = name with
      | some q' =>
        rw [hclosed] at hq
        exact hq
      | none =>
        -- The record would be in the last line, under the new name.
        rw [hclosed, Option.none_or] at hq
        cases hp : parseLine (lastLine text) with
        | none =>
          rw [hp] at hq
          cases hq
        | some q' =>
          have hsame := parseLine_append hp hroom.line
          have hlast := hnew.2
          rw [hp, Option.toList_some, List.find?_cons_of_pos (by simpa using hsame.symm)] at hlast
          cases hlast

/-- A user is added to the database, and nobody else is touched, exactly
if there is room for the new line. -/
theorem create_keepsUsers_iff
    (h : (create e c name password role s).1 = true) :
    KeepsUsers s (create e c name password role s).2
        (newRecord name password role) ↔
      HasRoom (s.db.getD []) (newRecord name password role) := by
  obtain ⟨hname, hnew, hafter⟩ := create_true h
  have hvalid := newRecord_valid password role hname
  have hcopy : (newRecord name password role).name = name :=
    List.take_of_length_le (Nat.le_pred_of_lt (nameValid_iff.mp hname).2.1)
  have hiff := @keepsUsers_iff (s.db.getD []) _ hvalid.name
    (newline_notMem_text hvalid) (recordLine_newRecord hname) (by
      rw [hcopy]
      exact hnew)
  rw [hafter]
  cases hdb : s.db with
  | some text =>
    have hs : s = ⟨some text⟩ := by
      cases s
      exact congrArg Storage.mk hdb
    rw [hdb] at hiff
    rw [hs]
    exact hiff
  | none =>
    rw [hdb] at hiff
    rw [← hiff]
    have hnone : ∀ name, find name s = none := by
      intro name
      unfold find readDb
      rw [hdb]
      split_ifs <;> rfl
    have hempty : ∀ name, find name ⟨some ([] : List UInt8)⟩ = none := by
      intro name
      have hrec : records [] = [] := by decide
      rw [find_eq, hrec]
      split_ifs <;> rfl
    constructor
    · intro hkeeps
      refine ⟨hkeeps.added, fun name q hq => ?_⟩
      have hq' : find name ⟨some ([] : List UInt8)⟩ = some q := hq
      rw [hempty] at hq'
      cases hq'
    · intro hkeeps
      refine ⟨hkeeps.added, fun name q hq => ?_⟩
      rw [hnone] at hq
      cases hq

end create

-- ==== an open line

/-- A database whose last line has no newline behind it. -/
def openDb : Storage :=
  ⟨some (txt "root:root:" ++ List.replicate 64 0x30 ++ txt ":/:0")⟩

/-- The administrator. -/
def rootCaller : Caller := ⟨true, .admin, txt "root"⟩

/-- Every file operation succeeds. -/
def readyEnv : CreateEnv := ⟨⟨true, none⟩, true, true, ⟨true, none⟩⟩

/-- The new user is created, and the administrator is not found any
more. -/
theorem openDb_not_keepsUsers :
    (create readyEnv rootCaller (txt "bob") (txt "pw") .user openDb).1 = true ∧
      ¬ KeepsUsers openDb
        (create readyEnv rootCaller (txt "bob") (txt "pw") .user openDb).2
        (newRecord (txt "bob") (txt "pw") .user) := by
  refine ⟨by decide +kernel, fun h => ?_⟩
  have hroot : (find (txt "root") openDb).isSome = true := by decide +kernel
  obtain ⟨q, hq⟩ := Option.isSome_iff_exists.mp hroot
  have hgone : find (txt "root")
      (create readyEnv rootCaller (txt "bob") (txt "pw") .user openDb).2
      = none := by decide +kernel
  have hkept := h.kept _ q hq
  rw [hgone] at hkept
  cases hkept

/-- The same with a newline behind it. -/
theorem create_keepsUsers_iff_closed :
    KeepsUsers ⟨openDb.db.map (· ++ [newline])⟩
        (create readyEnv rootCaller (txt "bob") (txt "pw") .user
          ⟨openDb.db.map (· ++ [newline])⟩).2
        (newRecord (txt "bob") (txt "pw") .user) ↔
      HasRoom ((openDb.db.map (· ++ [newline])).getD [])
        (newRecord (txt "bob") (txt "pw") .user) :=
  create_keepsUsers_iff (by decide +kernel)

end Clks.User
