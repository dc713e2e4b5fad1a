/-
A record read back from its line.

The line of a record has up to 220 characters and the buffer that it is
built in holds 191, so the uid, and the end of the home, of a long record
are cut off; what is left of the uid is read as another number
(`parse_recordLine_iff`).
-/
import Clks.Lib.Fields
import Clks.User.Record

namespace Clks.User

-- ==== the buffer

section buffer

variable {size : Nat} {x src : List UInt8}

theorem take_take_append (n : Nat) (x src : List UInt8) :
    (x.take n ++ src).take n = (x ++ src).take n := by
  rw [List.take_append, List.take_append, List.take_take, Nat.min_self]
  by_cases h : x.length ≤ n
  · rw [List.take_of_length_le h]
  · have hlen : n - (x.take n).length = 0 := by
      rw [List.length_take]
      omega
    have hlen' : n - x.length = 0 := by omega
    rw [hlen, hlen']

theorem append_take (h : 0 < size) :
    append size (x.take (size - 1)) src = (x ++ src).take (size - 1) := by
  have hlen : (x.take (size - 1)).length ≤ size - 1 := List.length_take_le _ _
  unfold append copy
  rw [if_neg (by omega), ← take_take_append, List.take_append,
    List.take_of_length_le hlen]
  congr 2
  omega

theorem foldl_append_take (h : 0 < size) :
    src.foldl (fun out c => append size out [c]) (x.take (size - 1))
      = (x ++ src).take (size - 1) := by
  induction src generalizing x with
  | nil => rw [List.append_nil, List.foldl_nil]
  | cons c src ih =>
    rw [List.foldl_cons, append_take h, ih, List.append_assoc,
      List.singleton_append]

end buffer

-- ==== the text of a line

/-- The fields of a line. -/
def fieldText (name role hash home : List UInt8)
    (uidText : Option (List UInt8)) : List UInt8 :=
  name ++ colon :: (role ++ colon :: (hash ++ colon ::
    (home ++ match uidText with
      | none => []
      | some u => colon :: u)))

/-- The text of a record, not cut off. -/
def Record.text (r : Record) : List UInt8 :=
  fieldText r.name (roleText r.role) r.hash r.home (some (decDigits r.uid))

theorem recordLine_eq (r : Record) :
    recordLine r = (r.text ++ [newline]).take (recordMax - 1) := by
  have hpos : 0 < recordMax := by decide
  have hfirst : append recordMax [] r.name = r.name.take (recordMax - 1) :=
    append_take (x := []) hpos
  unfold recordLine appendU64Dec
  simp only []
  rw [hfirst, append_take hpos, append_take hpos, append_take hpos,
    append_take hpos, append_take hpos, append_take hpos, append_take hpos,
    foldl_append_take hpos, append_take hpos]
  unfold Record.text fieldText
  simp only [List.append_assoc, List.cons_append, List.nil_append]

-- ==== reading a line

section parse

variable {name role hash home : List UInt8} {u : Option (List UInt8)}

theorem blank_colon : isBlank colon = false := by decide

theorem nameChar_facts (c : UInt8) (h : isNameChar c = true) :
    isBlank c = false ∧ c ≠ colon ∧ c ≠ chr '#' ∧ c ≠ 0 ∧ c ≠ newline := by
  have hall : ∀ n < 256, isNameChar (UInt8.ofNat n) = true →
      isBlank (UInt8.ofNat n) = false ∧ UInt8.ofNat n ≠ colon ∧
        UInt8.ofNat n ≠ chr '#' ∧ UInt8.ofNat n ≠ 0 ∧
        UInt8.ofNat n ≠ newline := by
    decide +kernel
  have hc := hall c.toNat c.toNat_lt
  rw [UInt8.ofNat_toNat] at hc
  exact hc h

theorem nameValid_iff : nameValid name = true ↔
    name ≠ [] ∧ name.length < nameMax ∧ ∀ c ∈ name, isNameChar c = true := by
  unfold nameValid
  simp [and_assoc]

theorem nextField_colon {a b : List UInt8} (ha : colon ∉ a) :
    nextField (some (a ++ colon :: b)) = (some a, some b) := by
  have hall : ∀ y ∈ a, decide (y ≠ colon) = true := by
    intro y hy
    rw [decide_eq_true_eq]
    intro heq
    exact ha (heq ▸ hy)
  have hsep : decide (colon ≠ colon) = false := by decide
  simp only [nextField]
  rw [Fields.takeWhile_sep hall hsep, Fields.dropWhile_sep hall hsep]

theorem nextField_last {a : List UInt8} (ha : colon ∉ a) :
    nextField (some a) = (some a, none) := by
  have hall : ∀ y ∈ a, decide (y ≠ colon) = true := by
    intro y hy
    rw [decide_eq_true_eq]
    intro heq
    exact ha (heq ▸ hy)
  simp only [nextField]
  rw [List.takeWhile_eq_self_iff.mpr hall, List.dropWhile_eq_nil_iff.mpr hall]

theorem trim_fieldText (hname : nameValid name = true) :
    trim (fieldText name role hash home u)
      = name ++ colon :: (role ++ colon :: (hash ++ colon ::
          match u with
          | none => home.rdropWhile isBlank
          | some u => home ++ colon :: u.rdropWhile isBlank)) := by
  obtain ⟨hne, -, hchars⟩ := nameValid_iff.mp hname
  have hleft : (fieldText name role hash home u).dropWhile isBlank
      = fieldText name role hash home u := by
    unfold fieldText
    cases name with
    | nil => exact absurd rfl hne
    | cons c name =>
      have hc := (nameChar_facts c (hchars c List.mem_cons_self)).1
      rw [List.cons_append, List.dropWhile_cons_of_neg (by simp [hc])]
  unfold trim
  rw [hleft]
  unfold fieldText
  rw [Fields.rdropWhile_append_cons blank_colon,
    Fields.rdropWhile_append_cons blank_colon,
    Fields.rdropWhile_append_cons blank_colon]
  cases u with
  | none => simp only [List.append_nil]
  | some u => simp only [Fields.rdropWhile_append_cons blank_colon]

theorem trim_home (hslash : home.head? = some slash) :
    (trim home).head? = some slash := by
  cases home with
  | nil => cases hslash
  | cons c home =>
    cases hslash
    have hnot : isBlank slash = false := by decide
    unfold trim
    rw [List.dropWhile_cons_of_neg (by simp [hnot]),
      ← List.nil_append (slash :: home),
      Fields.rdropWhile_append_cons hnot]
    rfl

theorem trim_trimRight (t : List UInt8) :
    trim (t.rdropWhile isBlank) = trim t :=
  Fields.trim_rdropWhile t

theorem uidOf_trimRight (name t : List UInt8) :
    uidOf name (some (t.rdropWhile isBlank)) = uidOf name (some t) := by
  unfold uidOf
  simp only [trim_trimRight]

theorem parseRecord_fields (hname : nameValid name = true)
    (hrole : colon ∉ role) (hlen : hash.length = hashHexLen)
    (hhash : colon ∉ hash) (hslash : home.head? = some slash)
    (hhome : colon ∉ home)
    (hfits : (fieldText name role hash home u).length < recordMax) :
    parseRecord (fieldText name role hash home u)
      = (uidOf name u).map fun uid =>
          { uid, role := roleOf role, name, hash
            home := copy homeMax (trim home) } := by
  obtain ⟨hne, hshort, hchars⟩ := nameValid_iff.mp hname
  have hcopy : copy recordMax (fieldText name role hash home u)
      = fieldText name role hash home u :=
    List.take_of_length_le (Nat.le_pred_of_lt hfits)
  have hcolon : colon ∉ name := fun hc =>
    (nameChar_facts colon (hchars colon hc)).2.1 rfl
  have hnameCopy : copy nameMax name = name :=
    List.take_of_length_le (Nat.le_pred_of_lt hshort)
  have hhashCopy : copy (hashHexLen + 1) hash = hash :=
    List.take_of_length_le (by rw [hlen]; decide)
  have hguard : ∀ rest, ¬ (name ++ colon :: rest = [] ∨
      (name ++ colon :: rest).head? = some (chr '#')) := by
    intro rest
    cases name with
    | nil => exact absurd rfl hne
    | cons c name =>
      have hc := (nameChar_facts c (hchars c List.mem_cons_self)).2.2.1
      simpa using hc
  have hvalid : (!nameValid name || decide (hash.length ≠ hashHexLen) ||
      decide ((trim home).head? ≠ some slash)) = false := by
    simp [hname, hlen, trim_home hslash]
  unfold parseRecord
  rw [hcopy, trim_fieldText hname]
  simp only [if_neg (hguard _), nextField_colon hcolon,
    nextField_colon hrole, nextField_colon hhash]
  cases u with
  | none =>
    have hlast : colon ∉ home.rdropWhile isBlank := fun hc =>
      hhome ((List.rdropWhile_prefix isBlank home).subset hc)
    simp only [nextField_last hlast, trim_trimRight, hvalid, hnameCopy,
      hhashCopy]
    rfl
  | some u =>
    simp only [nextField_colon hhome, hvalid, hnameCopy, hhashCopy,
      uidOf_trimRight]
    rfl

end parse

-- ==== the digits

section digits

variable {room v : Nat}

theorem digit_facts {d : Nat} (h : d < 10) :
    ¬(UInt8.ofNat (0x30 + d) < chr '0' ∨ chr '9' < UInt8.ofNat (0x30 + d)) ∧
      (UInt8.ofNat (0x30 + d) - chr '0').toNat = d := by
  have hall : ∀ d < 10,
      ¬(UInt8.ofNat (0x30 + d) < chr '0' ∨ chr '9' < UInt8.ofNat (0x30 + d)) ∧
        (UInt8.ofNat (0x30 + d) - chr '0').toNat = d := by decide
  exact hall d h

theorem parseDecLoop_cons (c : UInt8) (text : List UInt8) (value : Nat) :
    parseDecLoop (c :: text) value
      = if c < chr '0' ∨ chr '9' < c then none
        else
          let digit := (c - chr '0').toNat
          if (2 ^ 64 - 1 - digit) / 10 < value then none
          else parseDecLoop text (value * 10 + digit) := rfl

theorem parseDecLoop_append (a b : List UInt8) (value : Nat) :
    parseDecLoop (a ++ b) value
      = (parseDecLoop a value).bind (parseDecLoop b) := by
  induction a generalizing value with
  | nil => rfl
  | cons c a ih =>
    rw [List.cons_append, parseDecLoop_cons, parseDecLoop_cons]
    split_ifs
    · rfl
    · simp only []
      split_ifs
      · rfl
      · exact ih _

theorem parseDecLoop_digit {d : Nat} (hd : d < 10)
    (h : v * 10 + d < 2 ^ 64) :
    parseDecLoop [UInt8.ofNat (0x30 + d)] v = some (v * 10 + d) := by
  obtain ⟨hrange, hval⟩ := digit_facts hd
  have hroom : ¬ (2 ^ 64 - 1 - d) / 10 < v := by omega
  unfold parseDecLoop
  rw [if_neg hrange]
  simp only [hval]
  rw [if_neg hroom]
  rfl

theorem parseDecLoop_digitLoop (hv : v < 10 ^ room) (h : v < 2 ^ 64) :
    parseDecLoop (digitLoop room v).reverse 0 = some v := by
  induction room generalizing v with
  | zero =>
    have hzero : v = 0 := by omega
    subst hzero
    rfl
  | succ room ih =>
    unfold digitLoop
    split_ifs with hzero
    · rw [hzero]
      rfl
    · have hdiv : v / 10 < 10 ^ room := by
        rw [Nat.pow_succ] at hv
        omega
      rw [List.reverse_cons, parseDecLoop_append, ih hdiv (by omega)]
      have hdigit := parseDecLoop_digit (v := v / 10)
        (Nat.mod_lt v (by decide : 0 < 10)) (by omega)
      rw [Option.bind_some, hdigit]
      congr 1
      omega

theorem drop_digitLoop (room v k : Nat) :
    (digitLoop room v).drop k = digitLoop (room - k) (v / 10 ^ k) := by
  induction k generalizing room v with
  | zero => simp
  | succ k ih =>
    cases room with
    | zero => simp [digitLoop]
    | succ room =>
      have hone : (digitLoop (room + 1) v).drop 1
          = digitLoop room (v / 10) := by
        rw [digitLoop]
        split_ifs with hzero
        · rw [hzero]
          cases room <;> rfl
        · rfl
      rw [Nat.add_comm k 1, ← List.drop_drop, hone, ih, Nat.div_div_eq_div_mul,
        ← Nat.pow_succ', Nat.add_comm 1 k, Nat.add_sub_add_right]

theorem length_digitLoop_le (room v : Nat) :
    (digitLoop room v).length ≤ room := by
  induction room generalizing v with
  | zero => exact Nat.le_refl 0
  | succ room ih =>
    unfold digitLoop
    split_ifs
    · exact Nat.zero_le _
    · exact Nat.succ_le_succ (ih _)

theorem decDigits_ne_nil (uid : UInt64) : decDigits uid ≠ [] := by
  unfold decDigits
  split_ifs with hzero
  · decide
  · have hnat : uid.toNat ≠ 0 := fun h => hzero (UInt64.toNat_inj.mp h)
    intro hnil
    rw [List.reverse_eq_nil_iff, digitLoop, if_neg hnat] at hnil
    cases hnil

theorem parse_cut_digits (uid : UInt64) {n : Nat} (hpos : 0 < n)
    (hn : n ≤ (decDigits uid).length) :
    parseU64Dec ((decDigits uid).take n)
      = some (UInt64.ofNat
          (uid.toNat / 10 ^ ((decDigits uid).length - n))) := by
  have hne : (decDigits uid).take n ≠ [] := by
    intro hnil
    cases List.take_eq_nil_iff.mp hnil with
    | inl hzero => omega
    | inr hnone => exact decDigits_ne_nil uid hnone
  unfold parseU64Dec
  rw [if_neg hne]
  have hlt := uid.toNat_lt
  by_cases hzero : uid = 0
  · subst hzero
    have hlen : (decDigits 0).length = 1 := by decide
    have hone : n = 1 := by omega
    subst hone
    decide
  · have hdigits : decDigits uid = (digitLoop 32 uid.toNat).reverse :=
      if_neg hzero
    have hroom := length_digitLoop_le 32 uid.toNat
    rw [hdigits, List.length_reverse] at hn
    rw [hdigits, List.length_reverse, List.take_reverse, drop_digitLoop]
    have hk : (digitLoop 32 uid.toNat).length - n ≤ 32 := by omega
    generalize (digitLoop 32 uid.toNat).length - n = k at hk ⊢
    have hdiv : uid.toNat / 10 ^ k ≤ uid.toNat := Nat.div_le_self _ _
    have hsmall : uid.toNat / 10 ^ k < 10 ^ (32 - k) := by
      apply Nat.div_lt_of_lt_mul
      rw [← Nat.pow_add, Nat.add_sub_cancel' hk]
      omega
    rw [parseDecLoop_digitLoop hsmall (by omega)]
    rfl

theorem parse_decDigits (uid : UInt64) :
    parseU64Dec (decDigits uid) = some uid := by
  have hpos := List.length_pos_iff.mpr (decDigits_ne_nil uid)
  have h := parse_cut_digits uid hpos (Nat.le_refl _)
  rw [List.take_length, Nat.sub_self, Nat.pow_zero, Nat.div_one,
    UInt64.ofNat_toNat] at h
  exact h

theorem parse_fewer_digits (uid : UInt64) {n : Nat} (hpos : 0 < n)
    (hn : n < (decDigits uid).length) :
    parseU64Dec ((decDigits uid).take n) ≠ some uid := by
  rw [parse_cut_digits uid hpos (Nat.le_of_lt hn)]
  intro h
  have hnat := congrArg UInt64.toNat (Option.some.inj h)
  have hlt := uid.toNat_lt
  have hdiv : uid.toNat / 10 ^ ((decDigits uid).length - n) ≤ uid.toNat :=
    Nat.div_le_self _ _
  rw [UInt64.toNat_ofNat', Nat.mod_eq_of_lt (by omega)] at hnat
  have hzero : uid ≠ 0 := by
    intro hz
    subst hz
    have hone : (decDigits 0).length = 1 := by decide
    omega
  have huid : 0 < uid.toNat := by
    apply Nat.pos_of_ne_zero
    intro hz
    exact hzero (UInt64.toNat_inj.mp hz)
  have hless := Nat.div_lt_self huid
    (Nat.one_lt_pow (by omega : (decDigits uid).length - n ≠ 0)
      (by decide : 1 < 10))
  omega

theorem decDigits_char (uid : UInt64) {c : UInt8} (hc : c ∈ decDigits uid) :
    isNameChar c = true := by
  have hdigit : ∀ d < 10, isNameChar (UInt8.ofNat (0x30 + d)) = true := by
    decide
  have hloop : ∀ room v, ∀ c ∈ digitLoop room v, isNameChar c = true := by
    intro room
    induction room with
    | zero =>
      intro v c hc
      cases hc
    | succ room ih =>
      intro v c hc
      unfold digitLoop at hc
      split_ifs at hc
      · cases hc
      · cases List.mem_cons.mp hc with
        | inl h =>
          rw [h]
          exact hdigit _ (Nat.mod_lt _ (by decide))
        | inr h => exact ih _ c h
  unfold decDigits at hc
  split_ifs at hc
  · have hone : ∀ c ∈ txt "0", isNameChar c = true := by decide +kernel
    exact hone c hc
  · exact hloop _ _ c (List.mem_reverse.mp hc)

end digits

-- ==== the round trip

/-- A record with the fields that the buffers of the code hold. -/
structure Record.Valid (r : Record) : Prop where
  name : nameValid r.name = true
  hashLen : r.hash.length = hashHexLen
  hash : ∀ c ∈ r.hash, c ≠ colon ∧ c ≠ newline ∧ c ≠ 0
  homeLen : r.home.length < homeMax
  slash : r.home.head? = some slash
  home : ∀ c ∈ r.home, c ≠ colon ∧ c ≠ newline ∧ c ≠ 0

/-- The home does not end in a blank. -/
def Record.Trimmed (r : Record) : Prop :=
  ∀ c, r.home.getLast? = some c → isBlank c = false

/-- The text up to the colon in front of the uid. -/
def Record.body (r : Record) : List UInt8 :=
  fieldText r.name (roleText r.role) r.hash r.home none

/-- No blank is trimmed off, and the text of a record fits into its line,
or only the uid is cut off, all of it, and it is the one that the name
stands for. -/
def Record.Fits (r : Record) : Prop :=
  r.Trimmed ∧
    (r.text.length < recordMax ∨
      r.body.length < recordMax ∧ recordMax ≤ r.body.length + 2 ∧
        r.uid = uidForName r.name)

section roundTrip

variable {r : Record}

theorem text_eq (r : Record) : r.text = r.body ++ colon :: decDigits r.uid := by
  unfold Record.text Record.body fieldText
  simp only [List.append_nil, List.append_assoc, List.cons_append]

theorem roleOf_roleText (role : Role) : roleOf (roleText role) = role := by
  cases role <;> decide

theorem colon_notMem_roleText (role : Role) : colon ∉ roleText role := by
  cases role <;> decide

theorem Record.Valid.trim_home (h : r.Valid) (ht : r.Trimmed) :
    trim r.home = r.home := by
  apply Fields.trim_self
  · intro c hc
    rw [h.slash] at hc
    cases hc
    decide
  · exact ht

theorem Record.Valid.colon_hash (h : r.Valid) : colon ∉ r.hash :=
  fun hc => (h.hash colon hc).1 rfl

theorem Record.Valid.parse (h : r.Valid) {home : List UInt8}
    {u : Option (List UInt8)} (hslash : home.head? = some Clks.slash)
    (hhome : colon ∉ home)
    (hfits : (fieldText r.name (roleText r.role) r.hash home u).length
      < recordMax) :
    parseRecord (fieldText r.name (roleText r.role) r.hash home u)
      = (uidOf r.name u).map fun uid =>
          { r with uid, home := copy homeMax (trim home) } := by
  rw [parseRecord_fields h.name (colon_notMem_roleText r.role) h.hashLen
    h.colon_hash hslash hhome hfits, roleOf_roleText]

theorem Record.Valid.parse_home (h : r.Valid) (ht : r.Trimmed)
    {u : Option (List UInt8)}
    (hfits : (fieldText r.name (roleText r.role) r.hash r.home u).length
      < recordMax) :
    parseRecord (fieldText r.name (roleText r.role) r.hash r.home u)
      = (uidOf r.name u).map fun uid => { r with uid } := by
  have hcopy : copy homeMax r.home = r.home :=
    List.take_of_length_le (Nat.le_pred_of_lt h.homeLen)
  rw [h.parse h.slash (fun hc => (h.home _ hc).1 rfl) hfits, h.trim_home ht,
    hcopy]

theorem trim_digits {ds : List UInt8} (hds : ∀ c ∈ ds, isNameChar c = true) :
    trim ds = ds ∧ trim (ds ++ [newline]) = ds := by
  have hself : trim ds = ds := by
    apply Fields.trim_self
    · intro c hc
      exact (nameChar_facts c (hds c (List.mem_of_mem_head? hc))).1
    · intro c hc
      exact (nameChar_facts c (hds c (List.mem_of_getLast? hc))).1
  refine ⟨hself, ?_⟩
  rw [← trim_trimRight, List.rdropWhile_concat_pos _ _ _ (by decide),
    trim_trimRight, hself]

theorem uidOf_digits {name ds : List UInt8} (hne : ds ≠ [])
    (hds : ∀ c ∈ ds, isNameChar c = true) :
    uidOf name (some ds) = parseU64Dec ds ∧
      uidOf name (some (ds ++ [newline])) = parseU64Dec ds := by
  obtain ⟨hself, hline⟩ := trim_digits hds
  unfold uidOf
  simp only [hself, hline, if_neg hne, and_self]

theorem Record.Valid.parse_text (h : r.Valid) (ht : r.Trimmed)
    (hfits : r.text.length < recordMax) : parseRecord r.text = some r := by
  have hdigits : ∀ c ∈ decDigits r.uid, isNameChar c = true :=
    fun c hc => decDigits_char r.uid hc
  unfold Record.text at hfits ⊢
  rw [h.parse_home ht hfits, (uidOf_digits (decDigits_ne_nil r.uid) hdigits).1,
    parse_decDigits]
  rfl

theorem Record.Valid.parse_whole (h : r.Valid) (ht : r.Trimmed)
    (hfits : r.text.length < recordMax) :
    parseRecord (recordLine r) = some r := by
  have hdigits : ∀ c ∈ decDigits r.uid, isNameChar c = true :=
    fun c hc => decDigits_char r.uid hc
  have hline :=
    (@uidOf_digits r.name _ (decDigits_ne_nil r.uid) hdigits).2
  rw [recordLine_eq]
  by_cases hroom : r.text.length + 1 < recordMax
  · have hsame : (r.text ++ [newline]).take (recordMax - 1)
        = fieldText r.name (roleText r.role) r.hash r.home
            (some (decDigits r.uid ++ [newline])) := by
      rw [List.take_of_length_le (by
        rw [List.length_append]
        exact Nat.le_pred_of_lt hroom)]
      unfold Record.text fieldText
      simp only [List.append_assoc, List.cons_append]
    have hlen : (fieldText r.name (roleText r.role) r.hash r.home
        (some (decDigits r.uid ++ [newline]))).length < recordMax := by
      rw [← hsame]
      exact Nat.lt_of_le_of_lt (List.length_take_le _ _) (by decide)
    rw [hsame, h.parse_home ht hlen, hline, parse_decDigits]
    rfl
  · have hsame : (r.text ++ [newline]).take (recordMax - 1) = r.text :=
      List.take_left' (by show _ = 191; simp only [recordMax] at *; omega)
    rw [hsame]
    exact h.parse_text ht hfits

theorem Record.Valid.home_starts (h : r.Valid) :
    ∃ pre : List UInt8, pre.length < 104 ∧
      ∀ home, fieldText r.name (roleText r.role) r.hash home none
        = pre ++ home := by
  have hname : r.name.length < 32 := (nameValid_iff.mp h.name).2.1
  have hhash : r.hash.length = 64 := h.hashLen
  have hrole : (roleText r.role).length ≤ 5 := by
    cases r.role <;> decide
  refine ⟨r.name ++ colon :: (roleText r.role ++ colon :: (r.hash ++ [colon])),
    ?_, fun home => ?_⟩
  · simp only [List.length_append, List.length_cons, List.length_nil]
    omega
  · unfold fieldText
    simp only [List.append_nil, List.append_assoc, List.cons_append,
      List.nil_append]

theorem Record.Valid.parse_cut (h : r.Valid) (ht : r.Trimmed)
    (hlong : recordMax ≤ r.text.length) :
    parseRecord (recordLine r) = some r ↔
      r.body.length < recordMax ∧ recordMax ≤ r.body.length + 2 ∧
        r.uid = uidForName r.name := by
  have hmax : recordMax - 1 ≤ r.text.length :=
    Nat.le_trans (Nat.sub_le _ _) hlong
  rw [recordLine_eq, List.take_append_of_le_length hmax, text_eq]
  rw [text_eq, List.length_append, List.length_cons] at hlong
  have hdefault : ∀ u, uidOf r.name u = some (uidForName r.name) →
      (fieldText r.name (roleText r.role) r.hash r.home u).length < recordMax →
      (parseRecord (fieldText r.name (roleText r.role) r.hash r.home u)
        = some r ↔ r.uid = uidForName r.name) := by
    intro u hu hlen
    rw [h.parse_home ht hlen, hu, Option.map_some, Option.some_inj]
    constructor
    · intro heq
      rw [← heq]
    · intro heq
      rw [← heq]
  by_cases hbody : r.body.length < recordMax
  swap
  · -- The home is cut off.
    have hover : 192 ≤ r.body.length := Nat.le_of_not_lt hbody
    have hcut : parseRecord ((r.body ++ colon :: decDigits r.uid).take
        (recordMax - 1)) ≠ some r := by
      rw [List.take_append_of_le_length (by
        show 191 ≤ _
        omega)]
      obtain ⟨pre, hpre, hstarts⟩ := h.home_starts
      have hhome : r.body = pre ++ r.home := hstarts r.home
      have hlen : r.body.length = pre.length + r.home.length := by
        rw [hhome, List.length_append]
      have hn : recordMax - 1 = pre.length + (191 - pre.length) := by
        show 191 = _
        omega
      rw [hhome, hn, List.take_length_add_append, ← hstarts]
      have hslash : (r.home.take (191 - pre.length)).head?
          = some Clks.slash := by
        rw [List.head?_take, if_neg (by omega)]
        exact h.slash
      have hcolon : colon ∉ r.home.take (191 - pre.length) := fun hc =>
        (h.home _ (List.mem_of_mem_take hc)).1 rfl
      have hshort : (fieldText r.name (roleText r.role) r.hash
          (r.home.take (191 - pre.length)) none).length < recordMax := by
        rw [hstarts, List.length_append, List.length_take]
        show _ < 192
        omega
      rw [h.parse hslash hcolon hshort]
      intro heq
      obtain ⟨uid, -, hr⟩ := Option.map_eq_some_iff.mp heq
      have hless : (copy homeMax (trim (r.home.take (191 - pre.length)))).length
          = r.home.length := by
        have := congrArg (fun r => r.home.length) hr
        exact this
      have htrim : (trim (r.home.take (191 - pre.length))).length
          ≤ 191 - pre.length := by
        unfold trim
        have h1 := (List.rdropWhile_prefix isBlank
          ((r.home.take (191 - pre.length)).dropWhile isBlank)).length_le
        have h2 := (List.dropWhile_sublist isBlank
          (l := r.home.take (191 - pre.length))).length_le
        have h3 := List.length_take_le (191 - pre.length) r.home
        omega
      have hcopy := List.length_take_le' (homeMax - 1)
        (trim (r.home.take (191 - pre.length)))
      unfold copy at hless
      omega
    exact ⟨fun hr => absurd hr hcut, fun hr => absurd hr.1 hbody⟩
  · have hunder : r.body.length ≤ 191 := Nat.le_of_lt_succ hbody
    have hover : 192 ≤ r.body.length + ((decDigits r.uid).length + 1) := hlong
    have hline : (r.body ++ colon :: decDigits r.uid).take (recordMax - 1)
        = r.body ++ (colon :: decDigits r.uid).take (191 - r.body.length) := by
      show (r.body ++ colon :: decDigits r.uid).take 191 = _
      rw [List.take_append, List.take_of_length_le hunder]
    rw [hline]
    by_cases hnone : r.body.length = 191
    · -- Nothing of the uid is left, nor the colon.
      have hzero : 191 - r.body.length = 0 := by omega
      have hroom : recordMax ≤ r.body.length + 2 := by
        show 192 ≤ _
        omega
      rw [hzero, List.take_zero, List.append_nil]
      have hiff : parseRecord r.body = some r ↔ r.uid = uidForName r.name :=
        hdefault none rfl hbody
      rw [hiff]
      exact ⟨fun hr => ⟨hbody, hroom, hr⟩, fun hr => hr.2.2⟩
    · obtain ⟨n, hn⟩ : ∃ n, 191 - r.body.length = n + 1 :=
        ⟨190 - r.body.length, by omega⟩
      have hu : r.body ++ colon :: (decDigits r.uid).take n
          = fieldText r.name (roleText r.role) r.hash r.home
              (some ((decDigits r.uid).take n)) := by
        unfold Record.body fieldText
        simp only [List.append_nil, List.append_assoc, List.cons_append]
      have hlen : (fieldText r.name (roleText r.role) r.hash r.home
          (some ((decDigits r.uid).take n))).length < recordMax := by
        rw [← hu, List.length_append, List.length_cons, List.length_take]
        show _ < 192
        omega
      rw [hn, List.take_succ_cons, hu]
      by_cases hzero : n = 0
      · rw [hzero] at hlen ⊢
        rw [hdefault (some ((decDigits r.uid).take 0)) rfl hlen]
        have hroom : recordMax ≤ r.body.length + 2 := by
          show 192 ≤ _
          omega
        exact ⟨fun hr => ⟨hbody, hroom, hr⟩, fun hr => hr.2.2⟩
      · -- Some of the digits are left.
        have hpos : 0 < n := Nat.pos_of_ne_zero hzero
        have hne : (decDigits r.uid).take n ≠ [] := by
          intro hnil
          cases List.take_eq_nil_iff.mp hnil with
          | inl h0 => exact hzero h0
          | inr h0 => exact decDigits_ne_nil r.uid h0
        have hdigits : ∀ c ∈ (decDigits r.uid).take n, isNameChar c = true :=
          fun c hc => decDigits_char r.uid (List.mem_of_mem_take hc)
        have hother := parse_fewer_digits r.uid hpos (by omega)
        rw [h.parse_home ht hlen, (uidOf_digits hne hdigits).1]
        constructor
        · intro hr
          obtain ⟨uid, hparse, heq⟩ := Option.map_eq_some_iff.mp hr
          have huid : uid = r.uid := congrArg Record.uid heq
          rw [huid] at hparse
          exact absurd hparse hother
        · intro hr
          have hroom : 192 ≤ r.body.length + 2 := hr.2.1
          omega

theorem Record.Valid.cut_fields (h : r.Valid) :
    ∃ k u, recordLine r
      = fieldText r.name (roleText r.role) r.hash (r.home.take k) u ∧
        0 < k := by
  obtain ⟨pre, hpre, hstarts⟩ := h.home_starts
  have htext : r.text = pre ++ (r.home ++ colon :: decDigits r.uid) := by
    rw [text_eq, Record.body, hstarts, List.append_assoc]
  have hn : recordMax - 1 = pre.length + (191 - pre.length) := by
    show 191 = _
    omega
  rw [recordLine_eq, htext, List.append_assoc, hn,
    List.take_length_add_append, List.append_assoc]
  by_cases hhome : 191 - pre.length ≤ r.home.length
  · refine ⟨191 - pre.length, none, ?_, by omega⟩
    rw [List.take_append_of_le_length hhome, hstarts]
  · obtain ⟨n, hnext⟩ : ∃ n, 191 - pre.length - r.home.length = n + 1 :=
      ⟨190 - pre.length - r.home.length, by omega⟩
    refine ⟨r.home.length, some ((decDigits r.uid ++ [newline]).take n), ?_, ?_⟩
    · rw [List.take_length, List.take_append, hnext,
        List.take_of_length_le (by omega), List.cons_append,
        List.take_succ_cons, ← List.append_assoc, ← hstarts]
      unfold fieldText
      simp only [List.append_nil, List.append_assoc, List.cons_append]
    · apply List.length_pos_iff.mpr
      intro hnil
      have hslash := h.slash
      rw [hnil] at hslash
      cases hslash

theorem Record.Valid.parse_untrimmed (h : r.Valid) (ht : ¬ r.Trimmed) :
    parseRecord (recordLine r) ≠ some r := by
  intro hr
  obtain ⟨k, u, hline, hk⟩ := h.cut_fields
  have hslash : (r.home.take k).head? = some Clks.slash := by
    rw [List.head?_take, if_neg (Nat.ne_of_gt hk)]
    exact h.slash
  have hcolon : colon ∉ r.home.take k := fun hc =>
    (h.home _ (List.mem_of_mem_take hc)).1 rfl
  have hlen : (recordLine r).length < recordMax := by
    rw [recordLine_eq]
    exact Nat.lt_of_le_of_lt (List.length_take_le _ _) (by decide)
  rw [hline] at hr hlen
  rw [h.parse hslash hcolon hlen] at hr
  obtain ⟨uid, -, heq⟩ := Option.map_eq_some_iff.mp hr
  have hhome : copy homeMax (trim (r.home.take k)) = r.home :=
    congrArg Record.home heq
  -- The last character of the home is a blank, and no trimmed text has one.
  apply ht
  intro c hc
  have hprefix : copy homeMax (trim (r.home.take k)) <+: trim (r.home.take k) :=
    List.take_prefix _ _
  have hshort : (trim (r.home.take k)).length ≤ r.home.length := by
    have h1 := (List.rdropWhile_prefix isBlank
      ((r.home.take k).dropWhile isBlank)).length_le
    have h2 := (List.dropWhile_sublist isBlank (l := r.home.take k)).length_le
    have h3 := List.length_take_le' k r.home
    unfold trim
    omega
  have hall : r.home = trim (r.home.take k) := by
    rw [hhome] at hprefix
    exact hprefix.eq_of_length_le hshort
  have hne : trim (r.home.take k) ≠ [] := by
    intro hnil
    have hempty : r.home = [] := hall.trans hnil
    rw [hempty] at hc
    cases hc
  have hlast := List.rdropWhile_last_not isBlank _ hne
  have hgoal : (trim (r.home.take k)).getLast? = some c := hall ▸ hc
  have hend : (trim (r.home.take k)).getLast hne = c := by
    rw [List.getLast?_eq_some_getLast hne] at hgoal
    exact Option.some.inj hgoal
  rw [← hend]
  exact Bool.eq_false_iff.mpr hlast

theorem parse_recordLine_iff (h : r.Valid) :
    parseRecord (recordLine r) = some r ↔ r.Fits := by
  unfold Record.Fits
  by_cases ht : r.Trimmed
  · simp only [ht, true_and]
    by_cases hshort : r.text.length < recordMax
    · exact ⟨fun _ => .inl hshort, fun _ => h.parse_whole ht hshort⟩
    · rw [h.parse_cut ht (Nat.le_of_not_lt hshort)]
      simp only [hshort, false_or]
  · exact ⟨fun hr => absurd hr (h.parse_untrimmed ht), fun hr => absurd hr.1 ht⟩

end roundTrip

end Clks.User
