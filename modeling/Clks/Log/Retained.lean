/-
What the kernel log holds on to (rust/src/klog.rs).

The journal is a ring of the library, its head and tail the other way
round, and a push of the one is a push of the other (`ring_push`). So what
it holds after any number of pushes is the end of what was pushed, each
record as its entry shows it, and the three ways to read it walk along
this list.
-/
import Clks.Lib.RingBuf
import Clks.Log.Journal

namespace Clks.Log

/-- A record, as it was pushed. -/
structure Record where
  level : UInt32
  tag : CStr
  line : CString

/-- A push, of a line or of a null pointer. -/
structure Push where
  level : UInt32
  tag : CStr
  line : CStr

/-- The record of a push. -/
def Push.record (p : Push) : Option Record :=
  p.line.map fun line => ⟨p.level, p.tag, line⟩

/-- The records that are held on to: the last ones. -/
def retained (pushes : List Push) : List Record :=
  let records := pushes.filterMap Push.record
  records.drop (records.length - KLOG_CAP)

/-- What a reader gets to see of a line. -/
def Record.text (r : Record) : List UInt8 := r.line.val.take (KLOG_LINE_MAX - 1)

/-- The records a filter is for: of at least a level, and with a tag if
one is given, as far as tags are stored. -/
def Record.passes (minLevel : UInt32) (tag : CStr) (r : Record) : Bool :=
  minLevel.toNat ≤ min r.level.toNat 255 &&
    tag.all fun tag => r.tag.bytes.take (KLOG_TAG_MAX - 1)
      = tag.val.take (KLOG_TAG_MAX - 1)

/-- The entry of a record. -/
def Record.entry (r : Record) : KlogEntry :=
  Klog.entry r.level r.tag (some r.line)

namespace Klog

/-- The answer for a record at an index, or for none. -/
def answer (r : Option Record) (out : Out) : Answer :=
  match r with
  | none => nothing out
  | some r =>
    match out with
    | none => (false, none)
    | some size =>
      if size = 0 then (false, none)
      else (true, some (r.text.take (size.toNat - 1)))

/-- Pushes, one after the other. -/
def pushAll (k : Klog) (pushes : List Push) : Klog :=
  pushes.foldl (fun k p => k.push p.level p.tag p.line) k

-- ==== the ring

variable {k : Klog}

/-- The journal as a ring: the head of the ring is the oldest entry. -/
def ring (k : Klog) : RingBuf KlogEntry KLOG_CAP where
  buf := k.journal
  head := k.oldest
  tail := k.head
  count := k.count
  head_lt := Nat.mod_lt _ (by decide)
  count_le := k.count_le
  tail_eq := by
    have hhead := k.head_lt
    have hcount := k.count_le
    unfold oldest
    rw [Nat.mod_add_mod, Nat.sub_add_cancel (by omega), Nat.add_mod_right,
      Nat.mod_eq_of_lt hhead]

theorem oldest_push {head count : Nat} (hhead : head < KLOG_CAP)
    (hcount : count ≤ KLOG_CAP) :
    ((head + 1) % KLOG_CAP + KLOG_CAP
        - if count < KLOG_CAP then count + 1 else count) % KLOG_CAP
      = if count < KLOG_CAP then (head + KLOG_CAP - count) % KLOG_CAP
        else ((head + KLOG_CAP - count) % KLOG_CAP + 1) % KLOG_CAP := by
  have hcap : KLOG_CAP = 512 := rfl
  rw [hcap] at hhead hcount ⊢
  split <;> omega

theorem ring_push (level : UInt32) (tag : CStr) (line : CString) :
    (k.push level tag (some line)).ring
      = k.ring.push (entry level tag (some line)) := by
  have hline : (some line : CStr) ≠ none := fun h => nomatch h
  have holdest := oldest_push k.head_lt k.count_le
  unfold push
  rw [if_neg hline]
  unfold RingBuf.push
  by_cases hroom : k.count < KLOG_CAP
  · rw [dif_pos (show k.ring.count < KLOG_CAP from hroom)]
    exact RingBuf.eq_of_fields rfl (holdest.trans (if_pos hroom)) rfl
      (if_pos hroom)
  · have hpos : k.ring.count ≠ 0 := by
      intro hzero
      rw [show k.count = 0 from hzero] at hroom
      exact hroom (by decide)
    have hcount : (if k.count < KLOG_CAP then k.count + 1 else k.count)
        = k.count - 1 + 1 := by
      have hpos : k.count ≠ 0 := hpos
      rw [if_neg hroom]
      omega
    rw [dif_neg (show ¬ k.ring.count < KLOG_CAP from hroom)]
    unfold RingBuf.dropHead
    simp only [dif_neg hpos]
    exact RingBuf.eq_of_fields rfl (holdest.trans (if_neg hroom)) rfl hcount

theorem ring_pushAll (k : Klog) (pushes : List Push) :
    (k.pushAll pushes).ring
      = k.ring.pushAll ((pushes.filterMap Push.record).map Record.entry) := by
  induction pushes generalizing k with
  | nil => rfl
  | cons p pushes ih =>
    obtain ⟨level, tag, line⟩ := p
    unfold pushAll RingBuf.pushAll at ih ⊢
    rw [List.foldl_cons, ih]
    cases line with
    | none => rfl
    | some line =>
      have hrecord : Push.record ⟨level, tag, some line⟩
          = some ⟨level, tag, line⟩ := rfl
      rw [List.filterMap_cons_some hrecord, List.map_cons, List.foldl_cons,
        ring_push]
      rfl

theorem toList_pushAll (k : Klog) (pushes : List Push) :
    (k.init.pushAll pushes).ring.toList
      = (retained pushes).map Record.entry := by
  have hinit : k.init.ring.toList = [] := rfl
  rw [ring_pushAll, RingBuf.toList_pushAll, hinit, List.nil_append,
    List.length_map, ← List.map_drop]
  show List.map Record.entry (List.drop (0 + _ - KLOG_CAP) _) = _
  rw [Nat.zero_add]
  rfl

-- ==== the walks

variable {minLevel : UInt32} {tag : CStr} {index : UInt64} {out : Out}

theorem countFrom_eq {left i : Nat} {matched : UInt64}
    (hleft : i + left = k.count)
    (hroom : matched.toNat + left < 2 ^ 64) :
    (countFrom k minLevel tag left i matched).toNat
      = matched.toNat + (k.ring.toList.drop i).countP (passes minLevel tag) := by
  induction left generalizing i matched with
  | zero =>
    have hnil : k.ring.toList.drop i = [] :=
      List.drop_eq_nil_of_le (by rw [RingBuf.length_toList]; exact Nat.le_of_eq hleft.symm)
    rw [hnil, List.countP_nil]
    rfl
  | succ left ih =>
    have hi : i < k.ring.count := by
      show i < k.count
      omega
    rw [k.ring.drop_toList hi, List.countP_cons]
    show (countFrom k minLevel tag (left + 1) i matched).toNat
      = matched.toNat + (_ + if passes minLevel tag (k.nth i) then 1 else 0)
    unfold countFrom
    by_cases hpass : passes minLevel tag (k.nth i) = true
    · have hnext : (matched + 1).toNat = matched.toNat + 1 := by
        rw [UInt64.toNat_add]
        exact Nat.mod_eq_of_lt (by show matched.toNat + 1 < _; omega)
      rw [if_pos hpass, if_pos hpass, ih (by omega) (by rw [hnext]; omega),
        hnext]
      omega
    · rw [if_neg hpass, if_neg hpass, ih (by omega) (by omega)]
      rfl

theorem readFrom_eq {left i : Nat} {seen : UInt64}
    (hleft : i + left = k.count) (hroom : seen.toNat + left < 2 ^ 64)
    (hseen : seen ≤ index) :
    readFrom k minLevel tag index out left i seen
      = match ((k.ring.toList.drop i).filter (passes minLevel tag))[
            index.toNat - seen.toNat]? with
        | none => nothing out
        | some entry => copyArrayToOut entry.line out := by
  induction left generalizing i seen with
  | zero =>
    have hnil : k.ring.toList.drop i = [] :=
      List.drop_eq_nil_of_le (by rw [RingBuf.length_toList]; exact Nat.le_of_eq hleft.symm)
    rw [hnil]
    rfl
  | succ left ih =>
    have hi : i < k.ring.count := by
      show i < k.count
      omega
    have hdrop : k.ring.toList.drop i = k.nth i :: k.ring.toList.drop (i + 1) :=
      k.ring.drop_toList hi
    rw [hdrop]
    unfold readFrom
    by_cases hpass : passes minLevel tag (k.nth i) = true
    · rw [if_pos hpass, List.filter_cons_of_pos hpass]
      by_cases heq : seen = index
      · rw [if_pos heq, heq, Nat.sub_self]
        rfl
      · have hlt : seen.toNat < index.toNat := by
          have hle := UInt64.le_iff_toNat_le.mp hseen
          have hne : seen.toNat ≠ index.toNat :=
            fun h => heq (UInt64.toNat_inj.mp h)
          omega
        have hnext : (seen + 1).toNat = seen.toNat + 1 := by
          rw [UInt64.toNat_add]
          exact Nat.mod_eq_of_lt (by show seen.toNat + 1 < _; omega)
        have hsub : index.toNat - seen.toNat
            = index.toNat - (seen + 1).toNat + 1 := by
          rw [hnext]
          omega
        rw [if_neg heq, ih (by omega) (by rw [hnext]; omega)
          (by rw [UInt64.le_iff_toNat_le, hnext]; omega), hsub,
          List.getElem?_cons_succ]
    · rw [if_neg hpass, List.filter_cons_of_neg hpass,
        ih (by omega) (by omega) hseen]

-- ==== the records

theorem takeWhile_copyCstrToArray (n : Nat) (src : CStr) :
    (copyCstrToArray n src).takeWhile (· ≠ 0) = src.bytes.take (n - 1) := by
  have hbytes : ∀ ch ∈ src.bytes.take (n - 1), decide (ch ≠ 0) = true := by
    intro ch hch
    have hch := List.mem_of_mem_take hch
    cases src with
    | none => cases hch
    | some s =>
      apply decide_eq_true
      rintro rfl
      exact s.property hch
  unfold copyCstrToArray
  rw [List.takeWhile_append_of_pos hbytes]
  cases n - (src.bytes.take (n - 1)).length with
  | zero => exact List.append_nil _
  | succ m =>
    rw [List.replicate_succ, List.takeWhile_cons_of_neg (by decide),
      List.append_nil]

theorem copyArrayToOut_entry (r : Record) (out : Out) :
    copyArrayToOut r.entry.line out = answer (some r) out := by
  have htext : r.entry.line.takeWhile (· ≠ 0) = r.text :=
    takeWhile_copyCstrToArray _ _
  have hline : r.entry.line
      = r.text ++ r.entry.line.dropWhile (· ≠ 0) := by
    rw [← htext]
    exact (List.takeWhile_append_dropWhile).symm
  unfold copyArrayToOut answer
  cases out with
  | none => rfl
  | some size =>
    by_cases hzero : size = 0
    · simp only [if_pos hzero]
    · have hpos := UInt64.lt_iff_toNat_lt.mp (UInt64.pos_iff_ne_zero.mpr hzero)
      have hpos : 0 < size.toNat := hpos
      simp only [if_neg hzero, htext]
      congr 2
      rw [hline]
      split_ifs with hlong
      · rw [List.take_append_of_le_length (by omega)]
      · rw [List.take_left, List.take_of_length_le (by omega)]

theorem passes_entry (minLevel : UInt32) (tag : CStr) (r : Record) :
    passes minLevel tag r.entry = r.passes minLevel tag := by
  have hlevel : r.entry.level.toUInt32.toNat = min r.level.toNat 255 := by
    show (if r.level > 255 then 255 else r.level.toUInt8 : UInt8).toUInt32.toNat
      = _
    rw [UInt8.toNat_toUInt32]
    split_ifs with h
    · have h : 255 < r.level.toNat := UInt32.lt_iff_toNat_lt.mp h
      rw [Nat.min_eq_right (by omega)]
      rfl
    · have h : r.level.toNat ≤ 255 :=
        UInt32.le_iff_toNat_le.mp (UInt32.not_lt.mp h)
      rw [UInt32.toNat_toUInt8, Nat.min_eq_left h]
      exact Nat.mod_eq_of_lt (by omega)
  have htag : tagMatches r.entry tag
      = tag.all fun tag => r.tag.bytes.take (KLOG_TAG_MAX - 1)
          = tag.val.take (KLOG_TAG_MAX - 1) := by
    cases tag with
    | none => rfl
    | some tag =>
      show (r.entry.tag.takeWhile (· ≠ 0) == _) = _
      rw [show r.entry.tag.takeWhile (· ≠ 0) = _ from
        takeWhile_copyCstrToArray _ _, beq_eq_decide]
      rfl
  have hmin : decide (r.entry.level.toUInt32 ≥ minLevel)
      = decide (minLevel.toNat ≤ min r.level.toNat 255) := by
    rw [decide_eq_decide, ge_iff_le, UInt32.le_iff_toNat_le, hlevel]
  unfold passes Record.passes
  rw [htag, hmin]

variable {pushes : List Push}

theorem count_pushAll (k : Klog) (pushes : List Push) :
    (k.init.pushAll pushes).count = (retained pushes).length := by
  have h := congrArg List.length (toList_pushAll k pushes)
  rw [RingBuf.length_toList, List.length_map] at h
  exact h

theorem read_pushAll (k : Klog) (pushes : List Push) (index : UInt64)
    (out : Out) :
    (k.init.pushAll pushes).read index out
      = answer (retained pushes)[index.toNat]? out := by
  have hlist := toList_pushAll k pushes
  have hcount := count_pushAll k pushes
  generalize k.init.pushAll pushes = j at *
  have hle := j.count_le
  have hofNat : (UInt64.ofNat j.count).toNat = j.count :=
    UInt64.toNat_ofNat_of_lt' (Nat.lt_of_le_of_lt hle (by decide))
  unfold read
  by_cases hend : index ≥ UInt64.ofNat j.count
  · have hge := UInt64.le_iff_toNat_le.mp hend
    rw [if_pos hend, List.getElem?_eq_none (by omega)]
    rfl
  · have hlt := UInt64.lt_iff_toNat_lt.mp (UInt64.not_le.mp hend)
    have hi : index.toNat < j.ring.count := by
      show index.toNat < j.count
      omega
    have hin : index.toNat < (retained pushes).length := by
      rw [← hcount]
      exact hi
    have hnth := congrArg List.head? (j.ring.drop_toList hi)
    rw [hlist, ← List.map_drop, List.drop_eq_getElem_cons hin] at hnth
    have hentry : (retained pushes)[index.toNat].entry
        = j.nth index.toNat := Option.some.inj hnth
    rw [if_neg hend, ← hentry, copyArrayToOut_entry,
      List.getElem?_eq_getElem hin]

theorem count_room (k : Klog) : (0 : UInt64).toNat + k.count < 2 ^ 64 := by
  have hle : k.count ≤ 512 := k.count_le
  show 0 + k.count < 2 ^ 64
  omega

theorem filter_entries (minLevel : UInt32) (tag : CStr) (rs : List Record) :
    (rs.map Record.entry).filter (passes minLevel tag)
      = (rs.filter (Record.passes minLevel tag)).map Record.entry := by
  rw [List.filter_map]
  congr 2
  funext r
  exact passes_entry minLevel tag r

theorem countFiltered_pushAll (k : Klog) (pushes : List Push)
    (minLevel : UInt32) (tag : CStr) :
    ((k.init.pushAll pushes).countFiltered minLevel tag).toNat
      = ((retained pushes).filter (Record.passes minLevel tag)).length := by
  have hroom := (k.init.pushAll pushes).count_room
  unfold countFiltered
  rw [countFrom_eq (Nat.zero_add _) hroom, List.drop_zero, toList_pushAll,
    List.countP_eq_length_filter, filter_entries, List.length_map]
  exact Nat.zero_add _

theorem readFiltered_pushAll (k : Klog) (pushes : List Push)
    (minLevel : UInt32) (tag : CStr) (index : UInt64) (out : Out) :
    (k.init.pushAll pushes).readFiltered minLevel tag index out
      = answer ((retained pushes).filter
          (Record.passes minLevel tag))[index.toNat]? out := by
  have hroom := (k.init.pushAll pushes).count_room
  have hzero : index.toNat - (0 : UInt64).toNat = index.toNat :=
    Nat.sub_zero _
  unfold readFiltered
  rw [readFrom_eq (Nat.zero_add _) hroom UInt64.zero_le, List.drop_zero,
    toList_pushAll, filter_entries, hzero, List.getElem?_map]
  cases ((retained pushes).filter
      (Record.passes minLevel tag))[index.toNat]? with
  | none => rfl
  | some r => exact copyArrayToOut_entry r out

/-- What the journal holds on to, and how it is read: by index, counted
with a filter, and by index with a filter. -/
theorem journal_retains (k : Klog) (pushes : List Push) :
    (k.init.pushAll pushes).count = (retained pushes).length ∧
    (∀ index out, (k.init.pushAll pushes).read index out
      = answer (retained pushes)[index.toNat]? out) ∧
    ∀ (minLevel : UInt32) (tag : CStr),
      ((k.init.pushAll pushes).countFiltered minLevel tag).toNat
        = ((retained pushes).filter (Record.passes minLevel tag)).length ∧
      (∀ index out, (k.init.pushAll pushes).readFiltered minLevel tag index out
        = answer ((retained pushes).filter
            (Record.passes minLevel tag))[index.toNat]? out) ∧
      ∀ index out, writable out = true →
        (((k.init.pushAll pushes).readFiltered minLevel tag index out).1 = true ↔
          index < (k.init.pushAll pushes).countFiltered minLevel tag) := by
  refine ⟨count_pushAll k pushes, read_pushAll k pushes, fun minLevel tag =>
    ⟨countFiltered_pushAll k pushes minLevel tag,
      readFiltered_pushAll k pushes minLevel tag, fun index out hout => ?_⟩⟩
  have hcount := countFiltered_pushAll k pushes minLevel tag
  rw [readFiltered_pushAll, UInt64.lt_iff_toNat_lt, hcount]
  generalize (retained pushes).filter (Record.passes minLevel tag) = rs
  by_cases hin : index.toNat < rs.length
  · rw [List.getElem?_eq_getElem hin]
    refine iff_of_true ?_ hin
    cases out with
    | none => cases hout
    | some size =>
      have hsize : size ≠ 0 := of_decide_eq_true hout
      unfold answer
      simp only [if_neg hsize]
  · rw [List.getElem?_eq_none (Nat.not_lt.mp hin)]
    exact iff_of_false (fun h => nomatch h) hin

end Klog

end Clks.Log
