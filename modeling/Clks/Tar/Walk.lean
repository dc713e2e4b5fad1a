/-
The headers that the walk through a ramdisk image visits
(`kernel/storage/ramdisk.c`).

`Chain` says what they are, in numbers that do not wrap: from one header
the next one is a block and the rounded payload further on, until there is
a block of zeros or no room for a header, or one of them does not say how
long its payload is or has not all of it in the image.
`iterate_visits` is that the walk ends, reads inside of the image only and
hands on the entries of exactly these headers, in this order.
-/
import Clks.Lib.Masks
import Clks.Tar.Image

namespace Clks.Tar

open Reads

-- ==== the numbers

/-- The value of octal digits behind a value. -/
def octalValue (value : Nat) (digits : List UInt8) : Nat :=
  digits.foldl (fun n ch => n * 8 + (ch.toNat - 48)) value

def isOctal (ch : UInt8) : Bool := 0x30 ≤ ch && ch ≤ 0x37

/-- The number that a field denotes: blanks, digits, and what is behind the
next blank does not count. -/
def octalOf (field : List UInt8) : Option Nat :=
  let digits := (field.dropWhile isBlank).takeWhile fun ch => !isBlank ch
  if digits.all isOctal then some (octalValue 0 digits) else none

-- ==== the chain

/-- A header, and the length of its payload. -/
structure Header where
  offset : Nat
  size : Nat
  deriving DecidableEq

/-- Up to the next block. -/
def roundUp (n : Nat) : Nat := (n + 511) / 512 * 512

/-- How a chain of headers ends. -/
inductive Ending
  | marker
  | imageEnd
  | failed
  deriving DecidableEq

variable {σ : Type} {b : List UInt8} {off n : Nat}

/-- A block of zeros at an offset. -/
def ZeroBlock (b : List UInt8) (off : Nat) : Prop :=
  (b.drop off).take 512 = List.replicate 512 0

instance (b : List UInt8) (off : Nat) : Decidable (ZeroBlock b off) :=
  inferInstanceAs (Decidable (_ = _))

/-- The number in the size field of the header at an offset. -/
def sizeField (b : List UInt8) (off : Nat) : Option Nat :=
  octalOf ((b.drop (off + sizeAt)).take sizeSize)

/-- The headers that are reached from an offset. -/
inductive Chain (b : List UInt8) : Nat → List Header → Ending → Prop
  | imageEnd {off : Nat} : b.length < off + 512 → Chain b off [] .imageEnd
  | marker {off : Nat} : off + 512 ≤ b.length → ZeroBlock b off →
      Chain b off [] .marker
  | badSize {off : Nat} : off + 512 ≤ b.length → ¬ ZeroBlock b off →
      sizeField b off = none → Chain b off [] .failed
  | truncated {off n : Nat} : off + 512 ≤ b.length → ¬ ZeroBlock b off →
      sizeField b off = some n → b.length < off + 512 + n →
      Chain b off [] .failed
  | header {off n : Nat} {hs : List Header} {ending : Ending} :
      ¬ ZeroBlock b off → sizeField b off = some n →
      off + 512 + n ≤ b.length →
      Chain b (off + 512 + roundUp n) hs ending →
      Chain b off (⟨off, n⟩ :: hs) ending

/-- The entry of a header. -/
def entryOf (b : List UInt8) (h : Header) : Option Entry :=
  match entryAt b h.offset (UInt64.ofNat (h.offset + 512))
    (UInt64.ofNat h.size) with
  | .ok entry => entry
  | .error _ => none

/-- The entries of some headers, handed on until one is refused. -/
def visitAll (b : List UInt8) (visit : σ → Entry → Bool × σ) :
    List Header → Ending → σ → Bool × σ
  | [], ending, ctx => (ending ≠ .failed, ctx)
  | h :: hs, ending, ctx =>
    match entryOf b h with
    | none => visitAll b visit hs ending ctx
    | some entry =>
      if (visit ctx entry).1 then visitAll b visit hs ending (visit ctx entry).2
      else visit ctx entry

-- ==== the fields, decoded

theorem byteAt_eq (h : off < b.length) :
    byteAt b off = .ok b[off] := dif_pos h

theorem skipBlanks_eq {field len : Nat} (h : field + len ≤ b.length) :
    skipBlanks b field len
      = .ok (((b.drop field).take len).takeWhile isBlank).length := by
  induction len generalizing field with
  | zero => rfl
  | succ len ih =>
    have hlt : field < b.length := by omega
    have hdrop := List.drop_eq_getElem_cons hlt
    unfold skipBlanks
    rw [byteAt_eq hlt, hdrop, List.take_succ_cons]
    show (if isBlank b[field] = true then _ else _) = _
    cases hblank : isBlank b[field] with
    | true =>
      rw [if_pos rfl, ih (by omega), List.takeWhile_cons_of_pos hblank]
      rfl
    | false =>
      rw [if_neg (by decide),
        List.takeWhile_cons_of_neg (by rw [hblank]; decide)]
      rfl

theorem octalValue_ge (value : Nat) (digits : List UInt8) :
    value ≤ octalValue value digits := by
  unfold octalValue
  induction digits generalizing value with
  | nil => exact Nat.le_refl _
  | cons ch digits ih =>
    rw [List.foldl_cons]
    exact Nat.le_trans (by omega) (ih _)

/-- What the digits come to, in a word. -/
def inWord (value : Nat) (digits : List UInt8) : Option UInt64 :=
  if digits.all isOctal = true ∧ octalValue value digits < 2 ^ 64 then
    some (UInt64.ofNat (octalValue value digits))
  else none

theorem inWord_nil (value : UInt64) : inWord value.toNat [] = some value := by
  unfold inWord
  rw [if_pos ⟨rfl, value.toNat_lt⟩]
  exact congrArg some UInt64.ofNat_toNat

theorem inWord_other {ch : UInt8} {digits : List UInt8} (value : Nat)
    (h : isOctal ch = false) : inWord value (ch :: digits) = none := by
  unfold inWord
  rw [if_neg]
  rw [List.all_cons, h, Bool.false_and]
  exact fun hall => nomatch hall.1

theorem inWord_large {ch : UInt8} {digits : List UInt8} {value : Nat}
    (h : 2 ^ 61 ≤ value) : inWord value (ch :: digits) = none := by
  have hge := octalValue_ge (value * 8 + (ch.toNat - 48)) digits
  unfold inWord
  rw [if_neg]
  intro hall
  have hlt : octalValue (value * 8 + (ch.toNat - 48)) digits < 2 ^ 64 := hall.2
  omega

theorem inWord_digit {ch : UInt8} {digits : List UInt8} {value : UInt64}
    (hch : isOctal ch = true) (h : value.toNat < 2 ^ 61) :
    inWord value.toNat (ch :: digits)
      = inWord (value <<< 3 + (ch - 0x30).toUInt64).toNat digits := by
  obtain ⟨hlo, hhi⟩ := Bool.and_eq_true_iff.mp hch
  have hlo := UInt8.le_iff_toNat_le.mp (of_decide_eq_true hlo)
  have hhi := UInt8.le_iff_toNat_le.mp (of_decide_eq_true hhi)
  have hlo : 48 ≤ ch.toNat := hlo
  have hhi : ch.toNat ≤ 55 := hhi
  have hdigit : (ch - 0x30).toUInt64.toNat = ch.toNat - 48 := by
    have hle : (0x30 : UInt8) ≤ ch := UInt8.le_iff_toNat_le.mpr hlo
    rw [UInt8.toNat_toUInt64, UInt8.toNat_sub_of_le _ _ hle]
    rfl
  have hshift : (value <<< 3).toNat = value.toNat * 8 := by
    rw [UInt64.toNat_shiftLeft]
    show value.toNat <<< 3 % 2 ^ 64 = _
    rw [Nat.shiftLeft_eq]
    omega
  have hnext : (value <<< 3 + (ch - 0x30).toUInt64).toNat
      = value.toNat * 8 + (ch.toNat - 48) := by
    rw [UInt64.toNat_add, hshift, hdigit]
    exact Nat.mod_eq_of_lt (by omega)
  unfold inWord
  rw [hnext, List.all_cons, hch, Bool.true_and]
  rfl

theorem octalDigits_eq {field len : Nat} {value : UInt64}
    (h : field + len ≤ b.length) :
    octalDigits b field len value
      = .ok (inWord value.toNat
          (((b.drop field).take len).takeWhile fun ch => !isBlank ch)) := by
  induction len generalizing field value with
  | zero =>
    rw [List.take_zero, List.takeWhile_nil, inWord_nil]
    rfl
  | succ len ih =>
    have hlt : field < b.length := by omega
    have hdrop := List.drop_eq_getElem_cons hlt
    unfold octalDigits
    rw [byteAt_eq hlt, hdrop, List.take_succ_cons]
    show (if isBlank b[field] = true then _ else _) = _
    cases hblank : isBlank b[field] with
    | true =>
      rw [if_pos rfl, List.takeWhile_cons_of_neg (by rw [hblank]; decide),
        inWord_nil]
      rfl
    | false =>
      rw [if_neg (by decide),
        List.takeWhile_cons_of_pos (by rw [hblank]; decide)]
      by_cases hother : b[field] < 0x30 ∨ b[field] > 0x37
      · rw [if_pos hother, inWord_other]
        · rfl
        unfold isOctal
        rw [Bool.and_eq_false_iff, decide_eq_false_iff_not,
          decide_eq_false_iff_not, UInt8.not_le, UInt8.not_le]
        exact hother
      · have hoctal : isOctal b[field] = true := by
          rw [not_or, UInt8.not_lt, UInt8.not_lt] at hother
          unfold isOctal
          rw [decide_eq_true hother.1, decide_eq_true hother.2]
          rfl
        rw [if_neg hother]
        by_cases hlarge : value > (0xFFFFFFFFFFFFFFFF : UInt64) >>> 3
        · have hge : 2 ^ 61 ≤ value.toNat := UInt64.lt_iff_toNat_lt.mp hlarge
          rw [if_pos hlarge, inWord_large hge]
          rfl
        · have hle : value.toNat < 2 ^ 61 := by
            have hle := UInt64.le_iff_toNat_le.mp (UInt64.not_lt.mp hlarge)
            exact Nat.lt_succ_of_le hle
          rw [if_neg hlarge, ih (by omega), inWord_digit hoctal hle]

theorem parseOctalU64_eq {field len : Nat} (h : field + len ≤ b.length) :
    parseOctalU64 b field len
      = .ok ((octalOf ((b.drop field).take len)).bind fun n =>
          if n < 2 ^ 64 then some (UInt64.ofNat n) else none) := by
  have hskip := skipBlanks_eq h
  generalize hf : (b.drop field).take len = f at *
  have hcut := List.takeWhile_append_dropWhile (p := isBlank) (l := f)
  have hflen : f.length = len := by
    rw [← hf, List.length_take, List.length_drop]
    omega
  have hle : (f.takeWhile isBlank).length ≤ len := by
    rw [← hflen]
    exact (List.takeWhile_sublist _).length_le
  have hrest : (b.drop (field + (f.takeWhile isBlank).length)).take
      (len - (f.takeWhile isBlank).length) = f.dropWhile isBlank := by
    rw [← List.drop_drop, ← List.drop_take, hf]
    calc f.drop (f.takeWhile isBlank).length
        = (f.takeWhile isBlank ++ f.dropWhile isBlank).drop
            (f.takeWhile isBlank).length := by rw [hcut]
      _ = f.dropWhile isBlank := List.drop_left
  unfold parseOctalU64
  rw [hskip]
  show octalDigits b (field + (f.takeWhile isBlank).length)
    (len - (f.takeWhile isBlank).length) 0 = _
  rw [octalDigits_eq (by omega), hrest]
  unfold inWord octalOf
  dsimp only
  generalize (f.dropWhile isBlank).takeWhile (fun ch => !isBlank ch) = digits
  by_cases hall : digits.all isOctal = true
  · rw [if_pos hall]
    refine congrArg Except.ok (if_congr ?_ rfl rfl)
    exact ⟨fun h => h.2, fun h => ⟨hall, h⟩⟩
  · rw [if_neg hall, if_neg fun h => hall h.1]
    rfl

-- ==== the headers

theorem isZeroBlock_eq (h : off + 512 ≤ b.length) :
    isZeroBlock b off = .ok (decide (ZeroBlock b off)) := by
  unfold isZeroBlock
  rw [equalAt_eq (by rw [List.length_replicate]; exact h),
    List.length_replicate, beq_eq_decide]
  rfl

theorem fieldLen_gives {field maxLen : Nat} (h : field + maxLen ≤ b.length) :
    Gives (· ≤ maxLen) (fieldLen b field maxLen) := by
  induction maxLen generalizing field with
  | zero => exact .pure (Nat.le_refl _)
  | succ maxLen ih =>
    refine (byteAt_safe (by omega)).andThen fun ch => ?_
    apply Gives.ite
    · exact fun _ => .pure (Nat.zero_le _)
    · exact fun _ => (ih (by omega)).bind fun len hlen =>
        .pure (Nat.succ_le_succ hlen)

theorem buildPath_safe (h : off + 512 ≤ b.length) : Safe (buildPath b off) := by
  have hprefix : off + prefixAt + prefixSize ≤ b.length := by
    show off + 345 + 155 ≤ _
    omega
  have hname : off + nameAt + nameSize ≤ b.length := by
    show off + 0 + 100 ≤ _
    omega
  refine ((fieldLen_gives hprefix).bind fun prefixLen hpre =>
    (fieldLen_gives hname).bind fun nameLen hlen => ?_ :
    Gives (fun _ => True) (buildPath b off)).safe
  refine .ite (fun _ => .pure trivial) fun _ =>
    .ite (fun _ => .pure trivial) fun _ => ?_
  refine (blockAt_safe (by omega)).andThen fun pre => ?_
  refine .ite (fun _ => .pure trivial) fun _ => ?_
  refine (blockAt_safe (by omega)).andThen fun name => ?_
  exact .ite (fun _ => .pure trivial) fun _ => .pure trivial

theorem entryAt_eq (h : Header) (hin : h.offset + 512 ≤ b.length) :
    entryAt b h.offset (UInt64.ofNat (h.offset + 512)) (UInt64.ofNat h.size)
      = .ok (entryOf b h) := by
  have hsafe : Safe (entryAt b h.offset (UInt64.ofNat (h.offset + 512))
      (UInt64.ofNat h.size)) := by
    refine (buildPath_safe hin).bind fun path => ?_
    cases path with
    | none => exact .pure _
    | some path =>
      refine (byteAt_safe (by show h.offset + 156 < _; omega)).bind fun ch => ?_
      exact .ite (fun _ => .pure _) fun _ => .ite (fun _ => .pure _)
        fun _ => .pure _
  obtain ⟨entry, heq⟩ := hsafe
  unfold entryOf
  rw [heq]

theorem entryOf_kind {h : Header} {entry : Entry}
    (hin : h.offset + 512 ≤ b.length) (hentry : entryOf b h = some entry) :
    entry.kind = .dir ∨ entry.kind
      = .file (UInt64.ofNat (h.offset + 512)) (UInt64.ofNat h.size) := by
  have hgives : Gives (fun r => ∀ e, r = some e → e.kind = .dir ∨ e.kind
      = .file (UInt64.ofNat (h.offset + 512)) (UInt64.ofNat h.size))
      (entryAt b h.offset (UInt64.ofNat (h.offset + 512))
        (UInt64.ofNat h.size)) := by
    refine (buildPath_safe hin).andThen fun path => ?_
    cases path with
    | none => exact .pure fun e h => nomatch h
    | some path =>
      refine (byteAt_safe (by show h.offset + 156 < _; omega)).andThen
        fun ch => .ite (fun _ => .pure fun e h => ?_) fun _ =>
          .ite (fun _ => .pure fun e h => ?_) fun _ => .pure fun e h => nomatch h
      · obtain rfl := Option.some.inj h
        exact .inl rfl
      · obtain rfl := Option.some.inj h
        exact .inr rfl
  exact hgives.of_ok (entryAt_eq h hin) entry hentry

-- ==== the walk

theorem Image.size_toNat (image : Image) :
    image.size.toNat = image.val.length := by
  have hlength := image.property
  exact UInt64.toNat_ofNat_of_lt' (by show _ < 2 ^ 64; omega)

theorem aligned_toNat {size : UInt64} (h : size.toNat < 2 ^ 63) :
    ((size + (BLOCK_SIZE - 1)) &&& ~~~(BLOCK_SIZE - 1)).toNat
      = roundUp size.toNat := by
  rw [@Masks.and_not_toNat 9 _ _ (by decide) rfl, UInt64.toNat_add]
  show (size.toNat + 511) % 2 ^ 64 / 512 * 512 = _
  rw [Nat.mod_eq_of_lt (by omega)]
  rfl

section step

variable {image : Image} {visit : σ → Entry → Bool × σ} {offset : UInt64}
  {ctx : σ}

theorem block_toNat (hoff : offset.toNat ≤ image.val.length + 511) :
    (offset + BLOCK_SIZE).toNat = offset.toNat + 512 := by
  have hlength := image.property
  rw [UInt64.toNat_add]
  exact Nat.mod_eq_of_lt (by show offset.toNat + 512 < 2 ^ 64; omega)

theorem visitHeader_end (hoff : offset.toNat ≤ image.val.length + 511)
    (hend : image.val.length < offset.toNat + 512) :
    visitHeader image visit offset ctx = .ok (.stop true, ctx) := by
  unfold visitHeader
  rw [if_neg]
  · rfl
  · rw [UInt64.le_iff_toNat_le, block_toNat hoff, image.size_toNat]
    omega

theorem parse_sizeField (hin : off + 512 ≤ b.length) :
    parseOctalU64 b (off + sizeAt) sizeSize
      = .ok ((sizeField b off).bind fun n =>
          if n < 2 ^ 64 then some (UInt64.ofNat n) else none) :=
  parseOctalU64_eq (by
    show off + 124 + 12 ≤ _
    omega)

theorem parse_none (hin : off + 512 ≤ b.length)
    (hsize : sizeField b off = none ∨ ∃ n, sizeField b off = some n ∧
      ¬ n < 2 ^ 64) :
    parseOctalU64 b (off + sizeAt) sizeSize = .ok none := by
  rw [parse_sizeField hin]
  rcases hsize with hsize | ⟨n, hsize, hn⟩
  · rw [hsize, Option.bind_none]
  · rw [hsize, Option.bind_some, if_neg hn]

theorem parse_some (hin : off + 512 ≤ b.length)
    (hsize : sizeField b off = some n) (hn : n < 2 ^ 64) :
    parseOctalU64 b (off + sizeAt) sizeSize
      = .ok (some (UInt64.ofNat n)) := by
  rw [parse_sizeField hin, hsize, Option.bind_some, if_pos hn]

theorem visitHeader_marker (hin : offset.toNat + 512 ≤ image.val.length)
    (hzero : ZeroBlock image.val offset.toNat) :
    visitHeader image visit offset ctx = .ok (.stop true, ctx) := by
  have hroom : offset + BLOCK_SIZE ≤ image.size := by
    rw [UInt64.le_iff_toNat_le, @block_toNat image offset (by omega),
      image.size_toNat]
    exact hin
  unfold visitHeader
  rw [if_pos hroom, isZeroBlock_eq hin, decide_eq_true hzero]
  rfl

theorem visitHeader_room (hin : offset.toNat + 512 ≤ image.val.length)
    (hzero : ¬ ZeroBlock image.val offset.toNat) :
    visitHeader image visit offset ctx = (do
      match ← parseOctalU64 image.val (offset.toNat + sizeAt) sizeSize with
      | none => return (.stop false, ctx)
      | some fileSize => visitPayload image visit offset fileSize ctx) := by
  have hroom : offset + BLOCK_SIZE ≤ image.size := by
    rw [UInt64.le_iff_toNat_le, @block_toNat image offset (by omega),
      image.size_toNat]
    exact hin
  unfold visitHeader
  rw [if_pos hroom, isZeroBlock_eq hin, decide_eq_false hzero]
  rfl

theorem visitHeader_none (hin : offset.toNat + 512 ≤ image.val.length)
    (hzero : ¬ ZeroBlock image.val offset.toNat)
    (hsize : sizeField image.val offset.toNat = none ∨
      ∃ n, sizeField image.val offset.toNat = some n ∧ ¬ n < 2 ^ 64) :
    visitHeader image visit offset ctx = .ok (.stop false, ctx) := by
  rw [visitHeader_room hin hzero, parse_none hin hsize]
  rfl

theorem visitHeader_some (hin : offset.toNat + 512 ≤ image.val.length)
    (hzero : ¬ ZeroBlock image.val offset.toNat)
    (hsize : sizeField image.val offset.toNat = some n) (hn : n < 2 ^ 64) :
    visitHeader image visit offset ctx
      = visitPayload image visit offset (UInt64.ofNat n) ctx := by
  rw [visitHeader_room hin hzero, parse_some hin hsize hn]
  simp only [bind, Except.bind]

theorem visitPayload_truncated {n : Nat}
    (hin : offset.toNat + 512 ≤ image.val.length) (hn : n < 2 ^ 64)
    (hshort : image.val.length < offset.toNat + 512 + n) :
    visitPayload image visit offset (UInt64.ofNat n) ctx
      = .ok (.stop false, ctx) := by
  have hblock := @block_toNat image offset (by omega)
  have hsize := image.size_toNat
  have hroom : offset + BLOCK_SIZE ≤ image.size := by
    rw [UInt64.le_iff_toNat_le, hblock, hsize]
    exact hin
  unfold visitPayload
  rw [if_neg (UInt64.not_lt.mpr hroom), if_pos]
  · rfl
  · show image.size - (offset + BLOCK_SIZE) < UInt64.ofNat n
    rw [UInt64.lt_iff_toNat_lt, UInt64.toNat_sub_of_le _ _ hroom, hblock, hsize,
      UInt64.toNat_ofNat_of_lt' hn]
    omega

theorem visitPayload_inside {n : Nat}
    (hfits : offset.toNat + 512 + n ≤ image.val.length) :
    ∃ next : UInt64, next.toNat = offset.toNat + 512 + roundUp n ∧
      ∀ ctx, visitPayload image visit offset (UInt64.ofNat n) ctx
        = .ok (let visited := ((entryOf image.val ⟨offset.toNat, n⟩).map
            (visit ctx)).getD (true, ctx)
          (if visited.1 then .goOn next else .stop false, visited.2)) := by
  have hlength := image.property
  have hblock := @block_toNat image offset (by omega)
  have hsize := image.size_toNat
  have hn : n < 2 ^ 64 := by omega
  have hn' : (UInt64.ofNat n).toNat = n := UInt64.toNat_ofNat_of_lt' hn
  have hroom : offset + BLOCK_SIZE ≤ image.size := by
    rw [UInt64.le_iff_toNat_le, hblock, hsize]
    omega
  have haligned := @aligned_toNat (UInt64.ofNat n) (by omega)
  rw [hn'] at haligned
  have hround : roundUp n ≤ n + 511 := Nat.div_mul_le_self _ _
  have hnext : (offset + BLOCK_SIZE
      + ((UInt64.ofNat n + (BLOCK_SIZE - 1)) &&& ~~~(BLOCK_SIZE - 1))).toNat
        = offset.toNat + 512 + roundUp n := by
    rw [UInt64.toNat_add, hblock, haligned]
    exact Nat.mod_eq_of_lt (by omega)
  refine ⟨_, hnext, fun ctx => ?_⟩
  have hentry := @entryAt_eq image.val ⟨offset.toNat, n⟩ (by
    show offset.toNat + 512 ≤ _
    omega)
  have hpayload : offset + BLOCK_SIZE = UInt64.ofNat (offset.toNat + 512) := by
    apply UInt64.toNat_inj.mp
    rw [hblock, UInt64.toNat_ofNat_of_lt' (by show _ < 2 ^ 64; omega)]
  have hentry : entryAt image.val offset.toNat (offset + BLOCK_SIZE)
      (UInt64.ofNat n) = .ok (entryOf image.val ⟨offset.toNat, n⟩) := by
    rw [hpayload]
    exact hentry
  have hgrows : ¬ offset + BLOCK_SIZE
      + ((UInt64.ofNat n + (BLOCK_SIZE - 1)) &&& ~~~(BLOCK_SIZE - 1))
        < offset + BLOCK_SIZE := by
    rw [UInt64.lt_iff_toNat_lt, hnext, hblock]
    omega
  unfold visitPayload
  rw [if_neg (UInt64.not_lt.mpr hroom), if_neg]
  · rw [hentry]
    cases hvisited : ((entryOf image.val ⟨offset.toNat, n⟩).map
      (visit ctx)).getD (true, ctx) with
    | mk go ctx' =>
      simp only [hvisited, bind, Except.bind]
      cases go with
      | false => rfl
      | true =>
        show (if _ then _ else _) = _
        rw [if_neg hgrows]
        rfl
  · show ¬ image.size - (offset + BLOCK_SIZE) < UInt64.ofNat n
    rw [UInt64.lt_iff_toNat_lt, UInt64.toNat_sub_of_le _ _ hroom, hblock, hsize,
      hn']
    omega

end step

section run

variable {image : Image} {visit : σ → Entry → Bool × σ} {rounds : Nat}
  {offset next : UInt64} {ctx ctx' : σ} {ok : Bool}

theorem iterateFrom_stop
    (h : visitHeader image visit offset ctx = .ok (.stop ok, ctx')) :
    iterateFrom image visit (rounds + 1) offset ctx = .ok (ok, ctx') := by
  unfold iterateFrom
  rw [h]
  rfl

theorem iterateFrom_goOn
    (h : visitHeader image visit offset ctx = .ok (.goOn next, ctx')) :
    iterateFrom image visit (rounds + 1) offset ctx
      = iterateFrom image visit rounds next ctx' := by
  conv_lhs => unfold iterateFrom
  rw [h]
  rfl

theorem iterateFrom_header {h : Header} {hs : List Header} {ending : Ending}
    (hstep : ∀ ctx, visitHeader image visit offset ctx
      = .ok (let visited := ((entryOf image.val h).map
          (visit ctx)).getD (true, ctx)
        (if visited.1 then .goOn next else .stop false, visited.2)))
    (hrest : ∀ ctx, iterateFrom image visit rounds next ctx
      = .ok (visitAll image.val visit hs ending ctx)) :
    iterateFrom image visit (rounds + 1) offset ctx
      = .ok (visitAll image.val visit (h :: hs) ending ctx) := by
  have hstep := hstep ctx
  cases hentry : entryOf image.val h with
  | none =>
    rw [hentry] at hstep
    simp only [visitAll, hentry]
    exact (iterateFrom_goOn hstep).trans (hrest ctx)
  | some entry =>
    rw [hentry] at hstep
    simp only [visitAll, hentry]
    change _ = Except.ok (if (visit ctx entry).1 then Step.goOn next
      else .stop false, (visit ctx entry).2) at hstep
    cases hvisit : visit ctx entry with
    | mk go ctx' =>
      rw [hvisit] at hstep
      cases go with
      | false => exact iterateFrom_stop hstep
      | true => exact (iterateFrom_goOn hstep).trans (hrest ctx')

end run

theorem iterateFrom_eq (image : Image) (visit : σ → Entry → Bool × σ)
    (rounds : Nat) {offset : UInt64}
    (hoff : offset.toNat ≤ image.val.length + 511)
    (hrounds : image.val.length < offset.toNat + (rounds + 1) * 512) :
    ∃ hs ending, Chain image.val offset.toNat hs ending ∧
      ∀ ctx, iterateFrom image visit (rounds + 1) offset ctx
        = .ok (visitAll image.val visit hs ending ctx) := by
  have hlength := image.property
  induction rounds generalizing offset with
  | zero =>
    have hend : image.val.length < offset.toNat + 512 := by omega
    exact ⟨[], .imageEnd, .imageEnd hend,
      fun ctx => iterateFrom_stop (visitHeader_end hoff hend)⟩
  | succ rounds ih =>
    by_cases hin : offset.toNat + 512 ≤ image.val.length
    · by_cases hzero : ZeroBlock image.val offset.toNat
      · exact ⟨[], .marker, .marker hin hzero,
          fun ctx => iterateFrom_stop (visitHeader_marker hin hzero)⟩
      cases hsize : sizeField image.val offset.toNat with
      | none =>
        exact ⟨[], .failed, .badSize hin hzero hsize, fun ctx =>
          iterateFrom_stop (visitHeader_none hin hzero (.inl hsize))⟩
      | some n =>
        by_cases hfits : offset.toNat + 512 + n ≤ image.val.length
        · have hn : n < 2 ^ 64 := by omega
          obtain ⟨next, hnext, hpayload⟩ :=
            @visitPayload_inside σ image visit offset n hfits
          have hround : roundUp n ≤ n + 511 := Nat.div_mul_le_self _ _
          have hstart : next.toNat ≤ image.val.length + 511 := by omega
          have hlater : image.val.length
              < next.toNat + (rounds + 1) * 512 := by omega
          obtain ⟨hs, ending, hchain, hrest⟩ := ih hstart hlater
          rw [hnext] at hchain
          refine ⟨_, ending, .header hzero hsize hfits hchain, fun ctx =>
            iterateFrom_header (fun ctx => ?_) hrest⟩
          exact (visitHeader_some hin hzero hsize hn).trans (hpayload ctx)
        · have hshort := Nat.not_le.mp hfits
          refine ⟨[], .failed, .truncated hin hzero hsize hshort,
            fun ctx => iterateFrom_stop ?_⟩
          by_cases hn : n < 2 ^ 64
          · exact (visitHeader_some hin hzero hsize hn).trans
              (visitPayload_truncated hin hn hshort)
          · exact visitHeader_none hin hzero (.inr ⟨n, hsize, hn⟩)
    · have hend := Nat.not_le.mp hin
      exact ⟨[], .imageEnd, .imageEnd hend,
        fun ctx => iterateFrom_stop (visitHeader_end hoff hend)⟩

theorem Chain.unique {hs hs' : List Header} {ending ending' : Ending}
    (h : Chain b off hs ending) (h' : Chain b off hs' ending') :
    hs' = hs ∧ ending' = ending := by
  induction h generalizing hs' with
  | imageEnd hend =>
    cases h' with
    | imageEnd => exact ⟨rfl, rfl⟩
    | marker hin => omega
    | badSize hin => omega
    | truncated hin => omega
    | header _ _ hfits => omega
  | marker hin hzero =>
    cases h' with
    | imageEnd hend => omega
    | marker => exact ⟨rfl, rfl⟩
    | badSize _ hnot => exact absurd hzero hnot
    | truncated _ hnot => exact absurd hzero hnot
    | header hnot => exact absurd hzero hnot
  | badSize hin hnot hnone =>
    cases h' with
    | imageEnd hend => omega
    | marker _ hzero => exact absurd hzero hnot
    | badSize => exact ⟨rfl, rfl⟩
    | truncated => exact ⟨rfl, rfl⟩
    | header _ hsome =>
      rw [hnone] at hsome
      cases hsome
  | truncated hin hnot hsome hshort =>
    cases h' with
    | imageEnd hend => omega
    | marker _ hzero => exact absurd hzero hnot
    | badSize => exact ⟨rfl, rfl⟩
    | truncated => exact ⟨rfl, rfl⟩
    | header _ hsome' hfits =>
      rw [hsome] at hsome'
      obtain rfl := Option.some.inj hsome'
      omega
  | header hnot hsome hfits _ ih =>
    cases h' with
    | imageEnd hend => omega
    | marker _ hzero => exact absurd hzero hnot
    | badSize _ _ hnone =>
      rw [hsome] at hnone
      cases hnone
    | truncated _ _ hsome' hshort =>
      rw [hsome] at hsome'
      obtain rfl := Option.some.inj hsome'
      omega
    | header _ hsome' _ hrest =>
      rw [hsome] at hsome'
      obtain rfl := Option.some.inj hsome'
      obtain ⟨rfl, rfl⟩ := ih hrest
      exact ⟨rfl, rfl⟩

theorem Chain.inside {hs : List Header} {ending : Ending}
    (h : Chain b off hs ending) :
    ∀ header ∈ hs, header.offset + 512 + header.size ≤ b.length := by
  induction h with
  | imageEnd => exact fun _ h => nomatch h
  | marker => exact fun _ h => nomatch h
  | badSize => exact fun _ h => nomatch h
  | truncated => exact fun _ h => nomatch h
  | header _ _ hfits _ ih =>
    intro header hin
    rcases List.mem_cons.mp hin with rfl | hin
    · exact hfits
    · exact ih header hin

/-- The walk ends without a read outside of the image. It hands on the
entries of the headers of the one chain from the start, whatever the
callback does with them, and each number in it is the one its field
denotes. -/
theorem iterate_visits (image : Image) :
    ∃ hs ending, Chain image.val 0 hs ending ∧
      (∀ hs' ending', Chain image.val 0 hs' ending' →
        hs' = hs ∧ ending' = ending) ∧
      (∀ h ∈ hs, h.offset + 512 + h.size ≤ image.val.length ∧
        ∀ entry, entryOf image.val h = some entry →
          entry.kind = .dir ∨ entry.kind
            = .file (UInt64.ofNat (h.offset + 512)) (UInt64.ofNat h.size)) ∧
      (∀ field len, field + len ≤ image.val.length →
        parseOctalU64 image.val field len
          = .ok ((octalOf ((image.val.drop field).take len)).bind fun n =>
              if n < 2 ^ 64 then some (UInt64.ofNat n) else none)) ∧
      ∀ (σ : Type) (visit : σ → Entry → Bool × σ) (ctx : σ),
        iterate image visit ctx
          = .ok (visitAll image.val visit hs ending ctx) := by
  have hwalk : ∀ (σ : Type) (visit : σ → Entry → Bool × σ),
      ∃ hs ending, Chain image.val 0 hs ending ∧ ∀ ctx, iterate image visit ctx
        = .ok (visitAll image.val visit hs ending ctx) := by
    intro σ visit
    refine @iterateFrom_eq σ image visit (image.val.length / 512) 0
      (Nat.zero_le _) ?_
    show image.val.length < 0 + (image.val.length / 512 + 1) * 512
    omega
  obtain ⟨hs, ending, hchain, -⟩ := hwalk Unit fun ctx _ => (true, ctx)
  have hinside := hchain.inside
  refine ⟨hs, ending, hchain, fun _ _ h => hchain.unique h, ?_,
    fun field len h => parseOctalU64_eq h, ?_⟩
  · intro h hh
    have hh := hinside h hh
    exact ⟨hh, fun entry => entryOf_kind (by omega)⟩
  · intro σ visit ctx
    obtain ⟨hs', ending', hchain', heq⟩ := hwalk σ visit
    obtain ⟨rfl, rfl⟩ := hchain.unique hchain'
    exact heq ctx

end Clks.Tar
