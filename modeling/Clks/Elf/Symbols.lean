/-
The symbols of a dynamic library (`kernel/runtime/exec/dynlib.inc`).

`clks_exec_dynlib_resolve_symbol` goes through the sections of the file a
library was loaded from, and through the symbols of every symbol table
among them, until one has the name that is asked for. The tables, their
strings and the links between them come out of the file, so they are read
through checked reads like the headers of the loader.
-/
import Clks.Elf.Image

namespace Clks.Elf

open Reads

def SHDR_SIZE : UInt64 := 64
def SYM_SIZE : UInt64 := 24
def SHT_SYMTAB : UInt32 := 2
def SHT_DYNSYM : UInt32 := 11
def SHN_UNDEF : UInt16 := 0
def STT_NOTYPE : UInt8 := 0
def STT_FUNC : UInt8 := 2

/-- `struct clks_exec_elf64_shdr`. -/
structure Shdr where
  type : UInt32
  offset : UInt64
  size : UInt64
  link : UInt32
  entsize : UInt64

/-- `struct clks_exec_elf64_sym`. -/
structure Sym where
  name : UInt32
  info : UInt8
  shndx : UInt16
  value : UInt64

/-- The section header at an offset. -/
def shdrAt (b : List UInt8) (off : Nat) : Checked Shdr := do
  let type ← le32At b (off + 4)
  let offset ← le64At b (off + 24)
  let size ← le64At b (off + 32)
  let link ← le32At b (off + 40)
  let entsize ← le64At b (off + 56)
  return { type, offset, size, link, entsize }

/-- The symbol at an offset. -/
def symAt (b : List UInt8) (off : Nat) : Checked Sym := do
  let name ← le32At b off
  let info ← byteAt b (off + 4)
  let shndx ← le16At b (off + 6)
  let value ← le64At b (off + 8)
  return { name, info, shndx, value }

/-- A string, without the zero byte at its end. -/
abbrev CString := { s : List UInt8 // 0 ∉ s }

-- ==== resolution

variable {α : Type}

/-- A loop that looks for something at the indices from `i` on. -/
def search (find : UInt64 → Checked (Option α)) (count : UInt64) :
    (rounds : Nat) → (i : UInt64) → Checked (Option α)
  | 0, _ => .error .unfinished
  | rounds + 1, i => do
    if i < count then
      match ← find i with
      | some a => return some a
      | none => search find count rounds (i + 1)
    else return none

/-- `clks_exec_dynlib_elf_header_ok`. -/
def sectionHeaderOk (eh : Ehdr) : Bool :=
  identOk eh && eh.shentsize.toUInt64 == SHDR_SIZE

/-- `clks_exec_dynlib_symbol_name_ptr`: where the name is, if it ends in
the string table at `strtab`. -/
def symbolNamePtr (image : Source) (strtab strtabSize : UInt64)
    (stName : UInt32) : Checked (Option UInt64) :=
  if stName.toUInt64 ≥ strtabSize then return none
  else
    search (fun i => do
      if (← byteAt image.val (strtab + i).toNat) = 0 then
        return some (strtab + stName.toUInt64)
      else return none) strtabSize (strtabSize.toNat + 1) stName.toUInt64

/-- A symbol of a table: its address, if it is the one that is asked for. -/
def matchSymbol (image : Source) (loaded : Loaded) (symbol : CString)
    (strtab : Shdr) (sym : Sym) : Checked (Option UInt64) := do
  if sym.name = 0 ∨ sym.shndx = SHN_UNDEF ∨ sym.value = 0 then return none
  else
    let symbolType := sym.info &&& 0x0F
    if symbolType ≠ STT_FUNC ∧ symbolType ≠ STT_NOTYPE then return none
    else
      match ← symbolNamePtr image strtab.offset strtab.size sym.name with
      | none => return none
      | some namePtr =>
        if ← equalAt image.val namePtr.toNat (symbol.val ++ [0]) then
          let offset := sym.value - loaded.imageVaddrBase
          if sym.value < loaded.imageVaddrBase ∨ offset ≥ loaded.imageSize then
            return none
          else return some (loaded.imageBase + offset)
        else return none

/-- A section: its symbols, if it is a symbol table. -/
def searchSection (image : Source) (eh : Ehdr) (loaded : Loaded)
    (symbol : CString) (symtab : Shdr) : Checked (Option UInt64) := do
  if symtab.type ≠ SHT_SYMTAB ∧ symtab.type ≠ SHT_DYNSYM then return none
  else if symtab.entsize ≠ SYM_SIZE ∨ symtab.link ≥ eh.shnum.toUInt32
      ∨ symtab.size < symtab.entsize then return none
  else if !rangeOk symtab.offset symtab.size image.size then return none
  else
    let strtab ← shdrAt image.val
      (eh.shoff + symtab.link.toUInt64 * SHDR_SIZE).toNat
    if !rangeOk strtab.offset strtab.size image.size then return none
    else
      let symCount ← divided symtab.size symtab.entsize
      search (fun j => do
        let sym ← symAt image.val (symtab.offset + j * SYM_SIZE).toNat
        matchSymbol image loaded symbol strtab sym)
        symCount (symCount.toNat + 1) 0

/-- `clks_exec_dynlib_resolve_symbol`, of an open library. -/
def resolveSymbol (image : Source) (loaded : Loaded) (symbol : CString) :
    Checked (Option UInt64) := do
  if symbol.val = [] then return none
  else if image.size < EHDR_SIZE then return none
  else
    let eh ← ehdrAt image.val
    if !sectionHeaderOk eh ∨ eh.shnum = 0 ∨ eh.shoff = 0 then return none
    else
      let shTableSize := eh.shnum.toUInt64 * eh.shentsize.toUInt64
      if !rangeOk eh.shoff shTableSize image.size then return none
      else
        search (fun i => do
          let symtab ← shdrAt image.val (eh.shoff + i * SHDR_SIZE).toNat
          searchSection image eh loaded symbol symtab)
          eh.shnum.toUInt64 (eh.shnum.toNat + 1) 0

-- ==== safety

variable {image : Source} {eh : Ehdr} {off len total : UInt64}

theorem rangeOk_le (h : rangeOk off len total = true) :
    off.toNat + len.toNat ≤ total.toNat := by
  obtain ⟨hoff, hlen⟩ := Bool.and_eq_true_iff.mp h
  have hoff := UInt64.le_iff_toNat_le.mp (of_decide_eq_true hoff)
  have hlen := UInt64.le_iff_toNat_le.mp (of_decide_eq_true hlen)
  rw [UInt64.toNat_sub_of_le _ _ (UInt64.le_iff_toNat_le.mpr hoff)] at hlen
  omega

theorem Source.size_toNat (image : Source) :
    image.size.toNat = image.val.length :=
  UInt64.toNat_ofNat_of_lt' image.property

theorem entry_toNat {i stride : UInt64}
    (h : off.toNat + i.toNat * stride.toNat < 2 ^ 64) :
    (off + i * stride).toNat = off.toNat + i.toNat * stride.toNat := by
  rw [UInt64.toNat_add, UInt64.toNat_mul, Nat.add_mod_mod, Nat.mod_eq_of_lt h]

theorem ehdrAt_safe (h : 64 ≤ image.val.length) : Safe (ehdrAt image.val) :=
  .bind (blockAt_safe (by omega)) fun _ =>
  .bind (le16At_safe (by omega)) fun _ =>
  .bind (le16At_safe (by omega)) fun _ =>
  .bind (le32At_safe (by omega)) fun _ =>
  .bind (le64At_safe (by omega)) fun _ =>
  .bind (le64At_safe (by omega)) fun _ =>
  .bind (le64At_safe (by omega)) fun _ =>
  .bind (le16At_safe (by omega)) fun _ =>
  .bind (le16At_safe (by omega)) fun _ =>
  .bind (le16At_safe (by omega)) fun _ =>
  .bind (le16At_safe (by omega)) fun _ =>
  .bind (le16At_safe (by omega)) fun _ => .pure _

theorem shdrAt_safe {off : Nat} (h : off + 64 ≤ image.val.length) :
    Safe (shdrAt image.val off) :=
  .bind (le32At_safe (by omega)) fun _ =>
  .bind (le64At_safe (by omega)) fun _ =>
  .bind (le64At_safe (by omega)) fun _ =>
  .bind (le32At_safe (by omega)) fun _ =>
  .bind (le64At_safe (by omega)) fun _ => .pure _

theorem symAt_safe {off : Nat} (h : off + 24 ≤ image.val.length) :
    Safe (symAt image.val off) :=
  .bind (le32At_safe (by omega)) fun _ =>
  .bind (byteAt_safe (by omega)) fun _ =>
  .bind (le16At_safe (by omega)) fun _ =>
  .bind (le64At_safe (by omega)) fun _ => .pure _

theorem search_gives {P : α → Prop} {find : UInt64 → Checked (Option α)}
    {count i : UInt64} {rounds : Nat} (hi : i.toNat ≤ count.toNat)
    (hrounds : count.toNat < rounds + i.toNat)
    (h : ∀ j, i.toNat ≤ j.toNat → j < count →
      Gives (fun r => ∀ a, r = some a → P a) (find j)) :
    Gives (fun r => ∀ a, r = some a → P a) (search find count rounds i) := by
  induction rounds generalizing i with
  | zero => omega
  | succ rounds ih =>
    unfold search
    apply Gives.ite
    · intro hi
      refine (h i (Nat.le_refl _) hi).bind fun r hr => ?_
      cases r with
      | some a => exact .pure hr
      | none =>
        have hlt := UInt64.lt_iff_toNat_lt.mp hi
        have hcount := count.toNat_lt
        have hnext : (i + 1).toNat = i.toNat + 1 := by
          rw [UInt64.toNat_add]
          exact Nat.mod_eq_of_lt (by show i.toNat + 1 < _; omega)
        exact ih (by omega) (by omega) fun j hj => h j (by omega)
    · exact fun _ => .pure fun a ha => nomatch ha

theorem search_safe {find : UInt64 → Checked (Option α)}
    {count : UInt64} (h : ∀ j, j < count → Safe (find j)) :
    Safe (search find count (count.toNat + 1) 0) := by
  have hfound : Gives (fun r => ∀ a, r = some a → True)
      (search find count (count.toNat + 1) 0) := by
    refine search_gives (Nat.zero_le _) (Nat.lt_succ_self _) fun j _ hj => ?_
    obtain ⟨r, heq⟩ := h j hj
    exact ⟨r, heq, fun _ _ => trivial⟩
  exact hfound.safe

theorem equalAt_safe_of_zero {b : List UInt8} {off p : Nat}
    {s : List UInt8} (hs : 0 ∉ s) (hp : byteAt b p = .ok 0) (hoff : off ≤ p) :
    Safe (equalAt b off (s ++ [0])) := by
  have hlt : p < b.length := by
    by_contra hn
    unfold byteAt at hp
    rw [dif_neg hn] at hp
    cases hp
  induction s generalizing off with
  | nil => exact equalAt_safe (by rw [List.nil_append, List.length_singleton]; omega)
  | cons x s ih =>
    rw [List.mem_cons, not_or] at hs
    obtain ⟨hx, hs⟩ := hs
    by_cases heq : off = p
    · subst heq
      show Safe (byteAt b off >>= _)
      rw [hp]
      show Safe (if (0 : UInt8) ≠ x then _ else _)
      rw [if_pos hx]
      exact .pure _
    · exact .bind (byteAt_safe (by omega)) fun y =>
        .ite (fun _ => .pure _) fun _ => ih hs (by omega)

theorem symbolNamePtr_gives {strtab strtabSize : UInt64} {stName : UInt32}
    (h : strtab.toNat + strtabSize.toNat ≤ image.val.length) :
    Gives (fun r => ∀ ptr, r = some ptr →
      ∃ p, ptr.toNat ≤ p ∧ byteAt image.val p = .ok 0)
      (symbolNamePtr image strtab strtabSize stName) := by
  have hsize := image.property
  unfold symbolNamePtr
  apply Gives.ite
  · exact fun _ => .pure fun a ha => nomatch ha
  · intro hname
    have hname := UInt64.lt_iff_toNat_lt.mp (UInt64.not_le.mp hname)
    refine search_gives (by omega) (by omega) fun j hle hj => ?_
    have hj := UInt64.lt_iff_toNat_lt.mp hj
    have hbyte : (strtab + j).toNat = strtab.toNat + j.toNat := by
      rw [UInt64.toNat_add]
      exact Nat.mod_eq_of_lt (by omega)
    have hptr : (strtab + stName.toUInt64).toNat
        = strtab.toNat + stName.toUInt64.toNat := by
      rw [UInt64.toNat_add]
      exact Nat.mod_eq_of_lt (by omega)
    obtain ⟨byte, heq⟩ : Safe (byteAt image.val (strtab + j).toNat) :=
      byteAt_safe (by omega)
    show Gives _ (byteAt image.val (strtab + j).toNat >>= _)
    rw [heq]
    apply Gives.ite
    · rintro rfl
      refine .pure fun ptr h => ?_
      obtain rfl := Option.some.inj h
      exact ⟨_, by omega, heq⟩
    · exact fun _ => .pure fun ptr h => nomatch h

theorem matchSymbol_safe (image : Source) (loaded : Loaded)
    (symbol : CString) {strtab : Shdr} (sym : Sym)
    (h : strtab.offset.toNat + strtab.size.toNat ≤ image.val.length) :
    Safe (matchSymbol image loaded symbol strtab sym) := by
  unfold matchSymbol
  refine .ite (fun _ => .pure _) fun _ => .ite (fun _ => .pure _) fun _ => ?_
  obtain ⟨r, heq, hr⟩ := @symbolNamePtr_gives image _ _ sym.name h
  rw [heq]
  cases r with
  | none => exact .pure _
  | some ptr =>
    obtain ⟨p, hle, hzero⟩ := hr ptr rfl
    refine (equalAt_safe_of_zero symbol.property hzero hle).bind fun same => ?_
    exact .ite (fun _ => .ite (fun _ => .pure _) fun _ => .pure _)
      fun _ => .pure _

theorem searchSection_safe (image : Source) (loaded : Loaded)
    (symbol : CString) (symtab : Shdr)
    (h : eh.shoff.toNat + eh.shnum.toNat * 64 ≤ image.val.length) :
    Safe (searchSection image eh loaded symbol symtab) := by
  have hsize := image.size_toNat
  have hlimit := image.property
  unfold searchSection
  refine .ite (fun _ => .pure _) fun _ => .ite (fun _ => .pure _) fun hlink =>
    .ite (fun _ => .pure _) fun hsymbols => ?_
  simp only [not_or, not_not, UInt32.not_le, UInt64.not_lt] at hlink
  obtain ⟨hentsize, hlink, -⟩ := hlink
  have hlink := UInt32.lt_iff_toNat_lt.mp hlink
  rw [UInt16.toNat_toUInt32] at hlink
  have hstrtab : (eh.shoff + symtab.link.toUInt64 * SHDR_SIZE).toNat
      = eh.shoff.toNat + symtab.link.toNat * 64 := by
    rw [entry_toNat, UInt32.toNat_toUInt64]
    · rfl
    · rw [UInt32.toNat_toUInt64]
      show _ + _ * 64 < _
      omega
  refine (shdrAt_safe (by omega)).bind fun strtab =>
    .ite (fun _ => .pure _) fun hstrings => ?_
  rw [Bool.not_eq_true', Bool.not_eq_false] at hsymbols hstrings
  have hsymbols := rangeOk_le hsymbols
  have hstrings := rangeOk_le hstrings
  rw [hentsize]
  unfold divided
  rw [if_neg (by decide)]
  show Safe (search _ _ _ _)
  have hcount : (symtab.size / SYM_SIZE).toNat = symtab.size.toNat / 24 :=
    UInt64.toNat_div ..
  refine search_safe fun j hj => ?_
  have hj := UInt64.lt_iff_toNat_lt.mp hj
  have hsym : (symtab.offset + j * SYM_SIZE).toNat
      = symtab.offset.toNat + j.toNat * 24 := by
    refine entry_toNat ?_
    show _ + _ * 24 < _
    omega
  exact (symAt_safe (by omega)).bind fun sym =>
    matchSymbol_safe image loaded symbol sym (by omega)

theorem resolveSymbol_safe (image : Source) (loaded : Loaded)
    (symbol : CString) : Safe (resolveSymbol image loaded symbol) := by
  have hsize := image.size_toNat
  unfold resolveSymbol
  refine .ite (fun _ => .pure _) fun _ => .ite (fun _ => .pure _) fun hehdr => ?_
  have hehdr : 64 ≤ image.val.length := by
    rw [← hsize]
    exact UInt64.le_iff_toNat_le.mp (UInt64.not_lt.mp hehdr)
  refine (ehdrAt_safe hehdr).bind fun eh => .ite (fun _ => .pure _) fun hok =>
    .ite (fun _ => .pure _) fun htable => ?_
  simp only [Bool.not_eq_true', not_or, Bool.not_eq_false] at hok htable
  obtain ⟨hheader, -, -⟩ := hok
  have hentsize := eq_of_beq (Bool.and_eq_true_iff.mp hheader).2
  rw [hentsize] at htable
  have htable := rangeOk_le htable
  have hbytes : (eh.shnum.toUInt64 * SHDR_SIZE).toNat = eh.shnum.toNat * 64 := by
    rw [UInt64.toNat_mul, UInt16.toNat_toUInt64]
    exact Nat.mod_eq_of_lt (by
      have := eh.shnum.toNat_lt
      show _ * 64 < _
      omega)
  rw [hbytes, hsize] at htable
  have hlimit := image.property
  rw [← UInt16.toNat_toUInt64]
  refine search_safe fun i hi => ?_
  have hi := UInt64.lt_iff_toNat_lt.mp hi
  rw [UInt16.toNat_toUInt64] at hi
  have hshdr : (eh.shoff + i * SHDR_SIZE).toNat
      = eh.shoff.toNat + i.toNat * 64 := by
    refine entry_toNat ?_
    show _ + _ * 64 < _
    omega
  exact (shdrAt_safe (by omega)).bind fun symtab =>
    searchSection_safe image loaded symbol symtab htable

end Clks.Elf
