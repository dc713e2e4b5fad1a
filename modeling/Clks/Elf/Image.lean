/-
The ELF images a program is loaded from (`kernel/runtime/elf64.c`).

An image is a string of bytes out of a file: none of its numbers can be
trusted, and every one of them is a word of 64 bits or less that wraps.
The file is read through checked reads, at the addresses the C code
computes in its own arithmetic, so a header, a segment or a word outside
of the string is a fault. The block that the segments are laid out in is
as long as what is asked of `clks_kmalloc` and not a byte longer, and the
writes to it are checked in the same way.
-/
import Clks.Lib.Reads

namespace Clks.Elf

open Reads

-- ==== the format

/-- The bytes of an image, no more of them than an address can count. -/
abbrev Source := { bytes : List UInt8 // bytes.length < 2 ^ 64 }

/-- The size that comes with an image. -/
def Source.size (image : Source) : UInt64 := UInt64.ofNat image.val.length

def EHDR_SIZE : UInt64 := 64
def PHDR_SIZE : UInt64 := 56
def CLASS_64 : UInt8 := 2
def DATA_LSB : UInt8 := 1
def VERSION : UInt8 := 1
def ET_EXEC : UInt16 := 2
def ET_DYN : UInt16 := 3
def EM_X86_64 : UInt16 := 62
def PT_LOAD : UInt32 := 1
def PF_X : UInt32 := 1
def MAX_SEGMENTS : Nat := 16

/-- `struct clks_elf64_ehdr`. -/
structure Ehdr where
  ident : Block 16
  type : UInt16
  machine : UInt16
  version : UInt32
  entry : UInt64
  phoff : UInt64
  shoff : UInt64
  ehsize : UInt16
  phentsize : UInt16
  phnum : UInt16
  shentsize : UInt16
  shnum : UInt16
  deriving DecidableEq

/-- `struct clks_elf64_phdr`. -/
structure Phdr where
  type : UInt32
  flags : UInt32
  offset : UInt64
  vaddr : UInt64
  filesz : UInt64
  memsz : UInt64
  deriving DecidableEq

/-- The image header at the front of the string. -/
def ehdrAt (b : List UInt8) : Checked Ehdr := do
  let ident ← blockAt b 0 16
  let type ← le16At b 16
  let machine ← le16At b 18
  let version ← le32At b 20
  let entry ← le64At b 24
  let phoff ← le64At b 32
  let shoff ← le64At b 40
  let ehsize ← le16At b 52
  let phentsize ← le16At b 54
  let phnum ← le16At b 56
  let shentsize ← le16At b 58
  let shnum ← le16At b 60
  return { ident, type, machine, version, entry, phoff, shoff, ehsize,
           phentsize, phnum, shentsize, shnum }

/-- The program header at an offset. -/
def phdrAt (b : List UInt8) (off : Nat) : Checked Phdr := do
  let type ← le32At b off
  let flags ← le32At b (off + 4)
  let offset ← le64At b (off + 8)
  let vaddr ← le64At b (off + 16)
  let filesz ← le64At b (off + 32)
  let memsz ← le64At b (off + 40)
  return { type, flags, offset, vaddr, filesz, memsz }

-- ==== checks

/-- The magic bytes, the class, the byte order and the version. -/
def identOk (eh : Ehdr) : Bool :=
  eh.ident.val.take 4 == [0x7F, 0x45, 0x4C, 0x46]
    && eh.ident.val[4]? == some CLASS_64
    && eh.ident.val[5]? == some DATA_LSB
    && eh.ident.val[6]? == some VERSION && eh.version == VERSION.toUInt32

/-- `clks_elf64_header_ok`. -/
def headerOk (eh : Ehdr) : Bool :=
  identOk eh
    && (eh.type == ET_EXEC || eh.type == ET_DYN)
    && eh.machine == EM_X86_64
    && eh.ehsize.toUInt64 == EHDR_SIZE
    && eh.phentsize.toUInt64 == PHDR_SIZE

/-- `clks_elf64_range_ok`. -/
def rangeOk (off len total : UInt64) : Bool :=
  off ≤ total && len ≤ total - off

variable {σ : Type}

/-- The loop over the program headers that three functions run: `body` is
what they do with one of them, and `none` is their early return. -/
def eachFrom (image : Source) (eh : Ehdr)
    (body : σ → Phdr → Checked (Option σ)) :
    (rounds : Nat) → (i : UInt16) → σ → Checked (Option σ)
  | 0, _, _ => .error .unfinished
  | rounds + 1, i, s => do
    if i < eh.phnum then
      let ph ← phdrAt image.val
        (eh.phoff + i.toUInt64 * eh.phentsize.toUInt64).toNat
      match ← body s ph with
      | none => return none
      | some s => eachFrom image eh body rounds (i + 1) s
    else return some s

/-- The loop from the first header on. -/
def eachPhdr (image : Source) (eh : Ehdr)
    (body : σ → Phdr → Checked (Option σ)) (s : σ) : Checked (Option σ) :=
  eachFrom image eh body (eh.phnum.toNat + 1) 0 s

/-- A header of `clks_elf64_validate`. -/
def checkPhdr (image : Source) (_ : Unit) (ph : Phdr) :
    Checked (Option Unit) :=
  if ph.type ≠ PT_LOAD then return some ()
  else if ph.filesz > ph.memsz then return none
  else if rangeOk ph.offset ph.filesz image.size then return some ()
  else return none

/-- `clks_elf64_validate`. -/
def validate (image : Source) : Checked Bool := do
  if image.size < EHDR_SIZE then return false
  else
    let eh ← ehdrAt image.val
    if headerOk eh then
      let phTableSize := eh.phnum.toUInt64 * eh.phentsize.toUInt64
      if rangeOk eh.phoff phTableSize image.size then
        return (← eachPhdr image eh (checkPhdr image) ()).isSome
      else return false
    else return false

/-- `struct clks_elf64_info`. -/
structure Info where
  entry : UInt64
  phnum : UInt16
  loadableSegments : UInt16
  totalLoadMemsz : UInt64
  deriving DecidableEq

/-- A header of `clks_elf64_inspect`. -/
def countPhdr (info : Info) (ph : Phdr) : Checked (Option Info) :=
  if ph.type ≠ PT_LOAD then return some info
  else return some { info with
    loadableSegments := info.loadableSegments + 1
    totalLoadMemsz := info.totalLoadMemsz + ph.memsz }

/-- `clks_elf64_inspect`. -/
def inspect (image : Source) : Checked (Option Info) := do
  if ← validate image then
    let eh ← ehdrAt image.val
    eachPhdr image eh countPhdr ⟨eh.entry, eh.phnum, 0, 0⟩
  else return none

-- ==== loading

/-- `struct clks_elf64_loaded_segment`. -/
structure Segment where
  base : UInt64
  vaddr : UInt64
  memsz : UInt64
  filesz : UInt64
  flags : UInt32
  deriving DecidableEq

/-- `struct clks_elf64_loaded_image`, with the bytes of its block. -/
structure Loaded where
  entry : UInt64
  imageBase : UInt64
  imageSize : UInt64
  imageVaddrBase : UInt64
  segments : List Segment
  memory : List UInt8
  deriving DecidableEq

/-- What the first loop of `clks_elf64_load` keeps. -/
structure Bounds where
  loadCount : UInt16
  minVaddr : UInt64
  maxVaddrEnd : UInt64
  deriving DecidableEq

/-- A header of the first loop. -/
def boundPhdr (s : Bounds) (ph : Phdr) : Checked (Option Bounds) :=
  if ph.type ≠ PT_LOAD ∨ ph.memsz = 0 then return some s
  else
    let minVaddr :=
      if s.loadCount = 0 ∨ ph.vaddr < s.minVaddr then ph.vaddr
      else s.minVaddr
    let segEnd := ph.vaddr + ph.memsz
    if segEnd < ph.vaddr then return none
    else
      let maxVaddrEnd :=
        if s.loadCount = 0 ∨ segEnd > s.maxVaddrEnd then segEnd
        else s.maxVaddrEnd
      return some ⟨s.loadCount + 1, minVaddr, maxVaddrEnd⟩

/-- A header of the second loop. -/
def layPhdr (image : Source) (loaded : Loaded) (ph : Phdr) :
    Checked (Option Loaded) :=
  if ph.type ≠ PT_LOAD ∨ ph.memsz = 0 then return some loaded
  else if loaded.segments.length ≥ MAX_SEGMENTS then return none
  else
    let segOff := ph.vaddr - loaded.imageVaddrBase
    if segOff > loaded.imageSize ∨ ph.memsz > loaded.imageSize - segOff then
      return none
    else do
      let bytes ← blockAt image.val ph.offset.toNat ph.filesz.toNat
      let memory ← putAt loaded.memory segOff.toNat bytes.val
      return some { loaded with
        memory
        segments := loaded.segments
          ++ [⟨segOff, ph.vaddr, ph.memsz, ph.filesz, ph.flags⟩] }

/-- The addresses the image was made for, and how far it is moved. -/
structure Move where
  oldBase : UInt64
  oldEnd : UInt64
  delta : UInt64
  deriving DecidableEq

/-- One word of a segment: a value that may be an address is moved. -/
def rebaseSlot (mv : Move) (memory : List UInt8) (slot : UInt64) :
    Checked (List UInt8) := do
  let value ← le64At memory slot.toNat
  if value ≥ mv.oldBase ∧ value < mv.oldEnd then
    putAt memory slot.toNat (le64 (value + mv.delta))
  else return memory

/-- The words of a segment, up to `scanLen`. -/
def rebaseScan (mv : Move) (base scanLen : UInt64) :
    (rounds : Nat) → (off : UInt64) → List UInt8 → Checked (List UInt8)
  | 0, _, _ => .error .unfinished
  | rounds + 1, off, memory => do
    if off < scanLen then
      let memory ← rebaseSlot mv memory (base + off)
      rebaseScan mv base scanLen rounds (off + 8) memory
    else return memory

/-- One segment. Executable ones are skipped, for their bytes are
instructions. -/
def rebaseSegment (mv : Move) (memory : List UInt8) (seg : Segment) :
    Checked (List UInt8) :=
  if seg.flags &&& PF_X ≠ 0 then return memory
  else
    let scanLen := seg.filesz
    if scanLen < 8 then return memory
    else
      let scanLen := scanLen - scanLen % 8
      rebaseScan mv seg.base scanLen (scanLen.toNat / 8 + 1) 0 memory

/-- `clks_elf64_rebase_exec_pointers`. -/
def rebaseExecPointers (mv : Move) (loaded : Loaded) : Checked Loaded :=
  if mv.delta = 0 ∨ mv.oldEnd ≤ mv.oldBase then return loaded
  else do
    let memory ← loaded.segments.foldlM (rebaseSegment mv) loaded.memory
    return { loaded with memory }

/-- The loading of the segments into a block at `imageBase`. -/
def layOut (image : Source) (eh : Ehdr) (bounds : Bounds)
    (imageBase : UInt64) : Checked (Option Loaded) := do
  let span := bounds.maxVaddrEnd - bounds.minVaddr
  let cleared : Loaded :=
    ⟨eh.entry, imageBase, span, bounds.minVaddr, [],
      List.replicate span.toNat 0⟩
  match ← eachPhdr image eh (layPhdr image) cleared with
  | none => return none
  | some loaded =>
    if eh.type = ET_EXEC then
      let newBase := imageBase
      let oldBase := bounds.minVaddr
      if newBase ≠ oldBase then
        return some (← rebaseExecPointers
          ⟨oldBase, bounds.maxVaddrEnd, newBase - oldBase⟩ loaded)
      else return some loaded
    else return some loaded

/-- `clks_elf64_load`. `kmalloc` is the address that the heap answers to a
request of a number of bytes, if it does not refuse it. -/
def load (image : Source) (kmalloc : UInt64 → Option UInt64) :
    Checked (Option Loaded) := do
  if ← validate image then
    let eh ← ehdrAt image.val
    match ← eachPhdr image eh boundPhdr ⟨0, 0, 0⟩ with
    | none => return none
    | some bounds =>
      if bounds.loadCount = 0 then return none
      else if bounds.loadCount.toNat > MAX_SEGMENTS then return none
      else
        let span := bounds.maxVaddrEnd - bounds.minVaddr
        if span = 0 then return none
        else
          match kmalloc span with
          | none => return none
          | some imageBase => layOut image eh bounds imageBase
  else return none

end Clks.Elf
