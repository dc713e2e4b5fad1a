/-
The ramdisk image and the walk through it (`kernel/storage/ramdisk.c`).

The image is a tar archive in memory: blocks of 512 bytes, a header in one
and the bytes of the file in those after it. Offsets are words of 64 bits
as in the C code, and each read of the image is checked against its
length. What is left of a header once its name has been copied is text,
and the walk only hands it on; so is the context of the callback, which is
the state that `visit` passes from entry to entry.
-/
import Clks.Lib.Reads
import Clks.Path

namespace Clks.Tar

open Reads

def BLOCK_SIZE : UInt64 := 512
def RAMDISK_PATH_MAX : Nat := 192

/-- The bytes of an image. An object in memory is less than half of the
address space long. -/
abbrev Image := { bytes : List UInt8 // bytes.length < 2 ^ 63 }

/-- The size that comes with an image. -/
def Image.size (image : Image) : UInt64 := UInt64.ofNat image.val.length

-- ==== the header

-- The members of `struct clks_tar_header` that are looked at.
def nameAt : Nat := 0
def nameSize : Nat := 100
def sizeAt : Nat := 124
def sizeSize : Nat := 12
def typeflagAt : Nat := 156
def prefixAt : Nat := 345
def prefixSize : Nat := 155

/-- `clks_ramdisk_is_zero_block`. -/
def isZeroBlock (b : List UInt8) (block : Nat) : Checked Bool :=
  equalAt b block (List.replicate BLOCK_SIZE.toNat 0)

/-- `clks_ramdisk_field_len`. -/
def fieldLen (b : List UInt8) : (field maxLen : Nat) → Checked Nat
  | _, 0 => return 0
  | field, maxLen + 1 => do
    if (← byteAt b field) = 0 then return 0
    else return (← fieldLen b (field + 1) maxLen) + 1

/-- A byte in front of a number or behind it. -/
def isBlank (ch : UInt8) : Bool := ch = space || ch = 0

/-- The blanks at the start of a field of `len` bytes, passed. -/
def skipBlanks (b : List UInt8) : (field len : Nat) → Checked Nat
  | _, 0 => return 0
  | field, len + 1 => do
    if isBlank (← byteAt b field) then
      return (← skipBlanks b (field + 1) len) + 1
    else return 0

/-- The digits up to the next blank or the end. -/
def octalDigits (b : List UInt8) :
    (field len : Nat) → (value : UInt64) → Checked (Option UInt64)
  | _, 0, value => return some value
  | field, len + 1, value => do
    let ch ← byteAt b field
    if isBlank ch then return some value
    else if ch < 0x30 ∨ ch > 0x37 then return none
    else if value > (0xFFFFFFFFFFFFFFFF : UInt64) >>> 3 then return none
    else octalDigits b (field + 1) len (value <<< 3 + (ch - 0x30).toUInt64)

/-- `clks_ramdisk_parse_octal_u64`. -/
def parseOctalU64 (b : List UInt8) (field len : Nat) :
    Checked (Option UInt64) := do
  let i ← skipBlanks b field len
  octalDigits b (field + i) (len - i) 0

/-- The slashes and the `./` at the start of a path, dropped. -/
def dropLead : List UInt8 → List UInt8
  | [] => []
  | [ch] => if ch = slash then [] else [ch]
  | ch₁ :: ch₂ :: path =>
    if ch₁ = dot ∧ ch₂ = slash then dropLead path
    else if ch₁ = slash then dropLead (ch₂ :: path)
    else ch₁ :: ch₂ :: path

/-- `clks_ramdisk_build_path`. -/
def buildPath (b : List UInt8) (hdr : Nat) :
    Checked (Option (List UInt8)) := do
  let prefixLen ← fieldLen b (hdr + prefixAt) prefixSize
  let nameLen ← fieldLen b (hdr + nameAt) nameSize
  if nameLen = 0 then return none
  else if prefixLen ≠ 0 ∧ prefixLen + 1 ≥ RAMDISK_PATH_MAX then return none
  else
    let pre ← blockAt b (hdr + prefixAt) prefixLen
    let raw := if prefixLen ≠ 0 then pre.val ++ [slash] else []
    if raw.length + nameLen ≥ RAMDISK_PATH_MAX then return none
    else
      let name ← blockAt b (hdr + nameAt) nameLen
      let path := (dropLead (raw ++ name.val)).rdropWhile (· = slash)
      if path = [] then return none else return some path

-- ==== the walk

/-- What the callback is given: a file with its bytes in the image, or a
directory. -/
inductive Kind
  | file (data : UInt64) (size : UInt64)
  | dir
  deriving DecidableEq

/-- `struct clks_ramdisk_entry`. -/
structure Entry where
  path : List UInt8
  kind : Kind
  deriving DecidableEq

/-- The entry of a header, if it is one that is emitted. -/
def entryAt (b : List UInt8) (hdr : Nat) (payloadOffset fileSize : UInt64) :
    Checked (Option Entry) := do
  match ← buildPath b hdr with
  | none => return none
  | some path =>
    let typeflag ← byteAt b (hdr + typeflagAt)
    if typeflag = chr '5' then return some ⟨path, .dir⟩
    else if typeflag = 0 ∨ typeflag = chr '0' then
      return some ⟨path, .file payloadOffset fileSize⟩
    else return none

variable {σ : Type}

/-- Where a round of the loop leads. -/
inductive Step
  | stop (ok : Bool)
  | goOn (offset : UInt64)
  deriving DecidableEq

/-- A header with a payload of `fileSize` bytes. -/
def visitPayload (image : Image) (visit : σ → Entry → Bool × σ)
    (offset fileSize : UInt64) (ctx : σ) : Checked (Step × σ) := do
  let payloadOffset := offset + BLOCK_SIZE
  if payloadOffset > image.size then return (.stop false, ctx)
  else if fileSize > image.size - payloadOffset then return (.stop false, ctx)
  else
    let entry ← entryAt image.val offset.toNat payloadOffset fileSize
    let visited := (entry.map (visit ctx)).getD (true, ctx)
    if !visited.1 then return (.stop false, visited.2)
    else
      let alignedSize := (fileSize + (BLOCK_SIZE - 1)) &&& ~~~(BLOCK_SIZE - 1)
      if payloadOffset + alignedSize < payloadOffset then
        return (.stop false, visited.2)
      else return (.goOn (payloadOffset + alignedSize), visited.2)

/-- A round of the loop. -/
def visitHeader (image : Image) (visit : σ → Entry → Bool × σ)
    (offset : UInt64) (ctx : σ) : Checked (Step × σ) := do
  if offset + BLOCK_SIZE ≤ image.size then
    if ← isZeroBlock image.val offset.toNat then return (.stop true, ctx)
    else
      match ← parseOctalU64 image.val (offset.toNat + sizeAt) sizeSize with
      | none => return (.stop false, ctx)
      | some fileSize => visitPayload image visit offset fileSize ctx
  else return (.stop true, ctx)

/-- The loop of `clks_ramdisk_iterate`. -/
def iterateFrom (image : Image) (visit : σ → Entry → Bool × σ) :
    (rounds : Nat) → (offset : UInt64) → σ → Checked (Bool × σ)
  | 0, _, _ => .error .unfinished
  | rounds + 1, offset, ctx => do
    match ← visitHeader image visit offset ctx with
    | (.stop ok, ctx) => return (ok, ctx)
    | (.goOn offset, ctx) => iterateFrom image visit rounds offset ctx

/-- `clks_ramdisk_iterate`. -/
def iterate (image : Image) (visit : σ → Entry → Bool × σ) (ctx : σ) :
    Checked (Bool × σ) :=
  iterateFrom image visit (image.val.length / 512 + 1) 0 ctx

end Clks.Tar
