/-
Reading the layout off a boot sector (disk/fat_layout.inc) and writing a
fresh volume (disk/format.inc).
-/
import Clks.Disk.Directory

namespace Clks.Disk

open Bytes

-- ==== constants

/-- `CLKS_DISK_FAT32_PARTITION_LBA`. -/
abbrev partitionLba : Nat := 2048

/-- `CLKS_DISK_FAT32_MIN_CLUSTER_COUNT`. -/
abbrev minClusterCount : Nat := 65525

/-- The largest number of clusters that a layout may have. -/
abbrev maxClusterCount : Nat := 0x0FFFFFF5

/-- `CLKS_DISK_FAT32_BOOT_SIG_OFFSET`. -/
abbrev bootSigOffset : Nat := 510

/-- `CLKS_DISK_FAT32_TYPE_OFFSET`. -/
abbrev fat32TypeOffset : Nat := 82

-- ==== the boot header

/-- What `clks_disk_parse_fat32_layout` reads from a boot sector. -/
structure BootHeader where
  bytesPerSector : Nat
  sectorsPerCluster : Nat
  reservedSectors : Nat
  fatCount : Nat
  sectorsPerFat : Nat
  rootCluster : Nat
  totalSectors16 : Nat
  totalSectors32 : Nat
  deriving DecidableEq, Repr

/-- The fields of the boot sector at an offset. -/
def readBootHeader (m : Mem) (boot : Nat) : BootHeader where
  bytesPerSector := readU16 m (boot + 11)
  sectorsPerCluster := (m (boot + 13)).toNat
  reservedSectors := readU16 m (boot + 14)
  fatCount := (m (boot + 16)).toNat
  sectorsPerFat := readU32 m (boot + 36)
  rootCluster := readU32 m (boot + 44)
  totalSectors16 := readU16 m (boot + 19)
  totalSectors32 := readU32 m (boot + 32)

/-- A sector ends with the two signature bytes. -/
def hasBootSig (m : Mem) (boot : Nat) : Bool :=
  m (boot + bootSigOffset) = 0x55 && m (boot + bootSigOffset + 1) = 0xAA

/-- A sector names the file system. -/
def hasFat32Type (m : Mem) (boot : Nat) : Bool :=
  (List.range 5).map (fun k => m (boot + fat32TypeOffset + k)) = txt "FAT32"

namespace BootHeader

/-- `total_sectors`. -/
def totalSectors (h : BootHeader) : Nat :=
  if h.totalSectors16 ≠ 0 then h.totalSectors16 else h.totalSectors32

/-- The sectors in front of the data area, within the volume. -/
def metaSectors (h : BootHeader) : Nat :=
  h.reservedSectors + h.fatCount * h.sectorsPerFat

/-- `cluster_count`. -/
def clusterCount (h : BootHeader) : Nat :=
  (h.totalSectors - h.metaSectors) / h.sectorsPerCluster

/-- The checks of `clks_disk_parse_fat32_layout` on the fields. -/
def accepted (h : BootHeader) (sectorTotal volumeLba : Nat) : Bool :=
  h.bytesPerSector = sectorSize &&
  (h.sectorsPerCluster ≠ 0 &&
    h.sectorsPerCluster &&& (h.sectorsPerCluster - 1) = 0) &&
  (h.reservedSectors ≠ 0 && 1 ≤ h.fatCount && h.sectorsPerFat ≠ 0 &&
    h.totalSectors ≠ 0) &&
  2 ≤ h.rootCluster &&
  h.totalSectors ≤ (sectorTotal + 2 ^ 64 - volumeLba) % 2 ^ 64 &&
  h.metaSectors < h.totalSectors &&
  (minClusterCount ≤ h.clusterCount && h.clusterCount ≤ maxClusterCount) &&
  h.rootCluster < h.clusterCount + 2

/-- The layout that the fields describe. -/
def layout (h : BootHeader) (volumeLba : Nat) : Layout where
  valid := true
  bytesPerSector := h.bytesPerSector
  sectorsPerCluster := h.sectorsPerCluster
  reservedSectors := h.reservedSectors
  fatCount := h.fatCount
  sectorsPerFat := h.sectorsPerFat
  totalSectors := h.totalSectors
  rootCluster := h.rootCluster
  clusterCount := h.clusterCount
  clusterSizeBytes := h.sectorsPerCluster * sectorSize
  entriesPerCluster := h.sectorsPerCluster * sectorSize / direntSize
  volumeLba := volumeLba
  fatLba := volumeLba + h.reservedSectors
  dataLba := volumeLba + h.reservedSectors + h.fatCount * h.sectorsPerFat

end BootHeader

/-- Where the boot sector is looked for: at the start of the disk, or
behind the partition gap if there is none. -/
def findVolume : Cmd State Nat := do
  ensureLoadedRange 0 sectorSize
  let s ← Cmd.get
  if hasBootSig s.bytes 0 && hasFat32Type s.bytes 0 then
    pure 0
  else do
    let shiftedOffset := partitionLba * sectorSize
    Cmd.require (shiftedOffset ≤ s.bytesLen &&
      sectorSize ≤ s.bytesLen - shiftedOffset)
    ensureLoadedRange shiftedOffset sectorSize
    pure partitionLba

/-- `clks_disk_parse_fat32_layout`. -/
def parseFat32Layout : Cmd State Unit := do
  Cmd.modify fun s => { s with fat32 := Layout.zero, allocHint := 2 }
  let s ← Cmd.get
  Cmd.require (s.ready && sectorSize ≤ s.bytesLen)
  let volumeLba ← findVolume
  let s ← Cmd.get
  let boot := volumeLba * sectorSize
  Cmd.require (hasBootSig s.bytes boot && hasFat32Type s.bytes boot)
  let h := readBootHeader s.bytes boot
  Cmd.require (h.accepted s.sectorTotal volumeLba)
  Cmd.modify fun s => { s with fat32 := h.layout volumeLba }

-- ==== format.inc

/-- `clks_disk_format_choose_spc`. -/
def formatChooseSpc (totalSectors : Nat) : Nat :=
  if totalSectors ≤ 532480 then 1
  else if totalSectors ≤ 16777216 then 8
  else if totalSectors ≤ 33554432 then 16
  else if totalSectors ≤ 67108864 then 32
  else 64

/-- `clks_disk_label_to_boot_field`. A label that is missing is
empty. -/
def labelToBootField (label : List UInt8) : List UInt8 :=
  if label = [] then txt "CLEONOSDISK"
  else
    let chars := (label.take 11).map asciiUpper
    chars ++ List.replicate (11 - chars.length) space

/-- The reserved sectors of a volume that the driver writes. -/
abbrev formatReserved : Nat := 32

/-- The copies of its table. -/
abbrev formatFats : Nat := 2

/-- The clusters that are left beside tables of a size. -/
def clustersBeside (totalSectors spc fatSectors : Nat) : Nat :=
  (totalSectors - formatReserved - formatFats * fatSectors) / spc

/-- The sectors that a table for so many clusters takes. -/
def fatSectorsFor (clusterCount : Nat) : Nat :=
  ((clusterCount + 2) * 4 + (sectorSize - 1)) / sectorSize

/-- The search for the size of the table: the size and the number of
clusters so far, and what they are in the end. -/
def fatSectorsLoop (totalSectors spc : Nat) :
    Nat → Nat → Nat → Option (Nat × Nat)
  | 0, fatSectors, clusterCount => some (fatSectors, clusterCount)
  | n + 1, fatSectors, _ =>
    if totalSectors ≤ formatReserved + formatFats * fatSectors then
      none
    else
      let clusterCount := clustersBeside totalSectors spc fatSectors
      let nextFat := fatSectorsFor clusterCount
      if 0xFFFFFFFF < nextFat then
        none
      else if nextFat = fatSectors then
        some (fatSectors, clusterCount)
      else
        fatSectorsLoop totalSectors spc n nextFat clusterCount

/-- The boot sector of a fresh volume. -/
def bootSector (totalSectors spc fatSectors : Nat) (label : List UInt8) :
    Mem :=
  let m : Mem := fun _ => 0
  let m := blit m 0 3 fun k => [0xEB, 0x58, 0x90].getD k 0
  let m := blit m 3 8 fun k => (txt "MSDOS5.0").getD k 0
  let m := writeU16 m 11 sectorSize
  let m := blit m 13 1 fun _ => UInt8.ofNat spc
  let m := writeU16 m 14 formatReserved
  let m := blit m 16 1 fun _ => UInt8.ofNat formatFats
  let m := writeU16 m 17 0
  let m := writeU16 m 19 0
  let m := blit m 21 1 fun _ => 0xF8
  let m := writeU16 m 22 0
  let m := writeU16 m 24 63
  let m := writeU16 m 26 255
  let m := writeU32 m 28 partitionLba
  let m := writeU32 m 32 totalSectors
  let m := writeU32 m 36 fatSectors
  let m := writeU16 m 40 0
  let m := writeU16 m 42 0
  let m := writeU32 m 44 2
  let m := writeU16 m 48 1
  let m := writeU16 m 50 6
  let m := blit m 64 1 fun _ => 0x80
  let m := blit m 66 1 fun _ => 0x29
  let m := writeU32 m 67 0x434C4B53
  let m := blit m 71 11 fun k => (labelToBootField label).getD k 0
  let m := blit m fat32TypeOffset 8 fun k => (txt "FAT32   ").getD k 0
  let m := blit m bootSigOffset 1 fun _ => 0x55
  blit m (bootSigOffset + 1) 1 fun _ => 0xAA

/-- The information sector of a fresh volume. -/
def infoSector : Mem :=
  let m : Mem := fun _ => 0
  let m := writeU32 m 0 0x41615252
  let m := writeU32 m 484 0x61417272
  let m := writeU32 m 488 0xFFFFFFFF
  let m := writeU32 m 492 0xFFFFFFFF
  let m := blit m bootSigOffset 1 fun _ => 0x55
  blit m (bootSigOffset + 1) 1 fun _ => 0xAA

/-- `clks_disk_loaded_mark_range`. -/
def loadedMarkRange (startLba count : Nat) : Cmd State Unit :=
  Cmd.modify fun s =>
    { s with
      loaded := fun l =>
        decide (startLba ≤ l ∧ l < startLba + count) || s.loaded l }

/-- The loop over the copies of the table that blanks them. -/
def blankFatLoop (fatSectors : Nat) : Nat → Nat → Cmd State Unit
  | 0, _ => pure ()
  | n + 1, fatIndex => do
    let fatLba := partitionLba + formatReserved + fatIndex * fatSectors
    let fatOffset := fatLba * sectorSize
    let fatBytes := fatSectors * sectorSize
    let s ← Cmd.get
    Cmd.require (s.bytesRangeValid fatOffset fatBytes)
    poke fatOffset fatBytes fun _ => 0
    loadedMarkRange fatLba fatSectors
    poke fatOffset 4 (wordByte 0x0FFFFFF8)
    poke (fatOffset + 4) 4 (wordByte 0x0FFFFFFF)
    poke (fatOffset + 8) 4 (wordByte eoc)
    blankFatLoop fatSectors n (fatIndex + 1)

/-- The loop over the copies of the table that writes them out. -/
def syncFatLoop (fatSectors : Nat) : Nat → Nat → Cmd State Unit
  | 0, _ => pure ()
  | n + 1, fatIndex => do
    let fatLba := partitionLba + formatReserved + fatIndex * fatSectors
    syncSectorRange fatLba fatSectors
    syncFatLoop fatSectors n (fatIndex + 1)

/-- The header of the volume, with its backup, in the image. -/
def writeHeader (totalSectors spc fatSectors : Nat) (label : List UInt8) :
    Cmd State Unit := do
  let s ← Cmd.get
  Cmd.require (s.bytesRangeValid 0 sectorSize)
  poke 0 sectorSize fun _ => 0
  loadedMarkRange 0 1
  let volumeOffset := partitionLba * sectorSize
  let reservedBytes := formatReserved * sectorSize
  Cmd.require (s.bytesRangeValid volumeOffset reservedBytes)
  poke volumeOffset reservedBytes fun _ => 0
  loadedMarkRange partitionLba formatReserved
  let boot := bootSector totalSectors spc fatSectors label
  poke volumeOffset sectorSize boot
  poke ((partitionLba + 1) * sectorSize) sectorSize infoSector
  poke ((partitionLba + 6) * sectorSize) sectorSize boot
  poke ((partitionLba + 7) * sectorSize) sectorSize infoSector

/-- `clks_disk_write_fat32_boot_sector`. -/
def writeFat32BootSector (label : List UInt8) : Cmd State Unit := do
  let s ← Cmd.get
  Cmd.require (s.bytesLen ≠ 0 && s.sectorTotal ≠ 0 &&
    s.sectorTotal ≤ 0xFFFFFFFF)
  Cmd.require (partitionLba < s.sectorTotal)
  Cmd.require (s.bytesRangeValid (partitionLba * sectorSize) sectorSize)
  let totalSectors := s.sectorTotal - partitionLba
  let spc := formatChooseSpc totalSectors
  match fatSectorsLoop totalSectors spc 16 1 0 with
  | none => Cmd.fail
  | some (fatSectors, clusterCount) => do
    Cmd.require (minClusterCount ≤ clusterCount &&
      clusterCount ≤ maxClusterCount)
    Cmd.require (formatReserved + formatFats * fatSectors < totalSectors)
    writeHeader totalSectors spc fatSectors label
    blankFatLoop fatSectors formatFats 0
    parseFat32Layout
    let s ← Cmd.get
    initDirectoryCluster s.fat32.rootCluster s.fat32.rootCluster
    syncSectorRange 0 1
    syncSectorRange partitionLba formatReserved
    syncFatLoop fatSectors formatFats 0

/-- `clks_disk_format_fat32`. -/
def formatFat32 (label : List UInt8) : Cmd State Unit := do
  let s ← Cmd.get
  Cmd.require (s.ready && s.bytesLen ≠ 0)
  (writeFat32BootSector label).orCleanup
    (Cmd.modify fun s => { s with formatted := false, fat32 := Layout.zero })
  let parsed ← Cmd.attempt parseFat32Layout
  Cmd.modify fun s => { s with formatted := parsed.isSome }
  Cmd.require parsed.isSome

end Clks.Disk
