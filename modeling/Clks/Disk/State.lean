/-
The static state of the disk driver (disk.c) and its sector image
(disk/cache_io.inc).
-/
import Clks.Lib.Cmd
import Clks.Lib.Bytes

namespace Clks.Disk

open Bytes

-- ==== constants

/-- `CLKS_DISK_SECTOR_SIZE`. -/
abbrev sectorSize : Nat := 512

/-- `CLKS_DISK_PATH_MAX`. -/
abbrev pathMax : Nat := 192

/-- `CLKS_DISK_CACHE_MAX_BYTES`, in sectors: `clks_disk_init` never
keeps a larger image. -/
abbrev cacheMaxSectors : Nat := 524288

-- ==== state

/-- `struct clks_disk_fat32_layout`. -/
structure Layout where
  valid : Bool
  bytesPerSector : Nat
  sectorsPerCluster : Nat
  reservedSectors : Nat
  fatCount : Nat
  sectorsPerFat : Nat
  totalSectors : Nat
  rootCluster : Nat
  clusterCount : Nat
  clusterSizeBytes : Nat
  entriesPerCluster : Nat
  volumeLba : Nat
  fatLba : Nat
  dataLba : Nat
  deriving DecidableEq, Repr

/-- The layout after `clks_memset(&clks_disk_fat32, 0, ...)`. -/
def Layout.zero : Layout where
  valid := false
  bytesPerSector := 0
  sectorsPerCluster := 0
  reservedSectors := 0
  fatCount := 0
  sectorsPerFat := 0
  totalSectors := 0
  rootCluster := 0
  clusterCount := 0
  clusterSizeBytes := 0
  entriesPerCluster := 0
  volumeLba := 0
  fatLba := 0
  dataLba := 0

/-- The statics that only initialisation, formatting and mounting set. -/
structure Env where
  bytesLen : Nat
  sectorTotal : Nat
  ready : Bool
  formatted : Bool
  mounted : Bool
  hwBacked : Bool
  mountPath : List UInt8
  fat32 : Layout

/-- The driver's state: the statics, the sector image with its loaded
bitmap, the allocation hint, and the hardware's own sectors. -/
structure State extends Env where
  bytes : Mem
  loaded : Nat → Bool
  hw : Mem
  allocHint : Nat

-- ==== the sector image

namespace State

/-- `clks_disk_bytes_range_valid`. -/
def bytesRangeValid (s : State) (offset size : Nat) : Bool :=
  s.bytesLen ≠ 0 && offset ≤ s.bytesLen && size ≤ s.bytesLen - offset

/-- Read one sector from the hardware into the image. -/
def loadSector (s : State) (lba : Nat) : State :=
  { s with
    bytes := blit s.bytes (lba * sectorSize) sectorSize
      fun k => s.hw (lba * sectorSize + k)
    loaded := fun l => l == lba || s.loaded l }

/-- Write one sector of the image to the hardware. -/
def syncSector (s : State) (lba : Nat) : State :=
  { s with
    hw := blit s.hw (lba * sectorSize) sectorSize
      fun k => s.bytes (lba * sectorSize + k)
    loaded := fun l => l == lba || s.loaded l }

/-- The loop of `clks_disk_ensure_loaded_range`: load the sectors of a
range that are not loaded yet. -/
def loadLoop : Nat → Nat → State → State
  | 0, _, s => s
  | n + 1, lba, s =>
      loadLoop n (lba + 1) (if s.loaded lba then s else s.loadSector lba)

/-- The loop of the two `clks_disk_sync_sector_range` functions. -/
def syncLoop : Nat → Nat → State → State
  | 0, _, s => s
  | n + 1, lba, s => syncLoop n (lba + 1) (s.syncSector lba)

end State

/-- `clks_disk_ensure_loaded_range`. -/
def ensureLoadedRange (offset size : Nat) : Cmd State Unit := do
  let s ← Cmd.get
  if size = 0 then
    pure ()
  else
    Cmd.require (s.bytesRangeValid offset size)
    if s.hwBacked then
      let startLba := offset / sectorSize
      let endLba := (offset + size + (sectorSize - 1)) / sectorSize
      Cmd.modify (State.loadLoop (endLba - startLba) startLba)

/-- `clks_disk_flush_hw`. -/
def flushHw : Cmd State Unit := pure ()

/-- `clks_disk_sync_sector_range_no_flush`. -/
def syncSectorRangeNoFlush (startLba count : Nat) : Cmd State Unit := do
  let s ← Cmd.get
  if count = 0 then
    pure ()
  else if s.hwBacked then
    Cmd.require (startLba < s.sectorTotal)
    Cmd.require (count ≤ s.sectorTotal - startLba)
    Cmd.modify (State.syncLoop count startLba)

/-- `clks_disk_sync_sector_range`. -/
def syncSectorRange (startLba count : Nat) : Cmd State Unit := do
  syncSectorRangeNoFlush startLba count
  flushHw

/-- The state after a `memset` or `memcpy` into the image. -/
def State.poked (s : State) (offset len : Nat) (src : Nat → UInt8) : State :=
  { s with bytes := blit s.bytes offset len src }

/-- A `memset` or `memcpy` into the image. -/
def poke (offset len : Nat) (src : Nat → UInt8) : Cmd State Unit :=
  Cmd.modify fun s => s.poked offset len src

end Clks.Disk
