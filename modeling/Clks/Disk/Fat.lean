/-
The file allocation table and the cluster allocator
(disk/fat_layout.inc, disk/fat_alloc.inc).

A loop that C bounds by a counter is a recursion on what is left of that
counter: `guard < cluster_count` becomes the fuel `clusterCount`, a
`for` over clusters the number of clusters still to visit. `break` and
`return` are the branches without the recursive call.
-/
import Clks.Disk.State

namespace Clks.Disk

open Bytes

-- ==== fat_layout.inc

/-- `CLKS_DISK_FAT32_EOC_MIN`. -/
abbrev eocMin : Nat := 0x0FFFFFF8

/-- `CLKS_DISK_FAT32_EOC`. -/
abbrev eoc : Nat := 0x0FFFFFFF

/-- `CLKS_DISK_FAT32_FREE_CLUSTER`. -/
abbrev freeCluster : Nat := 0

/-- `CLKS_DISK_INVALID_CLUSTER`. -/
abbrev invalidCluster : Nat := 0

/-- `value & 0x0FFFFFFF`: the part of a table entry that is a link. -/
def low28 (value : Nat) : Nat := value % 2 ^ 28

/-- `(old & 0xF0000000) | (value & 0x0FFFFFFF)`, on 32-bit words. -/
def mergeEntry (old value : Nat) : Nat := old / 2 ^ 28 * 2 ^ 28 + low28 value

/-- `clks_disk_cluster_valid`. -/
def Layout.clusterValid (L : Layout) (cluster : Nat) : Bool :=
  L.valid && 2 ≤ cluster && cluster < L.clusterCount + 2

/-- The sector number that `clks_disk_cluster_lba` computes. -/
@[irreducible] def Layout.lbaOf (L : Layout) (cluster : Nat) : Nat :=
  L.dataLba + (cluster - 2) * L.sectorsPerCluster

/-- `clks_disk_cluster_lba`. -/
def clusterLba (cluster : Nat) : Cmd State Nat := do
  let s ← Cmd.get
  Cmd.require (s.fat32.clusterValid cluster)
  let lba := s.fat32.lbaOf cluster
  Cmd.require (lba < s.sectorTotal)
  Cmd.require (s.fat32.sectorsPerCluster ≤ s.sectorTotal - lba)
  pure lba

/-- `clks_disk_cluster_first_byte_offset`. -/
def clusterFirstByteOffset (cluster : Nat) : Cmd State Nat := do
  let lba ← clusterLba cluster
  pure (lba * sectorSize)

/-- `clks_disk_fat_is_eoc`. -/
def fatIsEoc (value : Nat) : Bool := eocMin ≤ low28 value

/-- `clks_disk_fat_read_entry`. -/
def fatReadEntry (cluster : Nat) : Cmd State Nat := do
  let s ← Cmd.get
  let L := s.fat32
  Cmd.require L.valid
  Cmd.require (cluster < L.clusterCount + 2)
  let fatByteOffset := cluster * 4
  let fatSectorIndex := fatByteOffset / sectorSize
  let fatSectorOffset := fatByteOffset % sectorSize
  Cmd.require (fatSectorIndex < L.sectorsPerFat)
  let diskOffset := (L.fatLba + fatSectorIndex) * sectorSize + fatSectorOffset
  Cmd.require (s.bytesRangeValid diskOffset 4)
  ensureLoadedRange diskOffset 4
  let s ← Cmd.get
  pure (low28 (readU32 s.bytes diskOffset))

/-- The loop of `clks_disk_fat_write_entry` over the copies of the
table. -/
def fatWriteLoop (value fatSectorIndex fatSectorOffset : Nat) :
    Nat → Nat → Cmd State Unit
  | 0, _ => pure ()
  | n + 1, fatIndex => do
    let s ← Cmd.get
    let L := s.fat32
    let fatLba := L.fatLba + fatIndex * L.sectorsPerFat + fatSectorIndex
    let diskOffset := fatLba * sectorSize + fatSectorOffset
    Cmd.require (s.bytesRangeValid diskOffset 4)
    ensureLoadedRange diskOffset 4
    let s ← Cmd.get
    let newValue := mergeEntry (readU32 s.bytes diskOffset) value
    poke diskOffset 4 (wordByte newValue)
    syncSectorRange fatLba 1
    fatWriteLoop value fatSectorIndex fatSectorOffset n (fatIndex + 1)

/-- `clks_disk_fat_write_entry`. -/
def fatWriteEntry (cluster value : Nat) : Cmd State Unit := do
  let s ← Cmd.get
  let L := s.fat32
  Cmd.require L.valid
  Cmd.require (cluster < L.clusterCount + 2)
  let fatByteOffset := cluster * 4
  let fatSectorIndex := fatByteOffset / sectorSize
  let fatSectorOffset := fatByteOffset % sectorSize
  Cmd.require (fatSectorIndex < L.sectorsPerFat)
  fatWriteLoop value fatSectorIndex fatSectorOffset L.fatCount 0

/-- `clks_disk_fat_next_cluster`: the link of a cluster, and whether it
is an end-of-chain mark. -/
def fatNextCluster (cluster : Nat) : Cmd State (Nat × Bool) := do
  let value ← fatReadEntry cluster
  pure (low28 value, fatIsEoc value)

-- ==== fat_alloc.inc

/-- `clks_disk_zero_cluster`. -/
def zeroCluster (cluster : Nat) : Cmd State Unit := do
  let lba ← clusterLba cluster
  let s ← Cmd.get
  let offset := lba * sectorSize
  let byteCount := s.fat32.sectorsPerCluster * sectorSize
  Cmd.require (s.bytesRangeValid offset byteCount)
  poke offset byteCount fun _ => 0
  syncSectorRange lba s.fat32.sectorsPerCluster

/-- One of the two loops of `clks_disk_find_free_cluster`: the first
free cluster among the next `n`, with the hint moved past it. -/
def findFreeLoop : Nat → Nat → Cmd State (Option Nat)
  | 0, _ => pure none
  | n + 1, cluster => do
    let fatValue ← fatReadEntry cluster
    if fatValue = freeCluster then do
      Cmd.modify fun s =>
        { s with allocHint :=
            if cluster + 1 ≥ s.fat32.clusterCount + 2 then 2
            else cluster + 1 }
      pure (some cluster)
    else
      findFreeLoop n (cluster + 1)

/-- `clks_disk_find_free_cluster`. -/
def findFreeCluster : Cmd State Nat := do
  let s ← Cmd.get
  Cmd.require s.fat32.valid
  let stop := s.fat32.clusterCount + 2
  let start := if s.allocHint < 2 ∨ stop ≤ s.allocHint then 2 else s.allocHint
  let upper ← findFreeLoop (stop - start) start
  match upper with
  | some cluster => pure cluster
  | none => do
    let lower ← findFreeLoop (start - 2) 2
    match lower with
    | some cluster => pure cluster
    | none => Cmd.fail

/-- The loop of `clks_disk_free_chain`. -/
def freeChainLoop : Nat → Nat → Cmd State Unit
  | 0, _ => pure ()
  | guard + 1, current => do
    let s ← Cmd.get
    if s.fat32.clusterValid current then do
      let link ← Cmd.attempt (fatNextCluster current)
      match link with
      | none => pure ()
      | some (next, isEoc) => do
        Cmd.ignore (fatWriteEntry current freeCluster)
        if isEoc then
          pure ()
        else if s.fat32.clusterValid next then
          freeChainLoop guard next
        else
          pure ()
    else
      pure ()

/-- `clks_disk_free_chain`. -/
def freeChain (firstCluster : Nat) : Cmd State Unit := do
  let s ← Cmd.get
  if s.fat32.clusterValid firstCluster then
    freeChainLoop s.fat32.clusterCount firstCluster
  else
    pure ()

/-- `clks_disk_alloc_cluster_no_zero`. -/
def allocClusterNoZero : Cmd State Nat := do
  let cluster ← findFreeCluster
  fatWriteEntry cluster eoc
  pure cluster

/-- `clks_disk_alloc_cluster`. -/
def allocCluster : Cmd State Nat := do
  let cluster ← findFreeCluster
  fatWriteEntry cluster eoc
  (zeroCluster cluster).orCleanup
    (Cmd.ignore (fatWriteEntry cluster freeCluster))
  pure cluster

/-- The loop of `clks_disk_alloc_chain`: `first` and `prev` are the
first and the last cluster allocated so far. -/
def allocChainLoop : Nat → Nat → Nat → Cmd State Nat
  | 0, first, _ => pure first
  | n + 1, first, prev => do
    let current ← allocClusterNoZero.orCleanup
      (if first ≠ invalidCluster then freeChain first else pure ())
    if prev ≠ invalidCluster then
      (fatWriteEntry prev current).orCleanup (freeChain first)
    let first := if first = invalidCluster then current else first
    allocChainLoop n first current

/-- `clks_disk_alloc_chain`. -/
def allocChain (neededClusters : Nat) : Cmd State Nat :=
  if neededClusters = 0 then
    pure invalidCluster
  else
    allocChainLoop neededClusters invalidCluster invalidCluster

end Clks.Disk
