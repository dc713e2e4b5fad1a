/-
The contents of files (disk/file_chain.inc): reading, writing and
extending a cluster chain.

A buffer that is written from is the map from offsets to its bytes, with
its size beside it; a buffer that is read into is the list of the bytes
that were copied.
-/
import Clks.Disk.Fat

namespace Clks.Disk

open Bytes

/-- The bytes of a range of the image. -/
def readBytes (m : Mem) (offset size : Nat) : List UInt8 :=
  (List.range size).map fun k => m (offset + k)

/-- The loop of `clks_disk_read_file_chain`, with `size` bytes still to
be copied. -/
def readChainLoop : Nat → Nat → Nat → Cmd State (List UInt8)
  | 0, _, _ => Cmd.fail
  | guard + 1, cluster, size => do
    let s ← Cmd.get
    Cmd.require (s.fat32.clusterValid cluster)
    let clusterOffset ← clusterFirstByteOffset cluster
    let toCopy := min size s.fat32.clusterSizeBytes
    Cmd.require (s.bytesRangeValid clusterOffset toCopy)
    ensureLoadedRange clusterOffset toCopy
    let s ← Cmd.get
    let part := readBytes s.bytes clusterOffset toCopy
    if size ≤ toCopy then
      pure part
    else do
      let (nextCluster, isEoc) ← fatNextCluster cluster
      Cmd.require (!isEoc)
      Cmd.require (s.fat32.clusterValid nextCluster)
      let rest ← readChainLoop guard nextCluster (size - toCopy)
      pure (part ++ rest)

/-- `clks_disk_read_file_chain`. -/
def readFileChain (firstCluster size : Nat) : Cmd State (List UInt8) := do
  let s ← Cmd.get
  if size = 0 then
    pure []
  else do
    Cmd.require (s.fat32.clusterValid firstCluster)
    readChainLoop s.fat32.clusterCount firstCluster size

/-- The loop of `clks_disk_write_file_chain`, with `written` bytes of
the buffer done. -/
def writeChainLoop (data : Mem) (size : Nat) :
    Nat → Nat → Nat → Cmd State Unit
  | 0, _, _ => Cmd.fail
  | guard + 1, cluster, written => do
    let s ← Cmd.get
    Cmd.require (s.fat32.clusterValid cluster)
    let clusterLba ← clusterLba cluster
    let clusterSize := s.fat32.clusterSizeBytes
    let clusterOffset := clusterLba * sectorSize
    let toCopy := min (size - written) clusterSize
    Cmd.require (s.bytesRangeValid clusterOffset clusterSize)
    poke clusterOffset clusterSize fun _ => 0
    poke clusterOffset toCopy fun k => data (written + k)
    syncSectorRangeNoFlush clusterLba s.fat32.sectorsPerCluster
    if size ≤ written + toCopy then
      pure ()
    else do
      let (nextCluster, isEoc) ← fatNextCluster cluster
      Cmd.require (!isEoc)
      Cmd.require (s.fat32.clusterValid nextCluster)
      writeChainLoop data size guard nextCluster (written + toCopy)

/-- `clks_disk_write_file_chain`; a missing buffer is `none`. -/
def writeFileChain (firstCluster : Nat) (data : Option Mem) (size : Nat) :
    Cmd State Unit := do
  let s ← Cmd.get
  if size = 0 then
    pure ()
  else
    match data with
    | none => Cmd.fail
    | some data => do
      Cmd.require (s.fat32.clusterValid firstCluster)
      writeChainLoop data size s.fat32.clusterCount firstCluster 0

/-- The loop of `clks_disk_chain_last_cluster`. -/
def chainLastLoop : Nat → Nat → Cmd State Nat
  | 0, _ => Cmd.fail
  | guard + 1, cluster => do
    let s ← Cmd.get
    Cmd.require (s.fat32.clusterValid cluster)
    let (nextCluster, isEoc) ← fatNextCluster cluster
    if isEoc then
      pure cluster
    else do
      Cmd.require (s.fat32.clusterValid nextCluster)
      chainLastLoop guard nextCluster

/-- `clks_disk_chain_last_cluster`. -/
def chainLastCluster (firstCluster : Nat) : Cmd State Nat := do
  let s ← Cmd.get
  Cmd.require (s.fat32.clusterValid firstCluster)
  chainLastLoop s.fat32.clusterCount firstCluster

/-- `need64`: how many clusters hold `size` bytes. The sum is one of
64-bit words. -/
def needClusters (size clusterSize : Nat) : Nat :=
  (size + clusterSize - 1) % 2 ^ 64 / clusterSize

/-- The last loop of `clks_disk_append_file_chain`: one more cluster for every
cluster-sized piece of the buffer. -/
def appendLoop (data : Mem) (size : Nat) :
    Nat → Nat → Nat → Cmd State Unit
  | 0, _, _ => pure ()
  | n + 1, lastCluster, appended => do
    if size ≤ appended then
      pure ()
    else do
      let s ← Cmd.get
      let clusterSize := s.fat32.clusterSizeBytes
      let toCopy := min (size - appended) clusterSize
      let newCluster ← allocClusterNoZero
      (fatWriteEntry lastCluster newCluster).orCleanup (freeChain newCluster)
      let clusterLba ← clusterLba newCluster
      let clusterOffset := clusterLba * sectorSize
      let s ← Cmd.get
      Cmd.require (s.bytesRangeValid clusterOffset clusterSize)
      if toCopy < clusterSize then
        poke clusterOffset clusterSize fun _ => 0
      poke clusterOffset toCopy fun k => data (appended + k)
      syncSectorRangeNoFlush clusterLba s.fat32.sectorsPerCluster
      appendLoop data size n newCluster (appended + toCopy)

/-- The step of `clks_disk_append_file_chain` that fills up the last
cluster of the file; it returns how many bytes went there. -/
def appendPartial (lastCluster oldSize : Nat) (data : Mem) (size : Nat) :
    Cmd State Nat := do
  let s ← Cmd.get
  let clusterSize := s.fat32.clusterSizeBytes
  if oldSize % clusterSize ≠ 0 then do
    let within := oldSize % clusterSize
    let freeInCluster := clusterSize - within
    let toCopy := min size freeInCluster
    let clusterLba ← clusterLba lastCluster
    let clusterOffset := clusterLba * sectorSize + within
    Cmd.require (s.bytesRangeValid clusterOffset toCopy)
    poke clusterOffset toCopy data
    let syncStartLba := clusterLba + within / sectorSize
    let syncSectorCount :=
      (within + toCopy + (sectorSize - 1)) / sectorSize - within / sectorSize
    syncSectorRangeNoFlush syncStartLba syncSectorCount
    pure toCopy
  else
    pure 0

/-- `clks_disk_append_file_chain`; it returns the file's first cluster,
which an empty file gets here. -/
def appendFileChain (firstCluster oldSize : Nat) (data : Option Mem)
    (size : Nat) : Cmd State Nat := do
  let s ← Cmd.get
  let clusterSize := s.fat32.clusterSizeBytes
  if size = 0 then
    pure firstCluster
  else
    match data with
    | none => Cmd.fail
    | some data => do
      Cmd.require (clusterSize ≠ 0)
      if !s.fat32.clusterValid firstCluster then do
        let need := needClusters size clusterSize
        Cmd.require (need ≠ 0 && need ≤ s.fat32.clusterCount)
        let first ← allocChain need
        writeFileChain first (some data) size
        pure first
      else do
        let lastCluster ← chainLastCluster firstCluster
        let appended ← appendPartial lastCluster oldSize data size
        appendLoop data size (size - appended) lastCluster appended
        flushHw
        pure firstCluster

end Clks.Disk
