/-
The file-system check (disk/fsck.inc).

The check walks the directories from the root, marks the clusters of
every chain it meets, and counts what does not fit; asked to, it repairs.
Its marks and its result are a state of their own beside the driver's
(`FsckState`), with a record of what it did to the disk that nothing in
the check reads: the clusters whose entries it looked at, and the table
entries it wrote.
-/
import Clks.Disk.Directory

namespace Clks.Disk

open Bytes

-- ==== result

/-- `CLKS_DISK_FSCK_FLAG_FIX`. -/
abbrev fsckFlagFix : Nat := 1

/-- `struct clks_disk_fsck_result`. -/
structure FsckResult where
  status : Nat
  checkedClusters : Nat
  freeClusters : Nat
  usedClusters : Nat
  badEntries : Nat
  loops : Nat
  sizeMismatches : Nat
  orphanClusters : Nat
  fixedEntries : Nat
  fixedOrphans : Nat
  deriving DecidableEq, Repr

/-- The result after `clks_memset(out_result, 0, ...)`. -/
def FsckResult.zero : FsckResult where
  status := 0
  checkedClusters := 0
  freeClusters := 0
  usedClusters := 0
  badEntries := 0
  loops := 0
  sizeMismatches := 0
  orphanClusters := 0
  fixedEntries := 0
  fixedOrphans := 0

/-- The status that the counters come to. -/
def FsckResult.statusOf (r : FsckResult) : Nat :=
  if r.badEntries = 0 && r.loops = 0 && r.sizeMismatches = 0
    && r.orphanClusters = 0 then 0 else 1

/-- The disk under a check, the marks by the number of the cluster less
two, the result so far, and the record of what was done. -/
structure FsckState where
  disk : State
  marks : Nat → Bool
  result : FsckResult
  scanned : List Nat
  written : List Nat

/-- Run a command of the driver. -/
def Fsck.onDisk {α : Type} (m : Cmd State α) : Cmd FsckState α := fun s =>
  ((m s.disk).1, { s with disk := (m s.disk).2 })

namespace Fsck

-- ==== counters

/-- Change the result. -/
def note (f : FsckResult → FsckResult) : Cmd FsckState Unit :=
  Cmd.modify fun s => { s with result := f s.result }

/-- `result->bad_entries++`. -/
def noteBad : Cmd FsckState Unit :=
  note fun r => { r with badEntries := r.badEntries + 1 }

/-- `result->loops++`. -/
def noteLoop : Cmd FsckState Unit :=
  note fun r => { r with loops := r.loops + 1 }

/-- `result->size_mismatches++`. -/
def noteSize : Cmd FsckState Unit :=
  note fun r => { r with sizeMismatches := r.sizeMismatches + 1 }

/-- `result->fixed_entries++`. -/
def noteFixed : Cmd FsckState Unit :=
  note fun r => { r with fixedEntries := r.fixedEntries + 1 }

/-- `clks_disk_fat_write_entry`, with the cluster recorded: whether it
succeeded. -/
def write (cluster value : Nat) : Cmd FsckState Bool := do
  Cmd.modify fun s => { s with written := s.written ++ [cluster] }
  let done ← Cmd.attempt (onDisk (fatWriteEntry cluster value))
  pure done.isSome

/-- With FIX, end a chain at a cluster. -/
def cut (fix : Bool) (cluster : Nat) : Cmd FsckState Unit := do
  if fix then do
    let done ← write cluster eoc
    if done then noteFixed

/-- `marks[mark_index] = 1U`. -/
def mark (cluster : Nat) : Cmd FsckState Unit :=
  Cmd.modify fun s =>
    { s with marks := fun i => i == cluster - 2 || s.marks i }

-- ==== chains

/-- The loop of `clks_disk_fsck_free_tail`. -/
def freeTailLoop : Nat → Nat → Cmd FsckState Unit
  | 0, _ => pure ()
  | guard + 1, current => do
    let s ← Cmd.get
    if s.disk.fat32.clusterValid current then do
      let link ← Cmd.attempt (onDisk (fatNextCluster current))
      let _ ← write current freeCluster
      match link with
      | none => pure ()
      | some (next, isEoc) =>
        if isEoc || !s.disk.fat32.clusterValid next then
          pure ()
        else
          freeTailLoop guard next
    else
      pure ()

/-- `clks_disk_fsck_free_tail`. -/
def freeTail (firstCluster : Nat) : Cmd FsckState Unit := do
  let s ← Cmd.get
  freeTailLoop s.disk.fat32.clusterCount firstCluster

/-- The loop of `clks_disk_fsck_mark_chain`: the number of clusters marked. -/
def markChainLoop (needed : Nat) (isDir fix : Bool) :
    Nat → Nat → Nat → Nat → Cmd FsckState Nat
  | 0, _, _, chainClusters => do
    noteLoop
    pure chainClusters
  | guard + 1, current, prev, chainClusters => do
    let s ← Cmd.get
    if s.marks (current - 2) then do
      noteLoop
      if prev ≠ invalidCluster then
        cut fix prev
      pure chainClusters
    else do
      mark current
      let chainClusters := chainClusters + 1
      let link ← Cmd.attempt (onDisk (fatNextCluster current))
      match link with
      | none => do
        noteBad
        cut fix current
        pure chainClusters
      | some (next, isEoc) =>
        if !isDir && 0 < needed && chainClusters = needed && !isEoc then do
          noteSize
          if fix then do
            let done ← write current eoc
            if done then do
              noteFixed
              freeTail next
          pure chainClusters
        else if isEoc then
          pure chainClusters
        else if !s.disk.fat32.clusterValid next then do
          noteBad
          cut fix current
          pure chainClusters
        else
          markChainLoop needed isDir fix guard next current chainClusters

/-- `clks_disk_fsck_mark_chain`. -/
def markChain (firstCluster expectedSize : Nat) (isDir fix : Bool) :
    Cmd FsckState Unit := do
  let s ← Cmd.get
  let L := s.disk.fat32
  let needed :=
    if !isDir && 0 < expectedSize then
      (expectedSize + L.clusterSizeBytes - 1) / L.clusterSizeBytes
    else 0
  if firstCluster = invalidCluster then do
    if 0 < expectedSize && !isDir then
      noteSize
  else if !L.clusterValid firstCluster then
    noteBad
  else do
    let chainClusters ← markChainLoop needed isDir fix L.clusterCount
      firstCluster invalidCluster 0
    if !isDir && 0 < expectedSize then
      if needed = 0 || chainClusters < needed then
        noteSize

-- ==== directories

/-- `clks_disk_dirent_set_first_cluster`, on the entry at an offset. -/
def setFirstCluster (ptr cluster : Nat) : Cmd State Unit := do
  poke (ptr + 20) 2 (wordByte (cluster / 65536 % 65536))
  poke (ptr + 26) 2 (wordByte (cluster % 65536))

/-- The repair of an empty file that has clusters. -/
def dropChain (cluster entryIndex ptr firstCluster : Nat) :
    Cmd FsckState Unit := do
  freeTail firstCluster
  onDisk (setFirstCluster ptr invalidCluster)
  let done ← Cmd.attempt (onDisk do
    let (_, lba) ← dirEntryPtr cluster entryIndex
    syncSectorRange lba 1)
  if done.isSome then noteFixed

/-- What `clks_disk_fsck_scan_directory` does about one entry, given what
it does with a subdirectory. -/
def scanEntry (scan : Nat → Cmd FsckState Unit) (fix : Bool)
    (cluster entryIndex ptr : Nat) (e : Entry) : Cmd FsckState Unit := do
  let s ← Cmd.get
  if e.isFree || e.attr = attrLfn || e.isVolumeId then
    pure ()
  else if isDirectoryAttr e.attr then
    if e.isDotLike then
      pure ()
    else if !s.disk.fat32.clusterValid e.firstCluster then
      noteBad
    else
      scan e.firstCluster
  else if e.size = 0 then
    if e.firstCluster = 0 then
      pure ()
    else do
      noteSize
      if fix then
        dropChain cluster entryIndex ptr e.firstCluster
  else
    markChain e.firstCluster e.size false fix

/-- The loop of `clks_disk_fsck_scan_directory` over the entries of a
cluster: whether the walk goes on behind them. -/
def scanEntries (scan : Nat → Cmd FsckState Unit) (fix : Bool)
    (cluster : Nat) : Nat → Nat → Cmd FsckState Bool
  | 0, _ => pure true
  | n + 1, entryIndex => do
    let entry ← Cmd.attempt (onDisk (dirEntryPtr cluster entryIndex))
    match entry with
    | none => do
      noteBad
      pure false
    | some (ptr, _) => do
      let s ← Cmd.get
      scanEntry scan fix cluster entryIndex ptr (entryAt s.disk.bytes ptr)
      scanEntries scan fix cluster n (entryIndex + 1)

/-- The loop of `clks_disk_fsck_scan_directory` over the clusters of a
directory. -/
def scanLoop (scan : Nat → Cmd FsckState Unit) (fix : Bool) :
    Nat → Nat → Cmd FsckState Unit
  | 0, _ => noteLoop
  | guard + 1, cluster => do
    let s ← Cmd.get
    if !s.disk.fat32.clusterValid cluster then
      noteLoop
    else do
      Cmd.modify fun s => { s with scanned := s.scanned ++ [cluster] }
      let goesOn ← scanEntries scan fix cluster
        s.disk.fat32.entriesPerCluster 0
      if !goesOn then
        pure ()
      else do
        let link ← Cmd.attempt (onDisk (fatNextCluster cluster))
        match link with
        | none => noteBad
        | some (next, isEoc) =>
          if isEoc then
            pure ()
          else if !s.disk.fat32.clusterValid next then do
            noteBad
            cut fix cluster
          else
            scanLoop scan fix guard next

/-- `clks_disk_fsck_scan_directory`, with so many levels left. -/
def scanDirectory (fix : Bool) : Nat → Nat → Cmd FsckState Unit
  | 0, _ => Cmd.fail
  | levels + 1, dirCluster => do
    markChain dirCluster 0 true fix
    let s ← Cmd.get
    scanLoop (scanDirectory fix levels) fix s.disk.fat32.clusterCount
      dirCluster

/-- The levels for which the depth does not exceed 32. -/
abbrev maxLevels : Nat := 33

-- ==== the whole check

/-- The check of the two entries in front of the first cluster's. -/
def checkReserved : Cmd FsckState Unit := do
  let fat0 ← Cmd.attempt (onDisk (fatReadEntry 0))
  let fat1 ← Cmd.attempt (onDisk (fatReadEntry 1))
  if fat0.getD freeCluster = freeCluster
      || fat1.getD freeCluster = freeCluster then
    noteBad

/-- The loop over the table that counts clusters and finds those that
nothing leads to. -/
def countLoop (fix : Bool) : Nat → Nat → Cmd FsckState Unit
  | 0, _ => pure ()
  | n + 1, cluster => do
    let value ← Cmd.attempt (onDisk (fatReadEntry cluster))
    match value with
    | none => do
      noteBad
      countLoop fix n (cluster + 1)
    | some value =>
      if value = freeCluster then do
        note fun r => { r with freeClusters := r.freeClusters + 1 }
        countLoop fix n (cluster + 1)
      else do
        note fun r => { r with usedClusters := r.usedClusters + 1 }
        let s ← Cmd.get
        if !s.marks (cluster - 2) then do
          note fun r => { r with orphanClusters := r.orphanClusters + 1 }
          if fix then do
            let _ ← write cluster freeCluster
            note fun r => { r with fixedOrphans := r.fixedOrphans + 1 }
        countLoop fix n (cluster + 1)

end Fsck

/-- `clks_disk_fsck_fat32`, where `kmalloc` says whether the marks can be
allocated. -/
def fsckFat32 (kmalloc : Nat → Bool) (flags : Nat) : Cmd FsckState Unit := do
  Fsck.note fun _ => .zero
  let s ← Cmd.get
  let fix : Bool := flags &&& fsckFlagFix ≠ 0
  let L := s.disk.fat32
  Cmd.require (s.disk.ready && s.disk.formatted && L.valid)
  Cmd.require (kmalloc L.clusterCount)
  Cmd.modify fun s => { s with marks := fun _ => false }
  Fsck.note fun r => { r with checkedClusters := L.clusterCount }
  Fsck.checkReserved
  Fsck.scanDirectory fix Fsck.maxLevels L.rootCluster
  Fsck.countLoop fix L.clusterCount 2
  if fix then
    Cmd.ignore (Fsck.onDisk flushHw)
  Fsck.note fun r => { r with status := r.statusOf }

/-- A disk that is about to be checked. -/
def FsckState.start (s : State) : FsckState where
  disk := s
  marks := fun _ => false
  result := .zero
  scanned := []
  written := []

end Clks.Disk
