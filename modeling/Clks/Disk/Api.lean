/-
The operations on files and directories (disk/path.inc,
disk/public_api.inc).

Log lines are left out; nothing reads them. Paths come from callers that
check for null pointers, a data buffer may be missing (`none`).
-/
import Clks.Disk.Directory
import Clks.Disk.FileChain

namespace Clks.Disk

open Bytes

-- ==== path.inc

/-- `clks_disk_path_to_relative`: the part of a path below the mount
point. -/
def pathToRelative (e : Env) (path : List UInt8) : Option (List UInt8) :=
  if !e.mounted then
    none
  else
    match Path.normalizeAbsolute path pathMax with
    | none => none
    | some normalized =>
      let mountLen := e.mountPath.length
      if e.mountPath = [slash] then
        if normalized = [slash] then some []
        else Path.normalizeRelative (normalized.drop 1) pathMax
      else if normalized = e.mountPath then
        some []
      else if normalized.length ≤ mountLen then
        none
      else if normalized.take mountLen ≠ e.mountPath then
        none
      else if normalized[mountLen]? ≠ some slash then
        none
      else
        Path.normalizeRelative (normalized.drop (mountLen + 1)) pathMax

/-- The relative path of a call, on a disk that is up and formatted. -/
def relativeOf (path : List UInt8) : Cmd State (List UInt8) := do
  let s ← Cmd.get
  match pathToRelative s.toEnv path with
  | none => Cmd.fail
  | some relative => do
    Cmd.require (s.ready && s.formatted)
    pure relative

-- ==== public_api.inc

/-- `clks_disk_mount`. -/
def mount (mountPath : List UInt8) : Cmd State Unit := do
  let s ← Cmd.get
  Cmd.require (s.ready && s.formatted)
  match Path.normalizeAbsolute mountPath pathMax with
  | none => Cmd.fail
  | some normalized =>
    Cmd.modify fun s => { s with mountPath := normalized, mounted := true }

/-- The types that `clks_disk_stat` reports. -/
inductive NodeType
  | file
  | dir
  deriving DecidableEq, Repr

/-- `clks_disk_stat`. -/
def stat (path : List UInt8) : Cmd State (NodeType × Nat) := do
  let relative ← relativeOf path
  if relative = [] then
    pure (.dir, 0)
  else do
    let lookup ← lookupRelativePath relative
    Cmd.require lookup.found
    pure (if isDirectoryAttr lookup.info.attr then .dir else .file,
      lookup.info.size)

/-- `clks_disk_read_all`. -/
def readAll (path : List UInt8) : Cmd State (List UInt8) := do
  let relative ← relativeOf path
  Cmd.require (relative ≠ [])
  let lookup ← lookupRelativePath relative
  Cmd.require lookup.found
  Cmd.require (!isDirectoryAttr lookup.info.attr)
  if lookup.info.size = 0 then
    pure []
  else
    readFileChain lookup.info.firstCluster lookup.info.size

/-- The first cluster of the directory at a path, as the two listing
functions look it up. -/
def directoryOf (path : List UInt8) : Cmd State Nat := do
  let relative ← relativeOf path
  let s ← Cmd.get
  if relative = [] then
    pure s.fat32.rootCluster
  else do
    let lookup ← lookupRelativePath relative
    Cmd.require lookup.found
    Cmd.require (isDirectoryAttr lookup.info.attr)
    pure lookup.info.firstCluster

/-- The inner loop of `clks_disk_count_children`. -/
def countEntries (cluster : Nat) : Nat → Nat → Nat → Cmd State Nat
  | 0, _, count => pure count
  | n + 1, entryIndex, count => do
    let e ← dirEntryRead cluster entryIndex
    if e 0 = entryUnused then
      countEntries cluster n (entryIndex + 1) count
    else if !e.isVisible || e.isDotLike then
      countEntries cluster n (entryIndex + 1) count
    else
      countEntries cluster n (entryIndex + 1) (count + 1)

/-- The outer loop of `clks_disk_count_children`. -/
def countLoop : Nat → Nat → Nat → Cmd State Nat
  | 0, _, count => pure count
  | guard + 1, cluster, count => do
    let s ← Cmd.get
    if !s.fat32.clusterValid cluster then
      pure count
    else do
      let count ← countEntries cluster s.fat32.entriesPerCluster 0 count
      let (nextCluster, isEoc) ← fatNextCluster cluster
      if isEoc then
        pure count
      else do
        Cmd.require (s.fat32.clusterValid nextCluster)
        countLoop guard nextCluster count

/-- `clks_disk_count_children`: 0 when something fails. -/
def countChildren (dirPath : List UInt8) : Cmd State Nat := do
  let counted ← Cmd.attempt do
    let dirCluster ← directoryOf dirPath
    let s ← Cmd.get
    countLoop s.fat32.clusterCount dirCluster 0
  pure (counted.getD 0)

/-- The inner loop of `clks_disk_get_child_name`: `current` children
were passed, the name of the one with number `index` is wanted. -/
def childNameEntries (index outSize cluster : Nat) :
    Nat → Nat → LfnState → Nat → Cmd State (Option (List UInt8) × Nat)
  | 0, _, _, current => pure (none, current)
  | n + 1, entryIndex, st, current => do
    let e ← dirEntryRead cluster entryIndex
    if e 0 = entryUnused then
      childNameEntries index outSize cluster n (entryIndex + 1) st.reset current
    else if e.attr = attrLfn then
      childNameEntries index outSize cluster n (entryIndex + 1) (st.step e) current
    else if !e.isVisible || e.isDotLike then
      childNameEntries index outSize cluster n (entryIndex + 1) st.reset current
    else if current ≠ index then
      childNameEntries index outSize cluster n (entryIndex + 1) st (current + 1)
    else do
      let name ←
        if st.active && st.checksum = lfnChecksum e.name && st.name ≠ [] then do
          Cmd.require (st.name.length + 1 ≤ outSize)
          pure st.name
        else
          pure ((sfnToText e.name).take (outSize - 1))
      Cmd.require (name ≠ [])
      pure (some name, current)

/-- The outer loop of `clks_disk_get_child_name`. -/
def childNameLoop (index outSize : Nat) :
    Nat → Nat → Nat → Cmd State (List UInt8)
  | 0, _, _ => Cmd.fail
  | guard + 1, cluster, current => do
    let s ← Cmd.get
    Cmd.require (s.fat32.clusterValid cluster)
    let (name, current) ← childNameEntries index outSize cluster
      s.fat32.entriesPerCluster 0 .init current
    match name with
    | some name => pure name
    | none => do
      let (nextCluster, isEoc) ← fatNextCluster cluster
      Cmd.require (!isEoc)
      Cmd.require (s.fat32.clusterValid nextCluster)
      childNameLoop index outSize guard nextCluster current

/-- `clks_disk_get_child_name`: the name under which a directory lists
its child with number `index`. -/
def getChildName (dirPath : List UInt8) (index outSize : Nat) :
    Cmd State (List UInt8) := do
  Cmd.require (outSize ≠ 0)
  let dirCluster ← directoryOf dirPath
  let s ← Cmd.get
  childNameLoop index outSize s.fat32.clusterCount dirCluster 0

/-- `clks_disk_mkdir`. -/
def mkdir (path : List UInt8) : Cmd State Unit := do
  let relative ← relativeOf path
  if relative = [] then
    pure ()
  else do
    let lookup ← lookupRelativePath relative
    if lookup.found then
      Cmd.require (isDirectoryAttr lookup.info.attr)
    else do
      let s ← Cmd.get
      Cmd.require (s.fat32.clusterValid lookup.parentCluster)
      let newCluster ← allocCluster
      (initDirectoryCluster newCluster lookup.parentCluster).orCleanup
        (freeChain newCluster)
      let _ ← (writeNamedDirEntry lookup.parentCluster
        (relativeBasename relative) attrDirectory newCluster 0).orCleanup
        (freeChain newCluster)

/-- The step of `clks_disk_write_all` that takes a new chain and fills
it. -/
def allocContents (data : Option Mem) (size needed : Nat) : Cmd State Nat :=
  if 0 < needed then do
    let first ← allocChain needed
    (writeFileChain first data size).orCleanup (freeChain first)
    pure first
  else
    pure invalidCluster

/-- The end of `clks_disk_write_all`, after the old chain was given
back: allocate, write, and enter the file in its directory. -/
def writeContents (relative : List UInt8) (lookup : PathLookup)
    (data : Option Mem) (size needed : Nat) : Cmd State Unit := do
  let newCluster ← allocContents data size needed
  let cleanup :=
    if newCluster ≠ invalidCluster then freeChain newCluster else pure ()
  if lookup.found then
    (writeDirEntry lookup.slot
      (buildDirEntry lookup.sfn attrArchive newCluster (size % 2 ^ 32))).orCleanup
      cleanup
  else do
    let _ ← (writeNamedDirEntry lookup.parentCluster
      (relativeBasename relative) attrArchive newCluster
      (size % 2 ^ 32)).orCleanup cleanup

/-- `clks_disk_write_all`. -/
def writeAll (path : List UInt8) (data : Option Mem) (size : Nat) :
    Cmd State Unit := do
  let relative ← relativeOf path
  Cmd.require (relative ≠ [])
  Cmd.require (!(0 < size && data.isNone))
  let lookup ← lookupRelativePath relative
  Cmd.require (!(lookup.found && isDirectoryAttr lookup.info.attr))
  let s ← Cmd.get
  Cmd.require (lookup.found || s.fat32.clusterValid lookup.parentCluster)
  let oldCluster :=
    if lookup.found then lookup.info.firstCluster else invalidCluster
  let needed :=
    if 0 < size then needClusters size s.fat32.clusterSizeBytes else 0
  Cmd.require
    (!(0 < size && (needed = 0 || s.fat32.clusterCount < needed)))
  if oldCluster ≠ invalidCluster then
    freeChain oldCluster
  writeContents relative lookup data size needed

/-- `clks_disk_append`. -/
def append (path : List UInt8) (data : Option Mem) (size : Nat) :
    Cmd State Unit := do
  let relative ← relativeOf path
  Cmd.require (relative ≠ [])
  Cmd.require (!(0 < size && data.isNone))
  let lookup ← lookupRelativePath relative
  if !lookup.found then
    writeAll path data size
  else do
    Cmd.require (!isDirectoryAttr lookup.info.attr)
    let oldSize := lookup.info.size
    Cmd.require (oldSize ≤ 2 ^ 64 - 1 - size)
    let newSize := oldSize + size
    if newSize = 0 then
      writeAll path (some fun _ => 0) 0
    else do
      Cmd.require (newSize ≤ 0xFFFFFFFF)
      let firstCluster ←
        appendFileChain lookup.info.firstCluster oldSize data size
      writeDirEntry lookup.slot
        (buildDirEntry lookup.sfn attrArchive firstCluster newSize)

/-- The loop of `clks_disk_remove` over the long-name entries in front
of the removed one. -/
def removeLfnLoop (cluster : Nat) : Nat → Cmd State Unit
  | 0 => pure ()
  | lfnEntryIndex + 1 => do
    let (ptr, lba) ← dirEntryPtr cluster lfnEntryIndex
    let s ← Cmd.get
    let e := entryAt s.bytes ptr
    if e.isFree || e.attr ≠ attrLfn then
      pure ()
    else do
      poke ptr 1 fun _ => entryRemoved
      syncSectorRange lba 1
      removeLfnLoop cluster lfnEntryIndex

/-- `clks_disk_remove`. -/
def remove (path : List UInt8) : Cmd State Unit := do
  let relative ← relativeOf path
  Cmd.require (relative ≠ [])
  let lookup ← lookupRelativePath relative
  Cmd.require lookup.found
  if isDirectoryAttr lookup.info.attr then do
    let s ← Cmd.get
    Cmd.require (s.fat32.clusterValid lookup.info.firstCluster)
    dirIsEmpty lookup.info.firstCluster
  let (ptr, lba) ← dirEntryPtr lookup.slot.cluster lookup.slot.entryIndex
  removeLfnLoop lookup.slot.cluster lookup.slot.entryIndex
  poke ptr 1 fun _ => entryRemoved
  syncSectorRange lba 1
  let s ← Cmd.get
  if s.fat32.clusterValid lookup.info.firstCluster then
    freeChain lookup.info.firstCluster

end Clks.Disk
