/-
Where the file data is (fs.c, disk/public_api.inc, disk/cache_io.inc).

`Clks.Fs.FsState` has the contents of files. Here are the places in
memory that hold them: a node's data is in the image of the RAM disk, in
a static array or in a heap block of its own; a file of the mounted disk
is in a block of the file cache or in the buffer that files are read
into. A pointer that `clks_fs_read_all` returns is one of these places.
-/
import Clks.Disk.FileCache
import Clks.Fs.Vfs

namespace Clks.Fs

open Disk Bytes

-- ==== the state

/-- A pointer to file data. What it says is behind it is never written:
the empty arrays and the image of the RAM disk. -/
inductive Ptr
  | still (data : List UInt8)
  | block (number : Nat)
  deriving DecidableEq, Repr

/-- The file system and the memory of its files. -/
structure Store extends FsState where
  heap : Nat → Option (List UInt8)
  requests : Nat
  nodeData : Nat → Ptr
  cache : FileCache
  readCache : Option Nat
  readCacheSize : Nat

/-- Which requests for memory are granted: the number of the request and
the size. -/
abbrev Grants : Type := Nat → Nat → Bool

namespace Store

/-- The first `size` bytes behind a pointer. -/
def behind (s : Store) (size : Nat) : Ptr → Option (List UInt8)
  | .still data => some (data.take size)
  | .block b => (s.heap b).map (·.take size)

/-- Run a command of the file system. -/
def onFs {α : Type} (m : Cmd FsState α) : Cmd Store α := fun s =>
  ((m s.toFsState).1, { s with toFsState := (m s.toFsState).2 })

/-- `clks_kmalloc`, and the `clks_memcpy` that fills the block. -/
def kmalloc (grants : Grants) (content : List UInt8) : Cmd Store Nat := do
  let s ← Cmd.get
  Cmd.modify fun s => { s with requests := s.requests + 1 }
  Cmd.require (grants s.requests content.length)
  Cmd.modify fun t =>
    { t with
      heap := fun b => if b = s.requests then some content else t.heap b }
  pure s.requests

/-- `clks_kfree` of several blocks. -/
def kfree (blocks : List Nat) : Cmd Store Unit :=
  Cmd.modify fun s =>
    { s with heap := fun b => if b ∈ blocks then none else s.heap b }

/-- Bytes behind the ones that were copied stay. -/
def overlay (bytes old : List UInt8) : List UInt8 :=
  bytes ++ old.drop bytes.length

/-- Copy bytes to the beginning of a block. -/
def fill (block : Nat) (bytes : List UInt8) : Cmd Store Unit :=
  Cmd.modify fun s =>
    { s with
      heap := fun b =>
        if b = block then (s.heap b).map (overlay bytes) else s.heap b }

-- ==== the disk

/-- `clks_disk_file_cache_clear`. -/
def fileCacheClear : Cmd Store Unit := do
  let s ← Cmd.get
  kfree s.cache.blocks
  Cmd.modify fun s => { s with cache := .empty }

/-- `clks_disk_file_cache_store`. -/
def fileCacheStore (grants : Grants) (relative : List UInt8)
    (firstCluster size : Nat) (data : List UInt8) : Cmd Store Unit :=
  if FileCache.keeps size then do
    let s ← Cmd.get
    let room := s.cache.makeRoom relative size
    kfree room.2.2
    Cmd.modify fun s => { s with cache := room.2.1 }
    match room.1 with
    | none => pure ()
    | some i => Cmd.ignore do
      let block ← kmalloc grants data
      Cmd.modify fun s =>
        { s with cache := s.cache.enter i relative firstCluster size block }
  else
    pure ()

/-- The end of `clks_disk_prepare_read_cache`: a new buffer. -/
def newReadCache (grants : Grants) (requiredSize : Nat) :
    Cmd Store Nat := do
  let block ← kmalloc grants (List.replicate requiredSize 0)
  Cmd.modify fun s =>
    { s with readCache := some block, readCacheSize := requiredSize }
  pure block

/-- `clks_disk_prepare_read_cache`. -/
def prepareReadCache (grants : Grants) (requiredSize : Nat) :
    Cmd Store Nat := do
  let s ← Cmd.get
  match s.readCache with
  | none => newReadCache grants requiredSize
  | some block =>
    if requiredSize ≤ s.readCacheSize then
      pure block
    else do
      kfree [block]
      Cmd.modify fun s => { s with readCache := none, readCacheSize := 0 }
      newReadCache grants requiredSize

/-- The first part of `clks_disk_read_all`: the path on the disk and the
file's entry. -/
def locate (path : List UInt8) : Cmd FsState (List UInt8 × DirInfo) :=
  onDisk do
    let relative ← relativeOf path
    Cmd.require (relative ≠ [])
    let lookup ← lookupRelativePath relative
    Cmd.require lookup.found
    Cmd.require (!isDirectoryAttr lookup.info.attr)
    pure (relative, lookup.info)

/-- The end of `clks_disk_read_all`: fill the buffer, and put a copy in
the cache. -/
def fillReadCache (grants : Grants) (relative : List UInt8)
    (firstCluster size block : Nat) : Cmd Store Ptr := do
  let (bytes, complete) ← onFs (onDisk (copyFileChain firstCluster size))
  fill block bytes
  Cmd.require complete
  fileCacheStore grants relative firstCluster size bytes
  pure (.block block)

/-- The last part of `clks_disk_read_all`: a file that is not in the
cache. -/
def readUncached (grants : Grants) (relative : List UInt8)
    (firstCluster size : Nat) : Cmd Store Ptr := do
  let block ← prepareReadCache grants size
  fillReadCache grants relative firstCluster size block

/-- `clks_disk_read_all`: the pointer and the size. -/
def diskReadAll (grants : Grants) (path : List UInt8) :
    Cmd Store (Ptr × Nat) := do
  let (relative, info) ← onFs (locate path)
  if info.size = 0 then
    pure (.still [], 0)
  else do
    let s ← Cmd.get
    match s.cache.lookup relative info.firstCluster info.size with
    | some (block, cache) => do
      Cmd.modify fun s => { s with cache }
      pure (.block block, info.size)
    | none => do
      let ptr ← readUncached grants relative info.firstCluster info.size
      pure (ptr, info.size)

-- ==== the nodes

/-- The block that `clks_fs_node_release_heap_data` gives back. -/
def nodeBlock (s : Store) (index : Nat) : List Nat :=
  match s.nodes[index]?, s.nodeData index with
  | some n, .block b => if n.type = .file then [b] else []
  | _, _ => []

/-- `clks_fs_node_release_heap_data`. -/
def releaseNodeData (index : Nat) : Cmd Store Unit := do
  let s ← Cmd.get
  kfree (s.nodeBlock index)

/-- Set a node's data pointer. -/
def setNodeData (index : Nat) (ptr : Ptr) : Cmd Store Unit :=
  Cmd.modify fun s =>
    { s with nodeData := fun i => if i = index then ptr else s.nodeData i }

/-- `clks_fs_build_file_payload`: the pointer and the bytes. -/
def filePayload (grants : Grants) (data : Option Mem) (size : Nat) :
    Cmd Store (Ptr × List UInt8) :=
  if size = 0 then pure (.still [], [])
  else
    match data with
    | none => Cmd.fail
    | some d => do
      let block ← kmalloc grants (readBytes d 0 size)
      pure (.block block, readBytes d 0 size)

/-- What `clks_fs_write_all` has checked and made when it goes on to the
table: the internal path, the parent, the node that is there, and the
payload. -/
structure WritePlan where
  internal : List UInt8
  parent : Nat
  existing : Option Nat
  ptr : Ptr
  data : List UInt8

/-- `clks_fs_write_all` goes on when nothing is at the path, or a file. -/
def mayReplace : Option (Nat × FsNode) → Bool
  | none => true
  | some (_, n) => n.type = .file

/-- The first part of `clks_fs_write_all`, for a path outside the
mount. -/
def planWrite (grants : Grants) (path : List UInt8) (data : Option Mem)
    (size : Nat) : Cmd Store WritePlan := do
  let internal ← onFs (writablePath path)
  let parent := splitParent internal
  onFs (ensureDirHierarchy parent)
  let s ← Cmd.get
  match nodeAt s.toFsState (findNodeByInternal s.toFsState parent) with
  | none => Cmd.fail
  | some (parentIndex, n) => do
    Cmd.require (n.type = .dir)
    let existing := nodeAt s.toFsState (findNodeByInternal s.toFsState internal)
    Cmd.require (mayReplace existing)
    let (ptr, bytes) ← filePayload grants data size
    pure ⟨internal, parentIndex, existing.map (·.1), ptr, bytes⟩

/-- The last part of `clks_fs_write_all`. -/
def commitWrite (plan : WritePlan) : Cmd Store Unit := do
  match plan.existing with
  | some i => releaseNodeData i
  | none => pure ()
  let cleanup :=
    match plan.ptr with
    | .still _ => pure ()
    | .block b => kfree [b]
  let i ← (onFs (createOrUpdateNode plan.internal .file plan.parent
    plan.data)).orCleanup cleanup
  setNodeData i plan.ptr

-- ==== operations

/-- `clks_fs_read_all`: the pointer and the size. -/
def readAll (grants : Grants) (path : List UInt8) :
    Cmd Store (Ptr × Nat) := do
  let s ← Cmd.get
  Cmd.require s.ready
  if pathInMount s.toFsState path then
    diskReadAll grants path
  else
    match nodeAt s.toFsState (findNodeByExternal s.toFsState path) with
    | none => Cmd.fail
    | some (i, n) => do
      Cmd.require (n.type = .file)
      if n.data.length = 0 then pure (.still [], 0)
      else pure (s.nodeData i, n.data.length)

/-- `clks_fs_write_all`. -/
def writeAll (grants : Grants) (path : List UInt8) (data : Option Mem)
    (size : Nat) : Cmd Store Unit := do
  let s ← Cmd.get
  Cmd.require s.ready
  if pathInMount s.toFsState path then do
    fileCacheClear
    onFs (onDisk (Disk.writeAll path data size))
  else do
    let plan ← planWrite grants path data size
    commitWrite plan

/-- What `clks_fs_append` puts together in `merged`. -/
def mergedData (old : List UInt8) (data : Option Mem) (size : Nat) :
    List UInt8 :=
  old ++ match data with
    | some d => readBytes d 0 size
    | none => []

/-- `clks_fs_append`. -/
def append (grants : Grants) (path : List UInt8) (data : Option Mem)
    (size : Nat) : Cmd Store Unit := do
  let s ← Cmd.get
  Cmd.require s.ready
  if pathInMount s.toFsState path then do
    fileCacheClear
    onFs (onDisk (Disk.append path data size))
  else do
    Cmd.require (!(0 < size && data.isNone))
    let internal ← onFs (writablePath path)
    match nodeAt s.toFsState (findNodeByInternal s.toFsState internal) with
    | none => writeAll grants path data size
    | some (_, n) => do
      Cmd.require (n.type = .file)
      Cmd.require (n.data.length ≤ 2 ^ 64 - 1 - size)
      let merged := mergedData n.data data size
      if merged = [] then
        writeAll grants path (some fun _ => 0) 0
      else do
        let block ← kmalloc grants merged
        (writeAll grants path (some fun i => merged.getD i 0)
          merged.length).orCleanup (kfree [block])
        kfree [block]

/-- `clks_fs_remove`. -/
def remove (path : List UInt8) : Cmd Store Unit := do
  let s ← Cmd.get
  Cmd.require s.ready
  if pathInMount s.toFsState path then do
    fileCacheClear
    onFs (onDisk (Disk.remove path))
  else do
    let internal ← onFs (writablePath path)
    match nodeAt s.toFsState (findNodeByInternal s.toFsState internal) with
    | none => Cmd.fail
    | some (i, n) => do
      Cmd.require (!(n.type = .dir && s.nodes.any fun n =>
        n.used && n.parent = i))
      releaseNodeData i
      onFs (Cmd.modify fun s =>
        { s with
          nodes := s.nodes.set i
            { used := false, type := .file, parent := 0, data := []
              path := [] } })
      setNodeData i (.still [])

end Store

end Clks.Fs
