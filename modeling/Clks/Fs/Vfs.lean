/-
The virtual file system (fs.c): a table of nodes in memory, and a disk
that may be mounted over a part of it.

A node's data and its size are one list of bytes. Which of the data is on
the heap, and the log lines, are left out; whether the allocator gives a
block of some size is a parameter. Paths come from callers that check
for null pointers.
-/
import Clks.Disk.Api

namespace Clks.Fs

open Disk Bytes

-- ==== constants

/-- `CLKS_FS_MAX_NODES`. -/
abbrev maxNodes : Nat := 512

/-- `CLKS_FS_PATH_MAX`. -/
abbrev fsPathMax : Nat := 192

/-- `clks_fs_dev_children`. -/
def devChildren : List (List UInt8) :=
  [txt "tty0", txt "fb0", txt "net0", txt "disk0", txt "input"]

/-- `clks_fs_dev_input_children`. -/
def devInputChildren : List (List UInt8) := [txt "kbd", txt "mouse"]

-- ==== the table

/-- `struct clks_fs_node`. -/
structure FsNode where
  used : Bool
  type : NodeType
  parent : Nat
  data : List UInt8
  path : List UInt8
  deriving DecidableEq, Repr

/-- The static variables: the node table up to `clks_fs_nodes_used`, and
the disk driver. -/
structure FsState where
  ready : Bool
  nodes : List FsNode
  disk : State

/-- Run a command of the disk driver. -/
def onDisk {α : Type} (m : Cmd State α) : Cmd FsState α := fun s =>
  ((m s.disk).1, { s with disk := (m s.disk).2 })

/-- `clks_fs_normalize_external_path`, into a buffer of
`CLKS_FS_PATH_MAX` bytes. -/
def normalizeExternalPath (path : List UInt8) : Option (List UInt8) :=
  Path.normalizeExternalInternal path fsPathMax

/-- `clks_fs_find_node_by_internal`. -/
def findNodeByInternal (s : FsState) (internal : List UInt8) : Option Nat :=
  s.nodes.findIdx? fun n => n.used && n.path = internal

/-- `clks_fs_find_node_by_external`. -/
def findNodeByExternal (s : FsState) (path : List UInt8) : Option Nat :=
  (normalizeExternalPath path).bind (findNodeByInternal s)

/-- The node with a number, and its number. -/
def nodeAt (s : FsState) (index : Option Nat) : Option (Nat × FsNode) :=
  index.bind fun i => (s.nodes[i]?).map fun n => (i, n)

/-- `clks_disk_path_in_mount`. -/
def pathInMount (s : FsState) (path : List UInt8) : Bool :=
  (pathToRelative s.disk.toEnv path).isSome

-- ==== device nodes

/-- `clks_fs_is_dynamic_dev_dir`. -/
def isDynamicDevDir (path : List UInt8) : Bool :=
  path = txt "/dev" || path = txt "/dev/input"

/-- The names in `clks_fs_is_dynamic_dev_file`, without the slash in
front. -/
def devFiles : List (List UInt8) :=
  [txt "dev/fb0", txt "dev/net0", txt "dev/disk0", txt "dev/tty0",
    txt "dev/input/kbd", txt "dev/input/mouse"]

/-- `clks_fs_is_dynamic_dev_file`. -/
def isDynamicDevFile (path : List UInt8) : Bool :=
  (devFiles.map (slash :: ·)).contains path

/-- `clks_fs_internal_path_is_dynamic_dev_file`. -/
def internalIsDynamicDevFile (internal : List UInt8) : Bool :=
  devFiles.contains internal

/-- `clks_fs_internal_path_is_proc_tree`. -/
def internalIsProcTree (internal : List UInt8) : Bool :=
  (txt "proc").isPrefixOf internal &&
    (internal.length = 4 || internal[4]? = some slash)

/-- `clks_fs_internal_writable_node_path`. -/
def internalWritable (internal : List UInt8) : Bool :=
  internal ≠ [] && !internalIsProcTree internal
    && !internalIsDynamicDevFile internal

/-- The children that `clks_fs_dynamic_dev_child_count` and
`clks_fs_dynamic_dev_child_name` look at. -/
def dynamicDevChildren (dirPath : List UInt8) : List (List UInt8) :=
  if dirPath = txt "/dev" then devChildren
  else if dirPath = txt "/dev/input" then devInputChildren
  else []

/-- `clks_fs_dynamic_dev_child_name`. -/
def dynamicDevChildName (dirPath : List UInt8) (index outSize : Nat) :
    Option (List UInt8) :=
  ((dynamicDevChildren dirPath)[index]?).filter fun name =>
    name.length + 1 ≤ outSize

-- ==== changes of the table

/-- `clks_fs_basename`. -/
def basename (internal : List UInt8) : List UInt8 :=
  (internal.reverse.takeWhile (· ≠ slash)).reverse

/-- `clks_fs_split_parent`, into a buffer that holds every path. -/
def splitParent (internal : List UInt8) : List UInt8 :=
  ((internal.reverse.dropWhile (· ≠ slash)).drop 1).reverse

/-- `clks_fs_alloc_slot`, and the new node in that slot. -/
def putNew (node : FsNode) : Cmd FsState Nat := do
  let s ← Cmd.get
  match s.nodes.findIdx? fun n => !n.used with
  | some i => do
    Cmd.modify fun s => { s with nodes := s.nodes.set i node }
    pure i
  | none => do
    Cmd.require (s.nodes.length < maxNodes)
    Cmd.modify fun s => { s with nodes := s.nodes ++ [node] }
    pure s.nodes.length

/-- `clks_fs_create_or_update_node`. -/
def createOrUpdateNode (internal : List UInt8) (type : NodeType)
    (parent : Nat) (data : List UInt8) : Cmd FsState Nat := do
  Cmd.require (internal.length < fsPathMax)
  let s ← Cmd.get
  match nodeAt s (findNodeByInternal s internal) with
  | some (i, n) => do
    Cmd.require (n.type = type)
    let data := if type = .file then data else n.data
    Cmd.modify fun s =>
      { s with nodes := s.nodes.set i { n with parent, data, used := true } }
    pure i
  | none =>
    putNew
      { used := true, type, parent
        data := if type = .file then data else []
        path := internal }

/-- The loop of `clks_fs_ensure_dir_hierarchy` over the components. -/
def ensureDirLoop : List (List UInt8) → List UInt8 → Nat → Cmd FsState Unit
  | [], _, _ => pure ()
  | component :: rest, pfx, parent => do
    Cmd.require (component ≠ [])
    Cmd.require (pfx = [] || pfx.length + 1 < fsPathMax)
    let pfx := if pfx = [] then [] else pfx ++ [slash]
    Cmd.require (pfx.length + component.length < fsPathMax)
    let pfx := pfx ++ component
    let s ← Cmd.get
    match nodeAt s (findNodeByInternal s pfx) with
    | some (i, n) => do
      Cmd.require (n.type = .dir)
      ensureDirLoop rest pfx i
    | none => do
      let i ← createOrUpdateNode pfx .dir parent []
      ensureDirLoop rest pfx i

/-- `clks_fs_ensure_dir_hierarchy`, on a path that does not end in a
slash. -/
def ensureDirHierarchy (internal : List UInt8) : Cmd FsState Unit :=
  if internal = [] then pure ()
  else ensureDirLoop (internal.splitOn slash) [] 0

-- ==== operations

/-- `clks_fs_stat`. -/
def stat (path : List UInt8) : Cmd FsState (NodeType × Nat) := do
  let s ← Cmd.get
  Cmd.require s.ready
  if isDynamicDevDir path then
    pure (.dir, 0)
  else if pathInMount s path then
    onDisk (Disk.stat path)
  else if isDynamicDevFile path then
    pure (.file, 0)
  else
    match nodeAt s (findNodeByExternal s path) with
    | some (_, n) => pure (n.type, n.data.length)
    | none => Cmd.fail

/-- `clks_fs_read_all`. -/
def readAll (path : List UInt8) : Cmd FsState (List UInt8) := do
  let s ← Cmd.get
  Cmd.require s.ready
  if pathInMount s path then
    onDisk (Disk.readAll path)
  else
    match nodeAt s (findNodeByExternal s path) with
    | some (_, n) => do
      Cmd.require (n.type = .file)
      pure n.data
    | none => Cmd.fail

/-- The nodes that have another one for their parent, in order. -/
def childrenOf (s : FsState) (dirIndex : Nat) : List FsNode :=
  (s.nodes.zipIdx.filter fun p =>
    p.1.used && p.2 ≠ dirIndex && p.1.parent = dirIndex).map Prod.fst

/-- `clks_fs_count_children`: 0 when something fails. -/
def countChildren (dirPath : List UInt8) : Cmd FsState Nat := do
  let s ← Cmd.get
  if !s.ready then
    pure 0
  else if isDynamicDevDir dirPath then
    pure (dynamicDevChildren dirPath).length
  else if pathInMount s dirPath then
    onDisk (Disk.countChildren dirPath)
  else
    match nodeAt s (findNodeByExternal s dirPath) with
    | some (i, n) =>
      if n.type = .dir then
        pure ((childrenOf s i).length + (dynamicDevChildren dirPath).length)
      else pure 0
    | none => pure 0

/-- `clks_fs_get_child_name`. -/
def getChildName (dirPath : List UInt8) (index outSize : Nat) :
    Cmd FsState (List UInt8) := do
  let s ← Cmd.get
  Cmd.require (s.ready && outSize ≠ 0)
  if isDynamicDevDir dirPath then
    match dynamicDevChildName dirPath index outSize with
    | some name => pure name
    | none => Cmd.fail
  else if pathInMount s dirPath then
    onDisk (Disk.getChildName dirPath index outSize)
  else
    match nodeAt s (findNodeByExternal s dirPath) with
    | some (i, n) => do
      Cmd.require (n.type = .dir)
      match (childrenOf s i)[index]? with
      | some child => do
        Cmd.require ((basename child.path).length + 1 ≤ outSize)
        pure (basename child.path)
      | none =>
        match dynamicDevChildName dirPath (index - (childrenOf s i).length)
            outSize with
        | some name => pure name
        | none => Cmd.fail
    | none => Cmd.fail

/-- The internal form of a path that the table may be changed at. -/
def writablePath (path : List UInt8) : Cmd FsState (List UInt8) :=
  match normalizeExternalPath path with
  | some internal => do
    Cmd.require (internalWritable internal)
    pure internal
  | none => Cmd.fail

/-- `clks_fs_mkdir`. -/
def mkdir (path : List UInt8) : Cmd FsState Unit := do
  let s ← Cmd.get
  Cmd.require s.ready
  if pathInMount s path then
    onDisk (Disk.mkdir path)
  else do
    let internal ← writablePath path
    ensureDirHierarchy internal
    let s ← Cmd.get
    match nodeAt s (findNodeByInternal s internal) with
    | some (_, n) => Cmd.require (n.type = .dir)
    | none => Cmd.fail

/-- `clks_fs_build_file_payload`. -/
def buildFilePayload (kmalloc : Nat → Bool) (data : Option Mem) (size : Nat) :
    Cmd FsState (List UInt8) :=
  if size = 0 then pure []
  else
    match data with
    | none => Cmd.fail
    | some d => do
      Cmd.require (kmalloc size)
      pure (readBytes d 0 size)

/-- `clks_fs_write_all`. -/
def writeAll (kmalloc : Nat → Bool) (path : List UInt8) (data : Option Mem)
    (size : Nat) : Cmd FsState Unit := do
  let s ← Cmd.get
  Cmd.require s.ready
  if pathInMount s path then
    onDisk (Disk.writeAll path data size)
  else do
    let internal ← writablePath path
    let parent := splitParent internal
    ensureDirHierarchy parent
    let s ← Cmd.get
    match nodeAt s (findNodeByInternal s parent) with
    | none => Cmd.fail
    | some (parentIndex, n) => do
      Cmd.require (n.type = .dir)
      Cmd.require (match nodeAt s (findNodeByInternal s internal) with
        | some (_, n) => n.type = .file
        | none => true)
      let payload ← buildFilePayload kmalloc data size
      let _ ← createOrUpdateNode internal .file parentIndex payload

/-- `clks_fs_append`. -/
def append (kmalloc : Nat → Bool) (path : List UInt8) (data : Option Mem)
    (size : Nat) : Cmd FsState Unit := do
  let s ← Cmd.get
  Cmd.require s.ready
  if pathInMount s path then
    onDisk (Disk.append path data size)
  else do
    Cmd.require (!(0 < size && data.isNone))
    let internal ← writablePath path
    match nodeAt s (findNodeByInternal s internal) with
    | none => writeAll kmalloc path data size
    | some (_, n) => do
      Cmd.require (n.type = .file)
      Cmd.require (n.data.length ≤ 2 ^ 64 - 1 - size)
      let merged :=
        n.data ++ match data with
          | some d => readBytes d 0 size
          | none => []
      if merged = [] then
        writeAll kmalloc path (some fun _ => 0) 0
      else do
        Cmd.require (kmalloc merged.length)
        writeAll kmalloc path (some fun i => merged.getD i 0) merged.length

/-- `clks_fs_remove`. -/
def remove (path : List UInt8) : Cmd FsState Unit := do
  let s ← Cmd.get
  Cmd.require s.ready
  if pathInMount s path then
    onDisk (Disk.remove path)
  else do
    let internal ← writablePath path
    match nodeAt s (findNodeByInternal s internal) with
    | none => Cmd.fail
    | some (i, n) => do
      Cmd.require (!(n.type = .dir && s.nodes.any fun n =>
        n.used && n.parent = i))
      Cmd.modify fun s =>
        { s with
          nodes := s.nodes.set i
            { used := false, type := .file, parent := 0, data := []
              path := [] } }

end Clks.Fs
