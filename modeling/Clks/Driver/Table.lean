/-
The driver table (runtime/driver.c, and the driver calls of
syscall/handlers/fd_driver_dl.rs).

A load appends an entry and an unload marks one, so that the table only
grows: its count is the length of the list here. What a load asks of the
file system, of the ELF loader and of the process table is answered from
outside (`Answers`), anew for each load.
-/
import Clks.Exec.Arguments

namespace Clks.Driver

open Sys Exec

-- ==== the constants

/-- `CLKS_DRIVER_MAX`. -/
abbrev driverMax : Nat := 32

/-- `CLKS_DRIVER_NAME_MAX`. -/
abbrev driverNameMax : Nat := 32

/-- `CLKS_DRIVER_PATH_MAX`. -/
abbrev driverPathMax : Nat := 192

/-- `CLKS_DRIVER_CHILD_NAME_MAX`. -/
abbrev childNameMax : Nat := 96

/-- `CLKS_DRIVER_SCAN_PATH_MAX`. -/
abbrev scanPathMax : Nat := 224

/-- `CLKS_DRIVER_DIR "/"`. -/
def driverDir : List UInt8 := txt "/system/drivers/"

-- ==== the table

/-- `clks_driver_kind`. -/
inductive Kind
  | reserved
  | elf
  deriving DecidableEq, Repr

/-- `clks_driver_state`. -/
inductive State
  | offline
  | ready
  | failed
  | loaded
  | unloaded
  deriving DecidableEq, Repr

/-- `clks_driver_class`. -/
inductive Class
  | other
  | char
  | video
  | tty
  | audio
  | disk
  | net
  | input
  deriving DecidableEq, Repr

/-- `clks_driver_info`; a name and a path are what stands before the NUL. -/
structure Info where
  name : List UInt8
  path : List UInt8
  kind : Kind
  state : State
  driverClass : Class
  fromElf : Bool
  imageSize : UInt64
  elfEntry : UInt64
  loadId : UInt64
  ownerPid : UInt64
  deriving DecidableEq, Repr

/-- The statics of driver.c: the entries up to `clks_driver_table_count`,
`clks_driver_table_elf_count` and `clks_driver_next_load_id`. -/
structure Table where
  entries : List Info
  elfCount : UInt64
  nextLoadId : UInt64
  deriving DecidableEq, Repr

/-- The table that `clks_driver_init` begins with. -/
def Table.cleared : Table := ⟨[], 0, 1⟩

-- ==== the texts

/-- `clks_driver_copy_name`. -/
def copyName (dstSize : Nat) (src : List UInt8) : List UInt8 :=
  src.take (dstSize - 1)

/-- `clks_driver_has_elf_suffix`. -/
def hasElfSuffix (name : List UInt8) : Bool :=
  if name.length < 4 then false
  else name.drop (name.length - 4) == txt ".elf"

/-- The loop of `clks_driver_basename`, which has found `base` so far. -/
def basenameFrom (base : List UInt8) : List UInt8 → List UInt8
  | [] => base
  | c :: rest =>
    basenameFrom (if c = slash ∧ rest ≠ [] then rest else base) rest

/-- `clks_driver_basename`. -/
def basename (path : List UInt8) : List UInt8 := basenameFrom path path

/-- `clks_driver_build_path`. -/
def buildPath (childName : List UInt8) (outSize : Nat) :
    Option (List UInt8) :=
  if outSize = 0 ∨ outSize < driverDir.length + childName.length + 1 then none
  else some (driverDir ++ childName)

/-- The files with a name and a class of their own. -/
def knownDrivers : List (String × String × Class) :=
  [("serialdrv.elf", "serial", .char),
   ("fbdrv.elf", "framebuffer", .video),
   ("framebufferdrv.elf", "framebuffer", .video),
   ("ttydrv.elf", "tty", .tty),
   ("pcspeakerdrv.elf", "pcspeaker", .audio),
   ("audiodrv.elf", "pcspeaker", .audio),
   ("diskdrv.elf", "disk", .disk),
   ("netdrv.elf", "net0", .net),
   ("kbddrv.elf", "keyboard", .input),
   ("keyboarddrv.elf", "keyboard", .input),
   ("mousedrv.elf", "mouse", .input)]

/-- `clks_driver_metadata_for_elf`. -/
def metadataForElf (path : List UInt8) : List UInt8 × Class :=
  match knownDrivers.find? fun d => txt d.1 == basename path with
  | some d => (txt d.2.1, d.2.2)
  | none => (basename path, .other)

namespace Table

variable (t : Table)

-- ==== the helpers

/-- Does an entry match a name or path in `clks_driver_find`? -/
def hits (nameOrPath : List UInt8) (e : Info) : Bool :=
  e.state != .unloaded && (e.name == nameOrPath || e.path == nameOrPath)

/-- `clks_driver_find`. -/
def find (nameOrPath : List UInt8) : Option Nat :=
  if nameOrPath = [] then none
  else t.entries.findIdx? (hits nameOrPath)

/-- `clks_driver_alloc_load_id`: what the next id is. -/
def followingLoadId : UInt64 :=
  if t.nextLoadId + 1 = 0 then 1 else t.nextLoadId + 1

/-- `clks_driver_push`. -/
def push (name path : List UInt8) (kind : Kind) (driverClass : Class)
    (state : State) (fromElf : Bool)
    (imageSize elfEntry ownerPid : UInt64) : Option Table :=
  if driverMax ≤ t.entries.length then none
  else
    let slot : Info :=
      { name := copyName driverNameMax name
        path := copyName driverPathMax path
        kind, state, driverClass, fromElf, imageSize, elfEntry
        loadId := t.nextLoadId
        ownerPid }
    some
      { entries := t.entries ++ [slot]
        elfCount := if fromElf then t.elfCount + 1 else t.elfCount
        nextLoadId := t.followingLoadId }

end Table

-- ==== the calls

/-- What a load is answered: whether the file system is ready, the size of
the file, the entry point of a valid image, and the pid of its process. -/
structure Answers where
  fsReady : Bool
  imageSize : Option UInt64
  elfEntry : Option UInt64
  ownerPid : Option UInt64
  deriving DecidableEq, Repr

/-- What a buffer for the name of a child can hold. -/
abbrev ChildName : Type := { name : List UInt8 // name.length < childNameMax }

namespace Table

/-- `clks_driver_load_path`. -/
def loadPath (path : List UInt8) (a : Answers) (t : Table) :
    UInt64 × Table :=
  if !a.fsReady then (0, t)
  else if path.head? ≠ some slash ∨ hasElfSuffix path = false then (0, t)
  else
    let found := metadataForElf path
    if (t.find path).isSome || (t.find found.1).isSome
        || (t.find (basename path)).isSome then (0, t)
    else
      match a.imageSize, a.elfEntry, a.ownerPid with
      | some imageSize, some elfEntry, some ownerPid =>
        match t.push found.1 path .elf found.2 .loaded true imageSize elfEntry
            ownerPid with
        | none => (0, t)
        | some t' => (((t'.entries.getLast?).map Info.loadId).getD 0, t')
      | _, _, _ => (0, t)

/-- The loop of `clks_driver_reload_elf_dir`: for each child its name, if
it can be had, and the answers to its load. -/
def reloadLoop : List (Option ChildName × Answers) → UInt64 × Table →
    UInt64 × Table
  | [], r => r
  | (none, _) :: rest, r => reloadLoop rest r
  | (some child, a) :: rest, (loaded, t) =>
    if hasElfSuffix child.val = false then reloadLoop rest (loaded, t)
    else
      match buildPath child.val scanPathMax with
      | none =>
        reloadLoop rest (loaded,
          (t.push child.val [] .elf .other .failed true 0 0 0).getD t)
      | some fullPath =>
        let r := t.loadPath fullPath a
        reloadLoop rest (if r.1 ≠ 0 then loaded + 1 else loaded, r.2)

/-- `clks_driver_reload_elf_dir`. -/
def reloadElfDir (fsReady : Bool)
    (children : List (Option ChildName × Answers)) (t : Table) :
    UInt64 × Table :=
  if !fsReady then (0, t) else reloadLoop children (0, t)

/-- `clks_driver_unload`. -/
def unload (nameOrPath : List UInt8) (t : Table) : Bool × Table :=
  match t.find nameOrPath with
  | none => (false, t)
  | some index =>
    match t.entries[index]? with
    | none => (false, t)
    | some slot =>
      if slot.fromElf = false ∨ slot.kind ≠ .elf then (false, t)
      else
        (true,
          { t with
            entries := t.entries.set index { slot with state := .unloaded }
            elfCount :=
              if 0 < t.elfCount then t.elfCount - 1 else t.elfCount })

end Table

/-- `driver_load`, `driver_unload` and `driver_reload`: whether the caller
may, its memory, and what is answered. -/
inductive Op
  | load (allowed : Bool) (m : UserMemory) (arg0 : UInt64) (a : Answers)
  | unload (allowed : Bool) (m : UserMemory) (arg0 : UInt64)
  | reload (allowed fsReady : Bool)
      (children : List (Option ChildName × Answers))

/-- A call, and what it returns. -/
def Op.run : Op → Table → UInt64 × Table
  | .load allowed m arg0 a, t =>
    if !allowed then (0, t)
    else
      match copyString m Sys.pathMax arg0 with
      | none => (0, t)
      | some path => t.loadPath path a
  | .unload allowed m arg0, t =>
    if !allowed then (0, t)
    else
      match copyString m Sys.pathMax arg0 with
      | none => (0, t)
      | some nameOrPath =>
        ((if (t.unload nameOrPath).1 then 1 else 0), (t.unload nameOrPath).2)
  | .reload allowed fsReady children, t =>
    if !allowed then (0, t) else t.reloadElfDir fsReady children

end Clks.Driver
