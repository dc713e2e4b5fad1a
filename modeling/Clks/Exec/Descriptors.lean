/-
Descriptors and pseudo terminals (exec/fd_api.inc, exec/fd.inc, pty.c).

A program opens, duplicates and closes descriptors between the other events
of the system. What the database of users and the file system say of a path
is an input, and reading and writing are what they do to the descriptor: it
is moved. The buffer of a terminal is left out.
-/
import Clks.Exec.Steps

namespace Clks.Exec

-- ==== constants

/-- `CLKS_EXEC_O_RDWR`. -/
abbrev oRdwr : UInt64 := 0x0002

/-- `CLKS_EXEC_O_CREAT`. -/
abbrev oCreat : UInt64 := 0x0040

/-- `CLKS_EXEC_O_TRUNC`. -/
abbrev oTrunc : UInt64 := 0x0200

/-- `CLKS_EXEC_O_APPEND`. -/
abbrev oAppend : UInt64 := 0x0400

-- ==== terminals

/-- `clks_pty_alloc`: the id, the next one and the slots. -/
def ptyAlloc (nextId : UInt64) (ptys : Fin ptyMax → Pty) :
    Option (UInt64 × UInt64 × (Fin ptyMax → Pty)) :=
  match (List.finRange ptyMax).find? fun s => !(ptys s).used with
  | none => none
  | some s =>
    let next := if nextId + 1 = 0 then 1 else nextId + 1
    let (id, next) := if nextId = 0 then (next, next + 1) else (nextId, next)
    some (id, next, Function.update ptys s ⟨true, id, 1⟩)

-- ==== descriptors

/-- `clks_exec_fd_find_free`. -/
def fdFindFree (fds : Fin fdMax → FdEntry) : Option (Fin fdMax) :=
  (List.finRange fdMax).find? fun c => !(fds c).used

/-- `clks_exec_fd_lookup`. -/
def fdLookup (fd : UInt64) (fds : Fin fdMax → FdEntry) : Option (Fin fdMax) :=
  if h : fd.toNat < fdMax then
    if (fds ⟨fd.toNat, h⟩).used then some ⟨fd.toNat, h⟩ else none
  else none

/-- `clks_exec_fd_access_mode_valid`. -/
def accessModeValid (flags : UInt64) : Bool :=
  flags &&& 3 = 0 || flags &&& 3 = 1 || flags &&& 3 = 2

/-- The devices of `clks_exec_fd_open`. -/
def devKind (path : List UInt8) : Option FdKind :=
  if path = txt "/dev/tty0" then some .devTty0
  else if path = txt "/dev/tty" then some .tty
  else if path = txt "/dev/null" then some .devNull
  else if path = txt "/dev/zero" then some .devZero
  else if path = txt "/dev/random" || path = txt "/dev/urandom" then some .devRandom
  else if path = txt "/dev/fb0" then some .devFb0
  else if path = txt "/dev/input/kbd" then some .devKbd
  else if path = txt "/dev/input/mouse" then some .devMouse
  else if path = txt "/dev/net0" then some .devNet0
  else if path = txt "/dev/disk0" then some .devDisk0
  else none

/-- `struct clks_fs_node_info`. -/
structure NodeInfo where
  isFile : Bool
  size : UInt64
  deriving DecidableEq, Repr

/-- What is answered to an open: `clks_user_path_read_allowed`,
`clks_user_path_write_allowed`, `clks_fs_stat`, and `clks_fs_write_all` with
the `clks_fs_stat` behind it, where a file is made and where one is cut. -/
structure OpenAnswers where
  readAllowed : Bool
  writeAllowed : Bool
  stat : Option NodeInfo
  created : Option NodeInfo
  truncated : Option NodeInfo

/-- Is this flag set? -/
def flagSet (flags flag : UInt64) : Bool := flags &&& flag ≠ 0

/-- The checks at the beginning of `clks_exec_fd_open`. -/
def openAllowed (o : OpenAnswers) (path : List UInt8) (flags : UInt64) : Bool :=
  path.head? = some slash && path.length < pathMax && accessModeValid flags &&
    !(canRead flags && !o.readAllowed) &&
    !((canWrite flags || flagSet flags oCreat || flagSet flags oTrunc ||
      flagSet flags oAppend) && !o.writeAllowed) &&
    !((flagSet flags oTrunc || flagSet flags oAppend) && !canWrite flags)

/-- The node that `clks_exec_fd_open` opens, where the path is no device. -/
def openNode (o : OpenAnswers) (flags : UInt64) : Option NodeInfo :=
  let found :=
    match o.stat with
    | some info => some info
    | none =>
      if !flagSet flags oCreat || !canWrite flags then none else o.created
  match found with
  | none => none
  | some info =>
    if !info.isFile then none
    else if flagSet flags oTrunc then o.truncated
    else some info

/-- The descriptor that `clks_exec_fd_open` makes. -/
def openEntry (o : OpenAnswers) (path : List UInt8) (flags : UInt64)
    (ttyIndex : Nat) : Option FdEntry :=
  match devKind path with
  | some kind =>
    some
      { FdEntry.zero with
        used := true, kind, flags
        ttyIndex := if kind = .devTty0 then 0 else ttyIndex }
  | none =>
    (openNode o flags).map fun info =>
      { FdEntry.zero with
        used := true, kind := .file, flags
        offset := if flagSet flags oAppend then info.size else 0
        ttyIndex, path }

/-- A change of one descriptor. -/
def Kernel.putFd (i : Fin maxProcs) (c : Fin fdMax) (entry : FdEntry)
    (k : Kernel) : Kernel :=
  k.modifyProc i fun p => { p with fds := Function.update p.fds c entry }

/-- `clks_exec_fd_open`. -/
def Kernel.fdOpen (o : OpenAnswers) (path : List UInt8) (flags : UInt64)
    (k : Kernel) : UInt64 × Kernel :=
  match k.currentProc with
  | none => (failed, k)
  | some i =>
    if !openAllowed o path flags then (failed, k)
    else
      match fdFindFree (k.procs i).fds with
      | none => (failed, k)
      | some c =>
        match openEntry o path flags (k.procs i).ttyIndex with
        | none => (failed, k)
        | some entry => (UInt64.ofNat c, k.putFd i c entry)

/-- `clks_exec_fd_close`. -/
def Kernel.fdClose (fd : UInt64) (k : Kernel) : UInt64 × Kernel :=
  match k.currentProc with
  | none => (failed, k)
  | some i =>
    match fdLookup fd (k.procs i).fds with
    | none => (failed, k)
    | some c =>
      let ptys := ((k.procs i).fds c).release k.ptys
      (0, { k with ptys }.putFd i c FdEntry.zero)

/-- `clks_exec_fd_dup`. -/
def Kernel.fdDup (fd : UInt64) (k : Kernel) : UInt64 × Kernel :=
  match k.currentProc with
  | none => (failed, k)
  | some i =>
    match fdLookup fd (k.procs i).fds with
    | none => (failed, k)
    | some c =>
      match fdFindFree (k.procs i).fds with
      | none => (failed, k)
      | some c' =>
        let entry := (k.procs i).fds c
        if entry.kind = .pty then
          match ptyRetain entry.ptyId k.ptys with
          | none => (failed, k.putFd i c' FdEntry.zero)
          | some ptys => (UInt64.ofNat c', { k with ptys }.putFd i c' entry)
        else (UInt64.ofNat c', k.putFd i c' entry)

/-- `clks_exec_fd_read` and `clks_exec_fd_write`, as the descriptor sees
them. -/
def Kernel.fdMove (fd offset : UInt64) (k : Kernel) : Kernel :=
  match k.currentProc with
  | none => k
  | some i =>
    match fdLookup fd (k.procs i).fds with
    | none => k
    | some c => k.putFd i c { (k.procs i).fds c with offset }

-- ==== the host

/-- The kernel with `clks_pty_next_id`. -/
structure Host extends Kernel where
  ptyNextId : UInt64

/-- `clks_exec_fd_open_pty`. -/
def Host.openPty (h : Host) : UInt64 × Host :=
  match h.currentProc with
  | none => (failed, h)
  | some i =>
    match fdFindFree (h.procs i).fds with
    | none => (failed, h)
    | some c =>
      match ptyAlloc h.ptyNextId h.ptys with
      | none => (failed, h)
      | some (id, ptyNextId, ptys) =>
        let entry :=
          { FdEntry.zero with
            used := true, kind := .pty, flags := oRdwr
            ttyIndex := (h.procs i).ttyIndex, ptyId := id }
        (UInt64.ofNat c, ⟨{ h.toKernel with ptys }.putFd i c entry, ptyNextId⟩)

/-- Something that happens, descriptors included. -/
inductive HostEvent
  | event (e : Event)
  /-- `clks_exec_fd_open`. -/
  | fdOpen (path : List UInt8) (flags : UInt64)
  /-- `clks_exec_fd_open_pty`. -/
  | openPty
  /-- `clks_exec_fd_close`. -/
  | fdClose (fd : UInt64)
  /-- `clks_exec_fd_dup`. -/
  | fdDup (fd : UInt64)
  /-- `clks_exec_fd_read` or `clks_exec_fd_write`. -/
  | fdMove (fd offset : UInt64)
  deriving DecidableEq

/-- What comes of it, if it can happen. -/
def Host.step (a : Answers) (o : OpenAnswers) (h : Host) : HostEvent → Option Host
  | .event e => (h.toKernel.step a e).map fun k => { h with toKernel := k }
  | .fdOpen path flags =>
    if h.idle then none
    else some { h with toKernel := (h.toKernel.fdOpen o path flags).2 }
  | .openPty => if h.idle then none else some h.openPty.2
  | .fdClose fd =>
    if h.idle then none
    else some { h with toKernel := (h.toKernel.fdClose fd).2 }
  | .fdDup fd =>
    if h.idle then none
    else some { h with toKernel := (h.toKernel.fdDup fd).2 }
  | .fdMove fd offset =>
    if h.idle then none
    else some { h with toKernel := h.toKernel.fdMove fd offset }

/-- The state after `clks_exec_init`, `clks_pty_init` included. -/
structure Host.Booted (h : Host) : Prop where
  kernel : h.toKernel.Booted
  ptyNextId : h.ptyNextId = 1

/-- One event, in a state that meets a condition. -/
def HostStepIf (C : HostEvent → Host → Prop) (h h' : Host) : Prop :=
  ∃ a o e, C e h ∧ h.step a o e = some h'

/-- Any number of events, each in a state that meets a condition. -/
abbrev HostRunIf (C : HostEvent → Host → Prop) : Host → Host → Prop :=
  Relation.ReflTransGen (HostStepIf C)

end Clks.Exec
