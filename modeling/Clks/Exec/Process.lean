/-
The process table and what a process holds (exec/common.inc, process.inc,
fd.inc, dynlib.inc, pty.c, and the address spaces of vm.c).

The heap is its total of allocated bytes: an allocation is answered by the
size of the block that it gets, and whoever keeps the block keeps that
size. Pages come from the free stack of pmm.c, whose addresses are aligned
and mapped, so that the tests for that are left out. Of the memory that a
running program maps there is the table of areas, but not their pages; its
argument lists and its times are left out too.
-/
import Clks.Exec.Scheduler
import Clks.User.Record

namespace Clks.Exec

open Clks.User (Role)

-- ==== constants

/-- `CLKS_EXEC_MAX_PROCS`. -/
abbrev maxProcs : Nat := 64

/-- `CLKS_EXEC_MAX_DEPTH`. -/
abbrev maxDepth : Nat := 16

/-- `CLKS_EXEC_PATH_MAX`. -/
abbrev pathMax : Nat := 192

/-- `CLKS_EXEC_FD_MAX`. -/
abbrev fdMax : Nat := 32

/-- `CLKS_EXEC_DYNLIB_MAX`. -/
abbrev dynlibMax : Nat := 32

/-- `CLKS_PTY_MAX`. -/
abbrev ptyMax : Nat := 16

/-- `CLKS_PMM_MAX_TRACKED_PAGES`. -/
abbrev maxTrackedPages : Nat := 262144

/-- `CLKS_EXEC_SCHED_TASK_INVALID`. -/
abbrev schedTaskInvalid : Nat := 0xFFFFFFFF

/-- `CLKS_EXEC_FD_INHERIT`, and what a call that fails returns. -/
abbrev fdInherit : UInt64 := 0xFFFFFFFFFFFFFFFF

/-- `CLKS_EXEC_INTERNAL_SUSPEND_STATUS`. -/
abbrev internalSuspendStatus : UInt64 := 0x434C4B5353555350

/-- `CLKS_EXEC_SIGNAL_KILL`. -/
abbrev signalKill : UInt64 := 9

/-- `CLKS_EXEC_SIGNAL_TERM`. -/
abbrev signalTerm : UInt64 := 15

/-- `CLKS_EXEC_SIGNAL_CONT`. -/
abbrev signalCont : UInt64 := 18

/-- `CLKS_EXEC_SIGNAL_STOP`. -/
abbrev signalStop : UInt64 := 19

-- ==== records

/-- `enum clks_exec_proc_state`. -/
inductive ProcState
  | unused
  | pending
  | running
  | exited
  | stopped
  deriving DecidableEq, Repr

/-- `enum clks_exec_thread_state`. -/
inductive ThreadState
  | none
  | ready
  | running
  | blocked
  | sleeping
  | stopped
  | zombie
  deriving DecidableEq, Repr

/-- `enum clks_exec_block_reason`. -/
inductive BlockReason
  | none
  | ttyInput
  | ptyInput
  | sleep
  | waitChild
  | yielded
  | io
  deriving DecidableEq, Repr

/-- `enum clks_exec_fd_kind`. -/
inductive FdKind
  | none
  | tty
  | file
  | devNull
  | devZero
  | devRandom
  | pty
  | devFb0
  | devKbd
  | devMouse
  | devNet0
  | devTty0
  | devDisk0
  deriving DecidableEq, Repr

/-- `struct clks_exec_fd_entry`. -/
structure FdEntry where
  used : Bool
  kind : FdKind
  flags : UInt64
  offset : UInt64
  ttyIndex : Nat
  ptyId : UInt64
  path : List UInt8
  deriving DecidableEq, Repr

/-- A descriptor of zeros. -/
def FdEntry.zero : FdEntry := ⟨false, .none, 0, 0, 0, 0, []⟩

/-- `struct clks_elf64_loaded_image`, without its segments; `block` is the
size of the block at `imageBase`. -/
structure Image where
  imageBase : UInt64
  imageSize : UInt64
  imageVaddrBase : UInt64
  block : Nat
  deriving DecidableEq, Repr

/-- An image of zeros. -/
def Image.zero : Image := ⟨0, 0, 0, 0⟩

/-- `struct clks_exec_user_vm_area`. -/
structure VmArea where
  ptr : UInt64
  size : UInt64
  requestedSize : UInt64
  flags : UInt64
  pageCount : UInt64
  deriving DecidableEq, Repr

/-- The user that a process acts for. -/
structure Identity where
  uid : UInt64
  role : Role
  loggedIn : Bool
  diskLoginRequired : Bool
  username : List UInt8
  home : List UInt8
  deriving DecidableEq, Repr

/-- `clks_exec_proc_set_default_user`. -/
def Identity.nobody : Identity := ⟨65534, .user, false, false, txt "nobody", [slash]⟩

/-- A user of zeros. -/
def Identity.zero : Identity := ⟨0, .user, false, false, [], []⟩

/-- `struct clks_exec_proc_record`; `runStack` is the size of the stack's
block, and `userVmAreas` are the areas in use. -/
structure Proc where
  used : Bool
  state : ProcState
  pid : UInt64
  ppid : UInt64
  threadState : ThreadState
  schedulerTaskId : Nat
  blockedReason : BlockReason
  wakeTick : UInt64
  waitTargetPid : UInt64
  parentWaiting : Bool
  exitStatus : UInt64
  ttyIndex : Nat
  path : List UInt8
  lastSignal : UInt64
  lastFaultVector : UInt64
  lastFaultError : UInt64
  lastFaultRip : UInt64
  fds : Fin fdMax → FdEntry
  userVmAreas : List VmArea
  loadedActive : Bool
  loaded : Image
  runStack : Option Nat
  addressSpaceCr3 : Nat
  user : Identity
  savedFrameValid : Bool

/-- A record of zeros. -/
def Proc.zero : Proc where
  used := false
  state := .unused
  pid := 0
  ppid := 0
  threadState := .none
  schedulerTaskId := 0
  blockedReason := .none
  wakeTick := 0
  waitTargetPid := 0
  parentWaiting := false
  exitStatus := 0
  ttyIndex := 0
  path := []
  lastSignal := 0
  lastFaultVector := 0
  lastFaultError := 0
  lastFaultRip := 0
  fds := fun _ => FdEntry.zero
  userVmAreas := []
  loadedActive := false
  loaded := Image.zero
  runStack := none
  addressSpaceCr3 := 0
  user := Identity.zero
  savedFrameValid := false

/-- `struct clks_exec_dynlib_slot`, without the file. -/
structure Dynlib where
  used : Bool
  handle : UInt64
  ownerPid : UInt64
  refCount : UInt64
  path : List UInt8
  loaded : Image
  deriving DecidableEq, Repr

/-- A slot of zeros. -/
def Dynlib.zero : Dynlib := ⟨false, 0, 0, 0, [], Image.zero⟩

/-- `struct clks_pty_slot`, without its buffer. -/
structure Pty where
  used : Bool
  id : UInt64
  refCount : UInt64
  deriving DecidableEq, Repr

/-- A slot of zeros. -/
def Pty.zero : Pty := ⟨false, 0, 0⟩

-- ==== kernel

/-- The entries of the stacks of one depth: `clks_exec_pid_stack`,
`clks_exec_exit_requested_stack`, `clks_exec_exit_status_stack` and
`clks_exec_stop_requested_stack`. -/
structure Level where
  pid : UInt64
  exitRequested : Bool
  exitStatus : UInt64
  stopRequested : Bool
  deriving DecidableEq, Repr

/-- The calls that are waiting for a program, on the kernel's own stack. -/
inductive Frame
  /-- `clks_exec_run_proc_slot`, in `clks_exec_invoke_entry`, with the
  address space to go back to. -/
  | entry (slot : Fin maxProcs) (prevCr3 : Nat) (switched : Bool)
  /-- `clks_exec_dispatch_pending_once`. -/
  | dispatch
  /-- `clks_exec_wait_pid`, of the parent. -/
  | waitPid (parent : Option (Fin maxProcs))
  /-- `clks_exec_run_path_internal`, at or behind the first run of the
  slot. -/
  | sync (slot : Fin maxProcs)
  deriving DecidableEq, Repr

/-- The state that the process functions share. -/
structure Kernel where
  procs : Fin maxProcs → Proc
  pidStack : List Level
  frames : List Frame
  runningDepth : Nat
  pendingDispatchActive : Bool
  dispatchCursor : Nat
  nextPid : UInt64
  dynlibs : Fin dynlibMax → Dynlib
  nextDynlibHandle : UInt64
  ptys : Fin ptyMax → Pty
  sched : Sched
  heapUsed : Nat
  freeStack : List Nat
  spaces : List Nat
  kernelCr3 : Nat
  currentCr3 : Nat

/-- A change of one record. -/
def Kernel.modifyProc (i : Fin maxProcs) (f : Proc → Proc) (k : Kernel) :
    Kernel :=
  { k with procs := Function.update k.procs i (f (k.procs i)) }

/-- `clks_exec_proc_find_slot_by_pid`. -/
def Kernel.findSlotByPid (pid : UInt64) (k : Kernel) : Option (Fin maxProcs) :=
  (List.finRange maxProcs).find? fun i =>
    (k.procs i).used && (k.procs i).pid = pid

/-- `clks_exec_proc_alloc_slot`. -/
def Kernel.allocSlot (k : Kernel) : Option (Fin maxProcs) :=
  match (List.finRange maxProcs).find? fun i => !(k.procs i).used with
  | some i => some i
  | none =>
    (List.finRange maxProcs).find? fun i => (k.procs i).state = .exited

/-- `clks_exec_current_pid`. -/
def Kernel.currentPid (k : Kernel) : UInt64 :=
  match k.pidStack with
  | [] => 0
  | level :: _ => level.pid

/-- `clks_exec_current_proc`. -/
def Kernel.currentProc (k : Kernel) : Option (Fin maxProcs) :=
  match k.pidStack with
  | [] => none
  | level :: _ => k.findSlotByPid level.pid

/-- A change of the deepest level. -/
def Kernel.modifyLevel (f : Level → Level) (k : Kernel) : Kernel :=
  match k.pidStack with
  | [] => k
  | level :: levels => { k with pidStack := f level :: levels }

/-- `clks_exec_alloc_pid`. -/
def Kernel.allocPid (k : Kernel) : UInt64 × Kernel :=
  let after (pid : UInt64) : UInt64 := if pid + 1 = 0 then 1 else pid + 1
  let pid := k.nextPid
  let next := after pid
  if pid = 0 then (next, { k with nextPid := after next })
  else (pid, { k with nextPid := next })

-- ==== scheduler tasks

/-- `clks_exec_proc_to_task_state`. -/
def toTaskState (procState : ProcState) (threadState : ThreadState)
    (blockedReason : BlockReason) : TaskState :=
  if procState = .exited then .zombie
  else if procState = .stopped || threadState = .stopped then .stopped
  else if blockedReason = .sleep || threadState = .sleeping then .sleeping
  else if blockedReason = .waitChild then .waitingChild
  else if blockedReason = .ttyInput || blockedReason = .ptyInput ||
      blockedReason = .io then .blockedIo
  else if threadState = .blocked then .blocked
  else if procState = .running || threadState = .running then .running
  else .ready

/-- Has the process got a task? -/
def Proc.bound (p : Proc) : Bool :=
  p.schedulerTaskId ≠ 0 && p.schedulerTaskId ≠ schedTaskInvalid

/-- `clks_exec_proc_bind_scheduler_task`; `got` is what the heap gives for
a bigger table. -/
def Kernel.bindSchedulerTask (got : Option Nat) (i : Fin maxProcs)
    (k : Kernel) : Bool × Kernel :=
  if (k.procs i).bound then (true, k)
  else
    match k.sched.addKernelTaskExId got 1 false with
    | none =>
      (false,
        k.modifyProc i fun p => { p with schedulerTaskId := schedTaskInvalid })
    | some (id, sched) =>
      (true,
        { k with
          sched, heapUsed := k.heapUsed + sched.block - k.sched.block
        }.modifyProc i fun p => { p with schedulerTaskId := id })

/-- `clks_exec_proc_sync_scheduler_state`. -/
def Kernel.syncSchedulerState (got : Option Nat) (i : Fin maxProcs)
    (k : Kernel) : Kernel :=
  match k.bindSchedulerTask got i with
  | (false, k) => k
  | (true, k) =>
    let p := k.procs i
    let state := toTaskState p.state p.threadState p.blockedReason
    let sched := (k.sched.setTaskState p.schedulerTaskId state).2
    let sched :=
      if state = .sleeping && p.wakeTick ≠ 0 then
        (sched.sleepTaskUntil p.schedulerTaskId p.wakeTick).2
      else sched
    { k with sched }

/-- `clks_exec_proc_set_state`. -/
def Kernel.setState (got : Option Nat) (i : Fin maxProcs) (state : ProcState)
    (threadState : ThreadState) (blockedReason : BlockReason) (k : Kernel) :
    Kernel :=
  (k.modifyProc i fun p =>
    let p := { p with state, threadState, blockedReason }
    if blockedReason = .none then { p with wakeTick := 0, waitTargetPid := 0 }
    else p).syncSchedulerState got i

/-- `clks_exec_proc_set_block`. -/
def Kernel.setBlock (got : Option Nat) (i : Fin maxProcs)
    (blockedReason : BlockReason) (wakeTick waitTargetPid : UInt64)
    (k : Kernel) : Kernel :=
  (k.modifyProc i fun p =>
    { p with
      blockedReason, wakeTick, waitTargetPid
      threadState :=
        if blockedReason = .sleep then .sleeping
        else if blockedReason ≠ .none then .blocked
        else p.threadState }).syncSchedulerState got i

/-- `clks_exec_proc_clear_block`. -/
def Kernel.clearBlock (got : Option Nat) (i : Fin maxProcs) (k : Kernel) :
    Kernel :=
  (k.modifyProc i fun p =>
    { p with
      blockedReason := .none, wakeTick := 0, waitTargetPid := 0
      threadState :=
        if p.state = .pending then .ready
        else if p.state = .running then .running
        else p.threadState }).syncSchedulerState got i

-- ==== memory

/-- `clks_elf64_unload`: what the heap has left. -/
def unload (loaded : Image) (heapUsed : Nat) : Nat :=
  if loaded.imageBase ≠ 0 then heapUsed - loaded.block else heapUsed

/-- `clks_exec_proc_release_runtime`. -/
def Kernel.releaseRuntime (i : Fin maxProcs) (k : Kernel) : Kernel :=
  let p := k.procs i
  let heapUsed := if p.loadedActive then unload p.loaded k.heapUsed else k.heapUsed
  let heapUsed := heapUsed - p.runStack.getD 0
  { k with heapUsed }.modifyProc i fun p =>
    { p with
      userVmAreas := [], loadedActive := false, loaded := Image.zero
      runStack := none, savedFrameValid := false }

/-- `clks_pmm_free_page`. -/
def freePage (page : Nat) (freeStack : List Nat) : List Nat :=
  if page = 0 || maxTrackedPages ≤ freeStack.length then freeStack
  else page :: freeStack

/-- `clks_vm_create_address_space`: 0 if there is no page for it. -/
def Kernel.createAddressSpace (k : Kernel) : Nat × Kernel :=
  if k.kernelCr3 = 0 then (0, k)
  else
    match k.freeStack with
    | [] => (0, k)
    | page :: freeStack =>
      if page = 0 then (0, { k with freeStack })
      else (page, { k with freeStack, spaces := page :: k.spaces })

/-- `clks_vm_destroy_address_space`. -/
def Kernel.destroyAddressSpace (cr3 : Nat) (k : Kernel) : Kernel :=
  if cr3 = 0 || cr3 = k.kernelCr3 then k
  else
    { k with
      currentCr3 :=
        if k.currentCr3 = cr3 && k.kernelCr3 ≠ 0 then k.kernelCr3
        else k.currentCr3
      freeStack := freePage cr3 k.freeStack
      spaces := k.spaces.erase cr3 }

/-- `clks_exec_proc_release_address_space`. -/
def Kernel.releaseAddressSpace (i : Fin maxProcs) (k : Kernel) : Kernel :=
  let cr3 := (k.procs i).addressSpaceCr3
  if cr3 = 0 then k
  else
    (if k.kernelCr3 ≠ 0 && cr3 ≠ k.kernelCr3 then k.destroyAddressSpace cr3
      else k).modifyProc i fun p => { p with addressSpaceCr3 := 0 }

/-- `clks_exec_switch_address_space`: the address space to go back to, and
whether it has been left. -/
def Kernel.switchAddressSpace (target : Nat) (k : Kernel) :
    (Nat × Bool) × Kernel :=
  let prev := k.currentCr3
  if target = 0 || prev = 0 || target = prev then ((prev, false), k)
  else ((prev, true), { k with currentCr3 := target })

/-- `clks_exec_restore_address_space`. -/
def Kernel.restoreAddressSpace (prevCr3 : Nat) (switched : Bool) (k : Kernel) :
    Kernel :=
  if switched && prevCr3 ≠ 0 then { k with currentCr3 := prevCr3 } else k

-- ==== descriptors

/-- `clks_pty_find_slot`. -/
def findPty (ptyId : UInt64) (ptys : Fin ptyMax → Pty) : Option (Fin ptyMax) :=
  if ptyId = 0 then none
  else
    (List.finRange ptyMax).find? fun i => (ptys i).used && (ptys i).id = ptyId

/-- `clks_pty_retain`. -/
def ptyRetain (ptyId : UInt64) (ptys : Fin ptyMax → Pty) :
    Option (Fin ptyMax → Pty) :=
  match findPty ptyId ptys with
  | none => none
  | some i =>
    if (ptys i).refCount = 0xFFFFFFFFFFFFFFFF then none
    else
      some (Function.update ptys i
        { ptys i with refCount := (ptys i).refCount + 1 })

/-- `clks_pty_release`. -/
def ptyRelease (ptyId : UInt64) (ptys : Fin ptyMax → Pty) : Fin ptyMax → Pty :=
  match findPty ptyId ptys with
  | none => ptys
  | some i =>
    Function.update ptys i
      (if 1 < (ptys i).refCount then
        { ptys i with refCount := (ptys i).refCount - 1 }
      else Pty.zero)

/-- `clks_exec_fd_release_entry`, as the terminals see it. -/
def FdEntry.release (entry : FdEntry) (ptys : Fin ptyMax → Pty) :
    Fin ptyMax → Pty :=
  if entry.used && entry.kind = .pty && entry.ptyId ≠ 0 then
    ptyRelease entry.ptyId ptys
  else ptys

/-- `clks_exec_fd_release_all`: an entry that is not used is left as it
is. -/
def Kernel.fdReleaseAll (i : Fin maxProcs) (k : Kernel) : Kernel :=
  let fds := (k.procs i).fds
  { k with
    ptys := (List.finRange fdMax).foldl (fun ptys j => (fds j).release ptys)
      k.ptys
  }.modifyProc i fun p =>
    { p with fds := fun j => if (p.fds j).used then FdEntry.zero else p.fds j }

/-- `clks_exec_fd_init_defaults`. -/
def initDefaults (ttyIndex : Nat) (j : Fin fdMax) : FdEntry :=
  if j.val < 3 then
    { FdEntry.zero with
      used := true, kind := .tty, flags := if j.val = 0 then 0 else 1
      ttyIndex }
  else FdEntry.zero

/-- `clks_exec_fd_can_read`. -/
def canRead (flags : UInt64) : Bool := flags &&& 3 = 0 || flags &&& 3 = 2

/-- `clks_exec_fd_can_write`. -/
def canWrite (flags : UInt64) : Bool := flags &&& 3 = 1 || flags &&& 3 = 2

/-- `clks_exec_fd_copy_from_parent`: the kernel behind it, and whether it
succeeds. -/
def Kernel.fdCopyFromParent (child : Fin maxProcs)
    (parent : Option (Fin maxProcs)) (parentFd : UInt64) (childFd : Fin fdMax)
    (requireRead requireWrite : Bool) (k : Kernel) : Bool × Kernel :=
  match parent with
  | none => (false, k)
  | some parent =>
    if h : parentFd.toNat < fdMax then
      let src := (k.procs parent).fds ⟨parentFd.toNat, h⟩
      if !src.used || requireRead && !canRead src.flags ||
          requireWrite && !canWrite src.flags then (false, k)
      else
        let entry :=
          if src.kind = .tty then
            { src with ttyIndex := (k.procs child).ttyIndex }
          else src
        let put (entry : FdEntry) (k : Kernel) : Kernel :=
          k.modifyProc child fun p =>
            { p with fds := Function.update p.fds childFd entry }
        if src.kind = .pty then
          match ptyRetain src.ptyId k.ptys with
          | none => (false, put FdEntry.zero k)
          | some ptys => (true, put entry { k with ptys })
        else (true, put entry k)
    else (false, k)

/-- The descriptors that a program is to begin with. -/
structure Stdio where
  stdinFd : UInt64
  stdoutFd : UInt64
  stderrFd : UInt64
  deriving DecidableEq, Repr

/-- `clks_exec_fd_apply_stdio_overrides`. -/
def Kernel.applyStdioOverrides (child : Fin maxProcs)
    (parent : Option (Fin maxProcs)) (io : Stdio) (k : Kernel) :
    Bool × Kernel :=
  let copy (fd : UInt64) (childFd : Fin fdMax) (read write : Bool)
      (k : Kernel) : Bool × Kernel :=
    if fd = fdInherit then (true, k)
    else k.fdCopyFromParent child parent fd childFd read write
  match copy io.stdinFd 0 true false k with
  | (false, k) => (false, k)
  | (true, k) =>
    match copy io.stdoutFd 1 false true k with
    | (false, k) => (false, k)
    | (true, k) => copy io.stderrFd 2 false true k

-- ==== libraries

/-- `clks_exec_dynlib_slot_reset`, as the heap sees it. -/
def Dynlib.reset (slot : Dynlib) (heapUsed : Nat) : Nat :=
  if slot.used then unload slot.loaded heapUsed else heapUsed

/-- `clks_exec_dynlib_release_owner`. -/
def Kernel.dynlibReleaseOwner (ownerPid : UInt64) (k : Kernel) : Kernel :=
  if ownerPid = 0 then k
  else
    let owned (d : Dynlib) : Bool := d.used && d.ownerPid = ownerPid
    { k with
      heapUsed := (List.finRange dynlibMax).foldl
        (fun heapUsed i =>
          if owned (k.dynlibs i) then (k.dynlibs i).reset heapUsed else heapUsed)
        k.heapUsed
      dynlibs := fun i =>
        if owned (k.dynlibs i) then Dynlib.zero else k.dynlibs i }

end Clks.Exec
