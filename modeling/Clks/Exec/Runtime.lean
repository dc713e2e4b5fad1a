/-
Creating, running and ending processes (exec/process.inc, runtime.inc,
proc_api.inc, dynlib_api.inc, signal_api.inc), for x86-64.

A run of a program is cut where the program has the processor:
`Kernel.runBegin` goes as far as `clks_exec_invoke_entry` enters it, and
`Kernel.runEnd` goes on when that call returns. What the heap, the file
system, the ELF loader and the keyboard answer is an input (`Answers`).
-/
import Clks.Exec.Process

namespace Clks.Exec

/-- What the rest of the kernel answers to one call. -/
structure Answers where
  now : UInt64
  ttyActive : Nat
  ttyInput : Nat → Bool
  grown : Nat → Option Nat
  readHeap : Nat → Nat
  file : Bool
  inspected : Bool
  loaded : Option Image
  hasEntry : Bool
  stack : Option Nat

/-- `(u64)-1`. -/
abbrev failed : UInt64 := 0xFFFFFFFFFFFFFFFF

-- ==== creation

/-- `clks_exec_prepare_proc_record`. -/
def Kernel.prepareProcRecord (a : Answers) (i : Fin maxProcs) (pid : UInt64)
    (path : List UInt8) (state : ProcState) (k : Kernel) : Kernel :=
  let parent := k.currentProc
  let ppid := k.currentPid
  let k := ((k.releaseRuntime i).releaseAddressSpace i).fdReleaseAll i
  let (cr3, k) := k.createAddressSpace
  let k := k.modifyProc i fun _ =>
    { Proc.zero with
      used := true, pid, ppid, exitStatus := failed, ttyIndex := a.ttyActive
      addressSpaceCr3 := if cr3 = 0 then k.kernelCr3 else cr3
      path := path.take (pathMax - 1) }
  let k := k.setState (a.grown 0) i state
    (if state = .pending then .ready else .running) .none
  let k := (k.bindSchedulerTask (a.grown 1) i).2
  k.modifyProc i fun p =>
    { p with
      user := match parent with
        | none => Identity.nobody
        | some j => (k.procs j).user
      fds := initDefaults p.ttyIndex }

/-- `clks_exec_proc_mark_running`. -/
def Kernel.markRunning (a : Answers) (i : Fin maxProcs) (k : Kernel) : Kernel :=
  k.setState (a.grown 2) i .running .running .none

/-- `clks_exec_proc_mark_exited`. -/
def Kernel.markExited (a : Answers) (i : Fin maxProcs) (status : UInt64)
    (k : Kernel) : Kernel :=
  ((((k.releaseRuntime i).releaseAddressSpace i).fdReleaseAll i).setState
    (a.grown 3) i .exited .zombie .none).modifyProc i fun p =>
      { p with exitStatus := status, parentWaiting := false }

-- ==== running

/-- The window check of `clks_exec_run_proc_slot`. -/
def Image.windowValid (loaded : Image) : Bool :=
  loaded.imageBase ≠ 0 && loaded.imageSize ≠ 0 &&
    loaded.imageBase < loaded.imageBase + loaded.imageSize

/-- The part of `clks_exec_run_proc_slot` that finds the program, or loads
it. -/
def Kernel.loadProgram (a : Answers) (i : Fin maxProcs) (k : Kernel) :
    Bool × Kernel :=
  if (k.procs i).loadedActive && (k.procs i).savedFrameValid then
    ((k.procs i).loaded.windowValid, k)
  else
    let k := k.releaseRuntime i
    let k := { k with heapUsed := a.readHeap k.heapUsed }
    if !a.file || !a.inspected then (false, k)
    else
      match a.loaded with
      | none => (false, k)
      | some loaded =>
        (a.hasEntry && loaded.windowValid,
          { k with heapUsed := k.heapUsed + loaded.block }.modifyProc i fun p =>
            { p with loaded, loadedActive := true })

/-- `clks_exec_invoke_entry`, up to the program. -/
def Kernel.invokeEntry (a : Answers) (i : Fin maxProcs) (k : Kernel) :
    Bool × Kernel :=
  if (k.procs i).savedFrameValid then ((k.procs i).runStack.isSome, k)
  else
    match a.stack with
    | none => (false, k)
    | some block =>
      (true,
        { k with heapUsed := k.heapUsed + block }.modifyProc i fun p =>
          { p with runStack := some block })

/-- The level of a run is left, and its address space. -/
def Kernel.leave (prevCr3 : Nat) (switched : Bool) (k : Kernel) : Kernel :=
  { k with pidStack := k.pidStack.tail }.restoreAddressSpace prevCr3 switched

/-- The label `fail` of `clks_exec_run_proc_slot`. -/
def Kernel.runFail (a : Answers) (i : Fin maxProcs) (prevCr3 : Nat)
    (switched : Bool) (k : Kernel) : Kernel :=
  let k := k.markExited a i failed
  (k.dynlibReleaseOwner (k.procs i).pid).leave prevCr3 switched

/-- `clks_exec_run_proc_slot`, up to the program; false: it returns FALSE
without having run. -/
def Kernel.runBegin (a : Answers) (i : Fin maxProcs) (k : Kernel) :
    Bool × Kernel :=
  let p := k.procs i
  if !p.used then (false, k)
  else if p.path.head? ≠ some slash then (false, k.markExited a i failed)
  else if maxDepth ≤ k.pidStack.length then (false, k.markExited a i failed)
  else
    let ((prevCr3, switched), k) := k.switchAddressSpace
      (if p.addressSpaceCr3 ≠ 0 then p.addressSpaceCr3 else k.kernelCr3)
    let k := k.markRunning a i
    let k := { k with pidStack := ⟨p.pid, false, 0, false⟩ :: k.pidStack }
    match k.loadProgram a i with
    | (false, k) => (false, k.runFail a i prevCr3 switched)
    | (true, k) =>
      match { k with runningDepth := k.runningDepth + 1 }.invokeEntry a i with
      | (false, k) =>
        (false, { k with runningDepth := k.runningDepth - 1 }.runFail a i
          prevCr3 switched)
      | (true, k) =>
        (true, { k with frames := .entry i prevCr3 switched :: k.frames })

/-- `clks_exec_proc_has_internal_suspend`. -/
def Kernel.hasInternalSuspend (i : Fin maxProcs) (status : UInt64)
    (k : Kernel) : Bool :=
  status = internalSuspendStatus && (k.procs i).used &&
    (k.procs i).state = .pending && (k.procs i).savedFrameValid

/-- `clks_exec_run_proc_slot` returns to its caller. -/
def Kernel.returned (a : Answers) (ok : Bool) (status : UInt64) (k : Kernel) :
    Kernel :=
  match k.frames with
  | .dispatch :: frames => { k with frames, pendingDispatchActive := false }
  | .waitPid parent :: frames =>
    let k := { k with frames, pendingDispatchActive := false }
    match parent with
    | none => k
    | some j =>
      (k.modifyProc j fun p => { p with parentWaiting := false }).clearBlock
        (a.grown 4) j
  | .sync i :: frames =>
    if ok && k.hasInternalSuspend i status then k else { k with frames }
  | _ => k

/-- The program of the innermost run is left, with what
`clks_exec_invoke_entry` got from it. -/
def Kernel.runEnd (a : Answers) (callRet : UInt64) (i : Fin maxProcs)
    (prevCr3 : Nat) (switched : Bool) (level : Level) (k : Kernel) : Kernel :=
  let k :=
    if callRet ≠ internalSuspendStatus && (k.procs i).runStack.isSome then
      { k with heapUsed := k.heapUsed - (k.procs i).runStack.getD 0
        }.modifyProc i fun p =>
          { p with runStack := none, savedFrameValid := false }
    else k
  let k := { k with runningDepth := k.runningDepth - 1 }
  let runRet := if level.exitRequested then level.exitStatus else callRet
  if runRet = internalSuspendStatus && (k.procs i).savedFrameValid then
    let p := k.procs i
    let k := k.setState (a.grown 2) i .pending
      (if p.blockedReason = .none then .ready else p.threadState)
      p.blockedReason
    ((k.modifyProc i fun p => { p with exitStatus := failed }).leave prevCr3
      switched).returned a true runRet
  else
    let k :=
      if level.stopRequested then
        (((k.releaseRuntime i).releaseAddressSpace i).setState (a.grown 3) i
          .stopped .stopped .none).modifyProc i fun p =>
            { p with exitStatus := runRet }
      else k.markExited a i runRet
    ((k.dynlibReleaseOwner (k.procs i).pid).leave prevCr3 switched).returned a
      true runRet

-- ==== the calls

/-- `clks_exec_run_path_internal`, up to the program; false: it returns
FALSE without having run one. -/
def Kernel.runPath (a : Answers) (path : List UInt8) (io : Stdio)
    (k : Kernel) : Bool × Kernel :=
  let parent := k.currentProc
  if path.head? ≠ some slash then (false, k)
  else
    match k.allocSlot with
    | none => (false, k)
    | some i =>
      let (pid, k) := k.allocPid
      let k := k.prepareProcRecord a i pid path .running
      match k.applyStdioOverrides i parent io with
      | (false, k) =>
        (false, (k.fdReleaseAll i).modifyProc i fun _ => Proc.zero)
      | (true, k) =>
        match { k with frames := .sync i :: k.frames }.runBegin a i with
        | (false, k) => (false, k.returned a false failed)
        | (true, k) => (true, k)

/-- `clks_exec_spawn_pathv`. -/
def Kernel.spawnPath (a : Answers) (path : List UInt8) (k : Kernel) :
    Bool × Kernel :=
  if path.head? ≠ some slash then (false, k)
  else
    match k.allocSlot with
    | none => (false, k)
    | some i =>
      let (pid, k) := k.allocPid
      (true, k.prepareProcRecord a i pid path .pending)

/-- A run that returns at once, or goes on. -/
def Kernel.runSlot (a : Answers) (i : Fin maxProcs) (k : Kernel) : Kernel :=
  match k.runBegin a i with
  | (false, k) => k.returned a false failed
  | (true, k) => k

/-- The process that `clks_exec_wait_pid` runs. -/
def Kernel.awaited (pid : UInt64) (k : Kernel) : Option (Fin maxProcs) :=
  (k.findSlotByPid pid).filter fun i =>
    (k.procs i).state = .pending && !k.pendingDispatchActive

/-- `clks_exec_wait_pid`, up to the program that it runs. -/
def Kernel.waitPid (a : Answers) (pid : UInt64) (k : Kernel) : Kernel :=
  match k.awaited pid with
  | none => k
  | some i =>
    let parent := k.currentProc
    let k :=
      match parent with
      | none => k
      | some j =>
        (k.modifyProc j fun p => { p with parentWaiting := true }).setBlock
          (a.grown 5) j .waitChild 0 pid
    { k with
      pendingDispatchActive := true, frames := .waitPid parent :: k.frames
    }.runSlot a i

/-- Can `clks_exec_dispatch_pending_once` run this process? -/
def Kernel.dispatchable (a : Answers) (k : Kernel) (i : Fin maxProcs) : Bool :=
  let p := k.procs i
  p.used && p.state = .pending &&
    !(p.blockedReason = .ttyInput && !a.ttyInput p.ttyIndex) &&
    !(p.blockedReason = .sleep && (p.wakeTick = 0 || a.now < p.wakeTick)) &&
    !(p.blockedReason = .ptyInput || p.blockedReason = .waitChild ||
      p.blockedReason = .io)

/-- The process that `clks_exec_dispatch_pending_once` runs. -/
def Kernel.nextPending (a : Answers) (k : Kernel) : Option (Fin maxProcs) :=
  if k.pendingDispatchActive then none
  else
    ((List.finRange maxProcs).map fun attempt =>
      Fin.ofNat maxProcs (k.dispatchCursor + attempt.val)).find?
        (k.dispatchable a)

/-- `clks_exec_dispatch_pending_once`, up to the program. -/
def Kernel.dispatchPendingOnce (a : Answers) (k : Kernel) : Kernel :=
  match k.nextPending a with
  | none => k
  | some i =>
    let reason := (k.procs i).blockedReason
    let k := { k with dispatchCursor := (i.val + 1) % maxProcs }
    let k :=
      if reason = .yielded || reason = .ttyInput || reason = .sleep then
        k.clearBlock (a.grown 5) i
      else k
    { k with pendingDispatchActive := true, frames := .dispatch :: k.frames
      }.runSlot a i

/-- `clks_exec_request_exit`. -/
def Kernel.requestExit (status : UInt64) (k : Kernel) : Kernel :=
  k.modifyLevel fun level =>
    { level with exitRequested := true, exitStatus := status }

/-- `clks_exec_encode_signal_status` without a fault. -/
def signalStatus (signal : UInt64) : UInt64 :=
  0x8000000000000000 ||| (signal &&& 0xFF)

/-- `clks_exec_proc_kill`. -/
def Kernel.procKill (a : Answers) (pid signal : UInt64) (k : Kernel) :
    UInt64 × Kernel :=
  if pid = 0 then (failed, k)
  else
    match k.findSlotByPid pid with
    | none => (failed, k)
    | some i =>
      let signal := if signal = 0 then signalTerm else signal &&& 0xFF
      let status := signalStatus signal
      if (k.procs i).state = .exited then (1, k)
      else
        let k := k.modifyProc i fun p =>
          { p with
            lastSignal := signal, lastFaultVector := 0, lastFaultError := 0
            lastFaultRip := 0 }
        let state := (k.procs i).state
        if signal = signalCont then
          (1,
            if state = .stopped then
              k.setState (a.grown 0) i .pending .ready .none
            else k)
        else if signal = signalStop && state = .pending then
          (1, k.setState (a.grown 0) i .stopped .stopped .none)
        else if signal = signalStop && state = .stopped then (1, k)
        else if state = .pending || state = .stopped then
          (1, k.markExited a i status)
        else if state = .running then
          if k.pidStack = [] || k.currentPid ≠ pid then (0, k)
          else
            (1, k.modifyLevel fun level =>
              { level with
                exitRequested := true, exitStatus := status
                stopRequested :=
                  level.stopRequested || signal = signalStop })
        else (0, k)

-- ==== libraries

/-- `clks_exec_dynlib_alloc_handle`. -/
def Kernel.allocHandle (k : Kernel) : UInt64 × Kernel :=
  let after (h : UInt64) : UInt64 := if h + 1 = 0 then 1 else h + 1
  let handle := k.nextDynlibHandle
  let next := after handle
  if handle = 0 then (next, { k with nextDynlibHandle := after next })
  else (handle, { k with nextDynlibHandle := next })

/-- A change of one slot. -/
def Kernel.setDynlib (d : Fin dynlibMax) (slot : Dynlib) (k : Kernel) : Kernel :=
  { k with dynlibs := Function.update k.dynlibs d slot }

/-- `clks_exec_dl_open`. -/
def Kernel.dlOpen (a : Answers) (path : List UInt8) (k : Kernel) :
    UInt64 × Kernel :=
  match k.currentProc with
  | none => (failed, k)
  | some i =>
    if path.head? ≠ some slash || pathMax ≤ path.length then (failed, k)
    else
      let owner := (k.procs i).pid
      let existing := (List.finRange dynlibMax).find? fun d =>
        (k.dynlibs d).used && (k.dynlibs d).ownerPid = owner &&
          (k.dynlibs d).path = path
      match existing with
      | some d =>
        ((k.dynlibs d).handle,
          k.setDynlib d
            { k.dynlibs d with refCount := (k.dynlibs d).refCount + 1 })
      | none =>
        match (List.finRange dynlibMax).find? fun d => !(k.dynlibs d).used with
        | none => (failed, k)
        | some d =>
          let k := { k with heapUsed := a.readHeap k.heapUsed }
          if !a.file then (failed, k)
          else
            match a.loaded with
            | none => (failed, k.setDynlib d Dynlib.zero)
            | some loaded =>
              let (handle, k) := k.allocHandle
              (handle,
                { k with heapUsed := k.heapUsed + loaded.block }.setDynlib d
                  { used := true, handle, ownerPid := owner, refCount := 1, path
                    loaded })

/-- `clks_exec_dl_close`. -/
def Kernel.dlClose (handle : UInt64) (k : Kernel) : UInt64 × Kernel :=
  match k.currentProc with
  | none => (failed, k)
  | some i =>
    if handle = 0 then (failed, k)
    else
      let slot := (List.finRange dynlibMax).find? fun d =>
        (k.dynlibs d).used && (k.dynlibs d).handle = handle
      match slot with
      | none => (failed, k)
      | some d =>
        if (k.dynlibs d).ownerPid ≠ (k.procs i).pid then (failed, k)
        else if 1 < (k.dynlibs d).refCount then
          (0,
            k.setDynlib d
              { k.dynlibs d with refCount := (k.dynlibs d).refCount - 1 })
        else
          (0,
            { k with heapUsed := (k.dynlibs d).reset k.heapUsed }.setDynlib d
              Dynlib.zero)

-- ==== a program

/-- `clks_exec_suspend_current_from_syscall`, if it suspends. -/
def Kernel.suspendCurrent (a : Answers) (k : Kernel) : Option Kernel :=
  match k.currentProc with
  | none => none
  | some i =>
    let p := k.procs i
    if !k.pendingDispatchActive || p.state ≠ .running || !p.loadedActive ||
        p.runStack = none then none
    else
      let k := k.modifyProc i fun p => { p with savedFrameValid := true }
      some
        (if p.blockedReason = .none then
          k.setBlock (a.grown 5) i .yielded 0 0
        else k)

/-- `clks_exec_signal_from_vector`. -/
def signalFromVector (vector : UInt64) : UInt64 :=
  if vector = 0 || vector = 16 || vector = 19 then 8
  else if vector = 6 then 4
  else if vector = 3 then 5
  else if vector = 14 || vector = 13 || vector = 12 || vector = 11 ||
      vector = 10 || vector = 17 then 11
  else 6

/-- `clks_exec_encode_signal_status`. -/
def faultStatus (signal vector errorCode : UInt64) : UInt64 :=
  signalStatus signal ||| ((vector &&& 0xFF) <<< 8) |||
    ((errorCode &&& 0xFFFF) <<< 16)

/-- `clks_exec_handle_exception`, for a program that has faulted: the
status that the run is aborted with. -/
def Kernel.handleException (vector errorCode rip : UInt64) (k : Kernel) :
    Option (UInt64 × Kernel) :=
  match k.currentProc with
  | none => none
  | some i =>
    let signal := signalFromVector vector
    let status := faultStatus signal vector errorCode
    some (status,
      (k.modifyProc i fun p =>
        { p with
          lastSignal := signal, lastFaultVector := vector
          lastFaultError := errorCode, lastFaultRip := rip }).requestExit status)

end Clks.Exec
