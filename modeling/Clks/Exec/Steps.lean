/-
Runs of the system: what programs, the kernel and interrupts can ask for,
in any order.

A call is made where a program has the processor, or the kernel outside of
any program. While `clks_exec_wait_sync_proc_slot` idles, only interrupts
come in, and it runs its process again afterwards, whatever has become of
the slot by then.
-/
import Clks.Exec.Runtime

namespace Clks.Exec

/-- Something that happens. -/
inductive Event
  /-- `clks_exec_run_pathv_io`. -/
  | exec (path : List UInt8) (io : Stdio)
  /-- `clks_exec_spawn_pathv`. -/
  | spawn (path : List UInt8)
  /-- `clks_exec_wait_pid`. -/
  | waitPid (pid : UInt64)
  /-- `clks_exec_request_exit`. -/
  | requestExit (status : UInt64)
  /-- `clks_exec_proc_kill`, by a program or by the keyboard. -/
  | kill (pid signal : UInt64)
  /-- A call that waits blocks the program: `clks_exec_proc_set_block`. -/
  | block (reason : BlockReason) (wakeTick waitTargetPid : UInt64)
  /-- It goes on: `clks_exec_proc_clear_block`. -/
  | unblock
  /-- `clks_exec_vm_alloc`, `clks_exec_vm_mmap`, `clks_exec_vm_free`: the
  areas that the program has mapped are these now. -/
  | vm (areas : List VmArea)
  /-- `clks_exec_dl_open`. -/
  | dlOpen (path : List UInt8)
  /-- `clks_exec_dl_close`. -/
  | dlClose (handle : UInt64)
  /-- The program returns, or is aborted after a request to exit. -/
  | finish (callRet : UInt64)
  /-- A system call suspends the program. -/
  | suspend
  /-- The program faults. -/
  | fault (vector errorCode rip : UInt64)
  /-- `clks_exec_dispatch_pending_once`, by the timer or a call that
  waits. -/
  | dispatch
  /-- The loop of `clks_exec_wait_sync_proc_slot` goes on. -/
  | resume
  /-- `clks_scheduler_on_timer_tick`. -/
  | timer (tick : UInt64)
  deriving DecidableEq

/-- Is the innermost call idle? -/
def Kernel.idle (k : Kernel) : Bool :=
  match k.frames with
  | .sync _ :: _ => true
  | _ => false

/-- The innermost run ends, if there is one. -/
def Kernel.endRun (a : Answers) (callRet : UInt64) (k : Kernel) :
    Option Kernel :=
  match k.frames, k.pidStack with
  | .entry i prevCr3 switched :: frames, level :: _ =>
    some ({ k with frames }.runEnd a callRet i prevCr3 switched level)
  | _, _ => none

/-- What comes of an event, if it can happen. -/
def Kernel.step (a : Answers) (k : Kernel) : Event → Option Kernel
  | .exec path io => if k.idle then none else some (k.runPath a path io).2
  | .spawn path => if k.idle then none else some (k.spawnPath a path).2
  | .waitPid pid => if k.idle then none else some (k.waitPid a pid)
  | .requestExit status => if k.idle then none else some (k.requestExit status)
  | .kill pid signal => some (k.procKill a pid signal).2
  | .block reason wakeTick waitTargetPid =>
    if k.idle then none
    else
      k.currentProc.map fun i =>
        k.setBlock (a.grown 0) i reason wakeTick waitTargetPid
  | .unblock =>
    if k.idle then none
    else k.currentProc.map fun i => k.clearBlock (a.grown 0) i
  | .vm areas =>
    if k.idle then none
    else
      k.currentProc.map fun i =>
        k.modifyProc i fun p => { p with userVmAreas := areas }
  | .dlOpen path => if k.idle then none else some (k.dlOpen a path).2
  | .dlClose handle => if k.idle then none else some (k.dlClose handle).2
  | .finish callRet => k.endRun a callRet
  | .suspend => (k.suspendCurrent a).bind fun k => k.endRun a internalSuspendStatus
  | .fault vector errorCode rip =>
    (k.handleException vector errorCode rip).bind fun (status, k) =>
      k.endRun a status
  | .dispatch => some (k.dispatchPendingOnce a)
  | .resume =>
    match k.frames with
    | .sync i :: _ => some (k.runSlot a i)
    | _ => none
  | .timer tick => some { k with sched := k.sched.onTimerTick tick }

/-- The state after `clks_exec_init`, with the scheduler as `kmain` has
started it, or failed to: no process has a task, and the page of the
kernel's address space is not free, nor is the page 0. -/
structure Kernel.Booted (k : Kernel) : Prop where
  procs : ∀ i, k.procs i = Proc.zero
  pidStack : k.pidStack = []
  frames : k.frames = []
  nextPid : k.nextPid = 1
  dynlibs : ∀ d, k.dynlibs d = Dynlib.zero
  tasks : ∀ id t, k.sched.tasks[id]? = some t → id ≠ 0 → t.hasEntry = false →
    t.state = .unused
  online : k.sched.online = true → k.sched.tasks ≠ []
  size : k.sched.tasks.length ≤ 0xFFFFFFFF
  ptys : ∀ p, k.ptys p = Pty.zero
  pages : ∀ page ∈ k.freeStack, page ≠ 0 ∧ page ≠ k.kernelCr3
  pageCount : k.freeStack.length ≤ maxTrackedPages

/-- `clks_exec_init`, with what the scheduler and the memory are then. -/
def Kernel.init (sched : Sched) (heapUsed : Nat) (freeStack : List Nat)
    (kernelCr3 : Nat) : Kernel where
  procs := fun _ => Proc.zero
  pidStack := []
  frames := []
  runningDepth := 0
  pendingDispatchActive := false
  dispatchCursor := 0
  nextPid := 1
  dynlibs := fun _ => Dynlib.zero
  nextDynlibHandle := 1
  ptys := fun _ => Pty.zero
  sched
  heapUsed
  freeStack
  spaces := []
  kernelCr3
  currentCr3 := kernelCr3

/-- A kernel that has started nothing but the idle task. -/
def smallKernel : Kernel :=
  .init ⟨[⟨0, .running, 1, 1, 0, false⟩], 32, 4096, 0, true, false, false⟩
    4096 [1, 2, 3, 4, 5, 6, 7, 8] 100

theorem smallKernel_booted : smallKernel.Booted where
  procs := fun _ => rfl
  pidStack := rfl
  frames := rfl
  nextPid := rfl
  dynlibs := fun _ => rfl
  tasks := by
    intro id t ht hid
    cases id with
    | zero => exact absurd rfl hid
    | succ => cases ht
  online := nofun
  size := by decide
  ptys := fun _ => rfl
  pages := by decide
  pageCount := by decide

/-- What it answers when there is enough of everything. -/
def ample : Answers where
  now := 0
  ttyActive := 0
  ttyInput := fun _ => false
  grown := fun _ => some 8192
  readHeap := id
  file := true
  inspected := true
  loaded := some ⟨0x400000, 0x1000, 0x400000, 0x1000⟩
  hasEntry := true
  stack := some 0x10000

/-- One event, with answers and in a state that meet a condition. -/
def StepIf (C : Answers → Event → Kernel → Prop) (k k' : Kernel) : Prop :=
  ∃ a e, C a e k ∧ k.step a e = some k'

/-- Any number of events that meet a condition. -/
abbrev RunIf (C : Answers → Event → Kernel → Prop) : Kernel → Kernel → Prop :=
  Relation.ReflTransGen (StepIf C)

/-- The run of these events, as long as each of them can happen and passes
a check. -/
def Kernel.runs (a : Answers) (check : Event → Kernel → Bool) :
    List Event → Kernel → Option Kernel
  | [], k => some k
  | e :: es, k =>
    if check e k then (k.step a e).bind (runs a check es) else none

theorem runs_runIf {C : Answers → Event → Kernel → Prop} {a : Answers}
    {check : Event → Kernel → Bool}
    (hcheck : ∀ e k, check e k = true → C a e k) {es : List Event}
    {k k' : Kernel} (h : k.runs a check es = some k') : RunIf C k k' := by
  induction es generalizing k with
  | nil =>
    obtain rfl := Option.some.inj h
    exact .refl
  | cons e es ih =>
    unfold Kernel.runs at h
    split at h
    · next hpass =>
      obtain ⟨k1, hstep, hrest⟩ := Option.bind_eq_some_iff.mp h
      exact .head ⟨a, e, hcheck e k hpass, hstep⟩ (ih hrest)
    · cases h

end Clks.Exec
