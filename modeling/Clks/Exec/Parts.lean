/-
What the events are made of.

`Kernel.Calls` says where `clks_exec_run_proc_slot` is called, and in which
state. Whatever an event does to the records, the terminals and the
scheduler is a chain of a few kinds of parts (`Kernel.Part`), and perhaps the
return to the call that has begun a run (`Kernel.Does`). What every part
keeps, every event keeps (`step_outcome`).
-/
import Clks.Exec.Framed

namespace Clks.Exec

-- ==== calls

/-- The process that calls `clks_exec_wait_pid` waits. -/
def Kernel.markWaiting (a : Answers) (pid : UInt64) (k : Kernel) : Kernel :=
  match k.currentProc with
  | none => k
  | some j =>
    (k.modifyProc j fun p => { p with parentWaiting := true }).setBlock
      (a.grown 5) j .waitChild 0 pid

/-- `clks_exec_dispatch_pending_once` has chosen a process. -/
def Kernel.wake (a : Answers) (i : Fin maxProcs) (k : Kernel) : Kernel :=
  let reason := (k.procs i).blockedReason
  let k := { k with dispatchCursor := (i.val + 1) % maxProcs }
  if reason = .yielded || reason = .ttyInput || reason = .sleep then
    k.clearBlock (a.grown 5) i
  else k

/-- An event calls `clks_exec_run_proc_slot`, for a slot and in a state. -/
inductive Kernel.Calls (a : Answers) (k : Kernel) :
    Event → Fin maxProcs → Kernel → Prop
  | exec {path : List UInt8} {io : Stdio} {i : Fin maxProcs} {k₁ : Kernel} :
      k.idle = false → path.head? = some slash → k.allocSlot = some i →
      (k.allocPid.2.prepareProcRecord a i k.allocPid.1 path
        .running).applyStdioOverrides i k.currentProc io = (true, k₁) →
      Calls a k (.exec path io) i { k₁ with frames := .sync i :: k₁.frames }
  | waitPid {pid : UInt64} {i : Fin maxProcs} :
      k.idle = false → k.awaited pid = some i →
      Calls a k (.waitPid pid) i
        { k.markWaiting a pid with
          pendingDispatchActive := true
          frames := .waitPid k.currentProc :: (k.markWaiting a pid).frames }
  | dispatch {i : Fin maxProcs} : k.nextPending a = some i →
      Calls a k .dispatch i
        { k.wake a i with
          pendingDispatchActive := true
          frames := .dispatch :: (k.wake a i).frames }
  | resume {i : Fin maxProcs} {frames : List Frame} :
      k.frames = .sync i :: frames → Calls a k .resume i k

/-- `clks_exec_run_proc_slot` when the program has been left: the status that
it returns, and the kernel. -/
def Kernel.runReturn (a : Answers) (callRet : UInt64) (i : Fin maxProcs)
    (prevCr3 : Nat) (switched : Bool) (level : Level) (k : Kernel) :
    UInt64 × Kernel :=
  let k :=
    if callRet ≠ internalSuspendStatus && (k.procs i).runStack.isSome then
      { k with heapUsed := k.heapUsed - (k.procs i).runStack.getD 0
        }.modifyProc i fun p =>
          { p with runStack := none, savedFrameValid := false }
    else k
  let k := { k with runningDepth := k.runningDepth - 1 }
  let runRet := if level.exitRequested then level.exitStatus else callRet
  if runRet = internalSuspendStatus && (k.procs i).savedFrameValid then
    let p := k.procs i
    let k := k.setState (a.grown 2) i .pending
      (if p.blockedReason = .none then .ready else p.threadState)
      p.blockedReason
    (runRet, (k.modifyProc i fun p => { p with exitStatus := failed }).leave
      prevCr3 switched)
  else
    let k :=
      if level.stopRequested then
        (((k.releaseRuntime i).releaseAddressSpace i).setState (a.grown 3) i
          .stopped .stopped .none).modifyProc i fun p =>
            { p with exitStatus := runRet }
      else k.markExited a i runRet
    (runRet, (k.dynlibReleaseOwner (k.procs i).pid).leave prevCr3 switched)

/-- The slot whose record a call will write to. -/
def Frame.holds : Frame → Option (Fin maxProcs)
  | .entry i _ _ => some i
  | .waitPid parent => parent
  | _ => none

/-- A signal has been recorded. -/
def Proc.signalled (signal : UInt64) (p : Proc) : Proc :=
  { p with
    lastSignal := signal, lastFaultVector := 0, lastFaultError := 0
    lastFaultRip := 0 }

/-- What a signal does once it has been recorded. -/
inductive Kernel.Signals (a : Answers) (k : Kernel) (i : Fin maxProcs)
    (signal : UInt64) : Kernel → Prop
  | nothing : Signals a k i signal k
  | continues : (k.procs i).state = .stopped →
      Signals a k i signal (k.setState (a.grown 0) i .pending .ready .none)
  | stops : (k.procs i).state = .pending →
      Signals a k i signal (k.setState (a.grown 0) i .stopped .stopped .none)
  | ends : signal ≠ signalCont → signal ≠ signalStop →
      (k.procs i).state = .pending ∨ (k.procs i).state = .stopped →
      Signals a k i signal (k.markExited a i (signalStatus signal))
  | asks : Signals a k i signal (k.modifyLevel fun level =>
      { level with
        exitRequested := true, exitStatus := signalStatus signal
        stopRequested := level.stopRequested || signal = signalStop })

-- ==== parts

/-- Only the stack of levels, the counters, the heap, the libraries and the
active address space change. -/
structure Kernel.Aside (k k' : Kernel) : Prop where
  procs : k'.procs = k.procs
  frames : k'.frames = k.frames
  cursor : k'.dispatchCursor = k.dispatchCursor
  ptys : k'.ptys = k.ptys
  sched : k'.sched = k.sched
  freeStack : k'.freeStack = k.freeStack
  kernelCr3 : k'.kernelCr3 = k.kernelCr3

/-- The record keeps its card, its task, its descriptors and its address
space, and gets no program and no stack if its process has ended. -/
structure Proc.Noted (p p' : Proc) : Prop where
  card : p'.card = p.card
  task : p'.schedulerTaskId = p.schedulerTaskId
  fds : p'.fds = p.fds
  space : p'.addressSpaceCr3 = p.addressSpaceCr3
  program : p.used = false ∨ p.state = .exited →
    p'.loadedActive = p.loadedActive
  stack : p.used = false ∨ p.state = .exited →
    p'.runStack = p.runStack ∨ p'.runStack = none

/-- One part of what an event does; it writes to the records in `H`. -/
inductive Kernel.Part (H : Fin maxProcs → Prop) (a : Answers) :
    Kernel → Kernel → Prop
  | aside {k k' : Kernel} : k.Aside k' → Part H a k k'
  | push {k : Kernel} {frame : Frame} : (∀ i, frame.holds = some i → H i) →
      Part H a k { k with frames := frame :: k.frames }
  | pop {k : Kernel} {frame : Frame} {frames : List Frame} :
      k.frames = frame :: frames → Part H a k { k with frames }
  | note {k : Kernel} {i : Fin maxProcs} {f : Proc → Proc} : H i →
      (k.procs i).Noted (f (k.procs i)) → Part H a k (k.modifyProc i f)
  | runtime {k : Kernel} {i : Fin maxProcs} : H i →
      Part H a k (k.releaseRuntime i)
  | space {k : Kernel} {i : Fin maxProcs} : H i →
      Part H a k (k.releaseAddressSpace i)
  | state {k : Kernel} {i : Fin maxProcs} {got : Option Nat}
      {state : ProcState} {threadState : ThreadState} {reason : BlockReason} :
      H i → state ≠ .exited →
      Part H a k (k.setState got i state threadState reason)
  | exited {k : Kernel} {i : Fin maxProcs} {status : UInt64} : H i →
      Part H a k (k.markExited a i status)
  | block {k : Kernel} {i : Fin maxProcs} {got : Option Nat}
      {reason : BlockReason} {wakeTick waitTargetPid : UInt64} : H i →
      Part H a k (k.setBlock got i reason wakeTick waitTargetPid)
  | unblock {k : Kernel} {i : Fin maxProcs} {got : Option Nat} : H i →
      Part H a k (k.clearBlock got i)
  | timer {k : Kernel} {tick : UInt64} :
      Part H a k { k with sched := k.sched.onTimerTick tick }

/-- Any number of parts. -/
abbrev Kernel.Parts (H : Fin maxProcs → Prop) (a : Answers) :
    Kernel → Kernel → Prop :=
  Relation.ReflTransGen (Kernel.Part H a)

/-- The record is used, or a call will write to it. -/
def Kernel.Known (k : Kernel) (i : Fin maxProcs) : Prop :=
  (k.procs i).used = true ∨ ∃ frame ∈ k.frames, frame.holds = some i

/-- Parts, and perhaps the return to a call. -/
inductive Kernel.Does (a : Answers) (k : Kernel) : Kernel → Prop
  | parts {k' : Kernel} : Kernel.Parts k.Known a k k' → Does a k k'
  | returns {k₁ : Kernel} {ok : Bool} {status : UInt64} :
      Kernel.Parts k.Known a k k₁ → Does a k (k₁.returned a ok status)

/-- What comes of an event. -/
inductive Kernel.Outcome (a : Answers) (k : Kernel) : Event → Kernel → Prop
  | does {e : Event} {k' : Kernel} : k.Does a k' → Outcome a k e k'
  | dispatch {i : Fin maxProcs} {k' : Kernel} : k.nextPending a = some i →
      Kernel.Does a { k with dispatchCursor := (i.val + 1) % maxProcs } k' →
      Outcome a k .dispatch k'
  | spawn {path : List UInt8} {i : Fin maxProcs} : path.head? = some slash →
      k.allocSlot = some i →
      Outcome a k (.spawn path)
        (k.allocPid.2.prepareProcRecord a i k.allocPid.1 path .pending)
  | exec {path : List UInt8} {io : Stdio} {i : Fin maxProcs}
      {k₁ k' : Kernel} : path.head? = some slash → k.allocSlot = some i →
      (k.allocPid.2.prepareProcRecord a i k.allocPid.1 path
        .running).applyStdioOverrides i k.currentProc io = (true, k₁) →
      Kernel.Does a { k₁ with frames := .sync i :: k₁.frames } k' →
      Outcome a k (.exec path io) k'
  | refused {path : List UInt8} {io : Stdio} {i : Fin maxProcs}
      {k₁ : Kernel} : path.head? = some slash → k.allocSlot = some i →
      (k.allocPid.2.prepareProcRecord a i k.allocPid.1 path
        .running).applyStdioOverrides i k.currentProc io = (false, k₁) →
      Outcome a k (.exec path io)
        ((k₁.fdReleaseAll i).modifyProc i fun _ => Proc.zero)

section parts

variable {k k' k1 k2 : Kernel} {i j : Fin maxProcs} {a : Answers} {e : Event}
  {H : Fin maxProcs → Prop} {callRet status pid : UInt64} {prevCr3 : Nat}
  {switched : Bool} {level : Level}

-- ==== the calls

theorem waitPid_call (hawaited : k.awaited pid = some i) :
    k.waitPid a pid
      = Kernel.runSlot a i
        { k.markWaiting a pid with
          pendingDispatchActive := true
          frames := .waitPid k.currentProc :: (k.markWaiting a pid).frames } := by
  unfold Kernel.waitPid
  rw [hawaited]
  rfl

theorem dispatchPendingOnce_call (hpending : k.nextPending a = some i) :
    k.dispatchPendingOnce a
      = Kernel.runSlot a i
        { k.wake a i with
          pendingDispatchActive := true
          frames := .dispatch :: (k.wake a i).frames } := by
  unfold Kernel.dispatchPendingOnce
  rw [hpending]
  rfl

theorem runPath_call {path : List UInt8} {io : Stdio}
    (hpath : path.head? = some slash) (hslot : k.allocSlot = some i)
    (hstdio : (k.allocPid.2.prepareProcRecord a i k.allocPid.1 path
      .running).applyStdioOverrides i k.currentProc io = (true, k1)) :
    (k.runPath a path io).2
      = Kernel.runSlot a i { k1 with frames := .sync i :: k1.frames } := by
  unfold Kernel.runPath Kernel.runSlot
  simp only []
  rw [if_neg (not_not.mpr hpath), hslot]
  simp only []
  rw [hstdio]
  simp only []
  rcases Kernel.runBegin a i { k1 with frames := .sync i :: k1.frames }
    with ⟨_ | _, k2⟩ <;> rfl

/-- What comes of an event, said once for all invariants: a run from one of
the calls, what the function of the event does, or nothing. -/
inductive Kernel.Comes (a : Answers) (k : Kernel) : Event → Kernel → Prop
  | idle {e : Event} : Comes a k e k
  | run {e : Event} {i : Fin maxProcs} {kc : Kernel} : k.Calls a e i kc →
      Comes a k e (kc.runSlot a i)
  | refused {path : List UInt8} {io : Stdio} {i : Fin maxProcs}
      {k₁ : Kernel} : path.head? = some slash → k.allocSlot = some i →
      (k.allocPid.2.prepareProcRecord a i k.allocPid.1 path
        .running).applyStdioOverrides i k.currentProc io = (false, k₁) →
      Comes a k (.exec path io)
        ((k₁.fdReleaseAll i).modifyProc i fun _ => Proc.zero)
  | spawn {path : List UInt8} {i : Fin maxProcs} : path.head? = some slash →
      k.allocSlot = some i →
      Comes a k (.spawn path)
        (k.allocPid.2.prepareProcRecord a i k.allocPid.1 path .pending)
  | requestExit {status : UInt64} :
      Comes a k (.requestExit status) (k.requestExit status)
  | kill {pid signal : UInt64} :
      Comes a k (.kill pid signal) (k.procKill a pid signal).2
  | block {reason : BlockReason} {wakeTick waitTargetPid : UInt64}
      {i : Fin maxProcs} : k.currentProc = some i →
      Comes a k (.block reason wakeTick waitTargetPid)
        (k.setBlock (a.grown 0) i reason wakeTick waitTargetPid)
  | unblock {i : Fin maxProcs} : k.currentProc = some i →
      Comes a k .unblock (k.clearBlock (a.grown 0) i)
  | vm {areas : List VmArea} {i : Fin maxProcs} : k.currentProc = some i →
      Comes a k (.vm areas)
        (k.modifyProc i fun p => { p with userVmAreas := areas })
  | dlOpen {path : List UInt8} : Comes a k (.dlOpen path) (k.dlOpen a path).2
  | dlClose {handle : UInt64} :
      Comes a k (.dlClose handle) (k.dlClose handle).2
  | finish {callRet : UInt64} {k' : Kernel} : k.endRun a callRet = some k' →
      Comes a k (.finish callRet) k'
  | suspend {k₁ k' : Kernel} : k.suspendCurrent a = some k₁ →
      k₁.endRun a internalSuspendStatus = some k' → Comes a k .suspend k'
  | fault {vector errorCode rip status : UInt64} {k₁ k' : Kernel} :
      k.handleException vector errorCode rip = some (status, k₁) →
      k₁.endRun a status = some k' → Comes a k (.fault vector errorCode rip) k'
  | timer {tick : UInt64} :
      Comes a k (.timer tick) { k with sched := k.sched.onTimerTick tick }

theorem runPath_comes {path : List UInt8} {io : Stdio}
    (hidle : k.idle = false) :
    k.Comes a (.exec path io) (k.runPath a path io).2 := by
  by_cases hpath : path.head? = some slash
  swap
  · unfold Kernel.runPath
    rw [if_pos hpath]
    exact .idle
  cases hslot : k.allocSlot with
  | none =>
    unfold Kernel.runPath
    rw [if_neg (not_not.mpr hpath), hslot]
    exact .idle
  | some i =>
    cases hstdio : (k.allocPid.2.prepareProcRecord a i k.allocPid.1 path
        .running).applyStdioOverrides i k.currentProc io with
    | mk ready k1 =>
      cases ready with
      | true =>
        rw [runPath_call hpath hslot hstdio]
        exact .run (.exec hidle hpath hslot hstdio)
      | false =>
        have hrefused : (k.runPath a path io).2
            = (k1.fdReleaseAll i).modifyProc i fun _ => Proc.zero := by
          unfold Kernel.runPath
          simp only []
          rw [if_neg (not_not.mpr hpath), hslot]
          simp only []
          rw [hstdio]
        rw [hrefused]
        exact .refused hpath hslot hstdio

theorem spawnPath_comes {path : List UInt8} :
    k.Comes a (.spawn path) (k.spawnPath a path).2 := by
  unfold Kernel.spawnPath
  split
  · exact .idle
  next hpath =>
  split
  · exact .idle
  next i hslot => exact .spawn (not_not.mp hpath) hslot

theorem waitPid_comes (hidle : k.idle = false) :
    k.Comes a (.waitPid pid) (k.waitPid a pid) := by
  cases hawaited : k.awaited pid with
  | none =>
    unfold Kernel.waitPid
    rw [hawaited]
    exact .idle
  | some i =>
    rw [waitPid_call hawaited]
    exact .run (.waitPid hidle hawaited)

theorem dispatchPendingOnce_comes :
    k.Comes a .dispatch (k.dispatchPendingOnce a) := by
  cases hpending : k.nextPending a with
  | none =>
    unfold Kernel.dispatchPendingOnce
    rw [hpending]
    exact .idle
  | some i =>
    rw [dispatchPendingOnce_call hpending]
    exact .run (.dispatch hpending)

theorem step_comes (hstep : k.step a e = some k') : k.Comes a e k' := by
  have hcalled : ∀ {r : Option Kernel},
      (if k.idle = true then none else r) = some k' →
      k.idle = false ∧ r = some k' := by
    intro r hr
    obtain ⟨hidle, hr⟩ := Option.ite_none_left_eq_some.mp hr
    exact ⟨Bool.not_eq_true _ ▸ hidle, hr⟩
  cases e with
  | exec path io =>
    obtain ⟨hidle, ⟨⟩⟩ := hcalled hstep
    exact runPath_comes hidle
  | spawn path =>
    obtain ⟨-, ⟨⟩⟩ := hcalled hstep
    exact spawnPath_comes
  | waitPid pid =>
    obtain ⟨hidle, ⟨⟩⟩ := hcalled hstep
    exact waitPid_comes hidle
  | requestExit status =>
    obtain ⟨-, ⟨⟩⟩ := hcalled hstep
    exact .requestExit
  | kill pid signal =>
    obtain rfl := Option.some.inj hstep
    exact .kill
  | block reason wakeTick waitTargetPid =>
    obtain ⟨i, hcurrent, rfl⟩ := Option.map_eq_some_iff.mp (hcalled hstep).2
    exact .block hcurrent
  | unblock =>
    obtain ⟨i, hcurrent, rfl⟩ := Option.map_eq_some_iff.mp (hcalled hstep).2
    exact .unblock hcurrent
  | vm areas =>
    obtain ⟨i, hcurrent, rfl⟩ := Option.map_eq_some_iff.mp (hcalled hstep).2
    exact .vm hcurrent
  | dlOpen path =>
    obtain ⟨-, ⟨⟩⟩ := hcalled hstep
    exact .dlOpen
  | dlClose handle =>
    obtain ⟨-, ⟨⟩⟩ := hcalled hstep
    exact .dlClose
  | finish callRet => exact .finish hstep
  | suspend =>
    obtain ⟨k1, hsuspend, hend⟩ := Option.bind_eq_some_iff.mp hstep
    exact .suspend hsuspend hend
  | fault vector errorCode rip =>
    obtain ⟨⟨status, k1⟩, hfault, hend⟩ := Option.bind_eq_some_iff.mp hstep
    exact .fault hfault hend
  | dispatch =>
    obtain rfl := Option.some.inj hstep
    exact dispatchPendingOnce_comes
  | resume =>
    simp only [Kernel.step] at hstep
    split at hstep
    · next i frames hframes =>
      obtain rfl := Option.some.inj hstep
      exact .run (.resume hframes)
    · cases hstep
  | timer tick =>
    obtain rfl := Option.some.inj hstep
    exact .timer

theorem currentProc_used (h : k.currentProc = some i) :
    (k.procs i).used = true := by
  unfold Kernel.currentProc at h
  split at h
  · cases h
  · exact (findSlotByPid_some h).1

theorem nextPending_used (h : k.nextPending a = some i) :
    (k.procs i).used = true := by
  unfold Kernel.nextPending at h
  split at h
  · cases h
  · have hfound := List.find?_some h
    unfold Kernel.dispatchable at hfound
    simp only [Bool.and_eq_true] at hfound
    exact hfound.1.1.1.1

theorem awaited_found (h : k.awaited pid = some i) :
    k.findSlotByPid pid = some i :=
  (Option.filter_eq_some_iff.mp h).1

-- ==== the small calls

theorem dlOpen_eq (k : Kernel) (a : Answers) (path : List UInt8) :
    ∃ heapUsed dynlibs next, (k.dlOpen a path).2
      = { k with heapUsed, dynlibs, nextDynlibHandle := next } := by
  unfold Kernel.dlOpen Kernel.allocHandle
  split
  · exact ⟨_, _, _, rfl⟩
  simp only []
  split
  · exact ⟨_, _, _, rfl⟩
  split
  · exact ⟨_, _, _, rfl⟩
  split
  · exact ⟨_, _, _, rfl⟩
  split
  · exact ⟨_, _, _, rfl⟩
  split
  · exact ⟨_, _, _, rfl⟩
  · split <;> exact ⟨_, _, _, rfl⟩

theorem dlClose_eq (k : Kernel) (handle : UInt64) :
    ∃ heapUsed dynlibs, (k.dlClose handle).2
      = { k with heapUsed, dynlibs } := by
  unfold Kernel.dlClose
  split
  · exact ⟨_, _, rfl⟩
  simp only []
  split
  · exact ⟨_, _, rfl⟩
  split
  · exact ⟨_, _, rfl⟩
  split
  · exact ⟨_, _, rfl⟩
  · split <;> exact ⟨_, _, rfl⟩

theorem suspendCurrent_cases (hsuspend : k.suspendCurrent a = some k') :
    ∃ i, k.currentProc = some i ∧ (k.procs i).state = .running ∧
      (k' = (k.modifyProc i fun p => { p with savedFrameValid := true }) ∨
        k' = (k.modifyProc i fun p =>
          { p with savedFrameValid := true }).setBlock (a.grown 5) i .yielded
            0 0) := by
  unfold Kernel.suspendCurrent at hsuspend
  split at hsuspend
  · cases hsuspend
  next i hcurrent =>
  simp only [] at hsuspend
  split at hsuspend
  · cases hsuspend
  next hready =>
  simp only [ne_eq, Bool.or_eq_true, decide_eq_true_eq, not_or, not_not]
    at hready
  obtain rfl := Option.some.inj hsuspend
  refine ⟨i, hcurrent, hready.1.1.2, ?_⟩
  split
  · exact .inr rfl
  · exact .inl rfl

theorem handleException_cases {vector errorCode rip : UInt64}
    (hfault : k.handleException vector errorCode rip = some (status, k')) :
    ∃ i, k.currentProc = some i ∧
      status = faultStatus (signalFromVector vector) vector errorCode ∧
      k' = (k.modifyProc i fun p =>
        { p with
          lastSignal := signalFromVector vector, lastFaultVector := vector
          lastFaultError := errorCode, lastFaultRip := rip }).requestExit
            status := by
  unfold Kernel.handleException at hfault
  split at hfault
  · cases hfault
  · next i hcurrent =>
    obtain ⟨hstatus, hk'⟩ := Prod.mk.inj (Option.some.inj hfault)
    exact ⟨i, hcurrent, hstatus.symm, by rw [← hk', hstatus]⟩

theorem procKill_cases (k : Kernel) (a : Answers) (pid signal : UInt64) :
    (k.procKill a pid signal).2 = k ∨
      ∃ i s, (if signal = 0 then signalTerm else signal &&& 0xFF) = s ∧
        k.findSlotByPid pid = some i ∧ (k.procs i).state ≠ .exited ∧
        (k.modifyProc i (Proc.signalled s)).Signals a i s
          (k.procKill a pid signal).2 := by
  generalize hr : k.procKill a pid signal = r
  unfold Kernel.procKill at hr
  split at hr
  · exact .inl (by rw [← hr])
  split at hr
  · exact .inl (by rw [← hr])
  next i hfound =>
  simp only [] at hr
  split at hr
  · exact .inl (by rw [← hr])
  next halive =>
  refine .inr ⟨i, _, rfl, hfound, halive, ?_⟩
  generalize (if signal = 0 then signalTerm else signal &&& 0xFF) = s at hr ⊢
  rw [← hr]
  clear hr
  generalize hk1 : k.modifyProc i (Proc.signalled s) = k1
  change k.modifyProc i (fun p =>
    { p with
      lastSignal := s, lastFaultVector := 0, lastFaultError := 0
      lastFaultRip := 0 }) = k1 at hk1
  rw [hk1]
  split
  · split
    · next hstopped => exact .continues hstopped
    · exact .nothing
  next hcont =>
  split
  · next hstop =>
    simp only [Bool.and_eq_true, decide_eq_true_eq] at hstop
    exact .stops hstop.2
  next hpending =>
  split
  · exact .nothing
  next hstopped =>
  split
  · next hasleep =>
    simp only [Bool.or_eq_true, decide_eq_true_eq] at hasleep
    refine .ends hcont ?_ hasleep
    rintro rfl
    rcases hasleep with hasleep | hasleep
    · simp [hasleep] at hpending
    · simp [hasleep] at hstopped
  split
  · split
    · exact .nothing
    · exact .asks
  · exact .nothing

-- ==== aside

theorem switchAddressSpace_aside {target : Nat} :
    k.Aside (k.switchAddressSpace target).2 := by
  unfold Kernel.switchAddressSpace
  simp only []
  split <;> exact ⟨rfl, rfl, rfl, rfl, rfl, rfl, rfl⟩

theorem leave_aside : k.Aside (k.leave prevCr3 switched) := by
  unfold Kernel.leave Kernel.restoreAddressSpace
  split <;> exact ⟨rfl, rfl, rfl, rfl, rfl, rfl, rfl⟩

theorem dynlibReleaseOwner_aside : k.Aside (k.dynlibReleaseOwner pid) := by
  unfold Kernel.dynlibReleaseOwner
  split <;> exact ⟨rfl, rfl, rfl, rfl, rfl, rfl, rfl⟩

theorem modifyLevel_aside {f : Level → Level} : k.Aside (k.modifyLevel f) := by
  unfold Kernel.modifyLevel
  split <;> exact ⟨rfl, rfl, rfl, rfl, rfl, rfl, rfl⟩

theorem dlOpen_aside {path : List UInt8} : k.Aside (k.dlOpen a path).2 := by
  obtain ⟨heapUsed, dynlibs, next, heq⟩ := dlOpen_eq k a path
  rw [heq]
  exact ⟨rfl, rfl, rfl, rfl, rfl, rfl, rfl⟩

theorem dlClose_aside {handle : UInt64} : k.Aside (k.dlClose handle).2 := by
  obtain ⟨heapUsed, dynlibs, heq⟩ := dlClose_eq k handle
  rw [heq]
  exact ⟨rfl, rfl, rfl, rfl, rfl, rfl, rfl⟩

-- ==== a run

theorem parts_note {f : Proc → Proc} (hi : H i)
    (hf : (k.procs i).Noted (f (k.procs i))) :
    Kernel.Parts H a k (k.modifyProc i f) :=
  .single (.note hi hf)

theorem noted_of_busy {p p' : Proc} (hbusy : p.used = true ∧ p.state ≠ .exited)
    (hcard : p'.card = p.card) (htask : p'.schedulerTaskId = p.schedulerTaskId)
    (hfds : p'.fds = p.fds) (hspace : p'.addressSpaceCr3 = p.addressSpaceCr3) :
    p.Noted p' := by
  have hended : ¬ (p.used = false ∨ p.state = .exited) := by
    rw [hbusy.1]
    simpa using hbusy.2
  exact ⟨hcard, htask, hfds, hspace, fun h => absurd h hended,
    fun h => absurd h hended⟩

/-- The process in the record has not exited. -/
def Kernel.Busy (k : Kernel) (i : Fin maxProcs) : Prop :=
  (k.cards i).used = true ∧ (k.cards i).state ≠ .exited

theorem Kernel.Busy.same (h : k.Busy i) (hcards : k'.cards = k.cards) :
    k'.Busy i := by
  unfold Kernel.Busy
  rw [hcards]
  exact h

theorem loadProgram_parts (hi : H i) (hbusy : k.Busy i) :
    Kernel.Parts H a k (k.loadProgram a i).2 := by
  generalize hr : k.loadProgram a i = r
  unfold Kernel.loadProgram at hr
  simp only [] at hr
  split at hr
  · subst hr
    exact .refl
  have hread : Kernel.Parts H a k { k.releaseRuntime i with
      heapUsed := a.readHeap (k.releaseRuntime i).heapUsed } :=
    .tail (.single (.runtime hi)) (.aside ⟨rfl, rfl, rfl, rfl, rfl, rfl, rfl⟩)
  split at hr
  · subst hr
    exact hread
  split at hr
  · subst hr
    exact hread
  · next loaded _ =>
    subst hr
    have hgrown : Kernel.Parts H a k { k.releaseRuntime i with
        heapUsed := a.readHeap (k.releaseRuntime i).heapUsed + loaded.block } :=
      hread.tail (.aside ⟨rfl, rfl, rfl, rfl, rfl, rfl, rfl⟩)
    refine hgrown.trans ?_
    dsimp only
    refine parts_note hi (noted_of_busy ?_ rfl rfl rfl rfl)
    exact hbusy.same (cards_releaseRuntime k i)

theorem invokeEntry_parts (hi : H i) (hbusy : k.Busy i) :
    Kernel.Parts H a k (k.invokeEntry a i).2 := by
  generalize hr : k.invokeEntry a i = r
  unfold Kernel.invokeEntry at hr
  split at hr
  · subst hr
    exact .refl
  split at hr
  · subst hr
    exact .refl
  · next block _ =>
    subst hr
    have hgrown : Kernel.Parts H a k { k with heapUsed := k.heapUsed + block } :=
      .single (.aside ⟨rfl, rfl, rfl, rfl, rfl, rfl, rfl⟩)
    refine hgrown.trans ?_
    dsimp only
    exact parts_note hi (noted_of_busy hbusy rfl rfl rfl rfl)

theorem runFail_parts (hi : H i) :
    Kernel.Parts H a k (k.runFail a i prevCr3 switched) := by
  unfold Kernel.runFail
  exact .tail (.tail (.single (.exited hi)) (.aside dynlibReleaseOwner_aside))
    (.aside leave_aside)

theorem runBegin_parts (hi : (k.procs i).used = true → H i) :
    Kernel.Parts H a k (k.runBegin a i).2 := by
  generalize hr : k.runBegin a i = r
  unfold Kernel.runBegin at hr
  simp only [] at hr
  split at hr
  · subst hr
    exact .refl
  next hunused =>
  have hused : (k.procs i).used = true := by simpa using hunused
  replace hi := hi hused
  split at hr
  · subst hr
    exact .single (.exited hi)
  split at hr
  · subst hr
    exact .single (.exited hi)
  generalize hswitch : k.switchAddressSpace _ = sw at hr
  have hswitched : k.Aside sw.2 := by
    rw [← hswitch]
    exact switchAddressSpace_aside
  obtain ⟨⟨prevCr3, switched⟩, k1⟩ := sw
  have hmark : Kernel.Parts H a k (k1.markRunning a i) :=
    .tail (.single (.aside hswitched)) (.state hi nofun)
  have hbusy : (k1.markRunning a i).Busy i := by
    have hcards := cards_setState (a.grown 2) k1 i .running .running .none
    rw [cards_of_procs hswitched.procs] at hcards
    have hcard := cards_self hcards
    unfold Kernel.Busy Kernel.markRunning
    rw [hcard]
    exact ⟨hused, nofun⟩
  generalize k1.markRunning a i = k2 at hr hmark hbusy
  have hpush : Kernel.Parts H a k
      { k2 with pidStack := ⟨(k.procs i).pid, false, 0, false⟩ :: k2.pidStack } :=
    hmark.tail (.aside ⟨rfl, rfl, rfl, rfl, rfl, rfl, rfl⟩)
  have hload := hpush.trans (loadProgram_parts (a := a) hi hbusy)
  have hcards := (@loadProgram_calm { k2 with
    pidStack := ⟨(k.procs i).pid, false, 0, false⟩ :: k2.pidStack } i a).2
  split at hr
  · next k3 hloaded =>
    rw [hloaded] at hload
    subst hr
    exact hload.trans (runFail_parts hi)
  next k3 hloaded =>
  rw [hloaded] at hload hcards
  have hdepth : Kernel.Parts H a k
      { k3 with runningDepth := k3.runningDepth + 1 } :=
    hload.tail (.aside ⟨rfl, rfl, rfl, rfl, rfl, rfl, rfl⟩)
  have hinvoke := hdepth.trans
    (invokeEntry_parts (a := a) hi (hbusy.same hcards))
  split at hr
  · next k4 hinvoked =>
    rw [hinvoked] at hinvoke
    subst hr
    have hleft : Kernel.Parts H a k
        { k4 with runningDepth := k4.runningDepth - 1 } :=
      hinvoke.tail (.aside ⟨rfl, rfl, rfl, rfl, rfl, rfl, rfl⟩)
    exact hleft.trans (runFail_parts hi)
  · next k4 hinvoked =>
    rw [hinvoked] at hinvoke
    subst hr
    refine hinvoke.tail (.push fun j hj => ?_)
    obtain rfl : i = j := Option.some.inj hj
    exact hi

theorem runSlot_cases (hi : (k.procs i).used = true → H i) :
    Kernel.Parts H a k (k.runSlot a i) ∨
      ∃ k1, Kernel.Parts H a k k1 ∧
        k.runSlot a i = k1.returned a false failed := by
  have hbegin : Kernel.Parts H a k (k.runBegin a i).2 := runBegin_parts hi
  unfold Kernel.runSlot
  generalize k.runBegin a i = r at hbegin ⊢
  obtain ⟨_ | _, k1⟩ := r
  · exact .inr ⟨k1, hbegin, rfl⟩
  · exact .inl hbegin

theorem runEnd_eq (k : Kernel) :
    k.runEnd a callRet i prevCr3 switched level
      = (k.runReturn a callRet i prevCr3 switched level).2.returned a true
        (k.runReturn a callRet i prevCr3 switched level).1 := by
  unfold Kernel.runEnd Kernel.runReturn
  simp only []
  generalize (if callRet ≠ internalSuspendStatus &&
    (k.procs i).runStack.isSome then _ else k : Kernel) = k1
  generalize (if level.exitRequested then level.exitStatus else callRet) = s
  split <;> rfl

theorem runReturn_parts (hi : H i) :
    Kernel.Parts H a k (k.runReturn a callRet i prevCr3 switched level).2 := by
  unfold Kernel.runReturn
  simp only []
  generalize hk1 : (if callRet ≠ internalSuspendStatus &&
    (k.procs i).runStack.isSome then _ else k : Kernel) = k1
  have hstack : Kernel.Parts H a k k1 := by
    subst hk1
    split
    · have hfreed : Kernel.Parts H a k { k with
          heapUsed := k.heapUsed - (k.procs i).runStack.getD 0 } :=
        .single (.aside ⟨rfl, rfl, rfl, rfl, rfl, rfl, rfl⟩)
      exact hfreed.tail (.note hi ⟨rfl, rfl, rfl, rfl, fun _ => rfl,
        fun _ => .inr rfl⟩)
    · exact .refl
  have hdepth : Kernel.Parts H a k
      { k1 with runningDepth := k1.runningDepth - 1 } :=
    hstack.tail (.aside ⟨rfl, rfl, rfl, rfl, rfl, rfl, rfl⟩)
  generalize (if level.exitRequested then level.exitStatus else callRet)
    = runRet
  have hexit : ∀ {k2 : Kernel} {s : UInt64}, Kernel.Parts H a k k2 →
      Kernel.Parts H a k (k2.modifyProc i fun p => { p with exitStatus := s }) :=
    fun hk2 => hk2.tail (.note hi ⟨rfl, rfl, rfl, rfl, fun _ => rfl,
      fun _ => .inl rfl⟩)
  split
  · -- suspended
    refine .tail (hexit ?_) (.aside leave_aside)
    exact hdepth.tail (.state hi (show ProcState.pending ≠ .exited by nofun))
  · -- stopped, or over
    refine .tail (.tail ?_ (.aside dynlibReleaseOwner_aside)) (.aside leave_aside)
    split
    · refine hexit (((hdepth.tail (.runtime hi)).tail (.space hi)).tail ?_)
      exact .state hi (show ProcState.stopped ≠ .exited by nofun)
    · exact hdepth.tail (.exited hi)

-- ==== events

theorem Kernel.Does.runSlot (hparts : Kernel.Parts k.Known a k k1)
    (hi : (k1.procs i).used = true → k.Known i) : k.Does a (k1.runSlot a i) := by
  rcases runSlot_cases (a := a) hi with hrun | ⟨k2, hrun, heq⟩
  · exact .parts (hparts.trans hrun)
  · rw [heq]
    exact .returns (hparts.trans hrun)

theorem Kernel.Does.endRun (hparts : Kernel.Parts k.Known a k k1)
    (hframes : k1.frames = k.frames) (hend : k1.endRun a callRet = some k') :
    k.Does a k' := by
  unfold Kernel.endRun at hend
  split at hend
  swap
  · cases hend
  next i prevCr3 switched frames level levels hentry hstack =>
  obtain rfl := Option.some.inj hend
  have hi : k.Known i := by
    refine .inr ⟨.entry i prevCr3 switched, ?_, rfl⟩
    rw [← hframes, hentry]
    exact List.mem_cons_self
  rw [runEnd_eq]
  exact .returns ((hparts.tail (.pop hentry)).trans (runReturn_parts hi))

theorem waitPid_does (hawaited : k.awaited pid = some i) :
    k.Does a (Kernel.runSlot a i
      { k.markWaiting a pid with
        pendingDispatchActive := true
        frames := .waitPid k.currentProc :: (k.markWaiting a pid).frames }) := by
  refine .runSlot ?_ fun _ =>
    .inl (findSlotByPid_some (awaited_found hawaited)).1
  have hmark : Kernel.Parts k.Known a k (k.markWaiting a pid) := by
    unfold Kernel.markWaiting
    split
    · exact .refl
    · next j hcurrent =>
      have hj : k.Known j := .inl (currentProc_used hcurrent)
      exact .tail (parts_note hj ⟨rfl, rfl, rfl, rfl, fun _ => rfl,
        fun _ => .inl rfl⟩) (.block hj)
  have hactive : Kernel.Parts k.Known a k
      { k.markWaiting a pid with pendingDispatchActive := true } :=
    hmark.tail (.aside ⟨rfl, rfl, rfl, rfl, rfl, rfl, rfl⟩)
  exact hactive.tail (.push fun j hj => .inl (currentProc_used hj))

theorem dispatch_does (hpending : k.nextPending a = some i) :
    Kernel.Does a { k with dispatchCursor := (i.val + 1) % maxProcs }
      (k.dispatchPendingOnce a) := by
  have hused : (k.procs i).used = true := nextPending_used hpending
  have hi : Kernel.Known
      { k with dispatchCursor := (i.val + 1) % maxProcs } i := .inl hused
  rw [dispatchPendingOnce_call hpending]
  refine .runSlot ?_ fun _ => hi
  have hwake : Kernel.Parts
      (Kernel.Known { k with dispatchCursor := (i.val + 1) % maxProcs }) a
      { k with dispatchCursor := (i.val + 1) % maxProcs } (k.wake a i) := by
    unfold Kernel.wake
    simp only []
    split
    · exact .single (.unblock hi)
    · exact .refl
  have haside : (k.wake a i).Aside
      { k.wake a i with pendingDispatchActive := true } :=
    ⟨rfl, rfl, rfl, rfl, rfl, rfl, rfl⟩
  exact (hwake.tail (.aside haside)).tail (.push nofun)

theorem procKill_parts {signal : UInt64} :
    Kernel.Parts k.Known a k (k.procKill a pid signal).2 := by
  rcases procKill_cases k a pid signal with heq | ⟨i, s, -, hfound, -, hsignal⟩
  · rw [heq]
  have hi : k.Known i := .inl (findSlotByPid_some hfound).1
  have hmarked : Kernel.Parts k.Known a k
      (k.modifyProc i (Proc.signalled s)) :=
    parts_note hi ⟨rfl, rfl, rfl, rfl, fun _ => rfl, fun _ => .inl rfl⟩
  refine hmarked.trans ?_
  generalize (k.procKill a pid signal).2 = k2 at hsignal ⊢
  generalize k.modifyProc i (Proc.signalled s) = k1 at hsignal ⊢
  cases hsignal with
  | nothing => exact .refl
  | continues _ => exact .single (.state hi nofun)
  | stops _ => exact .single (.state hi nofun)
  | ends _ _ _ => exact .single (.exited hi)
  | asks => exact .single (.aside modifyLevel_aside)

theorem step_outcome (hstep : k.step a e = some k') : k.Outcome a e k' := by
  cases step_comes hstep with
  | idle => exact .does (.parts .refl)
  | run hcall =>
    cases hcall with
    | exec _ hpath hslot hstdio =>
      exact .exec hpath hslot hstdio (.runSlot .refl .inl)
    | waitPid _ hawaited => exact .does (waitPid_does hawaited)
    | dispatch hpending =>
      have hdoes := dispatch_does hpending
      rw [dispatchPendingOnce_call hpending] at hdoes
      exact .dispatch hpending hdoes
    | resume _ => exact .does (.runSlot .refl .inl)
  | refused hpath hslot hstdio => exact .refused hpath hslot hstdio
  | spawn hpath hslot => exact .spawn hpath hslot
  | requestExit => exact .does (.parts (.single (.aside modifyLevel_aside)))
  | kill => exact .does (.parts procKill_parts)
  | block hcurrent =>
    exact .does (.parts (.single (.block (.inl (currentProc_used hcurrent)))))
  | unblock hcurrent =>
    exact .does (.parts (.single (.unblock (.inl (currentProc_used hcurrent)))))
  | vm hcurrent =>
    exact .does (.parts (parts_note (.inl (currentProc_used hcurrent))
      ⟨rfl, rfl, rfl, rfl, fun _ => rfl, fun _ => .inl rfl⟩))
  | dlOpen => exact .does (.parts (.single (.aside dlOpen_aside)))
  | dlClose => exact .does (.parts (.single (.aside dlClose_aside)))
  | finish hend => exact .does (.endRun .refl rfl hend)
  | suspend hsuspend hend =>
    obtain ⟨i, hcurrent, -, hk1⟩ := suspendCurrent_cases hsuspend
    have hi : k.Known i := .inl (currentProc_used hcurrent)
    have hsaved : Kernel.Parts k.Known a k
        (k.modifyProc i fun p => { p with savedFrameValid := true }) :=
      parts_note hi ⟨rfl, rfl, rfl, rfl, fun _ => rfl, fun _ => .inl rfl⟩
    rcases hk1 with rfl | rfl
    · exact .does (.endRun hsaved rfl hend)
    · exact .does (.endRun (hsaved.tail (.block hi)) setBlock_calm.frames hend)
  | @fault _ _ _ status _ _ hfault hend =>
    obtain ⟨i, hcurrent, -, hk1⟩ := handleException_cases hfault
    have hnoted : ∀ f : Proc → Proc, (k.procs i).Noted (f (k.procs i)) →
        Kernel.Parts k.Known a k ((k.modifyProc i f).requestExit status) :=
      fun f hf => .tail (parts_note (.inl (currentProc_used hcurrent)) hf)
        (.aside modifyLevel_aside)
    rw [hk1] at hend
    refine .does (.endRun (hnoted _ ?_) ?_ hend)
    · exact ⟨rfl, rfl, rfl, rfl, fun _ => rfl, fun _ => .inl rfl⟩
    · exact modifyLevel_aside.frames
  | timer => exact .does (.parts (.single .timer))

end parts

end Clks.Exec
