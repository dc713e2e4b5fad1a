/-
The status of a program that ends, on its way to those who wait for it.

`clks_exec_run_proc_slot` hands on one value for a program that has ended
and for one that is suspended. Which of the two it was is read off that
value and off the frame that the process may still have from an earlier
suspension, so that a program can end with the one status that is taken for
a suspension.
-/
import Clks.Exec.Records
import Clks.Exec.Neutral

namespace Clks.Exec

/-- What `clks_exec_run_proc_slot` gets from a run: the status that an exit
was asked for with, or else what the program has returned. -/
def Level.runRet (level : Level) (callRet : UInt64) : UInt64 :=
  if level.exitRequested then level.exitStatus else callRet

/-- The event ends the innermost run: its program returns, or has asked to
exit and is suspended then. -/
inductive Kernel.Ends (k : Kernel) (i : Fin maxProcs) (level : Level)
    (s : UInt64) : Event → Prop
  | finish {callRet : UInt64} {prevCr3 : Nat} {switched : Bool}
      {frames : List Frame} {levels : List Level} :
      k.frames = .entry i prevCr3 switched :: frames →
      k.pidStack = level :: levels → level.runRet callRet = s →
      Ends k i level s (.finish callRet)
  | suspend {prevCr3 : Nat} {switched : Bool} {frames : List Frame}
      {levels : List Level} :
      k.frames = .entry i prevCr3 switched :: frames →
      k.pidStack = level :: levels → level.exitRequested = true →
      level.exitStatus = s → Ends k i level s .suspend

/-- The process still has a frame that it could go on from, when the result
of its run is looked at. -/
def Kernel.FrameKept (k : Kernel) (i : Fin maxProcs) : Event → Prop
  | .finish callRet =>
    (k.procs i).savedFrameValid = true ∧
      (callRet = internalSuspendStatus ∨ (k.procs i).runStack = none)
  | .suspend => k.currentProc = some i ∨ (k.procs i).savedFrameValid = true
  | _ => False

/-- What `clks_exec_wait_pid` answers behind the run that it makes, or where
it makes none, and the status that it writes. -/
def Kernel.waitStatus (i : Fin maxProcs) (k : Kernel) : UInt64 × Option UInt64 :=
  let p := k.procs i
  if p.state = .pending || p.state = .running || p.state = .stopped then
    (0, none)
  else if p.state ≠ .exited then (failed, none)
  else (1, some p.exitStatus)

/-- What `clks_exec_wait_sync_proc_slot` gives its caller behind a run with
this status, unless it goes on waiting. -/
def Kernel.syncStatus (i : Fin maxProcs) (status : UInt64) (k : Kernel) :
    Option UInt64 :=
  if k.hasInternalSuspend i status then none else some status

/-- The event gives the record to a new process, or the process in it is run
again by the call that has created it. -/
inductive Kernel.Reuses (k : Kernel) (i : Fin maxProcs) : Event → Prop
  | exec {path : List UInt8} {io : Stdio} :
      k.allocSlot = some i → Reuses k i (.exec path io)
  | spawn {path : List UInt8} :
      k.allocSlot = some i → Reuses k i (.spawn path)
  | resume {frames : List Frame} :
      k.frames = .sync i :: frames → Reuses k i .resume

/-- The status of a program that was run in state `k` and has ended in `k'`
has been recorded, and whoever waits for the process gets it: the call that
is waiting already, and one that asks at any time as long as the record is
not used again. -/
structure Kernel.Delivered (k k' : Kernel) (i : Fin maxProcs) (s : UInt64) :
    Prop where
  state : (k'.procs i).state = .exited
  exitStatus : (k'.procs i).exitStatus = s
  caller : ∀ frames, k.frames.tail = .sync i :: frames →
    k'.frames = frames ∧ k'.syncStatus i s = some s
  waiters : ∀ k'', RunIf (fun _ e k => ¬ k.Reuses i e) k' k'' →
    k''.waitStatus i = (1, some s) ∧
      ∀ pid, k''.findSlotByPid pid = some i → k''.awaited pid = none

section status

variable {k k' : Kernel} {i : Fin maxProcs} {a : Answers} {e : Event}
  {callRet s : UInt64} {prevCr3 : Nat} {switched : Bool} {level : Level}

-- ==== end of a run

theorem setState_state (got : Option Nat) (i : Fin maxProcs)
    (state : ProcState) (threadState : ThreadState) (reason : BlockReason)
    (k : Kernel) :
    ((k.setState got i state threadState reason).procs i).state = state := by
  obtain ⟨id, wakeTick, waitTargetPid, hproc⟩ :=
    setState_proc got i state threadState reason k
  rw [hproc]

theorem markExited_state (k : Kernel) (status : UInt64) :
    ((k.markExited a i status).procs i).state = .exited ∧
      ((k.markExited a i status).procs i).exitStatus = status := by
  unfold Kernel.markExited
  rw [modifyProc_self]
  exact ⟨setState_state .., rfl⟩

theorem dynlibReleaseOwner_frames (pid : UInt64) (k : Kernel) :
    (k.dynlibReleaseOwner pid).frames = k.frames := by
  unfold Kernel.dynlibReleaseOwner
  split <;> rfl

theorem runReturn_state (k : Kernel) :
    let p := (k.runReturn a callRet i prevCr3 switched level).2.procs i
    (level.runRet callRet = internalSuspendStatus ∧
        (k.procs i).savedFrameValid = true ∧
        (callRet = internalSuspendStatus ∨ (k.procs i).runStack = none) →
      p.state = .pending ∧ p.blockedReason = (k.procs i).blockedReason) ∧
    (¬ (level.runRet callRet = internalSuspendStatus ∧
        (k.procs i).savedFrameValid = true ∧
        (callRet = internalSuspendStatus ∨ (k.procs i).runStack = none)) →
      if level.stopRequested then p.state = .stopped
      else p.state = .exited ∧ p.exitStatus = level.runRet callRet) := by
  unfold Kernel.runReturn Level.runRet
  simp only []
  generalize hk1 : (if callRet ≠ internalSuspendStatus &&
    (k.procs i).runStack.isSome then _ else k : Kernel) = k1
  have hsaved : (k1.procs i).savedFrameValid = true ↔
      (k.procs i).savedFrameValid = true ∧
        (callRet = internalSuspendStatus ∨ (k.procs i).runStack = none) := by
    subst hk1
    split
    · next hfreed =>
      simp only [ne_eq, decide_not, Bool.and_eq_true, Bool.not_eq_true',
        decide_eq_false_iff_not, Option.isSome_iff_ne_none] at hfreed
      rw [modifyProc_self]
      simp [hfreed.1, hfreed.2]
    · next hkept =>
      simp only [ne_eq, decide_not, Bool.and_eq_true, Bool.not_eq_true',
        decide_eq_false_iff_not, Option.isSome_iff_ne_none, not_and,
        not_not] at hkept
      constructor
      · intro h
        exact ⟨h, or_iff_not_imp_left.mpr hkept⟩
      · exact fun h => h.1
  have hreason : (k1.procs i).blockedReason = (k.procs i).blockedReason := by
    subst hk1
    split
    · rw [modifyProc_self]
    · rfl
  generalize (if level.exitRequested then level.exitStatus else callRet) = s
  rw [← hsaved, ← hreason]
  clear hk1 hsaved hreason
  by_cases hsuspend : s = internalSuspendStatus ∧
    (k1.procs i).savedFrameValid = true
  · rw [if_pos (by simpa using hsuspend)]
    refine ⟨fun _ => ?_, fun h => absurd hsuspend h⟩
    simp only []
    rw [leave_procs, modifyProc_self]
    obtain ⟨id, wakeTick, waitTargetPid, hproc⟩ := setState_proc (a.grown 2) i
      .pending (if (k1.procs i).blockedReason = .none then .ready
        else (k1.procs i).threadState) (k1.procs i).blockedReason
      { k1 with runningDepth := k1.runningDepth - 1 }
    rw [hproc]
    exact ⟨rfl, rfl⟩
  · rw [if_neg (by simpa using hsuspend)]
    refine ⟨fun h => absurd h hsuspend, fun _ => ?_⟩
    simp only []
    rw [leave_procs, dynlibReleaseOwner_aside.procs]
    by_cases hstop : level.stopRequested = true
    · rw [if_pos hstop, if_pos hstop, modifyProc_self]
      exact setState_state ..
    · rw [if_neg hstop, if_neg hstop]
      exact markExited_state ..

theorem runReturn_status (k : Kernel) :
    (k.runReturn a callRet i prevCr3 switched level).1
      = level.runRet callRet := by
  unfold Kernel.runReturn Level.runRet
  simp only []
  generalize (if callRet ≠ internalSuspendStatus &&
    (k.procs i).runStack.isSome then _ else k : Kernel) = k1
  generalize (if level.exitRequested then level.exitStatus else callRet) = s
  split <;> rfl

theorem runReturn_frames (k : Kernel) :
    (k.runReturn a callRet i prevCr3 switched level).2.frames = k.frames := by
  unfold Kernel.runReturn
  simp only []
  generalize hk1 : (if callRet ≠ internalSuspendStatus &&
    (k.procs i).runStack.isSome then _ else k : Kernel) = k1
  have hframes1 : k1.frames = k.frames := by
    subst hk1
    split <;> rfl
  generalize (if level.exitRequested then level.exitStatus else callRet) = s
  split
  · exact leave_left.2.2.frames.trans (setState_calm.frames.trans hframes1)
  · refine leave_left.2.2.frames.trans ?_
    show (Kernel.dynlibReleaseOwner _ _).frames = k.frames
    rw [dynlibReleaseOwner_frames]
    split
    · exact setState_calm.frames.trans (releaseAddressSpace_calm.frames.trans
        (releaseRuntime_calm.frames.trans hframes1))
    · exact markExited_calm.frames.trans hframes1

theorem endRun_eq {frames : List Frame} {levels : List Level}
    (hframes : k.frames = .entry i prevCr3 switched :: frames)
    (hstack : k.pidStack = level :: levels)
    (hend : k.endRun a callRet = some k') :
    k' = { k with frames }.runEnd a callRet i prevCr3 switched level := by
  unfold Kernel.endRun at hend
  split at hend
  swap
  · cases hend
  next hf hs =>
  rw [hframes] at hf
  rw [hstack] at hs
  cases hf
  cases hs
  exact (Option.some.inj hend).symm

theorem suspendCurrent_saved (hsuspend : k.suspendCurrent a = some k') :
    (k'.procs i).savedFrameValid = true ↔
      k.currentProc = some i ∨ (k.procs i).savedFrameValid = true := by
  unfold Kernel.suspendCurrent at hsuspend
  split at hsuspend
  · cases hsuspend
  next j hcurrent =>
  simp only [] at hsuspend
  split at hsuspend
  · cases hsuspend
  obtain rfl := Option.some.inj hsuspend
  rw [hcurrent]
  generalize hk1 : k.modifyProc j _ = k1
  have hsaved : (k1.procs i).savedFrameValid = true ↔
      some j = some i ∨ (k.procs i).savedFrameValid = true := by
    subst hk1
    by_cases hij : i = j
    · subst hij
      rw [modifyProc_self]
      simp
    · rw [modifyProc_other _ _ hij]
      simp [Ne.symm hij]
  split
  · refine Iff.trans ?_ hsaved
    rw [show ((k1.setBlock (a.grown 5) j .yielded 0 0).procs i).savedFrameValid
      = (k1.procs i).savedFrameValid from
      congrArg Body.savedFrameValid (congrFun (bodies_setBlock ..) i)]
  · exact hsaved

theorem Kernel.Ends.run (hends : k.Ends i level s e)
    (hstep : k.step a e = some k') :
    ∃ (k1 : Kernel) (callRet : UInt64) (prevCr3 : Nat) (switched : Bool),
      k.frames.tail = k1.frames ∧ level.runRet callRet = s ∧
      ((k1.procs i).savedFrameValid = true ∧
        (callRet = internalSuspendStatus ∨ (k1.procs i).runStack = none) ↔
        k.FrameKept i e) ∧
      k' = k1.runEnd a callRet i prevCr3 switched level := by
  cases hends with
  | @finish callRet prevCr3 switched frames levels hframes hstack hret =>
    refine ⟨{ k with frames }, callRet, prevCr3, switched, ?_, hret, .rfl,
      endRun_eq hframes hstack hstep⟩
    rw [hframes]
    rfl
  | @suspend prevCr3 switched frames levels hframes hstack hexit hret =>
    obtain ⟨k1, hsuspend, hend⟩ := Option.bind_eq_some_iff.mp hstep
    obtain ⟨hcalm, -⟩ := suspendCurrent_calm hsuspend
    refine ⟨{ k1 with frames }, internalSuspendStatus, prevCr3, switched, ?_, ?_,
      ?_, endRun_eq (hcalm.frames.trans hframes) (hcalm.pidStack.trans hstack)
        hend⟩
    · rw [hframes]
      rfl
    · unfold Level.runRet
      rw [if_pos hexit, hret]
    · simp only [true_or, and_true]
      exact suspendCurrent_saved hsuspend

-- ==== the waiters

theorem state_of_body (h : k'.bodies i = k.bodies i) :
    (k'.procs i).state = (k.procs i).state ∧
      (k'.procs i).exitStatus = (k.procs i).exitStatus :=
  ⟨congrArg (fun b => b.card.state) h, congrArg Body.exitStatus h⟩

end status

end Clks.Exec
