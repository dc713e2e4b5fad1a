/-
Processes that wait to be dispatched.

A process is suspended by a call that yields or sleeps, and can go on at
once. The dispatcher goes by the reason for which the process is blocked,
and a suspension keeps a reason that an earlier call has left: so that call
decides whether the process is ever dispatched. Where none is left, each
process that waits is ready, and the dispatcher takes them in turn.
-/
import Clks.Exec.ExitStatus
import Clks.Exec.Cursor
import Clks.Lib.RoundRobin

namespace Clks.Exec

/-- There is nothing that a process waits for. -/
def Proc.Clear (p : Proc) : Prop :=
  p.blockedReason = .none ∨ p.blockedReason = .yielded

/-- If the process waits to be dispatched, it waits for nothing else. -/
def Proc.Ready (p : Proc) : Prop := p.state = .pending → p.Clear

/-- Every process that waits to be dispatched is ready. -/
def Kernel.AllReady (k : Kernel) : Prop := ∀ i, (k.procs i).Ready

/-- The run that the event ends is taken for suspended. -/
inductive Kernel.Suspends (k : Kernel) (i : Fin maxProcs) : Event → Prop
  | finish {callRet : UInt64} {level : Level} {levels : List Level} :
      k.runners.head? = some i → k.pidStack = level :: levels →
      level.runRet callRet = internalSuspendStatus →
      k.FrameKept i (.finish callRet) → Suspends k i (.finish callRet)
  | suspend {level : Level} {levels : List Level} :
      k.runners.head? = some i → k.pidStack = level :: levels →
      level.runRet internalSuspendStatus = internalSuspendStatus →
      k.FrameKept i .suspend → Suspends k i .suspend

/-- When a process is suspended, no call has left a reason to block it; and
the process that has the processor does not wait for it. -/
structure Prompt (_a : Answers) (e : Event) (k : Kernel) : Prop where
  clear : ∀ i, k.Suspends i e → (k.procs i).Clear
  current : ∀ i, k.currentProc = some i → (k.procs i).state ≠ .pending

/-- The process stays where it is, while the dispatcher chooses others, this
many times. -/
inductive Kernel.PassedOver (i : Fin maxProcs) (k : Kernel) :
    Nat → Kernel → Prop
  | start : PassedOver i k 0 k
  | pass {n : Nat} {k₁ k₂ : Kernel} {a : Answers} {j : Fin maxProcs} :
      PassedOver i k n k₁ → Prompt a .dispatch k₁ →
      k₁.nextPending a = some j → j ≠ i → k₁.step a .dispatch = some k₂ →
      k₂.cards i = k₁.cards i → PassedOver i k (n + 1) k₂
  | other {n : Nat} {k₁ k₂ : Kernel} {a : Answers} {e : Event} :
      PassedOver i k n k₁ → Prompt a e k₁ →
      (e = .dispatch → k₁.nextPending a = none) → k₁.step a e = some k₂ →
      k₂.cards i = k₁.cards i → PassedOver i k n k₂

section stranded

variable {k k' k₀ : Kernel} {i j : Fin maxProcs} {a : Answers} {e : Event}
  {got : Option Nat} {p p' : Proc} {callRet status pid : UInt64}
  {prevCr3 : Nat} {switched ok : Bool} {level : Level} {f : Proc → Proc}

-- ==== records

theorem ready_of_state (h : p.state ≠ .pending) : p.Ready :=
  fun hstate => absurd hstate h

theorem ready_of_none (h : p.blockedReason = .none) : p.Ready :=
  fun _ => .inl h

theorem Proc.Ready.same (h : p.Ready) (hstate : p'.state = p.state)
    (hreason : p'.blockedReason = p.blockedReason) : p'.Ready := by
  unfold Proc.Ready Proc.Clear
  rw [hstate, hreason]
  exact h

theorem Kernel.AllReady.update (h : k.AllReady)
    (hothers : ∀ j, j ≠ i → k'.procs j = k.procs j)
    (hi : (k'.procs i).Ready) : k'.AllReady := by
  intro j
  by_cases hj : j = i
  · rw [hj]
    exact hi
  · rw [hothers j hj]
    exact h j

theorem Kernel.AllReady.touch (h : k.AllReady) (htouches : k.Touches i k')
    (hi : (k'.procs i).Ready) : k'.AllReady :=
  h.update htouches.others hi

theorem Kernel.AllReady.procs (h : k.AllReady) (hprocs : k'.procs = k.procs) :
    k'.AllReady := by
  intro j
  rw [hprocs]
  exact h j

theorem Kernel.AllReady.modify (h : k.AllReady)
    (hstate : (f (k.procs i)).state = (k.procs i).state)
    (hreason : (f (k.procs i)).blockedReason = (k.procs i).blockedReason) :
    (k.modifyProc i f).AllReady := by
  refine h.touch modifyProc_touches ?_
  rw [modifyProc_self]
  exact (h i).same hstate hreason

-- ==== states

theorem syncSchedulerState_proc :
    ∃ id, (k.syncSchedulerState got i).procs i
      = { k.procs i with schedulerTaskId := id } := by
  obtain ⟨sched, hsync⟩ := syncSchedulerState_eq got k i
  obtain ⟨id, hproc⟩ := bindSchedulerTask_proc got k i
  rw [hsync]
  exact ⟨id, hproc⟩

theorem Kernel.AllReady.sync (h : k.AllReady) :
    (k.syncSchedulerState got i).AllReady := by
  refine h.touch syncSchedulerState_touches ?_
  obtain ⟨id, hproc⟩ := @syncSchedulerState_proc k i got
  rw [hproc]
  exact (h i).same rfl rfl

theorem Kernel.AllReady.setBlock {reason : BlockReason}
    {wakeTick waitTargetPid : UInt64} (h : k.AllReady)
    (hstate : (k.procs i).state ≠ .pending) :
    (k.setBlock got i reason wakeTick waitTargetPid).AllReady := by
  unfold Kernel.setBlock
  refine Kernel.AllReady.sync (h.touch modifyProc_touches ?_)
  rw [modifyProc_self]
  exact ready_of_state hstate

theorem Kernel.AllReady.clearBlock (h : k.AllReady) :
    (k.clearBlock got i).AllReady := by
  unfold Kernel.clearBlock
  refine Kernel.AllReady.sync (h.touch modifyProc_touches ?_)
  rw [modifyProc_self]
  exact ready_of_none rfl

theorem setState_ready {state : ProcState} {threadState : ThreadState} :
    ((k.setState got i state threadState .none).procs i).Ready := by
  obtain ⟨id, wakeTick, waitTargetPid, hproc⟩ :=
    setState_proc got i state threadState .none k
  rw [hproc]
  exact ready_of_none rfl

theorem Kernel.AllReady.setState {state : ProcState}
    {threadState : ThreadState} (h : k.AllReady) :
    (k.setState got i state threadState .none).AllReady :=
  h.touch setState_touches setState_ready

theorem Kernel.AllReady.prepare {path : List UInt8} {state : ProcState}
    (h : k.AllReady) : (k.prepareProcRecord a i pid path state).AllReady := by
  refine h.touch prepareProcRecord_touches ?_
  unfold Kernel.prepareProcRecord
  simp only []
  generalize hk1 : Kernel.setState (a.grown 0) i state _ .none _ = k1
  have hready : (k1.procs i).Ready := by
    rw [← hk1]
    exact setState_ready
  obtain ⟨id, hproc⟩ := bindSchedulerTask_proc (a.grown 1) k1 i
  rw [modifyProc_self, hproc]
  exact hready.same rfl rfl

theorem applyStdioOverrides_ready {parent : Option (Fin maxProcs)} {io : Stdio}
    (h : k.AllReady) : (k.applyStdioOverrides i parent io).2.AllReady := by
  apply applyStdioOverrides_ind (motive := Kernel.AllReady)
  · intro k1 fd childFd read write hk1
    obtain ⟨ptys, fds, heq⟩ :=
      @fdCopyFromParent_eq k1 i parent fd childFd read write
    rw [heq]
    exact Kernel.AllReady.modify (k := { k1 with ptys }) hk1 rfl rfl
  · exact h

-- ==== runs

theorem markExited_ready : ((k.markExited a i status).procs i).Ready :=
  ready_of_state (by rw [(markExited_state k status).1]; nofun)

theorem Kernel.AllReady.runBegin (h : k.AllReady) (hframed : k.Framed) :
    (k.runBegin a i).2.AllReady := by
  have hstate : ∀ {k' : Kernel} {state : ProcState},
      k'.cards = Function.update k.cards i { k.cards i with state } →
      state ≠ .pending → (k'.procs i).Ready := by
    intro k' state hcards hne
    apply ready_of_state
    show (k'.cards i).state ≠ .pending
    rw [hcards, Function.update_self]
    exact hne
  have hbegan := @runBegin_began k i a (hframed.pids i)
  refine h.touch runBegin_touches ?_
  generalize k.runBegin a i = r at hbegan ⊢
  cases hbegan with
  | unused => exact h i
  | refused _ _ _ hcards => exact hstate hcards nofun
  | failed _ hcards _ _ _ _ => exact hstate hcards nofun
  | started _ hcards _ _ _ _ => exact hstate hcards nofun

theorem Kernel.AllReady.returned (h : k.AllReady) :
    (k.returned a ok status).AllReady := by
  unfold Kernel.returned
  split
  · exact h
  · simp only []
    split
    · exact h
    · next frames _ _ j =>
      refine Kernel.AllReady.clearBlock ?_
      refine Kernel.AllReady.modify (k :=
        { k with frames, pendingDispatchActive := false })
        (f := fun p => { p with parentWaiting := false }) h ?_ ?_
      · rfl
      · rfl
  · split <;> exact h
  · exact h

theorem Kernel.AllReady.runSlot (h : k.AllReady) (hframed : k.Framed) :
    (k.runSlot a i).AllReady := by
  have hbegin := h.runBegin (a := a) (i := i) hframed
  unfold Kernel.runSlot
  generalize k.runBegin a i = r at hbegin ⊢
  obtain ⟨_ | _, k1⟩ := r
  · exact Kernel.AllReady.returned hbegin
  · exact hbegin

theorem runReturn_ready
    (hclear : level.runRet callRet = internalSuspendStatus ∧
      (k.procs i).savedFrameValid = true ∧
      (callRet = internalSuspendStatus ∨ (k.procs i).runStack = none) →
      (k.procs i).Clear) :
    ((k.runReturn a callRet i prevCr3 switched level).2.procs i).Ready := by
  obtain ⟨hpaused, hended⟩ :=
    @runReturn_state i a callRet prevCr3 switched level k
  by_cases hsuspended : level.runRet callRet = internalSuspendStatus ∧
    (k.procs i).savedFrameValid = true ∧
    (callRet = internalSuspendStatus ∨ (k.procs i).runStack = none)
  · intro _
    unfold Proc.Clear
    rw [(hpaused hsuspended).2]
    exact hclear hsuspended
  · apply ready_of_state
    have hstate := hended hsuspended
    split at hstate
    · rw [hstate]
      nofun
    · rw [hstate.1]
      nofun

theorem Kernel.AllReady.endRun (h : k.AllReady)
    (hclear : ∀ i level levels, k.runners.head? = some i →
      k.pidStack = level :: levels →
      level.runRet callRet = internalSuspendStatus ∧
        (k.procs i).savedFrameValid = true ∧
        (callRet = internalSuspendStatus ∨ (k.procs i).runStack = none) →
      (k.procs i).Clear)
    (hend : k.endRun a callRet = some k') : k'.AllReady := by
  unfold Kernel.endRun at hend
  split at hend
  swap
  · cases hend
  next i prevCr3 switched frames level levels hframes hstack =>
  obtain rfl := Option.some.inj hend
  have hhead : k.runners.head? = some i := by
    unfold Kernel.runners
    rw [hframes]
    rfl
  rw [runEnd_eq]
  apply Kernel.AllReady.returned
  refine h.update (i := i) (fun j hj => (runReturn_others hj).trans rfl) ?_
  exact runReturn_ready (k := { k with frames })
    (hclear i level levels hhead hstack)

-- ==== events

theorem Kernel.AllReady.suspendCurrent (h : k.AllReady)
    (hsuspend : k.suspendCurrent a = some k') : k'.AllReady := by
  obtain ⟨i, -, hstate, hk'⟩ := suspendCurrent_cases hsuspend
  have hsaved : (k.modifyProc i fun p =>
      { p with savedFrameValid := true }).AllReady := h.modify rfl rfl
  rcases hk' with rfl | rfl
  · exact hsaved
  · refine hsaved.setBlock ?_
    rw [modifyProc_self]
    simp only []
    rw [hstate]
    nofun

theorem suspendCurrent_clear (h : (k.procs i).Clear)
    (hsuspend : k.suspendCurrent a = some k') : (k'.procs i).Clear := by
  obtain ⟨j, -, -, hk'⟩ := suspendCurrent_cases hsuspend
  have hsaved : ((k.modifyProc j fun p =>
      { p with savedFrameValid := true }).procs i).Clear := by
    by_cases hij : i = j
    · subst hij
      rw [modifyProc_self]
      exact h
    · rw [modifyProc_other _ _ hij]
      exact h
  rcases hk' with rfl | rfl
  · exact hsaved
  by_cases hij : i = j
  · subst hij
    unfold Kernel.setBlock
    generalize hk1 : Kernel.modifyProc i _ (Kernel.modifyProc i _ k) = k1
    obtain ⟨id, hproc⟩ := @syncSchedulerState_proc k1 i (a.grown 5)
    rw [hproc, ← hk1, modifyProc_self]
    exact .inr rfl
  · rw [setBlock_touches.others i hij]
    exact hsaved

theorem faultStatus_ne (signal vector errorCode : UInt64) :
    faultStatus signal vector errorCode ≠ internalSuspendStatus := by
  unfold faultStatus signalStatus
  intro h
  have htop := congrArg (fun s : UInt64 => s.toBitVec.getLsbD 63) h
  simp at htop

theorem Kernel.AllReady.fault {vector errorCode rip : UInt64} (h : k.AllReady)
    (hfault : k.handleException vector errorCode rip = some (status, k')) :
    k'.AllReady ∧ ∀ level levels, k'.pidStack = level :: levels →
      level.runRet status ≠ internalSuspendStatus := by
  obtain ⟨i, -, hstatus, rfl⟩ := handleException_cases hfault
  have hready : (k.modifyProc i fun p =>
      { p with
        lastSignal := signalFromVector vector, lastFaultVector := vector
        lastFaultError := errorCode, lastFaultRip := rip }).AllReady :=
    h.modify rfl rfl
  unfold Kernel.requestExit Kernel.modifyLevel
  split
  · next hstack =>
    refine ⟨hready, ?_⟩
    intro level levels hlevels
    rw [hstack] at hlevels
    cases hlevels
  · refine ⟨hready, ?_⟩
    intro level levels hlevels
    obtain ⟨rfl, -⟩ := List.cons.inj hlevels
    unfold Level.runRet
    rw [if_pos rfl, hstatus]
    exact faultStatus_ne _ _ _

theorem Kernel.AllReady.procKill {signal : UInt64} (h : k.AllReady) :
    (k.procKill a pid signal).2.AllReady := by
  rcases procKill_cases k a pid signal with heq | ⟨i, s, -, -, -, hsignal⟩
  · rw [heq]
    exact h
  have hmarked : (k.modifyProc i (Proc.signalled s)).AllReady := h.modify rfl rfl
  generalize (k.procKill a pid signal).2 = k2 at hsignal ⊢
  generalize k.modifyProc i (Proc.signalled s) = k1 at hmarked hsignal
  cases hsignal with
  | nothing => exact hmarked
  | continues _ => exact hmarked.setState
  | stops _ => exact hmarked.setState
  | ends _ _ _ => exact hmarked.touch markExited_touches markExited_ready
  | asks => exact hmarked.procs modifyLevel_aside.procs

theorem Kernel.AllReady.stdio {path : List UInt8} {io : Stdio} {ready : Bool}
    {k1 : Kernel} (h : k.AllReady)
    (hstdio : (k.allocPid.2.prepareProcRecord a i k.allocPid.1 path
      .running).applyStdioOverrides i k.currentProc io = (ready, k1)) :
    k1.AllReady := by
  have hready : k.allocPid.2.AllReady := by
    obtain ⟨next, halloc⟩ := allocPid_eq k
    exact h.procs (by rw [halloc])
  have hcopied : ((k.allocPid.2.prepareProcRecord a i k.allocPid.1 path
      .running).applyStdioOverrides i k.currentProc io).2.AllReady :=
    applyStdioOverrides_ready hready.prepare
  rwa [hstdio] at hcopied

theorem Kernel.AllReady.call {kc : Kernel} (h : k.AllReady)
    (hcurrent : ∀ i, k.currentProc = some i → (k.procs i).state ≠ .pending)
    (hcall : k.Calls a e i kc) : kc.AllReady := by
  cases hcall with
  | @exec path io i k1 _ _ _ hstdio =>
    show k1.AllReady
    exact h.stdio hstdio
  | waitPid _ _ =>
    show (k.markWaiting a _).AllReady
    unfold Kernel.markWaiting
    split
    · exact h
    next j hj =>
    refine Kernel.AllReady.setBlock (h.modify rfl rfl) ?_
    rw [modifyProc_self]
    exact hcurrent j hj
  | dispatch _ =>
    show (k.wake a i).AllReady
    unfold Kernel.wake
    simp only []
    split
    · exact Kernel.AllReady.clearBlock h
    · exact h
  | resume _ => exact h

theorem Kernel.AllReady.step (h : k.AllReady) (hbalanced : k.Balanced)
    (hprompt : Prompt a e k) (hstep : k.step a e = some k') : k'.AllReady := by
  cases step_comes hstep with
  | idle => exact h
  | run hcall =>
    exact (h.call hprompt.current hcall).runSlot
      (hcall.balanced hbalanced).1.framed
  | refused _ _ hstdio =>
    refine (h.stdio hstdio).touch
      (fdReleaseAll_touches.trans modifyProc_touches) ?_
    rw [modifyProc_self]
    exact ready_of_none rfl
  | spawn _ _ =>
    apply Kernel.AllReady.prepare
    obtain ⟨next, halloc⟩ := allocPid_eq k
    exact h.procs (by rw [halloc])
  | requestExit => exact h.procs modifyLevel_aside.procs
  | kill => exact h.procKill
  | @block _ _ _ i hi => exact h.setBlock (hprompt.current i hi)
  | unblock _ => exact h.clearBlock
  | vm _ => exact h.modify rfl rfl
  | dlOpen => exact h.procs dlOpen_aside.procs
  | dlClose => exact h.procs dlClose_aside.procs
  | finish hend =>
    refine h.endRun ?_ hend
    intro i level levels hhead hstack ⟨hret, hkept⟩
    exact hprompt.clear i (.finish hhead hstack hret hkept)
  | suspend hsuspend hend =>
    obtain ⟨hcalm, -⟩ := suspendCurrent_calm hsuspend
    refine (h.suspendCurrent hsuspend).endRun ?_ hend
    intro i level levels hhead hstack ⟨hret, hsaved, _⟩
    rw [Kernel.runners, hcalm.frames] at hhead
    rw [hcalm.pidStack] at hstack
    exact suspendCurrent_clear (hprompt.clear i (.suspend hhead hstack hret
      ((suspendCurrent_saved hsuspend).mp hsaved))) hsuspend
  | fault hfault hend =>
    obtain ⟨hready, hstatus⟩ := h.fault hfault
    refine hready.endRun ?_ hend
    rintro i level levels - hstack ⟨hret, -⟩
    exact absurd hret (hstatus level levels hstack)
  | timer => exact h.procs rfl

theorem allReady_of_run (h0 : k₀.Started) (hrun : RunIf Prompt k₀ k) :
    k.Balanced ∧ k.AllReady := by
  induction hrun with
  | refl =>
    refine ⟨balanced_of_started h0, fun i => ?_⟩
    rw [h0.procs i]
    exact ready_of_none rfl
  | tail _ hlast ih =>
    obtain ⟨hbalanced, hready⟩ := ih
    obtain ⟨a, e, hprompt, hstep⟩ := hlast
    exact ⟨hbalanced.step hstep, hready.step hbalanced hprompt hstep⟩

-- ==== the dispatcher

theorem Kernel.AllReady.dispatchable (h : k.AllReady)
    (hused : (k.procs i).used = true) (hstate : (k.procs i).state = .pending) :
    k.dispatchable a i = true := by
  unfold Kernel.dispatchable
  rcases h i hstate with hreason | hreason <;> simp [hused, hstate, hreason]

theorem nextPending_eq (hactive : k.pendingDispatchActive = false) :
    k.nextPending a
      = RoundRobin.scan k.dispatchCursor (k.dispatchable a) := by
  unfold Kernel.nextPending
  rw [if_neg (by simp [hactive])]
  rfl

theorem nextPending_scan (hpending : k.nextPending a = some j) :
    RoundRobin.scan k.dispatchCursor (k.dispatchable a) = some j := by
  rw [← nextPending_eq, hpending]
  unfold Kernel.nextPending at hpending
  split at hpending
  · cases hpending
  · next hactive => simpa using hactive

theorem lag_mod (cursor : Nat) :
    RoundRobin.lag (cursor % maxProcs) i = RoundRobin.lag cursor i := by
  unfold RoundRobin.lag
  congr 2
  apply Fin.ext
  exact Nat.mod_mod ..

theorem Kernel.PassedOver.lag {n : Nat} (hbalanced : k.Balanced)
    (h : k.AllReady) (hused : (k.procs i).used = true)
    (hstate : (k.procs i).state = .pending) (hpassed : k.PassedOver i n k') :
    (k'.Balanced ∧ k'.AllReady ∧ k'.cards i = k.cards i) ∧
      n + RoundRobin.lag k'.dispatchCursor i
        ≤ RoundRobin.lag k.dispatchCursor i := by
  induction hpassed with
  | start => exact ⟨⟨hbalanced, h, rfl⟩, by omega⟩
  | @pass n k1 k2 a j _ hprompt hpending hj hstep hcards ih =>
    obtain ⟨⟨hbalanced1, hready1, hcards1⟩, hlag⟩ := ih
    refine ⟨⟨hbalanced1.step hstep, hready1.step hbalanced1 hprompt hstep,
      hcards.trans hcards1⟩, ?_⟩
    have hused1 := (congrArg Card.used hcards1).trans hused
    have hstate1 := (congrArg Card.state hcards1).trans hstate
    have hnearer := RoundRobin.lag_decreases
      (hready1.dispatchable (a := a) hused1 hstate1)
      (nextPending_scan hpending) hj
    obtain rfl := Option.some.inj hstep
    rw [cursor_dispatch hpending, lag_mod]
    omega
  | other _ hprompt hpass hstep hcards ih =>
    obtain ⟨⟨hbalanced1, hready1, hcards1⟩, hlag⟩ := ih
    refine ⟨⟨hbalanced1.step hstep, hready1.step hbalanced1 hprompt hstep,
      hcards.trans hcards1⟩, ?_⟩
    rw [cursor_step hstep hpass]
    exact hlag

/-- In a run in which no suspension finds a reason that an earlier call has
left, no process that waits is left behind: it can be dispatched at any time,
a pass that begins chooses some process, and it chooses others fewer times
than there are slots before it chooses this one. -/
theorem dispatched_of_run (h₀ : k₀.Started) (hrun : RunIf Prompt k₀ k)
    (hused : (k.procs i).used = true) (hstate : (k.procs i).state = .pending) :
    (∀ a, k.dispatchable a i = true) ∧
      (∀ a, k.pendingDispatchActive = false →
        ∃ j, k.nextPending a = some j) ∧
      ∀ n k', k.PassedOver i n k' → n < maxProcs := by
  obtain ⟨hbalanced, hready⟩ := allReady_of_run h₀ hrun
  have heligible := fun a => hready.dispatchable (a := a) hused hstate
  refine ⟨heligible, fun a hactive => ?_, fun n k' hpassed => ?_⟩
  · rw [nextPending_eq hactive]
    exact RoundRobin.scan_isSome (heligible a)
  · have hlag := (hpassed.lag hbalanced hready hused hstate).2
    have hlt := RoundRobin.lag_lt k.dispatchCursor i
    omega

end stranded

/-- A process that has yielded without a reason left. -/
theorem dispatched_of_yield :
    ∃ k : Kernel, RunIf Prompt smallKernel k ∧
      (k.procs 0).savedFrameValid = true ∧ ∀ a, k.dispatchable a 0 = true := by
  have hruns : ((smallKernel.runs ample
      (fun _ k =>
        k.currentProc.all (fun i => (k.procs i).state ≠ .pending) &&
          k.runners.head?.all fun i => (k.procs i).blockedReason = .none)
      [.spawn (txt "/p"), .dispatch, .suspend]).any fun k =>
        (k.procs 0).savedFrameValid && (k.procs 0).used &&
          (k.procs 0).state = .pending) = true := by
    decide +kernel
  obtain ⟨k, hrun, hk⟩ := (Option.any_eq_true ..).mp hruns
  simp only [Bool.and_eq_true, decide_eq_true_eq] at hk
  obtain ⟨⟨hsaved, hused⟩, hstate⟩ := hk
  have hrun : RunIf Prompt smallKernel k := by
    refine runs_runIf (fun e k hcheck => ?_) hrun
    simp only [Bool.and_eq_true, Option.all_eq_true, decide_eq_true_eq] at hcheck
    refine ⟨fun i hsuspends => .inl (hcheck.2 i ?_), hcheck.1⟩
    cases hsuspends with
    | finish hhead => exact hhead
    | suspend hhead => exact hhead
  exact ⟨k, hrun, hsaved,
    (dispatched_of_run smallKernel_started hrun hused hstate).1⟩

/-- A process has read from a terminal at which nothing had been typed, and
then yields: it is not dispatched until something is typed. -/
theorem read_then_yield_stranded :
    ∃ k : Kernel, RunIf (fun _ _ _ => True) smallKernel k ∧
      (k.procs 0).state = .pending ∧ (k.procs 0).savedFrameValid = true ∧
      k.pendingDispatchActive = false ∧
      ∀ a, (∀ tty, a.ttyInput tty = false) → k.nextPending a = none := by
  have hruns : ((smallKernel.runs ample (fun _ _ => true)
      [.spawn (txt "/p"), .dispatch, .block .ttyInput 0 0, .suspend]).any fun k =>
        (k.procs 0).state = .pending && (k.procs 0).savedFrameValid &&
          !k.pendingDispatchActive && (k.procs 0).blockedReason = .ttyInput &&
          (List.finRange maxProcs).all fun i =>
            i = 0 || !(k.procs i).used) = true := by
    decide +kernel
  obtain ⟨k, hrun, hk⟩ := (Option.any_eq_true ..).mp hruns
  simp only [Bool.and_eq_true, decide_eq_true_eq, Bool.not_eq_true',
    List.all_eq_true, Bool.or_eq_true] at hk
  obtain ⟨⟨⟨⟨hstate, hsaved⟩, hactive⟩, hreason⟩, hothers⟩ := hk
  refine ⟨k, runs_runIf (fun _ _ _ => trivial) hrun, hstate, hsaved, hactive,
    fun a htyped => ?_⟩
  rw [nextPending_eq hactive]
  refine Option.eq_none_iff_forall_ne_some.mpr fun j hscan => ?_
  have hj := RoundRobin.scan_some hscan
  unfold Kernel.dispatchable at hj
  rcases hothers j (List.mem_finRange j) with rfl | hunused
  · simp [hreason, htyped] at hj
  · simp [hunused] at hj

end Clks.Exec
