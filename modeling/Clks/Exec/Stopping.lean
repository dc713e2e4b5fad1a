/-
Stopping a process, and having it continue.

A process that waits to be dispatched is only marked as stopped, and has all
that it had when it continues; its wait is forgotten, and with it the time
at which it would have woken up. A process that has the processor loses its
program, its stack and its address space as soon as it is left, and begins
anew from its file.
-/
import Clks.Exec.ExitStatus

namespace Clks.Exec

/-- The time until which a process sleeps. -/
def Proc.deadline (p : Proc) : Option UInt64 :=
  if p.blockedReason = .sleep then some p.wakeTick else none

/-- What a process goes on with is the same as before. -/
structure Proc.Same (p p' : Proc) : Prop where
  savedFrameValid :
    p'.savedFrameValid = (p.savedFrameValid || p.state = .running)
  loadedActive : p'.loadedActive = p.loadedActive
  loaded : p'.loaded = p.loaded
  runStack : p'.runStack = p.runStack
  addressSpaceCr3 : p'.addressSpaceCr3 = p.addressSpaceCr3
  userVmAreas : p'.userVmAreas = p.userVmAreas
  fds : p'.fds = p.fds
  deadline : p'.deadline = p.deadline

/-- A process that was stopped in state `k` goes on in `k'` as if it had not
been: it is still running and no longer about to stop, or it is dispatched
again with all that it had. -/
inductive Kernel.GoesOn (k k' : Kernel) (i : Fin maxProcs) : Prop
  | running : (k.procs i).state = .running → (k'.procs i).state = .running →
      (∀ level ∈ k'.pidStack, level.pid = (k'.procs i).pid →
        level.stopRequested = false) → GoesOn k k' i
  | again : (k'.procs i).state = .pending →
      (k.procs i).Same (k'.procs i) → GoesOn k k' i

/-- The process is not touched by an event, unless it runs: then it may do
what it likes, and be left. -/
def Kernel.Spares (k : Kernel) (i : Fin maxProcs) (a : Answers) (e : Event) :
    Prop :=
  k.Concerns a e i → i ∈ k.runners ∧ ∀ pid signal, e ≠ .kill pid signal

/-- Whenever a STOP that the process gets now is followed by a CONT, with
anything else in between, it goes on as if there had been neither. -/
def Kernel.Transparent (k : Kernel) (pid : UInt64) (i : Fin maxProcs) : Prop :=
  ∀ (a a' : Answers) (stop cont : UInt64) (k₁ k₂ k₃ : Kernel),
    stop &&& 0xFF = signalStop → cont &&& 0xFF = signalCont →
    k.procKill a pid stop = (1, k₁) →
    RunIf (fun a e k => k.Spares i a e) k₁ k₂ →
    k₂.findSlotByPid pid = some i → k₂.procKill a' pid cont = (1, k₃) →
    k.GoesOn k₃ i

section stopping

variable {k k' k₀ : Kernel} {i : Fin maxProcs} {a : Answers} {e : Event}
  {pid signal : UInt64}

-- ==== the call

theorem effective_signal {s : UInt64} (hsignal : signal &&& 0xFF = s)
    (hs : s ≠ 0) : (if signal = 0 then signalTerm else signal &&& 0xFF) = s := by
  rw [if_neg, hsignal]
  rintro rfl
  exact hs (hsignal.symm.trans (UInt64.zero_and ..))

theorem procKill_stop_pending (hpid : pid ≠ 0)
    (hfound : k.findSlotByPid pid = some i)
    (hsignal : signal &&& 0xFF = signalStop)
    (hstate : (k.procs i).state = .pending) :
    k.procKill a pid signal
      = (1, (k.modifyProc i (Proc.signalled signalStop)).setState (a.grown 0) i
        .stopped .stopped .none) := by
  have heffective := effective_signal hsignal (by decide)
  unfold Kernel.procKill
  rw [if_neg hpid, hfound]
  simp only []
  rw [heffective, if_neg (by rw [hstate]; nofun), modifyProc_self]
  simp only [hstate]
  rw [if_neg (by decide), if_pos (by decide)]
  rfl

theorem procKill_stop_running (hpid : pid ≠ 0)
    (hfound : k.findSlotByPid pid = some i)
    (hsignal : signal &&& 0xFF = signalStop)
    (hstate : (k.procs i).state = .running) :
    k.procKill a pid signal
      = if k.pidStack = [] || k.currentPid ≠ pid then
          (0, k.modifyProc i (Proc.signalled signalStop))
        else
          (1, (k.modifyProc i (Proc.signalled signalStop)).modifyLevel
            fun level =>
              { level with
                exitRequested := true, exitStatus := signalStatus signalStop
                stopRequested := true }) := by
  have heffective := effective_signal hsignal (by decide)
  unfold Kernel.procKill
  rw [if_neg hpid, hfound]
  simp only []
  rw [heffective, if_neg (by rw [hstate]; nofun), modifyProc_self]
  simp only [hstate]
  rw [if_neg (by decide), if_neg (by decide), if_neg (by decide),
    if_neg (by decide), if_pos trivial]
  simp only [decide_true, Bool.or_true]
  rfl

theorem procKill_cont (hpid : pid ≠ 0) (hfound : k.findSlotByPid pid = some i)
    (hsignal : signal &&& 0xFF = signalCont)
    (hstate : (k.procs i).state ≠ .exited) :
    k.procKill a pid signal
      = (1, if (k.procs i).state = .stopped then
          (k.modifyProc i (Proc.signalled signalCont)).setState (a.grown 0) i
            .pending .ready .none
        else k.modifyProc i (Proc.signalled signalCont)) := by
  have heffective := effective_signal hsignal (by decide)
  unfold Kernel.procKill
  rw [if_neg hpid, hfound]
  simp only []
  rw [heffective, if_neg hstate, modifyProc_self]
  rfl

-- ==== the run

theorem stopped_of_run (h : k.Balanced) (hstate : (k.procs i).state = .stopped)
    (hrun : RunIf (fun a e k => k.Spares i a e) k k') :
    k'.Balanced ∧ k'.bodies i = k.bodies i := by
  induction hrun with
  | refl => exact ⟨h, rfl⟩
  | @tail k1 k2 _ hlast ih =>
    obtain ⟨hbalanced, hbody⟩ := ih
    obtain ⟨a, e, hspares, hstep⟩ := hlast
    refine ⟨hbalanced.step hstep, (step_bodies hstep fun hconcerns => ?_).trans
      hbody⟩
    have hrunning := (hbalanced.framed.running i (hspares hconcerns).1).2
    exact nomatch hrunning.symm.trans ((state_of_body hbody).1.trans hstate)

theorem same_of_assets {p p' : Proc} (hstate : p.state = .pending)
    (hassets : p'.assets = p.assets) (hareas : p'.userVmAreas = p.userVmAreas)
    (hsaved : p'.savedFrameValid = p.savedFrameValid)
    (hdeadline : p'.deadline = p.deadline) : p.Same p' where
  savedFrameValid := by
    rw [hstate, decide_eq_false (by nofun), Bool.or_false]
    exact hsaved
  loadedActive := congrArg Assets.loadedActive hassets
  loaded := congrArg Assets.loaded hassets
  runStack := congrArg Assets.runStack hassets
  addressSpaceCr3 := congrArg Assets.addressSpaceCr3 hassets
  userVmAreas := hareas
  fds := congrArg Assets.fds hassets
  deadline := hdeadline

theorem findSlotByPid_congr
    (h : ∀ j, (k'.cards j).used = (k.cards j).used ∧
      (k'.cards j).pid = (k.cards j).pid) :
    k'.findSlotByPid pid = k.findSlotByPid pid := by
  unfold Kernel.findSlotByPid
  congr 1
  funext j
  show ((k'.cards j).used && decide ((k'.cards j).pid = pid)) = _
  rw [(h j).1, (h j).2]
  rfl

@[simp]
theorem cards_signalled {s : UInt64} :
    (k.modifyProc i (Proc.signalled s)).cards = k.cards :=
  cards_same rfl rfl

theorem findSlotByPid_signalled {state : ProcState} {threadState : ThreadState}
    {s : UInt64} :
    ((k.modifyProc i (Proc.signalled s)).setState (a.grown 0) i state
      threadState .none).findSlotByPid pid = k.findSlotByPid pid := by
  apply findSlotByPid_congr
  intro j
  rw [cards_setState, cards_signalled]
  by_cases hj : j = i
  · subst hj
    rw [Function.update_self]
    exact ⟨rfl, rfl⟩
  · rw [Function.update_of_ne hj]
    exact ⟨rfl, rfl⟩

theorem setState_deadline {got : Option Nat} {state : ProcState}
    {threadState : ThreadState} :
    ((k.setState got i state threadState .none).procs i).deadline = none := by
  obtain ⟨id, wakeTick, waitTargetPid, hproc⟩ :=
    setState_proc got i state threadState .none k
  rw [hproc]
  rfl

theorem setState_signalled {s : UInt64} {got : Option Nat} {state : ProcState}
    {threadState : ThreadState} :
    let p := ((k.modifyProc i (Proc.signalled s)).setState got i state
      threadState .none).procs i
    p.assets = (k.procs i).assets ∧ p.userVmAreas = (k.procs i).userVmAreas ∧
      p.savedFrameValid = (k.procs i).savedFrameValid := by
  obtain ⟨id, wakeTick, waitTargetPid, hproc⟩ := setState_proc got i state
    threadState .none (k.modifyProc i (Proc.signalled s))
  rw [hproc, modifyProc_self]
  exact ⟨rfl, rfl, rfl⟩

-- ==== transparency

theorem Kernel.Transparent.awake (h : k.Transparent pid i) (hpid : pid ≠ 0)
    (hfound : k.findSlotByPid pid = some i)
    (hstate : (k.procs i).state = .pending) :
    (k.procs i).blockedReason ≠ .sleep := by
  intro hsleep
  have hkilled := procKill_stop_pending (a := ample) hpid hfound
    (show signalStop &&& 0xFF = signalStop by decide) hstate
  generalize hk1 : (k.modifyProc i (Proc.signalled signalStop)).setState
    (ample.grown 0) i .stopped .stopped .none = k1 at hkilled
  have hfound1 : k1.findSlotByPid pid = some i := by
    rw [← hk1, findSlotByPid_signalled, hfound]
  have hstopped : (k1.procs i).state = .stopped := by
    rw [← hk1]
    exact setState_state ..
  have hcont := procKill_cont (a := ample) hpid hfound1
    (show signalCont &&& 0xFF = signalCont by decide) (by rw [hstopped]; nofun)
  rw [if_pos hstopped] at hcont
  rcases h ample ample signalStop signalCont k1 k1 _ (by decide) (by decide)
    hkilled .refl hfound1 hcont with ⟨hrunning, -, -⟩ | ⟨-, hsame⟩
  · exact nomatch hstate.symm.trans hrunning
  · have hdeadline := hsame.deadline
    rw [setState_deadline] at hdeadline
    unfold Proc.deadline at hdeadline
    rw [if_pos hsleep] at hdeadline
    cases hdeadline

theorem Kernel.Transparent.away (h : k.Transparent pid i) (hpid : pid ≠ 0)
    (hfound : k.findSlotByPid pid = some i)
    (hstate : (k.procs i).state = .running) : k.currentPid ≠ pid := by
  intro hcurrent
  obtain ⟨level, levels, hstack⟩ : ∃ level levels,
      k.pidStack = level :: levels := by
    cases hstack : k.pidStack with
    | nil =>
      unfold Kernel.currentPid at hcurrent
      rw [hstack] at hcurrent
      exact absurd hcurrent.symm hpid
    | cons level levels => exact ⟨level, levels, rfl⟩
  have hlevel : level.pid = pid := by
    unfold Kernel.currentPid at hcurrent
    rwa [hstack] at hcurrent
  have hkilled := procKill_stop_running (a := ample) hpid hfound
    (show signalStop &&& 0xFF = signalStop by decide) hstate
  rw [if_neg (by simp [hstack, hcurrent])] at hkilled
  generalize hk1 : (k.modifyProc i (Proc.signalled signalStop)).modifyLevel _
    = k1 at hkilled
  have hcards1 : k1.cards = k.cards := by
    rw [← hk1]
    unfold Kernel.modifyLevel
    split <;> exact cards_signalled
  have hstack1 : k1.pidStack
      = ⟨level.pid, true, signalStatus signalStop, true⟩ :: levels := by
    rw [← hk1]
    unfold Kernel.modifyLevel
    rw [show (k.modifyProc i (Proc.signalled signalStop)).pidStack
      = level :: levels from hstack]
  have hfound1 : k1.findSlotByPid pid = some i := by
    rw [findSlotByPid_congr (k := k), hfound]
    intro j
    rw [hcards1]
    exact ⟨rfl, rfl⟩
  have hrunning1 : (k1.procs i).state = .running :=
    (congrArg Card.state (congrFun hcards1 i)).trans hstate
  have hcont := procKill_cont (a := ample) hpid hfound1
    (show signalCont &&& 0xFF = signalCont by decide) (by rw [hrunning1]; nofun)
  rw [if_neg (by rw [hrunning1]; nofun)] at hcont
  rcases h ample ample signalStop signalCont k1 k1 _ (by decide) (by decide)
    hkilled .refl hfound1 hcont with ⟨-, -, hlevels⟩ | ⟨hpending, -⟩
  · have hstopped := hlevels ⟨level.pid, true, signalStatus signalStop, true⟩
      (by
        show _ ∈ k1.pidStack
        rw [hstack1]
        exact List.mem_cons_self)
      (by
        show level.pid = ((k1.modifyProc i _).cards i).pid
        rw [cards_signalled, hcards1, hlevel, (findSlotByPid_some hfound).2])
    cases hstopped
  · rw [modifyProc_self] at hpending
    exact nomatch hrunning1.symm.trans hpending

theorem Kernel.Balanced.transparent (h : k.Balanced) (hpid : pid ≠ 0)
    (hfound : k.findSlotByPid pid = some i)
    (hstate : (k.procs i).state = .pending)
    (hawake : (k.procs i).blockedReason ≠ .sleep) : k.Transparent pid i := by
  intro a a' stop cont k1 k2 k3 hstop hcont hkilled hinterim hfound2 hcontinued
  have hstep : k.step a (.kill pid stop) = some k1 := by
    show some (k.procKill a pid stop).2 = some k1
    rw [hkilled]
  rw [procKill_stop_pending hpid hfound hstop hstate] at hkilled
  obtain ⟨-, hk1⟩ := Prod.mk.inj hkilled
  have hstopped1 : (k1.procs i).state = .stopped := by
    rw [← hk1]
    exact setState_state ..
  obtain ⟨-, hbody⟩ := stopped_of_run (h.step hstep) hstopped1 hinterim
  have hstopped2 := (state_of_body hbody).1.trans hstopped1
  rw [procKill_cont hpid hfound2 hcont (by rw [hstopped2]; nofun),
    if_pos hstopped2] at hcontinued
  obtain ⟨-, rfl⟩ := Prod.mk.inj hcontinued
  obtain ⟨hassets, hareas, hsaved⟩ := @setState_signalled k i signalStop
    (a.grown 0) .stopped .stopped
  obtain ⟨hassets', hareas', hsaved'⟩ := @setState_signalled k2 i signalCont
    (a'.grown 0) .pending .ready
  rw [hk1] at hassets hareas hsaved
  refine .again (setState_state ..) (same_of_assets hstate ?_ ?_ ?_ ?_)
  · exact hassets'.trans ((congrArg Body.assets hbody).trans hassets)
  · exact hareas'.trans ((congrArg Body.userVmAreas hbody).trans hareas)
  · exact hsaved'.trans ((congrArg Body.savedFrameValid hbody).trans hsaved)
  · rw [setState_deadline]
    unfold Proc.deadline
    rw [if_neg hawake]

/-- Where a stop and what follows it are forgotten again: the process waits
to be dispatched, and does not sleep. One that has the processor is lost;
one that runs without it is not stopped. -/
theorem transparent_iff (h₀ : k₀.Started)
    (hrun : RunIf (fun _ _ _ => True) k₀ k)
    (hfound : k.findSlotByPid pid = some i)
    (hlive : (k.procs i).state = .pending ∨ (k.procs i).state = .running) :
    k.Transparent pid i ↔
      ((k.procs i).state = .pending → (k.procs i).blockedReason ≠ .sleep) ∧
        ((k.procs i).state = .running → k.currentPid ≠ pid) := by
  have hbalanced := balanced_of_run (balanced_of_started h₀) hrun
  obtain ⟨hused, hproc⟩ := findSlotByPid_some hfound
  have hpid : pid ≠ 0 := by
    rw [← hproc]
    exact hbalanced.framed.pids i hused
  refine ⟨fun h => ⟨h.awake hpid hfound, h.away hpid hfound⟩, ?_⟩
  rintro ⟨hawake, haway⟩
  rcases hlive with hstate | hstate
  · exact hbalanced.transparent hpid hfound hstate (hawake hstate)
  · intro a a' stop cont k₁ k₂ k₃ hstop hcont hkilled
    rw [procKill_stop_running hpid hfound hstop hstate,
      if_pos (by simp [haway hstate])] at hkilled
    cases hkilled

end stopping

/-- A process that has yielded. -/
theorem transparent_yielded :
    ∃ k : Kernel, RunIf (fun _ _ _ => True) smallKernel k ∧
      (k.procs 0).savedFrameValid = true ∧ k.Transparent 1 0 := by
  have hruns : ((smallKernel.runs ample (fun _ _ => true)
      [.spawn (txt "/p"), .dispatch, .suspend]).any fun k =>
        (k.procs 0).savedFrameValid && k.findSlotByPid 1 = some 0 &&
          (k.procs 0).state = .pending &&
            (k.procs 0).blockedReason ≠ .sleep) = true := by
    decide +kernel
  obtain ⟨k, hrun, hk⟩ := (Option.any_eq_true ..).mp hruns
  simp only [Bool.and_eq_true, decide_eq_true_eq] at hk
  obtain ⟨⟨⟨hsaved, hfound⟩, hstate⟩, hawake⟩ := hk
  have hrun : RunIf (fun _ _ _ => True) smallKernel k :=
    runs_runIf (fun _ _ _ => trivial) hrun
  refine ⟨k, hrun, hsaved, (transparent_iff smallKernel_started hrun hfound
    (.inl hstate)).mpr ⟨fun _ => hawake, fun hrunning => ?_⟩⟩
  exact nomatch hstate.symm.trans hrunning

/-- A process is stopped while it runs, and is left. When it continues it has
no frame, no program, no stack and no address space. -/
theorem running_not_transparent :
    ∃ k k₁ k₂ k₃ : Kernel, RunIf (fun _ _ _ => True) smallKernel k ∧
      k.procKill ample 1 signalStop = (1, k₁) ∧
      k₁.step ample (.finish (signalStatus signalStop)) = some k₂ ∧
      k₂.procKill ample 1 signalCont = (1, k₃) ∧
      ((k₃.procs 0).savedFrameValid, (k₃.procs 0).loadedActive,
        (k₃.procs 0).runStack, (k₃.procs 0).addressSpaceCr3)
        = (false, false, none, 0) ∧
      ¬ k.Transparent 1 0 := by
  have hruns : ((smallKernel.runs ample (fun _ _ => true)
      [.spawn (txt "/p"), .dispatch]).any fun k =>
        (k.procs 0).loadedActive && (k.procKill ample 1 signalStop).1 = 1 &&
          (0 : Fin maxProcs) ∈ (k.procKill ample 1 signalStop).2.runners &&
          ((k.procKill ample 1 signalStop).2.step ample
            (.finish (signalStatus signalStop))).any fun k₂ =>
              k₂.findSlotByPid 1 = some 0 &&
              (k₂.procKill ample 1 signalCont).1 = 1 &&
                (((k₂.procKill ample 1 signalCont).2.procs 0).state = .pending &&
                ((((k₂.procKill ample 1 signalCont).2.procs 0).savedFrameValid,
                  ((k₂.procKill ample 1 signalCont).2.procs 0).loadedActive,
                  ((k₂.procKill ample 1 signalCont).2.procs 0).runStack,
                  ((k₂.procKill ample 1 signalCont).2.procs 0).addressSpaceCr3)
                  = (false, false, none, 0)))) = true := by
    decide +kernel
  obtain ⟨k, hrun, hk⟩ := (Option.any_eq_true ..).mp hruns
  simp only [Bool.and_eq_true, decide_eq_true_eq] at hk
  obtain ⟨⟨⟨hactive, hstop⟩, hrunner⟩, hend⟩ := hk
  obtain ⟨k₂, hstep, hend⟩ := (Option.any_eq_true ..).mp hend
  simp only [Bool.and_eq_true, decide_eq_true_eq] at hend
  obtain ⟨⟨hfound, hcont⟩, hpending, hlost⟩ := hend
  refine ⟨k, _, k₂, _, runs_runIf (fun _ _ _ => trivial) hrun,
    Prod.ext hstop rfl, hstep, Prod.ext hcont rfl, hlost, fun h => ?_⟩
  rcases h ample ample signalStop signalCont _ k₂ _ (by decide) (by decide)
    (Prod.ext hstop rfl)
    (.single ⟨ample, .finish _, fun _ => ⟨hrunner, nofun⟩, hstep⟩) hfound
    (Prod.ext hcont rfl) with ⟨-, hrunning, -⟩ | ⟨-, hsame⟩
  · exact nomatch hpending.symm.trans hrunning
  · have hkept := hsame.loadedActive
    rw [(Prod.mk.inj (Prod.mk.inj hlost).2).1, hactive] at hkept
    cases hkept

end Clks.Exec
