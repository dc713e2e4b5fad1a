/-
The stack of calls, the count of runs and the active address space.

`Kernel.Balanced` is kept by every event: each run on the stack of
calls accounts for one level, one running process and the address space to go
back to, and a run that ends leaves that one active again.
-/
import Clks.Exec.Spaces
import Clks.Exec.Dynlibs
import Clks.Exec.Tasks

namespace Clks.Exec

/-- How a process is left by a run of it. -/
def Proc.Left (p : Proc) : Prop :=
  p.state = .exited ∨ p.state = .stopped ∨
    p.state = .pending ∧ p.savedFrameValid = true

/-- What is to be the same after a run as before it, and how the process is
left. -/
structure Neutral (k k' : Kernel) (i : Fin maxProcs) : Prop where
  pidStackDepth : k'.pidStack.length = k.pidStack.length
  runningDepth : k'.runningDepth = k.runningDepth
  currentCr3 : k'.currentCr3 = k.currentCr3
  left : (k.procs i).used = true → (k'.procs i).Left

/-- The kernel is in its own address space, and no page is free twice. -/
structure Kernel.Started (k : Kernel) : Prop extends k.Booted where
  runningDepth : k.runningDepth = 0
  currentCr3 : k.currentCr3 = k.kernelCr3
  freeStack : k.freeStack.Nodup

/-- The stack of calls is in order, and what is active belongs to it. -/
structure Kernel.Balanced (k : Kernel) : Prop where
  framed : k.Framed
  depth : k.runningDepth = k.runners.length
  housed : k.desk.Housed
  active : k.desk.Active k.currentCr3 k.frames

/-- Nothing changes that a balance depends on. -/
structure Kernel.Quiet (k k' : Kernel) : Prop where
  cards : k'.cards = k.cards
  pids : k'.pidStack.map Level.pid = k.pidStack.map Level.pid
  frames : k'.frames = k.frames
  desk : k'.desk = k.desk

/-- What becomes of the desk when a run is begun. -/
inductive Opened (k : Kernel) (i : Fin maxProcs) : Bool × Kernel → Prop
  | unused : Opened k i (false, k)
  | refused {k' : Kernel} : k'.desk = k.desk.release i → Opened k i (false, k')
  | failed {k' : Kernel} :
      k'.desk = ((k.desk.enter i).release i).leave k.currentCr3
        (k.desk.switches i) → Opened k i (false, k')
  | started {k' : Kernel} :
      k'.desk = { k.desk.enter i with runningDepth := k.runningDepth + 1 } →
      k'.frames = .entry i k.currentCr3 (k.desk.switches i) :: k.frames →
      Opened k i (true, k')

section balance

variable {k k' k'' : Kernel} {i j : Fin maxProcs} {a : Answers} {e : Event}
  {frame : Frame} {callRet : UInt64} {ok : Bool} {status : UInt64}
  {prevCr3 : Nat} {switched : Bool} {level : Level}

-- ==== balance

theorem Kernel.Quiet.refl (k : Kernel) : k.Quiet k := ⟨rfl, rfl, rfl, rfl⟩

theorem Kernel.Quiet.trans (h : k.Quiet k') (h' : k'.Quiet k'') : k.Quiet k'' :=
  ⟨h'.cards.trans h.cards, h'.pids.trans h.pids, h'.frames.trans h.frames,
    h'.desk.trans h.desk⟩

theorem Kernel.Calm.quiet (h : k.Calm k') (hcards : k'.cards = k.cards)
    (hdesk : k'.desk = k.desk) : k.Quiet k' :=
  ⟨hcards, congrArg _ h.pidStack, h.frames, hdesk⟩

theorem Kernel.Balanced.quiet (h : k.Balanced) (hquiet : k.Quiet k') :
    k'.Balanced := by
  obtain ⟨hcards, hpids, hframes, hdesk⟩ := hquiet
  have hrunners : k'.runners = k.runners :=
    congrArg (List.filterMap Frame.runs) hframes
  refine ⟨h.framed.same hcards hpids hframes, ?_, ?_, ?_⟩
  · rw [hrunners]
    exact (congrArg Desk.runningDepth hdesk).trans h.depth
  · rw [hdesk]
    exact h.housed
  · have hcurrent : k'.currentCr3 = k.currentCr3 :=
      congrArg Desk.currentCr3 hdesk
    rw [hdesk, hcurrent, hframes]
    exact h.active

theorem Kernel.Balanced.change (h : k.Balanced) (hframed : k'.Framed)
    (hidle : i ∉ k.runners) (hframes : k'.frames = k.frames)
    (hhoused : k'.desk.Housed) (hcurrent : k'.currentCr3 = k.currentCr3)
    (hdepth : k'.runningDepth = k.runningDepth)
    (hkernel : k'.kernelCr3 = k.kernelCr3)
    (hothers : ∀ l, l ≠ i → k'.desk.cr3s l = k.desk.cr3s l) : k'.Balanced := by
  refine ⟨hframed, ?_, hhoused, ?_⟩
  · have hrunners : k'.runners = k.runners :=
      congrArg (List.filterMap Frame.runs) hframes
    rw [hrunners, ← h.depth]
    exact hdepth
  · rw [hcurrent, hframes]
    refine h.active.congr hkernel fun l hl => hothers l ?_
    intro heq
    rw [heq] at hl
    exact hidle hl

theorem Kernel.Balanced.release (h : k.Balanced) (hframed : k'.Framed)
    (hidle : i ∉ k.runners) (hframes : k'.frames = k.frames)
    (hdesk : k'.desk = k.desk.release i) : k'.Balanced := by
  obtain ⟨hcurrent, -⟩ := h.active.release h.housed hidle
  obtain ⟨hdepth, hkernel, hothers⟩ := @Desk.release_rest k.desk i
  refine h.change hframed hidle hframes ?_
    ((congrArg Desk.currentCr3 hdesk).trans hcurrent)
    ((congrArg Desk.runningDepth hdesk).trans hdepth)
    ((congrArg Desk.kernelCr3 hdesk).trans hkernel)
    fun l hl => (congrFun (congrArg Desk.cr3s hdesk) l).trans (hothers l hl)
  rw [hdesk]
  exact h.housed.release i

theorem Kernel.Balanced.rehouse (h : k.Balanced) (hframed : k'.Framed)
    (hidle : i ∉ k.runners) (hframes : k'.frames = k.frames)
    (hdesk : k'.desk = (k.desk.release i).house i) : k'.Balanced := by
  obtain ⟨hcurrent, -⟩ := h.active.release h.housed hidle
  obtain ⟨hdepth, hkernel, hothers⟩ := @Desk.release_rest k.desk i
  obtain ⟨hcurrent', hdepth', hkernel', hothers'⟩ :=
    @Desk.house_rest (k.desk.release i) i
  refine h.change hframed hidle hframes ?_
    ((congrArg Desk.currentCr3 hdesk).trans (hcurrent'.trans hcurrent))
    ((congrArg Desk.runningDepth hdesk).trans (hdepth'.trans hdepth))
    ((congrArg Desk.kernelCr3 hdesk).trans (hkernel'.trans hkernel))
    fun l hl => (congrFun (congrArg Desk.cr3s hdesk) l).trans
      ((hothers' l hl).trans (hothers l hl))
  rw [hdesk]
  exact (h.housed.release i).house i

theorem Kernel.Balanced.push (h : k.Balanced) (hframed : k'.Framed)
    (hframes : k'.frames = frame :: k.frames) (hframe : frame.runs = none)
    (hdesk : k'.desk = k.desk) : k'.Balanced := by
  refine ⟨hframed, ?_, ?_, ?_⟩
  · have hrunners : k'.runners = k.runners := runners_cons hframes hframe
    rw [hrunners, ← h.depth]
    exact congrArg Desk.runningDepth hdesk
  · rw [hdesk]
    exact h.housed
  · have hsame : k'.currentCr3 = k.currentCr3 := congrArg Desk.currentCr3 hdesk
    rw [hdesk, hsame, hframes]
    exact (Desk.active_skip hframe).mpr h.active

theorem Kernel.Balanced.returned (h : k.Balanced) :
    (k.returned a ok status).Balanced := by
  have hreturned := @returned_returned k a ok status
  have hdesk := desk_returned a ok status k
  generalize k.returned a ok status = k' at hreturned hdesk
  rcases hreturned.frames with hframes | ⟨frame, hframes, hframe⟩
  · exact h.quiet ⟨hreturned.cards, congrArg _ hreturned.pidStack, hframes, hdesk⟩
  · have hrunners : k'.runners = k.runners := (runners_cons hframes hframe).symm
    refine ⟨h.framed.returned hreturned, ?_, ?_, ?_⟩
    · rw [hrunners, ← h.depth]
      exact congrArg Desk.runningDepth hdesk
    · rw [hdesk]
      exact h.housed
    · have hsame : k'.currentCr3 = k.currentCr3 :=
        congrArg Desk.currentCr3 hdesk
      have hactive := h.active
      rw [hframes] at hactive
      rw [hdesk, hsame]
      exact (Desk.active_skip hframe).mp hactive

-- ==== the start

theorem switchAddressSpace_eq (k : Kernel) (i : Fin maxProcs) :
    k.switchAddressSpace (if (k.procs i).addressSpaceCr3 ≠ 0 then
        (k.procs i).addressSpaceCr3 else k.kernelCr3)
      = ((k.currentCr3, k.desk.switches i),
        { k with currentCr3 := (k.desk.enter i).currentCr3 }) := by
  show k.switchAddressSpace (k.desk.target i) = _
  cases hswitch : k.desk.switches i with
  | true =>
    have henter : (k.desk.enter i).currentCr3 = k.desk.target i :=
      if_pos hswitch
    rw [henter]
    unfold Desk.switches at hswitch
    rw [Bool.not_eq_true'] at hswitch
    exact if_neg (Bool.eq_false_iff.mp hswitch)
  | false =>
    have henter : (k.desk.enter i).currentCr3 = k.currentCr3 :=
      if_neg (by rw [hswitch]; nofun)
    rw [henter]
    unfold Desk.switches at hswitch
    rw [Bool.not_eq_false'] at hswitch
    exact if_pos hswitch

theorem desk_runFail (k : Kernel) (a : Answers) (i : Fin maxProcs)
    (prevCr3 : Nat) (switched : Bool) :
    (k.runFail a i prevCr3 switched).desk
      = (k.desk.release i).leave prevCr3 switched := by
  unfold Kernel.runFail
  simp only []
  rw [desk_leave, desk_dynlibReleaseOwner, desk_markExited]

theorem runBegin_opened : Opened k i (k.runBegin a i) := by
  unfold Kernel.runBegin
  simp only []
  split
  · exact .unused
  split
  · exact .refused (desk_markExited ..)
  split
  · exact .refused (desk_markExited ..)
  rw [switchAddressSpace_eq]
  simp only []
  generalize hk1 : Kernel.markRunning a i
    { k with currentCr3 := (k.desk.enter i).currentCr3 } = k1
  have hdesk1 : k1.desk = k.desk.enter i := by
    rw [← hk1]
    exact desk_setState ..
  have hframes1 : k1.frames = k.frames := by
    rw [← hk1]
    exact (@markRunning_calm { k with currentCr3 := (k.desk.enter i).currentCr3 }
      i a).frames
  generalize hload : Kernel.loadProgram a i _ = r
  have hdesk2 : r.2.desk = k.desk.enter i := by
    rw [← hload, desk_loadProgram]
    exact hdesk1
  have hframes2 : r.2.frames = k.frames := by
    rw [← hload, loadProgram_calm.1.frames]
    exact hframes1
  obtain ⟨loaded, k2⟩ := r
  cases loaded with
  | false =>
    refine .failed ?_
    rw [desk_runFail]
    exact congrArg (fun d => Desk.leave k.currentCr3 (k.desk.switches i)
      (d.release i)) hdesk2
  | true =>
    simp only []
    generalize hinvoke : Kernel.invokeEntry a i _ = r
    have hdesk3 : r.2.desk
        = { k.desk.enter i with runningDepth := k.runningDepth + 1 } := by
      have hdepth : k2.runningDepth = k.runningDepth :=
        congrArg Desk.runningDepth hdesk2
      rw [← hinvoke, desk_invokeEntry, ← hdepth]
      exact congrArg (fun d : Desk => { d with
        runningDepth := k2.runningDepth + 1 }) hdesk2
    have hframes3 : r.2.frames = k.frames := by
      rw [← hinvoke, invokeEntry_calm.1.frames]
      exact hframes2
    obtain ⟨invoked, k3⟩ := r
    cases invoked with
    | false =>
      refine .failed ?_
      rw [desk_runFail]
      have hdepth : k3.runningDepth - 1 = k.runningDepth := by
        have h := congrArg Desk.runningDepth hdesk3
        change k3.runningDepth = k.runningDepth + 1 at h
        omega
      have hback : Kernel.desk
          { k3 with runningDepth := k3.runningDepth - 1 } = k.desk.enter i := by
        rw [hdepth]
        exact congrArg (fun d : Desk => { d with
          runningDepth := k.runningDepth }) hdesk3
      rw [hback]
    | true =>
      refine .started hdesk3 ?_
      exact congrArg (_ :: ·) hframes3

theorem Kernel.Balanced.runBegin (h : k.Balanced) (hidle : i ∉ k.runners) :
    (k.runBegin a i).2.Balanced ∧
      ((k.runBegin a i).1 = false → Neutral k (k.runBegin a i).2 i) ∧
      ((k.runBegin a i).1 = true →
        (k.runBegin a i).2.frames
          = .entry i k.currentCr3 (k.desk.switches i) :: k.frames) := by
  have hbegan := @runBegin_began k i a (h.framed.pids i)
  have hframed := h.framed.began hidle hbegan
  have hopened := @runBegin_opened k i a
  generalize k.runBegin a i = r at hbegan hframed hopened
  -- a run that fails keeps the frames, and ends the process if there is one
  have hfalse : r.1 = false → r.2.frames = k.frames ∧
      r.2.pidStack = k.pidStack ∧
      ((k.procs i).used = true → (r.2.procs i).state = .exited) := by
    intro hr
    cases hbegan with
    | unused hunused =>
      refine ⟨rfl, rfl, fun hused => ?_⟩
      have hcard : (k.procs i).used = false := hunused
      rw [hcard] at hused
      cases hused
    | @refused k' hused hrefuses hcalm hcards =>
      exact ⟨hcalm.frames, hcalm.pidStack,
        fun _ => congrArg Card.state (cards_self hcards)⟩
    | @failed k' hused hcards hlibs hstack hframes hnext =>
      exact ⟨hframes, hstack,
        fun _ => congrArg Card.state (cards_self hcards)⟩
    | started => cases hr
  cases hopened with
  | unused =>
    refine ⟨h, fun _ => ⟨rfl, rfl, rfl, ?_⟩, nofun⟩
    exact fun hused => .inl ((hfalse rfl).2.2 hused)
  | @refused k' hdesk =>
    obtain ⟨hframes, hstack, hexited⟩ := hfalse rfl
    obtain ⟨hcurrent, -⟩ := h.active.release h.housed hidle
    have hbalanced : k'.Balanced := h.release hframed hidle hframes hdesk
    refine ⟨hbalanced, fun _ => ⟨congrArg _ hstack, ?_, ?_, ?_⟩, nofun⟩
    · have hrunners : k'.runners = k.runners :=
        congrArg (List.filterMap Frame.runs) hframes
      show k'.runningDepth = k.runningDepth
      rw [hbalanced.depth, h.depth, hrunners]
    · exact (congrArg Desk.currentCr3 hdesk).trans hcurrent
    · exact fun hused => .inl (hexited hused)
  | @failed k' hdesk =>
    obtain ⟨hframes, hstack, hexited⟩ := hfalse rfl
    obtain ⟨hdepth, hkernel, hothers⟩ := @Desk.release_rest (k.desk.enter i) i
    obtain ⟨hcr3s, -, hkernel', hdepth'⟩ := @Desk.leave_rest
      ((k.desk.enter i).release i) k.currentCr3 (k.desk.switches i)
    have hentered : (k.desk.enter i).Housed :=
      ⟨h.housed.apart, h.housed.taken, h.housed.nodup, h.housed.pages⟩
    have hcurrent : k'.currentCr3 = k.currentCr3 :=
      (congrArg Desk.currentCr3 hdesk).trans
        (h.active.enter h.housed hidle).leave.2
    have hrunners : k'.runners = k.runners :=
      congrArg (List.filterMap Frame.runs) hframes
    have hruns : k'.runningDepth = k.runningDepth :=
      (congrArg Desk.runningDepth hdesk).trans (hdepth'.trans hdepth)
    refine ⟨⟨hframed, ?_, ?_, ?_⟩, fun _ => ⟨congrArg _ hstack, hruns,
      hcurrent, fun hused => .inl (hexited hused)⟩, nofun⟩
    · rw [hrunners, ← h.depth]
      exact hruns
    · rw [hdesk]
      exact (hentered.release i).leave
    · rw [hdesk, hcurrent, hframes]
      refine h.active.congr (hkernel'.trans hkernel) fun l hl =>
        (congrFun hcr3s l).trans (hothers l ?_)
      intro heq
      rw [heq] at hl
      exact hidle hl
  | @started k' hdesk hframes =>
    have hrunners : k'.runners = i :: k.runners := by
      unfold Kernel.runners
      rw [hframes]
      rfl
    refine ⟨⟨hframed, ?_, ?_, ?_⟩, nofun, fun _ => hframes⟩
    · rw [hrunners, List.length_cons, ← h.depth]
      exact congrArg Desk.runningDepth hdesk
    · rw [hdesk]
      exact ⟨h.housed.apart, h.housed.taken, h.housed.nodup, h.housed.pages⟩
    · have hcurrent : k'.currentCr3 = (k.desk.enter i).currentCr3 :=
        congrArg Desk.currentCr3 hdesk
      rw [hdesk, hcurrent, hframes]
      exact (h.active.enter h.housed hidle).congr rfl fun _ _ => rfl

theorem Kernel.Balanced.runSlot (h : k.Balanced) (hidle : i ∉ k.runners) :
    (k.runSlot a i).Balanced := by
  have hbegin := (@Kernel.Balanced.runBegin k i a h hidle).1
  unfold Kernel.runSlot
  split
  · next k1 hrun =>
    rw [hrun] at hbegin
    exact hbegin.returned
  · next k1 hrun =>
    rw [hrun] at hbegin
    exact hbegin

-- ==== the end

/-- Which processes have a saved frame. -/
def Kernel.saved (k : Kernel) (j : Fin maxProcs) : Bool :=
  (k.procs j).savedFrameValid

theorem saved_same {p : Proc} (h : k'.procs = Function.update k.procs i p)
    (hp : p.savedFrameValid = (k.procs i).savedFrameValid) :
    k'.saved = k.saved := by
  funext j
  unfold Kernel.saved
  rw [h]
  by_cases hj : j = i
  · subst hj
    rw [Function.update_self]
    exact hp
  · rw [Function.update_of_ne hj]

theorem saved_modifyProc {f : Proc → Proc}
    (hf : ∀ p, (f p).savedFrameValid = p.savedFrameValid) :
    (k.modifyProc i f).saved = k.saved :=
  saved_same rfl (hf _)

@[simp]
theorem saved_syncSchedulerState (got : Option Nat) (k : Kernel)
    (i : Fin maxProcs) : (k.syncSchedulerState got i).saved = k.saved := by
  obtain ⟨id, sched, heapUsed, h⟩ := syncSchedulerState_form got k i
  rw [h]
  exact saved_same rfl rfl

@[simp]
theorem saved_setState (got : Option Nat) (k : Kernel) (i : Fin maxProcs)
    (state : ProcState) (threadState : ThreadState) (reason : BlockReason) :
    (k.setState got i state threadState reason).saved = k.saved := by
  unfold Kernel.setState
  rw [saved_syncSchedulerState]
  refine saved_same rfl ?_
  dsimp only
  split <;> rfl

@[simp]
theorem saved_leave (prevCr3 : Nat) (switched : Bool) (k : Kernel) :
    (k.leave prevCr3 switched).saved = k.saved := by
  unfold Kernel.leave Kernel.restoreAddressSpace
  split <;> rfl

@[simp]
theorem saved_returned (a : Answers) (ok : Bool) (status : UInt64) (k : Kernel) :
    (k.returned a ok status).saved = k.saved := by
  unfold Kernel.returned
  split
  · rfl
  · simp only []
    split
    · rfl
    · unfold Kernel.clearBlock
      rw [saved_syncSchedulerState, saved_modifyProc, saved_modifyProc]
      · rfl
      · intro p
        rfl
      · intro p
        rfl
  · split <;> rfl
  · rfl

theorem runEnd_left {d : Desk}
    (hd : d = { k.desk with runningDepth := k.runningDepth - 1 }) :
    ((k.runEnd a callRet i prevCr3 switched level).desk
        = d.leave prevCr3 switched ∨
      (k.runEnd a callRet i prevCr3 switched level).desk
        = (d.release i).leave prevCr3 switched) ∧
      ((k.runEnd a callRet i prevCr3 switched level).procs i).Left := by
  unfold Kernel.runEnd
  simp only []
  generalize hk1 : (if callRet ≠ internalSuspendStatus &&
    (k.procs i).runStack.isSome then _ else k : Kernel) = k1
  have hdesk1 : k1.desk = k.desk := by
    subst hk1
    split
    · exact desk_same rfl rfl rfl rfl rfl rfl
    · rfl
  have hdesk : Kernel.desk { k1 with runningDepth := k1.runningDepth - 1 } = d := by
    have hdepth : k1.runningDepth = k.runningDepth :=
      congrArg Desk.runningDepth hdesk1
    rw [hd, hdepth]
    exact congrArg (fun d : Desk => { d with
      runningDepth := k.runningDepth - 1 }) hdesk1
  generalize hk2 : ({ k1 with runningDepth := k1.runningDepth - 1 } : Kernel)
    = k2 at hdesk
  generalize (if level.exitRequested then level.exitStatus else callRet)
    = runRet
  split
  · -- suspended
    next hsuspended =>
    rw [Bool.and_eq_true] at hsuspended
    generalize hk3 : Kernel.modifyProc i _ _ = k3
    have hcards3 : (k3.cards i).state = .pending := by
      subst hk3
      rw [cards_modifyProc_same, cards_setState, Function.update_self]
      intro p
      rfl
    have hsaved3 : k3.saved i = true := by
      rw [← hk3, saved_modifyProc, saved_setState, ← hk2]
      · exact hsuspended.2
      · intro p
        rfl
    refine ⟨.inl ?_, .inr (.inr ⟨?_, ?_⟩)⟩
    · rw [desk_returned, desk_leave, ← hk3, desk_modifyProc, desk_setState,
        hdesk]
      intro p
      rfl
    · have hcards : ((k3.leave prevCr3 switched).returned a true runRet).cards
          = k3.cards := returned_returned.cards.trans leave_left.1
      exact (congrArg Card.state (congrFun hcards i)).trans hcards3
    · have hsaved : ((k3.leave prevCr3 switched).returned a true runRet).saved
          = k3.saved := by rw [saved_returned, saved_leave]
      exact (congrFun hsaved i).trans hsaved3
  · -- stopped, or over
    generalize hk3 : (if level.stopRequested then _ else _ : Kernel) = k3
    have hdesk3 : k3.desk = d.release i := by
      subst hk3
      split
      · rw [desk_modifyProc, desk_setState, desk_releaseAddressSpace,
          desk_releaseRuntime, hdesk]
        intro p
        rfl
      · rw [desk_markExited, hdesk]
    have hstate3 : (k3.cards i).state = .exited ∨
        (k3.cards i).state = .stopped := by
      subst hk3
      split
      · right
        rw [cards_modifyProc_same, cards_setState, Function.update_self]
        intro p
        rfl
      · left
        rw [cards_markExited, Function.update_self]
    have hcards : ∀ pid, (((k3.dynlibReleaseOwner pid).leave prevCr3
        switched).returned a true runRet).cards = k3.cards := by
      intro pid
      refine returned_returned.cards.trans (leave_left.1.trans ?_)
      unfold Kernel.dynlibReleaseOwner
      split <;> rfl
    refine ⟨.inr ?_, ?_⟩
    · rw [desk_returned, desk_leave, desk_dynlibReleaseOwner, hdesk3]
    · have hstate := congrArg Card.state (congrFun (hcards (k3.procs i).pid) i)
      rcases hstate3 with hstate3 | hstate3
      · exact .inl (hstate.trans hstate3)
      · exact .inr (.inl (hstate.trans hstate3))

theorem Kernel.Balanced.endRun (h : k.Balanced)
    (hend : k.endRun a callRet = some k') :
    k'.Balanced ∧ ∃ i prevCr3 switched frames,
      k.frames = .entry i prevCr3 switched :: frames ∧
        (k'.frames = frames ∨
          ∃ frame, frames = frame :: k'.frames ∧ frame.runs = none) ∧
        k'.currentCr3 = prevCr3 ∧ (k'.procs i).Left := by
  unfold Kernel.endRun at hend
  split at hend
  swap
  · cases hend
  next i prevCr3 switched frames level levels hframes hstack =>
  have hi : i ∈ k.runners := by
    unfold Kernel.runners
    rw [hframes]
    exact List.mem_cons_self
  have hidle := (h.framed.finish hframes hstack).2
  have hended := @runEnd_ended { k with frames } i a prevCr3 switched callRet
    level (h.framed.pids i (h.framed.running i hi).1)
  obtain ⟨hdesk, hleft⟩ := @runEnd_left { k with frames } i a callRet prevCr3
    switched level _ rfl
  have hk' := Option.some.inj hend
  rw [hk'] at hended hdesk hleft
  generalize hd : Desk.mk _ _ _ _ _ = d at hdesk
  have hactive : d.Active d.currentCr3 (.entry i prevCr3 switched :: frames) := by
    rw [← hframes, ← hd]
    exact h.active.congr rfl fun _ _ => rfl
  have hhoused : d.Housed := by
    rw [← hd]
    exact ⟨h.housed.apart, h.housed.taken, h.housed.nodup, h.housed.pages⟩
  have hdepth : d.runningDepth = k'.runners.length := by
    have hrunners : k'.runners = frames.filterMap Frame.runs := by
      rcases hended.frames with heq | ⟨frame, heq, hframe⟩
      · exact congrArg (List.filterMap Frame.runs) heq
      · exact (runners_cons (k := { k with frames }) heq hframe).symm
    have hcons : k.runners = i :: frames.filterMap Frame.runs := by
      unfold Kernel.runners
      rw [hframes]
      rfl
    have hlength := h.depth
    rw [hcons, List.length_cons] at hlength
    rw [hrunners, ← hd]
    show k.runningDepth - 1 = _
    omega
  obtain ⟨hback, hback'⟩ := hactive.leave
  obtain ⟨hdepth1, hkernel1, hothers1⟩ := @Desk.release_rest d i
  have hframes' : ∀ {d' : Desk} {cr3 : Nat}, d'.Active cr3 frames →
      d'.Active cr3 k'.frames := by
    intro d' cr3 hd'
    rcases hended.frames with heq | ⟨frame, heq, hframe⟩
    · rw [heq]
      exact hd'
    · change frames = frame :: k'.frames at heq
      rw [heq] at hd'
      exact (Desk.active_skip hframe).mp hd'
  have hframed : k'.Framed := h.framed.ended hframes hstack hended
  have hne : ∀ l ∈ frames.filterMap Frame.runs, l ≠ i := by
    intro l hl heq
    rw [heq] at hl
    exact hidle hl
  rcases hdesk with hdesk | hdesk
  · -- the process keeps its address space
    obtain ⟨hcr3s, -, hkernel, hruns⟩ := @Desk.leave_rest d prevCr3 switched
    have hcurrent : k'.currentCr3 = prevCr3 :=
      (congrArg Desk.currentCr3 hdesk).trans hback
    refine ⟨⟨hframed, ?_, ?_, ?_⟩, i, prevCr3, switched, frames, hframes,
      hended.frames, hcurrent, hleft⟩
    · exact (congrArg Desk.runningDepth hdesk).trans (hruns.trans hdepth)
    · rw [hdesk]
      exact hhoused.leave
    · rw [hdesk, hcurrent]
      exact hframes' (hactive.1.congr hkernel fun l _ => congrFun hcr3s l)
  · -- it has released it
    obtain ⟨hcr3s, -, hkernel, hruns⟩ := @Desk.leave_rest (d.release i) prevCr3
      switched
    have hcurrent : k'.currentCr3 = prevCr3 :=
      (congrArg Desk.currentCr3 hdesk).trans hback'
    refine ⟨⟨hframed, ?_, ?_, ?_⟩, i, prevCr3, switched, frames, hframes,
      hended.frames, hcurrent, hleft⟩
    · exact (congrArg Desk.runningDepth hdesk).trans
        (hruns.trans (hdepth1.trans hdepth))
    · rw [hdesk]
      exact (hhoused.release i).leave
    · rw [hdesk, hcurrent]
      refine hframes' (hactive.1.congr (hkernel.trans hkernel1) fun l hl =>
        (congrFun hcr3s l).trans (hothers1 l (hne l hl)))

-- ==== creation

theorem createAddressSpace_desk (h : k.desk.Housed) :
    { k.createAddressSpace.2.desk with
      cr3s := Function.update k.createAddressSpace.2.desk.cr3s i
        (if k.createAddressSpace.1 = 0 then k.createAddressSpace.2.kernelCr3
          else k.createAddressSpace.1) }
      = k.desk.house i := by
  symm
  unfold Desk.house
  split
  · next hfree =>
    have hnone : k.createAddressSpace = (0, k) := by
      have hnil : k.freeStack = [] := hfree
      unfold Kernel.createAddressSpace
      split
      · rfl
      · rw [hnil]
    rw [hnone, if_pos rfl]
    rfl
  next page freeStack hfree =>
  split
  · next hkernel =>
    have hnone : k.createAddressSpace = (0, k) := if_pos hkernel
    rw [hnone, if_pos rfl]
    rfl
  · next hkernel =>
    have hpage : page ≠ 0 := by
      apply (h.pages page _).1
      rw [hfree]
      exact List.mem_cons_self
    have hsome : k.createAddressSpace
        = (page, { k with freeStack, spaces := page :: k.spaces }) := by
      have hcons : k.freeStack = page :: freeStack := hfree
      have hkernel' : ¬ k.kernelCr3 = 0 := hkernel
      unfold Kernel.createAddressSpace
      rw [if_neg hkernel', hcons]
      exact if_neg hpage
    rw [hsome, if_neg hpage]
    rfl

theorem desk_prepareProcRecord {pid : UInt64} {path : List UInt8}
    {state : ProcState} (h : k.desk.Housed) :
    (k.prepareProcRecord a i pid path state).desk
      = (k.desk.release i).house i := by
  unfold Kernel.prepareProcRecord
  simp only []
  have hreleased : (((k.releaseRuntime i).releaseAddressSpace i).fdReleaseAll
      i).desk = k.desk.release i := by
    rw [desk_fdReleaseAll, desk_releaseAddressSpace, desk_releaseRuntime]
  generalize ((k.releaseRuntime i).releaseAddressSpace i).fdReleaseAll i = k1
    at hreleased ⊢
  have hhoused : k1.desk.Housed := by
    rw [hreleased]
    exact h.release i
  rw [desk_modifyProc, desk_bindSchedulerTask, desk_setState,
    desk_modifyProc_cr3 rfl, createAddressSpace_desk hhoused, hreleased]
  intro p
  rfl

theorem Kernel.Balanced.prepare {path : List UInt8} {state : ProcState}
    (h : k.Balanced) (hslot : k.allocSlot = some i)
    (hpath : path.head? = some slash) :
    (k.allocPid.2.prepareProcRecord a i k.allocPid.1 path state).Balanced ∧
      i ∉ (k.allocPid.2.prepareProcRecord a i k.allocPid.1 path
        state).runners := by
  obtain ⟨hframed, hidle⟩ :=
    @Kernel.Framed.prepare k i a path state h.framed hslot hpath
  obtain ⟨next, halloc⟩ := allocPid_eq k
  have hdesk : k.allocPid.2.desk = k.desk := by
    rw [halloc]
    rfl
  have hcalm := @prepareProcRecord_calm k.allocPid.2 i a state k.allocPid.1 path
  refine ⟨h.rehouse hframed (h.framed.idle_of_allocSlot hslot) ?_ ?_, hidle⟩
  · rw [hcalm.frames, halloc]
  · rw [desk_prepareProcRecord, hdesk]
    rw [hdesk]
    exact h.housed

theorem Kernel.Balanced.stdio {path : List UInt8} {io : Stdio} {ready : Bool}
    {k1 : Kernel} (h : k.Balanced) (hslot : k.allocSlot = some i)
    (hpath : path.head? = some slash)
    (hstdio : (k.allocPid.2.prepareProcRecord a i k.allocPid.1 path
      .running).applyStdioOverrides i k.currentProc io = (ready, k1)) :
    (Kernel.Balanced { k1 with frames := .sync i :: k1.frames } ∧
      i ∉ k1.runners) ∧
      ((k1.fdReleaseAll i).modifyProc i fun _ => Proc.zero).Balanced := by
  obtain ⟨hprepared, hidle⟩ :=
    @Kernel.Balanced.prepare k i a path .running h hslot hpath
  generalize k.allocPid.2.prepareProcRecord a i k.allocPid.1 path .running
    = k2 at *
  obtain ⟨hcalm, hcards⟩ := @applyStdioOverrides_calm k2 i k.currentProc io
  have hdesk := desk_applyStdioOverrides i k.currentProc io k2
  rw [hstdio] at hcalm hcards hdesk
  have hready : k1.Balanced := hprepared.quiet (hcalm.quiet hcards hdesk)
  have hidle1 : i ∉ k1.runners := by
    unfold Kernel.runners
    rw [hcalm.frames]
    exact hidle
  refine ⟨⟨hready.push ?_ rfl rfl rfl, hidle1⟩, ?_⟩
  · refine hready.framed.push rfl rfl rfl rfl ?_
    intro j hj
    obtain rfl : i = j := Option.some.inj hj
    exact hidle1
  · -- the new record is cleared again
    have hzero : ((k1.fdReleaseAll i).modifyProc i fun _ => Proc.zero).cards
        = Function.update k1.cards i Proc.zero.card := by
      rw [cards_update rfl, cards_fdReleaseAll]
    have hcleared : ((k1.fdReleaseAll i).modifyProc i fun _ => Proc.zero).desk
        = { k1.desk with cr3s := Function.update k1.desk.cr3s i 0 } := by
      rw [desk_modifyProc_cr3 rfl, desk_fdReleaseAll]
      rfl
    refine hready.change (hready.framed.setCard hzero hidle1 nofun rfl rfl)
      hidle1 rfl ?_ rfl rfl rfl ?_
    · rw [hcleared]
      exact hready.housed.share (.inl rfl)
    · intro l hl
      rw [hcleared]
      exact Function.update_of_ne hl ..

-- ==== events

theorem markWaiting_quiet {pid : UInt64} : k.Quiet (k.markWaiting a pid) := by
  unfold Kernel.markWaiting
  split
  · exact .refl k
  · refine (modifyProc_calm.trans setBlock_calm).quiet ?_ ?_
    · rw [cards_setBlock]
      exact cards_same rfl rfl
    · rw [desk_setBlock, desk_modifyProc]
      intro p
      rfl

theorem wake_quiet : k.Quiet (k.wake a i) := by
  have hcursor : k.Quiet { k with dispatchCursor := (i.val + 1) % maxProcs } :=
    ⟨rfl, rfl, rfl, rfl⟩
  unfold Kernel.wake
  simp only []
  split
  · exact hcursor.trans
      (clearBlock_calm.quiet (cards_clearBlock ..) (desk_clearBlock ..))
  · exact hcursor

theorem Kernel.Calls.balanced {kc : Kernel} (hcall : k.Calls a e i kc)
    (h : k.Balanced) : kc.Balanced ∧ i ∉ kc.runners := by
  cases hcall with
  | exec hidle hpath hslot hstdio => exact (h.stdio hslot hpath hstdio).1
  | @waitPid pid i hidle hawaited =>
    have hwaiting := h.quiet (@markWaiting_quiet k a pid)
    have hpending : ((k.markWaiting a pid).cards i).state ≠ .running := by
      rw [markWaiting_quiet.cards, awaited_some hawaited]
      nofun
    refine ⟨hwaiting.push ?_ rfl rfl rfl,
      hwaiting.framed.idle_of_state hpending⟩
    exact hwaiting.framed.push rfl rfl rfl rfl nofun
  | @dispatch i hpending =>
    have hwoken := h.quiet (@wake_quiet k i a)
    have hpending : ((k.wake a i).cards i).state ≠ .running := by
      rw [wake_quiet.cards, nextPending_some hpending]
      nofun
    refine ⟨hwoken.push ?_ rfl rfl rfl, hwoken.framed.idle_of_state hpending⟩
    exact hwoken.framed.push rfl rfl rfl rfl nofun
  | @resume i frames hframes =>
    refine ⟨h, ?_⟩
    have hapart := h.framed.apart
    rw [hframes, List.pairwise_cons] at hapart
    rw [runners_cons hframes rfl]
    intro hi
    obtain ⟨inner, hinner, hruns⟩ := List.mem_filterMap.mp hi
    exact hapart.1 inner hinner i rfl hruns

theorem modifyLevel_quiet {f : Level → Level}
    (hf : ∀ level, (f level).pid = level.pid) : k.Quiet (k.modifyLevel f) := by
  refine ⟨?_, ?_, ?_, desk_modifyLevel f k⟩
  · unfold Kernel.modifyLevel
    split <;> rfl
  · unfold Kernel.modifyLevel
    split
    · rfl
    · next level levels hstack =>
      rw [hstack, List.map_cons, List.map_cons, hf]
  · unfold Kernel.modifyLevel
    split <;> rfl

theorem Kernel.Balanced.procKill {pid signal : UInt64} (h : k.Balanced) :
    (k.procKill a pid signal).2.Balanced ∧
      (k.procKill a pid signal).2.frames = k.frames := by
  rcases procKill_cases k a pid signal with heq | ⟨i, s, -, -, -, hsignal⟩
  · rw [heq]
    exact ⟨h, rfl⟩
  generalize (k.procKill a pid signal).2 = k2 at hsignal ⊢
  have hquiet1 : k.Quiet (k.modifyProc i (Proc.signalled s)) :=
    modifyProc_calm.quiet (cards_same rfl rfl) (desk_same rfl rfl rfl rfl rfl rfl)
  generalize k.modifyProc i (Proc.signalled s) = k1 at hquiet1 hsignal
  have h1 : k1.Balanced := h.quiet hquiet1
  have hpids : (k1.cards i).used = true → (k1.cards i).pid ≠ 0 ∧
      (k1.cards i).path.head? = some slash :=
    fun hused => ⟨h1.framed.pids i hused, h1.framed.rooted i hused⟩
  -- a process that is not run changes its state
  have hset : ∀ state threadState, (k1.procs i).state ≠ .running →
      (k1.setState (a.grown 0) i state threadState .none).Balanced ∧
        (k1.setState (a.grown 0) i state threadState .none).frames
          = k.frames := by
    intro state threadState hstate
    have hidle : i ∉ k1.runners := h1.framed.idle_of_state hstate
    have hcalm := @setState_calm k1 i (a.grown 0) state threadState .none
    have hdesk := desk_setState (a.grown 0) k1 i state threadState .none
    refine ⟨h1.change ?_ hidle hcalm.frames ?_
      (congrArg Desk.currentCr3 hdesk) (congrArg Desk.runningDepth hdesk)
      (congrArg Desk.kernelCr3 hdesk)
      fun l _ => congrFun (congrArg Desk.cr3s hdesk) l,
      hcalm.frames.trans hquiet1.frames⟩
    · exact h1.framed.setCard (cards_setState ..) hidle hpids hcalm.pidStack
        hcalm.frames
    · rw [hdesk]
      exact h1.housed
  cases hsignal with
  | nothing => exact ⟨h1, hquiet1.frames⟩
  | continues hstopped =>
    refine hset _ _ ?_
    rw [hstopped]
    nofun
  | stops hpending =>
    refine hset _ _ ?_
    rw [hpending]
    nofun
  | ends _ _ hasleep =>
    have hidle : i ∉ k1.runners := by
      apply h1.framed.idle_of_state
      show (k1.procs i).state ≠ .running
      rcases hasleep with hasleep | hasleep
      · rw [hasleep]
        nofun
      · rw [hasleep]
        nofun
    have hcalm : k1.Calm (k1.markExited a i (signalStatus s)) :=
      markExited_calm
    refine ⟨h1.release ?_ hidle hcalm.frames (desk_markExited ..),
      hcalm.frames.trans hquiet1.frames⟩
    exact h1.framed.setCard (cards_markExited ..) hidle hpids hcalm.pidStack
      hcalm.frames
  | asks =>
    have hlevel := @modifyLevel_quiet k1
      (fun level => { level with
        exitRequested := true, exitStatus := signalStatus s
        stopRequested := level.stopRequested || s = signalStop })
      fun _ => rfl
    exact ⟨h1.quiet hlevel, hlevel.frames.trans hquiet1.frames⟩

theorem dlOpen_quiet {path : List UInt8} : k.Quiet (k.dlOpen a path).2 := by
  obtain ⟨heapUsed, dynlibs, next, heq⟩ := dlOpen_eq k a path
  rw [heq]
  exact ⟨rfl, rfl, rfl, rfl⟩

theorem dlClose_quiet {handle : UInt64} : k.Quiet (k.dlClose handle).2 := by
  obtain ⟨heapUsed, dynlibs, heq⟩ := dlClose_eq k handle
  rw [heq]
  exact ⟨rfl, rfl, rfl, rfl⟩

theorem suspendCurrent_quiet (hsuspend : k.suspendCurrent a = some k') :
    k.Quiet k' := by
  obtain ⟨hcalm, hcards⟩ := suspendCurrent_calm hsuspend
  refine hcalm.quiet hcards ?_
  obtain ⟨i, -, -, rfl | rfl⟩ := suspendCurrent_cases hsuspend
  · exact desk_same rfl rfl rfl rfl rfl rfl
  · rw [desk_setBlock, desk_modifyProc]
    intro p
    rfl

theorem handleException_quiet {vector errorCode rip : UInt64}
    (hfault : k.handleException vector errorCode rip = some (status, k')) :
    k.Quiet k' := by
  obtain ⟨i, -, -, rfl⟩ := handleException_cases hfault
  refine Kernel.Quiet.trans ?_ (modifyLevel_quiet fun _ => rfl)
  exact modifyProc_calm.quiet (cards_same rfl rfl)
    (desk_same rfl rfl rfl rfl rfl rfl)

-- ==== runs

theorem Kernel.Balanced.cases (h : k.Balanced) (hstep : k.step a e = some k') :
    (∃ i kc, k.Calls a e i kc ∧ k' = kc.runSlot a i) ∨
      (∃ k1 callRet, k.Quiet k1 ∧ k1.endRun a callRet = some k') ∨
      k'.Balanced ∧ k'.frames = k.frames := by
  cases step_comes hstep with
  | idle => exact .inr (.inr ⟨h, rfl⟩)
  | run hcall => exact .inl ⟨_, _, hcall, rfl⟩
  | @refused path io i k1 hpath hslot hstdio =>
    have hframes := stdio_frames hstdio
    exact .inr (.inr ⟨(h.stdio hslot hpath hstdio).2, hframes⟩)
  | spawn hpath hslot =>
    refine .inr (.inr ⟨(h.prepare hslot hpath).1,
      prepareProcRecord_calm.frames.trans ?_⟩)
    obtain ⟨next, halloc⟩ := allocPid_eq k
    rw [halloc]
  | @requestExit status =>
    have hquiet : k.Quiet (k.requestExit status) := modifyLevel_quiet fun _ => rfl
    exact .inr (.inr ⟨h.quiet hquiet, hquiet.frames⟩)
  | kill => exact .inr (.inr h.procKill)
  | block _ =>
    exact .inr (.inr ⟨h.quiet (setBlock_calm.quiet (cards_setBlock ..)
      (desk_setBlock ..)), setBlock_calm.frames⟩)
  | unblock _ =>
    exact .inr (.inr ⟨h.quiet (clearBlock_calm.quiet (cards_clearBlock ..)
      (desk_clearBlock ..)), clearBlock_calm.frames⟩)
  | @vm areas i _ =>
    have hquiet := Kernel.Calm.quiet (k := k) modifyProc_calm
      (cards_same rfl rfl) (desk_modifyProc (i := i) (f := fun p =>
        { p with userVmAreas := areas }) fun _ => rfl)
    exact .inr (.inr ⟨h.quiet hquiet, hquiet.frames⟩)
  | dlOpen => exact .inr (.inr ⟨h.quiet dlOpen_quiet, dlOpen_quiet.frames⟩)
  | dlClose => exact .inr (.inr ⟨h.quiet dlClose_quiet, dlClose_quiet.frames⟩)
  | finish hend => exact .inr (.inl ⟨k, _, .refl k, hend⟩)
  | suspend hsuspend hend =>
    exact .inr (.inl ⟨_, _, suspendCurrent_quiet hsuspend, hend⟩)
  | fault hfault hend =>
    exact .inr (.inl ⟨_, _, handleException_quiet hfault, hend⟩)
  | timer => exact .inr (.inr ⟨h.quiet ⟨rfl, rfl, rfl, rfl⟩, rfl⟩)

theorem Kernel.Balanced.step (h : k.Balanced) (hstep : k.step a e = some k') :
    k'.Balanced := by
  rcases h.cases hstep with ⟨i, kc, hcall, rfl⟩ | ⟨k1, callRet, hquiet, hend⟩ |
    ⟨hbalanced, -⟩
  · obtain ⟨hkc, hidle⟩ := hcall.balanced h
    exact hkc.runSlot hidle
  · exact ((h.quiet hquiet).endRun hend).1
  · exact hbalanced

theorem balanced_of_started (h : k.Started) : k.Balanced := by
  have hliving := living_of_booted h.toBooted
  have hcr3s : ∀ i, k.desk.cr3s i = 0 := fun i =>
    congrArg Proc.addressSpaceCr3 (h.procs i)
  have hshared : ∀ i, ¬ k.desk.Private i := fun i hown => hown.2.1 (hcr3s i)
  refine ⟨hliving.framed, ?_, ⟨?_, ?_, h.freeStack, h.pages⟩, ?_⟩
  · unfold Kernel.runners
    rw [h.runningDepth, h.frames]
    rfl
  · exact fun i _ hown => absurd hown (hshared i)
  · exact fun i hown => absurd hown (hshared i)
  · rw [h.frames]
    exact h.currentCr3

theorem balanced_of_run {k0 : Kernel} {C : Answers → Event → Kernel → Prop}
    (h0 : k0.Balanced) (hrun : RunIf C k0 k) : k.Balanced := by
  induction hrun with
  | refl => exact h0
  | tail _ hstep ih =>
    obtain ⟨a, e, -, hstep⟩ := hstep
    exact ih.step hstep

end balance

end Clks.Exec
