/-
What a run of a program changes, from `clks_exec_run_proc_slot` on.

`Began` and `Ended` say what becomes of the cards, the stacks and the
libraries when a run begins and when it ends, so that facts about runs do
not look into the functions again.
-/
import Clks.Exec.Effects

namespace Clks.Exec

section running

variable {k k' : Kernel} {i j : Fin maxProcs} {a : Answers}
  {prevCr3 : Nat} {switched ok : Bool} {status : UInt64}

-- ==== libraries

/-- The libraries without those of an owner. -/
def releaseOwner (ownerPid : UInt64) (dynlibs : Fin dynlibMax → Dynlib)
    (d : Fin dynlibMax) : Dynlib :=
  if (dynlibs d).used && (dynlibs d).ownerPid = ownerPid then Dynlib.zero
  else dynlibs d

theorem releaseOwner_used {pid : UInt64} {dynlibs : Fin dynlibMax → Dynlib}
    {d : Fin dynlibMax} (h : (releaseOwner pid dynlibs d).used = true) :
    releaseOwner pid dynlibs d = dynlibs d ∧ (dynlibs d).ownerPid ≠ pid := by
  unfold releaseOwner at h ⊢
  split at h
  · cases h
  · next howned =>
    rw [if_neg howned]
    refine ⟨rfl, fun heq => howned ?_⟩
    rw [h, heq]
    simp

theorem dynlibReleaseOwner_calm {pid : UInt64} (hpid : pid ≠ 0) :
    (k.dynlibReleaseOwner pid).dynlibs = releaseOwner pid k.dynlibs ∧
      (k.dynlibReleaseOwner pid).cards = k.cards ∧
      (k.dynlibReleaseOwner pid).pidStack = k.pidStack ∧
      (k.dynlibReleaseOwner pid).frames = k.frames ∧
      (k.dynlibReleaseOwner pid).nextPid = k.nextPid := by
  unfold Kernel.dynlibReleaseOwner
  rw [if_neg hpid]
  exact ⟨rfl, rfl, rfl, rfl, rfl⟩

-- ==== beginning

theorem switchAddressSpace_calm {target : Nat} :
    k.Calm (k.switchAddressSpace target).2 ∧
      (k.switchAddressSpace target).2.procs = k.procs := by
  unfold Kernel.switchAddressSpace
  simp only []
  split_ifs
  · exact ⟨.refl _, rfl⟩
  · exact ⟨⟨rfl, rfl, rfl, rfl⟩, rfl⟩

theorem restoreAddressSpace_calm :
    k.Calm (k.restoreAddressSpace prevCr3 switched) ∧
      (k.restoreAddressSpace prevCr3 switched).procs = k.procs := by
  unfold Kernel.restoreAddressSpace
  split_ifs
  · exact ⟨⟨rfl, rfl, rfl, rfl⟩, rfl⟩
  · exact ⟨.refl _, rfl⟩

theorem cards_of_procs (h : k'.procs = k.procs) : k'.cards = k.cards := by
  unfold Kernel.cards
  rw [h]

theorem leave_left :
    (k.leave prevCr3 switched).cards = k.cards ∧
      (k.leave prevCr3 switched).pidStack = k.pidStack.tail ∧
      { k with pidStack := k.pidStack.tail }.Calm
        (k.leave prevCr3 switched) := by
  obtain ⟨hcalm, hprocs⟩ := @restoreAddressSpace_calm
    { k with pidStack := k.pidStack.tail } prevCr3 switched
  exact ⟨cards_of_procs hprocs, hcalm.pidStack, hcalm⟩

theorem loadProgram_calm :
    k.Calm (k.loadProgram a i).2 ∧
      (k.loadProgram a i).2.cards = k.cards := by
  generalize hr : k.loadProgram a i = r
  unfold Kernel.loadProgram at hr
  simp only [] at hr
  split at hr
  · subst hr
    exact ⟨.refl _, rfl⟩
  · split at hr
    · subst hr
      exact ⟨⟨rfl, rfl, rfl, rfl⟩, cards_releaseRuntime k i⟩
    · split at hr
      · subst hr
        exact ⟨⟨rfl, rfl, rfl, rfl⟩, cards_releaseRuntime k i⟩
      · subst hr
        refine ⟨⟨rfl, rfl, rfl, rfl⟩, ?_⟩
        rw [cards_modifyProc_same]
        · exact cards_releaseRuntime k i
        · intro p
          rfl

theorem invokeEntry_calm :
    k.Calm (k.invokeEntry a i).2 ∧
      (k.invokeEntry a i).2.cards = k.cards := by
  generalize hr : k.invokeEntry a i = r
  unfold Kernel.invokeEntry at hr
  split at hr
  · subst hr
    exact ⟨.refl _, rfl⟩
  · split at hr
    · subst hr
      exact ⟨.refl _, rfl⟩
    · subst hr
      exact ⟨⟨rfl, rfl, rfl, rfl⟩, cards_same rfl rfl⟩

/-- Is a run of the slot refused, before anything is pushed? -/
def Kernel.refuses (k : Kernel) (i : Fin maxProcs) : Prop :=
  (k.cards i).path.head? ≠ some slash ∨ maxDepth ≤ k.pidStack.length

/-- What becomes of a run that is begun. -/
inductive Began (k : Kernel) (i : Fin maxProcs) : Bool × Kernel → Prop
  /-- There is no process in the slot. -/
  | unused : (k.cards i).used = false → Began k i (false, k)
  /-- The process is ended, and nothing else is done. -/
  | refused {k' : Kernel} : (k.cards i).used = true → k.refuses i →
      k.Calm k' →
      k'.cards = Function.update k.cards i { k.cards i with state := .exited } →
      Began k i (false, k')
  /-- The process is ended, and its libraries are released. -/
  | failed {k' : Kernel} : (k.cards i).used = true →
      k'.cards = Function.update k.cards i { k.cards i with state := .exited } →
      k'.dynlibs = releaseOwner (k.cards i).pid k.dynlibs →
      k'.pidStack = k.pidStack → k'.frames = k.frames →
      k'.nextPid = k.nextPid → Began k i (false, k')
  /-- The program runs. -/
  | started {k' : Kernel} {prevCr3 : Nat} {switched : Bool} :
      (k.cards i).used = true →
      k'.cards = Function.update k.cards i { k.cards i with state := .running } →
      k'.dynlibs = k.dynlibs →
      k'.pidStack = ⟨(k.cards i).pid, false, 0, false⟩ :: k.pidStack →
      k'.frames = .entry i prevCr3 switched :: k.frames →
      k'.nextPid = k.nextPid → Began k i (true, k')

theorem leave_release {pid : UInt64} (hpid : pid ≠ 0) :
    ((k.dynlibReleaseOwner pid).leave prevCr3 switched).cards = k.cards ∧
      ((k.dynlibReleaseOwner pid).leave prevCr3 switched).dynlibs
        = releaseOwner pid k.dynlibs ∧
      ((k.dynlibReleaseOwner pid).leave prevCr3 switched).pidStack
        = k.pidStack.tail ∧
      ((k.dynlibReleaseOwner pid).leave prevCr3 switched).frames = k.frames ∧
      ((k.dynlibReleaseOwner pid).leave prevCr3 switched).nextPid
        = k.nextPid := by
  obtain ⟨hlibs, hcards, hstack, hframes, hnext⟩ :=
    @dynlibReleaseOwner_calm k _ hpid
  generalize k.dynlibReleaseOwner pid = k1 at *
  obtain ⟨hlcards, hlstack, hlcalm⟩ := @leave_left k1 prevCr3 switched
  exact ⟨hlcards.trans hcards, hlcalm.dynlibs.trans hlibs,
    hlstack.trans (congrArg List.tail hstack), hlcalm.frames.trans hframes,
    hlcalm.nextPid.trans hnext⟩

theorem runFail_began {k1 : Kernel} {level : Level}
    (hused : (k.cards i).used = true) (hpid : (k.cards i).pid ≠ 0)
    (hcards : k1.cards
      = Function.update k.cards i { k.cards i with state := .running })
    (hdynlibs : k1.dynlibs = k.dynlibs)
    (hstack : k1.pidStack = level :: k.pidStack)
    (hframes : k1.frames = k.frames) (hnext : k1.nextPid = k.nextPid) :
    Began k i (false, k1.runFail a i prevCr3 switched) := by
  have hexit : (k1.markExited a i failed).cards
      = Function.update k.cards i { k.cards i with state := .exited } := by
    rw [cards_markExited, hcards, Function.update_self, Function.update_idem]
  have hcalm : k1.Calm (k1.markExited a i failed) := markExited_calm
  have hwho : ((k1.markExited a i failed).procs i).pid = (k.cards i).pid := by
    have hcard := congrFun hexit i
    rw [Function.update_self] at hcard
    exact congrArg Card.pid hcard
  unfold Kernel.runFail
  simp only []
  rw [hwho]
  generalize k1.markExited a i failed = k2 at hexit hcalm
  obtain ⟨hlcards, hlibs, hlstack, hlframes, hlnext⟩ :=
    @leave_release k2 prevCr3 switched _ hpid
  refine .failed hused (hlcards.trans hexit) ?_ ?_ ?_ ?_
  · rw [hlibs, hcalm.dynlibs, hdynlibs]
  · rw [hlstack, hcalm.pidStack, hstack, List.tail_cons]
  · rw [hlframes, hcalm.frames, hframes]
  · rw [hlnext, hcalm.nextPid, hnext]

theorem runBegin_began (hpid : (k.cards i).used = true → (k.cards i).pid ≠ 0) :
    Began k i (k.runBegin a i) := by
  unfold Kernel.runBegin
  simp only []
  split
  · next hunused =>
    have hcard : (k.procs i).used = false := by simpa using hunused
    exact .unused hcard
  · next hprocused =>
  have hprocused : (k.procs i).used = true := by simpa using hprocused
  have hused : (k.cards i).used = true := hprocused
  have hpid := hpid hused
  split
  · next hpath =>
    exact .refused hused (.inl hpath) markExited_calm (cards_markExited ..)
  split
  · next hdepth =>
    exact .refused hused (.inr hdepth) markExited_calm (cards_markExited ..)
  generalize hswitch : k.switchAddressSpace _ = sw
  obtain ⟨hscalm, hsprocs⟩ := @switchAddressSpace_calm k
    (if (k.procs i).addressSpaceCr3 ≠ 0 then (k.procs i).addressSpaceCr3
      else k.kernelCr3)
  rw [hswitch] at hscalm hsprocs
  obtain ⟨⟨prev, switched⟩, k1⟩ := sw
  have hmcalm : k1.Calm (k1.markRunning a i) := markRunning_calm
  have hmcards : (k1.markRunning a i).cards
      = Function.update k.cards i { k.cards i with state := .running } := by
    unfold Kernel.markRunning
    rw [cards_setState, cards_of_procs hsprocs]
  generalize k1.markRunning a i = k2 at hmcalm hmcards
  have hcalm := hscalm.trans hmcalm
  obtain ⟨hlcalm, hlcards⟩ := @loadProgram_calm
    { k2 with pidStack := ⟨(k.procs i).pid, false, 0, false⟩ :: k2.pidStack }
    i a
  split
  · next k3 hload =>
    rw [hload] at hlcalm hlcards
    exact runFail_began hused hpid (hlcards.trans hmcards)
      (hlcalm.dynlibs.trans hcalm.dynlibs)
      (hlcalm.pidStack.trans (congrArg _ hcalm.pidStack))
      (hlcalm.frames.trans hcalm.frames) (hlcalm.nextPid.trans hcalm.nextPid)
  · next k3 hload =>
    rw [hload] at hlcalm hlcards
    obtain ⟨hicalm, hicards⟩ := @invokeEntry_calm
      { k3 with runningDepth := k3.runningDepth + 1 } i a
    split
    · next k4 hinvoke =>
      rw [hinvoke] at hicalm hicards
      exact runFail_began hused hpid (hicards.trans (hlcards.trans hmcards))
        (hicalm.dynlibs.trans (hlcalm.dynlibs.trans hcalm.dynlibs))
        (hicalm.pidStack.trans
          (hlcalm.pidStack.trans (congrArg _ hcalm.pidStack)))
        (hicalm.frames.trans (hlcalm.frames.trans hcalm.frames))
        (hicalm.nextPid.trans (hlcalm.nextPid.trans hcalm.nextPid))
    · next k4 hinvoke =>
      rw [hinvoke] at hicalm hicards
      exact .started hused (hicards.trans (hlcards.trans hmcards))
        (hicalm.dynlibs.trans (hlcalm.dynlibs.trans hcalm.dynlibs))
        (hicalm.pidStack.trans
          (hlcalm.pidStack.trans (congrArg _ hcalm.pidStack)))
        (congrArg _ (hicalm.frames.trans (hlcalm.frames.trans hcalm.frames)))
        (hicalm.nextPid.trans (hlcalm.nextPid.trans hcalm.nextPid))

-- ==== ending

/-- The slot that a call is about. -/
def Frame.slot : Frame → Option (Fin maxProcs)
  | .entry i _ _ => some i
  | .sync i => some i
  | _ => none

/-- The slot that a call runs. -/
def Frame.runs : Frame → Option (Fin maxProcs)
  | .entry i _ _ => some i
  | _ => none

/-- A run goes back to the call that has begun it. -/
structure Kernel.Returned (k k' : Kernel) : Prop where
  cards : k'.cards = k.cards
  pidStack : k'.pidStack = k.pidStack
  dynlibs : k'.dynlibs = k.dynlibs
  nextPid : k'.nextPid = k.nextPid
  frames : k'.frames = k.frames ∨
    ∃ frame, k.frames = frame :: k'.frames ∧ frame.runs = none

theorem returned_returned : k.Returned (k.returned a ok status) := by
  unfold Kernel.returned
  split
  · next frames hframes =>
    exact ⟨rfl, rfl, rfl, rfl, .inr ⟨_, hframes, rfl⟩⟩
  · next parent frames hframes =>
    simp only []
    split
    · exact ⟨rfl, rfl, rfl, rfl, .inr ⟨_, hframes, rfl⟩⟩
    · next j =>
      have hcalm := @clearBlock_calm
        ({ k with frames, pendingDispatchActive := false }.modifyProc j
          fun p => { p with parentWaiting := false }) j (a.grown 4)
      refine ⟨?_, hcalm.pidStack, hcalm.dynlibs, hcalm.nextPid, .inr ?_⟩
      · rw [cards_clearBlock]
        exact cards_same rfl rfl
      · refine ⟨.waitPid (some j), ?_, rfl⟩
        rw [hcalm.frames]
        exact hframes
  · next j frames hframes =>
    split
    · exact ⟨rfl, rfl, rfl, rfl, .inl rfl⟩
    · exact ⟨rfl, rfl, rfl, rfl, .inr ⟨_, hframes, rfl⟩⟩
  · exact ⟨rfl, rfl, rfl, rfl, .inl rfl⟩

/-- What becomes of the process that is run, when its run ends: it is
suspended, or its libraries are released. -/
structure Ended (k k' : Kernel) (i : Fin maxProcs) : Prop where
  cards : ∃ state, k'.cards
      = Function.update k.cards i { k.cards i with state } ∧
    (state ≠ .exited ∧ k'.dynlibs = k.dynlibs ∨
      k'.dynlibs = releaseOwner (k.cards i).pid k.dynlibs)
  pidStack : k'.pidStack = k.pidStack.tail
  nextPid : k'.nextPid = k.nextPid
  frames : k'.frames = k.frames ∨
    ∃ frame, k.frames = frame :: k'.frames ∧ frame.runs = none

theorem Kernel.Returned.ended {k1 : Kernel} {state : ProcState}
    (h : k1.Returned k')
    (hcards : k1.cards = Function.update k.cards i { k.cards i with state })
    (hdynlibs : state ≠ .exited ∧ k1.dynlibs = k.dynlibs ∨
      k1.dynlibs = releaseOwner (k.cards i).pid k.dynlibs)
    (hstack : k1.pidStack = k.pidStack.tail)
    (hframes : k1.frames = k.frames) (hnext : k1.nextPid = k.nextPid) :
    Ended k k' i where
  cards := by
    refine ⟨state, h.cards.trans hcards, ?_⟩
    rw [h.dynlibs]
    exact hdynlibs
  pidStack := h.pidStack.trans hstack
  nextPid := h.nextPid.trans hnext
  frames := by
    rw [← hframes]
    exact h.frames

theorem runEnd_ended {callRet : UInt64} {level : Level}
    (hpid : (k.cards i).pid ≠ 0) :
    Ended k (k.runEnd a callRet i prevCr3 switched level) i := by
  unfold Kernel.runEnd
  simp only []
  generalize hk1 : (if callRet ≠ internalSuspendStatus &&
    (k.procs i).runStack.isSome then _ else k : Kernel) = k1
  have hcalm1 : k.Calm k1 := by
    subst hk1
    split
    · exact ⟨rfl, rfl, rfl, rfl⟩
    · exact .refl _
  have hcards1 : k1.cards = k.cards := by
    subst hk1
    split
    · exact cards_same rfl rfl
    · rfl
  have hcalm : k.Calm { k1 with runningDepth := k1.runningDepth - 1 } :=
    hcalm1.trans ⟨rfl, rfl, rfl, rfl⟩
  generalize (if level.exitRequested then level.exitStatus else callRet)
    = runRet
  split
  · -- suspended
    generalize hk2 : Kernel.setState _ _ _ _ _ _ = k2
    have hcalm2 : k.Calm k2 := by
      subst hk2
      exact hcalm.trans setState_calm
    have hcards2 : k2.cards
        = Function.update k.cards i { k.cards i with state := .pending } := by
      subst hk2
      rw [cards_setState]
      show Function.update k1.cards i { k1.cards i with state := .pending } = _
      rw [hcards1]
    obtain ⟨hlcards, hlstack, hlcalm⟩ := @leave_left
      (k2.modifyProc i fun p => { p with exitStatus := failed }) prevCr3
      switched
    have hkeep : ProcState.pending ≠ .exited := nofun
    refine returned_returned.ended ?_ (.inl ⟨hkeep, ?_⟩) ?_ ?_ ?_
    · rw [hlcards, ← hcards2]
      exact cards_same rfl rfl
    · exact hlcalm.dynlibs.trans hcalm2.dynlibs
    · exact hlstack.trans (congrArg List.tail hcalm2.pidStack)
    · exact hlcalm.frames.trans hcalm2.frames
    · exact hlcalm.nextPid.trans hcalm2.nextPid
  · -- stopped, or over
    generalize hk2 : (if level.stopRequested then _ else _ : Kernel) = k2
    obtain ⟨state, hcalm2, hcards2⟩ : ∃ state, k.Calm k2 ∧ k2.cards
        = Function.update k.cards i { k.cards i with state } := by
      subst hk2
      split
      · refine ⟨.stopped, ?_, ?_⟩
        · exact hcalm.trans (releaseRuntime_calm.trans
            (releaseAddressSpace_calm.trans
              (setState_calm.trans modifyProc_calm)))
        · rw [cards_modifyProc_same, cards_setState, cards_releaseAddressSpace,
            cards_releaseRuntime]
          · show Function.update k1.cards i _ = _
            rw [← hcards1]
            rfl
          · intro p
            rfl
      · refine ⟨.exited, hcalm.trans markExited_calm, ?_⟩
        rw [cards_markExited]
        show Function.update k1.cards i _ = _
        rw [← hcards1]
        rfl
    have hwho : (k2.procs i).pid = (k.cards i).pid := by
      have hcard := congrFun hcards2 i
      rw [Function.update_self] at hcard
      exact congrArg Card.pid hcard
    rw [hwho]
    obtain ⟨hlcards, hlibs, hlstack, hlframes, hlnext⟩ :=
      @leave_release k2 prevCr3 switched _ hpid
    refine returned_returned.ended (hlcards.trans hcards2) (.inr ?_) ?_ ?_ ?_
    · rw [hlibs, hcalm2.dynlibs]
    · rw [hlstack, hcalm2.pidStack]
    · exact hlframes.trans hcalm2.frames
    · exact hlnext.trans hcalm2.nextPid

end running

end Clks.Exec
