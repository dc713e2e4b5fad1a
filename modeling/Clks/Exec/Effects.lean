/-
What the parts of the process runtime change.

A card is what the life of a process goes by: whether the record is used,
its pid, its state and its path. `Calm` is what no part changes that does not start
or end a run or a library: the stacks, the libraries and the next pid.
-/
import Clks.Exec.Steps

namespace Clks.Exec

-- ==== cards

/-- Whether a record is used, whose it is, its state and its program. -/
structure Card where
  used : Bool
  pid : UInt64
  state : ProcState
  path : List UInt8
  deriving DecidableEq

/-- The card of a record. -/
def Proc.card (p : Proc) : Card := ⟨p.used, p.pid, p.state, p.path⟩

/-- The cards of all records. -/
def Kernel.cards (k : Kernel) (i : Fin maxProcs) : Card := (k.procs i).card

/-- The stacks, the libraries and the next pid are the same. -/
structure Kernel.Calm (k k' : Kernel) : Prop where
  pidStack : k'.pidStack = k.pidStack
  frames : k'.frames = k.frames
  dynlibs : k'.dynlibs = k.dynlibs
  nextPid : k'.nextPid = k.nextPid

section effects

variable {k k' k'' : Kernel} {i j : Fin maxProcs} {f : Proc → Proc}
  {a : Answers} {got : Option Nat}

theorem Kernel.Calm.refl (k : Kernel) : k.Calm k := ⟨rfl, rfl, rfl, rfl⟩

theorem Kernel.Calm.trans (h : k.Calm k') (h' : k'.Calm k'') : k.Calm k'' :=
  ⟨h'.pidStack.trans h.pidStack, h'.frames.trans h.frames,
    h'.dynlibs.trans h.dynlibs, h'.nextPid.trans h.nextPid⟩

-- ==== one record

@[simp]
theorem modifyProc_self (k : Kernel) (i : Fin maxProcs) (f : Proc → Proc) :
    (k.modifyProc i f).procs i = f (k.procs i) :=
  Function.update_self ..

@[simp]
theorem modifyProc_other (k : Kernel) (f : Proc → Proc) (h : j ≠ i) :
    (k.modifyProc i f).procs j = k.procs j :=
  Function.update_of_ne h ..

theorem modifyProc_calm : k.Calm (k.modifyProc i f) :=
  ⟨rfl, rfl, rfl, rfl⟩

theorem cards_update {p : Proc} (h : k'.procs = Function.update k.procs i p) :
    k'.cards = Function.update k.cards i p.card := by
  funext j
  unfold Kernel.cards
  rw [h]
  by_cases hj : j = i
  · subst hj
    rw [Function.update_self, Function.update_self]
  · rw [Function.update_of_ne hj, Function.update_of_ne hj]

theorem cards_same {p : Proc} (h : k'.procs = Function.update k.procs i p)
    (hp : p.card = (k.procs i).card) : k'.cards = k.cards := by
  rw [cards_update h, hp]
  exact Function.update_eq_self ..

theorem cards_modifyProc_same (hf : ∀ p, (f p).card = p.card) :
    (k.modifyProc i f).cards = k.cards :=
  cards_same rfl (hf _)

-- ==== resources

theorem releaseRuntime_calm : k.Calm (k.releaseRuntime i) :=
  ⟨rfl, rfl, rfl, rfl⟩

@[simp]
theorem cards_releaseRuntime (k : Kernel) (i : Fin maxProcs) :
    (k.releaseRuntime i).cards = k.cards :=
  cards_same rfl rfl

theorem releaseRuntime_proc {k : Kernel} {i : Fin maxProcs} :
    (k.releaseRuntime i).procs i
      = { k.procs i with
          userVmAreas := [], loadedActive := false, loaded := Image.zero
          runStack := none, savedFrameValid := false } := by
  unfold Kernel.releaseRuntime
  exact modifyProc_self ..

theorem releaseAddressSpace_form (k : Kernel) (i : Fin maxProcs) :
    ∃ freeStack spaces currentCr3, k.releaseAddressSpace i
      = { k with freeStack, spaces, currentCr3 }.modifyProc i fun p =>
        { p with addressSpaceCr3 := 0 } := by
  unfold Kernel.releaseAddressSpace Kernel.destroyAddressSpace
  simp only []
  split
  · next hcr3 =>
    refine ⟨k.freeStack, k.spaces, k.currentCr3, ?_⟩
    unfold Kernel.modifyProc
    rw [← hcr3]
    simp only [Function.update_eq_self]
  split
  · split
    · exact ⟨k.freeStack, k.spaces, k.currentCr3, rfl⟩
    · exact ⟨_, _, _, rfl⟩
  · exact ⟨k.freeStack, k.spaces, k.currentCr3, rfl⟩

theorem releaseAddressSpace_calm : k.Calm (k.releaseAddressSpace i) := by
  obtain ⟨freeStack, spaces, currentCr3, h⟩ := releaseAddressSpace_form k i
  rw [h]
  exact ⟨rfl, rfl, rfl, rfl⟩

@[simp]
theorem cards_releaseAddressSpace (k : Kernel) (i : Fin maxProcs) :
    (k.releaseAddressSpace i).cards = k.cards := by
  obtain ⟨freeStack, spaces, currentCr3, h⟩ := releaseAddressSpace_form k i
  rw [h]
  exact cards_same rfl rfl

theorem createAddressSpace_form (k : Kernel) :
    ∃ freeStack spaces,
      k.createAddressSpace.2 = { k with freeStack, spaces } := by
  unfold Kernel.createAddressSpace
  split
  · exact ⟨k.freeStack, k.spaces, rfl⟩
  split
  · exact ⟨k.freeStack, k.spaces, rfl⟩
  split
  · exact ⟨_, k.spaces, rfl⟩
  · exact ⟨_, _, rfl⟩

theorem createAddressSpace_calm :
    k.Calm k.createAddressSpace.2 ∧ k.createAddressSpace.2.procs = k.procs := by
  obtain ⟨freeStack, spaces, h⟩ := createAddressSpace_form k
  rw [h]
  exact ⟨⟨rfl, rfl, rfl, rfl⟩, rfl⟩

theorem fdReleaseAll_calm : k.Calm (k.fdReleaseAll i) :=
  ⟨rfl, rfl, rfl, rfl⟩

@[simp]
theorem cards_fdReleaseAll (k : Kernel) (i : Fin maxProcs) :
    (k.fdReleaseAll i).cards = k.cards :=
  cards_same rfl rfl

-- ==== states

theorem bindSchedulerTask_form (got : Option Nat) (k : Kernel)
    (i : Fin maxProcs) :
    ∃ id sched heapUsed, (k.bindSchedulerTask got i).2
      = { k with sched, heapUsed }.modifyProc i fun p =>
        { p with schedulerTaskId := id } := by
  unfold Kernel.bindSchedulerTask
  split
  · refine ⟨(k.procs i).schedulerTaskId, k.sched, k.heapUsed, ?_⟩
    unfold Kernel.modifyProc
    simp only [Function.update_eq_self]
  · split
    · exact ⟨_, k.sched, k.heapUsed, rfl⟩
    · exact ⟨_, _, _, rfl⟩

theorem bindSchedulerTask_calm : k.Calm (k.bindSchedulerTask got i).2 := by
  obtain ⟨id, sched, heapUsed, h⟩ := bindSchedulerTask_form got k i
  rw [h]
  exact ⟨rfl, rfl, rfl, rfl⟩

@[simp]
theorem cards_bindSchedulerTask (got : Option Nat) (k : Kernel)
    (i : Fin maxProcs) : (k.bindSchedulerTask got i).2.cards = k.cards := by
  obtain ⟨id, sched, heapUsed, h⟩ := bindSchedulerTask_form got k i
  rw [h]
  exact cards_same rfl rfl

theorem syncSchedulerState_eq (got : Option Nat) (k : Kernel)
    (i : Fin maxProcs) :
    ∃ sched, k.syncSchedulerState got i
      = { (k.bindSchedulerTask got i).2 with sched } := by
  unfold Kernel.syncSchedulerState
  split
  · next k' hbind =>
    rw [hbind]
    exact ⟨k'.sched, rfl⟩
  · next k' hbind =>
    rw [hbind]
    exact ⟨_, rfl⟩

theorem syncSchedulerState_form (got : Option Nat) (k : Kernel)
    (i : Fin maxProcs) :
    ∃ id sched heapUsed, k.syncSchedulerState got i
      = { k with sched, heapUsed }.modifyProc i fun p =>
        { p with schedulerTaskId := id } := by
  obtain ⟨sched, hsync⟩ := syncSchedulerState_eq got k i
  obtain ⟨id, _, heapUsed, hbind⟩ := bindSchedulerTask_form got k i
  rw [hsync, hbind]
  exact ⟨id, sched, heapUsed, rfl⟩

theorem syncSchedulerState_calm : k.Calm (k.syncSchedulerState got i) := by
  obtain ⟨id, sched, heapUsed, h⟩ := syncSchedulerState_form got k i
  rw [h]
  exact ⟨rfl, rfl, rfl, rfl⟩

@[simp]
theorem cards_syncSchedulerState (got : Option Nat) (k : Kernel)
    (i : Fin maxProcs) : (k.syncSchedulerState got i).cards = k.cards := by
  obtain ⟨id, sched, heapUsed, h⟩ := syncSchedulerState_form got k i
  rw [h]
  exact cards_same rfl rfl

variable {state : ProcState} {threadState : ThreadState}
  {reason : BlockReason} {wakeTick waitTargetPid pid status : UInt64}

theorem setState_calm :
    k.Calm (k.setState got i state threadState reason) :=
  modifyProc_calm.trans syncSchedulerState_calm

@[simp]
theorem cards_setState (got : Option Nat) (k : Kernel) (i : Fin maxProcs)
    (state : ProcState) (threadState : ThreadState) (reason : BlockReason) :
    (k.setState got i state threadState reason).cards
      = Function.update k.cards i { k.cards i with state } := by
  unfold Kernel.setState
  rw [cards_syncSchedulerState, cards_update rfl]
  congr 1
  split_ifs <;> rfl

theorem setBlock_calm :
    k.Calm (k.setBlock got i reason wakeTick waitTargetPid) :=
  modifyProc_calm.trans syncSchedulerState_calm

@[simp]
theorem cards_setBlock (got : Option Nat) (k : Kernel) (i : Fin maxProcs)
    (reason : BlockReason) (wakeTick waitTargetPid : UInt64) :
    (k.setBlock got i reason wakeTick waitTargetPid).cards = k.cards := by
  unfold Kernel.setBlock
  rw [cards_syncSchedulerState]
  exact cards_same rfl rfl

theorem clearBlock_calm : k.Calm (k.clearBlock got i) :=
  modifyProc_calm.trans syncSchedulerState_calm

@[simp]
theorem cards_clearBlock (got : Option Nat) (k : Kernel) (i : Fin maxProcs) :
    (k.clearBlock got i).cards = k.cards := by
  unfold Kernel.clearBlock
  rw [cards_syncSchedulerState]
  exact cards_same rfl rfl

theorem markRunning_calm : k.Calm (k.markRunning a i) := setState_calm

theorem markExited_calm : k.Calm (k.markExited a i status) := by
  unfold Kernel.markExited
  exact releaseRuntime_calm.trans (releaseAddressSpace_calm.trans
    (fdReleaseAll_calm.trans (setState_calm.trans modifyProc_calm)))

@[simp]
theorem cards_markExited (a : Answers) (i : Fin maxProcs) (status : UInt64)
    (k : Kernel) :
    (k.markExited a i status).cards
      = Function.update k.cards i { k.cards i with state := .exited } := by
  unfold Kernel.markExited
  rw [cards_modifyProc_same, cards_setState, cards_fdReleaseAll,
    cards_releaseAddressSpace, cards_releaseRuntime]
  intro p
  rfl

-- ==== creation

theorem prepareProcRecord_calm {path : List UInt8} :
    k.Calm (k.prepareProcRecord a i pid path state) := by
  unfold Kernel.prepareProcRecord
  simp only []
  exact releaseRuntime_calm.trans (releaseAddressSpace_calm.trans
    (fdReleaseAll_calm.trans (createAddressSpace_calm.1.trans
      (modifyProc_calm.trans (setState_calm.trans
        (bindSchedulerTask_calm.trans modifyProc_calm))))))

@[simp]
theorem cards_prepareProcRecord (a : Answers) (i : Fin maxProcs)
    (pid : UInt64) (path : List UInt8) (state : ProcState) (k : Kernel) :
    (k.prepareProcRecord a i pid path state).cards
      = Function.update k.cards i
        ⟨true, pid, state, path.take (pathMax - 1)⟩ := by
  unfold Kernel.prepareProcRecord
  simp only []
  have hcreate : ∀ k : Kernel, k.createAddressSpace.2.cards = k.cards := by
    intro k
    unfold Kernel.cards
    rw [createAddressSpace_calm.2]
  rw [cards_modifyProc_same, cards_bindSchedulerTask, cards_setState,
    cards_update rfl, Function.update_self, Function.update_idem, hcreate,
    cards_fdReleaseAll, cards_releaseAddressSpace, cards_releaseRuntime]
  · rfl
  · intro p
    rfl

theorem fdCopyFromParent_eq {parent : Option (Fin maxProcs)}
    {parentFd : UInt64} {childFd : Fin fdMax} {read write : Bool} :
    ∃ ptys fds,
      (k.fdCopyFromParent i parent parentFd childFd read write).2
        = { k with ptys }.modifyProc i fun p => { p with fds } := by
  have hnone : ∃ ptys fds,
      k = { k with ptys }.modifyProc i fun p => { p with fds } := by
    refine ⟨k.ptys, (k.procs i).fds, ?_⟩
    unfold Kernel.modifyProc
    simp only [Function.update_eq_self]
  generalize hr : k.fdCopyFromParent i parent parentFd childFd read write = r
  unfold Kernel.fdCopyFromParent at hr
  split at hr
  · subst hr
    exact hnone
  split at hr
  swap
  · subst hr
    exact hnone
  simp only [] at hr
  split at hr
  · subst hr
    exact hnone
  split at hr
  · split at hr <;> subst hr
    · exact ⟨k.ptys, _, rfl⟩
    · next ptys _ => exact ⟨ptys, _, rfl⟩
  · subst hr
    exact ⟨k.ptys, _, rfl⟩

theorem fdCopyFromParent_calm {parent : Option (Fin maxProcs)}
    {parentFd : UInt64} {childFd : Fin fdMax} {read write : Bool} :
    k.Calm (k.fdCopyFromParent i parent parentFd childFd read write).2 ∧
      (k.fdCopyFromParent i parent parentFd childFd read write).2.cards
        = k.cards := by
  obtain ⟨ptys, fds, heq⟩ :=
    @fdCopyFromParent_eq k i parent parentFd childFd read write
  rw [heq]
  exact ⟨⟨rfl, rfl, rfl, rfl⟩, cards_same rfl rfl⟩

theorem applyStdioOverrides_ind {motive : Kernel → Prop}
    {parent : Option (Fin maxProcs)} {io : Stdio}
    (hcopy : ∀ k fd childFd read write, motive k →
      motive (k.fdCopyFromParent i parent fd childFd read write).2)
    (h : motive k) : motive (k.applyStdioOverrides i parent io).2 := by
  have hstep : ∀ k fd childFd read write, motive k →
      motive (if fd = fdInherit then (true, k)
        else k.fdCopyFromParent i parent fd childFd read write).2 := by
    intro k fd childFd read write hk
    split_ifs
    · exact hk
    · exact hcopy k fd childFd read write hk
  unfold Kernel.applyStdioOverrides
  simp only []
  have h1 := hstep k io.stdinFd 0 true false h
  split
  · next k1 hstdin =>
    rw [hstdin] at h1
    exact h1
  next k1 hstdin =>
  rw [hstdin] at h1
  have h2 := hstep k1 io.stdoutFd 1 false true h1
  split
  · next k2 hstdout =>
    rw [hstdout] at h2
    exact h2
  · next k2 hstdout =>
    rw [hstdout] at h2
    exact hstep k2 io.stderrFd 2 false true h2

theorem applyStdioOverrides_calm {parent : Option (Fin maxProcs)}
    {io : Stdio} :
    k.Calm (k.applyStdioOverrides i parent io).2 ∧
      (k.applyStdioOverrides i parent io).2.cards = k.cards := by
  apply applyStdioOverrides_ind (motive := fun k1 =>
    k.Calm k1 ∧ k1.cards = k.cards)
  · intro k1 fd childFd read write hk1
    have hcopy := @fdCopyFromParent_calm k1 i parent fd childFd read write
    exact ⟨hk1.1.trans hcopy.1, hcopy.2.trans hk1.2⟩
  · exact ⟨.refl k, rfl⟩

end effects

end Clks.Exec
