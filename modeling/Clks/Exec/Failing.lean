/-
What an exec that fails leaves behind.

A run that cannot start ends its process again, and the record gives back
all that it holds, but for its task. So the traces are the task, if there
was room for one at any of the tries, the new address space, if the
descriptors were refused after it was made, and what reading the file has
put into the cache.
-/
import Clks.Exec.Tasks
import Clks.Exec.Terminals

namespace Clks.Exec

/-- Pages, address spaces, tasks, references and the heap's total are what
they were. -/
structure Kernel.Traceless (k k' : Kernel) : Prop where
  pages : k'.freeStack.length = k.freeStack.length
  spaces : k'.spaces = k.spaces
  tasks : k'.sched.tasks = k.sched.tasks
  references : k'.ptys = k.ptys
  heap : k'.heapUsed = k.heapUsed

/-- A record that is not used, or whose process has exited. -/
def Proc.ended (p : Proc) : Prop := p.used = false ∨ p.state = .exited

/-- The record holds no memory and no descriptor. -/
structure Proc.Empty (p : Proc) : Prop where
  loadedActive : p.loadedActive = false
  runStack : p.runStack = none
  addressSpaceCr3 : p.addressSpaceCr3 = 0
  fds : ∀ j, (p.fds j).used = false

/-- The state between two calls: records that have ended hold nothing, and
the tables that the kernel keeps are sound. -/
structure Kernel.Rested (k : Kernel) : Prop where
  ended : ∀ i, (k.procs i).ended → (k.procs i).Empty
  sched : k.sched.Sound
  ptys : Referred k.ptys
  pages : ∀ page ∈ k.freeStack, page ≠ 0 ∧ page ≠ k.kernelCr3
  pageCount : k.freeStack.length ≤ maxTrackedPages

/-- The loader puts an image into a block of the heap. -/
def Answers.Loads (a : Answers) : Prop :=
  ∀ loaded, a.loaded = some loaded → loaded.imageBase ≠ 0

/-- The heap's total after the file has been read, and after libraries that
already carry the next pid have been unloaded. -/
def Kernel.heapAfterRead (a : Answers) (k : Kernel) : Nat :=
  ({ k with heapUsed := a.readHeap k.heapUsed }.dynlibReleaseOwner
    k.allocPid.1).heapUsed

/-- An exec that fails has nothing to leave behind: it stops before a
record is taken, or there is no room for a task at any try, and there was no
page for an address space if the descriptors are refused, and otherwise
reading the file, if it comes to that, leaves the heap's total alone. -/
def Kernel.barren (a : Answers) (path : List UInt8) (io : Stdio) (k : Kernel) :
    Bool :=
  path.head? ≠ some slash || k.allocSlot.all fun i =>
    !k.taskRoom a &&
      if k.stdioOk a i io then
        !k.sched.hasRoom (a.grown 3) &&
          (maxDepth ≤ k.pidStack.length ||
            !k.sched.hasRoom (a.grown 2) && k.heapAfterRead a = k.heapUsed)
      else k.createAddressSpace.1 = 0

-- ==== stores

/-- The stores that a record may hold something of, and the libraries. -/
structure Store where
  freeStack : List Nat
  spaces : List Nat
  kernelCr3 : Nat
  ptys : Fin ptyMax → Pty
  dynlibs : Fin dynlibMax → Dynlib

/-- The stores of a kernel. -/
def Kernel.store (k : Kernel) : Store :=
  ⟨k.freeStack, k.spaces, k.kernelCr3, k.ptys, k.dynlibs⟩

/-- What a record may hold. -/
structure Assets where
  loadedActive : Bool
  loaded : Image
  runStack : Option Nat
  addressSpaceCr3 : Nat
  fds : Fin fdMax → FdEntry

/-- What a record holds. -/
def Proc.assets (p : Proc) : Assets :=
  ⟨p.loadedActive, p.loaded, p.runStack, p.addressSpaceCr3, p.fds⟩

/-- Some task has been added. -/
def Kernel.Gained (k k' : Kernel) : Prop :=
  k'.sched.Sound ∧
    ∃ id, k.sched.isProcTask id = false ∧ k'.sched.isProcTask id = true

/-- Tasks of processes stay. -/
def Kernel.Grows (k k' : Kernel) : Prop :=
  k.sched.Sound → k'.sched.Sound ∧
    ∀ id, k.sched.isProcTask id = true → k'.sched.isProcTask id = true

/-- Releasing the record gives back all that is missing, and leaves the heap
with this total. -/
structure Refunds (k₀ : Kernel) (heap : Nat) (k : Kernel) (i : Fin maxProcs) :
    Prop where
  sched : k.sched = k₀.sched
  bound : (k.procs i).bound = false
  pages : (k.releaseAddressSpace i).freeStack = k₀.freeStack
  spaces : (k.releaseAddressSpace i).spaces = k₀.spaces
  ptys : Retained k₀.ptys ((List.finRange fdMax).map (k.procs i).fds) k.ptys
  dynlibs : k.dynlibs = k₀.dynlibs
  image : (if (k.procs i).loadedActive then
    unload (k.procs i).loaded k.heapUsed else k.heapUsed) = heap
  runStack : (k.procs i).runStack = none

/-- Nothing is missing, and the heap has this total. -/
structure Settled (k₀ : Kernel) (heap : Nat) (k : Kernel) : Prop where
  sched : k.sched = k₀.sched
  pages : k.freeStack = k₀.freeStack
  spaces : k.spaces = k₀.spaces
  ptys : k.ptys = k₀.ptys
  heap : k.heapUsed = heap

/-- What an attempt comes to: a task more, if there was room for one, and
else nothing but the heap's total. -/
structure Closed (k₀ : Kernel) (room : Bool) (heap : Nat) (k : Kernel) :
    Prop where
  gained : room = true → k₀.Gained k
  settled : room = false → Settled k₀ heap k

section failing

variable {k k' k'' k₀ : Kernel} {i j : Fin maxProcs} {a : Answers}
  {got : Option Nat} {f : Proc → Proc} {heap : Nat}
  {state : ProcState} {threadState : ThreadState} {reason : BlockReason}
  {status : UInt64}

-- ==== tasks

theorem Kernel.Grows.refl (k : Kernel) : k.Grows k :=
  fun hsound => ⟨hsound, fun _ h => h⟩

theorem Kernel.Grows.trans (h : k.Grows k') (h' : k'.Grows k'') :
    k.Grows k'' := by
  intro hsound
  obtain ⟨hsound', htasks⟩ := h hsound
  obtain ⟨hsound'', htasks'⟩ := h' hsound'
  exact ⟨hsound'', fun id hid => htasks' id (htasks id hid)⟩

theorem grows_of_like (h : k.sched.Like k'.sched) : k.Grows k' := by
  intro hsound
  refine ⟨hsound.like h, fun id hid => ?_⟩
  rw [h.tasks]
  exact hid

theorem grows_of_sched (h : k'.sched = k.sched) : k.Grows k' := by
  apply grows_of_like
  rw [h]
  exact .refl _

theorem Kernel.Gained.grow (h : k.Gained k') (hgrows : k'.Grows k'') :
    k.Gained k'' := by
  obtain ⟨hsound, id, hfree, htask⟩ := h
  obtain ⟨hsound', htasks⟩ := hgrows hsound
  exact ⟨hsound', id, hfree, htasks id htask⟩

theorem Kernel.Gained.of_sched (h : k'.Gained k'')
    (hsched : k'.sched = k.sched) : k.Gained k'' := by
  unfold Kernel.Gained at h ⊢
  rw [← hsched]
  exact h

theorem Kernel.Gained.not_traceless (h : k.Gained k') : ¬ k.Traceless k' := by
  intro htraceless
  obtain ⟨-, id, hfree, htask⟩ := h
  unfold Sched.isProcTask at hfree htask
  rw [htraceless.tasks, hfree] at htask
  cases htask

theorem bindSchedulerTask_grows : k.Grows (k.bindSchedulerTask got i).2 := by
  by_cases hbound : (k.procs i).bound = true
  · unfold Kernel.bindSchedulerTask
    rw [if_pos hbound]
    exact .refl k
  · rw [bindSchedulerTask_eq (by simpa using hbound)]
    split
    · exact grows_of_sched rfl
    · next id s hadd =>
      intro hsound
      have hadded := addKernelTaskExId_added hsound hadd
      refine ⟨hadded.sound, fun j hj => ?_⟩
      by_cases hid : j = id
      · subst hid
        exact hadded.task
      · show s.isProcTask j = true
        rw [hadded.others j hid]
        exact hj

theorem bindSchedulerTask_gained (hsound : k.sched.Sound)
    (hbound : (k.procs i).bound = false)
    (hroom : k.sched.hasRoom got = true) :
    k.Gained (k.bindSchedulerTask got i).2 := by
  obtain ⟨⟨id, s⟩, hadd⟩ := Option.isSome_iff_exists.mp hroom
  have hadded := addKernelTaskExId_added hsound hadd
  rw [bindSchedulerTask_eq hbound, hadd]
  exact ⟨hadded.sound, id, hadded.free, hadded.task⟩

theorem bindSchedulerTask_none (hbound : (k.procs i).bound = false)
    (hroom : k.sched.hasRoom got = false) :
    k.bindSchedulerTask got i
      = (false, k.modifyProc i fun p =>
        { p with schedulerTaskId := schedTaskInvalid }) := by
  have hnone : k.sched.addKernelTaskExId got 1 false = none := by
    unfold Sched.hasRoom at hroom
    simpa using hroom
  rw [bindSchedulerTask_eq hbound, hnone]

theorem syncSchedulerState_like :
    (k.bindSchedulerTask got i).2.sched.Like
      (k.syncSchedulerState got i).sched := by
  unfold Kernel.syncSchedulerState
  split
  · next k1 hbind =>
    rw [hbind]
    exact .refl _
  · next k1 hbind =>
    rw [hbind]
    have hstate := @setTaskState_like k1.sched (k1.procs i).schedulerTaskId _
      (toTaskState_ne (k1.procs i).state (k1.procs i).threadState
        (k1.procs i).blockedReason)
    simp only []
    split
    · exact hstate.trans sleepTaskUntil_like
    · exact hstate

theorem setState_sync (got : Option Nat) (i : Fin maxProcs)
    (state : ProcState) (threadState : ThreadState) (reason : BlockReason)
    (k : Kernel) :
    ∃ k1 : Kernel,
      k.setState got i state threadState reason = k1.syncSchedulerState got i ∧
      k1.sched = k.sched ∧ k1.heapUsed = k.heapUsed ∧
      (k1.procs i).bound = (k.procs i).bound := by
  refine ⟨_, rfl, rfl, rfl, ?_⟩
  rw [modifyProc_self]
  split <;> rfl

theorem setState_grows :
    k.Grows (k.setState got i state threadState reason) := by
  obtain ⟨k1, hstate, hsched, -⟩ :=
    setState_sync got i state threadState reason k
  rw [hstate]
  exact (grows_of_sched hsched).trans
    (bindSchedulerTask_grows.trans (grows_of_like syncSchedulerState_like))

theorem setState_gained (hsound : k.sched.Sound)
    (hbound : (k.procs i).bound = false)
    (hroom : k.sched.hasRoom got = true) :
    k.Gained (k.setState got i state threadState reason) := by
  obtain ⟨k1, hstate, hsched, -, hb⟩ :=
    setState_sync got i state threadState reason k
  rw [← hsched] at hsound hroom
  rw [hstate]
  have hbind := bindSchedulerTask_gained hsound (hb.trans hbound) hroom
  exact (hbind.grow (grows_of_like syncSchedulerState_like)).of_sched hsched

theorem setState_none (hbound : (k.procs i).bound = false)
    (hroom : k.sched.hasRoom got = false) :
    (k.setState got i state threadState reason).sched = k.sched ∧
      (k.setState got i state threadState reason).heapUsed = k.heapUsed ∧
      ((k.setState got i state threadState reason).procs i).bound = false := by
  obtain ⟨k1, hstate, hsched, hheap, hb⟩ :=
    setState_sync got i state threadState reason k
  rw [← hsched] at hroom
  have hsync : k1.syncSchedulerState got i
      = k1.modifyProc i fun p =>
        { p with schedulerTaskId := schedTaskInvalid } := by
    unfold Kernel.syncSchedulerState
    rw [bindSchedulerTask_none (hb.trans hbound) hroom]
  rw [hstate, hsync]
  refine ⟨hsched, hheap, ?_⟩
  rw [modifyProc_self]
  rfl

-- ==== stores

theorem bindSchedulerTask_store :
    (k.bindSchedulerTask got i).2.store = k.store := by
  obtain ⟨id, sched, heapUsed, h⟩ := bindSchedulerTask_form got k i
  rw [h]
  rfl

theorem setState_store :
    (k.setState got i state threadState reason).store = k.store := by
  unfold Kernel.setState
  generalize hk1 : Kernel.modifyProc i _ k = k1
  obtain ⟨id, sched, heapUsed, h⟩ := syncSchedulerState_form got k1 i
  rw [h, ← hk1]
  rfl

theorem setState_assets :
    ((k.setState got i state threadState reason).procs i).assets
      = (k.procs i).assets := by
  obtain ⟨id, wakeTick, waitTargetPid, hproc⟩ :=
    setState_proc got i state threadState reason k
  rw [hproc]
  rfl

theorem leave_store {prevCr3 : Nat} {switched : Bool} :
    (k.leave prevCr3 switched).store = k.store := by
  unfold Kernel.leave Kernel.restoreAddressSpace
  split_ifs <;> rfl

theorem switchAddressSpace_store {target : Nat} :
    (k.switchAddressSpace target).2.store = k.store := by
  unfold Kernel.switchAddressSpace
  simp only []
  split_ifs <;> rfl

theorem createAddressSpace_store (h : k'.store = k.store) :
    k'.createAddressSpace.1 = k.createAddressSpace.1 ∧
      k'.createAddressSpace.2.store = k.createAddressSpace.2.store := by
  have hpages : k'.freeStack = k.freeStack := congrArg Store.freeStack h
  have hspaces : k'.spaces = k.spaces := congrArg Store.spaces h
  have hkernel : k'.kernelCr3 = k.kernelCr3 := congrArg Store.kernelCr3 h
  have hptys : k'.ptys = k.ptys := congrArg Store.ptys h
  have hlibs : k'.dynlibs = k.dynlibs := congrArg Store.dynlibs h
  unfold Kernel.createAddressSpace
  rw [hkernel, hpages]
  split
  · exact ⟨rfl, h⟩
  · split
    · exact ⟨rfl, h⟩
    · split
      · refine ⟨rfl, ?_⟩
        unfold Kernel.store
        simp only [hspaces, hptys, hlibs]
      · refine ⟨rfl, ?_⟩
        unfold Kernel.store
        simp only [hspaces, hptys, hlibs]

theorem releaseAddressSpace_pages (hpages : k'.freeStack = k.freeStack)
    (hspaces : k'.spaces = k.spaces) (hkernel : k'.kernelCr3 = k.kernelCr3)
    (hcr3 : (k'.procs i).addressSpaceCr3 = (k.procs i).addressSpaceCr3) :
    (k'.releaseAddressSpace i).freeStack = (k.releaseAddressSpace i).freeStack ∧
      (k'.releaseAddressSpace i).spaces = (k.releaseAddressSpace i).spaces := by
  unfold Kernel.releaseAddressSpace Kernel.destroyAddressSpace
  simp only []
  rw [hcr3, hkernel]
  unfold Kernel.modifyProc
  split_ifs <;> simp only [hpages, hspaces, and_self]

theorem releaseRuntime_heap (hstack : (k.procs i).runStack = none) :
    (k.releaseRuntime i).heapUsed
      = if (k.procs i).loadedActive then unload (k.procs i).loaded k.heapUsed
        else k.heapUsed := by
  unfold Kernel.releaseRuntime
  simp only []
  rw [hstack]
  rfl

-- ==== refunds

theorem Refunds.reload {heap' : Nat} (h : Refunds k₀ heap k i)
    (hsched : k'.sched = k.sched) (hbound : (k'.procs i).bound = false)
    (hstore : k'.store = k.store)
    (hcr3 : (k'.procs i).addressSpaceCr3 = (k.procs i).addressSpaceCr3)
    (hfds : (k'.procs i).fds = (k.procs i).fds)
    (himage : (if (k'.procs i).loadedActive then
      unload (k'.procs i).loaded k'.heapUsed else k'.heapUsed) = heap')
    (hstack : (k'.procs i).runStack = none) : Refunds k₀ heap' k' i := by
  obtain ⟨hpages, hspaces⟩ := @releaseAddressSpace_pages k k' i
    (congrArg Store.freeStack hstore) (congrArg Store.spaces hstore)
    (congrArg Store.kernelCr3 hstore) hcr3
  have hptys : k'.ptys = k.ptys := congrArg Store.ptys hstore
  have hlibs : k'.dynlibs = k.dynlibs := congrArg Store.dynlibs hstore
  refine ⟨hsched.trans h.sched, hbound, hpages.trans h.pages,
    hspaces.trans h.spaces, ?_, hlibs.trans h.dynlibs, himage, hstack⟩
  rw [hfds, hptys]
  exact h.ptys

theorem Refunds.same (h : Refunds k₀ heap k i) (hsched : k'.sched = k.sched)
    (hbound : (k'.procs i).bound = false) (hstore : k'.store = k.store)
    (hassets : (k'.procs i).assets = (k.procs i).assets)
    (hheap : k'.heapUsed = k.heapUsed) : Refunds k₀ heap k' i := by
  have hactive : (k'.procs i).loadedActive = (k.procs i).loadedActive :=
    congrArg Assets.loadedActive hassets
  have hloaded : (k'.procs i).loaded = (k.procs i).loaded :=
    congrArg Assets.loaded hassets
  refine h.reload hsched hbound hstore
    (congrArg Assets.addressSpaceCr3 hassets) (congrArg Assets.fds hassets) ?_
    ((congrArg Assets.runStack hassets).trans h.runStack)
  rw [hactive, hloaded, hheap]
  exact h.image

theorem Refunds.setState (h : Refunds k₀ heap k i)
    (hroom : k.sched.hasRoom got = false) :
    Refunds k₀ heap (k.setState got i state threadState reason) i := by
  obtain ⟨hsched, hheap, hbound⟩ := setState_none h.bound hroom
  exact h.same hsched hbound setState_store setState_assets hheap

theorem releaseAddressSpace_rest :
    (k.releaseAddressSpace i).sched = k.sched ∧
      (k.releaseAddressSpace i).heapUsed = k.heapUsed ∧
      (k.releaseAddressSpace i).ptys = k.ptys ∧
      (k.releaseAddressSpace i).dynlibs = k.dynlibs ∧
      ((k.releaseAddressSpace i).procs i).fds = (k.procs i).fds ∧
      ((k.releaseAddressSpace i).procs i).bound = (k.procs i).bound := by
  obtain ⟨freeStack, spaces, currentCr3, h⟩ := releaseAddressSpace_form k i
  rw [h, modifyProc_self]
  exact ⟨rfl, rfl, rfl, rfl, rfl, rfl⟩

theorem fdReleaseAll_ptys {base : Fin ptyMax → Pty} (hbase : Referred base)
    (h : Retained base ((List.finRange fdMax).map (k.procs i).fds) k.ptys) :
    (k.fdReleaseAll i).ptys = base := by
  have hrelease := h.releaseAll hbase
  rw [List.foldl_map] at hrelease
  exact hrelease

theorem Refunds.markExited (h : Refunds k₀ heap k i)
    (hptys : Referred k₀.ptys) :
    (k.sched.hasRoom (a.grown 3) = false →
        Settled k₀ heap (k.markExited a i status) ∧
          (k.markExited a i status).dynlibs = k₀.dynlibs) ∧
      (k₀.sched.Sound → k.sched.hasRoom (a.grown 3) = true →
        k₀.Gained (k.markExited a i status)) := by
  unfold Kernel.markExited
  have hproc1 := @releaseRuntime_proc k i
  have hsched1 : (k.releaseRuntime i).sched = k.sched := rfl
  have hstore1 : (k.releaseRuntime i).store = k.store := rfl
  have hheap1 : (k.releaseRuntime i).heapUsed = heap :=
    (releaseRuntime_heap h.runStack).trans h.image
  generalize k.releaseRuntime i = k1 at *
  have hcr31 : (k1.procs i).addressSpaceCr3 = (k.procs i).addressSpaceCr3 := by
    rw [hproc1]
  have hfds1 : (k1.procs i).fds = (k.procs i).fds := by
    rw [hproc1]
  have hbound1 : (k1.procs i).bound = false := by
    rw [hproc1]
    exact h.bound
  obtain ⟨hsched2, hheap2, hptys2, hlibs2, hfds2, hbound2⟩ :=
    @releaseAddressSpace_rest k1 i
  obtain ⟨hpages2, hspaces2⟩ := @releaseAddressSpace_pages k k1 i
    (congrArg Store.freeStack hstore1) (congrArg Store.spaces hstore1)
    (congrArg Store.kernelCr3 hstore1) hcr31
  generalize k1.releaseAddressSpace i = k2 at *
  have hretained : Retained k₀.ptys
      ((List.finRange fdMax).map (k2.procs i).fds) k2.ptys := by
    have hptys1 : k1.ptys = k.ptys := congrArg Store.ptys hstore1
    rw [hfds2, hfds1, hptys2, hptys1]
    exact h.ptys
  have hptys3 := fdReleaseAll_ptys hptys hretained
  have hbound3 : ((k2.fdReleaseAll i).procs i).bound = false := by
    unfold Kernel.fdReleaseAll
    rw [modifyProc_self]
    exact hbound2.trans hbound1
  have hsched3 : (k2.fdReleaseAll i).sched = k.sched := hsched2.trans hsched1
  constructor
  · intro hroom
    rw [← hsched3] at hroom
    obtain ⟨hsched, hheap, -⟩ := @setState_none _ i _ .exited .zombie .none
      hbound3 hroom
    have hstore := @setState_store (k2.fdReleaseAll i) i (a.grown 3) .exited
      .zombie .none
    refine ⟨⟨?_, ?_, ?_, ?_, ?_⟩, ?_⟩
    · exact hsched.trans (hsched3.trans h.sched)
    · refine (congrArg Store.freeStack hstore).trans ?_
      exact hpages2.trans h.pages
    · refine (congrArg Store.spaces hstore).trans ?_
      exact hspaces2.trans h.spaces
    · exact (congrArg Store.ptys hstore).trans hptys3
    · exact hheap.trans (hheap2.trans hheap1)
    · refine (congrArg Store.dynlibs hstore).trans (hlibs2.trans ?_)
      exact (congrArg Store.dynlibs hstore1).trans h.dynlibs
  · intro hsound hroom
    have hsame : (k2.fdReleaseAll i).sched = k₀.sched := hsched3.trans h.sched
    rw [h.sched, ← hsame] at hroom
    rw [← hsame] at hsound
    have hgained := @setState_gained _ i _ .exited .zombie .none hsound hbound3
      hroom
    exact hgained.of_sched hsame

-- ==== creation

theorem cleared_empty (h : (k.procs i).Empty) :
    (((k.releaseRuntime i).releaseAddressSpace i).fdReleaseAll i).store
        = k.store ∧
      (((k.releaseRuntime i).releaseAddressSpace i).fdReleaseAll i).sched
        = k.sched ∧
      (((k.releaseRuntime i).releaseAddressSpace i).fdReleaseAll i).heapUsed
        = k.heapUsed := by
  have hproc1 := @releaseRuntime_proc k i
  have hstore1 : (k.releaseRuntime i).store = k.store := rfl
  have hsched1 : (k.releaseRuntime i).sched = k.sched := rfl
  have hheap1 : (k.releaseRuntime i).heapUsed = k.heapUsed := by
    rw [releaseRuntime_heap h.runStack, h.loadedActive]
    rfl
  generalize k.releaseRuntime i = k1 at *
  have hcr3 : (k1.procs i).addressSpaceCr3 = 0 := by
    rw [hproc1]
    exact h.addressSpaceCr3
  have hfds : ∀ j, ((k1.procs i).fds j).used = false := by
    rw [hproc1]
    exact h.fds
  have hspace : k1.releaseAddressSpace i = k1 := by
    unfold Kernel.releaseAddressSpace
    simp only []
    exact if_pos hcr3
  have hptys : (k1.fdReleaseAll i).ptys = k1.ptys :=
    releaseAll_unused hfds k1.ptys _
  rw [hspace]
  refine ⟨?_, hsched1, hheap1⟩
  rw [← hstore1]
  unfold Kernel.store
  rw [hptys]
  rfl

theorem createAddressSpace_cases
    (hpages : ∀ page ∈ k.freeStack, page ≠ 0 ∧ page ≠ k.kernelCr3) :
    k.createAddressSpace = (0, k) ∨
      ∃ page pages, k.freeStack = page :: pages ∧ page ≠ 0 ∧
        page ≠ k.kernelCr3 ∧ k.kernelCr3 ≠ 0 ∧
        k.createAddressSpace
          = (page, { k with freeStack := pages, spaces := page :: k.spaces }) := by
  unfold Kernel.createAddressSpace
  split
  · exact .inl rfl
  next hkernel =>
  split
  · exact .inl rfl
  next page pages hcons =>
  obtain ⟨hpage, hnot⟩ := hpages page (by rw [hcons]; exact List.mem_cons_self)
  rw [if_neg hpage]
  exact .inr ⟨page, pages, hcons, hpage, hnot, hkernel, rfl⟩

theorem newCr3_release
    (hpages : ∀ page ∈ k.freeStack, page ≠ 0 ∧ page ≠ k.kernelCr3)
    (hcount : k.freeStack.length ≤ maxTrackedPages)
    (hstore : k'.store = k.createAddressSpace.2.store)
    (hcr3 : (k'.procs i).addressSpaceCr3 = k.newCr3) :
    (k'.releaseAddressSpace i).freeStack = k.freeStack ∧
      (k'.releaseAddressSpace i).spaces = k.spaces := by
  unfold Kernel.newCr3 at hcr3
  rcases createAddressSpace_cases hpages with hnone |
    ⟨page, pages, hcons, hpage, hnot, hzero, hsome⟩
  · rw [hnone] at hstore hcr3
    have hfree : k'.freeStack = k.freeStack := congrArg Store.freeStack hstore
    have hspaces : k'.spaces = k.spaces := congrArg Store.spaces hstore
    have hkernel : k'.kernelCr3 = k.kernelCr3 :=
      congrArg Store.kernelCr3 hstore
    have hcr3 : (k'.procs i).addressSpaceCr3 = k'.kernelCr3 :=
      hcr3.trans hkernel.symm
    unfold Kernel.releaseAddressSpace
    simp only []
    split
    · exact ⟨hfree, hspaces⟩
    · rw [if_neg (by rw [hcr3]; simp)]
      exact ⟨hfree, hspaces⟩
  · rw [hsome] at hstore hcr3
    have hfree : k'.freeStack = pages := congrArg Store.freeStack hstore
    have hspaces : k'.spaces = page :: k.spaces :=
      congrArg Store.spaces hstore
    have hkernel : k'.kernelCr3 = k.kernelCr3 :=
      congrArg Store.kernelCr3 hstore
    have hcr3 : (k'.procs i).addressSpaceCr3 = page := hcr3.trans (if_neg hpage)
    rw [hcons, List.length_cons] at hcount
    have hroom : ¬ (page = 0 || maxTrackedPages ≤ pages.length) = true := by
      simp only [hpage, decide_false, Bool.false_or, decide_eq_true_eq]
      omega
    unfold Kernel.releaseAddressSpace Kernel.destroyAddressSpace freePage
    simp only []
    rw [hcr3, if_neg hpage, hkernel, if_pos (by simp [hzero, hnot]),
      if_neg (by simp [hpage, hnot])]
    unfold Kernel.modifyProc
    simp only []
    rw [hfree, hspaces, if_neg hroom, hcons]
    exact ⟨rfl, List.erase_cons_head ..⟩

theorem initDefaults_terminal (base : Fin ptyMax → Pty) (ttyIndex : Nat)
    (j : Fin fdMax) : (initDefaults ttyIndex j).terminal base = none := by
  unfold initDefaults
  split
  · rfl
  · rfl

theorem prepareProcRecord_refunds {pid : UInt64} {path : List UInt8}
    (hrested : k.Rested) (hempty : (k.procs i).Empty) :
    (k.taskRoom a = true →
        k.Gained (k.prepareProcRecord a i pid path state)) ∧
      (k.taskRoom a = false →
        Refunds k k.heapUsed (k.prepareProcRecord a i pid path state) i) ∧
      (k.prepareProcRecord a i pid path state).store
        = k.createAddressSpace.2.store := by
  have hfresh := prepareProcRecord_fresh a i pid path state k
  obtain ⟨hcstore, hcsched, hcheap⟩ := cleared_empty hempty
  unfold Kernel.prepareProcRecord at hfresh ⊢
  simp only [] at hfresh ⊢
  generalize ((k.releaseRuntime i).releaseAddressSpace i).fdReleaseAll i = c
    at hcstore hcsched hcheap hfresh ⊢
  obtain ⟨hcr3, hcreated⟩ := createAddressSpace_store hcstore
  have hnew : c.newCr3 = k.newCr3 := by
    have hkernel : c.createAddressSpace.2.kernelCr3
        = k.createAddressSpace.2.kernelCr3 :=
      congrArg Store.kernelCr3 hcreated
    unfold Kernel.newCr3
    rw [hcr3, hkernel]
  have hcsched' : c.createAddressSpace.2.sched = k.sched ∧
      c.createAddressSpace.2.heapUsed = k.heapUsed := by
    rw [← hcsched, ← hcheap]
    obtain ⟨freeStack, spaces, h⟩ := createAddressSpace_form c
    rw [h]
    exact ⟨rfl, rfl⟩
  generalize hk1 : Kernel.modifyProc i _ c.createAddressSpace.2 = k1 at hfresh ⊢
  have hsched1 : k1.sched = k.sched := by
    subst hk1
    exact hcsched'.1
  have hheap1 : k1.heapUsed = k.heapUsed := by
    subst hk1
    exact hcsched'.2
  have hstore1 : k1.store = k.createAddressSpace.2.store := by
    subst hk1
    exact hcreated
  have hbound1 : (k1.procs i).bound = false := by
    subst hk1
    rw [modifyProc_self]
    rfl
  generalize hthread : (if state = .pending then ThreadState.ready
    else .running) = threadState at hfresh ⊢
  generalize hk2 : k1.setState (a.grown 0) i state threadState .none = k2
    at hfresh ⊢
  have hstore2 : k2.store = k1.store := by
    subst hk2
    exact setState_store
  generalize hk3 : (k2.bindSchedulerTask (a.grown 1) i).2 = k3 at hfresh ⊢
  have hstore3 : k3.store = k2.store := by
    subst hk3
    exact bindSchedulerTask_store
  generalize hk4 : Kernel.modifyProc i _ k3 = k4 at hfresh ⊢
  have hsched4 : k4.sched = k3.sched := by
    subst hk4
    rfl
  have hstore : k4.store = k.createAddressSpace.2.store := by
    rw [← hstore1, ← hstore2, ← hstore3]
    subst hk4
    rfl
  refine ⟨?_, ?_, hstore⟩
  · intro hroom
    unfold Kernel.taskRoom at hroom
    have hsound1 : k1.sched.Sound := by
      rw [hsched1]
      exact hrested.sched
    have hlast : k2.Grows k4 := by
      subst hk3
      exact bindSchedulerTask_grows.trans (grows_of_sched hsched4)
    by_cases hfirst : k.sched.hasRoom (a.grown 0) = true
    · rw [← hsched1] at hfirst
      have hgained := @setState_gained k1 i (a.grown 0) state threadState .none
        hsound1 hbound1 hfirst
      rw [hk2] at hgained
      exact (hgained.grow hlast).of_sched hsched1
    · rw [Bool.or_eq_true, or_iff_right hfirst] at hroom
      rw [← hsched1, Bool.not_eq_true] at hfirst
      obtain ⟨hsched2, -, hbound2⟩ := @setState_none k1 i (a.grown 0) state
        threadState .none hbound1 hfirst
      rw [hk2] at hsched2 hbound2
      have hsame : k2.sched = k.sched := hsched2.trans hsched1
      rw [← hsame] at hroom
      have hsound2 : k2.sched.Sound := by
        rw [hsame]
        exact hrested.sched
      have hgained := bindSchedulerTask_gained hsound2 hbound2 hroom
      rw [hk3] at hgained
      exact (hgained.grow (grows_of_sched hsched4)).of_sched hsame
  · intro hroom
    unfold Kernel.taskRoom at hroom
    rw [Bool.or_eq_false_iff] at hroom
    obtain ⟨hfirst, hsecond⟩ := hroom
    rw [← hsched1] at hfirst
    obtain ⟨hsched2, hheap2, hbound2⟩ := @setState_none k1 i (a.grown 0) state
      threadState .none hbound1 hfirst
    rw [hk2] at hsched2 hheap2 hbound2
    rw [← hsched1, ← hsched2] at hsecond
    rw [bindSchedulerTask_none hbound2 hsecond] at hk3
    have hsched : k4.sched = k.sched := by
      rw [hsched4]
      subst hk3
      exact hsched2.trans hsched1
    have hheap : k4.heapUsed = k.heapUsed := by
      subst hk4 hk3
      exact hheap2.trans hheap1
    have hbound : (k4.procs i).bound = false := by
      subst hk4 hk3
      rw [modifyProc_self, modifyProc_self]
      rfl
    obtain ⟨hpages, hspaces⟩ := newCr3_release hrested.pages hrested.pageCount
      hstore (hfresh.addressSpaceCr3.trans hnew)
    have hptys : k4.ptys = k.ptys :=
      (congrArg Store.ptys hstore).trans createAddressSpace_ptys
    have hlibs : k4.dynlibs = k.dynlibs :=
      (congrArg Store.dynlibs hstore).trans createAddressSpace_calm.1.dynlibs
    refine ⟨hsched, hbound, hpages, hspaces, ?_, hlibs, ?_, hfresh.runStack⟩
    · rw [hptys, hfresh.fds]
      apply retained_nil
      intro entry hentry
      obtain ⟨j, -, rfl⟩ := List.mem_map.mp hentry
      exact initDefaults_terminal ..
    · rw [hfresh.loadedActive]
      exact hheap

-- ==== descriptors

theorem Refunds.put {ptys : Fin ptyMax → Pty} {entry : FdEntry}
    {c : Fin fdMax} (h : Refunds k₀ heap k i)
    (hc : ((k.procs i).fds c).terminal k₀.ptys = none)
    (hptys : Retained k₀.ptys
      (entry :: (List.finRange fdMax).map (k.procs i).fds) ptys) :
    Refunds k₀ heap
      ({ k with ptys }.modifyProc i fun p =>
        { p with fds := Function.update p.fds c entry }) i := by
  obtain ⟨hpages, hspaces⟩ := @releaseAddressSpace_pages k
    ({ k with ptys }.modifyProc i fun p =>
      { p with fds := Function.update p.fds c entry }) i rfl rfl rfl
    (by rw [modifyProc_self])
  refine ⟨h.sched, ?_, hpages.trans h.pages, hspaces.trans h.spaces, ?_,
    h.dynlibs, ?_, ?_⟩
  · rw [modifyProc_self]
    exact h.bound
  · rw [modifyProc_self]
    exact hptys.congr (references_update hc)
  · rw [modifyProc_self]
    exact h.image
  · rw [modifyProc_self]
    exact h.runStack

theorem put_others {ptys : Fin ptyMax → Pty} {entry : FdEntry} {c : Fin fdMax} :
    ∀ j, j ≠ c → (({ k with ptys }.modifyProc i fun p =>
      { p with fds := Function.update p.fds c entry }).procs i).fds j
        = (k.procs i).fds j := by
  intro j hj
  rw [modifyProc_self]
  exact Function.update_of_ne hj ..

theorem Retained.cons_none {base ptys : Fin ptyMax → Pty}
    {entries : List FdEntry} {entry : FdEntry}
    (h : Retained base entries ptys) (hentry : entry.terminal base = none) :
    Retained base (entry :: entries) ptys := by
  apply h.congr
  intro s
  rw [references_cons, hentry]
  rfl

theorem fdCopyFromParent_refunds {parent : Option (Fin maxProcs)}
    {fd : UInt64} {c : Fin fdMax} {read write : Bool}
    (h : Refunds k₀ heap k i)
    (hc : ((k.procs i).fds c).terminal k₀.ptys = none) :
    Refunds k₀ heap (k.fdCopyFromParent i parent fd c read write).2 i ∧
      ∀ j, j ≠ c →
        ((k.fdCopyFromParent i parent fd c read write).2.procs i).fds j
          = (k.procs i).fds j := by
  generalize hr : k.fdCopyFromParent i parent fd c read write = r
  unfold Kernel.fdCopyFromParent at hr
  split at hr
  · subst hr
    exact ⟨h, fun _ _ => rfl⟩
  split at hr
  swap
  · subst hr
    exact ⟨h, fun _ _ => rfl⟩
  next j hfd =>
  simp only [] at hr
  generalize (k.procs j).fds ⟨fd.toNat, hfd⟩ = src at hr
  split at hr
  · subst hr
    exact ⟨h, fun _ _ => rfl⟩
  next hopen =>
  split at hr
  · next hkind =>
    split at hr
    · subst hr
      exact ⟨h.put hc (h.ptys.cons_none rfl), put_others⟩
    · next ptys hretain =>
      subst hr
      have hused : src.used = true := by
        cases hsrc : src.used with
        | true => rfl
        | false => simp [hsrc] at hopen
      have htty : ¬ src.kind = .tty := by
        rw [hkind]
        nofun
      rw [if_neg htty]
      exact ⟨h.put hc (h.ptys.retain hused hkind hretain), put_others⟩
  · next hkind =>
    subst hr
    refine ⟨h.put hc (h.ptys.cons_none ?_), put_others⟩
    unfold FdEntry.terminal
    apply if_neg
    split
    · simp [hkind]
    · simp [hkind]

theorem applyStdioOverrides_refunds {parent : Option (Fin maxProcs)}
    {io : Stdio} {ttyIndex : Nat} (h : Refunds k₀ heap k i)
    (hfds : (k.procs i).fds = initDefaults ttyIndex) :
    Refunds k₀ heap (k.applyStdioOverrides i parent io).2 i := by
  have hnone : ∀ j, ((k.procs i).fds j).terminal k₀.ptys = none := by
    intro j
    rw [hfds]
    exact initDefaults_terminal ..
  have hcopy : ∀ (k : Kernel) fd c read write, Refunds k₀ heap k i →
      ((k.procs i).fds c).terminal k₀.ptys = none →
      Refunds k₀ heap (if fd = fdInherit then (true, k)
        else k.fdCopyFromParent i parent fd c read write).2 i ∧
      ∀ j, j ≠ c → ((if fd = fdInherit then (true, k)
        else k.fdCopyFromParent i parent fd c read write).2.procs i).fds j
          = (k.procs i).fds j := by
    intro k fd c read write hk hc
    split_ifs
    · exact ⟨hk, fun _ _ => rfl⟩
    · exact fdCopyFromParent_refunds hk hc
  unfold Kernel.applyStdioOverrides
  simp only []
  obtain ⟨h1, hothers1⟩ := hcopy k io.stdinFd 0 true false h (hnone 0)
  split
  · next k1 hstdin =>
    rw [hstdin] at h1 hothers1
    exact h1
  next k1 hstdin =>
  rw [hstdin] at h1 hothers1
  have hnone1 : ∀ j, j ≠ 0 → ((k1.procs i).fds j).terminal k₀.ptys = none := by
    intro j hj
    rw [hothers1 j hj]
    exact hnone j
  obtain ⟨h2, hothers2⟩ := hcopy k1 io.stdoutFd 1 false true h1
    (hnone1 1 (by decide))
  split
  · next k2 hstdout =>
    rw [hstdout] at h2 hothers2
    exact h2
  next k2 hstdout =>
  rw [hstdout] at h2 hothers2
  have hnone2 : ((k2.procs i).fds 2).terminal k₀.ptys = none := by
    rw [hothers2 2 (by decide)]
    exact hnone1 2 (by decide)
  exact (hcopy k2 io.stderrFd 2 false true h2 hnone2).1

-- ==== runs

theorem markExited_grows : k.Grows (k.markExited a i status) := by
  unfold Kernel.markExited
  have hreleased : (((k.releaseRuntime i).releaseAddressSpace i).fdReleaseAll
      i).sched = k.sched := (@releaseAddressSpace_rest (k.releaseRuntime i) i).1
  exact (grows_of_sched hreleased).trans setState_grows

theorem dynlibReleaseOwner_rest {pid : UInt64} :
    (k.dynlibReleaseOwner pid).sched = k.sched ∧
      (k.dynlibReleaseOwner pid).freeStack = k.freeStack ∧
      (k.dynlibReleaseOwner pid).spaces = k.spaces ∧
      (k.dynlibReleaseOwner pid).ptys = k.ptys := by
  unfold Kernel.dynlibReleaseOwner
  split
  · exact ⟨rfl, rfl, rfl, rfl⟩
  · exact ⟨rfl, rfl, rfl, rfl⟩

theorem dynlibReleaseOwner_heap {pid : UInt64}
    (hlibs : k'.dynlibs = k.dynlibs) (hheap : k'.heapUsed = k.heapUsed) :
    (k'.dynlibReleaseOwner pid).heapUsed
      = (k.dynlibReleaseOwner pid).heapUsed := by
  unfold Kernel.dynlibReleaseOwner
  rw [hlibs, hheap]
  split
  · exact hheap
  · rfl

theorem leave_rest {prevCr3 : Nat} {switched : Bool} :
    (k.leave prevCr3 switched).sched = k.sched ∧
      (k.leave prevCr3 switched).heapUsed = k.heapUsed := by
  unfold Kernel.leave Kernel.restoreAddressSpace
  split_ifs
  · exact ⟨rfl, rfl⟩
  · exact ⟨rfl, rfl⟩

theorem runFail_grows {prevCr3 : Nat} {switched : Bool} :
    k.Grows (k.runFail a i prevCr3 switched) := by
  unfold Kernel.runFail
  exact markExited_grows.trans ((grows_of_sched dynlibReleaseOwner_rest.1).trans
    (grows_of_sched leave_rest.1))

theorem Refunds.runFail {prevCr3 : Nat} {switched : Bool}
    (h : Refunds k₀ heap k i) (hrested : k₀.Rested) :
    Closed k₀ (k₀.sched.hasRoom (a.grown 3))
      ({ k₀ with heapUsed := heap }.dynlibReleaseOwner (k.procs i).pid).heapUsed
      (k.runFail a i prevCr3 switched) := by
  obtain ⟨hsettled, hgained⟩ :=
    @Refunds.markExited k k₀ i a heap failed h hrested.ptys
  have hpid : ((k.markExited a i failed).procs i).pid = (k.procs i).pid := by
    have hcard := congrFun (cards_markExited a i failed k) i
    rw [Function.update_self] at hcard
    exact congrArg Card.pid hcard
  unfold Kernel.runFail
  simp only []
  rw [h.sched] at hsettled hgained
  rw [hpid]
  generalize k.markExited a i failed = k1 at *
  obtain ⟨hsched, hfree, hspaces, hptys⟩ :=
    @dynlibReleaseOwner_rest k1 (k.procs i).pid
  obtain ⟨hlsched, hlheap⟩ := @leave_rest
    (k1.dynlibReleaseOwner (k.procs i).pid) prevCr3 switched
  have hlstore := @leave_store (k1.dynlibReleaseOwner (k.procs i).pid) prevCr3
    switched
  constructor
  · intro hroom
    exact (hgained hrested.sched hroom).grow
      ((grows_of_sched hsched).trans (grows_of_sched hlsched))
  · intro hroom
    obtain ⟨hk1, hlibs⟩ := hsettled hroom
    refine ⟨?_, ?_, ?_, ?_, ?_⟩
    · exact hlsched.trans (hsched.trans hk1.sched)
    · exact (congrArg Store.freeStack hlstore).trans (hfree.trans hk1.pages)
    · exact (congrArg Store.spaces hlstore).trans (hspaces.trans hk1.spaces)
    · exact (congrArg Store.ptys hlstore).trans (hptys.trans hk1.ptys)
    · exact hlheap.trans (dynlibReleaseOwner_heap hlibs hk1.heap)

theorem Refunds.loadProgram (h : Refunds k₀ heap k i) (hloads : a.Loads)
    (hactive : (k.procs i).loadedActive = false) :
    Refunds k₀ (a.readHeap heap) (k.loadProgram a i).2 i ∧
      ((k.loadProgram a i).2.procs i).pid = (k.procs i).pid := by
  generalize hr : k.loadProgram a i = r
  unfold Kernel.loadProgram at hr
  rw [if_neg (by rw [hactive]; nofun)] at hr
  simp only [] at hr
  have hproc := @releaseRuntime_proc k i
  rw [(releaseRuntime_heap h.runStack).trans h.image] at hr
  have hread : Refunds k₀ (a.readHeap heap)
      { k.releaseRuntime i with heapUsed := a.readHeap heap } i := by
    refine h.reload rfl ?_ rfl ?_ ?_ ?_ ?_
    · rw [hproc]
      exact h.bound
    · rw [hproc]
    · rw [hproc]
    · rw [hproc]
      rfl
    · rw [hproc]
  split at hr
  · subst hr
    refine ⟨hread, ?_⟩
    rw [hproc]
  split at hr
  · subst hr
    refine ⟨hread, ?_⟩
    rw [hproc]
  next loaded hloaded =>
  subst hr
  refine ⟨hread.reload rfl ?_ rfl ?_ ?_ ?_ ?_, ?_⟩
  · rw [modifyProc_self]
    exact hread.bound
  · rw [modifyProc_self]
  · rw [modifyProc_self]
  · rw [modifyProc_self]
    show unload loaded (a.readHeap heap + loaded.block) = a.readHeap heap
    unfold unload
    rw [if_pos (hloads loaded hloaded)]
    exact Nat.add_sub_cancel ..
  · rw [modifyProc_self]
    exact hread.runStack
  · rw [modifyProc_self, hproc]

theorem switchAddressSpace_rest {target : Nat} :
    (k.switchAddressSpace target).2.sched = k.sched ∧
      (k.switchAddressSpace target).2.heapUsed = k.heapUsed := by
  unfold Kernel.switchAddressSpace
  simp only []
  split_ifs
  · exact ⟨rfl, rfl⟩
  · exact ⟨rfl, rfl⟩

theorem loadProgram_sched : (k.loadProgram a i).2.sched = k.sched := by
  unfold Kernel.loadProgram
  split
  · rfl
  simp only []
  split
  · rfl
  · split <;> rfl

theorem invokeEntry_false (h : (k.invokeEntry a i).1 = false) :
    (k.invokeEntry a i).2 = k := by
  unfold Kernel.invokeEntry at h ⊢
  split
  · rfl
  · next hfresh =>
    rw [if_neg hfresh] at h
    split
    · rfl
    · next block hstack =>
      rw [hstack] at h
      cases h

theorem Refunds.runBegin (h : Refunds k₀ k₀.heapUsed k i)
    (hrested : k₀.Rested) (hloads : a.Loads)
    (hused : (k.procs i).used = true)
    (hpath : (k.procs i).path.head? = some slash)
    (hactive : (k.procs i).loadedActive = false)
    (hfalse : (k.runBegin a i).1 = false) :
    if maxDepth ≤ k.pidStack.length then
      Closed k₀ (k₀.sched.hasRoom (a.grown 3)) k₀.heapUsed (k.runBegin a i).2
    else
      Closed k₀ (k₀.sched.hasRoom (a.grown 2) || k₀.sched.hasRoom (a.grown 3))
        ({ k₀ with heapUsed := a.readHeap k₀.heapUsed }.dynlibReleaseOwner
          (k.procs i).pid).heapUsed (k.runBegin a i).2 := by
  generalize hr : k.runBegin a i = r at hfalse ⊢
  unfold Kernel.runBegin at hr
  simp only [] at hr
  rw [if_neg (by rw [hused]; nofun), if_neg (by rw [hpath]; simp)] at hr
  split at hr
  · next hdeep =>
    rw [if_pos hdeep]
    subst hr
    obtain ⟨hsettled, hgained⟩ :=
      @Refunds.markExited k k₀ i a k₀.heapUsed failed h hrested.ptys
    rw [h.sched] at hsettled hgained
    exact ⟨hgained hrested.sched, fun hroom => (hsettled hroom).1⟩
  next hdeep =>
  rw [if_neg hdeep]
  -- the address space
  generalize hswitch : k.switchAddressSpace _ = sw at hr
  have hprocs : sw.2.procs = k.procs := by
    rw [← hswitch]
    exact switchAddressSpace_calm.2
  have hsched : sw.2.sched = k.sched ∧ sw.2.heapUsed = k.heapUsed := by
    rw [← hswitch]
    exact switchAddressSpace_rest
  have hswitched : Refunds k₀ k₀.heapUsed sw.2 i := by
    refine h.same hsched.1 ?_ ?_ ?_ hsched.2
    · rw [hprocs]
      exact h.bound
    · rw [← hswitch]
      exact switchAddressSpace_store
    · rw [hprocs]
  obtain ⟨⟨prevCr3, switched⟩, k1⟩ := sw
  have hprocs : k1.procs = k.procs := hprocs
  have hswitched : Refunds k₀ k₀.heapUsed k1 i := hswitched
  -- the state
  generalize hk2 : k1.markRunning a i = k2 at hr
  have hassets2 : (k2.procs i).assets = (k1.procs i).assets := by
    subst hk2
    exact setState_assets
  have hactive2 : (k2.procs i).loadedActive = false := by
    rw [show (k2.procs i).loadedActive = (k1.procs i).loadedActive from
      congrArg Assets.loadedActive hassets2, hprocs]
    exact hactive
  have hpid2 : (k2.procs i).pid = (k.procs i).pid := by
    obtain ⟨id, wakeTick, waitTargetPid, hproc⟩ :=
      setState_proc (a.grown 2) i .running .running .none k1
    subst hk2
    unfold Kernel.markRunning
    rw [hproc, hprocs]
  have hgained2 : k₀.sched.hasRoom (a.grown 2) = true → k₀.Gained k2 := by
    intro hroom
    have hsound := hrested.sched
    rw [← hswitched.sched] at hroom hsound
    have hgained := @setState_gained k1 i (a.grown 2) .running .running .none
      hsound hswitched.bound hroom
    subst hk2
    exact hgained.of_sched hswitched.sched
  have hrefunds2 : k₀.sched.hasRoom (a.grown 2) = false →
      Refunds k₀ k₀.heapUsed k2 i := by
    intro hroom
    rw [← hswitched.sched] at hroom
    subst hk2
    exact hswitched.setState hroom
  -- what comes of a run that fails after that
  have hclosed : ∀ k3 : Kernel, k3.sched = k2.sched →
      (Refunds k₀ k₀.heapUsed k2 i →
        Refunds k₀ (a.readHeap k₀.heapUsed) k3 i) →
      (k3.procs i).pid = (k.procs i).pid →
      Closed k₀ (k₀.sched.hasRoom (a.grown 2) || k₀.sched.hasRoom (a.grown 3))
        ({ k₀ with heapUsed := a.readHeap k₀.heapUsed }.dynlibReleaseOwner
          (k.procs i).pid).heapUsed (k3.runFail a i prevCr3 switched) := by
    intro k3 hsched3 hrefunds3 hpid3
    rw [← hpid3]
    constructor
    · intro hroom
      by_cases htwo : k₀.sched.hasRoom (a.grown 2) = true
      · exact (hgained2 htwo).grow
          ((grows_of_sched hsched3).trans runFail_grows)
      · rw [Bool.or_eq_true, or_iff_right htwo] at hroom
        rw [Bool.not_eq_true] at htwo
        exact ((hrefunds3 (hrefunds2 htwo)).runFail hrested).gained hroom
    · intro hroom
      rw [Bool.or_eq_false_iff] at hroom
      exact ((hrefunds3 (hrefunds2 hroom.1)).runFail hrested).settled hroom.2
  -- the program
  generalize hk3 : Kernel.loadProgram a i _ = r3 at hr
  have hsched3 : r3.2.sched = k2.sched := by
    rw [← hk3]
    exact loadProgram_sched
  have hrefunds3 : Refunds k₀ k₀.heapUsed k2 i →
      Refunds k₀ (a.readHeap k₀.heapUsed) r3.2 i := by
    intro hrefunds
    rw [← hk3]
    have hpushed : Refunds k₀ k₀.heapUsed { k2 with
        pidStack := ⟨(k.procs i).pid, false, 0, false⟩ :: k2.pidStack } i :=
      hrefunds.same rfl hrefunds.bound rfl rfl rfl
    exact (hpushed.loadProgram hloads hactive2).1
  have hpid3 : (r3.2.procs i).pid = (k.procs i).pid := by
    have hcards := (@loadProgram_calm { k2 with
      pidStack := ⟨(k.procs i).pid, false, 0, false⟩ :: k2.pidStack } i a).2
    rw [hk3] at hcards
    exact (congrArg Card.pid (congrFun hcards i)).trans hpid2
  obtain ⟨ok, k3⟩ := r3
  cases ok with
  | false =>
    subst hr
    exact hclosed k3 hsched3 hrefunds3 hpid3
  | true =>
    simp only [] at hr
    split at hr
    · next k4 hinvoke =>
      have hsame := invokeEntry_false (congrArg Prod.fst hinvoke)
      rw [hinvoke] at hsame
      obtain rfl : k4 = _ := hsame
      subst hr
      refine hclosed _ hsched3 ?_ hpid3
      intro hrefunds
      have hloaded := hrefunds3 hrefunds
      exact hloaded.same rfl hloaded.bound rfl rfl rfl
    · subst hr
      cases hfalse

theorem runBegin_grows : k.Grows (k.runBegin a i).2 := by
  generalize hr : k.runBegin a i = r
  unfold Kernel.runBegin at hr
  simp only [] at hr
  split at hr
  · subst hr
    exact .refl k
  split at hr
  · subst hr
    exact markExited_grows
  split at hr
  · subst hr
    exact markExited_grows
  generalize hswitch : k.switchAddressSpace _ = sw at hr
  have hswitched : k.Grows sw.2 := by
    rw [← hswitch]
    exact grows_of_sched switchAddressSpace_rest.1
  obtain ⟨⟨prevCr3, switched⟩, k1⟩ := sw
  have hmark : k.Grows (k1.markRunning a i) := hswitched.trans setState_grows
  generalize k1.markRunning a i = k2 at hr hmark
  generalize hload : Kernel.loadProgram a i _ = r3 at hr
  have hloaded : k.Grows r3.2 := by
    refine hmark.trans (grows_of_sched ?_)
    rw [← hload]
    exact loadProgram_sched
  obtain ⟨ok, k3⟩ := r3
  cases ok with
  | false =>
    subst hr
    exact hloaded.trans runFail_grows
  | true =>
    simp only [] at hr
    generalize hinvoke : Kernel.invokeEntry a i _ = r4 at hr
    have hinvoked : k.Grows r4.2 := by
      refine hloaded.trans (grows_of_sched ?_)
      rw [← hinvoke]
      unfold Kernel.invokeEntry
      split
      · rfl
      · split <;> rfl
    obtain ⟨ok, k4⟩ := r4
    cases ok with
    | false =>
      subst hr
      have hleft : k4.Grows { k4 with runningDepth := k4.runningDepth - 1 } :=
        grows_of_sched rfl
      exact hinvoked.trans (hleft.trans runFail_grows)
    | true =>
      subst hr
      exact hinvoked.trans (grows_of_sched rfl)

-- ==== exec

theorem applyStdioOverrides_rest {parent : Option (Fin maxProcs)} {io : Stdio} :
    (k.applyStdioOverrides i parent io).2.sched = k.sched ∧
      (k.applyStdioOverrides i parent io).2.heapUsed = k.heapUsed ∧
      (k.applyStdioOverrides i parent io).2.freeStack = k.freeStack ∧
      (k.applyStdioOverrides i parent io).2.spaces = k.spaces ∧
      ((k.applyStdioOverrides i parent io).2.procs i).loadedActive
        = (k.procs i).loadedActive := by
  apply applyStdioOverrides_ind (motive := fun k1 => k1.sched = k.sched ∧
    k1.heapUsed = k.heapUsed ∧ k1.freeStack = k.freeStack ∧
    k1.spaces = k.spaces ∧
    (k1.procs i).loadedActive = (k.procs i).loadedActive)
  · intro k1 fd c read write hk1
    generalize hr : k1.fdCopyFromParent i parent fd c read write = r
    unfold Kernel.fdCopyFromParent at hr
    split at hr
    · subst hr
      exact hk1
    split at hr
    · simp only [] at hr
      split at hr
      · subst hr
        exact hk1
      split at hr
      · split at hr
        all_goals
          subst hr
          refine ⟨hk1.1, hk1.2.1, hk1.2.2.1, hk1.2.2.2.1, ?_⟩
          rw [modifyProc_self]
          exact hk1.2.2.2.2
      · subst hr
        refine ⟨hk1.1, hk1.2.1, hk1.2.2.1, hk1.2.2.2.1, ?_⟩
        rw [modifyProc_self]
        exact hk1.2.2.2.2
    · subst hr
      exact hk1
  · exact ⟨rfl, rfl, rfl, rfl, rfl⟩

theorem Closed.traceless_iff {room : Bool} (h : Closed k₀ room heap k) :
    k₀.Traceless k ↔ room = false ∧ heap = k₀.heapUsed := by
  constructor
  · intro htraceless
    have hroom : room = false := by
      cases room with
      | false => rfl
      | true => exact absurd htraceless (h.gained rfl).not_traceless
    have hsettled := h.settled hroom
    exact ⟨hroom, hsettled.heap.symm.trans htraceless.heap⟩
  · rintro ⟨hroom, hheap⟩
    have hsettled := h.settled hroom
    exact ⟨congrArg List.length hsettled.pages, hsettled.spaces,
      congrArg Sched.tasks hsettled.sched, hsettled.ptys,
      hsettled.heap.trans hheap⟩

theorem refused_traceless_iff (hrested : k₀.Rested)
    (hstore : k.freeStack = k₀.createAddressSpace.2.freeStack ∧
      k.spaces = k₀.createAddressSpace.2.spaces)
    (hactive : (k.procs i).loadedActive = false)
    (h : Refunds k₀ k₀.heapUsed k i) :
    k₀.Traceless ((k.fdReleaseAll i).modifyProc i fun _ => Proc.zero) ↔
      k₀.createAddressSpace.1 = 0 := by
  have hheap : k.heapUsed = k₀.heapUsed := by
    have himage := h.image
    rw [hactive] at himage
    exact himage
  have hptys : (k.fdReleaseAll i).ptys = k₀.ptys :=
    fdReleaseAll_ptys hrested.ptys h.ptys
  rcases createAddressSpace_cases hrested.pages with hnone |
    ⟨page, pages, hcons, hpage, -, -, hsome⟩
  · rw [hnone] at hstore ⊢
    refine ⟨fun _ => rfl, fun _ => ⟨congrArg List.length hstore.1, hstore.2,
      congrArg Sched.tasks h.sched, hptys, hheap⟩⟩
  · rw [hsome] at hstore ⊢
    constructor
    · intro htraceless
      have hpages : k.freeStack.length = k₀.freeStack.length :=
        htraceless.pages
      rw [hstore.1, hcons, List.length_cons] at hpages
      have hless : pages.length = pages.length + 1 := hpages
      omega
    · intro hzero
      exact absurd hzero hpage

theorem returned_sync {frames : List Frame} (h : k.frames = .sync i :: frames) :
    k.returned a false status = { k with frames } := by
  unfold Kernel.returned
  rw [h]
  rfl

theorem exec_refused {path : List UInt8} {pid : UInt64} {cr3 : Nat}
    {k1 k2 : Kernel} {io : Stdio} {parent : Option (Fin maxProcs)}
    (hrested : k₀.Rested)
    (hgained : k₀.taskRoom a = true → k₀.Gained k1)
    (hrefunds : k₀.taskRoom a = false → Refunds k₀ k₀.heapUsed k1 i)
    (hstore : k1.store = k₀.createAddressSpace.2.store)
    (hfresh : (k1.procs i).Fresh a pid path cr3)
    (hrefused : k1.applyStdioOverrides i parent io = (false, k2)) :
    k₀.Traceless ((k2.fdReleaseAll i).modifyProc i fun _ => Proc.zero) ↔
      k₀.taskRoom a = false ∧ k₀.createAddressSpace.1 = 0 := by
  obtain ⟨hsched, hheap, hfree, hspaces, hactive⟩ :=
    @applyStdioOverrides_rest k1 i parent io
  rw [hrefused] at hsched hheap hfree hspaces hactive
  cases hroom : k₀.taskRoom a with
  | true =>
    have hleft : k₀.Gained ((k2.fdReleaseAll i).modifyProc i fun _ =>
        Proc.zero) := (hgained hroom).grow (grows_of_sched hsched)
    refine ⟨fun h => absurd h hleft.not_traceless, ?_⟩
    rintro ⟨hnone, -⟩
    cases hnone
  | false =>
    have hcopied := @applyStdioOverrides_refunds k1 k₀ i k₀.heapUsed parent io
      _ (hrefunds hroom) hfresh.fds
    rw [hrefused] at hcopied
    rw [refused_traceless_iff hrested
      ⟨hfree.trans (congrArg Store.freeStack hstore),
        hspaces.trans (congrArg Store.spaces hstore)⟩
      (hactive.trans hfresh.loadedActive) hcopied]
    exact ⟨fun h => ⟨rfl, h⟩, fun h => h.2⟩

theorem exec_failed {path : List UInt8} {pid : UInt64} {cr3 : Nat}
    {k1 k2 k3 : Kernel} {io : Stdio} {parent : Option (Fin maxProcs)}
    (hrested : k₀.Rested) (hloads : a.Loads) (hpid : pid ≠ 0)
    (hpath : path.head? = some slash)
    (hgained : k₀.taskRoom a = true → k₀.Gained k1)
    (hrefunds : k₀.taskRoom a = false → Refunds k₀ k₀.heapUsed k1 i)
    (hdepth : k1.pidStack = k₀.pidStack)
    (hfresh : (k1.procs i).Fresh a pid path cr3)
    (happlied : k1.applyStdioOverrides i parent io = (true, k2))
    (hrun : { k2 with frames := .sync i :: k2.frames }.runBegin a i
      = (false, k3)) :
    k₀.Traceless (k3.returned a false failed) ↔
      k₀.taskRoom a = false ∧ k₀.sched.hasRoom (a.grown 3) = false ∧
        (maxDepth ≤ k₀.pidStack.length ∨
          k₀.sched.hasRoom (a.grown 2) = false ∧
            ({ k₀ with heapUsed := a.readHeap k₀.heapUsed }.dynlibReleaseOwner
              pid).heapUsed = k₀.heapUsed) := by
  obtain ⟨hsched, hheap, hfree, hspaces, hactive⟩ :=
    @applyStdioOverrides_rest k1 i parent io
  obtain ⟨hcalm, hcards⟩ := @applyStdioOverrides_calm k1 i parent io
  rw [happlied] at hsched hheap hfree hspaces hactive hcalm hcards
  have hcard : (k2.procs i).card = (k1.procs i).card := congrFun hcards i
  have hused : (k2.procs i).used = true :=
    (congrArg Card.used hcard).trans hfresh.used
  have hpid2 : (k2.procs i).pid = pid :=
    (congrArg Card.pid hcard).trans hfresh.pid
  have hpath2 : (k2.procs i).path.head? = some slash := by
    rw [show (k2.procs i).path = (k1.procs i).path from
      congrArg Card.path hcard, hfresh.path, List.head?_take,
      if_neg (by decide)]
    exact hpath
  -- the call goes back to the one that made the process
  have hframes : k3.frames = .sync i :: k2.frames := by
    have hbegan := @runBegin_began
      { k2 with frames := .sync i :: k2.frames } i a
      (fun _ => by
        show (k2.procs i).pid ≠ 0
        rw [hpid2]
        exact hpid)
    rw [hrun] at hbegan
    cases hbegan with
    | unused => rfl
    | refused _ _ hcalm => exact hcalm.frames
    | failed _ _ _ _ hframes => exact hframes
  rw [returned_sync hframes]
  have hreturned : k₀.Traceless { k3 with frames := k2.frames } ↔
      k₀.Traceless k3 :=
    ⟨fun h => ⟨h.pages, h.spaces, h.tasks, h.references, h.heap⟩,
      fun h => ⟨h.pages, h.spaces, h.tasks, h.references, h.heap⟩⟩
  rw [hreturned]
  cases hroom : k₀.taskRoom a with
  | true =>
    have hgrows := @runBegin_grows
      { k2 with frames := .sync i :: k2.frames } i a
    rw [hrun] at hgrows
    have hpushed : k1.Grows { k2 with frames := .sync i :: k2.frames } :=
      grows_of_sched hsched
    have hleft := (hgained hroom).grow (hpushed.trans hgrows)
    refine ⟨fun h => absurd h hleft.not_traceless, ?_⟩
    rintro ⟨hnone, -⟩
    cases hnone
  | false =>
    have hcopied := @applyStdioOverrides_refunds k1 k₀ i k₀.heapUsed parent io
      _ (hrefunds hroom) hfresh.fds
    rw [happlied] at hcopied
    have hpushed : Refunds k₀ k₀.heapUsed
        { k2 with frames := .sync i :: k2.frames } i :=
      hcopied.same rfl hcopied.bound rfl rfl rfl
    have hbegin := hpushed.runBegin hrested hloads hused hpath2
      (hactive.trans hfresh.loadedActive) (congrArg Prod.fst hrun)
    have hlength : k2.pidStack.length = k₀.pidStack.length := by
      rw [hcalm.pidStack, hdepth]
    rw [hrun] at hbegin
    simp only [hlength, hpid2] at hbegin
    split at hbegin
    · next hdeep =>
      rw [hbegin.traceless_iff]
      exact ⟨fun h => ⟨rfl, h.1, .inl hdeep⟩, fun h => ⟨h.2.1, rfl⟩⟩
    · next hdeep =>
      rw [hbegin.traceless_iff, Bool.or_eq_false_iff]
      constructor
      · rintro ⟨⟨htwo, hthree⟩, hread⟩
        exact ⟨rfl, hthree, .inr ⟨htwo, hread⟩⟩
      · rintro ⟨-, hthree, hshallow⟩
        obtain ⟨htwo, hread⟩ := hshallow.resolve_left hdeep
        exact ⟨⟨htwo, hthree⟩, hread⟩

/-- An exec that returns FALSE leaves no trace exactly if it has nothing to
leave. -/
theorem runPath_traceless_iff {path : List UInt8} {io : Stdio}
    (hrested : k.Rested) (hloads : a.Loads)
    (hfalse : (k.runPath a path io).1 = false) :
    k.Traceless (k.runPath a path io).2 ↔ k.barren a path io = true := by
  have hself : k.Traceless k := ⟨rfl, rfl, rfl, rfl, rfl⟩
  generalize hr : k.runPath a path io = r at hfalse ⊢
  unfold Kernel.runPath at hr
  unfold Kernel.barren
  simp only [] at hr
  split at hr
  · next hpath =>
    subst hr
    simpa [hpath] using hself
  next hpath =>
  have hpath : path.head? = some slash := not_not.mp hpath
  split at hr
  · next hslot =>
    subst hr
    simpa [hslot] using hself
  next i hslot =>
  rw [hslot]
  simp only [hpath, ne_eq, not_true_eq_false, decide_false, Bool.false_or,
    Option.all_some]
  have hempty := hrested.ended i (allocSlot_some hslot)
  have hok := @stdioOk_eq k i a .running k.allocPid.1 path io hempty.fds
  obtain ⟨next, halloc⟩ := allocPid_eq k
  rw [halloc] at hr hok
  -- the next pid is not one of the things that leave a trace
  generalize hk₀ : ({ k with nextPid := next } : Kernel) = k₀ at hr hok
  have hrested₀ : k₀.Rested := by
    subst hk₀
    exact ⟨hrested.ended, hrested.sched, hrested.ptys, hrested.pages,
      hrested.pageCount⟩
  have hempty₀ : (k₀.procs i).Empty := by
    subst hk₀
    exact hempty
  have htraceless : ∀ k' : Kernel, k.Traceless k' ↔ k₀.Traceless k' := by
    intro k'
    subst hk₀
    exact ⟨fun h => ⟨h.pages, h.spaces, h.tasks, h.references, h.heap⟩,
      fun h => ⟨h.pages, h.spaces, h.tasks, h.references, h.heap⟩⟩
  obtain ⟨hgained, hrefunds, hstore⟩ := @prepareProcRecord_refunds k₀ i a
    .running k.allocPid.1 path hrested₀ hempty₀
  have hfresh := prepareProcRecord_fresh a i k.allocPid.1 path .running k₀
  have hdepth := (@prepareProcRecord_calm k₀ i a .running k.allocPid.1
    path).pidStack
  generalize Kernel.prepareProcRecord a i k.allocPid.1 path .running k₀ = k₁
    at *
  rw [htraceless]
  split at hr
  · next k₂ hrefused =>
    rw [hrefused] at hok
    subst hr
    rw [exec_refused hrested₀ hgained hrefunds hstore hfresh hrefused,
      if_neg (by rw [← hok]; nofun)]
    subst hk₀
    have hcreate := (@createAddressSpace_store k { k with nextPid := next }
      rfl).1
    rw [hcreate]
    simp [Kernel.taskRoom]
  next k₂ happlied =>
  rw [happlied] at hok
  split at hr
  · next k₃ hrun =>
    subst hr
    rw [exec_failed hrested₀ hloads (allocPid_ne k) hpath hgained hrefunds
      hdepth hfresh happlied hrun, if_pos hok.symm]
    subst hk₀
    unfold Kernel.heapAfterRead
    have hread := @dynlibReleaseOwner_heap
      { k with heapUsed := a.readHeap k.heapUsed }
      { k with nextPid := next, heapUsed := a.readHeap k.heapUsed }
      k.allocPid.1 rfl rfl
    rw [← hread]
    simp [Kernel.taskRoom]
  · subst hr
    cases hfalse

end failing

end Clks.Exec
