/-
The processes and their tasks.

A record gets a task when it is made ready for a process, and nothing ever
gives one back: `clks_scheduler_remove_task` has no caller. As long as no
record is used twice or cleared, tasks and used records still correspond;
the task of a record that is used again, or cleared after its descriptors
were refused, belongs to nobody.
-/
import Clks.Exec.TaskTable
import Clks.Exec.Parts

namespace Clks.Exec

/-- The tasks of processes are those of the used records, one each, and no
more than there are records. -/
structure Kernel.Corresponds (k : Kernel) : Prop where
  tasks : ∀ id, k.sched.isProcTask id = true ↔
    ∃ i, (k.procs i).used = true ∧ (k.procs i).schedulerTaskId = id
  bound : ∀ i, (k.procs i).used = true → (k.procs i).bound = true
  distinct : ∀ i j, (k.procs i).used = true → (k.procs j).used = true →
    (k.procs i).schedulerTaskId = (k.procs j).schedulerTaskId → i = j
  count : k.sched.procTasks.length ≤ maxProcs

/-- Can a process in the slot begin with the descriptors that it is to have
from the caller, once it has its own first three? -/
def Kernel.stdioOk (a : Answers) (i : Fin maxProcs) (io : Stdio) (k : Kernel) :
    Bool :=
  ((k.modifyProc i fun p =>
    { p with ttyIndex := a.ttyActive, fds := initDefaults a.ttyActive
    }).applyStdioOverrides i k.currentProc io).1

/-- Is there room for a task, at one of the two tries when a process is
made? -/
def Kernel.taskRoom (a : Answers) (k : Kernel) : Bool :=
  k.sched.hasRoom (a.grown 0) || k.sched.hasRoom (a.grown 1)

/-- What an event makes is provided for: if a process is made, then in a
record that has not been used, with a task, and with the descriptors that it
is to begin with. -/
def provided (a : Answers) (e : Event) (k : Kernel) : Bool :=
  match e with
  | .exec path io =>
    path.head? ≠ some slash || k.allocSlot.all fun i =>
      !(k.procs i).used && k.taskRoom a && k.stdioOk a i io
  | .spawn path =>
    path.head? ≠ some slash || k.allocSlot.all fun i =>
      !(k.procs i).used && k.taskRoom a
  | _ => true

/-- The same records are used, for the same tasks, and calls hold only
records that are used. -/
structure Kernel.Keeps (k k' : Kernel) : Prop where
  used : ∀ i, (k'.procs i).used = (k.procs i).used
  task : ∀ i, (k'.procs i).schedulerTaskId = (k.procs i).schedulerTaskId
  unused : ∀ i, (k.procs i).used = false → k'.procs i = k.procs i
  sched : k.sched.Like k'.sched
  frames : ∀ frame ∈ k'.frames, frame ∈ k.frames ∨
    ∀ i, frame.holds = some i → (k.procs i).used = true

/-- Every process has a task, and calls hold only records that are used. -/
structure Kernel.Steady (k : Kernel) : Prop where
  bound : ∀ i, (k.procs i).used = true → (k.procs i).bound = true
  held : ∀ frame ∈ k.frames, ∀ i, frame.holds = some i →
    (k.procs i).used = true

/-- The record is used, and has a task. -/
def Kernel.Settled (k : Kernel) (i : Fin maxProcs) : Prop :=
  (k.procs i).used = true ∧ (k.procs i).bound = true

section tasks

variable {k k' k'' : Kernel} {i j : Fin maxProcs} {a : Answers}
  {got : Option Nat} {f : Proc → Proc} {H : Fin maxProcs → Prop}

-- ==== the same

theorem Kernel.Keeps.refl (k : Kernel) : k.Keeps k :=
  ⟨fun _ => rfl, fun _ => rfl, fun _ _ => rfl, .refl _, fun _ h => .inl h⟩

theorem Kernel.Keeps.trans (h : k.Keeps k') (h' : k'.Keeps k'') :
    k.Keeps k'' where
  used i := (h'.used i).trans (h.used i)
  task i := (h'.task i).trans (h.task i)
  unused := by
    intro i hi
    have hi' := (h.used i).trans hi
    exact (h'.unused i hi').trans (h.unused i hi)
  sched := h.sched.trans h'.sched
  frames := by
    intro frame hframe
    rcases h'.frames frame hframe with hmem | hholds
    · exact h.frames frame hmem
    · right
      intro i hi
      rw [← h.used i]
      exact hholds i hi

theorem Kernel.Keeps.settled (h : k.Keeps k') (hi : k.Settled i) :
    k'.Settled i := by
  unfold Kernel.Settled Proc.bound at hi ⊢
  rw [h.used, h.task]
  exact hi

theorem Kernel.Steady.settled (h : k.Steady) (hi : (k.procs i).used = true) :
    k.Settled i :=
  ⟨hi, h.bound i hi⟩

theorem Kernel.Steady.keep (h : k.Steady) (hkeeps : k.Keeps k') : k'.Steady := by
  constructor
  · intro i hi
    rw [hkeeps.used] at hi
    exact (hkeeps.settled (h.settled hi)).2
  · intro frame hframe i hholds
    rw [hkeeps.used]
    rcases hkeeps.frames frame hframe with hmem | hused
    · exact h.held frame hmem i hholds
    · exact hused i hholds

theorem keeps_of_eq (hprocs : k'.procs = k.procs) (hsched : k'.sched = k.sched)
    (hframes : k'.frames = k.frames) : k.Keeps k' where
  used i := by rw [hprocs]
  task i := by rw [hprocs]
  unused i _ := by rw [hprocs]
  sched := by
    rw [hsched]
    exact .refl _
  frames := by
    rw [hframes]
    exact fun _ h => .inl h

theorem keeps_of_update {p : Proc}
    (hprocs : k'.procs = Function.update k.procs i p)
    (hi : (k.procs i).used = true) (hused : p.used = (k.procs i).used)
    (htask : p.schedulerTaskId = (k.procs i).schedulerTaskId)
    (hsched : k'.sched = k.sched) (hframes : k'.frames = k.frames) :
    k.Keeps k' where
  used j := by
    rw [hprocs]
    by_cases hj : j = i
    · subst hj
      rw [Function.update_self, hused]
    · rw [Function.update_of_ne hj]
  task j := by
    rw [hprocs]
    by_cases hj : j = i
    · subst hj
      rw [Function.update_self, htask]
    · rw [Function.update_of_ne hj]
  unused j hunused := by
    have hj : j ≠ i := by
      rintro rfl
      rw [hi] at hunused
      cases hunused
    rw [hprocs, Function.update_of_ne hj]
  sched := by
    rw [hsched]
    exact .refl _
  frames := by
    rw [hframes]
    exact fun _ h => .inl h

theorem modifyProc_keeps (hi : (k.procs i).used = true)
    (hused : (f (k.procs i)).used = (k.procs i).used)
    (htask : (f (k.procs i)).schedulerTaskId = (k.procs i).schedulerTaskId) :
    k.Keeps (k.modifyProc i f) :=
  keeps_of_update rfl hi hused htask rfl rfl

-- ==== resources

theorem releaseRuntime_keeps (hi : (k.procs i).used = true) :
    k.Keeps (k.releaseRuntime i) :=
  keeps_of_update rfl hi rfl rfl rfl rfl

theorem releaseAddressSpace_keeps (hi : (k.procs i).used = true) :
    k.Keeps (k.releaseAddressSpace i) := by
  obtain ⟨freeStack, spaces, currentCr3, h⟩ := releaseAddressSpace_form k i
  rw [h]
  exact keeps_of_update rfl hi rfl rfl rfl rfl

theorem fdReleaseAll_keeps (hi : (k.procs i).used = true) :
    k.Keeps (k.fdReleaseAll i) :=
  keeps_of_update rfl hi rfl rfl rfl rfl

-- ==== states

theorem toTaskState_ne (state : ProcState) (threadState : ThreadState)
    (reason : BlockReason) :
    toTaskState state threadState reason ≠ .unused := by
  unfold toTaskState
  split_ifs <;> nofun

theorem syncSchedulerState_keeps (hi : k.Settled i) :
    k.Keeps (k.syncSchedulerState got i) := by
  have hbind : k.bindSchedulerTask got i = (true, k) := by
    unfold Kernel.bindSchedulerTask
    rw [if_pos hi.2]
  unfold Kernel.syncSchedulerState
  rw [hbind]
  simp only []
  refine ⟨fun _ => rfl, fun _ => rfl, fun _ _ => rfl, ?_, fun _ h => .inl h⟩
  have hstate := @setTaskState_like k.sched (k.procs i).schedulerTaskId _
    (toTaskState_ne (k.procs i).state (k.procs i).threadState
      (k.procs i).blockedReason)
  split
  · exact hstate.trans sleepTaskUntil_like
  · exact hstate

variable {state : ProcState} {threadState : ThreadState}
  {reason : BlockReason} {wakeTick waitTargetPid status : UInt64}

theorem setState_keeps (hi : k.Settled i) :
    k.Keeps (k.setState got i state threadState reason) := by
  unfold Kernel.setState
  generalize hk1 : k.modifyProc i _ = k1
  have hmodify : k.Keeps k1 := by
    subst hk1
    apply modifyProc_keeps hi.1
    · split <;> rfl
    · split <;> rfl
  exact hmodify.trans (syncSchedulerState_keeps (hmodify.settled hi))

theorem setBlock_keeps (hi : k.Settled i) :
    k.Keeps (k.setBlock got i reason wakeTick waitTargetPid) := by
  unfold Kernel.setBlock
  generalize hk1 : k.modifyProc i _ = k1
  have hmodify : k.Keeps k1 := by
    subst hk1
    exact modifyProc_keeps hi.1 rfl rfl
  exact hmodify.trans (syncSchedulerState_keeps (hmodify.settled hi))

theorem clearBlock_keeps (hi : k.Settled i) :
    k.Keeps (k.clearBlock got i) := by
  unfold Kernel.clearBlock
  generalize hk1 : k.modifyProc i _ = k1
  have hmodify : k.Keeps k1 := by
    subst hk1
    exact modifyProc_keeps hi.1 rfl rfl
  exact hmodify.trans (syncSchedulerState_keeps (hmodify.settled hi))

theorem markExited_keeps (hi : k.Settled i) :
    k.Keeps (k.markExited a i status) := by
  unfold Kernel.markExited
  have hruntime := releaseRuntime_keeps hi.1
  have hi1 := hruntime.settled hi
  have hspace := hruntime.trans (releaseAddressSpace_keeps hi1.1)
  have hi2 := hspace.settled hi
  have hfds := hspace.trans (fdReleaseAll_keeps hi2.1)
  refine hfds.trans ((setState_keeps (hfds.settled hi)).trans
    (modifyProc_keeps ?_ rfl rfl))
  exact ((setState_keeps (hfds.settled hi)).settled (hfds.settled hi)).1

-- ==== parts

theorem keeps_of_part (h : k.Steady) (hH : ∀ i, H i → (k.procs i).used = true)
    (hpart : Kernel.Part H a k k') : k.Keeps k' := by
  have hsettled : ∀ {i}, H i → k.Settled i := fun hi => h.settled (hH _ hi)
  cases hpart with
  | aside haside =>
    exact keeps_of_eq haside.procs haside.sched haside.frames
  | push hframe =>
    refine ⟨fun _ => rfl, fun _ => rfl, fun _ _ => rfl, .refl _, ?_⟩
    intro frame hmem
    rcases List.mem_cons.mp hmem with rfl | hmem
    · exact .inr fun i hi => hH i (hframe i hi)
    · exact .inl hmem
  | pop hframes =>
    refine ⟨fun _ => rfl, fun _ => rfl, fun _ _ => rfl, .refl _, ?_⟩
    intro frame hmem
    rw [hframes]
    exact .inl (List.mem_cons_of_mem _ hmem)
  | note hi hnoted =>
    exact modifyProc_keeps (hH _ hi) (congrArg Card.used hnoted.card)
      hnoted.task
  | runtime hi => exact releaseRuntime_keeps (hH _ hi)
  | space hi => exact releaseAddressSpace_keeps (hH _ hi)
  | state hi _ => exact setState_keeps (hsettled hi)
  | exited hi => exact markExited_keeps (hsettled hi)
  | block hi => exact setBlock_keeps (hsettled hi)
  | unblock hi => exact clearBlock_keeps (hsettled hi)
  | timer =>
    exact ⟨fun _ => rfl, fun _ => rfl, fun _ _ => rfl, onTimerTick_like,
      fun _ hmem => .inl hmem⟩

theorem keeps_of_parts (h : k.Steady) (hH : ∀ i, H i → (k.procs i).used = true)
    (hparts : Kernel.Parts H a k k') : k.Keeps k' := by
  induction hparts with
  | refl => exact .refl k
  | tail _ hpart ih =>
    refine ih.trans (keeps_of_part (h.keep ih) (fun i hi => ?_) hpart)
    rw [ih.used]
    exact hH i hi

theorem returned_keeps {ok : Bool} (h : k.Steady) :
    k.Keeps (k.returned a ok status) := by
  unfold Kernel.returned
  have hpop : ∀ {frame frames active}, k.frames = frame :: frames →
      k.Keeps { k with frames, pendingDispatchActive := active } := by
    intro frame frames active hframes
    refine ⟨fun _ => rfl, fun _ => rfl, fun _ _ => rfl, .refl _, ?_⟩
    intro f hf
    rw [hframes]
    exact .inl (List.mem_cons_of_mem frame hf)
  split
  · next frames hframes => exact hpop hframes
  · next parent frames hframes =>
    simp only []
    split
    · exact hpop hframes
    · next j =>
      have hj : (k.procs j).used = true := by
        apply h.held (.waitPid (some j))
        · rw [hframes]
          exact List.mem_cons_self
        · rfl
      have hpopped := @hpop _ _ false hframes
      have hwaits : k.Keeps ({ k with frames, pendingDispatchActive := false
          }.modifyProc j fun p => { p with parentWaiting := false }) :=
        hpopped.trans (modifyProc_keeps hj rfl rfl)
      exact hwaits.trans (clearBlock_keeps (hwaits.settled (h.settled hj)))
  · next j frames hframes =>
    split
    · exact .refl k
    · exact hpop hframes
  · exact .refl k

theorem Kernel.Steady.known (h : k.Steady) (hi : k.Known i) :
    (k.procs i).used = true := by
  rcases hi with hused | ⟨frame, hframe, hholds⟩
  · exact hused
  · exact h.held frame hframe i hholds

theorem keeps_of_does (h : k.Steady) (hdoes : k.Does a k') : k.Keeps k' := by
  cases hdoes with
  | parts hparts => exact keeps_of_parts h (fun _ => h.known) hparts
  | returns hparts =>
    have hkeeps := keeps_of_parts h (fun _ => h.known) hparts
    exact hkeeps.trans (returned_keeps (h.keep hkeeps))

-- ==== creation

/-- Only the record in the slot changes. -/
structure Kernel.Within (i : Fin maxProcs) (k k' : Kernel) : Prop where
  others : ∀ j, j ≠ i → k'.procs j = k.procs j
  frames : k'.frames = k.frames

theorem Kernel.Within.trans (h : k.Within i k') (h' : k'.Within i k'') :
    k.Within i k'' :=
  ⟨fun j hj => (h'.others j hj).trans (h.others j hj),
    h'.frames.trans h.frames⟩

theorem modifyProc_within : k.Within i (k.modifyProc i f) :=
  ⟨fun _ hj => Function.update_of_ne hj .., rfl⟩

theorem releaseAddressSpace_within : k.Within i (k.releaseAddressSpace i) := by
  obtain ⟨freeStack, spaces, currentCr3, h⟩ := releaseAddressSpace_form k i
  rw [h]
  exact ⟨fun _ hj => Function.update_of_ne hj .., rfl⟩

theorem bindSchedulerTask_within :
    k.Within i (k.bindSchedulerTask got i).2 := by
  obtain ⟨id, sched, heapUsed, h⟩ := bindSchedulerTask_form got k i
  rw [h]
  exact ⟨fun _ hj => Function.update_of_ne hj .., rfl⟩

theorem setState_within :
    k.Within i (k.setState got i state threadState reason) := by
  unfold Kernel.setState
  generalize hk1 : Kernel.modifyProc i _ k = k1
  have hmodify : k.Within i k1 := by
    subst hk1
    exact modifyProc_within
  obtain ⟨sched, hsync⟩ := syncSchedulerState_eq got k1 i
  rw [hsync]
  have hbind := hmodify.trans (@bindSchedulerTask_within k1 i got)
  exact ⟨hbind.others, hbind.frames⟩

theorem bindSchedulerTask_proc (got : Option Nat) (k : Kernel)
    (i : Fin maxProcs) :
    ∃ id, (k.bindSchedulerTask got i).2.procs i
      = { k.procs i with schedulerTaskId := id } := by
  obtain ⟨id, sched, heapUsed, h⟩ := bindSchedulerTask_form got k i
  rw [h]
  exact ⟨id, Function.update_self ..⟩

theorem setState_proc (got : Option Nat) (i : Fin maxProcs) (state : ProcState)
    (threadState : ThreadState) (reason : BlockReason) (k : Kernel) :
    ∃ id wakeTick waitTargetPid,
      (k.setState got i state threadState reason).procs i
        = { k.procs i with
            state, threadState, blockedReason := reason, wakeTick
            waitTargetPid, schedulerTaskId := id } := by
  unfold Kernel.setState
  generalize hk1 : Kernel.modifyProc i _ k = k1
  obtain ⟨sched, hsync⟩ := syncSchedulerState_eq got k1 i
  obtain ⟨id, hbind⟩ := bindSchedulerTask_proc got k1 i
  rw [hsync]
  show ∃ id wakeTick waitTargetPid,
    (k1.bindSchedulerTask got i).2.procs i = _
  rw [hbind]
  subst hk1
  rw [modifyProc_self]
  split
  · exact ⟨_, _, _, rfl⟩
  · exact ⟨_, _, _, rfl⟩

theorem cleared_within :
    k.Within i (((k.releaseRuntime i).releaseAddressSpace i).fdReleaseAll
      i).createAddressSpace.2 := by
  have hruntime : k.Within i (k.releaseRuntime i) :=
    ⟨fun _ hj => Function.update_of_ne hj .., rfl⟩
  refine hruntime.trans (releaseAddressSpace_within.trans ?_)
  generalize (k.releaseRuntime i).releaseAddressSpace i = k1
  have hfds : k1.Within i (k1.fdReleaseAll i) :=
    ⟨fun _ hj => Function.update_of_ne hj .., rfl⟩
  refine hfds.trans ?_
  obtain ⟨hcalm, hprocs⟩ := @createAddressSpace_calm (k1.fdReleaseAll i)
  exact ⟨fun _ _ => by rw [hprocs], hcalm.frames⟩

theorem cleared_sched :
    (((k.releaseRuntime i).releaseAddressSpace i).fdReleaseAll
      i).createAddressSpace.2.sched = k.sched := by
  have hcreate : ∀ k : Kernel, k.createAddressSpace.2.sched = k.sched := by
    intro k
    obtain ⟨freeStack, spaces, h⟩ := createAddressSpace_form k
    rw [h]
  have hspace : ∀ k : Kernel, (k.releaseAddressSpace i).sched = k.sched := by
    intro k
    obtain ⟨freeStack, spaces, currentCr3, h⟩ := releaseAddressSpace_form k i
    rw [h]
    rfl
  rw [hcreate]
  exact hspace (k.releaseRuntime i)

theorem prepareProcRecord_within {pid : UInt64} {path : List UInt8} :
    k.Within i (k.prepareProcRecord a i pid path state) := by
  unfold Kernel.prepareProcRecord
  simp only []
  exact cleared_within.trans (modifyProc_within.trans (setState_within.trans
    (bindSchedulerTask_within.trans modifyProc_within)))

/-- A record that has just been made ready. -/
structure Proc.Fresh (a : Answers) (pid : UInt64) (path : List UInt8)
    (cr3 : Nat) (p : Proc) : Prop where
  used : p.used = true
  pid : p.pid = pid
  path : p.path = path.take (pathMax - 1)
  ttyIndex : p.ttyIndex = a.ttyActive
  fds : p.fds = initDefaults a.ttyActive
  loadedActive : p.loadedActive = false
  runStack : p.runStack = none
  savedFrameValid : p.savedFrameValid = false
  addressSpaceCr3 : p.addressSpaceCr3 = cr3

/-- The page that a new address space gets, or that of the kernel. -/
def Kernel.newCr3 (k : Kernel) : Nat :=
  if k.createAddressSpace.1 = 0 then k.createAddressSpace.2.kernelCr3
  else k.createAddressSpace.1

theorem prepareProcRecord_fresh (a : Answers) (i : Fin maxProcs)
    (pid : UInt64) (path : List UInt8) (state : ProcState) (k : Kernel) :
    ((k.prepareProcRecord a i pid path state).procs i).Fresh a pid path
      (((k.releaseRuntime i).releaseAddressSpace i).fdReleaseAll i).newCr3 := by
  unfold Kernel.prepareProcRecord Kernel.newCr3
  simp only []
  generalize hk1 : Kernel.modifyProc i _ (Kernel.createAddressSpace _).2 = k1
  obtain ⟨id, wakeTick, waitTargetPid, hstate⟩ := setState_proc (a.grown 0) i
    state (if state = .pending then .ready else .running) .none k1
  obtain ⟨id', hbind⟩ := bindSchedulerTask_proc (a.grown 1)
    (k1.setState (a.grown 0) i state
      (if state = .pending then .ready else .running) .none) i
  rw [modifyProc_self, hbind, hstate]
  subst hk1
  rw [modifyProc_self]
  exact ⟨rfl, rfl, rfl, rfl, rfl, rfl, rfl, rfl, rfl⟩

-- ==== correspondence

/-- Tasks and used records correspond, records that are not used are as
they were, and calls hold used records. -/
structure Kernel.Tasked (k : Kernel) : Prop where
  tasks : ∀ id, k.sched.isProcTask id = true ↔
    ∃ i, (k.procs i).used = true ∧ (k.procs i).schedulerTaskId = id
  distinct : ∀ i j, (k.procs i).used = true → (k.procs j).used = true →
    (k.procs i).schedulerTaskId = (k.procs j).schedulerTaskId → i = j
  clean : ∀ i, (k.procs i).used = false → k.procs i = Proc.zero
  sound : k.sched.Sound
  steady : k.Steady

theorem Kernel.Tasked.keep (h : k.Tasked) (hkeeps : k.Keeps k') :
    k'.Tasked where
  tasks := by
    intro id
    rw [hkeeps.sched.tasks, h.tasks]
    constructor
    · rintro ⟨i, hi, htask⟩
      exact ⟨i, (hkeeps.used i).trans hi, (hkeeps.task i).trans htask⟩
    · rintro ⟨i, hi, htask⟩
      exact ⟨i, (hkeeps.used i).symm.trans hi,
        (hkeeps.task i).symm.trans htask⟩
  distinct := by
    intro i j hi hj htask
    rw [hkeeps.used] at hi hj
    rw [hkeeps.task, hkeeps.task] at htask
    exact h.distinct i j hi hj htask
  clean := by
    intro i hi
    rw [hkeeps.used] at hi
    exact (hkeeps.unused i hi).trans (h.clean i hi)
  sound := h.sound.like hkeeps.sched
  steady := h.steady.keep hkeeps

theorem Kernel.Tasked.add {id : Nat} (h : k.Tasked)
    (hi : (k.procs i).used = false) (hwithin : k.Within i k')
    (hused : (k'.procs i).used = true)
    (htask : (k'.procs i).schedulerTaskId = id)
    (hadded : k.sched.Added k'.sched id) : k'.Tasked where
  tasks := by
    intro id'
    by_cases hid : id' = id
    · subst hid
      exact ⟨fun _ => ⟨i, hused, htask⟩, fun _ => hadded.task⟩
    · rw [hadded.others id' hid, h.tasks]
      constructor
      · rintro ⟨j, hj, htaskj⟩
        have hji : j ≠ i := by
          rintro rfl
          rw [hi] at hj
          cases hj
        refine ⟨j, ?_, ?_⟩
        · rw [hwithin.others j hji]
          exact hj
        · rw [hwithin.others j hji]
          exact htaskj
      · rintro ⟨j, hj, htaskj⟩
        have hji : j ≠ i := by
          rintro rfl
          exact hid (htaskj.symm.trans htask)
        rw [hwithin.others j hji] at hj htaskj
        exact ⟨j, hj, htaskj⟩
  distinct := by
    -- the new task is nobody's
    have hnew : ∀ j, j ≠ i → (k'.procs j).used = true →
        (k'.procs j).schedulerTaskId ≠ id := by
      intro j hj hjused hjtask
      rw [hwithin.others j hj] at hjused hjtask
      have hproc := (h.tasks id).mpr ⟨j, hjused, hjtask⟩
      rw [hadded.free] at hproc
      cases hproc
    intro j l hj hl htasks
    by_cases hji : j = i
    · subst hji
      by_contra hlj
      exact hnew l (Ne.symm hlj) hl (htasks.symm.trans htask)
    by_cases hli : l = i
    · subst hli
      exact absurd (htasks.trans htask) (hnew j hji hj)
    · rw [hwithin.others j hji] at hj htasks
      rw [hwithin.others l hli] at hl htasks
      exact h.distinct j l hj hl htasks
  clean := by
    intro j hj
    have hji : j ≠ i := by
      rintro rfl
      rw [hused] at hj
      cases hj
    rw [hwithin.others j hji] at hj ⊢
    exact h.clean j hj
  sound := hadded.sound
  steady := by
    constructor
    · intro j hj
      by_cases hji : j = i
      · subst hji
        unfold Proc.bound
        rw [htask]
        simp [hadded.ne_zero, hadded.ne_invalid]
      · rw [hwithin.others j hji] at hj ⊢
        exact h.steady.bound j hj
    · intro frame hframe j hholds
      rw [hwithin.frames] at hframe
      by_cases hji : j = i
      · subst hji
        exact hused
      · rw [hwithin.others j hji]
        exact h.steady.held frame hframe j hholds

theorem bindSchedulerTask_eq (hi : (k.procs i).bound = false) :
    k.bindSchedulerTask got i =
      match k.sched.addKernelTaskExId got 1 false with
      | none => (false, k.modifyProc i fun p =>
          { p with schedulerTaskId := schedTaskInvalid })
      | some (id, sched) =>
        (true, { k with
          sched, heapUsed := k.heapUsed + sched.block - k.sched.block
          }.modifyProc i fun p => { p with schedulerTaskId := id }) := by
  unfold Kernel.bindSchedulerTask
  exact if_neg (by rw [hi]; nofun)

theorem Kernel.Tasked.bind {k0 : Kernel} (h : k0.Tasked)
    (hi : (k0.procs i).used = false) (hwithin : k0.Within i k)
    (hsched : k.sched = k0.sched) (hused : (k.procs i).used = true)
    (hbound : (k.procs i).bound = false)
    (hroom : k0.sched.hasRoom got = true) :
    (k.bindSchedulerTask got i).1 = true ∧
      (k.bindSchedulerTask got i).2.Tasked ∧
      (k.bindSchedulerTask got i).2.Settled i := by
  obtain ⟨⟨id, s⟩, hadd⟩ := Option.isSome_iff_exists.mp hroom
  have hadded := addKernelTaskExId_added h.sound hadd
  rw [bindSchedulerTask_eq hbound, hsched, hadd]
  simp only []
  refine ⟨trivial, ?_⟩
  have htasked : Kernel.Tasked ({ k with
      sched := s, heapUsed := k.heapUsed + s.block - k0.sched.block
      }.modifyProc i fun p => { p with schedulerTaskId := id }) := by
    refine h.add hi (hwithin.trans
      ⟨fun _ hj => Function.update_of_ne hj .., rfl⟩) ?_ ?_ hadded
    · rw [modifyProc_self]
      exact hused
    · rw [modifyProc_self]
  refine ⟨htasked, htasked.steady.settled ?_⟩
  rw [modifyProc_self]
  exact hused

theorem syncSchedulerState_bound (hi : (k.bindSchedulerTask got i).1 = true)
    (hsettled : (k.bindSchedulerTask got i).2.Settled i) :
    k.syncSchedulerState got i
      = (k.bindSchedulerTask got i).2.syncSchedulerState got i := by
  have hagain : (k.bindSchedulerTask got i).2.bindSchedulerTask got i
      = (true, (k.bindSchedulerTask got i).2) := by
    generalize (k.bindSchedulerTask got i).2 = k1 at hsettled ⊢
    unfold Kernel.bindSchedulerTask
    rw [if_pos hsettled.2]
  generalize hr : k.bindSchedulerTask got i = r at hi hagain
  obtain ⟨ok, k1⟩ := r
  obtain rfl : ok = true := hi
  unfold Kernel.syncSchedulerState
  rw [hr, hagain]

theorem Kernel.Tasked.prepare {pid : UInt64} {path : List UInt8} (h : k.Tasked)
    (hi : (k.procs i).used = false)
    (hroom : k.taskRoom a = true) :
    (k.prepareProcRecord a i pid path state).Tasked := by
  unfold Kernel.taskRoom at hroom
  unfold Kernel.prepareProcRecord
  simp only []
  have hcleared := @cleared_within k i
  have hsched := @cleared_sched k i
  generalize Kernel.createAddressSpace _ = r at hcleared hsched
  unfold Kernel.setState
  generalize hk1 : Kernel.modifyProc i _ (Kernel.modifyProc i _ _) = k1
  have hwithin : k.Within i k1 := by
    subst hk1
    exact hcleared.trans (modifyProc_within.trans modifyProc_within)
  have hsched1 : k1.sched = k.sched := by
    subst hk1
    exact hsched
  have hused : (k1.procs i).used = true := by
    subst hk1
    rw [modifyProc_self, modifyProc_self]
    split <;> rfl
  have hbound : (k1.procs i).bound = false := by
    subst hk1
    rw [modifyProc_self, modifyProc_self]
    split <;> rfl
  -- the last change is to the user and the descriptors
  have hfinish : ∀ k2 : Kernel, k2.Tasked → k2.Settled i → ∀ g : Proc → Proc,
      (∀ p, (g p).used = p.used ∧ (g p).schedulerTaskId = p.schedulerTaskId) →
      (k2.modifyProc i g).Tasked :=
    fun k2 hk2 hsettled g hg =>
      hk2.keep (modifyProc_keeps hsettled.1 (hg _).1 (hg _).2)
  by_cases hfirst : k.sched.hasRoom (a.grown 0) = true
  · -- the first try
    obtain ⟨hbind, htasked, hsettled⟩ :=
      h.bind hi hwithin hsched1 hused hbound hfirst
    rw [syncSchedulerState_bound hbind hsettled]
    generalize (k1.bindSchedulerTask (a.grown 0) i).2 = k2 at htasked hsettled
    have hsync := @syncSchedulerState_keeps k2 i (a.grown 0) hsettled
    have hagain : (k2.syncSchedulerState (a.grown 0) i).bindSchedulerTask
        (a.grown 1) i = (true, k2.syncSchedulerState (a.grown 0) i) := by
      unfold Kernel.bindSchedulerTask
      rw [if_pos (hsync.settled hsettled).2]
    rw [hagain]
    exact hfinish _ (htasked.keep hsync) (hsync.settled hsettled) _
      fun p => ⟨rfl, rfl⟩
  · -- the second
    rw [Bool.or_eq_true, or_iff_right hfirst] at hroom
    have hnone : k1.sched.addKernelTaskExId (a.grown 0) 1 false = none := by
      rw [hsched1]
      unfold Sched.hasRoom at hfirst
      simpa using hfirst
    have hfailed : k1.syncSchedulerState (a.grown 0) i
        = k1.modifyProc i fun p =>
          { p with schedulerTaskId := schedTaskInvalid } := by
      unfold Kernel.syncSchedulerState
      rw [bindSchedulerTask_eq hbound, hnone]
    rw [hfailed]
    generalize hk2 : k1.modifyProc i _ = k2
    have hwithin2 : k.Within i k2 := by
      subst hk2
      exact hwithin.trans modifyProc_within
    have hsched2 : k2.sched = k.sched := by
      subst hk2
      exact hsched1
    have hused2 : (k2.procs i).used = true := by
      subst hk2
      rw [modifyProc_self]
      exact hused
    have hbound2 : (k2.procs i).bound = false := by
      subst hk2
      rw [modifyProc_self]
      rfl
    obtain ⟨-, htasked, hsettled⟩ :=
      h.bind hi hwithin2 hsched2 hused2 hbound2 hroom
    exact hfinish _ htasked hsettled _ fun p => ⟨rfl, rfl⟩

-- ==== descriptors

theorem release_unused {entry : FdEntry} (h : entry.used = false)
    (ptys : Fin ptyMax → Pty) : entry.release ptys = ptys := by
  unfold FdEntry.release
  rw [h]
  rfl

theorem releaseAll_unused {fds : Fin fdMax → FdEntry}
    (h : ∀ j, (fds j).used = false) (ptys : Fin ptyMax → Pty)
    (l : List (Fin fdMax)) :
    l.foldl (fun ptys j => (fds j).release ptys) ptys = ptys := by
  induction l with
  | nil => rfl
  | cons j l ih =>
    rw [List.foldl_cons, release_unused (h j)]
    exact ih

theorem bindSchedulerTask_ptys :
    (k.bindSchedulerTask got i).2.ptys = k.ptys := by
  obtain ⟨id, sched, heapUsed, h⟩ := bindSchedulerTask_form got k i
  rw [h]
  rfl

theorem setState_ptys :
    (k.setState got i state threadState reason).ptys = k.ptys := by
  unfold Kernel.setState
  generalize hk1 : Kernel.modifyProc i _ k = k1
  obtain ⟨id, sched, heapUsed, h⟩ := syncSchedulerState_form got k1 i
  rw [h, ← hk1]
  rfl

theorem releaseAddressSpace_fds :
    (k.releaseAddressSpace i).ptys = k.ptys ∧
      ((k.releaseAddressSpace i).procs i).fds = (k.procs i).fds := by
  obtain ⟨freeStack, spaces, currentCr3, h⟩ := releaseAddressSpace_form k i
  rw [h, modifyProc_self]
  exact ⟨rfl, rfl⟩

theorem createAddressSpace_ptys : k.createAddressSpace.2.ptys = k.ptys := by
  obtain ⟨freeStack, spaces, h⟩ := createAddressSpace_form k
  rw [h]

theorem prepareProcRecord_ptys {pid : UInt64} {path : List UInt8}
    (h : ∀ j, ((k.procs i).fds j).used = false) :
    (k.prepareProcRecord a i pid path state).ptys = k.ptys := by
  unfold Kernel.prepareProcRecord
  simp only []
  show (Kernel.bindSchedulerTask _ _ _).2.ptys = _
  rw [bindSchedulerTask_ptys, setState_ptys]
  show (Kernel.createAddressSpace _).2.ptys = _
  rw [createAddressSpace_ptys]
  obtain ⟨hptys, hfds⟩ := @releaseAddressSpace_fds (k.releaseRuntime i) i
  have hrelease : ∀ k : Kernel, (∀ j, ((k.procs i).fds j).used = false) →
      (k.fdReleaseAll i).ptys = k.ptys :=
    fun k hk => releaseAll_unused hk k.ptys _
  rw [hrelease]
  · exact hptys
  · intro j
    rw [hfds, releaseRuntime_proc]
    exact h j

/-- The terminals and the descriptors of all processes are the same. -/
structure Kernel.Agree (k k' : Kernel) : Prop where
  ptys : k'.ptys = k.ptys
  fds : ∀ j, (k'.procs j).fds = (k.procs j).fds
  tty : ∀ j, (k'.procs j).ttyIndex = (k.procs j).ttyIndex

theorem fdCopyFromParent_agree {parent : Option (Fin maxProcs)}
    {parentFd : UInt64} {childFd : Fin fdMax} {read write : Bool}
    (h : k.Agree k') :
    (k'.fdCopyFromParent i parent parentFd childFd read write).1
        = (k.fdCopyFromParent i parent parentFd childFd read write).1 ∧
      (k.fdCopyFromParent i parent parentFd childFd read write).2.Agree
        (k'.fdCopyFromParent i parent parentFd childFd read write).2 := by
  have hput : ∀ {k1 k1' : Kernel} {entry : FdEntry}, k1.Agree k1' →
      (k1.modifyProc i fun p =>
        { p with fds := Function.update p.fds childFd entry }).Agree
        (k1'.modifyProc i fun p =>
          { p with fds := Function.update p.fds childFd entry }) := by
    intro k1 k1' entry hk1
    refine ⟨hk1.ptys, ?_, ?_⟩
    · intro l
      by_cases hl : l = i
      · subst hl
        rw [modifyProc_self, modifyProc_self, hk1.fds]
      · rw [modifyProc_other _ _ hl, modifyProc_other _ _ hl]
        exact hk1.fds l
    · intro l
      by_cases hl : l = i
      · subst hl
        rw [modifyProc_self, modifyProc_self]
        exact hk1.tty l
      · rw [modifyProc_other _ _ hl, modifyProc_other _ _ hl]
        exact hk1.tty l
  cases parent with
  | none => exact ⟨rfl, h⟩
  | some j =>
    unfold Kernel.fdCopyFromParent
    simp only []
    rw [h.fds j, h.ptys, h.tty i]
    split
    · split
      · exact ⟨rfl, h⟩
      split
      · split
        · exact ⟨rfl, hput h⟩
        · next ptys _ =>
          have hset : Kernel.Agree { k with ptys } { k' with ptys } :=
            ⟨rfl, h.fds, h.tty⟩
          exact ⟨rfl, hput hset⟩
      · exact ⟨rfl, hput h⟩
    · exact ⟨rfl, h⟩

theorem prepareProcRecord_agree {pid : UInt64} {path : List UInt8}
    (h : ∀ j, ((k.procs i).fds j).used = false) :
    Kernel.Agree
      (k.modifyProc i fun p =>
        { p with ttyIndex := a.ttyActive, fds := initDefaults a.ttyActive })
      (k.prepareProcRecord a i pid path state) := by
  have hfresh := prepareProcRecord_fresh a i pid path state k
  refine ⟨prepareProcRecord_ptys h, ?_, ?_⟩
  · intro j
    by_cases hj : j = i
    · subst hj
      rw [modifyProc_self]
      exact hfresh.fds
    · rw [modifyProc_other _ _ hj, prepareProcRecord_within.others j hj]
  · intro j
    by_cases hj : j = i
    · subst hj
      rw [modifyProc_self]
      exact hfresh.ttyIndex
    · rw [modifyProc_other _ _ hj, prepareProcRecord_within.others j hj]

theorem applyStdioOverrides_agree {parent : Option (Fin maxProcs)} {io : Stdio}
    (h : k.Agree k') :
    (k'.applyStdioOverrides i parent io).1
      = (k.applyStdioOverrides i parent io).1 := by
  have hcopy : ∀ {k k' : Kernel} fd childFd read write, k.Agree k' →
      (if fd = fdInherit then (true, k')
        else k'.fdCopyFromParent i parent fd childFd read write).1
        = (if fd = fdInherit then (true, k)
          else k.fdCopyFromParent i parent fd childFd read write).1 ∧
      (if fd = fdInherit then (true, k)
        else k.fdCopyFromParent i parent fd childFd read write).2.Agree
        (if fd = fdInherit then (true, k')
          else k'.fdCopyFromParent i parent fd childFd read write).2 := by
    intro k k' fd childFd read write hk
    split_ifs
    · exact ⟨rfl, hk⟩
    · exact fdCopyFromParent_agree hk
  unfold Kernel.applyStdioOverrides
  simp only []
  obtain ⟨hok, hk1⟩ := hcopy io.stdinFd 0 true false h
  generalize (if io.stdinFd = fdInherit then (true, k) else _) = r at hok hk1 ⊢
  generalize (if io.stdinFd = fdInherit then (true, k') else _) = r' at hok hk1 ⊢
  obtain ⟨ok, k1⟩ := r
  obtain ⟨ok', k1'⟩ := r'
  obtain rfl : ok' = ok := hok
  cases ok' with
  | false => rfl
  | true =>
    obtain ⟨hok, hk2⟩ := hcopy io.stdoutFd 1 false true hk1
    simp only [] at hok hk2 ⊢
    generalize (if io.stdoutFd = fdInherit then (true, k1) else _) = r at hok hk2 ⊢
    generalize (if io.stdoutFd = fdInherit then (true, k1') else _) = r'
      at hok hk2 ⊢
    obtain ⟨ok, k2⟩ := r
    obtain ⟨ok', k2'⟩ := r'
    obtain rfl : ok' = ok := hok
    cases ok' with
    | false => rfl
    | true => exact (hcopy io.stderrFd 2 false true hk2).1

theorem stdioOk_eq {pid : UInt64} {path : List UInt8} {io : Stdio}
    (h : ∀ j, ((k.procs i).fds j).used = false) :
    (Kernel.applyStdioOverrides i k.currentProc io
        (k.allocPid.2.prepareProcRecord a i pid path state)).1
      = k.stdioOk a i io := by
  obtain ⟨next, halloc⟩ := allocPid_eq k
  rw [halloc]
  have hagree := @prepareProcRecord_agree { k with nextPid := next } i a state
    pid path h
  exact applyStdioOverrides_agree ⟨hagree.ptys, hagree.fds, hagree.tty⟩

theorem applyStdioOverrides_keeps {parent : Option (Fin maxProcs)}
    {io : Stdio} (hi : (k.procs i).used = true) :
    k.Keeps (k.applyStdioOverrides i parent io).2 := by
  apply applyStdioOverrides_ind (motive := fun k1 => k.Keeps k1)
  · intro k1 fd childFd read write hk1
    have hi1 : (k1.procs i).used = true := (hk1.used i).trans hi
    refine hk1.trans ?_
    obtain ⟨ptys, fds, heq⟩ :=
      @fdCopyFromParent_eq k1 i parent fd childFd read write
    rw [heq]
    exact keeps_of_update rfl hi1 rfl rfl rfl rfl
  · exact .refl k

-- ==== exec

theorem Kernel.Tasked.create {pid : UInt64} {path : List UInt8}
    (h : k.Tasked) (hi : (k.procs i).used = false)
    (hroom : k.taskRoom a = true) :
    (k.allocPid.2.prepareProcRecord a i pid path state).Tasked := by
  obtain ⟨next, halloc⟩ := allocPid_eq k
  rw [halloc]
  have hnext : k.Keeps { k with nextPid := next } := keeps_of_eq rfl rfl rfl
  exact (h.keep hnext).prepare hi hroom

theorem Kernel.Tasked.stdio {path : List UInt8} {io : Stdio} {ready : Bool}
    {k1 : Kernel} (h : k.Tasked) (hpath : path.head? = some slash)
    (hslot : k.allocSlot = some i)
    (hstdio : (k.allocPid.2.prepareProcRecord a i k.allocPid.1 path
      .running).applyStdioOverrides i k.currentProc io = (ready, k1))
    (hprovided : provided a (.exec path io) k = true) :
    ready = true ∧ k1.Tasked := by
  simp only [provided, hpath, hslot, ne_eq, not_true_eq_false, decide_false,
    Bool.false_or, Option.all_some, Bool.and_eq_true, Bool.not_eq_true']
    at hprovided
  obtain ⟨⟨hi, hroom⟩, hready⟩ := hprovided
  have hcreated := @Kernel.Tasked.create k i a .running k.allocPid.1 path h hi
    hroom
  have hused := cards_prepareProcRecord a i k.allocPid.1 path .running
    k.allocPid.2
  have hok := @stdioOk_eq k i a .running k.allocPid.1 path io fun j => by
    rw [h.clean i hi]
    rfl
  rw [hready, hstdio] at hok
  generalize k.allocPid.2.prepareProcRecord a i k.allocPid.1 path .running = k2
    at hcreated hused hstdio
  have hkeeps : k2.Keeps (k2.applyStdioOverrides i k.currentProc io).2 := by
    apply applyStdioOverrides_keeps
    show (k2.cards i).used = true
    rw [cards_self hused]
  rw [hstdio] at hkeeps
  exact ⟨hok, hcreated.keep hkeeps⟩

-- ==== events

theorem Kernel.Tasked.step {e : Event} (h : k.Tasked)
    (hprovided : provided a e k = true) (hstep : k.step a e = some k') :
    k'.Tasked := by
  cases step_outcome hstep with
  | does hdoes => exact h.keep (keeps_of_does h.steady hdoes)
  | @dispatch i _ _ hdoes =>
    have hcursor : k.Keeps { k with dispatchCursor := (i.val + 1) % maxProcs } :=
      keeps_of_eq rfl rfl rfl
    exact h.keep
      (hcursor.trans (keeps_of_does (h.steady.keep hcursor) hdoes))
  | spawn hpath hslot =>
    simp only [provided, hpath, hslot, ne_eq, not_true_eq_false, decide_false,
      Bool.false_or, Option.all_some, Bool.and_eq_true, Bool.not_eq_true']
      at hprovided
    exact h.create hprovided.1 hprovided.2
  | @exec _ _ i k1 _ hpath hslot hstdio hdoes =>
    have hready := (h.stdio hpath hslot hstdio hprovided).2
    have hpushed : k1.Keeps { k1 with frames := .sync i :: k1.frames } :=
      keeps_of_part (H := fun _ => False) (a := a) hready.steady
        (fun _ hi => hi.elim) (.push nofun)
    exact hready.keep
      (hpushed.trans (keeps_of_does (hready.steady.keep hpushed) hdoes))
  | refused hpath hslot hstdio =>
    exact nomatch (h.stdio hpath hslot hstdio hprovided).1

-- ==== runs

theorem tasked_of_booted (h : k.Booted) : k.Tasked := by
  have hunused : ∀ i, (k.procs i).used = false := by
    intro i
    rw [h.procs]
    rfl
  have hno : ∀ {i}, (k.procs i).used ≠ true := by
    intro i hi
    rw [hunused] at hi
    cases hi
  refine ⟨?_, ?_, fun i _ => h.procs i, ⟨h.online, h.size⟩, ?_, ?_⟩
  · intro id
    constructor
    · intro hproc
      unfold Sched.isProcTask at hproc
      rw [Bool.and_eq_true, decide_eq_true_eq] at hproc
      obtain ⟨hid, hany⟩ := hproc
      obtain ⟨t, ht, hused⟩ := (Option.any_eq_true ..).mp hany
      simp only [Bool.and_eq_true, decide_eq_true_eq, Bool.not_eq_true']
        at hused
      exact absurd (h.tasks id t ht hid hused.2) hused.1
    · rintro ⟨i, hi, -⟩
      exact absurd hi hno
  · intro i j hi
    exact absurd hi hno
  · intro i hi
    exact absurd hi hno
  · intro frame hframe
    rw [h.frames] at hframe
    cases hframe

theorem Kernel.Tasked.corresponds (h : k.Tasked) : k.Corresponds where
  tasks := h.tasks
  bound := h.steady.bound
  distinct := h.distinct
  count := by
    have hnodup : k.sched.procTasks.Nodup :=
      List.nodup_range.filter _
    have hsubset : k.sched.procTasks ⊆
        (List.finRange maxProcs).map fun i => (k.procs i).schedulerTaskId := by
      intro id hid
      have hproc := (List.mem_filter.mp hid).2
      obtain ⟨i, -, htask⟩ := (h.tasks id).mp hproc
      exact List.mem_map.mpr ⟨i, List.mem_finRange i, htask⟩
    have hle := (List.subperm_of_subset hnodup hsubset).length_le
    rwa [List.length_map, List.length_finRange] at hle

/-- In a run that provides for every process it makes, tasks and processes
correspond. -/
theorem corresponds_of_run {k₀ : Kernel} (h₀ : k₀.Booted)
    (hrun : RunIf (fun a e k => provided a e k = true) k₀ k) :
    k.Corresponds := by
  have htasked : k.Tasked := by
    induction hrun with
    | refl => exact tasked_of_booted h₀
    | tail _ hstep ih =>
      obtain ⟨a, e, hprovided, hstep⟩ := hstep
      exact ih.step hprovided hstep
  exact htasked.corresponds

end tasks

/-- A program that runs another and waits for it, and is killed. -/
def ordinary : List Event :=
  [.spawn (txt "/p"), .dispatch, .exec (txt "/q") ⟨fdInherit, 1, 2⟩, .finish 0,
    .suspend, .kill 1 signalKill]

theorem corresponds_of_run_ordinary :
    (smallKernel.runs ample (provided ample) ordinary).isSome = true ∧
      ∀ k, smallKernel.runs ample (provided ample) ordinary = some k →
        k.Corresponds :=
  ⟨by decide +kernel, fun _ h =>
    corresponds_of_run smallKernel_booted (runs_runIf (fun _ _ h => h) h)⟩

/-- A program runs another with a descriptor that it has not got: the task
stays, and the record does not. -/
theorem exec_badStdin_not_corresponds :
    ∃ k₀ k, k₀.Booted ∧ RunIf (fun _ _ _ => True) k₀ k ∧ ¬ k.Corresponds := by
  have hrun : ((smallKernel.runs ample (fun _ _ => true)
      [.spawn (txt "/p"), .dispatch,
        .exec (txt "/q") ⟨31, fdInherit, fdInherit⟩]).any fun k =>
        k.sched.isProcTask 2 && decide (∀ i, (k.procs i).used = true →
          (k.procs i).schedulerTaskId ≠ 2)) = true := by
    decide +kernel
  obtain ⟨k, hk, hleft⟩ := (Option.any_eq_true ..).mp hrun
  simp only [Bool.and_eq_true, decide_eq_true_eq] at hleft
  refine ⟨smallKernel, k, smallKernel_booted,
    runs_runIf (fun _ _ _ => trivial) hk, ?_⟩
  intro hcorresponds
  obtain ⟨i, hused, htask⟩ := (hcorresponds.tasks 2).mp hleft.1
  exact hleft.2 i hused htask

end Clks.Exec
