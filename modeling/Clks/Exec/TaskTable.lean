/-
Which entries of the task table are tasks of processes.

A process's task has no entry function, unlike the kernel's own tasks, and
is not the idle task. Changes of state, sleep and the timer leave the set
of these tasks as it is (`Sched.Like`); a new task takes a slot that is
free.
-/
import Clks.Exec.Scheduler

namespace Clks.Exec

/-- Is there the task of a process at this index? -/
def Sched.isProcTask (id : Nat) (s : Sched) : Bool :=
  id ≠ 0 && s.tasks[id]?.any fun t => t.state ≠ .unused && !t.hasEntry

/-- The tasks of processes. -/
def Sched.procTasks (s : Sched) : List Nat :=
  (List.range s.tasks.length).filter fun id => s.isProcTask id

/-- The tasks of processes are the same. -/
structure Sched.Like (s s' : Sched) : Prop where
  online : s'.online = s.online
  length : s'.tasks.length = s.tasks.length
  tasks : ∀ id, s'.isProcTask id = s.isProcTask id

section table

variable {s s' s'' : Sched} {id : Nat} {f : Task → Task}

theorem Sched.Like.refl (s : Sched) : s.Like s := ⟨rfl, rfl, fun _ => rfl⟩

theorem Sched.Like.trans (h : s.Like s') (h' : s'.Like s'') : s.Like s'' :=
  ⟨h'.online.trans h.online, h'.length.trans h.length,
    fun id => (h'.tasks id).trans (h.tasks id)⟩

-- ==== states

theorem like_of_tasks (honline : s'.online = s.online)
    (htasks : s'.tasks = s.tasks) : s.Like s' := by
  refine ⟨honline, congrArg List.length htasks, ?_⟩
  intro id
  unfold Sched.isProcTask
  rw [htasks]

theorem modify_like
    (hf : id ≠ 0 → ∀ task, s.tasks[id]? = some task →
      ((f task).state ≠ .unused && !(f task).hasEntry)
        = (task.state ≠ .unused && !task.hasEntry)) :
    s.Like (s.modify id f) := by
  refine ⟨rfl, List.length_modify .., ?_⟩
  intro j
  unfold Sched.isProcTask Sched.modify
  simp only []
  by_cases hj : j = id
  · subst hj
    by_cases hzero : j = 0
    · subst hzero
      rfl
    · rw [List.getElem?_modify_eq]
      cases htask : s.tasks[j]? with
      | none => rfl
      | some task =>
        congr 1
        exact hf hzero task htask
  · rw [List.getElem?_modify_ne f s.tasks (Ne.symm hj)]

theorem setTaskState_like {state : TaskState} (hstate : state ≠ .unused) :
    s.Like (s.setTaskState id state).2 := by
  unfold Sched.setTaskState
  split
  · exact .refl s
  next hused =>
  split
  · exact .refl s
  simp only []
  generalize hnew : (if state = .running && id ≠ s.current then TaskState.ready
    else state) = new
  have hkeep : new ≠ .unused := by
    subst hnew
    split
    · nofun
    · exact hstate
  have hlike : s.Like (s.modify id fun t => { t with state := new }) := by
    apply modify_like
    intro _ task htask
    unfold Sched.taskSlotUsed at hused
    rw [htask] at hused
    simp only [Option.any_some, Bool.not_eq_true', Bool.not_eq_false] at hused
    simp only [hused, hkeep, ne_eq, not_false_eq_true, decide_true]
  split
  · exact hlike.trans (like_of_tasks rfl rfl)
  · exact hlike

theorem sleepTaskUntil_like {wakeTick : UInt64} :
    s.Like (s.sleepTaskUntil id wakeTick).2 := by
  unfold Sched.sleepTaskUntil
  split
  · exact .refl s
  next hused =>
  simp only []
  generalize hslept : s.modify id _ = slept
  have hlike : s.Like slept := by
    subst hslept
    apply modify_like
    intro hid task htask
    unfold Sched.taskSlotUsed at hused
    rw [htask] at hused
    simp only [Option.any_some, hid, decide_false, Bool.false_or,
      Bool.not_eq_true', Bool.not_eq_false] at hused
    simp only [hused, ne_eq, reduceCtorEq, not_false_eq_true, decide_true]
  split
  · exact hlike.trans (like_of_tasks rfl rfl)
  · exact hlike

-- ==== the timer

theorem wakeSleepers_like {tick : UInt64} : s.Like (s.wakeSleepers tick) := by
  refine ⟨rfl, List.length_map .., ?_⟩
  intro id
  unfold Sched.isProcTask Sched.wakeSleepers
  simp only [List.getElem?_map, Option.any_map]
  congr 2
  funext task
  split
  · rfl
  · next hsleeping =>
    simp only [Bool.or_eq_true, decide_eq_true_eq, not_or, not_not] at hsleeping
    simp [hsleeping.1]

theorem accountCurrentTick_like : s.Like s.accountCurrentTick := by
  unfold Sched.accountCurrentTick
  split
  · exact .refl s
  split
  · exact .refl s
  simp only []
  have hlike : s.Like (s.modify s.current fun t =>
      { t with remainingTicks := t.remainingTicks - 1 }) :=
    modify_like fun _ _ _ => rfl
  split
  · exact hlike.trans (like_of_tasks rfl rfl)
  · exact hlike

theorem nextRunnableTask_cases (start : Nat) (s : Sched) :
    s.nextRunnableTask start = 0 ∨
      s.tasks[s.nextRunnableTask start]?.any (·.runnable) = true := by
  unfold Sched.nextRunnableTask
  simp only []
  split
  · next id hfound =>
    right
    have hrun := List.find?_some hfound
    exact hrun
  · split
    · next hstart => exact .inr hstart
    · exact .inl rfl

theorem switchTo_like {next : Nat}
    (hnext : next = 0 ∨ s.tasks[next]?.any (·.runnable) = true) :
    s.Like (s.switchTo next) := by
  unfold Sched.switchTo
  split
  · exact .refl s
  simp only []
  generalize hleft : s.modify s.current _ = left
  have hleave : s.Like left := by
    subst hleft
    apply modify_like
    intro _ task _
    split
    · next hrunning => simp [hrunning]
    · rfl
  have hentries : ∀ id : Nat, left.tasks[id]?.map Task.hasEntry
      = s.tasks[id]?.map Task.hasEntry := by
    intro id
    subst hleft
    unfold Sched.modify
    simp only [List.getElem?_modify, Option.map_eq_map]
    cases s.tasks[id]? with
    | none => rfl
    | some task =>
      simp only [Option.map_some]
      split
      · split <;> rfl
      · rfl
  refine hleave.trans (Sched.Like.trans (modify_like ?_)
    (like_of_tasks rfl rfl))
  intro hid task htask
  rcases hnext with rfl | hrunnable
  · exact absurd rfl hid
  · obtain ⟨old, hold, hrun⟩ := (Option.any_eq_true ..).mp hrunnable
    have hentry := hentries next
    rw [htask, hold] at hentry
    have hold : task.hasEntry = old.hasEntry := Option.some.inj hentry
    unfold Task.runnable at hrun
    rw [Bool.and_eq_true] at hrun
    simp [hold, hrun.1]

theorem onTimerTick_like {tick : UInt64} : s.Like (s.onTimerTick tick) := by
  unfold Sched.onTimerTick
  split
  · exact .refl s
  simp only []
  have hwake : s.Like (s.wakeSleepers tick) := wakeSleepers_like
  split
  · exact hwake
  refine hwake.trans (accountCurrentTick_like.trans ?_)
  generalize (s.wakeSleepers tick).accountCurrentTick = t
  unfold Sched.maybeReschedule
  split
  · exact .refl t
  simp only []
  have hflag : t.Like { t with rescheduleRequested := false } :=
    like_of_tasks rfl rfl
  generalize hslice : Sched.modify _ _ _ = u
  have hmodify : Sched.Like { t with rescheduleRequested := false } u := by
    subst hslice
    exact modify_like fun _ _ _ => rfl
  refine hflag.trans (hmodify.trans (switchTo_like ?_))
  rcases nextRunnableTask_cases t.current
    { t with rescheduleRequested := false } with hidle | hrunnable
  · exact .inl hidle
  · right
    subst hslice
    obtain ⟨task, htask, hrun⟩ := (Option.any_eq_true ..).mp hrunnable
    unfold Sched.modify
    simp only [List.getElem?_modify, Option.map_eq_map]
    rw [htask]
    simp only [Option.map_some, Option.any_some]
    split
    · exact hrun
    · exact hrun

-- ==== new tasks

/-- The task table is as the scheduler keeps it: it has the idle task once
it is online, and an index is a number of 32 bits. -/
structure Sched.Sound (s : Sched) : Prop where
  idle : s.online = true → s.tasks ≠ []
  size : s.tasks.length ≤ 0xFFFFFFFF

theorem Sched.Sound.like (h : s.Sound) (hlike : s.Like s') : s'.Sound := by
  constructor
  · intro honline hnil
    rw [hlike.online] at honline
    have hlength := hlike.length
    rw [hnil] at hlength
    exact h.idle honline (List.eq_nil_of_length_eq_zero hlength.symm)
  · rw [hlike.length]
    exact h.size

/-- What a new task changes, for a process. -/
structure Sched.Added (s s' : Sched) (id : Nat) : Prop where
  sound : s'.Sound
  ne_zero : id ≠ 0
  ne_invalid : id ≠ 0xFFFFFFFF
  free : s.isProcTask id = false
  task : s'.isProcTask id = true
  others : ∀ j, j ≠ id → s'.isProcTask j = s.isProcTask j

theorem reserveTasks_tasks {got : Option Nat} {minCapacity : Nat}
    (h : s.reserveTasks got minCapacity = some s') :
    s'.tasks = s.tasks ∧ s'.online = s.online := by
  unfold Sched.reserveTasks at h
  split at h
  · cases h
    exact ⟨rfl, rfl⟩
  · split at h
    · cases h
    · cases h
      exact ⟨rfl, rfl⟩

theorem set_added {t : Task} (hzero : id ≠ 0)
    (hid : id < s'.tasks.length) (hsize : s'.tasks.length ≤ 0xFFFFFFFF)
    (hfree : s.isProcTask id = false)
    (hothers : ∀ j, j ≠ id → s'.isProcTask j = s.isProcTask j)
    (ht : t.state ≠ .unused) (hentry : t.hasEntry = false) :
    s.Added { s' with tasks := s'.tasks.set id t } id where
  sound := by
    constructor
    · intro _ hnil
      have hlength := congrArg List.length hnil
      rw [List.length_set] at hlength
      rw [hlength] at hid
      cases hid
    · rw [List.length_set]
      exact hsize
  ne_zero := hzero
  ne_invalid := by omega
  free := hfree
  task := by
    unfold Sched.isProcTask
    simp only []
    rw [List.getElem?_set_self hid]
    simp [hzero, ht, hentry]
  others := by
    intro j hj
    rw [← hothers j hj]
    unfold Sched.isProcTask
    simp only []
    rw [List.getElem?_set_ne (Ne.symm hj)]

theorem addKernelTaskExId_added {got : Option Nat} {slice : Nat}
    (hsound : s.Sound)
    (h : s.addKernelTaskExId got slice false = some (id, s')) :
    s.Added s' id := by
  unfold Sched.addKernelTaskExId at h
  split at h
  · cases h
  next honline =>
  have honline : s.online = true := by simpa using honline
  obtain ⟨⟨id, s1⟩, hfind, hadd⟩ := Option.map_eq_some_iff.mp h
  obtain ⟨rfl, rfl⟩ := Prod.mk.inj hadd
  unfold Sched.findFreeTaskSlot at hfind
  split at hfind
  · -- a slot that is not used
    next id hslot =>
    obtain ⟨rfl, rfl⟩ := Prod.mk.inj (Option.some.inj hfind)
    have hid := List.mem_range.mp (List.mem_of_find?_eq_some hslot)
    have hunused := List.find?_some hslot
    simp only [Bool.and_eq_true, decide_eq_true_eq] at hunused
    obtain ⟨hzero, hunused⟩ := hunused
    obtain ⟨task, htask, hstate⟩ := (Option.any_eq_true ..).mp hunused
    refine set_added hzero hid hsound.size ?_ (fun _ _ => rfl) nofun rfl
    unfold Sched.isProcTask
    rw [htask]
    simp only [decide_eq_true_eq] at hstate
    simp [hstate]
  · -- one more
    split at hfind
    · cases hfind
    next hlength =>
    obtain ⟨s2, hreserve, hgrown⟩ := Option.map_eq_some_iff.mp hfind
    obtain ⟨rfl, rfl⟩ := Prod.mk.inj hgrown
    obtain ⟨htasks, -⟩ := reserveTasks_tasks hreserve
    have hsize := hsound.size
    have hnonempty : s.tasks.length ≠ 0 := by
      intro hnil
      exact hsound.idle honline (List.eq_nil_of_length_eq_zero hnil)
    refine set_added hnonempty ?_ ?_ ?_ ?_ nofun rfl
    · rw [htasks, List.length_append, List.length_singleton]
      omega
    · rw [htasks, List.length_append, List.length_singleton]
      omega
    · unfold Sched.isProcTask
      rw [List.getElem?_eq_none (Nat.le_refl _)]
      simp
    · intro j hj
      unfold Sched.isProcTask
      simp only []
      rw [htasks]
      by_cases hlt : j < s.tasks.length
      · rw [List.getElem?_append_left hlt]
      · have hgt : s.tasks.length + 1 ≤ j := by omega
        rw [List.getElem?_eq_none (by simpa using hgt),
          List.getElem?_eq_none (by omega)]

/-- Is there room for a task? -/
def Sched.hasRoom (got : Option Nat) (s : Sched) : Bool :=
  (s.addKernelTaskExId got 1 false).isSome

end table

end Clks.Exec
