/-
The task table of the scheduler (scheduler.c), as far as processes and the
timer use it.

The table is a heap block that grows; what the heap answers is an input
(`got`: the size of the block that it gives). Counters that nothing but
the statistics reads are left out, and so are the names of the tasks and
the loops that call the entries of the kernel's own tasks.
-/
import Mathlib

namespace Clks.Exec

-- ==== the table

/-- `enum clks_task_state`. -/
inductive TaskState
  | unused
  | ready
  | running
  | blocked
  | sleeping
  | waitingChild
  | blockedIo
  | stopped
  | zombie
  deriving DecidableEq, Repr

/-- `struct clks_task_descriptor`; `hasEntry`: its entry is not null. -/
structure Task where
  id : Nat
  state : TaskState
  timeSliceTicks : Nat
  remainingTicks : Nat
  wakeTick : UInt64
  hasEntry : Bool
  deriving DecidableEq, Repr

/-- The state of the scheduler; `block` is the size of the table's block in
the heap. -/
structure Sched where
  tasks : List Task
  capacity : Nat
  block : Nat
  current : Nat
  online : Bool
  dispatchActive : Bool
  rescheduleRequested : Bool
  deriving DecidableEq, Repr

/-- `CLKS_SCHED_INITIAL_TASK_CAPACITY`. -/
abbrev initialTaskCapacity : Nat := 32

/-- `CLKS_SCHED_MIN_SLICE`. -/
abbrev minSlice : Nat := 1

/-- The loop of `clks_sched_reserve_tasks`, which doubles a capacity of 32
bits at most 32 times. -/
def doubleCapacity : Nat → Nat → Nat → Nat
  | 0, _, minCapacity => minCapacity
  | fuel + 1, capacity, minCapacity =>
    if minCapacity ≤ capacity then capacity
    else if 0x7FFFFFFF < capacity then minCapacity
    else doubleCapacity fuel (2 * capacity) minCapacity

/-- `clks_sched_reserve_tasks`. -/
def Sched.reserveTasks (got : Option Nat) (minCapacity : Nat) (s : Sched) :
    Option Sched :=
  if minCapacity ≤ s.capacity then some s
  else
    match got with
    | none => none
    | some block =>
      some
        { s with
          capacity := doubleCapacity 32
            (if s.capacity = 0 then initialTaskCapacity else s.capacity)
            minCapacity
          block }

/-- The loop of `clks_sched_find_free_task_slot`. -/
def Sched.freeSlot (s : Sched) : Option Nat :=
  (List.range s.tasks.length).find? fun i =>
    i ≠ 0 && s.tasks[i]?.any (·.state = .unused)

/-- A task of zeros. -/
def Task.zero (id : Nat) : Task := ⟨id, .unused, 0, 0, 0, false⟩

/-- `clks_sched_find_free_task_slot`. -/
def Sched.findFreeTaskSlot (got : Option Nat) (s : Sched) :
    Option (Nat × Sched) :=
  match s.freeSlot with
  | some id => some (id, s)
  | none =>
    if s.tasks.length = 0xFFFFFFFF then none
    else
      (s.reserveTasks got (s.tasks.length + 1)).map fun s' =>
        (s.tasks.length,
          { s' with tasks := s'.tasks ++ [Task.zero s.tasks.length] })

/-- `clks_scheduler_add_kernel_task_ex_id`. -/
def Sched.addKernelTaskExId (got : Option Nat) (timeSliceTicks : Nat)
    (hasEntry : Bool) (s : Sched) : Option (Nat × Sched) :=
  if !s.online then none
  else
    (s.findFreeTaskSlot got).map fun (id, s) =>
      let slice := max timeSliceTicks minSlice
      (id,
        { s with tasks := s.tasks.set id ⟨id, .ready, slice, slice, 0, hasEntry⟩ })

/-- `clks_sched_task_slot_used`. -/
def Sched.taskSlotUsed (id : Nat) (s : Sched) : Bool :=
  s.tasks[id]?.any (·.state ≠ .unused)

/-- `clks_scheduler_remove_task`, which nothing calls. -/
def Sched.removeTask (id : Nat) (s : Sched) : Bool × Sched :=
  if id = 0 || !s.taskSlotUsed id then (false, s)
  else
    (true,
      { s with
        tasks := s.tasks.set id (Task.zero id)
        current := if s.current = id then 0 else s.current
        rescheduleRequested := s.rescheduleRequested || s.current = id })

-- ==== states of tasks

/-- `clks_sched_state_runnable`. -/
def TaskState.runnable (state : TaskState) : Bool :=
  state = .ready || state = .running

/-- A change of one task. -/
def Sched.modify (id : Nat) (f : Task → Task) (s : Sched) : Sched :=
  { s with tasks := s.tasks.modify id f }

/-- `clks_scheduler_set_task_state`. -/
def Sched.setTaskState (id : Nat) (state : TaskState) (s : Sched) :
    Bool × Sched :=
  if !s.taskSlotUsed id then (false, s)
  else if id = 0 && state ≠ .ready && state ≠ .running then (false, s)
  else
    let state := if state = .running && id ≠ s.current then .ready else state
    let s := s.modify id fun t => { t with state }
    (true,
      if s.current = id && !state.runnable then
        { s with rescheduleRequested := true }
      else s)

/-- `clks_scheduler_sleep_task_until`. -/
def Sched.sleepTaskUntil (id : Nat) (wakeTick : UInt64) (s : Sched) :
    Bool × Sched :=
  if id = 0 || !s.taskSlotUsed id then (false, s)
  else
    let s := s.modify id fun t =>
      { t with
        state := .sleeping, wakeTick, remainingTicks := t.timeSliceTicks }
    (true,
      if s.current = id then { s with rescheduleRequested := true } else s)

/-- `clks_scheduler_yield_task`. -/
def Sched.yieldTask (id : Nat) (s : Sched) : Bool × Sched :=
  match s.tasks[id]? with
  | none => (false, s)
  | some task =>
    if task.state = .unused then (false, s)
    else if task.state.runnable then
      let s := s.modify id fun t => { t with remainingTicks := 0 }
      (true,
        if s.current = id then { s with rescheduleRequested := true } else s)
    else (true, s)

-- ==== the timer

/-- `clks_sched_task_runnable`. -/
def Task.runnable (t : Task) : Bool := t.hasEntry && t.state.runnable

/-- `clks_sched_wake_sleepers`. -/
def Sched.wakeSleepers (tick : UInt64) (s : Sched) : Sched :=
  { s with
    tasks := s.tasks.map fun t =>
      if t.state ≠ .sleeping || tick < t.wakeTick then t
      else
        { t with
          wakeTick := 0, state := .ready, remainingTicks := t.timeSliceTicks } }

/-- `clks_sched_account_current_tick`. -/
def Sched.accountCurrentTick (s : Sched) : Sched :=
  match s.tasks[s.current]? with
  | none => s
  | some t =>
    if !t.state.runnable then s
    else
      let s := s.modify s.current fun t =>
        { t with remainingTicks := t.remainingTicks - 1 }
      if t.remainingTicks ≤ 1 then { s with rescheduleRequested := true }
      else s

/-- `clks_sched_next_runnable_task`. -/
def Sched.nextRunnableTask (start : Nat) (s : Sched) : Nat :=
  let order := (List.range s.tasks.length).map fun i =>
    (start + (i + 1)) % s.tasks.length
  match order.find? fun i => s.tasks[i]?.any (·.runnable) with
  | some i => i
  | none => if s.tasks[start]?.any (·.runnable) then start else 0

/-- `clks_sched_switch_to`. -/
def Sched.switchTo (next : Nat) (s : Sched) : Sched :=
  if s.tasks.length ≤ next || next = s.current then s
  else
    let s := s.modify s.current fun t =>
      if t.state = .running then { t with state := .ready } else t
    let s := s.modify next fun t =>
      { t with
        state := .running
        remainingTicks :=
          if t.remainingTicks = 0 then t.timeSliceTicks else t.remainingTicks }
    { s with current := next }

/-- `clks_sched_maybe_reschedule`. -/
def Sched.maybeReschedule (s : Sched) : Sched :=
  if s.tasks = [] || !s.rescheduleRequested then s
  else
    let s := { s with rescheduleRequested := false }
    let next := s.nextRunnableTask s.current
    (s.modify s.current fun t =>
      { t with remainingTicks := t.timeSliceTicks }).switchTo next

/-- `clks_scheduler_on_timer_tick`. -/
def Sched.onTimerTick (tick : UInt64) (s : Sched) : Sched :=
  if s.tasks = [] then s
  else
    let s := s.wakeSleepers tick
    if s.dispatchActive then s
    else s.accountCurrentTick.maybeReschedule

end Clks.Exec
