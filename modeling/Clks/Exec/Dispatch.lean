/-
The calls of the scheduler (scheduler.c): those that Scheduler.lean has not,
the counter of the tasks that live, and the loops that call the entries of
tasks.

What an entry does with the scheduler is an input of the run of its task: the
calls that it makes (`body`). Dispatching from inside an entry returns at once,
so these are calls of other kinds. The descriptor of a task that runs is held
across its entry; when the table has moved meanwhile, what is written there is
outside the table (`endRun`).
-/
import Clks.Exec.Scheduler

namespace Clks.Exec

-- ==== more calls

/-- `clks_scheduler_sleep_current_until`. -/
def Sched.sleepCurrentUntil (wakeTick : UInt64) (s : Sched) : Bool × Sched :=
  match s.tasks[s.current]? with
  | none => (false, s)
  | some current =>
    if s.current = 0 || !current.hasEntry then (false, s)
    else
      let s := s.modify s.current fun t =>
        { t with
          state := .sleeping, wakeTick, remainingTicks := t.timeSliceTicks }
      (true, { s with rescheduleRequested := true })

/-- `clks_scheduler_yield_current`. -/
def Sched.yieldCurrent (s : Sched) : Sched :=
  match s.tasks[s.current]? with
  | none => s
  | some current =>
    if current.state.runnable then
      { s.modify s.current fun t => { t with remainingTicks := 0 } with
        rescheduleRequested := true }
    else s

/-- `clks_scheduler_sleep_current_ticks`. -/
def Sched.sleepCurrentTicks (ticks nowTick : UInt64) (s : Sched) : Bool × Sched :=
  if ticks = 0 then (true, s.yieldCurrent)
  else s.sleepCurrentUntil (nowTick + ticks)

/-- `clks_scheduler_sleep_task_ticks`. -/
def Sched.sleepTaskTicks (id : Nat) (ticks nowTick : UInt64) (s : Sched) :
    Bool × Sched :=
  if ticks = 0 then s.yieldTask id
  else s.sleepTaskUntil id (nowTick + ticks)

/-- `clks_scheduler_wake_task`. -/
def Sched.wakeTask (id : Nat) (s : Sched) : Bool × Sched :=
  match s.tasks[id]? with
  | none => (false, s)
  | some task =>
    if task.state = .unused || task.state = .zombie then (false, s)
    else
      (true, s.modify id fun t =>
        { t with
          state := .ready
          wakeTick := 0
          remainingTicks :=
            if t.remainingTicks = 0 then t.timeSliceTicks else t.remainingTicks })

/-- `clks_scheduler_add_task_internal`, from the free slot on. -/
def Sched.addTaskInternal (got : Option Nat) (timeSliceTicks : Nat)
    (hasEntry : Bool) (s : Sched) : Option (Nat × Sched) :=
  (s.findFreeTaskSlot got).map fun (id, s) =>
    let slice := max timeSliceTicks minSlice
    (id,
      { s with tasks := s.tasks.set id ⟨id, .ready, slice, slice, 0, hasEntry⟩ })

/-- The first half of `clks_sched_run_task`. -/
def Sched.beginRun (id : Nat) (s : Sched) : Sched :=
  match s.tasks[id]? with
  | none => s
  | some task =>
    if !task.runnable then s
    else
      let s := if task.state = .ready then s.switchTo id else s
      { s.modify id fun t => { t with state := .running } with
        dispatchActive := true }

/-- The second half, but for the reschedule. -/
def Sched.endRun (id : Nat) (moved : Bool) (s : Sched) : Sched :=
  let s := { s with dispatchActive := false }
  if moved then s
  else
    s.modify id fun t => if t.state = .running then { t with state := .ready } else t

-- ==== the whole state

/-- The scheduler with its counter of live tasks (`clks_task_live_count`) and
the address of its table. -/
structure Scheduler where
  sched : Sched
  live : Nat
  table : Nat
  deriving DecidableEq, Repr

namespace Scheduler

/-- A change of what the counter does not depend on. -/
def on (f : Sched → Sched) (s : Scheduler) : Scheduler :=
  { s with sched := f s.sched }

/-- `clks_scheduler_init`; `got`: the address and the size of the block that
the heap gives. -/
def init (got : Option (Nat × Nat)) : Scheduler :=
  let empty : Sched := ⟨[], 0, 0, 0, false, false, false⟩
  match got with
  | none => ⟨empty, 0, 0⟩
  | some (table, block) =>
    match empty.reserveTasks (some block) initialTaskCapacity with
    | none => ⟨empty, 0, 0⟩
    | some reserved =>
      match reserved.addTaskInternal none 1 false with
      | none => ⟨reserved, 0, table⟩
      | some (_, added) =>
        ⟨{ added.modify 0 fun t =>
            { t with state := .running, remainingTicks := t.timeSliceTicks } with
          online := true }, 1, table⟩

/-- `clks_scheduler_add_kernel_task_ex_id`. -/
def add (got : Option (Nat × Nat)) (timeSliceTicks : Nat) (hasEntry : Bool)
    (s : Scheduler) : Option Nat × Scheduler :=
  match s.sched.addKernelTaskExId (got.map Prod.snd) timeSliceTicks hasEntry with
  | none => (none, s)
  | some (id, sched) =>
    (some id,
      { sched
        live := s.live + 1
        table :=
          if sched.capacity = s.sched.capacity then s.table
          else (got.map Prod.fst).getD s.table })

/-- `clks_scheduler_remove_task`. -/
def remove (id : Nat) (s : Scheduler) : Scheduler :=
  match s.sched.removeTask id with
  | (false, _) => s
  | (true, sched) => { s with sched, live := s.live - 1 }

/-- The calls, and the steps of the timer and of the runs of tasks. -/
inductive Call
  | add (got : Option (Nat × Nat)) (timeSliceTicks : Nat) (hasEntry : Bool)
  | remove (id : Nat)
  | setTaskState (id : Nat) (state : TaskState)
  | sleepTaskUntil (id : Nat) (wakeTick : UInt64)
  | sleepTaskTicks (id : Nat) (ticks nowTick : UInt64)
  | sleepCurrentUntil (wakeTick : UInt64)
  | sleepCurrentTicks (ticks nowTick : UInt64)
  | yieldTask (id : Nat)
  | yieldCurrent
  | wakeTask (id : Nat)
  | onTimerTick (tick : UInt64)
  | wakeSleepers (tick : UInt64)
  | accountCurrentTick
  | maybeReschedule
  | beginRun (id : Nat)
  | endRun (id : Nat) (moved : Bool)

def call (s : Scheduler) : Call → Scheduler
  | .add got timeSliceTicks hasEntry => (s.add got timeSliceTicks hasEntry).2
  | .remove id => s.remove id
  | .setTaskState id state => s.on fun s => (s.setTaskState id state).2
  | .sleepTaskUntil id wakeTick => s.on fun s => (s.sleepTaskUntil id wakeTick).2
  | .sleepTaskTicks id ticks nowTick =>
    s.on fun s => (s.sleepTaskTicks id ticks nowTick).2
  | .sleepCurrentUntil wakeTick => s.on fun s => (s.sleepCurrentUntil wakeTick).2
  | .sleepCurrentTicks ticks nowTick =>
    s.on fun s => (s.sleepCurrentTicks ticks nowTick).2
  | .yieldTask id => s.on fun s => (s.yieldTask id).2
  | .yieldCurrent => s.on Sched.yieldCurrent
  | .wakeTask id => s.on fun s => (s.wakeTask id).2
  | .onTimerTick tick => s.on (Sched.onTimerTick tick)
  | .wakeSleepers tick => s.on (Sched.wakeSleepers tick)
  | .accountCurrentTick => s.on Sched.accountCurrentTick
  | .maybeReschedule => s.on Sched.maybeReschedule
  | .beginRun id => s.on (Sched.beginRun id)
  | .endRun id moved => s.on (Sched.endRun id moved)

def calls (s : Scheduler) (cs : List Call) : Scheduler := cs.foldl call s

-- ==== dispatching

/-- `CLKS_SCHED_DEFAULT_DISPATCH_BUDGET`. -/
abbrev defaultDispatchBudget : Nat := 32

/-- `clks_sched_task_runnable`, of an index. -/
def runnable (id : Nat) (s : Scheduler) : Bool := s.sched.tasks[id]?.any (·.runnable)

/-- `clks_sched_run_task`. -/
def runTask (body : List Call) (id : Nat) (s : Scheduler) : Scheduler :=
  if !s.runnable id then s
  else
    let started := s.call (.beginRun id)
    let left := started.calls body
    (left.call (.endRun id (left.table ≠ started.table))).call .maybeReschedule

/-- `clks_scheduler_dispatch_current`. -/
def dispatchCurrent (body : List Call) (tick : UInt64) (s : Scheduler) : Scheduler :=
  if s.sched.tasks = [] || s.sched.dispatchActive then s
  else
    let s := (s.call (.wakeSleepers tick)).call .maybeReschedule
    s.runTask body s.sched.current

/-- The loop of `clks_scheduler_dispatch_ready`, with what is left of the
budget; the count of tasks is one of 32 bits, so that `fuel` never ends it. -/
def dispatchLoop : Nat → Nat → Nat → List (List Call) → Scheduler →
    Nat × List (List Call) × Scheduler
  | 0, _, budget, bodies, s => (budget, bodies, s)
  | fuel + 1, i, budget, bodies, s =>
    if s.sched.tasks.length ≤ i || budget = 0 then (budget, bodies, s)
    else
      let idx := (s.sched.current + i) % s.sched.tasks.length
      if idx = 0 || !s.runnable idx then dispatchLoop fuel (i + 1) budget bodies s
      else
        dispatchLoop fuel (i + 1) (budget - 1) bodies.tail
          (s.runTask (bodies.headD []) idx)

/-- `clks_scheduler_dispatch_ready`. -/
def dispatchReady (bodies : List (List Call)) (tick : UInt64) (s : Scheduler) :
    Scheduler :=
  if s.sched.tasks = [] || s.sched.dispatchActive then s
  else
    match dispatchLoop 0xFFFFFFFF 0 defaultDispatchBudget bodies
      (s.call (.wakeSleepers tick)) with
    | (budget, bodies, s) =>
      if budget = defaultDispatchBudget then s.dispatchCurrent (bodies.headD []) tick
      else s

end Scheduler

end Clks.Exec
