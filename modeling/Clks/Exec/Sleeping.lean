/-
Sleeping, until so many ticks of the timer have elapsed.

A task sleeps until a time that is the sum of two 64-bit values, and the
timer wakes it by comparing with that sum. A process that has been dispatched
is suspended as if it had yielded, and no time is recorded at all; one that
has not been waits in a loop that goes by what has elapsed.
-/
import Clks.Exec.Passes
import Clks.Exec.Stopping
import Clks.Exec.Stranded

namespace Clks.Exec

-- ==== tasks

/-- The task sleeps. -/
def Sched.asleep (id : Nat) (s : Sched) : Bool :=
  s.tasks[id]?.any (·.state = .sleeping)

namespace Scheduler

/-- The time that the timer gives with a call. -/
def Call.tick : Call → Option UInt64
  | .onTimerTick tick | .wakeSleepers tick => some tick
  | _ => none

/-- The call is about this task: someone wakes it, stops it, removes it or
puts it to sleep. -/
def Call.About (id : Nat) (s : Scheduler) : Call → Prop
  | .remove j | .setTaskState j _ | .sleepTaskUntil j _ | .sleepTaskTicks j _ _
  | .wakeTask j => j = id
  | .sleepCurrentUntil _ | .sleepCurrentTicks _ _ => s.sched.current = id
  | _ => False

/-- The call leaves the task alone, and fewer ticks than these have elapsed
since `start`. -/
structure Leaves (id : Nat) (start ticks : UInt64) (s : Scheduler) (c : Call) :
    Prop where
  about : ¬ c.About id s
  early : ∀ tick, c.tick = some tick → tick - start < ticks

/-- The timer does not wake the task before so many ticks have elapsed,
whatever is called that leaves the task alone. -/
def SleepsThrough (id : Nat) (start ticks : UInt64) (s : Scheduler) : Prop :=
  ∀ s', Relation.ReflTransGen
      (fun s s' => ∃ c, Leaves id start ticks s c ∧ s' = s.call c) s s' →
    ∀ c tick, Leaves id start ticks s' c → c.tick = some tick →
      s'.sched.asleep id = true → (s'.call c).sched.asleep id = true

end Scheduler

section tasks

open Scheduler

variable {s s' : Sched} {id next : Nat} {tick start ticks : UInt64}
  {early : UInt64 → Prop}

/-- The task sleeps until a time that is not an early one. -/
def Sched.HeldUntil (id : Nat) (early : UInt64 → Prop) (s : Sched) : Prop :=
  ∃ t, s.tasks[id]? = some t ∧ t.state = .sleeping ∧
    ∀ tick, early tick → tick < t.wakeTick

theorem Sched.HeldUntil.asleep (h : s.HeldUntil id early) :
    s.asleep id = true := by
  obtain ⟨t, ht, hstate, -⟩ := h
  unfold Sched.asleep
  rw [ht, Option.any_some, decide_eq_true_iff]
  exact hstate

theorem Sched.HeldUntil.not_ready (h : s.HeldUntil id early) :
    s.ready id = false := by
  obtain ⟨t, ht, hstate, -⟩ := h
  unfold Sched.ready
  rw [ht, Option.any_some]
  unfold Task.runnable TaskState.runnable
  rw [hstate]
  simp

theorem Sched.HeldUntil.same (h : s.HeldUntil id early)
    (htasks : s'.tasks[id]? = s.tasks[id]?) : s'.HeldUntil id early := by
  obtain ⟨t, ht, hrest⟩ := h
  exact ⟨t, htasks.trans ht, hrest⟩

theorem Sched.HeldUntil.modify (h : s.HeldUntil id early) {j : Nat}
    {f : Task → Task}
    (hf : j = id → ∀ t : Task, t.state = .sleeping →
      (f t).state = .sleeping ∧ (f t).wakeTick = t.wakeTick) :
    (s.modify j f).HeldUntil id early := by
  obtain ⟨t, ht, hstate, hearly⟩ := h
  unfold Sched.HeldUntil
  rw [modify_get]
  by_cases hj : id = j
  · obtain ⟨hstate', hwake⟩ := hf hj.symm t hstate
    rw [if_pos hj, ht]
    refine ⟨f t, rfl, hstate', ?_⟩
    rw [hwake]
    exact hearly
  · rw [if_neg hj]
    exact ⟨t, ht, hstate, hearly⟩

theorem Sched.HeldUntil.wakeSleepers (h : s.HeldUntil id early)
    (htick : early tick) : (s.wakeSleepers tick).HeldUntil id early := by
  obtain ⟨t, ht, hstate, hearly⟩ := h
  refine ⟨t, ?_, hstate, hearly⟩
  unfold Sched.wakeSleepers
  rw [List.getElem?_map, ht, Option.map_some]
  congr 1
  rw [if_pos]
  simp [hearly tick htick]

theorem Sched.HeldUntil.accountCurrentTick (h : s.HeldUntil id early) :
    s.accountCurrentTick.HeldUntil id early := by
  have hmodify : ∀ c, (s.modify c fun t =>
      { t with remainingTicks := t.remainingTicks - 1 }).HeldUntil id early :=
    fun c => h.modify fun _ t hstate => ⟨hstate, rfl⟩
  unfold Sched.accountCurrentTick
  split
  · exact h
  split
  · exact h
  dsimp only
  split
  · exact (hmodify _).same rfl
  · exact hmodify _

theorem Sched.HeldUntil.switchTo (h : s.HeldUntil id early) (hnext : next ≠ id) :
    (s.switchTo next).HeldUntil id early := by
  unfold Sched.switchTo
  split
  · exact h
  dsimp only
  refine Sched.HeldUntil.same (s := (s.modify s.current _).modify next _) ?_ rfl
  refine Sched.HeldUntil.modify (h.modify fun _ t hstate => ?_) fun heq =>
    absurd heq hnext
  rw [if_neg (by rw [hstate]; nofun)]
  exact ⟨hstate, rfl⟩

theorem Sched.HeldUntil.nextRunnableTask (h : s.HeldUntil id early)
    (hid : id ≠ 0) (start : Nat) : s.nextRunnableTask start ≠ id := by
  intro hnext
  have hready := h.not_ready
  rcases nextRunnableTask_cases start s with hzero | hrun
  · exact hid (hnext.symm.trans hzero)
  · rw [hnext] at hrun
    unfold Sched.ready at hready
    rw [hready] at hrun
    cases hrun

theorem Sched.HeldUntil.maybeReschedule (h : s.HeldUntil id early)
    (hid : id ≠ 0) : s.maybeReschedule.HeldUntil id early := by
  unfold Sched.maybeReschedule
  split
  · exact h
  dsimp only
  have hflag : Sched.HeldUntil id early { s with rescheduleRequested := false } :=
    h.same rfl
  refine Sched.HeldUntil.switchTo (hflag.modify fun _ t hstate => ⟨hstate, rfl⟩)
    (hflag.nextRunnableTask hid _)

theorem Sched.HeldUntil.onTimerTick (h : s.HeldUntil id early) (hid : id ≠ 0)
    (htick : early tick) : (s.onTimerTick tick).HeldUntil id early := by
  have hwake := h.wakeSleepers htick
  unfold Sched.onTimerTick
  split
  · exact h
  dsimp only
  split
  · exact hwake
  · exact hwake.accountCurrentTick.maybeReschedule hid

theorem Sched.HeldUntil.request {c : Prop} [Decidable c]
    (h : s.HeldUntil id early) :
    Sched.HeldUntil id early
      (if c then { s with rescheduleRequested := true } else s) := by
  split
  · exact h.same rfl
  · exact h

theorem Sched.HeldUntil.beginRun {j : Nat} (h : s.HeldUntil id early) :
    (s.beginRun j).HeldUntil id early := by
  unfold Sched.beginRun
  split
  · exact h
  next t ht =>
  split
  · exact h
  next hrun =>
  have hj : j ≠ id := by
    rintro rfl
    have hready := h.not_ready
    unfold Sched.ready at hready
    rw [ht, Option.any_some] at hready
    rw [hready] at hrun
    exact hrun rfl
  have hmodify : ∀ s1 : Sched, s1.HeldUntil id early →
      Sched.HeldUntil id early
        { s1.modify j fun t => { t with state := .running } with
          dispatchActive := true } := by
    intro s1 h1
    have hmodified := @Sched.HeldUntil.modify s1 id early h1 j
      (fun t => { t with state := .running }) fun heq => absurd heq hj
    exact hmodified.same rfl
  dsimp only
  split
  · exact hmodify _ (h.switchTo hj)
  · exact hmodify _ h

theorem Sched.HeldUntil.endRun {j : Nat} {moved : Bool}
    (h : s.HeldUntil id early) : (s.endRun j moved).HeldUntil id early := by
  have hflag : Sched.HeldUntil id early { s with dispatchActive := false } :=
    h.same rfl
  unfold Sched.endRun
  dsimp only
  split
  · exact hflag
  · refine hflag.modify fun _ t hstate => ?_
    rw [if_neg (by rw [hstate]; nofun)]
    exact ⟨hstate, rfl⟩

theorem Sched.HeldUntil.yieldTask {j : Nat} (h : s.HeldUntil id early) :
    (s.yieldTask j).2.HeldUntil id early := by
  unfold Sched.yieldTask
  split
  · exact h
  split
  · exact h
  split
  · refine Sched.HeldUntil.request (c := s.current = j) ?_
    exact h.modify fun _ t hstate => ⟨hstate, rfl⟩
  · exact h

theorem Sched.HeldUntil.yieldCurrent (h : s.HeldUntil id early) :
    s.yieldCurrent.HeldUntil id early := by
  unfold Sched.yieldCurrent
  split
  · exact h
  split
  · have hmodified := @Sched.HeldUntil.modify s id early h s.current
      (fun t => { t with remainingTicks := 0 }) fun _ t hstate => ⟨hstate, rfl⟩
    exact hmodified.same rfl
  · exact h

theorem Sched.HeldUntil.sleepTaskUntil {j : Nat} (h : s.HeldUntil id early)
    (hj : j ≠ id) : (s.sleepTaskUntil j tick).2.HeldUntil id early := by
  unfold Sched.sleepTaskUntil
  split
  · exact h
  · refine Sched.HeldUntil.request (c := s.current = j) ?_
    exact h.modify fun heq => absurd heq hj

theorem Sched.HeldUntil.sleepCurrentUntil (h : s.HeldUntil id early)
    (hcurrent : s.current ≠ id) :
    (s.sleepCurrentUntil tick).2.HeldUntil id early := by
  unfold Sched.sleepCurrentUntil
  split
  · exact h
  split
  · exact h
  · have hmodified := @Sched.HeldUntil.modify s id early h s.current
      (fun t => { t with
        state := .sleeping, wakeTick := tick
        remainingTicks := t.timeSliceTicks }) fun heq => absurd heq hcurrent
    exact hmodified.same rfl

theorem Sched.HeldUntil.setTaskState {j : Nat} {state : TaskState}
    (h : s.HeldUntil id early) (hj : j ≠ id) :
    (s.setTaskState j state).2.HeldUntil id early := by
  unfold Sched.setTaskState
  split
  · exact h
  split
  · exact h
  dsimp only
  generalize (if state = .running && j ≠ s.current then TaskState.ready
    else state) = state'
  exact Sched.HeldUntil.request (h.modify fun heq => absurd heq hj)

theorem Sched.HeldUntil.wakeTask {j : Nat} (h : s.HeldUntil id early)
    (hj : j ≠ id) : (s.wakeTask j).2.HeldUntil id early := by
  unfold Sched.wakeTask
  split
  · exact h
  split
  · exact h
  · exact h.modify fun heq => absurd heq hj

theorem Sched.HeldUntil.add {got : Option Nat} {slice j : Nat}
    {hasEntry : Bool} (h : s.HeldUntil id early)
    (hadd : s.addKernelTaskExId got slice hasEntry = some (j, s')) :
    s'.HeldUntil id early := by
  have hold := h
  obtain ⟨t, ht, hstate, -⟩ := hold
  obtain ⟨new, -, -, -, -, hslot⟩ := addKernelTaskExId_cases hadd
  refine h.same ?_
  rcases hslot with ⟨-, ⟨old, hold, hunused⟩, htasks, -⟩ | ⟨-, htasks, -⟩
  · rw [htasks, List.getElem?_set_ne]
    rintro rfl
    obtain rfl := Option.some.inj (hold.symm.trans ht)
    rw [hunused] at hstate
    cases hstate
  · rw [htasks, List.getElem?_append_left (List.getElem?_eq_some_iff.mp ht).1]

theorem Sched.HeldUntil.removeTask {j : Nat} (h : s.HeldUntil id early)
    (hj : j ≠ id) : (s.removeTask j).2.HeldUntil id early := by
  unfold Sched.removeTask
  split
  · exact h
  · refine h.same ?_
    exact List.getElem?_set_ne hj

theorem Sched.HeldUntil.call {sched : Scheduler} {c : Call}
    (h : sched.sched.HeldUntil id fun tick => tick - start < ticks)
    (hid : id ≠ 0) (hleaves : Leaves id start ticks sched c) :
    (sched.call c).sched.HeldUntil id fun tick => tick - start < ticks := by
  obtain ⟨habout, hearly⟩ := hleaves
  cases c with
  | add got slice hasEntry =>
    show (sched.add got slice hasEntry).2.sched.HeldUntil id _
    unfold Scheduler.add
    split
    · exact h
    · next hadd => exact h.add hadd
  | remove j =>
    show (sched.remove j).sched.HeldUntil id _
    have hremoved := h.removeTask (j := j) habout
    unfold Scheduler.remove
    split
    · exact h
    · next hremove =>
      rw [hremove] at hremoved
      exact hremoved
  | setTaskState j state => exact h.setTaskState habout
  | sleepTaskUntil j tick => exact h.sleepTaskUntil habout
  | sleepTaskTicks j n now =>
    show (sched.sched.sleepTaskTicks j n now).2.HeldUntil id _
    unfold Sched.sleepTaskTicks
    split
    · exact h.yieldTask
    · exact h.sleepTaskUntil habout
  | sleepCurrentUntil tick => exact h.sleepCurrentUntil habout
  | sleepCurrentTicks n now =>
    show (sched.sched.sleepCurrentTicks n now).2.HeldUntil id _
    unfold Sched.sleepCurrentTicks
    split
    · exact h.yieldCurrent
    · exact h.sleepCurrentUntil habout
  | yieldTask j => exact h.yieldTask
  | yieldCurrent => exact h.yieldCurrent
  | wakeTask j => exact h.wakeTask habout
  | onTimerTick tick => exact h.onTimerTick hid (hearly tick rfl)
  | wakeSleepers tick => exact h.wakeSleepers (hearly tick rfl)
  | accountCurrentTick => exact h.accountCurrentTick
  | maybeReschedule => exact h.maybeReschedule hid
  | beginRun j => exact h.beginRun
  | endRun j moved => exact h.endRun

theorem early_of_toNat (hsum : start.toNat + ticks.toNat < 2 ^ 64)
    (htick : tick - start < ticks) : tick < start + ticks := by
  rw [UInt64.lt_iff_toNat_lt, UInt64.toNat_add, Nat.mod_eq_of_lt hsum]
  by_cases hle : start ≤ tick
  · have hsub := UInt64.toNat_sub_of_le _ _ hle
    rw [UInt64.lt_iff_toNat_lt, hsub] at htick
    omega
  · have hlt := UInt64.lt_iff_toNat_lt.mp (UInt64.not_le.mp hle)
    omega

theorem sleepsThrough_iff {sched : Scheduler} {t : Task} (hid : id ≠ 0)
    (ht : sched.sched.tasks[id]? = some t) (hstate : t.state = .sleeping)
    (hwake : t.wakeTick = start + ticks) (hticks : ticks ≠ 0) :
    sched.SleepsThrough id start ticks ↔ start.toNat + ticks.toNat < 2 ^ 64 := by
  constructor
  · intro h
    refine Nat.lt_of_not_le fun hwraps => ?_
    have hleaves : Leaves id start ticks sched (.wakeSleepers start) := by
      refine ⟨fun h => h, fun tick htick => ?_⟩
      obtain rfl := Option.some.inj htick
      rw [UInt64.sub_self]
      exact UInt64.pos_iff_ne_zero.mpr hticks
    have hasleep : sched.sched.asleep id = true := by
      unfold Sched.asleep
      rw [ht, Option.any_some, decide_eq_true_iff]
      exact hstate
    have hwoken := h sched .refl _ start hleaves rfl hasleep
    have hlt : ¬ start < t.wakeTick := by
      have hsmall := ticks.toNat_lt
      have hsmall' := start.toNat_lt
      rw [hwake, UInt64.lt_iff_toNat_lt, UInt64.toNat_add]
      omega
    replace hwoken : (sched.sched.wakeSleepers start).asleep id = true := hwoken
    unfold Sched.asleep Sched.wakeSleepers at hwoken
    rw [List.getElem?_map, ht, Option.map_some, Option.any_some,
      decide_eq_true_iff, if_neg (by simp [hstate, hlt])] at hwoken
    cases hwoken
  · intro hsum s' hrun
    have hheld : s'.sched.HeldUntil id fun tick => tick - start < ticks := by
      induction hrun with
      | refl =>
        refine ⟨t, ht, hstate, fun tick htick => ?_⟩
        rw [hwake]
        exact early_of_toNat hsum htick
      | tail _ hlast ih =>
        obtain ⟨c, hleaves, rfl⟩ := hlast
        exact ih.call hid hleaves
    intro c tick hleaves _ _
    exact (hheld.call hid hleaves).asleep

theorem sleepsThrough_zero {sched : Scheduler} :
    sched.SleepsThrough id start 0 := by
  intro s' _ c tick hleaves htick _
  exact absurd (hleaves.early tick htick) (UInt64.not_lt.mpr UInt64.zero_le)

theorem sleepTaskTicks_iff {sched : Scheduler}
    (hput : (sched.sched.sleepTaskTicks id ticks start).1 = true) :
    (sched.call (.sleepTaskTicks id ticks start)).SleepsThrough id start ticks ↔
      ticks = 0 ∨ start.toNat + ticks.toNat < 2 ^ 64 := by
  by_cases hticks : ticks = 0
  · subst hticks
    exact iff_of_true sleepsThrough_zero (.inl rfl)
  rw [or_iff_right hticks]
  have hcall : (sched.call (.sleepTaskTicks id ticks start)).sched
      = (sched.sched.sleepTaskUntil id (start + ticks)).2 := by
    show (sched.sched.sleepTaskTicks id ticks start).2 = _
    unfold Sched.sleepTaskTicks
    rw [if_neg hticks]
  unfold Sched.sleepTaskTicks at hput
  rw [if_neg hticks] at hput
  unfold Sched.sleepTaskUntil at hput hcall
  split at hput
  · cases hput
  next hused =>
  rw [if_neg hused] at hcall
  simp only [Bool.or_eq_true, decide_eq_true_eq, Bool.not_eq_true', not_or,
    Bool.not_eq_false] at hused
  obtain ⟨t, ht, -⟩ := taskSlotUsed_iff.mp hused.2
  refine sleepsThrough_iff (t := { t with
    state := .sleeping, wakeTick := start + ticks
    remainingTicks := t.timeSliceTicks }) hused.1 ?_ rfl rfl hticks
  rw [hcall]
  dsimp only
  have hget : ∀ s1 : Sched, s1.tasks = (sched.sched.modify id fun t => { t with
      state := .sleeping, wakeTick := start + ticks
      remainingTicks := t.timeSliceTicks }).tasks →
      s1.tasks[id]? = some { t with
        state := .sleeping, wakeTick := start + ticks
        remainingTicks := t.timeSliceTicks } := by
    intro s1 htasks
    rw [htasks, modify_get, if_pos rfl, ht]
    rfl
  split
  · exact hget _ rfl
  · exact hget _ rfl

theorem sleepCurrentTicks_iff {sched : Scheduler}
    (hput : (sched.sched.sleepCurrentTicks ticks start).1 = true) :
    (sched.call (.sleepCurrentTicks ticks start)).SleepsThrough
        sched.sched.current start ticks ↔
      ticks = 0 ∨ start.toNat + ticks.toNat < 2 ^ 64 := by
  by_cases hticks : ticks = 0
  · subst hticks
    exact iff_of_true sleepsThrough_zero (.inl rfl)
  rw [or_iff_right hticks]
  have hcall : (sched.call (.sleepCurrentTicks ticks start)).sched
      = (sched.sched.sleepCurrentUntil (start + ticks)).2 := by
    show (sched.sched.sleepCurrentTicks ticks start).2 = _
    unfold Sched.sleepCurrentTicks
    rw [if_neg hticks]
  unfold Sched.sleepCurrentTicks at hput
  rw [if_neg hticks] at hput
  unfold Sched.sleepCurrentUntil at hput hcall
  split at hput
  · cases hput
  next t ht =>
  split at hput
  · cases hput
  next hentry =>
  rw [ht] at hcall
  dsimp only at hcall
  rw [if_neg hentry] at hcall
  simp only [Bool.or_eq_true, decide_eq_true_eq, not_or] at hentry
  refine sleepsThrough_iff (t := { t with
    state := .sleeping, wakeTick := start + ticks
    remainingTicks := t.timeSliceTicks }) hentry.1 ?_ rfl rfl hticks
  rw [hcall]
  show (sched.sched.modify _ _).tasks[_]? = _
  rw [modify_get, if_pos rfl, ht]
  rfl

end tasks

-- ==== callers

/-- The call can have begun a run of the slot. -/
def Frame.Calls (i : Fin maxProcs) : Frame → Prop
  | .sync j => j = i
  | .entry .. => False
  | _ => True

/-- Each run has been begun by the call below it. -/
def Kernel.Called (k : Kernel) : Prop :=
  ∀ i prevCr3 switched frames,
    .entry i prevCr3 switched :: frames <:+ k.frames →
    ∃ frame rest, frames = frame :: rest ∧ frame.Calls i

section callers

variable {k k' k₀ : Kernel} {i : Fin maxProcs} {a : Answers} {e : Event}
  {frame : Frame} {frames : List Frame}

theorem Kernel.Called.suffix (h : k.Called) (hframes : k'.frames <:+ k.frames) :
    k'.Called := by
  intro i prevCr3 switched frames hentry
  exact h i prevCr3 switched frames (hentry.trans hframes)

theorem Kernel.Called.same (h : k.Called) (hframes : k'.frames = k.frames) :
    k'.Called :=
  h.suffix ⟨[], hframes⟩

theorem Kernel.Called.push (h : k.Called)
    (hframes : k'.frames = frame :: k.frames)
    (hframe : ∀ i, frame.runs = some i →
      ∃ caller rest, k.frames = caller :: rest ∧ caller.Calls i) :
    k'.Called := by
  intro i prevCr3 switched rest hentry
  rw [hframes, List.suffix_cons_iff] at hentry
  rcases hentry with heq | hentry
  · obtain ⟨rfl, rfl⟩ := List.cons.inj heq
    exact hframe i rfl
  · exact h i prevCr3 switched rest hentry

theorem Kernel.Calls.called {kc : Kernel} (h : k.Called)
    (hcall : k.Calls a e i kc) :
    kc.Called ∧ ∃ frame rest, kc.frames = frame :: rest ∧ frame.Calls i := by
  have hpush : ∀ frame : Frame, kc.frames = frame :: k.frames →
      frame.runs = none → frame.Calls i →
      kc.Called ∧ ∃ frame rest, kc.frames = frame :: rest ∧ frame.Calls i := by
    intro frame hframes hnone hcalls
    refine ⟨h.push hframes fun j hj => ?_, frame, k.frames, hframes, hcalls⟩
    rw [hnone] at hj
    cases hj
  cases hcall with
  | @exec path io i k1 hidle hpath hslot hstdio =>
    exact hpush (.sync i) (congrArg (Frame.sync i :: ·) (stdio_frames hstdio)) rfl rfl
  | @waitPid pid i hidle hawaited =>
    exact hpush _ (congrArg (_ :: ·) markWaiting_quiet.frames) rfl trivial
  | @dispatch i hpending =>
    exact hpush _ (congrArg (_ :: ·) wake_quiet.frames) rfl trivial
  | @resume i frames hframes => exact ⟨h, .sync i, frames, hframes, rfl⟩

theorem Kernel.Called.runSlot (h : k.Called) (hframed : k.Framed)
    (hframes : k.frames = frame :: frames) (hframe : frame.Calls i) :
    (k.runSlot a i).Called := by
  have hbegan := @runBegin_began k i a (hframed.pids i)
  unfold Kernel.runSlot
  generalize k.runBegin a i = r at hbegan ⊢
  have hfailed : ∀ k1 : Kernel, k1.frames = k.frames →
      (k1.returned a false failed).Called := by
    intro k1 hsame
    refine (h.same hsame).suffix ?_
    rcases (@returned_returned k1 a false failed).frames with
      heq | ⟨frame, heq, -⟩
    · exact ⟨[], heq⟩
    · rw [heq]
      exact List.suffix_cons ..
  cases hbegan with
  | unused => exact hfailed _ rfl
  | refused _ _ hcalm _ => exact hfailed _ hcalm.frames
  | failed _ _ _ _ hsame _ => exact hfailed _ hsame
  | started _ _ _ _ hpushed _ =>
    refine h.push hpushed fun j hj => ?_
    obtain rfl := Option.some.inj hj
    exact ⟨frame, frames, hframes, hframe⟩

theorem Kernel.Called.step (h : k.Called) (hbalanced : k.Balanced)
    (hstep : k.step a e = some k') : k'.Called := by
  rcases hbalanced.cases hstep with
    ⟨i, kc, hcall, rfl⟩ | ⟨k1, callRet, hquiet, hend⟩ | ⟨-, hframes⟩
  · obtain ⟨hcalled, frame, rest, hframes, hframe⟩ := hcall.called h
    exact hcalled.runSlot (hcall.balanced hbalanced).1.framed hframes hframe
  · obtain ⟨-, j, prevCr3, switched, frames, hframes, hpopped, -⟩ :=
      (hbalanced.quiet hquiet).endRun hend
    refine (h.same hquiet.frames).suffix ?_
    rw [hframes]
    rcases hpopped with hpopped | ⟨frame, hpopped, -⟩
    · rw [hpopped]
      exact List.suffix_cons ..
    · rw [hpopped]
      exact (List.suffix_cons ..).trans (List.suffix_cons ..)
  · exact h.same hframes

theorem called_of_run {C : Answers → Event → Kernel → Prop} (h0 : k₀.Started)
    (hrun : RunIf C k₀ k) : k.Balanced ∧ k.Called := by
  induction hrun with
  | refl =>
    refine ⟨balanced_of_started h0, fun i prevCr3 switched frames hentry => ?_⟩
    rw [h0.frames, List.suffix_nil] at hentry
    cases hentry
  | tail _ hlast ih =>
    obtain ⟨hbalanced, hcalled⟩ := ih
    obtain ⟨a, e, -, hstep⟩ := hlast
    exact ⟨hbalanced.step hstep, hcalled.step hbalanced hstep⟩

end callers

-- ==== milliseconds

/-- `CLKS_TIMER_HZ`, the answer of `clks_interrupts_timer_hz`. -/
def timerHz : UInt64 := 100

/-- `u64::checked_mul`. -/
def checkedMul (x y : UInt64) : Option UInt64 :=
  if x.toNat * y.toNat < 2 ^ 64 then some (x * y) else none

/-- `u64::checked_add`. -/
def checkedAdd (x y : UInt64) : Option UInt64 :=
  if x.toNat + y.toNat < 2 ^ 64 then some (x + y) else none

/-- `u64::saturating_mul`. -/
def saturatingMul (x y : UInt64) : UInt64 :=
  (checkedMul x y).getD 0xFFFFFFFFFFFFFFFF

/-- `ms_to_ticks`. -/
def msToTicks (ms : UInt64) : UInt64 :=
  if ms = 0 then 0
  else
    let hz := if timerHz = 0 then 100 else timerHz
    let whole := ms / 1000
    let rem := ms % 1000
    let ticks :=
      (checkedMul whole hz).bind fun ticks =>
        if rem ≠ 0 then checkedAdd ticks ((saturatingMul rem hz + 999) / 1000)
        else some ticks
    match ticks with
    | none => 0xFFFFFFFFFFFFFFFF
    | some ticks => if ticks = 0 then 1 else ticks

theorem msToTicks_toNat (ms : UInt64) :
    (msToTicks ms).toNat = (ms.toNat * timerHz.toNat + 999) / 1000 := by
  unfold msToTicks
  split
  · next hms => rw [hms]; rfl
  next hms =>
  have hpos : 0 < ms.toNat :=
    UInt64.lt_iff_toNat_lt.mp (UInt64.pos_iff_ne_zero.mpr hms)
  have hsmall := ms.toNat_lt
  have hwhole : (ms / 1000).toNat = ms.toNat / 1000 := UInt64.toNat_div ..
  have hrem : (ms % 1000).toNat = ms.toNat % 1000 := UInt64.toNat_mod ..
  have hhz : timerHz.toNat = 100 := rfl
  have hmul : checkedMul (ms / 1000) timerHz = some (ms / 1000 * timerHz) := by
    unfold checkedMul
    rw [if_pos]
    rw [hwhole, hhz]
    omega
  have hprod : (ms / 1000 * timerHz).toNat = ms.toNat / 1000 * 100 := by
    rw [UInt64.toNat_mul, hwhole, hhz]
    omega
  have hpart : saturatingMul (ms % 1000) timerHz = ms % 1000 * timerHz := by
    unfold saturatingMul checkedMul
    rw [if_pos, Option.getD_some]
    rw [hrem, hhz]
    omega
  have hpartial : ((ms % 1000 * timerHz + 999) / 1000).toNat
      = (ms.toNat % 1000 * 100 + 999) / 1000 := by
    rw [UInt64.toNat_div, UInt64.toNat_add, UInt64.toNat_mul, hrem, hhz]
    show (ms.toNat % 1000 * 100 % 2 ^ 64 + 999) % 2 ^ 64 / 1000 = _
    omega
  have hsum : checkedAdd (ms / 1000 * timerHz)
      ((ms % 1000 * timerHz + 999) / 1000)
      = some (ms / 1000 * timerHz + (ms % 1000 * timerHz + 999) / 1000) := by
    unfold checkedAdd
    rw [if_pos]
    rw [hprod, hpartial]
    omega
  have hround : ∀ t : UInt64,
      t.toNat = (ms.toNat * timerHz.toNat + 999) / 1000 →
      (if t = 0 then (1 : UInt64) else t).toNat
        = (ms.toNat * timerHz.toNat + 999) / 1000 := by
    intro t ht
    rw [if_neg, ht]
    rintro rfl
    rw [hhz] at ht
    change 0 = _ at ht
    omega
  dsimp only
  rw [if_neg (by decide : ¬ timerHz = 0), hmul, Option.bind_some, hpart]
  by_cases hzero : ms % 1000 = 0
  · rw [if_neg (by rw [hzero]; exact fun h => h rfl)]
    dsimp only
    apply hround
    rw [hzero] at hrem
    change 0 = _ at hrem
    rw [hprod, hhz]
    omega
  · rw [if_pos hzero, hsum]
    dsimp only
    apply hround
    rw [UInt64.toNat_add, hprod, hpartial, hhz]
    omega

-- ==== processes

/-- A process that is suspended can be run: the dispatcher can choose it, a
program waits for it, or the call that has begun its run goes on with it. -/
inductive Kernel.MayGoOn (a : Answers) (i : Fin maxProcs) (k : Kernel) : Prop
  | dispatch : k.pendingDispatchActive = false → k.dispatchable a i = true →
      MayGoOn a i k
  | waited {pid : UInt64} : k.awaited pid = some i → MayGoOn a i k
  | resume {frames : List Frame} : k.frames = .sync i :: frames →
      (k.procs i).state = .pending → MayGoOn a i k

/-- `clks_exec_sleep_ticks`, up to its loop. -/
def Kernel.beginSleep (a : Answers) (ticks : UInt64) (k : Kernel) : Kernel :=
  match k.currentProc with
  | none => { k with sched := (k.sched.sleepCurrentTicks ticks a.now).2 }
  | some i =>
    let k :=
      if ticks = 0 then k.setBlock (a.grown 0) i .yielded 0 0
      else k.setBlock (a.grown 0) i .sleep (a.now + ticks) 0
    let id := (k.procs i).schedulerTaskId
    if (k.procs i).bound && id ≤ 0xFFFFFFFF then
      { k with sched := (k.sched.sleepTaskTicks id ticks a.now).2 }
    else k

/-- Does the loop of `clks_exec_sleep_ticks` end, when the timer reads `now`?
No loop is entered for no ticks. -/
def sleepOver (start ticks now : UInt64) : Bool := !(now - start < ticks)

/-- How `sleep_ticks` leaves the process (process.rs): suspended, or in the
loop of `clks_exec_sleep_ticks`. -/
inductive Asleep
  | suspended (k : Kernel)
  | looping (start ticks : UInt64) (k : Kernel)

/-- `sleep_ticks`, up to where something else gets the processor. -/
def Kernel.sleepTicks (a : Answers) (ticks : UInt64) (k : Kernel) : Asleep :=
  match k.suspendCurrent a with
  | some k => .suspended k
  | none => .looping a.now ticks (k.beginSleep a ticks)

/-- The process can execute its next instruction: its loop ends, or someone
runs it, in any state in which the loop is still on the stack; or its run has
been left, and someone can run it. -/
def Asleep.Awake (a : Answers) (i : Fin maxProcs) : Asleep → Prop
  | .suspended k =>
    ∃ a₁ k', k.endRun a₁ internalSuspendStatus = some k' ∧ k'.MayGoOn a i
  | .looping start ticks k =>
    sleepOver start ticks a.now = true ∨
      ∃ k', RunIf (fun _ _ _ => True) k k' ∧ i ∈ k'.runners ∧ k'.MayGoOn a i

/-- The process `i`, which sleeps for so many ticks, does not go on before
they have elapsed. -/
def Kernel.SleepsThrough (k : Kernel) (i : Fin maxProcs) (ticks : UInt64) :
    Prop :=
  ∀ a a', a'.now - a.now < ticks → ¬ (k.sleepTicks a ticks).Awake a' i

/-- A call in which the process is suspended gives the processor away: the
dispatcher has begun its run, or a program that waits for it, and nobody has
asked it to exit. -/
def Kernel.GivesWay (k : Kernel) (i : Fin maxProcs) : Prop :=
  k.pendingDispatchActive = true ∧ (k.procs i).loadedActive = true ∧
    (k.procs i).runStack ≠ none ∧
    ∀ level ∈ k.pidStack.head?,
      level.runRet internalSuspendStatus = internalSuspendStatus

section processes

variable {k k' k₀ : Kernel} {i : Fin maxProcs} {a a' a1 : Answers}
  {prevCr3 : Nat} {switched : Bool} {frames : List Frame}
  {level : Level} {levels : List Level}

theorem Kernel.MayGoOn.pending (h : k.MayGoOn a i) :
    (k.procs i).state = .pending := by
  cases h with
  | dispatch _ hdispatchable =>
    unfold Kernel.dispatchable at hdispatchable
    simp only [Bool.and_eq_true, decide_eq_true_eq] at hdispatchable
    exact hdispatchable.1.1.1.2
  | waited hawaited =>
    unfold Kernel.awaited at hawaited
    have hcond := (Option.filter_eq_some_iff.mp hawaited).2
    rw [Bool.and_eq_true, decide_eq_true_eq] at hcond
    exact hcond.1
  | resume _ hstate => exact hstate

theorem Kernel.Framed.not_mayGoOn (h : k.Framed) (hi : i ∈ k.runners) :
    ¬ k.MayGoOn a i := by
  intro hgoes
  have hrunning : (k.procs i).state = .running := (h.running i hi).2
  exact nomatch hrunning.symm.trans hgoes.pending

theorem beginSleep_quiet {ticks : UInt64} : k.Quiet (k.beginSleep a ticks) := by
  unfold Kernel.beginSleep
  split
  · exact ⟨rfl, rfl, rfl, rfl⟩
  next j _ =>
  have hblock : ∀ reason wakeTick, k.Quiet
      (k.setBlock (a.grown 0) j reason wakeTick 0) := fun _ _ =>
    setBlock_calm.quiet (cards_setBlock ..) (desk_setBlock ..)
  dsimp only
  generalize hk1 : (if ticks = 0 then k.setBlock (a.grown 0) j .yielded 0 0
    else k.setBlock (a.grown 0) j .sleep (a.now + ticks) 0) = k1
  have hquiet : k.Quiet k1 := by
    rw [← hk1]
    split
    · exact hblock _ _
    · exact hblock _ _
  split
  · exact hquiet.trans ⟨rfl, rfl, rfl, rfl⟩
  · exact hquiet

theorem looping_not_awake {ticks : UInt64} (h : k.Balanced)
    (hearly : a'.now - a.now < ticks) :
    ¬ (Asleep.looping a.now ticks (k.beginSleep a ticks)).Awake a' i := by
  intro hawake
  rcases hawake with hover | ⟨k', hrun, hi, hgoes⟩
  · unfold sleepOver at hover
    rw [decide_eq_true hearly] at hover
    cases hover
  · have hbalanced := balanced_of_run (h.quiet beginSleep_quiet) hrun
    exact hbalanced.framed.not_mayGoOn hi hgoes

theorem suspendCurrent_isSome (hframed : k.Framed)
    (hframes : k.frames = .entry i prevCr3 switched :: frames)
    (hcurrent : k.currentProc = some i) :
    (k.suspendCurrent a).isSome = true ↔
      k.pendingDispatchActive = true ∧ (k.procs i).loadedActive = true ∧
        (k.procs i).runStack ≠ none := by
  have hi : i ∈ k.runners := by
    unfold Kernel.runners
    rw [hframes]
    exact List.mem_cons_self
  have hrunning : (k.procs i).state = .running := (hframed.running i hi).2
  unfold Kernel.suspendCurrent
  rw [hcurrent]
  dsimp only
  rw [hrunning]
  by_cases hactive : k.pendingDispatchActive = true
  · by_cases hloaded : (k.procs i).loadedActive = true
    · by_cases hstack : (k.procs i).runStack = none
      · simp [hactive, hloaded, hstack]
      · simp [hactive, hloaded, hstack]
    · simp [hactive, hloaded]
  · simp [hactive]

theorem endRun_not_mayGoOn
    (hframes : k.frames = .entry i prevCr3 switched :: frames)
    (hstack : k.pidStack = level :: levels)
    (hret : level.runRet internalSuspendStatus ≠ internalSuspendStatus)
    (hend : k.endRun a1 internalSuspendStatus = some k') : ¬ k'.MayGoOn a i := by
  intro hgoes
  have hstate := (@runReturn_state i a1 internalSuspendStatus prevCr3 switched
    level { k with frames }).2 fun h => hret h.1
  rw [endRun_eq hframes hstack hend, runEnd_eq] at hgoes
  have hpending := hgoes.pending
  rw [show ((Kernel.returned a1 true _ _).procs i).state = _ from
    congrArg Card.state (congrFun returned_returned.cards i)] at hpending
  replace hpending : (((Kernel.runReturn a1 internalSuspendStatus i prevCr3
    switched level { k with frames }).2).procs i).state = .pending := hpending
  split at hstate
  · rw [hpending] at hstate
    cases hstate
  · rw [hpending] at hstate
    cases hstate.1

theorem clearBlock_active {got : Option Nat} :
    (k.clearBlock got i).pendingDispatchActive = k.pendingDispatchActive := by
  unfold Kernel.clearBlock
  obtain ⟨sched, hsync⟩ := syncSchedulerState_eq got (k.modifyProc i fun p =>
    { p with
      blockedReason := .none, wakeTick := 0, waitTargetPid := 0
      threadState :=
        if p.state = .pending then .ready
        else if p.state = .running then .running
        else p.threadState }) i
  rw [hsync]
  unfold Kernel.bindSchedulerTask
  dsimp only
  split
  · rfl
  · split <;> rfl

theorem returned_mayGoOn {frame : Frame} {pid : UInt64}
    (hframes : k.frames = frame :: frames) (hframe : frame.Calls i)
    (hfound : k.findSlotByPid pid = some i)
    (hpending : (k.procs i).state = .pending)
    (hsaved : (k.procs i).savedFrameValid = true) :
    (k.returned a1 true internalSuspendStatus).MayGoOn a i := by
  have hused : (k.procs i).used = true := (findSlotByPid_some hfound).1
  have hwaited : ∀ k' : Kernel, k'.cards = k.cards →
      k'.pendingDispatchActive = false → k'.MayGoOn a i := by
    intro k' hcards hactive
    have hstate : (k'.procs i).state = .pending :=
      (congrArg Card.state (congrFun hcards i)).trans hpending
    have hawaited : k'.awaited pid = some i := by
      unfold Kernel.awaited
      rw [findSlotByPid_congr (k := k) fun j => by
        rw [hcards]; exact ⟨rfl, rfl⟩, hfound, Option.filter_some, if_pos]
      rw [hstate, hactive]
      rfl
    exact .waited hawaited
  have hcards := (@returned_returned k a1 true internalSuspendStatus).cards
  cases frame with
  | entry => exact absurd hframe id
  | dispatch =>
    refine hwaited _ hcards ?_
    unfold Kernel.returned
    rw [hframes]
  | waitPid parent =>
    refine hwaited _ hcards ?_
    unfold Kernel.returned
    rw [hframes]
    cases parent with
    | none => rfl
    | some j => exact clearBlock_active
  | sync j =>
    have hj : j = i := hframe
    subst hj
    have heq : k.returned a1 true internalSuspendStatus = k := by
      unfold Kernel.returned Kernel.hasInternalSuspend
      rw [hframes]
      dsimp only
      rw [hused, hpending, hsaved]
      rfl
    rw [heq]
    exact .resume hframes hpending

theorem Kernel.Called.gives_way (hcalled : k.Called) (hbalanced : k.Balanced)
    (hframes : k.frames = .entry i prevCr3 switched :: frames)
    (hcurrent : k.currentProc = some i) (hgives : k.GivesWay i) :
    ∃ k1, k.suspendCurrent a = some k1 ∧ (Asleep.suspended k1).Awake a' i := by
  obtain ⟨hactive, hloaded, hrunStack, hret⟩ := hgives
  obtain ⟨k1, hsuspend⟩ := Option.isSome_iff_exists.mp
    ((suspendCurrent_isSome (a := a) hbalanced.framed hframes hcurrent).mpr
      ⟨hactive, hloaded, hrunStack⟩)
  obtain ⟨hcalm, hcards⟩ := suspendCurrent_calm hsuspend
  obtain ⟨frame, rest, hbelow, hframe⟩ :=
    hcalled i prevCr3 switched frames ⟨[], hframes.symm⟩
  obtain ⟨level, levels, hstack⟩ : ∃ level levels,
      k.pidStack = level :: levels := by
    unfold Kernel.currentProc at hcurrent
    split at hcurrent
    · cases hcurrent
    · next level levels hstack => exact ⟨level, levels, hstack⟩
  have hfound : k.findSlotByPid level.pid = some i := by
    unfold Kernel.currentProc at hcurrent
    rwa [hstack] at hcurrent
  have hframes1 := hcalm.frames.trans hframes
  have hstack1 := hcalm.pidStack.trans hstack
  have hsaved1 : (k1.procs i).savedFrameValid = true :=
    (suspendCurrent_saved hsuspend).mpr (.inl hcurrent)
  have hlevel : level.runRet internalSuspendStatus = internalSuspendStatus :=
    hret level (by rw [hstack]; rfl)
  have hend : k1.endRun a internalSuspendStatus = some
      ({ k1 with frames }.runEnd a internalSuspendStatus i prevCr3 switched
        level) := by
    unfold Kernel.endRun
    rw [hframes1, hstack1]
  refine ⟨k1, hsuspend, a, _, hend, ?_⟩
  have hpid : (k1.cards i).pid ≠ 0 := by
    rw [hcards]
    exact hbalanced.framed.pids i (findSlotByPid_some hfound).1
  have hleft := ((hbalanced.quiet (suspendCurrent_quiet hsuspend)).endRun hend).2
  obtain ⟨j, prevCr3', switched', frames', hframes', -, -, hleft⟩ := hleft
  rw [hframes1] at hframes'
  cases hframes'
  obtain ⟨state, hended, -⟩ := (@runEnd_ended { k1 with frames } i a prevCr3
    switched internalSuspendStatus level hpid).cards
  have hpending := ((@runReturn_state i a internalSuspendStatus prevCr3 switched
    level { k1 with frames }).1 ⟨hlevel, hsaved1, .inl rfl⟩).1
  have hstatus := @runReturn_status i a internalSuspendStatus prevCr3 switched
    level { k1 with frames }
  have hkept := @runReturn_frames i a internalSuspendStatus prevCr3 switched
    level { k1 with frames }
  rw [runEnd_eq] at hleft hended ⊢
  rw [hstatus, hlevel] at hleft hended ⊢
  generalize (Kernel.runReturn a internalSuspendStatus i prevCr3 switched level
    { k1 with frames }).2 = k2 at hleft hended hpending hkept ⊢
  have hfound2 : k2.findSlotByPid level.pid = some i := by
    rw [findSlotByPid_congr (k := k), hfound]
    intro j
    rw [← (@returned_returned k2 a true internalSuspendStatus).cards, hended]
    by_cases hj : j = i
    · subst hj
      rw [Function.update_self]
      show (k1.cards j).used = _ ∧ (k1.cards j).pid = _
      rw [hcards]
      exact ⟨rfl, rfl⟩
    · rw [Function.update_of_ne hj]
      show (k1.cards j).used = _ ∧ (k1.cards j).pid = _
      rw [hcards]
      exact ⟨rfl, rfl⟩
  refine returned_mayGoOn (hkept.trans hbelow) hframe hfound2 hpending ?_
  have hsame := congrFun (bodies_returned a true internalSuspendStatus k2) i
  have hstate : ((k2.returned a true internalSuspendStatus).procs i).state
      = .pending :=
    (congrArg Card.state (congrFun returned_returned.cards i)).trans hpending
  unfold Proc.Left at hleft
  rw [hstate] at hleft
  rcases hleft with hexited | hstopped | ⟨-, hsaved⟩
  · cases hexited
  · cases hstopped
  · exact (congrArg Body.savedFrameValid hsame).symm.trans hsaved

theorem Kernel.Called.sleepsThrough_iff {ticks : UInt64} (hcalled : k.Called)
    (hbalanced : k.Balanced)
    (hframes : k.frames = .entry i prevCr3 switched :: frames)
    (hcurrent : k.currentProc = some i) :
    k.SleepsThrough i ticks ↔ ticks = 0 ∨ ¬ k.GivesWay i := by
  constructor
  · intro h
    by_cases hticks : ticks = 0
    · exact .inl hticks
    refine .inr fun hgives => ?_
    obtain ⟨k1, hsuspend, hawake⟩ :
        ∃ k1, k.suspendCurrent ample = some k1 ∧
          (Asleep.suspended k1).Awake ample i :=
      hcalled.gives_way hbalanced hframes hcurrent hgives
    refine h ample ample ?_ ?_
    · rw [UInt64.sub_self]
      exact UInt64.pos_iff_ne_zero.mpr hticks
    · unfold Kernel.sleepTicks
      rw [hsuspend]
      exact hawake
  · intro h a a' hearly
    have hgives : ¬ k.GivesWay i := by
      refine h.resolve_left ?_
      rintro rfl
      exact absurd hearly (UInt64.not_lt.mpr UInt64.zero_le)
    unfold Kernel.sleepTicks
    cases hsuspend : k.suspendCurrent a with
    | none => exact looping_not_awake hbalanced hearly
    | some k1 =>
      obtain ⟨hactive, hloaded, hrunStack⟩ :=
        (suspendCurrent_isSome (a := a) hbalanced.framed hframes hcurrent).mp
          (by rw [hsuspend]; rfl)
      obtain ⟨hcalm, -⟩ := suspendCurrent_calm hsuspend
      intro hawake
      obtain ⟨a1, k', hend, hgoes⟩ := hawake
      obtain ⟨level, levels, hstack⟩ : ∃ level levels,
          k.pidStack = level :: levels := by
        unfold Kernel.currentProc at hcurrent
        split at hcurrent
        · cases hcurrent
        · next level levels hstack => exact ⟨level, levels, hstack⟩
      refine endRun_not_mayGoOn (hcalm.frames.trans hframes)
        (hcalm.pidStack.trans hstack) (fun hret => hgives ?_) hend hgoes
      refine ⟨hactive, hloaded, hrunStack, fun level' hlevel' => ?_⟩
      rw [hstack] at hlevel'
      obtain rfl := Option.some.inj hlevel'
      exact hret

theorem msToTicks_early {ms elapsed : UInt64} :
    1000 * elapsed.toNat < ms.toNat * timerHz.toNat ↔ elapsed < msToTicks ms := by
  rw [UInt64.lt_iff_toNat_lt, msToTicks_toNat]
  omega

end processes

-- ==== sleeping

/-- A task that is put to sleep sleeps for as long as was asked for if the
time at which it is to be woken has not wrapped around. A program that calls
`sleep_ticks` or `sleep_ms` does, in any state that the kernel comes to, unless
the call suspends it: then someone can go on with it at once. -/
theorem sleeps_iff (s : Scheduler) (id : Nat) (ticks now : UInt64)
    (k₀ k : Kernel) (i : Fin maxProcs) (prevCr3 : Nat) (switched : Bool)
    (frames : List Frame) :
    ((s.sched.sleepTaskTicks id ticks now).1 = true →
      ((s.call (.sleepTaskTicks id ticks now)).SleepsThrough id now ticks ↔
        ticks = 0 ∨ now.toNat + ticks.toNat < 2 ^ 64)) ∧
    ((s.sched.sleepCurrentTicks ticks now).1 = true →
      ((s.call (.sleepCurrentTicks ticks now)).SleepsThrough s.sched.current now
          ticks ↔
        ticks = 0 ∨ now.toNat + ticks.toNat < 2 ^ 64)) ∧
    (k₀.Started → RunIf (fun _ _ _ => True) k₀ k →
      k.frames = .entry i prevCr3 switched :: frames → k.currentProc = some i →
      (∀ ticks, k.SleepsThrough i ticks ↔ ticks = 0 ∨ ¬ k.GivesWay i) ∧
        ∀ ms : UInt64,
          (∀ a a' : Answers,
            1000 * (a'.now - a.now).toNat < ms.toNat * timerHz.toNat →
              ¬ (k.sleepTicks a (msToTicks ms)).Awake a' i) ↔
            ms = 0 ∨ ¬ k.GivesWay i) := by
  refine ⟨sleepTaskTicks_iff, sleepCurrentTicks_iff,
    fun h₀ hrun hframes hcurrent => ?_⟩
  obtain ⟨hbalanced, hcalled⟩ := called_of_run h₀ hrun
  refine ⟨fun ticks => hcalled.sleepsThrough_iff hbalanced hframes hcurrent,
    fun ms => ?_⟩
  have hzero : msToTicks ms = 0 ↔ ms = 0 := by
    constructor
    · intro h
      have hms := msToTicks_toNat ms
      rw [h] at hms
      have hhz : timerHz.toNat = 100 := rfl
      rw [hhz] at hms
      change 0 = _ at hms
      apply UInt64.toNat_inj.mp
      show ms.toNat = 0
      omega
    · rintro rfl
      rfl
  rw [← hzero, ← hcalled.sleepsThrough_iff hbalanced hframes hcurrent]
  unfold Kernel.SleepsThrough
  exact forall_congr' fun a => forall_congr' fun a' =>
    imp_congr_left msToTicks_early

/-- A task that is put to sleep near the end of the counter is woken at once,
and a program that has been dispatched and sleeps for five ticks can be
dispatched again in the same tick. -/
theorem woken_early :
    (((Scheduler.threeTasks true true true).sched.sleepTaskTicks 1 5
        0xFFFFFFFFFFFFFFFF).1 = true ∧
      ¬ ((Scheduler.threeTasks true true true).call
        (.sleepTaskTicks 1 5 0xFFFFFFFFFFFFFFFF)).SleepsThrough 1
          0xFFFFFFFFFFFFFFFF 5) ∧
    ∃ k : Kernel, RunIf (fun _ _ _ => True) smallKernel k ∧
      k.currentProc = some 0 ∧ ¬ k.SleepsThrough 0 5 := by
  constructor
  · refine ⟨by decide, fun h => ?_⟩
    have hwoken := h _ .refl (.wakeSleepers 0xFFFFFFFFFFFFFFFF)
      0xFFFFFFFFFFFFFFFF ⟨fun h => h, fun tick htick => by
        obtain rfl := Option.some.inj htick
        decide⟩ rfl (by decide)
    revert hwoken
    decide
  · have hruns : ((smallKernel.runs ample (fun _ _ => true)
        [.spawn (txt "/p"), .dispatch]).any fun k =>
          k.currentProc = some 0 &&
            (k.suspendCurrent ample).any fun k₁ =>
              (k₁.endRun ample internalSuspendStatus).any fun k' =>
                !k'.pendingDispatchActive && k'.dispatchable ample 0) = true := by
      decide +kernel
    obtain ⟨k, hrun, hk⟩ := (Option.any_eq_true ..).mp hruns
    rw [Bool.and_eq_true, decide_eq_true_eq, Option.any_eq_true] at hk
    obtain ⟨hcurrent, k₁, hsuspend, hk₁⟩ := hk
    obtain ⟨k', hend, hk'⟩ := (Option.any_eq_true ..).mp hk₁
    rw [Bool.and_eq_true, Bool.not_eq_true'] at hk'
    refine ⟨k, runs_runIf (fun _ _ _ => trivial) hrun, hcurrent, fun h => ?_⟩
    refine h ample ample (by decide) ?_
    unfold Kernel.sleepTicks
    rw [hsuspend]
    exact ⟨ample, k', hend, .dispatch hk'.1 hk'.2⟩

/-- A task that sleeps for five ticks from time 0, and a program that the
kernel itself has begun. -/
theorem sleeps_iff_five :
    ((Scheduler.threeTasks true true true).call
      (.sleepTaskTicks 1 5 0)).SleepsThrough 1 0 5 ∧
    ∃ k : Kernel, k.currentProc = some 0 ∧ k.SleepsThrough 0 5 := by
  constructor
  · exact ((sleeps_iff (.threeTasks true true true) 1 5 0 smallKernel
      smallKernel 0 0 false []).1 (by decide)).mpr (.inr (by decide))
  · have hruns : ((smallKernel.runs ample (fun _ _ => true)
        [.exec (txt "/p") ⟨fdInherit, fdInherit, fdInherit⟩]).any fun k =>
          k.currentProc = some 0 && !k.pendingDispatchActive &&
            k.frames.head?.any fun frame => frame.runs = some 0) = true := by
      decide +kernel
    obtain ⟨k, hrun, hk⟩ := (Option.any_eq_true ..).mp hruns
    rw [Bool.and_eq_true, Bool.and_eq_true, decide_eq_true_eq,
      Bool.not_eq_true', Option.any_eq_true] at hk
    obtain ⟨⟨hcurrent, hactive⟩, frame, hhead, hframe⟩ := hk
    rw [decide_eq_true_eq] at hframe
    cases frame with
    | entry i prevCr3 switched =>
      obtain rfl := Option.some.inj hframe
      obtain ⟨frames, hframes⟩ := List.head?_eq_some_iff.mp hhead
      have hfull := (sleeps_iff (.threeTasks true true true) 1 5 0 smallKernel
        k 0 prevCr3 switched frames).2.2 smallKernel_started
        (runs_runIf (fun _ _ _ => trivial) hrun) hframes hcurrent
      refine ⟨k, hcurrent, (hfull.1 5).mpr (.inr fun hgives => ?_)⟩
      rw [hgives.1] at hactive
      cases hactive
    | dispatch => cases hframe
    | waitPid _ => cases hframe
    | sync _ => cases hframe

end Clks.Exec
