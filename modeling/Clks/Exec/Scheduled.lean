/-
What holds of the scheduler whatever is called.

Each call changes the tasks one by one, and what it may do to a task is said
once (`Sched.Change`): the slot stays used or free, the idle task can run, and
a task that is dead is brought back only if it is one of those that the call
is about (`hit`).
-/
import Clks.Exec.Dispatch
import Clks.Exec.TaskTable

namespace Clks.Exec

-- ==== changes

/-- No task but the current one is running. -/
def Sched.OnlyCurrent (s : Sched) : Prop :=
  ∀ id t, s.tasks[id]? = some t → t.state = .running → id = s.current

/-- The idle task can run. -/
def Sched.Idle (s : Sched) : Prop :=
  ∃ t, s.tasks[0]? = some t ∧ t.state.runnable = true

/-- The current task is a task. -/
def Sched.HasCurrent (s : Sched) : Prop :=
  ∃ t, s.tasks[s.current]? = some t ∧ t.state ≠ .unused

/-- What becomes of the task at an index. -/
structure Task.Change (hit : Nat → Prop) (i : Nat) (t t' : Task) : Prop where
  id : t'.id = t.id
  hasEntry : t'.hasEntry = t.hasEntry
  unused : t'.state = .unused ↔ t.state = .unused
  idle : i = 0 → t.state.runnable = true → t'.state.runnable = true
  zombie : ¬ hit i → t.state = .zombie → t'.state = .zombie

/-- What a call does to the table. -/
structure Sched.Change (hit : Nat → Prop) (s s' : Sched) : Prop where
  length : s'.tasks.length = s.tasks.length
  capacity : s'.capacity = s.capacity
  online : s'.online = s.online
  current : s.HasCurrent → s'.HasCurrent
  task : ∀ id t, s.tasks[id]? = some t →
    ∃ t', s'.tasks[id]? = some t' ∧ Task.Change hit id t t'
  running : s.OnlyCurrent → s'.OnlyCurrent

section changes

variable {hit : Nat → Prop} {s s' s'' : Sched} {id : Nat} {f : Task → Task}
  {t t' t'' : Task}

theorem Task.Change.refl : Task.Change hit id t t := ⟨rfl, rfl, .rfl, fun _ h => h,
  fun _ h => h⟩

theorem Task.Change.trans (h : Task.Change hit id t t')
    (h' : Task.Change hit id t' t'') : Task.Change hit id t t'' where
  id := h'.id.trans h.id
  hasEntry := h'.hasEntry.trans h.hasEntry
  unused := h'.unused.trans h.unused
  idle := fun hid hrun => h'.idle hid (h.idle hid hrun)
  zombie := fun hnot hdead => h'.zombie hnot (h.zombie hnot hdead)

theorem Sched.Change.refl (s : Sched) : Sched.Change hit s s :=
  ⟨rfl, rfl, rfl, id, fun _ t h => ⟨t, h, .refl⟩, id⟩

theorem Sched.Change.trans (h : Sched.Change hit s s')
    (h' : Sched.Change hit s' s'') : Sched.Change hit s s'' where
  length := h'.length.trans h.length
  capacity := h'.capacity.trans h.capacity
  online := h'.online.trans h.online
  current := fun hcurrent => h'.current (h.current hcurrent)
  task := fun id t ht => by
    obtain ⟨t', ht', hchange⟩ := h.task id t ht
    obtain ⟨t'', ht'', hchange'⟩ := h'.task id t' ht'
    exact ⟨t'', ht'', hchange.trans hchange'⟩
  running := fun hrunning => h'.running (h.running hrunning)

theorem Sched.Change.idle (h : Sched.Change hit s s') (hidle : s.Idle) :
    s'.Idle := by
  obtain ⟨t, ht, hrun⟩ := hidle
  obtain ⟨t', ht', hchange⟩ := h.task 0 t ht
  exact ⟨t', ht', hchange.idle rfl hrun⟩

theorem change_of_tasks (htasks : s'.tasks = s.tasks)
    (hcapacity : s'.capacity = s.capacity) (hcurrent : s'.current = s.current)
    (honline : s'.online = s.online) : Sched.Change hit s s' where
  length := congrArg List.length htasks
  capacity := hcapacity
  online := honline
  current := fun h => by
    unfold Sched.HasCurrent
    rw [hcurrent, htasks]
    exact h
  task := fun id t ht => by
    rw [htasks]
    exact ⟨t, ht, .refl⟩
  running := fun h id t ht hrun => by
    rw [htasks] at ht
    rw [hcurrent]
    exact h id t ht hrun

theorem modify_get {j : Nat} :
    (s.modify id f).tasks[j]?
      = if j = id then (s.tasks[j]?).map f else s.tasks[j]? := by
  unfold Sched.modify
  by_cases h : j = id
  · subst h
    rw [if_pos rfl]
    exact List.getElem?_modify_eq f j s.tasks
  · rw [if_neg h]
    exact List.getElem?_modify_ne f s.tasks (Ne.symm h)

theorem modify_task {j : Nat}
    (hf : ∀ t, s.tasks[id]? = some t → Task.Change hit id t (f t))
    (ht : s.tasks[j]? = some t) :
    ∃ t', (s.modify id f).tasks[j]? = some t' ∧ Task.Change hit j t t' := by
  rw [modify_get]
  by_cases h : j = id
  · subst h
    rw [if_pos rfl, ht]
    exact ⟨f t, rfl, hf t ht⟩
  · rw [if_neg h]
    exact ⟨t, ht, .refl⟩

theorem modify_change
    (hf : ∀ t, s.tasks[id]? = some t → Task.Change hit id t (f t))
    (hrun : ∀ t, s.tasks[id]? = some t → (f t).state = .running →
      t.state = .running ∨ id = s.current) :
    Sched.Change hit s (s.modify id f) where
  length := List.length_modify ..
  capacity := rfl
  online := rfl
  current := fun ⟨t, ht, hused⟩ => by
    obtain ⟨t', ht', hchange⟩ := modify_task hf ht
    exact ⟨t', ht', fun hunused => hused (hchange.unused.mp hunused)⟩
  task := fun j t ht => modify_task hf ht
  running := fun h j t ht hstate => by
    rw [modify_get] at ht
    by_cases hj : j = id
    · subst hj
      rw [if_pos rfl] at ht
      obtain ⟨old, hold, rfl⟩ := Option.map_eq_some_iff.mp ht
      rcases hrun old hold hstate with hwas | hcurrent
      · exact h j old hold hwas
      · exact hcurrent
    · rw [if_neg hj] at ht
      exact h j t ht hstate

end changes

-- ==== states of tasks

section states

variable {hit : Nat → Prop} {s s' : Sched} {id : Nat} {t : Task}
  {state : TaskState} {tick ticks now : UInt64}

theorem taskSlotUsed_iff :
    s.taskSlotUsed id = true ↔ ∃ t, s.tasks[id]? = some t ∧ t.state ≠ .unused := by
  unfold Sched.taskSlotUsed
  rw [Option.any_eq_true]
  exact exists_congr fun t => and_congr_right fun _ => decide_eq_true_iff

theorem request_change : Sched.Change hit s { s with rescheduleRequested := true } :=
  change_of_tasks rfl rfl rfl rfl

theorem Sched.Change.request {c : Prop} [Decidable c] (h : Sched.Change hit s s') :
    Sched.Change hit s (if c then { s' with rescheduleRequested := true } else s') := by
  split
  · exact h.trans request_change
  · exact h

theorem setTaskState_change (hstate : state ≠ .unused) :
    Sched.Change (fun j => j = id ∧ state ≠ .zombie) s
      (s.setTaskState id state).2 := by
  unfold Sched.setTaskState
  split
  · exact .refl s
  next hused =>
  rw [Bool.not_eq_true', Bool.not_eq_false, taskSlotUsed_iff] at hused
  obtain ⟨t, ht, htused⟩ := hused
  split
  · exact .refl s
  next hzero =>
  dsimp only
  refine Sched.Change.request (modify_change ?_ ?_)
  · intro t' ht'
    obtain rfl : t = t' := Option.some.inj (ht.symm.trans ht')
    constructor
    · rfl
    · rfl
    · refine ⟨fun hnew => ?_, fun hold => absurd hold htused⟩
      split at hnew
      · cases hnew
      · exact absurd hnew hstate
    · intro hid _
      subst hid
      simp only [decide_true, Bool.true_and, Bool.and_eq_true, decide_eq_true_eq,
        not_and, not_not] at hzero
      unfold TaskState.runnable
      split
      · rfl
      · by_cases hready : state = .ready
        · rw [hready]
          rfl
        · rw [hzero hready]
          rfl
    · intro hnot _
      have hzombie : state = .zombie := by
        by_contra hne
        exact hnot ⟨rfl, hne⟩
      rw [if_neg]
      · exact hzombie
      · rw [hzombie]
        simp
  · intro t' _ hrun
    right
    by_contra hne
    split at hrun
    · cases hrun
    · next hnot =>
      simp only [Bool.and_eq_true, decide_eq_true_eq, not_and, not_not] at hnot
      exact hne (hnot hrun)

theorem sleepTaskUntil_change :
    Sched.Change (· = id) s (s.sleepTaskUntil id tick).2 := by
  unfold Sched.sleepTaskUntil
  split
  · exact .refl s
  next hok =>
  rw [Bool.or_eq_true, not_or, decide_eq_true_iff, Bool.not_eq_true',
    Bool.not_eq_false, taskSlotUsed_iff] at hok
  obtain ⟨hzero, t, ht, htused⟩ := hok
  refine Sched.Change.request (modify_change ?_ (fun t' _ hrun => by cases hrun))
  intro t' ht'
  obtain rfl : t = t' := Option.some.inj (ht.symm.trans ht')
  exact ⟨rfl, rfl, ⟨nofun, fun h => absurd h htused⟩, fun h => absurd h hzero,
    fun hnot => absurd rfl hnot⟩

theorem modify_same {f : Task → Task} (hid : ∀ t, (f t).id = t.id)
    (hentry : ∀ t, (f t).hasEntry = t.hasEntry)
    (hstate : ∀ t, (f t).state = t.state) : Sched.Change hit s (s.modify id f) := by
  refine modify_change (fun t _ => ?_) (fun t _ hrun => ?_)
  · constructor
    · exact hid t
    · exact hentry t
    · rw [hstate]
    · intro _ hrun
      rw [hstate]
      exact hrun
    · intro _ hdead
      rw [hstate]
      exact hdead
  · rw [hstate] at hrun
    exact Or.inl hrun

theorem yieldTask_change : Sched.Change hit s (s.yieldTask id).2 := by
  unfold Sched.yieldTask
  split
  · exact .refl s
  split
  · exact .refl s
  split
  · exact Sched.Change.request (modify_same (fun _ => rfl) (fun _ => rfl) fun _ => rfl)
  · exact .refl s

theorem yieldCurrent_change : Sched.Change hit s s.yieldCurrent := by
  unfold Sched.yieldCurrent
  split
  · exact .refl s
  split
  · have hsame : Sched.Change hit s
        (s.modify s.current fun t => { t with remainingTicks := 0 }) :=
      modify_same (fun _ => rfl) (fun _ => rfl) fun _ => rfl
    exact hsame.trans request_change
  · exact .refl s

theorem sleepCurrentUntil_change (hcurrent : s.HasCurrent) :
    Sched.Change (fun j => j = s.current ∧ ∃ t, s.tasks[j]? = some t ∧ t.hasEntry = true)
      s (s.sleepCurrentUntil tick).2 := by
  unfold Sched.sleepCurrentUntil
  split
  · exact .refl s
  next t ht =>
  split
  · exact .refl s
  next hok =>
  rw [Bool.or_eq_true, not_or, decide_eq_true_iff, Bool.not_eq_true',
    Bool.not_eq_false] at hok
  refine Sched.Change.trans (modify_change ?_ (fun t' _ hrun => by cases hrun))
    request_change
  intro t' ht'
  obtain rfl : t = t' := Option.some.inj (ht.symm.trans ht')
  obtain ⟨t'', ht'', hused⟩ := hcurrent
  obtain rfl : t = t'' := Option.some.inj (ht.symm.trans ht'')
  exact ⟨rfl, rfl, ⟨nofun, fun h => absurd h hused⟩, fun h => absurd h hok.1,
    fun hnot => absurd ⟨rfl, t, ht, hok.2⟩ hnot⟩

theorem Sched.Change.mono {hit' : Nat → Prop} (h : Sched.Change hit s s')
    (himp : ∀ j, hit j → hit' j) : Sched.Change hit' s s' where
  length := h.length
  capacity := h.capacity
  online := h.online
  current := h.current
  task := fun j t ht => by
    obtain ⟨t', ht', hchange⟩ := h.task j t ht
    exact ⟨t', ht', hchange.id, hchange.hasEntry, hchange.unused, hchange.idle,
      fun hnot => hchange.zombie fun hj => hnot (himp j hj)⟩
  running := h.running

theorem sleepTaskTicks_change :
    Sched.Change (fun j => j = id ∧ ticks ≠ 0) s (s.sleepTaskTicks id ticks now).2 := by
  unfold Sched.sleepTaskTicks
  split
  · exact yieldTask_change
  · next hticks => exact sleepTaskUntil_change.mono fun j hj => ⟨hj, hticks⟩

theorem sleepCurrentTicks_change (hcurrent : s.HasCurrent) :
    Sched.Change (fun j => (j = s.current ∧ ∃ t, s.tasks[j]? = some t ∧
      t.hasEntry = true) ∧ ticks ≠ 0) s (s.sleepCurrentTicks ticks now).2 := by
  unfold Sched.sleepCurrentTicks
  split
  · exact yieldCurrent_change
  · next hticks =>
    exact (sleepCurrentUntil_change hcurrent).mono fun j hj => ⟨hj, hticks⟩

theorem wakeTask_change : Sched.Change hit s (s.wakeTask id).2 := by
  unfold Sched.wakeTask
  split
  · exact .refl s
  next t ht =>
  split
  · exact .refl s
  next hok =>
  rw [Bool.or_eq_true, not_or, decide_eq_true_iff, decide_eq_true_iff] at hok
  refine modify_change ?_ (fun t' _ hrun => by cases hrun)
  intro t' ht'
  obtain rfl : t = t' := Option.some.inj (ht.symm.trans ht')
  exact ⟨rfl, rfl, ⟨nofun, fun h => absurd h hok.1⟩, fun _ _ => rfl,
    fun _ h => absurd h hok.2⟩

end states

-- ==== the timer

section timer

variable {hit : Nat → Prop} {s s' : Sched} {id : Nat} {t : Task} {tick : UInt64}

theorem wakeSleepers_change : Sched.Change hit s (s.wakeSleepers tick) := by
  have htask : ∀ j t, s.tasks[j]? = some t →
      ∃ t', (s.wakeSleepers tick).tasks[j]? = some t' ∧ Task.Change hit j t t' ∧
        (t'.state = .running → t.state = .running) := by
    intro j t ht
    unfold Sched.wakeSleepers
    dsimp only
    rw [List.getElem?_map, ht]
    refine ⟨_, rfl, ?_⟩
    dsimp only
    split
    · exact ⟨.refl, id⟩
    · next hsleep =>
      simp only [ne_eq, Bool.or_eq_true, decide_eq_true_eq, not_or, not_not] at hsleep
      refine ⟨⟨rfl, rfl, ⟨nofun, fun h => ?_⟩, fun _ _ => rfl, fun _ h => ?_⟩, nofun⟩
      · rw [hsleep.1] at h
        cases h
      · rw [hsleep.1] at h
        cases h
  have hlength : (s.wakeSleepers tick).tasks.length = s.tasks.length :=
    List.length_map ..
  constructor
  · exact hlength
  · rfl
  · rfl
  · rintro ⟨t, ht, hused⟩
    obtain ⟨t', ht', hchange, -⟩ := htask _ t ht
    exact ⟨t', ht', fun h => hused (hchange.unused.mp h)⟩
  · intro j t ht
    obtain ⟨t', ht', hchange, -⟩ := htask j t ht
    exact ⟨t', ht', hchange⟩
  · intro hrunning j t' ht' hrun
    have hj : j < s.tasks.length := by
      rw [← hlength]
      exact (List.getElem?_eq_some_iff.mp ht').1
    obtain ⟨u, hu, -, hwas⟩ := htask j s.tasks[j] (List.getElem?_eq_getElem hj)
    obtain rfl : u = t' := Option.some.inj (hu.symm.trans ht')
    exact hrunning j s.tasks[j] (List.getElem?_eq_getElem hj) (hwas hrun)

theorem accountCurrentTick_change : Sched.Change hit s s.accountCurrentTick := by
  unfold Sched.accountCurrentTick
  split
  · exact .refl s
  split
  · exact .refl s
  exact Sched.Change.request (modify_same (fun _ => rfl) (fun _ => rfl) fun _ => rfl)

theorem runnable_alive {state : TaskState} (h : state.runnable = true) :
    state ≠ .unused ∧ state ≠ .zombie := by
  unfold TaskState.runnable at h
  rw [Bool.or_eq_true, decide_eq_true_iff, decide_eq_true_iff] at h
  rcases h with h | h <;> rw [h] <;> exact ⟨nofun, nofun⟩

theorem switchTo_change {next : Nat}
    (hnext : ∃ t, s.tasks[next]? = some t ∧ t.state.runnable = true) :
    Sched.Change hit s (s.switchTo next) := by
  unfold Sched.switchTo
  split
  · exact .refl s
  next hne =>
  simp only [Bool.or_eq_true, decide_eq_true_eq, not_or, Nat.not_le] at hne
  dsimp only
  have hleave : Sched.Change hit s (s.modify s.current fun t =>
      if t.state = .running then { t with state := .ready } else t) := by
    refine modify_change (fun t _ => ?_) (fun t _ hrun => ?_)
    · split
      · next hwas =>
        refine ⟨rfl, rfl, ⟨nofun, fun h => ?_⟩, fun _ _ => rfl, fun _ h => ?_⟩
        · rw [hwas] at h
          cases h
        · rw [hwas] at h
          cases h
      · exact .refl
    · split at hrun
      · cases hrun
      · exact Or.inl hrun
  -- the task that is left does not run any more
  have hnone : s.OnlyCurrent → ∀ (j : Nat) (t : Task),
      (s.modify s.current fun t =>
        if t.state = .running then { t with state := .ready } else t).tasks[j]?
        = some t → t.state ≠ .running := by
    intro honly j t ht hrun
    rw [modify_get] at ht
    by_cases hj : j = s.current
    · rw [if_pos hj] at ht
      obtain ⟨old, -, rfl⟩ := Option.map_eq_some_iff.mp ht
      split at hrun
      · cases hrun
      · next hnot => exact hnot hrun
    · rw [if_neg hj] at ht
      exact hj (honly j t ht hrun)
  obtain ⟨t0, ht0, hrunnable⟩ := hnext
  have hget : (s.modify s.current fun t =>
      if t.state = .running then { t with state := .ready } else t).tasks[next]?
        = some t0 := by
    rw [modify_get, if_neg hne.2]
    exact ht0
  generalize s.modify s.current _ = left at hleave hnone hget
  have hstate := runnable_alive hrunnable
  have htask : ∀ t, left.tasks[next]? = some t → Task.Change hit next t
      { t with
        state := .running
        remainingTicks :=
          if t.remainingTicks = 0 then t.timeSliceTicks else t.remainingTicks } := by
    intro t ht
    obtain rfl : t0 = t := Option.some.inj (hget.symm.trans ht)
    exact ⟨rfl, rfl, ⟨nofun, fun h => absurd h hstate.1⟩, fun _ _ => rfl,
      fun _ h => absurd h hstate.2⟩
  constructor
  · exact (List.length_modify ..).trans hleave.length
  · exact hleave.capacity
  · exact hleave.online
  · rintro -
    obtain ⟨t', ht', hchange⟩ := modify_task htask hget
    exact ⟨t', ht', fun h => hstate.1 (hchange.unused.mp h)⟩
  · intro j t ht
    obtain ⟨t', ht', hchange⟩ := hleave.task j t ht
    obtain ⟨t'', ht'', hchange'⟩ := modify_task htask ht'
    exact ⟨t'', ht'', hchange.trans hchange'⟩
  · intro honly j t ht hrun
    dsimp only at ht ⊢
    rw [modify_get] at ht
    by_contra hj
    rw [if_neg hj] at ht
    exact hnone honly j t ht hrun

theorem switchTo_current {next : Nat} (ht : s.tasks[next]? = some t)
    (hrun : t.state.runnable = true) :
    (s.switchTo next).current = next ∧
      ∃ t', (s.switchTo next).tasks[next]? = some t' ∧
        t'.state.runnable = true ∧ t'.hasEntry = t.hasEntry := by
  have hlt : next < s.tasks.length := (List.getElem?_eq_some_iff.mp ht).1
  unfold Sched.switchTo
  by_cases hsame : next = s.current
  · rw [if_pos (by simp [hsame])]
    exact ⟨hsame.symm, t, ht, hrun, rfl⟩
  · rw [if_neg (by simp [hsame, hlt])]
    refine ⟨rfl, ?_⟩
    dsimp only
    rw [modify_get, if_pos rfl, modify_get, if_neg hsame, ht]
    exact ⟨_, rfl, rfl, rfl⟩

theorem nextRunnableTask_idle {start : Nat} (hidle : s.Idle) :
    ∃ t, s.tasks[s.nextRunnableTask start]? = some t ∧ t.state.runnable = true := by
  rcases nextRunnableTask_cases start s with hzero | hrun
  · rw [hzero]
    exact hidle
  · obtain ⟨t, ht, hrun⟩ := (Option.any_eq_true ..).mp hrun
    unfold Task.runnable at hrun
    rw [Bool.and_eq_true] at hrun
    exact ⟨t, ht, hrun.2⟩

theorem mem_order {start n i : Nat} (hstart : start < n) (hi : i < n) :
    i ∈ (List.range n).map fun k => (start + (k + 1)) % n := by
  rw [List.mem_map]
  by_cases hlt : start < i
  · refine ⟨i - start - 1, List.mem_range.mpr (by omega), ?_⟩
    rw [show start + (i - start - 1 + 1) = i by omega, Nat.mod_eq_of_lt hi]
  · refine ⟨i + n - start - 1, List.mem_range.mpr (by omega), ?_⟩
    rw [show start + (i + n - start - 1 + 1) = i + n by omega, Nat.add_mod_right,
      Nat.mod_eq_of_lt hi]

theorem nextRunnableTask_any {start i : Nat} (hstart : start < s.tasks.length)
    (hany : s.tasks[i]?.any (·.runnable) = true) :
    s.tasks[s.nextRunnableTask start]?.any (·.runnable) = true := by
  obtain ⟨t, ht, -⟩ := (Option.any_eq_true ..).mp hany
  have hi : i < s.tasks.length := (List.getElem?_eq_some_iff.mp ht).1
  unfold Sched.nextRunnableTask
  dsimp only
  split
  · next id hfound =>
    have hrun := List.find?_some hfound
    exact hrun
  · next hnone =>
    have hnot := List.find?_eq_none.mp hnone i (mem_order hstart hi)
    exact absurd hany hnot

theorem maybeReschedule_eq (hne : s.tasks ≠ [])
    (hrequest : s.rescheduleRequested = true) :
    s.maybeReschedule
      = (({ s with rescheduleRequested := false }.modify s.current fun t =>
          { t with remainingTicks := t.timeSliceTicks }).switchTo
        (s.nextRunnableTask s.current)) := by
  unfold Sched.maybeReschedule
  rw [if_neg (by simp [hne, hrequest])]
  rfl

section reschedule

variable (hidle : s.Idle)

include hidle

theorem Sched.Idle.ne_nil : s.tasks ≠ [] := by
  obtain ⟨t, ht, -⟩ := hidle
  intro hnil
  rw [hnil] at ht
  cases ht

theorem maybeReschedule_change : Sched.Change hit s s.maybeReschedule := by
  by_cases hrequest : s.rescheduleRequested = true
  · rw [maybeReschedule_eq hidle.ne_nil hrequest]
    have hflag : Sched.Change hit s { s with rescheduleRequested := false } :=
      change_of_tasks rfl rfl rfl rfl
    have hslice : Sched.Change hit { s with rescheduleRequested := false }
        ({ s with rescheduleRequested := false }.modify s.current fun t =>
          { t with remainingTicks := t.timeSliceTicks }) :=
      modify_same (fun _ => rfl) (fun _ => rfl) fun _ => rfl
    refine (hflag.trans hslice).trans (switchTo_change ?_)
    obtain ⟨t, ht, hrun⟩ := @nextRunnableTask_idle s s.current hidle
    rw [modify_get]
    split
    · refine ⟨{ t with remainingTicks := t.timeSliceTicks }, ?_, hrun⟩
      exact Option.map_eq_some_iff.mpr ⟨t, ht, rfl⟩
    · exact ⟨t, ht, hrun⟩
  · unfold Sched.maybeReschedule
    rw [if_pos (by simp [hrequest])]
    exact .refl s

theorem maybeReschedule_runnable (hcurrent : s.HasCurrent)
    (hrequest : s.rescheduleRequested = true) :
    ∃ t, s.maybeReschedule.tasks[s.maybeReschedule.current]? = some t ∧
      t.state.runnable = true ∧
      ((∃ i : Nat, s.tasks[i]?.any (·.runnable) = true) → t.runnable = true) := by
  rw [maybeReschedule_eq hidle.ne_nil hrequest]
  obtain ⟨t, ht, hrun⟩ := @nextRunnableTask_idle s s.current hidle
  have hmid : ∃ t', ({ s with rescheduleRequested := false }.modify s.current
      fun t => { t with remainingTicks := t.timeSliceTicks }).tasks[
        s.nextRunnableTask s.current]? = some t' ∧ t'.state = t.state ∧
      t'.hasEntry = t.hasEntry := by
    rw [modify_get]
    split
    · exact ⟨_, Option.map_eq_some_iff.mpr ⟨t, ht, rfl⟩, rfl, rfl⟩
    · exact ⟨t, ht, rfl, rfl⟩
  obtain ⟨t', ht', hstate, hentry⟩ := hmid
  obtain ⟨hnow, t'', ht'', hrun'', hentry''⟩ :=
    switchTo_current ht' (by rw [hstate]; exact hrun)
  refine ⟨t'', by rw [hnow]; exact ht'', hrun'', ?_⟩
  rintro ⟨i, hi⟩
  obtain ⟨c, hc, -⟩ := hcurrent
  have hany := nextRunnableTask_any (List.getElem?_eq_some_iff.mp hc).1 hi
  rw [ht, Option.any_some] at hany
  unfold Task.runnable at hany ⊢
  rw [Bool.and_eq_true] at hany ⊢
  exact ⟨hentry''.trans (hentry.trans hany.1), hrun''⟩

theorem onTimerTick_change : Sched.Change hit s (s.onTimerTick tick) := by
  unfold Sched.onTimerTick
  rw [if_neg hidle.ne_nil]
  dsimp only
  have hwake : Sched.Change hit s (s.wakeSleepers tick) := wakeSleepers_change
  split
  · exact hwake
  · have haccount := hwake.trans accountCurrentTick_change
    exact haccount.trans (maybeReschedule_change (haccount.idle hidle))

end reschedule

-- ==== runs of tasks

theorem beginRun_change : Sched.Change hit s (s.beginRun id) := by
  unfold Sched.beginRun
  split
  · exact .refl s
  next t ht =>
  split
  · exact .refl s
  next hrun =>
  rw [Bool.not_eq_true', Bool.not_eq_false] at hrun
  unfold Task.runnable at hrun
  rw [Bool.and_eq_true] at hrun
  dsimp only
  have hflag : ∀ s : Sched, Sched.Change hit s { s with dispatchActive := true } :=
    fun s => change_of_tasks rfl rfl rfl rfl
  refine Sched.Change.trans ?_ (hflag _)
  have hstate : t.state ≠ .unused ∧ t.state ≠ .zombie := runnable_alive hrun.2
  split
  · have hswitch : Sched.Change hit s (s.switchTo id) :=
      switchTo_change ⟨t, ht, hrun.2⟩
    obtain ⟨hnow, t', ht', hrun', -⟩ := switchTo_current ht hrun.2
    refine hswitch.trans (modify_change (fun u hu => ?_) fun u hu _ => Or.inr hnow.symm)
    obtain rfl : t' = u := Option.some.inj (ht'.symm.trans hu)
    have hstate' := runnable_alive hrun'
    exact ⟨rfl, rfl, ⟨nofun, fun h => absurd h hstate'.1⟩, fun _ _ => rfl,
      fun _ h => absurd h hstate'.2⟩
  · next hready =>
    refine modify_change (fun u hu => ?_) (fun u hu _ => ?_)
    · obtain rfl : t = u := Option.some.inj (ht.symm.trans hu)
      exact ⟨rfl, rfl, ⟨nofun, fun h => absurd h hstate.1⟩, fun _ _ => rfl,
        fun _ h => absurd h hstate.2⟩
    · obtain rfl : t = u := Option.some.inj (ht.symm.trans hu)
      left
      have hrun := hrun.2
      unfold TaskState.runnable at hrun
      rw [Bool.or_eq_true, decide_eq_true_iff, decide_eq_true_iff] at hrun
      exact hrun.resolve_left hready

theorem endRun_change {moved : Bool} : Sched.Change hit s (s.endRun id moved) := by
  unfold Sched.endRun
  have hflag : Sched.Change hit s { s with dispatchActive := false } :=
    change_of_tasks rfl rfl rfl rfl
  dsimp only
  split
  · exact hflag
  · refine hflag.trans (modify_change (fun t _ => ?_) (fun t _ hrun => ?_))
    · split
      · next hwas =>
        refine ⟨rfl, rfl, ⟨nofun, fun h => ?_⟩, fun _ _ => rfl, fun _ h => ?_⟩
        · rw [hwas] at h
          cases h
        · rw [hwas] at h
          cases h
      · exact .refl
    · split at hrun
      · cases hrun
      · exact Or.inl hrun

end timer

-- ==== the invariant

namespace Scheduler

/-- The tasks that live. -/
def liveTasks (s : Sched) : Nat := s.tasks.countP fun t => decide (t.state ≠ .unused)

structure Scheduled (s : Scheduler) : Prop where
  current : s.sched.HasCurrent
  capacity : s.sched.tasks.length ≤ s.sched.capacity
  running : s.sched.OnlyCurrent
  live : s.live = liveTasks s.sched
  ids : ∀ (i : Nat) (t : Task), s.sched.tasks[i]? = some t → t.id = i
  idle : s.sched.Idle

section invariant

variable {hit : Nat → Prop} {s : Scheduler} {table table' : Sched} {id : Nat} {t : Task}

theorem liveTasks_change (h : Sched.Change hit table table') :
    liveTasks table' = liveTasks table := by
  have hmap : table'.tasks.map (fun t => decide (t.state ≠ .unused))
      = table.tasks.map fun t => decide (t.state ≠ .unused) := by
    apply List.ext_getElem?
    intro j
    rw [List.getElem?_map, List.getElem?_map]
    cases ht : table.tasks[j]? with
    | none =>
      have hj := List.getElem?_eq_none_iff.mp ht
      rw [← h.length] at hj
      rw [List.getElem?_eq_none hj]
    | some t =>
      obtain ⟨t', ht', hchange⟩ := h.task j t ht
      rw [ht', Option.map_some, Option.map_some,
        decide_eq_decide.mpr (not_congr hchange.unused)]
  have hcount : ∀ l : List Task, l.countP (fun t => decide (t.state ≠ .unused))
      = (l.map fun t => decide (t.state ≠ .unused)).countP id := by
    intro l
    rw [List.countP_map]
    rfl
  unfold liveTasks
  rw [hcount, hcount, hmap]

theorem Scheduled.change (h : s.Scheduled) (hchange : Sched.Change hit s.sched table') :
    Scheduled { s with sched := table' } where
  current := hchange.current h.current
  capacity := by
    rw [hchange.length, hchange.capacity]
    exact h.capacity
  running := hchange.running h.running
  live := h.live.trans (liveTasks_change hchange).symm
  ids := by
    intro j t' ht'
    have hj : j < s.sched.tasks.length := by
      rw [← hchange.length]
      exact (List.getElem?_eq_some_iff.mp ht').1
    obtain ⟨u, hu, htask⟩ := hchange.task j _ (List.getElem?_eq_getElem hj)
    obtain rfl : u = t' := Option.some.inj (hu.symm.trans ht')
    exact htask.id.trans (h.ids j _ (List.getElem?_eq_getElem hj))
  idle := hchange.idle h.idle

-- ==== adding a task

theorem doubleCapacity_ge {fuel capacity minCapacity : Nat} :
    minCapacity ≤ doubleCapacity fuel capacity minCapacity := by
  induction fuel generalizing capacity with
  | zero => exact Nat.le_refl _
  | succ fuel ih =>
    unfold doubleCapacity
    split
    · assumption
    split
    · exact Nat.le_refl _
    · exact ih

theorem reserveTasks_spec {got : Option Nat} {minCapacity : Nat}
    (h : table.reserveTasks got minCapacity = some table') :
    table'.tasks = table.tasks ∧ table'.current = table.current ∧
      table'.online = table.online ∧ minCapacity ≤ table'.capacity := by
  unfold Sched.reserveTasks at h
  split at h
  · next hle =>
    cases h
    exact ⟨rfl, rfl, rfl, hle⟩
  · split at h
    · cases h
    · cases h
      exact ⟨rfl, rfl, rfl, doubleCapacity_ge⟩

theorem addKernelTaskExId_cases {got : Option Nat} {slice : Nat} {hasEntry : Bool}
    (h : table.addKernelTaskExId got slice hasEntry = some (id, table')) :
    ∃ new : Task, new.id = id ∧ new.state = .ready ∧ table'.online = table.online ∧
      table'.current = table.current ∧
      ((id ≠ 0 ∧ (∃ t, table.tasks[id]? = some t ∧ t.state = .unused) ∧
          table'.tasks = table.tasks.set id new ∧ table'.capacity = table.capacity) ∨
        (id = table.tasks.length ∧ table'.tasks = table.tasks ++ [new] ∧
          table.tasks.length + 1 ≤ table'.capacity)) := by
  unfold Sched.addKernelTaskExId at h
  split at h
  · cases h
  obtain ⟨⟨j, found⟩, hfind, hadd⟩ := Option.map_eq_some_iff.mp h
  obtain ⟨rfl, rfl⟩ := Prod.mk.inj hadd
  refine ⟨⟨_, .ready, max slice minSlice, max slice minSlice, 0, hasEntry⟩, rfl, rfl, ?_⟩
  unfold Sched.findFreeTaskSlot at hfind
  split at hfind
  · next slot hslot =>
    obtain ⟨rfl, rfl⟩ := Prod.mk.inj (Option.some.inj hfind)
    have hunused := List.find?_some hslot
    rw [Bool.and_eq_true, decide_eq_true_iff, Option.any_eq_true] at hunused
    obtain ⟨hzero, t, ht, hstate⟩ := hunused
    exact ⟨rfl, rfl, Or.inl ⟨hzero, ⟨t, ht, of_decide_eq_true hstate⟩, rfl, rfl⟩⟩
  · split at hfind
    · cases hfind
    obtain ⟨grown, hreserve, hpair⟩ := Option.map_eq_some_iff.mp hfind
    obtain ⟨rfl, rfl⟩ := Prod.mk.inj hpair
    obtain ⟨htasks, hcurrent, honline, hcapacity⟩ := reserveTasks_spec hreserve
    refine ⟨honline, hcurrent, Or.inr ⟨rfl, ?_, hcapacity⟩⟩
    dsimp only
    rw [htasks, List.set_append_right _ _ (Nat.le_refl _), Nat.sub_self]
    rfl

theorem Scheduled.add (h : s.Scheduled) {got : Option (Nat × Nat)} {slice : Nat}
    {hasEntry : Bool} : (s.add got slice hasEntry).2.Scheduled := by
  unfold Scheduler.add
  split
  · exact h
  next id table' hadd =>
  obtain ⟨new, hid, hready, -, hcurrent, hcases⟩ := addKernelTaskExId_cases hadd
  obtain ⟨c, hc, hcused⟩ := h.current
  obtain ⟨z, hz, hzrun⟩ := h.idle
  rcases hcases with ⟨hzero, ⟨t, ht, hunused⟩, htasks, hcap⟩ | ⟨hlast, htasks, hcap⟩
  · have hlt : id < s.sched.tasks.length := (List.getElem?_eq_some_iff.mp ht).1
    have hget : ∀ (j : Nat) (u : Task), table'.tasks[j]? = some u →
        j = id ∧ u = new ∨ j ≠ id ∧ s.sched.tasks[j]? = some u := by
      intro j u hu
      rw [htasks] at hu
      by_cases hj : j = id
      · subst hj
        rw [List.getElem?_set_self hlt] at hu
        exact Or.inl ⟨rfl, (Option.some.inj hu).symm⟩
      · rw [List.getElem?_set_ne (Ne.symm hj)] at hu
        exact Or.inr ⟨hj, hu⟩
    have hne : s.sched.current ≠ id := by
      intro heq
      rw [heq, ht] at hc
      obtain rfl := Option.some.inj hc
      exact hcused hunused
    constructor
    · refine ⟨c, ?_, hcused⟩
      dsimp only
      rw [hcurrent, htasks, List.getElem?_set_ne hne.symm]
      exact hc
    · dsimp only
      rw [htasks, hcap, List.length_set]
      exact h.capacity
    · intro j u hu hrun
      dsimp only at hu ⊢
      rw [hcurrent]
      rcases hget j u hu with ⟨-, rfl⟩ | ⟨-, hu⟩
      · rw [hready] at hrun
        cases hrun
      · exact h.running j u hu hrun
    · have hold : s.sched.tasks[id].state = .unused := by
        have hsome := List.getElem?_eq_getElem hlt
        rw [ht] at hsome
        rw [← Option.some.inj hsome]
        exact hunused
      dsimp only
      rw [h.live]
      unfold liveTasks
      rw [htasks, List.countP_set hlt, hready, hold]
      simp
    · intro j u hu
      rcases hget j u hu with ⟨rfl, rfl⟩ | ⟨-, hu⟩
      · exact hid
      · exact h.ids j u hu
    · refine ⟨z, ?_, hzrun⟩
      dsimp only
      rw [htasks, List.getElem?_set_ne hzero]
      exact hz
  · have hget : ∀ (j : Nat) (u : Task), table'.tasks[j]? = some u →
        j = id ∧ u = new ∨ s.sched.tasks[j]? = some u := by
      intro j u hu
      rw [htasks] at hu
      by_cases hj : j < s.sched.tasks.length
      · rw [List.getElem?_append_left hj] at hu
        exact Or.inr hu
      · rw [List.getElem?_append_right (Nat.not_lt.mp hj),
          List.getElem?_singleton] at hu
        obtain ⟨hzero, hu⟩ := Option.ite_none_right_eq_some.mp hu
        exact Or.inl ⟨by omega, (Option.some.inj hu).symm⟩
    have hkeep : ∀ (j : Nat) (u : Task), s.sched.tasks[j]? = some u → table'.tasks[j]? = some u := by
      intro j u hu
      rw [htasks, List.getElem?_append_left (List.getElem?_eq_some_iff.mp hu).1]
      exact hu
    constructor
    · refine ⟨c, ?_, hcused⟩
      dsimp only
      rw [hcurrent]
      exact hkeep _ _ hc
    · dsimp only
      rw [htasks, List.length_append, List.length_singleton]
      exact hcap
    · intro j u hu hrun
      dsimp only at hu ⊢
      rw [hcurrent]
      rcases hget j u hu with ⟨-, rfl⟩ | hu
      · rw [hready] at hrun
        cases hrun
      · exact h.running j u hu hrun
    · dsimp only
      rw [h.live]
      unfold liveTasks
      rw [htasks, List.countP_append, List.countP_singleton, hready]
      simp
    · intro j u hu
      rcases hget j u hu with ⟨rfl, rfl⟩ | hu
      · exact hid
      · exact h.ids j u hu
    · exact ⟨z, hkeep _ _ hz, hzrun⟩

theorem remove_cases : s.remove id = s ∨
    id ≠ 0 ∧ (∃ t, s.sched.tasks[id]? = some t ∧ t.state ≠ .unused) ∧
      s.remove id = { s with
        live := s.live - 1
        sched := { s.sched with
          tasks := s.sched.tasks.set id (Task.zero id)
          current := if s.sched.current = id then 0 else s.sched.current
          rescheduleRequested :=
            s.sched.rescheduleRequested || s.sched.current = id } } := by
  unfold Scheduler.remove Sched.removeTask
  by_cases hno : (id = 0 || !s.sched.taskSlotUsed id) = true
  · rw [if_pos hno]
    exact Or.inl rfl
  · rw [if_neg hno]
    rw [Bool.or_eq_true, not_or, decide_eq_true_iff, Bool.not_eq_true',
      Bool.not_eq_false, taskSlotUsed_iff] at hno
    exact Or.inr ⟨hno.1, hno.2, rfl⟩

theorem Scheduled.remove (h : s.Scheduled) : (s.remove id).Scheduled := by
  rcases @remove_cases s id with
    hsame | ⟨hzero, ⟨t, ht, hused⟩, hremove⟩
  · rw [hsame]
    exact h
  rw [hremove]
  have hlt : id < s.sched.tasks.length := (List.getElem?_eq_some_iff.mp ht).1
  obtain ⟨c, hc, hcused⟩ := h.current
  obtain ⟨z, hz, hzrun⟩ := h.idle
  have hget : ∀ (j : Nat) (u : Task),
      (s.sched.tasks.set id (Task.zero id))[j]? = some u →
      j = id ∧ u = Task.zero id ∨ j ≠ id ∧ s.sched.tasks[j]? = some u := by
    intro j u hu
    by_cases hj : j = id
    · subst hj
      rw [List.getElem?_set_self hlt] at hu
      exact Or.inl ⟨rfl, (Option.some.inj hu).symm⟩
    · rw [List.getElem?_set_ne (Ne.symm hj)] at hu
      exact Or.inr ⟨hj, hu⟩
  constructor
  · unfold Sched.HasCurrent
    dsimp only
    by_cases hcurrent : s.sched.current = id
    · rw [if_pos hcurrent, List.getElem?_set_ne hzero]
      exact ⟨z, hz, (runnable_alive hzrun).1⟩
    · rw [if_neg hcurrent, List.getElem?_set_ne (Ne.symm hcurrent)]
      exact ⟨c, hc, hcused⟩
  · dsimp only
    rw [List.length_set]
    exact h.capacity
  · intro j u hu hrun
    rcases hget j u hu with ⟨-, rfl⟩ | ⟨hj, hu⟩
    · cases hrun
    · have hjc := h.running j u hu hrun
      dsimp only
      rw [if_neg fun heq => hj (hjc.trans heq)]
      exact hjc
  · have hold : s.sched.tasks[id].state ≠ .unused := by
      have hsome := List.getElem?_eq_getElem hlt
      rw [ht] at hsome
      rw [← Option.some.inj hsome]
      exact hused
    dsimp only
    rw [h.live]
    unfold liveTasks
    rw [List.countP_set hlt]
    simp [hold, Task.zero]
  · intro j u hu
    rcases hget j u hu with ⟨rfl, rfl⟩ | ⟨-, hu⟩
    · rfl
    · exact h.ids j u hu
  · refine ⟨z, ?_, hzrun⟩
    dsimp only
    rw [List.getElem?_set_ne hzero]
    exact hz

-- ==== calls

/-- The state of a task is never set to be free. -/
def Call.Allowed : Call → Prop
  | .setTaskState _ state => state ≠ .unused
  | _ => True

/-- The tasks that a call may bring back from the dead. -/
def Call.revives (s : Sched) : Call → Nat → Prop
  | .setTaskState id state => fun j => j = id ∧ state ≠ .zombie
  | .sleepTaskUntil id _ => fun j => j = id
  | .sleepTaskTicks id ticks _ => fun j => j = id ∧ ticks ≠ 0
  | .sleepCurrentUntil _ => fun j =>
    j = s.current ∧ ∃ t, s.tasks[j]? = some t ∧ t.hasEntry = true
  | .sleepCurrentTicks ticks _ => fun j =>
    (j = s.current ∧ ∃ t, s.tasks[j]? = some t ∧ t.hasEntry = true) ∧ ticks ≠ 0
  | _ => fun _ => False

theorem Scheduled.call_change (h : s.Scheduled) {c : Call} (hc : c.Allowed) :
    (∃ got slice hasEntry, c = .add got slice hasEntry) ∨ (∃ id, c = .remove id) ∨
      ∃ table', s.call c = { s with sched := table' } ∧
        Sched.Change (c.revives s.sched) s.sched table' := by
  cases c with
  | add got slice hasEntry => exact Or.inl ⟨got, slice, hasEntry, rfl⟩
  | remove id => exact Or.inr (Or.inl ⟨id, rfl⟩)
  | setTaskState id state => exact Or.inr (Or.inr ⟨_, rfl, setTaskState_change hc⟩)
  | sleepTaskUntil id tick => exact Or.inr (Or.inr ⟨_, rfl, sleepTaskUntil_change⟩)
  | sleepTaskTicks id ticks now => exact Or.inr (Or.inr ⟨_, rfl, sleepTaskTicks_change⟩)
  | sleepCurrentUntil tick =>
    exact Or.inr (Or.inr ⟨_, rfl, sleepCurrentUntil_change h.current⟩)
  | sleepCurrentTicks ticks now =>
    exact Or.inr (Or.inr ⟨_, rfl, sleepCurrentTicks_change h.current⟩)
  | yieldTask id => exact Or.inr (Or.inr ⟨_, rfl, yieldTask_change⟩)
  | yieldCurrent => exact Or.inr (Or.inr ⟨_, rfl, yieldCurrent_change⟩)
  | wakeTask id => exact Or.inr (Or.inr ⟨_, rfl, wakeTask_change⟩)
  | onTimerTick tick => exact Or.inr (Or.inr ⟨_, rfl, onTimerTick_change h.idle⟩)
  | wakeSleepers tick => exact Or.inr (Or.inr ⟨_, rfl, wakeSleepers_change⟩)
  | accountCurrentTick => exact Or.inr (Or.inr ⟨_, rfl, accountCurrentTick_change⟩)
  | maybeReschedule => exact Or.inr (Or.inr ⟨_, rfl, maybeReschedule_change h.idle⟩)
  | beginRun id => exact Or.inr (Or.inr ⟨_, rfl, beginRun_change⟩)
  | endRun id moved => exact Or.inr (Or.inr ⟨_, rfl, endRun_change⟩)

theorem Scheduled.call (h : s.Scheduled) {c : Call} (hc : c.Allowed) :
    (s.call c).Scheduled := by
  rcases h.call_change hc with ⟨got, slice, hasEntry, rfl⟩ | ⟨id, rfl⟩ | ⟨table', heq, hchange⟩
  · exact h.add
  · exact h.remove
  · rw [heq]
    exact h.change hchange

theorem init_eq {table block : Nat} :
    init (some (table, block))
      = ⟨⟨[⟨0, .running, 1, 1, 0, false⟩], 32, block, 0, true, false, false⟩, 1, table⟩ :=
  rfl

theorem init_scheduled {table block : Nat} : (init (some (table, block))).Scheduled := by
  rw [init_eq]
  constructor
  · exact ⟨_, rfl, nofun⟩
  · exact Nat.succ_le_succ (Nat.zero_le 31)
  · intro j t ht _
    cases j with
    | zero => rfl
    | succ j => cases ht
  · rfl
  · intro j t ht
    cases j with
    | zero =>
      obtain rfl := Option.some.inj ht
      rfl
    | succ j => cases ht
  · exact ⟨_, rfl, rfl⟩

end invariant

-- ==== states

/-- What can be reached by calls, from a start with any answer of the heap. -/
inductive Reached : Scheduler → Prop
  | init (got : Option (Nat × Nat)) : Reached (init got)
  | call {s : Scheduler} (h : Reached s) (c : Call) (hc : c.Allowed) :
      Reached (s.call c)

section reached

variable {s : Scheduler} {c : Call} {cs : List Call} {bodies : List (List Call)}

theorem call_empty (htasks : s.sched.tasks = []) (honline : s.sched.online = false) :
    (s.call c).sched.tasks = [] ∧ (s.call c).sched.online = false := by
  cases c with
  | add got slice hasEntry =>
    have hnone : ∀ got, s.sched.addKernelTaskExId got slice hasEntry = none := by
      intro got
      unfold Sched.addKernelTaskExId
      rw [honline]
      rfl
    have hadd : (s.add got slice hasEntry).2 = s := by
      unfold Scheduler.add
      rw [hnone]
    exact (congrArg (fun s => s.sched.tasks = [] ∧ s.sched.online = false) hadd).mpr
      ⟨htasks, honline⟩
  | remove id =>
    have hremove : s.remove id = s := by
      unfold Scheduler.remove Sched.removeTask Sched.taskSlotUsed
      rw [htasks]
      simp
    exact (congrArg (fun s => s.sched.tasks = [] ∧ s.sched.online = false) hremove).mpr
      ⟨htasks, honline⟩
  | setTaskState id state =>
    simp [Scheduler.call, on, Sched.setTaskState, Sched.taskSlotUsed, htasks, honline]
  | sleepTaskUntil id tick =>
    simp [Scheduler.call, on, Sched.sleepTaskUntil, Sched.taskSlotUsed, htasks, honline]
  | sleepTaskTicks id ticks now =>
    by_cases hticks : ticks = 0 <;>
      simp [Scheduler.call, on, Sched.sleepTaskTicks, Sched.sleepTaskUntil,
        Sched.yieldTask, Sched.taskSlotUsed, htasks, honline, hticks]
  | sleepCurrentUntil tick =>
    simp [Scheduler.call, on, Sched.sleepCurrentUntil, htasks, honline]
  | sleepCurrentTicks ticks now =>
    by_cases hticks : ticks = 0 <;>
      simp [Scheduler.call, on, Sched.sleepCurrentTicks, Sched.sleepCurrentUntil,
        Sched.yieldCurrent, htasks, honline, hticks]
  | yieldTask id => simp [Scheduler.call, on, Sched.yieldTask, htasks, honline]
  | yieldCurrent => simp [Scheduler.call, on, Sched.yieldCurrent, htasks, honline]
  | wakeTask id => simp [Scheduler.call, on, Sched.wakeTask, htasks, honline]
  | onTimerTick tick => simp [Scheduler.call, on, Sched.onTimerTick, htasks, honline]
  | wakeSleepers tick => simp [Scheduler.call, on, Sched.wakeSleepers, htasks, honline]
  | accountCurrentTick =>
    simp [Scheduler.call, on, Sched.accountCurrentTick, htasks, honline]
  | maybeReschedule => simp [Scheduler.call, on, Sched.maybeReschedule, htasks, honline]
  | beginRun id => simp [Scheduler.call, on, Sched.beginRun, htasks, honline]
  | endRun id moved =>
    cases moved <;>
      simp [Scheduler.call, on, Sched.endRun, Sched.modify, htasks, honline]

theorem Reached.scheduled (h : Reached s) :
    s.Scheduled ∨ s.sched.tasks = [] ∧ s.sched.online = false := by
  induction h with
  | init got =>
    rcases got with _ | ⟨table, block⟩
    · exact Or.inr ⟨rfl, rfl⟩
    · exact Or.inl init_scheduled
  | call _ c hc ih =>
    rcases ih with ih | ⟨htasks, honline⟩
    · exact Or.inl (ih.call hc)
    · exact Or.inr (call_empty htasks honline)

/-- The invariant of the scheduler. -/
theorem scheduled_of_reached (h : Reached s) (honline : s.sched.online = true) :
    s.sched.current < s.sched.tasks.length ∧
    s.sched.tasks.length ≤ s.sched.capacity ∧
    (∀ (i : Nat) (t : Task), s.sched.tasks[i]? = some t → t.state = .running →
      i = s.sched.current) ∧
    s.live = s.sched.tasks.countP (fun t => decide (t.state ≠ .unused)) ∧
    (∀ (i : Nat) (t : Task), s.sched.tasks[i]? = some t → t.id = i) ∧
    (∃ t, s.sched.tasks[0]? = some t ∧ t.state ≠ .unused) ∧
    (s.sched.rescheduleRequested = true →
      ∃ t, (s.call .maybeReschedule).sched.tasks[
          (s.call .maybeReschedule).sched.current]? = some t ∧
        t.state.runnable = true ∧
        ((∃ i : Nat, s.sched.tasks[i]?.any (·.runnable) = true) → t.runnable = true)) := by
  rcases h.scheduled with hs | ⟨-, hoff⟩
  · obtain ⟨c, hc, -⟩ := hs.current
    obtain ⟨z, hz, hzrun⟩ := hs.idle
    exact ⟨(List.getElem?_eq_some_iff.mp hc).1, hs.capacity, hs.running, hs.live, hs.ids,
      ⟨z, hz, (runnable_alive hzrun).1⟩,
      maybeReschedule_runnable hs.idle hs.current⟩
  · rw [honline] at hoff
    cases hoff

/-- After a task has been added and the idle task has yielded. -/
theorem scheduled_of_reached_two :
    let s := (((init (some (0x100000, 4096))).call (.add none 3 true)).call
      (.yieldCurrent))
    s.sched.current < s.sched.tasks.length ∧
    s.sched.tasks.length ≤ s.sched.capacity ∧
    (∀ (i : Nat) (t : Task), s.sched.tasks[i]? = some t → t.state = .running →
      i = s.sched.current) ∧
    s.live = s.sched.tasks.countP (fun t => decide (t.state ≠ .unused)) ∧
    (∀ (i : Nat) (t : Task), s.sched.tasks[i]? = some t → t.id = i) ∧
    (∃ t, s.sched.tasks[0]? = some t ∧ t.state ≠ .unused) ∧
    (s.sched.rescheduleRequested = true →
      ∃ t, (s.call .maybeReschedule).sched.tasks[
          (s.call .maybeReschedule).sched.current]? = some t ∧
        t.state.runnable = true ∧
        ((∃ i : Nat, s.sched.tasks[i]?.any (·.runnable) = true) → t.runnable = true)) :=
  scheduled_of_reached
    (((Reached.init (some (0x100000, 4096))).call (.add none 3 true) trivial).call
      .yieldCurrent trivial) rfl

-- ==== dispatching

/-- The steps of the scheduler's own between the calls of the entries. -/
def Call.Inner : Call → Prop
  | .wakeSleepers _ => True
  | .maybeReschedule => True
  | .beginRun _ => True
  | .endRun _ _ => True
  | _ => False

/-- A run of calls from some lists, and of inner steps. -/
def RunOf (bodies : List (List Call)) (s s' : Scheduler) : Prop :=
  ∃ cs, s' = s.calls cs ∧ ∀ c ∈ cs, (∃ body ∈ bodies, c ∈ body) ∨ c.Inner

section runs

variable {s' s'' : Scheduler} {body : List Call}

theorem RunOf.refl : RunOf bodies s s := ⟨[], rfl, nofun⟩

theorem RunOf.trans (h : RunOf bodies s s') (h' : RunOf bodies s' s'') :
    RunOf bodies s s'' := by
  obtain ⟨cs, rfl, hcs⟩ := h
  obtain ⟨cs', rfl, hcs'⟩ := h'
  refine ⟨cs ++ cs', (List.foldl_append ..).symm, fun c hc => ?_⟩
  rcases List.mem_append.mp hc with hc | hc
  · exact hcs c hc
  · exact hcs' c hc

theorem RunOf.inner (hc : c.Inner) : RunOf bodies s (s.call c) :=
  ⟨[c], rfl, fun c' hc' => by
    obtain rfl := List.mem_singleton.mp hc'
    exact Or.inr hc⟩

theorem RunOf.mono {bodies' : List (List Call)} (h : RunOf bodies s s')
    (hmem : ∀ body ∈ bodies, body ∈ bodies') : RunOf bodies' s s' := by
  obtain ⟨cs, rfl, hcs⟩ := h
  refine ⟨cs, rfl, fun c hc => ?_⟩
  rcases hcs c hc with ⟨body, hbody, hc⟩ | hc
  · exact Or.inl ⟨body, hmem body hbody, hc⟩
  · exact Or.inr hc

theorem runTask_run {id : Nat} : RunOf [body] s (s.runTask body id) := by
  unfold Scheduler.runTask
  split
  · exact .refl
  dsimp only
  have hbegin : RunOf [body] s (s.call (.beginRun id)) := RunOf.inner trivial
  have hbody : RunOf [body] (s.call (.beginRun id)) ((s.call (.beginRun id)).calls body) :=
    ⟨body, rfl, fun c hc => Or.inl ⟨body, List.mem_singleton.mpr rfl, hc⟩⟩
  exact ((hbegin.trans hbody).trans (RunOf.inner (c := .endRun id _) trivial)).trans
    (RunOf.inner (c := .maybeReschedule) trivial)

theorem dispatchCurrent_run {tick : UInt64} :
    RunOf [body] s (s.dispatchCurrent body tick) := by
  unfold Scheduler.dispatchCurrent
  split
  · exact .refl
  dsimp only
  have hwake : RunOf [body] s (s.call (.wakeSleepers tick)) := RunOf.inner trivial
  exact (hwake.trans (RunOf.inner (c := .maybeReschedule) trivial)).trans runTask_run

theorem RunOf.head (h : RunOf [bodies.headD []] s s') : RunOf bodies s s' := by
  cases bodies with
  | nil =>
    obtain ⟨cs, rfl, hcs⟩ := h
    refine ⟨cs, rfl, fun c hc => ?_⟩
    rcases hcs c hc with ⟨body, hbody, hc⟩ | hc
    · obtain rfl := List.mem_singleton.mp hbody
      cases hc
    · exact Or.inr hc
  | cons body bodies =>
    refine h.mono fun body' hmem => ?_
    obtain rfl := List.mem_singleton.mp hmem
    exact List.mem_cons_self

theorem dispatchLoop_run {fuel i budget : Nat} :
    RunOf bodies s (dispatchLoop fuel i budget bodies s).2.2 ∧
      ∀ body ∈ (dispatchLoop fuel i budget bodies s).2.1, body ∈ bodies := by
  induction fuel generalizing i budget bodies s with
  | zero => exact ⟨.refl, fun _ h => h⟩
  | succ fuel ih =>
    unfold Scheduler.dispatchLoop
    split
    · exact ⟨.refl, fun _ h => h⟩
    dsimp only
    split
    · exact ih
    · obtain ⟨hrun, hmem⟩ := @ih (s.runTask (bodies.headD [])
        ((s.sched.current + i) % s.sched.tasks.length)) bodies.tail (i + 1) (budget - 1)
      exact ⟨(RunOf.head runTask_run).trans
        (hrun.mono fun body hbody => List.mem_of_mem_tail hbody),
        fun body hbody => List.mem_of_mem_tail (hmem body hbody)⟩

theorem dispatchReady_run {tick : UInt64} :
    RunOf bodies s (s.dispatchReady bodies tick) := by
  unfold Scheduler.dispatchReady
  split
  · exact .refl
  have hwake : RunOf bodies s (s.call (.wakeSleepers tick)) := RunOf.inner trivial
  have hloop : RunOf bodies (s.call (.wakeSleepers tick))
      (Scheduler.dispatchLoop 0xFFFFFFFF 0 defaultDispatchBudget bodies
        (s.call (.wakeSleepers tick))).2.2 ∧ _ := dispatchLoop_run
  generalize Scheduler.dispatchLoop _ _ _ _ _ = left at hloop ⊢
  obtain ⟨budget, rest, s'⟩ := left
  obtain ⟨hrun, hmem⟩ := hloop
  dsimp only
  split
  · exact (hwake.trans hrun).trans ((RunOf.head dispatchCurrent_run).mono hmem)
  · exact hwake.trans hrun

theorem Reached.runOf (h : Reached s) (hrun : RunOf bodies s s')
    (hbodies : ∀ body ∈ bodies, ∀ c ∈ body, c.Allowed) : Reached s' := by
  obtain ⟨cs, rfl, hcs⟩ := hrun
  have hallowed : ∀ c ∈ cs, c.Allowed := by
    intro c hc
    rcases hcs c hc with ⟨body, hbody, hc⟩ | hinner
    · exact hbodies body hbody c hc
    · cases c <;> first | exact trivial | exact hinner.elim
  unfold Scheduler.calls
  clear hcs
  induction cs generalizing s with
  | nil => exact h
  | cons c cs ih =>
    exact ih (h.call c (hallowed c List.mem_cons_self))
      fun c' hc' => hallowed c' (List.mem_cons_of_mem c hc')

/-- A dispatch keeps the invariant, whatever the entries of the tasks that it
runs call. -/
theorem scheduled_of_dispatchReady (h : Reached s)
    (hbodies : ∀ body ∈ bodies, ∀ c ∈ body, c.Allowed) (tick : UInt64) :
    Reached (s.dispatchReady bodies tick) ∧
      ((s.dispatchReady bodies tick).Scheduled ∨
        (s.dispatchReady bodies tick).sched.tasks = [] ∧
          (s.dispatchReady bodies tick).sched.online = false) :=
  have hreached := h.runOf dispatchReady_run hbodies
  ⟨hreached, hreached.scheduled⟩

end runs

/-- A task that puts itself to sleep when it is dispatched. -/
theorem scheduled_of_dispatchReady_asleep : ∃ s : Scheduler,
    s.sched.tasks.length = 2 ∧
      Reached (s.dispatchReady [[.sleepCurrentTicks 5 0]] 0) := by
  refine ⟨(init (some (0x100000, 4096))).call (.add none 3 true),
    by decide +kernel, (scheduled_of_dispatchReady ?_ ?_ 0).1⟩
  · exact (Reached.init _).call (.add none 3 true) trivial
  · intro body hbody c hc
    obtain rfl := List.mem_singleton.mp hbody
    obtain rfl := List.mem_singleton.mp hc
    trivial

end reached

end Scheduler

end Clks.Exec
