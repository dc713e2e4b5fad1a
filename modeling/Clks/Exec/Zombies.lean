/-
Tasks that are dead.

A task whose process has ended waits in its slot as a zombie. Waking refuses
it, and so do the timer and the runs of tasks, which look for other states.
The calls that set the state of a task or put it to sleep ask only whether its
slot is used.
-/
import Clks.Exec.Scheduled

namespace Clks.Exec

namespace Scheduler

/-- A zombie, or a slot that has been cleared. -/
def Dead (t : Task) : Prop :=
  t.state = .zombie ∨ t.state = .unused ∧ t.hasEntry = false

/-- A new task is made in a slot. -/
def Call.Creates (id : Nat) (s : Scheduler) : Call → Prop
  | .add got slice hasEntry => (s.add got slice hasEntry).1 = some id
  | _ => False

/-- The task of a slot is dead. -/
def DeadAt (id : Nat) (s : Sched) : Prop :=
  ∃ t, s.tasks[id]? = some t ∧ Dead t

def ZombieAt (id : Nat) (s : Sched) : Prop :=
  ∃ t, s.tasks[id]? = some t ∧ t.state = .zombie

section steps

variable {hit : Nat → Prop} {s s' : Sched} {id j : Nat} {f : Task → Task}
  {tick ticks now : UInt64}

theorem deadAt_change (hchange : Sched.Change hit s s')
    (hnot : ZombieAt id s → ¬ hit id) (hdead : DeadAt id s) : DeadAt id s' := by
  obtain ⟨t, ht, hdead⟩ := hdead
  obtain ⟨t', ht', htask⟩ := hchange.task id t ht
  refine ⟨t', ht', ?_⟩
  rcases hdead with hzombie | ⟨hunused, hentry⟩
  · exact Or.inl (htask.zombie (hnot ⟨t, ht, hzombie⟩) hzombie)
  · exact Or.inr ⟨htask.unused.mpr hunused, htask.hasEntry.trans hentry⟩

theorem idle_modify (hzero : id ≠ 0) (hidle : s.Idle)
    (htasks : s'.tasks = (s.modify id f).tasks) : s'.Idle := by
  obtain ⟨z, hz, hrun⟩ := hidle
  refine ⟨z, ?_, hrun⟩
  rw [htasks, modify_get, if_neg hzero.symm]
  exact hz

theorem deadAt_modify (hj : id ≠ j) (hdead : DeadAt j s)
    (htasks : s'.tasks = (s.modify id f).tasks) : DeadAt j s' := by
  obtain ⟨t, ht, hdead⟩ := hdead
  refine ⟨t, ?_, hdead⟩
  rw [htasks, modify_get, if_neg hj.symm]
  exact ht

theorem setUnused_cases : (s.setTaskState id .unused).2 = s ∨
    id ≠ 0 ∧ (∃ t, s.tasks[id]? = some t ∧ t.state ≠ .unused) ∧
      ∃ f, (s.setTaskState id .unused).2.tasks = (s.modify id f).tasks := by
  unfold Sched.setTaskState
  split
  · exact Or.inl rfl
  next hused =>
  rw [Bool.not_eq_true', Bool.not_eq_false, taskSlotUsed_iff] at hused
  split
  · exact Or.inl rfl
  next hzero =>
  refine Or.inr ⟨?_, hused, ?_⟩
  · rintro rfl
    exact hzero rfl
  · dsimp only
    split <;> split <;> exact ⟨_, rfl⟩

theorem sleepCurrentUntil_cases : (s.sleepCurrentUntil tick).2 = s ∨
    s.current ≠ 0 ∧ (∃ t, s.tasks[s.current]? = some t ∧ t.hasEntry = true) ∧
      ∃ f, (s.sleepCurrentUntil tick).2.tasks = (s.modify s.current f).tasks := by
  unfold Sched.sleepCurrentUntil
  split
  · exact Or.inl rfl
  next t ht =>
  split
  · exact Or.inl rfl
  next hok =>
  rw [Bool.or_eq_true, not_or, decide_eq_true_iff, Bool.not_eq_true',
    Bool.not_eq_false] at hok
  exact Or.inr ⟨hok.1, ⟨t, ht, hok.2⟩, _, rfl⟩

theorem deadAt_setUnused (hdead : DeadAt j s) (hnot : ZombieAt j s → j ≠ id) :
    DeadAt j (s.setTaskState id .unused).2 := by
  rcases @setUnused_cases s id with hsame | ⟨-, ⟨u, hu, hused⟩, f, htasks⟩
  · rw [hsame]
    exact hdead
  refine deadAt_modify ?_ hdead htasks
  rintro rfl
  obtain ⟨t, ht, hzombie | hfree⟩ := hdead
  · exact hnot ⟨t, ht, hzombie⟩ rfl
  · obtain rfl : t = u := Option.some.inj (ht.symm.trans hu)
    exact hused hfree.1

theorem deadAt_sleepCurrent (hdead : DeadAt j s)
    (hnot : ZombieAt j s →
      ¬ (j = s.current ∧ ∃ t, s.tasks[j]? = some t ∧ t.hasEntry = true)) :
    DeadAt j (s.sleepCurrentUntil tick).2 := by
  rcases @sleepCurrentUntil_cases s tick with
    hsame | ⟨-, ⟨u, hu, hentry⟩, f, htasks⟩
  · rw [hsame]
    exact hdead
  refine deadAt_modify ?_ hdead htasks
  rintro rfl
  obtain ⟨t, ht, hzombie | hfree⟩ := hdead
  · exact hnot ⟨t, ht, hzombie⟩ ⟨rfl, u, hu, hentry⟩
  · obtain rfl : t = u := Option.some.inj (ht.symm.trans hu)
    rw [hentry] at hfree
    cases hfree.2

end steps

-- ==== runs

/-- A run that spares a slot: no call makes a new task in it, and none sets the
state of a zombie in it to another or puts it to sleep. -/
def SparedRun (id : Nat) : Scheduler → List Call → Prop
  | _, [] => True
  | s, c :: cs =>
    ¬ c.Creates id s ∧ (ZombieAt id s.sched → ¬ c.revives s.sched id) ∧
      SparedRun id (s.call c) cs

section runs

variable {s : Scheduler} {c : Call} {cs : List Call} {id j : Nat}

theorem add_get {got : Option (Nat × Nat)} {slice : Nat} {hasEntry : Bool} {t : Task}
    (ht : s.sched.tasks[j]? = some t)
    (hnot : ¬ (Call.add got slice hasEntry).Creates j s) :
    (s.add got slice hasEntry).2.sched.tasks[j]? = some t := by
  have hnot : (s.add got slice hasEntry).1 ≠ some j := hnot
  unfold Scheduler.add at hnot ⊢
  split
  · exact ht
  next id table' hadd =>
  rw [hadd] at hnot
  have hj : id ≠ j := fun h => hnot (congrArg some h)
  obtain ⟨new, -, -, -, -, hcases⟩ := addKernelTaskExId_cases hadd
  dsimp only
  rcases hcases with ⟨-, -, htasks, -⟩ | ⟨-, htasks, -⟩
  · rw [htasks, List.getElem?_set_ne hj]
    exact ht
  · rw [htasks, List.getElem?_append_left (List.getElem?_eq_some_iff.mp ht).1]
    exact ht

theorem add_idle {got : Option (Nat × Nat)} {slice : Nat} {hasEntry : Bool}
    (hidle : s.sched.Idle) : (s.add got slice hasEntry).2.sched.Idle := by
  obtain ⟨z, hz, hrun⟩ := hidle
  refine ⟨z, add_get hz ?_, hrun⟩
  intro hcreates
  have hzero : (s.add got slice hasEntry).1 = some 0 := hcreates
  unfold Scheduler.add at hzero
  split at hzero
  · cases hzero
  next id table' hadd =>
  obtain rfl := Option.some.inj hzero
  obtain ⟨new, -, -, -, -, ⟨hne, -⟩ | ⟨hlast, -⟩⟩ := addKernelTaskExId_cases hadd
  · exact hne rfl
  · have hlt := (List.getElem?_eq_some_iff.mp hz).1
    rw [← hlast] at hlt
    exact absurd hlt (Nat.lt_irrefl 0)

theorem remove_idle (hidle : s.sched.Idle) : (s.remove id).sched.Idle := by
  rcases @remove_cases s id with hsame | ⟨hzero, -, hremove⟩
  · rw [hsame]
    exact hidle
  rw [hremove]
  obtain ⟨z, hz, hrun⟩ := hidle
  refine ⟨z, ?_, hrun⟩
  dsimp only
  rw [List.getElem?_set_ne hzero]
  exact hz

theorem deadAt_remove (hdead : DeadAt j s.sched) : DeadAt j (s.remove id).sched := by
  rcases @remove_cases s id with hsame | ⟨hzero, ⟨u, hu, -⟩, hremove⟩
  · rw [hsame]
    exact hdead
  rw [hremove]
  have hlt : id < s.sched.tasks.length := (List.getElem?_eq_some_iff.mp hu).1
  obtain ⟨t, ht, hdead⟩ := hdead
  unfold DeadAt
  dsimp only
  by_cases hj : j = id
  · subst hj
    rw [List.getElem?_set_self hlt]
    exact ⟨_, rfl, Or.inr ⟨rfl, rfl⟩⟩
  · rw [List.getElem?_set_ne (Ne.symm hj)]
    exact ⟨t, ht, hdead⟩

theorem call_idle (hidle : s.sched.Idle) : (s.call c).sched.Idle := by
  have hby : ∀ {hit : Nat → Prop} {table : Sched}, Sched.Change hit s.sched table →
      table.Idle := fun hchange => hchange.idle hidle
  have hfree : ∀ {table : Sched}, Sched.Change (fun _ => False) s.sched table →
      table.Idle := fun hchange => hchange.idle hidle
  have hsleep : ∀ tick, (s.sched.sleepCurrentUntil tick).2.Idle := by
    intro tick
    rcases @sleepCurrentUntil_cases s.sched tick with
      hsame | ⟨hzero, -, f, htasks⟩
    · rw [hsame]
      exact hidle
    · exact idle_modify hzero hidle htasks
  cases c with
  | add got slice hasEntry => exact add_idle hidle
  | remove id => exact remove_idle hidle
  | setTaskState id state =>
    by_cases hstate : state = .unused
    · subst hstate
      show (s.sched.setTaskState id .unused).2.Idle
      rcases @setUnused_cases s.sched id with hsame | ⟨hzero, -, f, htasks⟩
      · rw [hsame]
        exact hidle
      · exact idle_modify hzero hidle htasks
    · exact hby (setTaskState_change hstate)
  | sleepTaskUntil id tick => exact hby sleepTaskUntil_change
  | sleepTaskTicks id ticks now => exact hby sleepTaskTicks_change
  | sleepCurrentUntil tick => exact hsleep tick
  | sleepCurrentTicks ticks now =>
    show (s.sched.sleepCurrentTicks ticks now).2.Idle
    unfold Sched.sleepCurrentTicks
    split
    · exact hfree yieldCurrent_change
    · exact hsleep _
  | yieldTask id => exact hfree yieldTask_change
  | yieldCurrent => exact hfree yieldCurrent_change
  | wakeTask id => exact hfree wakeTask_change
  | onTimerTick tick => exact hfree (onTimerTick_change hidle)
  | wakeSleepers tick => exact hfree wakeSleepers_change
  | accountCurrentTick => exact hfree accountCurrentTick_change
  | maybeReschedule => exact hfree (maybeReschedule_change hidle)
  | beginRun id => exact hfree beginRun_change
  | endRun id moved => exact hfree endRun_change

theorem deadAt_call (hidle : s.sched.Idle) (hdead : DeadAt j s.sched)
    (hcreates : ¬ c.Creates j s) (hnot : ZombieAt j s.sched → ¬ c.revives s.sched j) :
    DeadAt j (s.call c).sched := by
  have hby : ∀ {hit : Nat → Prop} {table : Sched}, Sched.Change hit s.sched table →
      (ZombieAt j s.sched → ¬ hit j) → DeadAt j table :=
    fun hchange hspare => deadAt_change hchange hspare hdead
  have hfree : ∀ {table : Sched}, Sched.Change (fun _ => False) s.sched table →
      DeadAt j table := fun hchange => hby hchange fun _ => id
  cases c with
  | add got slice hasEntry =>
    obtain ⟨t, ht, hdead⟩ := hdead
    exact ⟨t, add_get ht hcreates, hdead⟩
  | remove id => exact deadAt_remove hdead
  | setTaskState id state =>
    by_cases hstate : state = .unused
    · subst hstate
      exact deadAt_setUnused hdead fun hz heq => hnot hz ⟨heq, nofun⟩
    · exact hby (setTaskState_change hstate) hnot
  | sleepTaskUntil id tick => exact hby sleepTaskUntil_change hnot
  | sleepTaskTicks id ticks now => exact hby sleepTaskTicks_change hnot
  | sleepCurrentUntil tick => exact deadAt_sleepCurrent hdead hnot
  | sleepCurrentTicks ticks now =>
    show DeadAt j (s.sched.sleepCurrentTicks ticks now).2
    unfold Sched.sleepCurrentTicks
    split
    · exact hfree yieldCurrent_change
    · next hticks => exact deadAt_sleepCurrent hdead fun hz h => hnot hz ⟨h, hticks⟩
  | yieldTask id => exact hfree yieldTask_change
  | yieldCurrent => exact hfree yieldCurrent_change
  | wakeTask id => exact hfree wakeTask_change
  | onTimerTick tick => exact hfree (onTimerTick_change hidle)
  | wakeSleepers tick => exact hfree wakeSleepers_change
  | accountCurrentTick => exact hfree accountCurrentTick_change
  | maybeReschedule => exact hfree (maybeReschedule_change hidle)
  | beginRun id => exact hfree beginRun_change
  | endRun id moved => exact hfree endRun_change

end runs

-- ==== the theorem

/-- What can be reached by any calls. -/
inductive Started : Scheduler → Prop
  | init (got : Option (Nat × Nat)) : Started (init got)
  | call {s : Scheduler} (h : Started s) (c : Call) : Started (s.call c)

section started

variable {s : Scheduler} {c : Call} {cs : List Call} {id : Nat} {t : Task}

theorem Started.idle (h : Started s) :
    s.sched.Idle ∨ s.sched.tasks = [] ∧ s.sched.online = false := by
  induction h with
  | init got =>
    rcases got with _ | ⟨table, block⟩
    · exact Or.inr ⟨rfl, rfl⟩
    · exact Or.inl init_scheduled.idle
  | call _ c ih =>
    rcases ih with ih | ⟨htasks, honline⟩
    · exact Or.inl (call_idle ih)
    · exact Or.inr (call_empty htasks honline)

/-- A task that has become a zombie stays dead in every run that spares it. -/
theorem dead_of_run (h : Started s) (ht : s.sched.tasks[id]? = some t)
    (hzombie : t.state = .zombie) (hrun : SparedRun id s cs) :
    ∃ t', (s.calls cs).sched.tasks[id]? = some t' ∧
      (t'.state = .zombie ∨ t'.state = .unused) := by
  have hidle : s.sched.Idle := by
    rcases h.idle with hidle | ⟨htasks, -⟩
    · exact hidle
    · rw [htasks] at ht
      cases ht
  have main : ∀ (cs : List Call) (s : Scheduler), s.sched.Idle → DeadAt id s.sched →
      SparedRun id s cs → DeadAt id (s.calls cs).sched := by
    intro cs
    induction cs with
    | nil => exact fun _ _ hdead _ => hdead
    | cons c cs ih =>
      rintro s hidle hdead ⟨hcreates, hnot, hrun⟩
      exact ih (s.call c) (call_idle hidle) (deadAt_call hidle hdead hcreates hnot) hrun
  obtain ⟨t', ht', hdead⟩ := main cs s hidle ⟨t, ht, Or.inl hzombie⟩ hrun
  exact ⟨t', ht', hdead.imp (fun h => h) And.left⟩

/-- A zombie is woken, the timer ticks, and it is removed. -/
theorem dead_of_run_removed :
    ∃ t', ((((init (some (0x100000, 4096))).call (.add none 1 true)).call
        (.setTaskState 1 .zombie)).calls
          [.wakeTask 1, .onTimerTick 7, .remove 1]).sched.tasks[1]? = some t' ∧
      (t'.state = .zombie ∨ t'.state = .unused) := by
  refine dead_of_run (.call (.call (.init _) (.add none 1 true)) (.setTaskState 1 .zombie))
    rfl rfl ?_
  have hno : ∀ p : Prop, p → ¬ False := fun _ _ h => h
  exact ⟨fun h => h, hno _, fun h => h, hno _, fun h => h, hno _, trivial⟩

/-- A zombie is put to sleep, and the timer makes it ready. -/
theorem zombie_revived :
    let s := ((init (some (0x100000, 4096))).call (.add none 1 true)).call
      (.setTaskState 1 .zombie)
    (∃ t, s.sched.tasks[1]? = some t ∧ t.state = .zombie) ∧
      ∃ t, (s.calls [.sleepTaskUntil 1 5, .wakeSleepers 9]).sched.tasks[1]? = some t ∧
        t.state = .ready :=
  ⟨⟨_, rfl, rfl⟩, _, rfl, rfl⟩

end started

end Scheduler

end Clks.Exec
