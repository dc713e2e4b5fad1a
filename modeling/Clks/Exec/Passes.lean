/-
One pass of the dispatcher over the tasks that are ready
(`clks_scheduler_dispatch_ready`).

The loop counts up to the number of tasks and takes the index from the
current task on; but running a task makes it the current one, so that the
count starts again from there and goes on at once. Which tasks are run is
then a pass as in `Strides`, as long as the entries change no states: they
may ask for a reschedule, which moves the current task further.
-/
import Clks.Exec.Scheduled
import Clks.Lib.Strides

namespace Clks.Exec

/-- What of a task decides whether it can run. -/
def Task.stands (t : Task) : TaskState × Bool := (t.state, t.hasEntry)

namespace Scheduler

-- ==== what is run

/-- The tasks that the loop of `clks_scheduler_dispatch_ready` runs. -/
def dispatchRuns : Nat → Nat → Nat → List (List Call) → Scheduler → List Nat
  | 0, _, _, _, _ => []
  | fuel + 1, i, budget, bodies, s =>
    if s.sched.tasks.length ≤ i || budget = 0 then []
    else
      let idx := (s.sched.current + i) % s.sched.tasks.length
      if idx = 0 || !s.runnable idx then dispatchRuns fuel (i + 1) budget bodies s
      else
        idx :: dispatchRuns fuel (i + 1) (budget - 1) bodies.tail
          (s.runTask (bodies.headD []) idx)

/-- The pass runs each task once that is not the idle task and can run. -/
def RunsOnce (budget : Nat) (bodies : List (List Call)) (s : Scheduler) : Prop :=
  ∀ id, id ≠ 0 → s.runnable id = true →
    (dispatchRuns 0xFFFFFFFF 0 budget bodies s).count id = 1

-- ==== the entries

/-- No state is changed; a reschedule may be asked for. -/
structure Quiet (asked : Bool) (s s' : Scheduler) : Prop where
  tasks : s'.sched.tasks.map Task.stands = s.sched.tasks.map Task.stands
  current : s'.sched.current = s.sched.current
  request : s'.sched.rescheduleRequested = (s.sched.rescheduleRequested || asked)
  table : s'.table = s.table

/-- The entry of the current task is running. -/
def InEntry (s : Scheduler) : Prop :=
  ∃ t, s.sched.tasks[s.sched.current]? = some t ∧ t.state = .running ∧
    t.hasEntry = true

/-- An entry that changes no states, and whether it asks for a reschedule. -/
def QuietEntry (asked : Bool) (body : List Call) : Prop :=
  ∀ s, s.InEntry → Quiet asked s (s.calls body)

theorem quietEntry_nil : QuietEntry false [] := fun _ _ =>
  ⟨rfl, rfl, (Bool.or_false _).symm, rfl⟩

end Scheduler

-- ==== one run

section run

variable {s s' : Sched} {id next : Nat} {t : Task}

/-- Which tasks can run. -/
def Sched.ready (s : Sched) (id : Nat) : Bool := s.tasks[id]?.any (·.runnable)

theorem modify_ready {f : Task → Task}
    (hf : ∀ t, s.tasks[id]? = some t → (f t).runnable = t.runnable) :
    (s.modify id f).ready = s.ready := by
  funext j
  unfold Sched.ready
  rw [modify_get]
  split
  · next h =>
    subst h
    cases ht : s.tasks[j]? with
    | none => rfl
    | some t => exact hf t ht
  · rfl

theorem ready_iff : s.ready id = true ↔
    ∃ t, s.tasks[id]? = some t ∧ t.hasEntry = true ∧ t.state.runnable = true := by
  unfold Sched.ready Task.runnable
  rw [Option.any_eq_true]
  exact exists_congr fun t => and_congr_right fun _ => Bool.and_eq_true_iff

theorem switchTo_ready (hnext : s.ready next = true) :
    (s.switchTo next).ready = s.ready := by
  unfold Sched.switchTo
  split
  · rfl
  · next hne =>
    have hleave : (s.modify s.current fun t =>
        if t.state = .running then { t with state := .ready } else t).ready
        = s.ready := by
      refine modify_ready fun t _ => ?_
      split
      · next hrun =>
        unfold Task.runnable
        rw [hrun]
        rfl
      · rfl
    refine Eq.trans (modify_ready fun t ht => ?_) hleave
    rw [← hleave] at hnext
    obtain ⟨t', ht', -, hrun⟩ := ready_iff.mp hnext
    cases ht.symm.trans ht'
    unfold Task.runnable
    rw [hrun]
    rfl

/-- The task that a reschedule goes on with: the first one that can run, from
the next one on. -/
def nextReady (n : Nat) (ready : Nat → Bool) (start : Nat) : Nat :=
  match ((List.range n).map fun i => (start + (i + 1)) % n).find? ready with
  | some i => i
  | none => if ready start then start else 0

theorem beginRun_spec (honly : s.OnlyCurrent) (hid : s.ready id = true) :
    (s.beginRun id).ready = s.ready ∧ (s.beginRun id).current = id ∧
      (s.beginRun id).rescheduleRequested = s.rescheduleRequested ∧
      ∃ t, (s.beginRun id).tasks[id]? = some t ∧ t.state = .running ∧
        t.hasEntry = true := by
  obtain ⟨t, ht, hentry, hrun⟩ := ready_iff.mp hid
  have hrunnable : t.runnable = true := by
    unfold Task.runnable
    rw [hentry, hrun]
    rfl
  -- The task is switched to, or it is the current one.
  have hswitch : ∃ u : Sched, u.ready = s.ready ∧ u.current = id ∧
      u.rescheduleRequested = s.rescheduleRequested ∧
      s.beginRun id = { u.modify id fun t => { t with state := .running } with
        dispatchActive := true } := by
    unfold Sched.beginRun
    rw [ht]
    dsimp only
    rw [if_neg (by rw [hrunnable]; decide)]
    by_cases hready : t.state = .ready
    · refine ⟨s.switchTo id, switchTo_ready hid, (switchTo_current ht hrun).1, ?_, ?_⟩
      · unfold Sched.switchTo
        split <;> rfl
      · rw [if_pos hready]
    · have hstate : t.state = .running := by
        unfold TaskState.runnable at hrun
        rw [Bool.or_eq_true, decide_eq_true_iff, decide_eq_true_iff] at hrun
        exact hrun.resolve_left hready
      exact ⟨s, rfl, (honly id t ht hstate).symm, rfl, by rw [if_neg hready]⟩
  obtain ⟨u, huready, hucurrent, hurequest, hbegin⟩ := hswitch
  rw [← huready] at hid
  obtain ⟨v, hv, hventry, hvrun⟩ := ready_iff.mp hid
  rw [hbegin]
  refine ⟨Eq.trans (@modify_ready u id _ fun w hw => ?_) huready, hucurrent,
    hurequest, { v with state := .running }, ?_, rfl, hventry⟩
  · cases hv.symm.trans hw
    unfold Task.runnable
    rw [hvrun]
    rfl
  · show (u.modify id _).tasks[id]? = _
    rw [modify_get, if_pos rfl, hv]
    rfl

theorem endRun_spec : (s.endRun id false).ready = s.ready ∧
    (s.endRun id false).current = s.current ∧
    (s.endRun id false).rescheduleRequested = s.rescheduleRequested := by
  refine ⟨?_, rfl, rfl⟩
  refine @modify_ready { s with dispatchActive := false } id _ fun t _ => ?_
  split
  · next h =>
    unfold Task.runnable
    rw [h]
    rfl
  · rfl

theorem switchTo_current_of_ready (hnext : s.ready next = true) :
    (s.switchTo next).current = next ∧
      (s.switchTo next).rescheduleRequested = s.rescheduleRequested ∧
      (s.switchTo next).tasks.length = s.tasks.length := by
  obtain ⟨t, ht, -, hrun⟩ := ready_iff.mp hnext
  refine ⟨(switchTo_current ht hrun).1, ?_, ?_⟩
  · unfold Sched.switchTo
    split <;> rfl
  · exact (@switchTo_change (fun _ => True) s next ⟨t, ht, hrun⟩).length

theorem maybeReschedule_spec (honly : s.OnlyCurrent)
    (hready : s.ready s.current = true) :
    s.maybeReschedule.ready = s.ready ∧
      s.maybeReschedule.current =
        (if s.rescheduleRequested then
          nextReady s.tasks.length s.ready s.current else s.current) ∧
      s.maybeReschedule.rescheduleRequested = false ∧
      s.maybeReschedule.tasks.length = s.tasks.length ∧
      s.maybeReschedule.OnlyCurrent := by
  obtain ⟨t, ht, -, -⟩ := ready_iff.mp hready
  have hne : s.tasks ≠ [] := by
    intro hnil
    rw [hnil] at ht
    cases ht
  cases hrequest : s.rescheduleRequested with
  | false =>
    have hsame : s.maybeReschedule = s := by
      unfold Sched.maybeReschedule
      rw [hrequest]
      exact if_pos (by simp)
    rw [hsame, hrequest]
    exact ⟨rfl, rfl, rfl, rfl, honly⟩
  | true =>
    have hlt := (List.getElem?_eq_some_iff.mp ht).1
    have hnext := nextRunnableTask_any hlt hready
    rw [maybeReschedule_eq hne hrequest]
    have hslice : ∀ u : Sched, (u.modify u.current fun t =>
        { t with remainingTicks := t.timeSliceTicks }).ready = u.ready :=
      fun u => modify_ready fun _ _ => rfl
    generalize hu : ({ s with rescheduleRequested := false }.modify s.current
      fun t => { t with remainingTicks := t.timeSliceTicks }) = u
    have huready : u.ready = s.ready := by
      rw [← hu]
      exact hslice { s with rescheduleRequested := false }
    have hulength : u.tasks.length = s.tasks.length := by
      rw [← hu]
      exact List.length_modify ..
    have huonly : u.OnlyCurrent := by
      rw [← hu]
      have hsame : Sched.Change (fun _ => True) { s with rescheduleRequested := false }
          ({ s with rescheduleRequested := false }.modify s.current fun t =>
            { t with remainingTicks := t.timeSliceTicks }) :=
        modify_same (fun _ => rfl) (fun _ => rfl) fun _ => rfl
      exact hsame.running honly
    have hurequest : u.rescheduleRequested = false := by
      rw [← hu]
      rfl
    have hnext : u.ready (s.nextRunnableTask s.current) = true := by
      rw [huready]
      exact hnext
    obtain ⟨hcurrent, hflag, hlength⟩ := switchTo_current_of_ready hnext
    obtain ⟨t', ht', -, hrun'⟩ := ready_iff.mp hnext
    refine ⟨(switchTo_ready hnext).trans huready, hcurrent,
      hflag.trans hurequest, hlength.trans hulength, ?_⟩
    exact (@switchTo_change (fun _ => True) u _ ⟨t', ht', hrun'⟩).running huonly

end run

namespace Scheduler

-- ==== one run

section run

variable {s s' : Scheduler} {asked : Bool} {body : List Call} {id : Nat}

theorem Quiet.ready (h : Quiet asked s s') : s'.sched.ready = s.sched.ready := by
  funext j
  have hget := congrArg (·[j]?) h.tasks
  rw [List.getElem?_map, List.getElem?_map] at hget
  unfold Sched.ready
  cases ht : s.sched.tasks[j]? with
  | none =>
    rw [ht] at hget
    rw [Option.map_eq_none_iff.mp hget]
  | some t =>
    rw [ht] at hget
    obtain ⟨t', ht', hstands⟩ := Option.map_eq_some_iff.mp hget
    rw [ht']
    have hstate := congrArg Prod.fst hstands
    have hentry := congrArg Prod.snd hstands
    show (t'.hasEntry && t'.state.runnable) = (t.hasEntry && t.state.runnable)
    rw [show t'.state = t.state from hstate, show t'.hasEntry = t.hasEntry from hentry]

theorem Quiet.length (h : Quiet asked s s') :
    s'.sched.tasks.length = s.sched.tasks.length := by
  have hlength := congrArg List.length h.tasks
  rwa [List.length_map, List.length_map] at hlength

theorem Quiet.onlyCurrent (h : Quiet asked s s') (honly : s.sched.OnlyCurrent) :
    s'.sched.OnlyCurrent := by
  intro j t' ht' hrun
  have hget := congrArg (·[j]?) h.tasks
  rw [List.getElem?_map, List.getElem?_map, ht'] at hget
  obtain ⟨t, ht, hstands⟩ := Option.map_eq_some_iff.mp hget.symm
  have hstate : t.state = t'.state := congrArg Prod.fst hstands
  rw [h.current]
  exact honly j t ht (hstate.trans hrun)

theorem runTask_spec (honly : s.sched.OnlyCurrent) (hid : s.runnable id = true)
    (hquiet : QuietEntry asked body) :
    (s.runTask body id).sched.ready = s.sched.ready ∧
      (s.runTask body id).sched.current =
        (if s.sched.rescheduleRequested || asked then
          nextReady s.sched.tasks.length s.sched.ready id else id) ∧
      (s.runTask body id).sched.rescheduleRequested = false ∧
      (s.runTask body id).sched.tasks.length = s.sched.tasks.length ∧
      (s.runTask body id).sched.OnlyCurrent := by
  obtain ⟨hready, hcurrent, hrequest, t, ht, hstate, hentry⟩ :=
    beginRun_spec honly hid
  have hrun : s.runTask body id =
      ((((s.call (.beginRun id)).calls body).call (.endRun id
        (((s.call (.beginRun id)).calls body).table
          ≠ (s.call (.beginRun id)).table))).call .maybeReschedule) := by
    unfold Scheduler.runTask
    rw [hid]
    rfl
  rw [hrun]
  have hin : (s.call (.beginRun id)).InEntry := by
    refine ⟨t, ?_, hstate, hentry⟩
    show (s.sched.beginRun id).tasks[(s.sched.beginRun id).current]? = some t
    rw [hcurrent]
    exact ht
  have hleft := hquiet _ hin
  generalize (s.call (.beginRun id)).calls body = left at hleft ⊢
  have hbegun : (s.call (.beginRun id)).sched = s.sched.beginRun id := rfl
  rw [decide_eq_false (not_not.mpr hleft.table)]
  have hchange := @beginRun_change (fun _ => True) s.sched id
  have hend := @endRun_change (fun _ => True) left.sched id false
  obtain ⟨hready', hcurrent', hrequest'⟩ := @endRun_spec left.sched id
  have honly' := hend.running (hleft.onlyCurrent (hchange.running honly))
  have hready' := hready'.trans (hleft.ready.trans hready)
  have hcurrent' := hcurrent'.trans (hleft.current.trans hcurrent)
  have hrequest' := hrequest'.trans hleft.request
  rw [hbegun, hrequest] at hrequest'
  have hlength : (left.sched.endRun id false).tasks.length
      = s.sched.tasks.length :=
    hend.length.trans (hleft.length.trans hchange.length)
  obtain ⟨h1, h2, h3, h4, h5⟩ := maybeReschedule_spec honly'
    (by rw [hready', hcurrent']; exact hid)
  rw [hready'] at h1
  rw [hready', hcurrent', hrequest', hlength] at h2
  exact ⟨h1, h2, h3, h4.trans hlength, h5⟩

end run

-- ==== the whole pass

section pass

variable {s : Scheduler} {asks : Nat → Bool} {bodies : List (List Call)}
  {budget : Nat}

/-- The tasks that the loop takes: not the idle task. -/
def eligible (s : Scheduler) (id : Nat) : Bool := id ≠ 0 && s.runnable id

/-- Where the pass goes on from behind its `k`-th run. -/
def goesOn (s : Scheduler) (asks : Nat → Bool) (k id : Nat) : Nat :=
  if (k = 0 && s.sched.rescheduleRequested) || asks k then
    nextReady s.sched.tasks.length s.sched.ready id
  else id

theorem dispatchRuns_eq {n : Nat} {ready : Nat → Bool} {go : Nat → Nat → Nat}
    {fuel left i k : Nat} {s : Scheduler} {bodies : List (List Call)} {b : Nat}
    (honly : s.sched.OnlyCurrent) (hn : s.sched.tasks.length = n)
    (hready : s.sched.ready = ready)
    (hgo : ∀ j, ∃ a, QuietEntry a (bodies.getD j []) ∧ ∀ id,
      go (k + j) id =
        if (j = 0 && s.sched.rescheduleRequested) || a then nextReady n ready id
        else id)
    (hleft : i + left = n) (hfuel : left ≤ fuel) :
    dispatchRuns fuel i b bodies s
      = Strides.walk n (fun id => id ≠ 0 && ready id) go left i b k
        s.sched.current := by
  induction left generalizing fuel i b k s bodies with
  | zero =>
    cases fuel with
    | zero => rfl
    | succ fuel =>
      unfold dispatchRuns Strides.walk
      rw [if_pos]
      rw [Bool.or_eq_true, decide_eq_true_iff]
      exact .inl (by omega)
  | succ left ih =>
    obtain ⟨fuel, rfl⟩ := Nat.exists_eq_add_one_of_ne_zero
      (Nat.ne_of_gt (Nat.lt_of_lt_of_le (Nat.succ_pos left) hfuel))
    have hi : ¬ s.sched.tasks.length ≤ i := by omega
    unfold dispatchRuns Strides.walk
    by_cases hb : b = 0
    · rw [if_pos hb, if_pos]
      rw [Bool.or_eq_true, decide_eq_true_iff, decide_eq_true_iff]
      exact .inr hb
    rw [if_neg hb, if_neg]
    swap
    · rw [Bool.or_eq_true, decide_eq_true_iff, decide_eq_true_iff]
      exact not_or.mpr ⟨hi, hb⟩
    dsimp only
    rw [hn]
    have hrunnable : s.runnable ((s.sched.current + i) % n)
        = ready ((s.sched.current + i) % n) := congrFun hready _
    generalize (s.sched.current + i) % n = id at hrunnable ⊢
    by_cases hid : (id ≠ 0 && ready id) = true
    · have hid' := hid
      rw [Bool.and_eq_true, decide_eq_true_iff] at hid'
      rw [if_pos hid, if_neg]
      swap
      · rw [Bool.or_eq_true, decide_eq_true_iff, hrunnable, hid'.2]
        exact not_or.mpr ⟨hid'.1, by decide⟩
      obtain ⟨a, hquiet, hgok⟩ := hgo 0
      have hhead : bodies.headD [] = bodies.getD 0 [] := by cases bodies <;> rfl
      rw [hhead]
      obtain ⟨h1, h2, h3, h4, h5⟩ :=
        runTask_spec honly (hrunnable.trans hid'.2) hquiet
      rw [hn, hready] at h2
      have hcurrent : (s.runTask (bodies.getD 0 []) id).sched.current = go k id := by
        rw [h2, show go k id = _ from hgok id]
        rfl
      congr 1
      rw [← hcurrent]
      refine ih h5 (h4.trans hn) (h1.trans hready) (fun j => ?_) (by omega) (by omega)
      obtain ⟨a', hquiet', hgo'⟩ := hgo (j + 1)
      refine ⟨a', ?_, fun id' => ?_⟩
      · cases bodies with
        | nil => exact hquiet'
        | cons _ _ => exact hquiet'
      · rw [h3, show k + 1 + j = k + (j + 1) by omega, hgo' id']
        simp
    · rw [if_neg hid, if_pos]
      · exact ih honly hn hready hgo (by omega) (by omega)
      · rw [Bool.and_eq_true, decide_eq_true_iff, not_and, Bool.not_eq_true] at hid
        rw [Bool.or_eq_true, decide_eq_true_iff, hrunnable]
        by_cases hzero : id = 0
        · exact .inl hzero
        · exact .inr (by rw [hid hzero]; rfl)

/-- A pass is fair exactly if the tasks that can run can be put into an order
with growing distances: each is the first one that is farther ahead, of where
the pass goes on from, than the one before it was, and there is none so far
ahead behind the last, unless the budget is used up. -/
theorem runsOnce_iff (hcount : s.sched.tasks.length ≤ 0xFFFFFFFF)
    (honly : s.sched.OnlyCurrent)
    (hquiet : ∀ k, QuietEntry (asks k) (bodies.getD k [])) :
    RunsOnce budget bodies s ↔
      ∃ order, Strides.Enumerates s.sched.tasks.length s.eligible order ∧
        Strides.Follows s.sched.tasks.length s.eligible (s.goesOn asks) budget 0
          s.sched.current 0 order := by
  have hruns : dispatchRuns 0xFFFFFFFF 0 budget bodies s
      = Strides.walk s.sched.tasks.length s.eligible (s.goesOn asks)
        s.sched.tasks.length 0 budget 0 s.sched.current := by
    refine dispatchRuns_eq honly rfl rfl (fun j => ⟨asks j, hquiet j, fun id => ?_⟩)
      (Nat.zero_add _) hcount
    rw [Nat.zero_add]
    rfl
  rw [← Strides.walk_once_iff, ← hruns]
  constructor
  · intro honce id _ helig
    unfold eligible at helig
    rw [Bool.and_eq_true, decide_eq_true_iff] at helig
    exact honce id helig.1 helig.2
  · intro honce id hid hrun
    obtain ⟨t, ht, -⟩ := ready_iff.mp hrun
    refine honce id (List.getElem?_eq_some_iff.mp ht).1 ?_
    unfold eligible
    rw [Bool.and_eq_true, decide_eq_true_iff]
    exact ⟨hid, hrun⟩

end pass

-- ==== three tasks

/-- A task that is ready, or not. -/
def readyTask (id : Nat) (ready : Bool) : Task :=
  ⟨id, if ready then .ready else .blocked, 1, 1, 0, true⟩

/-- The idle task and three others, the first of them current. -/
def threeTasks (first second third : Bool) : Scheduler :=
  ⟨⟨[⟨0, .ready, 1, 1, 0, false⟩, readyTask 1 first, readyTask 2 second,
      readyTask 3 third], 32, 32 * 160, 1, true, false, false⟩, 4, 4096⟩

theorem threeTasks_onlyCurrent (first second third : Bool) :
    (threeTasks first second third).sched.OnlyCurrent := by
  have hnone : ∀ t ∈ (threeTasks first second third).sched.tasks,
      t.state ≠ .running := by
    cases first <;> cases second <;> cases third <;> decide
  exact fun _ t ht hrun => absurd hrun (hnone t (List.mem_of_getElem? ht))

theorem threeTasks_runs :
    dispatchRuns 0xFFFFFFFF 0 defaultDispatchBudget [] (threeTasks true true true)
      = [1, 2, 1] := by
  decide +kernel

theorem threeTasks_not_fair :
    ¬ RunsOnce defaultDispatchBudget [] (threeTasks true true true) := by
  intro honce
  have hthird := honce 3 (by decide) (by decide)
  rw [threeTasks_runs] at hthird
  exact absurd hthird (by decide)

/-- A pass over the second task alone is fair. -/
theorem runsOnce_iff_second :
    RunsOnce defaultDispatchBudget [] (threeTasks false true false) := by
  have hquiet : ∀ k, QuietEntry false (([] : List (List Call)).getD k []) :=
    fun _ => quietEntry_nil
  refine (@runsOnce_iff (threeTasks false true false) (fun _ => false) [] _
    (by decide) (threeTasks_onlyCurrent false true false) hquiet).mpr
    ⟨[2], ⟨by decide, fun id => ?_⟩, by decide, by decide, by decide, .inr ?_⟩
  · rw [List.mem_singleton]
    constructor
    · intro h
      rw [h]
      decide
    · intro h
      obtain ⟨hlt, helig⟩ := h
      have hall : ∀ id < 4, (threeTasks false true false).eligible id = true →
          id = 2 := by decide
      exact hall id hlt helig
  · decide

end Scheduler

end Clks.Exec
