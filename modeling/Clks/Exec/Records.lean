/-
What an event does to the record of a process.

The body of a record is what it is apart from the waiting and the last
signal of its process. An event changes the bodies of few records: of one
that it creates, runs, or signals, or of the one whose run it ends. Each of
the others keeps its body, whatever else the event does.
-/
import Clks.Exec.Balance
import Clks.Exec.Rested

namespace Clks.Exec

/-- A record without its wait, its task and its last signal. -/
structure Body where
  card : Card
  ppid : UInt64
  exitStatus : UInt64
  ttyIndex : Nat
  userVmAreas : List VmArea
  assets : Assets
  user : Identity
  savedFrameValid : Bool

/-- The body of a record. -/
def Proc.body (p : Proc) : Body where
  card := p.card
  ppid := p.ppid
  exitStatus := p.exitStatus
  ttyIndex := p.ttyIndex
  userVmAreas := p.userVmAreas
  assets := p.assets
  user := p.user
  savedFrameValid := p.savedFrameValid

/-- The bodies of all records. -/
def Kernel.bodies (k : Kernel) (i : Fin maxProcs) : Body := (k.procs i).body

/-- The event may change the body of the record. -/
inductive Kernel.Concerns (a : Answers) (k : Kernel) :
    Event → Fin maxProcs → Prop
  | exec {path : List UInt8} {io : Stdio} {i : Fin maxProcs} :
      k.allocSlot = some i → Concerns a k (.exec path io) i
  | spawn {path : List UInt8} {i : Fin maxProcs} :
      k.allocSlot = some i → Concerns a k (.spawn path) i
  | call {e : Event} {i : Fin maxProcs} {kc : Kernel} :
      k.Calls a e i kc → Concerns a k e i
  | kill {pid signal : UInt64} {i : Fin maxProcs} :
      k.findSlotByPid pid = some i → Concerns a k (.kill pid signal) i
  | suspend {i : Fin maxProcs} : k.currentProc = some i →
      (k.procs i).state = .running → Concerns a k .suspend i
  | vm {areas : List VmArea} {i : Fin maxProcs} :
      k.currentProc = some i → Concerns a k (.vm areas) i
  | finish {callRet : UInt64} {i : Fin maxProcs} :
      k.runners.head? = some i → Concerns a k (.finish callRet) i
  | suspended {i : Fin maxProcs} :
      k.runners.head? = some i → Concerns a k .suspend i
  | fault {vector errorCode rip : UInt64} {i : Fin maxProcs} :
      k.runners.head? = some i → Concerns a k (.fault vector errorCode rip) i

section records

variable {k k' k'' : Kernel} {i j : Fin maxProcs} {a : Answers} {e : Event}
  {got : Option Nat} {callRet : UInt64} {prevCr3 : Nat} {switched : Bool}
  {level : Level}

-- ==== bodies

theorem bodies_of_procs (h : k'.procs = k.procs) : k'.bodies = k.bodies := by
  unfold Kernel.bodies
  rw [h]

theorem bodies_same {p : Proc} (h : k'.procs = Function.update k.procs i p)
    (hp : p.body = (k.procs i).body) : k'.bodies = k.bodies := by
  funext j
  unfold Kernel.bodies
  rw [h]
  by_cases hj : j = i
  · subst hj
    rw [Function.update_self]
    exact hp
  · rw [Function.update_of_ne hj]

theorem bodies_modifyProc {f : Proc → Proc} (hf : ∀ p, (f p).body = p.body) :
    (k.modifyProc i f).bodies = k.bodies :=
  bodies_same rfl (hf _)

@[simp]
theorem bodies_syncSchedulerState (got : Option Nat) (k : Kernel)
    (i : Fin maxProcs) : (k.syncSchedulerState got i).bodies = k.bodies := by
  obtain ⟨id, sched, heapUsed, h⟩ := syncSchedulerState_form got k i
  rw [h]
  exact bodies_same rfl rfl

@[simp]
theorem bodies_setBlock (got : Option Nat) (k : Kernel) (i : Fin maxProcs)
    (reason : BlockReason) (wakeTick waitTargetPid : UInt64) :
    (k.setBlock got i reason wakeTick waitTargetPid).bodies = k.bodies := by
  unfold Kernel.setBlock
  rw [bodies_syncSchedulerState]
  exact bodies_same rfl rfl

@[simp]
theorem bodies_clearBlock (got : Option Nat) (k : Kernel) (i : Fin maxProcs) :
    (k.clearBlock got i).bodies = k.bodies := by
  unfold Kernel.clearBlock
  rw [bodies_syncSchedulerState]
  exact bodies_same rfl rfl

@[simp]
theorem bodies_returned (a : Answers) (ok : Bool) (status : UInt64) (k : Kernel) :
    (k.returned a ok status).bodies = k.bodies := by
  unfold Kernel.returned
  split
  · rfl
  · simp only []
    split
    · rfl
    · rw [bodies_clearBlock]
      exact bodies_same rfl rfl
  · split <;> rfl
  · rfl

@[simp]
theorem bodies_modifyLevel (f : Level → Level) (k : Kernel) :
    (k.modifyLevel f).bodies = k.bodies := by
  unfold Kernel.modifyLevel
  split <;> rfl

theorem Kernel.Touches.bodies (h : k.Touches i k') (hj : j ≠ i) :
    k'.bodies j = k.bodies j :=
  congrArg Proc.body (h.others j hj)

-- ==== runs

theorem runSlot_bodies (hj : j ≠ i) : (k.runSlot a i).bodies j = k.bodies j := by
  have hbegin := (@runBegin_touches k i a).bodies hj
  unfold Kernel.runSlot
  generalize k.runBegin a i = r at hbegin ⊢
  obtain ⟨_ | _, k1⟩ := r
  · exact (congrFun (bodies_returned a false failed k1) j).trans hbegin
  · exact hbegin

theorem leave_procs (prevCr3 : Nat) (switched : Bool) (k : Kernel) :
    (k.leave prevCr3 switched).procs = k.procs :=
  leave_aside.procs

theorem runReturn_others (hj : j ≠ i) :
    (k.runReturn a callRet i prevCr3 switched level).2.procs j
      = k.procs j :=
  (parts_touches (runReturn_parts rfl)).others j hj

theorem endRun_bodies (hend : k.endRun a callRet = some k')
    (hj : k.runners.head? ≠ some j) : k'.bodies j = k.bodies j := by
  unfold Kernel.endRun at hend
  split at hend
  swap
  · cases hend
  next i prevCr3 switched frames level levels hframes hstack =>
  obtain rfl := Option.some.inj hend
  have hne : j ≠ i := by
    intro heq
    apply hj
    unfold Kernel.runners
    rw [hframes, heq]
    rfl
  rw [runEnd_eq, bodies_returned]
  exact congrArg Proc.body (runReturn_others hne)

-- ==== events

theorem stdio_bodies {path : List UInt8} {io : Stdio} {ready : Bool}
    {k1 : Kernel}
    (hstdio : (k.allocPid.2.prepareProcRecord a i k.allocPid.1 path
      .running).applyStdioOverrides i k.currentProc io = (ready, k1))
    (hne : j ≠ i) : k1.bodies j = k.bodies j := by
  have htouches := (@applyStdioOverrides_touches
    (k.allocPid.2.prepareProcRecord a i k.allocPid.1 path .running) i
    k.currentProc io).bodies hne
  rw [hstdio] at htouches
  obtain ⟨next, halloc⟩ := allocPid_eq k
  rw [htouches, prepareProcRecord_touches.bodies hne, halloc]
  rfl

/-- A record that the event does not concern keeps its body. -/
theorem step_bodies (hstep : k.step a e = some k')
    (hj : ¬ k.Concerns a e j) : k'.bodies j = k.bodies j := by
  have hne : ∀ {i}, k.Concerns a e i → j ≠ i := fun hi hji => hj (hji ▸ hi)
  cases step_comes hstep with
  | idle => rfl
  | @run _ i kc hcall =>
    have hbodies : kc.bodies j = k.bodies j := by
      cases hcall with
      | exec _ _ hslot hstdio =>
        have hbodies := stdio_bodies hstdio (hne (.exec hslot))
        exact hbodies
      | waitPid _ _ =>
        show (k.markWaiting a _).bodies j = k.bodies j
        unfold Kernel.markWaiting
        split
        · rfl
        · rw [bodies_setBlock, bodies_modifyProc]
          intro p
          rfl
      | dispatch _ =>
        show (k.wake a i).bodies j = k.bodies j
        unfold Kernel.wake
        simp only []
        split
        · rw [bodies_clearBlock]
          rfl
        · rfl
      | resume _ => rfl
    rw [runSlot_bodies, hbodies]
    exact hne (.call hcall)
  | refused _ hslot hstdio =>
    have hi := hne (.exec hslot)
    refine Eq.trans ?_ (stdio_bodies hstdio hi)
    exact (modifyProc_touches.bodies hi).trans
      (fdReleaseAll_touches.bodies hi)
  | spawn _ hslot =>
    obtain ⟨next, halloc⟩ := allocPid_eq k
    refine (prepareProcRecord_touches.bodies (hne (.spawn hslot))).trans ?_
    rw [halloc]
    rfl
  | requestExit => exact congrFun (bodies_modifyLevel ..) j
  | @kill pid signal =>
    rcases procKill_cases k a pid signal with
      heq | ⟨i, s, -, hfound, -, hsignal⟩
    · rw [heq]
    have hi := hne (.kill hfound)
    have hbodies : (k.modifyProc i (Proc.signalled s)).bodies j = k.bodies j :=
      modifyProc_touches.bodies hi
    generalize (k.procKill a pid signal).2 = k2 at hsignal ⊢
    generalize k.modifyProc i (Proc.signalled s) = k1 at hsignal hbodies
    refine Eq.trans ?_ hbodies
    cases hsignal with
    | nothing => rfl
    | continues _ => exact setState_touches.bodies hi
    | stops _ => exact setState_touches.bodies hi
    | ends _ _ _ => exact markExited_touches.bodies hi
    | asks => exact congrFun (bodies_modifyLevel ..) j
  | block _ => rw [bodies_setBlock]
  | unblock _ => rw [bodies_clearBlock]
  | vm hcurrent =>
    exact modifyProc_touches.bodies (hne (.vm hcurrent))
  | dlOpen => exact congrFun (bodies_of_procs dlOpen_aside.procs) j
  | dlClose => exact congrFun (bodies_of_procs dlClose_aside.procs) j
  | finish hend => exact endRun_bodies hend fun hhead => hj (.finish hhead)
  | @suspend k1 _ hsuspend hend =>
    have hhead : k1.runners.head? ≠ some j := by
      rw [Kernel.runners, (suspendCurrent_calm hsuspend).1.frames]
      exact fun hhead => hj (.suspended hhead)
    refine (endRun_bodies hend hhead).trans ?_
    obtain ⟨i, hcurrent, hstate, hk1⟩ := suspendCurrent_cases hsuspend
    have hi := hne (.suspend hcurrent hstate)
    rcases hk1 with rfl | rfl
    · exact modifyProc_touches.bodies hi
    · rw [bodies_setBlock]
      exact modifyProc_touches.bodies hi
  | @fault _ _ _ _ k1 _ hfault hend =>
    have hhead : k1.runners.head? ≠ some j := by
      rw [Kernel.runners, (handleException_quiet hfault).frames]
      exact fun hhead => hj (.fault hhead)
    refine (endRun_bodies hend hhead).trans ?_
    obtain ⟨i, -, -, rfl⟩ := handleException_cases hfault
    refine (congrFun (bodies_modifyLevel ..) j).trans ?_
    refine congrFun (bodies_modifyProc ?_) j
    intro p
    rfl
  | timer => rfl

end records

end Clks.Exec
