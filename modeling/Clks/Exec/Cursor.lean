/-
The cursor of the dispatcher.

Only `clks_exec_dispatch_pending_once` moves it, behind the slot that it has
chosen.
-/
import Clks.Exec.Parts

namespace Clks.Exec

section cursor

variable {k k' : Kernel} {i : Fin maxProcs} {a : Answers} {e : Event}
  {got : Option Nat} {status pid : UInt64} {ok : Bool}
  {H : Fin maxProcs → Prop}

-- ==== parts

@[simp]
theorem cursor_syncSchedulerState :
    (k.syncSchedulerState got i).dispatchCursor = k.dispatchCursor := by
  obtain ⟨id, sched, heapUsed, h⟩ := syncSchedulerState_form got k i
  rw [h]
  rfl

@[simp]
theorem cursor_setState {state : ProcState} {threadState : ThreadState}
    {reason : BlockReason} :
    (k.setState got i state threadState reason).dispatchCursor
      = k.dispatchCursor :=
  cursor_syncSchedulerState

@[simp]
theorem cursor_setBlock {reason : BlockReason}
    {wakeTick waitTargetPid : UInt64} :
    (k.setBlock got i reason wakeTick waitTargetPid).dispatchCursor
      = k.dispatchCursor :=
  cursor_syncSchedulerState

@[simp]
theorem cursor_clearBlock :
    (k.clearBlock got i).dispatchCursor = k.dispatchCursor :=
  cursor_syncSchedulerState

@[simp]
theorem cursor_releaseAddressSpace :
    (k.releaseAddressSpace i).dispatchCursor = k.dispatchCursor := by
  obtain ⟨freeStack, spaces, currentCr3, h⟩ := releaseAddressSpace_form k i
  rw [h]
  rfl

@[simp]
theorem cursor_markExited :
    (k.markExited a i status).dispatchCursor = k.dispatchCursor := by
  unfold Kernel.markExited
  refine cursor_setState.trans ?_
  exact cursor_releaseAddressSpace (k := k.releaseRuntime i)

theorem cursor_prepareProcRecord {path : List UInt8} {state : ProcState} :
    (k.prepareProcRecord a i pid path state).dispatchCursor
      = k.dispatchCursor := by
  unfold Kernel.prepareProcRecord
  simp only []
  have hbind : ∀ (got : Option Nat) (k : Kernel),
      (k.bindSchedulerTask got i).2.dispatchCursor = k.dispatchCursor := by
    intro got k
    obtain ⟨id, sched, heapUsed, h⟩ := bindSchedulerTask_form got k i
    rw [h]
    rfl
  have hcreate : ∀ k : Kernel,
      k.createAddressSpace.2.dispatchCursor = k.dispatchCursor := by
    intro k
    obtain ⟨freeStack, spaces, h⟩ := createAddressSpace_form k
    rw [h]
  refine (hbind _ _).trans (cursor_setState.trans ((hcreate _).trans ?_))
  exact cursor_releaseAddressSpace (k := k.releaseRuntime i)

theorem cursor_applyStdioOverrides {parent : Option (Fin maxProcs)}
    {io : Stdio} :
    (k.applyStdioOverrides i parent io).2.dispatchCursor
      = k.dispatchCursor := by
  apply applyStdioOverrides_ind (motive := fun k1 =>
    k1.dispatchCursor = k.dispatchCursor)
  · intro k1 fd childFd read write hk1
    obtain ⟨ptys, fds, heq⟩ :=
      @fdCopyFromParent_eq k1 i parent fd childFd read write
    rw [heq]
    exact hk1
  · rfl

theorem cursor_returned :
    (k.returned a ok status).dispatchCursor = k.dispatchCursor := by
  unfold Kernel.returned
  split
  · rfl
  · simp only []
    split
    · rfl
    · exact cursor_clearBlock
  · split <;> rfl
  · rfl

theorem cursor_part (h : Kernel.Part H a k k') :
    k'.dispatchCursor = k.dispatchCursor := by
  cases h with
  | aside haside => exact haside.cursor
  | push _ => rfl
  | pop _ => rfl
  | note _ _ => rfl
  | runtime _ => rfl
  | space _ => exact cursor_releaseAddressSpace
  | state _ _ => exact cursor_setState
  | exited _ => exact cursor_markExited
  | block _ => exact cursor_setBlock
  | unblock _ => exact cursor_clearBlock
  | timer => rfl

theorem cursor_parts (h : Kernel.Parts H a k k') :
    k'.dispatchCursor = k.dispatchCursor := by
  induction h with
  | refl => rfl
  | tail _ hpart ih => exact (cursor_part hpart).trans ih

theorem cursor_does (h : k.Does a k') :
    k'.dispatchCursor = k.dispatchCursor := by
  cases h with
  | parts hparts => exact cursor_parts hparts
  | returns hparts => exact cursor_returned.trans (cursor_parts hparts)

-- ==== events

theorem cursor_dispatch (hpending : k.nextPending a = some i) :
    (k.dispatchPendingOnce a).dispatchCursor = (i.val + 1) % maxProcs :=
  cursor_does (dispatch_does hpending)

theorem cursor_created {path : List UInt8} {state : ProcState} :
    (k.allocPid.2.prepareProcRecord a i pid path state).dispatchCursor
      = k.dispatchCursor := by
  obtain ⟨next, halloc⟩ := allocPid_eq k
  rw [cursor_prepareProcRecord, halloc]

theorem cursor_step (hstep : k.step a e = some k')
    (hpass : e = .dispatch → k.nextPending a = none) :
    k'.dispatchCursor = k.dispatchCursor := by
  have hstdio : ∀ {path : List UInt8} {io : Stdio} {i ready k1},
      (k.allocPid.2.prepareProcRecord a i k.allocPid.1 path
        .running).applyStdioOverrides i k.currentProc io = (ready, k1) →
      k1.dispatchCursor = k.dispatchCursor := by
    intro path io i ready k1 hstdio
    have hcopied := @cursor_applyStdioOverrides
      (k.allocPid.2.prepareProcRecord a i k.allocPid.1 path .running) i
      k.currentProc io
    rw [hstdio] at hcopied
    exact hcopied.trans cursor_created
  cases step_outcome hstep with
  | does hdoes => exact cursor_does hdoes
  | dispatch hpending _ => exact nomatch (hpass rfl).symm.trans hpending
  | spawn _ _ => exact cursor_created
  | exec _ _ happlied hdoes =>
    have hprepared := hstdio happlied
    exact (cursor_does hdoes).trans hprepared
  | refused _ _ hrefused =>
    have hprepared := hstdio hrefused
    exact hprepared

end cursor

end Clks.Exec
