/-
Whose address space is active.

A desk is what running a program has to bring back: the active address
space and the count of runs, with the spaces that the processes have and the
pages that are free. The spaces of two processes are never the same page, so
that releasing one of them leaves the active one alone, unless it is the
released one.
-/
import Clks.Exec.Framed

namespace Clks.Exec

/-- The address spaces of the processes, and the count of runs. -/
structure Desk where
  cr3s : Fin maxProcs → Nat
  freeStack : List Nat
  kernelCr3 : Nat
  currentCr3 : Nat
  runningDepth : Nat

/-- The desk of the kernel. -/
def Kernel.desk (k : Kernel) : Desk where
  cr3s := fun i => (k.procs i).addressSpaceCr3
  freeStack := k.freeStack
  kernelCr3 := k.kernelCr3
  currentCr3 := k.currentCr3
  runningDepth := k.runningDepth

/-- The process has an address space of its own. -/
def Desk.Private (d : Desk) (i : Fin maxProcs) : Prop :=
  d.kernelCr3 ≠ 0 ∧ d.cr3s i ≠ 0 ∧ d.cr3s i ≠ d.kernelCr3

instance (d : Desk) (i : Fin maxProcs) : Decidable (d.Private i) :=
  inferInstanceAs (Decidable (_ ∧ _ ∧ _))

/-- The process gives its address space back. -/
def Desk.release (i : Fin maxProcs) (d : Desk) : Desk :=
  if d.Private i then
    { d with
      cr3s := Function.update d.cr3s i 0
      freeStack := freePage (d.cr3s i) d.freeStack
      currentCr3 :=
        if d.currentCr3 = d.cr3s i then d.kernelCr3 else d.currentCr3 }
  else { d with cr3s := Function.update d.cr3s i 0 }

/-- The process gets an address space, or shares the kernel's. -/
def Desk.house (i : Fin maxProcs) (d : Desk) : Desk :=
  match d.freeStack with
  | [] => { d with cr3s := Function.update d.cr3s i d.kernelCr3 }
  | page :: freeStack =>
    if d.kernelCr3 = 0 then
      { d with cr3s := Function.update d.cr3s i d.kernelCr3 }
    else { d with cr3s := Function.update d.cr3s i page, freeStack }

/-- The address space that the process is run in. -/
def Desk.target (d : Desk) (i : Fin maxProcs) : Nat :=
  if d.cr3s i ≠ 0 then d.cr3s i else d.kernelCr3

/-- Is the active address space left for it? -/
def Desk.switches (d : Desk) (i : Fin maxProcs) : Bool :=
  !(d.target i = 0 || d.currentCr3 = 0 || d.target i = d.currentCr3)

/-- The process is run, and its address space is active. -/
def Desk.enter (i : Fin maxProcs) (d : Desk) : Desk :=
  { d with
    currentCr3 := if d.switches i then d.target i else d.currentCr3 }

/-- The address space before the run is active again. -/
def Desk.leave (prevCr3 : Nat) (switched : Bool) (d : Desk) : Desk :=
  if switched && prevCr3 ≠ 0 then { d with currentCr3 := prevCr3 } else d

section spaces

variable {k k' : Kernel} {d : Desk} {i j : Fin maxProcs} {f : Proc → Proc}
  {a : Answers} {prevCr3 : Nat} {switched : Bool} {status : UInt64}

-- ==== records

theorem desk_same {p : Proc} (h : k'.procs = Function.update k.procs i p)
    (hp : p.addressSpaceCr3 = (k.procs i).addressSpaceCr3)
    (hfree : k'.freeStack = k.freeStack) (hkernel : k'.kernelCr3 = k.kernelCr3)
    (hcurrent : k'.currentCr3 = k.currentCr3)
    (hdepth : k'.runningDepth = k.runningDepth) : k'.desk = k.desk := by
  unfold Kernel.desk
  rw [h, hfree, hkernel, hcurrent, hdepth]
  congr 1
  funext j
  by_cases hj : j = i
  · subst hj
    rw [Function.update_self]
    exact hp
  · rw [Function.update_of_ne hj]

theorem desk_modifyProc (hf : ∀ p, (f p).addressSpaceCr3 = p.addressSpaceCr3) :
    (k.modifyProc i f).desk = k.desk :=
  desk_same rfl (hf _) rfl rfl rfl rfl

theorem desk_modifyProc_cr3 {cr3 : Nat}
    (hf : (f (k.procs i)).addressSpaceCr3 = cr3) :
    (k.modifyProc i f).desk
      = { k.desk with cr3s := Function.update k.desk.cr3s i cr3 } := by
  unfold Kernel.desk
  congr 1
  funext j
  by_cases hj : j = i
  · subst hj
    rw [modifyProc_self, Function.update_self]
    exact hf
  · rw [modifyProc_other _ _ hj, Function.update_of_ne hj]

-- ==== parts

@[simp]
theorem desk_releaseRuntime (k : Kernel) (i : Fin maxProcs) :
    (k.releaseRuntime i).desk = k.desk := by
  unfold Kernel.releaseRuntime
  exact desk_same rfl rfl rfl rfl rfl rfl

@[simp]
theorem desk_fdReleaseAll (k : Kernel) (i : Fin maxProcs) :
    (k.fdReleaseAll i).desk = k.desk := by
  unfold Kernel.fdReleaseAll
  exact desk_same rfl rfl rfl rfl rfl rfl

theorem desk_releaseAddressSpace (k : Kernel) (i : Fin maxProcs) :
    (k.releaseAddressSpace i).desk = k.desk.release i := by
  unfold Kernel.releaseAddressSpace Desk.release
  simp only []
  by_cases hcr3 : (k.procs i).addressSpaceCr3 = 0
  · rw [if_pos hcr3, if_neg fun h => h.2.1 hcr3]
    show k.desk = { k.desk with cr3s := Function.update k.desk.cr3s i 0 }
    rw [Function.update_eq_self_iff.mpr hcr3.symm]
  rw [if_neg hcr3]
  by_cases hown : k.desk.Private i
  · have hkernel : k.kernelCr3 ≠ 0 := hown.1
    have hother : (k.procs i).addressSpaceCr3 ≠ k.kernelCr3 := hown.2.2
    rw [if_pos hown, if_pos (by simp [hkernel, hother]),
      desk_modifyProc_cr3 rfl]
    unfold Kernel.destroyAddressSpace
    rw [if_neg (by simp [hcr3, hother])]
    simp only [hkernel, ne_eq, not_false_eq_true, decide_true, Bool.and_true,
      decide_eq_true_eq]
    rfl
  · rw [if_neg hown, if_neg, desk_modifyProc_cr3 rfl]
    intro hdestroy
    simp only [ne_eq, Bool.and_eq_true, decide_eq_true_eq] at hdestroy
    exact hown ⟨hdestroy.1, hcr3, hdestroy.2⟩

@[simp]
theorem desk_bindSchedulerTask (got : Option Nat) (k : Kernel)
    (i : Fin maxProcs) : (k.bindSchedulerTask got i).2.desk = k.desk := by
  obtain ⟨id, sched, heapUsed, h⟩ := bindSchedulerTask_form got k i
  rw [h]
  exact desk_same rfl rfl rfl rfl rfl rfl

@[simp]
theorem desk_syncSchedulerState (got : Option Nat) (k : Kernel)
    (i : Fin maxProcs) : (k.syncSchedulerState got i).desk = k.desk := by
  obtain ⟨id, sched, heapUsed, h⟩ := syncSchedulerState_form got k i
  rw [h]
  exact desk_same rfl rfl rfl rfl rfl rfl

@[simp]
theorem desk_setState (got : Option Nat) (k : Kernel) (i : Fin maxProcs)
    (state : ProcState) (threadState : ThreadState) (reason : BlockReason) :
    (k.setState got i state threadState reason).desk = k.desk := by
  unfold Kernel.setState
  rw [desk_syncSchedulerState]
  apply desk_modifyProc
  intro p
  dsimp only
  split <;> rfl

@[simp]
theorem desk_setBlock (got : Option Nat) (k : Kernel) (i : Fin maxProcs)
    (reason : BlockReason) (wakeTick waitTargetPid : UInt64) :
    (k.setBlock got i reason wakeTick waitTargetPid).desk = k.desk := by
  unfold Kernel.setBlock
  rw [desk_syncSchedulerState]
  exact desk_same rfl rfl rfl rfl rfl rfl

@[simp]
theorem desk_clearBlock (got : Option Nat) (k : Kernel) (i : Fin maxProcs) :
    (k.clearBlock got i).desk = k.desk := by
  unfold Kernel.clearBlock
  rw [desk_syncSchedulerState]
  exact desk_same rfl rfl rfl rfl rfl rfl

@[simp]
theorem desk_dynlibReleaseOwner (pid : UInt64) (k : Kernel) :
    (k.dynlibReleaseOwner pid).desk = k.desk := by
  unfold Kernel.dynlibReleaseOwner
  split <;> rfl

@[simp]
theorem desk_leave (prevCr3 : Nat) (switched : Bool) (k : Kernel) :
    (k.leave prevCr3 switched).desk = k.desk.leave prevCr3 switched := by
  unfold Kernel.leave Kernel.restoreAddressSpace Desk.leave
  split <;> rfl

@[simp]
theorem desk_loadProgram (a : Answers) (i : Fin maxProcs) (k : Kernel) :
    (k.loadProgram a i).2.desk = k.desk := by
  unfold Kernel.loadProgram
  split
  · rfl
  simp only []
  split
  · exact desk_releaseRuntime k i
  split
  · exact desk_releaseRuntime k i
  · dsimp only
    rw [desk_modifyProc]
    · exact desk_releaseRuntime k i
    · intro p
      rfl

@[simp]
theorem desk_invokeEntry (a : Answers) (i : Fin maxProcs) (k : Kernel) :
    (k.invokeEntry a i).2.desk = k.desk := by
  unfold Kernel.invokeEntry
  split
  · rfl
  split
  · rfl
  · exact desk_same rfl rfl rfl rfl rfl rfl

@[simp]
theorem desk_modifyLevel (f : Level → Level) (k : Kernel) :
    (k.modifyLevel f).desk = k.desk := by
  unfold Kernel.modifyLevel
  split <;> rfl

@[simp]
theorem desk_returned (a : Answers) (ok : Bool) (status : UInt64) (k : Kernel) :
    (k.returned a ok status).desk = k.desk := by
  unfold Kernel.returned
  split
  · rfl
  · simp only []
    split
    · rfl
    · rw [desk_clearBlock]
      exact desk_same rfl rfl rfl rfl rfl rfl
  · split <;> rfl
  · rfl

@[simp]
theorem desk_fdCopyFromParent (child : Fin maxProcs)
    (parent : Option (Fin maxProcs)) (fd : UInt64) (childFd : Fin fdMax)
    (read write : Bool) (k : Kernel) :
    (k.fdCopyFromParent child parent fd childFd read write).2.desk
      = k.desk := by
  obtain ⟨ptys, fds, heq⟩ :=
    @fdCopyFromParent_eq k child parent fd childFd read write
  rw [heq]
  exact desk_same rfl rfl rfl rfl rfl rfl

@[simp]
theorem desk_applyStdioOverrides (child : Fin maxProcs)
    (parent : Option (Fin maxProcs)) (io : Stdio) (k : Kernel) :
    (k.applyStdioOverrides child parent io).2.desk = k.desk := by
  apply applyStdioOverrides_ind (motive := fun k' => k'.desk = k.desk)
  · intro k1 fd childFd read write h
    rw [desk_fdCopyFromParent]
    exact h
  · rfl

@[simp]
theorem desk_markExited (a : Answers) (i : Fin maxProcs) (status : UInt64)
    (k : Kernel) : (k.markExited a i status).desk = k.desk.release i := by
  unfold Kernel.markExited
  rw [desk_modifyProc, desk_setState, desk_fdReleaseAll,
    desk_releaseAddressSpace, desk_releaseRuntime]
  intro p
  rfl

-- ==== the desk

/-- Own spaces are apart, and none of them is free. -/
structure Desk.Housed (d : Desk) : Prop where
  apart : ∀ i j, d.Private i → d.cr3s i = d.cr3s j → i = j
  taken : ∀ i, d.Private i → d.cr3s i ∉ d.freeStack
  nodup : d.freeStack.Nodup
  pages : ∀ page ∈ d.freeStack, page ≠ 0 ∧ page ≠ d.kernelCr3

/-- The address space that is active, by the runs behind it: a run that has
left the one before it is in its own, or in the kernel's, and a run that has
not has none to release. -/
def Desk.Active (d : Desk) (cr3 : Nat) : List Frame → Prop
  | [] => cr3 = d.kernelCr3
  | .entry i prevCr3 switched :: frames =>
    d.Active prevCr3 frames ∧
      if switched then
        prevCr3 ≠ 0 ∧ cr3 ≠ 0 ∧ (cr3 = d.cr3s i ∨ cr3 = d.kernelCr3)
      else cr3 = prevCr3 ∧ ¬ d.Private i
  | _ :: frames => d.Active cr3 frames

theorem Desk.private_update {cr3 : Nat} (hcr3 : cr3 = 0 ∨ cr3 = d.kernelCr3) :
    Desk.Private { d with cr3s := Function.update d.cr3s i cr3 } j ↔
      j ≠ i ∧ d.Private j := by
  by_cases hj : j = i
  · subst hj
    unfold Desk.Private
    simp only [Function.update_self]
    constructor
    · intro h
      rcases hcr3 with hcr3 | hcr3
      · exact absurd hcr3 h.2.1
      · exact absurd hcr3 h.2.2
    · exact fun h => absurd rfl h.1
  · unfold Desk.Private
    simp only [Function.update_of_ne hj]
    exact ⟨fun h => ⟨hj, h⟩, And.right⟩

theorem Desk.Housed.share {cr3 : Nat} (h : d.Housed)
    (hcr3 : cr3 = 0 ∨ cr3 = d.kernelCr3) :
    Desk.Housed { d with cr3s := Function.update d.cr3s i cr3 } := by
  refine ⟨?_, ?_, h.nodup, h.pages⟩
  · intro j l hown heq
    have hown' := (Desk.private_update hcr3).mp hown
    have hj : Function.update d.cr3s i cr3 j = d.cr3s j :=
      Function.update_of_ne hown'.1 ..
    by_cases hl : l = i
    · subst hl
      have hself : Function.update d.cr3s l cr3 l = cr3 :=
        Function.update_self ..
      have hcr3' : d.cr3s j = cr3 := hj.symm.trans (heq.trans hself)
      rcases hcr3 with hcr3 | hcr3
      · exact absurd (hcr3'.trans hcr3) hown'.2.2.1
      · exact absurd (hcr3'.trans hcr3) hown'.2.2.2
    · have hother : Function.update d.cr3s i cr3 l = d.cr3s l :=
        Function.update_of_ne hl ..
      exact h.apart j l hown'.2 (hj.symm.trans (heq.trans hother))
  · intro j hown
    have hown' := (Desk.private_update hcr3).mp hown
    have hj : Function.update d.cr3s i cr3 j = d.cr3s j :=
      Function.update_of_ne hown'.1 ..
    show Function.update d.cr3s i cr3 j ∉ d.freeStack
    rw [hj]
    exact h.taken j hown'.2

theorem mem_freePage {page page' : Nat} {freeStack : List Nat}
    (h : page' ∈ freePage page freeStack) : page' = page ∨ page' ∈ freeStack := by
  unfold freePage at h
  split at h
  · exact .inr h
  · exact List.mem_cons.mp h

theorem nodup_freePage {page : Nat} {freeStack : List Nat}
    (h : freeStack.Nodup) (hpage : page ∉ freeStack) :
    (freePage page freeStack).Nodup := by
  unfold freePage
  split
  · exact h
  · exact List.nodup_cons.mpr ⟨hpage, h⟩

theorem Desk.Housed.release (h : d.Housed) (i : Fin maxProcs) :
    (d.release i).Housed := by
  have hshare : Desk.Housed { d with cr3s := Function.update d.cr3s i 0 } :=
    h.share (.inl rfl)
  unfold Desk.release
  split
  · next hown =>
    refine ⟨hshare.apart, ?_, nodup_freePage h.nodup (h.taken i hown), ?_⟩
    · intro j hj hmem
      have hj' := (Desk.private_update (.inl rfl)).mp hj
      rcases mem_freePage hmem with hpage | hmem
      · have hcr3 : Function.update d.cr3s i 0 j = d.cr3s j :=
          Function.update_of_ne hj'.1 ..
        exact hj'.1 (h.apart j i hj'.2 (hcr3.symm.trans hpage))
      · exact hshare.taken j hj hmem
    · intro page hmem
      rcases mem_freePage hmem with rfl | hmem
      · exact hown.2
      · exact h.pages page hmem
  · exact hshare

theorem Desk.Housed.house (h : d.Housed) (i : Fin maxProcs) :
    (d.house i).Housed := by
  unfold Desk.house
  split
  · exact h.share (.inr rfl)
  next page freeStack hfree =>
  split
  · exact h.share (.inr rfl)
  next hkernel =>
  have hnodup := h.nodup
  have hpages := h.pages
  rw [hfree] at hnodup hpages
  obtain ⟨hfresh, hnodup⟩ := List.nodup_cons.mp hnodup
  -- no other process has the page
  have hnew : ∀ j, d.cr3s j ≠ page := by
    intro j hj
    have hown : d.Private j := by
      refine ⟨hkernel, ?_⟩
      rw [hj]
      exact hpages page List.mem_cons_self
    apply h.taken j hown
    rw [hj, hfree]
    exact List.mem_cons_self
  have hother : ∀ j, j ≠ i → Desk.Private
      { d with cr3s := Function.update d.cr3s i page, freeStack } j →
      d.Private j := by
    intro j hj hown
    unfold Desk.Private at hown ⊢
    simp only [Function.update_of_ne hj] at hown
    exact hown
  refine ⟨?_, ?_, hnodup, fun p hp => hpages p (List.mem_cons_of_mem page hp)⟩
  · intro j l hown heq
    change Function.update d.cr3s i page j = Function.update d.cr3s i page l
      at heq
    by_cases hj : j = i
    · subst hj
      by_contra hl
      rw [Function.update_self, Function.update_of_ne (Ne.symm hl)] at heq
      exact hnew l heq.symm
    · by_cases hl : l = i
      · subst hl
        rw [Function.update_self, Function.update_of_ne hj] at heq
        exact absurd heq (hnew j)
      · rw [Function.update_of_ne hj, Function.update_of_ne hl] at heq
        exact h.apart j l (hother j hj hown) heq
  · intro j hown hmem
    change Function.update d.cr3s i page j ∈ freeStack at hmem
    by_cases hj : j = i
    · subst hj
      rw [Function.update_self] at hmem
      exact hfresh hmem
    · rw [Function.update_of_ne hj] at hmem
      apply h.taken j (hother j hj hown)
      rw [hfree]
      exact List.mem_cons_of_mem page hmem

theorem Desk.release_rest :
    (d.release i).runningDepth = d.runningDepth ∧
      (d.release i).kernelCr3 = d.kernelCr3 ∧
      ∀ l, l ≠ i → (d.release i).cr3s l = d.cr3s l := by
  unfold Desk.release
  split
  · exact ⟨rfl, rfl, fun l hl => Function.update_of_ne hl ..⟩
  · exact ⟨rfl, rfl, fun l hl => Function.update_of_ne hl ..⟩

theorem Desk.house_rest :
    (d.house i).currentCr3 = d.currentCr3 ∧
      (d.house i).runningDepth = d.runningDepth ∧
      (d.house i).kernelCr3 = d.kernelCr3 ∧
      ∀ l, l ≠ i → (d.house i).cr3s l = d.cr3s l := by
  unfold Desk.house
  split
  · exact ⟨rfl, rfl, rfl, fun l hl => Function.update_of_ne hl ..⟩
  split
  · exact ⟨rfl, rfl, rfl, fun l hl => Function.update_of_ne hl ..⟩
  · exact ⟨rfl, rfl, rfl, fun l hl => Function.update_of_ne hl ..⟩

theorem Desk.leave_rest :
    (d.leave prevCr3 switched).cr3s = d.cr3s ∧
      (d.leave prevCr3 switched).freeStack = d.freeStack ∧
      (d.leave prevCr3 switched).kernelCr3 = d.kernelCr3 ∧
      (d.leave prevCr3 switched).runningDepth = d.runningDepth := by
  unfold Desk.leave
  split
  · exact ⟨rfl, rfl, rfl, rfl⟩
  · exact ⟨rfl, rfl, rfl, rfl⟩

theorem Desk.Housed.leave (h : d.Housed) :
    (d.leave prevCr3 switched).Housed := by
  unfold Desk.leave
  split
  · exact ⟨h.apart, h.taken, h.nodup, h.pages⟩
  · exact h

-- ==== the active space

theorem Desk.active_skip {frame : Frame} {cr3 : Nat} {frames : List Frame}
    (hframe : frame.runs = none) :
    d.Active cr3 (frame :: frames) ↔ d.Active cr3 frames := by
  cases frame with
  | entry => cases hframe
  | dispatch => exact Iff.rfl
  | waitPid => exact Iff.rfl
  | sync => exact Iff.rfl

theorem Desk.Active.congr {d' : Desk} {cr3 : Nat} {frames : List Frame}
    (h : d.Active cr3 frames) (hkernel : d'.kernelCr3 = d.kernelCr3)
    (hruns : ∀ j ∈ frames.filterMap Frame.runs, d'.cr3s j = d.cr3s j) :
    d'.Active cr3 frames := by
  induction frames generalizing cr3 with
  | nil => exact h.trans hkernel.symm
  | cons frame frames ih =>
    cases frame with
    | entry i prevCr3 switched =>
      have hself : d'.cr3s i = d.cr3s i := hruns i List.mem_cons_self
      refine ⟨ih h.1 fun j hj => hruns j (List.mem_cons_of_mem i hj), ?_⟩
      have htop := h.2
      unfold Desk.Private at htop ⊢
      rw [hself, hkernel]
      exact htop
    | dispatch => exact ih h hruns
    | waitPid => exact ih h hruns
    | sync => exact ih h hruns

theorem Desk.Active.cases {cr3 : Nat} {frames : List Frame}
    (h : d.Active cr3 frames) :
    cr3 = d.kernelCr3 ∨
      cr3 ≠ 0 ∧ ∃ j ∈ frames.filterMap Frame.runs, d.cr3s j = cr3 := by
  induction frames generalizing cr3 with
  | nil => exact .inl h
  | cons frame frames ih =>
    cases frame with
    | entry i prevCr3 switched =>
      obtain ⟨hprev, htop⟩ := h
      split at htop
      · obtain ⟨-, hcr3, heq | heq⟩ := htop
        · exact .inr ⟨hcr3, i, List.mem_cons_self, heq.symm⟩
        · exact .inl heq
      · rw [htop.1]
        rcases ih hprev with heq | ⟨hne, j, hj, heq⟩
        · exact .inl heq
        · exact .inr ⟨hne, j, List.mem_cons_of_mem i hj, heq⟩
    | dispatch => exact ih h
    | waitPid => exact ih h
    | sync => exact ih h

theorem Desk.Active.ne {cr3 : Nat} {frames : List Frame}
    (h : d.Active cr3 frames) (hd : d.Housed)
    (hidle : i ∉ frames.filterMap Frame.runs) (hown : d.Private i) :
    cr3 ≠ d.cr3s i := by
  intro heq
  rcases h.cases with hkernel | ⟨-, j, hj, hcr3⟩
  · exact hown.2.2 (heq.symm.trans hkernel)
  · have hsame : i = j := hd.apart i j hown (heq.symm.trans hcr3.symm)
    rw [hsame] at hidle
    exact hidle hj

theorem Desk.Active.release {frames : List Frame}
    (h : d.Active d.currentCr3 frames) (hd : d.Housed)
    (hidle : i ∉ frames.filterMap Frame.runs) :
    (d.release i).currentCr3 = d.currentCr3 ∧
      (d.release i).Active d.currentCr3 frames := by
  obtain ⟨-, hkernel, hothers⟩ := @Desk.release_rest d i
  constructor
  · unfold Desk.release
    split
    · next hown => exact if_neg (h.ne hd hidle hown)
    · rfl
  · refine h.congr hkernel fun j hj => hothers j ?_
    intro heq
    rw [heq] at hj
    exact hidle hj

theorem Desk.Active.enter {frames : List Frame}
    (h : d.Active d.currentCr3 frames) (hd : d.Housed)
    (hidle : i ∉ frames.filterMap Frame.runs) :
    (d.enter i).Active (d.enter i).currentCr3
      (.entry i d.currentCr3 (d.switches i) :: frames) := by
  refine ⟨h.congr rfl fun _ _ => rfl, ?_⟩
  unfold Desk.enter
  by_cases hswitch : d.switches i = true
  · simp only [hswitch, if_true]
    unfold Desk.switches at hswitch
    simp only [Bool.not_eq_true', Bool.or_eq_false_iff,
      decide_eq_false_iff_not] at hswitch
    refine ⟨hswitch.1.2, hswitch.1.1, ?_⟩
    unfold Desk.target
    split
    · exact .inl rfl
    · exact .inr rfl
  · rw [if_neg hswitch]
    refine ⟨if_neg hswitch, ?_⟩
    rintro ⟨hkernel, hcr3, hother⟩
    have htarget : d.target i = d.cr3s i := if_pos hcr3
    unfold Desk.switches at hswitch
    simp only [htarget, Bool.not_eq_true', Bool.not_eq_false,
      Bool.or_eq_true, decide_eq_true_eq] at hswitch
    rcases hswitch with (hzero | hzero) | hsame
    · exact hcr3 hzero
    · rcases h.cases with hactive | ⟨hne, -⟩
      · exact hkernel (hactive.symm.trans hzero)
      · exact hne hzero
    · exact h.ne hd hidle ⟨hkernel, hcr3, hother⟩ hsame.symm

theorem Desk.Active.leave {frames : List Frame}
    (h : d.Active d.currentCr3 (.entry i prevCr3 switched :: frames)) :
    (d.leave prevCr3 switched).currentCr3 = prevCr3 ∧
      ((d.release i).leave prevCr3 switched).currentCr3 = prevCr3 := by
  obtain ⟨-, htop⟩ := h
  unfold Desk.leave
  cases switched with
  | true =>
    have hprev : prevCr3 ≠ 0 := htop.1
    simp [hprev]
  | false =>
    obtain ⟨hsame, hshared⟩ := htop
    refine ⟨hsame, ?_⟩
    unfold Desk.release
    rw [if_neg hshared]
    exact hsame

end spaces

end Clks.Exec
