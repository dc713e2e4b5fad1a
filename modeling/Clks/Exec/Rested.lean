/-
Between two calls, the records of processes that have ended hold nothing.

A process ends in `clks_exec_proc_mark_exited` alone, which gives back all
that the record holds but its task. Each part of the runtime writes to one
record (`Kernel.Touches`), so that what an event does to the others need not
be looked at.
-/
import Clks.Exec.Failing

namespace Clks.Exec

/-- The task table, the terminals and the free pages are sound. -/
structure Kernel.Sane (k : Kernel) : Prop where
  sched : k.sched.Sound
  ptys : Referred k.ptys
  pages : ∀ page ∈ k.freeStack, page ≠ 0 ∧ page ≠ k.kernelCr3
  pageCount : k.freeStack.length ≤ maxTrackedPages

/-- If the process has ended, the record holds nothing. -/
def Proc.Tidy (p : Proc) : Prop := p.ended → p.Empty

/-- Only the record in the slot changes, and what is sound stays so. -/
structure Kernel.Touches (i : Fin maxProcs) (k k' : Kernel) : Prop where
  sane : k.Sane → k'.Sane
  others : ∀ j, j ≠ i → k'.procs j = k.procs j

section rested

variable {k k' k'' : Kernel} {p p' : Proc} {i j : Fin maxProcs} {a : Answers}
  {got : Option Nat} {f : Proc → Proc} {ptys ptys' : Fin ptyMax → Pty}
  {ptyId : UInt64}

-- ==== records

theorem tidy_of_busy (hused : p.used = true) (hstate : p.state ≠ .exited) :
    p.Tidy := by
  rintro (hunused | hexited)
  · rw [hused] at hunused
    cases hunused
  · exact absurd hexited hstate

theorem Proc.Empty.of_assets (h : p.Empty) (hassets : p'.assets = p.assets) :
    p'.Empty where
  loadedActive := (congrArg Assets.loadedActive hassets).trans h.loadedActive
  runStack := (congrArg Assets.runStack hassets).trans h.runStack
  addressSpaceCr3 :=
    (congrArg Assets.addressSpaceCr3 hassets).trans h.addressSpaceCr3
  fds := by
    intro j
    have hfds : p'.fds = p.fds := congrArg Assets.fds hassets
    rw [hfds]
    exact h.fds j

theorem Proc.Tidy.same (h : p.Tidy) (hcard : p'.card = p.card)
    (hassets : p'.assets = p.assets) : p'.Tidy := by
  intro hended
  have hused : p'.used = p.used := congrArg Card.used hcard
  have hstate : p'.state = p.state := congrArg Card.state hcard
  unfold Proc.ended at hended
  rw [hused, hstate] at hended
  exact (h hended).of_assets hassets

theorem proc_zero_tidy : Proc.zero.Tidy :=
  fun _ => ⟨rfl, rfl, rfl, fun _ => rfl⟩

theorem Kernel.Rested.touch (h : k.Rested) (htouches : k.Touches i k')
    (htidy : (k'.procs i).Tidy) : k'.Rested := by
  have hsane := htouches.sane ⟨h.sched, h.ptys, h.pages, h.pageCount⟩
  refine ⟨?_, hsane.sched, hsane.ptys, hsane.pages, hsane.pageCount⟩
  intro j hended
  by_cases hj : j = i
  · subst hj
    exact htidy hended
  · rw [htouches.others j hj] at hended ⊢
    exact h.ended j hended

theorem Kernel.Rested.tidy (h : k.Rested) (i : Fin maxProcs) :
    (k.procs i).Tidy := h.ended i

theorem Kernel.Rested.same (h : k.Rested) (hprocs : k'.procs = k.procs)
    (hsane : k.Sane → k'.Sane) : k'.Rested := by
  have hsane := hsane ⟨h.sched, h.ptys, h.pages, h.pageCount⟩
  refine ⟨?_, hsane.sched, hsane.ptys, hsane.pages, hsane.pageCount⟩
  rw [hprocs]
  exact h.ended

-- ==== terminals

theorem update_referred {s : Fin ptyMax} {pty : Pty} (h : Referred ptys)
    (hpty : pty.used = true → pty.refCount ≠ 0) :
    Referred (Function.update ptys s pty) := by
  intro t
  by_cases ht : t = s
  · subst ht
    rw [Function.update_self]
    exact hpty
  · rw [Function.update_of_ne ht]
    exact h t

theorem ptyRetain_referred (h : Referred ptys)
    (hretain : ptyRetain ptyId ptys = some ptys') : Referred ptys' := by
  unfold ptyRetain at hretain
  split at hretain
  · cases hretain
  split at hretain
  · cases hretain
  next s _ hmax =>
  obtain rfl := Option.some.inj hretain
  apply update_referred h
  intro _ hzero
  apply hmax
  have hlast : (ptys s).refCount = 0 - 1 := by
    rw [← hzero]
    exact (UInt64.add_sub_cancel _ 1).symm
  rw [hlast]
  rfl

theorem ptyRelease_referred (h : Referred ptys) :
    Referred (ptyRelease ptyId ptys) := by
  unfold ptyRelease
  split
  · exact h
  next s _ =>
  apply update_referred h
  split
  · next hmany =>
    intro _ hzero
    have hone : (ptys s).refCount = 1 := by
      have hback := congrArg (· + 1) hzero
      simpa using hback
    rw [hone] at hmany
    exact absurd hmany (by decide)
  · nofun

theorem release_referred {entry : FdEntry} (h : Referred ptys) :
    Referred (entry.release ptys) := by
  unfold FdEntry.release
  split
  · exact ptyRelease_referred h
  · exact h

theorem releaseAll_referred {fds : Fin fdMax → FdEntry}
    (entries : List (Fin fdMax)) (h : Referred ptys) :
    Referred (entries.foldl (fun ptys j => (fds j).release ptys) ptys) := by
  induction entries generalizing ptys with
  | nil => exact h
  | cons j entries ih =>
    rw [List.foldl_cons]
    exact ih (release_referred h)

-- ==== touches

theorem Kernel.Touches.refl (i : Fin maxProcs) (k : Kernel) : k.Touches i k :=
  ⟨fun h => h, fun _ _ => rfl⟩

theorem Kernel.Touches.trans (h : k.Touches i k') (h' : k'.Touches i k'') :
    k.Touches i k'' :=
  ⟨fun hsane => h'.sane (h.sane hsane),
    fun j hj => (h'.others j hj).trans (h.others j hj)⟩

theorem sane_of_store (hstore : k'.store = k.store) (hgrows : k.Grows k')
    (h : k.Sane) : k'.Sane := by
  have hpages : k'.freeStack = k.freeStack := congrArg Store.freeStack hstore
  have hkernel : k'.kernelCr3 = k.kernelCr3 := congrArg Store.kernelCr3 hstore
  have hptys : k'.ptys = k.ptys := congrArg Store.ptys hstore
  refine ⟨(hgrows h.sched).1, ?_, ?_, ?_⟩
  · rw [hptys]
    exact h.ptys
  · rw [hpages, hkernel]
    exact h.pages
  · rw [hpages]
    exact h.pageCount

theorem modifyProc_touches : k.Touches i (k.modifyProc i f) :=
  ⟨sane_of_store rfl (grows_of_sched rfl), fun _ hj => modifyProc_other k f hj⟩

theorem releaseRuntime_touches : k.Touches i (k.releaseRuntime i) :=
  ⟨sane_of_store rfl (grows_of_sched rfl),
    fun _ hj => Function.update_of_ne hj ..⟩

theorem freePage_sane {page : Nat} (h : k.Sane) (hkernel : page ≠ k.kernelCr3)
    (hsched : k'.sched = k.sched) (hptys : k'.ptys = k.ptys)
    (hcr3 : k'.kernelCr3 = k.kernelCr3)
    (hfree : k'.freeStack = freePage page k.freeStack) : k'.Sane := by
  refine ⟨?_, ?_, ?_, ?_⟩
  · rw [hsched]
    exact h.sched
  · rw [hptys]
    exact h.ptys
  · rw [hfree, hcr3]
    unfold freePage
    split
    · exact h.pages
    · next hpage =>
      intro other hother
      rcases List.mem_cons.mp hother with rfl | hother
      · simp only [Bool.or_eq_true, decide_eq_true_eq, not_or] at hpage
        exact ⟨hpage.1, hkernel⟩
      · exact h.pages other hother
  · rw [hfree]
    have hcount := h.pageCount
    unfold freePage
    split
    · exact hcount
    · next hpage =>
      simp only [Bool.or_eq_true, decide_eq_true_eq, not_or] at hpage
      rw [List.length_cons]
      omega

theorem releaseAddressSpace_touches :
    k.Touches i (k.releaseAddressSpace i) := by
  refine ⟨?_, releaseAddressSpace_within.others⟩
  intro h
  unfold Kernel.releaseAddressSpace
  simp only []
  split
  · exact h
  refine modifyProc_touches.sane ?_
  split
  · next hother =>
    rw [Bool.and_eq_true, decide_eq_true_eq, decide_eq_true_eq] at hother
    unfold Kernel.destroyAddressSpace
    split
    · exact h
    · exact freePage_sane h hother.2 rfl rfl rfl rfl
  · exact h

theorem createAddressSpace_sane (h : k.Sane) : k.createAddressSpace.2.Sane := by
  rcases createAddressSpace_cases h.pages with hnone |
    ⟨page, pages, hcons, -, -, -, hsome⟩
  · rw [hnone]
    exact h
  · rw [hsome]
    have hpages := h.pages
    have hcount := h.pageCount
    rw [hcons] at hpages hcount
    rw [List.length_cons] at hcount
    refine ⟨h.sched, h.ptys, ?_, Nat.le_of_succ_le hcount⟩
    exact fun other hother => hpages other (List.mem_cons_of_mem page hother)

theorem createAddressSpace_touches :
    k.Touches i k.createAddressSpace.2 :=
  ⟨createAddressSpace_sane, fun _ _ => by rw [createAddressSpace_calm.2]⟩

theorem fdReleaseAll_touches : k.Touches i (k.fdReleaseAll i) :=
  ⟨fun h => ⟨h.sched, releaseAll_referred _ h.ptys, h.pages, h.pageCount⟩,
    fun _ hj => Function.update_of_ne hj ..⟩

-- ==== states

theorem syncSchedulerState_touches :
    k.Touches i (k.syncSchedulerState got i) := by
  obtain ⟨sched, hsync⟩ := syncSchedulerState_eq got k i
  have hstore : (k.syncSchedulerState got i).store = k.store := by
    rw [hsync]
    exact bindSchedulerTask_store
  refine ⟨?_, ?_⟩
  · exact sane_of_store hstore
      (bindSchedulerTask_grows.trans (grows_of_like syncSchedulerState_like))
  · rw [hsync]
    exact bindSchedulerTask_within.others

theorem syncSchedulerState_assets :
    ((k.syncSchedulerState got i).procs i).assets = (k.procs i).assets := by
  obtain ⟨sched, hsync⟩ := syncSchedulerState_eq got k i
  obtain ⟨id, hproc⟩ := bindSchedulerTask_proc got k i
  rw [hsync]
  show ((k.bindSchedulerTask got i).2.procs i).assets = _
  rw [hproc]
  rfl

theorem modify_sync_tidy (h : (k.procs i).Tidy)
    (hcard : ∀ p, (f p).card = p.card) (hassets : ∀ p, (f p).assets = p.assets) :
    (((k.modifyProc i f).syncSchedulerState got i).procs i).Tidy := by
  apply h.same
  · refine (congrFun (cards_syncSchedulerState got _ i) i).trans ?_
    exact congrFun (cards_modifyProc_same hcard) i
  · rw [syncSchedulerState_assets, modifyProc_self]
    exact hassets _

variable {state : ProcState} {threadState : ThreadState}
  {reason : BlockReason} {wakeTick waitTargetPid pid status : UInt64}

theorem setState_touches :
    k.Touches i (k.setState got i state threadState reason) :=
  modifyProc_touches.trans syncSchedulerState_touches

theorem setBlock_touches :
    k.Touches i (k.setBlock got i reason wakeTick waitTargetPid) :=
  modifyProc_touches.trans syncSchedulerState_touches

theorem clearBlock_touches : k.Touches i (k.clearBlock got i) :=
  modifyProc_touches.trans syncSchedulerState_touches

theorem setState_tidy (h : (k.procs i).Tidy) (hstate : state ≠ .exited) :
    ((k.setState got i state threadState reason).procs i).Tidy := by
  have hcard := congrFun (cards_setState got k i state threadState reason) i
  rw [Function.update_self] at hcard
  have hused : ((k.setState got i state threadState reason).procs i).used
      = (k.procs i).used := congrArg Card.used hcard
  have hset : ((k.setState got i state threadState reason).procs i).state
      = state := congrArg Card.state hcard
  rintro (hunused | hexited)
  · rw [hused] at hunused
    exact (h (.inl hunused)).of_assets setState_assets
  · rw [hset] at hexited
    exact absurd hexited hstate

theorem releaseAddressSpace_proc :
    (k.releaseAddressSpace i).procs i
      = { k.procs i with addressSpaceCr3 := 0 } := by
  obtain ⟨freeStack, spaces, currentCr3, h⟩ := releaseAddressSpace_form k i
  rw [h]
  exact modifyProc_self ..

theorem markExited_touches : k.Touches i (k.markExited a i status) := by
  unfold Kernel.markExited
  exact releaseRuntime_touches.trans (releaseAddressSpace_touches.trans
    (fdReleaseAll_touches.trans (setState_touches.trans modifyProc_touches)))

theorem markExited_empty : ((k.markExited a i status).procs i).Empty := by
  unfold Kernel.markExited
  have hcleared : ((((k.releaseRuntime i).releaseAddressSpace i).fdReleaseAll
      i).procs i).Empty := by
    unfold Kernel.fdReleaseAll
    rw [modifyProc_self]
    simp only []
    rw [releaseAddressSpace_proc, releaseRuntime_proc]
    refine ⟨rfl, rfl, rfl, ?_⟩
    intro j
    simp only []
    split
    · rfl
    · next hunused => exact eq_false_of_ne_true hunused
  apply hcleared.of_assets
  rw [modifyProc_self]
  exact setState_assets

-- ==== creation

theorem prepareProcRecord_touches {path : List UInt8} :
    k.Touches i (k.prepareProcRecord a i pid path state) := by
  unfold Kernel.prepareProcRecord
  simp only []
  have hbind : ∀ k : Kernel,
      k.Touches i (k.bindSchedulerTask (a.grown 1) i).2 := fun k =>
    ⟨sane_of_store bindSchedulerTask_store bindSchedulerTask_grows,
      bindSchedulerTask_within.others⟩
  exact releaseRuntime_touches.trans (releaseAddressSpace_touches.trans
    (fdReleaseAll_touches.trans (createAddressSpace_touches.trans
      (modifyProc_touches.trans (setState_touches.trans
        ((hbind _).trans modifyProc_touches))))))

theorem prepareProcRecord_card {path : List UInt8} :
    ((k.prepareProcRecord a i pid path state).procs i).card
      = ⟨true, pid, state, path.take (pathMax - 1)⟩ := by
  have hcard := congrFun (cards_prepareProcRecord a i pid path state k) i
  rw [Function.update_self] at hcard
  exact hcard

theorem prepareProcRecord_rested {path : List UInt8} (h : k.Rested)
    (hstate : state ≠ .exited) :
    (k.prepareProcRecord a i pid path state).Rested := by
  have hcard := @prepareProcRecord_card k i a state pid path
  refine h.touch prepareProcRecord_touches (tidy_of_busy ?_ ?_)
  · exact congrArg Card.used hcard
  · have hset : ((k.prepareProcRecord a i pid path state).procs i).state
        = state := congrArg Card.state hcard
    rw [hset]
    exact hstate

theorem fdCopyFromParent_touches {parent : Option (Fin maxProcs)}
    {fd : UInt64} {c : Fin fdMax} {read write : Bool} :
    k.Touches i (k.fdCopyFromParent i parent fd c read write).2 := by
  generalize hr : k.fdCopyFromParent i parent fd c read write = r
  unfold Kernel.fdCopyFromParent at hr
  split at hr
  · subst hr
    exact .refl i k
  split at hr
  swap
  · subst hr
    exact .refl i k
  simp only [] at hr
  split at hr
  · subst hr
    exact .refl i k
  split at hr
  · split at hr
    · subst hr
      dsimp only
      exact modifyProc_touches
    · next ptys hretain =>
      subst hr
      have hretained : k.Touches i { k with ptys } :=
        ⟨fun h => ⟨h.sched, ptyRetain_referred h.ptys hretain, h.pages,
          h.pageCount⟩, fun _ _ => rfl⟩
      exact hretained.trans (by dsimp only; exact modifyProc_touches)
  · subst hr
    dsimp only
    exact modifyProc_touches

theorem applyStdioOverrides_touches {parent : Option (Fin maxProcs)}
    {io : Stdio} : k.Touches i (k.applyStdioOverrides i parent io).2 := by
  apply applyStdioOverrides_ind (motive := fun k1 => k.Touches i k1)
  · intro k1 fd c read write hk1
    exact hk1.trans fdCopyFromParent_touches
  · exact .refl i k

-- ==== parts

variable {H : Fin maxProcs → Prop} {e : Event}

theorem Kernel.Aside.sane (h : k.Aside k') (hsane : k.Sane) : k'.Sane := by
  refine ⟨?_, ?_, ?_, ?_⟩
  · rw [h.sched]
    exact hsane.sched
  · rw [h.ptys]
    exact hsane.ptys
  · rw [h.freeStack, h.kernelCr3]
    exact hsane.pages
  · rw [h.freeStack]
    exact hsane.pageCount

theorem Proc.Noted.tidy (h : p.Noted p') (htidy : p.Tidy) : p'.Tidy := by
  intro hended
  have hused : p'.used = p.used := congrArg Card.used h.card
  have hstate : p'.state = p.state := congrArg Card.state h.card
  unfold Proc.ended at hended
  rw [hused, hstate] at hended
  have hempty := htidy hended
  refine ⟨(h.program hended).trans hempty.loadedActive, ?_,
    h.space.trans hempty.addressSpaceCr3, ?_⟩
  · rcases h.stack hended with hsame | hnone
    · exact hsame.trans hempty.runStack
    · exact hnone
  · rw [h.fds]
    exact hempty.fds

theorem part_touches (h : Kernel.Part H a k k') :
    (k'.procs = k.procs ∧ (k.Sane → k'.Sane)) ∨
      ∃ i, H i ∧ k.Touches i k' ∧ ((k.procs i).Tidy → (k'.procs i).Tidy) := by
  cases h with
  | aside haside => exact .inl ⟨haside.procs, haside.sane⟩
  | push _ => exact .inl ⟨rfl, sane_of_store rfl (grows_of_sched rfl)⟩
  | pop _ => exact .inl ⟨rfl, sane_of_store rfl (grows_of_sched rfl)⟩
  | timer => exact .inl ⟨rfl, sane_of_store rfl (grows_of_like onTimerTick_like)⟩
  | @note i f hi hnoted =>
    refine .inr ⟨i, hi, modifyProc_touches, fun htidy => ?_⟩
    rw [modifyProc_self]
    exact hnoted.tidy htidy
  | @runtime i hi =>
    refine .inr ⟨i, hi, releaseRuntime_touches, fun htidy => ?_⟩
    rw [releaseRuntime_proc]
    intro hended
    have hempty := htidy hended
    exact ⟨rfl, rfl, hempty.addressSpaceCr3, hempty.fds⟩
  | @space i hi =>
    refine .inr ⟨i, hi, releaseAddressSpace_touches, fun htidy => ?_⟩
    rw [releaseAddressSpace_proc]
    intro hended
    have hempty := htidy hended
    exact ⟨hempty.loadedActive, hempty.runStack, rfl, hempty.fds⟩
  | state hi hstate =>
    exact .inr ⟨_, hi, setState_touches, fun h => setState_tidy h hstate⟩
  | exited hi =>
    exact .inr ⟨_, hi, markExited_touches, fun _ _ => markExited_empty⟩
  | block hi =>
    exact .inr ⟨_, hi, setBlock_touches,
      fun h => modify_sync_tidy h (fun _ => rfl) (fun _ => rfl)⟩
  | unblock hi =>
    exact .inr ⟨_, hi, clearBlock_touches,
      fun h => modify_sync_tidy h (fun _ => rfl) (fun _ => rfl)⟩

theorem parts_touches (h : Kernel.Parts (· = i) a k k') : k.Touches i k' := by
  induction h with
  | refl => exact .refl i k
  | tail _ hpart ih =>
    rcases part_touches hpart with ⟨hprocs, hsane⟩ | ⟨_, rfl, htouches, -⟩
    · exact ih.trans ⟨hsane, fun j _ => congrFun hprocs j⟩
    · exact ih.trans htouches

theorem runBegin_touches : k.Touches i (k.runBegin a i).2 :=
  parts_touches (runBegin_parts fun _ => rfl)

theorem Kernel.Rested.parts (h : k.Rested) (hparts : Kernel.Parts H a k k') :
    k'.Rested := by
  induction hparts with
  | refl => exact h
  | tail _ hpart ih =>
    rcases part_touches hpart with ⟨hprocs, hsane⟩ | ⟨i, -, htouches, htidy⟩
    · exact ih.same hprocs hsane
    · exact ih.touch htouches (htidy (ih.tidy i))

theorem returned_rested {ok : Bool} (h : k.Rested) :
    (k.returned a ok status).Rested := by
  have hsane : ∀ frames active, k.Sane →
      Kernel.Sane { k with frames, pendingDispatchActive := active } :=
    fun _ _ => sane_of_store rfl (grows_of_sched rfl)
  unfold Kernel.returned
  split
  · exact h.same rfl (hsane _ _)
  · next parent frames hframes =>
    have hpopped : Kernel.Rested
        { k with frames, pendingDispatchActive := false } :=
      h.same rfl (hsane _ _)
    simp only []
    split
    · exact hpopped
    · next j =>
      refine hpopped.touch (modifyProc_touches.trans clearBlock_touches)
        (modify_sync_tidy ?_ (fun _ => rfl) (fun _ => rfl))
      rw [modifyProc_self]
      exact (hpopped.tidy j).same rfl rfl
  · split
    · exact h
    · exact h.same rfl (hsane _ k.pendingDispatchActive)
  · exact h

theorem Kernel.Rested.does (h : k.Rested) (hdoes : k.Does a k') : k'.Rested := by
  cases hdoes with
  | parts hparts => exact h.parts hparts
  | returns hparts => exact returned_rested (h.parts hparts)

theorem Kernel.Rested.step (h : k.Rested) (hstep : k.step a e = some k') :
    k'.Rested := by
  obtain ⟨next, halloc⟩ := allocPid_eq k
  have hnext : k.allocPid.2.Rested := by
    rw [halloc]
    exact h.same rfl (sane_of_store rfl (grows_of_sched rfl))
  cases step_outcome hstep with
  | does hdoes => exact h.does hdoes
  | dispatch _ hdoes =>
    have hcursor : ∀ cursor, Kernel.Rested { k with dispatchCursor := cursor } :=
      fun _ => h.same rfl (sane_of_store rfl (grows_of_sched rfl))
    exact (hcursor _).does hdoes
  | spawn _ _ => exact prepareProcRecord_rested hnext nofun
  | @exec path io i k1 _ _ _ happlied hdoes =>
    have hprepared : (k.allocPid.2.prepareProcRecord a i k.allocPid.1 path
        .running).Rested := prepareProcRecord_rested hnext nofun
    have hcards := (@applyStdioOverrides_calm (k.allocPid.2.prepareProcRecord a
      i k.allocPid.1 path .running) i k.currentProc io).2
    have htouches := @applyStdioOverrides_touches
      (k.allocPid.2.prepareProcRecord a i k.allocPid.1 path .running) i
      k.currentProc io
    rw [happlied] at hcards htouches
    have hcard := (congrFun hcards i).trans prepareProcRecord_card
    have hk1 : k1.Rested := by
      refine hprepared.touch htouches (tidy_of_busy (congrArg Card.used hcard) ?_)
      have hstate : (k1.procs i).state = .running := congrArg Card.state hcard
      rw [hstate]
      nofun
    have hpushed : Kernel.Rested { k1 with frames := .sync i :: k1.frames } :=
      hk1.same rfl (sane_of_store rfl (grows_of_sched rfl))
    exact hpushed.does hdoes
  | @refused path io i k1 _ _ hrefused =>
    have hprepared : (k.allocPid.2.prepareProcRecord a i k.allocPid.1 path
        .running).Rested := prepareProcRecord_rested hnext nofun
    have htouches := @applyStdioOverrides_touches
      (k.allocPid.2.prepareProcRecord a i k.allocPid.1 path .running) i
      k.currentProc io
    rw [hrefused] at htouches
    refine hprepared.touch (htouches.trans
      (fdReleaseAll_touches.trans modifyProc_touches)) ?_
    rw [modifyProc_self]
    exact proc_zero_tidy

-- ==== runs

theorem rested_of_booted (h : k.Booted) : k.Rested where
  ended := by
    intro i _
    rw [h.procs i]
    exact ⟨rfl, rfl, rfl, fun _ => rfl⟩
  sched := ⟨h.online, h.size⟩
  ptys := by
    intro s hused
    rw [h.ptys s] at hused
    cases hused
  pages := h.pages
  pageCount := h.pageCount

theorem rested_of_run {k0 : Kernel} (h0 : k0.Booted)
    (hrun : RunIf (fun _ _ _ => True) k0 k) : k.Rested := by
  induction hrun with
  | refl => exact rested_of_booted h0
  | tail _ hstep ih =>
    obtain ⟨a, e, -, hstep⟩ := hstep
    exact ih.step hstep

end rested

/-- A program has run, and its record is that of a process that has exited. -/
theorem rested_of_run_finished : ∃ k : Kernel,
    ((k.procs 0).used = true ∧ (k.procs 0).state = .exited) ∧ k.Rested := by
  have hruns : ((smallKernel.runs ample (fun _ _ => true)
      [.spawn (txt "/p"), .dispatch, .finish 0]).any fun k =>
      decide ((k.procs 0).used = true ∧ (k.procs 0).state = .exited)) = true := by
    decide +kernel
  obtain ⟨k, hk, hended⟩ := (Option.any_eq_true ..).mp hruns
  exact ⟨k, of_decide_eq_true hended, rested_of_run smallKernel_booted
    (runs_runIf (fun _ _ _ => trivial) hk)⟩

/-- The file is missing, and the scheduler has not been started. -/
theorem runPath_traceless_iff_offline :
    Kernel.Traceless { smallKernel with sched.online := false }
      (Kernel.runPath { ample with file := false } (txt "/p")
        ⟨fdInherit, fdInherit, fdInherit⟩
        { smallKernel with sched.online := false }).2 := by
  have h := rested_of_booted smallKernel_booted
  have hrested : Kernel.Rested { smallKernel with sched.online := false } :=
    ⟨h.ended, ⟨nofun, by decide⟩, h.ptys, h.pages, h.pageCount⟩
  have hloads : Answers.Loads { ample with file := false } := by
    intro loaded hloaded
    obtain rfl := Option.some.inj hloaded
    decide
  exact (runPath_traceless_iff hrested hloads (by decide +kernel)).mpr
    (by decide +kernel)

/-- The file is missing, and the task of the process that could not start
stays. -/
theorem exec_missing_not_traceless :
    ∃ (k : Kernel) (a : Answers) (path : List UInt8) (io : Stdio),
      k.Booted ∧ a.Loads ∧ (k.runPath a path io).1 = false ∧
      ¬ k.Traceless (k.runPath a path io).2 := by
  refine ⟨smallKernel, { ample with file := false }, txt "/p",
    ⟨fdInherit, fdInherit, fdInherit⟩, smallKernel_booted, ?_,
    by decide +kernel, ?_⟩
  · intro loaded hloaded
    obtain rfl := Option.some.inj hloaded
    decide
  · intro htraceless
    exact absurd htraceless.tasks (by decide +kernel)

end Clks.Exec
