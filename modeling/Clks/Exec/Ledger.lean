/-
What the events do to the descriptors and the terminals.

The ledger of the kernel is all of its descriptors and its terminals. Every
event comes down to entries in it: a descriptor takes a reference, or gives
one up, or is changed without either.
-/
import Clks.Exec.Descriptors
import Clks.Exec.Parts

namespace Clks.Exec

/-- The id that a descriptor refers to a terminal by. -/
def FdEntry.held (entry : FdEntry) : Option UInt64 :=
  if entry.used && entry.kind = .pty then some entry.ptyId else none

/-- The terminals, and the descriptors of all records. -/
structure Ledger where
  ptys : Fin ptyMax → Pty
  fds : Fin maxProcs × Fin fdMax → FdEntry

/-- The ledger of the kernel. -/
def Kernel.ledger (k : Kernel) : Ledger :=
  ⟨k.ptys, fun x => (k.procs x.1).fds x.2⟩

/-- A change of one descriptor. -/
def Ledger.put (x : Fin maxProcs × Fin fdMax) (entry : FdEntry) (l : Ledger) :
    Ledger :=
  { l with fds := Function.update l.fds x entry }

/-- An entry in the ledger. -/
inductive Ledger.Step : Ledger → Ledger → Prop
  /-- The references are the same. -/
  | same {l : Ledger} {fds : Fin maxProcs × Fin fdMax → FdEntry}
    (h : ∀ x, (fds x).held = (l.fds x).held) : Step l { l with fds }
  /-- A reference is taken. -/
  | take {l : Ledger} {x : Fin maxProcs × Fin fdMax} {entry : FdEntry}
    {ptys : Fin ptyMax → Pty} (hx : (l.fds x).held = none)
    (hentry : entry.held = some entry.ptyId)
    (h : ptyRetain entry.ptyId l.ptys = some ptys) :
    Step l ({ l with ptys }.put x entry)
  /-- A reference is given up, if there is one. -/
  | drop {l : Ledger} {x : Fin maxProcs × Fin fdMax} {entry : FdEntry}
    (hentry : entry.held = none) :
    Step l ({ l with ptys := (l.fds x).release l.ptys }.put x entry)
  /-- A terminal is made, under an id that is not in use. -/
  | create {l : Ledger} {x : Fin maxProcs × Fin fdMax} {entry : FdEntry}
    {nextId nextId' : UInt64} {ptys : Fin ptyMax → Pty}
    (hx : (l.fds x).held = none) (hentry : entry.held = some entry.ptyId)
    (h : ptyAlloc nextId l.ptys = some (entry.ptyId, nextId', ptys))
    (hfresh : findPty entry.ptyId l.ptys = none) :
    Step l ({ l with ptys }.put x entry)

/-- Any number of entries. -/
abbrev Ledger.Path : Ledger → Ledger → Prop := Relation.ReflTransGen Ledger.Step

/-- The one ledger becomes the other. -/
def Kernel.Leads (k k' : Kernel) : Prop := k.ledger.Path k'.ledger

section ledger

variable {k k' k'' : Kernel} {i j : Fin maxProcs} {c : Fin fdMax} {a : Answers}
  {got : Option Nat} {f : Proc → Proc} {entry : FdEntry} {l : Ledger}

theorem Kernel.Leads.refl (k : Kernel) : k.Leads k := Relation.ReflTransGen.refl

theorem Kernel.Leads.trans (h : k.Leads k') (h' : k'.Leads k'') : k.Leads k'' :=
  Relation.ReflTransGen.trans h h'

theorem leads_of_eq (h : k'.ledger = k.ledger) : k.Leads k' := by
  unfold Kernel.Leads
  rw [h]

theorem leads_of_step (h : k.ledger.Step k'.ledger) : k.Leads k' :=
  Relation.ReflTransGen.single h

theorem held_none_of_unused (h : entry.used = false) : entry.held = none := by
  unfold FdEntry.held
  rw [h]
  rfl

theorem held_none_of_kind (h : entry.kind ≠ .pty) : entry.held = none := by
  unfold FdEntry.held
  rw [if_neg]
  simp [h]

theorem held_some (hused : entry.used = true) (hkind : entry.kind = .pty) :
    entry.held = some entry.ptyId := by
  unfold FdEntry.held
  rw [hused, hkind]
  rfl

-- ==== records

theorem ledger_same (hptys : k'.ptys = k.ptys)
    (hfds : ∀ i, (k'.procs i).fds = (k.procs i).fds) : k'.ledger = k.ledger := by
  unfold Kernel.ledger
  rw [hptys]
  congr 1
  funext x
  rw [hfds]

theorem ledger_modifyProc (hf : ∀ p, (f p).fds = p.fds) :
    (k.modifyProc i f).ledger = k.ledger := by
  refine ledger_same rfl fun j => ?_
  by_cases hj : j = i
  · subst hj
    rw [modifyProc_self]
    exact hf _
  · rw [modifyProc_other _ _ hj]

theorem fds_of_ledger (h : k'.ledger = k.ledger) (i : Fin maxProcs) :
    (k'.procs i).fds = (k.procs i).fds := by
  funext c
  exact congrFun (congrArg Ledger.fds h) (i, c)

theorem reset_leads (hold : ∀ c, ((k.procs i).fds c).held = none)
    (hnew : ∀ c, ((f (k.procs i)).fds c).held = none) :
    k.Leads (k.modifyProc i f) := by
  apply leads_of_step
  refine Ledger.Step.same ?_
  intro ⟨j, c⟩
  show (((k.modifyProc i f).procs j).fds c).held = ((k.procs j).fds c).held
  by_cases hj : j = i
  · subst hj
    rw [modifyProc_self, hold c]
    exact hnew c
  · rw [modifyProc_other _ _ hj]

@[simp]
theorem ledger_putFd (i : Fin maxProcs) (c : Fin fdMax) (entry : FdEntry)
    (k : Kernel) : (k.putFd i c entry).ledger = k.ledger.put (i, c) entry := by
  unfold Kernel.ledger Ledger.put
  congr 1
  funext ⟨j, c'⟩
  unfold Kernel.putFd
  by_cases hj : j = i
  · subst hj
    rw [modifyProc_self]
    show Function.update (k.procs j).fds c entry c' = _
    by_cases hc : c' = c
    · subst hc
      rw [Function.update_self, Function.update_self]
    · rw [Function.update_of_ne hc, Function.update_of_ne]
      exact fun heq => hc (Prod.mk.inj heq).2
  · rw [Function.update_of_ne fun heq => hj (Prod.mk.inj heq).1]
    rw [modifyProc_other _ _ hj]

theorem putFd_leads (h : entry.held = ((k.procs i).fds c).held) :
    k.Leads (k.putFd i c entry) := by
  apply leads_of_step
  rw [ledger_putFd]
  refine Ledger.Step.same ?_
  intro x
  by_cases hx : x = (i, c)
  · subst hx
    rw [Function.update_self]
    exact h
  · rw [Function.update_of_ne hx]

-- ==== parts

@[simp]
theorem ledger_releaseRuntime (k : Kernel) (i : Fin maxProcs) :
    (k.releaseRuntime i).ledger = k.ledger :=
  ledger_modifyProc fun _ => rfl

@[simp]
theorem ledger_releaseAddressSpace (k : Kernel) (i : Fin maxProcs) :
    (k.releaseAddressSpace i).ledger = k.ledger := by
  obtain ⟨freeStack, spaces, currentCr3, h⟩ := releaseAddressSpace_form k i
  rw [h]
  exact ledger_modifyProc fun _ => rfl

@[simp]
theorem ledger_createAddressSpace (k : Kernel) :
    k.createAddressSpace.2.ledger = k.ledger := by
  obtain ⟨freeStack, spaces, h⟩ := createAddressSpace_form k
  rw [h]
  rfl

@[simp]
theorem ledger_bindSchedulerTask (got : Option Nat) (k : Kernel)
    (i : Fin maxProcs) : (k.bindSchedulerTask got i).2.ledger = k.ledger := by
  obtain ⟨id, sched, heapUsed, h⟩ := bindSchedulerTask_form got k i
  rw [h]
  exact ledger_modifyProc fun _ => rfl

@[simp]
theorem ledger_syncSchedulerState (got : Option Nat) (k : Kernel)
    (i : Fin maxProcs) : (k.syncSchedulerState got i).ledger = k.ledger := by
  obtain ⟨id, sched, heapUsed, h⟩ := syncSchedulerState_form got k i
  rw [h]
  exact ledger_modifyProc fun _ => rfl

@[simp]
theorem ledger_setState (got : Option Nat) (k : Kernel) (i : Fin maxProcs)
    (state : ProcState) (threadState : ThreadState) (reason : BlockReason) :
    (k.setState got i state threadState reason).ledger = k.ledger := by
  unfold Kernel.setState
  rw [ledger_syncSchedulerState]
  apply ledger_modifyProc
  intro p
  dsimp only
  split <;> rfl

@[simp]
theorem ledger_setBlock (got : Option Nat) (k : Kernel) (i : Fin maxProcs)
    (reason : BlockReason) (wakeTick waitTargetPid : UInt64) :
    (k.setBlock got i reason wakeTick waitTargetPid).ledger = k.ledger := by
  unfold Kernel.setBlock
  rw [ledger_syncSchedulerState]
  exact ledger_modifyProc fun _ => rfl

@[simp]
theorem ledger_clearBlock (got : Option Nat) (k : Kernel) (i : Fin maxProcs) :
    (k.clearBlock got i).ledger = k.ledger := by
  unfold Kernel.clearBlock
  rw [ledger_syncSchedulerState]
  exact ledger_modifyProc fun _ => rfl

@[simp]
theorem ledger_returned (a : Answers) (ok : Bool) (status : UInt64) (k : Kernel) :
    (k.returned a ok status).ledger = k.ledger := by
  unfold Kernel.returned
  split
  · rfl
  · simp only []
    split
    · rfl
    · rw [ledger_clearBlock]
      exact ledger_modifyProc fun _ => rfl
  · split <;> rfl
  · rfl

-- ==== releases

/-- What a release leaves of a descriptor. -/
def FdEntry.cleared (entry : FdEntry) : FdEntry :=
  if entry.used then FdEntry.zero else entry

@[simp]
theorem cleared_held (entry : FdEntry) : entry.cleared.held = none := by
  unfold FdEntry.cleared
  split
  · rfl
  · next hunused => exact held_none_of_unused (eq_false_of_ne_true hunused)

theorem release_path (l : Ledger) (i : Fin maxProcs) {cs : List (Fin fdMax)}
    (hcs : cs.Nodup) :
    l.Path
      ⟨cs.foldl (fun ptys c => (l.fds (i, c)).release ptys) l.ptys,
        fun x => if x.1 = i ∧ x.2 ∈ cs then (l.fds x).cleared else l.fds x⟩ := by
  induction cs using List.reverseRecOn with
  | nil =>
    have hnil : (fun x : Fin maxProcs × Fin fdMax =>
        if x.1 = i ∧ x.2 ∈ ([] : List (Fin fdMax)) then (l.fds x).cleared
        else l.fds x) = l.fds := by
      funext x
      exact if_neg fun h => List.not_mem_nil h.2
    rw [hnil]
    exact .refl
  | append_singleton cs c ih =>
    have happend := List.nodup_append.mp hcs
    have hc : c ∉ cs := fun hc => happend.2.2 c hc c List.mem_cons_self rfl
    refine Relation.ReflTransGen.tail (ih happend.1) ?_
    have hdrop := @Ledger.Step.drop
      ⟨cs.foldl (fun ptys c => (l.fds (i, c)).release ptys) l.ptys,
        fun x => if x.1 = i ∧ x.2 ∈ cs then (l.fds x).cleared else l.fds x⟩
      (i, c) (l.fds (i, c)).cleared (cleared_held _)
    unfold Ledger.put at hdrop
    dsimp only at hdrop
    rw [if_neg fun h => hc h.2] at hdrop
    rw [List.foldl_append, List.foldl_cons, List.foldl_nil]
    convert hdrop using 2
    funext ⟨j, c'⟩
    by_cases hx : (j, c') = (i, c)
    · obtain ⟨rfl, rfl⟩ := Prod.mk.inj hx
      rw [Function.update_self, if_pos]
      exact ⟨rfl, List.mem_append_right _ List.mem_cons_self⟩
    · rw [Function.update_of_ne hx]
      have hmem : j = i ∧ c' ∈ cs ++ [c] ↔ j = i ∧ c' ∈ cs := by
        rw [List.mem_append, List.mem_singleton]
        constructor
        · rintro ⟨rfl, hcs | rfl⟩
          · exact ⟨rfl, hcs⟩
          · exact absurd rfl hx
        · exact fun h => ⟨h.1, .inl h.2⟩
      simp only [hmem]

theorem fdReleaseAll_fds (k : Kernel) (i : Fin maxProcs) (c : Fin fdMax) :
    ((k.fdReleaseAll i).procs i).fds c = ((k.procs i).fds c).cleared := by
  unfold Kernel.fdReleaseAll
  rw [modifyProc_self]
  rfl

theorem fdReleaseAll_leads (k : Kernel) (i : Fin maxProcs) :
    k.Leads (k.fdReleaseAll i) := by
  have hfds : (k.fdReleaseAll i).ledger.fds = fun x =>
      if x.1 = i ∧ x.2 ∈ List.finRange fdMax then (k.ledger.fds x).cleared
      else k.ledger.fds x := by
    funext ⟨j, c⟩
    show ((k.fdReleaseAll i).procs j).fds c = _
    by_cases hj : j = i
    · subst hj
      rw [fdReleaseAll_fds, if_pos ⟨rfl, List.mem_finRange c⟩]
      rfl
    · rw [if_neg fun h => hj h.1]
      show _ = (k.procs j).fds c
      unfold Kernel.fdReleaseAll
      rw [modifyProc_other _ _ hj]
  have hledger : (k.fdReleaseAll i).ledger
      = ⟨(k.fdReleaseAll i).ptys, (k.fdReleaseAll i).ledger.fds⟩ := rfl
  unfold Kernel.Leads
  rw [hledger, hfds]
  exact release_path k.ledger i (List.nodup_finRange fdMax)

theorem markExited_leads {status : UInt64} : k.Leads (k.markExited a i status) := by
  have hrelease := fdReleaseAll_leads ((k.releaseRuntime i).releaseAddressSpace i) i
  have hledger : ((k.releaseRuntime i).releaseAddressSpace i).ledger = k.ledger := by
    simp
  refine (leads_of_eq hledger).trans (hrelease.trans (leads_of_eq ?_))
  unfold Kernel.markExited
  rw [ledger_modifyProc, ledger_setState]
  intro p
  rfl

-- ==== creation

theorem initDefaults_held (ttyIndex : Nat) (c : Fin fdMax) :
    (initDefaults ttyIndex c).held = none := by
  unfold initDefaults
  split
  · exact held_none_of_kind nofun
  · rfl

theorem prepareProcRecord_held {pid : UInt64} {path : List UInt8}
    {state : ProcState} (c : Fin fdMax) :
    (((k.prepareProcRecord a i pid path state).procs i).fds c).held = none := by
  unfold Kernel.prepareProcRecord
  simp only [modifyProc_self]
  exact initDefaults_held ..

theorem prepareProcRecord_leads {pid : UInt64} {path : List UInt8}
    {state : ProcState} : k.Leads (k.prepareProcRecord a i pid path state) := by
  unfold Kernel.prepareProcRecord
  simp only []
  generalize hk1 : ((k.releaseRuntime i).releaseAddressSpace i).fdReleaseAll i = k1
  have hleads1 : k.Leads k1 := by
    subst hk1
    refine Kernel.Leads.trans (leads_of_eq ?_) (fdReleaseAll_leads _ i)
    rw [ledger_releaseAddressSpace, ledger_releaseRuntime]
  have hnone1 : ∀ c, ((k1.procs i).fds c).held = none := by
    intro c
    subst hk1
    rw [fdReleaseAll_fds]
    exact cleared_held _
  have hspace : k1.createAddressSpace.2.ledger = k1.ledger :=
    ledger_createAddressSpace k1
  refine hleads1.trans ((leads_of_eq hspace).trans ?_)
  have hnone2 : ∀ c, ((k1.createAddressSpace.2.procs i).fds c).held = none := by
    intro c
    rw [fds_of_ledger hspace]
    exact hnone1 c
  generalize hk3 : Kernel.modifyProc i _ k1.createAddressSpace.2 = k3
  have hleads3 : k1.createAddressSpace.2.Leads k3 := by
    subst hk3
    exact reset_leads hnone2 fun _ => rfl
  have hnone3 : ∀ c, ((k3.procs i).fds c).held = none := by
    intro c
    subst hk3
    rw [modifyProc_self]
    rfl
  generalize hk4 : (Kernel.bindSchedulerTask (a.grown 1) i _).2 = k4
  have hledger4 : k4.ledger = k3.ledger := by
    subst hk4
    rw [ledger_bindSchedulerTask, ledger_setState]
  refine hleads3.trans ((leads_of_eq hledger4).trans (reset_leads ?_ ?_))
  · intro c
    rw [fds_of_ledger hledger4]
    exact hnone3 c
  · exact fun c => initDefaults_held ..

theorem fdCopyFromParent_leads {parent : Option (Fin maxProcs)} {fd : UInt64}
    {read write : Bool} (hnone : ((k.procs i).fds c).held = none) :
    k.Leads (k.fdCopyFromParent i parent fd c read write).2 ∧
      ∀ c', c' ≠ c →
        (((k.fdCopyFromParent i parent fd c read write).2.procs i).fds c')
          = (k.procs i).fds c' := by
  have hother : ∀ (k1 : Kernel) entry c', c' ≠ c →
      ((k1.putFd i c entry).procs i).fds c' = (k1.procs i).fds c' := by
    intro k1 entry c' hc
    unfold Kernel.putFd
    rw [modifyProc_self]
    exact Function.update_of_ne hc ..
  generalize hr : k.fdCopyFromParent i parent fd c read write = r
  unfold Kernel.fdCopyFromParent at hr
  split at hr
  · subst hr
    exact ⟨.refl k, fun _ _ => rfl⟩
  split at hr
  swap
  · subst hr
    exact ⟨.refl k, fun _ _ => rfl⟩
  simp only [] at hr
  split at hr
  · subst hr
    exact ⟨.refl k, fun _ _ => rfl⟩
  next parent hfd hrefused =>
  generalize hsrc : (k.procs parent).fds ⟨fd.toNat, hfd⟩ = src at hr hrefused
  have hused : src.used = true := by
    simp only [Bool.or_eq_true, Bool.not_eq_true', not_or] at hrefused
    simpa using hrefused.1.1
  split at hr
  · next hpty =>
    rw [if_neg (by rw [hpty]; nofun)] at hr
    split at hr
    · subst hr
      exact ⟨putFd_leads (hnone.symm ▸ rfl), hother k _⟩
    · next ptys hretain =>
      subst hr
      refine ⟨?_, hother { k with ptys } src⟩
      apply leads_of_step
      have htake : k.ledger.Step ({ k.ledger with ptys }.put (i, c) src) :=
        Ledger.Step.take hnone (held_some hused hpty) hretain
      have hledger := ledger_putFd i c src { k with ptys }
      exact hledger ▸ htake
  · next hpty =>
    subst hr
    refine ⟨putFd_leads (Eq.trans ?_ hnone.symm), hother k _⟩
    apply held_none_of_kind
    split
    · next htty => exact hpty
    · exact hpty

theorem applyStdioOverrides_leads {parent : Option (Fin maxProcs)} {io : Stdio}
    (hnone : ∀ c, ((k.procs i).fds c).held = none) :
    k.Leads (k.applyStdioOverrides i parent io).2 := by
  have hcopy : ∀ (k : Kernel) fd c read write,
      ((k.procs i).fds c).held = none →
      k.Leads (if fd = fdInherit then (true, k)
        else k.fdCopyFromParent i parent fd c read write).2 ∧
      ∀ c', c' ≠ c → (((if fd = fdInherit then (true, k)
        else k.fdCopyFromParent i parent fd c read write).2.procs i).fds c')
          = (k.procs i).fds c' := by
    intro k fd c read write hc
    split
    · exact ⟨.refl k, fun _ _ => rfl⟩
    · exact fdCopyFromParent_leads hc
  unfold Kernel.applyStdioOverrides
  simp only []
  obtain ⟨hleads1, hfds1⟩ := hcopy k io.stdinFd 0 true false (hnone 0)
  split
  · next k1 hstdin =>
    rw [hstdin] at hleads1
    exact hleads1
  next k1 hstdin =>
  rw [hstdin] at hleads1 hfds1
  obtain ⟨hleads2, hfds2⟩ := hcopy k1 io.stdoutFd 1 false true (by
    rw [hfds1 1 (by decide)]
    exact hnone 1)
  split
  · next k2 hstdout =>
    rw [hstdout] at hleads2
    exact hleads1.trans hleads2
  next k2 hstdout =>
  rw [hstdout] at hleads2 hfds2
  obtain ⟨hleads3, -⟩ := hcopy k2 io.stderrFd 2 false true (by
    rw [hfds2 2 (by decide), hfds1 2 (by decide)]
    exact hnone 2)
  exact hleads1.trans (hleads2.trans hleads3)

-- ==== events

variable {H : Fin maxProcs → Prop} {e : Event}

theorem part_leads (h : Kernel.Part H a k k') : k.Leads k' := by
  cases h with
  | aside haside =>
    exact leads_of_eq (ledger_same haside.ptys fun i => by rw [haside.procs])
  | push _ => exact leads_of_eq rfl
  | pop _ => exact leads_of_eq rfl
  | @note i f _ hnoted =>
    refine leads_of_eq (ledger_same rfl fun j => ?_)
    by_cases hj : j = i
    · subst hj
      rw [modifyProc_self]
      exact hnoted.fds
    · rw [modifyProc_other _ _ hj]
  | runtime _ => exact leads_of_eq (ledger_releaseRuntime ..)
  | space _ => exact leads_of_eq (ledger_releaseAddressSpace ..)
  | state _ _ => exact leads_of_eq (ledger_setState ..)
  | exited _ => exact markExited_leads
  | block _ => exact leads_of_eq (ledger_setBlock ..)
  | unblock _ => exact leads_of_eq (ledger_clearBlock ..)
  | timer => exact leads_of_eq rfl

theorem does_leads (h : k.Does a k') : k.Leads k' := by
  have hparts : ∀ {H k1}, Kernel.Parts H a k k1 → k.Leads k1 := by
    intro H k1 hparts
    induction hparts with
    | refl => exact .refl k
    | tail _ hpart ih => exact ih.trans (part_leads hpart)
  cases h with
  | parts h => exact hparts h
  | returns h => exact (hparts h).trans (leads_of_eq (ledger_returned ..))

theorem step_leads (hstep : k.step a e = some k') : k.Leads k' := by
  have hcreated : ∀ {i path state}, k.Leads
      (k.allocPid.2.prepareProcRecord a i k.allocPid.1 path state) := by
    intro i path state
    obtain ⟨next, halloc⟩ := allocPid_eq k
    rw [halloc]
    have hnext : k.Leads { k with nextPid := next } := leads_of_eq rfl
    exact hnext.trans prepareProcRecord_leads
  have hstdio : ∀ {i ready k1 path} {io : Stdio},
      (k.allocPid.2.prepareProcRecord a i k.allocPid.1 path
        .running).applyStdioOverrides i k.currentProc io = (ready, k1) →
      k.Leads k1 := by
    intro i ready k1 path io happly
    have hcopied := @applyStdioOverrides_leads (k.allocPid.2.prepareProcRecord a
      i k.allocPid.1 path .running) i k.currentProc io prepareProcRecord_held
    rw [happly] at hcopied
    exact hcreated.trans hcopied
  cases step_outcome hstep with
  | does hdoes => exact does_leads hdoes
  | dispatch _ hdoes =>
    have hleads := does_leads hdoes
    exact hleads
  | spawn _ _ => exact hcreated
  | exec _ _ happlied hdoes =>
    have hleads := does_leads hdoes
    exact (hstdio happlied).trans hleads
  | @refused path io i k1 _ _ hrefused =>
    refine (hstdio hrefused).trans ((fdReleaseAll_leads k1 i).trans ?_)
    refine reset_leads ?_ fun _ => rfl
    intro c
    rw [fdReleaseAll_fds]
    exact cleared_held _

end ledger

end Clks.Exec
