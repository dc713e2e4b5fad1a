/-
Whose the libraries are.

A run releases the libraries of its process when it ends. A process that is
ended while it does not run, by a signal or by a run that is refused at
once, keeps them: its record is exited, and the slots still name its pid.
-/
import Clks.Exec.Parts

namespace Clks.Exec

/-- The process in the slot owns the library, and has not exited. -/
def Kernel.Owned (k : Kernel) (d : Fin dynlibMax) (i : Fin maxProcs) : Prop :=
  (k.procs i).used = true ∧ (k.procs i).pid = (k.dynlibs d).ownerPid ∧
    (k.procs i).state ≠ .exited

/-- Every library that is in use has an owner that has not exited. -/
def Kernel.OwnersAlive (k : Kernel) : Prop :=
  ∀ d, (k.dynlibs d).used = true → ∃ i, k.Owned d i

/-- Has the pid got a library? -/
def Kernel.owns (k : Kernel) (pid : UInt64) : Prop :=
  ∃ d, (k.dynlibs d).used = true ∧ (k.dynlibs d).ownerPid = pid

/-- Every library in use has such an owner in another slot. -/
def Kernel.OthersAlive (k : Kernel) (i : Fin maxProcs) : Prop :=
  ∀ d, (k.dynlibs d).used = true → ∃ j, j ≠ i ∧ k.Owned d j

/-- The stacks agree with the processes, and owners are alive. -/
structure Kernel.Living (k : Kernel) : Prop where
  framed : k.Framed
  owners : k.OwnersAlive

/-- The process that an event may end without a look at its libraries: a
kill that neither stops nor continues it, while it does not run, or a run
that is nested too deeply. -/
inductive CutShort (a : Answers) (k : Kernel) : Event → Fin maxProcs → Prop
  | kill {pid signal : UInt64} {i : Fin maxProcs} :
      k.findSlotByPid pid = some i →
      (k.procs i).state = .pending ∨ (k.procs i).state = .stopped →
      signal &&& 0xFF ≠ signalCont → signal &&& 0xFF ≠ signalStop →
      CutShort a k (.kill pid signal) i
  | waitPid {pid : UInt64} {i : Fin maxProcs} :
      k.awaited pid = some i → maxDepth ≤ k.pidStack.length →
      CutShort a k (.waitPid pid) i
  | dispatch {i : Fin maxProcs} :
      k.nextPending a = some i → maxDepth ≤ k.pidStack.length →
      CutShort a k .dispatch i
  | resume {i : Fin maxProcs} {frames : List Frame} :
      k.frames = .sync i :: frames → maxDepth ≤ k.pidStack.length →
      CutShort a k .resume i

/-- No process that owns a library is ended so. -/
def Spared (a : Answers) (e : Event) (k : Kernel) : Prop :=
  ∀ i, CutShort a k e i → ¬ k.owns (k.procs i).pid

section dynlibs

variable {k k' : Kernel} {i j : Fin maxProcs} {card : Card} {a : Answers}
  {ok : Bool} {status : UInt64}

-- ==== owners

theorem Kernel.Owned.of_eq {d : Fin dynlibMax} (h : k.Owned d i)
    (hcard : k'.cards i = k.cards i) (hlib : k'.dynlibs d = k.dynlibs d) :
    k'.Owned d i := by
  have howned : (k'.cards i).used = true ∧
      (k'.cards i).pid = (k'.dynlibs d).ownerPid ∧
      (k'.cards i).state ≠ .exited := by
    rw [hcard, hlib]
    exact h
  exact howned

theorem Kernel.OwnersAlive.same (h : k.OwnersAlive)
    (hcards : k'.cards = k.cards) (hlibs : k'.dynlibs = k.dynlibs) :
    k'.OwnersAlive := by
  intro d hused
  rw [hlibs] at hused
  obtain ⟨i, hi⟩ := h d hused
  exact ⟨i, hi.of_eq (congrFun hcards i) (congrFun hlibs d)⟩

theorem Kernel.OthersAlive.alive (h : k.OthersAlive i) : k.OwnersAlive := by
  intro d hused
  obtain ⟨j, -, hj⟩ := h d hused
  exact ⟨j, hj⟩

theorem Kernel.OthersAlive.setCard (h : k.OthersAlive i)
    (hcards : k'.cards = Function.update k.cards i card)
    (hlibs : ∀ d, (k'.dynlibs d).used = true →
      k'.dynlibs d = k.dynlibs d) : k'.OthersAlive i := by
  intro d hused
  have hlib := hlibs d hused
  rw [hlib] at hused
  obtain ⟨j, hj, howned⟩ := h d hused
  refine ⟨j, hj, howned.of_eq ?_ hlib⟩
  rw [hcards, Function.update_of_ne hj]

theorem Kernel.OwnersAlive.others (h : k.OwnersAlive)
    (howns : ¬ k.owns (k.procs i).pid) : k.OthersAlive i := by
  intro d hused
  obtain ⟨j, hj⟩ := h d hused
  refine ⟨j, ?_, hj⟩
  rintro rfl
  exact howns ⟨d, hused, hj.2.1.symm⟩

theorem Kernel.OwnersAlive.others_of_allocSlot (h : k.OwnersAlive)
    (hslot : k.allocSlot = some i) : k.OthersAlive i := by
  intro d hused
  obtain ⟨j, hj⟩ := h d hused
  refine ⟨j, ?_, hj⟩
  rintro rfl
  rcases allocSlot_some hslot with hfree | hexited
  · have hjused : (k.cards j).used = true := hj.1
    rw [hfree] at hjused
    cases hjused
  · exact hj.2.2 hexited

theorem Kernel.OwnersAlive.setState {state : ProcState} (h : k.OwnersAlive)
    (hcards : k'.cards = Function.update k.cards i { k.cards i with state })
    (hlibs : k'.dynlibs = k.dynlibs) (hstate : state ≠ .exited) :
    k'.OwnersAlive := by
  intro d hused
  rw [hlibs] at hused
  obtain ⟨j, hj⟩ := h d hused
  by_cases hij : j = i
  · subst hij
    have hself := cards_self hcards
    have howned : (k'.cards j).used = true ∧
        (k'.cards j).pid = (k'.dynlibs d).ownerPid ∧
        (k'.cards j).state ≠ .exited := by
      rw [hself, hlibs]
      exact ⟨hj.1, hj.2.1, hstate⟩
    exact ⟨j, howned⟩
  · refine ⟨j, hj.of_eq ?_ (congrFun hlibs d)⟩
    rw [hcards, Function.update_of_ne hij]

theorem Kernel.OwnersAlive.release (h : k.OwnersAlive)
    (hcards : k'.cards = Function.update k.cards i card)
    (hlibs : k'.dynlibs = releaseOwner (k.cards i).pid k.dynlibs) :
    k'.OthersAlive i := by
  intro d hused
  rw [hlibs] at hused
  obtain ⟨hlib, howner⟩ := releaseOwner_used hused
  rw [hlib] at hused
  obtain ⟨j, hj⟩ := h d hused
  have hij : j ≠ i := by
    rintro rfl
    exact howner hj.2.1.symm
  refine ⟨j, hij, hj.of_eq ?_ ?_⟩
  · rw [hcards, Function.update_of_ne hij]
  · rw [hlibs]
    exact hlib

-- ==== runs

theorem Kernel.Living.same (h : k.Living) (hcards : k'.cards = k.cards)
    (hstack : k'.pidStack.map Level.pid = k.pidStack.map Level.pid)
    (hframes : k'.frames = k.frames) (hlibs : k'.dynlibs = k.dynlibs) :
    k'.Living :=
  ⟨h.framed.same hcards hstack hframes, h.owners.same hcards hlibs⟩

theorem Kernel.Living.calm (h : k.Living) (hcalm : k.Calm k')
    (hcards : k'.cards = k.cards) : k'.Living :=
  h.same hcards (congrArg _ hcalm.pidStack) hcalm.frames hcalm.dynlibs

theorem Kernel.Living.setState {state : ProcState} (h : k.Living)
    (hcalm : k.Calm k')
    (hcards : k'.cards = Function.update k.cards i { k.cards i with state })
    (hidle : i ∉ k.runners)
    (hstate : state = .exited → ¬ k.owns (k.procs i).pid) : k'.Living := by
  constructor
  · refine h.framed.setCard hcards hidle ?_ hcalm.pidStack hcalm.frames
    intro hused
    exact ⟨h.framed.pids i hused, h.framed.rooted i hused⟩
  · by_cases hexited : state = .exited
    · refine ((h.owners.others (hstate hexited)).setCard hcards ?_).alive
      intro d _
      rw [hcalm.dynlibs]
    · exact h.owners.setState hcards hcalm.dynlibs hexited

theorem Kernel.Living.returned (h : k.Living) : (k.returned a ok status).Living :=
  have hreturned := returned_returned
  ⟨h.framed.returned hreturned, h.owners.same hreturned.cards hreturned.dynlibs⟩

theorem Kernel.Living.runBegin (h : k.Living) (hidle : i ∉ k.runners)
    (hothers : maxDepth ≤ k.pidStack.length → k.OthersAlive i) :
    (k.runBegin a i).2.Living := by
  have hbegan := @runBegin_began k i a (h.framed.pids i)
  generalize k.runBegin a i = r at hbegan
  refine ⟨h.framed.began hidle hbegan, ?_⟩
  cases hbegan with
  | unused hunused => exact h.owners
  | @refused k' hused hrefuses hcalm hcards =>
    have hdeep : maxDepth ≤ k.pidStack.length := by
      rcases hrefuses with hpath | hdeep
      · exact absurd (h.framed.rooted i hused) hpath
      · exact hdeep
    refine (Kernel.OthersAlive.setCard (hothers hdeep) hcards ?_).alive
    intro d _
    rw [hcalm.dynlibs]
  | @failed k' hused hcards hlibs hstack hframes hnext =>
    exact (h.owners.release hcards hlibs).alive
  | @started k' prevCr3 switched hused hcards hlibs hstack hframes hnext =>
    exact h.owners.setState hcards hlibs nofun

theorem Kernel.Living.runEnd {callRet : UInt64} {prevCr3 : Nat}
    {switched : Bool} {frames : List Frame} {level : Level}
    {levels : List Level} (h : k.Living)
    (hframes : k.frames = .entry i prevCr3 switched :: frames)
    (hstack : k.pidStack = level :: levels) :
    ({ k with frames }.runEnd a callRet i prevCr3 switched level).Living := by
  have hi : i ∈ k.runners := by
    unfold Kernel.runners
    rw [hframes]
    exact List.mem_cons_self
  have hended := @runEnd_ended { k with frames } i a prevCr3 switched callRet
    level (h.framed.pids i (h.framed.running i hi).1)
  generalize Kernel.runEnd a callRet i prevCr3 switched level _ = k' at hended
  refine ⟨h.framed.ended hframes hstack hended, ?_⟩
  obtain ⟨state, hcards, hlibs⟩ := hended.cards
  rcases hlibs with ⟨hstate, hlibs⟩ | hlibs
  · exact h.owners.setState hcards hlibs hstate
  · exact (h.owners.release hcards hlibs).alive

theorem Kernel.Living.endRun {callRet : UInt64} (h : k.Living)
    (hend : k.endRun a callRet = some k') : k'.Living := by
  unfold Kernel.endRun at hend
  split at hend
  · next i prevCr3 switched frames level levels hframes hstack =>
    obtain rfl := Option.some.inj hend
    exact h.runEnd hframes hstack
  · cases hend

theorem Kernel.Living.runSlot (h : k.Living) (hidle : i ∉ k.runners)
    (hothers : maxDepth ≤ k.pidStack.length → k.OthersAlive i) :
    (k.runSlot a i).Living := by
  have hbegin := @Kernel.Living.runBegin k i a h hidle hothers
  unfold Kernel.runSlot
  split
  · next k1 hrun =>
    rw [hrun] at hbegin
    exact hbegin.returned
  · next k1 hrun =>
    rw [hrun] at hbegin
    exact hbegin

-- ==== creation

theorem Kernel.Living.prepare {path : List UInt8} {state : ProcState}
    (h : k.Living) (hslot : k.allocSlot = some i)
    (hpath : path.head? = some slash) :
    (k.allocPid.2.prepareProcRecord a i k.allocPid.1 path state).Living ∧
      (k.allocPid.2.prepareProcRecord a i k.allocPid.1 path state).OthersAlive
        i ∧
      i ∉ (k.allocPid.2.prepareProcRecord a i k.allocPid.1 path
        state).runners := by
  obtain ⟨hframed, hidle⟩ :=
    @Kernel.Framed.prepare k i a path state h.framed hslot hpath
  have hcards := cards_prepareProcRecord a i k.allocPid.1 path state k.allocPid.2
  have hcalm := @prepareProcRecord_calm k.allocPid.2 i a state k.allocPid.1 path
  generalize k.allocPid.2.prepareProcRecord a i k.allocPid.1 path state = k1 at *
  obtain ⟨next, halloc⟩ := allocPid_eq k
  rw [halloc] at hcards hcalm
  have hothers : k1.OthersAlive i := by
    refine (h.owners.others_of_allocSlot hslot).setCard hcards ?_
    intro d _
    rw [hcalm.dynlibs]
  exact ⟨⟨hframed, hothers.alive⟩, hothers, hidle⟩

theorem Kernel.Living.spawnPath {path : List UInt8} (h : k.Living) :
    (k.spawnPath a path).2.Living := by
  unfold Kernel.spawnPath
  split
  · exact h
  · next hpath =>
    split
    · exact h
    · next i hslot =>
      have hpath : path.head? = some slash := not_not.mp hpath
      exact (h.prepare hslot hpath).1

theorem Kernel.Living.runPath {path : List UInt8} {io : Stdio}
    (h : k.Living) : (k.runPath a path io).2.Living := by
  unfold Kernel.runPath
  simp only []
  split
  · exact h
  · next hpath =>
  split
  · exact h
  · next i hslot =>
  have hpath : path.head? = some slash := not_not.mp hpath
  obtain ⟨hprepared, hothers, hidle⟩ :=
    @Kernel.Living.prepare k i a path .running h hslot hpath
  generalize k.allocPid.2.prepareProcRecord a i k.allocPid.1 path .running
    = k1 at *
  obtain ⟨hcalm, hcards⟩ :=
    @applyStdioOverrides_calm k1 i k.currentProc io
  split
  · next k2 hstdio =>
    -- the new record is cleared again
    rw [hstdio] at hcalm hcards
    have hzero : ((k2.fdReleaseAll i).modifyProc i fun _ => Proc.zero).cards
        = Function.update k1.cards i Proc.zero.card := by
      rw [cards_update rfl, cards_fdReleaseAll, hcards]
    constructor
    · exact hprepared.framed.setCard hzero hidle nofun hcalm.pidStack
        hcalm.frames
    · refine (hothers.setCard hzero ?_).alive
      intro d _
      show k2.dynlibs d = k1.dynlibs d
      rw [hcalm.dynlibs]
  · next k2 hstdio =>
    rw [hstdio] at hcalm hcards
    have hpushed : Kernel.Living { k2 with frames := .sync i :: k2.frames } := by
      constructor
      · refine hprepared.framed.push hcards hcalm.pidStack
          (congrArg (Frame.sync i :: ·) hcalm.frames) rfl ?_
        intro j hj
        obtain rfl : i = j := Option.some.inj hj
        exact hidle
      · exact hprepared.owners.same hcards hcalm.dynlibs
    have hidle2 : i ∉ Kernel.runners
        { k2 with frames := .sync i :: k2.frames } := by
      show i ∉ (Frame.sync i :: k2.frames).filterMap Frame.runs
      rw [hcalm.frames]
      exact hidle
    have hothers2 : Kernel.OthersAlive
        { k2 with frames := .sync i :: k2.frames } i := by
      intro d hused
      have hlib : k2.dynlibs d = k1.dynlibs d := congrFun hcalm.dynlibs d
      obtain ⟨j, hj, howned⟩ := hothers d (by rw [← hlib]; exact hused)
      exact ⟨j, hj, howned.of_eq (congrFun hcards j) hlib⟩
    have hbegin := @Kernel.Living.runBegin
      { k2 with frames := .sync i :: k2.frames } i a hpushed hidle2
      fun _ => hothers2
    split
    · next k3 hrun =>
      rw [hrun] at hbegin
      exact hbegin.returned
    · next k3 hrun =>
      rw [hrun] at hbegin
      exact hbegin

-- ==== other runs

theorem awaited_some {pid : UInt64} (h : k.awaited pid = some i) :
    (k.cards i).state = .pending := by
  unfold Kernel.awaited at h
  obtain ⟨-, hi⟩ := Option.filter_eq_some_iff.mp h
  simp only [Bool.and_eq_true, decide_eq_true_eq] at hi
  exact hi.1

theorem nextPending_some (h : k.nextPending a = some i) :
    (k.cards i).state = .pending := by
  unfold Kernel.nextPending at h
  split at h
  · cases h
  · have hfound := List.find?_some h
    unfold Kernel.dispatchable at hfound
    simp only [Bool.and_eq_true, decide_eq_true_eq] at hfound
    exact hfound.1.1.1.2

theorem Kernel.Living.runPending {frame : Frame} (h : k.Living)
    (hcards : k'.cards = k.cards) (hstack : k'.pidStack = k.pidStack)
    (hframes : k'.frames = frame :: k.frames) (hframe : frame.slot = none)
    (hlibs : k'.dynlibs = k.dynlibs)
    (hstate : (k.cards i).state = .pending)
    (hdeep : maxDepth ≤ k.pidStack.length → ¬ k.owns (k.procs i).pid) :
    (k'.runSlot a i).Living := by
  have hruns : frame.runs = none := by
    cases frame with
    | entry => cases hframe
    | dispatch => rfl
    | waitPid => rfl
    | sync => rfl
  have hpushed : k'.Living := by
    constructor
    · refine h.framed.push hcards hstack hframes hruns ?_
      intro j hj
      rw [hframe] at hj
      cases hj
    · exact h.owners.same hcards hlibs
  refine hpushed.runSlot ?_ ?_
  · apply hpushed.framed.idle_of_state
    rw [hcards, hstate]
    nofun
  · intro hlevels
    rw [hstack] at hlevels
    apply hpushed.owners.others
    rintro ⟨d, hused, howner⟩
    refine hdeep hlevels ⟨d, ?_, ?_⟩
    · rw [← hlibs]
      exact hused
    · rw [← hlibs, howner]
      exact congrArg Card.pid (congrFun hcards i)

theorem Kernel.Living.waitPid {pid : UInt64} (h : k.Living)
    (hspared : Spared a (.waitPid pid) k) : (k.waitPid a pid).Living := by
  unfold Kernel.waitPid
  split
  · exact h
  · next i hawaited =>
  have hstate := awaited_some hawaited
  have hdeep : maxDepth ≤ k.pidStack.length → ¬ k.owns (k.procs i).pid :=
    fun hdeep => hspared i (.waitPid hawaited hdeep)
  simp only []
  split
  · exact h.runPending rfl rfl rfl rfl rfl hstate hdeep
  · next j hparent =>
    have hcalm := @setBlock_calm
      (k.modifyProc j fun p => { p with parentWaiting := true }) j
      (a.grown 5) .waitChild 0 pid
    refine h.runPending ?_ hcalm.pidStack
      (congrArg (Frame.waitPid k.currentProc :: ·) hcalm.frames) rfl
      hcalm.dynlibs hstate hdeep
    refine (cards_setBlock ..).trans ?_
    exact cards_same rfl rfl

theorem Kernel.Living.dispatchPendingOnce (h : k.Living)
    (hspared : Spared a .dispatch k) : (k.dispatchPendingOnce a).Living := by
  unfold Kernel.dispatchPendingOnce
  split
  · exact h
  · next i hpending =>
  have hstate := nextPending_some hpending
  have hdeep : maxDepth ≤ k.pidStack.length → ¬ k.owns (k.procs i).pid :=
    fun hdeep => hspared i (.dispatch hpending hdeep)
  simp only []
  split
  · have hcalm := @clearBlock_calm
      { k with dispatchCursor := (i.val + 1) % maxProcs } i (a.grown 5)
    exact h.runPending (cards_clearBlock ..) hcalm.pidStack
      (congrArg (Frame.dispatch :: ·) hcalm.frames) rfl hcalm.dynlibs hstate
      hdeep
  · exact h.runPending rfl rfl rfl rfl rfl hstate hdeep

theorem Kernel.Living.resume {frames : List Frame} (h : k.Living)
    (hframes : k.frames = .sync i :: frames)
    (hspared : Spared a .resume k) : (k.runSlot a i).Living := by
  apply h.runSlot
  · have hapart := h.framed.apart
    rw [hframes, List.pairwise_cons] at hapart
    rw [runners_cons hframes rfl]
    intro hi
    obtain ⟨inner, hinner, hruns⟩ := List.mem_filterMap.mp hi
    exact hapart.1 inner hinner i rfl hruns
  · intro hdeep
    exact h.owners.others (hspared i (.resume hframes hdeep))

-- ==== signals

theorem Kernel.Living.modifyLevel {f : Level → Level} (h : k.Living)
    (hf : ∀ level, (f level).pid = level.pid) : (k.modifyLevel f).Living := by
  unfold Kernel.modifyLevel
  split
  · exact h
  · next level levels hstack =>
    refine h.same rfl ?_ rfl rfl
    show (f level :: levels).map Level.pid = _
    rw [hstack, List.map_cons, List.map_cons, hf]

theorem Kernel.Living.procKill {pid signal : UInt64} (h : k.Living)
    (hspared : Spared a (.kill pid signal) k) :
    (k.procKill a pid signal).2.Living := by
  rcases procKill_cases k a pid signal with
    heq | ⟨i, s, hs, hfound, -, hsignal⟩
  · rw [heq]
    exact h
  generalize (k.procKill a pid signal).2 = k2 at hsignal ⊢
  have hcalm1 : k.Calm (k.modifyProc i (Proc.signalled s)) := modifyProc_calm
  have hcards1 : (k.modifyProc i (Proc.signalled s)).cards = k.cards :=
    cards_same rfl rfl
  generalize k.modifyProc i (Proc.signalled s) = k1 at hcalm1 hcards1 hsignal
  have hliving : k1.Living := h.calm hcalm1 hcards1
  have hidle : (k1.procs i).state ≠ .running → i ∉ k1.runners :=
    hliving.framed.idle_of_state
  cases hsignal with
  | nothing => exact hliving
  | continues hstopped =>
    refine hliving.setState setState_calm (cards_setState ..) (hidle ?_) nofun
    rw [hstopped]
    nofun
  | stops hpending =>
    refine hliving.setState setState_calm (cards_setState ..) (hidle ?_) nofun
    rw [hpending]
    nofun
  | ends hcont hstop hasleep =>
    have hstate : (k1.procs i).state = (k.procs i).state :=
      congrArg Card.state (congrFun hcards1 i)
    refine hliving.setState markExited_calm (cards_markExited ..) (hidle ?_) ?_
    · rcases hasleep with hasleep | hasleep
      · rw [hasleep]
        nofun
      · rw [hasleep]
        nofun
    · rw [hstate] at hasleep
      have hshort : CutShort a k (.kill pid signal) i := by
        by_cases hzero : signal = 0
        · subst hzero
          exact .kill hfound hasleep (by decide) (by decide)
        · rw [if_neg hzero] at hs
          rw [← hs] at hcont hstop
          exact .kill hfound hasleep hcont hstop
      rintro - ⟨d, hused, howner⟩
      refine hspared i hshort ⟨d, ?_, ?_⟩
      · rw [← hcalm1.dynlibs]
        exact hused
      · rw [← hcalm1.dynlibs, howner]
        exact congrArg Card.pid (congrFun hcards1 i)
  | asks => exact hliving.modifyLevel fun _ => rfl

-- ==== libraries

theorem Kernel.OwnersAlive.setDynlib {d : Fin dynlibMax} {slot : Dynlib}
    (h : k.OwnersAlive) (hcards : k'.cards = k.cards)
    (hlibs : k'.dynlibs = Function.update k.dynlibs d slot)
    (hslot : slot.used = true → ∃ i, (k.cards i).used = true ∧
      (k.cards i).pid = slot.ownerPid ∧ (k.cards i).state ≠ .exited) :
    k'.OwnersAlive := by
  intro d' hused
  by_cases hd : d' = d
  · subst hd
    have hlib : k'.dynlibs d' = slot := by
      rw [hlibs]
      exact Function.update_self ..
    rw [hlib] at hused
    obtain ⟨i, hi⟩ := hslot hused
    have howned : (k'.cards i).used = true ∧
        (k'.cards i).pid = (k'.dynlibs d').ownerPid ∧
        (k'.cards i).state ≠ .exited := by
      rw [hcards, hlib]
      exact hi
    exact ⟨i, howned⟩
  · have hlib : k'.dynlibs d' = k.dynlibs d' := by
      rw [hlibs]
      exact Function.update_of_ne hd ..
    rw [hlib] at hused
    obtain ⟨i, hi⟩ := h d' hused
    exact ⟨i, hi.of_eq (congrFun hcards i) hlib⟩

theorem Kernel.Living.setDynlib {d : Fin dynlibMax} {slot : Dynlib}
    (h : k.Living) (hcards : k'.cards = k.cards)
    (hstack : k'.pidStack = k.pidStack) (hframes : k'.frames = k.frames)
    (hlibs : k'.dynlibs = Function.update k.dynlibs d slot)
    (hslot : slot.used = true → ∃ i, (k.cards i).used = true ∧
      (k.cards i).pid = slot.ownerPid ∧ (k.cards i).state ≠ .exited) :
    k'.Living :=
  ⟨h.framed.same hcards (congrArg _ hstack) hframes,
    h.owners.setDynlib hcards hlibs hslot⟩

theorem Kernel.Living.currentProc (h : k.Living)
    (hcurrent : k.currentProc = some i) :
    ∃ j, (k.cards j).used = true ∧ (k.cards j).pid = (k.cards i).pid ∧
      (k.cards j).state ≠ .exited := by
  unfold Kernel.currentProc at hcurrent
  split at hcurrent
  · cases hcurrent
  · next level levels hstack =>
    obtain ⟨j, hused, hstate, hpid⟩ := h.framed.current hstack
    have hi := (findSlotByPid_some hcurrent).2
    refine ⟨j, hused, hpid.trans hi.symm, ?_⟩
    rw [hstate]
    nofun

theorem allocHandle_calm :
    k.Calm k.allocHandle.2 ∧ k.allocHandle.2.procs = k.procs := by
  unfold Kernel.allocHandle
  simp only []
  split
  · exact ⟨⟨rfl, rfl, rfl, rfl⟩, rfl⟩
  · exact ⟨⟨rfl, rfl, rfl, rfl⟩, rfl⟩

theorem Kernel.Living.dlOpen {path : List UInt8} (h : k.Living) :
    (k.dlOpen a path).2.Living := by
  unfold Kernel.dlOpen
  split
  · exact h
  next i hcurrent =>
  split
  · exact h
  have howner := h.currentProc hcurrent
  simp only []
  split
  · next d hfound =>
    -- one more reference
    have hd := List.find?_some hfound
    simp only [Bool.and_eq_true, decide_eq_true_eq] at hd
    refine h.setDynlib rfl rfl rfl rfl ?_
    intro _
    obtain ⟨j, hj⟩ := h.owners d hd.1.1
    exact ⟨j, hj⟩
  split
  · exact h
  next d hfree =>
  split
  · exact h.same rfl rfl rfl rfl
  split
  · exact h.setDynlib rfl rfl rfl rfl nofun
  · -- the new library is the caller's
    next loaded _ =>
    obtain ⟨hcalm, hprocs⟩ := @allocHandle_calm
      { k with heapUsed := a.readHeap k.heapUsed }
    exact h.setDynlib (cards_of_procs hprocs) hcalm.pidStack hcalm.frames
      (congrArg (Function.update · d _) hcalm.dynlibs) fun _ => howner

theorem Kernel.Living.dlClose {handle : UInt64} (h : k.Living) :
    (k.dlClose handle).2.Living := by
  unfold Kernel.dlClose
  split
  · exact h
  split
  · exact h
  simp only []
  split
  · exact h
  next d hfound =>
  split
  · exact h
  have hd := List.find?_some hfound
  simp only [Bool.and_eq_true, decide_eq_true_eq] at hd
  split
  · refine h.setDynlib rfl rfl rfl rfl ?_
    intro _
    obtain ⟨j, hj⟩ := h.owners d hd.1
    exact ⟨j, hj⟩
  · exact h.setDynlib rfl rfl rfl rfl nofun

-- ==== events

theorem suspendCurrent_calm (h : k.suspendCurrent a = some k') :
    k.Calm k' ∧ k'.cards = k.cards := by
  obtain ⟨i, -, -, rfl | rfl⟩ := suspendCurrent_cases h
  · exact ⟨modifyProc_calm, cards_same rfl rfl⟩
  · refine ⟨modifyProc_calm.trans setBlock_calm, ?_⟩
    rw [cards_setBlock]
    exact cards_same rfl rfl

theorem Kernel.Living.handleException {vector errorCode rip : UInt64}
    (h : k.Living)
    (hfault : k.handleException vector errorCode rip = some (status, k')) :
    k'.Living := by
  obtain ⟨i, -, -, rfl⟩ := handleException_cases hfault
  refine Kernel.Living.modifyLevel ?_ fun _ => rfl
  exact h.calm modifyProc_calm (cards_same rfl rfl)

theorem Kernel.Living.step {e : Event} (h : k.Living) (hspared : Spared a e k)
    (hstep : k.step a e = some k') : k'.Living := by
  cases e with
  | exec path io =>
    obtain ⟨-, ⟨⟩⟩ := Option.ite_none_left_eq_some.mp hstep
    exact h.runPath
  | spawn path =>
    obtain ⟨-, ⟨⟩⟩ := Option.ite_none_left_eq_some.mp hstep
    exact h.spawnPath
  | waitPid pid =>
    obtain ⟨-, ⟨⟩⟩ := Option.ite_none_left_eq_some.mp hstep
    exact h.waitPid hspared
  | requestExit status =>
    obtain ⟨-, ⟨⟩⟩ := Option.ite_none_left_eq_some.mp hstep
    exact h.modifyLevel fun _ => rfl
  | kill pid signal =>
    obtain rfl := Option.some.inj hstep
    exact h.procKill hspared
  | block reason wakeTick waitTargetPid =>
    obtain ⟨-, hstep⟩ := Option.ite_none_left_eq_some.mp hstep
    obtain ⟨i, -, rfl⟩ := Option.map_eq_some_iff.mp hstep
    exact h.calm setBlock_calm (cards_setBlock ..)
  | unblock =>
    obtain ⟨-, hstep⟩ := Option.ite_none_left_eq_some.mp hstep
    obtain ⟨i, -, rfl⟩ := Option.map_eq_some_iff.mp hstep
    exact h.calm clearBlock_calm (cards_clearBlock ..)
  | vm areas =>
    obtain ⟨-, hstep⟩ := Option.ite_none_left_eq_some.mp hstep
    obtain ⟨i, -, rfl⟩ := Option.map_eq_some_iff.mp hstep
    exact h.calm modifyProc_calm (cards_same rfl rfl)
  | dlOpen path =>
    obtain ⟨-, ⟨⟩⟩ := Option.ite_none_left_eq_some.mp hstep
    exact h.dlOpen
  | dlClose handle =>
    obtain ⟨-, ⟨⟩⟩ := Option.ite_none_left_eq_some.mp hstep
    exact h.dlClose
  | finish callRet => exact h.endRun hstep
  | suspend =>
    obtain ⟨k1, hsuspend, hend⟩ := Option.bind_eq_some_iff.mp hstep
    obtain ⟨hcalm, hcards⟩ := suspendCurrent_calm hsuspend
    exact (h.calm hcalm hcards).endRun hend
  | fault vector errorCode rip =>
    obtain ⟨⟨status, k1⟩, hfault, hend⟩ := Option.bind_eq_some_iff.mp hstep
    exact (h.handleException hfault).endRun hend
  | dispatch =>
    obtain rfl := Option.some.inj hstep
    exact h.dispatchPendingOnce hspared
  | resume =>
    simp only [Kernel.step] at hstep
    split at hstep
    · next i frames hframes =>
      obtain rfl := Option.some.inj hstep
      exact h.resume hframes hspared
    · cases hstep
  | timer tick =>
    obtain rfl := Option.some.inj hstep
    exact h.same rfl rfl rfl rfl

theorem living_of_booted (h : k.Booted) : k.Living := by
  have hcards : ∀ i, k.cards i = Proc.zero.card :=
    fun i => congrArg Proc.card (h.procs i)
  have hrunners : k.runners = [] := by
    unfold Kernel.runners
    rw [h.frames]
    rfl
  refine ⟨⟨?_, ?_, ?_, ?_, ?_⟩, ?_⟩
  · intro i hused
    rw [hcards] at hused
    cases hused
  · intro i hused
    rw [hcards] at hused
    cases hused
  · rw [h.pidStack, hrunners]
    rfl
  · rw [hrunners]
    nofun
  · rw [h.frames]
    exact .nil
  · intro d hused
    rw [h.dynlibs] at hused
    cases hused

/-- In a run that ends no owner while it does not run, owners are alive. -/
theorem ownersAlive_of_run {k₀ : Kernel} (h₀ : k₀.Booted)
    (hrun : RunIf Spared k₀ k) : k.OwnersAlive := by
  have hliving : k.Living := by
    induction hrun with
    | refl => exact living_of_booted h₀
    | tail _ hstep ih =>
      obtain ⟨a, e, hspared, hstep⟩ := hstep
      exact ih.step hspared hstep
  exact hliving.owners

end dynlibs

/-- No kill, and no run that is nested too deeply. -/
def gentle : Event → Kernel → Bool
  | .kill _ _, _ => false
  | _, k => k.pidStack.length < maxDepth

theorem spared_of_gentle (e : Event) (k : Kernel) (h : gentle e k = true) :
    Spared ample e k := by
  intro i hshort
  cases hshort with
  | kill => cases h
  | waitPid _ hdeep => exact absurd (of_decide_eq_true h) (not_lt.mpr hdeep)
  | dispatch _ hdeep => exact absurd (of_decide_eq_true h) (not_lt.mpr hdeep)
  | resume _ hdeep => exact absurd (of_decide_eq_true h) (not_lt.mpr hdeep)

/-- A program that has opened a library, and is suspended. -/
def opening : List Event :=
  [.spawn (txt "/p"), .dispatch, .dlOpen (txt "/l"), .suspend]

theorem ownersAlive_of_run_opening :
    ((smallKernel.runs ample gentle opening).any fun k => (k.dynlibs 0).used)
        = true ∧
      ∀ k, smallKernel.runs ample gentle opening = some k →
        k.OwnersAlive :=
  ⟨by decide +kernel, fun _ h =>
    ownersAlive_of_run smallKernel_booted (runs_runIf spared_of_gentle h)⟩

/-- Another program kills it, and the library is still in use. -/
theorem killed_not_ownersAlive :
    ∃ k₀ k, k₀.Booted ∧ RunIf (fun _ _ _ => True) k₀ k ∧ ¬ k.OwnersAlive := by
  have hrun : ((smallKernel.runs ample (fun _ _ => true)
      (opening ++ [.spawn (txt "/q"), .dispatch, .kill 1 signalKill])).any
        fun k => (k.dynlibs 0).used && decide (∀ i, (k.procs i).used = true →
          (k.procs i).pid = (k.dynlibs 0).ownerPid →
            (k.procs i).state = .exited)) = true := by
    decide +kernel
  obtain ⟨k, hk, hdead⟩ := (Option.any_eq_true ..).mp hrun
  simp only [Bool.and_eq_true, decide_eq_true_eq] at hdead
  refine ⟨smallKernel, k, smallKernel_booted,
    runs_runIf (fun _ _ _ => trivial) hk, ?_⟩
  intro halive
  obtain ⟨i, hused, hpid, hstate⟩ := halive 0 hdead.1
  exact hstate (hdead.2 i hused hpid)

end Clks.Exec
