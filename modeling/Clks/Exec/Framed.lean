/-
The calls on the kernel's stack and the processes that they run.

`Kernel.Framed` is kept by every event: each level of the pid stack is one
run, of a process that is running, and no process is run twice at once. It
is proved event by event together with what depends on it, so this module
holds its parts: what a change of one record, a new call or a return does
to it.
-/
import Clks.Exec.Running

namespace Clks.Exec

/-- The slots that are run, from the innermost on. -/
def Kernel.runners (k : Kernel) : List (Fin maxProcs) :=
  k.frames.filterMap Frame.runs

/-- The stack of calls and the process table agree. -/
structure Kernel.Framed (k : Kernel) : Prop where
  pids : ∀ i, (k.cards i).used = true → (k.cards i).pid ≠ 0
  rooted : ∀ i, (k.cards i).used = true →
    (k.cards i).path.head? = some slash
  stack : k.pidStack.map Level.pid = k.runners.map fun i => (k.cards i).pid
  running : ∀ i ∈ k.runners, (k.cards i).used = true ∧
    (k.cards i).state = .running
  apart : k.frames.Pairwise fun outer inner =>
    ∀ i, outer.slot = some i → inner.runs ≠ some i

section framed

variable {k k' : Kernel} {i : Fin maxProcs} {card : Card} {a : Answers}
  {frame : Frame}

-- ==== records

theorem Kernel.Framed.same (h : k.Framed) (hcards : k'.cards = k.cards)
    (hstack : k'.pidStack.map Level.pid = k.pidStack.map Level.pid)
    (hframes : k'.frames = k.frames) : k'.Framed := by
  have hrunners : k'.runners = k.runners := by
    unfold Kernel.runners
    rw [hframes]
  refine ⟨?_, ?_, ?_, ?_, ?_⟩
  · rw [hcards]
    exact h.pids
  · rw [hcards]
    exact h.rooted
  · rw [hcards, hrunners, hstack]
    exact h.stack
  · rw [hcards, hrunners]
    exact h.running
  · rw [hframes]
    exact h.apart

theorem Kernel.Framed.setCard (h : k.Framed)
    (hcards : k'.cards = Function.update k.cards i card)
    (hidle : i ∉ k.runners)
    (hcard : card.used = true → card.pid ≠ 0 ∧ card.path.head? = some slash)
    (hstack : k'.pidStack = k.pidStack) (hframes : k'.frames = k.frames) :
    k'.Framed := by
  have hrunners : k'.runners = k.runners := by
    unfold Kernel.runners
    rw [hframes]
  have hself : k'.cards i = card := by
    rw [hcards]
    exact Function.update_self ..
  have hother : ∀ j, j ≠ i → k'.cards j = k.cards j := by
    intro j hj
    rw [hcards]
    exact Function.update_of_ne hj ..
  have hrun : ∀ j ∈ k.runners, k'.cards j = k.cards j := by
    intro j hj
    apply hother
    rintro rfl
    exact hidle hj
  refine ⟨?_, ?_, ?_, ?_, ?_⟩
  · intro j hused
    by_cases hj : j = i
    · subst hj
      rw [hself] at hused ⊢
      exact (hcard hused).1
    · rw [hother j hj] at hused ⊢
      exact h.pids j hused
  · intro j hused
    by_cases hj : j = i
    · subst hj
      rw [hself] at hused ⊢
      exact (hcard hused).2
    · rw [hother j hj] at hused ⊢
      exact h.rooted j hused
  · rw [hrunners, hstack, h.stack]
    apply List.map_congr_left
    intro j hj
    rw [hrun j hj]
  · intro j hj
    rw [hrunners] at hj
    rw [hrun j hj]
    exact h.running j hj
  · rw [hframes]
    exact h.apart

-- ==== calls

theorem runners_cons {frames : List Frame} (hframes : k.frames = frame :: frames)
    (hframe : frame.runs = none) : k.runners = frames.filterMap Frame.runs := by
  unfold Kernel.runners
  rw [hframes, List.filterMap_cons_none hframe]

theorem Kernel.Framed.push (h : k.Framed) (hcards : k'.cards = k.cards)
    (hstack : k'.pidStack = k.pidStack) (hframes : k'.frames = frame :: k.frames)
    (hframe : frame.runs = none)
    (hslot : ∀ i, frame.slot = some i → i ∉ k.runners) : k'.Framed := by
  have hrunners : k'.runners = k.runners := runners_cons hframes hframe
  refine ⟨?_, ?_, ?_, ?_, ?_⟩
  · rw [hcards]
    exact h.pids
  · rw [hcards]
    exact h.rooted
  · rw [hcards, hrunners, hstack]
    exact h.stack
  · rw [hcards, hrunners]
    exact h.running
  · rw [hframes]
    refine List.pairwise_cons.mpr ⟨?_, h.apart⟩
    intro inner hinner i hi hruns
    exact hslot i hi (List.mem_filterMap.mpr ⟨inner, hinner, hruns⟩)

theorem Kernel.Framed.pop (h : k.Framed) (hcards : k'.cards = k.cards)
    (hstack : k'.pidStack = k.pidStack)
    (hframes : k'.frames = k.frames ∨
      ∃ frame, k.frames = frame :: k'.frames ∧ frame.runs = none) :
    k'.Framed := by
  rcases hframes with hframes | ⟨frame, hframes, hframe⟩
  · exact h.same hcards (congrArg _ hstack) hframes
  have hrunners : k'.runners = k.runners := (runners_cons hframes hframe).symm
  refine ⟨?_, ?_, ?_, ?_, ?_⟩
  · rw [hcards]
    exact h.pids
  · rw [hcards]
    exact h.rooted
  · rw [hcards, hrunners, hstack]
    exact h.stack
  · rw [hcards, hrunners]
    exact h.running
  · have hapart := h.apart
    rw [hframes] at hapart
    exact (List.pairwise_cons.mp hapart).2

theorem Kernel.Framed.returned (h : k.Framed) (hreturned : k.Returned k') :
    k'.Framed :=
  h.pop hreturned.cards hreturned.pidStack hreturned.frames

-- ==== runs

theorem cards_self (hcards : k'.cards = Function.update k.cards i card) :
    k'.cards i = card := by
  rw [hcards]
  exact Function.update_self ..

theorem Kernel.Framed.start {prevCr3 : Nat} {switched : Bool} {level : Level}
    (h : k.Framed) (hidle : i ∉ k.runners)
    (hused : (k.cards i).used = true)
    (hcards : k'.cards
      = Function.update k.cards i { k.cards i with state := .running })
    (hlevel : level.pid = (k.cards i).pid)
    (hstack : k'.pidStack = level :: k.pidStack)
    (hframes : k'.frames = .entry i prevCr3 switched :: k.frames) :
    k'.Framed := by
  -- first the record, then the call
  have hrecord : Kernel.Framed
      { k' with pidStack := k.pidStack, frames := k.frames } := by
    refine h.setCard hcards hidle ?_ rfl rfl
    intro _
    exact ⟨h.pids i hused, h.rooted i hused⟩
  have hrunners : k'.runners = i :: k.runners := by
    unfold Kernel.runners
    rw [hframes]
    rfl
  have hself := cards_self hcards
  refine ⟨hrecord.pids, hrecord.rooted, ?_, ?_, ?_⟩
  · rw [hstack, hrunners, List.map_cons, List.map_cons, hself, hlevel]
    congr 1
    exact hrecord.stack
  · rw [hrunners]
    intro j hj
    rcases List.mem_cons.mp hj with rfl | hj
    · rw [hself]
      exact ⟨hused, rfl⟩
    · exact hrecord.running j hj
  · rw [hframes]
    refine List.pairwise_cons.mpr ⟨?_, h.apart⟩
    intro inner hinner j hj hruns
    obtain rfl : i = j := Option.some.inj hj
    exact hidle (List.mem_filterMap.mpr ⟨inner, hinner, hruns⟩)

theorem Kernel.Framed.finish {prevCr3 : Nat} {switched : Bool}
    {frames : List Frame} {level : Level} {levels : List Level}
    (h : k.Framed) (hframes : k.frames = .entry i prevCr3 switched :: frames)
    (hstack : k.pidStack = level :: levels) :
    Kernel.Framed { k with frames, pidStack := levels } ∧
      i ∉ frames.filterMap Frame.runs := by
  have hrunners : k.runners = i :: frames.filterMap Frame.runs := by
    unfold Kernel.runners
    rw [hframes]
    rfl
  have hapart := h.apart
  rw [hframes, List.pairwise_cons] at hapart
  constructor
  · refine ⟨h.pids, h.rooted, ?_, ?_, hapart.2⟩
    · have hpids := h.stack
      rw [hstack, hrunners, List.map_cons, List.map_cons] at hpids
      exact (List.cons.inj hpids).2
    · intro j hj
      apply h.running
      rw [hrunners]
      exact List.mem_cons_of_mem i hj
  · intro hi
    obtain ⟨inner, hinner, hruns⟩ := List.mem_filterMap.mp hi
    exact hapart.1 inner hinner i rfl hruns

theorem Kernel.Framed.began {r : Bool × Kernel} (h : k.Framed)
    (hidle : i ∉ k.runners) (hbegan : Began k i r) : r.2.Framed := by
  have hcard : (k.cards i).used = true → ∀ state : ProcState,
      ({ k.cards i with state } : Card).used = true →
        (k.cards i).pid ≠ 0 ∧ (k.cards i).path.head? = some slash := by
    intro hused _ _
    exact ⟨h.pids i hused, h.rooted i hused⟩
  cases hbegan with
  | unused hunused => exact h
  | @refused k' hused hrefuses hcalm hcards =>
    exact h.setCard hcards hidle (hcard hused _) hcalm.pidStack hcalm.frames
  | @failed k' hused hcards hlibs hstack hframes hnext =>
    exact h.setCard hcards hidle (hcard hused _) hstack hframes
  | @started k' prevCr3 switched hused hcards hlibs hstack hframes hnext =>
    exact h.start hidle hused hcards rfl hstack hframes

theorem Kernel.Framed.ended {prevCr3 : Nat} {switched : Bool}
    {frames : List Frame} {level : Level} {levels : List Level}
    (h : k.Framed) (hframes : k.frames = .entry i prevCr3 switched :: frames)
    (hstack : k.pidStack = level :: levels)
    (hended : Ended { k with frames } k' i) : k'.Framed := by
  obtain ⟨hfinish, hidle⟩ := h.finish hframes hstack
  have hi : i ∈ k.runners := by
    unfold Kernel.runners
    rw [hframes]
    exact List.mem_cons_self
  have hused := (h.running i hi).1
  obtain ⟨state, hcards, hlibs⟩ := hended.cards
  have hrecord : Kernel.Framed { k' with frames } := by
    refine hfinish.setCard hcards hidle ?_ ?_ rfl
    · intro _
      exact ⟨h.pids i hused, h.rooted i hused⟩
    · show k'.pidStack = levels
      rw [hended.pidStack]
      exact congrArg List.tail hstack
  exact hrecord.pop rfl rfl hended.frames

theorem Kernel.Framed.current {level : Level} {levels : List Level}
    (h : k.Framed) (hstack : k.pidStack = level :: levels) :
    ∃ i, (k.cards i).used = true ∧ (k.cards i).state = .running ∧
      (k.cards i).pid = level.pid := by
  have hpids := h.stack
  rw [hstack, List.map_cons] at hpids
  cases hrunners : k.runners with
  | nil =>
    rw [hrunners] at hpids
    cases hpids
  | cons i rest =>
    rw [hrunners, List.map_cons] at hpids
    have hi : i ∈ k.runners := by
      rw [hrunners]
      exact List.mem_cons_self
    obtain ⟨hused, hstate⟩ := h.running i hi
    exact ⟨i, hused, hstate, (List.cons.inj hpids).1.symm⟩

-- ==== look up

theorem findSlotByPid_some {pid : UInt64} (h : k.findSlotByPid pid = some i) :
    (k.cards i).used = true ∧ (k.cards i).pid = pid := by
  have hfound := List.find?_some h
  simp only [Bool.and_eq_true, decide_eq_true_eq] at hfound
  exact hfound

theorem allocSlot_some (h : k.allocSlot = some i) :
    (k.cards i).used = false ∨ (k.cards i).state = .exited := by
  unfold Kernel.allocSlot at h
  split at h
  · next j hfree =>
    obtain rfl : j = i := Option.some.inj h
    have hfound := List.find?_some hfree
    simp only [Bool.not_eq_true'] at hfound
    exact .inl hfound
  · have hfound := List.find?_some h
    simp only [decide_eq_true_eq] at hfound
    exact .inr hfound

theorem Kernel.Framed.idle_of_allocSlot (h : k.Framed)
    (hslot : k.allocSlot = some i) : i ∉ k.runners := by
  intro hi
  obtain ⟨hused, hstate⟩ := h.running i hi
  rcases allocSlot_some hslot with hfree | hexited
  · rw [hfree] at hused
    cases hused
  · rw [hexited] at hstate
    cases hstate

theorem Kernel.Framed.idle_of_state (h : k.Framed)
    (hstate : (k.cards i).state ≠ .running) : i ∉ k.runners :=
  fun hi => hstate (h.running i hi).2

theorem allocPid_eq (k : Kernel) :
    ∃ next, k.allocPid.2 = { k with nextPid := next } := by
  unfold Kernel.allocPid
  simp only []
  split
  · exact ⟨_, rfl⟩
  · exact ⟨_, rfl⟩

theorem stdio_frames {path : List UInt8} {io : Stdio} {ready : Bool}
    {k : Kernel} {i : Fin maxProcs} {a : Answers} {k1 : Kernel}
    (hstdio : (k.allocPid.2.prepareProcRecord a i k.allocPid.1 path
      .running).applyStdioOverrides i k.currentProc io = (ready, k1)) :
    k1.frames = k.frames := by
  have hcalm := (@applyStdioOverrides_calm
    (k.allocPid.2.prepareProcRecord a i k.allocPid.1 path .running) i
    k.currentProc io).1
  rw [hstdio] at hcalm
  obtain ⟨next, halloc⟩ := allocPid_eq k
  refine hcalm.frames.trans (prepareProcRecord_calm.frames.trans ?_)
  rw [halloc]

theorem allocPid_ne (k : Kernel) : k.allocPid.1 ≠ 0 := by
  unfold Kernel.allocPid
  simp only []
  by_cases hzero : k.nextPid = 0
  · rw [if_pos hzero, hzero]
    show (if (0 : UInt64) + 1 = 0 then (1 : UInt64) else 0 + 1) ≠ 0
    decide
  · rw [if_neg hzero]
    exact hzero

-- ==== creation

theorem Kernel.Framed.prepare {path : List UInt8} {state : ProcState}
    (h : k.Framed) (hslot : k.allocSlot = some i)
    (hpath : path.head? = some slash) :
    (k.allocPid.2.prepareProcRecord a i k.allocPid.1 path state).Framed ∧
      i ∉ (k.allocPid.2.prepareProcRecord a i k.allocPid.1 path
        state).runners := by
  have hcards := cards_prepareProcRecord a i k.allocPid.1 path state k.allocPid.2
  have hcalm := @prepareProcRecord_calm k.allocPid.2 i a state k.allocPid.1 path
  generalize k.allocPid.2.prepareProcRecord a i k.allocPid.1 path state = k1 at *
  obtain ⟨next, halloc⟩ := allocPid_eq k
  rw [halloc] at hcards hcalm
  have hidle := h.idle_of_allocSlot hslot
  constructor
  · refine h.setCard hcards hidle ?_ hcalm.pidStack hcalm.frames
    intro _
    refine ⟨allocPid_ne k, ?_⟩
    show (path.take (pathMax - 1)).head? = some slash
    rw [List.head?_take, if_neg (by decide)]
    exact hpath
  · unfold Kernel.runners
    rw [hcalm.frames]
    exact hidle

end framed

end Clks.Exec
