/-
A run leaves the stacks and the active address space as it has found them.

The run may contain any number of others, and ends with whatever event takes
its call off the stack of calls again: that it is balanced all the same is
read off the invariant on both sides.
-/
import Clks.Exec.Balance

namespace Clks.Exec

section neutral

variable {k k' : Kernel} {i : Fin maxProcs} {a : Answers} {e : Event}

-- ==== stack of calls

theorem Kernel.Calls.frames {kc : Kernel} (hcall : k.Calls a e i kc) :
    (∃ frame, kc.frames = frame :: k.frames ∧ frame.runs = none) ∨
      ∃ frames, k.frames = .sync i :: frames ∧ kc = k := by
  cases hcall with
  | @exec path io i k1 hidle hpath hslot hstdio =>
    exact .inl ⟨_, congrArg (Frame.sync i :: ·) (stdio_frames hstdio), rfl⟩
  | @waitPid pid i hidle hawaited =>
    exact .inl ⟨_, congrArg (_ :: ·) markWaiting_quiet.frames, rfl⟩
  | @dispatch i hpending =>
    exact .inl ⟨_, congrArg (_ :: ·) wake_quiet.frames, rfl⟩
  | @resume i frames hframes => exact .inr ⟨frames, hframes, rfl⟩

theorem Kernel.Balanced.runSlot_frames (h : k.Balanced) (hidle : i ∉ k.runners) :
    k.frames <:+ (k.runSlot a i).frames ∨
      ∃ frame, k.frames = frame :: (k.runSlot a i).frames ∧
        frame.runs = none := by
  obtain ⟨-, hfail, hstart⟩ := @Kernel.Balanced.runBegin k i a h hidle
  have hbegan := @runBegin_began k i a (h.framed.pids i)
  unfold Kernel.runSlot
  generalize k.runBegin a i = r at hbegan hfail hstart ⊢
  obtain ⟨started, k1⟩ := r
  cases started with
  | true =>
    refine .inl ?_
    show k.frames <:+ k1.frames
    rw [hstart rfl]
    exact List.suffix_cons ..
  | false =>
    have hframes : k1.frames = k.frames := by
      cases hbegan with
      | unused => rfl
      | refused _ _ hcalm _ => exact hcalm.frames
      | failed _ _ _ _ hframes _ => exact hframes
    rcases (@returned_returned k1 a false failed).frames with heq | ⟨frame, heq, hnone⟩
    · refine .inl ?_
      show k.frames <:+ (k1.returned a false failed).frames
      exact ⟨[], (heq.trans hframes).symm⟩
    · exact .inr ⟨frame, hframes.symm.trans heq, hnone⟩

theorem Kernel.Balanced.frames_cases (h : k.Balanced)
    (hstep : k.step a e = some k') :
    k.frames <:+ k'.frames ∨
      (∃ j, k.frames = .sync j :: k'.frames) ∨
      ∃ j prevCr3 switched frames,
        k.frames = .entry j prevCr3 switched :: frames ∧
          (k'.frames = frames ∨
            ∃ frame, frames = frame :: k'.frames ∧ frame.runs = none) ∧
          k'.currentCr3 = prevCr3 ∧ (k'.procs j).Left := by
  rcases h.cases hstep with ⟨i, kc, hcall, rfl⟩ | ⟨k1, callRet, hquiet, hend⟩ |
    ⟨-, hframes⟩
  · obtain ⟨hkc, hidle⟩ := hcall.balanced h
    rcases @Kernel.Balanced.runSlot_frames kc i a hkc hidle with
      hgrown | ⟨frame, hframe, -⟩
    · refine .inl (List.IsSuffix.trans ?_ hgrown)
      rcases hcall.frames with ⟨frame, hframe, -⟩ | ⟨frames, -, rfl⟩
      · rw [hframe]
        exact List.suffix_cons ..
      · exact List.suffix_rfl
    · rcases hcall.frames with ⟨frame', hframe', -⟩ | ⟨frames, hframes, rfl⟩
      · refine .inl ?_
        rw [hframe'] at hframe
        exact ⟨[], (List.cons.inj hframe).2⟩
      · refine .inr (.inl ⟨i, ?_⟩)
        rw [hframes] at hframe ⊢
        rw [(List.cons.inj hframe).2]
  · obtain ⟨-, hend⟩ := (h.quiet hquiet).endRun hend
    rw [hquiet.frames] at hend
    exact .inr (.inr hend)
  · exact .inl ⟨[], hframes.symm⟩

theorem Kernel.Balanced.suffix {frames : List Frame} (h : k.Balanced)
    (hstep : k.step a e = some k') (hframes : frames <:+ k.frames)
    (hlength : frames.length ≤ k'.frames.length) : frames <:+ k'.frames := by
  have hback : k'.frames <:+ k.frames → frames <:+ k'.frames :=
    fun hk' => List.suffix_of_suffix_length_le hframes hk' hlength
  rcases h.frames_cases hstep with hgrown | ⟨j, hpopped⟩ |
    ⟨j, prevCr3, switched, fs, hfs, hpopped, -⟩
  · exact hframes.trans hgrown
  · apply hback
    rw [hpopped]
    exact List.suffix_cons ..
  · apply hback
    rw [hfs]
    rcases hpopped with hpopped | ⟨frame, hpopped, -⟩
    · rw [hpopped]
      exact List.suffix_cons ..
    · rw [hpopped]
      exact (List.suffix_cons ..).trans (List.suffix_cons ..)

theorem Kernel.Balanced.during {kc k1 k2 : Kernel} (h : k1.Balanced)
    (hframes : k1.frames.length = kc.frames.length + 1)
    (hrun : RunIf (fun _ _ k => kc.frames.length < k.frames.length) k1 k2) :
    k2.Balanced ∧
      (kc.frames.length < k2.frames.length → k1.frames <:+ k2.frames) := by
  induction hrun with
  | refl => exact ⟨h, fun _ => List.suffix_rfl⟩
  | tail _ hstep ih =>
    obtain ⟨hbalanced, hsuffix⟩ := ih
    obtain ⟨a, e, hdeep, hstep⟩ := hstep
    refine ⟨hbalanced.step hstep, fun hlength => ?_⟩
    exact hbalanced.suffix hstep (hsuffix hdeep) (by omega)

theorem Kernel.Balanced.pidStack_length (h : k.Balanced) :
    k.pidStack.length = k.runners.length := by
  have hlength := congrArg List.length h.framed.stack
  rwa [List.length_map, List.length_map] at hlength

/-- Whatever happens between the beginning of a run and its return, the
stacks and the active address space are then as they were, and the process
has exited, is stopped, or waits with its frame. -/
theorem runProcSlot_neutral {k₀ kc : Kernel} (h₀ : k₀.Started)
    (hrun : RunIf (fun _ _ _ => True) k₀ k) (hcall : k.Calls a e i kc) :
    ((kc.runBegin a i).1 = false → Neutral kc (kc.runBegin a i).2 i) ∧
      ((kc.runBegin a i).1 = true → ∀ k₂ k₃,
        RunIf (fun _ _ k => kc.frames.length < k.frames.length)
          (kc.runBegin a i).2 k₂ →
        StepIf (fun _ _ k => kc.frames.length < k.frames.length) k₂ k₃ →
        k₃.frames.length ≤ kc.frames.length → Neutral kc k₃ i) := by
  obtain ⟨hkc, hidle⟩ :=
    hcall.balanced (balanced_of_run (balanced_of_started h₀) hrun)
  obtain ⟨hbegin, hfail, hstart⟩ := @Kernel.Balanced.runBegin kc i a hkc hidle
  refine ⟨hfail, fun hstarted k₂ k₃ hinner hlast hreturned => ?_⟩
  have hframes := hstart hstarted
  generalize (kc.runBegin a i).2 = k₁ at hbegin hframes hinner
  obtain ⟨hk₂, hsuffix⟩ := hbegin.during
    (show k₁.frames.length = kc.frames.length + 1 by simp [hframes]) hinner
  obtain ⟨a', e', hdeep, hstep⟩ := hlast
  have hk₃ := hk₂.step hstep
  obtain ⟨above, habove⟩ := hsuffix hdeep
  rw [hframes] at habove
  have hlength : k₂.frames.length = above.length + (kc.frames.length + 1) := by
    rw [← habove, List.length_append, List.length_cons]
  -- what the last event has taken off is this run, and perhaps its caller
  have hruns : ∀ {frames : List Frame}, frames = kc.frames →
      (k₃.frames = frames ∨
        ∃ frame, frames = frame :: k₃.frames ∧ frame.runs = none) →
      k₃.runners = kc.runners := by
    rintro frames rfl (heq | ⟨frame, heq, hnone⟩)
    · exact congrArg (List.filterMap Frame.runs) heq
    · exact (runners_cons heq hnone).symm
  rcases hk₂.frames_cases hstep with hgrown | ⟨j, hpopped⟩ |
    ⟨j, prevCr3, switched, frames, hpop, hrest, hcurrent, hleft⟩
  · have := hgrown.length_le
    omega
  · -- the run is not over when its caller idles
    have htop := habove.trans hpopped
    have hlen := congrArg List.length hpopped
    rw [List.length_cons] at hlen
    cases above with
    | nil => cases htop
    | cons frame above =>
      rw [List.length_cons] at hlength
      omega
  · have htop := habove.trans hpop
    cases above with
    | nil =>
      obtain ⟨hentry, rfl⟩ := List.cons.inj htop
      cases hentry
      have hrunners := hruns rfl hrest
      refine ⟨?_, ?_, hcurrent, fun _ => hleft⟩
      · rw [hk₃.pidStack_length, hkc.pidStack_length, hrunners]
      · rw [hk₃.depth, hkc.depth, hrunners]
    | cons frame above =>
      obtain ⟨-, hrestframes⟩ := List.cons.inj htop
      change above ++ _ = frames at hrestframes
      rw [List.length_cons] at hlength
      have hfs := congrArg List.length hrestframes
      rw [List.length_append, List.length_cons] at hfs
      rcases hrest with heq | ⟨frame', heq, hnone⟩
      · rw [heq] at hreturned
        omega
      · -- a run is never taken off with the run above it
        have hlen := congrArg List.length heq
        rw [List.length_cons] at hlen
        cases above with
        | nil =>
          rw [List.nil_append, heq] at hrestframes
          obtain ⟨rfl, -⟩ := List.cons.inj hrestframes
          cases hnone
        | cons frame'' above =>
          rw [List.length_cons] at hfs
          omega

end neutral

theorem smallKernel_started : smallKernel.Started where
  toBooted := smallKernel_booted
  runningDepth := rfl
  currentCr3 := rfl
  freeStack := by decide

/-- A process has been spawned. -/
def spawned : Kernel := (smallKernel.spawnPath ample (txt "/p")).2

/-- It is dispatched, and runs in an address space of its own until it is
suspended. -/
theorem runProcSlot_neutral_suspended :
    ∃ kc k₃ : Kernel, spawned.Calls ample .dispatch 0 kc ∧
      (kc.runBegin ample 0).2.currentCr3 ≠ kc.currentCr3 ∧
      (kc.runBegin ample 0).2.step ample .suspend = some k₃ ∧
      Neutral kc k₃ 0 := by
  have hcall : spawned.Calls ample .dispatch 0
      { spawned.wake ample 0 with
        pendingDispatchActive := true
        frames := .dispatch :: (spawned.wake ample 0).frames } :=
    .dispatch (by decide +kernel)
  have hrun : RunIf (fun _ _ _ => True) smallKernel spawned :=
    .single ⟨ample, .spawn (txt "/p"), trivial, rfl⟩
  generalize hkc : ({ spawned.wake ample 0 with
    pendingDispatchActive := true
    frames := .dispatch :: (spawned.wake ample 0).frames } : Kernel) = kc
    at hcall
  have hbegin : (kc.runBegin ample 0).1 = true := by
    rw [← hkc]
    decide +kernel
  have hdeep : kc.frames.length < (kc.runBegin ample 0).2.frames.length := by
    rw [← hkc]
    decide +kernel
  have hspace : (kc.runBegin ample 0).2.currentCr3 ≠ kc.currentCr3 := by
    rw [← hkc]
    decide +kernel
  have hstep : ((kc.runBegin ample 0).2.step ample .suspend).any
      (fun k₃ => k₃.frames.length ≤ kc.frames.length) = true := by
    rw [← hkc]
    decide +kernel
  obtain ⟨k₃, hsuspend, hshort⟩ := (Option.any_eq_true ..).mp hstep
  exact ⟨kc, k₃, hcall, hspace, hsuspend,
    (runProcSlot_neutral smallKernel_started hrun hcall).2 hbegin _ k₃ .refl
      ⟨ample, .suspend, hdeep, hsuspend⟩ (of_decide_eq_true hshort)⟩

-- ==== what holds in every state

section states

variable {k₀ k : Kernel}

/-- The stack of pids is that of the processes whose runs are nested, each of
them marked as running, and none of them run twice. -/
theorem nested_of_run (h0 : k₀.Started)
    (hrun : RunIf (fun _ _ _ => True) k₀ k) :
    k.runningDepth = k.runners.length ∧
      k.pidStack.map Level.pid = k.runners.map (fun i => (k.procs i).pid) ∧
      k.runners.Nodup ∧
      ∀ i ∈ k.runners, (k.procs i).used = true ∧
        (k.procs i).state = .running := by
  have h := balanced_of_run (balanced_of_started h0) hrun
  refine ⟨h.depth, h.framed.stack, ?_, h.framed.running⟩
  refine List.pairwise_filterMap.mpr (h.framed.apart.imp ?_)
  intro outer inner hapart i houter j hinner hij
  subst hij
  refine hapart i ?_ hinner
  cases outer with
  | entry => exact houter
  | _ => cases houter

end states

/-- A program runs another one. -/
theorem nested_twice : ∃ k, RunIf (fun _ _ _ => True) smallKernel k ∧
    k.runners.length = 2 := by
  have hruns : ((smallKernel.runs ample (fun _ _ => true)
      [.exec (txt "/p") ⟨fdInherit, fdInherit, fdInherit⟩,
        .exec (txt "/q") ⟨fdInherit, fdInherit, fdInherit⟩]).any fun k =>
      decide (k.runners.length = 2)) = true := by
    decide +kernel
  obtain ⟨k, hk, hlength⟩ := (Option.any_eq_true ..).mp hruns
  exact ⟨k, runs_runIf (fun _ _ _ => trivial) hk, of_decide_eq_true hlength⟩

theorem nested_of_run_nested : ∃ k : Kernel, k.runners.length = 2 ∧
    k.runningDepth = 2 ∧ k.runners.Nodup := by
  obtain ⟨k, hrun, hlength⟩ := nested_twice
  obtain ⟨hdepth, -, hnodup, -⟩ := nested_of_run smallKernel_started hrun
  exact ⟨k, hlength, hdepth.trans hlength, hnodup⟩

end Clks.Exec
