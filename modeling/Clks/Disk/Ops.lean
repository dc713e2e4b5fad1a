/-
Runs of the operations that change a volume.

`Op` names the four operations with their arguments, `Step` is one of
them that succeeds, and a run is any number of steps. What a step does
is `Op.Effect`: it respects the frame of all steps, leaves a consistent
volume, and leaves alone the files that its path does not name. Facts
about runs are inductions over it.
-/
import Clks.Disk.Proofs.Append
import Clks.Disk.Proofs.Mkdir
import Clks.Disk.Proofs.Remove

namespace Clks.Disk

open Bytes Linked

-- ==== the operations

/-- An operation that changes a volume, with its arguments. -/
inductive Op
  | mkdir (path : List UInt8)
  | writeAll (path : List UInt8) (data : Option Mem) (size : Nat)
  | append (path : List UInt8) (data : Option Mem) (size : Nat)
  | remove (path : List UInt8)

namespace Op

/-- The command of an operation. -/
def run : Op → Cmd State Unit
  | mkdir path => Disk.mkdir path
  | writeAll path data size => Disk.writeAll path data size
  | append path data size => Disk.append path data size
  | remove path => Disk.remove path

/-- The path that an operation is called with. -/
def path : Op → List UInt8
  | mkdir path => path
  | writeAll path _ _ => path
  | append path _ _ => path
  | remove path => path

/-- A size is a 64-bit number. -/
def Valid : Op → Prop
  | mkdir _ => True
  | writeAll _ _ size => size < 2 ^ 64
  | append _ _ size => size < 2 ^ 64
  | remove _ => True

/-- The path of the operation names the entry in the slot. -/
def Names (s : State) (op : Op) (X : DirSlot) : Prop :=
  ∃ lookup, resolvePath s.toEnv s.vol op.path = some lookup ∧
    lookup.found = true ∧ lookup.slot = X

end Op

/-- An operation succeeds. -/
def Step (s s' : State) : Prop :=
  ∃ op : Op, op.Valid ∧ op.run s = (some (), s')

/-- An operation succeeds whose path does not name the slot. -/
def StepBeside (X : DirSlot) (s s' : State) : Prop :=
  ∃ op : Op, op.Valid ∧ op.run s = (some (), s') ∧ ¬ op.Names s X

-- ==== one step

/-- What an operation does that succeeds. -/
structure Op.Effect (op : Op) (s s' : State) : Prop where
  moves : Moves s s'
  consistent : s'.Consistent
  keeps : ∀ X, ¬ op.Names s X → ∀ l z bytes,
    s.vol.FileOn s.fat32 X l z bytes → s'.vol.FileOn s.fat32 X l z bytes

section step

variable {s s' : State} {G : Ghost}

private theorem Rewrites.effect {op : Op} {lookup : PathLookup}
    {l : List Nat} {e : Entry} {bytes : List UInt8}
    (hres : Disk.resolvePath s.toEnv s.vol op.path = some lookup)
    (hf : lookup.found = true) (hr : Rewrites s s' G lookup.slot l e bytes) :
    op.Effect s s' where
  moves := hr.moves
  consistent := ⟨_, hr.holds⟩
  keeps X hX l' z bytes' hon := by
    refine (hr.updates.others X l' z bytes' ?_).mpr hon
    intro he
    exact hX ⟨lookup, hres, hf, he.symm⟩

theorem writeAll_effect (h : s.Holds G) {path : List UInt8}
    {data : Option Mem} {size : Nat} (hsize : size < 2 ^ 64) {op : Op}
    (hpath : op.path = path)
    (hrun : writeAll path data size s = (some (), s')) :
    op.Effect s s' := by
  subst hpath
  by_cases hg : ∃ lookup, WriteGuard s op.path data size lookup
  swap
  · obtain ⟨s1, P, hrun1, -⟩ :=
      writeAll_refused h hsize (not_exists.mp hg)
    rw [hrun] at hrun1
    cases hrun1
  obtain ⟨lookup, hg⟩ := hg
  cases hf : lookup.found with
  | true =>
    rcases writeAll_found h hsize hg hf with
      ⟨l, s1, hrun1, hr, -⟩ | ⟨s1, hrun1, -, -⟩
    · cases hrun.symm.trans hrun1
      exact hr.effect hg.path hf
    · rw [hrun] at hrun1
      cases hrun1
  | false =>
    rcases writeAll_missing h hsize hg hf with
      ⟨_, _, _, _, slot, _, _, s1, -, -, -, hrun1, he, hcons, hup, hnew⟩ |
      ⟨s1, hrun1, -, -⟩
    · cases hrun.symm.trans hrun1
      refine ⟨he.moves, hcons, ?_⟩
      intro X _ l z bytes hon
      refine (hup.others X l z bytes ?_).mpr hon
      -- The new entry's slot held no file.
      intro hX
      rw [hX] at hon
      exact hnew bytes ⟨l, z, hon⟩
    · rw [hrun] at hrun1
      cases hrun1

theorem append_effect (h : s.Holds G) {path : List UInt8}
    {data : Option Mem} {size : Nat} (hsize : size < 2 ^ 64) {op : Op}
    (hpath : op.path = path)
    (hrun : append path data size s = (some (), s')) :
    op.Effect s s' := by
  rcases append_run h path data size with
    ⟨s1, hrun1, -, -⟩ | ⟨lookup, s1, hg, -, -⟩ |
    ⟨lookup, d, s1, hres, hrun1, hr, -⟩
  · rw [hrun] at hrun1
    cases hrun1
  · rcases append_found h hg with
      ⟨l', bytes, s2, hrun2, hrw, -⟩ | ⟨s2, hrun2, -, -⟩
    · cases hrun.symm.trans hrun2
      subst hpath
      exact hrw.effect hg.path hg.found
    · rw [hrun] at hrun2
      cases hrun2
  · rw [hrun1] at hrun
    have he := writeAll_effect (hr.holds h) hsize hpath hrun
    refine ⟨hr.moves.trans he.moves, he.consistent, ?_⟩
    intro X hX l z bytes hon
    rw [← hr.fat32]
    refine he.keeps X ?_ l z bytes ?_
    · unfold Op.Names
      rw [hr.env, hr.vol]
      exact hX
    · rw [hr.vol, hr.fat32]
      exact hon

theorem Op.effect (hs : s.Consistent) (op : Op) (hv : op.Valid)
    (hrun : op.run s = (some (), s')) : op.Effect s s' := by
  obtain ⟨G, h⟩ := hs
  cases op with
  | mkdir path =>
    rcases mkdir_run h path with
      ⟨s1, hrun1, hm, hc, hsame⟩ | ⟨s1, hrun1, -, -⟩
    · cases hrun.symm.trans hrun1
      exact ⟨hm, hc, fun X _ l z bytes hon => (hsame X l z bytes).mpr hon⟩
    · cases hrun.symm.trans hrun1
  | writeAll path data size => exact writeAll_effect h hv rfl hrun
  | append path data size => exact append_effect h hv rfl hrun
  | remove path =>
    rcases remove_run h path with
      ⟨lookup, s1, hrun1, hres, hf, hm, hc, hup⟩ | ⟨s1, P, hrun1, -⟩
    · cases hrun.symm.trans hrun1
      refine ⟨hm, hc, fun X hX l z bytes hon => ?_⟩
      refine (hup.others X l z bytes ?_).mpr hon
      intro he
      exact hX ⟨lookup, hres, hf, he.symm⟩
    · cases hrun.symm.trans hrun1

end step

-- ==== runs

section runs

variable {s s' : State}

theorem Step.moves (hs : s.Consistent) (h : Step s s') :
    Moves s s' ∧ s'.Consistent := by
  obtain ⟨op, hv, hrun⟩ := h
  have he := op.effect hs hv hrun
  exact ⟨he.moves, he.consistent⟩

theorem run_consistent (hs : s.Consistent)
    (h : Relation.ReflTransGen Step s s') :
    Moves s s' ∧ s'.Consistent := by
  induction h with
  | refl => exact ⟨.refl s, hs⟩
  | tail _ hstep ih =>
    obtain ⟨hm, hc⟩ := ih
    obtain ⟨hm', hc'⟩ := hstep.moves hc
    exact ⟨hm.trans hm', hc'⟩

theorem run_beside (hs : s.Consistent) {X : DirSlot}
    (h : Relation.ReflTransGen (StepBeside X) s s') :
    Moves s s' ∧ s'.Consistent ∧ ∀ l z bytes,
      s.vol.FileOn s.fat32 X l z bytes →
      s'.vol.FileOn s.fat32 X l z bytes := by
  induction h with
  | refl => exact ⟨.refl s, hs, fun _ _ _ => id⟩
  | tail _ hstep ih =>
    obtain ⟨hm, hc, hk⟩ := ih
    obtain ⟨op, hv, hrun, hX⟩ := hstep
    have he := op.effect hc hv hrun
    refine ⟨hm.trans he.moves, he.consistent, fun l z bytes hon => ?_⟩
    rw [← hm.fat32]
    refine he.keeps X hX l z bytes ?_
    rw [hm.fat32]
    exact hk l z bytes hon

end runs

end Clks.Disk
