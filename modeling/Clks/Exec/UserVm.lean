/-
The areas of memory that processes map (exec/vm.inc, vm_api.inc).

All processes map their areas into one window of addresses, and an address
for a new area is looked for over the areas of all of them: from where the
last one was given out, jumping behind each area that is in the way. The
pages of an area are left out; whether they can be had is a parameter of
the allocation.
-/
import Clks.Exec.Process
import Clks.Lib.Masks

namespace Clks.Exec

-- ==== the table

/-- `CLKS_EXEC_USER_VM_AREA_MAX`. -/
abbrev userVmAreaMax : Nat := 128

/-- `CLKS_EXEC_USER_VM_ALLOC_MAX`. -/
def userVmAllocMax : UInt64 := 32 * 1024 * 1024

/-- `CLKS_EXEC_USER_VM_ALIGN`. -/
def userVmAlign : UInt64 := 4096

/-- `CLKS_EXEC_USER_VM_BASE`. -/
def userVmBase : UInt64 := 0x0000004000000000

/-- `CLKS_EXEC_USER_VM_LIMIT`. -/
def userVmLimit : UInt64 := 0x0000007000000000

/-- The flags of a mapping: `CLKS_VM_FLAG_READ` and its siblings. -/
def vmFlagRead : UInt64 := 0x1
def vmFlagWrite : UInt64 := 0x2
def vmFlagExec : UInt64 := 0x4
def vmFlagUser : UInt64 := 0x8

/-- The areas of the process table, with `clks_exec_next_vm_base`. -/
structure UserVm where
  used : Fin maxProcs → Bool
  userVmAreas : Fin maxProcs → Fin userVmAreaMax → VmArea
  userVmBytes : Fin maxProcs → UInt64
  nextVmBase : UInt64

namespace UserVm

/-- An area that is not in use. -/
def noArea : VmArea := ⟨0, 0, 0, 0, 0⟩

/-- The table as it starts. -/
def initial : UserVm := ⟨fun _ => false, fun _ _ => noArea, fun _ => 0, userVmBase⟩

variable (t : UserVm)

/-- A change of one slot. -/
def setSlot (i : Fin maxProcs) (j : Fin userVmAreaMax) (a : VmArea) : UserVm :=
  { t with userVmAreas :=
      Function.update t.userVmAreas i (Function.update (t.userVmAreas i) j a) }

/-- A change of a process's total. -/
def setBytes (i : Fin maxProcs) (n : UInt64) : UserVm :=
  { t with userVmBytes := Function.update t.userVmBytes i n }

-- ==== the search

/-- `clks_exec_align_up_u64`. -/
def alignUpU64 (value align : UInt64) : UInt64 :=
  if align == 0 then value else (value + (align - 1)) &&& ~~~(align - 1)

/-- The body of the search's inner loop: the cursor, and whether it moved. -/
def skipArea (size : UInt64) (s : UInt64 × Bool) (a : VmArea) : UInt64 × Bool :=
  if a.ptr == 0 || a.size == 0 then s
  else if a.ptr + a.size ≤ a.ptr then s
  else if s.1 < a.ptr + a.size ∧ a.ptr < s.1 + size then
    (alignUpU64 (a.ptr + a.size + userVmAlign) userVmAlign, true)
  else s

/-- One pass over the process table. -/
def goOver (size cursor : UInt64) : UInt64 × Bool :=
  (List.finRange maxProcs).foldl (fun s i =>
    if t.used i then
      (List.finRange userVmAreaMax).foldl
        (fun s j => skipArea size s (t.userVmAreas i j)) s
    else s) (cursor, false)

/-- The head of a round: a cursor that leaves no room begins again. -/
def intoWindow (size cursor : UInt64) : UInt64 :=
  if cursor < userVmBase ∨ cursor + size ≤ cursor ∨ userVmLimit < cursor + size then
    userVmBase
  else cursor

/-- The rounds of the search; so many of them may still move the cursor. -/
def searchLoop (size : UInt64) : Nat → UInt64 → Option UInt64
  | 0, cursor =>
    let s := t.goOver size (intoWindow size cursor)
    if s.2 then none else some s.1
  | guard + 1, cursor =>
    let s := t.goOver size (intoWindow size cursor)
    if s.2 then
      if userVmLimit ≤ s.1 then none else searchLoop size guard s.1
    else some s.1

/-- The cursor that a search begins with, in the window. -/
def keptBase : UInt64 :=
  if t.nextVmBase < userVmBase ∨ userVmLimit ≤ t.nextVmBase then userVmBase
  else t.nextVmBase

/-- `clks_exec_user_vm_next_base`. -/
def nextBase (size : UInt64) : UserVm × UInt64 :=
  if size == 0 || userVmLimit - userVmBase < size then (t, 0)
  else
    let t := { t with nextVmBase := t.keptBase }
    match t.searchLoop size (maxProcs * userVmAreaMax)
        (alignUpU64 t.nextVmBase userVmAlign) with
    | some cursor => ({ t with nextVmBase := cursor + size + userVmAlign }, cursor)
    | none => (t, 0)

-- ==== the operations

/-- `clks_exec_user_vm_find_free_area_slot`. -/
def findFreeAreaSlot (i : Fin maxProcs) : Option (Fin userVmAreaMax) :=
  (List.finRange userVmAreaMax).find? fun j => (t.userVmAreas i j).ptr == 0

/-- `clks_exec_user_vm_set_area`. -/
def area (base size requestedSize flags : UInt64) : VmArea :=
  ⟨base, size, requestedSize, flags, (size / userVmAlign).toUInt32.toUInt64⟩

/-- The flags of an allocation. -/
def allocFlags (flags : UInt64) : UInt64 :=
  let f := vmFlagRead ||| vmFlagUser
  let f := if flags &&& vmFlagWrite != 0 then f ||| vmFlagWrite else f
  if flags &&& vmFlagExec != 0 then f ||| vmFlagExec else f

/-- `clks_exec_vm_alloc` for the process in slot `i`; `mapped` tells whether
every page is had and mapped. -/
def vmAlloc (i : Fin maxProcs) (size flags : UInt64) (mapped : Bool) :
    UserVm × UInt64 :=
  if size == 0 || userVmAllocMax < size then (t, 0)
  else
    let alignedSize := alignUpU64 size userVmAlign
    if alignedSize == 0 || alignedSize < size || userVmAllocMax < alignedSize then
      (t, 0)
    else
      let pages := alignedSize / userVmAlign
      if pages == 0 || 0xFFFFFFFF < pages then (t, 0)
      else match t.findFreeAreaSlot i with
        | none => (t, 0)
        | some slot =>
          let (t, base) := t.nextBase alignedSize
          if base == 0 || base < userVmBase || base + alignedSize ≤ base ||
              userVmLimit < base + alignedSize then (t, 0)
          else if !mapped then (t, 0)
          else
            let t := t.setSlot i slot (area base alignedSize size (allocFlags flags))
            (t.setBytes i (t.userVmBytes i + alignedSize), base)

/-- The area of a process that `clks_exec_vm_free` takes an address for. -/
def holds (addr : UInt64) (a : VmArea) : Bool :=
  a.ptr != 0 && a.size != 0 && a.size &&& (userVmAlign - 1) == 0 &&
    a.ptr < a.ptr + a.size && a.ptr ≤ addr && addr < a.ptr + a.size

/-- `clks_exec_vm_free` for the process in slot `i`, with its result. -/
def vmFree (i : Fin maxProcs) (addr size : UInt64) : UserVm × Bool :=
  if addr == 0 || addr &&& (userVmAlign - 1) != 0 then (t, false)
  else match (List.finRange userVmAreaMax).find? fun j =>
      holds addr (t.userVmAreas i j) with
    | none => (t, false)
    | some j =>
      let a := t.userVmAreas i j
      let areaEnd := a.ptr + a.size
      let unmapSize :=
        if size == 0 then areaEnd - addr else alignUpU64 size userVmAlign
      if unmapSize == 0 || unmapSize < size then (t, false)
      else
        let unmapEnd := addr + unmapSize
        if unmapEnd ≤ addr || areaEnd < unmapEnd then (t, false)
        else
          let tailSlot := t.findFreeAreaSlot i
          let bytes := t.userVmBytes i
          let freed := t.setBytes i
            (if unmapSize ≤ bytes then bytes - unmapSize else 0)
          if a.ptr < addr && unmapEnd < areaEnd then
            match tailSlot with
            | none => (t, false)
            | some k =>
              let tail := area unmapEnd (areaEnd - unmapEnd) (areaEnd - unmapEnd) a.flags
              let head := area a.ptr (addr - a.ptr) (addr - a.ptr) a.flags
              ((freed.setSlot i k tail).setSlot i j head, true)
          else if addr == a.ptr && unmapEnd == areaEnd then
            (freed.setSlot i j noArea, true)
          else if addr == a.ptr then
            (freed.setSlot i j
              (area unmapEnd (areaEnd - unmapEnd) (areaEnd - unmapEnd) a.flags), true)
          else
            (freed.setSlot i j
              (area a.ptr (addr - a.ptr) (addr - a.ptr) a.flags), true)

/-- `clks_exec_proc_release_user_vm`. -/
def releaseUserVm (i : Fin maxProcs) : UserVm :=
  { t with
    userVmAreas := Function.update t.userVmAreas i fun j =>
      if (t.userVmAreas i j).ptr != 0 then noArea else t.userVmAreas i j
    userVmBytes := Function.update t.userVmBytes i 0 }

/-- The end of `clks_exec_mmap`: the area at a base gets its own flags. -/
def markArea (i : Fin maxProcs) (base flags : UInt64) : UserVm :=
  match (List.finRange userVmAreaMax).find? fun j =>
      (t.userVmAreas i j).ptr == base with
  | some j => t.setSlot i j { t.userVmAreas i j with flags }
  | none => t

/-- What happens to the table. -/
inductive Op
  | alloc (i : Fin maxProcs) (size flags : UInt64) (mapped : Bool)
  | free (i : Fin maxProcs) (addr size : UInt64)
  | mark (i : Fin maxProcs) (base flags : UInt64)
  | release (i : Fin maxProcs)
  | setUsed (i : Fin maxProcs) (used : Bool)

def step : Op → UserVm
  | .alloc i size flags mapped => (t.vmAlloc i size flags mapped).1
  | .free i addr size => (t.vmFree i addr size).1
  | .mark i base flags => t.markArea i base flags
  | .release i => t.releaseUserVm i
  | .setUsed i used => { t with used := Function.update t.used i used }

/-- A history of the table. -/
def run (ops : List Op) : UserVm := ops.foldl step t

-- ==== what is recorded

/-- Whole pages in the window. -/
structure Whole (a : VmArea) : Prop where
  aligned : a.ptr.toNat % 4096 = 0
  pages : a.size.toNat % 4096 = 0
  size : 0 < a.size.toNat
  base : userVmBase.toNat ≤ a.ptr.toNat
  limit : a.ptr.toNat + a.size.toNat ≤ userVmLimit.toNat

/-- Every area in the table is made of whole pages in the window. -/
def Recorded : Prop :=
  ∀ i j, (t.userVmAreas i j).ptr ≠ 0 → Whole (t.userVmAreas i j)

section recorded

variable {t} {i : Fin maxProcs} {j : Fin userVmAreaMax} {a : VmArea}
  {size addr flags : UInt64}

theorem alignUp_toNat (v : UInt64) :
    (alignUpU64 v userVmAlign).toNat = (v.toNat + 4095) % 2 ^ 64 / 4096 * 4096 := by
  show ((v + (userVmAlign - 1)) &&& ~~~(userVmAlign - 1)).toNat = _
  rw [Masks.and_not_toNat _ _ (by decide : 12 ≤ 64) (by decide),
    UInt64.toNat_add]
  rfl

theorem alignUp_aligned (v : UInt64) :
    (alignUpU64 v userVmAlign).toNat % 4096 = 0 := by
  rw [alignUp_toNat]
  exact Nat.mul_mod_left _ _

theorem pageOffset (v : UInt64) :
    (v &&& (userVmAlign - 1)).toNat = v.toNat % 4096 :=
  @Masks.and_toNat 12 v (userVmAlign - 1) (by decide)

theorem goOver_inv (p : UInt64 × Bool → Prop) {cursor : UInt64}
    (h0 : p (cursor, false))
    (hskip : ∀ s i j, t.used i = true → p s →
      p (skipArea size s (t.userVmAreas i j))) :
    p (t.goOver size cursor) := by
  have hrow : ∀ i, t.used i = true → ∀ (js : List (Fin userVmAreaMax)) s, p s →
      p (js.foldl (fun s j => skipArea size s (t.userVmAreas i j)) s) := by
    intro i hi js
    induction js with
    | nil => exact fun s hs => hs
    | cons j js ih => exact fun s hs => ih _ (hskip s i j hi hs)
  have hall : ∀ (is : List (Fin maxProcs)) s, p s → p (is.foldl (fun s i =>
      if t.used i then
        (List.finRange userVmAreaMax).foldl
          (fun s j => skipArea size s (t.userVmAreas i j)) s
      else s) s) := by
    intro is
    induction is with
    | nil => exact fun s hs => hs
    | cons i is ih =>
      intro s hs
      rw [List.foldl_cons]
      by_cases hi : t.used i = true
      · rw [if_pos hi]
        exact ih _ (hrow i hi _ s hs)
      · rw [if_neg hi]
        exact ih s hs
  exact hall _ _ h0

theorem intoWindow_aligned {cursor : UInt64} (h : cursor.toNat % 4096 = 0) :
    (intoWindow size cursor).toNat % 4096 = 0 := by
  unfold intoWindow
  split
  · rfl
  · exact h

theorem goOver_aligned {cursor : UInt64} (h : cursor.toNat % 4096 = 0) :
    (t.goOver size cursor).1.toNat % 4096 = 0 := by
  refine goOver_inv (fun s => s.1.toNat % 4096 = 0) h fun s i j _ hs => ?_
  unfold skipArea
  repeat' split
  · exact hs
  · exact hs
  · exact alignUp_aligned _
  · exact hs

theorem searchLoop_aligned {n : Nat} {cursor c : UInt64}
    (h : cursor.toNat % 4096 = 0) (hc : t.searchLoop size n cursor = some c) :
    c.toNat % 4096 = 0 := by
  have hpass := fun cursor h =>
    @goOver_aligned t size _ (@intoWindow_aligned size cursor h)
  induction n generalizing cursor with
  | zero =>
    unfold searchLoop at hc
    dsimp only at hc
    split at hc
    · cases hc
    · rw [← Option.some.inj hc]
      exact hpass cursor h
  | succ n ih =>
    unfold searchLoop at hc
    dsimp only at hc
    split at hc
    · split at hc
      · cases hc
      · exact ih (hpass cursor h) hc
    · rw [← Option.some.inj hc]
      exact hpass cursor h

theorem nextBase_aligned : (t.nextBase size).2.toNat % 4096 = 0 := by
  unfold nextBase
  split
  · rfl
  · dsimp only
    split
    · next c hc => exact searchLoop_aligned (alignUp_aligned _) hc
    · rfl

theorem nextBase_areas : (t.nextBase size).1.userVmAreas = t.userVmAreas := by
  unfold nextBase
  split
  · rfl
  · dsimp only
    split <;> rfl

theorem setSlot_recorded (ht : t.Recorded) (ha : a.ptr ≠ 0 → Whole a) :
    (t.setSlot i j a).Recorded := by
  intro i' j' hptr
  unfold setSlot at hptr ⊢
  dsimp only at hptr ⊢
  by_cases hi : i' = i
  · subst hi
    rw [Function.update_self] at hptr ⊢
    by_cases hj : j' = j
    · subst hj
      rw [Function.update_self] at hptr ⊢
      exact ha hptr
    · rw [Function.update_of_ne hj] at hptr ⊢
      exact ht i' j' hptr
  · rw [Function.update_of_ne hi] at hptr ⊢
    exact ht i' j' hptr

theorem vmAlloc_recorded (ht : t.Recorded) (mapped : Bool) :
    (t.vmAlloc i size flags mapped).1.Recorded := by
  have hnext : ∀ n, (t.nextBase n).1.Recorded := by
    intro n
    unfold Recorded
    rw [nextBase_areas]
    exact ht
  unfold vmAlloc
  split
  · exact ht
  dsimp only
  split
  · exact ht
  next hsize =>
  split
  · exact ht
  split
  · exact ht
  split
  · exact hnext _
  next hbase =>
  split
  · exact hnext _
  refine setSlot_recorded (hnext _) fun _ => ?_
  simp only [Bool.or_eq_true, beq_iff_eq, decide_eq_true_eq, not_or] at hsize hbase
  obtain ⟨⟨hne, -⟩, hmax⟩ := hsize
  obtain ⟨⟨⟨-, hlow⟩, hwrap⟩, hlimit⟩ := hbase
  have hmax := UInt64.not_lt.mp hmax
  have hmax : (alignUpU64 size userVmAlign).toNat ≤ 33554432 := hmax
  have hne : (alignUpU64 size userVmAlign).toNat ≠ 0 := fun h =>
    hne (UInt64.toNat_inj.mp h)
  have haligned := @nextBase_aligned t (alignUpU64 size userVmAlign)
  have hpages := alignUp_aligned size
  generalize (t.nextBase (alignUpU64 size userVmAlign)).2 = b at *
  generalize alignUpU64 size userVmAlign = n at *
  have hlow : userVmBase.toNat ≤ b.toNat := UInt64.not_lt.mp hlow
  have hwrap : b.toNat < (b + n).toNat := UInt64.not_le.mp hwrap
  have hlimit : (b + n).toNat ≤ userVmLimit.toNat := UInt64.not_lt.mp hlimit
  rw [UInt64.toNat_add] at hwrap hlimit
  have hb := b.toNat_lt
  have hsum : b.toNat + n.toNat ≤ userVmLimit.toNat := by omega
  exact ⟨haligned, hpages, Nat.pos_of_ne_zero hne, hlow, hsum⟩

theorem Whole.end_toNat (h : Whole a) :
    (a.ptr + a.size).toNat = a.ptr.toNat + a.size.toNat := by
  have hlimit := h.limit
  have hlt : a.ptr.toNat + a.size.toNat < 2 ^ 64 :=
    Nat.lt_of_le_of_lt hlimit (by decide)
  rw [UInt64.toNat_add, Nat.mod_eq_of_lt hlt]

theorem Whole.part (h : Whole a) {b n r f : UInt64} (hb : b.toNat % 4096 = 0)
    (hn : n.toNat % 4096 = 0) (hpos : 0 < n.toNat)
    (hlow : a.ptr.toNat ≤ b.toNat)
    (hhigh : b.toNat + n.toNat ≤ a.ptr.toNat + a.size.toNat) :
    Whole (area b n r f) :=
  ⟨hb, hn, hpos, Nat.le_trans h.base hlow, Nat.le_trans hhigh h.limit⟩

theorem Whole.behind (h : Whole a) {b f : UInt64} (hb : b.toNat % 4096 = 0)
    (hlow : a.ptr.toNat ≤ b.toNat) (hhigh : b.toNat < a.ptr.toNat + a.size.toNat) :
    Whole (area b (a.ptr + a.size - b) (a.ptr + a.size - b) f) := by
  have hend := h.end_toNat
  have hle : b ≤ a.ptr + a.size := UInt64.le_iff_toNat_le.mpr (by omega)
  have hsub := UInt64.toNat_sub_of_le _ _ hle
  have haligned := h.aligned
  have hpages := h.pages
  exact h.part hb (by omega) (by omega) hlow (by omega)

theorem Whole.front (h : Whole a) {b f : UInt64} (hb : b.toNat % 4096 = 0)
    (hlow : a.ptr.toNat < b.toNat) (hhigh : b.toNat ≤ a.ptr.toNat + a.size.toNat) :
    Whole (area a.ptr (b - a.ptr) (b - a.ptr) f) := by
  have hle : a.ptr ≤ b := UInt64.le_iff_toNat_le.mpr (Nat.le_of_lt hlow)
  have hsub := UInt64.toNat_sub_of_le _ _ hle
  have haligned := h.aligned
  exact h.part haligned (by omega) (by omega) (Nat.le_refl _) (by omega)

theorem vmFree_recorded (ht : t.Recorded) :
    (t.vmFree i addr size).1.Recorded := by
  have hbytes : ∀ n, (t.setBytes i n).Recorded := fun _ => ht
  unfold vmFree
  split
  · exact ht
  next haddr =>
  split
  · exact ht
  next j hfind =>
  have hholds := List.find?_some hfind
  simp only [holds, Bool.or_eq_true, Bool.and_eq_true, bne_iff_ne, beq_iff_eq,
    decide_eq_true_eq, not_or, ne_eq, Classical.not_not] at haddr hholds
  obtain ⟨-, haddr⟩ := haddr
  obtain ⟨⟨⟨⟨⟨hptr, -⟩, -⟩, -⟩, hfrom⟩, hto⟩ := hholds
  have hwhole := ht i j hptr
  have haddr : addr.toNat % 4096 = 0 := by
    rw [← pageOffset, haddr]
    rfl
  generalize t.userVmAreas i j = a at *
  have hend := hwhole.end_toNat
  have hlimit := hwhole.limit
  have hfrom : a.ptr.toNat ≤ addr.toNat := UInt64.le_iff_toNat_le.mp hfrom
  have hto : addr.toNat < (a.ptr + a.size).toNat := UInt64.lt_iff_toNat_lt.mp hto
  have haligned : (if size == 0 then a.ptr + a.size - addr
      else alignUpU64 size userVmAlign).toNat % 4096 = 0 := by
    split
    · have hle : addr ≤ a.ptr + a.size := UInt64.le_iff_toNat_le.mpr (by omega)
      have hsub := UInt64.toNat_sub_of_le _ _ hle
      have haligned := hwhole.aligned
      have hpages := hwhole.pages
      omega
    · exact alignUp_aligned size
  dsimp only
  generalize (if size == 0 then a.ptr + a.size - addr
      else alignUpU64 size userVmAlign) = n at *
  split
  · exact ht
  next hn =>
  split
  · exact ht
  next hinside =>
  simp only [Bool.or_eq_true, decide_eq_true_eq, not_or] at hinside
  have hwrap : addr.toNat < (addr + n).toNat := UInt64.not_le.mp hinside.1
  have hstop : (addr + n).toNat ≤ (a.ptr + a.size).toNat :=
    UInt64.not_lt.mp hinside.2
  have hmod : (addr + n).toNat % 4096 = 0 := by
    rw [UInt64.toNat_add]
    omega
  split
  · next hmiddle =>
    simp only [Bool.and_eq_true, decide_eq_true_eq] at hmiddle
    have hlow : a.ptr.toNat < addr.toNat := UInt64.lt_iff_toNat_lt.mp hmiddle.1
    have hhigh : (addr + n).toNat < (a.ptr + a.size).toNat :=
      UInt64.lt_iff_toNat_lt.mp hmiddle.2
    split
    · exact ht
    · exact setSlot_recorded (setSlot_recorded (hbytes _) fun _ =>
        hwhole.behind hmod (by omega) (by omega)) fun _ =>
        hwhole.front haddr hlow (by omega)
  next hmiddle =>
  simp only [Bool.and_eq_true, decide_eq_true_eq] at hmiddle
  split
  · exact setSlot_recorded (hbytes _) fun h => absurd rfl h
  next hall =>
  simp only [Bool.and_eq_true, beq_iff_eq] at hall
  split
  · next hhead =>
    have hne : addr + n ≠ a.ptr + a.size := fun h => hall ⟨beq_iff_eq.mp hhead, h⟩
    have hne : (addr + n).toNat ≠ (a.ptr + a.size).toNat := fun h =>
      hne (UInt64.toNat_inj.mp h)
    exact setSlot_recorded (hbytes _) fun _ =>
      hwhole.behind hmod (by omega) (by omega)
  · next hhead =>
    have hne : addr.toNat ≠ a.ptr.toNat := fun h =>
      hhead (beq_iff_eq.mpr (UInt64.toNat_inj.mp h))
    exact setSlot_recorded (hbytes _) fun _ =>
      hwhole.front haddr (by omega) (by omega)

theorem markArea_recorded (ht : t.Recorded) :
    (t.markArea i addr flags).Recorded := by
  unfold markArea
  split
  · next j _ => exact setSlot_recorded ht fun h =>
      let hw := ht i j h
      ⟨hw.aligned, hw.pages, hw.size, hw.base, hw.limit⟩
  · exact ht

theorem releaseUserVm_recorded (ht : t.Recorded) :
    (t.releaseUserVm i).Recorded := by
  intro i' j hptr
  unfold releaseUserVm at hptr ⊢
  dsimp only at hptr ⊢
  by_cases hi : i' = i
  · subst hi
    rw [Function.update_self] at hptr ⊢
    split at hptr
    · exact absurd rfl hptr
    · next hused =>
      exact absurd (bne_iff_ne.mpr hptr) hused
  · rw [Function.update_of_ne hi] at hptr ⊢
    exact ht i' j hptr

theorem step_recorded (ht : t.Recorded) (op : Op) : (t.step op).Recorded := by
  cases op with
  | alloc i size flags mapped => exact vmAlloc_recorded ht mapped
  | free i addr size => exact vmFree_recorded ht
  | mark i base flags => exact markArea_recorded ht
  | release i => exact releaseUserVm_recorded ht
  | setUsed i used => exact ht

theorem initial_recorded : initial.Recorded := fun _ _ h => absurd rfl h

theorem run_recorded (ops : List Op) : (initial.run ops).Recorded := by
  have hrun : ∀ t : UserVm, t.Recorded → (t.run ops).Recorded := by
    induction ops with
    | nil => exact fun _ ht => ht
    | cons op ops ih => exact fun t ht => ih _ (step_recorded ht op)
  exact hrun initial initial_recorded

end recorded

end UserVm

end Clks.Exec
