/-
An address space is a partial map from pages to entries.
-/
import Clks.Memory.Translating

namespace Clks.Memory

namespace Vm

-- ==== indices

/-- The indices of an address, from the root on. -/
def path (v : UInt64) : List (Fin 512) := upper v ++ [slot v 12]

/-- The number of the page of an address. -/
def pageOf (v : UInt64) : Nat := v.toNat / 4096 % 2 ^ 36

section indices

variable {v w : UInt64}

theorem slot_eq_iff {s : Nat} :
    slot v s = slot w s ↔ v.toNat / 2 ^ s % 512 = w.toNat / 2 ^ s % 512 := by
  unfold slot
  rw [Fin.ext_iff]
  rfl

theorem path_eq_iff : path v = path w ↔ pageOf v = pageOf w := by
  unfold path upper pageOf
  simp only [List.cons_append, List.nil_append, List.cons.injEq, and_true,
    slot_eq_iff]
  omega

theorem add_offset {o : UInt64} (hv : v &&& (vmPageSize - 1) = 0)
    (ho : o < 4096) :
    pageOf (v + o) = pageOf v ∧ (v + o) &&& (vmPageSize - 1) = o := by
  have hlow := low_eq_zero.mp hv
  have ho' : o.toNat < 4096 := ho
  have hlt := v.toNat_lt
  have hsum : (v + o).toNat = v.toNat + o.toNat := by
    rw [UInt64.toNat_add]
    omega
  constructor
  · unfold pageOf
    rw [hsum]
    omega
  · rw [← UInt64.toNat_inj, low_toNat, hsum]
    omega

end indices

-- ==== translations

/-- What an entry at a level says of an address. -/
def translation (v : UInt64) : Nat × UInt64 → UInt64 × UInt64
  | (3, e) => ((e &&& pteAddrMask) + (v &&& (vmPageSize - 1)), e)
  | (2, e) => ((e &&& 0x000FFFFFFFE00000) + (v &&& 0x1FFFFF), e)
  | (_, e) => ((e &&& 0x000FFFFFC0000000) + (v &&& 0x3FFFFFFF), e)

/-- The entry that the machine's walk to a page ends at. -/
def entryAt (vm : Vm) (q : List (Fin 512)) : Option (Nat × UInt64) :=
  Radix.lookup next present vm.tables 0 vm.root q

section translating

variable {vm vm' : Vm} {v w : UInt64}

section entry

variable {t : UInt64} {l : Nat} {i j : Fin 512} {p : List (Fin 512)}

theorem lookup_table (hp : vm.tables t i &&& ptePresent ≠ 0)
    (hps : l = 0 ∨ vm.tables t i &&& ptePs = 0) :
    Radix.lookup next present vm.tables l t (i :: j :: p)
      = Radix.lookup next present vm.tables (l + 1)
        (vm.tables t i &&& pteAddrMask) (j :: p) := by
  rw [Radix.lookup_cons]
  unfold next
  rw [if_neg hp, if_neg fun h => hps.elim h.1 h.2]

theorem lookup_page (hp : vm.tables t i &&& ptePresent ≠ 0) (hl : l ≠ 0)
    (hps : vm.tables t i &&& ptePs ≠ 0) :
    Radix.lookup next present vm.tables l t (i :: j :: p)
      = some (l, vm.tables t i) := by
  have hpresent : present (vm.tables t i) = true := decide_eq_true hp
  rw [Radix.lookup_cons, hpresent]
  unfold next
  rw [if_neg hp, if_pos ⟨hl, hps⟩]
  rfl

theorem lookup_absent (hp : vm.tables t i &&& ptePresent = 0) :
    Radix.lookup next present vm.tables l t (i :: p) = none := by
  cases p with
  | nil =>
    unfold Radix.lookup
    rw [not_present hp]
    rfl
  | cons j p =>
    rw [Radix.lookup_cons, not_present hp]
    unfold next
    rw [if_pos hp]
    rfl

theorem lookup_last (hp : vm.tables t i &&& ptePresent ≠ 0) :
    Radix.lookup next present vm.tables l t [i] = some (l, vm.tables t i) := by
  unfold Radix.lookup
  rw [show present (vm.tables t i) = true from decide_eq_true hp]
  rfl

end entry

theorem translateCurrent_eq :
    vm.translateCurrent v
      = if vm.ready = true ∧ vm.currentCr3 ≠ 0 then
          (vm.entryAt (path v)).map (translation v)
        else none := by
  unfold translateCurrent currentPml4
  cases hready : vm.ready with
  | false => rfl
  | true =>
    by_cases hcr3 : vm.currentCr3 = 0
    · simp [hcr3]
    have hroot : vm.currentCr3 &&& pteAddrMask = vm.root := rfl
    simp only [hcr3, hroot, if_false, guard_true, ne_eq, not_false_eq_true,
      and_self, if_true, Option.pure_def, Option.bind_eq_bind, Option.bind_some]
    unfold entryAt path upper
    rw [List.cons_append, List.cons_append, List.cons_append, List.nil_append]
    by_cases h0 : vm.tables vm.root (slot v 39) &&& ptePresent = 0
    · simp [h0, lookup_absent h0]
    rw [lookup_table h0 (Or.inl rfl)]
    set t1 := vm.tables vm.root (slot v 39) &&& pteAddrMask
    by_cases h1 : vm.tables t1 (slot v 30) &&& ptePresent = 0
    · simp [h0, h1, lookup_absent h1]
    by_cases hps1 : vm.tables t1 (slot v 30) &&& ptePs = 0
    swap
    · simp [h0, h1, hps1, lookup_page h1 Nat.one_ne_zero hps1, translation]
    rw [lookup_table h1 (Or.inr hps1)]
    set t2 := vm.tables t1 (slot v 30) &&& pteAddrMask
    by_cases h2 : vm.tables t2 (slot v 21) &&& ptePresent = 0
    · simp [h0, h1, hps1, h2, lookup_absent h2]
    by_cases hps2 : vm.tables t2 (slot v 21) &&& ptePs = 0
    swap
    · simp [h0, h1, hps1, h2, hps2, lookup_page h2 (Nat.succ_ne_zero 1) hps2,
        translation]
    rw [lookup_table h2 (Or.inr hps2)]
    set t3 := vm.tables t2 (slot v 21) &&& pteAddrMask
    by_cases h3 : vm.tables t3 (slot v 12) &&& ptePresent = 0
    · simp [h0, h1, hps1, h2, hps2, h3, lookup_absent h3]
    simp [h0, h1, hps1, h2, hps2, h3, lookup_last h3, translation]

end translating

-- ==== states

/-- What can be reached: the kernel's address space and new ones, and the
calls on them. -/
inductive Reached : Vm → Prop
  | loaded {vm : Vm} (h : vm.Loaded) (htree : vm.Tree) : Reached vm
  | created {vm vm' : Vm} {root : UInt64} (h : Reached vm)
      (hkernel : vm.kernelCr3 = vm.root)
      (hr : vm.createAddressSpace = (root, vm')) (hroot : root ≠ 0) :
      Reached (vm'.switchCr3 root)
  | called {vm : Vm} (h : Reached vm) (c : Call) : Reached (vm.call c).2

section calling

variable {vm vm' : Vm} {v w e phys flags pt : UInt64}

theorem entryAt_putLast (hs : vm.Sound) (htree : vm.Tree)
    (hreach : vm.reach (upper v) = some pt) :
    (vm.putLast pt (slot v 12) e).entryAt (path w)
      = if pageOf w = pageOf v then
          (if present e then some (3, e) else none)
        else vm.entryAt (path w) := by
  by_cases hpage : pageOf w = pageOf v
  · rw [if_pos hpage, path_eq_iff.mpr hpage]
    exact Radix.lookup_put_self hs.leveled hreach rfl
  · rw [if_neg hpage]
    refine Radix.lookup_put htree hreach (Nat.le_refl 3) (Nat.le_refl 4) ?_
    intro hprefix
    have heq : path v = path w := hprefix.eq_of_length rfl
    exact hpage (path_eq_iff.mp heq.symm)

theorem call_sound (hs : vm.Sound) (c : Call) :
    (vm.call c).2.Sound ∧ (vm.Tree → (vm.call c).2.Tree) := by
  cases c with
  | map v phys flags =>
    obtain ⟨grown, hgrows, hr⟩ :=
      mapPageCurrent_cases hs (rfl : vm.mapPageCurrent v phys flags = _)
    have hkept := hgrows.kept hs tableFlags_cases
    show (vm.mapPageCurrent v phys flags).2.Sound ∧
      (vm.Tree → (vm.mapPageCurrent v phys flags).2.Tree)
    rcases hr with hr | ⟨-, -, -, -, pt, hreach, hr⟩
    · rw [hr]
      exact ⟨hkept.sound, hkept.tree⟩
    · rw [hr]
      exact ⟨hkept.sound.putLast hreach rfl,
        fun htree => (hkept.tree htree).putLast hkept.sound hreach rfl⟩
  | unmap v =>
    show (vm.unmapPageCurrent v).2.Sound ∧
      (vm.Tree → (vm.unmapPageCurrent v).2.Tree)
    rcases unmapPageCurrent_cases (rfl : vm.unmapPageCurrent v = _) with
      hr | ⟨-, -, pt, hreach, -, hr⟩
    · rw [hr]
      exact ⟨hs, id⟩
    · rw [hr]
      exact ⟨hs.putLast hreach rfl, fun htree => htree.putLast hs hreach rfl⟩
  | protect v flags =>
    show (vm.protectPageCurrent v flags).2.Sound ∧
      (vm.Tree → (vm.protectPageCurrent v flags).2.Tree)
    rcases protectPageCurrent_cases (rfl : vm.protectPageCurrent v flags = _) with
      hr | ⟨-, -, pt, hreach, -, hr⟩
    · rw [hr]
      exact ⟨hs, id⟩
    · rw [hr]
      exact ⟨hs.putLast hreach rfl, fun htree => htree.putLast hs hreach rfl⟩

theorem Reached.sound (h : vm.Reached) : vm.Sound ∧ vm.Tree := by
  induction h with
  | loaded h htree => exact ⟨h.toSound, htree⟩
  | created _ hkernel hr hroot ih =>
    obtain ⟨rest, hfree, heq⟩ := createAddressSpace_eq ih.1 hr hroot
    rw [heq]
    exact ⟨ih.1.createdAs hkernel hfree, ih.2.createdAs ih.1 hkernel hfree⟩
  | called _ c ih =>
    obtain ⟨hsound, htree⟩ := call_sound ih.1 c
    exact ⟨hsound, htree ih.2⟩

theorem translateCurrent_congr (hcr3 : vm'.currentCr3 = vm.currentCr3)
    (hready : vm'.ready = vm.ready)
    (hentry : vm'.entryAt (path w) = vm.entryAt (path w)) :
    vm'.translateCurrent w = vm.translateCurrent w := by
  rw [translateCurrent_eq, translateCurrent_eq, hcr3, hready, hentry]

theorem Kept.translate (hkept : Kept vm vm') :
    vm'.translateCurrent w = vm.translateCurrent w :=
  translateCurrent_congr hkept.currentCr3 hkept.ready (hkept.lookup (path w) rfl)

theorem translate_putLast (hs : vm.Sound) (htree : vm.Tree)
    (hready : vm.ready = true) (hcr3 : vm.currentCr3 ≠ 0)
    (hreach : vm.reach (upper v) = some pt) :
    (vm.putLast pt (slot v 12) e).translateCurrent w
      = if pageOf w = pageOf v then
          (if present e then some (translation w (3, e)) else none)
        else vm.translateCurrent w := by
  rw [translateCurrent_eq, translateCurrent_eq, entryAt_putLast hs htree hreach]
  have hok : vm.ready = true ∧ vm.currentCr3 ≠ 0 := ⟨hready, hcr3⟩
  have hok' : (vm.putLast pt (slot v 12) e).ready = true ∧
      (vm.putLast pt (slot v 12) e).currentCr3 ≠ 0 := hok
  rw [if_pos hok, if_pos hok']
  split
  · split <;> rfl
  · rfl

theorem translation_pte :
    translation w (3, (phys &&& pteAddrMask) ||| vm.entryFlagsFromApi flags)
      = ((phys &&& pteAddrMask) + (w &&& (vmPageSize - 1)),
        (phys &&& pteAddrMask) ||| vm.entryFlagsFromApi flags) := by
  show ((((phys &&& pteAddrMask) ||| vm.entryFlagsFromApi flags) &&& pteAddrMask)
    + (w &&& (vmPageSize - 1)), _) = _
  rw [pte_mask entryFlagsFromApi_mask]

-- ==== the calls

theorem translate_of_map (hs : vm.Sound) (htree : vm.Tree)
    (hr : vm.mapPageCurrent v phys flags = (true, vm')) (w : UInt64) :
    vm'.translateCurrent w
      = if pageOf w = pageOf v then
          some ((phys &&& pteAddrMask) + (w &&& (vmPageSize - 1)),
            (phys &&& pteAddrMask) ||| vm.entryFlagsFromApi flags)
        else vm.translateCurrent w := by
  obtain ⟨grown, hgrows, hfalse | ⟨hready, -, -, hcr3, pt, hreach, htrue⟩⟩ :=
    mapPageCurrent_cases hs hr
  · cases hfalse
  have hkept := hgrows.kept hs tableFlags_cases
  obtain rfl := (Prod.mk.inj htrue).2
  rw [translate_putLast hkept.sound (hkept.tree htree)
    (hkept.ready.trans hready) (by rw [hkept.currentCr3]; exact hcr3) hreach,
    if_pos present_pte, hkept.translate, translation_pte]

theorem translate_of_unmap (hs : vm.Sound) (htree : vm.Tree)
    (hr : vm.unmapPageCurrent v = (some phys, vm')) (w : UInt64) :
    vm'.translateCurrent w
      = if pageOf w = pageOf v then none else vm.translateCurrent w := by
  rcases unmapPageCurrent_cases hr with
    hnone | ⟨hready, hcr3, pt, hreach, -, hsome⟩
  · cases hnone
  obtain rfl := (Prod.mk.inj hsome).2
  rw [translate_putLast hs htree hready hcr3 hreach]
  rfl

theorem translate_of_failed (hs : vm.Sound) {c : Call}
    (hr : vm.call c = (false, vm')) (w : UInt64) :
    vm'.translateCurrent w = vm.translateCurrent w := by
  cases c with
  | map v phys flags =>
    obtain ⟨grown, hgrows, hfalse | ⟨-, -, -, -, pt, -, htrue⟩⟩ :=
      mapPageCurrent_cases hs (r := (false, vm')) hr
    · obtain rfl := (Prod.mk.inj hfalse).2
      exact (hgrows.kept hs tableFlags_cases).translate
    · cases htrue
  | unmap v =>
    have hcall : vm.call (.unmap v)
        = ((vm.unmapPageCurrent v).1.isSome, (vm.unmapPageCurrent v).2) := rfl
    rw [hcall] at hr
    rcases unmapPageCurrent_cases (rfl : vm.unmapPageCurrent v = _) with
      hnone | ⟨-, -, pt, -, -, hsome⟩
    · rw [hnone] at hr
      obtain rfl := (Prod.mk.inj hr).2
      rfl
    · rw [hsome] at hr
      cases (Prod.mk.inj hr).1
  | protect v flags =>
    rcases protectPageCurrent_cases (r := (false, vm')) hr with
      hfalse | ⟨-, -, pt, -, -, htrue⟩
    · obtain rfl := (Prod.mk.inj hfalse).2
      rfl
    · cases htrue

/-- Page tables refine a partial map. -/
theorem translation_of_reached (h : vm.Reached) :
    (∀ v phys flags vm', vm.mapPageCurrent v phys flags = (true, vm') →
      (∀ w, pageOf w ≠ pageOf v → vm'.translateCurrent w = vm.translateCurrent w) ∧
      (phys.toNat < 2 ^ 52 → ∀ o : UInt64, o < 4096 →
        (vm'.translateCurrent (v + o)).map Prod.fst = some (phys + o))) ∧
    (∀ v phys vm', vm.unmapPageCurrent v = (some phys, vm') →
      (∀ w, pageOf w ≠ pageOf v → vm'.translateCurrent w = vm.translateCurrent w) ∧
      ∀ w, pageOf w = pageOf v → vm'.translateCurrent w = none) ∧
    ∀ c vm', vm.call c = (false, vm') →
      ∀ w, vm'.translateCurrent w = vm.translateCurrent w := by
  obtain ⟨hs, htree⟩ := h.sound
  refine ⟨fun v phys flags vm' hr => ⟨fun w hw => ?_, fun hlt o ho => ?_⟩,
    fun v phys vm' hr => ⟨fun w hw => ?_, fun w hw => ?_⟩,
    fun c vm' hr => translate_of_failed hs hr⟩
  · rw [translate_of_map hs htree hr, if_neg hw]
  · obtain ⟨grown, -, hfalse | ⟨-, hv, hphys, -⟩⟩ := mapPageCurrent_cases hs hr
    · cases hfalse
    obtain ⟨hpage, hoffset⟩ := add_offset hv ho
    rw [translate_of_map hs htree hr, if_pos hpage, hoffset,
      mask_eq_self (low_eq_zero.mp hphys) hlt]
    rfl
  · rw [translate_of_unmap hs htree hr, if_neg hw]
  · rw [translate_of_unmap hs htree hr, if_pos hw]

end calling

-- ==== an empty machine

/-- A kernel whose root says nothing, with some free pages. -/
def bare (freeStack : List UInt64) : Vm where
  tables := fun _ _ => 0
  freeStack := freeStack
  currentCr3 := 0x1000
  kernelCr3 := 0x1000
  ready := true
  nxeReady := true

theorem bare_root {pages : List UInt64} : (bare pages).root = 0x1000 := by
  show (0x1000 : UInt64) &&& pteAddrMask = 0x1000
  decide

theorem bare_reach {pages : List UInt64} {q : List (Fin 512)} {u : UInt64}
    (h : (bare pages).reach q = some u) : q = [] ∧ u = 0x1000 := by
  cases q with
  | nil => exact ⟨rfl, ((Option.some.inj h).symm.trans bare_root)⟩
  | cons i q =>
    have hnone : next 0 ((bare pages).tables (bare pages).root i) = none :=
      if_pos UInt64.zero_and
    unfold reach at h
    rw [Radix.reach_cons, hnone] at h
    cases h

theorem bare_loaded {pages : List UInt64} (hnodup : pages.Nodup)
    (hroom : pages.length ≤ pmmMaxTrackedPages)
    (hpage : ∀ u ∈ pages, Page u ∧ u ≠ 0x1000) :
    (bare pages).Loaded ∧ (bare pages).Tree := by
  refine ⟨⟨⟨?_, ?_, hnodup, fun u hu => (hpage u hu).1⟩, bare_root.symm, hroom⟩, ?_⟩
  · intro p q u _ _ hp hq
    rw [(bare_reach hp).1, (bare_reach hq).1]
  · intro u hu q _ hq
    exact (hpage u hu).2 (bare_reach hq).2
  · intro p q u _ _ _ hp hq
    rw [(bare_reach hp).1, (bare_reach hq).1]

theorem bare_pages_loaded :
    (bare [0x2000, 0x3000, 0x4000]).Loaded ∧ (bare [0x2000, 0x3000, 0x4000]).Tree := by
  apply bare_loaded
  · decide
  · decide
  · simp only [List.mem_cons, List.not_mem_nil, or_false, forall_eq_or_imp,
      forall_eq, Page]
    decide

/-- A page above the physical addresses is mapped, and translated to another. -/
theorem map_above_masked :
    ∃ vm : Vm, vm.Reached ∧ ∃ v phys flags,
      (vm.mapPageCurrent v phys flags).1 = true ∧
        ((vm.mapPageCurrent v phys flags).2.translateCurrent (v + 0)).map Prod.fst
          ≠ some (phys + 0) :=
  ⟨bare [0x2000, 0x3000, 0x4000],
    .loaded bare_pages_loaded.1 bare_pages_loaded.2,
    0x400000, 0x10000000000000, vmFlagWrite, by decide +kernel, by decide +kernel⟩

/-- Pages are mapped and unmapped in a new address space. -/
theorem translation_of_reached_new :
    ∃ vm : Vm, vm.Reached ∧ vm.root = 0x2000 ∧
      ((∀ v phys flags vm', vm.mapPageCurrent v phys flags = (true, vm') →
        (∀ w, pageOf w ≠ pageOf v →
          vm'.translateCurrent w = vm.translateCurrent w) ∧
        (phys.toNat < 2 ^ 52 → ∀ o : UInt64, o < 4096 →
          (vm'.translateCurrent (v + o)).map Prod.fst = some (phys + o))) ∧
      (∀ v phys vm', vm.unmapPageCurrent v = (some phys, vm') →
        (∀ w, pageOf w ≠ pageOf v →
          vm'.translateCurrent w = vm.translateCurrent w) ∧
        ∀ w, pageOf w = pageOf v → vm'.translateCurrent w = none) ∧
      ∀ c vm', vm.call c = (false, vm') →
        ∀ w, vm'.translateCurrent w = vm.translateCurrent w) := by
  have hloaded : (bare [0x2000, 0x3000, 0x4000, 0x5000]).Loaded ∧
      (bare [0x2000, 0x3000, 0x4000, 0x5000]).Tree := by
    apply bare_loaded
    · decide
    · decide
    · simp only [List.mem_cons, List.not_mem_nil, or_false, forall_eq_or_imp,
        forall_eq, Page]
      decide
  have hreached : (((bare [0x2000, 0x3000, 0x4000, 0x5000]).createAddressSpace.2.switchCr3
      0x2000).call (.map 0x8000000000 0x7000 vmFlagUser)).2.Reached :=
    .called (.created (.loaded hloaded.1 hloaded.2) bare_root.symm rfl (by decide)) _
  exact ⟨_, hreached, by decide +kernel, translation_of_reached hreached⟩

end Vm

end Clks.Memory
