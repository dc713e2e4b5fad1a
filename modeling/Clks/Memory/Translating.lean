/-
What the calls do to the translations of an address space.

The walks that the machine makes are those of a radix tree (`next`), so the
laws of such trees say what an entry that is written changes. A call hangs
free pages under missing entries (`Attached`), and writes one entry of the
last level when it succeeds: nothing else happens (`mapPageCurrent_cases`,
`unmapPageCurrent_cases`, `protectPageCurrent_cases`).
-/
import Clks.Memory.Paging

namespace Clks.Memory

-- ==== bits

section bits

variable {a b c u e phys flags w : UInt64}

theorem or_and : (a ||| b) &&& c = (a &&& c) ||| (b &&& c) := by
  apply UInt64.toBitVec_inj.1
  apply BitVec.eq_of_getLsbD_eq
  intro i _
  simp [Bool.and_or_distrib_right]

theorem mask_and (h : pteAddrMask &&& b = 0) : a &&& pteAddrMask &&& b = 0 := by
  rw [UInt64.and_assoc, h, UInt64.and_zero]

@[simp]
theorem mask_mask : a &&& pteAddrMask &&& pteAddrMask = a &&& pteAddrMask := by
  rw [UInt64.and_assoc, UInt64.and_self]

theorem low_toNat : (w &&& (vmPageSize - 1)).toNat = w.toNat % 4096 := by
  rw [UInt64.toNat_and]
  exact Nat.and_two_pow_sub_one_eq_mod w.toNat 12

theorem low_eq_zero : w &&& (vmPageSize - 1) = 0 ↔ w.toNat % 4096 = 0 := by
  rw [← low_toNat, ← UInt64.toNat_inj]
  rfl

theorem mask_testBit :
    ∀ i < 64, pteAddrMask.toNat.testBit i = decide (12 ≤ i ∧ i < 52) := by
  decide

theorem mask_eq_self (halign : w.toNat % 4096 = 0) (hlt : w.toNat < 2 ^ 52) :
    w &&& pteAddrMask = w := by
  rw [← UInt64.toNat_inj, UInt64.toNat_and]
  apply Nat.eq_of_testBit_eq
  intro i
  rw [Nat.testBit_and]
  have hlow : ∀ i < 12, w.toNat.testBit i = false := by
    intro i hi
    have hbit := Nat.testBit_mod_two_pow w.toNat 12 i
    rw [show w.toNat % 2 ^ 12 = 0 from halign, Nat.zero_testBit] at hbit
    simpa [hi] using hbit.symm
  by_cases h64 : i < 64
  · rw [mask_testBit i h64]
    by_cases h12 : i < 12
    · rw [hlow i h12, Bool.false_and]
    · by_cases h52 : i < 52
      · simp [Nat.not_lt.mp h12, h52]
      · have hhigh : w.toNat.testBit i = false := by
          apply Nat.testBit_lt_two_pow
          calc w.toNat < 2 ^ 52 := hlt
            _ ≤ 2 ^ i := Nat.pow_le_pow_right (by omega) (by omega)
        rw [hhigh, Bool.false_and]
  · have hhigh : w.toNat.testBit i = false := by
      apply Nat.testBit_lt_two_pow
      calc w.toNat < 2 ^ 52 := hlt
        _ ≤ 2 ^ i := Nat.pow_le_pow_right (by omega) (by omega)
    rw [hhigh, Bool.false_and]

end bits

/-- The address of a page that can be a table. -/
def Page (u : UInt64) : Prop := u ≠ 0 ∧ u &&& pteAddrMask = u

theorem Page.aligned {u : UInt64} (h : Page u) : u &&& (vmPageSize - 1) = 0 := by
  rw [← h.2]
  exact mask_and (by decide)

-- ==== entries

/-- The table that an entry leads to: the root's entries are never pages. -/
def next (level : Nat) (entry : UInt64) : Option UInt64 :=
  if entry &&& ptePresent = 0 then none
  else if level ≠ 0 ∧ entry &&& ptePs ≠ 0 then none
  else some (entry &&& pteAddrMask)

def present (entry : UInt64) : Bool := entry &&& ptePresent ≠ 0

section entries

variable {level : Nat} {b e u v flags phys : UInt64} {vm : Vm}

theorem present_of_next (h : next level e = some u) : present e = true := by
  unfold next at h
  split at h
  · cases h
  · next hp => exact decide_eq_true hp

theorem next_of_child (h : child e = some u) : next level e = some u := by
  unfold child at h
  split at h
  · cases h
  · next hc =>
    rw [not_or, not_not] at hc
    unfold next
    rw [if_neg hc.1, if_neg fun hps => hps.2 hc.2]
    exact h

theorem pte_and (hb : pteAddrMask &&& b = 0) :
    ((phys &&& pteAddrMask) ||| e) &&& b = e &&& b := by
  rw [or_and, mask_and hb, UInt64.zero_or]

theorem pte_mask (he : e &&& pteAddrMask = 0) :
    ((phys &&& pteAddrMask) ||| e) &&& pteAddrMask = phys &&& pteAddrMask := by
  rw [or_and, he, UInt64.or_zero, mask_mask]

theorem tableEntry_eq :
    tableEntry phys flags
      = (phys &&& pteAddrMask) ||| (ptePresent ||| pteWrite ||| flags) := by
  unfold tableEntry
  rw [UInt64.or_assoc, UInt64.or_assoc, UInt64.or_assoc]

theorem tableEntry_present (hflags : flags = 0 ∨ flags = pteUser) :
    tableEntry phys flags &&& ptePresent ≠ 0 := by
  rw [tableEntry_eq, pte_and (by decide)]
  rcases hflags with rfl | rfl <;> decide

theorem tableEntry_ps (hflags : flags = 0 ∨ flags = pteUser) :
    tableEntry phys flags &&& ptePs = 0 := by
  rw [tableEntry_eq, pte_and (by decide)]
  rcases hflags with rfl | rfl <;> decide

theorem next_tableEntry (hflags : flags = 0 ∨ flags = pteUser) (hpage : Page u) :
    next level (tableEntry u flags) = some u := by
  have hpresent : tableEntry u flags &&& ptePresent ≠ 0 :=
    tableEntry_present hflags
  have hps : tableEntry u flags &&& ptePs = 0 := tableEntry_ps hflags
  have hmask : tableEntry u flags &&& pteAddrMask = u := by
    rw [tableEntry_eq, pte_mask, hpage.2]
    rcases hflags with rfl | rfl <;> decide
  unfold next
  rw [if_neg hpresent, if_neg fun h => h.2 hps, hmask]

theorem entryFlagsFromApi_present :
    vm.entryFlagsFromApi flags &&& ptePresent ≠ 0 := by
  unfold Vm.entryFlagsFromApi
  split_ifs <;> decide

theorem entryFlagsFromApi_mask :
    vm.entryFlagsFromApi flags &&& pteAddrMask = 0 := by
  unfold Vm.entryFlagsFromApi
  split_ifs <;> decide

theorem present_pte :
    present ((phys &&& pteAddrMask) ||| vm.entryFlagsFromApi flags) = true := by
  unfold present
  rw [pte_and (by decide)]
  exact decide_eq_true entryFlagsFromApi_present

end entries

-- ==== tables

namespace Vm

/-- The table that the machine starts at. -/
def root (vm : Vm) : UInt64 := vm.currentCr3 &&& pteAddrMask

def reach (vm : Vm) (p : List (Fin 512)) : Option UInt64 :=
  Radix.reach next vm.tables 0 vm.root p

structure Sound (vm : Vm) : Prop where
  leveled : Radix.Leveled next vm.tables vm.root 3
  fresh : ∀ u ∈ vm.freeStack, ∀ q, q.length ≤ 3 → vm.reach q ≠ some u
  nodup : vm.freeStack.Nodup
  page : ∀ u ∈ vm.freeStack, Page u

/-- No table is reached by two paths. -/
def Tree (vm : Vm) : Prop := Radix.Tree next vm.tables vm.root 3

/-- A free page is hung under an entry. -/
def attachTable (vm : Vm) (t : UInt64) (i : Fin 512) (u flags : UInt64)
    (rest : List UInt64) : Vm :=
  { vm with
    freeStack := rest
    tables := Radix.attach t i u (tableEntry u flags) 0 vm.tables }

/-- The free page on top is hung under a missing entry above the last level. -/
inductive Attached (flags : UInt64) : Vm → Vm → Prop
  | intro {vm : Vm} {p : List (Fin 512)} {t u : UInt64} {i : Fin 512}
      {rest : List UInt64} (hp : vm.reach p = some t) (hlength : p.length < 3)
      (hold : vm.tables t i &&& ptePresent = 0)
      (hfree : vm.freeStack = u :: rest) :
      Attached flags vm (vm.attachTable t i u flags rest)

/-- Tables are added, one after the other. -/
def Grows (flags : UInt64) : Vm → Vm → Prop :=
  Relation.ReflTransGen (Attached flags)

/-- An entry of the last level is written. -/
def putLast (vm : Vm) (t : UInt64) (i : Fin 512) (e : UInt64) : Vm :=
  { vm with tables := Radix.put t i e vm.tables }

theorem not_present {e : UInt64} (h : e &&& ptePresent = 0) : present e = false := by
  unfold present
  rw [h]
  rfl

-- ==== one table

section attaching

variable {vm : Vm} {p q : List (Fin 512)} {t u flags : UInt64} {i : Fin 512}
  {rest : List UInt64} (hs : vm.Sound) (hp : vm.reach p = some t)
  (hlength : p.length < 3) (hold : vm.tables t i &&& ptePresent = 0)
  (hfree : vm.freeStack = u :: rest) (hflags : flags = 0 ∨ flags = pteUser)

include hs hfree in
theorem Sound.top : (∀ q, q.length ≤ 3 → vm.reach q ≠ some u) ∧ Page u := by
  have hmem : u ∈ vm.freeStack := by
    rw [hfree]
    exact List.mem_cons_self
  exact ⟨hs.fresh u hmem, hs.page u hmem⟩

include hs hp hlength hold hfree hflags

theorem reach_attachTable (v : UInt64) (hq : q.length ≤ 3) :
    (vm.attachTable t i u flags rest).reach q = some v ↔
      vm.reach q = some v ∨
        v = u ∧ ∃ p', q = p' ++ [i] ∧ vm.reach p' = some t := by
  obtain ⟨hfresh, hpage⟩ := hs.top hfree
  exact Radix.reach_attach hfresh hp hlength (not_present hold) rfl
    (fun l => next_tableEntry hflags hpage) (fun l e v => present_of_next) v hq

theorem Sound.attachTable : (vm.attachTable t i u flags rest).Sound := by
  obtain ⟨hfresh, hpage⟩ := hs.top hfree
  have hnodup : u ∉ rest ∧ rest.Nodup := by
    have hnodup := hs.nodup
    rw [hfree] at hnodup
    exact List.nodup_cons.mp hnodup
  have hrest : ∀ x ∈ rest, x ∈ vm.freeStack := by
    intro x hx
    rw [hfree]
    exact List.mem_cons_of_mem u hx
  refine ⟨?_, ?_, hnodup.2, fun x hx => hs.page x (hrest x hx)⟩
  · exact Radix.Leveled.attach hfresh hp hlength (not_present hold) rfl
      (fun l => next_tableEntry hflags hpage) (fun l e v => present_of_next)
      hs.leveled
  · intro x hx q hq hreach
    rw [reach_attachTable hs hp hlength hold hfree hflags x hq] at hreach
    rcases hreach with hreach | ⟨rfl, -⟩
    · exact hs.fresh x (hrest x hx) q hq hreach
    · exact hnodup.1 hx

theorem Tree.attachTable (htree : vm.Tree) :
    (vm.attachTable t i u flags rest).Tree := by
  obtain ⟨hfresh, hpage⟩ := hs.top hfree
  exact Radix.Unshared.attach hfresh hp hlength (not_present hold) rfl
    (fun l => next_tableEntry hflags hpage) (fun l e v => present_of_next)
    (fun _ _ _ => Or.inl trivial) htree

theorem lookup_attachTable (hq : q.length = 4) :
    Radix.lookup next present (vm.attachTable t i u flags rest).tables 0
        (vm.attachTable t i u flags rest).root q
      = Radix.lookup next present vm.tables 0 vm.root q := by
  obtain ⟨hfresh, hpage⟩ := hs.top hfree
  exact Radix.lookup_attach hfresh hp hlength (not_present hold) rfl
    (fun l => next_tableEntry hflags hpage) (fun l e v => present_of_next)
    hs.leveled hq

omit hflags in
theorem entry_attachTable {w : UInt64} {j : Fin 512} (hq : q.length ≤ 3)
    (hreach : vm.reach q = some w) (hpresent : vm.tables w j &&& ptePresent ≠ 0) :
    (vm.attachTable t i u flags rest).tables w j = vm.tables w j := by
  obtain ⟨hfresh, hpage⟩ := hs.top hfree
  have hne := Radix.fresh_ne hfresh hp hlength
  have happly : (vm.attachTable t i u flags rest).tables w j = _ :=
    Radix.attach_apply w j hne
  have hwu : w ≠ u := by
    rintro rfl
    exact hfresh q hq hreach
  rw [if_neg hwu, if_neg] at happly
  · exact happly
  · rintro ⟨rfl, rfl⟩
    exact hpresent hold

end attaching

-- ==== many tables

section growing

variable {vm vm' : Vm} {p q : List (Fin 512)} {t u v e flags : UInt64}
  {i : Fin 512}

/-- What adding tables keeps. -/
structure Kept (vm vm' : Vm) : Prop where
  currentCr3 : vm'.currentCr3 = vm.currentCr3
  kernelCr3 : vm'.kernelCr3 = vm.kernelCr3
  ready : vm'.ready = vm.ready
  nxeReady : vm'.nxeReady = vm.nxeReady
  sound : vm'.Sound
  tree : vm.Tree → vm'.Tree
  reach : ∀ q t, q.length ≤ 3 → vm.reach q = some t → vm'.reach q = some t
  entry : ∀ q t i, q.length ≤ 3 → vm.reach q = some t →
    vm.tables t i &&& ptePresent ≠ 0 → vm'.tables t i = vm.tables t i
  lookup : ∀ q, q.length = 4 →
    Radix.lookup next present vm'.tables 0 vm'.root q
      = Radix.lookup next present vm.tables 0 vm.root q

theorem Kept.refl (hs : vm.Sound) : Kept vm vm :=
  ⟨rfl, rfl, rfl, rfl, hs, id, fun _ _ _ h => h, fun _ _ _ _ _ _ => rfl,
    fun _ _ => rfl⟩

theorem Kept.trans {vm'' : Vm} (h : Kept vm vm') (h' : Kept vm' vm'') :
    Kept vm vm'' where
  currentCr3 := h'.currentCr3.trans h.currentCr3
  kernelCr3 := h'.kernelCr3.trans h.kernelCr3
  ready := h'.ready.trans h.ready
  nxeReady := h'.nxeReady.trans h.nxeReady
  sound := h'.sound
  tree := fun htree => h'.tree (h.tree htree)
  reach := fun q t hq hreach => h'.reach q t hq (h.reach q t hq hreach)
  entry := fun q t i hq hreach hpresent => by
    have hsame := h.entry q t i hq hreach hpresent
    rw [← hsame] at hpresent
    rw [h'.entry q t i hq (h.reach q t hq hreach) hpresent, hsame]
  lookup := fun q hq => (h'.lookup q hq).trans (h.lookup q hq)

theorem Attached.kept (hs : vm.Sound) (hflags : flags = 0 ∨ flags = pteUser)
    (h : Attached flags vm vm') : Kept vm vm' := by
  obtain ⟨hp, hlength, hold, hfree⟩ := h
  exact {
    currentCr3 := rfl
    kernelCr3 := rfl
    ready := rfl
    nxeReady := rfl
    sound := hs.attachTable hp hlength hold hfree hflags
    tree := Tree.attachTable hs hp hlength hold hfree hflags
    reach := fun q v hq hreach =>
      (reach_attachTable hs hp hlength hold hfree hflags v hq).mpr (Or.inl hreach)
    entry := fun q w j hq hreach hpresent =>
      entry_attachTable hs hp hlength hold hfree hq hreach hpresent
    lookup := fun q hq => lookup_attachTable hs hp hlength hold hfree hflags hq }

theorem Grows.kept (hs : vm.Sound) (hflags : flags = 0 ∨ flags = pteUser)
    (h : Grows flags vm vm') : Kept vm vm' := by
  induction h with
  | refl => exact Kept.refl hs
  | tail _ hstep ih => exact ih.trans (hstep.kept ih.sound hflags)

-- ==== the last level

section last

variable (hs : vm.Sound) (hp : vm.reach p = some t) (hlength : p.length = 3)

include hs hp hlength

theorem reach_putLast (hq : q.length ≤ 3) :
    (vm.putLast t i e).reach q = vm.reach q :=
  Radix.reach_put_last hs.leveled hp hlength hq

theorem Sound.putLast : (vm.putLast t i e).Sound where
  leveled := hs.leveled.put hp hlength
  fresh := fun u hu q hq => by
    rw [reach_putLast hs hp hlength hq]
    exact hs.fresh u hu q hq
  nodup := hs.nodup
  page := hs.page

theorem Tree.putLast (htree : vm.Tree) : (vm.putLast t i e).Tree :=
  Radix.Unshared.put hs.leveled hp hlength htree

end last

end growing

-- ==== calls

section mapping

variable {vm : Vm} {p : List (Fin 512)} {t v phys flags : UInt64} {i : Fin 512}

/-- The flags of the tables on the way. -/
def tableFlags (flags : UInt64) : UInt64 :=
  if flags &&& vmFlagUser ≠ 0 then pteUser else 0

theorem tableFlags_cases : tableFlags flags = 0 ∨ tableFlags flags = pteUser := by
  unfold tableFlags
  split
  · exact Or.inr rfl
  · exact Or.inl rfl

theorem follow_reach (hp : vm.reach p = some t)
    (hpresent : vm.tables t i &&& ptePresent ≠ 0) :
    (nextTable.follow t i vm).2 = vm ∧
      ∀ u, (nextTable.follow t i vm).1 = some u → vm.reach (p ++ [i]) = some u := by
  unfold nextTable.follow
  split
  · exact ⟨rfl, nofun⟩
  · next hps =>
    refine ⟨rfl, ?_⟩
    intro u hu
    unfold reach at hp ⊢
    rw [Radix.reach_concat hp]
    apply next_of_child
    unfold child
    rw [if_neg fun h => h.elim hpresent hps]
    exact hu

theorem nextTable_new {u : UInt64} {rest : List UInt64}
    (hold : vm.tables t i &&& ptePresent = 0) (hfree : vm.freeStack = u :: rest)
    (hu : u ≠ 0) :
    vm.nextTable t i flags
      = nextTable.follow t i (vm.attachTable t i u flags rest) := by
  unfold nextTable allocPage
  rw [if_pos hold, hfree]
  exact if_neg hu

theorem nextTable_grows (hs : vm.Sound) (hp : vm.reach p = some t)
    (hlength : p.length < 3) (hflags : flags = 0 ∨ flags = pteUser) :
    Grows flags vm (vm.nextTable t i flags).2 ∧
      ∀ u, (vm.nextTable t i flags).1 = some u →
        (vm.nextTable t i flags).2.reach (p ++ [i]) = some u := by
  by_cases hold : vm.tables t i &&& ptePresent = 0
  · cases hfree : vm.freeStack with
    | nil =>
      have hnone : vm.nextTable t i flags = (none, vm) := by
        unfold nextTable allocPage
        rw [if_pos hold, hfree]
        rfl
      rw [hnone]
      exact ⟨Relation.ReflTransGen.refl, nofun⟩
    | cons u rest =>
      have hstep : Attached flags vm (vm.attachTable t i u flags rest) :=
        .intro hp hlength hold hfree
      have hthere : (vm.attachTable t i u flags rest).tables t i &&& ptePresent ≠ 0 := by
        rw [show (vm.attachTable t i u flags rest).tables t i = tableEntry u flags
          from Radix.put_self]
        exact tableEntry_present hflags
      obtain ⟨hsame, hreach⟩ :=
        follow_reach ((hstep.kept hs hflags).reach p t (by omega) hp) hthere
      rw [nextTable_new hold hfree (hs.top hfree).2.1, hsame]
      exact ⟨Relation.ReflTransGen.single hstep, hreach⟩
  · have hsome : vm.nextTable t i flags = nextTable.follow t i vm := by
      unfold nextTable
      rw [if_neg hold]
    obtain ⟨hsame, hreach⟩ := follow_reach hp hold
    rw [hsome, hsame]
    exact ⟨Relation.ReflTransGen.refl, hreach⟩

theorem entryFlagsFromApi_congr {vm' : Vm} (h : vm'.nxeReady = vm.nxeReady) :
    vm'.entryFlagsFromApi flags = vm.entryFlagsFromApi flags := by
  unfold entryFlagsFromApi
  rw [h]

/-- The tables on the walk to an address. -/
def upper (v : UInt64) : List (Fin 512) := [slot v 39, slot v 30, slot v 21]

theorem mapPageCurrent_cases {r : Bool × Vm} (hs : vm.Sound)
    (hr : vm.mapPageCurrent v phys flags = r) :
    ∃ grown, Grows (tableFlags flags) vm grown ∧
      (r = (false, grown) ∨
        (vm.ready = true ∧ v &&& (vmPageSize - 1) = 0 ∧
          phys &&& (vmPageSize - 1) = 0 ∧ vm.currentCr3 ≠ 0 ∧
          ∃ pt, grown.reach (upper v) = some pt ∧
            r = (true, grown.putLast pt (slot v 12)
              ((phys &&& pteAddrMask) ||| vm.entryFlagsFromApi flags)))) := by
  unfold mapPageCurrent at hr
  split at hr
  · exact ⟨vm, Relation.ReflTransGen.refl, Or.inl hr.symm⟩
  next hok =>
  simp only [Bool.or_eq_true, Bool.not_eq_true', decide_eq_true_eq, not_or,
    Bool.not_eq_false, not_not] at hok
  unfold currentPml4 at hr
  by_cases hcr3 : vm.currentCr3 = 0
  · rw [if_pos hcr3] at hr
    exact ⟨vm, Relation.ReflTransGen.refl, Or.inl hr.symm⟩
  rw [if_neg hcr3] at hr
  have hflags : tableFlags flags = 0 ∨ tableFlags flags = pteUser :=
    tableFlags_cases
  have hroot : vm.currentCr3 &&& pteAddrMask = vm.root := rfl
  have htable : (if flags &&& vmFlagUser ≠ 0 then pteUser else 0)
      = tableFlags flags := rfl
  dsimp only at hr
  rw [hroot, htable] at hr
  have grows1 := nextTable_grows (p := []) (i := slot v 39) hs rfl (by decide) hflags
  rcases hw1 : vm.nextTable vm.root (slot v 39) (tableFlags flags) with ⟨pdpt, vm1⟩
  rw [hw1] at hr grows1
  obtain ⟨grows1, hpdpt⟩ := grows1
  cases pdpt with
  | none => exact ⟨vm1, grows1, Or.inl hr.symm⟩
  | some pdpt =>
    have kept1 := grows1.kept hs hflags
    have grows2 := nextTable_grows (i := slot v 30) kept1.sound (hpdpt pdpt rfl)
      (by simp) hflags
    rcases hw2 : vm1.nextTable pdpt (slot v 30) (tableFlags flags) with ⟨pd, vm2⟩
    dsimp only at hr
    rw [hw2] at hr grows2
    obtain ⟨grows2, hpd⟩ := grows2
    cases pd with
    | none => exact ⟨vm2, grows1.trans grows2, Or.inl hr.symm⟩
    | some pd =>
      have kept2 := grows2.kept kept1.sound hflags
      have grows3 := nextTable_grows (i := slot v 21) kept2.sound (hpd pd rfl)
        (by simp) hflags
      rcases hw3 : vm2.nextTable pd (slot v 21) (tableFlags flags) with ⟨pt, vm3⟩
      dsimp only at hr
      rw [hw3] at hr grows3
      obtain ⟨grows3, hpt⟩ := grows3
      have grows := (grows1.trans grows2).trans grows3
      cases pt with
      | none => exact ⟨vm3, grows, Or.inl hr.symm⟩
      | some pt =>
        refine ⟨vm3, grows, Or.inr ⟨hok.1.1, hok.1.2, hok.2, hcr3, pt, hpt pt rfl, ?_⟩⟩
        have hnxe : vm3.nxeReady = vm.nxeReady := (Grows.kept hs hflags grows).nxeReady
        rw [← entryFlagsFromApi_congr hnxe]
        exact hr.symm

theorem walk_reach {pt : UInt64} (h : vm.walk v = some pt) :
    vm.currentCr3 ≠ 0 ∧ vm.reach (upper v) = some pt := by
  unfold walk currentPml4 at h
  obtain ⟨pml4, hpml4, h⟩ := Option.bind_eq_some_iff.mp h
  obtain ⟨pdpt, hpdpt, h⟩ := Option.bind_eq_some_iff.mp h
  obtain ⟨pd, hpd, hpt⟩ := Option.bind_eq_some_iff.mp h
  obtain ⟨hcr3, hroot⟩ := Option.ite_none_left_eq_some.mp hpml4
  refine ⟨hcr3, ?_⟩
  obtain rfl := Option.some.inj hroot
  unfold reach upper
  rw [Radix.reach_cons, show next 0 (vm.tables vm.root (slot v 39)) = some pdpt
    from next_of_child hpdpt, Option.bind_some, Radix.reach_cons,
    next_of_child hpd, Option.bind_some, Radix.reach_cons, next_of_child hpt]
  rfl

theorem protectPageCurrent_cases {r : Bool × Vm}
    (hr : vm.protectPageCurrent v flags = r) :
    r = (false, vm) ∨
      vm.ready = true ∧ vm.currentCr3 ≠ 0 ∧
        ∃ pt, vm.reach (upper v) = some pt ∧
          vm.tables pt (slot v 12) &&& ptePresent ≠ 0 ∧
          r = (true, vm.putLast pt (slot v 12)
            ((vm.tables pt (slot v 12) &&& pteAddrMask)
              ||| vm.entryFlagsFromApi flags)) := by
  unfold protectPageCurrent at hr
  split at hr
  · exact Or.inl hr.symm
  next hok =>
  rw [Bool.or_eq_true, not_or, Bool.not_eq_true', Bool.not_eq_false] at hok
  split at hr
  · exact Or.inl hr.symm
  next pt hwalk =>
  obtain ⟨hcr3, hreach⟩ := walk_reach hwalk
  dsimp only at hr
  split at hr
  · exact Or.inl hr.symm
  next hpresent =>
  exact Or.inr ⟨hok.1, hcr3, pt, hreach, hpresent, hr.symm⟩

theorem unmapPageCurrent_cases {r : Option UInt64 × Vm}
    (hr : vm.unmapPageCurrent v = r) :
    r = (none, vm) ∨
      vm.ready = true ∧ vm.currentCr3 ≠ 0 ∧
        ∃ pt, vm.reach (upper v) = some pt ∧
          vm.tables pt (slot v 12) &&& ptePresent ≠ 0 ∧
          r = (some (vm.tables pt (slot v 12) &&& pteAddrMask),
            vm.putLast pt (slot v 12) 0) := by
  unfold unmapPageCurrent at hr
  split at hr
  · exact Or.inl hr.symm
  next hok =>
  rw [Bool.or_eq_true, not_or, Bool.not_eq_true', Bool.not_eq_false] at hok
  split at hr
  · exact Or.inl hr.symm
  next pt hwalk =>
  obtain ⟨hcr3, hreach⟩ := walk_reach hwalk
  dsimp only at hr
  split at hr
  · exact Or.inl hr.symm
  next hpresent =>
  exact Or.inr ⟨hok.1, hcr3, pt, hreach, hpresent, hr.symm⟩

end mapping

-- ==== address spaces

/-- The kernel runs in its own address space, and the stack of free pages has
room for all that are free. -/
structure Loaded (vm : Vm) : Prop extends vm.Sound where
  kernel : vm.kernelCr3 = vm.root
  room : vm.freeStack.length ≤ pmmMaxTrackedPages

/-- The new address space is the one that is used. -/
def createdAs (vm : Vm) (phys : UInt64) (rest : List UInt64) : Vm :=
  { vm with
    freeStack := rest
    currentCr3 := phys
    tables := Function.update vm.tables phys fun i =>
      if shared i then vm.tables vm.kernelCr3 i else 0 }

theorem createAddressSpace_eq {vm vm' : Vm} {root : UInt64} (hs : vm.Sound)
    (hr : vm.createAddressSpace = (root, vm')) (hroot : root ≠ 0) :
    ∃ rest, vm.freeStack = root :: rest ∧
      vm'.switchCr3 root = vm.createdAs root rest := by
  unfold createAddressSpace at hr
  split at hr
  · exact absurd (congrArg Prod.fst hr).symm hroot
  unfold allocPage at hr
  cases hfree : vm.freeStack with
  | nil =>
    rw [hfree] at hr
    exact absurd (congrArg Prod.fst hr).symm hroot
  | cons phys rest =>
    have hpage := (hs.top hfree).2
    rw [hfree] at hr
    dsimp only at hr
    rw [if_neg hpage.1, hpage.2] at hr
    obtain rfl : phys = root := congrArg Prod.fst hr
    obtain rfl := congrArg Prod.snd hr
    refine ⟨rest, rfl, ?_⟩
    unfold switchCr3
    rw [if_pos ⟨hpage.1, Page.aligned hpage⟩]
    rfl

section creating

variable {vm : Vm} {root : UInt64} {rest : List UInt64} {p : List (Fin 512)}
  {i : Fin 512} (hs : vm.Sound) (hkernel : vm.kernelCr3 = vm.root)
  (hfree : vm.freeStack = root :: rest)

include hs hkernel hfree

theorem reach_createdAs (hp : p.length ≤ 2) :
    (vm.createdAs root rest).reach (i :: p)
      = if shared i then vm.reach (i :: p) else none := by
  obtain ⟨hfresh, hpage⟩ := hs.top hfree
  have hroot : (vm.createdAs root rest).root = root := hpage.2
  have hrow : (vm.createdAs root rest).tables root i
      = if shared i then vm.tables vm.root i else 0 := by
    rw [← hkernel]
    exact congrFun (Function.update_self root _ vm.tables) i
  have hsame : Radix.reach next (vm.createdAs root rest).tables 0 vm.root (i :: p)
      = vm.reach (i :: p) := by
    have hlength : (i :: p).length ≤ 3 := Nat.succ_le_succ hp
    refine Radix.reach_congr (fun q u j hq hreach => ?_) hlength
    refine congrFun (Function.update_of_ne ?_ _ _) j
    rintro rfl
    exact hfresh q (by omega) hreach
  have hkernelrow : (vm.createdAs root rest).tables vm.root i
      = vm.tables vm.root i := by
    refine congrFun (Function.update_of_ne ?_ _ _) i
    rintro rfl
    exact hfresh [] (by simp) rfl
  unfold reach at hsame ⊢
  rw [Radix.reach_cons, hkernelrow] at hsame
  rw [hroot, Radix.reach_cons, hrow]
  by_cases hi : shared i = true
  · rw [if_pos hi, if_pos hi, hsame]
  · rw [if_neg hi, if_neg hi]
    rfl

theorem reach_of_createdAs {u : UInt64} (hp : p.length ≤ 3)
    (h : (vm.createdAs root rest).reach p = some u) :
    p = [] ∧ u = root ∨ p ≠ [] ∧ u ≠ root ∧ vm.reach p = some u := by
  obtain ⟨hfresh, hpage⟩ := hs.top hfree
  cases p with
  | nil =>
    have hroot : (vm.createdAs root rest).root = root := hpage.2
    exact Or.inl ⟨rfl, ((Option.some.inj h).symm.trans hroot)⟩
  | cons i p =>
    rw [List.length_cons] at hp
    rw [reach_createdAs hs hkernel hfree (by omega)] at h
    obtain ⟨-, h⟩ := Option.ite_none_right_eq_some.mp h
    refine Or.inr ⟨List.cons_ne_nil i p, ?_, h⟩
    rintro rfl
    exact hfresh (i :: p) (by rw [List.length_cons]; omega) h

theorem Sound.createdAs : (vm.createdAs root rest).Sound := by
  obtain ⟨hfresh, hpage⟩ := hs.top hfree
  have hnodup : root ∉ rest ∧ rest.Nodup := by
    have hnodup := hs.nodup
    rw [hfree] at hnodup
    exact List.nodup_cons.mp hnodup
  have hrest : ∀ x ∈ rest, x ∈ vm.freeStack := by
    intro x hx
    rw [hfree]
    exact List.mem_cons_of_mem root hx
  refine ⟨?_, ?_, hnodup.2, fun x hx => hs.page x (hrest x hx)⟩
  · intro p q u hp hq hreach hreach'
    rcases reach_of_createdAs hs hkernel hfree hp hreach with
      ⟨rfl, rfl⟩ | ⟨-, hne, hold⟩
    · rcases reach_of_createdAs hs hkernel hfree hq hreach' with
        ⟨rfl, -⟩ | ⟨-, hne, -⟩
      · rfl
      · exact absurd rfl hne
    · rcases reach_of_createdAs hs hkernel hfree hq hreach' with
        ⟨-, heq⟩ | ⟨-, -, hold'⟩
      · exact absurd heq hne
      · exact hs.leveled p q u hp hq hold hold'
  · intro u hu q hq hreach
    rcases reach_of_createdAs hs hkernel hfree hq hreach with
      ⟨-, rfl⟩ | ⟨-, -, hold⟩
    · exact hnodup.1 hu
    · exact hs.fresh u (hrest u hu) q hq hold

theorem Tree.createdAs (htree : vm.Tree) : (vm.createdAs root rest).Tree := by
  intro p q u _ hp hq hreach hreach'
  rcases reach_of_createdAs hs hkernel hfree hp hreach with
    ⟨rfl, rfl⟩ | ⟨-, hne, hold⟩
  · rcases reach_of_createdAs hs hkernel hfree hq hreach' with
      ⟨rfl, -⟩ | ⟨-, hne, -⟩
    · rfl
    · exact absurd rfl hne
  · rcases reach_of_createdAs hs hkernel hfree hq hreach' with
      ⟨-, heq⟩ | ⟨-, -, hold'⟩
    · exact absurd heq hne
    · exact Radix.Tree.eq htree hp hq hold hold'

end creating

end Vm

end Clks.Memory
