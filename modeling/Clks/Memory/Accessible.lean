/-
Pages that are mapped for the user.

The machine lets the user come to a page if every entry on the walk to it
allows that. A table is hung under its entry once, with the permissions of
the mapping that first needs it, and later mappings take the entry as it is.
-/
import Clks.Memory.Mapping

namespace Clks.Memory

namespace Vm

/-- An entry lets the user in, and write if that is asked for. -/
def Lets (write : Prop) (e : UInt64) : Prop :=
  e &&& pteUser ≠ 0 ∧ (write → e &&& pteWrite ≠ 0)

/-- Every entry on the walk to a page lets the user in. -/
def Accessible (vm : Vm) (v : UInt64) (write : Prop) : Prop :=
  ∀ p i t, p ++ [i] <+: path v → vm.reach p = some t →
    Lets write (vm.tables t i)

/-- The entries above a page that are there let the user in. -/
def Prepared (vm : Vm) (v : UInt64) (write : Prop) : Prop :=
  ∀ p i t, p ++ [i] <+: upper v → vm.reach p = some t →
    vm.tables t i &&& ptePresent ≠ 0 → Lets write (vm.tables t i)

/-- The pages that are marked for the user can be come to. -/
def Effective (vm : Vm) : Prop :=
  ∀ v e, vm.entryAt (path v) = some (3, e) → e &&& pteUser ≠ 0 →
    vm.Accessible v (e &&& pteWrite ≠ 0)

section growing

variable {vm vm' : Vm} {q : List (Fin 512)} {t flags : UInt64} {i : Fin 512}

theorem Grows.entry (hs : vm.Sound) (hflags : flags = 0 ∨ flags = pteUser)
    (h : Grows flags vm vm') (hq : q.length ≤ 3) (hreach : vm'.reach q = some t)
    (hpresent : vm'.tables t i &&& ptePresent ≠ 0) :
    vm.reach q = some t ∧ vm.tables t i = vm'.tables t i ∨
      ∃ u, vm'.tables t i = tableEntry u flags := by
  induction h with
  | refl => exact Or.inl ⟨hreach, rfl⟩
  | @tail mid last hmid hstep ih =>
    have hsmid := (Grows.kept hs hflags hmid).sound
    obtain ⟨hp, hlength, hold, hfree⟩ := hstep
    rename_i p w u j rest
    obtain ⟨hfresh, hpage⟩ := hsmid.top hfree
    have hne := Radix.fresh_ne hfresh hp hlength
    have happly : (mid.attachTable w j u flags rest).tables t i = _ :=
      Radix.attach_apply t i hne
    rw [reach_attachTable hsmid hp hlength hold hfree hflags t hq] at hreach
    rcases hreach with hreach | ⟨rfl, -⟩
    · have htu : t ≠ u := by
        rintro rfl
        exact hfresh q hq hreach
      rw [if_neg htu] at happly
      split at happly
      · exact Or.inr ⟨u, happly⟩
      · rw [happly] at hpresent ⊢
        exact ih hreach hpresent
    · rw [if_pos rfl] at happly
      rw [happly] at hpresent
      exact absurd UInt64.zero_and hpresent

end growing

-- ==== entries

section entries

variable {vm : Vm} {u phys flags : UInt64} {write : Prop}

theorem lets_tableEntry : Lets write (tableEntry u pteUser) := by
  unfold Lets
  rw [tableEntry_eq, pte_and (by decide), pte_and (by decide)]
  exact ⟨by decide, fun _ => by decide⟩

theorem entryFlagsFromApi_bits :
    (vm.entryFlagsFromApi flags &&& pteUser ≠ 0 ↔ flags &&& vmFlagUser ≠ 0) ∧
      (vm.entryFlagsFromApi flags &&& pteWrite ≠ 0 ↔
        flags &&& vmFlagWrite ≠ 0) := by
  unfold entryFlagsFromApi
  by_cases huser : flags &&& vmFlagUser = 0 <;>
    by_cases hwrite : flags &&& vmFlagWrite = 0 <;>
    simp only [huser, hwrite, ne_eq, not_true_eq_false, not_false_eq_true,
      if_true, if_false] <;>
    split_ifs <;> decide

theorem lets_pte (huser : flags &&& vmFlagUser ≠ 0) :
    Lets (flags &&& vmFlagWrite ≠ 0)
      ((phys &&& pteAddrMask) ||| vm.entryFlagsFromApi flags) := by
  unfold Lets
  rw [pte_and (by decide), pte_and (by decide)]
  exact ⟨entryFlagsFromApi_bits.1.mpr huser, entryFlagsFromApi_bits.2.mpr⟩

theorem tableFlags_user (huser : flags &&& vmFlagUser ≠ 0) :
    tableFlags flags = pteUser := if_pos huser

end entries

-- ==== walks

section walks

variable {vm vm' : Vm} {p : List (Fin 512)} {i : Fin 512} {v w t e pt : UInt64}
  {write : Prop}

theorem prefix_path : p ++ [i] <+: path v ↔
    p ++ [i] <+: upper v ∨ p = upper v ∧ i = slot v 12 := by
  unfold path
  rw [List.prefix_concat_iff, or_comm]
  refine or_congr_right ⟨fun h => ?_, fun h => by rw [h.1, h.2]⟩
  obtain ⟨hp, hi⟩ := List.append_inj' h rfl
  exact ⟨hp, List.singleton_inj.mp hi⟩

theorem upper_length : (upper v).length ≤ 3 := Nat.le_refl 3

theorem prefix_upper (h : p ++ [i] <+: upper v) : p.length < 3 := by
  have hle := h.length_le
  rw [List.length_append, List.length_singleton] at hle
  exact hle

theorem reach_entry (hreach : vm.reach (upper v) = some pt)
    (h : p ++ [i] <+: upper v) :
    ∃ t, vm.reach p = some t ∧ vm.tables t i &&& ptePresent ≠ 0 := by
  obtain ⟨tail, htail⟩ := h
  unfold reach at hreach ⊢
  rw [← htail] at hreach
  obtain ⟨u, hu⟩ := Radix.reach_prefix hreach
  obtain ⟨t, ht⟩ := Radix.reach_prefix hu
  rw [Radix.reach_concat ht] at hu
  exact ⟨t, ht, of_decide_eq_true (present_of_next hu)⟩

theorem entryAt_three (h : vm.entryAt (path v) = some (3, e)) :
    ∃ pt, vm.reach (upper v) = some pt ∧ vm.tables pt (slot v 12) = e ∧
      e &&& ptePresent ≠ 0 := by
  obtain ⟨pt, hreach, hentry, hpresent⟩ := Radix.reach_of_lookup h
  exact ⟨pt, hreach, hentry, of_decide_eq_true hpresent⟩

theorem walk_entry (h : vm.entryAt (path v) = some (3, e))
    (hp : p ++ [i] <+: path v) :
    ∃ t, vm.reach p = some t ∧ vm.tables t i &&& ptePresent ≠ 0 := by
  obtain ⟨pt, hreach, hentry, hpresent⟩ := entryAt_three h
  rcases prefix_path.mp hp with hup | ⟨rfl, rfl⟩
  · exact reach_entry hreach hup
  · refine ⟨pt, hreach, ?_⟩
    rw [hentry]
    exact hpresent

theorem Accessible.kept (hkept : Kept vm vm')
    (hentry : vm.entryAt (path v) = some (3, e)) (h : vm.Accessible v write) :
    vm'.Accessible v write := by
  intro p i t hp hreach
  have hlength : p.length ≤ 3 := by
    have hle := hp.length_le
    rw [List.length_append, List.length_singleton] at hle
    exact Nat.le_of_succ_le_succ hle
  obtain ⟨t0, hold, hpresent⟩ := walk_entry hentry hp
  have hsame : t0 = t :=
    Option.some.inj ((hkept.reach p t0 hlength hold).symm.trans hreach)
  subst hsame
  rw [hkept.entry p t0 i hlength hold hpresent]
  exact h p i t0 hp hold

theorem Accessible.putLast (hs : vm.Sound) (htree : vm.Tree)
    (hreach : vm.reach (upper v) = some pt) (hpage : pageOf w ≠ pageOf v)
    (h : vm.Accessible w write) :
    (vm.putLast pt (slot v 12) e).Accessible w write := by
  intro p i t hp hp'
  have hlength : p.length ≤ 3 := by
    have hle := hp.length_le
    rw [List.length_append, List.length_singleton] at hle
    exact Nat.le_of_succ_le_succ hle
  rw [reach_putLast hs hreach rfl hlength] at hp'
  have hentry : (vm.putLast pt (slot v 12) e).tables t i = vm.tables t i := by
    apply Radix.put_other
    rintro ⟨rfl, rfl⟩
    have hsame : p = upper v := htree.eq hlength upper_length hp' hreach
    rcases prefix_path.mp hp with hup | ⟨heq, hslot⟩
    · have hshort := prefix_upper hup
      rw [hsame] at hshort
      exact absurd hshort (Nat.lt_irrefl 3)
    · apply hpage
      rw [← path_eq_iff]
      unfold path
      rw [← heq, hslot, hsame]
  rw [hentry]
  exact h p i t hp hp'

end walks

-- ==== one mapping

section mapping

variable {vm vm' : Vm} {v phys flags : UInt64}

theorem accessible_map_iff (hs : vm.Sound) (huser : flags &&& vmFlagUser ≠ 0)
    (hr : vm.mapPageCurrent v phys flags = (true, vm')) :
    vm'.Accessible v (flags &&& vmFlagWrite ≠ 0) ↔
      vm.Prepared v (flags &&& vmFlagWrite ≠ 0) := by
  obtain ⟨grown, hgrows, hfalse | ⟨-, -, -, -, pt, hpt, htrue⟩⟩ :=
    mapPageCurrent_cases hs hr
  · cases hfalse
  obtain rfl := (Prod.mk.inj htrue).2
  have hkept := hgrows.kept hs tableFlags_cases
  -- the entries above the page are not those of the last level
  have habove : ∀ p i t, p.length < 3 → grown.reach p = some t →
      (grown.putLast pt (slot v 12)
        ((phys &&& pteAddrMask) ||| vm.entryFlagsFromApi flags)).tables t i
        = grown.tables t i := by
    intro p i t hlength hp
    apply Radix.put_other
    rintro ⟨rfl, -⟩
    have hlevel := hkept.sound.leveled p (upper v) t (by omega) (Nat.le_refl 3) hp hpt
    exact absurd hlength (by rw [hlevel]; exact Nat.lt_irrefl 3)
  constructor
  · intro h p i t hp hreach hpresent
    have hlength := prefix_upper hp
    have hgrown := hkept.reach p t (by omega) hreach
    have hlets := h p i t (prefix_path.mpr (Or.inl hp)) (by
      rw [reach_putLast hkept.sound hpt rfl (by omega)]
      exact hgrown)
    rw [habove p i t hlength hgrown, hkept.entry p t i (by omega) hreach hpresent]
      at hlets
    exact hlets
  · intro h p i t hp hreach
    rcases prefix_path.mp hp with hup | ⟨rfl, rfl⟩
    · have hlength := prefix_upper hup
      rw [reach_putLast hkept.sound hpt rfl (by omega)] at hreach
      obtain ⟨t0, ht0, hpresent⟩ := reach_entry hpt hup
      obtain rfl : t0 = t := Option.some.inj (ht0.symm.trans hreach)
      rw [habove p i t0 hlength hreach]
      rcases hgrows.entry hs tableFlags_cases (by omega) hreach hpresent with
        ⟨hold, hsame⟩ | ⟨u, hnew⟩
      · rw [← hsame] at hpresent ⊢
        exact h p i t0 hup hold hpresent
      · rw [hnew, tableFlags_user huser]
        exact lets_tableEntry
    · rw [reach_putLast hkept.sound hpt rfl upper_length] at hreach
      obtain rfl : pt = t := Option.some.inj (hpt.symm.trans hreach)
      rw [show (grown.putLast pt (slot v 12) _).tables pt (slot v 12) = _
        from Radix.put_self]
      exact lets_pte huser

theorem Effective.map (hs : vm.Sound) (htree : vm.Tree) (h : vm.Effective)
    (hprepared : ∀ vm', vm.mapPageCurrent v phys flags = (true, vm') →
      flags &&& vmFlagUser ≠ 0 → vm.Prepared v (flags &&& vmFlagWrite ≠ 0)) :
    (vm.mapPageCurrent v phys flags).2.Effective := by
  rcases hr : vm.mapPageCurrent v phys flags with ⟨ok, vm'⟩
  obtain ⟨grown, hgrows, hcases⟩ := mapPageCurrent_cases hs hr
  have hkept := hgrows.kept hs tableFlags_cases
  have hgrown : grown.Effective := by
    intro w e hentry huser
    have hold : vm.entryAt (path w) = some (3, e) :=
      (hkept.lookup (path w) rfl).symm.trans hentry
    exact (h w e hold huser).kept hkept hold
  rcases hcases with hfalse | ⟨-, -, -, -, pt, hpt, htrue⟩
  · obtain ⟨-, rfl⟩ := Prod.mk.inj hfalse
    exact hgrown
  obtain ⟨rfl, hvm'⟩ := Prod.mk.inj htrue
  intro w e hentry huser
  have hput := entryAt_putLast (w := w) hkept.sound (hkept.tree htree) hpt
    (e := (phys &&& pteAddrMask) ||| vm.entryFlagsFromApi flags)
  dsimp only at hentry
  rw [hvm', hput] at hentry
  by_cases hpage : pageOf w = pageOf v
  · rw [if_pos hpage, if_pos present_pte] at hentry
    obtain ⟨-, rfl⟩ := Prod.mk.inj (Option.some.inj hentry)
    rw [pte_and (by decide), entryFlagsFromApi_bits.1] at huser
    have hopen := (accessible_map_iff hs huser hr).mpr (hprepared vm' hr huser)
    unfold Accessible at hopen ⊢
    rw [path_eq_iff.mpr hpage, pte_and (by decide), propext entryFlagsFromApi_bits.2]
    exact hopen
  · rw [if_neg hpage] at hentry
    dsimp only
    rw [hvm']
    exact (hgrown w e hentry huser).putLast hkept.sound (hkept.tree htree) hpt hpage

end mapping

-- ==== runs

/-- Runs of mappings, each of which finds what is there open if it is for the
user and succeeds. -/
inductive PreparedRun : Vm → Vm → Prop
  | refl (vm : Vm) : PreparedRun vm vm
  | map {vm mid : Vm} (h : PreparedRun vm mid) (v phys flags : UInt64)
      (hprepared : ∀ vm', mid.mapPageCurrent v phys flags = (true, vm') →
        flags &&& vmFlagUser ≠ 0 → mid.Prepared v (flags &&& vmFlagWrite ≠ 0)) :
      PreparedRun vm (mid.mapPageCurrent v phys flags).2

theorem PreparedRun.effective {vm vm' : Vm} (h : PreparedRun vm vm')
    (hreached : vm.Reached) (heffective : vm.Effective) :
    vm'.Reached ∧ vm'.Effective := by
  induction h with
  | refl => exact ⟨hreached, heffective⟩
  | map _ v phys flags hprepared ih =>
    obtain ⟨hmid, heff⟩ := ih
    refine ⟨hmid.called (.map v phys flags), ?_⟩
    exact heff.map hmid.sound.1 hmid.sound.2 hprepared

/-- When mappings for the user are effective. -/
theorem accessible_iff {vm : Vm} (h : vm.Reached) :
    (∀ v phys flags vm', flags &&& vmFlagUser ≠ 0 →
      vm.mapPageCurrent v phys flags = (true, vm') →
      (vm'.Accessible v (flags &&& vmFlagWrite ≠ 0) ↔
        vm.Prepared v (flags &&& vmFlagWrite ≠ 0))) ∧
    ∀ vm', PreparedRun vm vm' → vm.Effective → vm'.Effective :=
  ⟨fun _ _ _ _ huser hr => accessible_map_iff h.sound.1 huser hr,
    fun _ hrun heffective => (hrun.effective h heffective).2⟩

/-- In an empty address space. -/
theorem accessible_iff_bare :
    (∀ v phys flags vm', flags &&& vmFlagUser ≠ 0 →
      (bare [0x2000, 0x3000, 0x4000]).mapPageCurrent v phys flags = (true, vm') →
      (vm'.Accessible v (flags &&& vmFlagWrite ≠ 0) ↔
        (bare [0x2000, 0x3000, 0x4000]).Prepared v (flags &&& vmFlagWrite ≠ 0))) ∧
    ∀ vm', PreparedRun (bare [0x2000, 0x3000, 0x4000]) vm' →
      (bare [0x2000, 0x3000, 0x4000]).Effective → vm'.Effective :=
  accessible_iff (.loaded bare_pages_loaded.1 bare_pages_loaded.2)

/-- A page of the kernel is mapped, and then one of the user beside it. -/
theorem map_user_shut :
    ∃ vm : Vm, vm.Reached ∧ ∃ v phys flags,
      flags &&& vmFlagUser ≠ 0 ∧ (vm.mapPageCurrent v phys flags).1 = true ∧
        ¬ (vm.mapPageCurrent v phys flags).2.Accessible v
          (flags &&& vmFlagWrite ≠ 0) := by
  refine ⟨((bare [0x2000, 0x3000, 0x4000]).call (.map 0x400000 0x7000 vmFlagWrite)).2,
    .called (.loaded bare_pages_loaded.1 bare_pages_loaded.2) _,
    0x401000, 0x8000, vmFlagUser, by decide, by decide +kernel, ?_⟩
  intro h
  have hroot := (h [] (slot 0x401000 39) 0x1000 (List.prefix_append _ _)
    (by decide +kernel)).1
  exact absurd hroot (by decide +kernel)

end Vm

end Clks.Memory
