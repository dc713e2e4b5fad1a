/-
What the end of an address space gives back.

The tables below the slots that an address space has for itself are freed,
each once, and so is the root. What hangs under the slots that it shares with
the kernel stays: a table that a mapping has put there is not given back.
-/
import Clks.Memory.Mapping

namespace Clks.Memory

namespace Vm

-- ==== freeing

/-- The free pages are different pages of a stock that the stack has room
for. -/
structure Stock (stock : List UInt64) (vm : Vm) : Prop where
  nodup : vm.freeStack.Nodup
  subset : ∀ u ∈ vm.freeStack, u ∈ stock
  room : stock.length ≤ pmmMaxTrackedPages
  page : ∀ u ∈ stock, Page u

section freeing

variable {stock : List UInt64} {vm vm' vm'' : Vm} {t u : UInt64} {l d : Nat}

theorem freePage_eq (hstock : Stock stock vm) (hmem : t ∈ stock)
    (hfree : t ∉ vm.freeStack) :
    freePage t vm = { vm with freeStack := t :: vm.freeStack } := by
  have hpage := hstock.page t hmem
  have hnodup : (t :: vm.freeStack).Nodup := List.nodup_cons.mpr ⟨hfree, hstock.nodup⟩
  have hsubset : t :: vm.freeStack ⊆ stock := by
    intro u hu
    rcases List.mem_cons.mp hu with rfl | hu
    · exact hmem
    · exact hstock.subset u hu
  have hlength := (hnodup.subperm hsubset).length_le
  have hroom := hstock.room
  rw [List.length_cons] at hlength
  unfold freePage
  rw [if_neg hpage.1, if_neg (not_not.mpr hpage.aligned), if_neg (by omega)]

theorem Stock.cons (hstock : Stock stock vm) (hmem : t ∈ stock)
    (hfree : t ∉ vm.freeStack) :
    Stock stock { vm with freeStack := t :: vm.freeStack } where
  nodup := List.nodup_cons.mpr ⟨hfree, hstock.nodup⟩
  subset := fun u hu => by
    rcases List.mem_cons.mp hu with rfl | hu
    · exact hmem
    · exact hstock.subset u hu
  room := hstock.room
  page := hstock.page

-- ==== what is below

/-- The tables below a table. -/
def Below (vm : Vm) (l : Nat) (t : UInt64) (d : Nat) (u : UInt64) : Prop :=
  Radix.Below next vm.tables l t d u

/-- The tables below a table are different, of the stock, and not free. -/
structure Doomed (stock : List UInt64) (vm : Vm) (l : Nat) (t : UInt64)
    (d : Nat) : Prop where
  once : ∀ s s' u, s.length ≤ d → s'.length ≤ d →
    Radix.reach next vm.tables l t s = some u →
    Radix.reach next vm.tables l t s' = some u → s = s'
  mem : ∀ u, vm.Below l t d u → u ∈ stock ∧ u ∉ vm.freeStack

/-- Some tables are freed, and entries of some are written. -/
structure Destroyed (written freed : UInt64 → Prop) (vm vm' : Vm) : Prop where
  tables : ∀ u, ¬ written u → vm'.tables u = vm.tables u
  free : ∀ u, u ∈ vm'.freeStack ↔ u ∈ vm.freeStack ∨ freed u
  kernelCr3 : vm'.kernelCr3 = vm.kernelCr3

theorem Destroyed.refl : Destroyed (fun _ => False) (fun _ => False) vm vm :=
  ⟨fun _ _ => rfl, fun _ => (or_iff_left id).symm, rfl⟩

theorem Destroyed.trans {written freed written' freed' : UInt64 → Prop}
    (h : Destroyed written freed vm vm') (h' : Destroyed written' freed' vm' vm'') :
    Destroyed (fun u => written u ∨ written' u) (fun u => freed u ∨ freed' u)
      vm vm'' where
  tables := fun u hu => by
    rw [h'.tables u fun hw => hu (Or.inr hw), h.tables u fun hw => hu (Or.inl hw)]
  free := fun u => by rw [h'.free, h.free, or_assoc]
  kernelCr3 := h'.kernelCr3.trans h.kernelCr3

theorem Destroyed.congr {written freed written' freed' : UInt64 → Prop}
    (h : Destroyed written freed vm vm') (hw : ∀ u, written u → written' u)
    (hf : ∀ u, freed u ↔ freed' u) : Destroyed written' freed' vm vm' where
  tables := fun u hu => h.tables u fun hwu => hu (hw u hwu)
  free := fun u => by rw [h.free, hf]
  kernelCr3 := h.kernelCr3

theorem Destroyed.freePage {written freed : UInt64 → Prop}
    (h : Destroyed written freed vm vm') (hstock : Stock stock vm')
    (hmem : t ∈ stock) (hfree : t ∉ vm.freeStack) (hnot : ¬ freed t) :
    Destroyed written (fun u => u = t ∨ freed u) vm (Vm.freePage t vm') ∧
      Stock stock (Vm.freePage t vm') := by
  have hfree' : t ∉ vm'.freeStack := by
    rw [h.free]
    exact fun hor => hor.elim hfree hnot
  rw [freePage_eq hstock hmem hfree']
  refine ⟨⟨h.tables, fun u => ?_, h.kernelCr3⟩, hstock.cons hmem hfree'⟩
  rw [List.mem_cons, h.free, or_left_comm]

theorem Doomed.congr (h : Doomed stock vm l t d)
    (htables : ∀ u, vm.Below l t d u → vm'.tables u = vm.tables u)
    (hfree : ∀ u, vm.Below l t d u → u ∉ vm'.freeStack) :
    Doomed stock vm' l t d := by
  have hreach : ∀ s, s.length ≤ d →
      Radix.reach next vm'.tables l t s = Radix.reach next vm.tables l t s := by
    intro s hs
    refine Radix.reach_congr (fun q u j hq hreach => ?_) hs
    rw [htables u ⟨q, Nat.le_of_lt hq, hreach⟩]
  constructor
  · intro s s' u hs hs' h1 h2
    rw [hreach s hs] at h1
    rw [hreach s' hs'] at h2
    exact h.once s s' u hs hs' h1 h2
  · rintro u ⟨s, hs, hu⟩
    rw [hreach s hs] at hu
    exact ⟨(h.mem u ⟨s, hs, hu⟩).1, hfree u ⟨s, hs, hu⟩⟩

-- ==== tables

section slots

variable {destroy : UInt64 → Vm → Vm}
  (hdestroy : ∀ vm c, Stock stock vm → Doomed stock vm l c d →
    Destroyed (vm.Below l c d) (vm.Below l c d) vm (destroy c vm) ∧
      Stock stock (destroy c vm))

include hdestroy

end slots

theorem Doomed.child {i : Fin 512} {c : UInt64}
    (h : Doomed stock vm l t (d + 1)) (hc : next l (vm.tables t i) = some c) :
    Doomed stock vm (l + 1) c d ∧ ¬ vm.Below (l + 1) c d t := by
  have hreach : ∀ s, Radix.reach next vm.tables l t (i :: s)
      = Radix.reach next vm.tables (l + 1) c s := by
    intro s
    rw [Radix.reach_cons, hc]
    rfl
  refine ⟨⟨?_, ?_⟩, ?_⟩
  · intro s s' u hs hs' h1 h2
    rw [← hreach] at h1 h2
    exact (List.cons.inj (h.once _ _ u (Nat.succ_le_succ hs) (Nat.succ_le_succ hs')
      h1 h2)).2
  · rintro u ⟨s, hs, hu⟩
    rw [← hreach] at hu
    exact h.mem u ⟨i :: s, Nat.succ_le_succ hs, hu⟩
  · rintro ⟨s, hs, hu⟩
    rw [← hreach] at hu
    cases h.once (i :: s) [] t (Nat.succ_le_succ hs) (Nat.zero_le _) hu rfl

theorem Doomed.apart {i j : Fin 512} {c c' : UInt64}
    (h : Doomed stock vm l t (d + 1)) (hij : i ≠ j)
    (hc : next l (vm.tables t i) = some c) (hc' : next l (vm.tables t j) = some c')
    (hu : vm.Below (l + 1) c d u) : ¬ vm.Below (l + 1) c' d u := by
  obtain ⟨s, hs, hu⟩ := hu
  rintro ⟨s', hs', hu'⟩
  refine hij (List.cons.inj (h.once (i :: s) (j :: s') u (Nat.succ_le_succ hs)
    (Nat.succ_le_succ hs') ?_ ?_)).1
  · rw [Radix.reach_cons, hc]
    exact hu
  · rw [Radix.reach_cons, hc']
    exact hu'

end freeing

-- ==== what is private

/-- The paths that do not lead through a shared slot of the root. -/
def Own : List (Fin 512) → Prop
  | [] => True
  | i :: _ => shared i = false

theorem Own.of_concat {p : List (Fin 512)} {i : Fin 512} (h : Own (p ++ [i])) :
    Own p := by
  cases p with
  | nil => trivial
  | cons j p => exact h

/-- A new address space while it is used: what it has taken is reached, and the
tables of its own slots are reached once. -/
structure Private (start vm : Vm) (root : UInt64) : Prop where
  page : Page root
  current : vm.currentCr3 = root
  kernelCr3 : vm.kernelCr3 = start.kernelCr3
  sound : vm.Sound
  own : Radix.Unshared next vm.tables vm.root 3 Own
  small : ∀ i, shared i = false → vm.tables root i &&& ptePs = 0
  taken : ∀ u ∈ start.freeStack, u ∈ vm.freeStack ∨
    ∃ q, q.length ≤ 3 ∧ vm.reach q = some u
  given : ∀ q u, Own q → q.length ≤ 3 → vm.reach q = some u →
    u ∈ start.freeStack
  subset : ∀ u ∈ vm.freeStack, u ∈ start.freeStack

section running

variable {start vm vm' : Vm} {root t u e flags : UInt64} {p : List (Fin 512)}
  {i : Fin 512} {rest : List UInt64}

theorem Private.root_eq (h : Private start vm root) : vm.root = root := by
  unfold Vm.root
  rw [h.current]
  exact h.page.2

theorem Private.attached (h : Private start vm root)
    (hflags : flags = 0 ∨ flags = pteUser) (hstep : Attached flags vm vm') :
    Private start vm' root := by
  obtain ⟨hp, hlength, hold, hfree⟩ := hstep
  rename_i p t u j rest
  obtain ⟨hfresh, hpage⟩ := h.sound.top hfree
  have hreach : ∀ q v, q.length ≤ 3 →
      ((vm.attachTable t j u flags rest).reach q = some v ↔
        vm.reach q = some v ∨ v = u ∧ ∃ p', q = p' ++ [j] ∧ vm.reach p' = some t) :=
    fun q v hq => reach_attachTable h.sound hp hlength hold hfree hflags v hq
  have hu : u ∈ start.freeStack := h.subset u (by
    rw [hfree]
    exact List.mem_cons_self)
  have hrest : ∀ v ∈ rest, v ∈ vm.freeStack := by
    intro v hv
    rw [hfree]
    exact List.mem_cons_of_mem u hv
  exact {
    page := h.page
    current := h.current
    kernelCr3 := h.kernelCr3
    sound := h.sound.attachTable hp hlength hold hfree hflags
    own := Radix.Unshared.attach hfresh hp hlength (not_present hold) rfl
      (fun l => next_tableEntry hflags hpage) (fun l e v => present_of_next)
      (fun p i hown => Or.inl hown.of_concat) h.own
    small := by
      intro i hi
      have hne := Radix.fresh_ne hfresh hp hlength
      have happly : (vm.attachTable t j u flags rest).tables root i = _ :=
        Radix.attach_apply root i hne
      rw [happly]
      split
      · exact UInt64.zero_and
      · split
        · exact tableEntry_ps hflags
        · exact h.small i hi
    taken := by
      intro v hv
      rcases h.taken v hv with hv | ⟨q, hq, hv⟩
      · rw [hfree] at hv
        rcases List.mem_cons.mp hv with rfl | hv
        · have hlen : (p ++ [j]).length ≤ 3 := by
            rw [List.length_append, List.length_singleton]
            exact hlength
          exact Or.inr ⟨p ++ [j], hlen, (hreach _ v hlen).mpr
            (Or.inr ⟨rfl, p, rfl, hp⟩)⟩
        · exact Or.inl hv
      · exact Or.inr ⟨q, hq, (hreach q v hq).mpr (Or.inl hv)⟩
    given := by
      intro q v hown hq hv
      rcases (hreach q v hq).mp hv with hv | ⟨rfl, -⟩
      · exact h.given q v hown hq hv
      · exact hu
    subset := fun v hv => h.subset v (hrest v hv) }

theorem Private.grows (h : Private start vm root)
    (hflags : flags = 0 ∨ flags = pteUser) (hgrows : Grows flags vm vm') :
    Private start vm' root := by
  induction hgrows with
  | refl => exact h
  | tail _ hstep ih => exact ih.attached hflags hstep

theorem Private.putLast (h : Private start vm root) (hp : vm.reach p = some t)
    (hlength : p.length = 3) : Private start (vm.putLast t i e) root := by
  have hreach : ∀ q, q.length ≤ 3 → (vm.putLast t i e).reach q = vm.reach q :=
    fun q hq => reach_putLast h.sound hp hlength hq
  exact {
    page := h.page
    current := h.current
    kernelCr3 := h.kernelCr3
    sound := h.sound.putLast hp hlength
    own := Radix.Unshared.put h.sound.leveled hp hlength h.own
    small := by
      intro j hj
      have hput : (vm.putLast t i e).tables root j = vm.tables root j := by
        apply Radix.put_other
        rintro ⟨rfl, -⟩
        have hlevel := h.sound.leveled p [] root (by omega) (Nat.zero_le 3) hp
          (congrArg some h.root_eq)
        rw [hlength] at hlevel
        cases hlevel
      rw [hput]
      exact h.small j hj
    taken := by
      intro u hu
      rcases h.taken u hu with hu | ⟨q, hq, hu⟩
      · exact Or.inl hu
      · exact Or.inr ⟨q, hq, (hreach q hq).trans hu⟩
    given := fun q u hown hq hu => h.given q u hown hq ((hreach q hq).symm.trans hu)
    subset := h.subset }

theorem Private.call (h : Private start vm root) (c : Call) :
    Private start (vm.call c).2 root := by
  cases c with
  | map v phys flags =>
    show Private start (vm.mapPageCurrent v phys flags).2 root
    obtain ⟨grown, hgrows, hr | ⟨-, -, -, -, pt, hreach, hr⟩⟩ :=
      mapPageCurrent_cases h.sound (rfl : vm.mapPageCurrent v phys flags = _)
    · rw [hr]
      exact h.grows tableFlags_cases hgrows
    · rw [hr]
      exact (h.grows tableFlags_cases hgrows).putLast hreach rfl
  | unmap v =>
    show Private start (vm.unmapPageCurrent v).2 root
    rcases unmapPageCurrent_cases (rfl : vm.unmapPageCurrent v = _) with
      hr | ⟨-, -, pt, hreach, -, hr⟩
    · rw [hr]
      exact h
    · rw [hr]
      exact h.putLast hreach rfl
  | protect v flags =>
    show Private start (vm.protectPageCurrent v flags).2 root
    rcases protectPageCurrent_cases (rfl : vm.protectPageCurrent v flags = _) with
      hr | ⟨-, -, pt, hreach, -, hr⟩
    · rw [hr]
      exact h
    · rw [hr]
      exact h.putLast hreach rfl

theorem Private.calls (h : Private start vm root) (cs : List Call) :
    Private start (vm.calls cs) root := by
  unfold Vm.calls
  induction cs generalizing vm with
  | nil => exact h
  | cons c cs ih => exact ih (h.call c)

-- ==== the end

end running

-- ==== the whole

end Vm

end Clks.Memory
