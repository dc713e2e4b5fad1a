/-
The references to terminals are counted exactly.

Every entry of the ledger takes a reference and counts it, or gives up one
that is counted. So the count of a terminal is the number of descriptors
with its id, in all records, and the slot is free when there are none. Ids
come from a counter that begins again after 2^64 - 1 of them and does not
look which are still in use; two terminals of one id are told apart by
nothing.
-/
import Clks.Exec.Ledger
import Clks.Exec.Terminals
import Clks.Lib.Refs

namespace Clks.Exec

/-- The references that are counted under an id. -/
def ptyCount (ptys : Fin ptyMax → Pty) (id : UInt64) : Nat :=
  match findPty id ptys with
  | some s => (ptys s).refCount.toNat
  | none => 0

/-- The slots in use have ids of their own and are referred to, the others
are empty. -/
structure Slots (ptys : Fin ptyMax → Pty) : Prop where
  apart : ∀ s t, (ptys s).used = true → (ptys t).used = true →
    (ptys s).id = (ptys t).id → s = t
  named : ∀ s, (ptys s).used = true → (ptys s).id ≠ 0
  referred : Referred ptys
  free : ∀ s, (ptys s).used = false → ptys s = Pty.zero

/-- The ledger counts the references. -/
structure Ledger.Exact (l : Ledger) : Prop where
  slots : Slots l.ptys
  exact : Refs.Exact (fun x => (l.fds x).held) (ptyCount l.ptys)

/-- The descriptors of all records that refer to a terminal by this id. -/
def Kernel.references (id : UInt64) (k : Kernel) : Nat :=
  Refs.holders (fun x : Fin maxProcs × Fin fdMax => ((k.procs x.1).fds x.2).held) id

/-- Every count is the number of references, and a slot is free when there
are none. -/
structure Kernel.Counted (k : Kernel) : Prop where
  counts : ∀ s, (k.ptys s).refCount.toNat = k.references (k.ptys s).id
  free : ∀ s, (k.ptys s).used = false ↔ k.references (k.ptys s).id = 0

/-- Would the next terminal get an id that is in use? -/
def Host.reuses (h : Host) : Bool :=
  match ptyAlloc h.ptyNextId h.ptys with
  | none => false
  | some (id, _, _) => (findPty id h.ptys).isSome

/-- Ids are not used twice at once. -/
def NoReuse (e : HostEvent) (h : Host) : Prop := e = .openPty → h.reuses = false

section counting

variable {ptys ptys' : Fin ptyMax → Pty} {s t : Fin ptyMax} {id : UInt64}
  {l l' : Ledger} {x : Fin maxProcs × Fin fdMax} {entry : FdEntry}
  {h h₀ h' : Host}

-- ==== the slots

theorem findPty_id (hfound : findPty id ptys = some s) : (ptys s).id = id := by
  unfold findPty at hfound
  split at hfound
  · cases hfound
  · have hs := List.find?_some hfound
    rw [Bool.and_eq_true, decide_eq_true_eq] at hs
    exact hs.2

theorem findPty_none (hid : id ≠ 0) (hnone : findPty id ptys = none)
    (hused : (ptys s).used = true) : (ptys s).id ≠ id := by
  unfold findPty at hnone
  rw [if_neg hid, List.find?_eq_none] at hnone
  have hs := hnone s (List.mem_finRange s)
  rw [hused, Bool.true_and, decide_eq_true_eq] at hs
  exact hs

theorem Slots.find (hslots : Slots ptys) (hused : (ptys s).used = true) :
    findPty (ptys s).id ptys = some s := by
  cases hfound : findPty (ptys s).id ptys with
  | none => exact absurd rfl (findPty_none (hslots.named s hused) hfound hused)
  | some t =>
    rw [hslots.apart t s (findPty_some hfound).2 hused (findPty_id hfound)]

theorem Slots.count (hslots : Slots ptys) (hused : (ptys s).used = true) :
    ptyCount ptys (ptys s).id = (ptys s).refCount.toNat := by
  unfold ptyCount
  rw [hslots.find hused]

theorem ptyCount_zero (hnone : ∀ s, (ptys s).used = true → (ptys s).id ≠ id) :
    ptyCount ptys id = 0 := by
  unfold ptyCount
  split
  · next s hfound =>
    exact absurd (findPty_id hfound) (hnone s (findPty_some hfound).2)
  · rfl

theorem Slots.of_count (hcount : 0 < ptyCount ptys id) :
    ∃ s, findPty id ptys = some s ∧
      ptyCount ptys id = (ptys s).refCount.toNat := by
  unfold ptyCount at hcount ⊢
  split at hcount
  · next s hfound =>
    rw [hfound]
    exact ⟨s, rfl, rfl⟩
  · exact absurd hcount (by omega)

theorem ptyCount_other (hslots : Slots ptys) (hslots' : Slots ptys')
    (hsame : ∀ t, t ≠ s → ptys' t = ptys t)
    (hs : (ptys s).used = true → (ptys s).id ≠ id)
    (hs' : (ptys' s).used = true → (ptys' s).id ≠ id) :
    ptyCount ptys' id = ptyCount ptys id := by
  by_cases hfound : ∃ t, (ptys t).used = true ∧ (ptys t).id = id
  · obtain ⟨t, hused, rfl⟩ := hfound
    have ht : t ≠ s := by
      rintro rfl
      exact hs hused rfl
    have hcount' := hslots'.count (s := t) (by rw [hsame t ht]; exact hused)
    rw [hsame t ht] at hcount'
    rw [hcount', hslots.count hused]
  · have hnone : ∀ t, (ptys t).used = true → (ptys t).id ≠ id :=
      fun t hused hid => hfound ⟨t, hused, hid⟩
    rw [ptyCount_zero hnone]
    apply ptyCount_zero
    intro t hused
    by_cases ht : t = s
    · subst ht
      exact hs' hused
    · rw [hsame t ht] at hused ⊢
      exact hnone t hused

theorem Slots.recount {refCount : UInt64} (hslots : Slots ptys)
    (hused : (ptys s).used = true) (hcount : refCount ≠ 0) :
    Slots (Function.update ptys s { ptys s with refCount }) ∧
      ptyCount (Function.update ptys s { ptys s with refCount })
        = Function.update (ptyCount ptys) (ptys s).id refCount.toNat := by
  generalize hptys' : Function.update ptys s { ptys s with refCount } = ptys'
  have hself : ptys' s = { ptys s with refCount } := by
    subst hptys'
    exact Function.update_self ..
  have hother : ∀ t, t ≠ s → ptys' t = ptys t := by
    intro t ht
    subst hptys'
    exact Function.update_of_ne ht ..
  have hcard : ∀ t, (ptys' t).used = (ptys t).used ∧ (ptys' t).id = (ptys t).id := by
    intro t
    by_cases ht : t = s
    · subst ht
      rw [hself]
      exact ⟨rfl, rfl⟩
    · rw [hother t ht]
      exact ⟨rfl, rfl⟩
  have hslots' : Slots ptys' := by
    refine ⟨?_, ?_, ?_, ?_⟩
    · intro t u ht hu hid
      rw [(hcard t).1] at ht
      rw [(hcard u).1] at hu
      rw [(hcard t).2, (hcard u).2] at hid
      exact hslots.apart t u ht hu hid
    · intro t ht
      rw [(hcard t).1] at ht
      rw [(hcard t).2]
      exact hslots.named t ht
    · intro t ht
      by_cases hts : t = s
      · subst hts
        rw [hself]
        exact hcount
      · rw [hother t hts] at ht ⊢
        exact hslots.referred t ht
    · intro t ht
      by_cases hts : t = s
      · subst hts
        rw [(hcard t).1, hused] at ht
        cases ht
      · rw [hother t hts] at ht ⊢
        exact hslots.free t ht
  refine ⟨hslots', ?_⟩
  funext id
  by_cases hid : id = (ptys s).id
  · subst hid
    have hnew := hslots'.count (s := s) (by rw [hself]; exact hused)
    rw [hself] at hnew
    rw [Function.update_self]
    exact hnew
  · rw [Function.update_of_ne hid]
    apply ptyCount_other hslots hslots' hother
    · exact fun _ => Ne.symm hid
    · rw [hself]
      exact fun _ => Ne.symm hid

theorem Slots.clear (hslots : Slots ptys) (hused : (ptys s).used = true) :
    Slots (Function.update ptys s Pty.zero) ∧
      ptyCount (Function.update ptys s Pty.zero)
        = Function.update (ptyCount ptys) (ptys s).id 0 := by
  generalize hptys' : Function.update ptys s Pty.zero = ptys'
  have hself : ptys' s = Pty.zero := by
    subst hptys'
    exact Function.update_self ..
  have hother : ∀ t, t ≠ s → ptys' t = ptys t := by
    intro t ht
    subst hptys'
    exact Function.update_of_ne ht ..
  have hkeeps : ∀ t, (ptys' t).used = true → t ≠ s ∧ ptys' t = ptys t := by
    intro t ht
    have hts : t ≠ s := by
      rintro rfl
      rw [hself] at ht
      cases ht
    exact ⟨hts, hother t hts⟩
  have hslots' : Slots ptys' := by
    refine ⟨?_, ?_, ?_, ?_⟩
    · intro t u ht hu hid
      obtain ⟨-, htt⟩ := hkeeps t ht
      obtain ⟨-, huu⟩ := hkeeps u hu
      rw [htt] at ht
      rw [huu] at hu
      rw [htt, huu] at hid
      exact hslots.apart t u ht hu hid
    · intro t ht
      obtain ⟨-, htt⟩ := hkeeps t ht
      rw [htt] at ht ⊢
      exact hslots.named t ht
    · intro t ht
      obtain ⟨-, htt⟩ := hkeeps t ht
      rw [htt] at ht ⊢
      exact hslots.referred t ht
    · intro t ht
      by_cases hts : t = s
      · subst hts
        exact hself
      · rw [hother t hts] at ht ⊢
        exact hslots.free t ht
  refine ⟨hslots', ?_⟩
  funext id
  by_cases hid : id = (ptys s).id
  · subst hid
    rw [Function.update_self]
    apply ptyCount_zero
    intro t ht hid
    obtain ⟨hts, htt⟩ := hkeeps t ht
    rw [htt] at ht hid
    exact hts (hslots.apart t s ht hused hid)
  · rw [Function.update_of_ne hid]
    apply ptyCount_other hslots hslots' hother
    · exact fun _ => Ne.symm hid
    · rw [hself]
      nofun

theorem Slots.add (hslots : Slots ptys) (hunused : (ptys s).used = false)
    (hid : id ≠ 0) (hfresh : findPty id ptys = none) :
    Slots (Function.update ptys s ⟨true, id, 1⟩) ∧
      ptyCount (Function.update ptys s ⟨true, id, 1⟩)
        = Function.update (ptyCount ptys) id 1 := by
  generalize hptys' : Function.update ptys s ⟨true, id, 1⟩ = ptys'
  have hself : ptys' s = ⟨true, id, 1⟩ := by
    subst hptys'
    exact Function.update_self ..
  have hother : ∀ t, t ≠ s → ptys' t = ptys t := by
    intro t ht
    subst hptys'
    exact Function.update_of_ne ht ..
  have hnew : ∀ t, (ptys t).used = true → (ptys t).id ≠ id :=
    fun t ht => findPty_none hid hfresh ht
  have hslots' : Slots ptys' := by
    refine ⟨?_, ?_, ?_, ?_⟩
    · intro t u ht hu heq
      by_cases hts : t = s
      · by_cases hus : u = s
        · rw [hts, hus]
        · subst hts
          rw [hself, hother u hus] at heq
          rw [hother u hus] at hu
          exact absurd heq.symm (hnew u hu)
      · rw [hother t hts] at ht heq
        by_cases hus : u = s
        · subst hus
          rw [hself] at heq
          exact absurd heq (hnew t ht)
        · rw [hother u hus] at hu heq
          exact hslots.apart t u ht hu heq
    · intro t ht
      by_cases hts : t = s
      · subst hts
        rw [hself]
        exact hid
      · rw [hother t hts] at ht ⊢
        exact hslots.named t ht
    · intro t ht
      by_cases hts : t = s
      · subst hts
        rw [hself]
        exact (by decide : (1 : UInt64) ≠ 0)
      · rw [hother t hts] at ht ⊢
        exact hslots.referred t ht
    · intro t ht
      by_cases hts : t = s
      · subst hts
        rw [hself] at ht
        cases ht
      · rw [hother t hts] at ht ⊢
        exact hslots.free t ht
  refine ⟨hslots', ?_⟩
  funext id'
  by_cases heq : id' = id
  · subst heq
    have hcount := hslots'.count (s := s) (by rw [hself])
    rw [hself] at hcount
    rw [Function.update_self]
    exact hcount
  · rw [Function.update_of_ne heq]
    apply ptyCount_other hslots hslots' hother
    · rw [hunused]
      nofun
    · rw [hself]
      exact fun _ => Ne.symm heq

-- ==== the entries

theorem held_put (l : Ledger) (x : Fin maxProcs × Fin fdMax) (entry : FdEntry) :
    (fun y => ((l.put x entry).fds y).held)
      = Function.update (fun y => (l.fds y).held) x entry.held := by
  funext y
  unfold Ledger.put
  by_cases hy : y = x
  · subst hy
    rw [Function.update_self]
    simp only [Function.update_self]
  · rw [Function.update_of_ne hy]
    simp only [Function.update_of_ne hy]

theorem release_none (hnone : entry.held = none) : entry.release ptys = ptys := by
  unfold FdEntry.release
  rw [if_neg]
  intro h
  rw [Bool.and_eq_true] at h
  unfold FdEntry.held at hnone
  rw [if_pos h.1] at hnone
  cases hnone

theorem release_some (hsome : entry.held = some id) (hid : id ≠ 0) :
    entry.release ptys = ptyRelease id ptys := by
  unfold FdEntry.held at hsome
  split at hsome
  · next hpty =>
    obtain rfl := Option.some.inj hsome
    unfold FdEntry.release
    rw [hpty, Bool.true_and, if_pos (decide_eq_true hid)]
  · cases hsome

theorem Slots.retain (hslots : Slots ptys) (hretain : ptyRetain id ptys = some ptys') :
    Slots ptys' ∧
      ptyCount ptys' = Function.update (ptyCount ptys) id (ptyCount ptys id + 1) := by
  unfold ptyRetain at hretain
  split at hretain
  · cases hretain
  next s hfound =>
  split at hretain
  · cases hretain
  next hmax =>
  obtain rfl := Option.some.inj hretain
  obtain rfl := findPty_id hfound
  have hused := (findPty_some hfound).2
  have hroom : (ptys s).refCount.toNat ≠ 2 ^ 64 - 1 :=
    fun heq => hmax (UInt64.toNat_inj.mp heq)
  have hlt := (ptys s).refCount.toNat_lt
  have hsucc : ((ptys s).refCount + 1).toNat = (ptys s).refCount.toNat + 1 := by
    rw [UInt64.toNat_add]
    exact Nat.mod_eq_of_lt (by show (ptys s).refCount.toNat + 1 < _; omega)
  have hcount : (ptys s).refCount + 1 ≠ 0 := by
    intro hzero
    rw [hzero] at hsucc
    exact absurd hsucc.symm (Nat.succ_ne_zero _)
  obtain ⟨hslots', heq⟩ := hslots.recount hused hcount
  refine ⟨hslots', ?_⟩
  rw [heq, hsucc, hslots.count hused]

theorem Slots.release (hslots : Slots ptys) (hcount : 0 < ptyCount ptys id) :
    Slots (ptyRelease id ptys) ∧ ptyCount (ptyRelease id ptys)
      = Function.update (ptyCount ptys) id (ptyCount ptys id - 1) := by
  obtain ⟨s, hfound, -⟩ := Slots.of_count hcount
  obtain rfl := findPty_id hfound
  have hused := (findPty_some hfound).2
  unfold ptyRelease
  rw [hfound, hslots.count hused]
  simp only []
  split
  · next hmany =>
    have hmany : 1 < (ptys s).refCount.toNat := hmany
    have hpred : ((ptys s).refCount - 1).toNat = (ptys s).refCount.toNat - 1 :=
      UInt64.toNat_sub_of_le _ _ (Nat.le_of_lt hmany)
    have hcount : (ptys s).refCount - 1 ≠ 0 := by
      intro hzero
      rw [hzero] at hpred
      have : (0 : UInt64).toNat = 0 := rfl
      omega
    rw [← hpred]
    exact hslots.recount hused hcount
  · next hone =>
    have hone : ¬ 1 < (ptys s).refCount.toNat := hone
    have hzero : (ptys s).refCount.toNat - 1 = 0 := by omega
    rw [hzero]
    exact hslots.clear hused

theorem Slots.alloc {nextId nextId' : UInt64} (hslots : Slots ptys)
    (halloc : ptyAlloc nextId ptys = some (id, nextId', ptys'))
    (hfresh : findPty id ptys = none) :
    Slots ptys' ∧ ptyCount ptys id = 0 ∧
      ptyCount ptys' = Function.update (ptyCount ptys) id 1 := by
  have hzero : ptyCount ptys id = 0 := by
    unfold ptyCount
    rw [hfresh]
  unfold ptyAlloc at halloc
  split at halloc
  · cases halloc
  next s hfree =>
  have hunused : (ptys s).used = false := by
    have hs := List.find?_some hfree
    simpa using hs
  have hnext : ∀ n : UInt64, (if n + 1 = 0 then 1 else n + 1) ≠ 0 := by
    intro n
    split
    · decide
    · assumption
  have hid : id ≠ 0 ∧ ptys' = Function.update ptys s ⟨true, id, 1⟩ := by
    simp only [] at halloc
    split at halloc
    · obtain ⟨rfl, -, rfl⟩ := halloc
      exact ⟨hnext nextId, rfl⟩
    · next hne =>
      obtain ⟨rfl, -, rfl⟩ := halloc
      exact ⟨hne, rfl⟩
  obtain ⟨hslots', hcount⟩ := hslots.add hunused hid.1 hfresh
  rw [hid.2]
  exact ⟨hslots', hzero, hcount⟩

theorem Ledger.Exact.put (hslots : Slots ptys)
    (hexact : Refs.Exact (Function.update (fun y => (l.fds y).held) x entry.held)
      (ptyCount ptys)) : Ledger.Exact ({ l with ptys }.put x entry) := by
  refine ⟨hslots, ?_⟩
  rw [held_put]
  exact hexact

theorem Ledger.Exact.step (hl : l.Exact) (hstep : l.Step l') : l'.Exact := by
  cases hstep with
  | same hheld =>
    refine ⟨hl.slots, ?_⟩
    simp only [hheld]
    exact hl.exact
  | take hx hentry hretain =>
    obtain ⟨hslots, hcount⟩ := hl.slots.retain hretain
    apply Ledger.Exact.put hslots
    rw [hentry, hcount]
    exact hl.exact.take hx
  | @drop x entry hentry =>
    cases hheld : (l.fds x).held with
    | none =>
      rw [release_none hheld]
      apply Ledger.Exact.put hl.slots
      rw [hentry, ← hheld, Function.update_eq_self]
      exact hl.exact
    | some id =>
      have hpos := hl.exact.pos (x := x) hheld
      have hid : id ≠ 0 := by
        rintro rfl
        exact absurd hpos (Nat.lt_irrefl 0)
      obtain ⟨hslots, hcount⟩ := hl.slots.release hpos
      rw [release_some hheld hid]
      apply Ledger.Exact.put hslots
      rw [hentry, hcount]
      exact hl.exact.drop hheld
  | @create x entry nextId nextId' ptys hx hentry halloc hfresh =>
    obtain ⟨hslots, hzero, hcount⟩ := hl.slots.alloc halloc hfresh
    apply Ledger.Exact.put hslots
    have htake := hl.exact.take (o := entry.ptyId) hx
    rw [hzero] at htake
    rw [hentry, hcount]
    exact htake

theorem Ledger.Exact.path (hl : l.Exact) (hpath : l.Path l') : l'.Exact := by
  induction hpath with
  | refl => exact hl
  | tail _ hstep ih => exact ih.step hstep

-- ==== the events

theorem fdFindFree_held {fds : Fin fdMax → FdEntry} {c : Fin fdMax}
    (hfree : fdFindFree fds = some c) : (fds c).held = none := by
  have hc := List.find?_some hfree
  exact held_none_of_unused (by simpa using hc)

theorem fdLookup_used {fds : Fin fdMax → FdEntry} {c : Fin fdMax} {fd : UInt64}
    (hfound : fdLookup fd fds = some c) : (fds c).used = true := by
  unfold fdLookup at hfound
  split at hfound
  · split at hfound
    · next hused =>
      obtain rfl := Option.some.inj hfound
      exact hused
    · cases hfound
  · cases hfound

theorem devKind_ne {path : List UInt8} : devKind path ≠ some .pty := by
  unfold devKind
  split_ifs <;> nofun

theorem openEntry_held {o : OpenAnswers} {path : List UInt8} {flags : UInt64}
    {ttyIndex : Nat} (hopen : openEntry o path flags ttyIndex = some entry) :
    entry.held = none := by
  unfold openEntry at hopen
  split at hopen
  · next kind hkind =>
    obtain rfl := Option.some.inj hopen
    apply held_none_of_kind
    show kind ≠ .pty
    rintro rfl
    exact devKind_ne hkind
  · obtain ⟨info, -, rfl⟩ := Option.map_eq_some_iff.mp hopen
    exact held_none_of_kind nofun

variable {k : Kernel} {fd : UInt64}

theorem fdOpen_leads {o : OpenAnswers} {path : List UInt8} {flags : UInt64} :
    k.Leads (k.fdOpen o path flags).2 := by
  unfold Kernel.fdOpen
  split
  · exact .refl k
  split
  · exact .refl k
  split
  · exact .refl k
  next c hfree =>
  split
  · exact .refl k
  · next entry hopen =>
    exact putFd_leads ((openEntry_held hopen).trans (fdFindFree_held hfree).symm)

theorem fdClose_leads : k.Leads (k.fdClose fd).2 := by
  unfold Kernel.fdClose
  split
  · exact .refl k
  next i hcurrent =>
  split
  · exact .refl k
  next c hfound =>
  apply leads_of_step
  dsimp only
  rw [ledger_putFd]
  exact Ledger.Step.drop rfl

theorem fdDup_leads : k.Leads (k.fdDup fd).2 := by
  unfold Kernel.fdDup
  split
  · exact .refl k
  next i hcurrent =>
  split
  · exact .refl k
  next c hfound =>
  split
  · exact .refl k
  next c' hfree =>
  have hused := fdLookup_used hfound
  have hnone := fdFindFree_held hfree
  simp only []
  split
  · next hpty =>
    split
    · refine putFd_leads (Eq.trans ?_ hnone.symm)
      rfl
    · next ptys hretain =>
      apply leads_of_step
      dsimp only
      rw [ledger_putFd]
      exact Ledger.Step.take hnone (held_some hused hpty) hretain
  · next hpty => exact putFd_leads ((held_none_of_kind hpty).trans hnone.symm)

theorem fdMove_leads {offset : UInt64} : k.Leads (k.fdMove fd offset) := by
  unfold Kernel.fdMove
  split
  · exact .refl k
  split
  · exact .refl k
  · exact putFd_leads rfl

theorem openPty_leads (hfresh : h.reuses = false) :
    h.toKernel.Leads h.openPty.2.toKernel := by
  unfold Host.openPty
  split
  · exact .refl _
  split
  · exact .refl _
  next c hfree =>
  split
  · exact .refl _
  next id next ptys halloc =>
  have hnone : findPty id h.ptys = none := by
    unfold Host.reuses at hfresh
    rw [halloc] at hfresh
    exact Option.isSome_eq_false_iff.mp hfresh |> Option.isNone_iff_eq_none.mp
  apply leads_of_step
  dsimp only
  rw [ledger_putFd]
  exact Ledger.Step.create (fdFindFree_held hfree) rfl halloc hnone

theorem host_leads {a : Answers} {o : OpenAnswers} {e : HostEvent}
    (hfresh : NoReuse e h) (hstep : h.step a o e = some h') :
    h.toKernel.Leads h'.toKernel := by
  cases e with
  | event e =>
    obtain ⟨k, hk, rfl⟩ := Option.map_eq_some_iff.mp hstep
    exact step_leads hk
  | fdOpen path flags =>
    obtain ⟨-, ⟨⟩⟩ := Option.ite_none_left_eq_some.mp hstep
    exact fdOpen_leads
  | openPty =>
    obtain ⟨-, ⟨⟩⟩ := Option.ite_none_left_eq_some.mp hstep
    exact openPty_leads (hfresh rfl)
  | fdClose fd =>
    obtain ⟨-, ⟨⟩⟩ := Option.ite_none_left_eq_some.mp hstep
    exact fdClose_leads
  | fdDup fd =>
    obtain ⟨-, ⟨⟩⟩ := Option.ite_none_left_eq_some.mp hstep
    exact fdDup_leads
  | fdMove fd offset =>
    obtain ⟨-, ⟨⟩⟩ := Option.ite_none_left_eq_some.mp hstep
    exact fdMove_leads

-- ==== the runs

theorem exact_of_booted (hbooted : k.Booted) : k.ledger.Exact where
  slots := by
    have hfree : ∀ s, (k.ledger.ptys s).used ≠ true := by
      intro s hs
      have hs : (k.ptys s).used = true := hs
      rw [hbooted.ptys s] at hs
      cases hs
    refine ⟨?_, ?_, ?_, fun s _ => hbooted.ptys s⟩
    · exact fun s t hs => absurd hs (hfree s)
    · exact fun s hs => absurd hs (hfree s)
    · exact fun s hs => absurd hs (hfree s)
  exact := by
    intro id
    have hnone : ∀ x, (k.ledger.fds x).held = none := by
      intro x
      show (((k.procs x.1).fds x.2).held) = none
      rw [hbooted.procs x.1]
      rfl
    have hcount : ptyCount k.ptys id = 0 := by
      apply ptyCount_zero
      intro s hs
      rw [hbooted.ptys s] at hs
      cases hs
    refine Eq.trans hcount (Eq.symm (Finset.card_eq_zero.mpr ?_))
    apply Finset.filter_eq_empty_iff.mpr
    intro x _ hx
    have hx : (k.ledger.fds x).held = some id := hx
    rw [hnone x] at hx
    cases hx

theorem Ledger.Exact.counted (hexact : k.ledger.Exact) : k.Counted := by
  have hslots : Slots k.ptys := hexact.slots
  have hcounts : ∀ s, (k.ptys s).refCount.toNat = ptyCount k.ptys (k.ptys s).id := by
    intro s
    cases hused : (k.ptys s).used with
    | true => exact (hslots.count hused).symm
    | false =>
      rw [hslots.free s hused]
      rfl
  have hrefs : ∀ id, ptyCount k.ptys id = k.references id := hexact.exact
  refine ⟨fun s => (hcounts s).trans (hrefs _), fun s => ?_⟩
  rw [← hrefs, ← hcounts s]
  constructor
  · intro hfree
    rw [hslots.free s hfree]
    rfl
  · intro hzero
    apply eq_false_of_ne_true
    intro hused
    exact hslots.referred s hused (UInt64.toNat_inj.mp hzero)

theorem exact_of_run (hbooted : h₀.Booted) (hrun : HostRunIf NoReuse h₀ h) :
    h.ledger.Exact := by
  induction hrun with
  | refl => exact exact_of_booted hbooted.kernel
  | tail _ hstep ih =>
    obtain ⟨a, o, e, hfresh, hstep⟩ := hstep
    exact ih.path (host_leads hfresh hstep)

-- ==== ids that come round again

/-- A program runs that can make a terminal, in this slot and under this
descriptor. -/
structure Host.CanOpen (i : Fin maxProcs) (c : Fin fdMax) (s : Fin ptyMax)
    (h : Host) : Prop where
  idle : h.idle = false
  current : h.currentProc = some i
  column : fdFindFree (h.procs i).fds = some c
  zero : (h.procs i).fds c = FdEntry.zero
  slot : (List.finRange ptyMax).find? (fun s => !(h.ptys s).used) = some s
  slots : Slots h.ptys

variable {i : Fin maxProcs} {c : Fin fdMax}

theorem currentProc_putFd : (k.putFd i c entry).currentProc = k.currentProc := by
  have hcards : (k.putFd i c entry).cards = k.cards := cards_modifyProc_same fun _ => rfl
  have hfind : ∀ pid, (k.putFd i c entry).findSlotByPid pid = k.findSlotByPid pid := by
    intro pid
    unfold Kernel.findSlotByPid
    congr 1
    funext j
    have hcard := congrFun hcards j
    have hused : ((k.putFd i c entry).procs j).used = (k.procs j).used :=
      congrArg Card.used hcard
    have hpid : ((k.putFd i c entry).procs j).pid = (k.procs j).pid :=
      congrArg Card.pid hcard
    rw [hused, hpid]
  unfold Kernel.currentProc
  have hstack : (k.putFd i c entry).pidStack = k.pidStack := rfl
  rw [hstack]
  simp only [hfind]

theorem putFd_self : ((k.putFd i c entry).procs i).fds c = entry := by
  unfold Kernel.putFd
  rw [modifyProc_self]
  exact Function.update_self ..

theorem putFd_back (hzero : (k.procs i).fds c = entry) (entry' : FdEntry) :
    (k.putFd i c entry').putFd i c entry = k := by
  subst hzero
  have hprocs : ((k.putFd i c entry').putFd i c ((k.procs i).fds c)).procs
      = k.procs := by
    unfold Kernel.putFd Kernel.modifyProc
    simp only [Function.update_self, Function.update_idem, Function.update_eq_self]
  exact congrArg (fun procs => { k with procs }) hprocs

theorem fdLookup_ofNat {fds : Fin fdMax → FdEntry} (hused : (fds c).used = true) :
    fdLookup (UInt64.ofNat c) fds = some c := by
  have hc : (UInt64.ofNat c).toNat = c := by
    rw [UInt64.toNat_ofNat']
    have hlt : c.val < 32 := c.isLt
    exact Nat.mod_eq_of_lt (by omega)
  unfold fdLookup
  simp only [hc]
  rw [dif_pos c.isLt, if_pos hused]

theorem openPty_step {a : Answers} {o : OpenAnswers} (hidle : h.idle = false) :
    h.step a o .openPty = some h.openPty.2 :=
  if_neg (by rw [hidle]; nofun)

theorem cycle_run (hopen : h.CanOpen i c s) (hid : h.ptyNextId ≠ 0)
    (hfresh : findPty h.ptyNextId h.ptys = none) :
    HostRunIf (fun _ _ => True) h
      { h with ptyNextId := if h.ptyNextId + 1 = 0 then 1 else h.ptyNextId + 1 } := by
  obtain ⟨k, id⟩ := h
  dsimp only at hid hfresh ⊢
  have hunused : (k.ptys s).used = false := by
    have hs := List.find?_some hopen.slot
    simpa using hs
  have halloc : ptyAlloc id k.ptys
      = some (id, if id + 1 = 0 then 1 else id + 1,
        Function.update k.ptys s ⟨true, id, 1⟩) := by
    unfold ptyAlloc
    rw [hopen.slot]
    simp only [if_neg hid]
  generalize hnext : (if id + 1 = 0 then 1 else id + 1 : UInt64) = next at halloc ⊢
  generalize hentry : ({ FdEntry.zero with
    used := true, kind := .pty, flags := oRdwr
    ttyIndex := (k.procs i).ttyIndex, ptyId := id } : FdEntry) = entry
  generalize hptys : Function.update k.ptys s ⟨true, id, 1⟩ = ptys at halloc
  have hmade : (Host.mk k id).openPty.2 = ⟨{ k with ptys }.putFd i c entry, next⟩ := by
    have hcurrent : k.currentProc = some i := hopen.current
    have hcolumn : fdFindFree (k.procs i).fds = some c := hopen.column
    unfold Host.openPty
    simp only [hcurrent, hcolumn, halloc, ← hentry]
  have hslots := (hopen.slots.add hunused hid hfresh).1
  have hfound : findPty id ptys = some s := by
    have hself : Function.update k.ptys s ⟨true, id, 1⟩ s = ⟨true, id, 1⟩ :=
      Function.update_self ..
    have hfind := hslots.find (s := s) (by rw [hself])
    rw [hself, hptys] at hfind
    exact hfind
  have hrelease : entry.release ptys = k.ptys := by
    have hheld : entry.held = some id := by
      subst hentry
      rfl
    rw [release_some hheld hid]
    unfold ptyRelease
    rw [hfound]
    have hzero : k.ptys s = Pty.zero := hopen.slots.free s hunused
    subst hptys
    simp only [Function.update_self, Function.update_idem]
    rw [if_neg (by decide), ← hzero, Function.update_eq_self]
  have hclosed : ({ k with ptys }.putFd i c entry).fdClose (UInt64.ofNat c)
      = (0, k) := by
    have hcurrent : ({ k with ptys }.putFd i c entry).currentProc = some i := by
      rw [currentProc_putFd]
      exact hopen.current
    have hself : (({ k with ptys }.putFd i c entry).procs i).fds c = entry :=
      putFd_self
    have hused : ((({ k with ptys }.putFd i c entry).procs i).fds c).used = true := by
      rw [hself]
      subst hentry
      rfl
    have hlookup := fdLookup_ofNat hused
    unfold Kernel.fdClose
    rw [hcurrent]
    simp only [hlookup, hself]
    have hback := @putFd_back FdEntry.zero { k with ptys := entry.release ptys } i c
      hopen.zero entry
    rw [hrelease] at hback
    exact congrArg (Prod.mk 0) (hrelease ▸ hback)
  have hstep1 : HostStepIf (fun _ _ => True) ⟨k, id⟩
      ⟨{ k with ptys }.putFd i c entry, next⟩ := by
    refine ⟨ample, ⟨true, true, none, none, none⟩, .openPty, trivial, ?_⟩
    rw [← hmade]
    exact openPty_step hopen.idle
  have hstep2 : HostStepIf (fun _ _ => True)
      ⟨{ k with ptys }.putFd i c entry, next⟩ ⟨k, next⟩ := by
    refine ⟨ample, ⟨true, true, none, none, none⟩, .fdClose (UInt64.ofNat c),
      trivial, ?_⟩
    have hidle : ({ k with ptys }.putFd i c entry).idle = false := hopen.idle
    unfold Host.step
    dsimp only
    rw [hidle, hclosed]
    rfl
  exact .head hstep1 (.single hstep2)

theorem cycles_run (hopen : h.CanOpen i c s)
    (hfresh : ∀ id, id ≠ 1 → findPty id h.ptys = none) {n : Nat}
    (hn : n + 2 < 2 ^ 64) :
    HostRunIf (fun _ _ => True) { h with ptyNextId := 2 }
      { h with ptyNextId := UInt64.ofNat (n + 2) } := by
  induction n with
  | zero => exact .refl
  | succ n ih =>
    have hnat : (UInt64.ofNat (n + 2)).toNat = n + 2 := by
      rw [UInt64.toNat_ofNat']
      exact Nat.mod_eq_of_lt (by omega)
    have hne : ∀ m : UInt64, m.toNat < 2 → UInt64.ofNat (n + 2) ≠ m := by
      rintro m hm rfl
      omega
    have hopen' : Host.CanOpen i c s { h with ptyNextId := UInt64.ofNat (n + 2) } :=
      ⟨hopen.idle, hopen.current, hopen.column, hopen.zero, hopen.slot, hopen.slots⟩
    have hcycle := cycle_run hopen' (hne 0 (by decide)) (hfresh _ (hne 1 (by decide)))
    have hsucc : UInt64.ofNat (n + 2) + 1 = UInt64.ofNat (n + 1 + 2) := by
      rw [show n + 1 + 2 = (n + 2) + 1 by omega, UInt64.ofNat_add (n + 2) 1]
      rfl
    have hnat' : (UInt64.ofNat (n + 1 + 2)).toNat = n + 1 + 2 := by
      rw [UInt64.toNat_ofNat']
      exact Nat.mod_eq_of_lt hn
    rw [hsucc, if_neg] at hcycle
    · exact (ih (by omega)).trans hcycle
    · intro hzero
      rw [hzero] at hnat'
      exact absurd hnat'.symm (Nat.succ_ne_zero _)

-- ==== the theorem

/-- The counts are exact, as long as no terminal gets an id that is in use. -/
theorem counted_of_run (hbooted : h₀.Booted) (hrun : HostRunIf NoReuse h₀ h) :
    h.Counted :=
  (exact_of_run hbooted hrun).counted

/-- A program has been started. -/
def Host.started : Host :=
  ⟨(smallKernel.runPath ample (txt "/a") ⟨fdInherit, fdInherit, fdInherit⟩).2, 1⟩

/-- It has made a terminal. -/
def Host.opened : Host := Host.started.openPty.2

/-- An open that finds nothing. -/
def nothingFound : OpenAnswers := ⟨true, true, none, none, none⟩

theorem opened_run : HostRunIf NoReuse ⟨smallKernel, 1⟩ Host.opened := by
  have hexec : HostStepIf NoReuse ⟨smallKernel, 1⟩ Host.started :=
    ⟨ample, nothingFound, .event (.exec (txt "/a") ⟨fdInherit, fdInherit, fdInherit⟩),
      nofun, rfl⟩
  have hopen : HostStepIf NoReuse Host.started Host.opened :=
    ⟨ample, nothingFound, .openPty, fun _ => by decide +kernel, rfl⟩
  exact .head hexec (.single hopen)

theorem counted_of_run_opened : Host.opened.Counted :=
  counted_of_run ⟨smallKernel_booted, rfl⟩ opened_run

/-- The terminal of `Host.opened` is still in use when the ids have come
round to its own. -/
def Host.twice : Host := (Host.mk Host.opened.toKernel 1).openPty.2

theorem twice_run : HostRunIf (fun _ _ => True) ⟨smallKernel, 1⟩ Host.twice := by
  have hopen : Host.opened.CanOpen 0 4 1 :=
    ⟨by decide +kernel, by decide +kernel, by decide +kernel, by decide +kernel,
      by decide +kernel, (exact_of_run ⟨smallKernel_booted, rfl⟩ opened_run).slots⟩
  have hone : ∀ s, (Host.opened.ptys s).used = true → (Host.opened.ptys s).id = 1 := by
    decide +kernel
  have hfresh : ∀ id, id ≠ 1 → findPty id Host.opened.ptys = none := by
    intro id hid
    cases hfound : findPty id Host.opened.ptys with
    | none => rfl
    | some s =>
      have hs := hone s (findPty_some hfound).2
      rw [findPty_id hfound] at hs
      exact absurd hs hid
  have hstart : HostRunIf (fun _ _ => True) ⟨smallKernel, 1⟩
      { Host.opened with ptyNextId := 2 } := by
    have hnext : { Host.opened with ptyNextId := 2 } = Host.opened := by
      have htwo : Host.opened.ptyNextId = 2 := by decide +kernel
      rw [← htwo]
    rw [hnext]
    refine Relation.ReflTransGen.mono ?_ _ _ opened_run
    exact fun _ _ ⟨a, o, e, _, hstep⟩ => ⟨a, o, e, trivial, hstep⟩
  have hall := cycles_run hopen hfresh (n := 2 ^ 64 - 3) (by decide)
  have hopen' : Host.CanOpen 0 4 1
      { Host.opened with ptyNextId := 0xFFFFFFFFFFFFFFFF } :=
    ⟨hopen.idle, hopen.current, hopen.column, hopen.zero, hopen.slot, hopen.slots⟩
  have hlast : HostRunIf (fun _ _ => True)
      ⟨Host.opened.toKernel, 0xFFFFFFFFFFFFFFFF⟩ ⟨Host.opened.toKernel, 1⟩ :=
    cycle_run hopen' (by decide) (hfresh _ (by decide))
  have hagain : HostStepIf (fun _ _ => True) ⟨Host.opened.toKernel, 1⟩ Host.twice :=
    ⟨ample, nothingFound, .openPty, trivial, openPty_step hopen.idle⟩
  exact hstart.trans (hall.trans (hlast.trans (.single hagain)))

/-- The two terminals have one reference each, and two descriptors by their
id. -/
theorem ids_come_round : ¬ ∀ h₀ h : Host, h₀.Booted →
    HostRunIf (fun _ _ => True) h₀ h → h.Counted := by
  intro hall
  have hcounted := hall _ _ ⟨smallKernel_booted, rfl⟩ twice_run
  have hcount : (Host.twice.ptys 0).refCount.toNat
      = Host.twice.references (Host.twice.ptys 0).id := hcounted.counts 0
  have hrefCount : (Host.twice.ptys 0).refCount.toNat = 1 := by decide +kernel
  have hfirst : ((Host.twice.procs 0).fds 3).held = some (Host.twice.ptys 0).id := by
    decide +kernel
  have hsecond : ((Host.twice.procs 0).fds 4).held = some (Host.twice.ptys 0).id := by
    decide +kernel
  have hmany := @Refs.one_lt_holders (Fin maxProcs × Fin fdMax) UInt64 _ _
    (fun x => ((Host.twice.procs x.1).fds x.2).held) (0, 3) _ (0, 4) hfirst hsecond
    (by decide)
  have hmany : 1 < Host.twice.references (Host.twice.ptys 0).id := hmany
  rw [← hcount, hrefCount] at hmany
  exact Nat.lt_irrefl 1 hmany

end counting

end Clks.Exec
