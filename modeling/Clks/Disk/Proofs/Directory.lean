/-
What the directory functions read and write, over the volume.

A directory is the list of its entries with their slots, cluster by
cluster along its chain (`Vol.dirEntries`). The walks of
disk/directory.inc load sectors on the way and carry a half-collected
long name from entry to entry; what they return is a fold over that list
(`findIn`, `freeSlotIn`), and the state they leave differs by loaded
sectors only.
-/
import Clks.Disk.Tree

namespace Clks.Disk

open Bytes Linked

-- `omega` takes an equation between multiples of 512 apart bit by bit.
set_option maxRecDepth 2000

-- ==== entries

/-- The entry in a slot. -/
def Vol.entry (v : Vol) (slot : DirSlot) : Entry :=
  entryAt (v.data slot.cluster) (32 * slot.entryIndex)

/-- What an entry is to the tree. -/
def Entry.kind (e : Entry) : Kind :=
  if !e.isVisible then .hidden
  else if e.isDotLike then .dots
  else .node (isDirectoryAttr e.attr) e.firstCluster e.size

/-- What the entry in a slot is to the tree. -/
def Vol.kind (v : Vol) (slot : DirSlot) : Kind := (v.entry slot).kind

/-- The entries of one cluster, from an index on. -/
def Vol.clusterEntries (v : Vol) (cluster i n : Nat) :
    List (DirSlot × Entry) :=
  (List.range' i n).map fun j => (⟨cluster, j⟩, v.entry ⟨cluster, j⟩)

/-- The entries along a chain. -/
def Vol.dirEntries (L : Layout) (v : Vol) (l : List Nat) :
    List (DirSlot × Entry) :=
  l.flatMap fun c => v.clusterEntries c 0 L.entriesPerCluster

theorem Vol.clusterEntries_succ (v : Vol) (cluster i n : Nat) :
    v.clusterEntries cluster i (n + 1)
      = (⟨cluster, i⟩, v.entry ⟨cluster, i⟩)
        :: v.clusterEntries cluster (i + 1) n := by
  simp [clusterEntries, List.range'_succ]

theorem Vol.dirEntries_cons (L : Layout) (v : Vol) (c : Nat)
    (l : List Nat) : v.dirEntries L (c :: l)
      = v.clusterEntries c 0 L.entriesPerCluster ++ v.dirEntries L l := by
  simp [dirEntries]

theorem Vol.mem_dirEntries {L : Layout} {v : Vol} {l : List Nat}
    {slot : DirSlot} {e : Entry} : (slot, e) ∈ v.dirEntries L l ↔
      slot.cluster ∈ l ∧ slot.entryIndex < L.entriesPerCluster ∧
        e = v.entry slot := by
  simp only [dirEntries, clusterEntries, List.mem_flatMap, List.mem_map,
    List.mem_range'_1, Prod.mk.injEq]
  constructor
  · rintro ⟨c, hc, j, hj, rfl, rfl⟩
    exact ⟨hc, show j < L.entriesPerCluster by omega, rfl⟩
  · rintro ⟨hc, hi, rfl⟩
    exact ⟨slot.cluster, hc, slot.entryIndex, by omega, rfl, rfl⟩

theorem Vol.entry_congr {v v' : Vol} {slot : DirSlot}
    (h : v'.data slot.cluster = v.data slot.cluster) :
    v'.entry slot = v.entry slot := by
  simp only [entry, h]

theorem Vol.kind_congr {v v' : Vol} {slot : DirSlot}
    (h : v'.data slot.cluster = v.data slot.cluster) :
    v'.kind slot = v.kind slot := by
  simp only [kind, entry_congr h]

theorem Entry.kind_node {e : Entry} {b : Bool} {f z : Nat}
    (h : e.kind = .node b f z) :
    e.isVisible = true ∧ e.isDotLike = false ∧
      b = isDirectoryAttr e.attr ∧ f = e.firstCluster ∧ z = e.size := by
  unfold kind at h
  split_ifs at h with h1 h2
  cases h
  simp only [Bool.not_eq_true, Bool.not_eq_true', Bool.not_eq_false] at h1 h2
  exact ⟨h1, h2, rfl, rfl, rfl⟩

theorem Entry.kind_of_live {e : Entry} (h1 : e.isVisible = true)
    (h2 : e.isDotLike = false) :
    e.kind = .node (isDirectoryAttr e.attr) e.firstCluster e.size := by
  simp [kind, h1, h2]

theorem Entry.kind_hidden {e : Entry} :
    e.kind = .hidden ↔ e.isVisible = false := by
  unfold kind
  split_ifs with h1 h2 <;> simp_all

theorem Entry.kind_dots {e : Entry} :
    e.kind = .dots ↔ e.isVisible = true ∧ e.isDotLike = true := by
  unfold kind
  split_ifs with h1 h2 <;> simp_all

theorem Entry.kind_of_free {e : Entry} (h : e.isFree = true) :
    e.kind = .hidden := by
  rw [kind_hidden, isVisible, h]
  rfl

-- ==== reading an entry

section reading

variable {s : State}

theorem State.Placed.dirEntryPtr (h : s.Placed) {c i : Nat}
    (hc : s.fat32.clusterValid c = true)
    (hi : i < s.fat32.entriesPerCluster) :
    ∃ s', Disk.dirEntryPtr c i s
        = (some (s.fat32.clusterOffset c + 32 * i,
            s.fat32.lbaOf c + i / 16), s') ∧
      Reads (s.fat32.clusterSectors c) s s' ∧
      s'.loaded (s.fat32.lbaOf c + i / 16) = true := by
  have hs := h.layout
  have hle := hs.lbaOf_le hc
  have hb := h.bytesLen
  have hsp := hs.spc_pos
  have hin := (hs.entry_in hi).2
  have hoff : (s.fat32.lbaOf c + i / 16) * 512 + i % 16 * 32
      = s.fat32.clusterOffset c + 32 * i := by
    rw [Layout.clusterOffset_eq]
    omega
  have heq := s.fat32.clusterOffset_eq c
  simp only [sectorSize] at hb
  have hr : s.fat32.clusterOffset c + 32 * i + 32 ≤ s.bytesLen := by omega
  obtain ⟨s', hrun, hrd, hl⟩ :=
    ensureLoadedRange_run h.toBacked (by omega) hr
  refine ⟨s', ?_, hrd.mono ?_, hl _ ⟨by omega, by omega⟩⟩
  · rw [Disk.dirEntryPtr, Cmd.bind_ok (h.clusterLba hc), Cmd.get_bind_apply,
      Cmd.require_bind (decide_eq_true hi)]
    simp only [sectorSize, direntSize, Nat.reduceDiv, hoff]
    rw [Cmd.require_bind (h.rangeValid (by omega) hr), Cmd.bind_ok hrun,
      Cmd.pure_apply]
  · rintro l ⟨h1, h2⟩
    exact ⟨by omega, by omega⟩

theorem dirEntryPtr_run (h : s.Ok) {c i : Nat}
    (hc : s.fat32.clusterValid c = true)
    (hi : i < s.fat32.entriesPerCluster) :
    ∃ s', dirEntryPtr c i s
        = (some (s.fat32.clusterOffset c + 32 * i,
            s.fat32.lbaOf c + i / 16), s') ∧
      Reads (s.fat32.clusterSectors c) s s' ∧
      s'.loaded (s.fat32.lbaOf c + i / 16) = true :=
  h.placed.dirEntryPtr hc hi

theorem entryAt_hw (h : s.Placed) {c i : Nat}
    (hc : s.fat32.clusterValid c = true)
    (hi : i < s.fat32.entriesPerCluster) :
    entryAt s.hw (s.fat32.clusterOffset c + 32 * i)
      = s.vol.entry ⟨c, i⟩ := by
  have hin := (h.layout.entry_in hi).1
  funext k
  simp only [entryAt, Vol.entry, direntSize]
  split_ifs with hk
  · simp only [State.vol, volOf, hc, true_and]
    rw [if_pos (by omega), Nat.add_assoc]
  · rfl

theorem State.Placed.entryAt_loaded (h : s.Placed) {c i : Nat}
    (hc : s.fat32.clusterValid c = true)
    (hi : i < s.fat32.entriesPerCluster)
    (hl : s.loaded (s.fat32.lbaOf c + i / 16) = true) :
    entryAt s.bytes (s.fat32.clusterOffset c + 32 * i)
      = s.vol.entry ⟨c, i⟩ := by
  have hle := h.layout.lbaOf_le hc
  have hin := h.layout.entry_in hi
  have hb := h.bytesLen
  have heq := s.fat32.clusterOffset_eq c
  simp only [sectorSize] at hb
  rw [← entryAt_hw h hc hi]
  funext k
  simp only [entryAt, direntSize]
  split_ifs with hk
  · refine h.coherent _ (by omega) ?_
    simp only [sectorSize]
    have he : (s.fat32.clusterOffset c + 32 * i + k) / 512
        = s.fat32.lbaOf c + i / 16 := by omega
    rw [he]
    exact hl
  · rfl

theorem entryAt_loaded (h : s.Ok) {c i : Nat}
    (hc : s.fat32.clusterValid c = true)
    (hi : i < s.fat32.entriesPerCluster)
    (hl : s.loaded (s.fat32.lbaOf c + i / 16) = true) :
    entryAt s.bytes (s.fat32.clusterOffset c + 32 * i)
      = s.vol.entry ⟨c, i⟩ :=
  h.placed.entryAt_loaded hc hi hl

theorem dirEntryRead_run (h : s.Ok) {c i : Nat}
    (hc : s.fat32.clusterValid c = true)
    (hi : i < s.fat32.entriesPerCluster) :
    ∃ s', dirEntryRead c i s = (some (s.vol.entry ⟨c, i⟩), s') ∧
      Reads (s.fat32.clusterSectors c) s s' := by
  obtain ⟨s', hrun, hrd, hl⟩ := dirEntryPtr_run h hc hi
  have he := entryAt_loaded (hrd.ok h) (c := c) (i := i)
    (by rwa [hrd.fat32]) (by rwa [hrd.fat32]) (by rwa [hrd.fat32])
  rw [hrd.fat32, hrd.vol] at he
  refine ⟨s', ?_, hrd⟩
  rw [dirEntryRead, Cmd.bind_ok hrun]
  show Cmd.pure _ s' = _
  rw [he]
  rfl

end reading

-- ==== looking a name up

/-- The walk of `dir_find_entry_by_component` over a list of entries:
the entry that answers, if one does, and the long name collected so
far. -/
def findIn (component : List UInt8) (target : Option Sfn) :
    LfnState → List (DirSlot × Entry) → Option DirFound × LfnState
  | st, [] => (none, st)
  | st, (slot, e) :: rest =>
    if e.isFree then
      findIn component target st.reset rest
    else if e.attr = attrLfn then
      findIn component target (st.step e) rest
    else if e.isVolumeId then
      findIn component target st.reset rest
    else if entryMatches component target st e then
      (some { slot, info := e.info, sfn := e.name }, st)
    else
      findIn component target st.reset rest

theorem findIn_append (component : List UInt8) (target : Option Sfn)
    (st : LfnState) (xs ys : List (DirSlot × Entry)) :
    findIn component target st (xs ++ ys)
      = match findIn component target st xs with
        | (some f, st') => (some f, st')
        | (none, st') => findIn component target st' ys := by
  induction xs generalizing st with
  | nil => rfl
  | cons x xs ih =>
    obtain ⟨slot, e⟩ := x
    simp only [List.cons_append, findIn]
    split_ifs
    all_goals first | exact ih _ | rfl

/-- The entry of a directory that answers to a component. -/
def lookupIn (component : List UInt8) (es : List (DirSlot × Entry)) :
    Option DirFound :=
  (findIn component (componentToSfn component) .init es).1

/-- The sectors of the table and of some clusters. -/
def Layout.chainSectors (L : Layout) (l : List Nat) : Set Nat :=
  {k | k ∈ L.tableSectors ∨ ∃ c ∈ l, k ∈ L.clusterSectors c}

theorem Layout.tableSectors_subset (L : Layout) (l : List Nat) :
    L.tableSectors ⊆ L.chainSectors l := fun _ h => .inl h

theorem Layout.clusterSectors_subset (L : Layout) {l : List Nat} {c : Nat}
    (hc : c ∈ l) : L.clusterSectors c ⊆ L.chainSectors l :=
  fun _ h => .inr ⟨c, hc, h⟩

theorem Layout.chainSectors_mono (L : Layout) {l l' : List Nat}
    (h : l ⊆ l') : L.chainSectors l ⊆ L.chainSectors l' :=
  fun _ hk => hk.imp_right fun ⟨c, hc, hk⟩ => ⟨c, h hc, hk⟩

/-- A walk of a chain reads a cluster, and then where the chain goes on. -/
theorem nextCluster_walk {s s1 : State} (h : s.Ok) {c : Nat} {l : List Nat}
    (hl : s.vol.Chain s.fat32 c l)
    (hr1 : Reads (s.fat32.clusterSectors c) s s1) :
    ∃ s2, fatNextCluster c s1
        = (some (s.vol.fat c, decide (eocMin ≤ s.vol.fat c)), s2) ∧
      Reads (s.fat32.chainSectors l) s s2 := by
  obtain ⟨s2, hrun2, hr2⟩ := fatNextCluster_run (hr1.ok h) (c := c)
    (by rw [hr1.fat32]; exact (h.goes_on hl).2)
  rw [hr1.vol] at hrun2
  rw [hr1.fat32] at hr2
  exact ⟨s2, hrun2, (hr1.mono (s.fat32.clusterSectors_subset hl.head_mem)).trans
    (hr2.mono (s.fat32.tableSectors_subset l))⟩

theorem Reads.walk {s s2 s3 : State} {c : Nat} {l : List Nat}
    (hr12 : Reads (s.fat32.chainSectors (c :: l)) s s2)
    (hr3 : Reads (s2.fat32.chainSectors l) s2 s3) :
    Reads (s.fat32.chainSectors (c :: l)) s s3 := by
  rw [hr12.fat32] at hr3
  exact hr12.trans (hr3.mono
    (s.fat32.chainSectors_mono (List.subset_cons_self c l)))

section finding

variable {s : State}

private theorem dirFindEntries_run (h : s.Ok) {c : Nat}
    (hc : s.fat32.clusterValid c = true) (component : List UInt8)
    (target : Option Sfn) {n i : Nat} (st : LfnState)
    (hn : i + n ≤ s.fat32.entriesPerCluster) :
    ∃ s', dirFindEntries component target c n i st s
        = (some (findIn component target st (s.vol.clusterEntries c i n)),
            s') ∧
      Reads (s.fat32.clusterSectors c) s s' := by
  induction n generalizing i st s with
  | zero => exact ⟨s, rfl, Reads.refl _ s⟩
  | succ n ih =>
    obtain ⟨s1, hrun1, hr1⟩ := dirEntryRead_run h hc (i := i) (by omega)
    have hnext : ∀ st', ∃ s', dirFindEntries component target c n (i + 1) st' s1
          = (some (findIn component target st'
              (s.vol.clusterEntries c (i + 1) n)), s') ∧
        Reads (s.fat32.clusterSectors c) s s' := by
      intro st'
      obtain ⟨s', hrun, hr⟩ := ih (hr1.ok h) (by rwa [hr1.fat32])
        (i := i + 1) st' (by rw [hr1.fat32]; omega)
      rw [hr1.vol] at hrun
      rw [hr1.fat32] at hr
      exact ⟨s', hrun, hr1.trans hr⟩
    rw [dirFindEntries, Cmd.bind_ok hrun1, Vol.clusterEntries_succ]
    simp only [findIn]
    split_ifs
    · exact hnext _
    · exact hnext _
    · exact hnext _
    · exact ⟨s1, rfl, hr1⟩
    · exact hnext _

private theorem dirFindLoop_run (h : s.Ok) {c guard : Nat} {l : List Nat}
    (hl : s.vol.Chain s.fat32 c l) (hg : l.length ≤ guard)
    (component : List UInt8) (target : Option Sfn) (st : LfnState) :
    ∃ s', dirFindLoop component target guard c st s
        = (some (findIn component target st
            (s.vol.dirEntries s.fat32 l)).1, s') ∧
      Reads (s.fat32.chainSectors l) s s' := by
  induction guard generalizing c l st s with
  | zero =>
    obtain ⟨t, rfl⟩ := hl.eq_cons
    simp at hg
  | succ guard ih =>
    have hcv := (h.sound.ok_iff c).mp hl.head_ok
    have hcl := hl.head_mem
    obtain ⟨s1, hrun1, hr1⟩ := dirFindEntries_run h hcv component target
      (n := s.fat32.entriesPerCluster) (i := 0) st (by omega)
    obtain ⟨s2, hrun2, hr12⟩ := nextCluster_walk h hl hr1
    have hr1' := hr1.mono (s.fat32.clusterSectors_subset hcl)
    rw [dirFindLoop, Cmd.get_bind_apply, Cmd.require_bind hcv,
      Cmd.bind_ok hrun1]
    cases hfind : findIn component target st
        (s.vol.clusterEntries c 0 s.fat32.entriesPerCluster) with
    | mk found st' =>
      obtain ⟨t, rfl⟩ := hl.eq_cons
      rw [Vol.dirEntries_cons, findIn_append, hfind]
      cases found with
      | some f => exact ⟨s1, rfl, hr1'⟩
      | none =>
        simp only [Cmd.bind_ok hrun2]
        cases hl with
        | last _ hstop =>
          have hstop : eocMin ≤ s.vol.fat c := hstop
          refine ⟨s2, ?_, hr12⟩
          rw [if_pos (decide_eq_true hstop)]
          rfl
        | cons _ hct =>
          obtain ⟨hns, hnv⟩ := h.goes_on hct
          obtain ⟨s3, hrun3, hr3⟩ := ih (hr12.ok h) (c := s.vol.fat c)
            (l := t) (by rw [hr12.vol, hr12.fat32]; exact hct)
            (by simpa using hg) st'
          rw [hr12.vol, hr12.fat32] at hrun3
          refine ⟨s3, ?_, hr12.walk hr3⟩
          rw [if_neg (by simpa using hns), Cmd.require_bind hnv, hrun3]

theorem dirFindEntryByComponent_run (h : s.Ok) {c : Nat} {l : List Nat}
    (hl : s.vol.Chain s.fat32 c l) (component : List UInt8) :
    ∃ s', dirFindEntryByComponent c component s
        = (some (lookupIn component (s.vol.dirEntries s.fat32 l)), s') ∧
      Reads (s.fat32.chainSectors l) s s' := by
  obtain ⟨s', hrun, hr⟩ := dirFindLoop_run h hl hl.length_le component
    (componentToSfn component) .init
  refine ⟨s', ?_, hr⟩
  rw [dirFindEntryByComponent, Cmd.get_bind_apply, hrun]
  rfl

private theorem dirAllHidden_run (h : s.Ok) {c : Nat}
    (hc : s.fat32.clusterValid c = true) {n i : Nat}
    (hn : i + n ≤ s.fat32.entriesPerCluster) :
    ∃ r s', dirAllHidden c n i s = (r, s') ∧
      Reads (s.fat32.clusterSectors c) s s' ∧
      (r = some () ↔ ∀ j, i ≤ j → j < i + n →
        ∀ b f z, s.vol.kind ⟨c, j⟩ ≠ .node b f z) := by
  induction n generalizing i s with
  | zero =>
    refine ⟨some (), s, rfl, Reads.refl _ s, ?_⟩
    simp only [true_iff]
    intro j h1 h2
    omega
  | succ n ih =>
    obtain ⟨s1, hrun1, hr1⟩ := dirEntryRead_run h hc (i := i) (by omega)
    rw [dirAllHidden, Cmd.bind_ok hrun1]
    by_cases hv : (!(s.vol.entry ⟨c, i⟩).isVisible
        || (s.vol.entry ⟨c, i⟩).isDotLike) = true
    · obtain ⟨r, s', hrun, hr, hiff⟩ := ih (hr1.ok h) (by rwa [hr1.fat32])
        (i := i + 1) (by rw [hr1.fat32]; omega)
      rw [hr1.fat32] at hr
      rw [hr1.vol] at hiff
      refine ⟨r, s', ?_, hr1.trans hr, hiff.trans ⟨?_, ?_⟩⟩
      · rw [Cmd.require_bind hv, hrun]
      · intro hall j h1 h2 b f z hk
        by_cases hj : j = i
        · subst hj
          obtain ⟨h3, h4, _⟩ := Entry.kind_node hk
          rw [h3, h4] at hv
          cases hv
        · exact hall j (by omega) (by omega) b f z hk
      · intro hall j h1 h2
        exact hall j (by omega) (by omega)
    · rw [Bool.not_eq_true] at hv
      refine ⟨none, s1, Cmd.require_bind_err hv, hr1, ?_⟩
      simp only [Bool.or_eq_false_iff, Bool.not_eq_false'] at hv
      refine iff_of_false (by simp) fun hall => ?_
      exact hall i (le_refl _) (by omega) _ _ _
        (Entry.kind_of_live hv.1 hv.2)

private theorem dirIsEmptyLoop_run (h : s.Ok) {c guard : Nat}
    {l : List Nat} (hl : s.vol.Chain s.fat32 c l)
    (hg : l.length ≤ guard) :
    ∃ r s', dirIsEmptyLoop guard c s = (r, s') ∧
      Reads (s.fat32.chainSectors l) s s' ∧
      (r = some () ↔ ∀ c ∈ l, ∀ j < s.fat32.entriesPerCluster,
        ∀ b f z, s.vol.kind ⟨c, j⟩ ≠ .node b f z) := by
  induction guard generalizing c l s with
  | zero =>
    obtain ⟨t, rfl⟩ := hl.eq_cons
    simp at hg
  | succ guard ih =>
    have hcv := (h.sound.ok_iff c).mp hl.head_ok
    have hcl := hl.head_mem
    obtain ⟨r1, s1, hrun1, hr1, hiff1⟩ := dirAllHidden_run h hcv
      (n := s.fat32.entriesPerCluster) (i := 0) (by omega)
    have hr1' := hr1.mono (s.fat32.clusterSectors_subset hcl)
    rw [dirIsEmptyLoop, Cmd.get_bind_apply, Cmd.require_bind hcv]
    cases r1 with
    | none =>
      refine ⟨none, s1, Cmd.bind_err hrun1, hr1', ?_⟩
      refine iff_of_false (by simp) fun hall => ?_
      have := hiff1.mpr fun j _ hj => hall c hcl j (by omega)
      cases this
    | some _ =>
      obtain ⟨s2, hrun2, hr12⟩ := nextCluster_walk h hl hr1
      have hhead := hiff1.mp rfl
      rw [Cmd.bind_ok hrun1, Cmd.bind_ok hrun2]
      obtain ⟨t, rfl⟩ := hl.eq_cons
      cases hl with
      | last _ hstop =>
        have hstop : eocMin ≤ s.vol.fat c := hstop
        refine ⟨some (), s2, ?_, hr12, ?_⟩
        · simp only [hstop, decide_true, if_true]
          rfl
        · refine iff_of_true rfl fun c' hc' j hj => ?_
          rw [List.mem_singleton.mp hc']
          exact hhead j (Nat.zero_le _) (by omega)
      | cons _ hct =>
        obtain ⟨hns, hnv⟩ := h.goes_on hct
        obtain ⟨r, s3, hrun3, hr3, hiff⟩ := ih (hr12.ok h)
          (c := s.vol.fat c) (l := t)
          (by rw [hr12.vol, hr12.fat32]; exact hct) (by simpa using hg)
        rw [hr12.fat32, hr12.vol] at hiff
        refine ⟨r, s3, ?_, hr12.walk hr3, ?_⟩
        · simp only [hns, decide_false, Bool.false_eq_true, if_false]
          rw [Cmd.require_bind hnv, hrun3]
        · rw [hiff]
          constructor
          · intro hall c' hc' j hj
            rcases List.mem_cons.mp hc' with rfl | hc'
            · exact hhead j (Nat.zero_le _) (by omega)
            · exact hall c' hc' j hj
          · intro hall c' hc'
            exact hall c' (List.mem_cons_of_mem _ hc')

theorem dirIsEmpty_run (h : s.Ok) {c : Nat} {l : List Nat}
    (hl : s.vol.Chain s.fat32 c l) :
    ∃ r s', dirIsEmpty c s = (r, s') ∧
      Reads (s.fat32.chainSectors l) s s' ∧
      (r = some () ↔ ∀ c ∈ l, ∀ j < s.fat32.entriesPerCluster,
        ∀ b f z, s.vol.kind ⟨c, j⟩ ≠ .node b f z) := by
  obtain ⟨r, s', hrun, hr⟩ := dirIsEmptyLoop_run h hl hl.length_le
  refine ⟨r, s', ?_, hr⟩
  rw [dirIsEmpty, Cmd.get_bind_apply, hrun]

end finding

end Clks.Disk
