/-
Writing into directories: one entry, a run of entries with a long name,
the first cluster of a new directory.

A name needs a run of free slots inside one cluster. If no cluster of
the directory has one, the directory gets a new cluster of empty slots,
which always has: at most fifteen long-name entries and the entry itself
fit into sixteen slots (`writeNamedDirEntry_run`).
-/
import Clks.Disk.Proofs.Entries

namespace Clks.Disk

open Bytes Linked

-- `omega` takes an equation between multiples of 512 apart bit by bit.
set_option maxRecDepth 2000

-- ==== setting entries

namespace Vol

/-- Write one entry into its slot. -/
def setEntry (v : Vol) (slot : DirSlot) (e : Entry) : Vol :=
  v.setData slot.cluster
    (blit (v.data slot.cluster) (32 * slot.entryIndex) 32 e)

/-- Write a run of entries into a cluster. -/
def setEntries (v : Vol) (cluster i : Nat) : List Entry → Vol
  | [] => v
  | e :: es => (v.setEntry ⟨cluster, i⟩ e).setEntries cluster (i + 1) es

variable {v : Vol} {slot slot' : DirSlot} {e : Entry}

@[simp] theorem setEntry_fat : (v.setEntry slot e).fat = v.fat := rfl

theorem setEntry_entry_self (he : ∀ k, 32 ≤ k → e k = 0) :
    (v.setEntry slot e).entry slot = e := by
  funext k
  simp only [entry, setEntry, setData_data_self, entryAt, direntSize]
  split_ifs with hk
  · rw [blit_in (by omega) (by omega), Nat.add_sub_cancel_left]
  · exact (he k (by omega)).symm

theorem setEntry_entry_ne (h : slot' ≠ slot) :
    (v.setEntry slot e).entry slot' = v.entry slot' := by
  obtain ⟨c, i⟩ := slot
  obtain ⟨c', i'⟩ := slot'
  by_cases hc : c' = c
  · subst hc
    have hi : i' ≠ i := by
      rintro rfl
      exact h rfl
    funext k
    simp only [entry, setEntry, setData_data_self, entryAt, direntSize]
    split_ifs with hk
    · rw [blit_out (by omega)]
    · rfl
  · exact entry_congr (setData_data_ne _ _ hc)

theorem setEntry_data_ne {c : Nat} (h : c ≠ slot.cluster) :
    (v.setEntry slot e).data c = v.data c :=
  setData_data_ne _ _ h

@[simp] theorem setEntries_fat (c i : Nat) (es : List Entry) :
    (v.setEntries c i es).fat = v.fat := by
  induction es generalizing v i with
  | nil => rfl
  | cons e es ih => rw [setEntries, ih, setEntry_fat]

theorem setEntries_data_ne {c c' i : Nat} (h : c' ≠ c) (es : List Entry) :
    (v.setEntries c i es).data c' = v.data c' := by
  induction es generalizing v i with
  | nil => rfl
  | cons e es ih => rw [setEntries, ih, setEntry_data_ne h]

theorem setEntries_entry_out {c i : Nat} (es : List Entry)
    (h : slot.cluster ≠ c ∨ slot.entryIndex < i ∨
      i + es.length ≤ slot.entryIndex) :
    (v.setEntries c i es).entry slot = v.entry slot := by
  induction es generalizing v i with
  | nil => rfl
  | cons e es ih =>
    rw [List.length_cons] at h
    rw [setEntries, ih (by omega), setEntry_entry_ne]
    rintro rfl
    simp only [ne_eq, not_true_eq_false, Nat.lt_irrefl, false_or] at h
    omega

theorem setEntries_entry_in {c i j : Nat} {es : List Entry}
    (he : ∀ e ∈ es, ∀ k, 32 ≤ k → e k = 0) (hj : j < es.length) :
    (v.setEntries c i es).entry ⟨c, i + j⟩ = es[j] := by
  induction es generalizing v i j with
  | nil => simp at hj
  | cons e es ih =>
    rw [setEntries]
    cases j with
    | zero =>
      rw [setEntries_entry_out _ (.inr (.inl (by simp)))]
      exact setEntry_entry_self (he e List.mem_cons_self)
    | succ j =>
      rw [← Nat.add_assoc, Nat.add_right_comm]
      exact ih (fun e he' => he e (List.mem_cons_of_mem _ he'))
        (by simpa using hj)

theorem setEntries_append (c i : Nat) (es es' : List Entry) :
    v.setEntries c i (es ++ es')
      = (v.setEntries c i es).setEntries c (i + es.length) es' := by
  induction es generalizing v i with
  | nil => rfl
  | cons e es ih =>
    rw [List.cons_append, setEntries, setEntries, ih, List.length_cons]
    congr 1
    omega

end Vol

section writing

variable {s : State}

theorem writeDirEntry_run (h : s.Ok) (slot : DirSlot) (e : Entry)
    (hc : s.fat32.clusterValid slot.cluster = true)
    (hi : slot.entryIndex < s.fat32.entriesPerCluster) :
    ∃ s', writeDirEntry slot e s = (some (), s') ∧
      Steps s s' (s.vol.setEntry slot e) ∧
      s'.allocHint = s.allocHint := by
  obtain ⟨s1, hrun1, hr1, hl1⟩ := dirEntryPtr_run h hc hi
  have h1 := hr1.ok h
  have hf1 := hr1.fat32
  have hin := h.sound.entry_in hi
  have heq := s.fat32.clusterOffset_eq slot.cluster
  obtain ⟨s2, hrun2, hst2, hh2⟩ := clusterSync_run h1 32
    (c := slot.cluster) (o := 32 * slot.entryIndex)
    (a := slot.entryIndex / 16) (n := 1) (by rwa [hf1]) (by omega)
    (by rw [hf1]; omega) (by omega) (by omega)
    (fun i h2 h3 _ => by
      rw [hf1] at h2 h3
      have he : i / 512
          = s.fat32.lbaOf slot.cluster + slot.entryIndex / 16 := by omega
      rw [he]
      exact hl1)
  rw [hf1] at hrun2
  rw [hr1.vol] at hst2
  refine ⟨s2, ?_, ⟨hr1.moves.trans hst2.moves, hst2.vol⟩,
    hh2.trans hr1.hint⟩
  rw [writeDirEntry, Cmd.bind_ok hrun1]
  simp only [poke, Cmd.modify_bind_apply, direntSize]
  exact hrun2

-- ==== free slots

/-- The walk of `dir_find_free_slots` over the free marks of the next
`n` slots. -/
def freeRun (free : Nat → Bool) (needed : Nat) :
    Nat → Nat → Nat → Nat → Option Nat
  | 0, _, _, _ => none
  | n + 1, i, runStart, runLen =>
    if free i then
      let runStart := if runLen = 0 then i else runStart
      if needed ≤ runLen + 1 then some runStart
      else freeRun free needed n (i + 1) runStart (runLen + 1)
    else
      freeRun free needed n (i + 1) runStart 0

theorem freeRun_some {free : Nat → Bool} {needed n i runStart runLen r : Nat}
    (h : freeRun free needed n i runStart runLen = some r)
    (hlt : runLen < needed)
    (hinv : 0 < runLen → runStart + runLen = i ∧
      ∀ j, runStart ≤ j → j < i → free j = true) :
    r + needed ≤ i + n ∧ ∀ j, r ≤ j → j < r + needed → free j = true := by
  induction n generalizing i runStart runLen with
  | zero => cases h
  | succ n ih =>
    simp only [freeRun] at h
    by_cases hf : free i = true
    · rw [if_pos hf] at h
      -- The run now ends behind slot `i`.
      have hrun : (if runLen = 0 then i else runStart) + (runLen + 1) = i + 1
          ∧ ∀ j, (if runLen = 0 then i else runStart) ≤ j → j < i + 1 →
            free j = true := by
        split_ifs with h0
        · refine ⟨by omega, fun j h1 h2 => ?_⟩
          rw [show j = i by omega]
          exact hf
        · obtain ⟨h1, h2⟩ := hinv (by omega)
          refine ⟨by omega, fun j h3 h4 => ?_⟩
          by_cases hj : j = i
          · rw [hj]
            exact hf
          · exact h2 j h3 (by omega)
      by_cases hn : needed ≤ runLen + 1
      · rw [if_pos hn] at h
        cases h
        exact ⟨by omega, fun j h1 h2 => hrun.2 j h1 (by omega)⟩
      · rw [if_neg hn] at h
        have := ih h (by omega) fun _ => hrun
        exact ⟨by omega, this.2⟩
    · rw [if_neg hf] at h
      have := ih h (by omega) (by omega)
      exact ⟨by omega, this.2⟩

/-- The first run of free slots along a chain of clusters. -/
def freeSlotIn (L : Layout) (v : Vol) (needed : Nat) :
    List Nat → Option DirSlot
  | [] => none
  | c :: l =>
    match freeRun (fun j => (v.entry ⟨c, j⟩).isFree) needed
        L.entriesPerCluster 0 0 0 with
    | some i => some ⟨c, i⟩
    | none => freeSlotIn L v needed l

theorem freeSlotIn_some {L : Layout} {v : Vol} {needed : Nat}
    {l : List Nat} {slot : DirSlot} (hn : 0 < needed)
    (h : freeSlotIn L v needed l = some slot) :
    slot.cluster ∈ l ∧ slot.entryIndex + needed ≤ L.entriesPerCluster ∧
      ∀ j < needed, (v.entry ⟨slot.cluster, slot.entryIndex + j⟩).isFree
        = true := by
  induction l with
  | nil => cases h
  | cons c l ih =>
    simp only [freeSlotIn] at h
    cases hr : freeRun (fun j => (v.entry ⟨c, j⟩).isFree) needed
        L.entriesPerCluster 0 0 0 with
    | some i =>
      rw [hr] at h
      cases h
      obtain ⟨h1, h2⟩ := freeRun_some hr hn (by omega)
      refine ⟨List.mem_cons_self, ?_, fun j hj => ?_⟩
      · show i + needed ≤ _
        omega
      · exact h2 (i + j) (by omega) (by omega)
    | none =>
      rw [hr] at h
      obtain ⟨h1, h2, h3⟩ := ih h
      exact ⟨List.mem_cons_of_mem _ h1, h2, h3⟩

private theorem dirFreeRun_run (h : s.Ok) {c : Nat}
    (hc : s.fat32.clusterValid c = true) (needed : Nat) {n i : Nat}
    (runStart runLen : Nat) (hn : i + n ≤ s.fat32.entriesPerCluster) :
    ∃ s', dirFreeRun c needed n i runStart runLen s
        = (some (freeRun (fun j => (s.vol.entry ⟨c, j⟩).isFree) needed n i
            runStart runLen), s') ∧
      Reads (s.fat32.clusterSectors c) s s' := by
  induction n generalizing i runStart runLen s with
  | zero => exact ⟨s, rfl, Reads.refl _ s⟩
  | succ n ih =>
    obtain ⟨s1, hrun1, hr1⟩ := dirEntryRead_run h hc (i := i) (by omega)
    have hnext : ∀ a b, ∃ s', dirFreeRun c needed n (i + 1) a b s1
          = (some (freeRun (fun j => (s.vol.entry ⟨c, j⟩).isFree) needed n
              (i + 1) a b), s') ∧
        Reads (s.fat32.clusterSectors c) s s' := by
      intro a b
      obtain ⟨s', hrun, hr⟩ := ih (hr1.ok h) (by rwa [hr1.fat32])
        (i := i + 1) a b (by rw [hr1.fat32]; omega)
      rw [hr1.vol] at hrun
      rw [hr1.fat32] at hr
      exact ⟨s', hrun, hr1.trans hr⟩
    rw [dirFreeRun, Cmd.bind_ok hrun1]
    simp only [freeRun]
    by_cases hf : (s.vol.entry ⟨c, i⟩).isFree = true
    · simp only [if_pos hf]
      by_cases hle : needed ≤ runLen + 1
      · simp only [if_pos hle]
        exact ⟨s1, rfl, hr1⟩
      · simp only [if_neg hle]
        exact hnext _ _
    · simp only [if_neg hf]
      exact hnext _ _

/-- What `dir_find_free_slots` does when no cluster of the directory has
room: a free cluster, emptied, is linked behind the last one. -/
structure Extends (v v' : Vol) (L : Layout) (l : List Nat) (n : Nat) :
    Prop where
  free : n ∈ v.freeSet L
  links : ∃ pre z, l = pre ++ [z] ∧
    v' = ((v.setFat n eoc).setData n fun _ => 0).setFat z n

private theorem dirFindFreeLoop_run (h : s.Ok) {c guard needed : Nat}
    (pre : List Nat) {l : List Nat} (hl : s.vol.Chain s.fat32 c l)
    (hg : l.length ≤ guard) :
    (∃ slot s', dirFindFreeLoop needed guard c s = (some slot, s') ∧
      freeSlotIn s.fat32 s.vol needed l = some slot ∧
      Steps s s' s.vol) ∨
    (∃ n v' s', dirFindFreeLoop needed guard c s = (some ⟨n, 0⟩, s') ∧
      freeSlotIn s.fat32 s.vol needed l = none ∧
      Extends s.vol v' s.fat32 (pre ++ l) n ∧ Steps s s' v') ∨
    (∃ s', dirFindFreeLoop needed guard c s = (none, s') ∧
      freeSlotIn s.fat32 s.vol needed l = none ∧
      s.vol.freeSet s.fat32 = ∅ ∧ Steps s s' s.vol) := by
  induction guard generalizing c l pre s with
  | zero =>
    obtain ⟨t, rfl⟩ := hl.eq_cons
    simp at hg
  | succ guard ih =>
    have hcv := (h.sound.ok_iff c).mp hl.head_ok
    obtain ⟨s1, hrun1, hr1⟩ := dirFreeRun_run h hcv needed
      (n := s.fat32.entriesPerCluster) (i := 0) 0 0 (by omega)
    have h1 := hr1.ok h
    have hst1 := Steps.of_reads hr1
    rw [dirFindFreeLoop, Cmd.get_bind_apply, Cmd.require_bind hcv,
      Cmd.bind_ok hrun1]
    obtain ⟨t, rfl⟩ := hl.eq_cons
    simp only [freeSlotIn]
    cases hrun : freeRun (fun j => (s.vol.entry ⟨c, j⟩).isFree) needed
        s.fat32.entriesPerCluster 0 0 0 with
    | some i => exact .inl ⟨_, s1, rfl, rfl, hst1⟩
    | none =>
      obtain ⟨s2, hrun2, hr2⟩ := fatNextCluster_run h1 (c := c)
        (by rwa [hr1.fat32])
      rw [hr1.vol] at hrun2
      have hst2 : Steps s s2 s.vol := by
        have := hst1.trans (Steps.of_reads hr2)
        rwa [hr1.vol] at this
      have h2 := hst2.ok h
      have hf2 := hst2.fat32
      simp only [Cmd.bind_ok hrun2]
      cases hl with
      | cons _ hct =>
        obtain ⟨hns, hnv⟩ := h.goes_on hct
        rw [if_neg (by simpa using hns), Cmd.require_bind hnv]
        have hrec := ih h2 (pre ++ [c]) (c := s.vol.fat c) (l := t)
          (by rw [hst2.vol, hf2]; exact hct) (by simpa using hg)
        rw [hst2.vol, hf2] at hrec
        rcases hrec with ⟨slot, s', hr, hfs, hst⟩ |
          ⟨n, v', s', hr, hfs, hex, hst⟩ | ⟨s', hr, hfs, he, hst⟩
        · exact .inl ⟨slot, s', hr, hfs, hst2.trans hst⟩
        · refine .inr (.inl ⟨n, v', s', hr, hfs, ?_, hst2.trans hst⟩)
          simpa using hex
        · exact .inr (.inr ⟨s', hr, hfs, he, hst2.trans hst⟩)
      | last _ hstop =>
        have hstop : eocMin ≤ s.vol.fat c := hstop
        rw [if_pos (decide_eq_true hstop)]
        rcases allocCluster_run h2 with
          ⟨n, s3, hrun3, hfree, hst3⟩ | ⟨s3, hrun3, hempty, hst3⟩
        · rw [hst2.vol, hf2] at hfree
          rw [hst2.vol] at hst3
          have hst3' := hst2.trans hst3
          have hnlt : n < 2 ^ 28 := by
            have h3 := (Vol.mem_freeSet.mp hfree).1
            have h4 := h.sound.count_le
            omega
          obtain ⟨s4, hrun4, hm4, hv4, _⟩ := fatWriteEntry_run
            (hst3'.ok h) (c := c)
            (by rw [hst3'.fat32]; exact h.valid_lt hcv) n
          rw [hst3'.vol, low28_of_lt hnlt] at hv4
          refine .inr (.inl ⟨n, _, s4, ?_, rfl,
            ⟨hfree, pre, c, rfl, rfl⟩, hst3'.moves.trans hm4, hv4⟩)
          rw [Cmd.bind_ok hrun3, Cmd.bind_ok (Cmd.orCleanup_ok hrun4)]
          rfl
        · rw [hst2.vol, hf2] at hempty
          rw [hst2.vol] at hst3
          exact .inr (.inr ⟨s3, Cmd.bind_err hrun3, rfl, hempty,
            hst2.trans hst3⟩)

theorem dirFindFreeSlots_run (h : s.Ok) {c needed : Nat} {l : List Nat}
    (hl : s.vol.Chain s.fat32 c l) (hn : 0 < needed) :
    (∃ slot s', dirFindFreeSlots c needed s = (some slot, s') ∧
      freeSlotIn s.fat32 s.vol needed l = some slot ∧
      Steps s s' s.vol) ∨
    (∃ n v' s', dirFindFreeSlots c needed s = (some ⟨n, 0⟩, s') ∧
      freeSlotIn s.fat32 s.vol needed l = none ∧
      Extends s.vol v' s.fat32 l n ∧ Steps s s' v') ∨
    (∃ s', dirFindFreeSlots c needed s = (none, s') ∧
      freeSlotIn s.fat32 s.vol needed l = none ∧
      s.vol.freeSet s.fat32 = ∅ ∧ Steps s s' s.vol) := by
  have hcv := (h.sound.ok_iff c).mp hl.head_ok
  rw [dirFindFreeSlots, Cmd.get_bind_apply, Cmd.require_bind hcv,
    Cmd.require_bind (decide_eq_true (Nat.pos_iff_ne_zero.mp hn))]
  exact dirFindFreeLoop_run h [] hl hl.length_le

-- ==== naming entries

/-- The long-name entries of a component, in the order of their
slots. -/
def lfnEntries (component : List UInt8) (checksum : UInt8) (count : Nat) :
    List Entry :=
  (List.range count).map fun i =>
    buildLfnEntry component
      (if i = 0 then UInt8.ofNat (count - i) ||| 0x40
        else UInt8.ofNat (count - i)) checksum

/-- How many long-name entries a component takes. -/
def lfnCountOf (component : List UInt8) : Nat :=
  if (componentToSfn component).isSome then 0
  else (component.length + 12) / 13

/-- All entries of a component, with the short name `sfn`. -/
def namedEntries (component : List UInt8) (sfn : Sfn) (attr : UInt8)
    (firstCluster size : Nat) : List Entry :=
  lfnEntries component (lfnChecksum sfn) (lfnCountOf component)
    ++ [buildDirEntry sfn attr firstCluster size]

theorem buildLfnEntry_tail (component : List UInt8)
    (ordinal checksum : UInt8) {k : Nat} (hk : 32 ≤ k) :
    buildLfnEntry component ordinal checksum k = 0 := by
  have hoff : ∀ p ∈ lfnOffsets.zipIdx, p.1 + 2 ≤ k ∨ k < p.1 := by
    have hle : ∀ p ∈ lfnOffsets.zipIdx, p.1 + 2 ≤ 32 := by decide
    exact fun p hp => .inl (le_trans (hle p hp) hk)
  simp only [buildLfnEntry, direntSize]
  rw [foldl_writeU16_out _ _ _ hoff, blit_out (by omega),
    blit_out (by omega), blit_out (by omega), blit_out (by omega),
    blit_out (by omega), blit_out (by omega)]

theorem namedEntries_tail {component : List UInt8} {sfn : Sfn}
    {attr : UInt8} {first size : Nat} :
    ∀ e ∈ namedEntries component sfn attr first size,
      ∀ k, 32 ≤ k → e k = 0 := by
  intro e he k hk
  rcases List.mem_append.mp he with he | he
  · obtain ⟨i, _, rfl⟩ := List.mem_map.mp he
    exact buildLfnEntry_tail _ _ _ hk
  · rw [List.mem_singleton.mp he]
    exact buildDirEntry_tail hk

@[simp] theorem namedEntries_length (component : List UInt8) (sfn : Sfn)
    (attr : UInt8) (first size : Nat) :
    (namedEntries component sfn attr first size).length
      = lfnCountOf component + 1 := by
  simp [namedEntries, lfnEntries]

private theorem writeLfnLoop_run (h : s.Ok) {slot : DirSlot}
    (component : List UInt8) (checksum : UInt8) {count n i : Nat}
    (hc : s.fat32.clusterValid slot.cluster = true)
    (hin : i + n = count)
    (hi : slot.entryIndex + count ≤ s.fat32.entriesPerCluster) :
    ∃ s', writeLfnLoop slot component checksum count n i s = (some (), s') ∧
      Steps s s' (s.vol.setEntries slot.cluster (slot.entryIndex + i)
        ((lfnEntries component checksum count).drop i)) := by
  induction n generalizing i s with
  | zero =>
    refine ⟨s, rfl, ?_⟩
    rw [List.drop_eq_nil_of_le (by simp [lfnEntries]; omega)]
    exact Steps.of_reads (.refl ∅ s)
  | succ n ih =>
    obtain ⟨s1, hrun1, hst1, _⟩ := writeDirEntry_run h
      { slot with entryIndex := slot.entryIndex + i }
      (buildLfnEntry component
        (if i = 0 then UInt8.ofNat (count - i) ||| 0x40
          else UInt8.ofNat (count - i)) checksum)
      hc (show slot.entryIndex + i < _ by omega)
    have hf1 := hst1.fat32
    obtain ⟨s2, hrun2, hst2⟩ := ih (hst1.ok h) (by rwa [hf1])
      (i := i + 1) (by omega) (by rwa [hf1])
    refine ⟨s2, ?_, hst1.moves.trans hst2.moves, ?_⟩
    · rw [writeLfnLoop]
      simp only [Cmd.bind_ok hrun1, hrun2]
    · have hlen : i < (lfnEntries component checksum count).length := by
        simp [lfnEntries]
        omega
      rw [hst2.vol, hst1.vol, List.drop_eq_getElem_cons hlen,
        Vol.setEntries, ← Nat.add_assoc]
      simp [lfnEntries]

theorem writeNamedDirEntry_run (h : s.Ok) {c : Nat} {l : List Nat}
    (hl : s.vol.Chain s.fat32 c l) {component : List UInt8}
    (hne : component ≠ []) (attr : UInt8) (first size : Nat) :
    (∃ sfn slot v1 s', componentGenerateSfn component = some sfn ∧
      lfnCountOf component ≤ lfnMaxEntries ∧
      slot.entryIndex + lfnCountOf component < s.fat32.entriesPerCluster ∧
      (freeSlotIn s.fat32 s.vol (lfnCountOf component + 1) l = some slot ∧
          v1 = s.vol ∨
        freeSlotIn s.fat32 s.vol (lfnCountOf component + 1) l = none ∧
          Extends s.vol v1 s.fat32 l slot.cluster ∧
          slot.entryIndex = 0) ∧
      writeNamedDirEntry c component attr first size s
        = (some ⟨slot.cluster, slot.entryIndex + lfnCountOf component⟩, s') ∧
      Steps s s' (v1.setEntries slot.cluster slot.entryIndex
        (namedEntries component sfn attr first size))) ∨
    (∃ s', writeNamedDirEntry c component attr first size s = (none, s') ∧
      Steps s s' s.vol ∧
      (lfnMaxEntries < lfnCountOf component ∨
        freeSlotIn s.fat32 s.vol (lfnCountOf component + 1) l = none ∧
        s.vol.freeSet s.fat32 = ∅)) := by
  obtain ⟨sfn, hsfn⟩ := componentGenerateSfn_isSome hne
  -- The short name and the number of long-name entries.
  have hhead : writeNamedDirEntry c component attr first size s
      = (Cmd.require (decide (lfnCountOf component ≤ lfnMaxEntries)) >>=
        fun _ => do
          let freeSlot ← dirFindFreeSlots c (lfnCountOf component + 1)
          writeLfnLoop freeSlot component (lfnChecksum sfn)
            (lfnCountOf component) (lfnCountOf component) 0
          writeDirEntry
            { freeSlot with
              entryIndex := freeSlot.entryIndex + lfnCountOf component }
            (buildDirEntry sfn attr first size)
          pure { freeSlot with
            entryIndex := freeSlot.entryIndex + lfnCountOf component }) s := by
    unfold writeNamedDirEntry lfnCountOf
    cases hs : componentToSfn component with
    | some sfn' =>
      have he : sfn' = sfn := by
        unfold componentGenerateSfn at hsfn
        rw [if_neg hne, hs] at hsfn
        exact Option.some.inj hsfn
      subst he
      simp
    | none =>
      rw [hsfn]
      have hpos : ¬ (component.length + 12) / 13 = 0 := by
        have := List.length_pos_of_ne_nil hne
        omega
      simp only [if_true, Option.isSome_none, Bool.false_eq_true,
        if_false, Bool.true_and, hpos, decide_false, Bool.false_or,
        Cmd.pure_bind_apply, ← decide_not, Nat.not_lt]
  rw [hhead]
  by_cases hmax : lfnCountOf component ≤ lfnMaxEntries
  swap
  · right
    refine ⟨s, Cmd.require_bind_err (decide_eq_false hmax),
      .of_reads (.refl ∅ s), .inl (by omega)⟩
  rw [Cmd.require_bind (decide_eq_true hmax)]
  have hepc := h.sound.entries
  have hsp := h.sound.spc_pos
  -- Once the slots are there, the entries are written one by one.
  have hwrite : ∀ {v1 s1} (slot : DirSlot), Steps s s1 v1 →
      s.fat32.clusterValid slot.cluster = true →
      slot.entryIndex + lfnCountOf component < s.fat32.entriesPerCluster →
      ∃ s', (do
          writeLfnLoop slot component (lfnChecksum sfn)
            (lfnCountOf component) (lfnCountOf component) 0
          writeDirEntry
            { slot with
              entryIndex := slot.entryIndex + lfnCountOf component }
            (buildDirEntry sfn attr first size)
          pure ({ slot with
            entryIndex := slot.entryIndex + lfnCountOf component } :
              DirSlot) : Cmd State DirSlot) s1
        = (some ⟨slot.cluster, slot.entryIndex + lfnCountOf component⟩, s') ∧
      Steps s s' (v1.setEntries slot.cluster slot.entryIndex
        (namedEntries component sfn attr first size)) := by
    intro v1 s1 slot hst1 hcv hi
    have hf1 := hst1.fat32
    obtain ⟨s2, hrun2, hst2⟩ := writeLfnLoop_run (hst1.ok h)
      component (lfnChecksum sfn) (n := lfnCountOf component) (i := 0)
      (by rwa [hf1]) (Nat.zero_add _) (by rw [hf1]; omega)
    have hf2 := hst2.fat32
    obtain ⟨s3, hrun3, hst3, _⟩ := writeDirEntry_run (hst2.ok (hst1.ok h))
      ⟨slot.cluster, slot.entryIndex + lfnCountOf component⟩
      (buildDirEntry sfn attr first size)
      (by rw [hf2, hf1]; exact hcv) (by rw [hf2, hf1]; exact hi)
    refine ⟨s3, ?_, (hst1.moves.trans hst2.moves).trans hst3.moves, ?_⟩
    · rw [Cmd.bind_ok hrun2, Cmd.bind_ok hrun3, Cmd.pure_apply]
    · rw [hst3.vol, hst2.vol, hst1.vol, namedEntries,
        Vol.setEntries_append]
      simp [Vol.setEntries, lfnEntries]
  rcases dirFindFreeSlots_run h hl (Nat.succ_pos (lfnCountOf component)) with
    ⟨slot, s1, hrun1, hfs, hst1⟩ | ⟨n, v', s1, hrun1, hfs, hex, hst1⟩ |
    ⟨s1, hrun1, hfs, hempty, hst1⟩
  · obtain ⟨hcl, hi, _⟩ := freeSlotIn_some (Nat.succ_pos _) hfs
    have hcv := (h.sound.ok_iff _).mp (hl.ok_of_mem _ hcl)
    obtain ⟨s', hrun, hst⟩ := hwrite _ hst1 hcv (by omega)
    left
    refine ⟨sfn, slot, s.vol, s', hsfn, hmax, by omega, .inl ⟨hfs, rfl⟩,
      ?_, hst⟩
    rw [Cmd.bind_ok hrun1]
    exact hrun
  · have hcv := h.valid_of_free hex.free
    have hroom : 0 + lfnCountOf component < s.fat32.entriesPerCluster := by
      simp only [lfnMaxEntries] at hmax
      omega
    obtain ⟨s', hrun, hst⟩ := hwrite ⟨n, 0⟩ hst1 hcv hroom
    left
    refine ⟨sfn, ⟨n, 0⟩, v', s', hsfn, hmax, hroom,
      .inr ⟨hfs, hex, rfl⟩, ?_, hst⟩
    rw [Cmd.bind_ok hrun1]
    exact hrun
  · right
    exact ⟨s1, Cmd.bind_err hrun1, hst1, .inr ⟨hfs, hempty⟩⟩

-- ==== new directories

/-- The contents of a new directory's first cluster. -/
def dirContent (L : Layout) (cluster parent : Nat) : Nat → UInt8 :=
  L.clip (blit (blit (fun _ => 0) 0 32
    (buildDirEntry dotName attrDirectory cluster 0)) 32 32
    (buildDirEntry dotdotName attrDirectory parent 0))

theorem initDirectoryCluster_run (h : s.Ok) {c : Nat} (parent : Nat)
    (hc : s.fat32.clusterValid c = true) :
    ∃ s', initDirectoryCluster c parent s = (some (), s') ∧
      Steps s s' (s.vol.setData c (dirContent s.fat32 c parent)) ∧
      s'.allocHint = s.allocHint := by
  have hs := h.sound
  have hend := hs.clusterOffset_end hc
  have hsize := hs.size
  have hsp := hs.spc_pos
  have hb := h.bytesLen
  have hle := hs.lbaOf_le hc
  simp only [sectorSize] at hb hsize
  obtain ⟨s', hrun, hst, hh⟩ := clusterWrite_run h _ hc
  refine ⟨s', ?_, hst, hh⟩
  have hpokes : ((s.poked (s.fat32.lbaOf c * 512)
        (s.fat32.sectorsPerCluster * 512) fun _ => 0).poked
        (s.fat32.lbaOf c * 512) 32
        (buildDirEntry dotName attrDirectory c 0)).poked
        (s.fat32.lbaOf c * 512 + 32) 32
        (buildDirEntry dotdotName attrDirectory parent 0)
      = s.poked (s.fat32.lbaOf c * 512) (s.fat32.sectorsPerCluster * 512)
        (blit (blit (fun _ => 0) 0 32
          (buildDirEntry dotName attrDirectory c 0)) 32 32
          (buildDirEntry dotdotName attrDirectory parent 0)) := by
    have h0 := s.poked_poked (s.fat32.lbaOf c * 512)
      (s.fat32.sectorsPerCluster * 512) (o := 0) (l := 32) (by omega) (fun _ => 0)
      (buildDirEntry dotName attrDirectory c 0)
    rw [Nat.add_zero] at h0
    rw [h0, State.poked_poked _ _ _ (by omega)]
  rw [initDirectoryCluster, Cmd.bind_ok (clusterFirstByteOffset_run h hc),
    Cmd.get_bind_apply]
  rw [Cmd.require_bind (h.rangeValid (by omega) (by omega)),
    Cmd.bind_ok (clusterLba_run h hc)]
  simp only [poke, Cmd.modify_bind_apply, direntSize, hsize]
  rw [hpokes, hrun]

end writing

end Clks.Disk
