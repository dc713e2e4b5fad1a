/-
The two listing functions, on the entries along a directory's chain.

Both count the entries that are visible and not dot entries: its
children. The walk of `clks_disk_get_child_name` collects long names in
each cluster anew, and it does not drop the name it has collected when
it passes a child (`childrenIn`).
-/
import Clks.Disk.Files

namespace Clks.Disk

open Bytes Linked

-- ==== children

/-- An entry that the listing functions count. -/
def Entry.isChild (e : Entry) : Bool := e.isVisible && !e.isDotLike

theorem Entry.skip_of_not_child {e : Entry} (h : ¬ e.isChild = true) :
    (!e.isVisible || e.isDotLike) = true := by
  revert h
  unfold Entry.isChild
  cases e.isVisible <;> cases e.isDotLike <;> simp

/-- The children among some entries, each with what the walk has
collected of a long name when it comes to it. -/
def childrenIn : LfnState → List (DirSlot × Entry) →
    List (LfnState × DirSlot × Entry)
  | _, [] => []
  | st, (slot, e) :: rest =>
    if e 0 = entryUnused then childrenIn st.reset rest
    else if e.attr = attrLfn then childrenIn (st.step e) rest
    else if e.isChild then (st, slot, e) :: childrenIn st rest
    else childrenIn st.reset rest

/-- The children along a chain. -/
def Vol.children (L : Layout) (v : Vol) (l : List Nat) :
    List (LfnState × DirSlot × Entry) :=
  l.flatMap fun c =>
    childrenIn .init (v.clusterEntries c 0 L.entriesPerCluster)

/-- The result of `clks_disk_get_child_name` at a child, in a buffer. -/
def LfnState.listed (st : LfnState) (e : Entry) (outSize : Nat) :
    Option (List UInt8) :=
  if st.active && st.checksum = lfnChecksum e.name && st.name ≠ [] then
    if st.name.length + 1 ≤ outSize then some st.name else none
  else if (sfnToText e.name).take (outSize - 1) ≠ [] then
    some ((sfnToText e.name).take (outSize - 1))
  else none

theorem Vol.children_cons (L : Layout) (v : Vol) (c : Nat) (l : List Nat) :
    v.children L (c :: l)
      = childrenIn .init (v.clusterEntries c 0 L.entriesPerCluster)
        ++ v.children L l := by
  simp [children]

theorem childrenIn_length (st : LfnState) (es : List (DirSlot × Entry)) :
    (childrenIn st es).length
      = (es.filter fun x => x.2.isChild).length := by
  induction es generalizing st with
  | nil => rfl
  | cons x es ih =>
    obtain ⟨slot, e⟩ := x
    unfold childrenIn
    by_cases hfree : e 0 = entryUnused
    · have hno : e.isChild = false := by
        simp [Entry.isChild, Entry.isVisible, Entry.isFree, hfree]
      rw [if_pos hfree, ih, List.filter_cons_of_neg (by simp [hno])]
    rw [if_neg hfree]
    by_cases hlfn : e.attr = attrLfn
    · have hno : e.isChild = false := by
        simp [Entry.isChild, Entry.isVisible, hlfn]
      rw [if_pos hlfn, ih, List.filter_cons_of_neg (by simp [hno])]
    rw [if_neg hlfn]
    by_cases hch : e.isChild = true
    · rw [if_pos hch, List.length_cons, ih,
        List.filter_cons_of_pos (by simpa using hch), List.length_cons]
    · rw [if_neg hch, ih, List.filter_cons_of_neg (by simpa using hch)]

section listing

variable {s : State}

-- ==== names

private theorem listed_run (st : LfnState) (e : Entry)
    (outSize current : Nat) :
    (do
      let name ←
        if st.active && st.checksum = lfnChecksum e.name && st.name ≠ [] then do
          Cmd.require (st.name.length + 1 ≤ outSize)
          pure st.name
        else
          pure ((sfnToText e.name).take (outSize - 1))
      Cmd.require (name ≠ [])
      pure (some name, current) : Cmd State (Option (List UInt8) × Nat)) s
      = ((st.listed e outSize).map fun name => (some name, current), s) := by
  unfold LfnState.listed
  by_cases hlong : (st.active && st.checksum = lfnChecksum e.name
      && st.name ≠ []) = true
  · have hne : st.name ≠ [] := by
      simp only [Bool.and_eq_true, decide_eq_true_eq] at hlong
      exact hlong.2
    rw [if_pos hlong, if_pos hlong]
    by_cases hlen : st.name.length + 1 ≤ outSize
    · rw [if_pos hlen, Cmd.require_bind (decide_eq_true hlen)]
      exact Cmd.require_bind (decide_eq_true hne)
    · rw [if_neg hlen]
      exact Cmd.require_bind_err (decide_eq_false hlen)
  · rw [if_neg hlong, if_neg hlong]
    by_cases hne : (sfnToText e.name).take (outSize - 1) = []
    · rw [if_neg fun hn => hn hne]
      exact Cmd.require_bind_err (decide_eq_false fun hn => hn hne)
    · rw [if_pos hne]
      exact Cmd.require_bind (decide_eq_true hne)

private theorem childNameEntries_run (h : s.Ok) {c : Nat}
    (hc : s.fat32.clusterValid c = true) (outSize : Nat)
    {index n i current : Nat} (st : LfnState) (hn : i + n ≤ s.fat32.entriesPerCluster)
    (hcur : current ≤ index) :
    ∃ s', childNameEntries index outSize c n i st current s
        = (match (childrenIn st (s.vol.clusterEntries c i n))[index - current]? with
            | some (st', _, e) =>
              (st'.listed e outSize).map fun name => (some name, index)
            | none => some (none, current
              + (childrenIn st (s.vol.clusterEntries c i n)).length), s') ∧
      Reads (s.fat32.clusterSectors c) s s' := by
  induction n generalizing i st current s with
  | zero => exact ⟨s, rfl, Reads.refl _ s⟩
  | succ n ih =>
    obtain ⟨s1, hrun1, hr1⟩ := dirEntryRead_run h hc (i := i) (by omega)
    have hnext : ∀ st' current', current' ≤ index →
        ∃ s', childNameEntries index outSize c n (i + 1) st' current' s1
          = (match (childrenIn st' (s.vol.clusterEntries c (i + 1) n))[index - current']? with
              | some (st', _, e) =>
                (st'.listed e outSize).map fun name => (some name, index)
              | none => some (none, current' + (childrenIn st'
                (s.vol.clusterEntries c (i + 1) n)).length), s') ∧
        Reads (s.fat32.clusterSectors c) s s' := by
      intro st' current' hcur'
      obtain ⟨s', hrun, hr⟩ := ih (hr1.ok h) (by rwa [hr1.fat32])
        (i := i + 1) st' (by rw [hr1.fat32]; omega) hcur'
      rw [hr1.vol] at hrun
      rw [hr1.fat32] at hr
      exact ⟨s', hrun, hr1.trans hr⟩
    rw [childNameEntries, Cmd.bind_ok hrun1, Vol.clusterEntries_succ]
    simp only [childrenIn]
    by_cases hfree : s.vol.entry ⟨c, i⟩ 0 = entryUnused
    · rw [if_pos hfree, if_pos hfree]
      exact hnext _ _ hcur
    rw [if_neg hfree, if_neg hfree]
    by_cases hlfn : (s.vol.entry ⟨c, i⟩).attr = attrLfn
    · rw [if_pos hlfn, if_pos hlfn]
      exact hnext _ _ hcur
    rw [if_neg hlfn, if_neg hlfn]
    by_cases hch : (s.vol.entry ⟨c, i⟩).isChild = true
    · have hskip : ¬ (!(s.vol.entry ⟨c, i⟩).isVisible
          || (s.vol.entry ⟨c, i⟩).isDotLike) = true := by
        simpa [Entry.isChild] using hch
      rw [if_neg hskip, if_pos hch]
      by_cases hi : current = index
      · -- The child that was asked for.
        subst hi
        rw [if_neg (by simp), Nat.sub_self, List.getElem?_cons_zero]
        exact ⟨s1, listed_run st _ outSize current, hr1⟩
      · rw [if_pos hi]
        obtain ⟨s', hrun, hr⟩ := hnext st (current + 1) (by omega)
        refine ⟨s', ?_, hr⟩
        have hsub : index - current = index - (current + 1) + 1 := by omega
        rw [hrun, hsub, List.getElem?_cons_succ, List.length_cons,
          Nat.add_right_comm, Nat.add_assoc]
    · rw [if_pos (Entry.skip_of_not_child hch), if_neg hch]
      exact hnext _ _ hcur

private theorem childNameLoop_run (h : s.Ok) {index outSize c guard : Nat}
    {current : Nat} {l : List Nat} (hl : s.vol.Chain s.fat32 c l)
    (hg : l.length ≤ guard) (hcur : current ≤ index) :
    ∃ s', childNameLoop index outSize guard c current s
        = ((s.vol.children s.fat32 l)[index - current]?.bind
            fun x => x.1.listed x.2.2 outSize, s') ∧
      Reads (s.fat32.chainSectors l) s s' := by
  induction guard generalizing c l current s with
  | zero =>
    obtain ⟨t, rfl⟩ := hl.eq_cons
    simp at hg
  | succ guard ih =>
    have hcv := (h.sound.ok_iff c).mp hl.head_ok
    have hcl := hl.head_mem
    obtain ⟨s1, hrun1, hr1⟩ := childNameEntries_run h hcv outSize
      (n := s.fat32.entriesPerCluster) (i := 0) .init (by omega) hcur
    obtain ⟨s2, hrun2, hr12⟩ := nextCluster_walk h hl hr1
    have hr1' := hr1.mono (s.fat32.clusterSectors_subset hcl)
    rw [childNameLoop, Cmd.get_bind_apply, Cmd.require_bind hcv]
    obtain ⟨t, rfl⟩ := hl.eq_cons
    rw [Vol.children_cons]
    set xs := childrenIn .init
      (s.vol.clusterEntries c 0 s.fat32.entriesPerCluster) with hxs
    by_cases hin : index - current < xs.length
    · -- The child is in this cluster.
      rw [List.getElem?_eq_getElem hin] at hrun1
      rw [List.getElem?_append_left hin, List.getElem?_eq_getElem hin,
        Option.bind_some]
      refine ⟨s1, ?_, hr1'⟩
      simp only [] at hrun1
      cases hlisted : xs[index - current].1.listed xs[index - current].2.2
          outSize with
      | none =>
        rw [hlisted] at hrun1
        exact Cmd.bind_err hrun1
      | some name =>
        rw [hlisted] at hrun1
        exact Cmd.bind_ok hrun1
    · rw [List.getElem?_eq_none (by omega)] at hrun1
      rw [List.getElem?_append_right (by omega), Cmd.bind_ok hrun1]
      simp only [Cmd.bind_ok hrun2]
      cases hl with
      | last _ hstop =>
        have hstop : eocMin ≤ s.vol.fat c := hstop
        refine ⟨s2, ?_, hr12⟩
        rw [Cmd.require_bind_err (by simpa using hstop)]
        rfl
      | cons _ hct =>
        obtain ⟨hns, hnv⟩ := h.goes_on hct
        obtain ⟨s3, hrun3, hr3⟩ := ih (hr12.ok h) (c := s.vol.fat c)
          (l := t) (by rw [hr12.vol, hr12.fat32]; exact hct)
          (by simpa using hg) (show current + xs.length ≤ index by omega)
        rw [hr12.vol, hr12.fat32] at hrun3
        refine ⟨s3, ?_, hr12.walk hr3⟩
        rw [Cmd.require_bind (by simpa using hns), Cmd.require_bind hnv,
          hrun3, Nat.sub_sub]

theorem childName_run (h : s.Ok) {c : Nat} {l : List Nat}
    (hl : s.vol.Chain s.fat32 c l) (index outSize : Nat) :
    ∃ s', childNameLoop index outSize s.fat32.clusterCount c 0 s
        = ((s.vol.children s.fat32 l)[index]?.bind
            fun x => x.1.listed x.2.2 outSize, s') ∧
      Reads (s.fat32.chainSectors l) s s' :=
  childNameLoop_run h hl hl.length_le (Nat.zero_le _)

-- ==== their number

private theorem countEntries_run (h : s.Ok) {c : Nat}
    (hc : s.fat32.clusterValid c = true) {n i : Nat} (count : Nat)
    (hn : i + n ≤ s.fat32.entriesPerCluster) :
    ∃ s', countEntries c n i count s
        = (some (count + ((s.vol.clusterEntries c i n).filter
            fun x => x.2.isChild).length), s') ∧
      Reads (s.fat32.clusterSectors c) s s' := by
  induction n generalizing i count s with
  | zero => exact ⟨s, rfl, Reads.refl _ s⟩
  | succ n ih =>
    obtain ⟨s1, hrun1, hr1⟩ := dirEntryRead_run h hc (i := i) (by omega)
    have hnext : ∀ count', ∃ s', countEntries c n (i + 1) count' s1
          = (some (count' + ((s.vol.clusterEntries c (i + 1) n).filter
              fun x => x.2.isChild).length), s') ∧
        Reads (s.fat32.clusterSectors c) s s' := by
      intro count'
      obtain ⟨s', hrun, hr⟩ := ih (hr1.ok h) (by rwa [hr1.fat32])
        (i := i + 1) count' (by rw [hr1.fat32]; omega)
      rw [hr1.vol] at hrun
      rw [hr1.fat32] at hr
      exact ⟨s', hrun, hr1.trans hr⟩
    rw [countEntries, Cmd.bind_ok hrun1, Vol.clusterEntries_succ]
    by_cases hch : (s.vol.entry ⟨c, i⟩).isChild = true
    · obtain ⟨hv, hd⟩ : (s.vol.entry ⟨c, i⟩).isVisible = true ∧
          (s.vol.entry ⟨c, i⟩).isDotLike = false := by
        simpa [Entry.isChild] using hch
      have hused : s.vol.entry ⟨c, i⟩ 0 ≠ entryUnused := by
        intro he
        simp [Entry.isVisible, Entry.isFree, he] at hv
      rw [if_neg hused, if_neg (by simp [hv, hd]),
        List.filter_cons, if_pos hch, List.length_cons]
      obtain ⟨s', hrun, hr⟩ := hnext (count + 1)
      exact ⟨s', by rw [hrun, Nat.add_right_comm, Nat.add_assoc], hr⟩
    · rw [List.filter_cons, if_neg hch]
      have hskip := Entry.skip_of_not_child hch
      split_ifs
      · exact hnext count
      · exact hnext count

private theorem countLoop_run (h : s.Ok) {c guard : Nat} {l : List Nat}
    (hl : s.vol.Chain s.fat32 c l) (hg : l.length ≤ guard) (count : Nat) :
    ∃ s', countLoop guard c count s
        = (some (count + (s.vol.children s.fat32 l).length), s') ∧
      Reads (s.fat32.chainSectors l) s s' := by
  induction guard generalizing c l count s with
  | zero =>
    obtain ⟨t, rfl⟩ := hl.eq_cons
    simp at hg
  | succ guard ih =>
    have hcv := (h.sound.ok_iff c).mp hl.head_ok
    obtain ⟨s1, hrun1, hr1⟩ := countEntries_run h hcv
      (n := s.fat32.entriesPerCluster) (i := 0) count (by omega)
    obtain ⟨s2, hrun2, hr12⟩ := nextCluster_walk h hl hr1
    obtain ⟨t, rfl⟩ := hl.eq_cons
    rw [countLoop, Cmd.get_bind_apply, if_neg (by simp [hcv]),
      Cmd.bind_ok hrun1, Vol.children_cons, List.length_append,
      childrenIn_length]
    simp only [Cmd.bind_ok hrun2]
    cases hl with
    | last _ hstop =>
      have hstop : eocMin ≤ s.vol.fat c := hstop
      refine ⟨s2, ?_, hr12⟩
      rw [if_pos (decide_eq_true hstop)]
      rfl
    | cons _ hct =>
      obtain ⟨hns, hnv⟩ := h.goes_on hct
      obtain ⟨s3, hrun3, hr3⟩ := ih (hr12.ok h) (c := s.vol.fat c)
        (l := t) (by rw [hr12.vol, hr12.fat32]; exact hct)
        (by simpa using hg) _
      rw [hr12.vol, hr12.fat32] at hrun3
      refine ⟨s3, ?_, hr12.walk hr3⟩
      rw [if_neg (by simpa using hns), Cmd.require_bind hnv, hrun3,
        Nat.add_assoc]

theorem count_run (h : s.Ok) {c : Nat} {l : List Nat}
    (hl : s.vol.Chain s.fat32 c l) :
    ∃ s', countLoop s.fat32.clusterCount c 0 s
        = (some (s.vol.children s.fat32 l).length, s') ∧
      Reads (s.fat32.chainSectors l) s s' := by
  obtain ⟨s', hrun, hr⟩ := countLoop_run h hl hl.length_le 0
  rw [Nat.zero_add] at hrun
  exact ⟨s', hrun, hr⟩

-- ==== both calls

theorem directoryOf_run {G : Ghost} (h : s.Holds G) (path : List UInt8) :
    ∃ s' P, Reads P s s' ∧ (directoryOf path s = (none, s') ∨
      ∃ c l, s.vol.Chain s.fat32 c l ∧ directoryOf path s = (some c, s')) := by
  rw [directoryOf]
  have hrun := relativeOf_run h.ok path
  cases hrel : pathToRelative s.toEnv path with
  | none =>
    rw [hrel] at hrun
    exact ⟨s, ∅, .refl ∅ s, .inl (Cmd.bind_err hrun)⟩
  | some relative =>
    rw [hrel] at hrun
    rw [Cmd.bind_ok hrun, Cmd.get_bind_apply]
    by_cases hne : relative = []
    · rw [if_pos hne]
      exact ⟨s, ∅, .refl ∅ s,
        .inr ⟨_, _, h.tree.chain_of_head? h.tree.root_head, rfl⟩⟩
    rw [if_neg hne]
    obtain ⟨s1, hrun1, hr1⟩ := lookupPath_run h hrel hne
    refine ⟨s1, _, hr1, ?_⟩
    cases hres : resolvePath s.toEnv s.vol path with
    | none =>
      rw [hres] at hrun1
      exact .inl (Cmd.bind_err hrun1)
    | some lookup =>
      rw [hres] at hrun1
      rw [Cmd.bind_ok hrun1]
      by_cases hf : lookup.found = true
      swap
      · exact .inl (Cmd.require_bind_err (Bool.not_eq_true _ ▸ hf))
      rw [Cmd.require_bind hf]
      by_cases hd : isDirectoryAttr lookup.info.attr = true
      swap
      · exact .inl (Cmd.require_bind_err (Bool.not_eq_true _ ▸ hd))
      rw [Cmd.require_bind hd]
      obtain ⟨hin, -, -, hk⟩ := h.resolvePath_found hres hf
      rw [hd] at hk
      exact .inr ⟨_, _, h.tree.chain_of_head? (h.tree.dir_head hin hk).2, rfl⟩

/-- The number of children of a directory and their names are those of one
list, whatever the index and the buffer: no child is left out by the one call
that is counted by the other. -/
theorem listing_of_path (hs : s.Consistent) (path : List UInt8) :
    ∃ children : List (LfnState × DirSlot × Entry),
      (countChildren path s).1 = some children.length ∧
      ∀ index outSize, outSize ≠ 0 → (getChildName path index outSize s).1
        = children[index]?.bind fun x => x.1.listed x.2.2 outSize := by
  obtain ⟨G, h⟩ := hs
  unfold countChildren getChildName
  rw [Cmd.attempt_bind_apply]
  obtain ⟨s1, P, hr1, hrun1 | ⟨c, l, hl, hrun1⟩⟩ := directoryOf_run h path
  · refine ⟨[], by rw [Cmd.bind_err hrun1]; rfl, fun index outSize hsize => ?_⟩
    rw [Cmd.require_bind (decide_eq_true hsize), Cmd.bind_err hrun1]
    rfl
  · have hl1 : s1.vol.Chain s1.fat32 c l := by rwa [hr1.vol, hr1.fat32]
    have h1 := hr1.ok h.ok
    refine ⟨s1.vol.children s1.fat32 l, ?_, fun index outSize hsize => ?_⟩
    · obtain ⟨s2, hrun2, -⟩ := count_run h1 hl1
      rw [Cmd.bind_ok hrun1, Cmd.get_bind_apply, hrun2]
      rfl
    · obtain ⟨s2, hrun2, -⟩ := childName_run h1 hl1 index outSize
      rw [Cmd.require_bind (decide_eq_true hsize), Cmd.bind_ok hrun1,
        Cmd.get_bind_apply, hrun2]

end listing

end Clks.Disk
