/-
A name that was entered into a directory is looked up again.

The new entries take the place of free slots, so a directory with a new
name is its entries in front of that place, the new ones, and others
behind (`Enters`). The lookup stops at the new entry unless something in
front answers to the component, and it recognises the entry if the
component is its short name or a long name that the walks can read
(`findIn_named`).
-/
import Clks.Disk.Proofs.LongName
import Clks.Disk.Image

namespace Clks.Disk

open Bytes Linked

set_option maxRecDepth 2000

-- ==== the place of a new name

/-- Entries in consecutive slots of a cluster. -/
def slotsFrom (cluster : Nat) : Nat → List Entry → List (DirSlot × Entry)
  | _, [] => []
  | i, e :: es => (⟨cluster, i⟩, e) :: slotsFrom cluster (i + 1) es

/-- The entries of a directory in front of the place that a name gets:
those in front of the first run of free slots that is long enough, all
of them if there is none. -/
def entriesInFront (L : Layout) (v : Vol) (needed : Nat) :
    List Nat → List (DirSlot × Entry)
  | [] => []
  | c :: l =>
    match freeRun (fun j => (v.entry ⟨c, j⟩).isFree) needed
        L.entriesPerCluster 0 0 0 with
    | some i => v.clusterEntries c 0 i
    | none =>
      v.clusterEntries c 0 L.entriesPerCluster
        ++ entriesInFront L v needed l

section place

variable {L : Layout} {v v' : Vol} {es : List Entry} {c i n : Nat}

theorem slotsFrom_append (es' : List Entry) :
    slotsFrom c i (es ++ es')
      = slotsFrom c i es ++ slotsFrom c (i + es.length) es' := by
  induction es generalizing i with
  | nil => rfl
  | cons e es ih =>
    rw [List.cons_append, slotsFrom, slotsFrom, ih, List.length_cons,
      List.cons_append, Nat.add_right_comm, Nat.add_assoc]

theorem Vol.clusterEntries_append (m : Nat) :
    v.clusterEntries c i (n + m)
      = v.clusterEntries c i n ++ v.clusterEntries c (i + n) m := by
  unfold Vol.clusterEntries
  rw [← List.map_append, List.range'_append_1]

theorem Vol.clusterEntries_congr
    (h : ∀ j, i ≤ j → j < i + n → v'.entry ⟨c, j⟩ = v.entry ⟨c, j⟩) :
    v'.clusterEntries c i n = v.clusterEntries c i n := by
  unfold Vol.clusterEntries
  apply List.map_congr_left
  intro j hj
  obtain ⟨h1, h2⟩ := List.mem_range'_1.mp hj
  rw [h j h1 h2]

theorem Vol.clusterEntries_setEntries
    (he : ∀ e ∈ es, ∀ k, 32 ≤ k → e k = 0) :
    (v.setEntries c i es).clusterEntries c i es.length
      = slotsFrom c i es := by
  induction es generalizing v i with
  | nil => rfl
  | cons e es ih =>
    rw [List.length_cons, Vol.clusterEntries_succ, slotsFrom,
      Vol.setEntries, ih fun e' he' => he e' (List.mem_cons_of_mem _ he'),
      Vol.setEntries_entry_out _ (.inr (.inl (Nat.lt_succ_self i))),
      Vol.setEntry_entry_self (he e List.mem_cons_self)]

theorem Vol.clusterEntries_split (he : ∀ e ∈ es, ∀ k, 32 ≤ k → e k = 0)
    (hi : i + es.length ≤ n) :
    (v.setEntries c i es).clusterEntries c 0 n
      = v.clusterEntries c 0 i ++ slotsFrom c i es
        ++ v.clusterEntries c (i + es.length) (n - (i + es.length)) := by
  have hn : n = i + es.length + (n - (i + es.length)) := by omega
  rw [hn, Vol.clusterEntries_append, Vol.clusterEntries_append]
  simp only [Nat.zero_add]
  rw [Vol.clusterEntries_setEntries he]
  congr 1
  · congr 1
    apply Vol.clusterEntries_congr
    intro j h1 h2
    exact Vol.setEntries_entry_out _ (.inr (.inl (by simpa using h2)))
  · rw [Nat.add_sub_cancel_left]
    apply Vol.clusterEntries_congr
    intro j h1 h2
    exact Vol.setEntries_entry_out _ (.inr (.inr h1))

theorem Vol.dirEntries_setEntries_ne {l : List Nat} (h : c ∉ l) :
    (v.setEntries c i es).dirEntries L l = v.dirEntries L l := by
  induction l with
  | nil => rfl
  | cons d l ih =>
    rw [List.mem_cons, not_or] at h
    rw [Vol.dirEntries_cons, Vol.dirEntries_cons, ih h.2]
    congr 1
    apply Vol.clusterEntries_congr
    intro j _ _
    exact Vol.setEntries_entry_out _ (.inl fun he => h.1 he.symm)

theorem freeSlotIn_split {needed : Nat} {l : List Nat} {slot : DirSlot}
    (hnodup : l.Nodup) (hlen : es.length = needed) (hn : 0 < needed)
    (he : ∀ e ∈ es, ∀ k, 32 ≤ k → e k = 0)
    (h : freeSlotIn L v needed l = some slot) :
    ∃ gap back, gap ≠ [] ∧ (∀ x ∈ gap, x.2.isFree = true) ∧
      v.dirEntries L l = entriesInFront L v needed l ++ gap ++ back ∧
      (v.setEntries slot.cluster slot.entryIndex es).dirEntries L l
        = entriesInFront L v needed l
          ++ slotsFrom slot.cluster slot.entryIndex es ++ back := by
  induction l with
  | nil => cases h
  | cons c l ih =>
    obtain ⟨hc, hl⟩ := List.nodup_cons.mp hnodup
    unfold freeSlotIn at h
    unfold entriesInFront
    rw [Vol.dirEntries_cons, Vol.dirEntries_cons]
    cases hr : freeRun (fun j => (v.entry ⟨c, j⟩).isFree) needed
        L.entriesPerCluster 0 0 0 with
    | some i =>
      rw [hr] at h
      cases h
      obtain ⟨hin, hfree⟩ := freeRun_some hr hn (by omega)
      rw [Nat.zero_add] at hin
      refine ⟨v.clusterEntries c i needed,
        v.clusterEntries c (i + needed) (L.entriesPerCluster - (i + needed))
          ++ v.dirEntries L l, ?_, ?_, ?_, ?_⟩
      · intro he
        have hl := congrArg List.length he
        simp [Vol.clusterEntries] at hl
        omega
      · intro x hx
        obtain ⟨j, hj, rfl⟩ := List.mem_map.mp hx
        obtain ⟨h1, h2⟩ := List.mem_range'_1.mp hj
        exact hfree j h1 h2
      · have hsum : L.entriesPerCluster
            = i + needed + (L.entriesPerCluster - (i + needed)) := by omega
        rw [hsum, Vol.clusterEntries_append, Vol.clusterEntries_append]
        simp only [Nat.zero_add, Nat.add_sub_cancel_left, List.append_assoc]
      · rw [Vol.clusterEntries_split he
            (show i + es.length ≤ L.entriesPerCluster by omega), hlen,
          Vol.dirEntries_setEntries_ne hc]
        simp only [List.append_assoc]
    | none =>
      rw [hr] at h
      obtain ⟨gap, back, hgne, hgap, hold, hnew⟩ := ih hl h
      have hne : slot.cluster ≠ c := by
        rintro rfl
        exact hc (freeSlotIn_some hn h).1
      refine ⟨gap, back, hgne, hgap, ?_, ?_⟩
      · rw [hold]
        simp only [List.append_assoc]
      · rw [hnew]
        simp only [← List.append_assoc]
        congr 3
        apply Vol.clusterEntries_congr
        intro j _ _
        exact Vol.setEntries_entry_out _ (.inl fun he => hne he.symm)

theorem entriesInFront_of_none {needed : Nat} {l : List Nat}
    (h : freeSlotIn L v needed l = none) :
    entriesInFront L v needed l = v.dirEntries L l := by
  induction l with
  | nil => rfl
  | cons c l ih =>
    unfold freeSlotIn at h
    unfold entriesInFront
    rw [Vol.dirEntries_cons]
    cases hr : freeRun (fun j => (v.entry ⟨c, j⟩).isFree) needed
        L.entriesPerCluster 0 0 0 with
    | some i =>
      rw [hr] at h
      cases h
    | none =>
      rw [hr] at h
      simp only [ih h]

theorem Extends.chain {total dir : Nat} {l : List Nat} (hs : L.Sound total)
    (hl : v.Chain L dir l) (hx : Extends v v' L l n) :
    v'.Chain L dir (l ++ [n]) ∧ n ∉ l ∧
      (∀ d ∈ l, v'.data d = v.data d) ∧ v'.data n = fun _ => 0 := by
  obtain ⟨pre, z, rfl, rfl⟩ := hx.links
  obtain ⟨h1, h2, h3⟩ := Vol.mem_freeSet.mp hx.free
  have hn : n ∉ pre ++ [z] := by
    intro hm
    exact hl.not_free n hm h3
  have hnz : n ≠ z := by
    rintro rfl
    exact hn (by simp)
  have hok : L.marks.ok n :=
    (hs.ok_iff n).mpr ((hs.clusterValid_iff n).mpr ⟨h2, h1⟩)
  refine ⟨?_, hn, ?_, ?_⟩
  · rw [List.append_assoc, List.singleton_append]
    refine Chain.append hl (b := n) (.last hok ?_) ?_ ?_
    · rw [Vol.setFat_fat_ne _ _ hnz, Vol.setData_fat, Vol.setFat_fat_self]
      exact (by decide : eocMin ≤ eoc)
    · exact Vol.setFat_fat_self _ _ _
    · intro x hx'
      have hxz : x ≠ z := by
        rintro rfl
        exact (List.nodup_append.mp hl.nodup).2.2 x hx' x
          List.mem_cons_self rfl
      have hxn : x ≠ n := by
        rintro rfl
        exact hn (List.mem_append_left _ hx')
      rw [Vol.setFat_fat_ne _ _ hxz, Vol.setData_fat,
        Vol.setFat_fat_ne _ _ hxn]
  · intro d hd
    have hdn : d ≠ n := by
      rintro rfl
      exact hn hd
    rw [Vol.setFat_data, Vol.setData_data_ne _ _ hdn, Vol.setFat_data]
  · rw [Vol.setFat_data, Vol.setData_data_self]

theorem Vol.clusterEntries_free (hz : v.data c = fun _ => 0) :
    ∀ x ∈ v.clusterEntries c i n, x.2.isFree = true := by
  intro x hx
  obtain ⟨j, -, rfl⟩ := List.mem_map.mp hx
  unfold Entry.isFree Vol.entry entryAt
  simp only [hz]
  simp

theorem RoomFor.split {total dir : Nat} {l : List Nat} {slot : DirSlot}
    (hs : L.Sound total) (hl : v.Chain L dir l) (hpos : 0 < es.length)
    (he : ∀ e ∈ es, ∀ k, 32 ≤ k → e k = 0)
    (hi : slot.entryIndex + es.length ≤ L.entriesPerCluster)
    (hroom : RoomFor L v v' l slot es.length) :
    ∃ l' gap back more,
      (v'.setEntries slot.cluster slot.entryIndex es).Chain L dir l' ∧
      (∀ x ∈ gap, x.2.isFree = true) ∧ (∀ x ∈ more, x.2.isFree = true) ∧
      (gap = [] → back = []) ∧
      v.dirEntries L l = entriesInFront L v es.length l ++ gap ++ back ∧
      (v'.setEntries slot.cluster slot.entryIndex es).dirEntries L l'
        = entriesInFront L v es.length l
          ++ slotsFrom slot.cluster slot.entryIndex es ++ (back ++ more) := by
  rcases hroom with ⟨hfs, rfl⟩ | ⟨hfs, hx, hi0⟩
  · obtain ⟨gap, back, hne, hgap, hold, hnew⟩ :=
      freeSlotIn_split hl.nodup rfl hpos he hfs
    refine ⟨l, gap, back, [], ?_, hgap, ?_, fun he => absurd he hne, hold, ?_⟩
    · unfold Vol.Chain
      rw [Vol.setEntries_fat]
      exact hl
    · intro x hx
      cases hx
    · rw [hnew, List.append_nil]
  · obtain ⟨hl', hn, hsame, hz⟩ := hx.chain hs hl
    refine ⟨l ++ [slot.cluster], [], [],
      v'.clusterEntries slot.cluster (slot.entryIndex + es.length)
        (L.entriesPerCluster - (slot.entryIndex + es.length)),
      ?_, ?_, ?_, fun _ => rfl, ?_, ?_⟩
    · unfold Vol.Chain
      rw [Vol.setEntries_fat]
      exact hl'
    · intro x hx
      cases hx
    · exact Vol.clusterEntries_free hz
    · rw [entriesInFront_of_none hfs, List.append_nil, List.append_nil]
    · have hcat : ∀ w : Vol, w.dirEntries L (l ++ [slot.cluster])
          = w.dirEntries L l
            ++ w.clusterEntries slot.cluster 0 L.entriesPerCluster := by
        intro w
        unfold Vol.dirEntries
        rw [List.flatMap_append, List.flatMap_singleton]
      rw [hcat, Vol.dirEntries_setEntries_ne hn,
        Vol.dirEntries_congr hsame, entriesInFront_of_none hfs,
        Vol.clusterEntries_split he hi, hi0]
      simp [Vol.clusterEntries]

end place

-- ==== finding a new name

/-- The walks recognise an entry with this component: its short name is
all of it, or its long name can be read. -/
def Readable (component : List UInt8) : Prop :=
  (componentToSfn component).isSome = true ∨ Legible component

instance (component : List UInt8) : Decidable (Readable component) := by
  unfold Readable
  infer_instance

section found

variable {component : List UInt8} {target : Option Sfn} {st st' : LfnState}
  {es : List Entry} {back : List (DirSlot × Entry)} {c i : Nat} {sfn : Sfn}
  {attr : UInt8} {first size : Nat}

theorem textEqualsCasefold_refl (text : List UInt8) :
    textEqualsCasefold text text = true := by
  induction text with
  | nil => rfl
  | cons ch text ih => simp [textEqualsCasefold, ih]

theorem findIn_lfn (h : ∀ e ∈ es, e.isFree = false ∧ e.attr = attrLfn) :
    findIn component target st (slotsFrom c i es ++ back)
      = findIn component target (es.foldl LfnState.step st) back := by
  induction es generalizing st i with
  | nil => rfl
  | cons e es ih =>
    obtain ⟨hfree, hattr⟩ := h e List.mem_cons_self
    rw [slotsFrom, List.cons_append, findIn]
    simp only [hfree, Bool.false_eq_true, if_false, hattr, if_true]
    rw [ih fun e' he' => h e' (List.mem_cons_of_mem _ he'), List.foldl_cons]

private theorem entryMatches_named (hz : ∀ ch ∈ component, ch ≠ 0)
    (hsfn : componentGenerateSfn component = some sfn)
    (hmax : lfnCountOf component ≤ lfnMaxEntries) :
    entryMatches component (componentToSfn component)
        ((lfnEntries component (lfnChecksum sfn)
          (lfnCountOf component)).foldl LfnState.step st)
        (buildDirEntry sfn attr first size)
      = decide (Readable component) := by
  have hname : (buildDirEntry sfn attr first size).name = sfn :=
    buildDirEntry_name (componentGenerateSfn_proper hsfn).length
  have hne : component ≠ [] := by
    rintro rfl
    cases hsfn
  unfold entryMatches
  rw [hname]
  cases hto : componentToSfn component with
  | some sfn' =>
    have he : sfn' = sfn := by
      unfold componentGenerateSfn at hsfn
      rw [if_neg hne, hto] at hsfn
      exact Option.some.inj hsfn
    have hr : Readable component := .inl (by rw [hto]; rfl)
    simp [he, hr]
  | none =>
    have hcount : lfnCountOf component = (component.length + 12) / 13 := by
      unfold lfnCountOf
      rw [hto]
      rfl
    have hpos := List.length_pos_of_ne_nil hne
    have hread := lfnEntries_read st (lfnChecksum sfn) hz
      (show 0 < lfnCountOf component by omega) hmax (by omega)
    unfold Collected at hread
    rw [Nat.zero_mul, List.drop_zero] at hread
    have hiff : Readable component ↔ Legible component := by
      unfold Readable
      rw [hto]
      simp
    by_cases hl : Legible component
    · rw [if_pos hl] at hread
      rw [hread, decide_eq_true (hiff.mpr hl)]
      simp [textEqualsCasefold_refl]
    · rw [if_neg hl] at hread
      rw [hread, decide_eq_false fun h => hl (hiff.mp h)]
      simp

theorem findIn_named (st : LfnState) (c i first size : Nat) (attr : UInt8)
    (back : List (DirSlot × Entry)) (hz : ∀ ch ∈ component, ch ≠ 0)
    (hsfn : componentGenerateSfn component = some sfn)
    (hmax : lfnCountOf component ≤ lfnMaxEntries) :
    ∃ st', (attr ≠ attrLfn → ¬ Readable component → st'.active = false) ∧
      findIn component (componentToSfn component) st
        (slotsFrom c i (namedEntries component sfn attr first size) ++ back)
      = if attr &&& attrVolumeId = 0 ∧ Readable component then
          (some
            { slot := ⟨c, i + lfnCountOf component⟩
              info := (buildDirEntry sfn attr first size).info
              sfn := sfn }, st')
        else findIn component (componentToSfn component) st' back := by
  have hproper := componentGenerateSfn_proper hsfn
  have hfree : (buildDirEntry sfn attr first size).isFree = false :=
    (buildDirEntry_live hproper).1
  have hlen : (lfnEntries component (lfnChecksum sfn)
      (lfnCountOf component)).length = lfnCountOf component := by
    simp [lfnEntries]
  unfold namedEntries
  rw [slotsFrom_append, hlen, List.append_assoc,
    findIn_lfn (lfnEntries_used hmax)]
  rw [slotsFrom, slotsFrom, List.singleton_append, findIn]
  simp only [hfree, Bool.false_eq_true, if_false, buildDirEntry_attr,
    Entry.isVolumeId, entryMatches_named hz hsfn hmax,
    buildDirEntry_name hproper.length]
  by_cases hvol : attr &&& attrVolumeId = 0
  · have hattr : attr ≠ attrLfn := by
      rintro rfl
      revert hvol
      decide
    simp only [hattr, if_false, hvol, ne_eq, not_true_eq_false,
      decide_false, Bool.false_eq_true, true_and, decide_eq_true_eq]
    by_cases hr : Readable component
    · simp only [hr, if_true]
      exact ⟨_, fun _ hn => absurd trivial hn, rfl⟩
    · simp only [hr, if_false]
      exact ⟨_, fun _ _ => rfl, rfl⟩
  · simp only [hvol, false_and, if_false, ne_eq, not_false_eq_true,
      decide_true, if_true]
    by_cases hattr : attr = attrLfn
    · rw [if_pos hattr]
      exact ⟨_, fun hn => absurd hattr hn, rfl⟩
    · rw [if_neg hattr]
      exact ⟨_, fun _ _ => rfl, rfl⟩

theorem findIn_mem {es : List (DirSlot × Entry)} {f : DirFound}
    (h : (findIn component target st es).1 = some f) :
    ∃ e, (f.slot, e) ∈ es := by
  induction es generalizing st with
  | nil => cases h
  | cons x es ih =>
    obtain ⟨slot, e⟩ := x
    have hrest : ∀ st', (findIn component target st' es).1 = some f →
        ∃ e', (f.slot, e') ∈ (slot, e) :: es := by
      intro st' h'
      obtain ⟨e', he'⟩ := ih h'
      exact ⟨e', List.mem_cons_of_mem _ he'⟩
    unfold findIn at h
    split_ifs at h
    · exact hrest _ h
    · exact hrest _ h
    · exact hrest _ h
    · obtain rfl := Option.some.inj h
      exact ⟨e, List.mem_cons_self⟩
    · exact hrest _ h

end found

-- ==== the claim

/-- The lookup of a component finds the slot, with what was written into
it. -/
def FoundAgain (dir : Nat) (component : List UInt8) (slot : DirSlot)
    (info : DirInfo) (s : State) : Prop :=
  ∃ found s', dirFindEntryByComponent dir component s
      = (some (some found), s') ∧ found.slot = slot ∧ found.info = info

/-- When a new name is found again: the walks can read it and do not
skip its entry, and nothing in front of its place answers to it. -/
structure Findable (L : Layout) (v : Vol) (l : List Nat)
    (component : List UInt8) (attr : UInt8) : Prop where
  readable : Readable component
  visible : attr &&& attrVolumeId = 0
  unclaimed : lookupIn component
    (entriesInFront L v (lfnCountOf component + 1) l) = none

section again

variable {s s' : State} {dir first size : Nat} {l : List Nat}
  {component : List UInt8} {attr : UInt8} {slot : DirSlot}

theorem Vol.dirEntries_nodup {L : Layout} {v : Vol} (h : l.Nodup) :
    ((v.dirEntries L l).map Prod.fst).Nodup := by
  have heq : (v.dirEntries L l).map Prod.fst
      = l.flatMap fun c => (List.range' 0 L.entriesPerCluster).map
          (DirSlot.mk c) := by
    unfold Vol.dirEntries Vol.clusterEntries
    rw [List.map_flatMap]
    simp only [List.map_map]
    rfl
  rw [heq, List.nodup_flatMap]
  constructor
  · intro c _
    apply List.Nodup.map
    · intro i j hij
      exact (DirSlot.mk.injEq _ _ _ _ ▸ hij : c = c ∧ i = j).2
    · exact List.nodup_range'
  · apply List.Pairwise.imp _ h
    intro c d hne slot hc hd
    obtain ⟨i, -, rfl⟩ := List.mem_map.mp hc
    obtain ⟨j, -, hj⟩ := List.mem_map.mp hd
    exact hne (congrArg DirSlot.cluster hj).symm

theorem Vol.dirEntries_others {v : Vol} {L : Layout}
    {front back : List (DirSlot × Entry)} {es : List Entry} {e : Entry}
    {c i : Nat} (hnodup : l.Nodup)
    (h : v.dirEntries L l = front ++ slotsFrom c i (es ++ [e]) ++ back) :
    ∀ x ∈ front ++ back, x.1 ≠ ⟨c, i + es.length⟩ := by
  have hn := v.dirEntries_nodup (L := L) hnodup
  rw [h, slotsFrom_append, List.append_assoc, List.append_assoc] at hn
  simp only [slotsFrom, List.map_append, List.map_cons,
    List.singleton_append] at hn
  intro x hx he
  obtain ⟨-, hn1, hd⟩ := List.nodup_append.mp hn
  obtain ⟨-, hn2, -⟩ := List.nodup_append.mp hn1
  rcases List.mem_append.mp hx with hx | hx
  · refine hd x.1 (List.mem_map_of_mem hx) ⟨c, i + es.length⟩ ?_ he
    exact List.mem_append_right _ List.mem_cons_self
  · refine (List.nodup_cons.mp hn2).1 ?_
    rw [← he]
    exact List.mem_map_of_mem hx

private theorem name_ne_nil
    (hrun : writeNamedDirEntry dir component attr first size s
      = (some slot, s')) : component ≠ [] := by
  rintro rfl
  cases hrun

theorem writeNamedDirEntry_entered (h : s.Ok)
    (hl : s.vol.Chain s.fat32 dir l)
    (hrun : writeNamedDirEntry dir component attr first size s
      = (some slot, s')) :
    ∃ sfn c i l' gap back more, componentGenerateSfn component = some sfn ∧
      lfnCountOf component ≤ lfnMaxEntries ∧
      slot = ⟨c, i + lfnCountOf component⟩ ∧ s'.Ok ∧
      s'.vol.Chain s'.fat32 dir l' ∧
      (∀ x ∈ gap, x.2.isFree = true) ∧ (∀ x ∈ more, x.2.isFree = true) ∧
      s.vol.dirEntries s.fat32 l
        = entriesInFront s.fat32 s.vol (lfnCountOf component + 1) l
          ++ gap ++ back ∧
      s'.vol.dirEntries s'.fat32 l'
        = entriesInFront s.fat32 s.vol (lfnCountOf component + 1) l
          ++ slotsFrom c i (namedEntries component sfn attr first size)
          ++ (back ++ more) := by
  rcases writeNamedDirEntry_run h hl (name_ne_nil hrun) attr first size with
    ⟨sfn, slot0, v1, s1, hsfn, hmax, hi, hroom, hrun1, hst⟩ | ⟨s1, hrun1, -⟩
  swap
  · cases hrun.symm.trans hrun1
  cases hrun.symm.trans hrun1
  have hlen := namedEntries_length component sfn attr first size
  have hroom0 : RoomFor s.fat32 s.vol v1 l slot0
      (namedEntries component sfn attr first size).length := by
    rw [hlen]
    exact hroom
  have hsplit := hroom0.split h.sound hl (by rw [hlen]; omega)
    namedEntries_tail (by rw [hlen]; omega)
  rw [hlen] at hsplit
  obtain ⟨l', gap, back, more, hl', hgap, hmore, -, hold, hnew⟩ := hsplit
  rw [← hst.vol, ← hst.fat32] at hl'
  rw [← hst.vol] at hnew
  refine ⟨sfn, slot0.cluster, slot0.entryIndex, l', gap, back, more, hsfn,
    hmax, rfl, hst.moves.ok h, hl', hgap, hmore, hold, ?_⟩
  rw [hst.fat32]
  exact hnew

/-- A name that was entered is found again exactly if it is findable. -/
theorem foundAgain_iff (h : s.Ok) (hdir : s.vol.Chain s.fat32 dir l)
    (hstr : ∀ ch ∈ component, ch ≠ 0) (hfirst : first < 2 ^ 32)
    (hsize : size < 2 ^ 32)
    (hrun : writeNamedDirEntry dir component attr first size s
      = (some slot, s')) :
    FoundAgain dir component slot ⟨attr, first, size⟩ s' ↔
      Findable s.fat32 s.vol l component attr := by
  obtain ⟨sfn, c, i, l', gap, back, more, hsfn, hmax, rfl, hok, hl', -, -, -,
    hnew⟩ := writeNamedDirEntry_entered h hdir hrun
  have hinfo : (buildDirEntry sfn attr first size).info
      = ⟨attr, first, size⟩ := by
    unfold Entry.info
    rw [buildDirEntry_attr, buildDirEntry_firstCluster hfirst,
      buildDirEntry_size, Nat.mod_eq_of_lt hsize]
  have hother : ∀ x ∈ entriesInFront s.fat32 s.vol
      (lfnCountOf component + 1) l ++ (back ++ more),
      x.1 ≠ ⟨c, i + lfnCountOf component⟩ := by
    have hx := Vol.dirEntries_others hl'.nodup hnew
    simpa [lfnEntries] using hx
  -- The lookup is a walk over the new listing.
  obtain ⟨s₂, hrun₂, -⟩ := dirFindEntryByComponent_run hok hl' component
  have hagain : FoundAgain dir component ⟨c, i + lfnCountOf component⟩
      ⟨attr, first, size⟩ s' ↔ ∃ found,
        lookupIn component (s'.vol.dirEntries s'.fat32 l') = some found ∧
        found.slot = ⟨c, i + lfnCountOf component⟩ ∧
        found.info = ⟨attr, first, size⟩ := by
    unfold FoundAgain
    rw [hrun₂]
    constructor
    · rintro ⟨found, s₃, he, hf⟩
      exact ⟨found, Option.some.inj (congrArg Prod.fst he), hf⟩
    · rintro ⟨found, he, hf⟩
      exact ⟨found, s₂, by rw [he], hf⟩
  rw [hagain, hnew]
  unfold lookupIn
  rw [List.append_assoc, findIn_append]
  cases hfront : findIn component (componentToSfn component) .init
      (entriesInFront s.fat32 s.vol (lfnCountOf component + 1) l) with
  | mk found st =>
    have hlook : lookupIn component (entriesInFront s.fat32 s.vol
        (lfnCountOf component + 1) l) = found := by
      unfold lookupIn
      rw [hfront]
    cases found with
    | some f =>
      -- Something in front answers.
      constructor
      · rintro ⟨found, he, hslot, -⟩
        obtain rfl := Option.some.inj he
        obtain ⟨e, he⟩ := findIn_mem (congrArg Prod.fst hfront)
        exact absurd hslot (hother _ (List.mem_append_left _ he))
      · intro hf
        rw [hf.unclaimed] at hlook
        cases hlook
    | none =>
      obtain ⟨st', -, hnamed⟩ := findIn_named st c i first size attr
        (back ++ more) hstr hsfn hmax
      simp only [hnamed]
      by_cases hcond : attr &&& attrVolumeId = 0 ∧ Readable component
      · rw [if_pos hcond]
        refine iff_of_true ⟨_, rfl, rfl, hinfo⟩ ?_
        exact ⟨hcond.2, hcond.1, hlook⟩
      · rw [if_neg hcond]
        constructor
        · rintro ⟨found, he, hslot, -⟩
          obtain ⟨e, he⟩ := findIn_mem he
          exact absurd hslot (hother _ (List.mem_append_right _ he))
        · intro hf
          exact absurd ⟨hf.visible, hf.readable⟩ hcond

end again

/-- The driver on the smallest disk, just formatted. -/
def freshDisk : State := smallest (freshVol smallestLayout)

theorem freshDisk_root :
    freshDisk.Ok ∧ freshDisk.vol.Chain freshDisk.fat32 2 [2] := by
  have h := freshVol_holds
  exact ⟨h.ok, h.tree.chain_of_head? (o := .root) rfl⟩

/-- The name "é", two bytes in UTF-8, is entered and not found again. -/
theorem freshDisk_loses_name :
    ∃ s', writeNamedDirEntry 2 [0xC3, 0xA9] attrArchive 0 0 freshDisk
        = (some ⟨2, 3⟩, s') ∧
      ¬ FoundAgain 2 [0xC3, 0xA9] ⟨2, 3⟩ ⟨attrArchive, 0, 0⟩ s' := by
  have hrun : writeNamedDirEntry 2 [0xC3, 0xA9] attrArchive 0 0 freshDisk
      = (some ⟨2, 3⟩,
        (writeNamedDirEntry 2 [0xC3, 0xA9] attrArchive 0 0 freshDisk).2) :=
    Prod.ext (by decide +kernel) rfl
  have hfind : (dirFindEntryByComponent 2 [0xC3, 0xA9]
      (writeNamedDirEntry 2 [0xC3, 0xA9] attrArchive 0 0 freshDisk).2).1
      = some none := by
    decide +kernel
  refine ⟨_, hrun, fun hf => ?_⟩
  obtain ⟨found, s', hfound, -⟩ := hf
  rw [hfound] at hfind
  cases hfind

/-- The name "note.text" is entered and found again. -/
theorem foundAgain_iff_note :
    ∃ s', writeNamedDirEntry 2 (txt "note.text") attrArchive 0 0 freshDisk
        = (some ⟨2, 3⟩, s') ∧
      (FoundAgain 2 (txt "note.text") ⟨2, 3⟩ ⟨attrArchive, 0, 0⟩ s' ↔
        Findable freshDisk.fat32 freshDisk.vol [2] (txt "note.text")
          attrArchive) := by
  obtain ⟨hok, hroot⟩ := freshDisk_root
  have hrun : writeNamedDirEntry 2 (txt "note.text") attrArchive 0 0 freshDisk
      = (some ⟨2, 3⟩, (writeNamedDirEntry 2 (txt "note.text") attrArchive 0 0
          freshDisk).2) :=
    Prod.ext (by decide +kernel) rfl
  exact ⟨_, hrun,
    foundAgain_iff hok hroot (by decide) (by decide) (by decide) hrun⟩

end Clks.Disk
