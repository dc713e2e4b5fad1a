/-
The files of a volume: what the driver's operations are about.

# The abstract view

A file is a live directory entry with its content (`Vol.IsFile`): the
volume is a map from slots to byte lists, and the operations update it
at one slot. Which slot a path means is `resolvePath`, a function of the
volume; reading a path is reading the file in that slot
(`readAll_run`).
-/
import Clks.Disk.Proofs.FileChain
import Clks.Disk.Proofs.Lookup

namespace Clks.Disk

open Bytes Linked

-- ==== consistency

/-- The volume of the state is consistent, with this ghost. -/
structure State.Holds (s : State) (G : Ghost) : Prop where
  ok : s.Ok
  tree : Tree s.fat32 s.vol.fat s.vol.kind G
  idle : G.own .pending = []

/-- The volume of the state is consistent. -/
def State.Consistent (s : State) : Prop := ∃ G, s.Holds G

-- ==== files

/-- The slot holds a file of this size and content on these clusters. -/
def Vol.FileOn (L : Layout) (v : Vol) (slot : DirSlot) (l : List Nat)
    (size : Nat) (bytes : List UInt8) : Prop :=
  ∃ first, Live L v.fat v.kind slot false first size ∧
    l = v.clustersOf L first ∧ bytes = v.content L l size

/-- The slot holds a file with this content. -/
def Vol.IsFile (L : Layout) (v : Vol) (slot : DirSlot)
    (bytes : List UInt8) : Prop :=
  ∃ l size, v.FileOn L slot l size bytes

/-- The entry that a path names, or the directory it would be entered
in. -/
def resolvePath (e : Env) (v : Vol) (path : List UInt8) :
    Option PathLookup :=
  match pathToRelative e path with
  | none => none
  | some relative =>
    if relative = [] then none
    else v.resolve e.fat32 (relative.splitOn slash) e.fat32.rootCluster

theorem pathToRelative_some {e : Env} {path relative : List UInt8}
    (h : pathToRelative e path = some relative) :
    ∃ cs, relative = Path.join cs ∧ (∀ c ∈ cs, Path.Component c) ∧
      (Path.join cs).length < pathMax := by
  -- Everything but the empty path comes out of a normalisation.
  have hnorm : ∀ p, Path.normalizeRelative p pathMax = some relative →
      ∃ cs, relative = Path.join cs ∧ (∀ c ∈ cs, Path.Component c) ∧
        (Path.join cs).length < pathMax := by
    intro p hp
    rw [Path.normalizeRelative_eq (by decide)] at hp
    split_ifs at hp with hc
    cases hp
    exact ⟨_, rfl, fun c hcm => Path.component_of_components hc.2.1 hcm,
      hc.2.2⟩
  have hnil : relative = [] →
      ∃ cs, relative = Path.join cs ∧ (∀ c ∈ cs, Path.Component c) ∧
        (Path.join cs).length < pathMax := by
    rintro rfl
    exact ⟨[], rfl, by simp, by decide⟩
  unfold pathToRelative at h
  cases hp : Path.normalizeAbsolute path pathMax with
  | none =>
    rw [hp] at h
    split_ifs at h
  | some normalized =>
    rw [hp] at h
    dsimp only at h
    split_ifs at h
    · exact hnil (Option.some.inj h).symm
    · exact hnorm _ h
    · exact hnil (Option.some.inj h).symm
    · exact hnorm _ h

section tree

variable {L : Layout} {total : Nat} {v v' : Vol} {G : Ghost}

theorem Tree.clustersOf_eq (hs : L.Sound total)
    (h : Tree L v.fat v.kind G) {slot : DirSlot} {b : Bool}
    {first size : Nat} (hin : G.InDirs L slot)
    (hk : v.kind slot = .node b first size) :
    v.clustersOf L first = G.own (.entry slot) := by
  have hf := h.first slot b first size hin hk
  rcases h.owned.chain (.entry slot) with he | ⟨c, hc⟩
  · have hz : L.clusterValid 0 = false := by
      simp [Layout.clusterValid]
    rw [he, List.headD_nil] at hf
    rw [he, hf, Vol.clustersOf]
    cases L.clusterCount with
    | zero => rfl
    | succ n => rw [Vol.chainFrom, if_neg (by simp [hz])]
  · obtain ⟨t, ht⟩ := hc.eq_cons
    rw [ht, List.headD_cons] at hf
    rw [hf]
    exact Vol.Chain.clustersOf hs hc

theorem Tree.fileOn_iff (hs : L.Sound total) (h : Tree L v.fat v.kind G)
    {slot : DirSlot} {l : List Nat} {size : Nat} {bytes : List UInt8} :
    v.FileOn L slot l size bytes ↔ G.InDirs L slot ∧
      l = G.own (.entry slot) ∧
      ∃ first, v.kind slot = .node false first size ∧
        bytes = v.content L l size := by
  constructor
  · rintro ⟨first, hl, rfl, rfl⟩
    obtain ⟨hin, hk⟩ := h.live_iff.mp hl
    exact ⟨hin, h.clustersOf_eq hs hin hk, first, hk, rfl⟩
  · rintro ⟨hin, rfl, first, hk, rfl⟩
    exact ⟨first, h.live_iff.mpr ⟨hin, hk⟩,
      (h.clustersOf_eq hs hin hk).symm, rfl⟩

theorem Tree.isFile_iff (hs : L.Sound total) (h : Tree L v.fat v.kind G)
    {slot : DirSlot} {bytes : List UInt8} :
    v.IsFile L slot bytes ↔ G.InDirs L slot ∧
      ∃ first size, v.kind slot = .node false first size ∧
        bytes = v.content L (G.own (.entry slot)) size := by
  constructor
  · rintro ⟨l, size, hf⟩
    obtain ⟨hin, rfl, first, hk, hb⟩ := (h.fileOn_iff hs).mp hf
    exact ⟨hin, first, size, hk, hb⟩
  · rintro ⟨hin, first, size, hk, hb⟩
    exact ⟨_, size, (h.fileOn_iff hs).mpr ⟨hin, rfl, first, hk, hb⟩⟩

theorem Vol.FileOn.unique {slot : DirSlot} {l l' : List Nat} {z z' : Nat}
    {b b' : List UInt8} (h : v.FileOn L slot l z b)
    (h' : v.FileOn L slot l' z' b') : l = l' ∧ z = z' ∧ b = b' := by
  obtain ⟨f, ⟨_, _, _, _, _, _, hk⟩, rfl, rfl⟩ := h
  obtain ⟨f', ⟨_, _, _, _, _, _, hk'⟩, rfl, rfl⟩ := h'
  rw [hk] at hk'
  cases hk'
  exact ⟨rfl, rfl, rfl⟩

theorem Vol.IsFile.unique {slot : DirSlot} {b b' : List UInt8}
    (h : v.IsFile L slot b) (h' : v.IsFile L slot b') : b = b' := by
  obtain ⟨_, _, h⟩ := h
  obtain ⟨_, _, h'⟩ := h'
  exact (h.unique h').2.2

theorem Tree.file_not_dir (h : Tree L v.fat v.kind G) {slot : DirSlot}
    {first size : Nat} (hk : v.kind slot = .node false first size) :
    ¬ G.dir (.entry slot) := by
  intro hd
  obtain ⟨_, f, z, hk'⟩ := (h.dir_iff slot).mp hd
  rw [hk] at hk'
  cases hk'

end tree

-- ==== path lookups

section lookups

variable {s : State} {G : Ghost}

theorem relativeOf_run (h : s.Ok) (path : List UInt8) :
    relativeOf path s = (pathToRelative s.toEnv path, s) := by
  rw [relativeOf, Cmd.get_bind_apply]
  cases pathToRelative s.toEnv path with
  | none => rfl
  | some relative =>
    simp only []
    rw [Cmd.require_bind (by rw [h.ready, h.formatted]; rfl),
      Cmd.pure_apply]

theorem lookupPath_run (h : s.Holds G) {path relative : List UInt8}
    (hrel : pathToRelative s.toEnv path = some relative)
    (hne : relative ≠ []) :
    ∃ s', lookupRelativePath relative s
        = (resolvePath s.toEnv s.vol path, s') ∧
      Reads (G.dirSectors s.fat32) s s' := by
  obtain ⟨cs, rfl, hcs, hlen⟩ := pathToRelative_some hrel
  have hcn : cs ≠ [] := by
    rintro rfl
    exact hne rfl
  obtain ⟨s', hrun, hr⟩ := lookupRelativePath_run h.ok h.tree hcn hcs hlen
  refine ⟨s', ?_, hr⟩
  rw [hrun]
  simp only [resolvePath, hrel, if_neg hne]
  rw [Path.splitOn_join hcn fun c hc => (hcs c hc).no_slash]

theorem State.Holds.resolvePath_some (h : s.Holds G) {path : List UInt8}
    {lookup : PathLookup}
    (hres : resolvePath s.toEnv s.vol path = some lookup) :
    ∃ relative pre c o, pathToRelative s.toEnv path = some relative ∧
      relative ≠ [] ∧ relative = Path.join (pre ++ [c]) ∧
      (∀ x ∈ pre ++ [c], Path.Component x) ∧
      relativeBasename relative = c ∧
      s.vol.walk s.fat32 pre s.fat32.rootCluster
        = some lookup.parentCluster ∧
      G.dir o ∧ (G.own o).head? = some lookup.parentCluster ∧
      s.vol.resolveLast s.fat32 c lookup.parentCluster = some lookup := by
  unfold resolvePath at hres
  cases hrel : pathToRelative s.toEnv path with
  | none => rw [hrel] at hres; cases hres
  | some relative =>
    rw [hrel] at hres
    simp only [] at hres
    split_ifs at hres with hne
    obtain ⟨cs, rfl, hcs, -⟩ := pathToRelative_some hrel
    have hcn : cs ≠ [] := by
      rintro rfl
      exact hne rfl
    rw [Path.splitOn_join hcn fun c hc => (hcs c hc).no_slash] at hres
    obtain ⟨pre, c, rfl⟩ : ∃ pre c, cs = pre ++ [c] :=
      ⟨_, _, (List.dropLast_append_getLast hcn).symm⟩
    rw [Vol.resolve_snoc, Option.bind_eq_some_iff] at hres
    obtain ⟨d, hw, hlast⟩ := hres
    have hd : lookup.parentCluster = d := by
      unfold Vol.resolveLast at hlast
      split at hlast
      · cases hlast
        rfl
      · simp only [Option.map_eq_some_iff] at hlast
        obtain ⟨_, _, rfl⟩ := hlast
        rfl
    subst hd
    obtain ⟨o, ho, hh, -⟩ := h.tree.walk_some h.ok.sound
      h.tree.root_dir h.tree.root_head hw
    exact ⟨_, pre, c, o, rfl, hne, rfl, hcs,
      relativeBasename_join (hcs c (by simp)).no_slash, hw, ho, hh, hlast⟩

theorem State.Holds.resolvePath_found (h : s.Holds G) {path : List UInt8}
    {lookup : PathLookup}
    (hres : resolvePath s.toEnv s.vol path = some lookup)
    (hf : lookup.found = true) :
    G.InDirs s.fat32 lookup.slot ∧
      lookup.info = (s.vol.entry lookup.slot).info ∧
      lookup.sfn = (s.vol.entry lookup.slot).name ∧
      s.vol.kind lookup.slot = .node (isDirectoryAttr lookup.info.attr)
        lookup.info.firstCluster lookup.info.size := by
  obtain ⟨_, _, c, o, -, -, -, -, -, -, ho, hh, hlast⟩ :=
    h.resolvePath_some hres
  unfold Vol.resolveLast at hlast
  rw [h.tree.listing_eq h.ok.sound hh] at hlast
  cases hl : lookupIn c (s.vol.dirEntries s.fat32 (G.own o)) with
  | none =>
    rw [hl] at hlast
    simp only [Option.map_eq_some_iff] at hlast
    obtain ⟨_, _, he⟩ := hlast
    rw [← he] at hf
    cases hf
  | some f =>
    rw [hl] at hlast
    have he := Option.some.inj hlast
    have hslot : f.slot = lookup.slot := congrArg PathLookup.slot he
    have hinfo : f.info = lookup.info := congrArg PathLookup.info he
    have hsfn : f.sfn = lookup.sfn := congrArg PathLookup.sfn he
    have hsome := h.tree.lookupIn_some h.ok.sound ho hl
    rw [hslot, hinfo, hsfn] at hsome
    obtain ⟨hc, hi, hrest⟩ := hsome
    exact ⟨⟨⟨o, ho, hc⟩, hi⟩, hrest⟩

/-- The file that a path names. -/
def fileAt (e : Env) (v : Vol) (path : List UInt8) : Option (List UInt8) :=
  (resolvePath e v path).bind fun lookup =>
    if lookup.found && !isDirectoryAttr lookup.info.attr then
      some (v.content e.fat32
        (v.clustersOf e.fat32 lookup.info.firstCluster) lookup.info.size)
    else none

theorem readAll_run (h : s.Holds G) (path : List UInt8) :
    ∃ s' P, readAll path s = (fileAt s.toEnv s.vol path, s') ∧
      Reads P s s' := by
  rw [readAll]
  unfold fileAt resolvePath
  cases hrel : pathToRelative s.toEnv path with
  | none =>
    have hrun := relativeOf_run h.ok path
    rw [hrel] at hrun
    exact ⟨s, ∅, Cmd.bind_err hrun, Reads.refl ∅ s⟩
  | some relative =>
    have hrun := relativeOf_run h.ok path
    rw [hrel] at hrun
    rw [Cmd.bind_ok hrun]
    by_cases hne : relative = []
    · refine ⟨s, ∅, ?_, Reads.refl ∅ s⟩
      rw [Cmd.require_bind_err (by simp [hne])]
      simp [hne]
    obtain ⟨s1, hrun1, hr1⟩ := lookupPath_run h hrel hne
    have hres : resolvePath s.toEnv s.vol path
        = s.vol.resolve s.fat32 (relative.splitOn slash)
          s.fat32.rootCluster := by
      simp only [resolvePath, hrel, if_neg hne]
    rw [Cmd.require_bind (by simpa using hne)]
    simp only [if_neg hne]
    rw [← hres]
    cases hlook : resolvePath s.toEnv s.vol path with
    | none =>
      rw [hlook] at hrun1
      exact ⟨s1, _, Cmd.bind_err hrun1, hr1⟩
    | some lookup =>
      rw [hlook] at hrun1
      rw [Cmd.bind_ok hrun1, Option.bind_some]
      by_cases hf : lookup.found = true
      swap
      · rw [Bool.not_eq_true] at hf
        refine ⟨s1, _, ?_, hr1⟩
        rw [Cmd.require_bind_err hf, if_neg (by simp [hf])]
      rw [Cmd.require_bind hf]
      by_cases hd : isDirectoryAttr lookup.info.attr = true
      · refine ⟨s1, _, ?_, hr1⟩
        rw [Cmd.require_bind_err (by rw [hd]; rfl),
          if_neg (by simp [hd])]
      rw [Bool.not_eq_true] at hd
      have hcond : (lookup.found && !isDirectoryAttr lookup.info.attr)
          = true := by rw [hf, hd]; rfl
      rw [Cmd.require_bind (by rw [hd]; rfl), if_pos hcond]
      obtain ⟨hin, -, -, hk⟩ := h.resolvePath_found hlook hf
      rw [hd] at hk
      by_cases hz : lookup.info.size = 0
      · refine ⟨s1, _, ?_, hr1⟩
        rw [if_pos hz, hz, Cmd.pure_apply, Vol.content, List.take_zero]
      · rw [if_neg hz]
        have hcs := h.ok.sound.clusterSize_pos
        have hlen := h.tree.file_len _ _ _ hin hk
        have hcl := h.tree.clustersOf_eq h.ok.sound hin hk
        have hfirst := h.tree.first _ _ _ _ hin hk
        -- A file that is not empty has a chain of the right length.
        have hne' : G.own (.entry lookup.slot) ≠ [] := by
          intro he
          rw [he, List.length_nil] at hlen
          exact hz ((Layout.clustersFor_eq_zero hcs).mp hlen.symm)
        obtain ⟨c, t, ht⟩ := List.exists_cons_of_ne_nil hne'
        have hc : lookup.info.firstCluster = c := by
          rw [hfirst, ht, List.headD_cons]
        have hchain := h.tree.owned.chain_of_head ht
        have hr1ok := hr1.ok h.ok
        obtain ⟨s2, hrun2, hr2⟩ := readFileChain_run hr1ok
          lookup.info.size (c := c) (l := G.own (.entry lookup.slot))
          (by rw [hr1.vol, hr1.fat32]; exact hchain)
          (by
            rw [hr1.fat32, hlen]
            exact Layout.le_clustersFor hcs _)
        rw [hr1.vol, hr1.fat32] at hrun2
        refine ⟨s2, Set.univ, ?_, (hr1.mono (Set.subset_univ _)).trans
          (hr2.mono (Set.subset_univ _))⟩
        rw [hcl, hc, hrun2]

theorem State.Holds.readAll_eq (h : s.Holds G) (path : List UInt8) :
    (readAll path s).1 = fileAt s.toEnv s.vol path := by
  obtain ⟨_, _, hrun, -⟩ := readAll_run h path
  rw [hrun]

theorem State.Holds.fileAt_iff (h : s.Holds G) {path bytes : List UInt8} :
    fileAt s.toEnv s.vol path = some bytes ↔
      ∃ lookup, resolvePath s.toEnv s.vol path = some lookup ∧
        lookup.found = true ∧
        s.vol.IsFile s.fat32 lookup.slot bytes := by
  unfold fileAt
  rw [Option.bind_eq_some_iff]
  refine exists_congr fun lookup => and_congr_right fun hres => ?_
  by_cases hf : lookup.found = true
  swap
  · simp [hf]
  obtain ⟨hin, -, -, hk⟩ := h.resolvePath_found hres hf
  rw [h.tree.isFile_iff h.ok.sound, ← h.tree.clustersOf_eq h.ok.sound hin hk]
  by_cases hd : isDirectoryAttr lookup.info.attr = true
  · rw [hd] at hk
    simp [hf, hd, hk]
  · rw [Bool.not_eq_true] at hd
    rw [hd] at hk
    simp [hf, hd, hk, hin, eq_comm]

end lookups

end Clks.Disk
