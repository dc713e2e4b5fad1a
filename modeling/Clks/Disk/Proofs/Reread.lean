/-
Which paths mean what after an operation.

When an entry is written over under its own name, every path that named
something still names it (`Rewrites.resolvePath`): the walk collects
long names from the entries in front and compares short names, and
neither looks at the attribute, the cluster or the size.
-/
import Clks.Disk.Proofs.Write

namespace Clks.Disk

open Bytes Linked

-- ==== one entry replaced

/-- A list of entries with another entry in one slot. -/
def replaceAt (X : DirSlot) (e : Entry) (es : List (DirSlot × Entry)) :
    List (DirSlot × Entry) :=
  es.map fun p => if p.1 = X then (p.1, e) else p

/-- What a walk found, after another entry was put into one slot. -/
def DirFound.replace (f : DirFound) (X : DirSlot) (e : Entry) : DirFound :=
  if f.slot = X then ⟨f.slot, e.info, e.name⟩ else f

/-- What a path resolved to, after another entry was put into one
slot. -/
def PathLookup.replace (lookup : PathLookup) (X : DirSlot) (e : Entry) :
    PathLookup :=
  if lookup.found = true ∧ lookup.slot = X then
    { lookup with info := e.info, sfn := e.name }
  else lookup

section replaced

variable {X : DirSlot} {e e' : Entry}

theorem Entry.isVisible_iff : e.isVisible = true ↔
    e.isFree = false ∧ e.attr ≠ attrLfn ∧ e.isVolumeId = false := by
  simp [Entry.isVisible, and_assoc]

theorem findIn_visible (hv : e.isVisible = true) (component : List UInt8)
    (target : Option Sfn) (st : LfnState) (slot : DirSlot)
    (es : List (DirSlot × Entry)) :
    findIn component target st ((slot, e) :: es)
      = if entryMatches component target st e = true then
          (some ⟨slot, e.info, e.name⟩, st)
        else findIn component target st.reset es := by
  obtain ⟨h1, h2, h3⟩ := Entry.isVisible_iff.mp hv
  rw [findIn, if_neg (by rw [h1]; decide), if_neg h2,
    if_neg (by rw [h3]; decide)]

theorem findIn_replaceAt {component : List UInt8} {target : Option Sfn}
    (hv : e.isVisible = true) (hv' : e'.isVisible = true)
    (hn : e'.name = e.name) {es : List (DirSlot × Entry)}
    (hes : ∀ p ∈ es, p.1 = X → p.2 = e) (st : LfnState) :
    findIn component target st (replaceAt X e' es)
      = ((findIn component target st es).1.map (·.replace X e'),
        (findIn component target st es).2) := by
  induction es generalizing st with
  | nil => rfl
  | cons p es ih =>
    obtain ⟨slot, x⟩ := p
    have ih := ih fun q hq => hes q (List.mem_cons_of_mem _ hq)
    have hcons : replaceAt X e' ((slot, x) :: es)
        = (if slot = X then (slot, e') else (slot, x))
          :: replaceAt X e' es := rfl
    rw [hcons]
    by_cases hslot : slot = X
    · have hx : x = e := hes (slot, x) List.mem_cons_self hslot
      rw [hx]
      have hmatch : entryMatches component target st e'
          = entryMatches component target st e := by
        simp only [entryMatches, hn]
      rw [if_pos hslot, findIn_visible hv', findIn_visible hv, hmatch]
      split_ifs with hm
      · simp [DirFound.replace, hslot]
      · exact ih _
    · rw [if_neg hslot, findIn, findIn]
      split_ifs
      · exact ih _
      · exact ih _
      · exact ih _
      · simp [DirFound.replace, hslot]
      · exact ih _

theorem lookupIn_replaceAt {component : List UInt8}
    (hv : e.isVisible = true) (hv' : e'.isVisible = true)
    (hn : e'.name = e.name) {es : List (DirSlot × Entry)}
    (hes : ∀ p ∈ es, p.1 = X → p.2 = e) :
    lookupIn component (replaceAt X e' es)
      = (lookupIn component es).map (·.replace X e') := by
  unfold lookupIn
  rw [findIn_replaceAt hv hv' hn hes]

theorem Vol.dirEntries_replaceAt {L : Layout} {v v' : Vol} {l : List Nat}
    (hX : v'.entry X = e')
    (hne : ∀ slot, slot.cluster ∈ l →
      slot.entryIndex < L.entriesPerCluster → slot ≠ X →
      v'.entry slot = v.entry slot) :
    v'.dirEntries L l = replaceAt X e' (v.dirEntries L l) := by
  simp only [Vol.dirEntries, Vol.clusterEntries, replaceAt,
    List.map_flatMap, List.map_map]
  refine List.flatMap_congr fun c hc => List.map_congr_left fun j hj => ?_
  rw [List.mem_range'_1] at hj
  simp only [Function.comp_apply]
  split_ifs with hslot
  · rw [hslot, hX]
  · rw [hne _ hc (by simp only; omega) hslot]

end replaced

-- ==== paths to a file

section paths

variable {s s' : State} {G : Ghost} {X : DirSlot} {l : List Nat} {e : Entry}
  {bytes : List UInt8}

theorem Rewrites.lookupIn (h : s.Holds G) (hr : Rewrites s s' G X l e bytes)
    {first size : Nat} (hk : s.vol.kind X = .node false first size)
    (hv : e.isVisible = true) (hn : e.name = (s.vol.entry X).name)
    {o : Owner} {d : Nat} (ho : G.dir o) (hd : (G.own o).head? = some d)
    (component : List UInt8) :
    Disk.lookupIn component (s'.vol.listing s.fat32 d)
      = (Disk.lookupIn component (s.vol.listing s.fat32 d)).map
        (·.replace X e) := by
  have hs := h.ok.sound
  have hoX : o ≠ .entry X := by
    rintro rfl
    exact h.tree.file_not_dir hk ho
  have hown : (G.setOwn (.entry X) l).own o = G.own o := G.setOwn_ne l hoX
  have ht := hr.holds.tree
  rw [hr.moves.fat32] at ht
  rw [h.tree.listing_eq hs hd, ht.listing_eq hs (o := o) (by rwa [hown]),
    hown, Vol.dirEntries_replaceAt hr.entry fun slot hc hi hne =>
      hr.entries slot ⟨⟨o, ho, hc⟩, hi⟩ hne]
  refine lookupIn_replaceAt (Entry.kind_node hk).1 hv hn fun p hp hpX => ?_
  obtain ⟨slot, x⟩ := p
  obtain rfl : slot = X := hpX
  exact (Vol.mem_dirEntries.mp hp).2.2

theorem Rewrites.walk (h : s.Holds G) (hr : Rewrites s s' G X l e bytes)
    {first size : Nat} (hk : s.vol.kind X = .node false first size)
    (hv : e.isVisible = true) (hn : e.name = (s.vol.entry X).name)
    (hfile : isDirectoryAttr e.attr = false) {o : Owner} {d : Nat}
    (ho : G.dir o) (hd : (G.own o).head? = some d)
    (cs : List (List UInt8)) :
    s'.vol.walk s.fat32 cs d = s.vol.walk s.fat32 cs d := by
  induction cs generalizing o d with
  | nil => rw [Vol.walk, Vol.walk]
  | cons c cs ih =>
    rw [Vol.walk, Vol.walk, hr.lookupIn h hk hv hn ho hd]
    cases hlook : Disk.lookupIn c (s.vol.listing s.fat32 d) with
    | none => rfl
    | some f =>
      rw [h.tree.listing_eq h.ok.sound hd] at hlook
      obtain ⟨hcl, hi, -, -, hkf⟩ := h.tree.lookupIn_some h.ok.sound ho hlook
      simp only [Option.map_some]
      by_cases hfX : f.slot = X
      · have hnd : isDirectoryAttr f.info.attr = false := by
          rw [hfX, hk] at hkf
          exact (Kind.node.inj hkf).1.symm
        have hinfo : (f.replace X e).info = e.info := by
          rw [DirFound.replace, if_pos hfX]
        have hattr : isDirectoryAttr e.info.attr = false := hfile
        rw [hinfo, hnd, hattr, Bool.false_and, Bool.false_and,
          if_neg Bool.false_ne_true, if_neg Bool.false_ne_true]
      · have hrep : f.replace X e = f := if_neg hfX
        rw [hrep]
        split_ifs with hc
        · rw [Bool.and_eq_true] at hc
          rw [hc.1] at hkf
          obtain ⟨hdq, hhead⟩ := h.tree.dir_head ⟨⟨o, ho, hcl⟩, hi⟩ hkf
          exact ih hdq hhead
        · rfl

theorem Rewrites.resolvePath (h : s.Holds G)
    (hr : Rewrites s s' G X l e bytes) {first size : Nat}
    (hk : s.vol.kind X = .node false first size)
    (hv : e.isVisible = true) (hn : e.name = (s.vol.entry X).name)
    (hfile : isDirectoryAttr e.attr = false) (path : List UInt8) :
    Disk.resolvePath s'.toEnv s'.vol path
      = (Disk.resolvePath s.toEnv s.vol path).map (·.replace X e) := by
  rw [hr.moves.env]
  unfold Disk.resolvePath
  cases hrel : pathToRelative s.toEnv path with
  | none => rfl
  | some relative =>
    simp only []
    split_ifs with hne
    · rfl
    obtain ⟨cs, rfl, hcs, -⟩ := pathToRelative_some hrel
    have hcn : cs ≠ [] := by
      rintro rfl
      exact hne rfl
    rw [Path.splitOn_join hcn fun c hc => (hcs c hc).no_slash]
    obtain ⟨pre, c, rfl⟩ : ∃ pre c, cs = pre ++ [c] :=
      ⟨_, _, (List.dropLast_append_getLast hcn).symm⟩
    rw [Vol.resolve_snoc, Vol.resolve_snoc,
      hr.walk h hk hv hn hfile h.tree.root_dir h.tree.root_head]
    cases hw : s.vol.walk s.fat32 pre s.fat32.rootCluster with
    | none => rfl
    | some d =>
      obtain ⟨o, ho, hh, -⟩ := h.tree.walk_some h.ok.sound h.tree.root_dir
        h.tree.root_head hw
      simp only [Option.bind_some, Vol.resolveLast,
        hr.lookupIn h hk hv hn ho hh]
      cases Disk.lookupIn c (s.vol.listing s.fat32 d) with
      | none =>
        simp only [Option.map_none, Option.map_map]
        refine congrArg (Option.map · _) (funext fun sfn => ?_)
        simp [PathLookup.replace]
      | some f =>
        simp only [Option.map_some, Option.some.injEq, PathLookup.replace,
          DirFound.replace, true_and]
        split_ifs <;> rfl

theorem Rewrites.path_found (h : s.Holds G) {path : List UInt8}
    {lookup : PathLookup} {c size : Nat}
    (hres : Disk.resolvePath s.toEnv s.vol path = some lookup)
    (hf : lookup.found = true)
    (hd : isDirectoryAttr lookup.info.attr = false)
    (hr : Rewrites s s' G lookup.slot l
      (buildDirEntry lookup.sfn attrArchive c size) bytes) :
    ∃ lookup', Disk.resolvePath s'.toEnv s'.vol path = some lookup' ∧
      lookup'.found = true ∧ lookup'.slot = lookup.slot := by
  obtain ⟨-, -, hsfn, hk⟩ := h.resolvePath_found hres hf
  rw [hd] at hk
  have hname : (buildDirEntry lookup.sfn attrArchive c size).name
      = (s.vol.entry lookup.slot).name := by
    rw [hsfn]
    exact buildDirEntry_name (by simp [Entry.name])
  -- The entry that was written holds a file, so it is visible.
  have hvis : (buildDirEntry lookup.sfn attrArchive c size).isVisible
      = true := by
    have hs' := hr.holds.ok.sound
    have hfile := (hr.updates.file bytes).mpr rfl
    rw [← hr.moves.fat32, hr.holds.tree.isFile_iff hs'] at hfile
    obtain ⟨-, f, z, hkind, -⟩ := hfile
    rw [Vol.kind, hr.entry] at hkind
    exact (Entry.kind_node hkind).1
  have hattr : isDirectoryAttr
      (buildDirEntry lookup.sfn attrArchive c size).attr = false := by
    rw [buildDirEntry_attr]
    decide
  have hpath := hr.resolvePath h hk hvis hname hattr path
  rw [hres, Option.map_some] at hpath
  refine ⟨_, hpath, ?_, ?_⟩
  · simp only [PathLookup.replace]
    split_ifs <;> exact hf
  · simp only [PathLookup.replace]
    split_ifs <;> rfl

theorem Rewrites.readAll_eq (h : s.Holds G) {path : List UInt8}
    {lookup : PathLookup} {c size : Nat}
    (hres : Disk.resolvePath s.toEnv s.vol path = some lookup)
    (hf : lookup.found = true)
    (hd : isDirectoryAttr lookup.info.attr = false)
    (hr : Rewrites s s' G lookup.slot l
      (buildDirEntry lookup.sfn attrArchive c size) bytes) :
    (readAll path s').1 = some bytes := by
  obtain ⟨lookup', hres', hf', hslot⟩ := hr.path_found h hres hf hd
  rw [hr.holds.readAll_eq]
  refine hr.holds.fileAt_iff.mpr ⟨lookup', hres', hf', ?_⟩
  rw [hslot, hr.moves.fat32]
  exact (hr.updates.file bytes).mpr rfl

end paths

end Clks.Disk
