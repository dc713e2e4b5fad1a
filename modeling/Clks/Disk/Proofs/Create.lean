/-
What a new name does to the directories of a volume.

The directory it was entered in has the new entries among its others,
every other directory has the entries it had. A path therefore walks
as before to the directory of its last component, and finds the new
entry there exactly if the component is readable
(`Enters.resolve_self`).
-/
import Clks.Disk.Naming
import Clks.Disk.Proofs.Reread

namespace Clks.Disk

open Bytes Linked

set_option maxRecDepth 2000

-- ==== walks past new entries

section walks

variable {component : List UInt8} {target : Option Sfn} {st st' : LfnState}
  {es back : List (DirSlot × Entry)}

theorem findIn_inactive (h : st.active = false) (h' : st'.active = false) :
    (findIn component target st es).1 = (findIn component target st' es).1 := by
  induction es generalizing st st' with
  | nil => rfl
  | cons x es ih =>
    obtain ⟨slot, e⟩ := x
    have hstep : st.step e = st'.step e ∨
        (st.step e).active = false ∧ (st'.step e).active = false := by
      unfold LfnState.step
      by_cases hmark : e 0 &&& 0x40 ≠ 0
      · simp only [if_pos hmark]
        by_cases hord : (e 0 &&& 0x1F).toNat = 0
        · simp only [if_pos hord]
          exact .inr ⟨rfl, rfl⟩
        · simp only [if_neg hord]
          exact .inl trivial
      · simp only [if_neg hmark, h, h', Bool.not_false, Bool.true_or, if_true]
        exact .inr ⟨rfl, rfl⟩
    have hmatch : entryMatches component target st e
        = entryMatches component target st' e := by
      unfold entryMatches
      rw [h, h']
      rfl
    unfold findIn
    rw [hmatch]
    split_ifs
    · exact ih rfl rfl
    · rcases hstep with he | ⟨h1, h2⟩
      · rw [he]
      · exact ih h1 h2
    · exact ih rfl rfl
    · rfl
    · exact ih rfl rfl

theorem findIn_free (hfree : ∀ x ∈ es, x.2.isFree = true) :
    findIn component target st (es ++ back)
      = findIn component target (if es = [] then st else st.reset) back := by
  induction es generalizing st with
  | nil => rfl
  | cons x es ih =>
    obtain ⟨slot, e⟩ := x
    have he := hfree _ List.mem_cons_self
    rw [List.cons_append, findIn, if_pos he,
      ih fun y hy => hfree y (List.mem_cons_of_mem _ hy)]
    simp only [List.cons_ne_nil, if_false]
    split_ifs
    · rfl
    · rfl

theorem lookupIn_created {front gap more : List (DirSlot × Entry)}
    {c i first size : Nat} {sfn : Sfn} {attr : UInt8}
    (hz : ∀ ch ∈ component, ch ≠ 0)
    (hsfn : componentGenerateSfn component = some sfn)
    (hmax : lfnCountOf component ≤ lfnMaxEntries)
    (hattr : attr &&& attrVolumeId = 0)
    (hgap : ∀ x ∈ gap, x.2.isFree = true)
    (hmore : ∀ x ∈ more, x.2.isFree = true) (hnil : gap = [] → back = [])
    (h : lookupIn component (front ++ gap ++ back) = none) :
    lookupIn component (front
        ++ slotsFrom c i (namedEntries component sfn attr first size)
        ++ (back ++ more))
      = if Readable component then
          some
            { slot := ⟨c, i + lfnCountOf component⟩
              info := (buildDirEntry sfn attr first size).info
              sfn := sfn }
        else none := by
  unfold lookupIn at h ⊢
  rw [List.append_assoc, findIn_append] at h ⊢
  cases hfront : findIn component (componentToSfn component) .init front with
  | mk found st =>
    rw [hfront] at h
    cases found with
    | some f => cases h
    | none =>
      simp only [] at h ⊢
      obtain ⟨st', hinactive, hnamed⟩ := findIn_named st c i first size
        attr (back ++ more) hz hsfn hmax
      rw [hnamed]
      by_cases hr : Readable component
      · rw [if_pos ⟨hattr, hr⟩, if_pos hr]
      · rw [if_neg fun hc => hr hc.2, if_neg hr]
        have hst' := hinactive (by rintro rfl; exact absurd hattr (by decide)) hr
        -- What is behind the name was behind free slots, or is free.
        rw [findIn_append]
        have hback : (findIn component (componentToSfn component) st' back).1
            = none := by
          by_cases hg : gap = []
          · rw [hnil hg]
            rfl
          · rw [findIn_free hgap, if_neg hg] at h
            rw [← h]
            exact findIn_inactive hst' rfl
        cases hb : findIn component (componentToSfn component) st' back with
        | mk found st2 =>
          rw [hb] at hback
          obtain rfl : found = none := hback
          have hend : findIn component (componentToSfn component) st2
              (more ++ []) = _ := findIn_free hmore
          rw [List.append_nil] at hend
          simp only [hend]
          rfl

end walks

-- ==== listings with a new name

section enters

variable {s s' : State} {G : Ghost} {o : Owner} {v v1 : Vol} {slot : DirSlot}
  {component : List UInt8} {sfn : Sfn} {attr : UInt8} {l : List Nat}
  {size : Nat}

theorem Enters.vol_eq
    (he : Enters s s' G o v v1 slot component sfn attr l size) :
    s'.vol = v1.setEntries slot.cluster slot.entryIndex
      (namedEntries component sfn attr (l.headD 0) size) := by
  rw [he.vol, Vol.setEntries_named]

theorem Enters.listing_other (h : s.Holds G)
    (he : Enters s s' G o v v1 slot component sfn attr l size)
    (ho : G.dir o) {q : Owner} {d : Nat} (hq : G.dir q) (hne : q ≠ o)
    (hd : (G.own q).head? = some d) :
    s'.vol.listing s.fat32 d = s.vol.listing s.fat32 d := by
  have hs := h.ok.sound
  have hqp : q ≠ .pending := by
    rintro rfl
    exact h.tree.pending_not_dir hq
  have hop : o ≠ .pending := by
    rintro rfl
    exact h.tree.pending_not_dir ho
  have hroom := he.room
  rw [← G.setOwn_ne l hop] at hroom
  obtain ⟨G1, ht1, -, -, hown, -, hcl, -, hdata, -⟩ :=
    he.tree.withLfn hs ho hroom
  have hsame : G1.own q = G.own q := (hown q hne).trans (G.setOwn_ne l hqp)
  -- The directory's chain is the same, and the new entries are not in it.
  have hchain : s'.vol.Chain s.fat32 d (G.own q) := by
    have hc := ht1.chain_of_head? (o := q) (c := d) (by rwa [hsame])
    rw [hsame] at hc
    rw [he.vol]
    exact hc
  rw [h.tree.listing_eq hs hd, Vol.listing, hchain.clustersOf hs]
  apply Vol.dirEntries_congr
  intro c hc
  have hcs : c ≠ slot.cluster := by
    rintro rfl
    rw [← hsame] at hc
    exact hne (ht1.dir_unique hc hcl)
  have hcn : c ≠ (nameSlot slot component).cluster := hcs
  rw [he.vol, Vol.setEntry_data_ne hcn, hdata c hcs, he.before q c hc]

theorem Enters.listing_self (h : s.Holds G)
    (he : Enters s s' G o v v1 slot component sfn attr l size)
    (ho : G.dir o) {d : Nat} (hd : (G.own o).head? = some d) :
    ∃ front gap back more, (∀ x ∈ gap, x.2.isFree = true) ∧
      (∀ x ∈ more, x.2.isFree = true) ∧ (gap = [] → back = []) ∧
      s.vol.listing s.fat32 d = front ++ gap ++ back ∧
      s'.vol.listing s.fat32 d = front
        ++ slotsFrom slot.cluster slot.entryIndex
          (namedEntries component sfn attr (l.headD 0) size)
        ++ (back ++ more) := by
  have hs := h.ok.sound
  have hop : o ≠ .pending := by
    rintro rfl
    exact h.tree.pending_not_dir ho
  have hchain : v.Chain s.fat32 d (G.own o) := by
    have hc := he.tree.chain_of_head? (o := o) (c := d)
      (by rwa [G.setOwn_ne l hop])
    rwa [G.setOwn_ne l hop] at hc
  have hlen := namedEntries_length component sfn attr (l.headD 0) size
  have hindex := he.index
  have hroom : RoomFor s.fat32 v v1 (G.own o) slot
      (namedEntries component sfn attr (l.headD 0) size).length := by
    rw [hlen]
    exact he.room
  obtain ⟨l', gap, back, more, hl', hgap, hmore, hnil, hold, hnew⟩ :=
    hroom.split hs hchain (by rw [hlen]; omega) namedEntries_tail
      (by rw [hlen]; omega)
  rw [← he.vol_eq] at hl' hnew
  refine ⟨entriesInFront s.fat32 v _ (G.own o), gap, back, more, hgap, hmore,
    hnil, Eq.trans ?_ hold, ?_⟩
  · rw [h.tree.listing_eq hs hd]
    exact (Vol.dirEntries_congr fun c hc => he.before o c hc).symm
  · rw [Vol.listing, hl'.clustersOf hs]
    exact hnew

theorem Enters.resolvePath (h : s.Holds G)
    (he : Enters s s' G o v v1 slot component sfn attr l size)
    (ho : G.dir o) {path relative : List UInt8} {lookup : PathLookup}
    (hrel : pathToRelative s.toEnv path = some relative)
    (hbase : relativeBasename relative = component)
    (hres : Disk.resolvePath s.toEnv s.vol path = some lookup)
    (hf : lookup.found = false)
    (hh : (G.own o).head? = some lookup.parentCluster)
    (hz : ∀ ch ∈ component, ch ≠ 0) (hattr : attr &&& attrVolumeId = 0) :
    Disk.resolvePath s'.toEnv s'.vol path
      = if Readable component then
          some
            { found := true
              parentCluster := lookup.parentCluster
              sfn := sfn
              slot := nameSlot slot component
              info := (buildDirEntry sfn attr (l.headD 0) size).info }
        else some lookup := by
  have hs := h.ok.sound
  obtain ⟨relative', pre, c, -, hrel', hne, rfl, hcs, hc, hw, -, -, hlast⟩ :=
    h.resolvePath_some hres
  cases hrel.symm.trans hrel'
  obtain rfl : c = component := hc.symm.trans hbase
  have hcn : pre ++ [c] ≠ [] := by simp
  -- The walk to the directory is as before.
  have hwalk : s'.vol.walk s.fat32 pre s.fat32.rootCluster
      = some lookup.parentCluster :=
    h.tree.walk_congr hs h.tree.root_dir h.tree.root_head ho hh hw
      fun q e hq hqo hqe => he.listing_other h ho hq hqo hqe
  rw [he.moves.env]
  unfold Disk.resolvePath
  rw [hrel]
  simp only [if_neg hne]
  rw [Path.splitOn_join hcn fun c hc => (hcs c hc).no_slash,
    Vol.resolve_snoc, hwalk, Option.bind_some]
  obtain ⟨front, gap, back, more, hgap, hmore, hnil, hold, hnew⟩ :=
    he.listing_self h ho hh
  unfold Vol.resolveLast at hlast ⊢
  rw [hold] at hlast
  cases hlook : lookupIn c (front ++ gap ++ back) with
  | some f =>
    rw [hlook] at hlast
    rw [← Option.some.inj hlast] at hf
    cases hf
  | none =>
    rw [hlook] at hlast
    rw [hnew, lookupIn_created hz he.gen he.count hattr hgap hmore hnil hlook]
    by_cases hr : Readable c
    · rw [if_pos hr, if_pos hr]
      rfl
    · rw [if_neg hr, if_neg hr]
      exact hlast

end enters

end Clks.Disk
