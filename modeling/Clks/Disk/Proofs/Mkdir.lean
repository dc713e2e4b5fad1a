/-
`clks_disk_mkdir`.

A new directory is one cluster that holds two dot entries. It is taken,
filled, and entered in its parent; what fails on the way is undone.
-/
import Clks.Disk.Proofs.Write

namespace Clks.Disk

open Bytes Linked

-- ==== the first cluster

theorem dirContent_kind {L : Layout} {total c parent : Nat} {v : Vol}
    (hs : L.Sound total) (hv : v.data c = dirContent L c parent) {i : Nat}
    (hi : i < L.entriesPerCluster) :
    v.kind ⟨c, i⟩ = if i < 2 then .dots else .hidden := by
  have hsz := hs.size
  have hepc := hs.entries
  simp only [sectorSize] at hsz
  -- The bytes of an entry lie inside the cluster.
  have hbyte : ∀ k < 32, v.entry ⟨c, i⟩ k
      = blit (blit (fun _ => 0) 0 32
          (buildDirEntry dotName attrDirectory c 0)) 32 32
          (buildDirEntry dotdotName attrDirectory parent 0)
        (32 * i + k) := by
    intro k hk
    simp only [Vol.entry, entryAt, hv, dirContent, Layout.clip]
    rw [if_pos hk, if_pos (by omega)]
  have hsame : ∀ e : Entry, (∀ k, 32 ≤ k → e k = 0) →
      (∀ k < 32, v.entry ⟨c, i⟩ k = e k) → v.entry ⟨c, i⟩ = e := by
    intro e htail hin
    funext k
    by_cases hk : k < 32
    · exact hin k hk
    · rw [htail k (by omega)]
      simp only [Vol.entry, entryAt]
      rw [if_neg hk]
  split_ifs with h2
  · rcases (by omega : i = 0 ∨ i = 1) with rfl | rfl
    · rw [Vol.kind, hsame (buildDirEntry dotName attrDirectory c 0)
        (fun k hk => buildDirEntry_tail hk) fun k hk => ?_]
      · exact buildDirEntry_kind_dots (.inl rfl)
      · rw [hbyte k hk, blit_out (by omega), blit_in (by omega) (by omega)]
        congr 1
        omega
    · rw [Vol.kind, hsame (buildDirEntry dotdotName attrDirectory parent 0)
        (fun k hk => buildDirEntry_tail hk) fun k hk => ?_]
      · exact buildDirEntry_kind_dots (.inr rfl)
      · rw [hbyte k hk, blit_in (by omega) (by omega)]
        congr 1
        omega
  · refine Vol.kind_of_free ?_
    have h0 : v.entry ⟨c, i⟩ 0 = 0 := by
      rw [hbyte 0 (by omega), blit_out (by omega), blit_out (by omega)]
    simp [Entry.isFree, h0]

-- ==== the operation

/-- The volumes have the same files, in the same places. -/
def Vol.SameFiles (L : Layout) (v v' : Vol) : Prop :=
  ∀ slot l z bytes, v'.FileOn L slot l z bytes ↔ v.FileOn L slot l z bytes

theorem Vol.SameFiles.refl (L : Layout) (v : Vol) : v.SameFiles L v :=
  fun _ _ _ _ => Iff.rfl

section specs

variable {s : State} {G : Ghost}

private theorem Roomy.mkdir {v w : Vol} {G1 : Ghost} {o : Owner}
    {X : DirSlot} {c parent : Nat} {e : Entry} (h : s.Holds G)
    (ho : G.dir o) (hr : Roomy s.fat32 v w G G1 o X [c])
    (hdata : v.data c = dirContent s.fat32 c parent)
    (he : e.kind = .node true c 0) (htail : ∀ k, 32 ≤ k → e k = 0) :
    ∃ G', Tree s.fat32 (w.setEntry X e).fat (w.setEntry X e).kind G' ∧
      G'.own .pending = [] ∧ w.SameFiles s.fat32 (w.setEntry X e) := by
  have hs := h.ok.sound
  have ht1 := hr.tree
  have hop : o ≠ .pending := by
    rintro rfl
    exact h.tree.pending_not_dir ho
  have ho1 : G1.dir o := by rwa [hr.dir]
  -- The new directory lies one level below its parent.
  let G' : Ghost :=
    { own := (G1.handOver X).own
      dir := fun o' => G1.dir o' ∨ o' = .entry X
      rank := Function.update G1.rank (.entry X) (G1.rank o + 1) }
  have hl : G'.own (.entry X) = [c] := by
    show (G1.handOver X).own (.entry X) = [c]
    rw [G1.handOver_self, hr.pending]
  have hother : ∀ o', o' ≠ .entry X → o' ≠ .pending →
      G'.own o' = G1.own o' := fun o' h₂ h3 => G1.handOver_ne h₂ h3
  have hcX : c ≠ X.cluster := by
    have hc : c ∈ G1.own .pending := by simp [hr.pending]
    exact hr.ne_cluster (Ne.symm hop) hc
  have hcluster : ∀ i < s.fat32.entriesPerCluster,
      (w.setEntry X e).kind ⟨c, i⟩ = if i < 2 then .dots else .hidden :=
    fun i hi => dirContent_kind hs (by
      rw [Vol.setEntry_data_ne hcX, hr.data c hcX, hdata]) hi
  have hkX : (w.setEntry X e).kind X = .node true c 0 := by
    rw [Vol.kind, Vol.setEntry_entry_self htail, he]
  have hk : ∀ slot, slot ≠ X →
      (w.setEntry X e).kind slot = w.kind slot := fun slot hne => by
    rw [Vol.kind, Vol.setEntry_entry_ne hne]
    rfl
  have htree : Tree s.fat32 (w.setEntry X e).fat (w.setEntry X e).kind G' := by
    refine ht1.mkdir ho1 hr.mem hr.index hr.hidden (fun _ => Iff.rfl) rfl
      (by rw [hl]; simp) ⟨0, ?_⟩ (fun slot _ hne => hk slot hne) ?_ hother
      (ht1.handOver_owned hr.hidden)
    · rw [hl, hkX, List.headD_cons]
    · intro c' hc' i hi
      rw [hl, List.mem_singleton] at hc'
      subst hc'
      rw [hcluster i hi, hl]
      by_cases h2 : i < 2
      · refine .inr ⟨if_pos h2, rfl, ?_⟩
        rcases (by omega : i = 0 ∨ i = 1) with rfl | rfl
        · exact .inl rfl
        · exact .inr ⟨rfl, hcluster 0 (by omega)⟩
      · exact .inl (if_neg h2)
  refine ⟨G', htree, G1.handOver_pending X, fun Y l z bytes => ?_⟩
  have hnew : ∀ f z, w.kind Y = .node false f z → Y ≠ X := by
    rintro f z hkY rfl
    rw [hr.hidden] at hkY
    cases hkY
  refine ht1.fileOn_congr hs htree (fun f z => ?_) ?_ ?_ l z bytes
  · constructor
    · rintro ⟨⟨⟨o', ho', hco⟩, hi⟩, hkY⟩
      have hYX : Y ≠ X := by
        rintro rfl
        rw [hkX] at hkY
        cases hkY
      have hYc : Y.cluster ≠ c := by
        intro hYc
        obtain ⟨cY, iY⟩ := Y
        obtain rfl : cY = c := hYc
        rw [hcluster iY hi] at hkY
        split_ifs at hkY
      rcases ho' with ho' | rfl
      · have hne : o' ≠ .entry X := by
          rintro rfl
          rw [hl, List.mem_singleton] at hco
          exact hYc hco
        have hnp : o' ≠ .pending := by
          rintro rfl
          exact ht1.pending_not_dir ho'
        rw [hother o' hne hnp] at hco
        exact ⟨⟨⟨o', ho', hco⟩, hi⟩, by rwa [← hk Y hYX]⟩
      · rw [hl, List.mem_singleton] at hco
        exact absurd hco hYc
    · rintro ⟨⟨⟨o', ho', hco⟩, hi⟩, hkY⟩
      have hYX := hnew f z hkY
      have hnp : o' ≠ .pending := by
        rintro rfl
        exact ht1.pending_not_dir ho'
      have hne : o' ≠ .entry X := by
        rintro rfl
        obtain ⟨-, f', z', hk'⟩ := (ht1.dir_iff X).mp ho'
        rw [hr.hidden] at hk'
        cases hk'
      refine ⟨⟨⟨o', .inl ho', ?_⟩, hi⟩, by rwa [hk Y hYX]⟩
      rwa [hother o' hne hnp]
  · rintro ⟨f, z, hkY⟩
    exact hother _ (by simpa using hnew f z hkY) (by simp)
  · rintro ⟨f, z, hkY⟩ c' hc'
    refine Vol.setEntry_data_ne (hr.ne_cluster ?_ hc')
    rintro rfl
    exact ht1.file_not_dir hkY ho1

theorem takeOne_owned {own : Owner → List Nat} {L : Layout} {total c : Nat}
    {v v' : Vol} (hs : L.Sound total) (h : Owned L.marks v.fat own)
    (hp : own .pending = []) (hc : c ∈ v.freeSet L)
    (hv : v'.fat = (v.setFat c eoc).fat) :
    Owned L.marks v'.fat (Function.update own .pending [c]) := by
  obtain ⟨h1, h2, h3⟩ := Vol.mem_freeSet.mp hc
  rw [hv]
  refine h.replace .pending [c] (fun a _ ha => ?_) (.inr ⟨c, .last ?_ ?_⟩)
    (fun a ha _ => ?_) (by simp [hp])
  · exact Vol.setFat_fat_ne _ _ (by simpa using ha)
  · exact (hs.ok_iff c).mpr ((hs.clusterValid_iff c).mpr ⟨h2, h1⟩)
  · rw [Vol.setFat_fat_self]
    show eocMin ≤ eoc
    decide
  · rw [List.mem_singleton.mp ha]
    exact h3

/-- What `mkdir` does once the name is known to be new. -/
def mkdirNew (parent : Nat) (component : List UInt8) : Cmd State Unit := do
  let newCluster ← allocCluster
  (initDirectoryCluster newCluster parent).orCleanup (freeChain newCluster)
  let _ ← (writeNamedDirEntry parent component attrDirectory newCluster
    0).orCleanup (freeChain newCluster)

theorem mkdirNew_run (h : s.Holds G) {parent : Nat} {component : List UInt8}
    {o : Owner} (ho : G.dir o) (hh : (G.own o).head? = some parent)
    (hc : component ≠ []) :
    (∃ s', mkdirNew parent component s = (some (), s') ∧ Moves s s' ∧
      s'.Consistent ∧ s.vol.SameFiles s.fat32 s'.vol) ∨
    (∃ s', mkdirNew parent component s = (none, s') ∧ Moves s s' ∧
      s.vol.Same s.fat32 s'.vol) := by
  have hs := h.ok.sound
  rw [mkdirNew]
  rcases allocCluster_run h.ok with
    ⟨c, s1, hrun1, hfree, hst1⟩ | ⟨s1, hrun1, -, hst1⟩
  swap
  · refine .inr ⟨s1, Cmd.bind_err hrun1, hst1.moves, ?_⟩
    rw [hst1.vol]
    exact .refl _ _
  have hcv := h.ok.valid_of_free hfree
  obtain ⟨s2, hrun2, hst2, -⟩ := initDirectoryCluster_run
    (hst1.ok h.ok) parent (c := c) (by rw [hst1.fat32]; exact hcv)
  rw [hst1.fat32] at hst2
  have hm := hst1.moves.trans hst2.moves
  have hfat : s2.vol.fat = (s.vol.setFat c eoc).fat := by
    rw [hst2.vol, Vol.setData_fat, hst1.vol, Vol.setData_fat]
  have hdata : ∀ x, x ∉ [c] → s2.vol.data x = s.vol.data x := by
    intro x hx
    rw [List.mem_singleton] at hx
    rw [hst2.vol, Vol.setData_data_ne _ _ hx, hst1.vol,
      Vol.setData_data_ne _ _ hx, Vol.setFat_data]
  have hown : Owned s.fat32.marks s2.vol.fat (G.setOwn .pending [c]).own :=
    takeOne_owned hs h.tree.owned h.idle hfree hfat
  obtain ⟨ht, hold⟩ := h.pending hm hown hdata
  rw [Cmd.bind_ok hrun1, Cmd.bind_ok (Cmd.orCleanup_ok hrun2)]
  rcases enter_run h attrDirectory 0 ho hh hc hm ht hold with
    ⟨sfn, slot, v1, s', hrun, he⟩ | ⟨s3, hrun, hst3⟩
  · rw [List.headD_cons] at hrun
    obtain ⟨G1, hr, hfiles⟩ := he.roomy h ho hm ht
    have hlt := hs.headD_lt hown .pending
    rw [G.setOwn_self, List.headD_cons] at hlt
    obtain ⟨G', htree, hidle, hkeep⟩ := hr.mkdir h ho
      (by rw [hst2.vol, Vol.setData_data_self])
      (buildDirEntry_kind_dir 0
        (componentGenerateSfn_proper he.gen) hlt)
      (fun k hk => buildDirEntry_tail hk)
    have hvol := he.vol
    rw [List.headD_cons] at hvol
    refine .inl ⟨s', ?_, he.moves, ⟨G', he.moves.ok h.ok, ?_, hidle⟩, ?_⟩
    · rw [Cmd.bind_ok (Cmd.orCleanup_ok hrun), Cmd.pure_apply]
    · rw [he.moves.fat32, hvol]
      exact htree
    · rw [hvol]
      exact fun Y l z bytes =>
        (hkeep Y l z bytes).trans (hfiles Y l z bytes)
  · rw [List.headD_cons] at hrun
    have hchain : s3.vol.Chain s3.fat32 c [c] := by
      have hc' := ht.owned.chain_of_head (i := .pending) (a := c) (t := [])
        (by rw [G.setOwn_self])
      rw [G.setOwn_self] at hc'
      rw [hst3.vol, hst3.fat32]
      exact hc'
    obtain ⟨s4, hrun4, hst4⟩ := freeChain_run
      (hst3.ok (hm.ok h.ok)) hchain
    refine .inr ⟨s4, Cmd.bind_err ?_,
      hm.trans (hst3.moves.trans hst4.moves), ?_, fun x hx => ?_⟩
    · rw [Cmd.orCleanup_err hrun, hrun4]
    · rw [hst4.vol, hst3.vol]
      funext x
      simp only [Vol.released, hfat]
      split_ifs with hx
      · rw [List.mem_singleton.mp hx]
        exact (Vol.mem_freeSet.mp hfree).2.2.symm
      · exact Vol.setFat_fat_ne _ _ (by simpa using hx)
    · rw [hst4.vol, hst3.vol]
      refine hdata x fun hxc => hx ?_
      rwa [List.mem_singleton.mp hxc]

theorem mkdir_run (h : s.Holds G) (path : List UInt8) :
    (∃ s', mkdir path s = (some (), s') ∧ Moves s s' ∧ s'.Consistent ∧
      s.vol.SameFiles s.fat32 s'.vol) ∨
    (∃ s', mkdir path s = (none, s') ∧ Moves s s' ∧
      s.vol.Same s.fat32 s'.vol) := by
  have hread : ∀ {s1 : State} {P : Set Nat}, Reads P s s1 →
      s1.Consistent ∧ s.vol.SameFiles s.fat32 s1.vol ∧
        s.vol.Same s.fat32 s1.vol := by
    intro s1 P hr
    refine ⟨⟨G, hr.holds h⟩, ?_, ?_⟩
    · rw [hr.vol]
      exact .refl _ _
    · rw [hr.vol]
      exact .refl _ _
  rw [mkdir]
  have hrun := relativeOf_run h.ok path
  cases hrel : pathToRelative s.toEnv path with
  | none =>
    rw [hrel] at hrun
    exact .inr ⟨s, Cmd.bind_err hrun, .refl s, .refl _ _⟩
  | some relative =>
    rw [hrel] at hrun
    rw [Cmd.bind_ok hrun]
    by_cases hne : relative = []
    · rw [if_pos hne]
      exact .inl ⟨s, rfl, .refl s, ⟨G, h⟩, .refl _ _⟩
    rw [if_neg hne]
    obtain ⟨s1, hrun1, hr1⟩ := lookupPath_run h hrel hne
    cases hres : resolvePath s.toEnv s.vol path with
    | none =>
      rw [hres] at hrun1
      exact .inr ⟨s1, Cmd.bind_err hrun1, hr1.moves, (hread hr1).2.2⟩
    | some lookup =>
      rw [hres] at hrun1
      rw [Cmd.bind_ok hrun1]
      by_cases hf : lookup.found = true
      · simp only [hf, if_true]
        cases hd : isDirectoryAttr lookup.info.attr with
        | false =>
          exact .inr ⟨s1, rfl, hr1.moves, (hread hr1).2.2⟩
        | true =>
          exact .inl ⟨s1, rfl, hr1.moves, (hread hr1).1, (hread hr1).2.1⟩
      rw [if_neg hf]
      obtain ⟨relative', _, comp, o, hrel', -, -, hcs, hbase, -, ho, hh, -⟩ :=
        h.resolvePath_some hres
      cases hrel.symm.trans hrel'
      have hcomp : relativeBasename relative ≠ [] := by
        rw [hbase]
        exact (hcs comp (by simp)).ne_nil
      have h1 := hr1.holds h
      have hpar := h1.tree.head_valid h1.ok.sound hh
      rw [Cmd.get_bind_apply, Cmd.require_bind hpar]
      rcases mkdirNew_run h1 ho hh hcomp with
        ⟨s', hrun', hm, hcons, hkeep⟩ | ⟨s', hrun', hm, hsame⟩
      · rw [hr1.vol, hr1.fat32] at hkeep
        exact .inl ⟨s', hrun', hr1.moves.trans hm, hcons, hkeep⟩
      · rw [hr1.vol, hr1.fat32] at hsame
        exact .inr ⟨s', hrun', hr1.moves.trans hm, hsame⟩

end specs

end Clks.Disk
