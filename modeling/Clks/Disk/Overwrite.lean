/-
What is left after `clks_disk_write_all` has failed.
-/
import Clks.Disk.Image

namespace Clks.Disk

open Bytes Linked

-- ==== the property

/-- No live entry leads to a cluster that the table marks as free. -/
def Vol.NoDangling (L : Layout) (v : Vol) : Prop :=
  ∀ slot b first size, Live L v.fat v.kind slot b first size →
    ∀ c ∈ v.clustersOf L first, v.fat c ≠ freeCluster

/-- Every file reads as it did, through its path and in its slot, and no
entry dangles. -/
structure Unharmed (s s' : State) : Prop where
  reads : ∀ path, (readAll path s').1 = (readAll path s).1
  files : ∀ slot bytes,
    s'.vol.IsFile s.fat32 slot bytes ↔ s.vol.IsFile s.fat32 slot bytes
  dangling : s'.vol.NoDangling s.fat32

/-- A write that fails harms nothing. -/
def WriteAtomic (s : State) (path : List UInt8) (data : Option Mem)
    (size : Nat) : Prop :=
  ∀ s', writeAll path data size s = (none, s') → Unharmed s s'

/-- The path names a file that has clusters, and the contents need more
than those and the free ones. -/
def Overcommits (s : State) (path : List UInt8) (data : Option Mem)
    (size : Nat) : Prop :=
  ∃ lookup, WriteGuard s path data size lookup ∧ lookup.found = true ∧
    0 < lookup.info.size ∧
    (s.vol.freeSet s.fat32).card + s.fat32.clustersFor lookup.info.size
      < s.fat32.clustersFor size

-- ==== free clusters

section counting

variable {L : Layout} {v : Vol}

theorem Vol.freeSet_card_add_le (L : Layout) (v : Vol) (used : Finset Nat)
    (h : ∀ c ∈ used, 2 ≤ c ∧ c < L.clusterCount + 2 ∧
      v.fat c ≠ freeCluster) :
    (v.freeSet L).card + used.card ≤ L.clusterCount := by
  have hdis : Disjoint (v.freeSet L) used := by
    rw [Finset.disjoint_left]
    exact fun c hc hu => (h c hu).2.2 (Vol.mem_freeSet.mp hc).2.2
  have hsub : v.freeSet L ∪ used ⊆ Finset.Ico 2 (L.clusterCount + 2) := by
    intro c hc
    rw [Finset.mem_Ico]
    rcases Finset.mem_union.mp hc with hc | hc
    · obtain ⟨h1, h2, -⟩ := Vol.mem_freeSet.mp hc
      exact ⟨h2, h1⟩
    · exact ⟨(h c hc).1, (h c hc).2.1⟩
  rw [← Finset.card_union_of_disjoint hdis]
  refine (Finset.card_le_card hsub).trans ?_
  rw [Nat.card_Ico]
  omega

theorem Vol.released_card {l : List Nat}
    (hl : l = [] ∨ ∃ c, v.Chain L c l) :
    ((v.released l).freeSet L).card = (v.freeSet L).card + l.length := by
  have hok : ∀ c ∈ l, (2 ≤ c ∧ c < L.clusterCount + 2) ∧
      v.fat c ≠ freeCluster := by
    rcases hl with rfl | ⟨c, hc⟩
    · simp
    · exact fun x hx => ⟨⟨(hc.ok_of_mem x hx).1, (hc.ok_of_mem x hx).2.1⟩,
        hc.not_free x hx⟩
  have hnd : l.Nodup := by
    rcases hl with rfl | ⟨c, hc⟩
    · exact List.nodup_nil
    · exact hc.nodup
  have hset : (v.released l).freeSet L = v.freeSet L ∪ l.toFinset := by
    ext c
    rw [Finset.mem_union, Vol.mem_freeSet, Vol.mem_freeSet,
      List.mem_toFinset]
    by_cases hc : c ∈ l
    · simp only [released, hc, if_true, or_true, iff_true]
      exact ⟨(hok c hc).1.2, (hok c hc).1.1, trivial⟩
    · simp only [released, hc, if_false, or_false]
  rw [hset, Finset.card_union_of_disjoint, List.toFinset_card_of_nodup hnd]
  rw [Finset.disjoint_left]
  exact fun c hc hcl =>
    (hok c (List.mem_toFinset.mp hcl)).2 (Vol.mem_freeSet.mp hc).2.2

end counting

-- ==== no harm

section harm

variable {s s' : State} {G : Ghost}

theorem Tree.noDangling {L : Layout} {total : Nat} {v : Vol}
    (hs : L.Sound total) (h : Tree L v.fat v.kind G) :
    v.NoDangling L := by
  intro slot b first size hlive c hc
  obtain ⟨hin, hk⟩ := h.live_iff.mp hlive
  rw [h.clustersOf_eq hs hin hk] at hc
  exact h.owned.not_free hc

theorem State.Holds.unharmed (h : s.Holds G) (hm : Moves s s')
    (hv : s.vol.Same s.fat32 s'.vol) : Unharmed s s' where
  reads path := by
    rw [(h.same hm hv).readAll_eq, h.readAll_eq, h.fileAt_same hm hv]
  files := h.tree.isFile_same h.ok.sound hv
  dangling := (h.tree.same hv).noDangling h.ok.sound

theorem Tree.live_released {L : Layout} {v : Vol} {X slot : DirSlot}
    {b : Bool} {first size : Nat} (h : Tree L v.fat v.kind G)
    (hX : ¬ G.dir (.entry X)) (hl : Live L v.fat v.kind slot b first size) :
    Live L (v.released (G.own (.entry X))).fat v.kind slot b first size := by
  have hchain : ∀ d l, Reach L v.fat v.kind d → Chain L.marks v.fat d l →
      Chain L.marks (v.released (G.own (.entry X))).fat d l := by
    intro d l hr hc
    obtain ⟨o, hd, hh⟩ := (h.reach_iff d).mp hr
    obtain rfl := h.own_eq_of_chain hh hc
    refine hc.congr fun c hco => if_neg fun hcX => ?_
    rw [h.dir_unique hco hcX] at hd
    exact hX hd
  have hreach : ∀ d, Reach L v.fat v.kind d →
      Reach L (v.released (G.own (.entry X))).fat v.kind d := by
    intro d hr
    induction hr with
    | root => exact .root
    | sub hr hl hc hi hk ih => exact .sub ih (hchain _ _ hr hl) hc hi hk
  obtain ⟨d, l, hr, hc, hrest⟩ := hl
  exact ⟨d, l, hreach d hr, hchain d l hr hc, hrest⟩

theorem Tree.released_dangling {L : Layout} {total : Nat} {v : Vol}
    {X : DirSlot} {first size : Nat} (hs : L.Sound total)
    (h : Tree L v.fat v.kind G) (hin : G.InDirs L X)
    (hk : v.kind X = .node false first size) (hz : 0 < size) :
    ¬ (v.released (G.own (.entry X))).NoDangling L := by
  intro hd
  have hlen := h.file_len X first size hin hk
  have hne : G.own (.entry X) ≠ [] := by
    intro he
    rw [he, List.length_nil] at hlen
    have := (Layout.clustersFor_eq_zero hs.clusterSize_pos).mp hlen.symm
    omega
  obtain ⟨c, t, ht⟩ := List.exists_cons_of_ne_nil hne
  have hfirst : first = c := by
    rw [h.first X _ _ _ hin hk, ht, List.headD_cons]
  have hlive := h.live_released (h.file_not_dir hk)
    (h.live_iff.mpr ⟨hin, hk⟩)
  have hcv : L.clusterValid first = true := by
    rw [hfirst]
    exact (hs.ok_iff c).mp (h.owned.chain_of_head ht).head_ok
  -- The walk from the entry starts at the cluster that was given back.
  have hmem : first
      ∈ (v.released (G.own (.entry X))).clustersOf L first := by
    obtain ⟨n, hn⟩ : ∃ n, L.clusterCount = n + 1 :=
      ⟨L.clusterCount - 1, by
        have := hs.root_lt
        have := hs.root_ge
        omega⟩
    rw [Vol.clustersOf, hn, Vol.chainFrom, if_pos hcv]
    exact List.mem_cons_self
  refine hd X false first size hlive first hmem ?_
  simp only [Vol.released]
  rw [if_pos (by rw [ht, hfirst]; exact List.mem_cons_self)]

-- ==== the two cases

theorem not_writeAtomic_of_overcommits (h : s.Holds G)
    {path : List UInt8} {data : Option Mem} {size : Nat}
    (hsize : size < 2 ^ 64) (hov : Overcommits s path data size) :
    ¬ WriteAtomic s path data size := by
  obtain ⟨lookup, hg, hf, hz, hlt⟩ := hov
  obtain ⟨hin, -, -, hk⟩ := h.resolvePath_found hg.path hf
  rw [hg.file hf] at hk
  have hcard := Vol.released_card (h.tree.owned.chain (.entry lookup.slot))
  rw [h.tree.file_len _ _ _ hin hk] at hcard
  rcases writeAll_found h hsize hg hf with
    ⟨_, _, -, -, hle⟩ | ⟨s', hrun, hst, -⟩
  · omega
  · intro ha
    have hd := (ha s' hrun).dangling
    rw [hst.vol] at hd
    exact h.tree.released_dangling h.ok.sound hin hk hz hd

theorem writeAtomic_of_not_overcommits (h : s.Holds G)
    {path : List UInt8} {data : Option Mem} {size : Nat}
    (hsize : size < 2 ^ 64) (hov : ¬ Overcommits s path data size) :
    WriteAtomic s path data size := by
  intro s' hrun
  by_cases hg : ∃ lookup, WriteGuard s path data size lookup
  swap
  · obtain ⟨s1, P, hrun1, hr⟩ :=
      writeAll_refused h hsize (not_exists.mp hg)
    cases hrun.symm.trans hrun1
    exact h.unharmed hr.moves (by rw [hr.vol]; exact .refl _ _)
  obtain ⟨lookup, hg⟩ := hg
  by_cases hf : lookup.found = true
  · rcases writeAll_found h hsize hg hf with
      ⟨_, _, hrun1, -⟩ | ⟨s1, hrun1, hst, hlt⟩
    · cases hrun.symm.trans hrun1
    · cases hrun.symm.trans hrun1
      obtain ⟨hin, -, -, hk⟩ := h.resolvePath_found hg.path hf
      rw [hg.file hf] at hk
      have hchain := h.tree.owned.chain (.entry lookup.slot)
      have hlen := h.tree.file_len _ _ _ hin hk
      rw [Vol.released_card hchain, hlen] at hlt
      -- The file was empty, so there was no chain to give back.
      have hz : lookup.info.size = 0 := by
        by_contra hz
        exact hov ⟨lookup, hg, hf, Nat.pos_of_ne_zero hz, hlt⟩
      rw [hz, (Layout.clustersFor_eq_zero h.ok.sound.clusterSize_pos).mpr
        rfl, List.length_eq_zero_iff] at hlen
      refine h.unharmed hst.moves ?_
      rw [hst.vol, hlen]
      exact ⟨funext fun c => by simp [Vol.released], fun _ _ => rfl⟩
  · rw [Bool.not_eq_true] at hf
    rcases writeAll_missing h hsize hg hf with
      ⟨_, _, _, _, _, _, _, _, -, -, -, hrun1, -⟩ | ⟨s1, hrun1, hm, hv⟩
    · cases hrun.symm.trans hrun1
    · cases hrun.symm.trans hrun1
      exact h.unharmed hm hv

end harm

-- ==== the result

/-- A write that fails harms nothing exactly if it does not overcommit
the volume. -/
theorem writeAtomic_iff {s : State} (hs : s.Consistent)
    (path : List UInt8) (data : Option Mem) {size : Nat}
    (hsize : size < 2 ^ 64) :
    WriteAtomic s path data size ↔ ¬ Overcommits s path data size := by
  obtain ⟨G, h⟩ := hs
  exact ⟨fun ha hov => not_writeAtomic_of_overcommits h hsize hov ha,
    writeAtomic_of_not_overcommits h hsize⟩

theorem noteDisk_resolve :
    resolvePath noteDisk.toEnv noteDisk.vol (txt "/temp/disk/note.txt")
      = some ⟨true, 2, noteSfn, ⟨2, 2⟩, ⟨attrArchive, 3, 1⟩⟩ := by
  rw [noteDisk, oneFile_vol note_fits]
  decide +kernel

theorem noteDisk_free :
    (noteDisk.vol.freeSet smallestLayout).card + 2 ≤ 65525 := by
  have hcard := Vol.freeSet_card_add_le smallestLayout
    (oneFileVol (txt "note.txt") noteSfn (fun _ => chr 'A') 1) {2, 3}
    (by decide +kernel)
  have htwo : ({2, 3} : Finset Nat).card = 2 := rfl
  have hcount : smallestLayout.clusterCount = 65525 := rfl
  rw [noteDisk, oneFile_vol note_fits]
  omega

theorem noteDisk_overcommits :
    Overcommits noteDisk (txt "/temp/disk/note.txt") (some fun _ => 0)
      33548800 := by
  have hcard := noteDisk_free
  have hold : smallestLayout.clustersFor 1 = 1 := by decide
  have hnew : smallestLayout.clustersFor 33548800 = 65525 := by decide
  have hcount : smallestLayout.clusterCount = 65525 := rfl
  have hL : noteDisk.fat32 = smallestLayout := rfl
  refine ⟨_, ⟨noteDisk_resolve, fun _ => by decide, fun _ => rfl, ?_⟩, rfl,
    by decide, ?_⟩
  · rw [hL]
    omega
  · rw [hL]
    simp only [hold, hnew]
    omega

/-- An overwrite of `note.txt` by too many bytes is not atomic. -/
theorem noteDisk_not_writeAtomic :
    noteDisk.Consistent ∧
      ¬ WriteAtomic noteDisk (txt "/temp/disk/note.txt") (some fun _ => 0)
        33548800 := by
  obtain ⟨G, h⟩ := noteDisk_consistent
  exact ⟨⟨G, h⟩,
    not_writeAtomic_of_overcommits h (by decide) noteDisk_overcommits⟩

/-- Emptying `note.txt` cannot overcommit its disk. -/
theorem writeAtomic_iff_note :
    noteDisk.Consistent ∧ 0 < 2 ^ 64 ∧
      (WriteAtomic noteDisk (txt "/temp/disk/note.txt") none 0 ↔
        ¬ Overcommits noteDisk (txt "/temp/disk/note.txt") none 0) :=
  ⟨noteDisk_consistent, by decide,
    writeAtomic_iff noteDisk_consistent _ none (by decide)⟩

end Clks.Disk
