/-
What an append leaves behind.
-/
import Clks.Disk.Proofs.Append
import Clks.Disk.Proofs.Reread
import Clks.Disk.Overwrite

namespace Clks.Disk

open Bytes Linked

-- ==== the property

/-- The file that the path names has these contents: reading it returns
them, and the hardware sectors of its clusters, of which it has as many
as it needs, hold them. -/
structure Appended (s' : State) (path : List UInt8)
    (bytes : List UInt8) : Prop where
  reads : (readAll path s').1 = some bytes
  stored : ∃ lookup l size,
    resolvePath s'.toEnv s'.vol path = some lookup ∧
    s'.vol.FileOn s'.fat32 lookup.slot l size bytes ∧
    l.length = s'.fat32.clustersFor size

/-- The image shows the last sector of the file that the path names, up
to the end of the file. -/
def State.EndShownOf (s : State) (path : List UInt8) : Prop :=
  ∀ lookup, resolvePath s.toEnv s.vol path = some lookup →
    lookup.found = true →
    s.EndShownAt (s.vol.clustersOf s.fat32 lookup.info.firstCluster)
      lookup.info.size

-- ==== an append that succeeds

section appended

variable {s s' : State} {G : Ghost}

theorem State.Holds.readAll_some (h : s.Holds G) {path : List UInt8}
    {old : List UInt8} (hold : (readAll path s).1 = some old) :
    ∃ lookup, resolvePath s.toEnv s.vol path = some lookup ∧
      lookup.found = true ∧ isDirectoryAttr lookup.info.attr = false ∧
      G.InDirs s.fat32 lookup.slot ∧
      s.vol.kind lookup.slot
        = .node false lookup.info.firstCluster lookup.info.size ∧
      s.vol.clustersOf s.fat32 lookup.info.firstCluster
        = G.own (.entry lookup.slot) ∧
      old = s.vol.content s.fat32 (G.own (.entry lookup.slot))
        lookup.info.size := by
  have hs := h.ok.sound
  rw [h.readAll_eq, h.fileAt_iff] at hold
  obtain ⟨lookup, hres, hf, hfile⟩ := hold
  obtain ⟨hin, -, -, hk⟩ := h.resolvePath_found hres hf
  rw [h.tree.isFile_iff hs] at hfile
  obtain ⟨-, first, size, hk', hb⟩ := hfile
  have hk'' := hk
  rw [hk'] at hk''
  injection hk'' with hd hfirst hsize
  rw [← hd] at hk
  refine ⟨lookup, hres, hf, hd.symm, hin, hk, ?_, ?_⟩
  · exact h.tree.clustersOf_eq hs hin hk
  · rw [← hsize]
    exact hb

theorem Rewrites.appended {lookup : PathLookup} {path : List UInt8}
    {l : List Nat} {c size : Nat} {bytes : List UInt8} (h : s.Holds G)
    (hres : Disk.resolvePath s.toEnv s.vol path = some lookup)
    (hf : lookup.found = true)
    (hd : isDirectoryAttr lookup.info.attr = false)
    (hr : Rewrites s s' G lookup.slot l
      (buildDirEntry lookup.sfn attrArchive c size) bytes) :
    Appended s' path bytes := by
  obtain ⟨lookup', hres', hf', hslot⟩ := hr.path_found h hres hf hd
  obtain ⟨l', z, hon⟩ := (hr.updates.file bytes).mpr rfl
  rw [← hr.moves.fat32, ← hslot] at hon
  constructor
  · exact hr.readAll_eq h hres hf hd
  · have hon' := hon
    rw [hr.holds.tree.fileOn_iff hr.holds.ok.sound] at hon'
    obtain ⟨hin, hl, first, hk, -⟩ := hon'
    refine ⟨lookup', l', z, hres', hon, ?_⟩
    rw [hl]
    exact hr.holds.tree.file_len _ _ _ hin hk

theorem append_ok (h : s.Holds G) {path : List UInt8}
    {data : Option Mem} {size : Nat} {old : List UInt8}
    (hold : (readAll path s).1 = some old)
    (hrun : append path data size s = (some (), s')) :
    ∃ bytes, Appended s' path bytes ∧
      (bytes = old ++ bufferBytes (dataOf data) size ↔
        size = 0 ∨ s.EndShownOf path) := by
  obtain ⟨lookup, hres, hf, hd, hin, hk, hcl, rfl⟩ := h.readAll_some hold
  have hshown : s.EndShownOf path ↔
      s.EndShownAt (G.own (.entry lookup.slot)) lookup.info.size := by
    constructor
    · intro he
      have := he lookup hres hf
      rwa [hcl] at this
    · intro he lookup' hres' _
      cases hres.symm.trans hres'
      rwa [hcl]
  rw [hshown]
  rcases append_run h path data size with
    ⟨s1, hrun1, -, -⟩ | ⟨lookup', s1, hg, -, -⟩ |
    ⟨lookup', d, s1, hres', hrun1, hr, hor⟩
  · rw [hrun] at hrun1
    cases hrun1
  · cases hres.symm.trans hg.path
    rcases append_found h hg with
      ⟨l', bytes, s2, hrun2, hrw, hiff⟩ | ⟨s2, hrun2, -, -⟩
    · cases hrun.symm.trans hrun2
      exact ⟨bytes, hrw.appended h hres hf hd, hiff⟩
    · rw [hrun] at hrun2
      cases hrun2
  · -- An empty file to which nothing is appended is written anew.
    cases hres.symm.trans hres'
    rcases hor with ⟨hf', -⟩ | ⟨-, -, hz, rfl⟩
    · rw [hf] at hf'
      cases hf'
    have h1 := hr.holds h
    have hres1 : resolvePath s1.toEnv s1.vol path = some lookup := by
      rw [hr.env, hr.vol]
      exact hres
    have hg : WriteGuard s1 path d 0 lookup :=
      ⟨hres1, fun _ => hd, fun h0 => absurd h0 (by omega), by
        rw [(Layout.clustersFor_eq_zero
          h1.ok.sound.clusterSize_pos).mpr rfl]
        exact Nat.zero_le _⟩
    rcases writeAll_found h1 (by decide) hg hf with
      ⟨l, s2, hrun2, hrw, -⟩ | ⟨s2, hrun2, -, -⟩
    · rw [hrun1, hrun2] at hrun
      injection hrun with _ hs2
      subst hs2
      refine ⟨_, hrw.appended h1 hres1 hf hd, ?_⟩
      rw [hz]
      refine iff_of_true ?_ (.inl rfl)
      simp [Vol.content, bufferBytes]
    · rw [hrun1, hrun2] at hrun
      cases hrun

theorem State.Holds.appends_iff (h : s.Holds G) {path : List UInt8}
    {data : Option Mem} {size : Nat} {old : List UInt8}
    (hold : (readAll path s).1 = some old)
    (hrun : append path data size s = (some (), s')) :
    Appended s' path (old ++ bufferBytes (dataOf data) size) ↔
      size = 0 ∨ s.EndShownOf path := by
  obtain ⟨bytes, ha, hiff⟩ := append_ok h hold hrun
  rw [← hiff]
  constructor
  · intro ha'
    have he := ha'.reads
    rw [ha.reads] at he
    injection he
  · intro he
    rw [← he]
    exact ha

end appended

/-- After a successful append the file has its old contents and the
payload behind them exactly if nothing was appended or the image showed
the end of the file. -/
theorem appended_iff {s s' : State} (hs : s.Consistent)
    {path : List UInt8} {data : Option Mem} {size : Nat}
    {old : List UInt8} (hold : (readAll path s).1 = some old)
    (hrun : append path data size s = (some (), s')) :
    Appended s' path (old ++ bufferBytes (dataOf data) size) ↔
      size = 0 ∨ s.EndShownOf path := by
  obtain ⟨G, h⟩ := hs
  exact h.appends_iff hold hrun

theorem noteDisk_reads :
    (readAll (txt "/temp/disk/note.txt") noteDisk).1 = some [chr 'A'] := by
  obtain ⟨G, h⟩ := noteDisk_consistent
  rw [h.readAll_eq, noteDisk, oneFile_vol note_fits]
  decide +kernel

theorem noteDisk_append (data : Mem) :
    ∃ s', append (txt "/temp/disk/note.txt") (some data) 1 noteDisk
      = (some (), s') := by
  obtain ⟨G, h⟩ := noteDisk_consistent
  have hg : AppendGuard noteDisk (txt "/temp/disk/note.txt") (some data) 1
      ⟨true, 2, noteSfn, ⟨2, 2⟩, ⟨attrArchive, 3, 1⟩⟩ :=
    ⟨noteDisk_resolve, rfl, by decide, fun _ => rfl, by decide, by decide⟩
  rcases append_found h hg with ⟨_, _, s', hrun, -⟩ | ⟨_, -, -, hfail⟩
  · exact ⟨s', hrun⟩
  · obtain ⟨hin, -, -, hk⟩ := h.resolvePath_found hg.path rfl
    have hlen := h.tree.file_len _ _ _ hin hk
    have hone : noteDisk.fat32.clustersFor 1 = 1 := by decide
    rw [hone] at hlen
    obtain ⟨z, hz⟩ := List.length_eq_one_iff.mp hlen
    obtain ⟨_, _, l', -, -, hlt, -⟩ := hfail.full [] z hz
    have hzero : noteDisk.fat32.clustersFor
        (1 - min 1 (noteDisk.fat32.slack 1)) = 0 := by decide
    rw [hzero] at hlt
    exact absurd hlt (Nat.not_lt_zero _)

theorem noteDisk_not_shown :
    ¬ noteDisk.EndShownOf (txt "/temp/disk/note.txt") := by
  intro hs
  have hend := hs _ noteDisk_resolve rfl [] 3 (by
    show noteDisk.vol.clustersOf smallestLayout 3 = [] ++ [3]
    rw [noteDisk, oneFile_vol note_fits]
    decide +kernel)
  have hbyte := hend 0 (by decide) (by decide)
  have hdata : noteDisk.vol.data 3 0 = chr 'A' := by
    rw [noteDisk, oneFile_vol note_fits]
    decide +kernel
  have hvalid : noteDisk.fat32.clusterValid 3 = true := by decide
  have hpos : 0 < noteDisk.fat32.clusterSizeBytes := by decide
  rw [State.vol_data hvalid hpos] at hdata
  rw [hdata] at hbyte
  have hzero : noteDisk.bytes (noteDisk.fat32.clusterOffset 3 + 0) = 0 := rfl
  rw [hzero] at hbyte
  exact absurd hbyte (by decide)

/-- On a driver that has just started, a byte appended to `note.txt`
takes the place of the file's own byte with a zero in front. -/
theorem noteDisk_append_loses :
    noteDisk.Consistent ∧
    (readAll (txt "/temp/disk/note.txt") noteDisk).1 = some [chr 'A'] ∧
    ∃ s', append (txt "/temp/disk/note.txt") (some fun _ => chr 'B') 1
        noteDisk = (some (), s') ∧
      ¬ Appended s' (txt "/temp/disk/note.txt") [chr 'A', chr 'B'] := by
  obtain ⟨s', hrun⟩ := noteDisk_append fun _ => chr 'B'
  refine ⟨noteDisk_consistent, noteDisk_reads, s', hrun, ?_⟩
  intro ha
  obtain ⟨G, h⟩ := noteDisk_consistent
  obtain ⟨bytes, hbytes, hiff⟩ := append_ok h noteDisk_reads hrun
  have he := ha.reads
  rw [hbytes.reads] at he
  injection he with he
  rcases hiff.mp he with hz | hs
  · cases hz
  · exact noteDisk_not_shown hs

/-- The condition at an append to `note.txt`. -/
theorem appended_iff_note :
    ∃ s', append (txt "/temp/disk/note.txt") (some fun _ => chr 'B') 1
        noteDisk = (some (), s') ∧
      (Appended s' (txt "/temp/disk/note.txt")
          ([chr 'A'] ++ bufferBytes (fun _ => chr 'B') 1) ↔
        1 = 0 ∨ noteDisk.EndShownOf (txt "/temp/disk/note.txt")) := by
  obtain ⟨s', hrun⟩ := noteDisk_append fun _ => chr 'B'
  exact ⟨s', hrun, appended_iff noteDisk_consistent noteDisk_reads hrun⟩

end Clks.Disk
