/-
How often the check comes to a directory.

The check follows the entries of directories as it finds them, and keeps
no record of the directories it has been in: the marks on the clusters of
a chain are looked at when the chain is marked, and the entries of the
directory are then read all the same. So it comes to a directory once for
every walk that leads there, and gives up below 32 levels.
-/
import Clks.Disk.Layout
import Clks.Disk.Proofs.Fsck

namespace Clks.Disk

open Bytes Fsck

set_option maxRecDepth 2000

-- ==== the disks

/-- The driver is up on a disk whose header it accepts. Nothing else is
asked of what is on the disk. -/
structure State.Mountable (s : State) : Prop extends s.Backed where
  formatted : s.formatted = true
  total_lt : s.sectorTotal < 2 ^ 64
  accepts : s.accepts = true
  fat32 : s.fat32 = s.header.layout s.volumeStart

/-- A walk from the root of a disk to a directory, by the entries that it
takes. -/
abbrev State.DirWalk (s : State) (p : List DirSlot) (d : Nat) : Prop :=
  Tour.Walk s.dirClusters s.subdirs s.fat32.rootCluster p d

/-- The directories of a disk form a tree: the chain of a directory comes to
no cluster twice, and no cluster is in the directories that two walks lead to.
-/
structure State.DirTree (s : State) : Prop where
  once : Tour.Once s.dirClusters s.subdirs s.fat32.rootCluster
  depth : ∀ p d, s.DirWalk p d → p.length ≤ 32

/-- Whatever its flags, a check ends with a result and has read the
entries of no cluster twice; and its status tells when the directories
are no tree. -/
def VisitsOnce (kmalloc : Nat → Bool) (s : State) : Prop :=
  ∀ flags, ∃ t, fsckFat32 kmalloc flags (.start s) = (some (), t) ∧
    t.scanned.Nodup ∧ (¬ s.DirTree → t.result.status ≠ 0)

section visits

variable {s : State} {kmalloc : Nat → Bool}

theorem State.Mountable.checked (h : s.Mountable) :
    s.header.Checked s.sectorTotal s.volumeStart :=
  State.accepts_checked h.bytesLen h.total_lt h.accepts

theorem State.Mountable.placed (h : s.Mountable) : s.Placed where
  toBacked := h.toBacked
  layout := by
    rw [h.fat32]
    exact h.checked.placed

theorem State.Mountable.root_valid (h : s.Mountable) :
    s.fat32.clusterValid s.fat32.rootCluster = true := by
  refine (h.placed.layout.clusterValid_iff _).mpr ?_
  rw [h.fat32]
  exact ⟨h.checked.root_ge, h.checked.root_lt⟩

theorem State.Mountable.ready (h : s.Mountable) : s.ready = true := by
  have ha := h.accepts
  unfold State.accepts at ha
  simp only [Bool.and_eq_true] at ha
  exact ha.1.1.1

-- ==== the run

/-- What the check does once the marks are there. -/
private def scanAndCount (fix : Bool) (L : Layout) : Cmd FsckState Unit := do
  checkReserved
  scanDirectory fix maxLevels L.rootCluster
  Fsck.countLoop fix L.clusterCount 2
  if fix then
    Cmd.ignore (onDisk flushHw)
  note fun r => { r with status := r.statusOf }

/-- The state that this starts in. -/
private def allocated (s : State) : FsckState :=
  { FsckState.start s with
    result := { FsckResult.zero with
      checkedClusters := s.fat32.clusterCount } }

private theorem fsck_front (h : s.Mountable)
    (hk : kmalloc s.fat32.clusterCount = true) (flags : Nat) :
    fsckFat32 kmalloc flags (.start s)
      = scanAndCount (decide (flags &&& fsckFlagFix ≠ 0)) s.fat32
        (allocated s) := by
  have hready : (s.ready && s.formatted && s.fat32.valid) = true := by
    rw [h.ready, h.formatted, h.placed.layout.valid]
    rfl
  unfold fsckFat32
  refine (Cmd.modify_bind_apply ..).trans ?_
  refine (Cmd.get_bind_apply ..).trans ?_
  refine (Cmd.require_bind hready).trans ?_
  refine (Cmd.require_bind hk).trans ?_
  rfl

private theorem fsck_noMemory (hk : kmalloc s.fat32.clusterCount = false)
    (flags : Nat) :
    (fsckFat32 kmalloc flags (.start s)).1 = none := by
  unfold fsckFat32
  rw [note, Cmd.modify_bind_apply, Cmd.get_bind_apply]
  cases hready : (s.ready && s.formatted && s.fat32.valid) with
  | false => exact congrArg Prod.fst (Cmd.require_bind_err hready)
  | true =>
    refine (congrArg Prod.fst (Cmd.require_bind hready)).trans ?_
    exact congrArg Prod.fst (Cmd.require_bind_err hk)

theorem fsck_scans (h : s.Mountable)
    (hk : kmalloc s.fat32.clusterCount = true) (flags : Nat) :
    ScansAt (decide (flags &&& fsckFlagFix ≠ 0)) s
      (DeepOf s maxLevels s.fat32.rootCluster)
      (tourOf s maxLevels s.fat32.rootCluster)
      (fsckFat32 kmalloc flags) () (.start s) := by
  generalize hfix : decide (flags &&& fsckFlagFix ≠ 0) = fix
  have hu : Under fix s (allocated s) := ⟨.refl h.placed, fun _ => rfl⟩
  have hfront : fsckFat32 kmalloc flags (.start s)
      = scanAndCount fix s.fat32 (allocated s) := by
    rw [fsck_front h hk flags, hfix]
  refine ScansAt.of_run hfront rfl rfl ?_
  obtain ⟨_, t1, hrun1, hc1⟩ := quiet_checkReserved (allocated s) h.placed
  refine ScansAt.after hrun1 hc1 ?_
  have htail : Quiet fix (do
      Fsck.countLoop fix s.fat32.clusterCount 2
      if fix then
        Cmd.ignore (onDisk flushHw)
      note fun r => { r with status := r.statusOf }) := by
    refine (quiet_countLoop _ 2).bind fun _ => ?_
    refine .ite (fun _ => ?_) fun _ => .note _
    refine Quiet.bind (fun t ht => ?_) fun _ => .note _
    exact ⟨(), t, rfl, .refl ht⟩
  refine (ScansAt.bind (scans_directory maxLevels _ h.root_valid t1
    (hu.checked hc1)) (htail.scans)).of_eq ?_ ?_
  · simp
  · simp

-- ==== once or a defect

theorem dirTree_iff (h : ¬ DeepOf s maxLevels s.fat32.rootCluster) :
    s.DirTree ↔ (tourOf s maxLevels s.fat32.rootCluster).Nodup := by
  constructor
  · intro ht
    exact (Tour.nodup_tour_iff s.subdirs_places h).mpr ht.once
  · intro hn
    exact ⟨(Tour.nodup_tour_iff s.subdirs_places h).mp hn,
      Tour.not_deep_iff.mp h⟩

/-- Every check visits the directories once, and ends, exactly if the
directories form a tree that is not too deep and the marks can be
allocated. -/
theorem visitsOnce_iff (h : s.Mountable) :
    VisitsOnce kmalloc s
      ↔ kmalloc s.fat32.clusterCount = true ∧ s.DirTree := by
  constructor
  · intro hv
    obtain ⟨t, hrun, hnodup, -⟩ := hv 0
    have hk : kmalloc s.fat32.clusterCount = true := by
      by_contra hk
      have hnone := fsck_noMemory (Bool.eq_false_iff.mpr hk) 0
      rw [hrun] at hnone
      cases hnone
    have hscans := fsck_scans h hk 0
    have hshallow : ¬ DeepOf s maxLevels s.fat32.rootCluster := by
      intro hdeep
      have hnone := hscans.err rfl hdeep
      rw [hrun] at hnone
      cases hnone
    obtain ⟨t', l, hrun', -, -, hs, -, hl⟩ := hscans.ok hshallow
    cases hrun.symm.trans hrun'
    rw [hs, hl rfl] at hnodup
    exact ⟨hk, (dirTree_iff hshallow).mpr hnodup⟩
  · intro hkt flags
    obtain ⟨hk, ht⟩ := hkt
    have hshallow : ¬ DeepOf s maxLevels s.fat32.rootCluster :=
      Tour.not_deep_iff.mpr ht.depth
    obtain ⟨t', l, hrun, -, -, hs, hsub, -⟩ :=
      (fsck_scans h hk flags).ok hshallow
    refine ⟨t', hrun, ?_, fun hno => absurd ht hno⟩
    rw [hs]
    exact hsub.nodup ((dirTree_iff hshallow).mp ht)

end visits

-- ==== two disks

/-- The driver that has just mounted the smallest disk, with its header in
front of a volume. -/
def headed (v : Vol) : State :=
  .booted smallestEnv (blit (imageOf smallestLayout v)
    (partitionLba * sectorSize) sectorSize (bootSector 66581 1 512 []))

theorem headed_mountable {v : Vol} (ha : (headed v).accepts = true)
    (hL : smallestLayout = (headed v).header.layout (headed v).volumeStart) :
    (headed v).Mountable where
  toBacked := (State.booted_ok smallestEnv_ok _).placed.toBacked
  formatted := rfl
  total_lt := by
    show 68629 < 2 ^ 64
    decide
  accepts := ha
  fat32 := hL

/-- A disk whose root has an entry for a directory that is the root. -/
def loopDisk : State :=
  headed ((freshVol smallestLayout).setEntry ⟨2, 2⟩
    (buildDirEntry (txt "LOOP       ") attrDirectory 2 0))

/-- On that disk the check gives up. -/
theorem loopDisk_not_visitsOnce :
    loopDisk.Mountable ∧ ¬ VisitsOnce (fun _ => true) loopDisk := by
  constructor
  · exact headed_mountable (by decide +kernel) (by decide +kernel)
  · intro h
    obtain ⟨t, hrun, -⟩ := h 0
    have hnone : (fsckFat32 (fun _ => true) 0 (.start loopDisk)).1 = none := by
      decide +kernel
    rw [hrun] at hnone
    cases hnone

/-- The condition at that disk. -/
theorem visitsOnce_iff_loopDisk :
    VisitsOnce (fun _ => true) loopDisk ↔ true = true ∧ loopDisk.DirTree :=
  visitsOnce_iff (headed_mountable (by decide +kernel) (by decide +kernel))

end Clks.Disk
