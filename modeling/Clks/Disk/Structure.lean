/-
The structure of the table over runs.

A fresh volume is a tree with nothing but a root (`Formats.holds`), and
every operation leads from trees to trees. `FatStructure` is what that
means for the table, without owners: the chains of the live entries and
of the root share no cluster, each is as long as it has to be, and no
cluster is taken besides (`fatStructure_run`).
-/
import Clks.Disk.Formatted
import Clks.Disk.Ops

namespace Clks.Disk

open Bytes Linked

set_option maxRecDepth 2000

-- ==== a fresh volume

/-- The driver has found a disk. -/
structure State.Up (s : State) : Prop where
  hwBacked : s.hwBacked = true
  bytesLen : s.bytesLen = s.sectorTotal * sectorSize
  total_le : s.sectorTotal ≤ cacheMaxSectors
  coherent : s.Coherent

/-- The volume was just formatted, and mounted then or before. -/
def FreshVolume (s : State) : Prop :=
  ∃ s₀ s₁ label, s₀.Up ∧ formatFat32 label s₀ = (some (), s₁) ∧
    (s = s₁ ∨ ∃ mountPath, mount mountPath s₁ = (some (), s))

theorem readU32_tableImage (c : Nat) :
    readU32 tableImage (c * 4)
      = if c = 0 then 0x0FFFFFF8 else if c = 1 ∨ c = 2 then eoc else 0 := by
  unfold tableImage
  by_cases h0 : c = 0
  · rw [if_pos h0, h0]
    decide
  by_cases h1 : c = 1
  · rw [if_neg h0, if_pos (.inl h1), h1]
    decide
  by_cases h2 : c = 2
  · rw [if_neg h0, if_pos (.inr h2), h2]
    decide
  rw [if_neg h0, if_neg (by omega), readU32_blit_out (by omega),
    readU32_blit_out (by omega), readU32_blit_out (by omega)]
  simp [readU32]

section fresh

variable {s s' : State} {label : List UInt8} {fs cc : Nat}

theorem freshLayout_fatOffset (T spc fs : Nat) (k c : Nat) :
    (freshLayout T spc fs).fatOffset k c = (2080 + k * fs) * 512 + c * 4 := by
  rw [Layout.fatOffset_eq]
  simp only [freshLayout, BootHeader.layout, freshHeader, partitionLba,
    formatReserved, Nat.reduceAdd]

theorem freshLayout_clusterOffset (T spc fs : Nat) :
    (freshLayout T spc fs).clusterOffset 2 = (2080 + 2 * fs) * 512 := by
  rw [Layout.clusterOffset_eq]
  unfold Layout.lbaOf
  rw [Nat.sub_self, Nat.zero_mul, Nat.add_zero, freshLayout_dataLba]

theorem Formats.rawFat (h : Formats s s' label fs cc)
    (hb : s.hwBacked = true) {k c : Nat} (hk : k < 2)
    (hc : c * 4 + 4 ≤ fs * 512) :
    Disk.rawFat (freshLayout s.freshTotal s.freshSpc fs) s'.hw k c
      = readU32 tableImage (c * 4) := by
  have hle : k * fs + fs ≤ 2 * fs := by
    rw [← Nat.succ_mul]
    exact Nat.mul_le_mul_right fs hk
  unfold Disk.rawFat
  rw [freshLayout_fatOffset]
  have hbyte : ∀ j < 4, s'.hw ((2080 + k * fs) * 512 + c * 4 + j)
      = tableImage (c * 4 + j) := by
    intro j hj
    rw [h.lays.disk hb _ (.inl (.inr ⟨?_, ?_⟩)) _ rfl, Nat.add_assoc,
      freshImage_table _ _ _ hk (by omega)]
    · omega
    · omega
  unfold readU32
  rw [hbyte 1 (by omega), hbyte 2 (by omega), hbyte 3 (by omega),
    show s'.hw ((2080 + k * fs) * 512 + c * 4) = tableImage (c * 4) from
      hbyte 0 (by omega)]

theorem Formats.sound (h : Formats s s' label fs cc)
    (hcov : (freshHeader s.freshTotal s.freshSpc fs).Covers) :
    (freshLayout s.freshTotal s.freshSpc fs).Sound s.sectorTotal := by
  have htotal := h.total_lt
  have hroom := h.room
  unfold State.freshTotal at hroom
  simp only [partitionLba] at hroom
  have hbase : partitionLba ≤ s.sectorTotal := by
    simp only [partitionLba]
    omega
  exact (BootHeader.accepted_checked hbase (by omega) h.accepted).sound hcov

theorem Formats.coherent (h : Formats s s' label fs cc) (hup : s.Up)
    (hlen : s'.bytesLen = s.bytesLen) : s'.Coherent := by
  intro i hi hl
  by_cases hP : i / sectorSize ∈ freshSectors s.freshSpc fs
  · rw [(h.lays.image _ hP).2 i rfl, h.lays.disk hup.hwBacked _ hP i rfl]
  · obtain ⟨hl', hbytes⟩ := h.lays.other _ hP
    rw [hbytes i rfl, h.lays.rest _ hP i rfl]
    rw [hl'] at hl
    exact hup.coherent i (by rwa [← hlen]) hl

theorem Formats.vol_fat (h : Formats s s' label fs cc)
    (hb : s.hwBacked = true)
    (hL : s'.fat32 = freshLayout s.freshTotal s.freshSpc fs)
    (hcov : (freshHeader s.freshTotal s.freshSpc fs).Covers) {c : Nat}
    (hc : c < s'.fat32.clusterCount + 2) :
    s'.vol.fat c
      = if c = 0 then 0x0FFFFFF8 else if c = 1 ∨ c = 2 then eoc else 0 := by
  unfold State.vol volOf
  simp only [if_pos hc]
  rw [hL] at hc ⊢
  have hcov' : ((freshLayout s.freshTotal s.freshSpc fs).clusterCount + 2) * 4
      ≤ fs * 512 := hcov
  rw [h.rawFat hb (by decide) (by omega), readU32_tableImage]
  split_ifs <;> decide

theorem Formats.vol_root (h : Formats s s' label fs cc)
    (hb : s.hwBacked = true)
    (hL : s'.fat32 = freshLayout s.freshTotal s.freshSpc fs)
    (hv : s'.fat32.clusterValid 2 = true) :
    s'.vol.data 2 = dirContent s'.fat32 2 2 := by
  funext k
  unfold State.vol volOf dirContent Layout.clip
  simp only [hv, true_and]
  split_ifs with hk
  · rw [hL, freshLayout_size] at hk
    rw [hL, freshLayout_clusterOffset,
      h.lays.disk hb _ (.inr ⟨by omega, by omega⟩) _ rfl]
    unfold freshImage rootImage
    rw [if_neg (by omega), if_neg (by omega), if_neg (by omega),
      Nat.add_sub_cancel_left]
  · rfl

theorem Formats.holds (h : Formats s s' label fs cc) (hup : s.Up)
    (henv : s'.toEnv = { s.toEnv with
      formatted := true
      fat32 := freshLayout s.freshTotal s.freshSpc fs })
    (hready : s.ready = true)
    (hcov : (freshHeader s.freshTotal s.freshSpc fs).Covers) :
    s'.Holds (Ghost.rootOnly s'.fat32) ∧ s'.Mirrored := by
  have hL : s'.fat32 = freshLayout s.freshTotal s.freshSpc fs :=
    congrArg Env.fat32 henv
  have hs := h.sound hcov
  have hs' : s'.fat32.Sound s.sectorTotal := by rwa [hL]
  have hroot : s'.fat32.rootCluster = 2 := by
    rw [hL]
    rfl
  have hlen : s'.bytesLen = s.bytesLen := by rw [henv]
  have hge := hs'.root_lt
  have hv : s'.fat32.clusterValid 2 = true :=
    (hs'.clusterValid_iff 2).mpr ⟨le_refl _, by omega⟩
  have hok : s'.toEnv.Ok := by
    rw [henv]
    exact ⟨hready, rfl, hup.hwBacked, hup.bytesLen, hup.total_le, hs⟩
  refine ⟨⟨⟨hok, h.coherent hup hlen⟩, ?_, ?_⟩, ?_⟩
  · refine Tree.rootOnly hs' ?_ (fun c h2 hc hne => ?_) fun i hi => ?_
    · rw [hroot, h.vol_fat hup.hwBacked hL hcov (by omega)]
      decide
    · rw [hroot] at hne
      rw [h.vol_fat hup.hwBacked hL hcov hc, if_neg (by omega),
        if_neg (by omega)]
    · rw [hroot]
      exact dirContent_kind hs' (h.vol_root hup.hwBacked hL hv) hi
  · simp [Ghost.rootOnly]
  · intro k hk c hc
    rw [hL] at hk hc ⊢
    have hcov' :
        ((freshLayout s.freshTotal s.freshSpc fs).clusterCount + 2) * 4
          ≤ fs * 512 := hcov
    rw [h.rawFat hup.hwBacked hk (by omega),
      h.rawFat hup.hwBacked (by decide) (by omega)]

theorem mount_ok {mountPath : List UInt8}
    (hrun : mount mountPath s = (some (), s')) :
    ∃ path, s' = { s with mountPath := path, mounted := true } := by
  rw [mount, Cmd.get_bind_apply] at hrun
  obtain ⟨-, hrun⟩ := Cmd.require_ok_inv hrun
  cases hp : Path.normalizeAbsolute mountPath pathMax with
  | none =>
    rw [hp] at hrun
    cases hrun
  | some path =>
    rw [hp] at hrun
    injection hrun with _ hs
    exact ⟨path, hs.symm⟩

theorem FreshVolume.holds (h : FreshVolume s)
    (hcov : (s.fat32.clusterCount + 2) * 4
      ≤ s.fat32.sectorsPerFat * sectorSize) :
    s.Holds (Ghost.rootOnly s.fat32) ∧ s.Mirrored := by
  obtain ⟨s0, s1, label, hup, hrun, hor⟩ := h
  have hready : s0.ready = true := by
    have hr := hrun
    rw [formatFat32, Cmd.get_bind_apply] at hr
    obtain ⟨hr, -⟩ := Cmd.require_ok_inv hr
    rw [Bool.and_eq_true] at hr
    exact hr.1
  obtain ⟨fs, cc, hf, henv, -, -⟩ := formatFat32_ok hrun
  have hL : s1.fat32 = freshLayout s0.freshTotal s0.freshSpc fs :=
    congrArg Env.fat32 henv
  have hholds : (s1.fat32.clusterCount + 2) * 4
      ≤ s1.fat32.sectorsPerFat * sectorSize →
      s1.Holds (Ghost.rootOnly s1.fat32) ∧ s1.Mirrored := by
    intro hcov1
    rw [hL] at hcov1
    exact hf.holds hup henv hready hcov1
  rcases hor with rfl | ⟨mountPath, hmount⟩
  · exact hholds hcov
  · obtain ⟨path, rfl⟩ := mount_ok hmount
    obtain ⟨⟨hok, htree, hidle⟩, hm⟩ := hholds hcov
    refine ⟨⟨⟨?_, hok.coherent⟩, htree, hidle⟩, hm⟩
    exact ⟨hok.ready, hok.formatted, hok.hwBacked, hok.bytesLen, hok.total_le,
      hok.sound⟩

end fresh

-- ==== the whole structure

/-- The cluster belongs to the root, or to the chain of a live entry. -/
def Vol.Belongs (L : Layout) (v : Vol) (o : Option DirSlot) (c : Nat) :
    Prop :=
  match o with
  | none => c ∈ v.clustersOf L L.rootCluster
  | some slot => ∃ isDir first size,
      Live L v.fat v.kind slot isDir first size ∧ c ∈ v.clustersOf L first

/-- What holds of the table at all times, since `s₀`. -/
structure FatStructure (s₀ s : State) : Prop where
  root : s.vol.Chain s.fat32 s.fat32.rootCluster
      (s.vol.clustersOf s.fat32 s.fat32.rootCluster) ∧
    (s.vol.clustersOf s.fat32 s.fat32.rootCluster).Nodup
  chain : ∀ slot isDir first size,
    Live s.fat32 s.vol.fat s.vol.kind slot isDir first size →
    (first = 0 ∧ isDir = false ∧ size = 0) ∨
      s.vol.Chain s.fat32 first (s.vol.clustersOf s.fat32 first) ∧
        (s.vol.clustersOf s.fat32 first).Nodup
  length : ∀ slot first size,
    Live s.fat32 s.vol.fat s.vol.kind slot false first size →
    (s.vol.clustersOf s.fat32 first).length
      = (size + s.fat32.clusterSizeBytes - 1) / s.fat32.clusterSizeBytes
  taken : ∀ c, 2 ≤ c → c < s.fat32.clusterCount + 2 →
    s.vol.fat c ≠ freeCluster → ∃! o, s.vol.Belongs s.fat32 o c
  disjoint : ∀ c o o', s.vol.Belongs s.fat32 o c →
    s.vol.Belongs s.fat32 o' c → o = o'
  copies : ∀ k < s.fat32.fatCount, ∀ c < s.fat32.clusterCount + 2,
    low28 (rawFat s.fat32 s.hw k c) = low28 (rawFat s.fat32 s.hw 0 c)
  topBits : ∀ k < s.fat32.fatCount, ∀ c < s.fat32.clusterCount + 2,
    s.topBits k c = s₀.topBits k c

section table

variable {s s0 : State} {G : Ghost}

theorem State.Holds.belongs_iff (h : s.Holds G) {o : Option DirSlot}
    {c : Nat} : s.vol.Belongs s.fat32 o c ↔
      c ∈ G.own (o.elim .root .entry) := by
  have hs := h.ok.sound
  cases o with
  | none =>
    have hroot : s.vol.clustersOf s.fat32 s.fat32.rootCluster = G.own .root :=
      Vol.Chain.clustersOf hs (h.tree.chain_of_head? h.tree.root_head)
    unfold Vol.Belongs
    rw [hroot]
    rfl
  | some slot =>
    constructor
    · rintro ⟨b, first, size, hlive, hc⟩
      obtain ⟨hin, hk⟩ := h.tree.live_iff.mp hlive
      rwa [h.tree.clustersOf_eq hs hin hk] at hc
    · intro hc
      have hc : c ∈ G.own (.entry slot) := hc
      obtain ⟨hin, b, first, size, hk⟩ :=
        h.tree.own_node slot (List.ne_nil_of_mem hc)
      refine ⟨b, first, size, h.tree.live_iff.mpr ⟨hin, hk⟩, ?_⟩
      rwa [h.tree.clustersOf_eq hs hin hk]

theorem State.Holds.structureOf (h : s.Holds G) (hm : s.Mirrored)
    (htop : ∀ k < s.fat32.fatCount, ∀ c < s.fat32.clusterCount + 2,
      s.topBits k c = s0.topBits k c) : FatStructure s0 s := by
  have hs := h.ok.sound
  have hroot : s.vol.clustersOf s.fat32 s.fat32.rootCluster = G.own .root :=
    Vol.Chain.clustersOf hs (h.tree.chain_of_head? h.tree.root_head)
  have hone : ∀ c o o', s.vol.Belongs s.fat32 o c →
      s.vol.Belongs s.fat32 o' c → o = o' := by
    intro c o o' ho ho'
    rw [h.belongs_iff] at ho ho'
    by_contra hne
    refine h.tree.owned.disjoint _ _ ?_ ho ho'
    intro he
    apply hne
    cases o <;> cases o' <;> simp_all
  constructor
  case root =>
    rw [hroot]
    have hc := h.tree.chain_of_head? h.tree.root_head
    exact ⟨hc, hc.nodup⟩
  case chain =>
    intro slot isDir first size hlive
    obtain ⟨hin, hk⟩ := h.tree.live_iff.mp hlive
    rw [h.tree.clustersOf_eq hs hin hk]
    have hf := h.tree.first slot _ _ _ hin hk
    rcases h.tree.owned.chain (.entry slot) with he | ⟨c, hc⟩
    · -- Only an empty file has no cluster.
      left
      rw [he] at hf
      cases isDir with
      | true =>
        obtain ⟨hd, -⟩ := h.tree.dir_head hin hk
        exact absurd he (h.tree.dir_chain slot hd)
      | false =>
        have hlen := h.tree.file_len slot _ _ hin hk
        rw [he, List.length_nil] at hlen
        exact ⟨hf, rfl,
          (Layout.clustersFor_eq_zero hs.clusterSize_pos).mp hlen.symm⟩
    · right
      obtain ⟨t, ht⟩ := hc.eq_cons
      rw [ht, List.headD_cons] at hf
      rw [hf]
      exact ⟨hc, hc.nodup⟩
  case length =>
    intro slot first size hlive
    obtain ⟨hin, hk⟩ := h.tree.live_iff.mp hlive
    rw [h.tree.clustersOf_eq hs hin hk]
    exact h.tree.file_len slot first size hin hk
  case taken =>
    intro c h2 hc hnf
    have hok : s.fat32.marks.ok c :=
      (hs.ok_iff c).mpr ((hs.clusterValid_iff c).mpr ⟨h2, hc⟩)
    obtain ⟨o, ho⟩ := (h.tree.owned.cover c hok).mp hnf
    have hb : ∃ o, s.vol.Belongs s.fat32 o c := by
      cases o with
      | root => exact ⟨none, h.belongs_iff.mpr ho⟩
      | entry slot => exact ⟨some slot, h.belongs_iff.mpr ho⟩
      | pending =>
        rw [h.idle] at ho
        cases ho
    obtain ⟨o, ho⟩ := hb
    exact ⟨o, ho, fun o' ho' => hone c o' o ho' ho⟩
  case disjoint => exact hone
  case copies => exact hm
  case topBits => exact htop

end table

/-- The structure holds after every run of successful operations on a
fresh volume whose table has an entry for every cluster. -/
theorem fatStructure_run {s s' : State} (hfresh : FreshVolume s)
    (hcov : (s.fat32.clusterCount + 2) * 4
      ≤ s.fat32.sectorsPerFat * sectorSize)
    (hrun : Relation.ReflTransGen Step s s') : FatStructure s s' := by
  obtain ⟨h, hm⟩ := hfresh.holds hcov
  obtain ⟨hmoves, G, h'⟩ := run_consistent ⟨_, h⟩ hrun
  refine h'.structureOf (hmoves.mirrored hm) fun k hk c hc => ?_
  rw [hmoves.fat32] at hk hc
  exact hmoves.topBits k hk c hc

/-- The smallest disk, formatted and mounted at `/temp/disk`. -/
def mountedBlank : State :=
  (mount (txt "/temp/disk") (formatFat32 [] (blankDisk 68629)).2).2

theorem blankDisk_up : (blankDisk 68629).Up where
  hwBacked := rfl
  bytesLen := rfl
  total_le := by decide
  -- Nothing is loaded yet.
  coherent := fun _ _ hl => by cases hl

theorem mountedBlank_fresh : FreshVolume mountedBlank := by
  obtain ⟨s1, hs1⟩ := format_run (blankDisk 68629) []
    (by decide +kernel)
  have hmount : (mount (txt "/temp/disk")
      (formatFat32 [] (blankDisk 68629)).2).1 = some () := by
    decide +kernel
  refine ⟨blankDisk 68629, s1, [], blankDisk_up, hs1,
    .inr ⟨txt "/temp/disk", ?_⟩⟩
  unfold mountedBlank
  rw [hs1] at hmount ⊢
  exact Prod.ext hmount rfl

/-- A directory on the smallest disk. -/
theorem fatStructure_run_mkdir :
    ∃ s', mkdir (txt "/temp/disk/a") mountedBlank = (some (), s') ∧
      FatStructure mountedBlank s' := by
  have hrun : mkdir (txt "/temp/disk/a") mountedBlank
      = (some (), (mkdir (txt "/temp/disk/a") mountedBlank).2) :=
    Prod.ext (by decide +kernel) rfl
  exact ⟨_, hrun, fatStructure_run mountedBlank_fresh (by decide +kernel)
    (.single ⟨.mkdir (txt "/temp/disk/a"), trivial, hrun⟩)⟩

-- ==== calls that may fail

section calls

variable {s s' : State}

/-- A directory is made or an entry removed, or the call fails. -/
inductive DirStep : State → State → Prop
  | mkdir {s : State} (path : List UInt8) : DirStep s (mkdir path s).2
  | remove {s : State} (path : List UInt8) : DirStep s (remove path s).2

theorem DirStep.files (hs : s.Consistent) (hstep : DirStep s s') :
    s'.Consistent ∧ s'.fat32 = s.fat32 ∧ ∀ X l z bytes,
      s'.vol.FileOn s.fat32 X l z bytes → s.vol.FileOn s.fat32 X l z bytes := by
  obtain ⟨G, h⟩ := hs
  cases hstep with
  | mkdir path =>
    rcases mkdir_run h path with
      ⟨s', hrun, hm, hc, hsame⟩ | ⟨s', hrun, hm, hsame⟩
    · rw [hrun]
      exact ⟨hc, hm.fat32, fun X l z bytes => (hsame X l z bytes).mp⟩
    · rw [hrun]
      refine ⟨⟨G, h.same hm hsame⟩, hm.fat32, fun X l z bytes => ?_⟩
      exact (h.tree.fileOn_same h.ok.sound hsame X l z bytes).mp
  | remove path =>
    rcases remove_run h path with
      ⟨lookup, s', hrun, -, -, hm, hc, hup⟩ | ⟨s', P, hrun, hr⟩
    · rw [hrun]
      refine ⟨hc, hm.fat32, fun X l z bytes hon => ?_⟩
      by_cases hX : X = lookup.slot
      · rw [hX] at hon
        exact nomatch (hup.file bytes).mp ⟨l, z, hon⟩
      · exact (hup.others X l z bytes hX).mp hon
    · rw [hrun, hr.vol]
      exact ⟨⟨G, hr.holds h⟩, hr.fat32, fun _ _ _ _ => id⟩

/-- Making directories and removing entries, with any outcome, neither makes
nor moves nor changes a file, and leaves the volume consistent. -/
theorem files_of_dirRun (hs : s.Consistent)
    (hrun : Relation.ReflTransGen DirStep s s') :
    s'.Consistent ∧ s'.fat32 = s.fat32 ∧ ∀ X l z bytes,
      s'.vol.FileOn s.fat32 X l z bytes → s.vol.FileOn s.fat32 X l z bytes := by
  induction hrun with
  | refl => exact ⟨hs, rfl, fun _ _ _ _ => id⟩
  | tail _ hstep ih =>
    obtain ⟨hc, hL, hold⟩ := ih
    obtain ⟨hc', hL', hnew⟩ := hstep.files hc
    rw [hL] at hnew
    exact ⟨hc', hL'.trans hL,
      fun X l z bytes hon => hold X l z bytes (hnew X l z bytes hon)⟩

end calls

theorem mountedBlank_consistent : mountedBlank.Consistent :=
  ⟨_, (mountedBlank_fresh.holds (by decide +kernel)).1⟩

theorem files_of_dirRun_twice : ∃ s', (s' = (mkdir (txt "/temp/disk/a/b")
    (mkdir (txt "/temp/disk/a") mountedBlank).2).2) ∧ s'.Consistent :=
  ⟨_, rfl, (files_of_dirRun mountedBlank_consistent
    (.tail (.single (.mkdir _)) (.mkdir _))).1⟩

end Clks.Disk
