/-
The layouts that the driver accepts.

# What the driver sees

The image stands in for a sector once it is loaded, the hardware does
before that (`State.shown`). Loading changes nothing of what is shown,
so whether a disk is accepted, and with which layout, is a function of
the shown bytes (`parseFat32Layout_run`).
-/
import Clks.Disk.Format
import Clks.Disk.Image

namespace Clks.Disk

open Bytes

set_option maxRecDepth 2000

-- ==== what the driver sees

/-- The bytes of the disk as the driver sees them. -/
def State.shown (s : State) : Mem := fun i =>
  if s.hwBacked && !s.loaded (i / 512) then s.hw i else s.bytes i

/-- Where the volume of a disk starts. -/
def State.volumeStart (s : State) : Nat :=
  if hasBootSig s.shown 0 && hasFat32Type s.shown 0 then 0 else partitionLba

/-- The header of the volume. -/
def State.header (s : State) : BootHeader :=
  readBootHeader s.shown (s.volumeStart * sectorSize)

/-- The disk has a volume that the driver accepts. -/
def State.accepts (s : State) : Bool :=
  s.ready && s.volumeStart * sectorSize + sectorSize ≤ s.bytesLen &&
    (hasBootSig s.shown (s.volumeStart * sectorSize) &&
      hasFat32Type s.shown (s.volumeStart * sectorSize)) &&
    s.header.accepted s.sectorTotal s.volumeStart

section shown

variable {s s' : State}

theorem State.shown_of_loaded {i : Nat} (h : s.loaded (i / 512) = true) :
    s.shown i = s.bytes i := by
  simp [State.shown, h]

theorem State.loadSector_shown {lba : Nat} (hb : s.hwBacked = true)
    (hl : s.loaded lba = false) : (s.loadSector lba).shown = s.shown := by
  funext i
  have hb' : (s.loadSector lba).hwBacked = true := hb
  by_cases hi : i / 512 = lba
  · have hin : (s.loadSector lba).bytes i = s.hw i := by
      simp only [loadSector, sectorSize]
      rw [blit_in (by omega) (by omega)]
      congr 1
      omega
    have hloaded : (s.loadSector lba).loaded (i / 512) = true := by
      simp [loadSector, hi]
    rw [State.shown_of_loaded hloaded, hin]
    simp [State.shown, hb, hi, hl]
  · have hout : (s.loadSector lba).bytes i = s.bytes i := by
      simp only [loadSector, sectorSize]
      exact blit_out (by omega)
    have hloaded : (s.loadSector lba).loaded (i / 512) = s.loaded (i / 512) := by
      simp [loadSector, hi]
    simp only [State.shown, hb', hb, hloaded, hout]
    rfl

theorem State.loadLoop_shown (n lba : Nat) (hb : s.hwBacked = true) :
    (State.loadLoop n lba s).shown = s.shown := by
  induction n generalizing lba s with
  | zero => rfl
  | succ n ih =>
    rw [State.loadLoop]
    by_cases hl : s.loaded lba = true
    · rw [if_pos hl]
      exact ih _ hb
    · rw [if_neg hl, ih _ (by exact hb)]
      exact State.loadSector_shown hb (by simpa using hl)

theorem State.loadLoop_idle {n lba : Nat}
    (h : ∀ l, lba ≤ l → l < lba + n → s.loaded l = true) :
    State.loadLoop n lba s = s := by
  induction n generalizing lba with
  | zero => rfl
  | succ n ih =>
    rw [State.loadLoop, if_pos (h lba (le_refl _) (by omega))]
    exact ih fun l h1 h2 => h l (by omega) (by omega)

/-- What loading a sector leaves behind: the disk as it was shown, with
the sector in the image. -/
structure Shows (s s' : State) (lba : Nat) : Prop where
  env : s'.toEnv = s.toEnv
  hint : s'.allocHint = s.allocHint
  shown : s'.shown = s.shown
  bytes : ∀ i, lba * 512 ≤ i → i < lba * 512 + 512 → s'.bytes i = s.shown i

theorem ensureLoadedRange_shows (lba : Nat)
    (hr : lba * 512 + 512 ≤ s.bytesLen) :
    ∃ s', ensureLoadedRange (lba * 512) 512 s = (some (), s') ∧
      Shows s s' lba ∧
        ((s.hwBacked = true → s.loaded lba = true) → s' = s) := by
  have hv : s.bytesRangeValid (lba * 512) 512 = true := by
    simp only [State.bytesRangeValid, Bool.and_eq_true, decide_eq_true_eq]
    omega
  have hcount : (lba * 512 + 512 + (sectorSize - 1)) / sectorSize
      - lba = 1 := by
    simp only [sectorSize]
    omega
  have hstart : lba * 512 / sectorSize = lba := by
    simp only [sectorSize]
    omega
  rw [ensureLoadedRange, Cmd.get_bind_apply, if_neg (by decide)]
  rw [Cmd.require_bind hv]
  simp only [hcount, hstart]
  by_cases hb : s.hwBacked = true
  · rw [if_pos hb]
    refine ⟨_, rfl, ⟨(State.loadLoop_reads _ _ s).env,
      (State.loadLoop_reads _ _ s).hint, State.loadLoop_shown _ _ hb,
      fun i h1 h2 => ?_⟩, fun hl => ?_⟩
    · rw [← State.loadLoop_shown 1 lba hb]
      exact (State.shown_of_loaded
        (State.loadLoop_loaded s (by omega) (by omega))).symm
    · refine State.loadLoop_idle fun l h1 h2 => ?_
      obtain rfl : l = lba := by omega
      exact hl hb
  · rw [if_neg hb]
    refine ⟨s, rfl, ⟨rfl, rfl, rfl, fun i _ _ => ?_⟩, fun _ => rfl⟩
    simp [State.shown, hb]

end shown

-- ==== the header

section header

variable {m m' : Mem} {boot boot' : Nat}

theorem readBootHeader_congr (h : ∀ k < 512, m (boot + k) = m' (boot' + k)) :
    readBootHeader m boot = readBootHeader m' boot' := by
  have h1 : ∀ off, off + 2 ≤ 512 →
      readU16 m (boot + off) = readU16 m' (boot' + off) := by
    intro off hoff
    unfold readU16
    rw [Nat.add_assoc, Nat.add_assoc, h off (by omega), h (off + 1) (by omega)]
  have h2 : ∀ off, off + 4 ≤ 512 →
      readU32 m (boot + off) = readU32 m' (boot' + off) := by
    intro off hoff
    unfold readU32
    simp only [Nat.add_assoc]
    rw [h off (by omega), h (off + 1) (by omega), h (off + 2) (by omega),
      h (off + 3) (by omega)]
  unfold readBootHeader
  rw [h1 11 (by omega), h1 14 (by omega), h1 19 (by omega),
    h2 36 (by omega), h2 44 (by omega), h2 32 (by omega),
    h 13 (by omega), h 16 (by omega)]

theorem hasBootSig_congr (h : ∀ k < 512, m (boot + k) = m' (boot' + k)) :
    hasBootSig m boot = hasBootSig m' boot' := by
  unfold hasBootSig
  simp only [bootSigOffset, Nat.add_assoc]
  rw [h 510 (by omega), h (510 + 1) (by omega)]

theorem hasFat32Type_congr (h : ∀ k < 512, m (boot + k) = m' (boot' + k)) :
    hasFat32Type m boot = hasFat32Type m' boot' := by
  unfold hasFat32Type
  have hl : (List.range 5).map (fun k => m (boot + fat32TypeOffset + k))
      = (List.range 5).map fun k => m' (boot' + fat32TypeOffset + k) := by
    refine List.map_congr_left fun k hk => ?_
    have hk := List.mem_range.mp hk
    simp only [fat32TypeOffset, Nat.add_assoc]
    exact h _ (by omega)
  rw [hl]

end header

-- ==== parsing

section parse

variable {s : State}

theorem findVolume_run (h : sectorSize ≤ s.bytesLen) :
    (∃ s', findVolume s = (some s.volumeStart, s') ∧
      Shows s s' s.volumeStart ∧
      s.volumeStart * 512 + 512 ≤ s.bytesLen ∧
      ((s.hwBacked = true → s.loaded 0 = true ∧
        s.loaded partitionLba = true) → s' = s)) ∨
    (∃ s', findVolume s = (none, s') ∧ s'.toEnv = s.toEnv ∧
      s.bytesLen < s.volumeStart * 512 + 512) := by
  simp only [sectorSize] at h
  obtain ⟨s1, hrun1, h1, hidle1⟩ :=
    ensureLoadedRange_shows 0 (s := s) (by omega)
  have hbytes : ∀ k < 512, s1.bytes (0 + k) = s.shown (0 + k) :=
    fun k hk => h1.bytes _ (by omega) (by omega)
  have hsig := hasBootSig_congr hbytes
  have htype := hasFat32Type_congr hbytes
  have hlen : s1.bytesLen = s.bytesLen := congrArg Env.bytesLen h1.env
  have hrun0 : ensureLoadedRange 0 sectorSize s = (some (), s1) := hrun1
  unfold findVolume State.volumeStart
  rw [Cmd.bind_ok hrun0, Cmd.get_bind_apply, hsig, htype]
  by_cases hb : (hasBootSig s.shown 0 && hasFat32Type s.shown 0) = true
  · left
    rw [if_pos hb, if_pos hb]
    exact ⟨s1, rfl, h1, by omega, fun hl => hidle1 fun hb => (hl hb).1⟩
  rw [if_neg hb, if_neg hb, hlen]
  simp only [partitionLba, sectorSize]
  by_cases hr : 2048 * 512 + 512 ≤ s.bytesLen
  · left
    obtain ⟨s2, hrun2, h2, hidle2⟩ :=
      ensureLoadedRange_shows 2048 (s := s1) (by omega)
    have hok : (decide (2048 * 512 ≤ s.bytesLen)
        && decide (512 ≤ s.bytesLen - 2048 * 512)) = true := by
      rw [Bool.and_eq_true, decide_eq_true_eq, decide_eq_true_eq]
      omega
    have hidle : (s.hwBacked = true → s.loaded 0 = true ∧
        s.loaded 2048 = true) → s2 = s := by
      intro hl
      obtain rfl := hidle1 fun hb => (hl hb).1
      exact hidle2 fun hb => (hl hb).2
    refine ⟨s2, ?_, ⟨h2.env.trans h1.env, h2.hint.trans h1.hint,
      h2.shown.trans h1.shown, fun i hi hi' => ?_⟩, hr, hidle⟩
    · rw [Cmd.require_bind hok, Cmd.bind_ok hrun2, Cmd.pure_apply]
    · rw [h2.bytes i hi hi', h1.shown]
  · right
    have hno : (decide (2048 * 512 ≤ s.bytesLen)
        && decide (512 ≤ s.bytesLen - 2048 * 512)) = false := by
      rw [Bool.and_eq_false_iff, decide_eq_false_iff_not,
        decide_eq_false_iff_not]
      omega
    exact ⟨s1, Cmd.require_bind_err hno, h1.env, by omega⟩

theorem parseFat32Layout_run (s : State) :
    ∃ s', parseFat32Layout s
        = (if s.accepts then some () else none, s') ∧
      (s.accepts = true →
        s'.toEnv = { s.toEnv with fat32 := s.header.layout s.volumeStart } ∧
        s'.allocHint = 2 ∧ s'.shown = s.shown ∧
        ((s.hwBacked = true → s.loaded 0 = true ∧
            s.loaded partitionLba = true) →
          s'.bytes = s.bytes ∧ s'.loaded = s.loaded ∧ s'.hw = s.hw)) := by
  set s0 : State := { s with fat32 := Layout.zero, allocHint := 2 } with hs0
  have hstart : s0.volumeStart = s.volumeStart := rfl
  have hshown : s0.shown = s.shown := rfl
  rw [parseFat32Layout, Cmd.modify_bind_apply, Cmd.get_bind_apply]
  -- The guards, one after the other.
  by_cases hready : (s.ready && decide (sectorSize ≤ s.bytesLen)) = true
  swap
  · have hno : s.accepts = false := by
      rw [Bool.not_eq_true, Bool.and_eq_false_iff,
        decide_eq_false_iff_not] at hready
      unfold State.accepts
      rcases hready with hr | hr
      · rw [hr]
        rfl
      · have hlt : ¬ s.volumeStart * sectorSize + sectorSize ≤ s.bytesLen := by
          omega
        rw [decide_eq_false hlt, Bool.and_false]
        rfl
    rw [hno, if_neg (by decide)]
    exact ⟨s0, Cmd.require_bind_err (by simpa using hready),
      fun h => by cases h⟩
  rw [Cmd.require_bind hready]
  rw [Bool.and_eq_true, decide_eq_true_eq] at hready
  rcases findVolume_run (s := s0) hready.2 with
    ⟨s1, hrun1, h1, hr, hidle⟩ | ⟨s1, hrun1, -, hr⟩
  swap
  · have hlt : ¬ s.volumeStart * sectorSize + sectorSize ≤ s.bytesLen :=
      Nat.not_le_of_lt hr
    have hno : s.accepts = false := by
      unfold State.accepts
      rw [decide_eq_false hlt, Bool.and_false]
      rfl
    rw [hno, if_neg (by decide)]
    exact ⟨s1, Cmd.bind_err hrun1, fun h => by cases h⟩
  have hr' : s.volumeStart * sectorSize + sectorSize ≤ s.bytesLen := hr
  rw [Cmd.bind_ok hrun1, Cmd.get_bind_apply, hstart]
  rw [hstart] at h1
  have hbytes : ∀ k < 512, s1.bytes (s.volumeStart * 512 + k)
      = s.shown (s.volumeStart * 512 + k) :=
    fun k hk => h1.bytes _ (by omega) (by omega)
  have htotal : s1.sectorTotal = s0.sectorTotal :=
    congrArg Env.sectorTotal h1.env
  rw [show s0.sectorTotal = s.sectorTotal from rfl] at htotal
  have hhead : readBootHeader s1.bytes (s.volumeStart * 512) = s.header :=
    readBootHeader_congr hbytes
  have hacc : s.accepts
      = ((hasBootSig s.shown (s.volumeStart * 512) &&
          hasFat32Type s.shown (s.volumeStart * 512)) &&
        s.header.accepted s.sectorTotal s.volumeStart) := by
    unfold State.accepts
    rw [hready.1, decide_eq_true hr']
    rfl
  rw [hacc]
  simp only [sectorSize]
  rw [hasBootSig_congr hbytes, hasFat32Type_congr hbytes, hhead, htotal]
  by_cases hsig : (hasBootSig s.shown (s.volumeStart * 512) &&
      hasFat32Type s.shown (s.volumeStart * 512)) = true
  swap
  · rw [Bool.not_eq_true] at hsig
    rw [hsig, Bool.false_and, if_neg (by decide)]
    exact ⟨s1, rfl, fun h => by cases h⟩
  rw [Cmd.require_bind hsig, hsig, Bool.true_and]
  by_cases hok : s.header.accepted s.sectorTotal s.volumeStart = true
  swap
  · rw [Bool.not_eq_true] at hok
    rw [hok, if_neg (by decide)]
    exact ⟨s1, rfl, fun h => by cases h⟩
  rw [Cmd.require_bind hok, if_pos hok]
  refine ⟨_, rfl, fun _ => ⟨?_, h1.hint, ?_, fun hl => ?_⟩⟩
  · exact congrArg (fun e : Env =>
      { e with fat32 := s.header.layout s.volumeStart }) h1.env
  · exact h1.shown.trans hshown
  · obtain rfl := hidle hl
    exact ⟨rfl, rfl, rfl⟩

theorem parseFat32Layout_ok {s' : State}
    (hrun : parseFat32Layout s = (some (), s')) :
    s.accepts = true ∧ s'.fat32 = s.header.layout s.volumeStart := by
  obtain ⟨s1, hrun1, hok⟩ := parseFat32Layout_run s
  rw [hrun] at hrun1
  by_cases ha : s.accepts = true
  · rw [if_pos ha] at hrun1
    injection hrun1 with _ hs
    subst hs
    exact ⟨ha, congrArg Env.fat32 (hok ha).1⟩
  · rw [if_neg ha] at hrun1
    injection hrun1 with h
    cases h

end parse

-- ==== laid-out volumes

namespace Layout

/-- The sectors in front of the table. -/
def reservedArea (L : Layout) : Set Nat :=
  Set.Ico L.volumeLba (L.volumeLba + L.reservedSectors)

/-- The sectors of a copy of the table. -/
def fatCopy (L : Layout) (k : Nat) : Set Nat :=
  Set.Ico (L.fatLba + k * L.sectorsPerFat)
    (L.fatLba + k * L.sectorsPerFat + L.sectorsPerFat)

/-- The sectors behind the table. -/
def dataArea (L : Layout) : Set Nat :=
  Set.Ico L.dataLba (L.volumeLba + L.totalSectors)

/-- The regions of a volume are apart, and every cluster has its entry
in every copy of the table and its data inside the volume and the
disk. -/
structure Laid (L : Layout) (total : Nat) : Prop where
  entry : ∀ c, L.clusterValid c = true → ∀ k < L.fatCount, ∀ j < 4,
    (L.fatOffset k c + j) / sectorSize ∈ L.fatCopy k
  volume : ∀ c, L.clusterValid c = true → L.clusterSectors c ⊆ L.dataArea
  disk : ∀ c, L.clusterValid c = true → ∀ l ∈ L.clusterSectors c, l < total
  reserved_fat : ∀ k < L.fatCount, Disjoint L.reservedArea (L.fatCopy k)
  fat_fat : ∀ k < L.fatCount, ∀ k' < L.fatCount, k ≠ k' →
    Disjoint (L.fatCopy k) (L.fatCopy k')
  reserved_data : Disjoint L.reservedArea L.dataArea
  fat_data : ∀ k < L.fatCount, Disjoint (L.fatCopy k) L.dataArea

end Layout

/-- The table is long enough for the clusters. -/
def BootHeader.Covers (h : BootHeader) : Prop :=
  (h.clusterCount + 2) * 4 ≤ h.sectorsPerFat * sectorSize

section laid

variable {h : BootHeader} {total base : Nat}

/-- What the checks on the fields say. -/
structure BootHeader.Checked (h : BootHeader) (total base : Nat) : Prop where
  bytes : h.bytesPerSector = sectorSize
  spc_pos : 0 < h.sectorsPerCluster
  reserved_pos : 0 < h.reservedSectors
  fats_pos : 0 < h.fatCount
  root_ge : 2 ≤ h.rootCluster
  room : base + h.totalSectors ≤ total
  meta_lt : h.metaSectors < h.totalSectors
  count_ge : minClusterCount ≤ h.clusterCount
  count_le : h.clusterCount ≤ maxClusterCount
  root_lt : h.rootCluster < h.clusterCount + 2

theorem BootHeader.accepted_checked (hbase : base ≤ total)
    (htotal : total < 2 ^ 64) (ha : h.accepted total base = true) :
    h.Checked total base := by
  unfold BootHeader.accepted at ha
  simp only [Bool.and_eq_true, decide_eq_true_eq] at ha
  obtain ⟨⟨⟨⟨⟨⟨⟨hb, hspc, -⟩, ⟨⟨hres, hfats⟩, -⟩, -⟩, hroot⟩, hroom⟩, hmeta⟩,
    hge, hle⟩, hlt⟩ := ha
  have hsub : (total + 2 ^ 64 - base) % 2 ^ 64 = total - base := by
    have he : total + 2 ^ 64 - base = total - base + 2 ^ 64 := by omega
    rw [he, Nat.add_mod_right, Nat.mod_eq_of_lt (by omega)]
  rw [hsub] at hroom
  exact ⟨hb, Nat.pos_of_ne_zero hspc, Nat.pos_of_ne_zero hres, hfats, hroot,
    by omega, hmeta, hge, hle, hlt⟩

theorem BootHeader.clusters_fit (h : BootHeader) :
    h.metaSectors + h.clusterCount * h.sectorsPerCluster
      ≤ max h.metaSectors h.totalSectors := by
  have := Nat.div_mul_le_self (h.totalSectors - h.metaSectors)
    h.sectorsPerCluster
  unfold BootHeader.clusterCount
  omega

theorem BootHeader.Checked.placed (hc : h.Checked total base) :
    (h.layout base).Placed total where
  valid := rfl
  spc_pos := hc.spc_pos
  fats_pos := hc.fats_pos
  size := rfl
  entries := by
    show h.sectorsPerCluster * 512 / 32 = h.sectorsPerCluster * 16
    omega
  data := by simp only [BootHeader.layout]
  fits := by
    have hfit := h.clusters_fit
    rw [Nat.max_eq_right hc.meta_lt.le] at hfit
    have hroom := hc.room
    unfold BootHeader.metaSectors at hfit
    simp only [BootHeader.layout]
    omega

theorem BootHeader.Checked.sound (hc : h.Checked total base)
    (hcov : h.Covers) : (h.layout base).Sound total where
  valid := hc.placed.valid
  spc_pos := hc.placed.spc_pos
  fats_pos := hc.placed.fats_pos
  size := hc.placed.size
  entries := hc.placed.entries
  data := hc.placed.data
  covers := hcov
  fits := hc.placed.fits
  count_le := by
    have := hc.count_le
    simp only [BootHeader.layout, maxClusterCount] at this ⊢
    omega
  root_ge := hc.root_ge
  root_lt := hc.root_lt

theorem BootHeader.layout_valid (h : BootHeader) (base : Nat) {c : Nat} :
    (h.layout base).clusterValid c = true ↔ 2 ≤ c ∧ c < h.clusterCount + 2 := by
  unfold Layout.clusterValid
  simp only [Bool.and_eq_true, decide_eq_true_eq]
  simp only [BootHeader.layout, true_and]

theorem BootHeader.Checked.clusterSectors (hc : h.Checked total base)
    {c l : Nat} (hcv : (h.layout base).clusterValid c = true)
    (hl : l ∈ (h.layout base).clusterSectors c) :
    (h.layout base).dataLba ≤ l ∧ l < base + h.totalSectors := by
  have hfit := h.clusters_fit
  rw [Nat.max_eq_right hc.meta_lt.le] at hfit
  have hc2 := (h.layout_valid base).mp hcv
  have hmul : (c - 2) * h.sectorsPerCluster + h.sectorsPerCluster
      ≤ h.clusterCount * h.sectorsPerCluster := by
    rw [← Nat.succ_mul]
    exact Nat.mul_le_mul_right _ (by omega)
  obtain ⟨h1, h2⟩ := hl
  unfold Layout.lbaOf at h1 h2
  unfold BootHeader.metaSectors at hfit
  simp only [BootHeader.layout] at h1 h2 ⊢
  omega

theorem BootHeader.Checked.laid_iff_covers (hc : h.Checked total base) :
    (h.layout base).Laid total ↔ h.Covers := by
  have hge := hc.count_ge
  simp only [minClusterCount] at hge
  constructor
  · intro hlaid
    have hvalid : (h.layout base).clusterValid (h.clusterCount + 1) = true :=
      (h.layout_valid base).mpr ⟨by omega, by omega⟩
    have hlast := (hlaid.entry _ hvalid 0 hc.fats_pos 3 (by omega)).2
    rw [Layout.fatOffset_eq] at hlast
    simp only [BootHeader.layout, sectorSize] at hlast
    unfold BootHeader.Covers
    simp only [sectorSize]
    omega
  · intro hcov
    unfold BootHeader.Covers at hcov
    simp only [sectorSize] at hcov
    have hcopy : ∀ k < h.fatCount, k * h.sectorsPerFat + h.sectorsPerFat
        ≤ h.fatCount * h.sectorsPerFat := by
      intro k hk
      rw [← Nat.succ_mul]
      exact Nat.mul_le_mul_right _ hk
    have hnext : ∀ k k', k < k' → k * h.sectorsPerFat + h.sectorsPerFat
        ≤ k' * h.sectorsPerFat := by
      intro k k' hk
      rw [← Nat.succ_mul]
      exact Nat.mul_le_mul_right _ hk
    constructor
    case entry =>
      intro c hcv k hk j hj
      have hc2 := (h.layout_valid base).mp hcv
      rw [Layout.fatOffset_eq]
      simp only [Layout.fatCopy, BootHeader.layout, sectorSize, Set.mem_Ico]
      omega
    case volume =>
      intro c hcv l hl
      exact hc.clusterSectors hcv hl
    case disk =>
      intro c hcv l hl
      have := (hc.clusterSectors hcv hl).2
      have := hc.room
      omega
    case reserved_fat =>
      intro k _
      rw [Set.disjoint_left]
      intro l hl hl'
      simp only [Layout.reservedArea, Layout.fatCopy, BootHeader.layout,
        Set.mem_Ico] at hl hl'
      omega
    case fat_fat =>
      intro k _ k' _ hne
      rw [Set.disjoint_left]
      intro l hl hl'
      simp only [Layout.fatCopy, BootHeader.layout, Set.mem_Ico] at hl hl'
      rcases Nat.lt_or_gt_of_ne hne with hlt | hlt
      · have := hnext k k' hlt
        omega
      · have := hnext k' k hlt
        omega
    case reserved_data =>
      rw [Set.disjoint_left]
      intro l hl hl'
      simp only [Layout.reservedArea, Layout.dataArea, BootHeader.layout,
        Set.mem_Ico] at hl hl'
      omega
    case fat_data =>
      intro k hk
      have := hcopy k hk
      rw [Set.disjoint_left]
      intro l hl hl'
      simp only [Layout.fatCopy, Layout.dataArea, BootHeader.layout,
        Set.mem_Ico] at hl hl'
      omega

end laid

theorem State.accepts_checked {s : State}
    (hlen : s.bytesLen = s.sectorTotal * sectorSize)
    (htotal : s.sectorTotal < 2 ^ 64) (ha : s.accepts = true) :
    s.header.Checked s.sectorTotal s.volumeStart := by
  unfold State.accepts at ha
  simp only [Bool.and_eq_true, decide_eq_true_eq, sectorSize] at ha hlen
  obtain ⟨⟨⟨-, hr⟩, -⟩, hacc⟩ := ha
  exact BootHeader.accepted_checked (by omega) htotal hacc

/-- An accepted disk is laid out as the driver expects exactly if its
table has an entry for every cluster that the header counts. -/
theorem laid_iff {s s' : State}
    (hlen : s.bytesLen = s.sectorTotal * sectorSize)
    (htotal : s.sectorTotal < 2 ^ 64)
    (hrun : parseFat32Layout s = (some (), s')) :
    s'.fat32.Laid s.sectorTotal ↔ s.header.Covers := by
  obtain ⟨ha, hL⟩ := parseFat32Layout_ok hrun
  rw [hL]
  exact (State.accepts_checked hlen htotal ha).laid_iff_covers

/-- A driver that has just started on the smallest disk, whose header
gives the table a single sector. -/
def shortTable : State :=
  .booted { smallestEnv with formatted := false, mounted := false }
    (blit (fun _ => 0) (partitionLba * sectorSize) sectorSize
      (bootSector 66581 1 1 []))

theorem shortTable_parses :
    ∃ s', parseFat32Layout shortTable = (some (), s') := by
  obtain ⟨s', hrun, -⟩ := parseFat32Layout_run shortTable
  have ha : shortTable.accepts = true := by decide +kernel
  rw [if_pos ha] at hrun
  exact ⟨s', hrun⟩

/-- That disk is accepted and is not laid out. -/
theorem shortTable_not_laid :
    ∃ s', parseFat32Layout shortTable = (some (), s') ∧
      ¬ s'.fat32.Laid shortTable.sectorTotal := by
  obtain ⟨s', hrun⟩ := shortTable_parses
  refine ⟨s', hrun, ?_⟩
  obtain ⟨ha, hL⟩ := parseFat32Layout_ok hrun
  rw [hL, (State.accepts_checked rfl (by decide) ha).laid_iff_covers]
  unfold BootHeader.Covers
  decide +kernel

/-- The condition at that disk. -/
theorem laid_iff_shortTable :
    ∃ s', parseFat32Layout shortTable = (some (), s') ∧
      (s'.fat32.Laid shortTable.sectorTotal ↔ shortTable.header.Covers) := by
  obtain ⟨s', hrun⟩ := shortTable_parses
  exact ⟨s', hrun, laid_iff rfl (by decide) hrun⟩

end Clks.Disk
