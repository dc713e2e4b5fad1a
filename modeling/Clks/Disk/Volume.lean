/-
The volume that a sector image holds: the links of its table and the
bytes of its clusters.
-/
import Clks.Disk.Fat

namespace Clks.Disk

open Bytes

-- ==== sound geometry

/-- A layout that fits a disk of `total` sectors: the regions follow one
another inside the disk, and the table has an entry for every cluster. -/
structure Layout.Sound (L : Layout) (total : Nat) : Prop where
  valid : L.valid = true
  spc_pos : 0 < L.sectorsPerCluster
  fats_pos : 0 < L.fatCount
  size : L.clusterSizeBytes = L.sectorsPerCluster * sectorSize
  entries : L.entriesPerCluster = L.sectorsPerCluster * 16
  data : L.dataLba = L.fatLba + L.fatCount * L.sectorsPerFat
  covers : (L.clusterCount + 2) * 4 ≤ L.sectorsPerFat * sectorSize
  fits : L.dataLba + L.clusterCount * L.sectorsPerCluster ≤ total
  count_le : L.clusterCount + 2 ≤ 0x0FFFFFF7
  root_ge : 2 ≤ L.rootCluster
  root_lt : L.rootCluster < L.clusterCount + 2

/-- The driver is up on a formatted disk whose layout is sound. -/
structure Env.Ok (e : Env) : Prop where
  ready : e.ready = true
  formatted : e.formatted = true
  hwBacked : e.hwBacked = true
  bytesLen : e.bytesLen = e.sectorTotal * sectorSize
  total_le : e.sectorTotal ≤ cacheMaxSectors
  sound : e.fat32.Sound e.sectorTotal

/-- A loaded sector is a copy of its hardware sector. -/
def State.Coherent (s : State) : Prop :=
  ∀ i < s.bytesLen, s.loaded (i / sectorSize) = true → s.bytes i = s.hw i

/-- The states the driver's functions are specified on. -/
structure State.Ok (s : State) : Prop extends s.toEnv.Ok where
  coherent : s.Coherent

/-- A layout whose regions follow one another inside the disk. The table
may be short of entries. -/
structure Layout.Placed (L : Layout) (total : Nat) : Prop where
  valid : L.valid = true
  spc_pos : 0 < L.sectorsPerCluster
  fats_pos : 0 < L.fatCount
  size : L.clusterSizeBytes = L.sectorsPerCluster * sectorSize
  entries : L.entriesPerCluster = L.sectorsPerCluster * 16
  data : L.dataLba = L.fatLba + L.fatCount * L.sectorsPerFat
  fits : L.dataLba + L.clusterCount * L.sectorsPerCluster ≤ total

/-- The image and the hardware belong together. -/
structure State.Backed (s : State) : Prop where
  hwBacked : s.hwBacked = true
  bytesLen : s.bytesLen = s.sectorTotal * sectorSize
  coherent : s.Coherent

/-- The states of a disk whose table may be short. -/
structure State.Placed (s : State) : Prop extends s.Backed where
  layout : s.fat32.Placed s.sectorTotal

theorem Layout.Sound.placed {L : Layout} {total : Nat} (h : L.Sound total) :
    L.Placed total :=
  ⟨h.valid, h.spc_pos, h.fats_pos, h.size, h.entries, h.data, h.fits⟩

theorem State.Ok.placed {s : State} (h : s.Ok) : s.Placed :=
  ⟨⟨h.hwBacked, h.bytesLen, h.coherent⟩, h.sound.placed⟩

-- ==== the volume

/-- Offset of the entry of `cluster` in copy `k` of the table. -/
def Layout.fatOffset (L : Layout) (k cluster : Nat) : Nat :=
  (L.fatLba + k * L.sectorsPerFat) * sectorSize + cluster * 4

/-- The sectors before the data area. -/
def Layout.tableSectors (L : Layout) : Set Nat := {l | l < L.dataLba}

/-- The sectors of a cluster. -/
def Layout.clusterSectors (L : Layout) (cluster : Nat) : Set Nat :=
  {l | L.lbaOf cluster ≤ l ∧ l < L.lbaOf cluster + L.sectorsPerCluster}

/-- Offset of the first byte of a cluster. -/
def Layout.clusterOffset (L : Layout) (cluster : Nat) : Nat :=
  L.lbaOf cluster * sectorSize

/-- The links and the contents of the clusters. -/
@[ext] structure Vol where
  fat : Nat → Nat
  data : Nat → Nat → UInt8

/-- The entry of `cluster` in copy `k` of the table, all 32 bits. -/
def rawFat (L : Layout) (hw : Mem) (k cluster : Nat) : Nat :=
  readU32 hw (L.fatOffset k cluster)

/-- The volume on the hardware sectors. Outside the table and outside a
cluster it reads zero, so that volumes are equal when their entries and
contents are. -/
def volOf (L : Layout) (hw : Mem) : Vol where
  fat c := if c < L.clusterCount + 2 then low28 (rawFat L hw 0 c) else 0
  data c k :=
    if L.clusterValid c ∧ k < L.clusterSizeBytes then
      hw (L.clusterOffset c + k)
    else 0

/-- The volume of a state. -/
def State.vol (s : State) : Vol := volOf s.fat32 s.hw

theorem State.vol_data {s : State} {c k : Nat}
    (hc : s.fat32.clusterValid c = true)
    (hk : k < s.fat32.clusterSizeBytes) :
    s.vol.data c k = s.hw (s.fat32.clusterOffset c + k) := by
  unfold State.vol volOf
  exact if_pos ⟨hc, hk⟩

/-- All copies of the table agree on the links. -/
def State.Mirrored (s : State) : Prop :=
  ∀ k < s.fat32.fatCount, ∀ c < s.fat32.clusterCount + 2,
    low28 (rawFat s.fat32 s.hw k c) = low28 (rawFat s.fat32 s.hw 0 c)

/-- The top four bits of a table entry. -/
def State.topBits (s : State) (k cluster : Nat) : Nat :=
  rawFat s.fat32 s.hw k cluster / 2 ^ 28

namespace Vol

/-- Set one link. -/
def setFat (v : Vol) (cluster value : Nat) : Vol :=
  { v with fat := Function.update v.fat cluster value }

/-- Set the contents of one cluster. -/
def setData (v : Vol) (cluster : Nat) (content : Nat → UInt8) : Vol :=
  { v with data := Function.update v.data cluster content }

@[simp] theorem setFat_fat_self (v : Vol) (c x : Nat) :
    (v.setFat c x).fat c = x := by
  simp [setFat]

theorem setFat_fat_ne (v : Vol) {c c' : Nat} (x : Nat) (h : c' ≠ c) :
    (v.setFat c x).fat c' = v.fat c' := by
  simp [setFat, h]

@[simp] theorem setFat_data (v : Vol) (c x : Nat) :
    (v.setFat c x).data = v.data := rfl

@[simp] theorem setData_fat (v : Vol) (c : Nat) (d : Nat → UInt8) :
    (v.setData c d).fat = v.fat := rfl

@[simp] theorem setData_data_self (v : Vol) (c : Nat) (d : Nat → UInt8) :
    (v.setData c d).data c = d := by
  simp [setData]

theorem setData_data_ne (v : Vol) {c c' : Nat} (d : Nat → UInt8)
    (h : c' ≠ c) : (v.setData c d).data c' = v.data c' := by
  simp [setData, h]

end Vol

-- ==== the two kinds of step

/-- The image keeps its bytes in the sectors that are not loaded. -/
def Unloaded (s s' : State) : Prop :=
  ∀ l, s'.loaded l = false → ∀ i, i / 512 = l → s'.bytes i = s.bytes i

/-- What a read leaves behind: perhaps some more loaded sectors, all of
them among `P`. -/
structure Reads (P : Set Nat) (s s' : State) : Prop where
  env : s'.toEnv = s.toEnv
  hw : s'.hw = s.hw
  hint : s'.allocHint = s.allocHint
  coherent : s.Coherent → s'.Coherent
  loaded : ∀ l, s.loaded l = true → s'.loaded l = true
  unloaded : Unloaded s s'
  untouched : ∀ l, l ∉ P → s'.loaded l = s.loaded l ∧
    ∀ i, i / 512 = l → s'.bytes i = s.bytes i

/-- What every step of the driver respects. -/
structure Moves (s s' : State) : Prop where
  env : s'.toEnv = s.toEnv
  coherent : s.Coherent → s'.Coherent
  loaded : ∀ l, s.loaded l = true → s'.loaded l = true
  unloaded : Unloaded s s'
  topBits : ∀ k < s.fat32.fatCount, ∀ c < s.fat32.clusterCount + 2,
    s'.topBits k c = s.topBits k c
  mirrored : s.Mirrored → s'.Mirrored

section steps

variable {s s' s'' : State} {P Q : Set Nat}

theorem Unloaded.trans (h1 : Unloaded s s') (h2 : Unloaded s' s'')
    (hl : ∀ l, s'.loaded l = true → s''.loaded l = true) :
    Unloaded s s'' := by
  intro l hf i hi
  have hf' : s'.loaded l = false := by
    by_contra hne
    rw [hl l (by simpa using hne)] at hf
    cases hf
  exact (h2 l hf i hi).trans (h1 l hf' i hi)

theorem Reads.refl (P : Set Nat) (s : State) : Reads P s s :=
  ⟨rfl, rfl, rfl, id, fun _ => id, fun _ _ _ _ => rfl,
    fun _ _ => ⟨rfl, fun _ _ => rfl⟩⟩

theorem Reads.trans (h1 : Reads P s s') (h2 : Reads P s' s'') :
    Reads P s s'' where
  env := h2.env.trans h1.env
  hw := h2.hw.trans h1.hw
  hint := h2.hint.trans h1.hint
  coherent h := h2.coherent (h1.coherent h)
  loaded l h := h2.loaded l (h1.loaded l h)
  unloaded := h1.unloaded.trans h2.unloaded h2.loaded
  untouched l hl := by
    obtain ⟨hl1, hb1⟩ := h1.untouched l hl
    obtain ⟨hl2, hb2⟩ := h2.untouched l hl
    exact ⟨hl2.trans hl1, fun i hi => (hb2 i hi).trans (hb1 i hi)⟩

theorem Reads.mono (h : Reads P s s') (hPQ : P ⊆ Q) : Reads Q s s' where
  env := h.env
  hw := h.hw
  hint := h.hint
  coherent := h.coherent
  loaded := h.loaded
  unloaded := h.unloaded
  untouched l hl := h.untouched l fun hP => hl (hPQ hP)

theorem Reads.fat32 (h : Reads P s s') : s'.fat32 = s.fat32 :=
  congrArg Env.fat32 h.env

theorem Reads.vol (h : Reads P s s') : s'.vol = s.vol := by
  simp only [State.vol, h.fat32, h.hw]

theorem Reads.moves (h : Reads P s s') : Moves s s' where
  env := h.env
  coherent := h.coherent
  loaded := h.loaded
  unloaded := h.unloaded
  topBits k _ c _ := by
    simp only [State.topBits, h.fat32, h.hw]
  mirrored hm := by
    intro k hk c hc
    simp only [h.fat32] at hk hc
    simpa only [h.fat32, h.hw] using hm k hk c hc

theorem Moves.refl (s : State) : Moves s s :=
  (Reads.refl ∅ s).moves

theorem Moves.fat32 (h : Moves s s') : s'.fat32 = s.fat32 :=
  congrArg Env.fat32 h.env

theorem Moves.trans (h1 : Moves s s') (h2 : Moves s' s'') :
    Moves s s'' where
  env := h2.env.trans h1.env
  coherent h := h2.coherent (h1.coherent h)
  loaded l h := h2.loaded l (h1.loaded l h)
  unloaded := h1.unloaded.trans h2.unloaded h2.loaded
  topBits k hk c hc := by
    have hk' : k < s'.fat32.fatCount := by rwa [h1.fat32]
    have hc' : c < s'.fat32.clusterCount + 2 := by rwa [h1.fat32]
    exact (h2.topBits k hk' c hc').trans (h1.topBits k hk c hc)
  mirrored h := h2.mirrored (h1.mirrored h)

theorem Moves.ok (h : Moves s s') (hs : s.Ok) : s'.Ok where
  toOk := by
    rw [h.env]
    exact hs.toOk
  coherent := h.coherent hs.coherent

theorem Reads.ok (h : Reads P s s') (hs : s.Ok) : s'.Ok := h.moves.ok hs

theorem State.Placed.of_env (hs : s.Placed) (henv : s'.toEnv = s.toEnv)
    (hc : s'.Coherent) : s'.Placed where
  hwBacked := by
    rw [henv]
    exact hs.hwBacked
  bytesLen := by
    rw [henv]
    exact hs.bytesLen
  coherent := hc
  layout := by
    rw [henv]
    exact hs.layout

theorem Reads.placed (h : Reads P s s') (hs : s.Placed) : s'.Placed :=
  hs.of_env h.env (h.coherent hs.coherent)

end steps

-- ==== loading and writing sectors

namespace State

theorem loadSector_coherent {s : State} (h : s.Coherent) (lba : Nat) :
    (s.loadSector lba).Coherent := by
  intro i hi hl
  simp only [loadSector, sectorSize] at hl ⊢
  by_cases hb : lba * 512 ≤ i ∧ i < lba * 512 + 512
  · rw [blit_in hb.1 hb.2, Nat.add_sub_cancel' hb.1]
  · rw [blit_out (by omega)]
    have hne : i / 512 ≠ lba := by omega
    refine h i hi ?_
    simpa [hne] using hl

theorem loadSector_reads (s : State) (lba : Nat) :
    Reads {l | l = lba} s (s.loadSector lba) where
  env := rfl
  hw := rfl
  hint := rfl
  coherent h := loadSector_coherent h lba
  loaded l h := by simp [loadSector, h]
  unloaded l hl i hi := by
    have hne : l ≠ lba := by
      rintro rfl
      simp [loadSector] at hl
    simp only [loadSector, sectorSize]
    exact blit_out (by omega)
  untouched l hl := by
    have hl : l ≠ lba := hl
    refine ⟨by simp [loadSector, hl], fun i hi => ?_⟩
    simp only [loadSector, sectorSize]
    exact blit_out (by omega)

theorem loadLoop_reads (n lba : Nat) (s : State) :
    Reads {l | lba ≤ l ∧ l < lba + n} s (loadLoop n lba s) := by
  induction n generalizing lba s with
  | zero => exact Reads.refl _ s
  | succ n ih =>
    refine Reads.trans ?_ ((ih (lba + 1) _).mono fun l hl => ?_)
    · split
      · exact Reads.refl _ s
      · refine (loadSector_reads s lba).mono fun l hl => ?_
        obtain rfl : l = lba := hl
        exact ⟨le_refl _, by omega⟩
    · exact ⟨by have := hl.1; omega, by have := hl.2; omega⟩

theorem loadLoop_loaded {n lba l : Nat} (s : State) (h1 : lba ≤ l)
    (h2 : l < lba + n) : (loadLoop n lba s).loaded l = true := by
  induction n generalizing lba s with
  | zero => omega
  | succ n ih =>
    by_cases hl : l = lba
    · subst hl
      refine (loadLoop_reads n (l + 1) _).loaded l ?_
      split
      · assumption
      · simp [loadSector]
    · exact ih _ (by omega) (by omega)

theorem syncLoop_rest (n lba : Nat) (s : State) :
    (syncLoop n lba s).toEnv = s.toEnv ∧ (syncLoop n lba s).bytes = s.bytes ∧
      (syncLoop n lba s).allocHint = s.allocHint := by
  induction n generalizing lba s with
  | zero => exact ⟨rfl, rfl, rfl⟩
  | succ n ih => exact ih (lba + 1) (s.syncSector lba)

theorem syncLoop_hw (n lba : Nat) (s : State) :
    (syncLoop n lba s).hw
      = blit s.hw (lba * 512) (n * 512)
          fun k => s.bytes (lba * 512 + k) := by
  induction n generalizing lba s with
  | zero =>
    have h0 : 0 * 512 = 0 := by decide
    simp only [h0, blit_zero, syncLoop]
  | succ n ih =>
    have hn : (n + 1) * 512 = 512 + n * 512 := by omega
    have hl : (lba + 1) * 512 = lba * 512 + 512 := Nat.succ_mul lba 512
    rw [syncLoop, ih, hn, ← blit_append]
    simp only [syncSector, sectorSize, hl, Nat.add_assoc]

theorem syncLoop_loaded (n lba l : Nat) (s : State) :
    (syncLoop n lba s).loaded l = true
      ↔ s.loaded l = true ∨ (lba ≤ l ∧ l < lba + n) := by
  induction n generalizing lba s with
  | zero =>
    have hn : ¬ (lba ≤ l ∧ l < lba + 0) := by omega
    simp only [syncLoop, hn, or_false]
  | succ n ih =>
    rw [syncLoop, ih]
    simp only [syncSector, Bool.or_eq_true, beq_iff_eq]
    constructor
    · rintro ((rfl | h) | h)
      · exact .inr (by omega)
      · exact .inl h
      · exact .inr (by omega)
    · rintro (h | h)
      · exact .inl (.inr h)
      · by_cases hl : l = lba
        · exact .inl (.inl hl)
        · exact .inr (by omega)

end State

/-- The sectors of a range of bytes. -/
def sectorsOf (offset size : Nat) : Set Nat :=
  {l | offset / 512 ≤ l ∧ l * 512 < offset + size}

theorem ensureLoadedRange_run {s : State} (h : s.Backed) {offset size : Nat}
    (hz : 0 < size) (hr : offset + size ≤ s.bytesLen) :
    ∃ s', ensureLoadedRange offset size s = (some (), s') ∧
      Reads (sectorsOf offset size) s s' ∧
      ∀ l ∈ sectorsOf offset size, s'.loaded l = true := by
  have hv : s.bytesRangeValid offset size = true := by
    simp only [State.bytesRangeValid, Bool.and_eq_true, decide_eq_true_eq]
    omega
  have hrun : ensureLoadedRange offset size s
      = (some (), State.loadLoop ((offset + size + 511) / 512
          - offset / 512) (offset / 512) s) := by
    simp only [ensureLoadedRange, Cmd.get_bind_apply,
      if_neg (Nat.pos_iff_ne_zero.mp hz), hv, h.hwBacked, if_true]
    rfl
  refine ⟨_, hrun, (State.loadLoop_reads _ _ s).mono ?_, ?_⟩
  · rintro l ⟨h1, h2⟩
    exact ⟨h1, by omega⟩
  · rintro l ⟨h1, h2⟩
    exact State.loadLoop_loaded s h1 (by omega)

theorem bytes_eq_of_loaded {s s' : State} {P : Set Nat} {offset size : Nat}
    (h : s.Backed) (hr : Reads P s s') (hlen : offset + size ≤ s.bytesLen)
    (hl : ∀ l ∈ sectorsOf offset size, s'.loaded l = true) {i : Nat}
    (h1 : offset ≤ i) (h2 : i < offset + size) : s'.bytes i = s.hw i := by
  rw [← hr.hw]
  refine hr.coherent h.coherent i ?_ (hl _ ⟨?_, ?_⟩)
  · rw [hr.env]
    omega
  · simp only [sectorSize]
    omega
  · simp only [sectorSize]
    omega

theorem State.poked_poked (s : State) (offset len : Nat) {o l : Nat}
    (h : o + l ≤ len) (src src' : Nat → UInt8) :
    (s.poked offset len src).poked (offset + o) l src'
      = s.poked offset len (blit src o l src') := by
  simp only [poked, blit_blit_inside _ _ h]

/-- A write that reached the hardware: the sectors now hold `hw`. -/
structure Writes (s s' : State) (hw : Mem) : Prop where
  env : s'.toEnv = s.toEnv
  hw : s'.hw = hw
  hint : s'.allocHint = s.allocHint
  coherent : s'.Coherent
  loaded : ∀ l, s.loaded l = true → s'.loaded l = true
  unloaded : Unloaded s s'

/-- The hardware's bytes, with the sectors of a range taken from the
image. -/
def State.mixed (s : State) (lba n : Nat) : Mem := fun i =>
  if lba * 512 ≤ i ∧ i < lba * 512 + n * 512 then s.bytes i else s.hw i

theorem syncSectorRange_mixed {s : State} (h : s.Backed)
    (off len : Nat) {lba n : Nat} {src : Nat → UInt8} (hn : 0 < n)
    (ht : lba + n ≤ s.sectorTotal) (h1 : lba * 512 ≤ off)
    (h2 : off + len ≤ lba * 512 + n * 512) :
    ∃ s', syncSectorRange lba n (s.poked off len src) = (some (), s') ∧
      Writes s s' (blit (s.mixed lba n) off len src) := by
  let s1 : State := s.poked off len src
  have hb : s.bytesLen = s.sectorTotal * 512 := h.bytesLen
  have hrun : syncSectorRange lba n s1
      = (some (), State.syncLoop n lba s1) := by
    have hc1 : decide (lba < s1.sectorTotal) = true :=
      decide_eq_true (show lba < s.sectorTotal by omega)
    have hc2 : decide (n ≤ s1.sectorTotal - lba) = true :=
      decide_eq_true (show n ≤ s.sectorTotal - lba by omega)
    have hbk : s1.hwBacked = true := h.hwBacked
    simp only [syncSectorRange, syncSectorRangeNoFlush, flushHw]
    rw [Cmd.bind_ok (a := ())]
    · rfl
    · simp only [Cmd.get_bind_apply, if_neg (Nat.pos_iff_ne_zero.mp hn),
        hbk, if_true]
      rw [Cmd.require_bind hc1, Cmd.require_bind hc2]
      rfl
  have hhw : ∀ i, (State.syncLoop n lba s1).hw i
      = blit (s.mixed lba n) off len src i := by
    intro i
    rw [State.syncLoop_hw]
    by_cases hr : lba * 512 ≤ i ∧ i < lba * 512 + n * 512
    · rw [blit_in hr.1 hr.2, Nat.add_sub_cancel' hr.1]
      show blit s.bytes off len src i = _
      by_cases hi : off ≤ i ∧ i < off + len
      · rw [blit_in hi.1 hi.2, blit_in hi.1 hi.2]
      · rw [blit_out (by omega), blit_out (by omega), State.mixed, if_pos hr]
    · rw [blit_out (by omega), blit_out (by omega), State.mixed, if_neg hr]
      rfl
  obtain ⟨henv, hbytes, hhint⟩ := State.syncLoop_rest n lba s1
  refine ⟨_, hrun, henv, funext hhw, hhint, ?_, ?_, ?_⟩
  · intro i hi hli
    rw [henv] at hi
    rw [hbytes, hhw]
    show blit s.bytes off len src i = _
    by_cases hin : off ≤ i ∧ i < off + len
    · rw [blit_in hin.1 hin.2, blit_in hin.1 hin.2]
    · rw [blit_out (by omega), blit_out (by omega), State.mixed]
      split_ifs with hr
      · rfl
      · refine h.coherent i hi ?_
        rcases (State.syncLoop_loaded n lba _ s1).mp hli with hli | hli
        · exact hli
        · simp only [sectorSize] at hli
          omega
  · intro l hll
    exact (State.syncLoop_loaded n lba l s1).mpr (.inl hll)
  · intro l hll i hi
    have hout : ¬ (lba ≤ l ∧ l < lba + n) := fun hin => by
      rw [(State.syncLoop_loaded n lba l s1).mpr (.inr hin)] at hll
      cases hll
    rw [hbytes]
    show blit s.bytes off len src i = _
    rw [blit_out (by omega)]

theorem State.Backed.mixed_blit {s : State} (h : s.Backed) {off len lba n : Nat}
    {src : Nat → UInt8} (ht : lba + n ≤ s.sectorTotal)
    (hl : ∀ i, lba * 512 ≤ i → i < lba * 512 + n * 512 →
      i < off ∨ off + len ≤ i → s.loaded (i / 512) = true) :
    blit (s.mixed lba n) off len src = blit s.hw off len src := by
  have hb : s.bytesLen = s.sectorTotal * 512 := h.bytesLen
  refine blit_congr (fun i hi => ?_) fun _ _ => rfl
  simp only [State.mixed]
  split_ifs with hr
  · exact h.coherent i (by omega) (hl i hr.1 hr.2 hi)
  · rfl

theorem syncSectorRange_run {s : State} (h : s.Backed)
    {off len lba n : Nat} {src : Nat → UInt8} (hn : 0 < n)
    (ht : lba + n ≤ s.sectorTotal) (h1 : lba * 512 ≤ off)
    (h2 : off + len ≤ lba * 512 + n * 512)
    (hl : ∀ i, lba * 512 ≤ i → i < lba * 512 + n * 512 →
      i < off ∨ off + len ≤ i → s.loaded (i / 512) = true) :
    ∃ s', syncSectorRange lba n (s.poked off len src) = (some (), s') ∧
      Writes s s' (blit s.hw off len src) := by
  rw [← h.mixed_blit ht hl]
  exact syncSectorRange_mixed h off len hn ht h1 h2

-- ==== geometry

/-- The table has an entry for the cluster. -/
def Layout.tabled (L : Layout) (cluster : Nat) : Bool :=
  cluster * 4 / sectorSize < L.sectorsPerFat

private theorem copy_end (L : Layout) {k k' : Nat} (hk : k < k') :
    k * L.sectorsPerFat + L.sectorsPerFat ≤ k' * L.sectorsPerFat := by
  calc k * L.sectorsPerFat + L.sectorsPerFat
      = (k + 1) * L.sectorsPerFat := (Nat.succ_mul _ _).symm
    _ ≤ k' * L.sectorsPerFat := Nat.mul_le_mul_right _ hk

theorem Layout.tabled_iff (L : Layout) (c : Nat) :
    L.tabled c = true ↔ c * 4 + 4 ≤ L.sectorsPerFat * 512 := by
  simp only [tabled, sectorSize, decide_eq_true_eq]
  omega

theorem Layout.fatOffset_disjoint {L : Layout} {k k' c c' : Nat}
    (hc : L.tabled c = true) (hc' : L.tabled c' = true)
    (hne : k ≠ k' ∨ c ≠ c') :
    L.fatOffset k c + 4 ≤ L.fatOffset k' c'
      ∨ L.fatOffset k' c' + 4 ≤ L.fatOffset k c := by
  rw [tabled_iff] at hc hc'
  simp only [fatOffset, sectorSize]
  rcases Nat.lt_trichotomy k k' with hk | rfl | hk
  · have h1 := copy_end L hk
    omega
  · omega
  · have h1 := copy_end L hk
    omega

theorem Layout.data_le_clusterOffset (L : Layout) (c : Nat) :
    L.dataLba * 512 ≤ L.clusterOffset c := by
  simp only [clusterOffset, lbaOf, sectorSize]
  omega

theorem Layout.lbaOf_disjoint (L : Layout) {c c' : Nat} (hc : 2 ≤ c)
    (hlt : c < c') : L.lbaOf c + L.sectorsPerCluster ≤ L.lbaOf c' := by
  have h1 : (c - 2) * L.sectorsPerCluster + L.sectorsPerCluster
      ≤ (c' - 2) * L.sectorsPerCluster := by
    rw [← Nat.succ_mul]
    exact Nat.mul_le_mul_right _ (by omega)
  simp only [lbaOf]
  omega

namespace Layout.Placed

variable {L : Layout} {total : Nat}

theorem clusterValid_iff (h : L.Placed total) (c : Nat) :
    L.clusterValid c = true ↔ 2 ≤ c ∧ c < L.clusterCount + 2 := by
  simp [clusterValid, h.valid]

theorem fatOffset_le (h : L.Placed total) {k c : Nat}
    (hk : k < L.fatCount) (hc : L.tabled c = true) :
    L.fatOffset k c + 4 ≤ L.dataLba * 512 := by
  have h1 := copy_end L hk
  have h3 := h.data
  rw [L.tabled_iff] at hc
  simp only [fatOffset, sectorSize]
  omega

theorem lbaOf_le (h : L.Placed total) {c : Nat}
    (hc : L.clusterValid c = true) :
    L.lbaOf c + L.sectorsPerCluster ≤ total := by
  have hc := (h.clusterValid_iff c).mp hc
  have h1 : (c - 2) * L.sectorsPerCluster + L.sectorsPerCluster
      ≤ L.clusterCount * L.sectorsPerCluster := by
    rw [← Nat.succ_mul]
    exact Nat.mul_le_mul_right _ (by omega)
  have h2 := h.fits
  simp only [lbaOf]
  omega

theorem clusterOffset_end (h : L.Placed total) {c : Nat}
    (hc : L.clusterValid c = true) :
    L.clusterOffset c + L.clusterSizeBytes ≤ total * 512 := by
  have h1 := h.lbaOf_le hc
  have h2 := h.size
  simp only [clusterOffset, sectorSize] at h2 ⊢
  omega

theorem clusterOffset_disjoint (h : L.Placed total) {c c' : Nat}
    (hc : L.clusterValid c = true) (hc' : L.clusterValid c' = true)
    (hne : c ≠ c') :
    L.clusterOffset c + L.clusterSizeBytes ≤ L.clusterOffset c'
      ∨ L.clusterOffset c' + L.clusterSizeBytes ≤ L.clusterOffset c := by
  have h2 := h.size
  have hc := (h.clusterValid_iff c).mp hc
  have hc' := (h.clusterValid_iff c').mp hc'
  simp only [clusterOffset, sectorSize] at h2 ⊢
  rcases Nat.lt_or_gt_of_ne hne with hlt | hlt
  · have h1 := L.lbaOf_disjoint hc.1 hlt
    omega
  · have h1 := L.lbaOf_disjoint hc'.1 hlt
    omega

theorem clusterSize_pos (h : L.Placed total) : 0 < L.clusterSizeBytes := by
  have h1 := h.size
  have h2 := h.spc_pos
  simp only [sectorSize] at h1
  omega

theorem entry_in (h : L.Placed total) {i : Nat}
    (hi : i < L.entriesPerCluster) :
    32 * i + 32 ≤ L.clusterSizeBytes ∧ i / 16 < L.sectorsPerCluster := by
  have h1 := h.size
  have h2 := h.entries
  simp only [sectorSize] at h1
  omega

end Layout.Placed

namespace Layout.Sound

variable {L : Layout} {total : Nat}

theorem clusterValid_iff (h : L.Sound total) (c : Nat) :
    L.clusterValid c = true ↔ 2 ≤ c ∧ c < L.clusterCount + 2 :=
  h.placed.clusterValid_iff c

theorem tabled (h : L.Sound total) {c : Nat} (hc : c < L.clusterCount + 2) :
    L.tabled c = true := by
  have h2 := h.covers
  rw [L.tabled_iff]
  simp only [sectorSize] at h2
  omega

theorem lbaOf_le (h : L.Sound total) {c : Nat}
    (hc : L.clusterValid c = true) :
    L.lbaOf c + L.sectorsPerCluster ≤ total :=
  h.placed.lbaOf_le hc

theorem clusterOffset_end (h : L.Sound total) {c : Nat}
    (hc : L.clusterValid c = true) :
    L.clusterOffset c + L.clusterSizeBytes ≤ total * 512 :=
  h.placed.clusterOffset_end hc

theorem clusterSize_pos (h : L.Sound total) : 0 < L.clusterSizeBytes :=
  h.placed.clusterSize_pos

theorem entry_in (h : L.Sound total) {i : Nat}
    (hi : i < L.entriesPerCluster) :
    32 * i + 32 ≤ L.clusterSizeBytes ∧ i / 16 < L.sectorsPerCluster :=
  h.placed.entry_in hi

end Layout.Sound

theorem Layout.fatOffset_eq (L : Layout) (k c : Nat) :
    L.fatOffset k c = (L.fatLba + k * L.sectorsPerFat) * 512 + c * 4 := rfl

theorem Layout.clusterOffset_eq (L : Layout) (c : Nat) :
    L.clusterOffset c = L.lbaOf c * 512 := rfl

-- From here on the offsets are used through the lemmas above.
attribute [irreducible] Layout.fatOffset Layout.clusterOffset

-- ==== what a write does to it

section writes

variable {L : Layout} {total : Nat} {hw : Mem} {off len : Nat}
  {src : Nat → UInt8}

theorem rawFat_blit_data (h : L.Placed total)
    (ho : L.dataLba * 512 ≤ off) {k c : Nat} (hk : k < L.fatCount)
    (hc : L.tabled c = true) :
    rawFat L (blit hw off len src) k c = rawFat L hw k c := by
  have h1 := h.fatOffset_le hk hc
  exact readU32_blit_out (.inl (by omega))

theorem volOf_blit_data (h : L.Placed total) {c o : Nat}
    (hc : L.clusterValid c = true) (ho : o + len ≤ L.clusterSizeBytes) :
    (volOf L (blit hw (L.clusterOffset c + o) len src)).data
      = ((volOf L hw).setData c
          (blit ((volOf L hw).data c) o len src)).data := by
  refine funext fun c' => funext fun k => ?_
  by_cases hcc : c' = c
  · subst hcc
    rw [Vol.setData_data_self]
    simp only [volOf, hc, true_and]
    by_cases hk : o ≤ k ∧ k < o + len
    · rw [if_pos (by omega), blit_in (by omega) (by omega),
        blit_in hk.1 hk.2]
      congr 1
      omega
    · rw [blit_out (by omega), blit_out (by omega)]
  · rw [Vol.setData_data_ne _ _ hcc]
    simp only [volOf]
    split_ifs with hk
    · have hdis := h.clusterOffset_disjoint hk.1 hc hcc
      rw [blit_out (by omega)]
    · rfl

theorem volOf_blit_cluster (h : L.Sound total) {c o : Nat}
    (hc : L.clusterValid c = true) (ho : o + len ≤ L.clusterSizeBytes) :
    volOf L (blit hw (L.clusterOffset c + o) len src)
      = (volOf L hw).setData c
          (blit ((volOf L hw).data c) o len src) := by
  have hd := L.data_le_clusterOffset c
  refine Vol.ext (funext fun c' => ?_) (volOf_blit_data h.placed hc ho)
  simp only [volOf, Vol.setData_fat]
  split_ifs with hc'
  · rw [rawFat_blit_data h.placed (by omega) h.fats_pos (h.tabled hc')]
  · rfl

theorem volOf_data_congr {hw' : Mem}
    (he : ∀ i, L.dataLba * 512 ≤ i → hw' i = hw i) :
    (volOf L hw').data = (volOf L hw).data := by
  funext c k
  have hd := L.data_le_clusterOffset c
  simp only [volOf]
  rw [he _ (by omega)]

end writes

-- ==== the table, entry by entry

theorem low28_lt (x : Nat) : low28 x < 2 ^ 28 := Nat.mod_lt _ (by decide)

@[simp] theorem low28_low28 (x : Nat) : low28 (low28 x) = low28 x :=
  Nat.mod_mod _ _

@[simp] theorem low28_zero : low28 0 = 0 := rfl

theorem low28_of_lt {x : Nat} (h : x < 2 ^ 28) : low28 x = x :=
  Nat.mod_eq_of_lt h

@[simp] theorem low28_mergeEntry (old value : Nat) :
    low28 (mergeEntry old value) = low28 value := by
  unfold mergeEntry low28
  omega

theorem mergeEntry_top (old value : Nat) :
    mergeEntry old value / 2 ^ 28 = old / 2 ^ 28 := by
  have h := low28_lt value
  unfold mergeEntry
  omega

theorem mergeEntry_lt {old : Nat} (h : old < 2 ^ 32) (value : Nat) :
    mergeEntry old value < 2 ^ 32 := by
  have h' := low28_lt value
  unfold mergeEntry
  omega

theorem volOf_fat {L : Layout} {hw : Mem} {c : Nat}
    (hc : c < L.clusterCount + 2) :
    (volOf L hw).fat c = low28 (rawFat L hw 0 c) := by
  simp only [volOf, if_pos hc]

theorem volOf_fat_lt (L : Layout) (hw : Mem) (c : Nat) :
    (volOf L hw).fat c < 2 ^ 28 := by
  simp only [volOf]
  split_ifs
  · exact low28_lt _
  · decide

private theorem fatOffset_split (lba c : Nat) :
    (lba + c * 4 / 512) * 512 + c * 4 % 512 = lba * 512 + c * 4 := by
  omega

private theorem fatOffset_sector {lba c off : Nat}
    (h : (lba + c * 4 / 512) * 512 + c * 4 % 512 = off) :
    off + 4 ≤ (lba + c * 4 / 512) * 512 + 1 * 512 := by
  omega

/-- The link of a cluster, if the table has an entry for it. -/
def State.link (s : State) (cluster : Nat) : Option Nat :=
  if s.fat32.tabled cluster then
    some (low28 (rawFat s.fat32 s.hw 0 cluster))
  else none

theorem State.Placed.fatReadEntry {s : State} (h : s.Placed) {c : Nat}
    (hc : c < s.fat32.clusterCount + 2) :
    ∃ s', Disk.fatReadEntry c s = (s.link c, s') ∧
      Reads s.fat32.tableSectors s s' := by
  have hs := h.layout
  simp only [Disk.fatReadEntry, Cmd.get_bind_apply]
  rw [Cmd.require_bind hs.valid, Cmd.require_bind (decide_eq_true hc)]
  cases ht : s.fat32.tabled c with
  | false =>
    refine ⟨s, ?_, .refl _ s⟩
    rw [State.link, ht]
    exact Cmd.require_bind_err ht
  | true =>
    have hend := hs.fatOffset_le hs.fats_pos ht
    have hfit := hs.fits
    have hb := h.bytesLen
    have hoff : (s.fat32.fatLba + c * 4 / 512) * 512 + c * 4 % 512
        = s.fat32.fatOffset 0 c := by
      rw [fatOffset_split, Layout.fatOffset_eq, Nat.zero_mul, Nat.add_zero]
    simp only [sectorSize] at hb
    have hr : s.fat32.fatOffset 0 c + 4 ≤ s.bytesLen := by omega
    obtain ⟨s', hrun, hreads, hl⟩ :=
      ensureLoadedRange_run h.toBacked (by omega) hr
    have hrange : s.bytesRangeValid (s.fat32.fatOffset 0 c) 4 = true := by
      simp only [State.bytesRangeValid, Bool.and_eq_true, decide_eq_true_eq]
      omega
    refine ⟨s', ?_, hreads.mono fun l hl => ?_⟩
    swap
    · have := hl.2
      show l < s.fat32.dataLba
      omega
    refine (Cmd.require_bind ht).trans ?_
    simp only [sectorSize, hoff]
    rw [Cmd.require_bind hrange, Cmd.bind_ok hrun, Cmd.get_bind_apply,
      Cmd.pure_apply, State.link, if_pos ht, rawFat]
    -- The entry was loaded, so the image shows the hardware's word.
    have hword : readU32 s'.bytes (s.fat32.fatOffset 0 c)
        = readU32 s.hw (s.fat32.fatOffset 0 c) :=
      readU32_congr fun k hk =>
        bytes_eq_of_loaded h.toBacked hreads hr hl (by omega) (by omega)
    rw [hword]

theorem State.Ok.link {s : State} (h : s.Ok) {c : Nat}
    (hc : c < s.fat32.clusterCount + 2) : s.link c = some (s.vol.fat c) := by
  rw [State.link, if_pos (h.sound.tabled hc), State.vol, volOf_fat hc]

theorem fatReadEntry_run {s : State} (h : s.Ok) {c : Nat}
    (hc : c < s.fat32.clusterCount + 2) :
    ∃ s', fatReadEntry c s = (some (s.vol.fat c), s') ∧
      Reads s.fat32.tableSectors s s' := by
  rw [← h.link hc]
  exact h.placed.fatReadEntry hc

/-- The table after `fat_write_entry` went over `n` copies from copy `k`
on: the entry of `c` took the link `value` in each of them. -/
structure TableWrite (s s' : State) (k n c value : Nat) : Prop where
  env : s'.toEnv = s.toEnv
  hint : s'.allocHint = s.allocHint
  coherent : s'.Coherent
  loaded : ∀ l, s.loaded l = true → s'.loaded l = true
  unloaded : Unloaded s s'
  entry : ∀ j < s.fat32.fatCount, ∀ c', s.fat32.tabled c' = true →
    rawFat s.fat32 s'.hw j c' =
      if k ≤ j ∧ j < k + n ∧ c' = c then
        mergeEntry (rawFat s.fat32 s.hw j c) value
      else rawFat s.fat32 s.hw j c'
  data : ∀ i, s.fat32.dataLba * 512 ≤ i → s'.hw i = s.hw i

private theorem fatWriteLoop_run {s : State} (h : s.Placed) {c : Nat}
    (hc : s.fat32.tabled c = true) (value n k : Nat)
    (hk : k + n ≤ s.fat32.fatCount) :
    ∃ s', fatWriteLoop value (c * 4 / 512) (c * 4 % 512) n k s
      = (some (), s') ∧ TableWrite s s' k n c value := by
  induction n generalizing s k with
  | zero =>
    refine ⟨s, rfl, rfl, rfl, h.coherent, fun _ => id, fun _ _ _ _ => rfl,
      ?_, fun _ _ => rfl⟩
    intro j _ c' _
    rw [if_neg (by omega)]
  | succ n ih =>
    have hs := h.layout
    have hkf : k < s.fat32.fatCount := by omega
    have hend := hs.fatOffset_le hkf hc
    have hfit := hs.fits
    have hb := h.bytesLen
    have hoff : (s.fat32.fatLba + k * s.fat32.sectorsPerFat + c * 4 / 512)
        * 512 + c * 4 % 512 = s.fat32.fatOffset k c := by
      rw [fatOffset_split, Layout.fatOffset_eq]
    have hsec := fatOffset_sector hoff
    simp only [sectorSize] at hb
    have hr : s.fat32.fatOffset k c + 4 ≤ s.bytesLen := by omega
    have hrange : s.bytesRangeValid (s.fat32.fatOffset k c) 4 = true := by
      simp only [State.bytesRangeValid, Bool.and_eq_true,
        decide_eq_true_eq]
      omega
    -- The sector of the entry is loaded, changed and written back.
    obtain ⟨s1, hrun1, hr1, hl1⟩ := ensureLoadedRange_run h.toBacked (by omega) hr
    have h1 : s1.Placed := hr1.placed h
    have htot : s1.sectorTotal = s.sectorTotal :=
      congrArg Env.sectorTotal hr1.env
    have hword : readU32 s1.bytes (s.fat32.fatOffset k c)
        = rawFat s.fat32 s.hw k c :=
      readU32_congr fun j hj =>
        bytes_eq_of_loaded h.toBacked hr1 hr hl1 (by omega) (by omega)
    obtain ⟨s2, hrun2, hw2⟩ := syncSectorRange_run (n := 1)
      h1.toBacked (by omega) (by omega) (by omega) hsec
      (fun i hi1 hi2 _ => hl1 _ ⟨by omega, by omega⟩)
    have henv2 : s2.toEnv = s.toEnv := hw2.env.trans hr1.env
    have hf2 : s2.fat32 = s.fat32 := congrArg Env.fat32 henv2
    have h2 : s2.Placed := h.of_env henv2 hw2.coherent
    obtain ⟨s3, hrun3, ht⟩ :=
      ih h2 (by rwa [hf2]) (k + 1) (by rw [hf2]; omega)
    refine ⟨s3, ?_, ht.env.trans henv2, ?_, ht.coherent, ?_, ?_, ?_, ?_⟩
    · rw [fatWriteLoop, Cmd.get_bind_apply]
      simp only [sectorSize, hoff]
      rw [Cmd.require_bind hrange, Cmd.bind_ok hrun1, Cmd.get_bind_apply,
        hword, poke, Cmd.modify_bind_apply, Cmd.bind_ok hrun2, hrun3]
    · rw [ht.hint, hw2.hint, hr1.hint]
    · exact fun l hl => ht.loaded l (hw2.loaded l (hr1.loaded l hl))
    · exact (hr1.unloaded.trans hw2.unloaded hw2.loaded).trans ht.unloaded
        ht.loaded
    · intro j hj c' hc'
      have he := ht.entry j (by rwa [hf2]) c' (by rwa [hf2])
      rw [hf2] at he
      rw [he, hw2.hw, hr1.hw]
      -- Copy `k` was written in this turn, the later ones by the rest.
      have hother : ∀ {c''}, s.fat32.tabled c'' = true →
          (j ≠ k ∨ c'' ≠ c) →
          rawFat s.fat32 (blit s.hw (s.fat32.fatOffset k c) 4
            (wordByte (mergeEntry (rawFat s.fat32 s.hw k c) value))) j c''
          = rawFat s.fat32 s.hw j c'' := by
        intro c'' hc'' hne
        have hdis := Layout.fatOffset_disjoint hc'' hc hne
        exact readU32_blit_out (by omega)
      by_cases hcc : c' = c
      · subst hcc
        by_cases hjk : j = k
        · subst hjk
          rw [if_neg (by omega), if_pos (by omega)]
          have hm := mergeEntry_lt
            (readU32_lt s.hw (s.fat32.fatOffset j c')) value
          exact (readU32_writeU32 _ _ _).trans (Nat.mod_eq_of_lt hm)
        · rw [hother hc' (.inl hjk)]
          have he : (k + 1 ≤ j ∧ j < k + 1 + n)
              ↔ (k ≤ j ∧ j < k + (n + 1)) := by omega
          simp only [and_true, he]
      · rw [if_neg (by omega), if_neg (by omega), hother hc' (.inr hcc)]
    · intro i hi
      rw [ht.data i (by rwa [hf2]), hw2.hw, blit_out (by omega), hr1.hw]

theorem State.Placed.fatWriteEntry {s : State} (h : s.Placed) {c : Nat}
    (hc : c < s.fat32.clusterCount + 2) (value : Nat) :
    (s.fat32.tabled c = true ∧ ∃ s', Disk.fatWriteEntry c value s
        = (some (), s') ∧ TableWrite s s' 0 s.fat32.fatCount c value) ∨
    (s.fat32.tabled c = false ∧ Disk.fatWriteEntry c value s = (none, s)) := by
  simp only [Disk.fatWriteEntry, Cmd.get_bind_apply]
  rw [Cmd.require_bind h.layout.valid, Cmd.require_bind (decide_eq_true hc)]
  cases ht : s.fat32.tabled c with
  | false => exact .inr ⟨rfl, Cmd.require_bind_err ht⟩
  | true =>
    obtain ⟨s', hrun, hw⟩ :=
      fatWriteLoop_run h ht value s.fat32.fatCount 0 (by omega)
    exact .inl ⟨rfl, s', (Cmd.require_bind ht).trans hrun, hw⟩

theorem TableWrite.rawFat_eq {s s' : State} {c value : Nat}
    (ht : TableWrite s s' 0 s.fat32.fatCount c value) {j : Nat}
    (hj : j < s.fat32.fatCount) {c' : Nat} (hc' : s.fat32.tabled c' = true) :
    rawFat s.fat32 s'.hw j c' = if c' = c then
      mergeEntry (rawFat s.fat32 s.hw j c) value
    else rawFat s.fat32 s.hw j c' := by
  rw [ht.entry j hj c' hc']
  have he : (0 ≤ j ∧ j < 0 + s.fat32.fatCount ∧ c' = c) ↔ c' = c := by
    omega
  simp only [he]

theorem fatWriteEntry_run {s : State} (h : s.Ok) {c : Nat}
    (hc : c < s.fat32.clusterCount + 2) (value : Nat) :
    ∃ s', fatWriteEntry c value s = (some (), s') ∧ Moves s s' ∧
      s'.vol = s.vol.setFat c (low28 value) ∧
      s'.allocHint = s.allocHint := by
  have hs := h.sound
  have htab := hs.tabled hc
  obtain ⟨-, s', hrun, ht⟩ | ⟨hno, -⟩ := h.placed.fatWriteEntry hc value
  swap
  · rw [htab] at hno
    cases hno
  have hf : s'.fat32 = s.fat32 := congrArg Env.fat32 ht.env
  have hentry : ∀ j < s.fat32.fatCount, ∀ c' < s.fat32.clusterCount + 2,
      rawFat s.fat32 s'.hw j c' = if c' = c then
        mergeEntry (rawFat s.fat32 s.hw j c) value
      else rawFat s.fat32 s.hw j c' :=
    fun j hj c' hc' => ht.rawFat_eq hj (hs.tabled hc')
  refine ⟨s', hrun, ⟨ht.env, fun _ => ht.coherent, ht.loaded, ht.unloaded,
    ?_, ?_⟩, ?_, ht.hint⟩
  · intro k hk c' hc'
    simp only [State.topBits, hf]
    rw [hentry k hk c' hc']
    split_ifs with hcc
    · rw [mergeEntry_top, hcc]
    · rfl
  · intro hm k hk c' hc'
    rw [hf] at hk hc' ⊢
    rw [hentry k hk c' hc', hentry 0 hs.fats_pos c' hc']
    split_ifs with hcc
    · simp only [low28_mergeEntry]
    · exact hm k hk c' hc'
  · refine Vol.ext (funext fun c' => ?_) ?_
    · simp only [State.vol, hf, volOf, Vol.setFat]
      split_ifs with hc'
      · rw [hentry 0 hs.fats_pos c' hc']
        by_cases hcc : c' = c
        · subst hcc
          simp
        · simp [hcc, hc']
      · have hne : c' ≠ c := by rintro rfl; exact hc' hc
        simp [hne, hc']
    · simp only [State.vol, hf]
      exact volOf_data_congr ht.data

end Clks.Disk
