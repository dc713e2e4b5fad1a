/-
What formatting leaves on the disk.

# The image of a fresh volume

`freshImage` is the disk that formatting aims at: a blank first sector,
the header and its backup, the copies of the table, and a root directory
of one cluster. The formatter lays its sectors down in the image first
and writes them out in the end; `LaysDown` keeps track of both.
-/
import Clks.Disk.Layout
import Clks.Disk.Proofs.Format

namespace Clks.Disk

open Bytes

set_option maxRecDepth 2000

-- ==== the fresh image

/-- The header of a fresh volume and its backup. -/
def headerImage (totalSectors spc fatSectors : Nat) (label : List UInt8) :
    Mem :=
  let boot := bootSector totalSectors spc fatSectors label
  let m : Mem := fun _ => 0
  let m := blit m 0 512 boot
  let m := blit m 512 512 infoSector
  let m := blit m (6 * 512) 512 boot
  blit m (7 * 512) 512 infoSector

/-- A fresh copy of the table. -/
def tableImage : Mem :=
  let m : Mem := fun _ => 0
  let m := blit m 0 4 (wordByte 0x0FFFFFF8)
  let m := blit m 4 4 (wordByte 0x0FFFFFFF)
  blit m 8 4 (wordByte eoc)

/-- A fresh root directory. -/
def rootImage : Mem :=
  blit (blit (fun _ => 0) 0 32 (buildDirEntry dotName attrDirectory 2 0))
    32 32 (buildDirEntry dotdotName attrDirectory 2 0)

/-- The disk with a fresh volume. -/
def freshImage (totalSectors spc fatSectors : Nat) (label : List UInt8) :
    Mem := fun i =>
  if i < 2048 * 512 then 0
  else if i < 2080 * 512 then
    headerImage totalSectors spc fatSectors label (i - 2048 * 512)
  else if i < (2080 + 2 * fatSectors) * 512 then
    tableImage ((i - 2080 * 512) % (fatSectors * 512))
  else rootImage (i - (2080 + 2 * fatSectors) * 512)

-- ==== laying it down

/-- The sectors `P` of the image hold `m`, and so do the sectors `Q` of
the hardware; everything else is as it was. -/
structure LaysDown (P Q : Set Nat) (m : Mem) (s s' : State) : Prop where
  image : ∀ l ∈ P, (s.hwBacked = true → s'.loaded l = true) ∧
    ∀ i, i / 512 = l → s'.bytes i = m i
  other : ∀ l, l ∉ P → s'.loaded l = s.loaded l ∧
    ∀ i, i / 512 = l → s'.bytes i = s.bytes i
  disk : s.hwBacked = true → ∀ l ∈ Q, ∀ i, i / 512 = l → s'.hw i = m i
  rest : ∀ l, l ∉ Q → ∀ i, i / 512 = l → s'.hw i = s.hw i

namespace LaysDown

variable {P Q : Set Nat} {m : Mem} {s s' s'' : State}

theorem refl (m : Mem) (s : State) : LaysDown ∅ ∅ m s s where
  image _ hl := absurd hl (Set.notMem_empty _)
  other _ _ := ⟨rfl, fun _ _ => rfl⟩
  disk _ _ hl := absurd hl (Set.notMem_empty _)
  rest _ _ _ _ := rfl

theorem stage (h : LaysDown P Q m s s') {a n : Nat} {src : Nat → UInt8}
    (hbytes : s''.bytes = blit s'.bytes (a * 512) (n * 512) src)
    (hloaded : ∀ l, s''.loaded l
      = (decide (a ≤ l ∧ l < a + n) || s'.loaded l))
    (hhw : s''.hw = s'.hw)
    (hsrc : ∀ k < n * 512, src k = m (a * 512 + k)) :
    LaysDown (P ∪ Set.Ico a (a + n)) Q m s s'' where
  image l hl := by
    rw [hloaded, hbytes]
    by_cases hr : a ≤ l ∧ l < a + n
    · refine ⟨fun _ => by rw [decide_eq_true hr, Bool.true_or],
        fun i hi => ?_⟩
      rw [blit_in (by omega) (by omega), hsrc _ (by omega)]
      congr 1
      omega
    · obtain ⟨h1, h2⟩ := h.image l (hl.resolve_right hr)
      refine ⟨fun hb => by rw [h1 hb, Bool.or_true], fun i hi => ?_⟩
      rw [blit_out (by omega)]
      exact h2 i hi
  other l hl := by
    rw [hloaded, hbytes]
    have hr : ¬ (a ≤ l ∧ l < a + n) := fun hr => hl (.inr hr)
    obtain ⟨h1, h2⟩ := h.other l fun hP => hl (.inl hP)
    refine ⟨by rw [decide_eq_false hr, Bool.false_or, h1], fun i hi => ?_⟩
    rw [blit_out (by omega)]
    exact h2 i hi
  disk := by
    rw [hhw]
    exact h.disk
  rest := by
    rw [hhw]
    exact h.rest

theorem sync {s1 : State} (h : LaysDown P Q m s s') {a n : Nat}
    (hb : s1.hwBacked = s.hwBacked) (hl : s1.loaded = s'.loaded)
    (hhw : s1.hw = s'.hw)
    (hin : ∀ i, a ≤ i / 512 → i / 512 < a + n → s1.bytes i = m i)
    (hout : ∀ i, ¬ (a ≤ i / 512 ∧ i / 512 < a + n) →
      s1.bytes i = s'.bytes i)
    (hrun : syncSectorRange a n s1 = (some (), s'')) :
    s''.toEnv = s1.toEnv ∧ s''.allocHint = s1.allocHint ∧
      LaysDown (P ∪ Set.Ico a (a + n)) (Q ∪ Set.Ico a (a + n)) m s s'' := by
  have hrun' : syncSectorRangeNoFlush a n s1 = (some (), s'') := by
    obtain ⟨_, s2, h1, h2⟩ := Cmd.bind_ok_inv hrun
    cases h2
    exact h1
  -- What the image holds does not change any more.
  have himage : ∀ l ∈ P ∪ Set.Ico a (a + n), ∀ i, i / 512 = l →
      s1.bytes i = m i := by
    intro l hlP i hi
    by_cases hr : a ≤ l ∧ l < a + n
    · exact hin i (by omega) (by omega)
    · rw [hout i (by rwa [hi])]
      exact (h.image l (hlP.resolve_right hr)).2 i hi
  have hother : ∀ l, l ∉ P ∪ Set.Ico a (a + n) → ∀ i, i / 512 = l →
      s1.bytes i = s.bytes i := by
    intro l hlP i hi
    have hr : ¬ (a ≤ l ∧ l < a + n) := fun hr => hlP (.inr hr)
    rw [hout i (by rwa [hi])]
    exact (h.other l fun hP => hlP (.inl hP)).2 i hi
  rw [syncSectorRangeNoFlush, Cmd.get_bind_apply] at hrun'
  by_cases hn : n = 0
  · rw [if_pos hn] at hrun'
    cases hrun'
    rw [hn, Nat.add_zero, Set.Ico_self, Set.union_empty] at himage hother ⊢
    rw [Set.union_empty]
    refine ⟨rfl, rfl, fun l hlP => ⟨?_, himage l hlP⟩,
      fun l hlP => ⟨?_, hother l hlP⟩, ?_, ?_⟩
    · rw [hl]
      exact (h.image l hlP).1
    · rw [hl]
      exact (h.other l hlP).1
    · rw [hhw]
      exact h.disk
    · rw [hhw]
      exact h.rest
  rw [if_neg hn] at hrun'
  by_cases hbt : s1.hwBacked = true
  swap
  · rw [if_neg hbt] at hrun'
    cases hrun'
    have hno : s.hwBacked ≠ true := by rwa [← hb]
    refine ⟨rfl, rfl, fun l hlP => ⟨fun h => absurd h hno, himage l hlP⟩,
      fun l hlP => ⟨?_, hother l hlP⟩, fun h => absurd h hno, fun l hlQ => ?_⟩
    · rw [hl]
      exact (h.other l fun hP => hlP (.inl hP)).1
    · rw [hhw]
      exact h.rest l fun hQ => hlQ (.inl hQ)
  rw [if_pos hbt] at hrun'
  obtain ⟨-, hrun'⟩ := Cmd.require_ok_inv hrun'
  obtain ⟨-, hrun'⟩ := Cmd.require_ok_inv hrun'
  injection hrun' with _ hs
  subst hs
  obtain ⟨henv, hbytes, hhint⟩ := State.syncLoop_rest n a s1
  refine ⟨henv, hhint, ?_, ?_, ?_, ?_⟩
  · intro l hlP
    rw [hbytes, State.syncLoop_loaded, hl]
    refine ⟨fun hbs => ?_, himage l hlP⟩
    exact hlP.imp_left fun hP => (h.image l hP).1 hbs
  · intro l hlP
    have hr : ¬ (a ≤ l ∧ l < a + n) := fun hr => hlP (.inr hr)
    rw [hbytes, Bool.eq_iff_iff, State.syncLoop_loaded, hl,
      or_iff_left hr, ← Bool.eq_iff_iff]
    exact ⟨(h.other l fun hP => hlP (.inl hP)).1, hother l hlP⟩
  · intro hbs l hlQ i hi
    rw [State.syncLoop_hw]
    by_cases hr : a ≤ l ∧ l < a + n
    · rw [blit_in (by omega) (by omega), Nat.add_sub_cancel' (by omega)]
      exact hin i (by omega) (by omega)
    · rw [blit_out (by omega), hhw]
      exact h.disk hbs l (hlQ.resolve_right hr) i hi
  · intro l hlQ i hi
    have hr : ¬ (a ≤ l ∧ l < a + n) := fun hr => hlQ (.inr hr)
    rw [State.syncLoop_hw, blit_out (by omega), hhw]
    exact h.rest l (fun hQ => hlQ (.inl hQ)) i hi

theorem syncOf (h : LaysDown P Q m s s') (hb : s'.hwBacked = s.hwBacked)
    {a n : Nat} (hP : Set.Ico a (a + n) ⊆ P)
    (hrun : syncSectorRange a n s' = (some (), s'')) :
    s''.toEnv = s'.toEnv ∧ s''.allocHint = s'.allocHint ∧
      LaysDown P (Q ∪ Set.Ico a (a + n)) m s s'' := by
  have hs := h.sync hb rfl rfl
    (fun i h1 h2 => (h.image _ (hP ⟨h1, h2⟩)).2 i rfl) (fun _ _ => rfl) hrun
  rwa [Set.union_eq_self_of_subset_right hP] at hs

theorem congr (h : LaysDown P Q m s s') (hb : s''.bytes = s'.bytes)
    (hl : s''.loaded = s'.loaded) (hhw : s''.hw = s'.hw) :
    LaysDown P Q m s s'' where
  image := by
    rw [hb, hl]
    exact h.image
  other := by
    rw [hb, hl]
    exact h.other
  disk := by
    rw [hhw]
    exact h.disk
  rest := by
    rw [hhw]
    exact h.rest

end LaysDown

section steps

variable {P Q : Set Nat} {s s0 s' : State} {T spc fs : Nat}
  {label : List UInt8}

theorem writeHeader_laysDown
    (h : LaysDown P Q (freshImage T spc fs label) s0 s)
    (hrun : writeHeader T spc fs label s = (some (), s')) :
    s'.toEnv = s.toEnv ∧ s'.allocHint = s.allocHint ∧
      LaysDown (P ∪ Set.Ico 0 1 ∪ Set.Ico 2048 2080) Q
        (freshImage T spc fs label) s0 s' := by
  rw [writeHeader, Cmd.get_bind_apply] at hrun
  obtain ⟨-, hrun⟩ := Cmd.require_ok_inv hrun
  simp only [poke, loadedMarkRange, Cmd.modify_bind_apply] at hrun
  obtain ⟨-, hrun⟩ := Cmd.require_ok_inv hrun
  simp only [Cmd.modify_bind_apply] at hrun
  injection hrun with _ hrun
  set s1 : State := { s with
    bytes := blit s.bytes (0 * 512) (1 * 512) fun _ => 0
    loaded := fun l => decide (0 ≤ l ∧ l < 0 + 1) || s.loaded l }
  -- The four sectors lie inside the reserved area, which was blanked.
  have hbytes : s'.bytes = blit s1.bytes (2048 * 512) (32 * 512)
      (headerImage T spc fs label) := by
    rw [← hrun]
    simp only [State.poked, partitionLba, sectorSize, formatReserved,
      headerImage]
    rw [← blit_blit_inside _ _ (by omega), ← blit_blit_inside _ _ (by omega),
      ← blit_blit_inside _ _ (by omega), ← blit_blit_inside _ _ (by omega)]
  have hfirst : LaysDown (P ∪ Set.Ico 0 1) Q (freshImage T spc fs label)
      s0 s1 := by
    have hb : s1.bytes = blit s.bytes (0 * 512) (1 * 512) fun _ => 0 := rfl
    refine h.stage hb (fun _ => rfl) rfl fun k hk => ?_
    unfold freshImage
    rw [if_pos (by omega)]
  refine ⟨by rw [← hrun]; rfl, by rw [← hrun]; rfl, ?_⟩
  refine hfirst.stage (a := 2048) (n := 32) hbytes
    (fun l => by rw [← hrun]; rfl) (by rw [← hrun]; rfl) fun k hk => ?_
  unfold freshImage
  rw [if_neg (by omega), if_pos (by omega), Nat.add_sub_cancel_left]

theorem freshImage_table (T spc : Nat) (label : List UInt8) {j k : Nat}
    (hj : j < 2) (hk : k < fs * 512) :
    freshImage T spc fs label ((2080 + j * fs) * 512 + k) = tableImage k := by
  have hle : j * fs ≤ fs := by
    have := Nat.mul_le_mul_right fs (Nat.le_of_lt_succ hj)
    omega
  have hoff : (2080 + j * fs) * 512 + k - 2080 * 512 = k + fs * 512 * j := by
    rw [Nat.add_mul, Nat.mul_comm j fs, Nat.mul_right_comm]
    omega
  unfold freshImage
  rw [if_neg (by omega), if_neg (by omega), if_pos (by omega), hoff,
    Nat.add_mul_mod_self_left, Nat.mod_eq_of_lt hk]

private theorem Ico_copy_union (fs j n : Nat) :
    Set.Ico (2080 + j * fs) (2080 + j * fs + fs)
        ∪ Set.Ico (2080 + (j + 1) * fs) (2080 + (j + 1 + n) * fs)
      = Set.Ico (2080 + j * fs) (2080 + (j + (n + 1)) * fs) := by
  have hsucc : (j + 1) * fs = j * fs + fs := Nat.succ_mul j fs
  have hmul : (j + 1 + n) * fs = j * fs + fs + n * fs := by
    rw [Nat.add_mul, hsucc]
  rw [show j + (n + 1) = j + 1 + n by omega, hmul, hsucc,
    show 2080 + (j * fs + fs) = 2080 + j * fs + fs by omega]
  exact Set.Ico_union_Ico_eq_Ico (by omega) (by omega)

theorem blankFatLoop_laysDown (hfs : 0 < fs) {n j : Nat} (hn : j + n ≤ 2)
    (h : LaysDown P Q (freshImage T spc fs label) s0 s)
    (hrun : blankFatLoop fs n j s = (some (), s')) :
    s'.toEnv = s.toEnv ∧ s'.allocHint = s.allocHint ∧
      LaysDown (P ∪ Set.Ico (2080 + j * fs) (2080 + (j + n) * fs)) Q
        (freshImage T spc fs label) s0 s' := by
  induction n generalizing j s P with
  | zero =>
    cases hrun
    refine ⟨rfl, rfl, ?_⟩
    rwa [Nat.add_zero, Set.Ico_self, Set.union_empty]
  | succ n ih =>
    rw [blankFatLoop, Cmd.get_bind_apply] at hrun
    obtain ⟨-, hrun⟩ := Cmd.require_ok_inv hrun
    simp only [poke, loadedMarkRange, Cmd.modify_bind_apply] at hrun
    obtain ⟨s1, hs1, hrun⟩ : ∃ s1, s1 = _ ∧
        blankFatLoop fs n (j + 1) s1 = (some (), s') := ⟨_, rfl, hrun⟩
    have hbytes : s1.bytes = blit s.bytes ((2080 + j * fs) * 512) (fs * 512)
        tableImage := by
      rw [hs1]
      simp only [State.poked, partitionLba, sectorSize, formatReserved,
        tableImage]
      rw [← blit_blit_inside _ _ (by omega), ← blit_blit_inside _ _ (by omega),
        ← blit_blit_inside _ _ (by omega)]
      rfl
    have hstep := h.stage hbytes (fun l => by rw [hs1]; rfl)
      (by rw [hs1]; rfl)
      fun k hk => (freshImage_table T spc label (by omega) hk).symm
    obtain ⟨henv, hhint, hlays⟩ := ih (by omega) hstep hrun
    refine ⟨by rw [henv, hs1]; rfl, by rw [hhint, hs1]; rfl, ?_⟩
    rwa [Set.union_assoc, Ico_copy_union fs j n] at hlays

theorem initRoot_laysDown {L : Layout}
    (h : LaysDown P Q (freshImage T spc fs label) s0 s)
    (hb : s.hwBacked = s0.hwBacked) (hL : s.fat32 = L)
    (hdata : L.dataLba = 2080 + 2 * fs) (hspc : L.sectorsPerCluster = spc)
    (hsize : L.clusterSizeBytes = spc * 512) (hpos : 0 < spc)
    (hrun : initDirectoryCluster 2 2 s = (some (), s')) :
    s'.toEnv = s.toEnv ∧ s'.allocHint = s.allocHint ∧
      LaysDown (P ∪ Set.Ico (2080 + 2 * fs) (2080 + 2 * fs + spc))
        (Q ∪ Set.Ico (2080 + 2 * fs) (2080 + 2 * fs + spc))
        (freshImage T spc fs label) s0 s' := by
  have hlba : s.fat32.lbaOf 2 = 2080 + 2 * fs := by
    rw [hL]
    unfold Layout.lbaOf
    rw [Nat.sub_self, Nat.zero_mul, Nat.add_zero, hdata]
  have hclba : ∀ {r : Nat} {x x' : State}, x.fat32 = s.fat32 →
      clusterLba 2 x = (some r, x') → r = 2080 + 2 * fs ∧ x' = x := by
    intro r x x' hx hr
    rw [clusterLba, Cmd.get_bind_apply, hx] at hr
    obtain ⟨-, hr⟩ := Cmd.require_ok_inv hr
    obtain ⟨-, hr⟩ := Cmd.require_ok_inv hr
    obtain ⟨-, hr⟩ := Cmd.require_ok_inv hr
    injection hr with hr hxs
    injection hr with hr
    exact ⟨by rw [← hr, hlba], hxs.symm⟩
  rw [initDirectoryCluster] at hrun
  obtain ⟨off, s1, hoff, hrun⟩ := Cmd.bind_ok_inv hrun
  obtain ⟨lba, s2, hlba2, hpure⟩ := Cmd.bind_ok_inv hoff
  obtain ⟨rfl, rfl⟩ := hclba rfl hlba2
  rw [Cmd.pure_apply] at hpure
  injection hpure with hpure hs1
  injection hpure with hpure
  subst hpure hs1
  rw [Cmd.get_bind_apply] at hrun
  obtain ⟨-, hrun⟩ := Cmd.require_ok_inv hrun
  obtain ⟨lba, s3, hlba3, hrun⟩ := Cmd.bind_ok_inv hrun
  obtain ⟨rfl, rfl⟩ := hclba rfl hlba3
  simp only [poke, Cmd.modify_bind_apply, hL, hspc, hsize] at hrun
  obtain ⟨s1, hs1, hrun⟩ : ∃ s1, s1 = _ ∧
      syncSectorRange (2080 + 2 * fs) spc s1 = (some (), s') := ⟨_, rfl, hrun⟩
  have hbytes : s1.bytes = blit s3.bytes ((2080 + 2 * fs) * 512) (spc * 512)
      rootImage := by
    rw [hs1]
    simp only [State.poked, sectorSize, direntSize, rootImage]
    rw [← blit_blit_inside _ _ (by omega), ← blit_blit_inside _ _ (by omega)]
    rfl
  have hin : ∀ i, 2080 + 2 * fs ≤ i / 512 → i / 512 < 2080 + 2 * fs + spc →
      s1.bytes i = freshImage T spc fs label i := by
    intro i h1 h2
    rw [hbytes, blit_in (by omega) (by omega)]
    unfold freshImage
    rw [if_neg (by omega), if_neg (by omega), if_neg (by omega)]
  have hout : ∀ i,
      ¬ (2080 + 2 * fs ≤ i / 512 ∧ i / 512 < 2080 + 2 * fs + spc) →
        s1.bytes i = s3.bytes i := by
    intro i hi
    rw [hbytes, blit_out (by omega)]
  obtain ⟨henv, hhint, hlays⟩ := h.sync (by rw [hs1]; exact hb)
    (by rw [hs1]; rfl) (by rw [hs1]; rfl) hin hout hrun
  exact ⟨by rw [henv, hs1]; rfl, by rw [hhint, hs1]; rfl, hlays⟩

theorem syncFatLoop_laysDown {n j : Nat} (hn : j + n ≤ 2)
    (h : LaysDown P Q (freshImage T spc fs label) s0 s)
    (hb : s.hwBacked = s0.hwBacked)
    (hP : Set.Ico 2080 (2080 + 2 * fs) ⊆ P)
    (hrun : syncFatLoop fs n j s = (some (), s')) :
    s'.toEnv = s.toEnv ∧ s'.allocHint = s.allocHint ∧
      LaysDown P (Q ∪ Set.Ico (2080 + j * fs) (2080 + (j + n) * fs))
        (freshImage T spc fs label) s0 s' := by
  induction n generalizing j s Q with
  | zero =>
    cases hrun
    refine ⟨rfl, rfl, ?_⟩
    rwa [Nat.add_zero, Set.Ico_self, Set.union_empty]
  | succ n ih =>
    obtain ⟨_, s1, hrun1, hrun⟩ := Cmd.bind_ok_inv hrun
    have hmul : j * fs + fs + n * fs ≤ 2 * fs := by
      rw [← Nat.succ_mul, ← Nat.add_mul]
      exact Nat.mul_le_mul_right _ (by omega)
    have hsub : Set.Ico (2080 + j * fs) (2080 + j * fs + fs) ⊆ P := by
      intro l hl
      exact hP ⟨by have := hl.1; omega, by have := hl.2; omega⟩
    obtain ⟨henv1, hhint1, hlays1⟩ := h.syncOf hb hsub hrun1
    obtain ⟨henv, hhint, hlays⟩ := ih (by omega) hlays1
      (by rw [henv1]; exact hb) hrun
    refine ⟨henv.trans henv1, hhint.trans hhint1, ?_⟩
    rwa [Set.union_assoc, Ico_copy_union fs j n] at hlays

end steps

-- ==== reading it back

/-- The header of a fresh volume. -/
def freshHeader (totalSectors spc fatSectors : Nat) : BootHeader where
  bytesPerSector := sectorSize
  sectorsPerCluster := spc
  reservedSectors := formatReserved
  fatCount := formatFats
  sectorsPerFat := fatSectors
  rootCluster := 2
  totalSectors16 := 0
  totalSectors32 := totalSectors

section header

variable {T spc fs : Nat} {label : List UInt8}

private theorem readU16_stored (m : Mem) (off x : Nat) :
    readU16 (blit m off 2 (wordByte x)) off = x % 2 ^ 16 :=
  readU16_writeU16 m off x

private theorem readU32_stored (m : Mem) (off x : Nat) :
    readU32 (blit m off 4 (wordByte x)) off = x % 2 ^ 32 := by
  have := readU32_writeU32 m off x
  rwa [writeU32] at this

theorem readBootHeader_bootSector (label : List UInt8) (hT : T < 2 ^ 32) (hspc : spc < 256)
    (hfs : fs < 2 ^ 32) :
    readBootHeader (bootSector T spc fs label) 0 = freshHeader T spc fs := by
  unfold readBootHeader bootSector freshHeader
  simp only [writeU16, writeU32, Nat.zero_add, bootSigOffset, fat32TypeOffset,
    partitionLba, formatReserved, formatFats, sectorSize]
  simp (disch := omega) only [readU16_blit_out, readU32_blit_out,
    readU16_stored, readU32_stored, blit_out, blit_in]
  simp only [Nat.mod_eq_of_lt hT, Nat.mod_eq_of_lt hfs]
  simp [Nat.mod_eq_of_lt hspc]

theorem hasBootSig_bootSector :
    hasBootSig (bootSector T spc fs label) 0 = true := by
  unfold hasBootSig bootSector
  simp only [writeU16, writeU32, Nat.zero_add, bootSigOffset, fat32TypeOffset]
  simp (disch := omega) only [blit_out, blit_in]
  decide

theorem hasFat32Type_bootSector :
    hasFat32Type (bootSector T spc fs label) 0 = true := by
  have hb : ∀ k < 5, bootSector T spc fs label (82 + k)
      = (txt "FAT32   ").getD k 0 := by
    intro k hk
    unfold bootSector
    simp only [writeU16, writeU32, bootSigOffset, fat32TypeOffset]
    rw [blit_out (by omega), blit_out (by omega), blit_in (by omega) (by omega),
      Nat.add_sub_cancel_left]
  unfold hasFat32Type
  simp only [fat32TypeOffset, Nat.zero_add]
  have hl : (List.range 5).map (fun k => bootSector T spc fs label (82 + k))
      = (List.range 5).map fun k => (txt "FAT32   ").getD k 0 :=
    List.map_congr_left fun k hk => hb k (List.mem_range.mp hk)
  rw [hl]
  decide

theorem LaysDown.header {P Q : Set Nat} {s0 s : State}
    (h : LaysDown P Q (freshImage T spc fs label) s0 s)
    (hb : s.hwBacked = s0.hwBacked) (hP0 : Set.Ico 0 1 ⊆ P)
    (hP : Set.Ico 2048 2080 ⊆ P) (hT : T < 2 ^ 32) (hspc : spc < 256)
    (hfs : fs < 2 ^ 32) :
    s.volumeStart = 2048 ∧ s.header = freshHeader T spc fs ∧
      (hasBootSig s.shown (2048 * 512) && hasFat32Type s.shown (2048 * 512))
        = true ∧
      (s.hwBacked = true → s.loaded 0 = true ∧ s.loaded 2048 = true) := by
  have hshown : ∀ i, i / 512 ∈ P → s.shown i = freshImage T spc fs label i := by
    intro i hi
    obtain ⟨hl, hbytes⟩ := h.image _ hi
    rw [← hbytes i rfl]
    unfold State.shown
    by_cases hbs : s.hwBacked = true
    · rw [hl (by rw [← hb]; exact hbs)]
      simp
    · simp [hbs]
  have hsig : hasBootSig s.shown 0 = false := by
    have h0 : s.shown (0 + bootSigOffset) = 0 := by
      rw [hshown _ (hP0 ⟨by omega, by decide⟩)]
      unfold freshImage
      rw [if_pos (by decide)]
    unfold hasBootSig
    rw [h0]
    rfl
  have hstart : s.volumeStart = 2048 := by
    unfold State.volumeStart
    rw [hsig]
    rfl
  have hboot : ∀ k < 512, s.shown (2048 * 512 + k)
      = bootSector T spc fs label (0 + k) := by
    intro k hk
    rw [hshown _ (hP ⟨by omega, by omega⟩)]
    unfold freshImage headerImage
    rw [if_neg (by omega), if_pos (by omega), Nat.add_sub_cancel_left,
      blit_out (by omega), blit_out (by omega), blit_out (by omega),
      blit_in (by omega) (by omega), Nat.sub_zero, Nat.zero_add]
  refine ⟨hstart, ?_, ?_, fun hbs => ⟨?_, ?_⟩⟩
  · unfold State.header
    rw [hstart, ← readBootHeader_bootSector label hT hspc hfs]
    exact readBootHeader_congr hboot
  · rw [hasBootSig_congr hboot, hasFat32Type_congr hboot,
      hasBootSig_bootSector, hasFat32Type_bootSector]
    rfl
  · exact (h.image 0 (hP0 ⟨by omega, by omega⟩)).1 (by rw [← hb]; exact hbs)
  · exact (h.image 2048 (hP ⟨by omega, by omega⟩)).1 (by rw [← hb]; exact hbs)

end header

-- ==== formatting

/-- The layout of a fresh volume. -/
def freshLayout (totalSectors spc fatSectors : Nat) : Layout :=
  (freshHeader totalSectors spc fatSectors).layout partitionLba

theorem freshLayout_dataLba (T spc fs : Nat) :
    (freshLayout T spc fs).dataLba = 2080 + 2 * fs := by
  simp only [freshLayout, BootHeader.layout, freshHeader, partitionLba,
    formatReserved, formatFats, Nat.reduceAdd]

theorem freshLayout_spc (T spc fs : Nat) :
    (freshLayout T spc fs).sectorsPerCluster = spc := rfl

theorem freshLayout_size (T spc fs : Nat) :
    (freshLayout T spc fs).clusterSizeBytes = spc * 512 := rfl

/-- The sectors that formatting lays down. -/
def freshSectors (spc fatSectors : Nat) : Set Nat :=
  Set.Ico 0 1 ∪ Set.Ico 2048 2080 ∪ Set.Ico 2080 (2080 + 2 * fatSectors) ∪
    Set.Ico (2080 + 2 * fatSectors) (2080 + 2 * fatSectors + spc)

/-- The sectors of the volume that is made on a disk. -/
def State.freshTotal (s : State) : Nat := s.sectorTotal - partitionLba

/-- The cluster size that is chosen for it. -/
def State.freshSpc (s : State) : Nat := formatChooseSpc s.freshTotal

/-- A disk was formatted, with tables of this size. -/
structure Formats (s s' : State) (label : List UInt8)
    (fatSectors clusterCount : Nat) : Prop where
  search : fatSectorsLoop s.freshTotal s.freshSpc 16 1 0
    = some (fatSectors, clusterCount)
  total_lt : s.sectorTotal < 2 ^ 32
  count_ge : minClusterCount ≤ clusterCount
  room : 32 + 2 * fatSectors < s.freshTotal
  accepted : (freshHeader s.freshTotal s.freshSpc fatSectors).accepted
    s.sectorTotal partitionLba = true
  lays : LaysDown (freshSectors s.freshSpc fatSectors)
    (freshSectors s.freshSpc fatSectors)
    (freshImage s.freshTotal s.freshSpc fatSectors label) s s'

theorem IsSpc.pos {spc : Nat} (h : IsSpc spc) : 0 < spc := by
  rcases h with rfl | rfl | rfl | rfl | rfl <;> decide

theorem IsSpc.lt {spc : Nat} (h : IsSpc spc) : spc < 256 := by
  rcases h with rfl | rfl | rfl | rfl | rfl <;> decide

section format

variable {s s' : State} {label : List UInt8}

theorem parse_fresh {P Q : Set Nat} {s0 : State} {T spc fs : Nat}
    (h : LaysDown P Q (freshImage T spc fs label) s0 s)
    (hb : s.hwBacked = s0.hwBacked) (hP0 : Set.Ico 0 1 ⊆ P)
    (hP : Set.Ico 2048 2080 ⊆ P) (hT : T < 2 ^ 32) (hspc : spc < 256)
    (hfs : fs < 2 ^ 32) (hrun : parseFat32Layout s = (some (), s')) :
    (freshHeader T spc fs).accepted s.sectorTotal partitionLba = true ∧
      s'.toEnv = { s.toEnv with fat32 := freshLayout T spc fs } ∧
      s'.allocHint = 2 ∧ LaysDown P Q (freshImage T spc fs label) s0 s' := by
  obtain ⟨hstart, hhead, -, hl⟩ := h.header hb hP0 hP hT hspc hfs
  obtain ⟨s1, hrun1, hok⟩ := parseFat32Layout_run s
  obtain ⟨ha, -⟩ := parseFat32Layout_ok hrun
  rw [hrun, if_pos ha] at hrun1
  injection hrun1 with _ hs1
  subst hs1
  obtain ⟨henv, hhint, -, hidle⟩ := hok ha
  obtain ⟨hbytes, hloaded, hhw⟩ := hidle hl
  rw [hstart, hhead] at henv
  refine ⟨?_, henv, hhint, h.congr hbytes hloaded hhw⟩
  unfold State.accepts at ha
  rw [Bool.and_eq_true, hhead, hstart] at ha
  exact ha.2

theorem parse_accepts_again {b : Bool}
    (hrun : parseFat32Layout s = (some (), s')) :
    State.accepts { s' with formatted := b } = true := by
  obtain ⟨ha, -⟩ := parseFat32Layout_ok hrun
  obtain ⟨s1, hrun1, hok⟩ := parseFat32Layout_run s
  rw [hrun, if_pos ha] at hrun1
  injection hrun1 with _ hs1
  subst hs1
  obtain ⟨henv, -, hshown, -⟩ := hok ha
  have hready : s'.ready = s.ready := by
    rw [henv]
  have hlen : s'.bytesLen = s.bytesLen := by
    rw [henv]
  have htotal : s'.sectorTotal = s.sectorTotal := by
    rw [henv]
  have hshown' : State.shown { s' with formatted := b } = s.shown := hshown
  unfold State.accepts State.header State.volumeStart at ha ⊢
  rw [hshown', hready, hlen, htotal]
  exact ha

theorem writeFat32BootSector_ok
    (hrun : writeFat32BootSector label s = (some (), s')) :
    ∃ fs cc, Formats s s' label fs cc ∧
      s'.toEnv = { s.toEnv with
        fat32 := freshLayout s.freshTotal s.freshSpc fs } ∧
      s'.allocHint = 2 := by
  rw [writeFat32BootSector, Cmd.get_bind_apply] at hrun
  obtain ⟨hsize, hrun⟩ := Cmd.require_ok_inv hrun
  obtain ⟨hgap, hrun⟩ := Cmd.require_ok_inv hrun
  obtain ⟨-, hrun⟩ := Cmd.require_ok_inv hrun
  have htotal : s.sectorTotal < 2 ^ 32 := by
    simp only [Bool.and_eq_true, decide_eq_true_eq] at hsize
    omega
  have hT : s.sectorTotal - partitionLba = s.freshTotal := rfl
  have hS : formatChooseSpc s.freshTotal = s.freshSpc := rfl
  simp only [hT, hS] at hrun
  have hspc : IsSpc s.freshSpc := formatChooseSpc_isSpc _
  cases hsearch : fatSectorsLoop s.freshTotal s.freshSpc 16 1 0 with
  | none =>
    rw [hsearch] at hrun
    cases hrun
  | some r =>
    obtain ⟨fs, cc⟩ := r
    rw [hsearch] at hrun
    obtain ⟨hcount, hrun⟩ := Cmd.require_ok_inv hrun
    obtain ⟨hroom, hrun⟩ := Cmd.require_ok_inv hrun
    simp only [Bool.and_eq_true, decide_eq_true_eq, formatReserved,
      formatFats] at hcount hroom
    have hfs : 0 < fs := fatSectorsLoop_pos (by decide) hsearch
    have hTlt : s.freshTotal < 2 ^ 32 := by
      unfold State.freshTotal
      omega
    obtain ⟨_, s1, hrun1, hrun⟩ := Cmd.bind_ok_inv hrun
    obtain ⟨_, s2, hrun2, hrun⟩ := Cmd.bind_ok_inv hrun
    obtain ⟨_, s3, hrun3, hrun⟩ := Cmd.bind_ok_inv hrun
    rw [Cmd.get_bind_apply] at hrun
    obtain ⟨_, s4, hrun4, hrun⟩ := Cmd.bind_ok_inv hrun
    obtain ⟨_, s5, hrun5, hrun⟩ := Cmd.bind_ok_inv hrun
    obtain ⟨_, s6, hrun6, hrun7⟩ := Cmd.bind_ok_inv hrun
    have hfslt : fs < 2 ^ 32 := by omega
    -- Down into the image go the header, the tables and the root.
    obtain ⟨henv1, -, hl1⟩ := writeHeader_laysDown (.refl _ s) hrun1
    obtain ⟨henv2, -, hl2⟩ := blankFatLoop_laysDown hfs (by decide) hl1 hrun2
    have henv2 := henv2.trans henv1
    obtain ⟨hacc, henv3, hhint3, hl3⟩ := parse_fresh hl2
      (congrArg Env.hwBacked henv2) (fun l hl => .inl (.inl (.inr hl)))
      (fun l hl => .inl (.inr hl)) hTlt hspc.lt hfslt hrun3
    rw [congrArg Env.sectorTotal henv2] at hacc
    rw [henv2] at henv3
    have hL : s3.fat32 = freshLayout s.freshTotal s.freshSpc fs :=
      congrArg Env.fat32 henv3
    have hb3 : s3.hwBacked = s.hwBacked := by
      have he := congrArg Env.hwBacked henv3
      exact he
    have hroot : s3.fat32.rootCluster = 2 := by
      rw [hL]
      rfl
    rw [hroot] at hrun4
    obtain ⟨henv4, hhint4, hl4⟩ := initRoot_laysDown hl3 hb3 hL
      (freshLayout_dataLba _ _ fs) (freshLayout_spc _ _ fs)
      (freshLayout_size _ _ fs) hspc.pos hrun4
    -- All of it is written out.
    have hb4 := (congrArg Env.hwBacked henv4).trans hb3
    obtain ⟨henv5, hhint5, hl5⟩ := hl4.syncOf hb4
      (fun l hl => .inl (.inl (.inl (.inr hl)))) hrun5
    have hb5 := (congrArg Env.hwBacked henv5).trans hb4
    obtain ⟨henv6, hhint6, hl6⟩ := hl5.syncOf hb5
      (fun l hl => .inl (.inl (.inr hl))) hrun6
    have hb6 := (congrArg Env.hwBacked henv6).trans hb5
    obtain ⟨henv7, hhint7, hl7⟩ := syncFatLoop_laysDown (by decide) hl6 hb6
      (fun l hl => .inl (.inr (by simpa using hl))) hrun7
    refine ⟨fs, cc, ⟨hsearch, htotal, hcount.1, hroom, hacc, ?_⟩, ?_, ?_⟩
    · have hP : ∅ ∪ Set.Ico 0 1 ∪ Set.Ico 2048 2080
            ∪ Set.Ico (2080 + 0 * fs) (2080 + (0 + 2) * fs)
            ∪ Set.Ico (2080 + 2 * fs) (2080 + 2 * fs + s.freshSpc)
          = freshSectors s.freshSpc fs := by
        unfold freshSectors
        rw [Nat.zero_mul, Nat.zero_add, Nat.add_zero, Set.empty_union]
      have hQ : ∅ ∪ Set.Ico (2080 + 2 * fs) (2080 + 2 * fs + s.freshSpc)
            ∪ Set.Ico 0 (0 + 1)
            ∪ Set.Ico partitionLba (partitionLba + formatReserved)
            ∪ Set.Ico (2080 + 0 * fs) (2080 + (0 + formatFats) * fs)
          = freshSectors s.freshSpc fs := by
        unfold freshSectors
        simp only [partitionLba, formatReserved, formatFats]
        rw [Nat.zero_mul, Nat.zero_add, Nat.zero_add, Nat.add_zero,
          Set.empty_union]
        ext l
        simp only [Set.mem_union, Set.mem_Ico]
        omega
      rwa [hP, hQ] at hl7
    · rw [henv7, henv6, henv5, henv4, henv3]
    · rw [hhint7, hhint6, hhint5, hhint4, hhint3]

theorem formatFat32_ok (hrun : formatFat32 label s = (some (), s')) :
    ∃ fs cc, Formats s s' label fs cc ∧
      s'.toEnv = { s.toEnv with
        formatted := true
        fat32 := freshLayout s.freshTotal s.freshSpc fs } ∧
      s'.allocHint = 2 ∧ s'.accepts = true := by
  rw [formatFat32, Cmd.get_bind_apply] at hrun
  obtain ⟨-, hrun⟩ := Cmd.require_ok_inv hrun
  obtain ⟨_, s1, hwrite, hrun⟩ := Cmd.bind_ok_inv hrun
  have hwrite' : writeFat32BootSector label s = (some (), s1) := by
    cases hw : writeFat32BootSector label s with
    | mk r s2 =>
      cases r with
      | none =>
        rw [Cmd.orCleanup_err hw] at hwrite
        cases hwrite
      | some u =>
        rw [Cmd.orCleanup_ok hw] at hwrite
        injection hwrite with _ hs
        rw [hs]
  obtain ⟨fs, cc, hf, henv, -⟩ := writeFat32BootSector_ok hwrite'
  rw [Cmd.attempt_bind_apply, Cmd.modify_bind_apply] at hrun
  cases hp : parseFat32Layout s1 with
  | mk r s2 =>
    rw [hp] at hrun
    cases r with
    | none => cases hrun
    | some u =>
      injection hrun with _ hs
      have hspc : IsSpc s.freshSpc := formatChooseSpc_isSpc _
      have hb : s1.hwBacked = s.hwBacked := by
        have he := congrArg Env.hwBacked henv
        exact he
      have hT : s.freshTotal < 2 ^ 32 := by
        have := hf.total_lt
        unfold State.freshTotal
        omega
      obtain ⟨-, henv2, hhint2, hl2⟩ := parse_fresh hf.lays hb
        (fun l hl => .inl (.inl (.inl hl))) (fun l hl => .inl (.inl (.inr hl)))
        hT hspc.lt (by have := hf.room; omega) hp
      rw [henv] at henv2
      refine ⟨fs, cc, { hf with lays := ?_ }, ?_, ?_, ?_⟩
      · rw [← hs]
        exact hl2.congr rfl rfl rfl
      · rw [← hs]
        exact congrArg (fun e : Env => { e with formatted := true }) henv2
      · rw [← hs]
        exact hhint2
      · rw [← hs]
        exact parse_accepts_again hp

end format

-- ==== the round trip

/-- The layout of the volume that the formatter has in mind. -/
def writtenLayout (totalSectors spc fatSectors clusterCount : Nat) :
    Layout :=
  { freshLayout totalSectors spc fatSectors with clusterCount := clusterCount }

/-- The disk `s'` into which `s` was formatted parses, to the layout that
was written, and its tables have room for all clusters. -/
def RoundTrips (s s' : State) : Prop :=
  ∃ fatSectors clusterCount s'',
    fatSectorsLoop s.freshTotal s.freshSpc 16 1 0
      = some (fatSectors, clusterCount) ∧
    parseFat32Layout s' = (some (), s'') ∧
    s''.fat32 = writtenLayout s.freshTotal s.freshSpc fatSectors clusterCount ∧
    (s''.fat32.clusterCount + 2) * 4 ≤ s''.fat32.sectorsPerFat * sectorSize

section roundTrip

variable {s s' : State} {label : List UInt8} {fs cc : Nat}

theorem freshLayout_clusterCount (T spc fs : Nat) :
    (freshLayout T spc fs).clusterCount = clustersBeside T spc fs := by
  show (T - (formatReserved + formatFats * fs)) / spc = _
  unfold clustersBeside
  rw [Nat.sub_sub]

theorem Formats.parses (h : Formats s s' label fs cc)
    (hb : s'.hwBacked = s.hwBacked) (ha : s'.accepts = true) :
    ∃ s'', parseFat32Layout s' = (some (), s'') ∧
      s''.fat32 = freshLayout s.freshTotal s.freshSpc fs := by
  have hspc : IsSpc s.freshSpc := formatChooseSpc_isSpc _
  have hT : s.freshTotal < 2 ^ 32 := by
    have := h.total_lt
    unfold State.freshTotal
    omega
  obtain ⟨s'', hrun, -⟩ := parseFat32Layout_run s'
  rw [if_pos ha] at hrun
  obtain ⟨-, henv, -⟩ := parse_fresh h.lays hb
    (fun l hl => .inl (.inl (.inl hl))) (fun l hl => .inl (.inl (.inr hl)))
    hT hspc.lt (by have := h.room; omega) hrun
  exact ⟨s'', hrun, congrArg Env.fat32 henv⟩

theorem Formats.short (h : Formats s s' label fs cc)
    (ho : Oscillates s.freshTotal s.freshSpc) :
    fs * sectorSize < (clustersBeside s.freshTotal s.freshSpc fs + 2) * 4 := by
  have hspc : IsSpc s.freshSpc := formatChooseSpc_isSpc _
  have hcount := fatSectorsLoop_count (by omega) h.search
  have hge := Nat.mul_le_mul_right s.freshSpc h.count_ge
  have hone : 1 < fatFix s.freshTotal s.freshSpc := by
    unfold fatFix
    simp only [minClusterCount, formatReserved] at hge ⊢
    rcases hspc with he | he | he | he | he <;> rw [he] at hge hcount ⊢ <;>
      omega
  have hlt := fatSectorsLoop_oscillates hspc ho
    (iff_of_true rfl hone) h.search
  exact short_of_lt_fatFix hspc h.room hlt

theorem Formats.roundTrips (h : Formats s s' label fs cc)
    (hb : s'.hwBacked = s.hwBacked) (ha : s'.accepts = true) :
    RoundTrips s s' ↔ ¬ Oscillates s.freshTotal s.freshSpc := by
  have hspc : IsSpc s.freshSpc := formatChooseSpc_isSpc _
  have hT : s.freshTotal < 2 ^ 32 := by
    have := h.total_lt
    unfold State.freshTotal
    omega
  obtain ⟨s1, hrun1, hL1⟩ := h.parses hb ha
  constructor
  · intro hround ho
    obtain ⟨fs', cc', s'', hsearch, hrun, hL, hcov⟩ := hround
    rw [h.search] at hsearch
    injection hsearch with hsearch
    injection hsearch with hfs hcc
    rw [hrun1] at hrun
    injection hrun with _ hs
    rw [← hs, hL1, freshLayout_clusterCount] at hcov
    exact absurd hcov (Nat.not_le_of_lt (h.short ho))
  · intro ho
    obtain ⟨hfs, hcc⟩ := fatSectorsLoop_converges hspc ho hT h.search
    refine ⟨fs, cc, s1, h.search, hrun1, ?_, ?_⟩
    · rw [hL1, writtenLayout, hcc, ← hfs, ← freshLayout_clusterCount]
    · rw [hL1, freshLayout_clusterCount]
      have hfix : nextFat s.freshTotal s.freshSpc fs = fs := by
        rw [hfs]
        exact nextFat_fix hspc (by rw [← hfs]; exact h.room) ho
      exact (nextFat_le_iff _ _ fs).mp (Nat.le_of_eq hfix)

end roundTrip

/-- A disk that was formatted parses to the layout that was written,
with room for all clusters in its tables, exactly if its size is not one
of those on which the search for the size of the tables goes back and
forth. -/
theorem roundTrips_iff {s s' : State} {label : List UInt8}
    (hrun : formatFat32 label s = (some (), s')) :
    RoundTrips s s' ↔ ¬ Oscillates s.freshTotal s.freshSpc := by
  obtain ⟨fs, cc, hf, henv, -, ha⟩ := formatFat32_ok hrun
  have hb : s'.hwBacked = s.hwBacked := by
    rw [henv]
  exact hf.roundTrips hb ha

/-- The driver that has just started on a blank disk. -/
def blankDisk (sectors : Nat) : State :=
  .booted { smallestEnv with
    bytesLen := sectors * sectorSize
    sectorTotal := sectors
    formatted := false
    mounted := false
    fat32 := Layout.zero } fun _ => 0

theorem format_run (s : State) (label : List UInt8)
    (h : (formatFat32 label s).1 = some ()) :
    ∃ s', formatFat32 label s = (some (), s') :=
  ⟨(formatFat32 label s).2, Prod.ext h rfl⟩

/-- A disk of 68640 sectors is formatted, and its tables are short of
two entries. -/
theorem blankDisk_not_roundTrips :
    ∃ s', formatFat32 [] (blankDisk 68640) = (some (), s') ∧
      ¬ RoundTrips (blankDisk 68640) s' := by
  obtain ⟨s', hrun⟩ := format_run (blankDisk 68640) []
    (by decide +kernel)
  refine ⟨s', hrun, ?_⟩
  obtain ⟨fs, cc, hf, henv, -, ha⟩ := formatFat32_ok hrun
  have hb : s'.hwBacked = (blankDisk 68640).hwBacked := by
    rw [henv]
  rw [hf.roundTrips hb ha, not_not]
  unfold Oscillates
  decide

/-- The condition at the smallest disk. -/
theorem roundTrips_iff_smallest :
    ∃ s', formatFat32 [] (blankDisk 68629) = (some (), s') ∧
      (RoundTrips (blankDisk 68629) s' ↔
        ¬ Oscillates (blankDisk 68629).freshTotal
          (blankDisk 68629).freshSpc) := by
  obtain ⟨s', hrun⟩ := format_run (blankDisk 68629) []
    (by decide +kernel)
  exact ⟨s', hrun, roundTrips_iff hrun⟩

end Clks.Disk
