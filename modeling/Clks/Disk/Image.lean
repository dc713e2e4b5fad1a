/-
Disks with a given volume on them.

`volOf` reads the volume off the sectors of a disk. Here is the way
back: `imageOf` lays a volume out, with equal copies of the table, and
reading it gives the volume again (`volOf_imageOf`). A driver that has
just started on such a disk has loaded nothing (`State.booted`).
-/
import Clks.Disk.Proofs.Mkdir

namespace Clks.Disk

open Bytes Linked

-- `omega` takes an equation between multiples of 512 apart bit by bit.
set_option maxRecDepth 2000

-- ==== the layout

/-- The volume has links of 28 bits, and nothing outside its table and
its clusters. -/
structure Vol.Fits (L : Layout) (v : Vol) : Prop where
  fat_lt : ∀ c, v.fat c < 2 ^ 28
  fat_out : ∀ c, L.clusterCount + 2 ≤ c → v.fat c = 0
  data_out : ∀ c k, ¬ (L.clusterValid c = true ∧ k < L.clusterSizeBytes) →
    v.data c k = 0

/-- The sectors of a disk with a volume on it. -/
def imageOf (L : Layout) (v : Vol) : Mem := fun i =>
  if i < L.fatLba * sectorSize then 0
  else if i < L.dataLba * sectorSize then
    let j := (i - L.fatLba * sectorSize) % (L.sectorsPerFat * sectorSize)
    wordByte (v.fat (j / 4)) (j % 4)
  else
    let j := i - L.dataLba * sectorSize
    v.data (2 + j / L.clusterSizeBytes) (j % L.clusterSizeBytes)

section image

variable {L : Layout} {total : Nat} {v : Vol}

theorem rawFat_imageOf (hs : L.Sound total) (hv : v.Fits L) {k c : Nat}
    (hk : k < L.fatCount) (hc : c < L.clusterCount + 2) :
    rawFat L (imageOf L v) k c = v.fat c := by
  have hcov := hs.covers
  have hdat := hs.data
  have hcopy : k * L.sectorsPerFat + L.sectorsPerFat
      ≤ L.fatCount * L.sectorsPerFat := by
    rw [← Nat.succ_mul]
    exact Nat.mul_le_mul_right _ hk
  simp only [sectorSize] at hcov
  have hbyte : ∀ j < 4, imageOf L v (L.fatOffset k c + j)
      = wordByte (v.fat c) j := by
    intro j hj
    have hoff : L.fatOffset k c + j
        = L.fatLba * 512 + (c * 4 + j + L.sectorsPerFat * 512 * k) := by
      rw [Layout.fatOffset_eq, Nat.add_mul, Nat.mul_right_comm,
        Nat.mul_comm (k * 512), Nat.mul_comm k 512, ← Nat.mul_assoc]
      omega
    have hlt : L.fatOffset k c + j < L.dataLba * 512 := by
      rw [Layout.fatOffset_eq]
      omega
    simp only [imageOf, sectorSize]
    rw [if_neg (by omega), if_pos hlt, hoff, Nat.add_sub_cancel_left,
      Nat.add_mul_mod_self_left, Nat.mod_eq_of_lt (by omega)]
    congr 2
    · omega
    · omega
  have h0 : imageOf L v (L.fatOffset k c) = wordByte (v.fat c) 0 :=
    hbyte 0 (by omega)
  have hlt := hv.fat_lt c
  simp only [rawFat, readU32, h0, hbyte 1 (by omega), hbyte 2 (by omega),
    hbyte 3 (by omega), wordByte_toNat]
  omega

theorem volOf_imageOf (hs : L.Sound total) (hv : v.Fits L) :
    volOf L (imageOf L v) = v := by
  refine Vol.ext (funext fun c => ?_) (funext fun c => funext fun k => ?_)
  · simp only [volOf]
    split_ifs with hc
    · rw [rawFat_imageOf hs hv hs.fats_pos hc, low28_of_lt (hv.fat_lt c)]
    · exact (hv.fat_out c (by omega)).symm
  · simp only [volOf]
    split_ifs with hc
    · obtain ⟨hcv, hk⟩ := hc
      have h2 := ((hs.clusterValid_iff c).mp hcv).1
      have hsz := hs.size
      have hdat := hs.data
      have hoff : L.clusterOffset c + k
          = L.dataLba * 512 + (L.clusterSizeBytes * (c - 2) + k) := by
        rw [Layout.clusterOffset_eq]
        simp only [Layout.lbaOf, hsz, sectorSize]
        rw [Nat.add_mul, Nat.mul_comm (c - 2), Nat.mul_right_comm]
        omega
      simp only [imageOf, sectorSize]
      rw [if_neg (by omega), if_neg (by omega), hoff,
        Nat.add_sub_cancel_left, Nat.mul_add_div hs.clusterSize_pos,
        Nat.div_eq_of_lt hk, Nat.mul_add_mod, Nat.mod_eq_of_lt hk]
      congr 1
      omega
    · exact (hv.data_out c k hc).symm

end image

/-- The driver after it started on a disk: nothing is loaded, and the
image is empty. -/
def State.booted (e : Env) (hw : Mem) : State where
  toEnv := e
  bytes := fun _ => 0
  loaded := fun _ => false
  hw := hw
  allocHint := 2

section booted

variable {e : Env}

theorem State.booted_ok (h : e.Ok) (hw : Mem) : (State.booted e hw).Ok :=
  ⟨h, fun _ _ hl => absurd hl (by simp [State.booted])⟩

theorem State.booted_vol (h : e.Ok) {v : Vol} (hv : v.Fits e.fat32) :
    (State.booted e (imageOf e.fat32 v)).vol = v :=
  volOf_imageOf h.sound hv

theorem State.booted_moves (h : e.Ok) {v v' : Vol} (hv : v.Fits e.fat32)
    (hv' : v'.Fits e.fat32) :
    Moves (State.booted e (imageOf e.fat32 v))
      (State.booted e (imageOf e.fat32 v')) where
  env := rfl
  coherent _ := (State.booted_ok h _).coherent
  loaded _ := id
  unloaded _ _ _ _ := rfl
  topBits k hk c hc := by
    simp only [State.topBits, State.booted] at hk hc ⊢
    rw [rawFat_imageOf h.sound hv hk hc, rawFat_imageOf h.sound hv' hk hc,
      Nat.div_eq_of_lt (hv.fat_lt c), Nat.div_eq_of_lt (hv'.fat_lt c)]
  mirrored _ := by
    intro k hk c hc
    simp only [State.booted] at hk hc ⊢
    rw [rawFat_imageOf h.sound hv' hk hc,
      rawFat_imageOf h.sound hv' h.sound.fats_pos hc]

end booted

-- ==== an empty volume

/-- The ghost of a volume that has nothing but its root. -/
def Ghost.rootOnly (L : Layout) : Ghost where
  own o := if o = .root then [L.rootCluster] else []
  dir o := o = .root
  rank _ := 0

theorem Tree.rootOnly {L : Layout} {total : Nat} (hs : L.Sound total)
    {fat : Nat → Nat} {kind : DirSlot → Kind}
    (hroot : eocMin ≤ fat L.rootCluster)
    (hfree : ∀ c, 2 ≤ c → c < L.clusterCount + 2 → c ≠ L.rootCluster →
      fat c = freeCluster)
    (hkind : ∀ i < L.entriesPerCluster,
      kind ⟨L.rootCluster, i⟩ = if i < 2 then .dots else .hidden) :
    Tree L fat kind (Ghost.rootOnly L) := by
  have hok : L.marks.ok L.rootCluster :=
    (hs.ok_iff _).mpr ((hs.clusterValid_iff _).mpr ⟨hs.root_ge, hs.root_lt⟩)
  have hown : ∀ slot, (Ghost.rootOnly L).own (.entry slot) = [] :=
    fun slot => by simp [Ghost.rootOnly]
  have hin : ∀ slot b f z, (Ghost.rootOnly L).InDirs L slot →
      kind slot ≠ .node b f z := by
    rintro ⟨c, i⟩ b f z ⟨⟨o, rfl, hc⟩, hi⟩
    obtain rfl : c = L.rootCluster := by simpa [Ghost.rootOnly] using hc
    rw [hkind i hi]
    split_ifs <;> simp
  refine ⟨⟨fun o => ?_, fun o o' hne => ?_, fun c hc => ?_⟩, rfl, ?_, rfl,
    fun slot => ?_, fun slot hd => ?_, fun o slot _ _ hd => ?_,
    fun slot ho => absurd (hown slot) ho,
    fun slot b f z hi hk => absurd hk (hin slot b f z hi),
    fun slot f z hi hk => absurd hk (hin slot false f z hi),
    fun o c i ho hc hi hk => ?_⟩
  · by_cases ho : o = .root
    · subst ho
      exact .inr ⟨L.rootCluster, .last hok hroot⟩
    · exact .inl (by simp [Ghost.rootOnly, ho])
  · intro c hc hc'
    simp only [Ghost.rootOnly] at hc hc'
    split_ifs at hc hc' with h1 h₂
    · exact hne (h1.trans h₂.symm)
    · cases hc'
    · cases hc
    · cases hc
  · constructor
    · intro hnf
      refine ⟨.root, ?_⟩
      by_contra hcr
      refine hnf (hfree c hc.1 hc.2.1 ?_)
      simpa [Ghost.rootOnly] using hcr
    · rintro ⟨o, ho⟩ hf
      have hcr : c = L.rootCluster := by
        simp only [Ghost.rootOnly] at ho
        split_ifs at ho
        · simpa using ho
        · cases ho
      rw [hcr] at hf
      exact L.marks.free_not_stop hf hroot
  · intro hd
    cases hd
  · refine iff_of_false (fun hd => by cases hd) ?_
    rintro ⟨hi, f, z, hk⟩
    exact hin slot true f z hi hk
  · cases hd
  · cases hd
  · obtain rfl : o = .root := ho
    obtain rfl : c = L.rootCluster := by simpa [Ghost.rootOnly] using hc
    refine ⟨rfl, ?_⟩
    rw [hkind i hi] at hk
    split_ifs at hk with h2
    rcases (by omega : i = 0 ∨ i = 1) with rfl | rfl
    · exact .inl rfl
    · refine .inr ⟨rfl, ?_⟩
      rw [hkind 0 (by omega), if_pos (by omega)]

/-- The volume that formatting leaves behind. -/
def freshVol (L : Layout) : Vol where
  fat c :=
    if c = 0 then eocMin
    else if c = 1 ∨ c = L.rootCluster then eoc
    else freeCluster
  data c :=
    if c = L.rootCluster then dirContent L L.rootCluster L.rootCluster
    else fun _ => 0

theorem freshVol_tree {L : Layout} {total : Nat} (hs : L.Sound total) :
    Tree L (freshVol L).fat (freshVol L).kind (Ghost.rootOnly L) := by
  have hge := hs.root_ge
  refine Tree.rootOnly hs ?_ (fun c h2 _ hc => ?_) fun i hi => ?_
  · simp only [freshVol, or_true, if_true]
    rw [if_neg (by omega)]
    decide
  · simp only [freshVol]
    rw [if_neg (by omega), if_neg (by omega)]
  · exact dirContent_kind hs (if_pos rfl) hi

-- ==== volumes that fit

namespace Vol.Fits

variable {L : Layout} {v : Vol}

theorem fresh {total : Nat} (hs : L.Sound total) :
    (freshVol L).Fits L where
  fat_lt c := by
    simp only [freshVol]
    split_ifs <;> decide
  fat_out c hc := by
    have hlt := hs.root_lt
    have hge := hs.root_ge
    simp only [freshVol]
    rw [if_neg (by omega), if_neg (by omega)]
  data_out c k hout := by
    simp only [freshVol]
    split_ifs with hc
    · simp only [dirContent, Layout.clip]
      refine if_neg fun hk => hout ⟨?_, hk⟩
      rw [hc]
      exact (hs.clusterValid_iff _).mpr ⟨hs.root_ge, hs.root_lt⟩
    · rfl

theorem setFat (h : v.Fits L) {c x : Nat} (hc : c < L.clusterCount + 2)
    (hx : x < 2 ^ 28) : (v.setFat c x).Fits L where
  fat_lt c' := by
    by_cases he : c' = c
    · rw [he, Vol.setFat_fat_self]
      exact hx
    · rw [Vol.setFat_fat_ne _ _ he]
      exact h.fat_lt c'
  fat_out c' hc' := by
    rw [Vol.setFat_fat_ne _ _ (by omega)]
    exact h.fat_out c' hc'
  data_out := h.data_out

theorem setData (h : v.Fits L) {c : Nat} {d : Nat → UInt8}
    (hc : L.clusterValid c = true)
    (hd : ∀ k, L.clusterSizeBytes ≤ k → d k = 0) :
    (v.setData c d).Fits L where
  fat_lt := h.fat_lt
  fat_out := h.fat_out
  data_out c' k hout := by
    by_cases he : c' = c
    · rw [he, Vol.setData_data_self]
      refine hd k (Nat.le_of_not_lt fun hk => hout ⟨?_, hk⟩)
      rwa [he]
    · rw [Vol.setData_data_ne _ _ he]
      exact h.data_out c' k hout

theorem setEntry {total : Nat} (hs : L.Sound total) (h : v.Fits L)
    {slot : DirSlot} (e : Entry) (hc : L.clusterValid slot.cluster = true)
    (hi : slot.entryIndex < L.entriesPerCluster) :
    (v.setEntry slot e).Fits L := by
  have hin := (hs.entry_in hi).1
  refine h.setData hc fun k hk => ?_
  rw [blit_out (by omega)]
  exact h.data_out _ _ fun hkl => by omega

theorem setEntries {total : Nat} (hs : L.Sound total) {c : Nat}
    (hc : L.clusterValid c = true) (es : List Entry) {i : Nat} {v : Vol}
    (h : v.Fits L) (hi : i + es.length ≤ L.entriesPerCluster) :
    (v.setEntries c i es).Fits L := by
  induction es generalizing i v with
  | nil => exact h
  | cons e es ih =>
    rw [List.length_cons] at hi
    exact ih (h.setEntry hs e hc (by simp only; omega)) (by omega)

end Vol.Fits

-- ==== a disk with a file

/-- The layout of the smallest disk that can be formatted,
`CLKS_DISK_MIN_BYTES` long. -/
def smallestLayout : Layout where
  valid := true
  bytesPerSector := 512
  sectorsPerCluster := 1
  reservedSectors := 32
  fatCount := 2
  sectorsPerFat := 512
  totalSectors := 66581
  rootCluster := 2
  clusterCount := 65525
  clusterSizeBytes := 512
  entriesPerCluster := 16
  volumeLba := 2048
  fatLba := 2080
  dataLba := 3104

/-- The driver on that disk, mounted where `clks_disk_init` mounts it. -/
def smallestEnv : Env where
  bytesLen := 68629 * 512
  sectorTotal := 68629
  ready := true
  formatted := true
  mounted := true
  hwBacked := true
  mountPath := txt "/temp/disk"
  fat32 := smallestLayout

theorem smallestEnv_ok : smallestEnv.Ok := by
  refine ⟨rfl, rfl, rfl, rfl, by decide, rfl, ?_, ?_, rfl, rfl, rfl, ?_, ?_,
    ?_, ?_, ?_⟩ <;> decide

/-- The driver that has just started on the smallest disk. -/
abbrev smallest (v : Vol) : State :=
  .booted smallestEnv (imageOf smallestLayout v)

/-- The volume with one cluster taken, for these bytes. -/
def takenVol (bytes : Mem) : Vol :=
  ((freshVol smallestLayout).setFat 3 eoc).setData 3
    (smallestLayout.clip bytes)

/-- The volume with one file in its root: its contents are in a single
cluster, its name has the slots right behind the dot entries. -/
def oneFileVol (component : List UInt8) (sfn : Sfn) (bytes : Mem)
    (size : Nat) : Vol :=
  ((takenVol bytes).withLfn ⟨2, 2⟩ component sfn).setEntry
    (nameSlot ⟨2, 2⟩ component) (buildDirEntry sfn attrArchive 3 size)

/-- The driver that has just started on the disk with that volume. -/
def oneFile (component : List UInt8) (sfn : Sfn) (bytes : Mem)
    (size : Nat) : State :=
  smallest (oneFileVol component sfn bytes size)

/-- The name and the contents fit. -/
structure OneFileFits (component : List UInt8) (sfn : Sfn) (bytes : Mem)
    (size : Nat) : Prop where
  gen : componentGenerateSfn component = some sfn
  count : lfnCountOf component ≤ 13
  room : freeSlotIn smallestLayout (takenVol bytes)
    (lfnCountOf component + 1) [2] = some ⟨2, 2⟩
  pos : 0 < size
  le : size ≤ 512

section oneFile

variable {component : List UInt8} {sfn : Sfn} {bytes : Mem} {size : Nat}

theorem smallest_vol {v : Vol} (hv : v.Fits smallestLayout) :
    (smallest v).vol = v :=
  State.booted_vol smallestEnv_ok hv

theorem freshVol_fits : (freshVol smallestLayout).Fits smallestLayout :=
  .fresh smallestEnv_ok.sound

theorem freshVol_holds : (smallest (freshVol smallestLayout)).Holds
    (Ghost.rootOnly smallestLayout) where
  ok := State.booted_ok smallestEnv_ok _
  tree := by
    rw [smallest_vol freshVol_fits]
    exact freshVol_tree smallestEnv_ok.sound
  idle := by simp [Ghost.rootOnly]

theorem takenVol_fits : (takenVol bytes).Fits smallestLayout :=
  (freshVol_fits.setFat (by decide) (by decide)).setData (by decide)
    fun _ hk => if_neg (Nat.not_lt.mpr hk)

theorem oneFileVol_fits (h : OneFileFits component sfn bytes size) :
    (oneFileVol component sfn bytes size).Fits smallestLayout := by
  have hc := h.count
  have hs := smallestEnv_ok.sound
  have hv : smallestLayout.clusterValid 2 = true := by decide
  refine Vol.Fits.setEntry hs (takenVol_fits.setEntries hs hv _ ?_) _ hv ?_
  · simp only [lfnEntries, List.length_map, List.length_range]
    show 2 + _ ≤ 16
    omega
  · show 2 + _ < 16
    omega

theorem oneFile_vol (h : OneFileFits component sfn bytes size) :
    (oneFile component sfn bytes size).vol
      = oneFileVol component sfn bytes size :=
  smallest_vol (oneFileVol_fits h)

theorem oneFile_consistent (h : OneFileFits component sfn bytes size) :
    (oneFile component sfn bytes size).Consistent := by
  have hs := smallestEnv_ok.sound
  have hm : Moves (smallest (freshVol smallestLayout))
      (smallest (takenVol bytes)) :=
    State.booted_moves smallestEnv_ok freshVol_fits takenVol_fits
  have hfree : 3 ∈ (freshVol smallestLayout).freeSet smallestLayout :=
    Vol.mem_freeSet.mpr ⟨by decide, by decide, by decide⟩
  have hown : Owned smallestLayout.marks (takenVol bytes).fat
      ((Ghost.rootOnly smallestLayout).setOwn .pending [3]).own :=
    takeOne_owned hs (freshVol_tree hs).owned (by simp [Ghost.rootOnly])
      hfree rfl
  obtain ⟨ht, hdata⟩ := freshVol_holds.pending (l := [3]) hm
    (by rw [smallest_vol takenVol_fits]; exact hown) fun c hc => by
      rw [smallest_vol takenVol_fits, smallest_vol freshVol_fits]
      exact Vol.setData_data_ne _ _ (by simpa using hc)
  have he : Enters (smallest (freshVol smallestLayout))
      (oneFile component sfn bytes size) (Ghost.rootOnly smallestLayout)
      .root (smallest (takenVol bytes)).vol (takenVol bytes) ⟨2, 2⟩
      component sfn attrArchive [3] size := by
    have hc := h.count
    refine ⟨State.booted_moves smallestEnv_ok freshVol_fits
      (oneFileVol_fits h), h.gen, le_trans hc (by decide), ?_,
      .inl ⟨?_, (smallest_vol takenVol_fits).symm⟩, hdata, ht, oneFile_vol h⟩
    · show 2 + _ < 16
      omega
    · rw [smallest_vol takenVol_fits]
      exact h.room
  refine (he.file freshVol_holds rfl hm ht ?_ ?_).1
  · have := h.le
    omega
  · have h1 := h.le
    have h2 := h.pos
    show 1 = (size + 512 - 1) / 512
    omega

end oneFile

/-- The short name of the file below. -/
def noteSfn : Sfn := txt "NOTE    TXT"

/-- A disk that holds `/temp/disk/note.txt`, one byte long. -/
def noteDisk : State := oneFile (txt "note.txt") noteSfn (fun _ => chr 'A') 1

theorem note_fits :
    OneFileFits (txt "note.txt") noteSfn (fun _ => chr 'A') 1 := by
  refine ⟨?_, ?_, ?_, ?_, ?_⟩ <;> decide

theorem noteDisk_consistent : noteDisk.Consistent :=
  oneFile_consistent note_fits

end Clks.Disk
