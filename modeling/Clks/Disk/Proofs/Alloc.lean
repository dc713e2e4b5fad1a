/-
What the allocator does to the volume.

Each function of disk/fat_alloc.inc gets one specification, over the
volume and not over offsets. Chains are `Linked.Chain` in the table of
links: a cell is a valid cluster, an end mark a value from 0x0FFFFFF8
on, a free mark zero. The loops of the source are bounded by the number
of clusters; a chain never has more cells than that (`Chain.length_le`),
so the bound is never what ends them.
-/
import Clks.Disk.Volume
import Clks.Lib.Linked

namespace Clks.Disk

open Bytes Linked

-- `omega` takes an equation between multiples of 512 apart bit by bit.
set_option maxRecDepth 2000

-- ==== the link table

/-- Cells, end marks and free marks of a table for `count` clusters. -/
def fatMarks (count : Nat) : Marks Nat where
  ok c := 2 ≤ c ∧ c < count + 2 ∧ c < eocMin
  stop x := eocMin ≤ x
  free x := x = freeCluster
  ok_not_stop h := by omega
  free_not_ok h h' := by
    subst h
    exact absurd h'.1 (by decide)
  free_not_stop h h' := by
    subst h
    exact absurd h' (by decide)

/-- The marks of a layout's table. -/
abbrev Layout.marks (L : Layout) : Marks Nat := fatMarks L.clusterCount

theorem Layout.Sound.ok_iff {L : Layout} {total : Nat}
    (h : L.Sound total) (c : Nat) :
    L.marks.ok c ↔ L.clusterValid c = true := by
  rw [h.clusterValid_iff]
  have hc := h.count_le
  constructor
  · rintro ⟨h1, h2, _⟩
    exact ⟨h1, h2⟩
  · rintro ⟨h1, h2⟩
    refine ⟨h1, h2, ?_⟩
    show c < 0x0FFFFFF8
    omega

/-- A chain in the table of a volume. -/
abbrev Vol.Chain (L : Layout) (v : Vol) : Nat → List Nat → Prop :=
  Linked.Chain L.marks v.fat

theorem Vol.Chain.length_le {L : Layout} {v : Vol} {c : Nat}
    {l : List Nat} (h : v.Chain L c l) : l.length ≤ L.clusterCount := by
  have hsub : l ⊆ List.range' 2 L.clusterCount := by
    intro x hx
    have hok := h.ok_of_mem x hx
    rw [List.mem_range'_1]
    exact ⟨hok.1, by have := hok.2.1; omega⟩
  simpa using (List.Nodup.subperm h.nodup hsub).length_le

/-- The clusters that the table marks free. -/
def Vol.freeSet (L : Layout) (v : Vol) : Finset Nat :=
  {c ∈ Finset.range (L.clusterCount + 2) | 2 ≤ c ∧ v.fat c = freeCluster}

theorem Vol.mem_freeSet {L : Layout} {v : Vol} {c : Nat} :
    c ∈ v.freeSet L
      ↔ c < L.clusterCount + 2 ∧ 2 ≤ c ∧ v.fat c = freeCluster := by
  simp [freeSet]

theorem Vol.freeSet_congr {L : Layout} {v v' : Vol} (h : v'.fat = v.fat) :
    v'.freeSet L = v.freeSet L := by
  simp only [freeSet, h]

-- ==== steps

/-- The driver moved to a state with volume `v`. -/
structure Steps (s s' : State) (v : Vol) : Prop where
  moves : Moves s s'
  vol : s'.vol = v

namespace Steps

variable {s s' s'' : State} {v v' : Vol} {P : Set Nat}

theorem of_reads (h : Reads P s s') : Steps s s' s.vol :=
  ⟨h.moves, h.vol⟩

theorem trans (h1 : Steps s s' v) (h2 : Steps s' s'' v') :
    Steps s s'' v' :=
  ⟨h1.moves.trans h2.moves, h2.vol⟩

theorem ok (h : Steps s s' v) (hs : s.Ok) : s'.Ok := h.moves.ok hs

theorem fat32 (h : Steps s s' v) : s'.fat32 = s.fat32 := h.moves.fat32

end Steps

theorem State.vol_fat_lt (s : State) (c : Nat) : s.vol.fat c < 2 ^ 28 :=
  volOf_fat_lt _ _ _

@[simp] theorem State.low28_vol_fat (s : State) (c : Nat) :
    low28 (s.vol.fat c) = s.vol.fat c :=
  low28_of_lt (s.vol_fat_lt c)

theorem fatIsEoc_vol (s : State) (c : Nat) :
    fatIsEoc (s.vol.fat c) = decide (eocMin ≤ s.vol.fat c) := by
  simp [fatIsEoc]

-- ==== fat_layout.inc

section specs

variable {s : State}

theorem State.Ok.valid_lt (h : s.Ok) {c : Nat}
    (hc : s.fat32.clusterValid c = true) :
    c < s.fat32.clusterCount + 2 :=
  ((h.sound.clusterValid_iff c).mp hc).2

theorem State.Ok.goes_on (h : s.Ok) {c : Nat} {l : List Nat}
    (hl : s.vol.Chain s.fat32 c l) :
    ¬ eocMin ≤ c ∧ s.fat32.clusterValid c = true :=
  ⟨s.fat32.marks.ok_not_stop hl.head_ok, (h.sound.ok_iff c).mp hl.head_ok⟩

theorem fatNextCluster_run (h : s.Ok) {c : Nat}
    (hc : s.fat32.clusterValid c = true) :
    ∃ s', fatNextCluster c s
        = (some (s.vol.fat c, decide (eocMin ≤ s.vol.fat c)), s') ∧
      Reads s.fat32.tableSectors s s' := by
  obtain ⟨s', hrun, hr⟩ := fatReadEntry_run h (h.valid_lt hc)
  refine ⟨s', ?_, hr⟩
  rw [fatNextCluster, Cmd.bind_ok hrun, Cmd.pure_apply, fatIsEoc_vol,
    State.low28_vol_fat]

theorem State.Placed.clusterLba (h : s.Placed) {c : Nat}
    (hc : s.fat32.clusterValid c = true) :
    Disk.clusterLba c s = (some (s.fat32.lbaOf c), s) := by
  have h1 := h.layout.lbaOf_le hc
  have h2 := h.layout.spc_pos
  rw [Disk.clusterLba, Cmd.get_bind_apply, Cmd.require_bind hc,
    Cmd.require_bind (decide_eq_true (by omega)),
    Cmd.require_bind (decide_eq_true (by omega)), Cmd.pure_apply]

theorem clusterLba_run (h : s.Ok) {c : Nat}
    (hc : s.fat32.clusterValid c = true) :
    clusterLba c s = (some (s.fat32.lbaOf c), s) :=
  h.placed.clusterLba hc

theorem clusterFirstByteOffset_run (h : s.Ok) {c : Nat}
    (hc : s.fat32.clusterValid c = true) :
    clusterFirstByteOffset c s = (some (s.fat32.lbaOf c * 512), s) := by
  rw [clusterFirstByteOffset, Cmd.bind_ok (clusterLba_run h hc),
    Cmd.pure_apply]

theorem State.Backed.rangeValid (h : s.Backed) {offset size : Nat}
    (hp : 0 < s.sectorTotal) (hr : offset + size ≤ s.bytesLen) :
    s.bytesRangeValid offset size = true := by
  have hb := h.bytesLen
  simp only [sectorSize] at hb
  simp only [State.bytesRangeValid, Bool.and_eq_true, decide_eq_true_eq]
  omega

theorem State.Ok.rangeValid (h : s.Ok) {offset size : Nat}
    (hp : 0 < s.sectorTotal) (hr : offset + size ≤ s.bytesLen) :
    s.bytesRangeValid offset size = true :=
  h.placed.rangeValid hp hr

theorem Writes.steps {s' : State} (h : s.Ok) {c o len : Nat}
    {src : Nat → UInt8} (hc : s.fat32.clusterValid c = true)
    (ho : o + len ≤ s.fat32.clusterSizeBytes)
    (hw : Writes s s' (blit s.hw (s.fat32.clusterOffset c + o) len src)) :
    Steps s s' (s.vol.setData c (blit (s.vol.data c) o len src)) := by
  have hs := h.sound
  have hdat := s.fat32.data_le_clusterOffset c
  have hf : s'.fat32 = s.fat32 := congrArg Env.fat32 hw.env
  refine ⟨⟨hw.env, fun _ => hw.coherent, hw.loaded, hw.unloaded, ?_, ?_⟩,
    ?_⟩
  · intro k hk c' hc'
    simp only [State.topBits, hf, hw.hw]
    rw [rawFat_blit_data hs.placed (by omega) hk (hs.tabled hc')]
  · intro hm k hk c' hc'
    rw [hf] at hk hc' ⊢
    rw [hw.hw, rawFat_blit_data hs.placed (by omega) hk (hs.tabled hc'),
      rawFat_blit_data hs.placed (by omega) hs.fats_pos (hs.tabled hc')]
    exact hm k hk c' hc'
  · simp only [State.vol, hf, hw.hw]
    exact volOf_blit_cluster hs hc ho

theorem clusterSync_run (h : s.Ok) (len : Nat) {c o a n : Nat}
    {src : Nat → UInt8} (hc : s.fat32.clusterValid c = true) (hn : 0 < n)
    (han : a + n ≤ s.fat32.sectorsPerCluster) (h1 : a * 512 ≤ o)
    (h2 : o + len ≤ a * 512 + n * 512)
    (hl : ∀ i, (s.fat32.lbaOf c + a) * 512 ≤ i →
      i < (s.fat32.lbaOf c + a) * 512 + n * 512 →
      i < s.fat32.clusterOffset c + o ∨
        s.fat32.clusterOffset c + o + len ≤ i →
      s.loaded (i / 512) = true) :
    ∃ s', syncSectorRange (s.fat32.lbaOf c + a) n
        (s.poked (s.fat32.clusterOffset c + o) len src)
        = (some (), s') ∧
      Steps s s' (s.vol.setData c (blit (s.vol.data c) o len src)) ∧
      s'.allocHint = s.allocHint := by
  have hle := h.sound.lbaOf_le hc
  have hsize := h.sound.size
  have hoff := s.fat32.clusterOffset_eq c
  simp only [sectorSize] at hsize
  obtain ⟨s', hrun, hw⟩ := syncSectorRange_run
    h.placed.toBacked hn (by omega) (by omega) (by omega) hl
  exact ⟨s', hrun, hw.steps h hc (by omega), hw.hint⟩

/-- What `sync_sector_range` makes of a cluster when it sends out the
sectors from `a` on, `n` of them, with a block put into the image. -/
def State.mixedData (s : State) (cluster a n o len : Nat)
    (src : Nat → UInt8) : Nat → UInt8 :=
  blit (s.vol.data cluster) (a * 512) (n * 512) fun k =>
    blit (fun j => s.bytes (s.fat32.clusterOffset cluster + j)) o len src
      (a * 512 + k)

theorem clusterSync_mixed (h : s.Ok) (len : Nat) {c o a n : Nat}
    {src : Nat → UInt8} (hc : s.fat32.clusterValid c = true) (hn : 0 < n)
    (han : a + n ≤ s.fat32.sectorsPerCluster) (h1 : a * 512 ≤ o)
    (h2 : o + len ≤ a * 512 + n * 512) :
    ∃ s', syncSectorRange (s.fat32.lbaOf c + a) n
        (s.poked (s.fat32.clusterOffset c + o) len src)
        = (some (), s') ∧
      Steps s s' (s.vol.setData c (s.mixedData c a n o len src)) ∧
      s'.allocHint = s.allocHint := by
  have hle := h.sound.lbaOf_le hc
  have hsize := h.sound.size
  have hoff := s.fat32.clusterOffset_eq c
  simp only [sectorSize] at hsize
  obtain ⟨s', hrun, hw⟩ := syncSectorRange_mixed h.placed.toBacked
    (s.fat32.clusterOffset c + o) len hn (show s.fat32.lbaOf c + a + n ≤ _ by omega) (by omega) (by omega)
  -- The sectors that go out are one block of the cluster.
  have hblock : blit (s.mixed (s.fat32.lbaOf c + a) n)
      (s.fat32.clusterOffset c + o) len src
      = blit s.hw (s.fat32.clusterOffset c + a * 512) (n * 512) fun k =>
        blit (fun j => s.bytes (s.fat32.clusterOffset c + j)) o len src
          (a * 512 + k) := by
    funext i
    by_cases hr : s.fat32.clusterOffset c + a * 512 ≤ i ∧
        i < s.fat32.clusterOffset c + a * 512 + n * 512
    · rw [blit_in hr.1 hr.2]
      by_cases hi : s.fat32.clusterOffset c + o ≤ i ∧
          i < s.fat32.clusterOffset c + o + len
      · rw [blit_in hi.1 hi.2, blit_in (by omega) (by omega)]
        congr 1
        omega
      · rw [blit_out (by omega), blit_out (by omega), State.mixed,
          if_pos (by omega)]
        congr 1
        omega
    · rw [blit_out (by omega), blit_out (by omega), State.mixed,
        if_neg (by omega)]
  rw [hblock] at hw
  exact ⟨s', hrun, hw.steps h hc (by omega), hw.hint⟩

/-- The contents of a cluster given by its first bytes. -/
def Layout.clip (L : Layout) (src : Nat → UInt8) : Nat → UInt8 := fun k =>
  if k < L.clusterSizeBytes then src k else 0

theorem clusterWrite_run (h : s.Ok) (src : Nat → UInt8) {c : Nat}
    (hc : s.fat32.clusterValid c = true) :
    ∃ s', syncSectorRange (s.fat32.lbaOf c) s.fat32.sectorsPerCluster
        (s.poked (s.fat32.lbaOf c * 512)
          (s.fat32.sectorsPerCluster * 512) src)
        = (some (), s') ∧
      Steps s s' (s.vol.setData c (s.fat32.clip src)) ∧
      s'.allocHint = s.allocHint := by
  have hs := h.sound
  have hoff := s.fat32.clusterOffset_eq c
  have hsize := hs.size
  simp only [sectorSize] at hsize
  obtain ⟨s', hrun, hst, hh⟩ := clusterSync_run h
    (s.fat32.sectorsPerCluster * 512) hc (o := 0) (a := 0) hs.spc_pos (by omega) (by omega) (by omega)
    (fun i hi1 hi2 hi3 => by omega)
  rw [hoff, Nat.add_zero, Nat.add_zero] at hrun
  refine ⟨s', hrun, ⟨hst.moves, ?_⟩, hh⟩
  rw [hst.vol]
  congr 1
  funext k
  simp only [Layout.clip, hsize]
  split_ifs with hk
  · rw [blit_in (by omega) (by omega), Nat.sub_zero]
  · rw [blit_out (by omega)]
    simp [State.vol, volOf, hsize, hk]

-- ==== fat_alloc.inc

theorem zeroCluster_run (h : s.Ok) {c : Nat}
    (hc : s.fat32.clusterValid c = true) :
    ∃ s', zeroCluster c s = (some (), s') ∧
      Steps s s' (s.vol.setData c fun _ => 0) ∧
      s'.allocHint = s.allocHint := by
  have hs := h.sound
  have hle := hs.lbaOf_le hc
  have hsp := hs.spc_pos
  have hb := h.bytesLen
  simp only [sectorSize] at hb
  obtain ⟨s', hrun, hst, hh⟩ := clusterWrite_run h _ hc
  refine ⟨s', ?_, ⟨hst.moves, ?_⟩, hh⟩
  · rw [zeroCluster, Cmd.bind_ok (clusterLba_run h hc), Cmd.get_bind_apply]
    rw [Cmd.require_bind (h.rangeValid (by omega) (by
      simp only [sectorSize]
      omega)), poke, Cmd.modify_bind_apply]
    exact hrun
  · rw [hst.vol]
    congr 1
    funext k
    simp [Layout.clip]

private theorem findFreeLoop_run (h : s.Ok) {n c : Nat} (hc : 2 ≤ c)
    (hn : c + n ≤ s.fat32.clusterCount + 2) :
    ∃ r s', findFreeLoop n c s = (some r, s') ∧ Steps s s' s.vol ∧
      (∀ x, r = some x →
        c ≤ x ∧ x < c + n ∧ s.vol.fat x = freeCluster) ∧
      (r = none → ∀ x, c ≤ x → x < c + n →
        s.vol.fat x ≠ freeCluster) := by
  induction n generalizing c s with
  | zero =>
    refine ⟨none, s, rfl, .of_reads (.refl ∅ s), by simp, ?_⟩
    intro _ x h1 h2
    omega
  | succ n ih =>
    obtain ⟨s1, hrun1, hr1⟩ :=
      fatReadEntry_run h (show c < s.fat32.clusterCount + 2 by omega)
    by_cases hfree : s.vol.fat c = freeCluster
    · refine ⟨some c, { s1 with allocHint :=
          if c + 1 ≥ s1.fat32.clusterCount + 2 then 2 else c + 1 },
        ?_, ⟨?_, hr1.vol⟩, ?_, by simp⟩
      · rw [findFreeLoop, Cmd.bind_ok hrun1, if_pos hfree]
        rfl
      · exact ⟨hr1.moves.env, hr1.moves.coherent, hr1.moves.loaded,
          hr1.moves.unloaded, hr1.moves.topBits, hr1.moves.mirrored⟩
      · rintro x ⟨rfl⟩
        exact ⟨le_refl _, by omega, hfree⟩
    · obtain ⟨r, s', hrun, hst, hsome, hnone⟩ :=
        ih (hr1.ok h) (c := c + 1) (by omega) (by rw [hr1.fat32]; omega)
      rw [hr1.vol] at hst hsome hnone
      refine ⟨r, s', ?_, (Steps.of_reads hr1).trans hst, ?_, ?_⟩
      · rw [findFreeLoop, Cmd.bind_ok hrun1, if_neg hfree, hrun]
      · intro x hx
        obtain ⟨h1, h2, h3⟩ := hsome x hx
        exact ⟨by omega, by omega, h3⟩
      · intro hr x h1 h2
        by_cases hxc : x = c
        · subst hxc
          exact hfree
        · exact hnone hr x (by omega) (by omega)

theorem findFreeCluster_run (h : s.Ok) :
    ∃ r s', findFreeCluster s = (r, s') ∧ Steps s s' s.vol ∧
      (∀ x, r = some x → x ∈ s.vol.freeSet s.fat32) ∧
      (r = none → s.vol.freeSet s.fat32 = ∅) := by
  rw [findFreeCluster, Cmd.get_bind_apply, Cmd.require_bind h.sound.valid]
  have hstart : ∀ hint, 2 ≤ (if hint < 2 ∨ s.fat32.clusterCount + 2 ≤ hint
        then 2 else hint) ∧
      (if hint < 2 ∨ s.fat32.clusterCount + 2 ≤ hint then 2 else hint)
        ≤ s.fat32.clusterCount + 2 := by
    intro hint
    constructor <;> split_ifs <;> omega
  obtain ⟨hlo, hhi⟩ := hstart s.allocHint
  generalize (if s.allocHint < 2 ∨ s.fat32.clusterCount + 2 ≤ s.allocHint
    then 2 else s.allocHint) = start at hlo hhi ⊢
  -- The second half of the search starts over below the hint.
  obtain ⟨r1, s1, hrun1, hst1, hsome1, hnone1⟩ := findFreeLoop_run h
    (n := s.fat32.clusterCount + 2 - start) hlo (by omega)
  rw [Cmd.bind_ok hrun1]
  cases r1 with
  | some x =>
    refine ⟨some x, s1, rfl, hst1, ?_, by simp⟩
    rintro _ ⟨rfl⟩
    obtain ⟨h1, h2, h3⟩ := hsome1 x rfl
    rw [Vol.mem_freeSet]
    exact ⟨by omega, by omega, h3⟩
  | none =>
    obtain ⟨r2, s2, hrun2, hst2, hsome2, hnone2⟩ :=
      findFreeLoop_run (hst1.ok h) (n := start - 2) (le_refl 2)
        (by rw [hst1.fat32]; omega)
    rw [hst1.vol] at hst2 hsome2 hnone2
    simp only [Cmd.bind_ok hrun2]
    cases r2 with
    | some x =>
      refine ⟨some x, s2, rfl, hst1.trans hst2, ?_, by simp⟩
      rintro _ ⟨rfl⟩
      obtain ⟨h1, h2, h3⟩ := hsome2 x rfl
      rw [Vol.mem_freeSet]
      exact ⟨by omega, by omega, h3⟩
    | none =>
      refine ⟨none, s2, rfl, hst1.trans hst2, by simp, fun _ => ?_⟩
      refine Finset.eq_empty_of_forall_notMem fun x hx => ?_
      obtain ⟨h1, h2, h3⟩ := Vol.mem_freeSet.mp hx
      by_cases hlt : x < start
      · exact hnone2 rfl x h2 (by omega) h3
      · exact hnone1 rfl x (by omega) (by omega) h3

/-- The volume with a list of clusters marked free. -/
def Vol.released (v : Vol) (l : List Nat) : Vol :=
  { v with fat := fun c => if c ∈ l then freeCluster else v.fat c }

private theorem freeChainLoop_run (h : s.Ok) {c guard : Nat} {l : List Nat}
    (hc : s.vol.Chain s.fat32 c l) (hg : l.length ≤ guard) :
    ∃ s', freeChainLoop guard c s = (some (), s') ∧
      Steps s s' (s.vol.released l) := by
  induction guard generalizing c l s with
  | zero =>
    obtain ⟨t, rfl⟩ := hc.eq_cons
    simp at hg
  | succ guard ih =>
    have hs := h.sound
    have hcv := (hs.ok_iff c).mp hc.head_ok
    obtain ⟨s1, hrun1, hr1⟩ := fatNextCluster_run h hcv
    have h1 := hr1.ok h
    obtain ⟨s2, hrun2, hm2, hv2, _⟩ := fatWriteEntry_run h1 (c := c)
      (by rw [hr1.fat32]; exact h.valid_lt hcv) freeCluster
    rw [hr1.vol, low28_zero] at hv2
    have hst2 : Steps s s2 (s.vol.setFat c freeCluster) :=
      ⟨hr1.moves.trans hm2, hv2⟩
    have hhead : freeChainLoop (guard + 1) c s
        = (if decide (eocMin ≤ s.vol.fat c) then pure ()
          else if s.fat32.clusterValid (s.vol.fat c) then
            freeChainLoop guard (s.vol.fat c)
          else pure () : Cmd State Unit) s2 := by
      rw [freeChainLoop, Cmd.get_bind_apply, if_pos hcv,
        Cmd.attempt_bind_apply, hrun1]
      simp only [Cmd.ignore_bind_apply, hrun2]
    cases hc with
    | last _ hstop =>
      have hstop : eocMin ≤ s.vol.fat c := hstop
      refine ⟨s2, ?_, hst2.moves, ?_⟩
      · rw [hhead, if_pos (decide_eq_true hstop), Cmd.pure_apply]
      · rw [hv2]
        refine Vol.ext (funext fun x => ?_) rfl
        by_cases hx : x = c
        · simp [Vol.released, hx]
        · simp [Vol.released, Vol.setFat_fat_ne _ _ hx, hx]
    | @cons _ t hok hct =>
      have hnv := (hs.ok_iff _).mp hct.head_ok
      have hns : ¬ eocMin ≤ s.vol.fat c :=
        s.fat32.marks.ok_not_stop hct.head_ok
      -- The rest of the chain does not come back to this cluster.
      have hnot : c ∉ t := (List.nodup_cons.mp (Chain.cons hok hct).nodup).1
      have hct' : s2.vol.Chain s2.fat32 (s.vol.fat c) t := by
        rw [hst2.fat32]
        refine hct.congr fun x hx => ?_
        rw [hv2, Vol.setFat_fat_ne]
        rintro rfl
        exact hnot hx
      obtain ⟨s3, hrun3, hst3⟩ :=
        ih (hst2.ok h) hct' (by simpa using hg)
      refine ⟨s3, ?_, hst2.moves.trans hst3.moves, ?_⟩
      · rw [hhead, if_neg (by simp only [decide_eq_true_eq]; exact hns),
          if_pos hnv, hrun3]
      · rw [hst3.vol, hv2]
        refine Vol.ext (funext fun x => ?_) rfl
        by_cases hx : x = c
        · simp [Vol.released, hx]
        · simp [Vol.released, Vol.setFat_fat_ne _ _ hx, hx]

theorem freeChain_run (h : s.Ok) {c : Nat} {l : List Nat}
    (hc : s.vol.Chain s.fat32 c l) :
    ∃ s', freeChain c s = (some (), s') ∧
      Steps s s' (s.vol.released l) := by
  have hcv := (h.sound.ok_iff c).mp hc.head_ok
  obtain ⟨s', hrun, hst⟩ := freeChainLoop_run h hc hc.length_le
  refine ⟨s', ?_, hst⟩
  rw [freeChain, Cmd.get_bind_apply, if_pos hcv, hrun]

theorem low28_eoc : low28 eoc = eoc := rfl

theorem allocClusterNoZero_run (h : s.Ok) :
    (∃ c s', allocClusterNoZero s = (some c, s') ∧
      c ∈ s.vol.freeSet s.fat32 ∧ Steps s s' (s.vol.setFat c eoc)) ∨
    (∃ s', allocClusterNoZero s = (none, s') ∧
      s.vol.freeSet s.fat32 = ∅ ∧ Steps s s' s.vol) := by
  obtain ⟨r, s1, hrun1, hst1, hsome, hnone⟩ := findFreeCluster_run h
  cases r with
  | none =>
    exact .inr ⟨s1, Cmd.bind_err hrun1, hnone rfl, hst1⟩
  | some c =>
    have hfree := hsome c rfl
    obtain ⟨s2, hrun2, hm2, hv2, _⟩ := fatWriteEntry_run (hst1.ok h)
      (c := c) (by rw [hst1.fat32]; exact (Vol.mem_freeSet.mp hfree).1) eoc
    rw [hst1.vol, low28_eoc] at hv2
    refine .inl ⟨c, s2, ?_, hfree, hst1.moves.trans hm2, hv2⟩
    rw [allocClusterNoZero, Cmd.bind_ok hrun1, Cmd.bind_ok hrun2,
      Cmd.pure_apply]

theorem allocCluster_run (h : s.Ok) :
    (∃ c s', allocCluster s = (some c, s') ∧
      c ∈ s.vol.freeSet s.fat32 ∧
      Steps s s' ((s.vol.setFat c eoc).setData c fun _ => 0)) ∨
    (∃ s', allocCluster s = (none, s') ∧
      s.vol.freeSet s.fat32 = ∅ ∧ Steps s s' s.vol) := by
  obtain ⟨r, s1, hrun1, hst1, hsome, hnone⟩ := findFreeCluster_run h
  cases r with
  | none =>
    exact .inr ⟨s1, Cmd.bind_err hrun1, hnone rfl, hst1⟩
  | some c =>
    have hfree := hsome c rfl
    have hmem := Vol.mem_freeSet.mp hfree
    obtain ⟨s2, hrun2, hm2, hv2, _⟩ := fatWriteEntry_run (hst1.ok h)
      (c := c) (by rw [hst1.fat32]; exact hmem.1) eoc
    rw [hst1.vol, low28_eoc] at hv2
    have hst2 : Steps s s2 (s.vol.setFat c eoc) :=
      ⟨hst1.moves.trans hm2, hv2⟩
    obtain ⟨s3, hrun3, hst3, _⟩ := zeroCluster_run (hst2.ok h) (c := c)
      (by
        rw [hst2.fat32, h.sound.clusterValid_iff]
        exact ⟨hmem.2.1, hmem.1⟩)
    rw [hv2] at hst3
    refine .inl ⟨c, s3, ?_, hfree, hst2.trans hst3⟩
    rw [allocCluster, Cmd.bind_ok hrun1, Cmd.bind_ok hrun2,
      Cmd.bind_ok (Cmd.orCleanup_ok hrun3), Cmd.pure_apply]

theorem State.Ok.valid_of_free (h : s.Ok) {c : Nat}
    (hc : c ∈ s.vol.freeSet s.fat32) : s.fat32.clusterValid c = true := by
  obtain ⟨h1, h2, _⟩ := Vol.mem_freeSet.mp hc
  exact (h.sound.clusterValid_iff c).mpr ⟨h2, h1⟩

/-- Between two states, clusters that were free became one chain, and
nothing else happened. -/
structure Takes (s s' : State) (first : Nat) (l : List Nat) : Prop where
  moves : Moves s s'
  free : ∀ c ∈ l, c ∈ s.vol.freeSet s.fat32
  chain : s'.vol.Chain s.fat32 first l
  links : ∀ c ∉ l, s'.vol.fat c = s.vol.fat c
  data : s'.vol.data = s.vol.data

namespace Takes

variable {s' s'' : State} {first : Nat} {l : List Nat}

theorem released (h : Takes s s' first l) : s'.vol.released l = s.vol := by
  refine Vol.ext (funext fun c => ?_) h.data
  simp only [Vol.released]
  split_ifs with hc
  · exact (Vol.mem_freeSet.mp (h.free c hc)).2.2.symm
  · exact h.links c hc

theorem length_le (h : Takes s s' first l) :
    l.length ≤ (s.vol.freeSet s.fat32).card := by
  rw [← List.toFinset_card_of_nodup h.chain.nodup]
  refine Finset.card_le_card fun c hc => h.free c ?_
  exact List.mem_toFinset.mp hc

theorem card_le (h : Takes s s' first l)
    (he : s'.vol.freeSet s.fat32 = ∅) :
    (s.vol.freeSet s.fat32).card ≤ l.length := by
  refine le_trans (Finset.card_le_card fun c hc => ?_)
    (List.toFinset_card_le l)
  rw [List.mem_toFinset]
  by_contra hcl
  obtain ⟨h1, h2, h3⟩ := Vol.mem_freeSet.mp hc
  have hin : c ∈ s'.vol.freeSet s.fat32 :=
    Vol.mem_freeSet.mpr ⟨h1, h2, (h.links c hcl).trans h3⟩
  rw [he] at hin
  exact absurd hin (Finset.notMem_empty c)

theorem snoc {pre : List Nat} {z c : Nat}
    (h : Takes s s' first (pre ++ [z])) (hs : s.Ok)
    (hc : c ∈ s'.vol.freeSet s.fat32) (hm : Moves s' s'')
    (hv : s''.vol = (s'.vol.setFat c eoc).setFat z c) :
    Takes s s'' first (pre ++ [z, c]) := by
  obtain ⟨h1, h2, h3⟩ := Vol.mem_freeSet.mp hc
  have hcl : c ∉ pre ++ [z] := fun hin => h.chain.not_free c hin h3
  have hcz : c ≠ z := fun he => hcl (by simp [he])
  have hnd := h.chain.nodup
  rw [List.nodup_append] at hnd
  refine ⟨h.moves.trans hm, ?_, ?_, ?_, ?_⟩
  · intro x hx
    by_cases hxc : x = c
    · subst hxc
      exact Vol.mem_freeSet.mpr ⟨h1, h2, (h.links x hcl).symm.trans h3⟩
    · exact h.free x (by simpa [hxc] using hx)
  · refine h.chain.append (b := c) (.last ?_ ?_) ?_ ?_
    · exact (hs.sound.ok_iff c).mpr
        ((hs.sound.clusterValid_iff c).mpr ⟨h2, h1⟩)
    · rw [hv, Vol.setFat_fat_ne _ _ hcz, Vol.setFat_fat_self]
      show eocMin ≤ eoc
      decide
    · rw [hv, Vol.setFat_fat_self]
    · intro x hx
      have hxz : x ≠ z := hnd.2.2 x hx z (by simp)
      have hxc : x ≠ c := fun he => hcl (by simp [← he, hx])
      rw [hv, Vol.setFat_fat_ne _ _ hxz, Vol.setFat_fat_ne _ _ hxc]
  · intro x hx
    have hxz : x ≠ z := fun he => hx (by simp [he])
    have hxc : x ≠ c := fun he => hx (by simp [he])
    rw [hv, Vol.setFat_fat_ne _ _ hxz, Vol.setFat_fat_ne _ _ hxc]
    refine h.links x fun hin => hx ?_
    simp only [List.mem_append, List.mem_cons] at hin ⊢
    tauto
  · rw [hv]
    exact h.data

end Takes

theorem takes_single {s' : State} {c : Nat} (h : s.Ok)
    (hc : c ∈ s.vol.freeSet s.fat32)
    (hst : Steps s s' (s.vol.setFat c eoc)) : Takes s s' c [c] where
  moves := hst.moves
  free x hx := by rwa [List.mem_singleton.mp hx]
  chain := by
    refine .last ((h.sound.ok_iff c).mpr (h.valid_of_free hc)) ?_
    rw [hst.vol, Vol.setFat_fat_self]
    show eocMin ≤ eoc
    decide
  links x hx := by
    rw [hst.vol, Vol.setFat_fat_ne]
    simpa using hx
  data := by rw [hst.vol, Vol.setFat_data]

private theorem allocChainLoop_run {s1 : State} (h : s.Ok)
    {first z n : Nat} (pre : List Nat)
    (ht : Takes s s1 first (pre ++ [z])) :
    (∃ l s', allocChainLoop n first z s1 = (some first, s') ∧
      Takes s s' first l ∧ l.length = pre.length + 1 + n) ∨
    (∃ s', allocChainLoop n first z s1 = (none, s') ∧
      Steps s s' s.vol ∧
      (s.vol.freeSet s.fat32).card < pre.length + 1 + n) := by
  induction n generalizing s1 z pre with
  | zero => exact .inl ⟨_, s1, rfl, ht, by simp⟩
  | succ n ih =>
    have h1 : s1.Ok := ht.moves.ok h
    have hf1 := ht.moves.fat32
    have hfirst : first ≠ invalidCluster := by
      have := ht.chain.head_ok.1
      show first ≠ 0
      omega
    have hz : z ≠ invalidCluster := by
      have := (ht.chain.ok_of_mem z (by simp)).1
      show z ≠ 0
      omega
    rcases allocClusterNoZero_run h1 with
      ⟨c, s2, hrun2, hfree, hst2⟩ | ⟨s2, hrun2, hempty, hst2⟩
    · have h2 := hst2.ok h1
      obtain ⟨s3, hrun3, hm3, hv3, _⟩ := fatWriteEntry_run h2 (c := z) (by
          rw [hst2.fat32, hf1]
          exact (ht.chain.ok_of_mem z (by simp)).2.1) c
      have hclt : c < 2 ^ 28 := by
        have hcl := (Vol.mem_freeSet.mp hfree).1
        have hcnt := h1.sound.count_le
        omega
      rw [hst2.vol, low28_of_lt hclt] at hv3
      rw [hf1] at hfree
      have ht3 := ht.snoc h hfree (hst2.moves.trans hm3) hv3
      have hhead : allocChainLoop (n + 1) first z s1
          = allocChainLoop n first c s3 := by
        rw [allocChainLoop, if_pos hfirst,
          Cmd.bind_ok (Cmd.orCleanup_ok hrun2), if_pos hz,
          Cmd.bind_ok (Cmd.orCleanup_ok hrun3), if_neg hfirst]
      rw [List.append_cons] at ht3
      rcases ih _ ht3 with ⟨l, s', hrun, hl, hlen⟩ | ⟨s', hrun, hst, hlt⟩
      · refine .inl ⟨l, s', by rw [hhead, hrun], hl, ?_⟩
        simp at hlen
        omega
      · refine .inr ⟨s', by rw [hhead, hrun], hst, ?_⟩
        simp at hlt
        omega
    · -- Nothing is free any more: the chain so far is given back.
      rw [hf1] at hempty
      have hcard := ht.card_le hempty
      have hchain : s2.vol.Chain s2.fat32 first (pre ++ [z]) := by
        rw [hst2.fat32, hf1, hst2.vol]
        exact ht.chain
      obtain ⟨s3, hrun3, hst3⟩ := freeChain_run (hst2.ok h1) hchain
      refine .inr ⟨s3, ?_, ?_, ?_⟩
      · rw [allocChainLoop, if_pos hfirst]
        refine Cmd.bind_err ?_
        rw [Cmd.orCleanup_err hrun2, hrun3]
      · refine ⟨(ht.moves.trans hst2.moves).trans hst3.moves, ?_⟩
        rw [hst3.vol, hst2.vol, ht.released]
      · simp at hcard
        omega

theorem allocChain_run (h : s.Ok) {n : Nat} (hn : 0 < n) :
    (∃ first l s', allocChain n s = (some first, s') ∧
      Takes s s' first l ∧ l.length = n ∧
      n ≤ (s.vol.freeSet s.fat32).card) ∨
    (∃ s', allocChain n s = (none, s') ∧ Steps s s' s.vol ∧
      (s.vol.freeSet s.fat32).card < n) := by
  obtain ⟨n, rfl⟩ := Nat.exists_eq_succ_of_ne_zero (Nat.pos_iff_ne_zero.mp hn)
  rw [allocChain, if_neg (Nat.succ_ne_zero n)]
  rcases allocClusterNoZero_run h with
    ⟨c, s1, hrun1, hfree, hst1⟩ | ⟨s1, hrun1, hempty, hst1⟩
  · have hhead : allocChainLoop (n + 1) invalidCluster invalidCluster s
        = allocChainLoop n c c s1 := by
      rw [allocChainLoop, if_neg (by simp),
        Cmd.bind_ok (Cmd.orCleanup_ok hrun1), if_neg (by simp), if_pos rfl]
    have ht := takes_single h hfree hst1
    rcases allocChainLoop_run (n := n) h [] ht with
      ⟨l, s', hrun, hl, hlen⟩ | ⟨s', hrun, hst, hlt⟩
    · have hlen : l.length = n + 1 := by simpa [Nat.add_comm] using hlen
      refine .inl ⟨c, l, s', by rw [Nat.succ_eq_add_one, hhead, hrun], hl,
        hlen, ?_⟩
      have hle := hl.length_le
      omega
    · refine .inr ⟨s', by rw [Nat.succ_eq_add_one, hhead, hrun], hst, ?_⟩
      simp at hlt
      omega
  · refine .inr ⟨s1, ?_, hst1, ?_⟩
    · rw [allocChainLoop, if_neg (by simp)]
      refine Cmd.bind_err ?_
      rw [Cmd.orCleanup_err hrun1, Cmd.pure_apply]
    · rw [hempty]
      simp

end specs

end Clks.Disk
