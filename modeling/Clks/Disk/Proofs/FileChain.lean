/-
What disk/file_chain.inc does to the volume.

A file's content is the bytes of its clusters, cut off at its size
(`Vol.content`). Reading a chain returns that, writing one sets it, and
appending lets a chain grow by clusters that were free (`Grows`).
-/
import Clks.Disk.FileChain
import Clks.Disk.Proofs.Directory

namespace Clks.Disk

open Bytes Linked

-- `omega` takes an equation between multiples of 512 apart bit by bit.
set_option maxRecDepth 2000

-- ==== counting clusters

namespace Layout

variable {L : Layout}

@[simp] theorem clustersFor_zero (hcs : 0 < L.clusterSizeBytes) :
    L.clustersFor 0 = 0 := by
  unfold clustersFor
  rw [Nat.zero_add]
  exact Nat.div_eq_of_lt (by omega)

theorem clustersFor_pos (hcs : 0 < L.clusterSizeBytes) (size : Nat)
    (hs : 0 < size) : L.clustersFor size
      = L.clustersFor (size - min size L.clusterSizeBytes) + 1 := by
  unfold clustersFor
  rw [← Nat.add_div_right _ hcs]
  rcases Nat.le_total size L.clusterSizeBytes with hle | hle
  · rw [Nat.min_eq_left hle, Nat.sub_self, Nat.zero_add]
    rw [Nat.div_eq_of_lt_le (k := 1) (by omega) (by omega),
      Nat.div_eq_of_lt_le (k := 1) (by omega) (by omega)]
  · rw [Nat.min_eq_right hle]
    congr 1
    omega

theorem clustersFor_eq_zero (hcs : 0 < L.clusterSizeBytes) {size : Nat} :
    L.clustersFor size = 0 ↔ size = 0 := by
  constructor
  · intro h
    by_contra hne
    rw [clustersFor_pos hcs _ (Nat.pos_of_ne_zero hne)] at h
    omega
  · rintro rfl
    exact clustersFor_zero hcs

theorem clustersFor_mul_add (hcs : 0 < L.clusterSizeBytes) (n r : Nat) :
    L.clustersFor (n * L.clusterSizeBytes + r) = n + L.clustersFor r := by
  unfold clustersFor
  have he : n * L.clusterSizeBytes + r + L.clusterSizeBytes - 1
      = r + L.clusterSizeBytes - 1 + n * L.clusterSizeBytes := by omega
  rw [he, Nat.add_mul_div_right _ _ hcs, Nat.add_comm]

theorem le_clustersFor (hcs : 0 < L.clusterSizeBytes) (size : Nat) :
    size ≤ L.clustersFor size * L.clusterSizeBytes := by
  unfold clustersFor
  have h := Nat.div_add_mod (size + L.clusterSizeBytes - 1)
    L.clusterSizeBytes
  have hm := Nat.mod_lt (size + L.clusterSizeBytes - 1) hcs
  rw [Nat.mul_comm] at h
  omega

/-- The room that the last cluster of a file of `size` bytes has left. -/
def slack (L : Layout) (size : Nat) : Nat :=
  if size % L.clusterSizeBytes = 0 then 0
  else L.clusterSizeBytes - size % L.clusterSizeBytes

theorem clustersFor_add (hcs : 0 < L.clusterSizeBytes) (old size : Nat) :
    L.clustersFor (old + size) = L.clustersFor old
      + L.clustersFor (size - min size (L.slack old)) := by
  have hdiv := Nat.div_add_mod old L.clusterSizeBytes
  have hlt := Nat.mod_lt old hcs
  rw [Nat.mul_comm] at hdiv
  set q := old / L.clusterSizeBytes
  set w := old % L.clusterSizeBytes
  have hold : L.clustersFor old = q + L.clustersFor w := by
    rw [← hdiv, clustersFor_mul_add hcs]
  have hsum : L.clustersFor (old + size) = q + L.clustersFor (w + size) := by
    rw [← hdiv, Nat.add_assoc, clustersFor_mul_add hcs]
  have hslack : L.slack old
      = if w = 0 then 0 else L.clusterSizeBytes - w := rfl
  rw [hold, hsum, Nat.add_assoc, hslack]
  by_cases hw : w = 0
  · rw [if_pos hw, hw, Nat.min_zero, Nat.sub_zero, Nat.zero_add,
      clustersFor_zero hcs, Nat.zero_add]
  · rw [if_neg hw, clustersFor_pos hcs w (by omega),
      clustersFor_pos hcs _ (by omega),
      Nat.min_eq_left hlt.le, Nat.sub_self, clustersFor_zero hcs]
    have he : w + size - min (w + size) L.clusterSizeBytes
        = size - min size (L.clusterSizeBytes - w) := by omega
    rw [he]
    omega

end Layout

theorem needClusters_eq {L : Layout} {size : Nat}
    (h : size + L.clusterSizeBytes - 1 < 2 ^ 64) :
    needClusters size L.clusterSizeBytes = L.clustersFor size := by
  rw [needClusters, Nat.mod_eq_of_lt h, Layout.clustersFor]

-- ==== content

/-- The bytes of a list of clusters. -/
def Vol.fileBytes (L : Layout) (v : Vol) (l : List Nat) : List UInt8 :=
  l.flatMap fun c => (List.range L.clusterSizeBytes).map (v.data c)

/-- The content of a file: the bytes of its chain up to its size. -/
def Vol.content (L : Layout) (v : Vol) (l : List Nat) (size : Nat) :
    List UInt8 :=
  (v.fileBytes L l).take size

namespace Vol

variable {L : Layout} {v v' : Vol} {c size : Nat} {l l' : List Nat}

theorem fileBytes_cons : v.fileBytes L (c :: l)
    = (List.range L.clusterSizeBytes).map (v.data c) ++ v.fileBytes L l := by
  simp [fileBytes]

theorem fileBytes_append :
    v.fileBytes L (l ++ l') = v.fileBytes L l ++ v.fileBytes L l' := by
  simp [fileBytes]

@[simp] theorem fileBytes_length :
    (v.fileBytes L l).length = l.length * L.clusterSizeBytes := by
  induction l with
  | nil => simp [fileBytes]
  | cons c l ih =>
    rw [fileBytes_cons, List.length_append, ih, List.length_map,
      List.length_range, List.length_cons, Nat.succ_mul, Nat.add_comm]

theorem fileBytes_congr (h : ∀ c ∈ l, v'.data c = v.data c) :
    v'.fileBytes L l = v.fileBytes L l := by
  induction l with
  | nil => rfl
  | cons c l ih =>
    rw [fileBytes_cons, fileBytes_cons, h c List.mem_cons_self,
      ih fun x hx => h x (List.mem_cons_of_mem _ hx)]

theorem content_congr (h : ∀ c ∈ l, v'.data c = v.data c) :
    v'.content L l size = v.content L l size := by
  rw [content, content, fileBytes_congr h]

theorem content_cons_le (h : size ≤ L.clusterSizeBytes) :
    v.content L (c :: l) size = (List.range size).map (v.data c) := by
  rw [content, fileBytes_cons,
    List.take_append_of_le_length (by simpa using h), ← List.map_take,
    List.take_range, Nat.min_eq_left h]

theorem content_cons_gt (h : L.clusterSizeBytes < size) :
    v.content L (c :: l) size
      = (List.range L.clusterSizeBytes).map (v.data c)
        ++ v.content L l (size - L.clusterSizeBytes) := by
  rw [content, fileBytes_cons, List.take_append,
    List.take_of_length_le (by simp; omega)]
  simp [content]

theorem content_snoc_add {r : Nat} (v : Vol) (h : r ≤ L.clusterSizeBytes) :
    v.content L (l ++ [c]) (l.length * L.clusterSizeBytes + r)
      = v.fileBytes L l ++ (List.range r).map (v.data c) := by
  rw [Vol.content, fileBytes_append, List.take_append, fileBytes_length,
    List.take_of_length_le (by simp)]
  congr 1
  rw [Nat.add_sub_cancel_left]
  exact content_cons_le (l := []) h

end Vol

-- ==== a buffer

/-- The cluster that holds a buffer from an offset on, and zeroes behind
its end. -/
def Layout.chunk (L : Layout) (data : Mem) (size off : Nat) :
    Nat → UInt8 :=
  L.clip (blit (fun _ => 0) 0 (min (size - off) L.clusterSizeBytes)
    fun k => data (off + k))

/-- The volume after a buffer was written into clusters. -/
def Vol.filled (L : Layout) (data : Mem) (size : Nat) :
    List Nat → Nat → Vol → Vol
  | [], _, v => v
  | c :: l, off, v =>
    filled L data size l (off + L.clusterSizeBytes)
      (v.setData c (L.chunk data size off))

/-- The bytes of a buffer. -/
def bufferBytes (data : Mem) (size : Nat) : List UInt8 :=
  (List.range size).map data

theorem Layout.chunk_apply {L : Layout} {data : Mem} {size off k : Nat}
    (hk : k < L.clusterSizeBytes) (hs : off + k < size) :
    L.chunk data size off k = data (off + k) := by
  rw [chunk, clip, if_pos hk, blit_in (by omega) (by omega), Nat.sub_zero]

namespace Vol

variable {L : Layout} {v v' : Vol} {data : Mem} {size off : Nat}
  {l l' : List Nat}

@[simp] theorem filled_fat :
    (v.filled L data size l off).fat = v.fat := by
  induction l generalizing off v with
  | nil => rfl
  | cons c l ih => rw [filled, ih, setData_fat]

theorem filled_data_out {c : Nat} (hc : c ∉ l) :
    (v.filled L data size l off).data c = v.data c := by
  induction l generalizing off v with
  | nil => rfl
  | cons x l ih =>
    obtain ⟨h1, h2⟩ := List.ne_and_not_mem_of_not_mem_cons hc
    rw [filled, ih h2, setData_data_ne _ _ h1]

theorem filled_append :
    v.filled L data size (l ++ l') off
      = (v.filled L data size l off).filled L data size l'
        (off + l.length * L.clusterSizeBytes) := by
  induction l generalizing off v with
  | nil => simp [filled]
  | cons c l ih =>
    rw [List.cons_append, filled, filled, ih, List.length_cons, Nat.succ_mul]
    congr 1
    omega

theorem filled_data_congr (h : v'.data = v.data) :
    (v'.filled L data size l off).data
      = (v.filled L data size l off).data := by
  induction l generalizing off v v' with
  | nil => exact h
  | cons c l ih =>
    refine ih ?_
    simp only [setData, h]

theorem filled_content (hnd : l.Nodup)
    (hlen : size - off ≤ l.length * L.clusterSizeBytes) :
    (v.filled L data size l off).content L l (size - off)
      = (List.range (size - off)).map fun k => data (off + k) := by
  induction l generalizing off v with
  | nil =>
    have hz : size - off = 0 := by simpa using hlen
    simp [hz, content]
  | cons c l ih =>
    obtain ⟨hc, hnd⟩ := List.nodup_cons.mp hnd
    have hdata : (v.filled L data size (c :: l) off).data c
        = L.chunk data size off := by
      rw [filled, filled_data_out hc, setData_data_self]
    have hrange : ∀ n ≤ L.clusterSizeBytes, n ≤ size - off →
        (List.range n).map (L.chunk data size off)
          = (List.range n).map fun k => data (off + k) := by
      intro n h1 h2
      refine List.map_congr_left fun k hk => ?_
      have hk := List.mem_range.mp hk
      exact Layout.chunk_apply (by omega) (by omega)
    rcases Nat.lt_or_ge L.clusterSizeBytes (size - off) with hgt | hle
    · have hsplit : size - off
          = L.clusterSizeBytes + (size - (off + L.clusterSizeBytes)) := by
        omega
      have hrest : size - off - L.clusterSizeBytes
          = size - (off + L.clusterSizeBytes) := by omega
      have hlen' : (c :: l).length * L.clusterSizeBytes
          = l.length * L.clusterSizeBytes + L.clusterSizeBytes :=
        Nat.succ_mul _ _
      rw [content_cons_gt hgt, hdata, hrange _ (le_refl _) hgt.le, hrest,
        filled, ih hnd (by omega), hsplit, List.range_add, List.map_append,
        List.map_map]
      simp only [Function.comp_def, Nat.add_assoc]
    · rw [content_cons_le hle, hdata, hrange _ hle (le_refl _)]

theorem filled_buffer (data : Mem) (hnd : l.Nodup)
    (hlen : size ≤ l.length * L.clusterSizeBytes) :
    (v.filled L data size l 0).content L l size = bufferBytes data size := by
  have h : (v.filled L data size l 0).content L l (size - 0)
      = (List.range (size - 0)).map fun k => data (0 + k) :=
    filled_content hnd hlen
  simp only [Nat.sub_zero, Nat.zero_add] at h
  exact h

end Vol

/-- Between two states, the chain `l` grew by clusters that were free,
and they were filled from a buffer. -/
structure Grows (s s' : State) (data : Mem) (size first : Nat)
    (l l' : List Nat) (off : Nat) : Prop where
  moves : Moves s s'
  free : ∀ c ∈ l', c ∈ s.vol.freeSet s.fat32
  chain : l ++ l' ≠ [] → s'.vol.Chain s.fat32 first (l ++ l')
  links : ∀ c, c ∉ l → c ∉ l' → s'.vol.fat c = s.vol.fat c
  data : s'.vol.data = (s.vol.filled s.fat32 data size l' off).data

namespace Grows

variable {s s1 s' : State} {data : Mem} {size first off : Nat}
  {l l1 l2 : List Nat}

theorem refl (hl : l ≠ [] → s.vol.Chain s.fat32 first l) :
    Grows s s data size first l [] off where
  moves := Moves.refl s
  free := by simp
  chain := by simpa using hl
  links _ _ _ := rfl
  data := rfl

theorem fat32 (h : Grows s s' data size first l l1 off) :
    s'.fat32 = s.fat32 := h.moves.fat32

theorem free_of_free (h : Grows s s' data size first l l1 off) {c : Nat}
    (hc : c ∈ s'.vol.freeSet s.fat32) (hl : c ∉ l) :
    c ∈ s.vol.freeSet s.fat32 := by
  obtain ⟨h1, h2, h3⟩ := Vol.mem_freeSet.mp hc
  refine Vol.mem_freeSet.mpr ⟨h1, h2, ?_⟩
  by_cases hl1 : c ∈ l1
  · exact (Vol.mem_freeSet.mp (h.free c hl1)).2.2
  · rwa [← h.links c hl hl1]

theorem trans (h : Grows s s1 data size first l l1 off)
    (h' : Grows s1 s' data size first (l ++ l1) l2
      (off + l1.length * s.fat32.clusterSizeBytes))
    (hne : l ++ l1 ≠ []) :
    Grows s s' data size first l (l1 ++ l2) off where
  moves := h.moves.trans h'.moves
  free c hc := by
    rcases List.mem_append.mp hc with hc | hc
    · exact h.free c hc
    · have hfree := h'.free c hc
      rw [h.fat32] at hfree
      refine h.free_of_free hfree fun hcl => ?_
      have hno := (h.chain hne).not_free c (List.mem_append_left _ hcl)
      exact hno (Vol.mem_freeSet.mp hfree).2.2
  chain hl := by
    have hc := h'.chain (by rwa [List.append_assoc])
    rwa [h.fat32, List.append_assoc] at hc
  links c hl hl' := by
    rw [List.mem_append, not_or] at hl'
    rw [h'.links c (by simp [hl, hl'.1]) hl'.2]
    exact h.links c hl hl'.1
  data := by
    rw [h'.data, h.fat32, Vol.filled_append]
    exact Vol.filled_data_congr h.data

theorem length_le (h : Grows s s' data size first l l1 off) :
    l1.length ≤ (s.vol.freeSet s.fat32).card := by
  by_cases hl : l ++ l1 = []
  · rw [(List.append_eq_nil_iff.mp hl).2]
    simp
  have hnd := (List.nodup_append.mp (h.chain hl).nodup).2.1
  rw [← List.toFinset_card_of_nodup hnd]
  refine Finset.card_le_card fun c hc => h.free c ?_
  exact List.mem_toFinset.mp hc

theorem card_le (h : Grows s s' data size first l l1 off)
    (hfree : ∀ c ∈ l, s.vol.fat c ≠ freeCluster)
    (he : s'.vol.freeSet s.fat32 = ∅) :
    (s.vol.freeSet s.fat32).card ≤ l1.length := by
  refine le_trans (Finset.card_le_card fun c hc => ?_)
    (List.toFinset_card_le l1)
  rw [List.mem_toFinset]
  by_contra hcl
  obtain ⟨h1, h2, h3⟩ := Vol.mem_freeSet.mp hc
  have hnl : c ∉ l := fun hin => hfree c hin h3
  have hin : c ∈ s'.vol.freeSet s.fat32 :=
    Vol.mem_freeSet.mpr ⟨h1, h2, (h.links c hnl hcl).trans h3⟩
  rw [he] at hin
  exact absurd hin (Finset.notMem_empty c)

end Grows

-- ==== reading

section specs

variable {s : State}

theorem readCluster_run (h : s.Ok) {c n : Nat}
    (hc : s.fat32.clusterValid c = true) (hn : 0 < n)
    (hle : n ≤ s.fat32.clusterSizeBytes) :
    ∃ s', ensureLoadedRange (s.fat32.lbaOf c * 512) n s = (some (), s') ∧
      Reads (s.fat32.clusterSectors c) s s' ∧
      readBytes s'.bytes (s.fat32.lbaOf c * 512) n
        = (List.range n).map (s.vol.data c) := by
  have hs := h.sound
  have hend := hs.lbaOf_le hc
  have hsize := hs.size
  have hb := h.bytesLen
  have heq := s.fat32.clusterOffset_eq c
  simp only [sectorSize] at hb hsize
  have hr : s.fat32.lbaOf c * 512 + n ≤ s.bytesLen := by omega
  obtain ⟨s', hrun, hrd, hl⟩ := ensureLoadedRange_run h.placed.toBacked hn hr
  refine ⟨s', hrun, hrd.mono ?_, ?_⟩
  · rintro l ⟨h1, h2⟩
    exact ⟨by omega, by omega⟩
  · refine List.map_congr_left fun k hk => ?_
    have hk := List.mem_range.mp hk
    rw [bytes_eq_of_loaded h.placed.toBacked hrd hr hl (by omega) (by omega)]
    simp only [State.vol, volOf, hc, true_and]
    rw [if_pos (by omega), heq]

private theorem readChainLoop_run (h : s.Ok) (size : Nat) {c guard : Nat}
    {l : List Nat} (hl : s.vol.Chain s.fat32 c l) (hg : l.length ≤ guard)
    (hpos : 0 < size)
    (hsize : size ≤ l.length * s.fat32.clusterSizeBytes) :
    ∃ s', readChainLoop guard c size s
        = (some (s.vol.content s.fat32 l size), s') ∧
      Reads (s.fat32.chainSectors l) s s' := by
  induction guard generalizing c l s size with
  | zero =>
    obtain ⟨t, rfl⟩ := hl.eq_cons
    simp at hg
  | succ guard ih =>
    have hcv := (h.sound.ok_iff c).mp hl.head_ok
    have hcl := hl.head_mem
    have hcs := h.sound.clusterSize_pos
    have hend := h.sound.lbaOf_le hcv
    have hsz := h.sound.size
    have hsp := h.sound.spc_pos
    have hb := h.bytesLen
    simp only [sectorSize] at hsz hb
    obtain ⟨s1, hrun1, hr1, hbytes⟩ := readCluster_run h hcv
      (n := min size s.fat32.clusterSizeBytes) (by omega) (by omega)
    have hr1' := hr1.mono (s.fat32.clusterSectors_subset hcl)
    obtain ⟨t, rfl⟩ := hl.eq_cons
    have hrange : s.bytesRangeValid (s.fat32.lbaOf c * 512)
        (min size s.fat32.clusterSizeBytes) = true :=
      h.rangeValid (by omega) (by omega)
    rw [readChainLoop, Cmd.get_bind_apply, Cmd.require_bind hcv,
      Cmd.bind_ok (clusterFirstByteOffset_run h hcv)]
    simp only []
    rw [Cmd.require_bind hrange, Cmd.bind_ok hrun1, Cmd.get_bind_apply,
      hbytes]
    by_cases hle : size ≤ s.fat32.clusterSizeBytes
    · refine ⟨s1, ?_, hr1'⟩
      rw [Nat.min_eq_left hle, if_pos (le_refl size), Cmd.pure_apply,
        Vol.content_cons_le hle]
    · have hmin : min size s.fat32.clusterSizeBytes
          = s.fat32.clusterSizeBytes := by omega
      rw [hmin, if_neg hle, Vol.content_cons_gt (by omega)]
      obtain ⟨s2, hrun2, hr12⟩ := nextCluster_walk h hl hr1
      have ht : t ≠ [] := by
        rintro rfl
        simp at hsize
        omega
      obtain ⟨_, _, hct⟩ := hl.tail ht
      obtain ⟨hns, hnv⟩ := h.goes_on hct
      have hlen : (c :: t).length * s.fat32.clusterSizeBytes
          = t.length * s.fat32.clusterSizeBytes
            + s.fat32.clusterSizeBytes := Nat.succ_mul _ _
      obtain ⟨s3, hrun3, hr3⟩ := ih (hr12.ok h)
        (size - s.fat32.clusterSizeBytes) (c := s.vol.fat c) (l := t)
        (by rw [hr12.vol, hr12.fat32]; exact hct)
        (by simpa using hg) (by omega)
        (by rw [hr12.fat32]; omega)
      rw [hr12.vol, hr12.fat32] at hrun3
      refine ⟨s3, ?_, hr12.walk hr3⟩
      rw [Cmd.bind_ok hrun2]
      simp only [hns, decide_false, Bool.not_false]
      rw [Cmd.require_bind rfl, Cmd.require_bind (by rwa [hr1.fat32]),
        Cmd.bind_ok hrun3, Cmd.pure_apply]

theorem readFileChain_run (h : s.Ok) (size : Nat) {c : Nat} {l : List Nat}
    (hl : s.vol.Chain s.fat32 c l)
    (hsize : size ≤ l.length * s.fat32.clusterSizeBytes) :
    ∃ s', readFileChain c size s
        = (some (s.vol.content s.fat32 l size), s') ∧
      Reads (s.fat32.chainSectors l) s s' := by
  rw [readFileChain, Cmd.get_bind_apply]
  by_cases hz : size = 0
  · subst hz
    exact ⟨s, by simp [Vol.content], Reads.refl _ s⟩
  · rw [if_neg hz, Cmd.require_bind ((h.sound.ok_iff c).mp hl.head_ok)]
    exact readChainLoop_run h size hl hl.length_le (by omega) hsize

-- ==== writing

theorem syncSectorRange_eq (lba n : Nat) :
    syncSectorRangeNoFlush lba n s = syncSectorRange lba n s := by
  rw [syncSectorRange]
  cases hm : syncSectorRangeNoFlush lba n s with
  | mk r s' =>
    cases r with
    | none => rw [Cmd.bind_err hm]
    | some u => rw [Cmd.bind_ok hm]; rfl

private theorem writeChunk_run (h : s.Ok) {c : Nat} (data : Mem)
    (size off : Nat) (hc : s.fat32.clusterValid c = true) :
    ∃ s', syncSectorRangeNoFlush (s.fat32.lbaOf c)
        s.fat32.sectorsPerCluster
        ((s.poked (s.fat32.lbaOf c * 512) s.fat32.clusterSizeBytes
          fun _ => 0).poked (s.fat32.lbaOf c * 512)
            (min (size - off) s.fat32.clusterSizeBytes)
            fun k => data (off + k)) = (some (), s') ∧
      Steps s s' (s.vol.setData c (s.fat32.chunk data size off)) ∧
      s'.allocHint = s.allocHint := by
  have hsize := h.sound.size
  simp only [sectorSize] at hsize
  obtain ⟨s', hrun, hst, hh⟩ := clusterWrite_run h _ hc
  have hpoke := s.poked_poked (s.fat32.lbaOf c * 512)
    s.fat32.clusterSizeBytes (o := 0)
    (l := min (size - off) s.fat32.clusterSizeBytes) (by omega) (fun _ => 0)
    fun k => data (off + k)
  rw [Nat.add_zero] at hpoke
  refine ⟨s', ?_, hst, hh⟩
  rw [hpoke, syncSectorRange_eq, hsize]
  rw [hsize] at hrun
  exact hrun

private theorem writeChainLoop_run (h : s.Ok) (off : Nat) {c guard size : Nat}
    {l : List Nat} (data : Mem) (hl : s.vol.Chain s.fat32 c l)
    (hg : l.length ≤ guard) (hpos : off < size)
    (hsize : s.fat32.clustersFor (size - off) = l.length) :
    ∃ s', writeChainLoop data size guard c off s = (some (), s') ∧
      Steps s s' (s.vol.filled s.fat32 data size l off) := by
  induction guard generalizing c l s off with
  | zero =>
    obtain ⟨t, rfl⟩ := hl.eq_cons
    simp at hg
  | succ guard ih =>
    have hcv := (h.sound.ok_iff c).mp hl.head_ok
    have hcs := h.sound.clusterSize_pos
    have hend := h.sound.lbaOf_le hcv
    have hsz := h.sound.size
    have hsp := h.sound.spc_pos
    have hb := h.bytesLen
    simp only [sectorSize] at hsz hb
    obtain ⟨s1, hrun1, hst1, _⟩ := writeChunk_run h data size off hcv
    have hf1 := hst1.fat32
    obtain ⟨t, rfl⟩ := hl.eq_cons
    have hrange : s.bytesRangeValid (s.fat32.lbaOf c * 512)
        s.fat32.clusterSizeBytes = true :=
      h.rangeValid (by omega) (by omega)
    rw [writeChainLoop, Cmd.get_bind_apply, Cmd.require_bind hcv,
      Cmd.bind_ok (clusterLba_run h hcv)]
    simp only [sectorSize]
    rw [Cmd.require_bind hrange, poke, Cmd.modify_bind_apply, poke,
      Cmd.modify_bind_apply, Cmd.bind_ok hrun1]
    rw [Layout.clustersFor_pos hcs _ (by omega), List.length_cons] at hsize
    rw [Vol.filled]
    by_cases hle : size - off ≤ s.fat32.clusterSizeBytes
    · -- The buffer ends in this cluster, and so does the chain.
      rw [Nat.min_eq_left hle, Nat.sub_self,
        Layout.clustersFor_zero hcs] at hsize
      obtain rfl : t = [] := List.length_eq_zero_iff.mp (by omega)
      refine ⟨s1, ?_, hst1⟩
      rw [if_pos (by omega), Cmd.pure_apply]
    · have hmin : min (size - off) s.fat32.clusterSizeBytes
          = s.fat32.clusterSizeBytes := by omega
      rw [hmin, Nat.sub_sub] at hsize
      rw [hmin, if_neg (by omega)]
      have ht : t ≠ [] := by
        rintro rfl
        have hz := (Layout.clustersFor_eq_zero hcs).mp
          (Nat.succ.inj hsize)
        omega
      obtain ⟨_, _, hct⟩ := hl.tail ht
      obtain ⟨hns, hnv⟩ := h.goes_on hct
      have h1 := hst1.ok h
      obtain ⟨s2, hrun2, hr2⟩ := fatNextCluster_run h1 (c := c)
        (by rwa [hf1])
      rw [hst1.vol, Vol.setData_fat] at hrun2
      have hst2 := hst1.trans (Steps.of_reads hr2)
      rw [hst1.vol] at hst2
      obtain ⟨s3, hrun3, hst3⟩ := ih (hst2.ok h)
        (off + s.fat32.clusterSizeBytes) (c := s.vol.fat c) (l := t)
        (by
          rw [hst2.vol, hst2.fat32]
          exact hct)
        (by simpa using hg) (by omega)
        (by
          rw [hst2.fat32]
          exact Nat.succ.inj hsize)
      rw [hst2.vol, hst2.fat32] at hst3
      refine ⟨s3, ?_, hst2.trans hst3⟩
      rw [Cmd.bind_ok hrun2]
      simp only [hns, decide_false, Bool.not_false]
      rw [Cmd.require_bind rfl, Cmd.require_bind hnv, hrun3]

theorem writeFileChain_run (h : s.Ok) {c size : Nat} {l : List Nat}
    (data : Mem) (hl : s.vol.Chain s.fat32 c l) (hpos : 0 < size)
    (hsize : s.fat32.clustersFor size = l.length) :
    ∃ s', writeFileChain c (some data) size s = (some (), s') ∧
      Steps s s' (s.vol.filled s.fat32 data size l 0) := by
  rw [writeFileChain, Cmd.get_bind_apply, if_neg (by omega)]
  simp only []
  rw [Cmd.require_bind ((h.sound.ok_iff c).mp hl.head_ok)]
  exact writeChainLoop_run h 0 data hl hl.length_le hpos hsize

theorem Takes.grows {s1 s' : State} {first size : Nat} {l : List Nat}
    {data : Mem} (ht : Takes s s1 first l)
    (hst : Steps s1 s' (s1.vol.filled s.fat32 data size l 0)) :
    Grows s s' data size first [] l 0 where
  moves := ht.moves.trans hst.moves
  free := ht.free
  chain _ := by
    rw [List.nil_append, hst.vol]
    exact ht.chain.congr fun x _ => by rw [Vol.filled_fat]
  links c _ hc := by
    rw [hst.vol, Vol.filled_fat]
    exact ht.links c hc
  data := by
    rw [hst.vol]
    exact Vol.filled_data_congr ht.data

-- ==== appending

private theorem chainLastLoop_run (h : s.Ok) {c guard z : Nat}
    {pre : List Nat} (hl : s.vol.Chain s.fat32 c (pre ++ [z]))
    (hg : pre.length < guard) :
    ∃ s', chainLastLoop guard c s = (some z, s') ∧
      Reads s.fat32.tableSectors s s' := by
  induction guard generalizing c pre s with
  | zero => omega
  | succ guard ih =>
    have hcv := (h.sound.ok_iff c).mp hl.head_ok
    obtain ⟨s1, hrun1, hr1⟩ := fatNextCluster_run h hcv
    rw [chainLastLoop, Cmd.get_bind_apply, Cmd.require_bind hcv,
      Cmd.bind_ok hrun1]
    simp only []
    cases pre with
    | nil =>
      have hstop : eocMin ≤ s.vol.fat c := by
        cases hl with
        | last _ hstop => exact hstop
        | cons _ hct => exact absurd rfl hct.ne_nil
      obtain ⟨t, ht⟩ := hl.eq_cons
      cases ht
      refine ⟨s1, ?_, hr1⟩
      rw [if_pos (decide_eq_true hstop), Cmd.pure_apply]
    | cons x pre =>
      obtain ⟨rfl, _, hct⟩ := hl.tail (by simp)
      obtain ⟨hns, hnv⟩ := h.goes_on hct
      obtain ⟨s2, hrun2, hr2⟩ := ih (hr1.ok h) (c := s.vol.fat x) (by rw [hr1.vol, hr1.fat32]; exact hct)
        (by simpa using hg)
      rw [hr1.fat32] at hr2
      refine ⟨s2, ?_, hr1.trans hr2⟩
      rw [if_neg (by simpa using hns), Cmd.require_bind hnv, hrun2]

theorem chainLastCluster_run (h : s.Ok) {c z : Nat} {pre : List Nat}
    (hl : s.vol.Chain s.fat32 c (pre ++ [z])) :
    ∃ s', chainLastCluster c s = (some z, s') ∧
      Reads s.fat32.tableSectors s s' := by
  have hlen := hl.length_le
  rw [List.length_append, List.length_singleton] at hlen
  rw [chainLastCluster, Cmd.get_bind_apply,
    Cmd.require_bind ((h.sound.ok_iff c).mp hl.head_ok)]
  exact chainLastLoop_run h hl (by omega)

private theorem grows_single {s1 s2 s3 : State} (h : s.Ok) {first z c : Nat}
    {pre : List Nat} {data : Mem} {size off : Nat}
    (hl : s.vol.Chain s.fat32 first (pre ++ [z]))
    (hc : c ∈ s.vol.freeSet s.fat32)
    (hst1 : Steps s s1 (s.vol.setFat c eoc))
    (hst2 : Steps s1 s2 (s1.vol.setFat z c))
    (hst3 : Steps s2 s3 (s2.vol.setData c (s.fat32.chunk data size off))) :
    Grows s s3 data size first (pre ++ [z]) [c] off := by
  have hfat : s3.vol.fat = ((s.vol.setFat c eoc).setFat z c).fat := by
    rw [hst3.vol, Vol.setData_fat, hst2.vol, hst1.vol]
  obtain ⟨h1, h2, h3⟩ := Vol.mem_freeSet.mp hc
  have hcl : c ∉ pre ++ [z] := fun hin => hl.not_free c hin h3
  have hcz : c ≠ z := fun he => hcl (by simp [he])
  have hnd := List.nodup_append.mp hl.nodup
  have hother : ∀ x, x ≠ z → x ≠ c → s3.vol.fat x = s.vol.fat x := by
    intro x hxz hxc
    rw [hfat, Vol.setFat_fat_ne _ _ hxz, Vol.setFat_fat_ne _ _ hxc]
  refine ⟨(hst1.trans (hst2.trans hst3)).moves, ?_, fun _ => ?_, ?_, ?_⟩
  · intro x hx
    rwa [List.mem_singleton.mp hx]
  · rw [List.append_assoc, List.singleton_append]
    refine hl.append (b := c) (.last ?_ ?_) ?_ ?_
    · exact (h.sound.ok_iff c).mpr (h.valid_of_free hc)
    · rw [hfat, Vol.setFat_fat_ne _ _ hcz, Vol.setFat_fat_self]
      show eocMin ≤ eoc
      decide
    · rw [hfat, Vol.setFat_fat_self]
    · intro x hx
      exact hother x (hnd.2.2 x hx z (by simp))
        fun he => hcl (by simp [← he, hx])
  · intro x hx hx'
    exact hother x (fun he => hx (by simp [he])) (by simpa using hx')
  · rw [hst3.vol, hst2.vol, hst1.vol]
    rfl

private theorem appendChunk_run (h : s.Ok) {c : Nat} (data : Mem)
    (size off : Nat) (hc : s.fat32.clusterValid c = true) :
    ∃ s', Steps s s' (s.vol.setData c (s.fat32.chunk data size off)) ∧
      ∀ k : Cmd State Unit, (do
          if min (size - off) s.fat32.clusterSizeBytes
              < s.fat32.clusterSizeBytes then
            poke (s.fat32.lbaOf c * 512) s.fat32.clusterSizeBytes fun _ => 0
          poke (s.fat32.lbaOf c * 512)
            (min (size - off) s.fat32.clusterSizeBytes)
            fun k => data (off + k)
          syncSectorRangeNoFlush (s.fat32.lbaOf c)
            s.fat32.sectorsPerCluster
          k : Cmd State Unit) s = k s' := by
  by_cases hlt : min (size - off) s.fat32.clusterSizeBytes
      < s.fat32.clusterSizeBytes
  · obtain ⟨s', hrun, hst, _⟩ := writeChunk_run h data size off hc
    refine ⟨s', hst, fun k => ?_⟩
    simp only [if_pos hlt, poke, Cmd.modify_bind_apply]
    exact Cmd.bind_ok hrun
  · have hmin : min (size - off) s.fat32.clusterSizeBytes
        = s.fat32.clusterSizeBytes := by omega
    have hsize := h.sound.size
    simp only [sectorSize] at hsize
    obtain ⟨s', hrun, hst, _⟩ := clusterWrite_run h (fun k => data (off + k))
      hc
    refine ⟨s', ⟨hst.moves, ?_⟩, fun k => ?_⟩
    · rw [hst.vol]
      congr 1
      funext k
      simp only [Layout.chunk, Layout.clip]
      split_ifs with hk
      · rw [blit_in (by omega) (by omega), Nat.sub_zero]
      · rfl
    · rw [← syncSectorRange_eq] at hrun
      simp only [if_neg hlt]
      rw [hmin, hsize, poke, Cmd.modify_bind_apply]
      exact Cmd.bind_ok hrun

theorem Grows.nil_off {s s' : State} {data : Mem} {size first off : Nat}
    {l : List Nat} (h : Grows s s' data size first l [] off) (off' : Nat) :
    Grows s s' data size first l [] off' :=
  ⟨h.moves, h.free, h.chain, h.links, h.data⟩

theorem appendLoop_run (h : s.Ok) (off : Nat) {first z n size : Nat}
    {pre : List Nat} (data : Mem)
    (hl : s.vol.Chain s.fat32 first (pre ++ [z])) (hn : size - off ≤ n) :
    ∃ r l' s', appendLoop data size n z off s = (r, s') ∧
      Grows s s' data size first (pre ++ [z]) l' off ∧
      (r = some () ∧ l'.length = s.fat32.clustersFor (size - off) ∨
        r = none ∧ l'.length < s.fat32.clustersFor (size - off) ∧
          s'.vol.freeSet s.fat32 = ∅) := by
  have hcs := h.sound.clusterSize_pos
  induction n generalizing s z pre off with
  | zero =>
    refine ⟨some (), [], s, rfl, .refl fun _ => hl, .inl ⟨rfl, ?_⟩⟩
    rw [Nat.le_zero.mp hn, Layout.clustersFor_zero hcs, List.length_nil]
  | succ n ih =>
    rw [appendLoop]
    by_cases hdone : size ≤ off
    · refine ⟨some (), [], s, by rw [if_pos hdone, Cmd.pure_apply],
        .refl fun _ => hl, .inl ⟨rfl, ?_⟩⟩
      rw [Nat.sub_eq_zero_of_le hdone, Layout.clustersFor_zero hcs,
        List.length_nil]
    rw [if_neg hdone, Cmd.get_bind_apply]
    simp only []
    have hcount := Layout.clustersFor_pos hcs (size - off) (by omega)
    rw [Nat.sub_sub] at hcount
    rcases allocClusterNoZero_run h with
      ⟨c, s1, hrun1, hfree, hst1⟩ | ⟨s1, hrun1, hempty, hst1⟩
    · have h1 := hst1.ok h
      have hzlt := (hl.ok_of_mem z (by simp)).2.1
      have hclt : c < 2 ^ 28 := by
        have hcl := (Vol.mem_freeSet.mp hfree).1
        have hcnt := h.sound.count_le
        omega
      obtain ⟨s2, hrun2, hm2, hv2, _⟩ := fatWriteEntry_run h1 (c := z)
        (by rw [hst1.fat32]; exact hzlt) c
      rw [low28_of_lt hclt] at hv2
      have hst2 : Steps s1 s2 (s1.vol.setFat z c) := ⟨hm2, hv2⟩
      have hf2 : s2.fat32 = s.fat32 := hst2.fat32.trans hst1.fat32
      have h2 := hst2.ok h1
      have hcv : s2.fat32.clusterValid c = true := by
        rw [hf2]
        exact h.valid_of_free hfree
      obtain ⟨s3, hst3, hrun3⟩ := appendChunk_run h2 data size off hcv
      have hst3' := hst3
      rw [hf2] at hst3'
      have hone := grows_single h hl hfree hst1 hst2 hst3'
      have hf3 : s3.fat32 = s.fat32 := hst3.fat32.trans hf2
      have hl3 : s3.vol.Chain s3.fat32 first (pre ++ [z] ++ [c]) := by
        rw [hf3]
        exact hone.chain (by simp)
      obtain ⟨r, l', s', hrun, hg, hout⟩ := ih (hst3.ok h2)
        (off + min (size - off) s.fat32.clusterSizeBytes) hl3
        (by omega) (by rwa [hf3])
      rw [hf3] at hout
      refine ⟨r, c :: l', s', ?_, ?_, ?_⟩
      · have hend := h2.sound.lbaOf_le hcv
        have hsz := h2.sound.size
        have hsp := h2.sound.spc_pos
        have hb := h2.bytesLen
        simp only [sectorSize] at hsz hb
        have hrange : s2.bytesRangeValid (s2.fat32.lbaOf c * 512)
            s2.fat32.clusterSizeBytes = true :=
          h2.rangeValid (by omega) (by omega)
        rw [Cmd.bind_ok hrun1, Cmd.bind_ok (Cmd.orCleanup_ok hrun2),
          Cmd.bind_ok (clusterLba_run h2 hcv), Cmd.get_bind_apply]
        simp only [sectorSize]
        rw [hf2] at hrange hrun3 ⊢
        rw [Cmd.require_bind hrange, ← hrun]
        exact hrun3 _
      · by_cases hlt : size - off < s.fat32.clusterSizeBytes
        · -- The buffer ends here, so nothing more was taken.
          have hz : size - (off + min (size - off) s.fat32.clusterSizeBytes)
              = 0 := by omega
          rw [hz, Layout.clustersFor_zero hcs] at hout
          obtain rfl : l' = [] := by
            rcases hout with ⟨_, hl'⟩ | ⟨_, hl', _⟩
            · exact List.length_eq_zero_iff.mp hl'
            · omega
          exact hone.trans (hg.nil_off _) (by simp)
        · have hmin : min (size - off) s.fat32.clusterSizeBytes
              = [c].length * s.fat32.clusterSizeBytes := by
            rw [List.length_singleton, Nat.one_mul]
            omega
          rw [hmin] at hg
          exact hone.trans hg (by simp)
      · rw [List.length_cons, hcount]
        rcases hout with ⟨hr, hl'⟩ | ⟨hr, hl', he⟩
        · exact .inl ⟨hr, congrArg (· + 1) hl'⟩
        · exact .inr ⟨hr, Nat.succ_lt_succ hl', he⟩
    · have hlt : ([] : List Nat).length < s.fat32.clustersFor (size - off) := by
        rw [hcount]
        exact Nat.succ_pos _
      refine ⟨none, [], s1, Cmd.bind_err hrun1, ?_,
        .inr ⟨rfl, hlt, ?_⟩⟩
      · exact ⟨hst1.moves, by simp, fun _ => by rw [hst1.vol]; simpa using hl,
          fun c _ _ => by rw [hst1.vol], by rw [hst1.vol]; rfl⟩
      · rw [hst1.vol, hempty]

/-- The volume after the last cluster of a file was filled up. -/
def State.toppedUp (s : State) (z oldSize : Nat) (data : Mem)
    (size : Nat) : Vol :=
  let within := oldSize % s.fat32.clusterSizeBytes
  let toCopy := min size (s.fat32.slack oldSize)
  if within = 0 then s.vol
  else s.vol.setData z (s.mixedData z (within / 512)
    ((within + toCopy + 511) / 512 - within / 512) within toCopy data)

theorem State.toppedUp_fat (s : State) (z oldSize : Nat) (data : Mem)
    (size : Nat) : (s.toppedUp z oldSize data size).fat = s.vol.fat := by
  simp only [toppedUp]
  split_ifs
  · rfl
  · rfl

theorem State.toppedUp_data_ne (s : State) {z c : Nat} (oldSize : Nat)
    (data : Mem) (size : Nat) (hc : c ≠ z) :
    (s.toppedUp z oldSize data size).data c = s.vol.data c := by
  simp only [toppedUp]
  split_ifs
  · rfl
  · exact Vol.setData_data_ne _ _ hc

private theorem appendPartial_run (h : s.Ok) {z size : Nat} (oldSize : Nat)
    (data : Mem) (hz : s.fat32.clusterValid z = true) (hpos : 0 < size) :
    ∃ s', appendPartial z oldSize data size s
        = (some (min size (s.fat32.slack oldSize)), s') ∧
      Steps s s' (s.toppedUp z oldSize data size) := by
  have hcs := h.sound.clusterSize_pos
  have hmod := Nat.mod_lt oldSize hcs
  rw [appendPartial, Cmd.get_bind_apply]
  simp only [State.toppedUp, Layout.slack]
  by_cases hw : oldSize % s.fat32.clusterSizeBytes = 0
  · refine ⟨s, ?_, ?_⟩
    · rw [if_neg (not_not.mpr hw), if_pos hw, Nat.min_zero, Cmd.pure_apply]
    · rw [if_pos hw]
      exact .of_reads (.refl ∅ s)
  · rw [if_pos hw, if_neg hw, if_neg hw]
    set w := oldSize % s.fat32.clusterSizeBytes
    set n := min size (s.fat32.clusterSizeBytes - w)
    have hn : 0 < n := by omega
    have hwn : w + n ≤ s.fat32.clusterSizeBytes := by omega
    have hsz := h.sound.size
    have hend := h.sound.lbaOf_le hz
    have hb := h.bytesLen
    have hoff := s.fat32.clusterOffset_eq z
    simp only [sectorSize] at hsz hb
    obtain ⟨s', hrun, hst, _⟩ := clusterSync_mixed h n hz (o := w)
      (a := w / 512) (n := (w + n + 511) / 512 - w / 512)
      (by omega) (by omega) (by omega) (by omega)
    refine ⟨s', ?_, hst⟩
    have hrange : s.bytesRangeValid (s.fat32.lbaOf z * 512 + w) n = true :=
      h.rangeValid (by omega) (by omega)
    rw [Cmd.bind_ok (clusterLba_run h hz)]
    simp only [sectorSize]
    rw [Cmd.require_bind hrange, poke, Cmd.modify_bind_apply]
    rw [hoff, ← syncSectorRange_eq] at hrun
    exact Cmd.bind_ok hrun

theorem Reads.toppedUp {s' : State} {P : Set Nat} (h : s.Ok)
    (hr : Reads P s s') {z : Nat}
    (hP : ∀ l ∈ s.fat32.clusterSectors z, l ∉ P) (oldSize : Nat)
    (data : Mem) (size : Nat) :
    s'.toppedUp z oldSize data size = s.toppedUp z oldSize data size := by
  have hcs := h.sound.clusterSize_pos
  have hmod := Nat.mod_lt oldSize hcs
  simp only [State.toppedUp, hr.fat32, hr.vol, Layout.slack]
  split_ifs with hw
  · rfl
  · congr 1
    set w := oldSize % s.fat32.clusterSizeBytes
    set n := min size (s.fat32.clusterSizeBytes - w)
    have hsz := h.sound.size
    have hoff := s.fat32.clusterOffset_eq z
    simp only [sectorSize] at hsz
    simp only [State.mixedData, hr.fat32, hr.vol]
    refine blit_congr (fun _ _ => rfl) fun k hk => ?_
    by_cases hin : w ≤ w / 512 * 512 + k ∧ w / 512 * 512 + k < w + n
    · rw [blit_in hin.1 hin.2, blit_in hin.1 hin.2]
    · rw [blit_out (by omega), blit_out (by omega)]
      refine (hr.untouched _ (hP ((s.fat32.clusterOffset z
        + (w / 512 * 512 + k)) / 512) ?_)).2 _ rfl
      exact ⟨by omega, by omega⟩

theorem appendFileChain_run (h : s.Ok) (oldSize : Nat)
    {first z size : Nat}
    {pre : List Nat} (data : Mem)
    (hl : s.vol.Chain s.fat32 first (pre ++ [z])) (hpos : 0 < size) :
    ∃ r l' s1 s', appendFileChain first oldSize (some data) size s
        = (r, s') ∧
      Steps s s1 (s.toppedUp z oldSize data size) ∧
      Grows s1 s' data size first (pre ++ [z]) l'
        (min size (s.fat32.slack oldSize)) ∧
      (r = some first ∧ l'.length = s.fat32.clustersFor
          (size - min size (s.fat32.slack oldSize)) ∨
        r = none ∧ l'.length < s.fat32.clustersFor
          (size - min size (s.fat32.slack oldSize)) ∧
          s'.vol.freeSet s.fat32 = ∅) := by
  have hcs := h.sound.clusterSize_pos
  have hfv := (h.sound.ok_iff first).mp hl.head_ok
  have hzv := (h.sound.ok_iff z).mp (hl.ok_of_mem z (by simp))
  obtain ⟨s1, hrun1, hr1⟩ := chainLastCluster_run h hl
  have h1 := hr1.ok h
  obtain ⟨s2, hrun2, hst2⟩ := appendPartial_run h1 oldSize data
    (z := z) (by rwa [hr1.fat32]) hpos
  -- The sectors of the cluster are not those of the table.
  rw [hr1.toppedUp h (fun l hlz hlt => by
    have h3 := hlz.1
    have h4 : l < s.fat32.dataLba := hlt
    have h5 := s.fat32.data_le_clusterOffset z
    have h6 := s.fat32.clusterOffset_eq z
    omega)] at hst2
  rw [hr1.fat32] at hrun2
  have hst2' : Steps s s2 (s.toppedUp z oldSize data size) :=
    (Steps.of_reads hr1).trans hst2
  have hf2 := hst2'.fat32
  obtain ⟨r, l', s3, hrun3, hg, hout⟩ := appendLoop_run (hst2'.ok h) _ (z := z)
    (n := size - min size (s.fat32.slack oldSize)) data
    (by
      rw [hst2'.vol, hf2]
      exact hl.congr fun x _ => by rw [State.toppedUp_fat])
    (le_refl _)
  rw [hf2] at hout
  have hhead : appendFileChain first oldSize (some data) size s
      = (appendLoop data size (size - min size (s.fat32.slack oldSize)) z
          (min size (s.fat32.slack oldSize)) >>= fun _ =>
          flushHw >>= fun _ => pure first) s2 := by
    rw [appendFileChain, Cmd.get_bind_apply]
    simp only [if_neg (Nat.pos_iff_ne_zero.mp hpos)]
    rw [Cmd.require_bind (decide_eq_true (Nat.pos_iff_ne_zero.mp hcs)),
      if_neg (by simp [hfv]), Cmd.bind_ok hrun1, Cmd.bind_ok hrun2]
  rcases hout with ⟨rfl, hlen⟩ | ⟨rfl, hlen, he⟩
  · refine ⟨_, l', s2, s3, ?_, hst2', hg, .inl ⟨rfl, hlen⟩⟩
    rw [hhead, Cmd.bind_ok hrun3]
    rfl
  · refine ⟨_, l', s2, s3, ?_, hst2', hg, .inr ⟨rfl, hlen, he⟩⟩
    rw [hhead, Cmd.bind_err hrun3]

-- ==== what was appended where

/-- The image shows what the hardware holds between the start of the
sector in which a file ends and the end of the file. -/
def State.EndShown (s : State) (z oldSize : Nat) : Prop :=
  let within := oldSize % s.fat32.clusterSizeBytes
  ∀ k, within / 512 * 512 ≤ k → k < within →
    s.bytes (s.fat32.clusterOffset z + k)
      = s.hw (s.fat32.clusterOffset z + k)

theorem State.Ok.endShown (h : s.Ok) {z oldSize : Nat}
    (hz : s.fat32.clusterValid z = true)
    (hl : s.loaded (s.fat32.lbaOf z
      + oldSize % s.fat32.clusterSizeBytes / 512) = true) :
    s.EndShown z oldSize := by
  intro k h1 h2
  have hmod := Nat.mod_lt oldSize h.sound.clusterSize_pos
  have hend := h.sound.lbaOf_le hz
  have hsz := h.sound.size
  have hb := h.bytesLen
  have hoff := s.fat32.clusterOffset_eq z
  simp only [sectorSize] at hsz hb
  refine h.coherent _ (by omega) ?_
  simp only [sectorSize]
  have he : (s.fat32.clusterOffset z + k) / 512 = s.fat32.lbaOf z
      + oldSize % s.fat32.clusterSizeBytes / 512 := by omega
  rwa [he]

theorem end_of_file {L : Layout} (hcs : 0 < L.clusterSizeBytes)
    {n oldSize : Nat} (hlen : n + 1 = L.clustersFor oldSize) :
    oldSize + L.slack oldSize = (n + 1) * L.clusterSizeBytes ∧
      (oldSize % L.clusterSizeBytes ≠ 0 →
        oldSize = n * L.clusterSizeBytes
          + oldSize % L.clusterSizeBytes) := by
  have hdiv := Nat.div_add_mod oldSize L.clusterSizeBytes
  have hlt := Nat.mod_lt oldSize hcs
  rw [Nat.mul_comm] at hdiv
  unfold Layout.slack
  set q := oldSize / L.clusterSizeBytes
  set w := oldSize % L.clusterSizeBytes
  have hq : n + 1 = q + L.clustersFor w := by
    rw [hlen, ← hdiv, Layout.clustersFor_mul_add hcs]
  by_cases hw : w = 0
  · have hn : n + 1 = q := by
      rw [hq, hw, Layout.clustersFor_zero hcs, Nat.add_zero]
    rw [if_pos hw, hn]
    exact ⟨by omega, fun hne => absurd hw hne⟩
  · rw [Layout.clustersFor_pos hcs _ (by omega), Nat.min_eq_left hlt.le,
      Nat.sub_self, Layout.clustersFor_zero hcs] at hq
    obtain rfl : n = q := by omega
    rw [if_neg hw, Nat.succ_mul]
    exact ⟨by omega, fun _ => hdiv.symm⟩

private theorem toppedUp_content_append (h : s.Ok) {z oldSize : Nat}
    (size : Nat) {pre : List Nat} (data : Mem)
    (hlen : pre.length + 1 = s.fat32.clustersFor oldSize) :
    (s.toppedUp z oldSize data size).content s.fat32 (pre ++ [z])
        (oldSize + min size (s.fat32.slack oldSize))
      = (s.toppedUp z oldSize data size).content s.fat32 (pre ++ [z]) oldSize
        ++ (List.range (min size (s.fat32.slack oldSize))).map data := by
  have hcs := h.sound.clusterSize_pos
  obtain ⟨hroom, hend⟩ := end_of_file hcs hlen
  have hlt := Nat.mod_lt oldSize hcs
  by_cases hw : oldSize % s.fat32.clusterSizeBytes = 0
  · have hslack : s.fat32.slack oldSize = 0 := if_pos hw
    simp only [hslack, Nat.min_zero, Nat.add_zero, List.range_zero,
      List.map_nil, List.append_nil]
  have hold := hend hw
  have hslack : s.fat32.slack oldSize
      = s.fat32.clusterSizeBytes - oldSize % s.fat32.clusterSizeBytes :=
    if_neg hw
  rw [hslack]
  have hdata : (s.toppedUp z oldSize data size).data z
      = s.mixedData z (oldSize % s.fat32.clusterSizeBytes / 512)
        ((oldSize % s.fat32.clusterSizeBytes
          + min size (s.fat32.slack oldSize) + 511) / 512
          - oldSize % s.fat32.clusterSizeBytes / 512)
        (oldSize % s.fat32.clusterSizeBytes)
        (min size (s.fat32.slack oldSize)) data := by
    simp only [State.toppedUp]
    rw [if_neg hw, Vol.setData_data_self]
  rw [hslack] at hdata
  set w := oldSize % s.fat32.clusterSizeBytes
  set m := min size (s.fat32.clusterSizeBytes - w)
  have hcut : (s.toppedUp z oldSize data size).content s.fat32 (pre ++ [z])
        oldSize = (s.toppedUp z oldSize data size).fileBytes s.fat32 pre
          ++ (List.range w).map ((s.toppedUp z oldSize data size).data z) :=
    (congrArg _ hold).trans (Vol.content_snoc_add _ hlt.le)
  rw [show oldSize + m = pre.length * s.fat32.clusterSizeBytes + (w + m) by
    omega, Vol.content_snoc_add _ (by omega), hcut, hdata]
  rw [List.append_assoc, List.append_cancel_left_eq, List.range_add,
    List.map_append, List.map_map, List.append_cancel_left_eq]
  refine List.map_congr_left fun k hk => ?_
  have hk := List.mem_range.mp hk
  simp only [Function.comp_apply, State.mixedData]
  rw [blit_in (by omega) (by omega), blit_in (by omega) (by omega)]
  congr 1
  omega

theorem toppedUp_old_iff (h : s.Ok) {z oldSize size : Nat}
    {pre : List Nat} (data : Mem) (hz : s.fat32.clusterValid z = true)
    (hpre : z ∉ pre)
    (hlen : pre.length + 1 = s.fat32.clustersFor oldSize)
    (hpos : 0 < size) :
    (s.toppedUp z oldSize data size).content s.fat32 (pre ++ [z]) oldSize
      = s.vol.content s.fat32 (pre ++ [z]) oldSize
      ↔ s.EndShown z oldSize := by
  have hcs := h.sound.clusterSize_pos
  obtain ⟨hroom, hend⟩ := end_of_file hcs hlen
  have hlt := Nat.mod_lt oldSize hcs
  simp only [State.EndShown]
  by_cases hw : oldSize % s.fat32.clusterSizeBytes = 0
  · simp only [State.toppedUp, hw, if_true, true_iff]
    intro k _ hk
    exact absurd hk (Nat.not_lt_zero k)
  have hold := hend hw
  have hslack : s.fat32.slack oldSize
      = s.fat32.clusterSizeBytes - oldSize % s.fat32.clusterSizeBytes :=
    if_neg hw
  have hpre' : (s.toppedUp z oldSize data size).fileBytes s.fat32 pre
      = s.vol.fileBytes s.fat32 pre :=
    Vol.fileBytes_congr fun c hc => s.toppedUp_data_ne _ _ _
      fun he => hpre (he ▸ hc)
  have hdata : (s.toppedUp z oldSize data size).data z
      = s.mixedData z (oldSize % s.fat32.clusterSizeBytes / 512)
        ((oldSize % s.fat32.clusterSizeBytes
          + min size (s.fat32.slack oldSize) + 511) / 512
          - oldSize % s.fat32.clusterSizeBytes / 512)
        (oldSize % s.fat32.clusterSizeBytes)
        (min size (s.fat32.slack oldSize)) data := by
    simp only [State.toppedUp]
    rw [if_neg hw, Vol.setData_data_self]
  rw [hslack] at hdata
  set w := oldSize % s.fat32.clusterSizeBytes
  set m := min size (s.fat32.clusterSizeBytes - w)
  have hm : 0 < m := by omega
  have hcut : ∀ v : Vol, v.content s.fat32 (pre ++ [z]) oldSize
      = v.fileBytes s.fat32 pre ++ (List.range w).map (v.data z) := fun v =>
    (congrArg _ hold).trans (Vol.content_snoc_add v hlt.le)
  rw [hcut, hcut, hpre', hdata, List.append_cancel_left_eq, List.map_inj_left]
  simp only [List.mem_range, State.mixedData]
  have hval : ∀ k < w, s.vol.data z k
      = s.hw (s.fat32.clusterOffset z + k) := by
    intro k hk
    simp only [State.vol, volOf, hz, true_and]
    rw [if_pos (by omega)]
  constructor
  · intro he k h1 h2
    have hk := he k h2
    rw [blit_in (by omega) (by omega), blit_out (by omega), hval k h2] at hk
    rw [← hk]
    congr 2
    omega
  · intro he k hk
    by_cases hin : w / 512 * 512 ≤ k
    · rw [blit_in (by omega) (by omega), blit_out (by omega), hval k hk,
        ← he k hin hk]
      congr 1
      omega
    · rw [blit_out (by omega)]

theorem append_content_iff {s1 s' : State} (h : s.Ok)
    {first z oldSize size : Nat} {pre l' : List Nat} {data : Mem}
    (hst : Steps s s1 (s.toppedUp z oldSize data size))
    (hg : Grows s1 s' data size first (pre ++ [z]) l'
      (min size (s.fat32.slack oldSize)))
    (hlen : pre.length + 1 = s.fat32.clustersFor oldSize)
    (hlen' : l'.length = s.fat32.clustersFor
      (size - min size (s.fat32.slack oldSize)))
    (hpos : 0 < size) :
    s'.vol.content s.fat32 (pre ++ [z] ++ l') (oldSize + size)
      = s.vol.content s.fat32 (pre ++ [z]) oldSize ++ bufferBytes data size
      ↔ s.EndShown z oldSize := by
  have hcs := h.sound.clusterSize_pos
  have hf1 := hst.fat32
  have hchain := hg.chain (by simp)
  have hnd := List.nodup_append.mp hchain.nodup
  have hzv : s.fat32.clusterValid z = true := by
    rw [← hf1]
    exact ((hst.ok h).sound.ok_iff z).mp (hchain.ok_of_mem z (by simp))
  have hpre : z ∉ pre := fun hz =>
    (List.nodup_append.mp hnd.1).2.2 z hz z (by simp) rfl
  set m := min size (s.fat32.slack oldSize) with hm
  -- The new clusters hold what did not fit into the last one.
  have hdata : s'.vol.data
      = ((s.toppedUp z oldSize data size).filled s.fat32 data size l' m).data := by
    rw [hg.data, hst.vol, hf1]
  have hold : s'.vol.fileBytes s.fat32 (pre ++ [z])
      = (s.toppedUp z oldSize data size).fileBytes s.fat32 (pre ++ [z]) :=
    Vol.fileBytes_congr fun c hc => by
      rw [hdata, Vol.filled_data_out fun hc' => hnd.2.2 c hc c hc' rfl]
  have hnew : s'.vol.content s.fat32 l' (size - m)
      = (List.range (size - m)).map fun k => data (m + k) := by
    rw [← Vol.filled_content (v := s.toppedUp z oldSize data size)
      hnd.2.1 (by
        rw [hlen']
        exact Layout.le_clustersFor hcs _)]
    exact Vol.content_congr fun c _ => by rw [hdata]
  have hroom := (end_of_file hcs hlen).1
  have hl : (pre ++ [z]).length * s.fat32.clusterSizeBytes
      = oldSize + s.fat32.slack oldSize := by
    rw [List.length_append, List.length_singleton, hroom]
  have hleft : s'.vol.content s.fat32 (pre ++ [z] ++ l') (oldSize + size)
      = (s.toppedUp z oldSize data size).content s.fat32 (pre ++ [z])
          (oldSize + m)
        ++ (List.range (size - m)).map fun k => data (m + k) := by
    rw [← hnew, Vol.content, Vol.fileBytes_append, List.take_append,
      Vol.fileBytes_length, hold, hl]
    by_cases hfit : size ≤ s.fat32.slack oldSize
    · have hms : m = size := by omega
      rw [hms, Nat.sub_self, Nat.sub_eq_zero_of_le (by omega)]
      simp [Vol.content]
    · have hms : m = s.fat32.slack oldSize := by omega
      have hlong : ∀ r, oldSize + s.fat32.slack oldSize ≤ r →
          ((s.toppedUp z oldSize data size).fileBytes s.fat32
            (pre ++ [z])).take r
          = (s.toppedUp z oldSize data size).fileBytes s.fat32
            (pre ++ [z]) := by
        intro r hr
        refine List.take_of_length_le ?_
        rwa [Vol.fileBytes_length, hl]
      rw [hlong _ (by omega), Vol.content, hlong _ (by omega), Vol.content]
      congr 2
      omega
  have hbuf : bufferBytes data size = (List.range m).map data
      ++ (List.range (size - m)).map fun k => data (m + k) := by
    have he : size = m + (size - m) := by omega
    conv_lhs => rw [bufferBytes, he, List.range_add, List.map_append,
      List.map_map]
    rfl
  rw [hleft, hbuf, ← List.append_assoc, List.append_cancel_right_eq,
    toppedUp_content_append h size data hlen, List.append_cancel_right_eq]
  exact toppedUp_old_iff h data hzv hpre hlen hpos

end specs

end Clks.Disk
