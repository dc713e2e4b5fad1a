/-
What the check does to the disk, whatever is on it.

Most of the check is `Quiet`: it ends with a result, it looks at no
directory, and it changes the disk in one direction only (`Trimmed`): a
link may be cut or freed, a file's entry may lose its first cluster, and
what the directories say about subdirectories stays. Without FIX the
disk stays as it is.
-/
import Clks.Disk.Fsck
import Clks.Disk.Proofs.Directory
import Clks.Lib.Tour

namespace Clks.Disk

open Bytes

set_option maxRecDepth 2000

-- ==== directories on a disk

/-- The subdirectory that an entry leads to. -/
def Entry.subdirectory (L : Layout) (e : Entry) : Option Nat :=
  if e.isVisible && isDirectoryAttr e.attr && !e.isDotLike
      && L.clusterValid e.firstCluster then
    some e.firstCluster
  else none

namespace State

/-- The cluster that a link leads to. -/
def nextOf (s : State) (c : Nat) : Option Nat :=
  (s.link c).filter fun x => decide (x < eocMin) && s.fat32.clusterValid x

/-- The clusters along the links from a directory's first one, at most so
many. -/
def linked (s : State) : Nat → Nat → List Nat
  | 0, _ => []
  | n + 1, c => c :: (s.nextOf c).toList.flatMap (linked s n)

/-- The clusters of a directory. -/
def dirClusters (s : State) (d : Nat) : List Nat :=
  s.linked s.fat32.clusterCount d

/-- The subdirectories in some slots of a cluster. -/
def subdirsFrom (s : State) (c i n : Nat) : List (DirSlot × Nat) :=
  (List.range' i n).filterMap fun j =>
    ((s.vol.entry ⟨c, j⟩).subdirectory s.fat32).map fun e => (⟨c, j⟩, e)

/-- The subdirectories in a cluster of a directory. -/
def subdirs (s : State) (c : Nat) : List (DirSlot × Nat) :=
  s.subdirsFrom c 0 s.fat32.entriesPerCluster

theorem mem_subdirs {s : State} {c e : Nat} {slot : DirSlot} :
    (slot, e) ∈ s.subdirs c ↔ slot.cluster = c ∧
      slot.entryIndex < s.fat32.entriesPerCluster ∧
      (s.vol.entry slot).subdirectory s.fat32 = some e := by
  simp only [subdirs, subdirsFrom, List.mem_filterMap, List.mem_range'_1,
    Option.map_eq_some_iff, Prod.mk.injEq]
  constructor
  · intro h
    obtain ⟨j, hj, _, hsub, rfl, rfl⟩ := h
    exact ⟨rfl, show j < s.fat32.entriesPerCluster by omega, hsub⟩
  · intro h
    obtain ⟨rfl, hi, hsub⟩ := h
    exact ⟨slot.entryIndex, ⟨Nat.zero_le _, by omega⟩, e, hsub, rfl, rfl⟩

theorem subdirs_places (s : State) : Tour.Places s.subdirs where
  nodup c := by
    have hmap : (s.subdirs c).map Prod.fst
        = ((List.range' 0 s.fat32.entriesPerCluster).filter fun j =>
          ((s.vol.entry ⟨c, j⟩).subdirectory s.fat32).isSome).map
            fun j => ⟨c, j⟩ := by
      unfold subdirs subdirsFrom
      generalize List.range' 0 s.fat32.entriesPerCluster = l
      induction l with
      | nil => rfl
      | cons j l ih =>
        cases hsub : (s.vol.entry ⟨c, j⟩).subdirectory s.fat32 <;>
          simp [hsub, ih]
    rw [hmap]
    refine List.Nodup.map (fun i j hij => ?_)
      ((List.nodup_range' ..).filter _)
    cases hij
    rfl
  part h h' := by
    rw [← (mem_subdirs.mp h).1, ← (mem_subdirs.mp h').1]

end State

-- ==== trimming

/-- The disk differs by repairs: links were cut or freed, and what the
entries say about subdirectories is the same. -/
structure Trimmed (s₀ s : State) : Prop where
  env : s.toEnv = s₀.toEnv
  placed : s.Placed
  loaded : ∀ l, s₀.loaded l = true → s.loaded l = true
  link : ∀ c < s₀.fat32.clusterCount + 2, s.link c = s₀.link c ∨
    s.link c = some eoc ∨ s.link c = some freeCluster
  subdirectory : ∀ slot, s₀.fat32.clusterValid slot.cluster = true →
    slot.entryIndex < s₀.fat32.entriesPerCluster →
    (s.vol.entry slot).subdirectory s₀.fat32
      = (s₀.vol.entry slot).subdirectory s₀.fat32

section trimmed

variable {s0 s s' : State} {P : Set Nat}

theorem Trimmed.fat32 (h : Trimmed s0 s) : s.fat32 = s0.fat32 :=
  congrArg Env.fat32 h.env

theorem Trimmed.refl (h : s.Placed) : Trimmed s s where
  env := rfl
  placed := h
  loaded _ := id
  link _ _ := .inl rfl
  subdirectory _ _ _ := rfl

theorem Trimmed.trans (h : Trimmed s0 s) (h' : Trimmed s s') :
    Trimmed s0 s' where
  env := h'.env.trans h.env
  placed := h'.placed
  loaded l hl := h'.loaded l (h.loaded l hl)
  link c hc := by
    have hf := h.fat32
    rcases h'.link c (by rwa [hf]) with he | he
    · rw [he]
      exact h.link c hc
    · exact .inr he
  subdirectory slot hc hi := by
    have hf := h.fat32
    have h2 := h'.subdirectory slot (by rwa [hf]) (by rwa [hf])
    rw [hf] at h2
    exact h2.trans (h.subdirectory slot hc hi)

theorem Reads.link (h : Reads P s s') (c : Nat) : s'.link c = s.link c := by
  unfold State.link
  rw [h.fat32, h.hw]

theorem State.nextOf_valid {c x : Nat} (h : s.nextOf c = some x) :
    s.link c = some x ∧ x < eocMin ∧ s.fat32.clusterValid x = true := by
  have h' := Option.filter_eq_some_iff.mp h
  exact ⟨h'.1, by simpa using h'.2⟩

theorem Trimmed.nextOf (h : Trimmed s0 s) {c : Nat}
    (hc : c < s0.fat32.clusterCount + 2) :
    s.nextOf c = s0.nextOf c ∨ s.nextOf c = none := by
  have hf := h.fat32
  unfold State.nextOf
  rw [hf]
  rcases h.link c hc with he | he | he
  · rw [he]
    exact .inl rfl
  · rw [he]
    exact .inr rfl
  · rw [he]
    right
    simp [Option.filter, Layout.clusterValid, freeCluster]

theorem Reads.trimmed (h : Reads P s s') (hs : s.Placed) : Trimmed s s' where
  env := h.env
  placed := h.placed hs
  loaded := h.loaded
  link c _ := .inl (h.link c)
  subdirectory slot _ _ := by rw [h.vol]

theorem TableWrite.link {c value : Nat} (hs : s.Placed)
    (h : TableWrite s s' 0 s.fat32.fatCount c value) (c' : Nat) :
    s'.link c' = if c' = c ∧ s.fat32.tabled c = true then some (low28 value)
      else s.link c' := by
  have hf : s'.fat32 = s.fat32 := congrArg Env.fat32 h.env
  unfold State.link
  rw [hf]
  cases ht : s.fat32.tabled c' with
  | false =>
    have hne : ¬ (c' = c ∧ s.fat32.tabled c = true) := by
      intro hh
      rw [← hh.1, ht] at hh
      cases hh.2
    rw [if_neg hne, if_neg Bool.false_ne_true, if_neg Bool.false_ne_true]
  | true =>
    rw [if_pos rfl, if_pos rfl, h.rawFat_eq hs.layout.fats_pos ht]
    by_cases hc : c' = c
    · subst hc
      rw [if_pos rfl, if_pos ⟨rfl, ht⟩, low28_mergeEntry]
    · rw [if_neg hc, if_neg fun hh => hc hh.1]

theorem TableWrite.vol_data {c value : Nat}
    (h : TableWrite s s' 0 s.fat32.fatCount c value) :
    s'.vol.data = s.vol.data := by
  unfold State.vol
  rw [congrArg Env.fat32 h.env]
  exact volOf_data_congr h.data

theorem TableWrite.trimmed {c value : Nat} (hs : s.Placed)
    (h : TableWrite s s' 0 s.fat32.fatCount c value)
    (hv : value = eoc ∨ value = freeCluster) : Trimmed s s' where
  env := h.env
  placed := hs.of_env h.env h.coherent
  loaded := h.loaded
  link c' _ := by
    rw [h.link hs]
    split_ifs
    · rcases hv with rfl | rfl
      · exact .inr (.inl rfl)
      · exact .inr (.inr rfl)
    · exact .inl rfl
  subdirectory slot _ _ := by
    rw [Vol.entry_congr (congrFun h.vol_data slot.cluster)]

end trimmed

-- ==== quiet commands

namespace Fsck

variable {α β : Type} {fix : Bool} {s0 : State} {t t' t'' : FsckState}

/-- Nothing was scanned, and the disk was repaired at most, or only read
without FIX. -/
structure Checked (fix : Bool) (t t' : FsckState) : Prop where
  scanned : t'.scanned = t.scanned
  trimmed : Trimmed t.disk t'.disk
  hw : fix = false → t'.disk.hw = t.disk.hw ∧ t'.written = t.written

theorem Checked.refl (h : t.disk.Placed) : Checked fix t t :=
  ⟨rfl, .refl h, fun _ => ⟨rfl, rfl⟩⟩

theorem Checked.trans (h : Checked fix t t') (h' : Checked fix t' t'') :
    Checked fix t t'' where
  scanned := h'.scanned.trans h.scanned
  trimmed := h.trimmed.trans h'.trimmed
  hw hfix := ⟨(h'.hw hfix).1.trans (h.hw hfix).1,
    (h'.hw hfix).2.trans (h.hw hfix).2⟩

/-- The command ends with a result and has done what a check may do. -/
def Quiet (fix : Bool) (m : Cmd FsckState α) : Prop :=
  ∀ t, t.disk.Placed → ∃ a t', m t = (some a, t') ∧ Checked fix t t'

namespace Quiet

variable {m : Cmd FsckState α} {f : α → Cmd FsckState β}

theorem pure (a : α) : Quiet fix (Pure.pure a : Cmd FsckState α) :=
  fun t h => ⟨a, t, rfl, .refl h⟩

theorem bind (hm : Quiet fix m) (hf : ∀ a, Quiet fix (f a)) :
    Quiet fix (m >>= f) := by
  intro t h
  obtain ⟨a, t1, hrun1, h1⟩ := hm t h
  obtain ⟨b, t2, hrun2, h2⟩ := hf a t1 h1.trimmed.placed
  exact ⟨b, t2, (Cmd.bind_ok hrun1).trans hrun2, h1.trans h2⟩

theorem getBind {k : FsckState → Cmd FsckState β}
    (hk : ∀ t, Quiet fix (k t)) : Quiet fix (Cmd.get >>= k) :=
  fun t h => hk t t h

theorem ite {c : Prop} [Decidable c] {m1 m2 : Cmd FsckState α}
    (h1 : c → Quiet fix m1) (h2 : ¬ c → Quiet fix m2) :
    Quiet fix (if c then m1 else m2) := by
  by_cases hc : c
  · rw [if_pos hc]
    exact h1 hc
  · rw [if_neg hc]
    exact h2 hc

theorem modify {g : FsckState → FsckState}
    (hd : ∀ t, (g t).disk = t.disk) (hs : ∀ t, (g t).scanned = t.scanned)
    (hw : ∀ t, (g t).written = t.written) :
    Quiet fix (Cmd.modify g) := by
  intro t h
  refine ⟨(), g t, rfl, hs t, ?_, fun _ => ⟨?_, hw t⟩⟩
  · rw [hd t]
    exact .refl h
  · rw [hd t]

theorem note (f : FsckResult → FsckResult) : Quiet fix (Fsck.note f) :=
  modify (fun _ => rfl) (fun _ => rfl) fun _ => rfl

theorem mark (cluster : Nat) : Quiet fix (Fsck.mark cluster) :=
  modify (fun _ => rfl) (fun _ => rfl) fun _ => rfl

theorem read {m : Cmd State α}
    (hm : ∀ s : State, s.Placed → ∃ P, Reads P s (m s).2) :
    Quiet fix (Cmd.attempt (onDisk m)) := by
  intro t h
  obtain ⟨P, hr⟩ := hm t.disk h
  exact ⟨_, _, rfl, rfl, hr.trimmed h, fun _ => ⟨hr.hw, rfl⟩⟩

end Quiet

theorem fatReadEntry_reads (c : Nat) (s : State) (h : s.Placed) :
    ∃ P, Reads P s (fatReadEntry c s).2 := by
  by_cases hc : c < s.fat32.clusterCount + 2
  · obtain ⟨s', hrun, hr⟩ := h.fatReadEntry hc
    exact ⟨_, by rw [hrun]; exact hr⟩
  · refine ⟨∅, ?_⟩
    simp only [fatReadEntry, Cmd.get_bind_apply]
    rw [Cmd.require_bind h.layout.valid,
      Cmd.require_bind_err (decide_eq_false hc)]
    exact .refl _ _

theorem fatNextCluster_reads (c : Nat) (s : State) (h : s.Placed) :
    ∃ P, Reads P s (fatNextCluster c s).2 := by
  obtain ⟨P, hr⟩ := fatReadEntry_reads c s h
  refine ⟨P, ?_⟩
  cases hrun : fatReadEntry c s with
  | mk r s' =>
    rw [hrun] at hr
    cases r with
    | none =>
      rw [fatNextCluster, Cmd.bind_err hrun]
      exact hr
    | some x =>
      rw [fatNextCluster, Cmd.bind_ok hrun]
      exact hr

theorem quiet_next (c : Nat) :
    Quiet fix (Cmd.attempt (onDisk (fatNextCluster c))) :=
  .read (fatNextCluster_reads c)

theorem quiet_write (c : Nat) {value : Nat}
    (hv : value = eoc ∨ value = freeCluster) : Quiet true (write c value) := by
  intro t h
  have hfix : true = false → False := fun h => nomatch h
  by_cases hc : c < t.disk.fat32.clusterCount + 2
  · rcases h.fatWriteEntry hc value with ⟨-, s', hrun, hw⟩ | ⟨-, hrun⟩
    · refine ⟨true, { t with disk := s', written := t.written ++ [c] }, ?_,
        rfl, hw.trimmed h hv, fun h => (hfix h).elim⟩
      simp [write, onDisk, hrun]
    · refine ⟨false, { t with written := t.written ++ [c] }, ?_, rfl,
        .refl h, fun h => (hfix h).elim⟩
      simp [write, onDisk, hrun]
  · have hrun : fatWriteEntry c value t.disk = (none, t.disk) := by
      simp only [fatWriteEntry, Cmd.get_bind_apply]
      rw [Cmd.require_bind h.layout.valid,
        Cmd.require_bind_err (decide_eq_false hc)]
    refine ⟨false, { t with written := t.written ++ [c] }, ?_, rfl,
      .refl h, fun h => (hfix h).elim⟩
    simp [write, onDisk, hrun]

theorem quiet_cut (c : Nat) : Quiet fix (cut fix c) := by
  cases fix with
  | false => exact .pure ()
  | true =>
    refine (quiet_write c (.inl rfl)).bind fun done => ?_
    exact .ite (fun _ => .note _) fun _ => .pure ()

theorem quiet_freeTailLoop (guard current : Nat) :
    Quiet true (freeTailLoop guard current) := by
  induction guard generalizing current with
  | zero => exact .pure ()
  | succ guard ih =>
    refine .getBind fun t => .ite (fun _ => ?_) fun _ => .pure ()
    refine (quiet_next current).bind fun link => ?_
    refine (quiet_write current (.inr rfl)).bind fun _ => ?_
    cases link with
    | none => exact .pure ()
    | some next => exact .ite (fun _ => .pure ()) fun _ => ih _

theorem quiet_freeTail (c : Nat) : Quiet true (freeTail c) :=
  .getBind fun _ => quiet_freeTailLoop _ c

theorem quiet_markChainLoop (needed : Nat) (isDir : Bool)
    (guard current prev chainClusters : Nat) :
    Quiet fix
      (markChainLoop needed isDir fix guard current prev chainClusters) := by
  induction guard generalizing current prev chainClusters with
  | zero => exact (Quiet.note _).bind fun _ => .pure _
  | succ guard ih =>
    refine .getBind fun t => .ite (fun _ => ?_) fun _ => ?_
    · refine (Quiet.note _).bind fun _ => ?_
      exact .ite (fun _ => (quiet_cut prev).bind fun _ => .pure _)
        fun _ => .pure _
    · refine (Quiet.mark current).bind fun _ => ?_
      refine (quiet_next current).bind fun link => ?_
      cases link with
      | none =>
        exact (Quiet.note _).bind fun _ =>
          (quiet_cut current).bind fun _ => .pure _
      | some next =>
        refine .ite (fun _ => ?_) fun _ => .ite (fun _ => .pure _) fun _ =>
          .ite (fun _ => ?_) fun _ => ih _ _ _
        · refine (Quiet.note _).bind fun _ => ?_
          cases fix with
          | false => exact .pure _
          | true =>
            refine (quiet_write current (.inl rfl)).bind fun _ => ?_
            refine .ite (fun _ => ?_) fun _ => .pure _
            exact (Quiet.note _).bind fun _ =>
              (quiet_freeTail _).bind fun _ => .pure _
        · exact (Quiet.note _).bind fun _ =>
            (quiet_cut current).bind fun _ => .pure _

theorem quiet_markChain (first size : Nat) (isDir : Bool) :
    Quiet fix (markChain first size isDir fix) := by
  refine .getBind fun t => .ite (fun _ => ?_) fun _ => ?_
  · exact .ite (fun _ => .note _) fun _ => .pure ()
  · refine .ite (fun _ => .note _) fun _ => ?_
    refine (quiet_markChainLoop _ _ _ _ _ _).bind fun _ => ?_
    refine .ite (fun _ => ?_) fun _ => .pure ()
    exact .ite (fun _ => .note _) fun _ => .pure ()

-- ==== an entry is changed

private theorem dirEntryPtr_loaded {s s1 : State} (h : s.Placed)
    (henv : s1.toEnv = s.toEnv) {c i : Nat}
    (hc : s.fat32.clusterValid c = true)
    (hi : i < s.fat32.entriesPerCluster)
    (hl : s1.loaded (s.fat32.lbaOf c + i / 16) = true) :
    dirEntryPtr c i s1 = (some (s.fat32.clusterOffset c + 32 * i,
      s.fat32.lbaOf c + i / 16), s1) := by
  have hs := h.layout
  have hle := hs.lbaOf_le hc
  have hb : s1.bytesLen = s.sectorTotal * 512 := by
    rw [henv]
    exact h.bytesLen
  have hsp := hs.spc_pos
  have hin := (hs.entry_in hi).2
  have hoff : (s.fat32.lbaOf c + i / 16) * 512 + i % 16 * 32
      = s.fat32.clusterOffset c + 32 * i := by
    rw [Layout.clusterOffset_eq]
    omega
  have heq := s.fat32.clusterOffset_eq c
  have hlba : clusterLba c s1 = (some (s.fat32.lbaOf c), s1) := by
    rw [clusterLba, Cmd.get_bind_apply, henv, Cmd.require_bind hc,
      Cmd.require_bind (decide_eq_true (by omega)),
      Cmd.require_bind (decide_eq_true (by omega)), Cmd.pure_apply]
  have hvalid : s1.bytesRangeValid (s.fat32.clusterOffset c + 32 * i) 32
      = true := by
    simp only [State.bytesRangeValid, Bool.and_eq_true, decide_eq_true_eq]
    omega
  -- The entry lies in one sector, and that one is loaded.
  have hfirst : (s.fat32.clusterOffset c + 32 * i) / 512
      = s.fat32.lbaOf c + i / 16 := by omega
  have hcount : (s.fat32.clusterOffset c + 32 * i + 32 + 511) / 512
      - (s.fat32.lbaOf c + i / 16) = 1 := by omega
  have hload : ensureLoadedRange (s.fat32.clusterOffset c + 32 * i) 32 s1
      = (some (), s1) := by
    have hbk : s1.hwBacked = true := by
      rw [henv]
      exact h.hwBacked
    simp only [ensureLoadedRange, Cmd.get_bind_apply, hvalid, hbk,
      sectorSize, hfirst, hcount]
    simp [State.loadLoop, hl, Cmd.require_true_bind]
  rw [dirEntryPtr, Cmd.bind_ok hlba, Cmd.get_bind_apply, henv,
    Cmd.require_bind (decide_eq_true hi)]
  simp only [sectorSize, direntSize, Nat.reduceDiv, hoff]
  rw [Cmd.require_bind hvalid, Cmd.bind_ok hload, Cmd.pure_apply]

/-- The eight bytes that hold the first cluster, after it was changed. -/
def firstClusterBytes (s : State) (ptr cluster : Nat) : Nat → UInt8 :=
  fun k =>
    if k < 2 then wordByte (cluster / 65536 % 65536) k
    else if 6 ≤ k then wordByte (cluster % 65536) (k - 6)
    else s.bytes (ptr + 20 + k)

theorem setFirstCluster_run (ptr cluster : Nat) (s : State) :
    setFirstCluster ptr cluster s
      = (some (), s.poked (ptr + 20) 8 (firstClusterBytes s ptr cluster)) := by
  have hbytes : blit (blit s.bytes (ptr + 20) 2
        (wordByte (cluster / 65536 % 65536))) (ptr + 26) 2
        (wordByte (cluster % 65536))
      = blit s.bytes (ptr + 20) 8 (firstClusterBytes s ptr cluster) := by
    funext i
    by_cases h1 : ptr + 26 ≤ i ∧ i < ptr + 26 + 2
    · rw [blit_in h1.1 h1.2, blit_in (by omega) (by omega),
        firstClusterBytes, if_neg (by omega), if_pos (by omega)]
      congr 1
    · rw [blit_out (by omega)]
      by_cases h2 : ptr + 20 ≤ i ∧ i < ptr + 20 + 2
      · rw [blit_in h2.1 h2.2, blit_in (by omega) (by omega),
          firstClusterBytes, if_pos (by omega)]
      · rw [blit_out (by omega)]
        by_cases h3 : ptr + 20 ≤ i ∧ i < ptr + 20 + 8
        · rw [blit_in h3.1 h3.2, firstClusterBytes, if_neg (by omega),
            if_neg (by omega)]
          congr 1
          omega
        · rw [blit_out (by omega)]
  show (some (), { s with bytes := _ }) = _
  rw [State.poked, ← hbytes]
  rfl

theorem subdirectory_zero {L : Layout} {e : Entry} (h : e.firstCluster = 0) :
    e.subdirectory L = none := by
  have hnv : L.clusterValid 0 = false := by simp [Layout.clusterValid]
  unfold Entry.subdirectory
  rw [h, hnv, Bool.and_false, if_neg Bool.false_ne_true]

theorem firstClusterBytes_zero (s : State) (ptr : Nat) {k : Nat}
    (hk : k < 2 ∨ 6 ≤ k) : firstClusterBytes s ptr 0 k = 0 := by
  have hword : ∀ k, wordByte 0 k = 0 := fun k => by simp [wordByte]
  unfold firstClusterBytes
  split_ifs
  · exact hword _
  · exact hword _
  · omega

theorem entry_of_firstCluster {v v' : Vol} {c i : Nat} {src : Nat → UInt8}
    (hvol : v'.data
      = (v.setData c (blit (v.data c) (32 * i + 20) 8 src)).data) :
    (∀ k, k < 8 → v'.entry ⟨c, i⟩ (20 + k) = src k) ∧
    ∀ slot, slot ≠ ⟨c, i⟩ → v'.entry slot = v.entry slot := by
  constructor
  · intro k hk
    simp only [Vol.entry, entryAt, direntSize]
    rw [if_pos (by omega), congrFun hvol c, Vol.setData_data_self,
      blit_in (by omega) (by omega)]
    congr 1
    omega
  · intro slot hslot
    funext k
    simp only [Vol.entry, entryAt, direntSize]
    split_ifs with hk
    · by_cases hcc : slot.cluster = c
      · have hii : slot.entryIndex ≠ i := by
          intro hii
          exact hslot (by cases slot; subst hcc hii; rfl)
        rw [hcc, congrFun hvol c, Vol.setData_data_self, blit_out (by omega)]
      · rw [congrFun hvol slot.cluster, Vol.setData_data_ne _ _ hcc]
    · rfl

private theorem setFirst_run {s : State} (h : s.Placed) {c i : Nat}
    (hc : s.fat32.clusterValid c = true)
    (hi : i < s.fat32.entriesPerCluster)
    (hl : s.loaded (s.fat32.lbaOf c + i / 16) = true)
    (hsub : (s.vol.entry ⟨c, i⟩).subdirectory s.fat32 = none) :
    ∃ s', syncSectorRange (s.fat32.lbaOf c + i / 16) 1
        (setFirstCluster (s.fat32.clusterOffset c + 32 * i) 0 s).2
        = (some (), s') ∧ Trimmed s s' := by
  have hs := h.layout
  have hle := hs.lbaOf_le hc
  have hin := hs.entry_in hi
  have heq := s.fat32.clusterOffset_eq c
  have hdata := s.fat32.data_le_clusterOffset c
  have hsec : ∀ k, (s.fat32.lbaOf c + i / 16) * 512 ≤ k →
      k < (s.fat32.lbaOf c + i / 16) * 512 + 1 * 512 →
      s.loaded (k / 512) = true := by
    intro k h1 h2
    have he : k / 512 = s.fat32.lbaOf c + i / 16 := by omega
    rw [he]
    exact hl
  rw [setFirstCluster_run]
  set src := firstClusterBytes s (s.fat32.clusterOffset c + 32 * i) 0
    with hsrc
  have hfirst : (s.fat32.lbaOf c + i / 16) * 512
      ≤ s.fat32.clusterOffset c + 32 * i + 20 := by omega
  have hlast : s.fat32.clusterOffset c + 32 * i + 20 + 8
      ≤ (s.fat32.lbaOf c + i / 16) * 512 + 1 * 512 := by omega
  obtain ⟨s', hrun, hw⟩ : ∃ s', syncSectorRange (s.fat32.lbaOf c + i / 16) 1
      (s.poked (s.fat32.clusterOffset c + 32 * i + 20) 8 src)
        = (some (), s') ∧
      Writes s s' (blit s.hw (s.fat32.clusterOffset c + 32 * i + 20) 8 src) :=
    syncSectorRange_run h.toBacked Nat.one_pos (by omega) hfirst hlast
      fun k h1 h2 _ => hsec k h1 h2
  have hf : s'.fat32 = s.fat32 := congrArg Env.fat32 hw.env
  have hvol : s'.vol.data = (s.vol.setData c
      (blit (s.vol.data c) (32 * i + 20) 8 src)).data := by
    simp only [State.vol, hf, hw.hw]
    rw [Nat.add_assoc]
    exact volOf_blit_data hs hc (by omega)
  obtain ⟨hself, hother⟩ := entry_of_firstCluster hvol
  refine ⟨s', hrun, hw.env, h.of_env hw.env hw.coherent, hw.loaded, ?_, ?_⟩
  · intro c' _
    left
    unfold State.link
    rw [hf, hw.hw]
    cases ht : s.fat32.tabled c' with
    | false => rw [if_neg Bool.false_ne_true, if_neg Bool.false_ne_true]
    | true => rw [rawFat_blit_data hs (by omega) hs.fats_pos ht]
  · intro slot _ _
    by_cases hslot : slot = ⟨c, i⟩
    · subst hslot
      rw [hsub]
      have hb : ∀ k, k < 2 ∨ 6 ≤ k ∧ k < 8 →
          s'.vol.entry ⟨c, i⟩ (20 + k) = 0 := fun k hk => by
        rw [hself k (by omega), hsrc, firstClusterBytes_zero _ _ (by omega)]
      refine subdirectory_zero ?_
      have h0 := hb 0 (by omega)
      have h1 := hb 1 (by omega)
      have h2 := hb 6 (by omega)
      have h3 := hb 7 (by omega)
      simp [Entry.firstCluster, readU16, h0, h1, h2, h3]
    · rw [hother slot hslot]

theorem dropChain_run {t : FsckState} (h : t.disk.Placed) {c i : Nat}
    (hc : t.disk.fat32.clusterValid c = true)
    (hi : i < t.disk.fat32.entriesPerCluster)
    (hl : t.disk.loaded (t.disk.fat32.lbaOf c + i / 16) = true)
    (hsub : (t.disk.vol.entry ⟨c, i⟩).subdirectory t.disk.fat32 = none)
    (first : Nat) :
    ∃ t', dropChain c i (t.disk.fat32.clusterOffset c + 32 * i) first t
      = (some (), t') ∧ Checked true t t' := by
  obtain ⟨a, t1, hrun1, h1⟩ := quiet_freeTail first t h
  have hf := h1.trimmed.fat32
  have hsub1 := h1.trimmed.subdirectory ⟨c, i⟩ hc hi
  obtain ⟨s', hrun2, h2⟩ := setFirst_run h1.trimmed.placed (c := c) (i := i)
    (by rwa [hf]) (by rwa [hf]) (by rw [hf]; exact h1.trimmed.loaded _ hl)
    (by rw [hf, hsub1, hsub])
  rw [hf] at hrun2
  have henv : ((setFirstCluster (t.disk.fat32.clusterOffset c + 32 * i) 0
      t1.disk).2).toEnv = t1.disk.toEnv := by
    rw [setFirstCluster_run]
    rfl
  have hptr := dirEntryPtr_loaded h1.trimmed.placed henv (c := c) (i := i)
    (by rwa [hf]) (by rwa [hf]) (by
      rw [setFirstCluster_run, hf]
      exact h1.trimmed.loaded _ hl)
  rw [hf] at hptr
  have hdone : ∀ m : Cmd State Unit, m (setFirstCluster
        (t.disk.fat32.clusterOffset c + 32 * i) 0 t1.disk).2 = (some (), s') →
      Cmd.attempt (onDisk m) { t1 with disk := (setFirstCluster
        (t.disk.fat32.clusterOffset c + 32 * i) 0 t1.disk).2 }
      = (some (some ()), { t1 with disk := s' }) := by
    intro m hm
    simp only [Cmd.attempt_apply, onDisk, hm]
  refine ⟨{ t1 with
      disk := s'
      result := { t1.result with
        fixedEntries := t1.result.fixedEntries + 1 } }, ?_, ?_⟩
  · rw [dropChain, Cmd.bind_ok hrun1]
    have hset : onDisk (setFirstCluster
        (t.disk.fat32.clusterOffset c + 32 * i) invalidCluster) t1
        = (some (), { t1 with disk := (setFirstCluster
          (t.disk.fat32.clusterOffset c + 32 * i) 0 t1.disk).2 }) := by
      simp only [onDisk, setFirstCluster_run]
    rw [Cmd.bind_ok hset, Cmd.bind_ok (hdone _ ?_)]
    · rfl
    · rw [Cmd.bind_ok hptr]
      exact hrun2
  · exact ⟨h1.scanned, h1.trimmed.trans h2, by simp⟩

-- ==== scans

/-- The disk under the check is the one at first, but for repairs. -/
structure Under (fix : Bool) (s₀ : State) (t : FsckState) : Prop where
  trimmed : Trimmed s₀ t.disk
  hw : fix = false → t.disk.hw = s₀.hw

theorem Under.checked (h : Under fix s0 t) (hc : Checked fix t t') :
    Under fix s0 t' where
  trimmed := h.trimmed.trans hc.trimmed
  hw hfix := (hc.hw hfix).1.trans (h.hw hfix)

/-- From one state, a command ends with a result and has scanned the clusters
of a list, with FIX perhaps not all of them. -/
structure ScansAt (fix : Bool) (s₀ : State) (deep : Prop) (l : List Nat)
    (m : Cmd FsckState α) (a : α) (t : FsckState) : Prop where
  ok : ¬ deep → ∃ t' l', m t = (some a, t') ∧ Under fix s₀ t' ∧
    (fix = false → t'.written = t.written) ∧
    t'.scanned = t.scanned ++ l' ∧ l'.Sublist l ∧ (fix = false → l' = l)
  err : fix = false → deep → (m t).1 = none

/-- From every state of the check. -/
def Scans (fix : Bool) (s₀ : State) (deep : Prop) (l : List Nat)
    (m : Cmd FsckState α) (a : α) : Prop :=
  ∀ t, Under fix s₀ t → ScansAt fix s₀ deep l m a t

section scansRules

variable {deep deep' : Prop} {l l' : List Nat} {m : Cmd FsckState α}
  {f : α → Cmd FsckState β} {a : α} {b : β}

theorem ScansAt.quiet (h : Under fix s0 t) (hrun : m t = (some a, t'))
    (hc : Checked fix t t') (hno : ¬ deep) :
    ScansAt fix s0 deep [] m a t where
  ok _ := ⟨t', [], hrun, h.checked hc, fun hfix => (hc.hw hfix).2,
    by rw [hc.scanned, List.append_nil], .refl _, fun _ => rfl⟩
  err _ hdeep := absurd hdeep hno

theorem ScansAt.stop (h : Under true s0 t) (hrun : m t = (some a, t'))
    (hc : Checked true t t') : ScansAt true s0 deep l m a t where
  ok _ := ⟨t', [], hrun, h.checked hc, fun hfix => (hc.hw hfix).2,
    by rw [hc.scanned, List.append_nil], List.nil_sublist l,
    fun hfix => nomatch hfix⟩
  err hfix _ := nomatch hfix

theorem ScansAt.scan {c : Nat}
    (h : ScansAt fix s0 deep l m a { t with scanned := t.scanned ++ [c] }) :
    ScansAt fix s0 deep (c :: l) (do
      Cmd.modify fun t => { t with scanned := t.scanned ++ [c] }
      m) a t where
  ok hno := by
    obtain ⟨t', l', hrun, hu, hw, hs, hsub, heq⟩ := h.ok hno
    refine ⟨t', c :: l', hrun, hu, hw, ?_, hsub.cons_cons c,
      fun hfix => by rw [heq hfix]⟩
    rw [hs, List.append_assoc, List.singleton_append]
  err hfix hdeep := h.err hfix hdeep

theorem ScansAt.after (hrun : m t = (some a, t')) (hc : Checked fix t t')
    (h : ScansAt fix s0 deep l (f a) b t') :
    ScansAt fix s0 deep l (m >>= f) b t where
  ok hno := by
    obtain ⟨t2, l', hrun2, hu, hw, hs, hsub, heq⟩ := h.ok hno
    exact ⟨t2, l', (Cmd.bind_ok hrun).trans hrun2, hu,
      fun hfix => (hw hfix).trans (hc.hw hfix).2, by rw [hs, hc.scanned],
      hsub, heq⟩
  err hfix hdeep := by
    rw [Cmd.bind_ok hrun]
    exact h.err hfix hdeep

theorem ScansAt.bind (h : ScansAt fix s0 deep l m a t)
    (h' : Scans fix s0 deep' l' (f a) b) :
    ScansAt fix s0 (deep ∨ deep') (l ++ l') (m >>= f) b t where
  ok hno := by
    obtain ⟨t1, l1, hrun1, hu1, hw1, hs1, hsub1, heq1⟩ :=
      h.ok fun hd => hno (.inl hd)
    obtain ⟨t2, l2, hrun2, hu2, hw2, hs2, hsub2, heq2⟩ :=
      (h' t1 hu1).ok fun hd => hno (.inr hd)
    refine ⟨t2, l1 ++ l2, (Cmd.bind_ok hrun1).trans hrun2, hu2,
      fun hfix => (hw2 hfix).trans (hw1 hfix), ?_, hsub1.append hsub2,
      fun hfix => by rw [heq1 hfix, heq2 hfix]⟩
    rw [hs2, hs1, List.append_assoc]
  err hfix hdeep := by
    by_cases hd : deep
    · cases hm : m t with
      | mk r t1 =>
        have hr := h.err hfix hd
        rw [hm] at hr
        obtain rfl : r = none := hr
        rw [Cmd.bind_err hm]
    · obtain ⟨t1, l1, hrun1, hu1, -⟩ := h.ok hd
      rw [Cmd.bind_ok hrun1]
      exact (h' t1 hu1).err hfix (hdeep.resolve_left hd)

theorem Quiet.scans {m : Cmd FsckState Unit} (h : Quiet fix m) :
    Scans fix s0 False [] m () := by
  intro t hu
  obtain ⟨_, t', hrun, hc⟩ := h t hu.trimmed.placed
  exact .quiet hu hrun hc id

theorem ScansAt.of_run {m' : Cmd FsckState α} (hrun : m t = m' t')
    (hs : t'.scanned = t.scanned) (hw : t'.written = t.written)
    (h : ScansAt fix s0 deep l m' a t') : ScansAt fix s0 deep l m a t where
  ok hno := by
    rw [hrun, ← hs, ← hw]
    exact h.ok hno
  err hfix hdeep := by
    rw [hrun]
    exact h.err hfix hdeep

theorem ScansAt.of_eq (h : ScansAt fix s0 deep l m a t)
    (hd : deep ↔ deep') (hl : l = l') : ScansAt fix s0 deep' l' m a t where
  ok hno := by
    rw [← hl]
    exact h.ok fun hh => hno (hd.mp hh)
  err hfix hh := h.err hfix (hd.mpr hh)

end scansRules

/-- What the disk at first leads to below a directory. -/
abbrev tourOf (s₀ : State) (n d : Nat) : List Nat :=
  Tour.tour s₀.dirClusters s₀.subdirs n d

/-- There is a directory so many levels below another. -/
abbrev DeepOf (s₀ : State) (n d : Nat) : Prop :=
  Tour.Deep s₀.dirClusters s₀.subdirs n d

theorem subdirsFrom_succ (s : State) (c i n : Nat) :
    s.subdirsFrom c i (n + 1)
      = (((s.vol.entry ⟨c, i⟩).subdirectory s.fat32).map
          fun e => ((⟨c, i⟩, e) : DirSlot × Nat)).toList
        ++ s.subdirsFrom c (i + 1) n := by
  unfold State.subdirsFrom
  rw [List.range'_succ]
  cases h : (s.vol.entry ⟨c, i⟩).subdirectory s.fat32 <;>
    simp [h]

theorem scans_entry {scan : Nat → Cmd FsckState Unit} {levels c i : Nat}
    (hscan : ∀ d, s0.fat32.clusterValid d = true →
      Scans fix s0 (DeepOf s0 levels d) (tourOf s0 levels d) (scan d) ())
    (hc : s0.fat32.clusterValid c = true)
    (hi : i < s0.fat32.entriesPerCluster) (hu : Under fix s0 t)
    (hl : t.disk.loaded (s0.fat32.lbaOf c + i / 16) = true) :
    ScansAt fix s0
      (∃ d, (s0.vol.entry ⟨c, i⟩).subdirectory s0.fat32 = some d ∧
        DeepOf s0 levels d)
      (((s0.vol.entry ⟨c, i⟩).subdirectory s0.fat32).toList.flatMap
        fun d => tourOf s0 levels d)
      (scanEntry scan fix c i (s0.fat32.clusterOffset c + 32 * i)
        (t.disk.vol.entry ⟨c, i⟩)) () t := by
  have hp := hu.trimmed.placed
  have hf := hu.trimmed.fat32
  rw [← hu.trimmed.subdirectory ⟨c, i⟩ hc hi]
  -- An entry that leads nowhere is passed.
  have hskip : ∀ {m : Cmd FsckState Unit},
      (t.disk.vol.entry ⟨c, i⟩).subdirectory s0.fat32 = none →
      (∃ t', m t = (some (), t') ∧ Checked fix t t') →
      ScansAt fix s0
        (∃ d, (t.disk.vol.entry ⟨c, i⟩).subdirectory s0.fat32 = some d ∧
          DeepOf s0 levels d)
        (((t.disk.vol.entry ⟨c, i⟩).subdirectory s0.fat32).toList.flatMap
          fun d => tourOf s0 levels d) m () t := by
    intro m hnone hm
    obtain ⟨t', hrun, hch⟩ := hm
    rw [hnone]
    refine ScansAt.quiet hu hrun hch ?_
    rintro ⟨d, hd, -⟩
    cases hd
  have hrefl : Checked fix t t := .refl hp
  have hquiet : ∀ {m : Cmd FsckState Unit}, Quiet fix m →
      ∃ t', m t = (some (), t') ∧ Checked fix t t' := by
    intro m hm
    obtain ⟨a, t', hrun, hch⟩ := hm t hp
    exact ⟨t', hrun, hch⟩
  unfold scanEntry
  refine ScansAt.after (a := t) rfl hrefl ?_
  rw [hf]
  have hdrop : (t.disk.vol.entry ⟨c, i⟩).subdirectory s0.fat32 = none →
      ∀ t1 : FsckState, t1.disk = t.disk → ∀ first,
        ∃ t', dropChain c i (s0.fat32.clusterOffset c + 32 * i) first t1
          = (some (), t') ∧ Checked true t1 t' := by
    intro hsub t1 ht1 first
    rw [← hf, ← ht1] at hsub hc hi hl ⊢
    rw [← ht1] at hp
    exact dropChain_run hp hc hi hl hsub first
  generalize t.disk.vol.entry ⟨c, i⟩ = e at hskip hdrop ⊢
  by_cases hhid : (e.isFree || decide (e.attr = attrLfn) || e.isVolumeId)
      = true
  · rw [if_pos hhid]
    apply hskip _ (hquiet (.pure ()))
    have hvis : e.isVisible = false := by
      rw [Bool.eq_false_iff]
      intro hv
      simp only [Entry.isVisible, Bool.and_eq_true, Bool.not_eq_true',
        decide_eq_true_eq] at hv
      simp [hv.1.1, hv.1.2, hv.2] at hhid
    simp [Entry.subdirectory, hvis]
  rw [if_neg hhid]
  by_cases hdir : isDirectoryAttr e.attr = true
  · rw [if_pos hdir]
    by_cases hdot : e.isDotLike = true
    · rw [if_pos hdot]
      apply hskip _ (hquiet (.pure ()))
      simp [Entry.subdirectory, hdot]
    rw [if_neg hdot]
    by_cases hv : s0.fat32.clusterValid e.firstCluster = true
    · rw [if_neg (by simp [hv])]
      have hvis : e.isVisible = true := by
        simp only [Bool.or_eq_true, decide_eq_true_eq, not_or,
          Bool.not_eq_true] at hhid
        simp [Entry.isVisible, hhid.1.1, hhid.1.2, hhid.2]
      have hsome : e.subdirectory s0.fat32 = some e.firstCluster := by
        simp [Entry.subdirectory, hvis, hdir, hdot, hv]
      rw [hsome]
      refine (hscan _ hv t hu).of_eq ?_ ?_
      · simp
      · simp
    · rw [if_pos (by simpa using hv)]
      apply hskip _ (hquiet (.note _))
      simp [Entry.subdirectory, hv]
  · rw [if_neg hdir]
    have hnone : e.subdirectory s0.fat32 = none := by
      simp [Entry.subdirectory, hdir]
    by_cases hz : e.size = 0
    · rw [if_pos hz]
      apply hskip hnone
      by_cases hfirst : e.firstCluster = 0
      · rw [if_pos hfirst]
        exact hquiet (.pure ())
      · rw [if_neg hfirst]
        cases fix with
        | false => exact hquiet ((Quiet.note _).bind fun _ => .pure ())
        | true =>
          have hnote : Quiet true noteSize := .note _
          obtain ⟨_, t1, hrun1, hc1⟩ := hnote t hp
          have hd1 : t1.disk = t.disk := by
            cases hrun1
            rfl
          obtain ⟨t', hrun', hc'⟩ := hdrop hnone t1 hd1 e.firstCluster
          exact ⟨t', (Cmd.bind_ok hrun1).trans hrun', hc1.trans hc'⟩
    · rw [if_neg hz]
      exact hskip hnone (hquiet (quiet_markChain _ _ _))

theorem scans_entries {scan : Nat → Cmd FsckState Unit} {levels c : Nat}
    (hscan : ∀ d, s0.fat32.clusterValid d = true →
      Scans fix s0 (DeepOf s0 levels d) (tourOf s0 levels d) (scan d) ())
    (hc : s0.fat32.clusterValid c = true) (n i : Nat)
    (hn : i + n ≤ s0.fat32.entriesPerCluster) :
    Scans fix s0 (∃ x ∈ s0.subdirsFrom c i n, DeepOf s0 levels x.2)
      ((s0.subdirsFrom c i n).flatMap fun x => tourOf s0 levels x.2)
      (scanEntries scan fix c n i) true := by
  induction n generalizing i with
  | zero =>
    intro t hu
    apply ScansAt.quiet hu rfl (.refl hu.trimmed.placed)
    intro h
    obtain ⟨x, hx, -⟩ := h
    cases hx
  | succ n ih =>
    intro t hu
    have hi : i < s0.fat32.entriesPerCluster := by omega
    have hp := hu.trimmed.placed
    have hf := hu.trimmed.fat32
    obtain ⟨s', hrun, hr, hl⟩ := hp.dirEntryPtr (c := c) (i := i)
      (by rwa [hf]) (by rwa [hf])
    rw [hf] at hrun hl
    have hch : Checked fix t { t with disk := s' } :=
      ⟨rfl, hr.trimmed hp, fun _ => ⟨hr.hw, rfl⟩⟩
    have hu' := hu.checked hch
    have hentry : entryAt s'.bytes (s0.fat32.clusterOffset c + 32 * i)
        = s'.vol.entry ⟨c, i⟩ := by
      have hf' := hu'.trimmed.fat32
      have h := hu'.trimmed.placed.entryAt_loaded (c := c) (i := i)
        (by rwa [hf']) (by rwa [hf']) (by rw [hf']; exact hl)
      rwa [hf'] at h
    have hrest := ih (i + 1) (by omega)
    have hone := scans_entry hscan hc hi hu' hl
    have hattempt : Cmd.attempt (onDisk (dirEntryPtr c i)) t
        = (some (some (s0.fat32.clusterOffset c + 32 * i,
            s0.fat32.lbaOf c + i / 16)), { t with disk := s' }) := by
      simp only [Cmd.attempt_apply, onDisk, hrun]
    rw [subdirsFrom_succ]
    unfold scanEntries
    refine ScansAt.after hattempt hch ?_
    refine ScansAt.after (a := { t with disk := s' }) rfl
      (.refl hu'.trimmed.placed) ?_
    show ScansAt fix s0 _ _ (scanEntry scan fix c i _
      (entryAt s'.bytes _) >>= fun _ => scanEntries scan fix c n (i + 1)) _ _
    rw [hentry]
    refine (ScansAt.bind hone hrest).of_eq ?_ ?_
    · cases (s0.vol.entry ⟨c, i⟩).subdirectory s0.fat32 <;> simp
    · cases (s0.vol.entry ⟨c, i⟩).subdirectory s0.fat32 <;> simp

/-- What a scan goes on with behind the entries of a cluster. -/
private def scanRest (scan : Nat → Cmd FsckState Unit) (fix : Bool)
    (L : Layout) (guard cluster : Nat) : Cmd FsckState Unit := do
  let link ← Cmd.attempt (onDisk (fatNextCluster cluster))
  match link with
  | none => noteBad
  | some (next, isEoc) =>
    if isEoc then
      pure ()
    else if !L.clusterValid next then do
      noteBad
      cut fix cluster
    else
      scanLoop scan fix guard next

private theorem scans_rest {scan : Nat → Cmd FsckState Unit}
    {c guard : Nat} {deep : Nat → Prop} {l : Nat → List Nat}
    (hc : s0.fat32.clusterValid c = true)
    (hloop : ∀ x, s0.nextOf c = some x →
      Scans fix s0 (deep x) (l x) (scanLoop scan fix guard x) ()) :
    Scans fix s0 (∃ x, s0.nextOf c = some x ∧ deep x)
      ((s0.nextOf c).toList.flatMap l)
      (scanRest scan fix s0.fat32 guard c) () := by
  intro t hu
  have hp := hu.trimmed.placed
  have hf := hu.trimmed.fat32
  have hlt := ((hp.layout.clusterValid_iff c).mp (by rwa [hf])).2
  rw [hf] at hlt
  obtain ⟨s', hrun, hr⟩ := hp.fatReadEntry (c := c) (by rwa [hf])
  have hch : Checked fix t { t with disk := s' } :=
    ⟨rfl, hr.trimmed hp, fun _ => ⟨hr.hw, rfl⟩⟩
  have hu' := hu.checked hch
  -- The chain ends here, in the table or because it was cut.
  have hend : ∀ {m : Cmd FsckState Unit}, Quiet fix m →
      t.disk.nextOf c = none →
      ScansAt fix s0 (∃ x, s0.nextOf c = some x ∧ deep x)
        ((s0.nextOf c).toList.flatMap l) m () { t with disk := s' } := by
    intro m hm hnone
    obtain ⟨_, t', hrun', hc'⟩ := hm _ hu'.trimmed.placed
    cases fix with
    | true => exact .stop hu' hrun' hc'
    | false =>
      have hsame : t.disk.nextOf c = s0.nextOf c := by
        unfold State.nextOf State.link
        rw [hf, hu.hw rfl]
      rw [← hsame, hnone]
      apply ScansAt.quiet hu' hrun' hc'
      intro h
      obtain ⟨x, hx, -⟩ := h
      cases hx
  unfold scanRest
  cases hlink : t.disk.link c with
  | none =>
    have hnone : t.disk.nextOf c = none := by
      rw [State.nextOf, hlink]
      rfl
    have hnext : Cmd.attempt (onDisk (fatNextCluster c)) t
        = (some none, { t with disk := s' }) := by
      rw [hlink] at hrun
      simp only [Cmd.attempt_apply, onDisk, fatNextCluster, Cmd.bind_err hrun]
    exact ScansAt.after hnext hch (hend (.note _) hnone)
  | some x =>
    have hx : low28 x = x := by
      unfold State.link at hlink
      split_ifs at hlink
      cases hlink
      exact low28_low28 _
    have hnext : t.disk.nextOf c
        = if x < eocMin ∧ s0.fat32.clusterValid x = true then some x
          else none := by
      rw [State.nextOf, hlink, hf]
      simp [Option.filter]
    have hread : Cmd.attempt (onDisk (fatNextCluster c)) t
        = (some (some (x, decide (eocMin ≤ x))), { t with disk := s' }) := by
      rw [hlink] at hrun
      simp only [Cmd.attempt_apply, onDisk, fatNextCluster,
        Cmd.bind_ok hrun, Cmd.pure_apply, hx, fatIsEoc]
    refine ScansAt.after hread hch ?_
    show ScansAt fix s0 _ _ (if decide (eocMin ≤ x) = true then _ else _) _ _
    by_cases he : eocMin ≤ x
    · rw [if_pos (decide_eq_true he)]
      apply hend (.pure _)
      rw [hnext, if_neg fun h => Nat.not_lt.mpr he h.1]
    rw [if_neg fun h => he (of_decide_eq_true h)]
    cases hv : s0.fat32.clusterValid x with
    | false =>
      rw [if_pos (by decide)]
      apply hend ((Quiet.note _).bind fun _ => quiet_cut c)
      rw [hnext, if_neg fun h => by simp [hv] at h]
    | true =>
      rw [if_neg (by decide)]
      rw [if_pos ⟨Nat.lt_of_not_le he, hv⟩] at hnext
      have hs0 : s0.nextOf c = some x := by
        rcases hu.trimmed.nextOf hlt with h | h
        · rw [← h, hnext]
        · rw [hnext] at h
          cases h
      rw [hs0]
      refine (hloop x hs0 _ hu').of_eq ?_ ?_
      · simp
      · simp

theorem scans_loop {scan : Nat → Cmd FsckState Unit} {levels : Nat}
    (hscan : ∀ d, s0.fat32.clusterValid d = true →
      Scans fix s0 (DeepOf s0 levels d) (tourOf s0 levels d) (scan d) ())
    (guard c : Nat) (hc : s0.fat32.clusterValid c = true) :
    Scans fix s0
      (∃ c' ∈ s0.linked guard c, ∃ x ∈ s0.subdirs c', DeepOf s0 levels x.2)
      ((s0.linked guard c).flatMap fun c' =>
        c' :: (s0.subdirs c').flatMap fun x => tourOf s0 levels x.2)
      (scanLoop scan fix guard c) () := by
  induction guard generalizing c with
  | zero =>
    intro t hu
    have hquiet : Quiet fix noteLoop := .note _
    obtain ⟨_, t', hrun, hch⟩ := hquiet t hu.trimmed.placed
    refine ScansAt.quiet hu hrun hch ?_
    intro h
    obtain ⟨x, hx, -⟩ := h
    cases hx
  | succ guard ih =>
    intro t hu
    have hf := hu.trimmed.fat32
    have hrest := scans_rest hc fun x hx => ih x (State.nextOf_valid hx).2.2
    have hhere := scans_entries hscan hc s0.fat32.entriesPerCluster 0
      (by omega)
    unfold scanLoop
    refine ScansAt.after (a := t) rfl (.refl hu.trimmed.placed) ?_
    rw [hf, hc, if_neg (by decide)]
    have hall := ScansAt.scan (c := c) (ScansAt.bind
      (f := fun goesOn => if !goesOn then (pure () : Cmd FsckState Unit)
        else scanRest scan fix s0.fat32 guard c)
      (hhere { t with scanned := t.scanned ++ [c] } ⟨hu.trimmed, hu.hw⟩)
      hrest)
    refine hall.of_eq ?_ ?_
    · cases hn : s0.nextOf c <;> simp [State.linked, State.subdirs, hn]
    · cases hn : s0.nextOf c <;> simp [State.linked, State.subdirs, hn]

theorem scans_directory (levels d : Nat)
    (hd : s0.fat32.clusterValid d = true) :
    Scans fix s0 (DeepOf s0 levels d) (tourOf s0 levels d)
      (scanDirectory fix levels d) () := by
  induction levels generalizing d with
  | zero =>
    intro t hu
    exact ⟨fun h => absurd trivial h, fun _ _ => rfl⟩
  | succ levels ih =>
    intro t hu
    obtain ⟨_, t1, hrun, hch⟩ := quiet_markChain d 0 true t hu.trimmed.placed
    have hu1 := hu.checked hch
    unfold scanDirectory
    refine ScansAt.after hrun hch ?_
    refine ScansAt.after (a := t1) rfl (.refl hu1.trimmed.placed) ?_
    rw [hu1.trimmed.fat32]
    exact scans_loop ih s0.fat32.clusterCount d hd t1 hu1

-- ==== the whole check

theorem quiet_checkReserved : Quiet fix checkReserved := by
  refine (Quiet.read (fatReadEntry_reads 0)).bind fun fat0 => ?_
  refine (Quiet.read (fatReadEntry_reads 1)).bind fun fat1 => ?_
  exact .ite (fun _ => .note _) fun _ => .pure ()

theorem quiet_countLoop (n cluster : Nat) :
    Quiet fix (countLoop fix n cluster) := by
  induction n generalizing cluster with
  | zero => exact .pure ()
  | succ n ih =>
    refine (Quiet.read (fatReadEntry_reads cluster)).bind fun value => ?_
    cases value with
    | none => exact (Quiet.note _).bind fun _ => ih _
    | some value =>
      refine .ite (fun _ => ?_) fun _ => ?_
      · exact (Quiet.note _).bind fun _ => ih _
      · refine (Quiet.note _).bind fun _ => .getBind fun t => ?_
        refine .ite (fun _ => ?_) fun _ => ih _
        refine (Quiet.note _).bind fun _ => ?_
        cases fix with
        | false => exact ih _
        | true =>
          refine (quiet_write cluster (.inr rfl)).bind fun _ => ?_
          exact (Quiet.note _).bind fun _ => ih _

end Fsck

end Clks.Disk
