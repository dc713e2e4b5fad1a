/-
Reading a file again (disk/file_chain.inc, disk/cache_io.inc).

As long as the driver only reads, sectors are loaded and nothing that is
loaded changes (`Later`). A chain that was read has all its sectors
loaded, those of the table included, so whoever reads it later gets the
same bytes. That needs nothing of the volume: neither a sound layout nor
an image that agrees with the hardware.
-/
import Clks.Disk.Volume
import Clks.Disk.Api

namespace Clks.Disk

-- ==== only reads

/-- What holds of a later state when the driver only read: no sector that
is loaded changed, and none at all when no hardware is behind. -/
structure Later (s t : State) : Prop where
  env : t.toEnv = s.toEnv
  loaded : ∀ l, s.loaded l = true → t.loaded l = true
  bytes : ∀ i, s.hwBacked = false ∨ s.loaded (i / sectorSize) = true →
    t.bytes i = s.bytes i

section later

variable {s t u : State}

theorem Later.refl (s : State) : Later s s :=
  ⟨rfl, fun _ => id, fun _ _ => rfl⟩

theorem Later.trans (h : Later s t) (h' : Later t u) : Later s u where
  env := h'.env.trans h.env
  loaded l hl := h'.loaded l (h.loaded l hl)
  bytes i hi := by
    have hi' : t.hwBacked = false ∨ t.loaded (i / sectorSize) = true := by
      rcases hi with hi | hi
      · exact .inl (by rw [h.env]; exact hi)
      · exact .inr (h.loaded _ hi)
    exact (h'.bytes i hi').trans (h.bytes i hi)

instance : IsPreorder State Later where
  refl := Later.refl
  trans _ _ _ := Later.trans

theorem Later.fat32 (h : Later s t) : t.fat32 = s.fat32 :=
  congrArg Env.fat32 h.env

theorem Later.bytesRangeValid (h : Later s t) :
    t.bytesRangeValid = s.bytesRangeValid := by
  have hlen : t.bytesLen = s.bytesLen := congrArg Env.bytesLen h.env
  funext offset size
  simp only [State.bytesRangeValid, hlen]

theorem loadSector_later (hw : s.hwBacked = true) {lba : Nat}
    (hl : s.loaded lba = false) : Later s (s.loadSector lba) where
  env := rfl
  loaded l h := by simp [State.loadSector, h]
  bytes i hi := by
    have hne : i / sectorSize ≠ lba := by
      rintro rfl
      rcases hi with hi | hi
      · rw [hw] at hi
        cases hi
      · rw [hl] at hi
        cases hi
    simp only [sectorSize] at hne
    simp only [State.loadSector, sectorSize]
    exact Bytes.blit_out (by omega)

theorem loadLoop_later (hw : s.hwBacked = true) (n lba : Nat) :
    Later s (State.loadLoop n lba s) := by
  induction n generalizing lba s with
  | zero => exact .refl s
  | succ n ih =>
    cases hl : s.loaded lba with
    | true =>
      have hstep : State.loadLoop (n + 1) lba s
          = State.loadLoop n (lba + 1) s := by
        simp [State.loadLoop, hl]
      rw [hstep]
      exact ih hw (lba + 1)
    | false =>
      have hstep : State.loadLoop (n + 1) lba s
          = State.loadLoop n (lba + 1) (s.loadSector lba) := by
        simp [State.loadLoop, hl]
      rw [hstep]
      exact (loadSector_later hw hl).trans
        (ih (s := s.loadSector lba) hw (lba + 1))

end later

-- ==== the readers

section readers

open Cmd

theorem ensureLoadedRange_keeps (offset size : Nat) :
    Keeps Later (ensureLoadedRange offset size) := by
  intro s
  unfold ensureLoadedRange
  rw [get_bind_apply]
  split
  · exact .refl s
  · cases hv : s.bytesRangeValid offset size with
    | false =>
      rw [require_bind_err rfl]
      exact .refl s
    | true =>
      rw [require_bind rfl]
      split
      · next hw => exact loadLoop_later hw _ _
      · exact .refl s

theorem clusterLba_keeps (cluster : Nat) :
    Keeps Later (clusterLba cluster) :=
  .getBind fun _ => .bind (.require _) fun _ => .bind (.require _) fun _ =>
    .bind (.require _) fun _ => .pure _

theorem clusterFirstByteOffset_keeps (cluster : Nat) :
    Keeps Later (clusterFirstByteOffset cluster) :=
  .bind (clusterLba_keeps cluster) fun _ => .pure _

theorem fatReadEntry_keeps (cluster : Nat) :
    Keeps Later (fatReadEntry cluster) :=
  .getBind fun _ => .bind (.require _) fun _ => .bind (.require _) fun _ =>
    .bind (.require _) fun _ => .bind (.require _) fun _ =>
      .bind (ensureLoadedRange_keeps _ _) fun _ => .getBind fun _ => .pure _

theorem fatNextCluster_keeps (cluster : Nat) :
    Keeps Later (fatNextCluster cluster) :=
  .bind (fatReadEntry_keeps cluster) fun _ => .pure _

theorem readChainLoop_keeps (guard cluster size : Nat) :
    Keeps Later (readChainLoop guard cluster size) := by
  induction guard generalizing cluster size with
  | zero => exact .fail
  | succ guard ih =>
    refine .getBind fun s => .bind (.require _) fun _ =>
      .bind (clusterFirstByteOffset_keeps _) fun _ => .bind (.require _) fun _ =>
      .bind (ensureLoadedRange_keeps _ _) fun _ => .getBind fun _ =>
      .ite (.pure _) ?_
    exact .bind (fatNextCluster_keeps _) fun _ => .bind (.require _) fun _ =>
      .bind (.require _) fun _ => .bind (ih _ _) fun _ => .pure _

theorem readFileChain_keeps (firstCluster size : Nat) :
    Keeps Later (readFileChain firstCluster size) :=
  .getBind fun _ => .ite (.pure _)
    (.bind (.require _) fun _ => readChainLoop_keeps _ _ _)

theorem dirEntryRead_keeps (cluster entryIndex : Nat) :
    Keeps Later (dirEntryRead cluster entryIndex) := by
  refine .bind (.bind (clusterLba_keeps _) fun _ => .getBind fun _ =>
    .bind (.require _) fun _ => .bind (.require _) fun _ =>
    .bind (ensureLoadedRange_keeps _ _) fun _ => .pure _) fun _ => ?_
  exact .getBind fun _ => .pure _

theorem dirFindEntries_keeps (component : List UInt8)
    (targetSfn : Option Sfn) (cluster n entryIndex : Nat) (st : LfnState) :
    Keeps Later
      (dirFindEntries component targetSfn cluster n entryIndex st) := by
  induction n generalizing entryIndex st with
  | zero => exact .pure _
  | succ n ih =>
    exact .bind (dirEntryRead_keeps _ _) fun e => .ite (ih _ _)
      (.ite (ih _ _) (.ite (ih _ _) (.ite (.pure _) (ih _ _))))

theorem dirFindLoop_keeps (component : List UInt8)
    (targetSfn : Option Sfn) (guard cluster : Nat) (st : LfnState) :
    Keeps Later (dirFindLoop component targetSfn guard cluster st) := by
  induction guard generalizing cluster st with
  | zero => exact .fail
  | succ guard ih =>
    refine .getBind fun s => .bind (.require _) fun _ =>
      .bind (dirFindEntries_keeps _ _ _ _ _ _) fun r => ?_
    obtain ⟨found, st⟩ := r
    cases found with
    | some f => exact .pure _
    | none =>
      exact .bind (fatNextCluster_keeps _) fun _ =>
        .ite (.pure _) (.bind (.require _) fun _ => ih _ _)

theorem lookupLoop_keeps (n : Nat) (rest : List UInt8) (currentDir : Nat) :
    Keeps Later (lookupLoop n rest currentDir) := by
  induction n generalizing rest currentDir with
  | zero => exact .fail
  | succ n ih =>
    unfold lookupLoop
    split
    · exact .fail
    · next component rest last _ =>
      refine .bind (.getBind fun _ => dirFindLoop_keeps _ _ _ _ _)
        fun found => .ite ?_ ?_
      · cases found with
        | some f => exact .pure _
        | none =>
          dsimp only
          split
          · exact .fail
          · exact .pure _
      · cases found with
        | none => exact .fail
        | some f =>
          exact .bind (.require _) fun _ => .getBind fun _ =>
            .bind (.require _) fun _ => ih _ _

theorem lookupRelativePath_keeps (relativePath : List UInt8) :
    Keeps Later (lookupRelativePath relativePath) :=
  .getBind fun _ => .ite (.pure _) (lookupLoop_keeps _ _ _)

theorem relativeOf_keeps (path : List UInt8) :
    Keeps Later (relativeOf path) := by
  refine .getBind fun s => ?_
  split
  · exact .fail
  · exact .bind (.require _) fun _ => .pure _

end readers

-- ==== read again

section again

open Cmd

variable {s t s' : State} {β : Type}

theorem ensureLoadedRange_repeats (offset size : Nat) :
    Repeats Later (ensureLoadedRange offset size) where
  keeps := ensureLoadedRange_keeps offset size
  again s t ht := by
    have hlater := (ensureLoadedRange_keeps offset size s).trans ht
    have hw : t.hwBacked = s.hwBacked := congrArg Env.hwBacked hlater.env
    unfold ensureLoadedRange
    rw [get_bind_apply, get_bind_apply, hlater.bytesRangeValid, hw]
    split
    · rfl
    · cases s.bytesRangeValid offset size with
      | false => rfl
      | true =>
        rw [require_bind rfl, require_bind rfl]
        split <;> rfl

theorem ensureLoadedRange_shown {offset size : Nat} {r : Unit}
    (hrun : ensureLoadedRange offset size s = (some r, s')) {i : Nat}
    (h1 : offset ≤ i) (h2 : i < offset + size) :
    s'.hwBacked = false ∨ s'.loaded (i / sectorSize) = true := by
  have hz : size ≠ 0 := by omega
  unfold ensureLoadedRange at hrun
  rw [get_bind_apply, if_neg hz] at hrun
  obtain ⟨-, hrun⟩ := require_ok_inv hrun
  split at hrun
  · right
    cases hrun
    refine State.loadLoop_loaded s ?_ ?_
    · simp only [sectorSize]
      omega
    · simp only [sectorSize]
      omega
  · next hw =>
    left
    cases hrun
    simpa using hw

theorem repeats_loaded {offset size : Nat} {k : State → Cmd State β}
    (hk : ∀ s, Repeats Later (k s))
    (hsame : ∀ s t, Later s t →
      (∀ i, offset ≤ i → i < offset + size → t.bytes i = s.bytes i) →
      k t = k s) :
    Repeats Later
      (ensureLoadedRange offset size >>= fun _ => get >>= k) where
  keeps := .bind (ensureLoadedRange_keeps _ _) fun _ =>
    .getBind fun s => (hk s).keeps
  again s t ht := by
    have hbody : Keeps Later (get >>= k) := .getBind fun s => (hk s).keeps
    have hensure := (ensureLoadedRange_repeats offset size).again s t
    have hend := ensureLoadedRange_keeps offset size t
    cases hs : ensureLoadedRange offset size s with
    | mk r s' =>
      rw [hs] at hensure
      cases r with
      | none =>
        rw [bind_err hs] at ht ⊢
        have hrun : ensureLoadedRange offset size t
            = (none, (ensureLoadedRange offset size t).2) :=
          Prod.ext (hensure ht) rfl
        rw [bind_err hrun]
      | some r =>
        rw [bind_ok hs] at ht ⊢
        have hlater : Later s' t := (hbody s').trans ht
        have hrun : ensureLoadedRange offset size t
            = (some r, (ensureLoadedRange offset size t).2) :=
          Prod.ext (hensure hlater) rfl
        rw [bind_ok hrun]
        show (k _ _).1 = (k s' s').1
        rw [hsame s' _ (hlater.trans hend) fun i h1 h2 =>
          (hlater.trans hend).bytes i (ensureLoadedRange_shown hs h1 h2)]
        exact (hk s').again s' _ (ht.trans hend)

theorem clusterLba_repeats (cluster : Nat) :
    Repeats Later (clusterLba cluster) := by
  refine .getBind (fun s => .bind (.require _) fun _ =>
    .bind (.require _) fun _ => .bind (.require _) fun _ => .pure _) ?_
  intro s t h
  have hn : t.sectorTotal = s.sectorTotal := congrArg Env.sectorTotal h.env
  simp only [h.fat32, hn]

theorem clusterFirstByteOffset_repeats (cluster : Nat) :
    Repeats Later (clusterFirstByteOffset cluster) :=
  .bind (clusterLba_repeats cluster) fun _ => .pure _

theorem fatReadEntry_repeats (cluster : Nat) :
    Repeats Later (fatReadEntry cluster) := by
  refine .getBind (fun s => .bind (.require _) fun _ =>
    .bind (.require _) fun _ => .bind (.require _) fun _ =>
    .bind (.require _) fun _ => ?_) ?_
  · refine repeats_loaded (fun _ => .pure _) fun s t _ hbytes => ?_
    rw [Bytes.readU32_congr fun k hk => hbytes _ (by omega) (by omega)]
  · intro s t h
    simp only [h.fat32, h.bytesRangeValid]

theorem fatNextCluster_repeats (cluster : Nat) :
    Repeats Later (fatNextCluster cluster) :=
  .bind (fatReadEntry_repeats cluster) fun _ => .pure _

theorem readBytes_congr {m m' : Bytes.Mem} {offset size : Nat}
    (h : ∀ i, offset ≤ i → i < offset + size → m' i = m i) :
    readBytes m' offset size = readBytes m offset size := by
  unfold readBytes
  refine List.map_congr_left fun k hk => ?_
  have hlt : k < size := List.mem_range.mp hk
  exact h _ (by omega) (by omega)

theorem readChainLoop_repeats (guard cluster size : Nat) :
    Repeats Later (readChainLoop guard cluster size) := by
  induction guard generalizing cluster size with
  | zero => exact .fail
  | succ guard ih =>
    refine .getBind (fun s => .bind (.require _) fun _ =>
      .bind (clusterFirstByteOffset_repeats _) fun _ =>
      .bind (.require _) fun _ => ?_) ?_
    · refine repeats_loaded (fun s' => .ite (.pure _) ?_) ?_
      · exact .bind (fatNextCluster_repeats _) fun _ =>
          .bind (.require _) fun _ => .bind (.require _) fun _ =>
          .bind (ih _ _) fun _ => .pure _
      · intro s t h hbytes
        simp only [h.fat32, readBytes_congr hbytes]
    · intro s t h
      simp only [h.fat32, h.bytesRangeValid]

theorem readFileChain_repeats (firstCluster size : Nat) :
    Repeats Later (readFileChain firstCluster size) := by
  refine .getBind (fun s => .ite (.pure _)
    (.bind (.require _) fun _ => readChainLoop_repeats _ _ _)) ?_
  intro s t h
  simp only [h.fat32]

end again

end Clks.Disk
