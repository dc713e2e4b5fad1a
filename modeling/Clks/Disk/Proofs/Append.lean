/-
`clks_disk_append`.

A name that is not there and a file that stays empty are left to
`write_all` (`append_unguarded`). Otherwise the chain of the file is
extended and its entry is written over (`append_found`).
-/
import Clks.Disk.Proofs.Write

namespace Clks.Disk

open Bytes Linked

-- ==== the end of a file

/-- The image shows the last sector of a file on these clusters, up to
the file's end. -/
def State.EndShownAt (s : State) (l : List Nat) (oldSize : Nat) : Prop :=
  ∀ pre z, l = pre ++ [z] → s.EndShown z oldSize

section ends

variable {s s' : State} {P : Set Nat}

theorem State.endShownAt_snoc {pre : List Nat} {z oldSize : Nat} :
    s.EndShownAt (pre ++ [z]) oldSize ↔ s.EndShown z oldSize := by
  constructor
  · exact fun h => h pre z rfl
  · intro h pre' z' he
    obtain ⟨-, hz⟩ := List.append_inj' he rfl
    cases hz
    exact h

theorem Reads.endShown (h : s.Ok) (hr : Reads P s s') {z : Nat}
    (hP : ∀ l ∈ s.fat32.clusterSectors z, l ∉ P) (oldSize : Nat) :
    s'.EndShown z oldSize ↔ s.EndShown z oldSize := by
  have hlt := Nat.mod_lt oldSize h.sound.clusterSize_pos
  have hsz := h.sound.size
  have hoff := s.fat32.clusterOffset_eq z
  simp only [sectorSize] at hsz
  simp only [State.EndShown, hr.fat32, hr.hw]
  refine forall_congr' fun k => forall_congr' fun _ =>
    forall_congr' fun hk => ?_
  rw [(hr.untouched _ (hP ((s.fat32.clusterOffset z + k) / 512)
    ⟨by omega, by omega⟩)).2 _ rfl]

end ends

-- ==== the guards

/-- The guards of `append` behind which it extends a chain. -/
structure AppendGuard (s : State) (path : List UInt8) (data : Option Mem)
    (size : Nat) (lookup : PathLookup) : Prop where
  path : resolvePath s.toEnv s.vol path = some lookup
  found : lookup.found = true
  file : isDirectoryAttr lookup.info.attr = false
  data : 0 < size → data.isSome = true
  pos : lookup.info.size + size ≠ 0
  max : lookup.info.size + size ≤ 0xFFFFFFFF

/-- What `append` does behind its guards. -/
def appendRest (lookup : PathLookup) (data : Option Mem) (size : Nat) :
    Cmd State Unit := do
  let firstCluster ←
    appendFileChain lookup.info.firstCluster lookup.info.size data size
  writeDirEntry lookup.slot
    (buildDirEntry lookup.sfn attrArchive firstCluster
      (lookup.info.size + size))

section specs

variable {s : State} {G : Ghost}

theorem append_run (h : s.Holds G) (path : List UInt8)
    (data : Option Mem) (size : Nat) :
    (∃ s', append path data size s = (none, s') ∧
      Reads (G.dirSectors s.fat32) s s' ∧
      ∀ lookup, ¬ AppendGuard s path data size lookup) ∨
    (∃ lookup s1, AppendGuard s path data size lookup ∧
      append path data size s = appendRest lookup data size s1 ∧
      Reads (G.dirSectors s.fat32) s s1) ∨
    (∃ lookup d s1, resolvePath s.toEnv s.vol path = some lookup ∧
      append path data size s = writeAll path d size s1 ∧
      Reads (G.dirSectors s.fat32) s s1 ∧
      (lookup.found = false ∧ d = data ∨
        lookup.found = true ∧ isDirectoryAttr lookup.info.attr = false ∧
          lookup.info.size = 0 ∧ size = 0)) := by
  rw [append]
  have hrun := relativeOf_run h.ok path
  -- A guard that fails ends the call; what it needs is false then.
  cases hrel : pathToRelative s.toEnv path with
  | none =>
    rw [hrel] at hrun
    refine .inl ⟨s, Cmd.bind_err hrun, Reads.refl _ s, fun lookup hg => ?_⟩
    have hp := hg.path
    simp [resolvePath, hrel] at hp
  | some relative =>
    rw [hrel] at hrun
    rw [Cmd.bind_ok hrun]
    by_cases hne : relative = []
    · refine .inl ⟨s, Cmd.require_bind_err (by simp [hne]), Reads.refl _ s,
        fun lookup hg => ?_⟩
      have hp := hg.path
      simp [resolvePath, hrel, hne] at hp
    rw [Cmd.require_bind (by simpa using hne)]
    by_cases hnd : (!(decide (0 < size) && data.isNone)) = true
    swap
    · rw [Bool.not_eq_true] at hnd
      refine .inl ⟨s, Cmd.require_bind_err hnd, Reads.refl _ s,
        fun lookup hg => ?_⟩
      simp only [Bool.not_eq_false', Bool.and_eq_true,
        decide_eq_true_eq] at hnd
      obtain ⟨d, rfl⟩ := Option.isSome_iff_exists.mp (hg.data hnd.1)
      cases hnd.2
    rw [Cmd.require_bind hnd]
    obtain ⟨s1, hrun1, hr1⟩ := lookupPath_run h hrel hne
    cases hres : resolvePath s.toEnv s.vol path with
    | none =>
      rw [hres] at hrun1
      refine .inl ⟨s1, Cmd.bind_err hrun1, hr1, fun lookup hg => ?_⟩
      cases hres.symm.trans hg.path
    | some lookup =>
      rw [hres] at hrun1
      rw [Cmd.bind_ok hrun1]
      by_cases hf : lookup.found = true
      swap
      · rw [Bool.not_eq_true] at hf
        refine .inr (.inr ⟨lookup, data, s1, rfl, ?_, hr1, .inl ⟨hf, rfl⟩⟩)
        simp only [hf, Bool.not_false, if_true]
      simp only [hf, Bool.not_true, Bool.false_eq_true, if_false]
      by_cases hdir : isDirectoryAttr lookup.info.attr = true
      · refine .inl ⟨s1, Cmd.require_bind_err (by simp [hdir]), hr1,
          fun lookup' hg => ?_⟩
        cases hres.symm.trans hg.path
        exact absurd (hdir.symm.trans hg.file) (by simp)
      rw [Bool.not_eq_true] at hdir
      rw [Cmd.require_bind (by simp [hdir])]
      -- The size of an entry is a 32-bit number.
      obtain ⟨-, hinfo, -, -⟩ := h.resolvePath_found hres hf
      have hold : lookup.info.size < 2 ^ 32 := by
        rw [hinfo]
        exact readU32_lt _ _
      by_cases hwrap : lookup.info.size ≤ 2 ^ 64 - 1 - size
      swap
      · refine .inl ⟨s1, Cmd.require_bind_err (decide_eq_false hwrap), hr1,
          fun lookup' hg => ?_⟩
        cases hres.symm.trans hg.path
        have := hg.max
        omega
      rw [Cmd.require_bind (decide_eq_true hwrap)]
      by_cases hz : lookup.info.size + size = 0
      · have hsz : size = 0 := by omega
        refine .inr (.inr ⟨lookup, some fun _ => 0, s1, rfl, ?_, hr1,
          .inr ⟨hf, hdir, by omega, hsz⟩⟩)
        rw [if_pos hz, hsz]
      simp only [if_neg hz]
      by_cases hmax : lookup.info.size + size ≤ 0xFFFFFFFF
      swap
      · refine .inl ⟨s1, Cmd.require_bind_err (decide_eq_false hmax), hr1,
          fun lookup' hg => ?_⟩
        cases hres.symm.trans hg.path
        exact hmax hg.max
      rw [Cmd.require_bind (decide_eq_true hmax)]
      refine .inr (.inl ⟨lookup, s1, ⟨hres, hf, hdir, fun hpos => ?_, hz,
        hmax⟩, rfl, hr1⟩)
      cases data with
      | none => simp [hpos] at hnd
      | some d => rfl

-- ==== extending a chain

/-- An append that fails behind its guards has found too few free clusters. -/
structure AppendFails (s s' : State) (G : Ghost) (X : DirSlot)
    (data : Mem) (oldSize size : Nat) : Prop where
  moves : Moves s s'
  empty : G.own (.entry X) = [] → s'.vol = s.vol
  full : ∀ pre z, G.own (.entry X) = pre ++ [z] →
    ∃ s₁ first l', Steps s s₁ (s.toppedUp z oldSize data size) ∧
      Grows s₁ s' data size first (pre ++ [z]) l'
        (min size (s.fat32.slack oldSize)) ∧
      l'.length < s.fat32.clustersFor
        (size - min size (s.fat32.slack oldSize)) ∧
      s'.vol.freeSet s.fat32 = ∅

private theorem appendEntry_run {s1 : State} (h : s.Holds G)
    {lookup : PathLookup} {l : List Nat} {first oldSize size : Nat}
    (hin : G.InDirs s.fat32 lookup.slot)
    (hk : s.vol.kind lookup.slot = .node false first oldSize)
    (hsfn : lookup.sfn = (s.vol.entry lookup.slot).name) (hm : Moves s s1)
    (hown : Owned s.fat32.marks s1.vol.fat
      (G.setOwn (.entry lookup.slot) l).own)
    (hdata : ∀ o c, o ≠ .entry lookup.slot → o ≠ .pending → c ∈ G.own o →
      s1.vol.data c = s.vol.data c)
    (hlen : l.length = s.fat32.clustersFor size) (hz : size < 2 ^ 32) :
    ∃ s', writeDirEntry lookup.slot
        (buildDirEntry lookup.sfn attrArchive (l.headD 0) size) s1
        = (some (), s') ∧
      Rewrites s s' G lookup.slot l
        (buildDirEntry lookup.sfn attrArchive (l.headD 0) size)
        (s1.vol.content s.fat32 l size) := by
  have hlt := h.ok.sound.headD_lt hown (.entry lookup.slot)
  rw [G.setOwn_self] at hlt
  obtain ⟨⟨o, hdo, hco⟩, hi⟩ := hin
  have hcv := (h.ok.sound.ok_iff _).mp (h.tree.owned.ok_of_mem hco)
  obtain ⟨s2, hrun, hst, -⟩ := writeDirEntry_run (hm.ok h.ok) _
    (buildDirEntry lookup.sfn attrArchive (l.headD 0) size)
    (by rw [hm.fat32]; exact hcv) (by rw [hm.fat32]; exact hi)
  exact ⟨s2, hrun, rewrites_of_setEntry h ⟨⟨o, hdo, hco⟩, hi⟩ hk hm hst hown
    hdata (by rw [hsfn]; exact Vol.rewrite_kind hk hlt hz)
    (fun k hk => buildDirEntry_tail hk) hlen⟩

private theorem appendRest_zero (h : s.Holds G) {lookup : PathLookup}
    {data : Option Mem} {first oldSize : Nat}
    (hin : G.InDirs s.fat32 lookup.slot)
    (hk : s.vol.kind lookup.slot = .node false first oldSize)
    (hinfo : lookup.info.firstCluster = first ∧ lookup.info.size = oldSize)
    (hsfn : lookup.sfn = (s.vol.entry lookup.slot).name)
    (hz : oldSize < 2 ^ 32) :
    ∃ s', appendRest lookup data 0 s = (some (), s') ∧
      Rewrites s s' G lookup.slot (G.own (.entry lookup.slot))
        (buildDirEntry lookup.sfn attrArchive
          ((G.own (.entry lookup.slot)).headD 0) oldSize)
        (s.vol.content s.fat32 (G.own (.entry lookup.slot)) oldSize) := by
  obtain ⟨rfl, rfl⟩ := hinfo
  have hf := h.tree.first _ _ _ _ hin hk
  have hown : Owned s.fat32.marks s.vol.fat
      (G.setOwn (.entry lookup.slot) (G.own (.entry lookup.slot))).own := by
    simp only [Ghost.setOwn, Function.update_eq_self]
    exact h.tree.owned
  obtain ⟨s', hrun, hrw⟩ := appendEntry_run h hin hk hsfn (.refl s) hown
    (fun _ _ _ _ _ => rfl) (h.tree.file_len _ _ _ hin hk) hz
  refine ⟨s', ?_, hrw⟩
  have hchain : appendFileChain lookup.info.firstCluster lookup.info.size
      data 0 s = (some lookup.info.firstCluster, s) := rfl
  rw [appendRest, Cmd.bind_ok hchain, hf, Nat.add_zero]
  exact hrun

theorem Vol.freeSet_card_le (L : Layout) (v : Vol) :
    (v.freeSet L).card ≤ L.clusterCount := by
  have hsub : v.freeSet L ⊆ Finset.Ico 2 (L.clusterCount + 2) := by
    intro c hc
    obtain ⟨h1, h2, -⟩ := Vol.mem_freeSet.mp hc
    exact Finset.mem_Ico.mpr ⟨h2, h1⟩
  refine (Finset.card_le_card hsub).trans ?_
  rw [Nat.card_Ico]
  omega

theorem appendFileChain_empty (h : s.Ok) {oldSize size : Nat} (data : Mem)
    (hpos : 0 < size) (hwrap : size + s.fat32.clusterSizeBytes - 1 < 2 ^ 64) :
    (∃ l s', appendFileChain 0 oldSize (some data) size s
        = (some (l.headD 0), s') ∧
      Grows s s' data size (l.headD 0) [] l 0 ∧
      l.length = s.fat32.clustersFor size) ∨
    (∃ s', appendFileChain 0 oldSize (some data) size s = (none, s') ∧
      Steps s s' s.vol ∧
      (s.vol.freeSet s.fat32).card < s.fat32.clustersFor size) := by
  have hcs := h.sound.clusterSize_pos
  have hinv : (!s.fat32.clusterValid 0) = true := by
    simp [Layout.clusterValid]
  have hneed : 0 < s.fat32.clustersFor size := by
    rw [Nat.pos_iff_ne_zero, Ne, Layout.clustersFor_eq_zero hcs]
    omega
  rw [appendFileChain, Cmd.get_bind_apply]
  simp only [if_neg (Nat.pos_iff_ne_zero.mp hpos)]
  rw [Cmd.require_bind (decide_eq_true (Nat.pos_iff_ne_zero.mp hcs)),
    if_pos hinv, needClusters_eq hwrap]
  by_cases hfit : s.fat32.clustersFor size ≤ s.fat32.clusterCount
  swap
  · have hcard := s.vol.freeSet_card_le s.fat32
    exact .inr ⟨s, Cmd.require_bind_err (by simp [hfit]),
      .of_reads (.refl ∅ s), by omega⟩
  rw [Cmd.require_bind (by simp [hfit]; omega)]
  rcases allocFilled_run h data hpos with
    ⟨l, s1, s2, hrun1, hrun2, hg, hlen, -⟩ | ⟨s1, hrun1, hst, hlt⟩
  · refine .inl ⟨l, s2, ?_, hg, hlen⟩
    rw [Cmd.bind_ok hrun1, Cmd.bind_ok hrun2, Cmd.pure_apply]
  · exact .inr ⟨s1, Cmd.bind_err hrun1, hst, hlt⟩

private theorem appendRest_empty (h : s.Holds G) {lookup : PathLookup}
    {data : Mem} {size first oldSize : Nat}
    (hin : G.InDirs s.fat32 lookup.slot)
    (hk : s.vol.kind lookup.slot = .node false first oldSize)
    (hinfo : lookup.info.firstCluster = first ∧ lookup.info.size = oldSize)
    (hsfn : lookup.sfn = (s.vol.entry lookup.slot).name)
    (hempty : G.own (.entry lookup.slot) = []) (hpos : 0 < size)
    (hmax : oldSize + size < 2 ^ 32) :
    oldSize = 0 ∧
    ((∃ l s', appendRest lookup (some data) size s = (some (), s') ∧
      Rewrites s s' G lookup.slot l
        (buildDirEntry lookup.sfn attrArchive (l.headD 0) size)
        (bufferBytes data size)) ∨
    (∃ s', appendRest lookup (some data) size s = (none, s') ∧
      Steps s s' s.vol)) := by
  have hs := h.ok.sound
  have hcs := hs.clusterSize_pos
  have hf := h.tree.first _ _ _ _ hin hk
  have hlen := h.tree.file_len _ _ _ hin hk
  rw [hempty] at hf hlen
  obtain rfl := (Layout.clustersFor_eq_zero hcs).mp hlen.symm
  rw [hf, List.headD_nil] at hinfo
  refine ⟨rfl, ?_⟩
  have hwrap : size + s.fat32.clusterSizeBytes - 1 < 2 ^ 64 := by
    have h1 := hs.size
    have h2 := hs.fits
    have h3 := h.ok.total_le
    have h4 : s.fat32.sectorsPerCluster
        ≤ s.fat32.clusterCount * s.fat32.sectorsPerCluster :=
      Nat.le_mul_of_pos_left _ (by
        have := hs.root_lt
        have := hs.root_ge
        omega)
    simp only [cacheMaxSectors, sectorSize] at h1 h3
    omega
  rw [appendRest, hinfo.1, hinfo.2, Nat.zero_add]
  rcases appendFileChain_empty h.ok data hpos hwrap with
    ⟨l, s1, hrun, hg, hlen⟩ | ⟨s1, hrun, hst, -⟩
  · left
    have hown := Grows.owned G.own (o := .entry lookup.slot)
      (by rwa [hempty]) h.tree.owned
    rw [hempty, List.nil_append] at hown
    obtain ⟨s2, hrun2, hrw⟩ := appendEntry_run h hin hk hsfn hg.moves
      (l := l) hown (fun o c ho hop hc => by
        rw [hg.data, Vol.filled_data_out fun hcl => h.tree.notMem_freeSet hc
          (hg.free c hcl)]) hlen (by omega)
    refine ⟨l, s2, by rw [Cmd.bind_ok hrun, hrun2], ?_⟩
    rwa [hg.content h.ok hlen] at hrw
  · exact .inr ⟨s1, Cmd.bind_err hrun, hst⟩

private theorem appendRest_chain (h : s.Holds G) {lookup : PathLookup}
    {data : Mem} {size first oldSize z : Nat} {pre : List Nat}
    (hin : G.InDirs s.fat32 lookup.slot)
    (hk : s.vol.kind lookup.slot = .node false first oldSize)
    (hinfo : lookup.info.firstCluster = first ∧ lookup.info.size = oldSize)
    (hsfn : lookup.sfn = (s.vol.entry lookup.slot).name)
    (hl : G.own (.entry lookup.slot) = pre ++ [z]) (hpos : 0 < size)
    (hmax : oldSize + size < 2 ^ 32) :
    (∃ l' bytes s', appendRest lookup (some data) size s = (some (), s') ∧
      Rewrites s s' G lookup.slot (pre ++ [z] ++ l')
        (buildDirEntry lookup.sfn attrArchive
          ((pre ++ [z] ++ l').headD 0) (oldSize + size)) bytes ∧
      (bytes = s.vol.content s.fat32 (pre ++ [z]) oldSize
          ++ bufferBytes data size ↔ s.EndShown z oldSize)) ∨
    (∃ s', appendRest lookup (some data) size s = (none, s') ∧
      AppendFails s s' G lookup.slot data oldSize size) := by
  have hcs := h.ok.sound.clusterSize_pos
  have hf := h.tree.first _ _ _ _ hin hk
  have hlen := h.tree.file_len _ _ _ hin hk
  obtain ⟨c, hchain⟩ := (h.tree.owned.chain (.entry lookup.slot)).resolve_left
    (by rw [hl]; simp)
  rw [hl] at hf hlen hchain
  obtain ⟨t, ht⟩ := hchain.eq_cons
  have hc : c = first := by
    rw [hf, ht, List.headD_cons]
  rw [hc] at hchain ht
  obtain ⟨r, l', s1, s2, hrun, hst, hg, hout⟩ :=
    appendFileChain_run h.ok oldSize data hchain hpos
  have hm := hst.moves.trans hg.moves
  rw [appendRest, hinfo.1, hinfo.2]
  rcases hout with ⟨rfl, hlen'⟩ | ⟨rfl, hlt, he⟩
  · left
    have hgo := Grows.owned G.own (s := s1)
      (o := .entry lookup.slot) (by rwa [hl])
      (by rw [hst.fat32, hst.vol, State.toppedUp_fat]; exact h.tree.owned)
    rw [hst.fat32, hl] at hgo
    have hdata : ∀ o c, o ≠ .entry lookup.slot → o ≠ .pending →
        c ∈ G.own o → s2.vol.data c = s.vol.data c := by
      intro o c ho _ hco
      have hcl : c ∉ l' := fun hin => by
        have hfree := hg.free c hin
        rw [hst.fat32, hst.vol, Vol.freeSet_congr
          (State.toppedUp_fat _ _ _ _ _)] at hfree
        exact h.tree.notMem_freeSet hco hfree
      have hcz : c ≠ z := by
        rintro rfl
        refine ho (h.tree.dir_unique hco (c := c) ?_)
        rw [hl]
        simp
      rw [hg.data, Vol.filled_data_out hcl, hst.vol,
        State.toppedUp_data_ne _ _ _ _ hcz]
    have hnew : (pre ++ [z] ++ l').length
        = s.fat32.clustersFor (oldSize + size) := by
      rw [Layout.clustersFor_add hcs, List.length_append, hlen, hlen']
    obtain ⟨s3, hrun3, hrw⟩ := appendEntry_run h hin hk hsfn hm
      (l := pre ++ [z] ++ l') hgo hdata hnew hmax
    have hhead : (pre ++ [z] ++ l').headD 0 = first := by
      rw [ht, List.cons_append, List.headD_cons]
    refine ⟨l', _, s3, ?_, hrw, ?_⟩
    · rw [hhead] at hrun3
      rw [Cmd.bind_ok hrun, hrun3]
    · refine append_content_iff h.ok hst hg ?_ hlen' hpos
      rwa [List.length_append, List.length_singleton] at hlen
  · refine .inr ⟨s2, Cmd.bind_err hrun, hm, fun hn => ?_,
      fun pre' z' he' => ?_⟩
    · rw [hl] at hn
      exact absurd hn (by simp)
    · rw [hl] at he'
      obtain ⟨rfl, hz⟩ := List.append_inj' he' rfl
      cases hz
      exact ⟨s1, first, l', hst, hg, hlt, he⟩

-- ==== the operation

theorem State.Holds.notMem_dirSectors (h : s.Holds G) {X : DirSlot}
    {first size z : Nat} (hk : s.vol.kind X = .node false first size)
    (hz : z ∈ G.own (.entry X)) :
    ∀ l ∈ s.fat32.clusterSectors z, l ∉ G.dirSectors s.fat32 := by
  have hs := h.ok.sound
  rintro l ⟨h1, h2⟩ (hl | ⟨o, c, ho, hc, h3, h4⟩)
  · have h3 : l < s.fat32.dataLba := hl
    have h4 := s.fat32.data_le_clusterOffset z
    have h5 := s.fat32.clusterOffset_eq z
    omega
  · have hzv := (h.tree.owned.ok_of_mem hz).1
    have hcv := (h.tree.owned.ok_of_mem hc).1
    rcases Nat.lt_trichotomy c z with hlt | rfl | hlt
    · have := s.fat32.lbaOf_disjoint hcv hlt
      omega
    · rw [h.tree.dir_unique hc hz] at ho
      exact h.tree.file_not_dir hk ho
    · have := s.fat32.lbaOf_disjoint hzv hlt
      omega

theorem append_found (h : s.Holds G) {path : List UInt8}
    {data : Option Mem} {size : Nat} {lookup : PathLookup}
    (hg : AppendGuard s path data size lookup) :
    (∃ l' bytes s', append path data size s = (some (), s') ∧
      Rewrites s s' G lookup.slot (G.own (.entry lookup.slot) ++ l')
        (buildDirEntry lookup.sfn attrArchive
          ((G.own (.entry lookup.slot) ++ l').headD 0)
          (lookup.info.size + size)) bytes ∧
      (bytes = s.vol.content s.fat32 (G.own (.entry lookup.slot))
          lookup.info.size ++ bufferBytes (dataOf data) size ↔
        size = 0 ∨
          s.EndShownAt (G.own (.entry lookup.slot)) lookup.info.size)) ∨
    (∃ s', append path data size s = (none, s') ∧ 0 < size ∧
      AppendFails s s' G lookup.slot (dataOf data) lookup.info.size
        size) := by
  -- The guards lead to the step that extends the chain.
  obtain ⟨s1, hrun, hr⟩ : ∃ s1, append path data size s
      = appendRest lookup data size s1 ∧
        Reads (G.dirSectors s.fat32) s s1 := by
    rcases append_run h path data size with
      ⟨_, -, -, hno⟩ | ⟨lookup', s1, hg', hrun, hr⟩ |
      ⟨lookup', _, _, hres, -, -, hor⟩
    · exact absurd hg (hno lookup)
    · cases hg.path.symm.trans hg'.path
      exact ⟨s1, hrun, hr⟩
    · cases hg.path.symm.trans hres
      rcases hor with ⟨hf, -⟩ | ⟨-, -, h1, h2⟩
      · exact absurd (hf.symm.trans hg.found) (by simp)
      · exact absurd (by rw [h1, h2]) hg.pos
  obtain ⟨hin, -, hsfn, hk⟩ := h.resolvePath_found hg.path hg.found
  rw [hg.file] at hk
  have h1 := hr.holds h
  have hin1 : G.InDirs s1.fat32 lookup.slot := by rwa [hr.fat32]
  have hk1 := hk
  have hsfn1 := hsfn
  rw [← hr.vol] at hk1 hsfn1
  have hmax := hg.max
  rw [hrun]
  by_cases hz : size = 0
  · subst hz
    left
    obtain ⟨s', hrun', hrw⟩ := appendRest_zero h1 hin1 hk1
      ⟨rfl, rfl⟩ hsfn1 (by omega)
    have hrw := hrw.of_reads hr
    rw [hr.vol, hr.fat32] at hrw
    refine ⟨[], s.vol.content s.fat32 (G.own (.entry lookup.slot))
      lookup.info.size, s', hrun', ?_, by simp [bufferBytes]⟩
    rwa [List.append_nil, Nat.add_zero]
  have hpos : 0 < size := Nat.pos_of_ne_zero hz
  obtain ⟨d, rfl⟩ := Option.isSome_iff_exists.mp (hg.data hpos)
  simp only [hz, false_or, dataOf, Option.getD_some]
  rcases List.eq_nil_or_concat (G.own (.entry lookup.slot)) with
    hl | ⟨pre, z, hl⟩
  · obtain ⟨h0, hor⟩ := appendRest_empty h1 hin1 hk1 ⟨rfl, rfl⟩
      hsfn1 hl hpos (by omega)
    rcases hor with ⟨l, s', hrun', hrw⟩ | ⟨s', hrun', hst⟩
    · refine .inl ⟨l, bufferBytes d size, s', hrun', ?_, ?_⟩
      · rw [hl, List.nil_append, h0, Nat.zero_add]
        exact hrw.of_reads hr
      · rw [hl, h0]
        refine iff_of_true (by simp [Vol.content]) ?_
        intro pre z he
        exact absurd he (by simp)
    · refine .inr ⟨s', hrun', hpos, hr.moves.trans hst.moves, fun _ => ?_,
        fun pre z he => ?_⟩
      · rw [hst.vol, hr.vol]
      · rw [hl] at he
        exact absurd he (by simp)
  · rw [List.concat_eq_append] at hl
    have hz : z ∈ G.own (.entry lookup.slot) := by
      rw [hl]
      simp
    have hP := h.notMem_dirSectors hk hz
    rcases appendRest_chain h1 hin1 hk1 ⟨rfl, rfl⟩ hsfn1 hl
        hpos (by omega) with
      ⟨l', bytes, s', hrun', hrw, hiff⟩ | ⟨s', hrun', hfail⟩
    · refine .inl ⟨l', bytes, s', hrun', ?_, ?_⟩
      · rw [hl]
        exact hrw.of_reads hr
      · rw [hr.vol, hr.fat32, hr.endShown h.ok hP] at hiff
        rw [hl, State.endShownAt_snoc]
        exact hiff
    · refine .inr ⟨s', hrun', hpos, hr.moves.trans hfail.moves,
        fun he => ?_, fun pre' z' he => ?_⟩
      · rw [hl] at he
        exact absurd he (by simp)
      · obtain ⟨s2, first, l', hst, hgr, hlt, hempty⟩ :=
          hfail.full pre' z' he
        rw [hl] at he
        obtain ⟨rfl, hzz⟩ := List.append_inj' he rfl
        cases hzz
        rw [hr.toppedUp h.ok hP] at hst
        rw [hr.fat32] at hgr hlt hempty
        exact ⟨s2, first, l', ⟨hr.moves.trans hst.moves, hst.vol⟩, hgr, hlt,
          hempty⟩

end specs

end Clks.Disk
