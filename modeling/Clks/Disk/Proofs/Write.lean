/-
`clks_disk_write_all`.

The operation replaces a file or creates one. Its guards come first and
change nothing (`writeAll_refused`); what follows depends on whether the
path names a file already.
-/
import Clks.Disk.Proofs.Update

namespace Clks.Disk

open Bytes Linked

-- ==== chains and owners

section owners

variable {s s' : State} {own : Owner → List Nat}

theorem Grows.owned (own : Owner → List Nat) {data : Mem} {size first off : Nat} {l' : List Nat}
    {o : Owner} (hg : Grows s s' data size first (own o) l' off)
    (h : Owned s.fat32.marks s.vol.fat own) :
    Owned s.fat32.marks s'.vol.fat
      (Function.update own o (own o ++ l')) := by
  refine h.replace o _ (fun a ha ha' => ?_) ?_ (fun a ha hna => ?_)
    (fun a ha ha' => ?_)
  · exact hg.links a ha fun hin => ha' (List.mem_append_right _ hin)
  · by_cases hn : own o ++ l' = []
    · exact .inl hn
    · exact .inr ⟨first, hg.chain hn⟩
  · rcases List.mem_append.mp ha with ha | ha
    · exact absurd ha hna
    · exact (Vol.mem_freeSet.mp (hg.free a ha)).2.2
  · exact absurd (List.mem_append_left _ ha) ha'

theorem released_owned {L : Layout} {v : Vol} (o : Owner)
    (h : Owned L.marks v.fat own) :
    Owned L.marks (v.released (own o)).fat (Function.update own o []) := by
  refine h.replace o [] (fun a ha _ => ?_) (.inl rfl) (by simp)
    (fun a ha _ => ?_)
  · simp [Vol.released, ha]
  · simp only [Vol.released, if_pos ha]
    rfl

theorem Grows.released {data : Mem} {size first off : Nat}
    {l : List Nat} (hg : Grows s s' data size first [] l off) :
    s.vol.Same s.fat32 (s'.vol.released l) where
  fat := by
    funext c
    simp only [Vol.released]
    split_ifs with hc
    · exact (Vol.mem_freeSet.mp (hg.free c hc)).2.2.symm
    · exact hg.links c (by simp) hc
  data c hc := by
    have hcl : c ∉ l := fun hin => hc (hg.free c hin)
    show s'.vol.data c = _
    rw [hg.data, Vol.filled_data_out hcl]

end owners

-- ==== the contents

section specs

variable {s : State} {G : Ghost}

/-- The bytes of a buffer that may be missing. -/
abbrev dataOf (data : Option Mem) : Mem := data.getD fun _ => 0

theorem allocFilled_run (h : s.Ok) (data : Mem) {size : Nat}
    (hz : 0 < size) :
    (∃ l s1 s', allocChain (s.fat32.clustersFor size) s
        = (some (l.headD 0), s1) ∧
      writeFileChain (l.headD 0) (some data) size s1 = (some (), s') ∧
      Grows s s' data size (l.headD 0) [] l 0 ∧
      l.length = s.fat32.clustersFor size ∧
      s.fat32.clustersFor size ≤ (s.vol.freeSet s.fat32).card) ∨
    (∃ s', allocChain (s.fat32.clustersFor size) s = (none, s') ∧
      Steps s s' s.vol ∧
      (s.vol.freeSet s.fat32).card < s.fat32.clustersFor size) := by
  have hpos : 0 < s.fat32.clustersFor size := by
    rw [Nat.pos_iff_ne_zero, Ne,
      Layout.clustersFor_eq_zero h.sound.clusterSize_pos]
    omega
  rcases allocChain_run h hpos with
    ⟨first, l, s1, hrun1, ht, hlen, hle⟩ | ⟨s1, hrun1, hst, hlt⟩
  · have hf1 := ht.moves.fat32
    obtain ⟨s2, hrun2, hst2⟩ := writeFileChain_run (ht.moves.ok h) data
      (c := first) (l := l)
      (by rw [hf1]; exact ht.chain) hz (by rw [hf1, hlen])
    rw [hf1] at hst2
    have hhead : l.headD 0 = first := by
      obtain ⟨t, ht'⟩ := ht.chain.eq_cons
      rw [ht', List.headD_cons]
    rw [← hhead] at hrun1 hrun2
    refine .inl ⟨l, s1, s2, hrun1, hrun2, ?_, hlen, hle⟩
    rw [hhead]
    exact ht.grows hst2
  · exact .inr ⟨s1, hrun1, hst, hlt⟩

theorem allocContents_run (h : s.Ok) {data : Option Mem} {size : Nat}
    (hd : 0 < size → data.isSome = true) :
    (∃ l s', allocContents data size (s.fat32.clustersFor size) s
        = (some (l.headD 0), s') ∧
      Grows s s' (dataOf data) size (l.headD 0) [] l 0 ∧
      l.length = s.fat32.clustersFor size ∧
      s.fat32.clustersFor size ≤ (s.vol.freeSet s.fat32).card) ∨
    (∃ s', allocContents data size (s.fat32.clustersFor size) s
        = (none, s') ∧ Steps s s' s.vol ∧
      (s.vol.freeSet s.fat32).card < s.fat32.clustersFor size) := by
  have hcs := h.sound.clusterSize_pos
  rw [allocContents]
  by_cases hz : size = 0
  · subst hz
    rw [Layout.clustersFor_zero hcs]
    exact .inl ⟨[], s, rfl, .refl (by simp), rfl, Nat.zero_le _⟩
  have hpos : 0 < s.fat32.clustersFor size := by
    rw [Nat.pos_iff_ne_zero, Ne, Layout.clustersFor_eq_zero hcs]
    exact hz
  obtain ⟨d, rfl⟩ := Option.isSome_iff_exists.mp
    (hd (Nat.pos_of_ne_zero hz))
  rw [if_pos hpos]
  rcases allocFilled_run h d (Nat.pos_of_ne_zero hz) with
    ⟨l, s1, s2, hrun1, hrun2, hg, hlen, hle⟩ | ⟨s1, hrun1, hst, hlt⟩
  · refine .inl ⟨l, s2, ?_, hg, hlen, hle⟩
    rw [Cmd.bind_ok hrun1, Cmd.bind_ok (Cmd.orCleanup_ok hrun2),
      Cmd.pure_apply]
  · exact .inr ⟨s1, Cmd.bind_err hrun1, hst, hlt⟩

theorem Grows.content {s' : State} {data : Mem} {size first : Nat}
    {l : List Nat} (h : s.Ok) (hg : Grows s s' data size first [] l 0)
    (hlen : l.length = s.fat32.clustersFor size) :
    s'.vol.content s.fat32 l size = bufferBytes data size := by
  have hcs := h.sound.clusterSize_pos
  have hnd : l.Nodup := by
    by_cases hl : l = []
    · simp [hl]
    · exact (hg.chain (by simpa using hl)).nodup
  have hle : size ≤ l.length * s.fat32.clusterSizeBytes := by
    rw [hlen]
    exact Layout.le_clustersFor hcs _
  have hfill := Vol.filled_buffer (v := s.vol) data hnd hle
  rw [← hfill]
  exact Vol.content_congr fun c _ => by rw [hg.data]

-- ==== the guards

theorem State.Ok.size_bounds (h : s.Ok) {size : Nat}
    (hle : s.fat32.clustersFor size ≤ s.fat32.clusterCount) :
    size < 2 ^ 32 ∧ size + s.fat32.clusterSizeBytes - 1 < 2 ^ 64 := by
  have hs := h.sound
  have hcs := hs.clusterSize_pos
  have hfit := hs.fits
  have htot := h.total_le
  have hsz := hs.size
  have hroot := hs.root_lt
  have hroot' := hs.root_ge
  have h1 := Layout.le_clustersFor hcs size
  have h2 : s.fat32.clustersFor size * s.fat32.clusterSizeBytes
      ≤ s.fat32.clusterCount * s.fat32.clusterSizeBytes :=
    Nat.mul_le_mul_right _ hle
  have h3 : s.fat32.clusterCount * s.fat32.clusterSizeBytes
      = s.fat32.clusterCount * s.fat32.sectorsPerCluster * 512 := by
    rw [hsz, Nat.mul_assoc]
  have h4 : s.fat32.sectorsPerCluster
      ≤ s.fat32.clusterCount * s.fat32.sectorsPerCluster :=
    Nat.le_mul_of_pos_left _ (by omega)
  simp only [cacheMaxSectors, sectorSize] at htot hsz
  omega

theorem State.Ok.needed_iff (h : s.Ok) {size : Nat} (hsize : size < 2 ^ 64) :
    (!(decide (0 < size) &&
      (decide ((if 0 < size then
          needClusters size s.fat32.clusterSizeBytes else 0) = 0) ||
        decide (s.fat32.clusterCount < if 0 < size then
          needClusters size s.fat32.clusterSizeBytes else 0)))) = true ↔
      s.fat32.clustersFor size ≤ s.fat32.clusterCount := by
  have hcs := h.sound.clusterSize_pos
  by_cases hz : size = 0
  · subst hz
    simp [Layout.clustersFor_zero hcs]
  have hpos : 0 < size := Nat.pos_of_ne_zero hz
  simp only [if_pos hpos, decide_eq_true hpos, Bool.true_and,
    Bool.not_eq_true', Bool.or_eq_false_iff, decide_eq_false_iff_not,
    Nat.not_lt]
  by_cases hwrap : size + s.fat32.clusterSizeBytes - 1 < 2 ^ 64
  · rw [needClusters_eq hwrap]
    have hne : s.fat32.clustersFor size ≠ 0 := by
      rwa [Ne, Layout.clustersFor_eq_zero hcs]
    exact and_iff_right hne
  · -- The sum wraps around to less than a cluster.
    have hbig : ¬ s.fat32.clustersFor size ≤ s.fat32.clusterCount :=
      fun hle => hwrap (h.size_bounds hle).2
    refine iff_of_false (fun hh => hh.1 ?_) hbig
    rw [needClusters]
    refine Nat.div_eq_of_lt ?_
    have hmod : (size + s.fat32.clusterSizeBytes - 1) % 2 ^ 64
        ≤ size + s.fat32.clusterSizeBytes - 1 - 2 ^ 64 := by
      rw [Nat.mod_eq_sub_mod (Nat.le_of_not_lt hwrap)]
      exact Nat.mod_le _ _
    omega

/-- The guards of `write_all`: the path names a file or a place for one,
and the buffer is there and could fit. -/
structure WriteGuard (s : State) (path : List UInt8) (data : Option Mem)
    (size : Nat) (lookup : PathLookup) : Prop where
  path : resolvePath s.toEnv s.vol path = some lookup
  file : lookup.found = true → isDirectoryAttr lookup.info.attr = false
  data : 0 < size → data.isSome = true
  fits : s.fat32.clustersFor size ≤ s.fat32.clusterCount

/-- What `write_all` goes on to do behind its guards. -/
def writeRest (relative : List UInt8) (lookup : PathLookup)
    (data : Option Mem) (size needed : Nat) : Cmd State Unit := do
  if (if lookup.found then lookup.info.firstCluster else invalidCluster)
      ≠ invalidCluster then
    freeChain
      (if lookup.found then lookup.info.firstCluster else invalidCluster)
  writeContents relative lookup data size needed

theorem Tree.head_valid {L : Layout} {total : Nat} {v : Vol}
    (hs : L.Sound total) (h : Tree L v.fat v.kind G) {o : Owner} {c : Nat}
    (hc : (G.own o).head? = some c) : L.clusterValid c = true :=
  (hs.ok_iff c).mp (h.chain_of_head? hc).head_ok

theorem writeAll_guarded (h : s.Holds G) {path : List UInt8}
    {data : Option Mem} {size : Nat} {lookup : PathLookup}
    (hsize : size < 2 ^ 64) (hg : WriteGuard s path data size lookup) :
    ∃ relative s1, pathToRelative s.toEnv path = some relative ∧
      writeAll path data size s
        = writeRest relative lookup data size (s.fat32.clustersFor size) s1 ∧
      Reads (G.dirSectors s.fat32) s s1 := by
  obtain ⟨relative, pre, c, o, hrel, hne, -, -, -, -, ho, hh, -⟩ :=
    h.resolvePath_some hg.path
  obtain ⟨s1, hrun1, hr1⟩ := lookupPath_run h hrel hne
  rw [hg.path] at hrun1
  have hrun := relativeOf_run h.ok path
  rw [hrel] at hrun
  have hpar := h.tree.head_valid h.ok.sound hh
  have hneed : (if 0 < size then
      needClusters size s.fat32.clusterSizeBytes else 0)
      = s.fat32.clustersFor size := by
    by_cases hz : size = 0
    · subst hz
      rw [if_neg (by omega),
        Layout.clustersFor_zero h.ok.sound.clusterSize_pos]
    · rw [if_pos (Nat.pos_of_ne_zero hz),
        needClusters_eq (h.ok.size_bounds hg.fits).2]
  have hnd : (!(decide (0 < size) && data.isNone)) = true := by
    by_cases hz : 0 < size
    · obtain ⟨d, rfl⟩ := Option.isSome_iff_exists.mp (hg.data hz)
      simp
    · simp [hz]
  have hdir : (!(lookup.found && isDirectoryAttr lookup.info.attr)) = true := by
    cases hf : lookup.found with
    | false => rfl
    | true => rw [hg.file hf]; rfl
  refine ⟨relative, s1, hrel, ?_, hr1⟩
  rw [writeAll, Cmd.bind_ok hrun, Cmd.require_bind (by simpa using hne),
    Cmd.require_bind hnd, Cmd.bind_ok hrun1, Cmd.require_bind hdir,
    Cmd.get_bind_apply, hr1.fat32,
    Cmd.require_bind (by rw [hpar, Bool.or_true])]
  simp only []
  rw [Cmd.require_bind ((h.ok.needed_iff hsize).mpr hg.fits), hneed]
  rfl

theorem writeAll_refused (h : s.Holds G) {path : List UInt8}
    {data : Option Mem} {size : Nat} (hsize : size < 2 ^ 64)
    (hg : ∀ lookup, ¬ WriteGuard s path data size lookup) :
    ∃ s' P, writeAll path data size s = (none, s') ∧ Reads P s s' := by
  rw [writeAll]
  have hrun := relativeOf_run h.ok path
  cases hrel : pathToRelative s.toEnv path with
  | none =>
    rw [hrel] at hrun
    exact ⟨s, ∅, Cmd.bind_err hrun, .refl ∅ s⟩
  | some relative =>
    rw [hrel] at hrun
    rw [Cmd.bind_ok hrun]
    by_cases hne : relative = []
    · exact ⟨s, ∅, Cmd.require_bind_err (by simp [hne]), .refl ∅ s⟩
    rw [Cmd.require_bind (by simpa using hne)]
    by_cases hnd : (!(decide (0 < size) && data.isNone)) = true
    swap
    · rw [Bool.not_eq_true] at hnd
      exact ⟨s, ∅, Cmd.require_bind_err hnd, .refl ∅ s⟩
    rw [Cmd.require_bind hnd]
    obtain ⟨s1, hrun1, hr1⟩ := lookupPath_run h hrel hne
    cases hres : resolvePath s.toEnv s.vol path with
    | none =>
      rw [hres] at hrun1
      exact ⟨s1, _, Cmd.bind_err hrun1, hr1⟩
    | some lookup =>
      rw [hres] at hrun1
      rw [Cmd.bind_ok hrun1]
      by_cases hdir : (!(lookup.found && isDirectoryAttr lookup.info.attr))
          = true
      swap
      · rw [Bool.not_eq_true] at hdir
        exact ⟨s1, _, Cmd.require_bind_err hdir, hr1⟩
      obtain ⟨_, _, _, o, -, -, -, -, -, -, -, hh, -⟩ :=
        h.resolvePath_some hres
      have hpar := h.tree.head_valid h.ok.sound hh
      rw [Cmd.require_bind hdir, Cmd.get_bind_apply, hr1.fat32,
        Cmd.require_bind (by rw [hpar, Bool.or_true])]
      simp only []
      by_cases hfit : s.fat32.clustersFor size ≤ s.fat32.clusterCount
      · refine absurd ⟨hres, fun hf => ?_, fun hz => ?_, hfit⟩ (hg lookup)
        · simpa [hf] using hdir
        · cases data with
          | none => simp [hz] at hnd
          | some d => rfl
      · refine ⟨s1, _, Cmd.require_bind_err ?_, hr1⟩
        rw [← Bool.not_eq_true, h.ok.needed_iff hsize]
        exact hfit

-- ==== replacing a file

/-- An operation wrote over the entry of a file and gave it another
chain; the directories are as they were otherwise. -/
structure Rewrites (s s' : State) (G : Ghost) (X : DirSlot) (l : List Nat)
    (e : Entry) (bytes : List UInt8) : Prop where
  moves : Moves s s'
  holds : s'.Holds (G.setOwn (.entry X) l)
  entry : s'.vol.entry X = e
  entries : ∀ slot, G.InDirs s.fat32 slot → slot ≠ X →
    s'.vol.entry slot = s.vol.entry slot
  updates : s.vol.Updates s.fat32 s'.vol X (some bytes)

theorem rewrites_of_setEntry {s1 s' : State} (h : s.Holds G) {X : DirSlot}
    {l : List Nat} {e : Entry} {first size oldSize : Nat}
    (hin : G.InDirs s.fat32 X)
    (hk : s.vol.kind X = .node false first oldSize)
    (hm : Moves s s1) (hst : Steps s1 s' (s1.vol.setEntry X e))
    (hown : Owned s.fat32.marks s1.vol.fat (G.setOwn (.entry X) l).own)
    (hdata : ∀ o c, o ≠ .entry X → o ≠ .pending → c ∈ G.own o →
      s1.vol.data c = s.vol.data c)
    (he : e.kind = .node false (l.headD 0) size)
    (htail : ∀ k, 32 ≤ k → e k = 0)
    (hlen : l.length = s.fat32.clustersFor size) :
    Rewrites s s' G X l e (s1.vol.content s.fat32 l size) := by
  have hs := h.ok.sound
  have hnd := h.tree.file_not_dir hk
  have hdo : ∀ o, G.dir o → o ≠ .entry X ∧ o ≠ .pending := by
    intro o hd
    exact ⟨fun he => hnd (he ▸ hd), fun he => h.tree.pending_not_dir (he ▸ hd)⟩
  have hdirs : ∀ o c, G.dir o → c ∈ G.own o →
      s1.vol.data c = s.vol.data c :=
    fun o c hd hc => hdata o c (hdo o hd).1 (hdo o hd).2 hc
  have ho : ∀ o, o ≠ .entry X → o ≠ .pending →
      (G.setOwn (.entry X) l).own o = G.own o := fun o hX _ => G.setOwn_ne l hX
  have htree := h.tree.setFile (G.setOwn (.entry X) l) (w := s1.vol)
    (e := e) hin (.inr ⟨_, _, hk⟩)
    (by rwa [G.setOwn_self]) htail (by rwa [G.setOwn_self]) hdirs rfl rfl
    ho hown
  -- The directory's cluster is not one of the file's.
  have hout : X.cluster ∉ (G.setOwn (.entry X) l).own (.entry X) := by
    intro hc
    obtain ⟨⟨o, hd, hco⟩, -⟩ := hin
    rw [← ho o (hdo o hd).1 (hdo o hd).2] at hco
    exact (hdo o hd).1 (hown.owner_unique hco hc)
  have hf : s'.fat32 = s.fat32 := hst.fat32.trans hm.fat32
  refine ⟨hm.trans hst.moves, ⟨(hm.trans hst.moves).ok h.ok, ?_, ?_⟩, ?_,
    ?_, ?_⟩
  · rw [hf, hst.vol]
    exact htree
  · rw [G.setOwn_ne l (by simp)]
    exact h.idle
  · rw [hst.vol, Vol.setEntry_entry_self htail]
  · intro slot hi hne
    rw [hst.vol, Vol.setEntry_entry_ne hne]
    obtain ⟨⟨o, hd, hc⟩, -⟩ := hi
    exact Vol.entry_congr (hdirs o _ hd hc)
  · rw [hst.vol]
    have hup := h.tree.setFile_updates (G.setOwn (.entry X) l) hs hin
      he htail hdata rfl ho hnd htree hout
    rwa [G.setOwn_self] at hup

theorem Vol.rewrite_kind {v : Vol} {X : DirSlot}
    {first oldSize size c : Nat}
    (hk : v.kind X = .node false first oldSize) (hc : c < 2 ^ 32)
    (hz : size < 2 ^ 32) :
    (buildDirEntry (v.entry X).name attrArchive c size).kind
      = .node false c size := by
  obtain ⟨hv, hd, -⟩ := Entry.kind_node hk
  rw [buildDirEntry_kind_rename hv hd hc, Nat.mod_eq_of_lt hz]

theorem freeHead_run (h : s.Ok) {l : List Nat}
    (hl : l = [] ∨ ∃ c, s.vol.Chain s.fat32 c l) :
    ∃ s', (if l.headD 0 ≠ invalidCluster then freeChain (l.headD 0)
        else pure () : Cmd State Unit) s = (some (), s') ∧
      Steps s s' (s.vol.released l) := by
  rcases hl with rfl | ⟨c, hc⟩
  · refine ⟨s, rfl, Moves.refl s, ?_⟩
    refine Vol.ext (funext fun c => ?_) rfl
    simp [Vol.released]
  · obtain ⟨t, rfl⟩ := hc.eq_cons
    obtain ⟨s', hrun, hst⟩ := freeChain_run h hc
    have hne : c ≠ invalidCluster := by
      have := hc.head_ok.1
      show c ≠ 0
      omega
    exact ⟨s', by rwa [List.headD_cons, if_pos hne], hst⟩

theorem freeOld_run (h : s.Holds G) {X : DirSlot} {first oldSize : Nat}
    (hin : G.InDirs s.fat32 X)
    (hk : s.vol.kind X = .node false first oldSize) :
    ∃ s', Steps s s' (s.vol.released (G.own (.entry X))) ∧
      ∀ k : Cmd State Unit, (do
        if first ≠ invalidCluster then
          freeChain first
        k : Cmd State Unit) s = k s' := by
  obtain ⟨s', hrun, hst⟩ := freeHead_run h.ok (h.tree.owned.chain (.entry X))
  rw [← h.tree.first _ _ _ _ hin hk] at hrun
  refine ⟨s', hst, fun k => ?_⟩
  rw [← Cmd.bind_ok (f := fun _ => k) hrun]
  by_cases hne : first ≠ invalidCluster
  · simp only [if_pos hne]
  · simp only [if_neg hne]
    rfl

theorem writeRest_found (h : s.Holds G) {lookup : PathLookup}
    {relative : List UInt8} {data : Option Mem} {size first oldSize : Nat}
    (hf : lookup.found = true) (hin : G.InDirs s.fat32 lookup.slot)
    (hk : s.vol.kind lookup.slot = .node false first oldSize)
    (hfirst : lookup.info.firstCluster = first)
    (hsfn : lookup.sfn = (s.vol.entry lookup.slot).name)
    (hd : 0 < size → data.isSome = true)
    (hfit : s.fat32.clustersFor size ≤ s.fat32.clusterCount) :
    (∃ l s', writeRest relative lookup data size
        (s.fat32.clustersFor size) s = (some (), s') ∧
      Rewrites s s' G lookup.slot l
        (buildDirEntry lookup.sfn attrArchive (l.headD 0) size)
        (bufferBytes (dataOf data) size) ∧
      s.fat32.clustersFor size
        ≤ ((s.vol.released (G.own (.entry lookup.slot))).freeSet
          s.fat32).card) ∨
    (∃ s', writeRest relative lookup data size
        (s.fat32.clustersFor size) s = (none, s') ∧
      Steps s s' (s.vol.released (G.own (.entry lookup.slot))) ∧
      ((s.vol.released (G.own (.entry lookup.slot))).freeSet s.fat32).card
        < s.fat32.clustersFor size) := by
  set X := lookup.slot with hX
  have hz := (h.ok.size_bounds hfit).1
  obtain ⟨s1, hst1, hrun1⟩ := freeOld_run h hin hk
  have h1 := hst1.ok h.ok
  have hf1 := hst1.fat32
  have hhead : writeRest relative lookup data size
      (s.fat32.clustersFor size) s = writeContents relative lookup data size
        (s.fat32.clustersFor size) s1 := by
    rw [writeRest]
    simp only [hf, if_true, hfirst]
    exact hrun1 _
  rw [hhead, writeContents]
  rcases allocContents_run h1 hd with
    ⟨l, s2, hrun2, hg, hlen, hle⟩ | ⟨s2, hrun2, hst2, hlt⟩
  · left
    rw [hf1] at hrun2 hlen hle
    rw [hst1.vol] at hle
    rw [Cmd.bind_ok hrun2]
    simp only [hf, if_true]
    have hf2 : s2.fat32 = s.fat32 := hg.fat32.trans hf1
    have h2 := hg.moves.ok h1
    obtain ⟨⟨o, hdo, hco⟩, hi⟩ := hin
    have hcv := (h.ok.sound.ok_iff _).mp (h.tree.owned.ok_of_mem hco)
    obtain ⟨s3, hrun3, hst3, -⟩ := writeDirEntry_run h2 _
      (buildDirEntry lookup.sfn attrArchive (l.headD 0) (size % 2 ^ 32))
      (by rw [hf2]; exact hcv) (by rw [hf2]; exact hi)
    rw [Nat.mod_eq_of_lt hz] at hst3
    have hown : Owned s.fat32.marks s2.vol.fat
        (G.setOwn (.entry X) l).own := by
      have hrel := released_owned (.entry X) h.tree.owned
      have hgo := Grows.owned (Function.update G.own (.entry X) []) (s := s1)
        (o := .entry X)
        (by rwa [Function.update_self])
        (by rw [hf1, hst1.vol]; exact hrel)
      rw [Function.update_self, List.nil_append, Function.update_idem,
        hf1] at hgo
      exact hgo
    have hdata : ∀ o' c, o' ≠ .entry X → o' ≠ .pending → c ∈ G.own o' →
        s2.vol.data c = s.vol.data c := by
      intro o' c ho' _ hc
      -- The new chain took free clusters, which this owner's are not.
      have hcl : c ∉ l := by
        intro hin
        have hc' : c ∈ (G.setOwn (.entry X) l).own o' := by
          rwa [G.setOwn_ne l ho']
        refine ho' (hown.owner_unique hc' (j := .entry X) ?_)
        rwa [G.setOwn_self]
      rw [hg.data, Vol.filled_data_out hcl, hst1.vol]
      rfl
    have hlt := h.ok.sound.headD_lt hown (.entry X)
    rw [G.setOwn_self] at hlt
    have hrw := rewrites_of_setEntry h (l := l)
      ⟨⟨o, hdo, hco⟩, hi⟩ hk (hst1.moves.trans hg.moves) hst3 hown hdata
      (by rw [hsfn]; exact Vol.rewrite_kind hk hlt hz)
      (fun k hk => buildDirEntry_tail hk) hlen
    refine ⟨l, s3, Cmd.orCleanup_ok hrun3, ?_, hle⟩
    have hcont := hg.content h1 (by rw [hf1]; exact hlen)
    rw [hf1] at hcont
    rwa [hcont] at hrw
  · right
    rw [hf1] at hrun2 hlt
    rw [hst1.vol] at hlt hst2
    exact ⟨s2, Cmd.bind_err hrun2, hst1.trans hst2, hlt⟩

-- ==== creating an entry

theorem State.Holds.pending {s' : State} (h : s.Holds G) {l : List Nat}
    (hm : Moves s s')
    (hown : Owned s.fat32.marks s'.vol.fat (G.setOwn .pending l).own)
    (hdata : ∀ c, c ∉ l → s'.vol.data c = s.vol.data c) :
    Tree s'.fat32 s'.vol.fat s'.vol.kind (G.setOwn .pending l) ∧
      ∀ o c, c ∈ G.own o → s'.vol.data c = s.vol.data c := by
  have hold : ∀ o c, c ∈ G.own o → s'.vol.data c = s.vol.data c := by
    intro o c hc
    refine hdata c fun hcl => ?_
    have hne : o ≠ .pending := by
      rintro rfl
      rw [h.idle] at hc
      cases hc
    refine hne (hown.owner_unique (a := c) ?_ ?_)
    · rwa [G.setOwn_ne l hne]
    · rwa [G.setOwn_self]
  refine ⟨?_, hold⟩
  rw [hm.fat32]
  refine (h.tree.pending hown).congr fun X hX => ?_
  exact Ghost.kind_congr (fun o c _ hc => hold o c hc) X
    ((h.tree.pending_inDirs l X).mp hX)

/-- An operation entered a name into a directory, for the clusters `l`
that it had taken: `v` is the volume just before. -/
structure Enters (s s' : State) (G : Ghost) (o : Owner) (v v₁ : Vol)
    (slot : DirSlot) (component : List UInt8) (sfn : Sfn) (attr : UInt8)
    (l : List Nat) (size : Nat) : Prop where
  moves : Moves s s'
  gen : componentGenerateSfn component = some sfn
  count : lfnCountOf component ≤ lfnMaxEntries
  index : slot.entryIndex + lfnCountOf component < s.fat32.entriesPerCluster
  room : RoomFor s.fat32 v v₁ (G.own o) slot (lfnCountOf component + 1)
  before : ∀ o' c, c ∈ G.own o' → v.data c = s.vol.data c
  tree : Tree s.fat32 v.fat v.kind (G.setOwn .pending l)
  vol : s'.vol = (v₁.withLfn slot component sfn).setEntry
    (nameSlot slot component) (buildDirEntry sfn attr (l.headD 0) size)

theorem enter_run {s1 : State} (h : s.Holds G) {o : Owner} {parent : Nat}
    {component : List UInt8} {l : List Nat} (attr : UInt8) (size : Nat)
    (ho : G.dir o) (hh : (G.own o).head? = some parent)
    (hc : component ≠ []) (hm : Moves s s1)
    (ht : Tree s1.fat32 s1.vol.fat s1.vol.kind (G.setOwn .pending l))
    (hdata : ∀ o c, c ∈ G.own o → s1.vol.data c = s.vol.data c) :
    (∃ sfn slot v1 s', writeNamedDirEntry parent component attr
        (l.headD 0) size s1 = (some (nameSlot slot component), s') ∧
      Enters s s' G o s1.vol v1 slot component sfn attr l size) ∨
    (∃ s', writeNamedDirEntry parent component attr (l.headD 0) size s1
        = (none, s') ∧ Steps s1 s' s1.vol) := by
  have h1 := hm.ok h.ok
  have hop : o ≠ .pending := by
    rintro rfl
    exact h.tree.pending_not_dir ho
  have hchain : s1.vol.Chain s1.fat32 parent (G.own o) := by
    have hc' := ht.chain_of_head? (o := o) (c := parent)
      (by rwa [G.setOwn_ne l hop])
    rwa [G.setOwn_ne l hop] at hc'
  rcases writeNamedDirEntry_run h1 hchain hc attr (l.headD 0) size with
    ⟨sfn, slot, v1, s', hsfn, hmax, hi, hroom, hrun, hst⟩ |
    ⟨s', hrun, hst, -⟩
  · rw [hm.fat32] at hi hroom ht
    exact .inl ⟨sfn, slot, v1, s', hrun, hm.trans hst.moves, hsfn, hmax, hi,
      hroom, hdata, ht, by rw [hst.vol, Vol.setEntries_named]⟩
  · exact .inr ⟨s', hrun, hst⟩

/-- A directory has room for a name in the slot `X`, its long-name
entries are in place, and the clusters `l` are pending: `w` is the volume
then, `v` the one before. -/
structure Roomy (L : Layout) (v w : Vol) (G G₁ : Ghost) (o : Owner)
    (X : DirSlot) (l : List Nat) : Prop where
  tree : Tree L w.fat w.kind G₁
  dir : G₁.dir = G.dir
  rank : G₁.rank = G.rank
  pending : G₁.own .pending = l
  mem : X.cluster ∈ G₁.own o
  index : X.entryIndex < L.entriesPerCluster
  hidden : w.kind X = .hidden
  data : ∀ c, c ≠ X.cluster → w.data c = v.data c

theorem Roomy.ne_cluster {L : Layout} {v w : Vol} {G1 : Ghost} {o o' : Owner}
    {X : DirSlot} {l : List Nat} (hr : Roomy L v w G G1 o X l) {c : Nat}
    (ho' : o' ≠ o) (hc : c ∈ G1.own o') : c ≠ X.cluster := by
  rintro rfl
  exact ho' (hr.tree.dir_unique hc hr.mem)

theorem Roomy.inDirs {L : Layout} {v w : Vol} {G1 : Ghost} {o : Owner}
    {X : DirSlot} {l : List Nat} (hr : Roomy L v w G G1 o X l)
    (ho : G.dir o) : G1.InDirs L X :=
  ⟨⟨o, by rwa [hr.dir], hr.mem⟩, hr.index⟩

theorem Enters.roomy {s1 s' : State} (h : s.Holds G) {o : Owner} {v1 : Vol}
    {slot : DirSlot} {component : List UInt8} {sfn : Sfn} {attr : UInt8}
    {l : List Nat} {size : Nat}
    (he : Enters s s' G o s1.vol v1 slot component sfn attr l size)
    (ho : G.dir o) (hm : Moves s s1)
    (ht : Tree s1.fat32 s1.vol.fat s1.vol.kind (G.setOwn .pending l)) :
    ∃ G1, Roomy s.fat32 s1.vol (v1.withLfn slot component sfn) G G1 o
        (nameSlot slot component) l ∧
      ∀ Y l' z bytes,
        (v1.withLfn slot component sfn).FileOn s.fat32 Y l' z bytes ↔
          s.vol.FileOn s.fat32 Y l' z bytes := by
  have hs := h.ok.sound
  have hop : o ≠ .pending := by
    rintro rfl
    exact h.tree.pending_not_dir ho
  have hroom := he.room
  rw [← G.setOwn_ne l hop] at hroom
  rw [hm.fat32] at ht
  obtain ⟨G1, ht1, hdir, hrank, hown, hgrow, hcl, hX, hd1, hk1, hin1⟩ :=
    ht.withLfn hs ho hroom
  set X := nameSlot slot component with hXdef
  set w := v1.withLfn slot component sfn with hw
  have hl1 : G1.own .pending = l := by
    rw [hown _ (Ne.symm hop), G.setOwn_self]
  have hroomy : Roomy s.fat32 s1.vol w G G1 o X l :=
    ⟨ht1, hdir, hrank, hl1, hcl, he.index, hX, hd1⟩
  refine ⟨G1, hroomy, fun Y l' z bytes => ?_⟩
  -- The files were there before.
  have hold : ∀ o', o' ≠ o → o' ≠ .pending → G1.own o' = G.own o' :=
    fun o' h2 h3 => (hown o' h2).trans (G.setOwn_ne l h3)
  have hne : (∃ f z, s.vol.kind Y = .node false f z) →
      Owner.entry Y ≠ o := by
    rintro ⟨f, z, hk⟩ rfl
    exact h.tree.file_not_dir hk ho
  refine h.tree.fileOn_congr hs ht1 (fun f z => ?_)
    (fun hfile => hold _ (hne hfile) (by simp)) (fun hfile c hc => ?_)
    l' z bytes
  · have hindirs := h.tree.pending_inDirs l Y
    have hkY : G.InDirs s.fat32 Y → w.kind Y = s.vol.kind Y := by
      intro hi
      rw [hk1 Y (hindirs.mpr hi)]
      exact Ghost.kind_congr (fun o' c _ hc => he.before o' c hc) Y hi
    constructor
    · rintro ⟨hi, hk⟩
      rcases hin1 Y hi with hi | hhid
      · rw [hindirs] at hi
        exact ⟨hi, by rwa [hkY hi] at hk⟩
      · rw [hk] at hhid
        cases hhid
    · rintro ⟨hi, hk⟩
      refine ⟨?_, by rwa [hkY hi]⟩
      obtain ⟨⟨o', ho', hc⟩, hj⟩ := hi
      refine ⟨⟨o', by rw [hdir]; exact ho', ?_⟩, hj⟩
      by_cases hoo : o' = o
      · subst hoo
        rw [G.setOwn_ne l hop] at hgrow
        rcases hgrow with hg | ⟨hg, -⟩
        · rwa [hg]
        · rw [hg]
          exact List.mem_append_left _ hc
      · rw [hold o' hoo (by
          rintro rfl
          exact h.tree.pending_not_dir ho')]
        exact hc
  · have hc1 : c ∈ G1.own (.entry Y) := by
      rwa [hold _ (hne hfile) (by simp)]
    rw [hd1 c (hroomy.ne_cluster (hne hfile) hc1)]
    exact he.before _ c hc

theorem Enters.file {s1 s' : State} (h : s.Holds G) {o : Owner} {v1 : Vol}
    {slot : DirSlot} {component : List UInt8} {sfn : Sfn} {l : List Nat}
    {size : Nat} (he : Enters s s' G o s1.vol v1 slot component sfn
      attrArchive l size) (ho : G.dir o) (hm : Moves s s1)
    (ht : Tree s1.fat32 s1.vol.fat s1.vol.kind (G.setOwn .pending l))
    (hz : size < 2 ^ 32) (hlen : l.length = s.fat32.clustersFor size) :
    s'.Consistent ∧ s.vol.Updates s.fat32 s'.vol (nameSlot slot component)
      (some (s1.vol.content s.fat32 l size)) ∧
      ∀ bytes, ¬ s.vol.IsFile s.fat32 (nameSlot slot component) bytes := by
  have hs := h.ok.sound
  obtain ⟨G1, hr, hfiles⟩ := he.roomy h ho hm ht
  have ht1 := hr.tree
  have hX := hr.hidden
  have hinX := hr.inDirs ho
  set X := nameSlot slot component with hXdef
  set w := v1.withLfn slot component sfn with hw
  set G' := G1.handOver X with hG'
  have hl : G'.own (.entry X) = l := by
    rw [hG', G1.handOver_self, hr.pending]
  have hother : ∀ o', o' ≠ .entry X → o' ≠ .pending →
      G'.own o' = G1.own o' := fun o' h2 h3 => G1.handOver_ne h2 h3
  have howned := ht1.handOver_owned hX
  have hkind : (buildDirEntry sfn attrArchive (l.headD 0) size).kind
      = .node false (l.headD 0) size := by
    have hlt := hs.headD_lt howned (.entry X)
    rw [← hG', hl] at hlt
    rw [buildDirEntry_kind_file (componentGenerateSfn_proper he.gen) hlt,
      Nat.mod_eq_of_lt hz]
  have htree := ht1.setFile G' (w := w) hinX (.inl hX)
    (by rw [hl]; exact hkind) (fun k hk => buildDirEntry_tail hk)
    (by rw [hl, hlen]) (fun _ _ _ _ => rfl) rfl rfl hother howned
  have hop : o ≠ .pending := by
    rintro rfl
    exact h.tree.pending_not_dir ho
  have hsep : ∀ c ∈ l, c ≠ X.cluster := by
    intro c hc
    rw [← hr.pending] at hc
    exact hr.ne_cluster (Ne.symm hop) hc
  have hout : X.cluster ∉ G'.own (.entry X) := by
    rw [hl]
    exact fun hc => hsep _ hc rfl
  have hnd : ¬ G1.dir (.entry X) := by
    intro hd
    obtain ⟨-, f, z, hk⟩ := (ht1.dir_iff X).mp hd
    rw [hX] at hk
    cases hk
  refine ⟨⟨G', he.moves.ok h.ok, ?_, G1.handOver_pending X⟩, ?_, ?_⟩
  · rw [he.moves.fat32, he.vol]
    exact htree
  swap
  · rintro bytes ⟨l', z, hf⟩
    obtain ⟨-, -, f, hk, -⟩ :=
      (ht1.fileOn_iff hs).mp ((hfiles X l' z bytes).mpr hf)
    rw [hX] at hk
    cases hk
  rw [he.vol]
  have hup := ht1.setFile_updates G' (w := w) hs hinX hkind
    (fun k hk => buildDirEntry_tail hk) (fun _ _ _ _ _ => rfl) rfl hother hnd
    htree hout
  have hcont : w.content s.fat32 l size = s1.vol.content s.fat32 l size :=
    Vol.content_congr fun c hc => hr.data c (hsep c hc)
  rw [hl, hcont] at hup
  exact ⟨hup.file, fun Y l' z bytes hY =>
    (hup.others Y l' z bytes hY).trans (hfiles Y l' z bytes)⟩

theorem writeRest_missing (h : s.Holds G) {lookup : PathLookup}
    {relative : List UInt8} {data : Option Mem} {size : Nat} {o : Owner}
    (hf : lookup.found = false) (ho : G.dir o)
    (hh : (G.own o).head? = some lookup.parentCluster)
    (hc : relativeBasename relative ≠ [])
    (hd : 0 < size → data.isSome = true)
    (hfit : s.fat32.clustersFor size ≤ s.fat32.clusterCount) :
    (∃ (s1 : State) (v1 : Vol) (slot : DirSlot) (sfn : Sfn) (l : List Nat)
      (s' : State), writeRest relative lookup data size
        (s.fat32.clustersFor size) s = (some (), s') ∧
      Enters s s' G o s1.vol v1 slot (relativeBasename relative) sfn
        attrArchive l size ∧ s'.Consistent ∧
      s.vol.Updates s.fat32 s'.vol
        (nameSlot slot (relativeBasename relative))
        (some (bufferBytes (dataOf data) size)) ∧
      ∀ bytes, ¬ s.vol.IsFile s.fat32
        (nameSlot slot (relativeBasename relative)) bytes) ∨
    (∃ s', writeRest relative lookup data size
        (s.fat32.clustersFor size) s = (none, s') ∧ Moves s s' ∧
      s.vol.Same s.fat32 s'.vol) := by
  have hz := (h.ok.size_bounds hfit).1
  have hhead : writeRest relative lookup data size
      (s.fat32.clustersFor size) s = writeContents relative lookup data size
        (s.fat32.clustersFor size) s := by
    rw [writeRest]
    simp only [hf]
    rfl
  rw [hhead, writeContents]
  rcases allocContents_run h.ok hd with
    ⟨l, s1, hrun1, hg, hlen, -⟩ | ⟨s1, hrun1, hst1, -⟩
  swap
  · refine .inr ⟨s1, Cmd.bind_err hrun1, hst1.moves, ?_⟩
    rw [hst1.vol]
    exact .refl _ _
  rw [Cmd.bind_ok hrun1]
  simp only [hf, Bool.false_eq_true, if_false]
  have hown : Owned s.fat32.marks s1.vol.fat (G.setOwn .pending l).own := by
    have hgo := Grows.owned G.own (o := .pending) (by rwa [h.idle])
      h.tree.owned
    rwa [h.idle, List.nil_append] at hgo
  obtain ⟨ht, hdata⟩ := h.pending hg.moves hown fun c hcl => by
    rw [hg.data, Vol.filled_data_out hcl]
  rw [Nat.mod_eq_of_lt hz]
  rcases enter_run h attrArchive size ho hh hc hg.moves ht hdata with
    ⟨sfn, slot, v1, s', hrun, he⟩ | ⟨s2, hrun, hst⟩
  · obtain ⟨hcons, hup, hnew⟩ := he.file h ho hg.moves ht hz hlen
    rw [hg.content h.ok hlen] at hup
    exact .inl ⟨s1, v1, slot, sfn, l, s', by
      rw [Cmd.bind_ok (Cmd.orCleanup_ok hrun), Cmd.pure_apply], he, hcons,
      hup, hnew⟩
  · right
    obtain ⟨s3, hrun3, hst3⟩ := freeHead_run (hst.ok (hg.moves.ok h.ok))
      (l := l) (by
        have hl := ht.owned.chain .pending
        rw [G.setOwn_self] at hl
        rw [hst.vol, hst.fat32]
        exact hl)
    refine ⟨s3, Cmd.bind_err ?_, hg.moves.trans (hst.moves.trans hst3.moves),
      ?_⟩
    · rw [Cmd.orCleanup_err hrun, hrun3]
    · rw [hst3.vol, hst.vol]
      exact hg.released

-- ==== the operation

theorem Rewrites.of_reads {s1 s' : State} {P : Set Nat} {X : DirSlot}
    {l : List Nat} {e : Entry} {bytes : List UInt8} (hr : Reads P s s1)
    (h : Rewrites s1 s' G X l e bytes) : Rewrites s s' G X l e bytes where
  moves := hr.moves.trans h.moves
  holds := h.holds
  entry := h.entry
  entries := by
    rw [← hr.vol, ← hr.fat32]
    exact h.entries
  updates := by
    rw [← hr.vol, ← hr.fat32]
    exact h.updates

theorem Enters.of_reads {s1 s' : State} {P : Set Nat} {o : Owner}
    {v v1 : Vol} {slot : DirSlot} {component : List UInt8} {sfn : Sfn}
    {attr : UInt8} {l : List Nat} {size : Nat} (hr : Reads P s s1)
    (h : Enters s1 s' G o v v1 slot component sfn attr l size) :
    Enters s s' G o v v1 slot component sfn attr l size where
  moves := hr.moves.trans h.moves
  gen := h.gen
  count := h.count
  index := by
    rw [← hr.fat32]
    exact h.index
  room := by
    rw [← hr.fat32]
    exact h.room
  before := by
    rw [← hr.vol]
    exact h.before
  tree := by
    rw [← hr.fat32]
    exact h.tree
  vol := h.vol

theorem Reads.holds {s1 : State} {P : Set Nat} (hr : Reads P s s1)
    (h : s.Holds G) : s1.Holds G where
  ok := hr.ok h.ok
  tree := by
    rw [hr.vol, hr.fat32]
    exact h.tree
  idle := h.idle

theorem writeAll_found (h : s.Holds G) {path : List UInt8}
    {data : Option Mem} {size : Nat} {lookup : PathLookup}
    (hsize : size < 2 ^ 64) (hg : WriteGuard s path data size lookup)
    (hf : lookup.found = true) :
    (∃ l s', writeAll path data size s = (some (), s') ∧
      Rewrites s s' G lookup.slot l
        (buildDirEntry lookup.sfn attrArchive (l.headD 0) size)
        (bufferBytes (dataOf data) size) ∧
      s.fat32.clustersFor size
        ≤ ((s.vol.released (G.own (.entry lookup.slot))).freeSet
          s.fat32).card) ∨
    (∃ s', writeAll path data size s = (none, s') ∧
      Steps s s' (s.vol.released (G.own (.entry lookup.slot))) ∧
      ((s.vol.released (G.own (.entry lookup.slot))).freeSet s.fat32).card
        < s.fat32.clustersFor size) := by
  obtain ⟨relative, s1, -, hrun, hr⟩ := writeAll_guarded h hsize hg
  obtain ⟨hin, -, hsfn, hk⟩ := h.resolvePath_found hg.path hf
  rw [hg.file hf] at hk
  rw [hrun, ← hr.fat32]
  rcases writeRest_found (hr.holds h) hf (by rwa [hr.fat32]) (by rwa [hr.vol]) rfl
      (by rwa [hr.vol]) hg.data (by rw [hr.fat32]; exact hg.fits) with
    ⟨l, s', hrun', hrw, hle⟩ | ⟨s', hrun', hst, hlt⟩
  · rw [hr.vol] at hle
    exact .inl ⟨l, s', hrun', hrw.of_reads hr, hle⟩
  · rw [hr.vol] at hst hlt
    refine .inr ⟨s', hrun', ⟨hr.moves.trans hst.moves, hst.vol⟩, hlt⟩

theorem writeAll_missing (h : s.Holds G) {path : List UInt8}
    {data : Option Mem} {size : Nat} {lookup : PathLookup}
    (hsize : size < 2 ^ 64) (hg : WriteGuard s path data size lookup)
    (hf : lookup.found = false) :
    (∃ (relative : List UInt8) (o : Owner) (s1 : State) (v1 : Vol)
      (slot : DirSlot) (sfn : Sfn) (l : List Nat) (s' : State),
      pathToRelative s.toEnv path = some relative ∧ G.dir o ∧
      (G.own o).head? = some lookup.parentCluster ∧
      writeAll path data size s = (some (), s') ∧
      Enters s s' G o s1.vol v1 slot (relativeBasename relative) sfn
        attrArchive l size ∧ s'.Consistent ∧
      s.vol.Updates s.fat32 s'.vol
        (nameSlot slot (relativeBasename relative))
        (some (bufferBytes (dataOf data) size)) ∧
      ∀ bytes, ¬ s.vol.IsFile s.fat32
        (nameSlot slot (relativeBasename relative)) bytes) ∨
    (∃ s', writeAll path data size s = (none, s') ∧ Moves s s' ∧
      s.vol.Same s.fat32 s'.vol) := by
  obtain ⟨relative, s1, hrel, hrun, hr⟩ := writeAll_guarded h hsize hg
  obtain ⟨relative', _, c, o, hrel', -, -, hcs, hbase, -, ho, hh, -⟩ :=
    h.resolvePath_some hg.path
  cases hrel.symm.trans hrel'
  rw [hrun, ← hr.fat32, ← hr.vol]
  rcases writeRest_missing (hr.holds h) hf ho hh
      (by rw [hbase]; exact (hcs c (by simp)).ne_nil) hg.data
      (by rw [hr.fat32]; exact hg.fits) with
    ⟨s2, v1, slot, sfn, l, s', hrun', he, hcons, hup, hnew⟩ |
    ⟨s', hrun', hm, hsame⟩
  · exact .inl ⟨relative, o, s2, v1, slot, sfn, l, s', hrel, ho, hh, hrun',
      he.of_reads hr, hcons, hup, hnew⟩
  · exact .inr ⟨s', hrun', hr.moves.trans hm, hsame⟩

end specs

end Clks.Disk
