/-
What is left after `clks_disk_append` has failed.
-/
import Clks.Disk.Appending
import Clks.Disk.Ops

namespace Clks.Disk

open Bytes Linked

-- ==== the property

/-- The file that the path named before the call reads the same after
it, and whatever is done to other files then, an append to it puts its
payload behind these contents. -/
structure KeepsOld (s s' : State) (path : List UInt8)
    (old : List UInt8) : Prop where
  reads : (readAll path s').1 = some old
  later : ∀ lookup, resolvePath s.toEnv s.vol path = some lookup →
    ∀ t, Relation.ReflTransGen (StepBeside lookup.slot) s' t →
    ∀ path' lookup', resolvePath t.toEnv t.vol path' = some lookup' →
    lookup'.found = true → lookup'.slot = lookup.slot →
    ∀ data size t', append path' data size t = (some (), t') →
      Appended t' path' (old ++ bufferBytes (dataOf data) size)

/-- The append gets to the step that extends the chain, and finds free
clusters there, but too few. -/
def GrowsPartly (s : State) (path : List UInt8) (data : Option Mem)
    (size : Nat) : Prop :=
  ∃ lookup, AppendGuard s path data size lookup ∧ 0 < lookup.info.size ∧
    0 < (s.vol.freeSet s.fat32).card ∧
    (s.vol.freeSet s.fat32).card < s.fat32.clustersFor
      (size - min size (s.fat32.slack lookup.info.size))

-- ==== what stays shown

section shown

variable {s s' : State}

theorem lastBytes_of_content {L : Layout} {v v' : Vol}
    (hcs : 0 < L.clusterSizeBytes) {pre : List Nat} {z size : Nat}
    (hlen : pre.length + 1 = L.clustersFor size)
    (hc : v'.content L (pre ++ [z]) size = v.content L (pre ++ [z]) size)
    {k : Nat} (hk : k < size % L.clusterSizeBytes) :
    v'.data z k = v.data z k := by
  have hlt := Nat.mod_lt size hcs
  have hend := (end_of_file hcs hlen).2 (by omega)
  rw [hend, Vol.content_snoc_add v' hlt.le,
    Vol.content_snoc_add v hlt.le] at hc
  have htail := (List.append_inj hc (by simp)).2
  have hget := congrArg (fun l => l[k]?) htail
  simpa [hk] using hget

theorem State.EndShown.moves (h : s.Ok) (hm : Moves s s')
    {pre : List Nat} {z size : Nat}
    (hz : s.fat32.clusterValid z = true)
    (hlen : pre.length + 1 = s.fat32.clustersFor size)
    (hc : s'.vol.content s.fat32 (pre ++ [z]) size
      = s.vol.content s.fat32 (pre ++ [z]) size)
    (he : s.EndShown z size) : s'.EndShown z size := by
  have hcs := h.sound.clusterSize_pos
  intro k h1 h2
  rw [hm.fat32] at h1 h2 ⊢
  have hlt := Nat.mod_lt size hcs
  have hdata := lastBytes_of_content hcs hlen hc h2
  have hz' : s'.fat32.clusterValid z = true := by
    rw [hm.fat32]
    exact hz
  rw [State.vol_data hz (by omega),
    State.vol_data hz' (by rw [hm.fat32]; omega), hm.fat32] at hdata
  cases hl : s'.loaded ((s.fat32.clusterOffset z + k) / 512) with
  | true =>
    refine hm.coherent h.coherent _ ?_ hl
    have hle := h.sound.lbaOf_le hz
    have hsz := h.sound.size
    have hb := h.bytesLen
    have hoff := s.fat32.clusterOffset_eq z
    simp only [sectorSize] at hsz hb
    rw [hm.env]
    omega
  | false =>
    rw [hm.unloaded _ hl _ rfl, he k h1 h2, hdata]

theorem State.EndShownAt.moves (h : s.Ok) (hm : Moves s s')
    {l : List Nat} {size : Nat}
    (hl : ∀ c ∈ l, s.fat32.clusterValid c = true)
    (hlen : l.length = s.fat32.clustersFor size)
    (hc : s'.vol.content s.fat32 l size = s.vol.content s.fat32 l size)
    (he : s.EndShownAt l size) : s'.EndShownAt l size := by
  intro pre z hpz
  subst hpz
  apply (he pre z rfl).moves h hm (hl z (by simp)) ?_ hc
  rwa [List.length_append, List.length_singleton] at hlen

end shown

-- ==== what has not grown

section failed

variable {s s' : State} {G : Ghost}

theorem State.Holds.file_size_le (h : s.Holds G) {X : DirSlot}
    {first size : Nat} (hin : G.InDirs s.fat32 X)
    (hk : s.vol.kind X = .node false first size) : size ≤ 2 ^ 28 := by
  have hs := h.ok.sound
  have hlen := h.tree.file_len X first size hin hk
  have hle := Layout.le_clustersFor hs.clusterSize_pos size
  rw [← hlen] at hle
  have hcount : (G.own (.entry X)).length ≤ s.fat32.clusterCount := by
    rcases h.tree.owned.chain (.entry X) with he | ⟨c, hc⟩
    · rw [he]
      exact Nat.zero_le _
    · exact Vol.Chain.length_le (v := s.vol) hc
  have hmul := Nat.mul_le_mul_right s.fat32.clusterSizeBytes hcount
  have hfit := hs.fits
  have htot := h.ok.total_le
  have hsz := hs.size
  simp only [sectorSize, cacheMaxSectors] at hsz htot
  have hbytes : s.fat32.clusterCount * s.fat32.clusterSizeBytes
      = s.fat32.clusterCount * s.fat32.sectorsPerCluster * 512 := by
    rw [hsz, Nat.mul_assoc]
  omega

/-- What an append that failed and did not grow the chain leaves: the
same tree, the same names, and other contents of the last cluster of the
file. -/
structure Stalls (s s' : State) (G : Ghost) (X : DirSlot) (size : Nat) :
    Prop where
  moves : Moves s s'
  holds : s'.Holds G
  kind : s'.vol.kind X = s.vol.kind X
  paths : ∀ path, resolvePath s'.toEnv s'.vol path
    = resolvePath s.toEnv s.vol path
  content : s'.vol.content s.fat32 (G.own (.entry X)) size
      = s.vol.content s.fat32 (G.own (.entry X)) size ∧
      (s'.EndShownAt (G.own (.entry X)) size →
        s.EndShownAt (G.own (.entry X)) size) ∨
    s'.vol.content s.fat32 (G.own (.entry X)) size
      ≠ s.vol.content s.fat32 (G.own (.entry X)) size ∧
    ¬ s.EndShownAt (G.own (.entry X)) size

theorem Reads.stalls (h : s.Holds G) (hr : Reads (G.dirSectors s.fat32) s s')
    {X : DirSlot} {first size : Nat}
    (hk : s.vol.kind X = .node false first size) :
    Stalls s s' G X size where
  moves := hr.moves
  holds := hr.holds h
  kind := by rw [hr.vol]
  paths path := by rw [hr.env, hr.vol]
  content := by
    rw [hr.vol]
    refine .inl ⟨rfl, fun he pre z hl => ?_⟩
    have hz : z ∈ G.own (.entry X) := by
      rw [hl]
      simp
    exact (hr.endShown h.ok (h.notMem_dirSectors hk hz) size).mp
      (he pre z hl)

theorem AppendFails.stalls (h : s.Holds G) {X : DirSlot} {data : Mem}
    {first oldSize size : Nat} (hin : G.InDirs s.fat32 X)
    (hk : s.vol.kind X = .node false first oldSize) (hpos : 0 < size)
    (hf : AppendFails s s' G X data oldSize size)
    (hfree : 0 < oldSize → 0 < (s.vol.freeSet s.fat32).card →
      s.fat32.clustersFor (size - min size (s.fat32.slack oldSize))
        ≤ (s.vol.freeSet s.fat32).card) :
    Stalls s s' G X oldSize := by
  have hs := h.ok.sound
  have hcs := hs.clusterSize_pos
  have hlen := h.tree.file_len X first oldSize hin hk
  rcases List.eq_nil_or_concat (G.own (.entry X)) with hl | ⟨pre, z, hl⟩
  · have hv := hf.empty hl
    have hsame : s.vol.Same s.fat32 s'.vol := by
      rw [hv]
      exact .refl _ _
    refine ⟨hf.moves, h.same hf.moves hsame, by rw [hv], fun path => ?_, ?_⟩
    · rw [hf.moves.env, hv]
    · rw [hv]
      refine .inl ⟨rfl, fun _ pre z he => ?_⟩
      rw [hl] at he
      exact absurd he (by simp)
  rw [List.concat_eq_append] at hl
  rw [hl, List.length_append, List.length_singleton] at hlen
  have hold : 0 < oldSize := by
    rcases Nat.eq_zero_or_pos oldSize with hz | hz
    · rw [(Layout.clustersFor_eq_zero hcs).mpr hz] at hlen
      exact absurd hlen (Nat.succ_ne_zero _)
    · exact hz
  obtain ⟨s1, c, l', hst, hg, hlt, hempty⟩ := hf.full pre z hl
  have hset : s1.vol.freeSet s.fat32 = s.vol.freeSet s.fat32 := by
    rw [hst.vol]
    exact Vol.freeSet_congr (State.toppedUp_fat _ _ _ _ _)
  -- All free clusters were taken, and they were too few: there were none.
  have hcard : (s.vol.freeSet s.fat32).card ≤ l'.length := by
    have hle := hg.card_le (fun x hx => ?_)
      (by rw [hst.fat32]; exact hempty)
    · rwa [hst.fat32, hset] at hle
    · rw [hst.vol, State.toppedUp_fat]
      rw [← hl] at hx
      exact h.tree.owned.not_free hx
  have hnone : (s.vol.freeSet s.fat32).card = 0 := by
    rcases Nat.eq_zero_or_pos (s.vol.freeSet s.fat32).card with hz | hz
    · exact hz
    · have := hfree hold hz
      omega
  have hl' : l' = [] := by
    have hle := hg.length_le
    rw [hst.fat32, hset, hnone] at hle
    exact List.length_eq_zero_iff.mp (Nat.le_zero.mp hle)
  subst hl'
  have hg' := hg
  rw [← hl] at hg'
  have hown := Grows.owned G.own hg'
    (by rw [hst.fat32, hst.vol, State.toppedUp_fat]; exact h.tree.owned)
  rw [hst.fat32, List.append_nil, Function.update_eq_self] at hown
  have hdata : s'.vol.data = (s.toppedUp z oldSize data size).data := by
    rw [hg.data, hst.vol]
    rfl
  have hdirs : ∀ o c, G.dir o → c ∈ G.own o →
      s'.vol.data c = s.vol.data c := by
    intro o c hd hc
    rw [hdata]
    apply State.toppedUp_data_ne
    intro hcz
    rw [hcz] at hc
    have ho : o = .entry X := h.tree.dir_unique hc (by rw [hl]; simp)
    rw [ho] at hd
    exact h.tree.file_not_dir hk hd
  have htree : Tree s.fat32 s'.vol.fat s'.vol.kind G :=
    (h.tree.relink hown).congr (Ghost.kind_congr hdirs)
  have hz : z ∈ G.own (.entry X) := by
    rw [hl]
    simp
  have hzv := (hs.ok_iff z).mp (h.tree.owned.ok_of_mem hz)
  have hpre : z ∉ pre := by
    obtain ⟨a, hch⟩ := (h.tree.owned.chain (.entry X)).resolve_left
      (by rw [hl]; simp)
    have hnd := hch.nodup
    rw [hl] at hnd
    intro hzp
    exact (List.nodup_append.mp hnd).2.2 z hzp z (by simp) rfl
  have hiff := toppedUp_old_iff h.ok data hzv hpre hlen hpos
  have hcont : s'.vol.content s.fat32 (G.own (.entry X)) oldSize
      = (s.toppedUp z oldSize data size).content s.fat32 (pre ++ [z])
        oldSize := by
    rw [hl]
    exact Vol.content_congr fun c _ => by rw [hdata]
  refine ⟨hf.moves, ⟨hf.moves.ok h.ok, ?_, h.idle⟩, ?_, fun path => ?_, ?_⟩
  · rw [hf.moves.fat32]
    exact htree
  · exact Ghost.kind_congr hdirs X hin
  · rw [hf.moves.env]
    exact h.resolvePath_congr htree hdirs path
  · rw [hcont, hl]
    simp only [State.endShownAt_snoc]
    by_cases he : s.EndShown z oldSize
    · exact .inl ⟨hiff.mpr he, fun _ => he⟩
    · exact .inr ⟨fun hc => he (hiff.mp hc), he⟩

end failed

-- ==== afterwards

section later

variable {s s' : State} {G : Ghost}

theorem Stalls.keeps (h : s.Holds G) {path : List UInt8}
    {old : List UInt8} {lookup : PathLookup}
    (hres : resolvePath s.toEnv s.vol path = some lookup)
    (hf : lookup.found = true) (hold : (readAll path s).1 = some old)
    (hst : Stalls s s' G lookup.slot lookup.info.size)
    (he : s.EndShownOf path) : KeepsOld s s' path old := by
  obtain ⟨lookup', hres', -, hd, hin, hk, hcl, rfl⟩ := h.readAll_some hold
  cases hres.symm.trans hres'
  have hs := h.ok.sound
  have hshown := he lookup hres hf
  rw [hcl] at hshown
  have hcont := (hst.content.resolve_right fun hn => hn.2 hshown).1
  have hk' := hst.kind.trans hk
  have hon : s'.vol.FileOn s'.fat32 lookup.slot (G.own (.entry lookup.slot))
      lookup.info.size (s.vol.content s.fat32 (G.own (.entry lookup.slot))
        lookup.info.size) := by
    rw [hst.holds.tree.fileOn_iff hst.holds.ok.sound, hst.moves.fat32]
    exact ⟨hin, rfl, _, hk', hcont.symm⟩
  constructor
  · rw [hst.holds.readAll_eq, hst.holds.fileAt_iff, hst.paths]
    exact ⟨lookup, hres, hf, _, _, hon⟩
  · intro lookup' hres' t hrun path' lookup'' hrest hft hslot data size t'
      happ
    cases hres.symm.trans hres'
    obtain ⟨hm, ⟨Gt, ht⟩, hkeep⟩ := run_beside ⟨G, hst.holds⟩ hrun
    have hmt := hst.moves.trans hm
    -- The file is still on its clusters at `t`, with the same contents.
    have hont := hkeep _ _ _ hon
    rw [hst.moves.fat32, ← hmt.fat32] at hont
    have hreads : (readAll path' t).1
        = some (s.vol.content s.fat32 (G.own (.entry lookup.slot))
          lookup.info.size) := by
      rw [ht.readAll_eq, ht.fileAt_iff]
      rw [hmt.fat32] at hont ⊢
      exact ⟨lookup'', hrest, hft, _, _, by rw [hslot]; exact hont⟩
    refine (ht.appends_iff hreads happ).mpr (.inr ?_)
    intro lookup3 hres3 _
    cases hrest.symm.trans hres3
    obtain ⟨first, ⟨_, _, _, _, _, _, hkt⟩, hlt, hct⟩ := hont
    obtain ⟨-, -, -, hkt'⟩ := ht.resolvePath_found hrest hft
    rw [hslot, hkt] at hkt'
    injection hkt' with _ hfirst hsize
    rw [← hfirst, ← hsize, ← hlt]
    have hct' := hct.symm
    rw [hmt.fat32] at hct'
    exact hshown.moves h.ok hmt
      (fun c hc => (hs.ok_iff c).mp (h.tree.owned.ok_of_mem hc))
      (h.tree.file_len _ _ _ hin hk) hct'

end later

end Clks.Disk
