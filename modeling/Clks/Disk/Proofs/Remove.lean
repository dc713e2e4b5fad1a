/-
`clks_disk_remove`.

The entry of the removed name and the long-name entries in front of it
are marked with one byte each, then the chain is given back. A directory
goes only if it holds no nodes.
-/
import Clks.Disk.Proofs.Write

namespace Clks.Disk

open Bytes Linked

-- ==== marking an entry

/-- The volume with an entry marked as removed. -/
def Vol.erase (v : Vol) (slot : DirSlot) : Vol :=
  v.setData slot.cluster
    (blit (v.data slot.cluster) (32 * slot.entryIndex) 1 fun _ =>
      entryRemoved)

section erasing

variable {v : Vol} {slot slot' : DirSlot}

@[simp] theorem Vol.erase_fat : (v.erase slot).fat = v.fat := rfl

theorem Vol.erase_data_ne {c : Nat} (h : c ≠ slot.cluster) :
    (v.erase slot).data c = v.data c :=
  setData_data_ne _ _ h

theorem Vol.erase_entry_ne (h : slot' ≠ slot) :
    (v.erase slot).entry slot' = v.entry slot' := by
  obtain ⟨c, i⟩ := slot
  obtain ⟨c', i'⟩ := slot'
  by_cases hc : c' = c
  · subst hc
    have hi : i' ≠ i := by
      rintro rfl
      exact h rfl
    funext k
    simp only [entry, erase, setData_data_self, entryAt, direntSize]
    split_ifs with hk
    · rw [blit_out (by omega)]
    · rfl
  · exact entry_congr (erase_data_ne hc)

theorem Vol.erase_kind (v : Vol) (slot : DirSlot) :
    (v.erase slot).kind slot = .hidden := by
  refine Vol.kind_of_free ?_
  have h0 : (v.erase slot).entry slot 0 = entryRemoved := by
    simp only [entry, erase, setData_data_self, entryAt, direntSize]
    rw [if_pos (by omega), blit_in (by omega) (by omega)]
  simp [Entry.isFree, h0]

theorem Vol.erase_kind_ne (h : slot' ≠ slot) :
    (v.erase slot).kind slot' = v.kind slot' := by
  rw [Vol.kind, Vol.kind, erase_entry_ne h]

end erasing

-- ==== the tree without a node

section tree

variable {L : Layout} {total : Nat} {v v' : Vol} {G : Ghost}

theorem Tree.removed (hs : L.Sound total) (h : Tree L v.fat v.kind G)
    {X : DirSlot} {b : Bool} {first size : Nat} (hin : G.InDirs L X)
    (hk : v.kind X = .node b first size)
    (hempty : b = true → ∀ c ∈ G.own (.entry X),
      ∀ i < L.entriesPerCluster, ∀ b f z, v.kind ⟨c, i⟩ ≠ .node b f z)
    (hfat : v'.fat = (v.released (G.own (.entry X))).fat)
    (hdata : ∀ c, c ≠ X.cluster → v'.data c = v.data c)
    (hX : v'.kind X = .hidden)
    (hne : ∀ slot, slot ≠ X → v'.kind slot = v.kind slot) :
    ∃ G', Tree L v'.fat v'.kind G' ∧
      G'.own .pending = G.own .pending ∧ v.Updates L v' X none := by
  let G' : Ghost :=
    { own := Function.update G.own (.entry X) []
      dir := fun o => G.dir o ∧ o ≠ .entry X
      rank := G.rank }
  have hnil : G'.own (.entry X) = [] := Function.update_self ..
  have hother : ∀ o, o ≠ .entry X → G'.own o = G.own o :=
    fun o ho => Function.update_of_ne ho ..
  have hown : Owned L.marks v'.fat G'.own := by
    rw [hfat]
    exact released_owned (.entry X) h.owned
  have htree : Tree L v'.fat v'.kind G' := by
    cases b with
    | false =>
      have hdir : G'.dir = G.dir := by
        funext o
        refine propext ⟨And.left, fun ho => ⟨ho, ?_⟩⟩
        rintro rfl
        exact h.file_not_dir hk ho
      exact h.file hdir rfl hin (.inr ⟨_, _, hk⟩) (.inl ⟨hX, hnil⟩)
        (fun slot _ hs => hne slot hs) (fun o ho _ => hother o ho) hown
    | true =>
      have hd : G.dir (.entry X) := (h.dir_iff X).mpr ⟨hin, _, _, hk⟩
      exact h.rmdir hd (hempty rfl) (fun _ => Iff.rfl) rfl hnil hX
        (fun slot _ hs => hne slot hs) (fun o ho _ => hother o ho) hown
  refine ⟨G', htree, hother _ (by simp), fun bytes => ?_,
    fun Y l z bytes hY => ?_⟩
  · refine iff_of_false ?_ (by simp)
    rw [htree.isFile_iff hs]
    rintro ⟨-, f, z, hkX, -⟩
    rw [hX] at hkX
    cases hkX
  · refine h.fileOn_congr hs htree (fun f z => ?_)
      (fun _ => hother _ (by simpa using hY)) (fun ⟨f, z, hkY⟩ c hc => ?_)
      l z bytes
    · rw [hne Y hY]
      refine and_congr_left fun hkY => and_congr_left fun hi => ?_
      constructor
      · rintro ⟨o, ⟨ho, hoX⟩, hc⟩
        exact ⟨o, ho, by rwa [← hother o hoX]⟩
      · rintro ⟨o, ho, hc⟩
        -- The file does not lie in a directory that is removed.
        have hoX : o ≠ .entry X := by
          rintro rfl
          obtain ⟨-, f', z', hkX⟩ := (h.dir_iff X).mp ho
          rw [hk] at hkX
          have hb := (Kind.node.inj hkX).1
          exact hempty hb _ hc _ hi _ _ _ hkY
        exact ⟨o, ⟨ho, hoX⟩, by rwa [hother o hoX]⟩
    · refine hdata c ?_
      rintro rfl
      obtain ⟨⟨o, ho, hco⟩, -⟩ := hin
      rw [h.dir_unique hco hc] at ho
      exact h.file_not_dir hkY ho

end tree

section specs

variable {s : State} {G : Ghost}

private theorem eraseSync_run (h : s.Ok) {c i : Nat}
    (hc : s.fat32.clusterValid c = true)
    (hi : i < s.fat32.entriesPerCluster)
    (hl : s.loaded (s.fat32.lbaOf c + i / 16) = true) :
    ∃ s', syncSectorRange (s.fat32.lbaOf c + i / 16) 1
        (s.poked (s.fat32.clusterOffset c + 32 * i) 1 fun _ => entryRemoved)
        = (some (), s') ∧ Steps s s' (s.vol.erase ⟨c, i⟩) := by
  have hin := h.sound.entry_in hi
  have heq := s.fat32.clusterOffset_eq c
  obtain ⟨s', hrun, hst, -⟩ := clusterSync_run h 1 (c := c)
    (o := 32 * i)
    (a := i / 16) (n := 1) hc (by omega) (by omega) (by omega) (by omega)
    (fun k h2 h3 _ => by
      have he : k / 512 = s.fat32.lbaOf c + i / 16 := by omega
      rw [he]
      exact hl)
  exact ⟨s', hrun, hst⟩

private theorem removeLfnLoop_run (h : s.Ok) {c n : Nat}
    (hc : s.fat32.clusterValid c = true)
    (hn : n ≤ s.fat32.entriesPerCluster) :
    ∃ s', removeLfnLoop c n s = (some (), s') ∧ Moves s s' ∧
      s'.vol.fat = s.vol.fat ∧
      (∀ c', c' ≠ c → s'.vol.data c' = s.vol.data c') ∧
      ∀ slot, s'.vol.kind slot = s.vol.kind slot := by
  induction n generalizing s with
  | zero => exact ⟨s, rfl, .refl s, rfl, fun _ _ => rfl, fun _ => rfl⟩
  | succ i ih =>
    obtain ⟨s1, hrun1, hr1, hl1⟩ := dirEntryPtr_run h hc (i := i) (by omega)
    have h1 := hr1.ok h
    have hf1 := hr1.fat32
    have he := entryAt_loaded h1 (c := c) (i := i) (by rwa [hf1])
      (by rw [hf1]; omega) (by rwa [hf1])
    rw [hf1, hr1.vol] at he
    rw [removeLfnLoop, Cmd.bind_ok hrun1]
    simp only [Cmd.get_bind_apply, he]
    split_ifs with hlfn
    · refine ⟨s1, rfl, hr1.moves, ?_, ?_, ?_⟩ <;> simp [hr1.vol]
    · obtain ⟨s2, hrun2, hst2⟩ := eraseSync_run h1 (c := c) (i := i)
        (by rwa [hf1]) (by rw [hf1]; omega) (by rwa [hf1])
      rw [hf1] at hrun2
      rw [hr1.vol] at hst2
      have hm2 := hr1.moves.trans hst2.moves
      obtain ⟨s3, hrun3, hm3, hfat, hdata, hkind⟩ := ih (hm2.ok h)
        (by rwa [hm2.fat32]) (by rw [hm2.fat32]; omega)
      refine ⟨s3, ?_, hm2.trans hm3, ?_, fun c' hc' => ?_, fun slot => ?_⟩
      · rw [poke, Cmd.modify_bind_apply, Cmd.bind_ok hrun2, hrun3]
      · rw [hfat, hst2.vol, Vol.erase_fat]
      · rw [hdata c' hc', hst2.vol, Vol.erase_data_ne hc']
      · rw [hkind, hst2.vol]
        by_cases hs : slot = ⟨c, i⟩
        · subst hs
          rw [Vol.erase_kind, Vol.kind, eq_comm, Entry.kind_hidden]
          -- A long-name entry was hidden before.
          simp only [Bool.or_eq_true, decide_eq_true_eq, not_or,
            not_not] at hlfn
          simp [Entry.isVisible, hlfn.2]
        · rw [Vol.erase_kind_ne hs]

/-- What `remove` does once it has found what to remove. -/
def removeRest (lookup : PathLookup) : Cmd State Unit := do
  let (ptr, lba) ← dirEntryPtr lookup.slot.cluster lookup.slot.entryIndex
  removeLfnLoop lookup.slot.cluster lookup.slot.entryIndex
  poke ptr 1 fun _ => entryRemoved
  syncSectorRange lba 1
  let s ← Cmd.get
  if s.fat32.clusterValid lookup.info.firstCluster then
    freeChain lookup.info.firstCluster

theorem removeRest_run (h : s.Holds G) {lookup : PathLookup} {b : Bool}
    {size : Nat} (hin : G.InDirs s.fat32 lookup.slot)
    (hk : s.vol.kind lookup.slot
      = .node b lookup.info.firstCluster size)
    (hempty : b = true → ∀ c ∈ G.own (.entry lookup.slot),
      ∀ i < s.fat32.entriesPerCluster,
        ∀ b f z, s.vol.kind ⟨c, i⟩ ≠ .node b f z) :
    ∃ s', removeRest lookup s = (some (), s') ∧ Moves s s' ∧
      s'.Consistent ∧ s.vol.Updates s.fat32 s'.vol lookup.slot none := by
  have hs := h.ok.sound
  set X := lookup.slot with hX
  have hin' := hin
  obtain ⟨⟨o, ho, hco⟩, hi⟩ := hin'
  have hcv := (hs.ok_iff _).mp (h.tree.owned.ok_of_mem hco)
  obtain ⟨s1, hrun1, hr1, hl1⟩ := dirEntryPtr_run h.ok hcv hi
  have hf1 := hr1.fat32
  obtain ⟨s2, hrun2, hm2, hfat2, hdata2, hkind2⟩ := removeLfnLoop_run
    (hr1.ok h.ok) (c := X.cluster) (n := X.entryIndex) (by rwa [hf1])
    (by rw [hf1]; omega)
  have hm12 := hr1.moves.trans hm2
  have hf2 := hm12.fat32
  obtain ⟨s3, hrun3, hst3⟩ := eraseSync_run (hm12.ok h.ok) (c := X.cluster)
    (i := X.entryIndex) (by rwa [hf2]) (by rwa [hf2])
    (by rw [hf2]; exact hm2.loaded _ hl1)
  rw [hf2] at hrun3
  have hm3 := hm12.trans hst3.moves
  have hfat3 : s3.vol.fat = s.vol.fat := by
    rw [hst3.vol, Vol.erase_fat, hfat2, hr1.vol]
  -- The chain is given back if there is one.
  have hchain : (G.own (.entry X)) = [] ∨
      ∃ c, s3.vol.Chain s3.fat32 c (G.own (.entry X)) := by
    rw [hm3.fat32]
    refine (h.tree.owned.chain (.entry X)).imp_right fun ⟨c, hc⟩ => ⟨c, ?_⟩
    exact hc.congr fun x _ => by rw [hfat3]
  obtain ⟨s4, hrun4, hst4⟩ := freeHead_run (hm3.ok h.ok) hchain
  have hfirst := h.tree.first _ _ _ _ hin hk
  have hvalid : s.fat32.clusterValid lookup.info.firstCluster = true ↔
      (G.own (.entry X)).headD 0 ≠ invalidCluster := by
    rw [hfirst]
    rcases h.tree.owned.chain (.entry X) with hn | ⟨c, hc⟩
    · rw [hn]
      simp [Layout.clusterValid, invalidCluster]
    · obtain ⟨t, ht⟩ := hc.eq_cons
      have hok := (hs.ok_iff c).mp hc.head_ok
      have hpos := hc.head_ok.1
      rw [ht, List.headD_cons]
      refine iff_of_true hok ?_
      show c ≠ 0
      omega
  have hm := hm3.trans hst4.moves
  have hfat4 : s4.vol.fat = (s.vol.released (G.own (.entry X))).fat := by
    rw [hst4.vol]
    simp only [Vol.released, hfat3]
  have hdata4 : ∀ c, c ≠ X.cluster → s4.vol.data c = s.vol.data c := by
    intro c hc
    rw [hst4.vol]
    show s3.vol.data c = _
    rw [hst3.vol, Vol.erase_data_ne hc, hdata2 c hc, hr1.vol]
  have hX4 : s4.vol.kind X = .hidden := by
    rw [hst4.vol]
    show s3.vol.kind X = _
    rw [hst3.vol]
    exact Vol.erase_kind _ _
  have hne4 : ∀ slot, slot ≠ X → s4.vol.kind slot = s.vol.kind slot := by
    intro slot hslot
    rw [hst4.vol]
    show s3.vol.kind slot = _
    rw [hst3.vol, Vol.erase_kind_ne hslot, hkind2, hr1.vol]
  obtain ⟨G', htree, hidle, hup⟩ :=
    h.tree.removed hs hin hk hempty hfat4 hdata4 hX4 hne4
  refine ⟨s4, ?_, hm, ⟨G', hm.ok h.ok, ?_, ?_⟩, hup⟩
  · rw [removeRest, Cmd.bind_ok hrun1]
    simp only []
    rw [Cmd.bind_ok hrun2, poke, Cmd.modify_bind_apply,
      Cmd.bind_ok hrun3, Cmd.get_bind_apply, hm3.fat32, hfirst]
    rw [hfirst] at hvalid
    simp only [hvalid]
    exact hrun4
  · rw [hm.fat32]
    exact htree
  · rw [hidle]
    exact h.idle

theorem remove_run (h : s.Holds G) (path : List UInt8) :
    (∃ lookup s', remove path s = (some (), s') ∧
      resolvePath s.toEnv s.vol path = some lookup ∧
      lookup.found = true ∧ Moves s s' ∧ s'.Consistent ∧
      s.vol.Updates s.fat32 s'.vol lookup.slot none) ∨
    (∃ s' P, remove path s = (none, s') ∧ Reads P s s') := by
  rw [remove]
  have hrun := relativeOf_run h.ok path
  cases hrel : pathToRelative s.toEnv path with
  | none =>
    rw [hrel] at hrun
    exact .inr ⟨s, ∅, Cmd.bind_err hrun, .refl ∅ s⟩
  | some relative =>
    rw [hrel] at hrun
    rw [Cmd.bind_ok hrun]
    by_cases hne : relative = []
    · exact .inr ⟨s, ∅, Cmd.require_bind_err (by simp [hne]), .refl ∅ s⟩
    rw [Cmd.require_bind (by simpa using hne)]
    obtain ⟨s1, hrun1, hr1⟩ := lookupPath_run h hrel hne
    cases hres : resolvePath s.toEnv s.vol path with
    | none =>
      rw [hres] at hrun1
      exact .inr ⟨s1, _, Cmd.bind_err hrun1, hr1⟩
    | some lookup =>
      rw [hres] at hrun1
      rw [Cmd.bind_ok hrun1]
      by_cases hf : lookup.found = true
      swap
      · rw [Bool.not_eq_true] at hf
        exact .inr ⟨s1, _, Cmd.require_bind_err hf, hr1⟩
      rw [Cmd.require_bind hf]
      obtain ⟨hin, -, -, hk⟩ := h.resolvePath_found hres hf
      -- What is left to do once a directory was found to be empty.
      have hrest : ∀ {s2 : State} {P : Set Nat}, Reads P s s2 →
          (isDirectoryAttr lookup.info.attr = true →
            ∀ c ∈ G.own (.entry lookup.slot),
            ∀ i < s.fat32.entriesPerCluster,
              ∀ b f z, s.vol.kind ⟨c, i⟩ ≠ .node b f z) →
          ∃ s', removeRest lookup s2 = (some (), s') ∧ Moves s s' ∧
            s'.Consistent ∧
            s.vol.Updates s.fat32 s'.vol lookup.slot none := by
        intro s2 P hr hempty
        obtain ⟨s', hrun', hm, hcons, hup⟩ := removeRest_run (hr.holds h) (by rwa [hr.fat32])
          (by rw [hr.vol]; exact hk) (by rwa [hr.vol, hr.fat32])
        rw [hr.vol, hr.fat32] at hup
        exact ⟨s', hrun', hr.moves.trans hm, hcons, hup⟩
      cases hd : isDirectoryAttr lookup.info.attr with
      | false =>
        obtain ⟨s', hrun', hm, hcons, hup⟩ := hrest hr1 (by simp [hd])
        exact .inl ⟨lookup, s', hrun', rfl, hf, hm, hcons, hup⟩
      | true =>
        rw [hd] at hk
        obtain ⟨hdir, hhead⟩ := h.tree.dir_head hin hk
        have hv := h.tree.head_valid h.ok.sound hhead
        have hchain : s1.vol.Chain s1.fat32 lookup.info.firstCluster
            (G.own (.entry lookup.slot)) := by
          rw [hr1.vol, hr1.fat32]
          exact h.tree.chain_of_head? hhead
        obtain ⟨r, s2, hrun2, hr2, hiff⟩ :=
          dirIsEmpty_run (hr1.ok h.ok) hchain
        have hr12 := (hr1.mono (Set.subset_univ _)).trans
          (hr2.mono (Set.subset_univ _))
        simp only [if_true, Cmd.get_bind_apply]
        rw [Cmd.require_bind (by rwa [hr1.fat32])]
        cases r with
        | none => exact .inr ⟨s2, _, Cmd.bind_err hrun2, hr12⟩
        | some _ =>
          have hempty := hiff.mp rfl
          rw [hr1.vol, hr1.fat32] at hempty
          obtain ⟨s', hrun', hm, hcons, hup⟩ := hrest hr12 fun _ => hempty
          exact .inl ⟨lookup, s', (Cmd.bind_ok hrun2).trans hrun', rfl, hf,
            hm, hcons, hup⟩

end specs

end Clks.Disk
