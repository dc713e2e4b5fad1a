/-
What the steps of an operation do to the tree.

The operations change a directory in three ways: they put an entry into
a slot, they clear one, and they make room for a name. The lemmas here
carry the tree of one volume over to the next along each of them, with
the ghost that goes with it, so that an operation's own proof is about
which of them it takes and what becomes of its chains.
-/
import Clks.Disk.Files
import Clks.Disk.Proofs.DirWrite

namespace Clks.Disk

open Bytes Linked

-- ==== no change

/-- The volumes differ in the bytes of free clusters at most. -/
structure Vol.Same (L : Layout) (v v' : Vol) : Prop where
  fat : v'.fat = v.fat
  data : ∀ c, c ∉ v.freeSet L → v'.data c = v.data c

/-- On the next volume, one slot holds a file with this content or none,
and the other slots hold the files they held, where they held them. -/
structure Vol.Updates (L : Layout) (v v' : Vol) (slot : DirSlot)
    (content : Option (List UInt8)) : Prop where
  file : ∀ bytes, v'.IsFile L slot bytes ↔ content = some bytes
  others : ∀ slot' l z bytes, slot' ≠ slot →
    (v'.FileOn L slot' l z bytes ↔ v.FileOn L slot' l z bytes)

section tree

variable {L : Layout} {total : Nat} {v v' w : Vol} {G G' : Ghost}

theorem Vol.Same.refl (L : Layout) (v : Vol) : v.Same L v :=
  ⟨rfl, fun _ _ => rfl⟩

theorem Tree.notMem_freeSet (h : Tree L v.fat v.kind G) {o : Owner}
    {c : Nat} (hc : c ∈ G.own o) : c ∉ v.freeSet L := fun hf =>
  h.owned.not_free hc (Vol.mem_freeSet.mp hf).2.2

theorem Ghost.kind_congr {L : Layout}
    (hd : ∀ o c, G.dir o → c ∈ G.own o → v'.data c = v.data c)
    (slot : DirSlot) (hin : G.InDirs L slot) :
    v'.kind slot = v.kind slot := by
  obtain ⟨⟨o, ho, hc⟩, -⟩ := hin
  exact Vol.kind_congr (hd o _ ho hc)

theorem Tree.same (h : Tree L v.fat v.kind G) (hs : v.Same L v') :
    Tree L v'.fat v'.kind G := by
  rw [hs.fat]
  refine h.congr (Ghost.kind_congr fun o c ho hc => ?_)
  exact hs.data c (h.notMem_freeSet hc)

theorem Tree.fileOn_congr (hs : L.Sound total) (h : Tree L v.fat v.kind G)
    (h' : Tree L v'.fat v'.kind G') {slot : DirSlot}
    (hk : ∀ f z, (G'.InDirs L slot ∧ v'.kind slot = .node false f z) ↔
      (G.InDirs L slot ∧ v.kind slot = .node false f z))
    (ho : (∃ f z, v.kind slot = .node false f z) →
      G'.own (.entry slot) = G.own (.entry slot))
    (hd : (∃ f z, v.kind slot = .node false f z) →
      ∀ c ∈ G.own (.entry slot), v'.data c = v.data c)
    (l : List Nat) (z : Nat) (bytes : List UInt8) :
    v'.FileOn L slot l z bytes ↔ v.FileOn L slot l z bytes := by
  rw [h.fileOn_iff hs, h'.fileOn_iff hs]
  constructor
  · rintro ⟨hin, rfl, f, hkind, rfl⟩
    obtain ⟨hin', hkind'⟩ := (hk f z).mp ⟨hin, hkind⟩
    rw [ho ⟨f, z, hkind'⟩]
    exact ⟨hin', rfl, f, hkind', Vol.content_congr (hd ⟨f, z, hkind'⟩)⟩
  · rintro ⟨hin, rfl, f, hkind, rfl⟩
    obtain ⟨hin', hkind'⟩ := (hk f z).mpr ⟨hin, hkind⟩
    rw [ho ⟨f, z, hkind⟩]
    exact ⟨hin', rfl, f, hkind',
      (Vol.content_congr (hd ⟨f, z, hkind⟩)).symm⟩

theorem Tree.fileOn_same (hs : L.Sound total) (h : Tree L v.fat v.kind G)
    (hv : v.Same L v') (slot : DirSlot) (l : List Nat) (z : Nat)
    (bytes : List UInt8) :
    v'.FileOn L slot l z bytes ↔ v.FileOn L slot l z bytes := by
  refine h.fileOn_congr hs (h.same hv) (fun f z => ?_) (fun _ => rfl)
    (fun _ c hc => hv.data c (h.notMem_freeSet hc)) l z bytes
  refine and_congr_right fun hin => ?_
  rw [Ghost.kind_congr (v := v) (fun o c ho hc =>
    hv.data c (h.notMem_freeSet hc)) slot hin]

theorem Tree.isFile_same (hs : L.Sound total) (h : Tree L v.fat v.kind G)
    (hv : v.Same L v') (slot : DirSlot) (bytes : List UInt8) :
    v'.IsFile L slot bytes ↔ v.IsFile L slot bytes :=
  exists_congr fun l => exists_congr fun z =>
    h.fileOn_same hs hv slot l z bytes

theorem State.Holds.resolvePath_congr {s : State} (h : s.Holds G)
    (ht : Tree s.fat32 v'.fat v'.kind G)
    (hd : ∀ o c, G.dir o → c ∈ G.own o → v'.data c = s.vol.data c)
    (path : List UInt8) :
    resolvePath s.toEnv v' path = resolvePath s.toEnv s.vol path := by
  unfold resolvePath
  cases pathToRelative s.toEnv path with
  | none => rfl
  | some relative =>
    simp only []
    split_ifs with hne
    · rfl
    · apply h.tree.resolve_congr h.ok.sound h.tree.root_dir
        h.tree.root_head
      intro q e hq he
      rw [h.tree.listing_eq h.ok.sound he, ht.listing_eq h.ok.sound he]
      exact Vol.dirEntries_congr fun c hc => hd q c hq hc

theorem State.Holds.resolvePath_same {s : State} (h : s.Holds G)
    (hv : s.vol.Same s.fat32 v') (path : List UInt8) :
    resolvePath s.toEnv v' path = resolvePath s.toEnv s.vol path :=
  h.resolvePath_congr (h.tree.same hv)
    (fun _ c _ hc => hv.data c (h.tree.notMem_freeSet hc)) path

theorem State.Holds.same {s s' : State} (h : s.Holds G) (hm : Moves s s')
    (hv : s.vol.Same s.fat32 s'.vol) : s'.Holds G where
  ok := hm.ok h.ok
  tree := by
    rw [hm.fat32]
    exact h.tree.same hv
  idle := h.idle

theorem State.Holds.fileAt_same {s s' : State} (h : s.Holds G)
    (hm : Moves s s') (hv : s.vol.Same s.fat32 s'.vol)
    (path : List UInt8) :
    fileAt s'.toEnv s'.vol path = fileAt s.toEnv s.vol path := by
  refine Option.ext fun bytes => ?_
  rw [(h.same hm hv).fileAt_iff, h.fileAt_iff, hm.env,
    h.resolvePath_same hv]
  simp only [h.tree.isFile_same h.ok.sound hv]

-- ==== entering a file

theorem Layout.Sound.headD_lt (hs : L.Sound total) {fat : Nat → Nat}
    {own : Owner → List Nat} (h : Owned L.marks fat own) (o : Owner) :
    (own o).headD 0 < 2 ^ 32 := by
  cases hl : own o with
  | nil => decide
  | cons c t =>
    have hc := (h.chain_of_head hl).head_ok.2.1
    have hcnt := hs.count_le
    rw [List.headD_cons]
    omega

theorem Tree.setFile (h : Tree L v.fat v.kind G) (G' : Ghost) {X : DirSlot} {e : Entry}
    {size : Nat} (hX : G.InDirs L X)
    (hold : v.kind X = .hidden ∨ ∃ f z, v.kind X = .node false f z)
    (he : e.kind = .node false ((G'.own (.entry X)).headD 0) size)
    (htail : ∀ k, 32 ≤ k → e k = 0)
    (hlen : (G'.own (.entry X)).length = L.clustersFor size)
    (hw : ∀ o c, G.dir o → c ∈ G.own o → w.data c = v.data c)
    (hdir : G'.dir = G.dir) (hrank : G'.rank = G.rank)
    (ho : ∀ o, o ≠ .entry X → o ≠ .pending → G'.own o = G.own o)
    (hown : Owned L.marks w.fat G'.own) :
    Tree L (w.setEntry X e).fat (w.setEntry X e).kind G' := by
  refine h.file hdir hrank hX hold (.inr ⟨size, ?_, hlen⟩) ?_ ho hown
  · rw [Vol.kind, Vol.setEntry_entry_self htail, he]
  · intro slot hin hne
    rw [Vol.kind, Vol.setEntry_entry_ne hne]
    exact Ghost.kind_congr hw slot hin

theorem Tree.setFile_updates (h : Tree L v.fat v.kind G) (G' : Ghost)
    (hs : L.Sound total) {X : DirSlot} {e : Entry} {first size : Nat}
    (hX : G.InDirs L X)
    (he : e.kind = .node false first size)
    (htail : ∀ k, 32 ≤ k → e k = 0)
    (hw : ∀ o c, o ≠ .entry X → o ≠ .pending → c ∈ G.own o →
      w.data c = v.data c)
    (hdir : G'.dir = G.dir)
    (ho : ∀ o, o ≠ .entry X → o ≠ .pending → G'.own o = G.own o)
    (hnd : ¬ G.dir (.entry X))
    (h' : Tree L (w.setEntry X e).fat (w.setEntry X e).kind G')
    (hout : X.cluster ∉ G'.own (.entry X)) :
    v.Updates L (w.setEntry X e) X
      (some (w.content L (G'.own (.entry X)) size)) := by
  have hdo : ∀ o, G.dir o → o ≠ .entry X ∧ o ≠ .pending := by
    intro o hd
    refine ⟨?_, ?_⟩
    · rintro rfl
      exact hnd hd
    · rintro rfl
      exact h.pending_not_dir hd
  have hin : ∀ slot, G'.InDirs L slot ↔ G.InDirs L slot :=
    Ghost.inDirs_congr (fun o => by rw [hdir])
      fun o hd => ho o (hdo o hd).1 (hdo o hd).2
  refine ⟨fun bytes => ?_, fun slot l z bytes hslot => ?_⟩
  · rw [h'.isFile_iff hs, Vol.kind, Vol.setEntry_entry_self htail, he,
      Option.some.injEq]
    have hc : (w.setEntry X e).content L (G'.own (.entry X)) size
        = w.content L (G'.own (.entry X)) size :=
      Vol.content_congr fun c hc =>
        Vol.setEntry_data_ne fun heq => hout (heq ▸ hc)
    constructor
    · rintro ⟨-, f, z, hk, rfl⟩
      cases hk
      exact hc.symm
    · rintro rfl
      exact ⟨(hin X).mpr hX, first, size, rfl, hc.symm⟩
  · refine h.fileOn_congr hs h' (fun f z => ?_)
      (fun _ => ho _ (by simpa using hslot) (by simp))
      (fun hfile c hc => ?_) l z bytes
    · rw [hin]
      refine and_congr_right fun hi => ?_
      rw [Vol.kind, Vol.setEntry_entry_ne hslot]
      exact iff_of_eq (congrArg (· = _) (Ghost.kind_congr (fun o c hd hc =>
        hw o c (hdo o hd).1 (hdo o hd).2 hc) slot hi))
    · obtain ⟨f, z, hk⟩ := hfile
      have hne : Owner.entry slot ≠ .entry X := by simpa using hslot
      -- The slot's cluster belongs to a directory, not to this file.
      have hcX : c ≠ X.cluster := by
        rintro rfl
        obtain ⟨⟨o, hd, hco⟩, -⟩ := hX
        have := h.dir_unique hc hco
        subst this
        exact h.file_not_dir hk hd
      rw [Vol.setEntry_data_ne hcX]
      exact hw _ c hne (by simp) hc

-- ==== making room

theorem Vol.kind_of_free {slot : DirSlot}
    (h : (v.entry slot).isFree = true) : v.kind slot = .hidden :=
  Entry.kind_of_free h

theorem Tree.extends (hs : L.Sound total) (h : Tree L v.fat v.kind G)
    {o : Owner} (ho : G.dir o) {n : Nat} {v1 : Vol}
    (hx : Extends v v1 L (G.own o) n) :
    Tree L v1.fat v1.kind (G.setOwn o (G.own o ++ [n])) ∧
      (∀ o', n ∉ G.own o') ∧ (∀ c, c ≠ n → v1.data c = v.data c) ∧
      ∀ i, v1.kind ⟨n, i⟩ = .hidden := by
  obtain ⟨pre, z, hl, hv1⟩ := hx.links
  obtain ⟨h1, h2, h3⟩ := Vol.mem_freeSet.mp hx.free
  have hnot : ∀ o', n ∉ G.own o' := fun o' hn => h.notMem_freeSet hn hx.free
  have hnz : n ≠ z := by
    rintro rfl
    exact hnot o (by simp [hl])
  have hfat : ∀ x, x ≠ n → x ≠ z → v1.fat x = v.fat x := by
    intro x hxn hxz
    rw [hv1, Vol.setFat_fat_ne _ _ hxz, Vol.setData_fat,
      Vol.setFat_fat_ne _ _ hxn]
  have hdata : ∀ c, c ≠ n → v1.data c = v.data c := by
    intro c hc
    rw [hv1, Vol.setFat_data, Vol.setData_data_ne _ _ hc, Vol.setFat_data]
  have hkind : ∀ i, v1.kind ⟨n, i⟩ = .hidden := by
    intro i
    refine Vol.kind_of_free ?_
    simp only [hv1, Entry.isFree, Vol.entry, entryAt, Vol.setFat_data,
      Vol.setData_data_self, ite_self, decide_true, Bool.true_or]
  have hout : ∀ {o' c}, c ∈ G.own o' → v1.data c = v.data c := by
    intro o' c hc
    refine hdata c ?_
    rintro rfl
    exact hnot o' hc
  refine ⟨?_, hnot, hdata, hkind⟩
  refine h.extend ho hnot ?_
    (Ghost.kind_congr fun _ _ _ hc => hout hc) (fun i _ => hkind i)
  refine h.owned.replace o _ (fun a ha ha' => ?_) (.inr ?_)
    (fun a ha hna => ?_) (fun a ha ha' => ?_)
  · refine hfat a (fun he => ha' (by simp [he])) ?_
    rintro rfl
    exact ha (by simp [hl])
  · -- The new cluster is linked behind the last one.
    obtain ⟨a, hc⟩ := (h.owned.chain o).resolve_left (h.dir_own_ne ho)
    have hnd := List.nodup_append.mp (hl ▸ hc.nodup)
    refine ⟨a, ?_⟩
    rw [hl] at hc ⊢
    rw [List.append_assoc, List.singleton_append]
    refine hc.append (b := n) (.last ?_ ?_) ?_ ?_
    · refine ⟨h2, h1, ?_⟩
      have hcnt := hs.count_le
      show n < 0x0FFFFFF8
      omega
    · rw [hv1, Vol.setFat_fat_ne _ _ hnz, Vol.setData_fat,
        Vol.setFat_fat_self]
      show eocMin ≤ eoc
      decide
    · rw [hv1, Vol.setFat_fat_self]
    · intro x hxp
      refine hfat x ?_ (hnd.2.2 x hxp z (by simp))
      rintro rfl
      exact hnot o (by simp [hl, hxp])
  · rcases List.mem_append.mp ha with ha | ha
    · exact absurd ha hna
    · rw [List.mem_singleton.mp ha]
      exact h3
  · exact absurd (List.mem_append_left _ ha) ha'

/-- The slot of a name's entry, behind its long-name entries. -/
def nameSlot (slot : DirSlot) (component : List UInt8) : DirSlot :=
  ⟨slot.cluster, slot.entryIndex + lfnCountOf component⟩

/-- The volume with a name's long-name entries in place. -/
def Vol.withLfn (v : Vol) (slot : DirSlot) (component : List UInt8)
    (sfn : Sfn) : Vol :=
  v.setEntries slot.cluster slot.entryIndex
    (lfnEntries component (lfnChecksum sfn) (lfnCountOf component))

theorem Vol.setEntries_named (v : Vol) (slot : DirSlot)
    (component : List UInt8) (sfn : Sfn) (attr : UInt8) (first size : Nat) :
    v.setEntries slot.cluster slot.entryIndex
        (namedEntries component sfn attr first size)
      = (v.withLfn slot component sfn).setEntry (nameSlot slot component)
        (buildDirEntry sfn attr first size) := by
  rw [namedEntries, Vol.setEntries_append]
  simp [Vol.setEntries, Vol.withLfn, nameSlot, lfnEntries]

/-- A run of slots that is free, in a directory as it is or in its new
cluster. -/
def RoomFor (L : Layout) (v v₁ : Vol) (l : List Nat) (slot : DirSlot)
    (needed : Nat) : Prop :=
  freeSlotIn L v needed l = some slot ∧ v₁ = v ∨
    freeSlotIn L v needed l = none ∧ Extends v v₁ L l slot.cluster ∧
      slot.entryIndex = 0

theorem Tree.withLfn (hs : L.Sound total) (h : Tree L v.fat v.kind G)
    {o : Owner} (ho : G.dir o) {slot : DirSlot} {component : List UInt8}
    {sfn : Sfn} {v1 : Vol}
    (hroom : RoomFor L v v1 (G.own o) slot (lfnCountOf component + 1)) :
    ∃ G1, Tree L (v1.withLfn slot component sfn).fat
        (v1.withLfn slot component sfn).kind G1 ∧
      G1.dir = G.dir ∧ G1.rank = G.rank ∧
      (∀ o', o' ≠ o → G1.own o' = G.own o') ∧
      (G1.own o = G.own o ∨
        G1.own o = G.own o ++ [slot.cluster] ∧
          ∀ o', slot.cluster ∉ G.own o') ∧
      slot.cluster ∈ G1.own o ∧
      (v1.withLfn slot component sfn).kind (nameSlot slot component)
        = .hidden ∧
      (∀ c, c ≠ slot.cluster →
        (v1.withLfn slot component sfn).data c = v.data c) ∧
      (∀ X, G.InDirs L X →
        (v1.withLfn slot component sfn).kind X = v.kind X) ∧
      (∀ X, G1.InDirs L X → G.InDirs L X ∨
        (v1.withLfn slot component sfn).kind X = .hidden) := by
  set k := lfnCountOf component with hk
  -- The slots of the run hold nothing, before and after.
  have hlfn : (∀ j ≤ k, v1.kind ⟨slot.cluster, slot.entryIndex + j⟩ = .hidden)
      → ∀ X, (v1.withLfn slot component sfn).kind X = v1.kind X := by
    intro hfree X
    by_cases hX : X.cluster ≠ slot.cluster ∨ X.entryIndex < slot.entryIndex ∨
        slot.entryIndex + k ≤ X.entryIndex
    · rw [Vol.kind, Vol.withLfn, Vol.setEntries_entry_out _
        (by simpa [lfnEntries, ← hk] using hX)]
      rfl
    · obtain ⟨c, i⟩ := X
      simp only [not_or, not_not, not_lt, not_le] at hX
      obtain ⟨rfl, h1, h2⟩ := hX
      obtain ⟨j, rfl⟩ := Nat.exists_eq_add_of_le h1
      have hj : j < (lfnEntries component (lfnChecksum sfn) k).length := by
        simp [lfnEntries]
        omega
      rw [hfree j (by omega), Vol.kind, Vol.withLfn,
        Vol.setEntries_entry_in (fun e he m hm => ?_) hj]
      · simp only [lfnEntries, List.getElem_map]
        exact buildLfnEntry_kind _ _ _
      · obtain ⟨i, -, rfl⟩ := List.mem_map.mp he
        exact buildLfnEntry_tail _ _ _ hm
  have hdata : ∀ c, c ≠ slot.cluster →
      (v1.withLfn slot component sfn).data c = v1.data c :=
    fun c hc => Vol.setEntries_data_ne hc _
  have hfat : (v1.withLfn slot component sfn).fat = v1.fat :=
    Vol.setEntries_fat _ _ _
  rcases hroom with ⟨hfs, rfl⟩ | ⟨-, hx, hi⟩
  · obtain ⟨hcl, -, hfree⟩ := freeSlotIn_some (Nat.succ_pos k) hfs
    have hkinds := hlfn fun j hj =>
      Vol.kind_of_free (hfree j (Nat.lt_succ_of_le hj))
    refine ⟨G, ?_, rfl, rfl, fun _ _ => rfl, .inl rfl, hcl, ?_, hdata,
      fun X _ => hkinds X, fun _ => .inl⟩
    · rw [hfat]
      exact h.congr fun X _ => hkinds X
    · rw [hkinds]
      exact Vol.kind_of_free (hfree k (Nat.lt_succ_self k))
  · obtain ⟨ht, hnot, hd1, hempty⟩ := h.extends hs ho hx
    have hkinds := hlfn fun j _ => hempty _
    refine ⟨G.setOwn o (G.own o ++ [slot.cluster]), ?_, rfl, rfl,
      fun o' ho' => G.setOwn_ne _ ho', ?_, ?_, ?_,
      fun c hc => (hdata c hc).trans (hd1 c hc), fun X hX => ?_,
      fun X hX => ?_⟩
    · rw [hfat]
      exact ht.congr fun X _ => hkinds X
    · exact .inr ⟨G.setOwn_self _ _, hnot⟩
    · rw [G.setOwn_self]
      simp
    · rw [hkinds]
      exact hempty _
    · rw [hkinds]
      refine Ghost.kind_congr (fun o' c _ hc => hd1 c ?_) X hX
      rintro rfl
      exact hnot o' hc
    · obtain ⟨⟨o', ho', hc⟩, hi'⟩ := hX
      by_cases hoo : o' = o
      · subst hoo
        rw [G.setOwn_self, List.mem_append, List.mem_singleton] at hc
        rcases hc with hc | hc
        · exact .inl ⟨⟨o', ho', hc⟩, hi'⟩
        · right
          obtain ⟨c, i⟩ := X
          obtain rfl : c = slot.cluster := hc
          rw [hkinds]
          exact hempty i
      · rw [G.setOwn_ne _ hoo] at hc
        exact .inl ⟨⟨o', ho', hc⟩, hi'⟩

-- ==== handing over

/-- The pending chain goes to an entry. -/
def Ghost.handOver (G : Ghost) (X : DirSlot) : Ghost :=
  { G with
    own := Function.update
      (Function.update G.own (.entry X) (G.own .pending)) .pending [] }

theorem Ghost.handOver_self (G : Ghost) (X : DirSlot) :
    (G.handOver X).own (.entry X) = G.own .pending := by
  simp [handOver]

theorem Ghost.handOver_ne (G : Ghost) {X : DirSlot} {o : Owner}
    (h : o ≠ .entry X) (hp : o ≠ .pending) :
    (G.handOver X).own o = G.own o := by
  simp [handOver, h, hp]

@[simp] theorem Ghost.handOver_pending (G : Ghost) (X : DirSlot) :
    (G.handOver X).own .pending = [] := by
  simp [handOver]

theorem Tree.handOver_owned (h : Tree L v.fat v.kind G) {X : DirSlot}
    (hX : v.kind X = .hidden) : Owned L.marks v.fat (G.handOver X).own := by
  refine h.owned.move (i := .pending) (j := .entry X) (by simp) ?_
  by_contra hne
  obtain ⟨-, b, f, z, hk⟩ := h.own_node X hne
  rw [hX] at hk
  cases hk

end tree

end Clks.Disk
