/-
The directory tree as an abstract structure over the link table.
-/
import Clks.Disk.Directory
import Clks.Disk.Proofs.Alloc

namespace Clks.Disk

open Linked

/-- What a directory entry is to the tree. -/
inductive Kind
  | hidden
  | dots
  | node (isDir : Bool) (first size : Nat)
  deriving DecidableEq, Repr

/-- Who may own a chain. -/
inductive Owner
  | root
  | entry (slot : DirSlot)
  | pending
  deriving DecidableEq, Repr

/-- The chains of the owners, the directories among them, and their
depth. -/
structure Ghost where
  own : Owner → List Nat
  dir : Owner → Prop
  rank : Owner → Nat

/-- The slot lies in a directory. -/
def Ghost.InDirs (G : Ghost) (L : Layout) (slot : DirSlot) : Prop :=
  (∃ o, G.dir o ∧ slot.cluster ∈ G.own o) ∧
    slot.entryIndex < L.entriesPerCluster

/-- How many clusters hold `size` bytes. -/
def Layout.clustersFor (L : Layout) (size : Nat) : Nat :=
  (size + L.clusterSizeBytes - 1) / L.clusterSizeBytes

/-- The tree invariant, see the header. -/
structure Tree (L : Layout) (fat : Nat → Nat) (kind : DirSlot → Kind)
    (G : Ghost) : Prop where
  owned : Owned L.marks fat G.own
  root_dir : G.dir .root
  pending_not_dir : ¬ G.dir .pending
  root_head : (G.own .root).head? = some L.rootCluster
  dir_iff : ∀ slot, G.dir (.entry slot) ↔
    G.InDirs L slot ∧ ∃ first size, kind slot = .node true first size
  dir_chain : ∀ slot, G.dir (.entry slot) → G.own (.entry slot) ≠ []
  rank_lt : ∀ o slot, G.dir o → slot.cluster ∈ G.own o →
    G.dir (.entry slot) → G.rank o < G.rank (.entry slot)
  own_node : ∀ slot, G.own (.entry slot) ≠ [] →
    G.InDirs L slot ∧ ∃ b first size, kind slot = .node b first size
  first : ∀ slot b first size, G.InDirs L slot →
    kind slot = .node b first size →
    first = (G.own (.entry slot)).headD 0
  file_len : ∀ slot first size, G.InDirs L slot →
    kind slot = .node false first size →
    (G.own (.entry slot)).length = L.clustersFor size
  dots : ∀ o c i, G.dir o → c ∈ G.own o → i < L.entriesPerCluster →
    kind ⟨c, i⟩ = .dots →
    (G.own o).head? = some c ∧ (i = 0 ∨ i = 1 ∧ kind ⟨c, 0⟩ = .dots)

namespace Tree

variable {L : Layout} {fat fat' : Nat → Nat} {kind kind' : DirSlot → Kind}
  {G : Ghost}

-- ==== directories' chains

theorem dir_own_ne (h : Tree L fat kind G) {o : Owner} (ho : G.dir o) :
    G.own o ≠ [] := by
  cases o with
  | root =>
    intro he
    have := h.root_head
    rw [he] at this
    cases this
  | entry slot => exact h.dir_chain slot ho
  | pending => exact absurd ho h.pending_not_dir

theorem dir_own_chain (h : Tree L fat kind G) {o : Owner}
    (ho : G.dir o) :
    ∃ c, (G.own o).head? = some c ∧ Chain L.marks fat c (G.own o) := by
  rcases h.owned.chain o with he | ⟨c, hc⟩
  · exact absurd he (h.dir_own_ne ho)
  · obtain ⟨t, ht⟩ := hc.eq_cons
    exact ⟨c, by rw [ht]; rfl, hc⟩

theorem dir_unique (h : Tree L fat kind G) {o o' : Owner} {c : Nat}
    (hc : c ∈ G.own o) (hc' : c ∈ G.own o') : o = o' :=
  h.owned.owner_unique hc hc'

-- ==== the steps

theorem congr (h : Tree L fat kind G)
    (hk : ∀ slot, G.InDirs L slot → kind' slot = kind slot) :
    Tree L fat kind' G where
  owned := h.owned
  root_dir := h.root_dir
  pending_not_dir := h.pending_not_dir
  root_head := h.root_head
  dir_iff slot := by
    rw [h.dir_iff slot]
    refine and_congr_right fun hin => ?_
    rw [hk slot hin]
  dir_chain := h.dir_chain
  rank_lt := h.rank_lt
  own_node slot hs := by
    obtain ⟨hin, hkind⟩ := h.own_node slot hs
    exact ⟨hin, by rwa [hk slot hin]⟩
  first slot b f z hin hkind := by
    rw [hk slot hin] at hkind
    exact h.first slot b f z hin hkind
  file_len slot f z hin hkind := by
    rw [hk slot hin] at hkind
    exact h.file_len slot f z hin hkind
  dots o c i ho hc hi hkind := by
    have hin : G.InDirs L ⟨c, i⟩ := ⟨⟨o, ho, hc⟩, hi⟩
    have hin0 : G.InDirs L ⟨c, 0⟩ := ⟨⟨o, ho, hc⟩, Nat.zero_lt_of_lt hi⟩
    rw [hk _ hin] at hkind
    rw [hk _ hin0]
    exact h.dots o c i ho hc hi hkind

theorem relink (h : Tree L fat kind G) (hown : Owned L.marks fat' G.own) :
    Tree L fat' kind G :=
  ⟨hown, h.root_dir, h.pending_not_dir, h.root_head, h.dir_iff, h.dir_chain,
    h.rank_lt, h.own_node, h.first, h.file_len, h.dots⟩

end Tree

/-- The ghost with another chain for one owner. -/
def Ghost.setOwn (G : Ghost) (o : Owner) (l : List Nat) : Ghost :=
  { G with own := Function.update G.own o l }

@[simp] theorem Ghost.setOwn_self (G : Ghost) (o : Owner) (l : List Nat) :
    (G.setOwn o l).own o = l := by
  simp [setOwn]

theorem Ghost.setOwn_ne (G : Ghost) {o o' : Owner} (l : List Nat)
    (h : o' ≠ o) : (G.setOwn o l).own o' = G.own o' := by
  simp [setOwn, h]

@[simp] theorem Ghost.setOwn_dir (G : Ghost) (o : Owner) (l : List Nat) :
    (G.setOwn o l).dir = G.dir := rfl

theorem Ghost.inDirs_congr {G G' : Ghost} {L : Layout}
    (hd : ∀ o, G'.dir o ↔ G.dir o) (ho : ∀ o, G.dir o → G'.own o = G.own o)
    (slot : DirSlot) : G'.InDirs L slot ↔ G.InDirs L slot := by
  refine and_congr_left fun _ => exists_congr fun o => ?_
  rw [hd o]
  refine and_congr_right fun h => ?_
  rw [ho o h]

namespace Tree

variable {L : Layout} {fat fat' : Nat → Nat} {kind kind' : DirSlot → Kind}
  {G : Ghost}

theorem pending_inDirs (h : Tree L fat kind G) (l : List Nat)
    (slot : DirSlot) :
    (G.setOwn .pending l).InDirs L slot ↔ G.InDirs L slot := by
  refine Ghost.inDirs_congr (fun o => by rw [G.setOwn_dir])
    (fun o hd => ?_) slot
  refine G.setOwn_ne l ?_
  rintro rfl
  exact h.pending_not_dir hd

theorem pending (h : Tree L fat kind G) {l : List Nat}
    (hown : Owned L.marks fat' (G.setOwn .pending l).own) :
    Tree L fat' kind (G.setOwn .pending l) := by
  have hne : ∀ o, G.dir o → o ≠ .pending := fun o ho he =>
    h.pending_not_dir (he ▸ ho)
  have ho : ∀ o, o ≠ .pending → (G.setOwn .pending l).own o = G.own o :=
    fun o he => G.setOwn_ne l he
  have hin := h.pending_inDirs l
  refine ⟨hown, h.root_dir, h.pending_not_dir, ?_, ?_, ?_, ?_, ?_, ?_, ?_, ?_⟩
  · rw [ho _ (by simp)]
    exact h.root_head
  · intro slot
    rw [hin]
    exact h.dir_iff slot
  · intro slot hd
    rw [ho _ (by simp)]
    exact h.dir_chain slot hd
  · intro o slot hd hc hs
    rw [ho o (hne o hd)] at hc
    exact h.rank_lt o slot hd hc hs
  · intro slot hs
    rw [ho _ (by simp)] at hs
    rw [hin]
    exact h.own_node slot hs
  · intro slot b f z hs hk
    rw [hin] at hs
    rw [ho _ (by simp)]
    exact h.first slot b f z hs hk
  · intro slot f z hs hk
    rw [hin] at hs
    rw [ho _ (by simp)]
    exact h.file_len slot f z hs hk
  · intro o c i hd hc hi hk
    rw [ho o (hne o hd)] at hc ⊢
    exact h.dots o c i hd hc hi hk

theorem extend (h : Tree L fat kind G) {o : Owner} {n : Nat}
    (hd : G.dir o) (hn : ∀ o', n ∉ G.own o')
    (hown : Owned L.marks fat' (G.setOwn o (G.own o ++ [n])).own)
    (hk : ∀ slot, G.InDirs L slot → kind' slot = kind slot)
    (hz : ∀ i < L.entriesPerCluster, kind' ⟨n, i⟩ = .hidden) :
    Tree L fat' kind' (G.setOwn o (G.own o ++ [n])) := by
  set G' := G.setOwn o (G.own o ++ [n]) with hG'
  have hne := h.dir_own_ne hd
  have ho : ∀ o', o' ≠ o → G'.own o' = G.own o' :=
    fun o' he => G.setOwn_ne _ he
  have hoo : G'.own o = G.own o ++ [n] := G.setOwn_self _ _
  have hhead : ∀ o', (G'.own o').head? = (G.own o').head? := by
    intro o'
    by_cases he : o' = o
    · subst he
      rw [hoo, List.head?_append_of_ne_nil _ hne]
    · rw [ho o' he]
  have hmem : ∀ o' c, c ∈ G'.own o' → c ∈ G.own o' ∨ c = n := by
    intro o' c hc
    by_cases he : o' = o
    · subst he
      rw [hoo, List.mem_append, List.mem_singleton] at hc
      exact hc
    · rw [ho o' he] at hc
      exact .inl hc
  have hup : ∀ slot, G.InDirs L slot → G'.InDirs L slot := by
    rintro slot ⟨⟨o', ho', hc⟩, hi⟩
    refine ⟨⟨o', ho', ?_⟩, hi⟩
    by_cases he : o' = o
    · subst he
      rw [hoo]
      exact List.mem_append_left _ hc
    · rwa [ho o' he]
  -- Nothing lives in the new slots.
  have hdown : ∀ slot b f z, G'.InDirs L slot → kind' slot = .node b f z →
      G.InDirs L slot ∧ kind slot = .node b f z := by
    rintro slot b f z ⟨⟨o', ho', hc⟩, hi⟩ hkind
    rcases hmem o' _ hc with hc | hc
    · have hin : G.InDirs L slot := ⟨⟨o', ho', hc⟩, hi⟩
      exact ⟨hin, by rwa [← hk slot hin]⟩
    · obtain ⟨c, i⟩ := slot
      obtain rfl : c = n := hc
      rw [hz i hi] at hkind
      cases hkind
  refine ⟨hown, h.root_dir, h.pending_not_dir, ?_, ?_, ?_, ?_, ?_, ?_, ?_, ?_⟩
  · rw [hhead]
    exact h.root_head
  · intro slot
    refine (h.dir_iff slot).trans ⟨?_, ?_⟩
    · rintro ⟨hin, f, z, hkind⟩
      exact ⟨hup slot hin, f, z, by rwa [hk slot hin]⟩
    · rintro ⟨hin, f, z, hkind⟩
      obtain ⟨hin, hkind⟩ := hdown slot _ _ _ hin hkind
      exact ⟨hin, f, z, hkind⟩
  · intro slot hs he
    have hnil := congrArg List.head? he
    rw [hhead] at hnil
    exact h.dir_chain slot hs (List.head?_eq_none_iff.mp hnil)
  · intro o' slot ho' hc hs
    rcases hmem o' _ hc with hc | hc
    · exact h.rank_lt o' slot ho' hc hs
    · obtain ⟨⟨⟨o'', _, hc''⟩, _⟩, _⟩ := (h.dir_iff slot).mp hs
      exact absurd (hc ▸ hc'') (hn o'')
  · intro slot hs
    have hs' : G.own (.entry slot) ≠ [] := by
      intro he
      have := hhead (.entry slot)
      rw [he] at this
      exact hs (List.head?_eq_none_iff.mp this)
    obtain ⟨hin, b, f, z, hkind⟩ := h.own_node slot hs'
    exact ⟨hup slot hin, b, f, z, by rwa [hk slot hin]⟩
  · intro slot b f z hin hkind
    obtain ⟨hin, hkind⟩ := hdown slot _ _ _ hin hkind
    rw [h.first slot b f z hin hkind, List.headD_eq_head?_getD,
      List.headD_eq_head?_getD, hhead]
  · intro slot f z hin hkind
    obtain ⟨hin, hkind⟩ := hdown slot _ _ _ hin hkind
    have he : Owner.entry slot ≠ o := by
      rintro rfl
      obtain ⟨_, f', z', hk'⟩ := (h.dir_iff slot).mp hd
      rw [hkind] at hk'
      cases hk'
    rw [ho _ he]
    exact h.file_len slot f z hin hkind
  · intro o' c i ho' hc hi hkind
    rcases hmem o' c hc with hc | hc
    · have hin : G.InDirs L ⟨c, i⟩ := ⟨⟨o', ho', hc⟩, hi⟩
      have hin0 : G.InDirs L ⟨c, 0⟩ := ⟨⟨o', ho', hc⟩, Nat.zero_lt_of_lt hi⟩
      rw [hk _ hin] at hkind
      rw [hhead, hk _ hin0]
      exact h.dots o' c i ho' hc hi hkind
    · subst hc
      rw [hz i hi] at hkind
      cases hkind

theorem file (h : Tree L fat kind G) {X : DirSlot} {G' : Ghost}
    (hdir : G'.dir = G.dir) (hrank : G'.rank = G.rank)
    (hX : G.InDirs L X)
    (hold : kind X = .hidden ∨ ∃ f z, kind X = .node false f z)
    (hnew : kind' X = .hidden ∧ G'.own (.entry X) = [] ∨
      ∃ z, kind' X = .node false ((G'.own (.entry X)).headD 0) z ∧
        (G'.own (.entry X)).length = L.clustersFor z)
    (hk : ∀ slot, G.InDirs L slot → slot ≠ X → kind' slot = kind slot)
    (ho : ∀ o, o ≠ .entry X → o ≠ .pending → G'.own o = G.own o)
    (hown : Owned L.marks fat' G'.own) : Tree L fat' kind' G' := by
  have hnd : ¬ G.dir (.entry X) := by
    intro hd
    obtain ⟨_, f, z, hkind⟩ := (h.dir_iff X).mp hd
    rcases hold with hold | ⟨f', z', hold⟩ <;> rw [hkind] at hold <;> cases hold
  have hod : ∀ o, G.dir o → G'.own o = G.own o := by
    intro o hd
    refine ho o ?_ ?_
    · rintro rfl
      exact hnd hd
    · rintro rfl
      exact h.pending_not_dir hd
  have hin : ∀ slot, G'.InDirs L slot ↔ G.InDirs L slot :=
    Ghost.inDirs_congr (fun o => by rw [hdir]) hod
  have hentry : ∀ slot, slot ≠ X → G'.own (.entry slot) = G.own (.entry slot) :=
    fun slot hs => ho _ (by simpa using hs) (by simp)
  have hdots : kind X ≠ .dots := by
    rcases hold with hold | ⟨f', z', hold⟩ <;> rw [hold] <;> simp
  have hnewk : ∀ {b f z}, kind' X = .node b f z →
      b = false ∧ f = (G'.own (.entry X)).headD 0 ∧
        (G'.own (.entry X)).length = L.clustersFor z := by
    intro b f z hkind
    rcases hnew with ⟨hn, _⟩ | ⟨z', hn, hl⟩ <;> rw [hn] at hkind <;> cases hkind
    exact ⟨rfl, rfl, hl⟩
  refine ⟨hown, ?_, ?_, ?_, ?_, ?_, ?_, ?_, ?_, ?_, ?_⟩
  · rw [hdir]
    exact h.root_dir
  · rw [hdir]
    exact h.pending_not_dir
  · rw [hod _ h.root_dir]
    exact h.root_head
  · intro slot
    rw [hin, hdir]
    by_cases hs : slot = X
    · subst hs
      refine iff_of_false hnd ?_
      rintro ⟨_, f, z, hkind⟩
      exact absurd (hnewk hkind).1 (by simp)
    · refine (h.dir_iff slot).trans (and_congr_right fun hi => ?_)
      rw [hk slot hi hs]
  · intro slot hd
    rw [hdir] at hd
    rw [hod _ hd]
    exact h.dir_chain slot hd
  · intro o slot hd hc hs
    rw [hdir] at hd hs
    rw [hod o hd] at hc
    rw [hrank]
    exact h.rank_lt o slot hd hc hs
  · intro slot hs
    rw [hin]
    by_cases hsX : slot = X
    · subst hsX
      rcases hnew with ⟨_, hn⟩ | ⟨z, hn, _⟩
      · exact absurd hn hs
      · exact ⟨hX, _, _, _, hn⟩
    · rw [hentry slot hsX] at hs
      obtain ⟨hi, b, f, z, hkind⟩ := h.own_node slot hs
      exact ⟨hi, b, f, z, by rwa [hk slot hi hsX]⟩
  · intro slot b f z hi hkind
    rw [hin] at hi
    by_cases hsX : slot = X
    · subst hsX
      exact (hnewk hkind).2.1
    · rw [hk slot hi hsX] at hkind
      rw [hentry slot hsX]
      exact h.first slot b f z hi hkind
  · intro slot f z hi hkind
    rw [hin] at hi
    by_cases hsX : slot = X
    · subst hsX
      exact (hnewk hkind).2.2
    · rw [hk slot hi hsX] at hkind
      rw [hentry slot hsX]
      exact h.file_len slot f z hi hkind
  · intro o c i hd hc hi hkind
    rw [hdir] at hd
    rw [hod o hd] at hc ⊢
    have hi' : G.InDirs L ⟨c, i⟩ := ⟨⟨o, hd, hc⟩, hi⟩
    have hi0 : G.InDirs L ⟨c, 0⟩ := ⟨⟨o, hd, hc⟩, Nat.zero_lt_of_lt hi⟩
    have hcX : (⟨c, i⟩ : DirSlot) ≠ X := by
      rintro rfl
      rcases hnew with ⟨hn, _⟩ | ⟨z', hn, _⟩ <;> rw [hn] at hkind <;> cases hkind
    rw [hk _ hi' hcX] at hkind
    obtain ⟨hhd, hor⟩ := h.dots o c i hd hc hi hkind
    refine ⟨hhd, hor.imp_right fun ⟨h1, h2⟩ => ⟨h1, ?_⟩⟩
    rw [hk _ hi0 (by rintro rfl; exact hdots h2)]
    exact h2

theorem mkdir (h : Tree L fat kind G) {X : DirSlot} {G' : Ghost} {p : Owner}
    (hp : G.dir p) (hpX : X.cluster ∈ G.own p)
    (hXi : X.entryIndex < L.entriesPerCluster) (hold : kind X = .hidden)
    (hdir : ∀ o, G'.dir o ↔ G.dir o ∨ o = .entry X)
    (hrank : G'.rank = Function.update G.rank (.entry X) (G.rank p + 1))
    (hne : G'.own (.entry X) ≠ [])
    (hnew : ∃ z, kind' X = .node true ((G'.own (.entry X)).headD 0) z)
    (hk : ∀ slot, G.InDirs L slot → slot ≠ X → kind' slot = kind slot)
    (hfresh : ∀ c ∈ G'.own (.entry X), ∀ i < L.entriesPerCluster,
      kind' ⟨c, i⟩ = .hidden ∨ kind' ⟨c, i⟩ = .dots ∧
        (G'.own (.entry X)).head? = some c ∧
        (i = 0 ∨ i = 1 ∧ kind' ⟨c, 0⟩ = .dots))
    (ho : ∀ o, o ≠ .entry X → o ≠ .pending → G'.own o = G.own o)
    (hown : Owned L.marks fat' G'.own) : Tree L fat' kind' G' := by
  have hX : G.InDirs L X := ⟨⟨p, hp, hpX⟩, hXi⟩
  have hnd : ¬ G.dir (.entry X) := by
    intro hd
    obtain ⟨_, f, z, hkind⟩ := (h.dir_iff X).mp hd
    rw [hold] at hkind
    cases hkind
  have hdX : ∀ {o}, G.dir o → o ≠ .entry X := by
    rintro _ hd rfl
    exact hnd hd
  have hod : ∀ o, G.dir o → G'.own o = G.own o := by
    intro o hd
    refine ho o (hdX hd) ?_
    rintro rfl
    exact h.pending_not_dir hd
  have hentry : ∀ slot, slot ≠ X → G'.own (.entry slot) = G.own (.entry slot) :=
    fun slot hs => ho _ (by simpa using hs) (by simp)
  -- A cluster of an old directory is not one of the new directory.
  have hsep : ∀ o c, G.dir o → c ∈ G.own o → c ∉ G'.own (.entry X) := by
    intro o c hd hc hcX
    rw [← hod o hd] at hc
    exact hdX hd (hown.owner_unique hc hcX)
  have hup : ∀ slot, G.InDirs L slot → G'.InDirs L slot := by
    rintro slot ⟨⟨o, hd, hc⟩, hi⟩
    exact ⟨⟨o, (hdir o).mpr (.inl hd), by rwa [hod o hd]⟩, hi⟩
  have hdown : ∀ slot b f z, G'.InDirs L slot → kind' slot = .node b f z →
      G.InDirs L slot := by
    rintro slot b f z ⟨⟨o, hd, hc⟩, hi⟩ hkind
    rcases (hdir o).mp hd with hd | rfl
    · exact ⟨⟨o, hd, by rwa [← hod o hd]⟩, hi⟩
    · rcases hfresh _ hc _ hi with hf | ⟨hf, _⟩ <;> rw [hf] at hkind <;> cases hkind
  obtain ⟨zX, hnew⟩ := hnew
  refine ⟨hown, ?_, ?_, ?_, ?_, ?_, ?_, ?_, ?_, ?_, ?_⟩
  · exact (hdir _).mpr (.inl h.root_dir)
  · intro hd
    rcases (hdir _).mp hd with hd | hd
    · exact h.pending_not_dir hd
    · cases hd
  · rw [hod _ h.root_dir]
    exact h.root_head
  · intro slot
    rw [hdir]
    by_cases hs : slot = X
    · subst hs
      exact iff_of_true (.inr rfl) ⟨hup _ hX, _, _, hnew⟩
    · rw [or_iff_left (by simpa using hs), h.dir_iff slot]
      constructor
      · rintro ⟨hi, f, z, hkind⟩
        exact ⟨hup _ hi, f, z, by rwa [hk slot hi hs]⟩
      · rintro ⟨hi, f, z, hkind⟩
        have hi := hdown slot _ _ _ hi hkind
        exact ⟨hi, f, z, by rwa [← hk slot hi hs]⟩
  · intro slot hd
    rcases (hdir _).mp hd with hd | hd
    · rw [hod _ hd]
      exact h.dir_chain slot hd
    · rw [hd]
      exact hne
  · intro o slot hd hc hs
    -- The slot lies in an old directory, whichever kind of entry it is.
    have hi : G.InDirs L slot := by
      rcases (hdir _).mp hs with hs | hs
      · exact ((h.dir_iff slot).mp hs).1
      · cases hs
        exact hX
    have hdo : G.dir o := by
      rcases (hdir o).mp hd with hd | rfl
      · exact hd
      · obtain ⟨⟨o', hd', hc'⟩, _⟩ := hi
        exact absurd hc (hsep o' _ hd' hc')
    rw [hod o hdo] at hc
    rw [hrank, Function.update_of_ne (hdX hdo)]
    by_cases hsX : slot = X
    · subst hsX
      rw [Function.update_self, h.dir_unique hc hpX]
      omega
    · rw [Function.update_of_ne (by simpa using hsX)]
      refine h.rank_lt o slot hdo hc ?_
      rcases (hdir _).mp hs with hs | hs
      · exact hs
      · cases hs
        exact absurd rfl hsX
  · intro slot hs
    by_cases hsX : slot = X
    · subst hsX
      exact ⟨hup _ hX, _, _, _, hnew⟩
    · rw [hentry slot hsX] at hs
      obtain ⟨hi, b, f, z, hkind⟩ := h.own_node slot hs
      exact ⟨hup _ hi, b, f, z, by rwa [hk slot hi hsX]⟩
  · intro slot b f z hi hkind
    by_cases hsX : slot = X
    · subst hsX
      rw [hnew] at hkind
      cases hkind
      rfl
    · have hi := hdown slot _ _ _ hi hkind
      rw [hk slot hi hsX] at hkind
      rw [hentry slot hsX]
      exact h.first slot b f z hi hkind
  · intro slot f z hi hkind
    by_cases hsX : slot = X
    · subst hsX
      rw [hnew] at hkind
      cases hkind
    · have hi := hdown slot _ _ _ hi hkind
      rw [hk slot hi hsX] at hkind
      rw [hentry slot hsX]
      exact h.file_len slot f z hi hkind
  · intro o c i hd hc hi hkind
    rcases (hdir o).mp hd with hdo | rfl
    · rw [hod o hdo] at hc ⊢
      have hi' : G.InDirs L ⟨c, i⟩ := ⟨⟨o, hdo, hc⟩, hi⟩
      have hi0 : G.InDirs L ⟨c, 0⟩ := ⟨⟨o, hdo, hc⟩, Nat.zero_lt_of_lt hi⟩
      have hcX : (⟨c, i⟩ : DirSlot) ≠ X := by
        rintro rfl
        rw [hnew] at hkind
        cases hkind
      rw [hk _ hi' hcX] at hkind
      obtain ⟨hhd, hor⟩ := h.dots o c i hdo hc hi hkind
      refine ⟨hhd, hor.imp_right fun ⟨h1, h2⟩ => ⟨h1, ?_⟩⟩
      rw [hk _ hi0 (by rintro rfl; rw [hold] at h2; cases h2)]
      exact h2
    · rcases hfresh c hc i hi with hf | ⟨_, hf⟩
      · rw [hf] at hkind
        cases hkind
      · exact hf

theorem rmdir (h : Tree L fat kind G) {X : DirSlot} {G' : Ghost}
    (hd : G.dir (.entry X))
    (hempty : ∀ c ∈ G.own (.entry X), ∀ i < L.entriesPerCluster,
      ∀ b f z, kind ⟨c, i⟩ ≠ .node b f z)
    (hdir : ∀ o, G'.dir o ↔ G.dir o ∧ o ≠ .entry X)
    (hrank : G'.rank = G.rank)
    (hnil : G'.own (.entry X) = []) (hnew : kind' X = .hidden)
    (hk : ∀ slot, G.InDirs L slot → slot ≠ X → kind' slot = kind slot)
    (ho : ∀ o, o ≠ .entry X → o ≠ .pending → G'.own o = G.own o)
    (hown : Owned L.marks fat' G'.own) : Tree L fat' kind' G' := by
  obtain ⟨hX, fX, zX, hkX⟩ := (h.dir_iff X).mp hd
  have hod : ∀ o, G'.dir o → G'.own o = G.own o := by
    intro o hd
    obtain ⟨hd, hne⟩ := (hdir o).mp hd
    refine ho o hne ?_
    rintro rfl
    exact h.pending_not_dir hd
  have hentry : ∀ slot, slot ≠ X → G'.own (.entry slot) = G.own (.entry slot) :=
    fun slot hs => ho _ (by simpa using hs) (by simp)
  have hdown : ∀ slot, G'.InDirs L slot → G.InDirs L slot := by
    rintro slot ⟨⟨o, hd, hc⟩, hi⟩
    exact ⟨⟨o, ((hdir o).mp hd).1, by rwa [← hod o hd]⟩, hi⟩
  -- A node does not lie in the directory that goes away.
  have hup : ∀ slot b f z, G.InDirs L slot → kind slot = .node b f z →
      G'.InDirs L slot := by
    rintro slot b f z ⟨⟨o, hd, hc⟩, hi⟩ hkind
    have hne : o ≠ .entry X := by
      rintro rfl
      exact hempty _ hc _ hi _ _ _ hkind
    have hd' := (hdir o).mpr ⟨hd, hne⟩
    exact ⟨⟨o, hd', by rwa [hod o hd']⟩, hi⟩
  have hnode : ∀ slot b f z, kind' slot = .node b f z → slot ≠ X := by
    rintro slot b f z hkind rfl
    rw [hnew] at hkind
    cases hkind
  refine ⟨hown, ?_, ?_, ?_, ?_, ?_, ?_, ?_, ?_, ?_, ?_⟩
  · exact (hdir _).mpr ⟨h.root_dir, by simp⟩
  · intro hd
    exact h.pending_not_dir ((hdir _).mp hd).1
  · rw [ho _ (by simp) (by simp)]
    exact h.root_head
  · intro slot
    rw [hdir, h.dir_iff slot]
    constructor
    · rintro ⟨⟨hi, f, z, hkind⟩, hs⟩
      have hs : slot ≠ X := by simpa using hs
      exact ⟨hup _ _ _ _ hi hkind, f, z, by rwa [hk slot hi hs]⟩
    · rintro ⟨hi, f, z, hkind⟩
      have hs := hnode _ _ _ _ hkind
      have hi := hdown slot hi
      rw [hk slot hi hs] at hkind
      exact ⟨⟨hi, f, z, hkind⟩, by simpa using hs⟩
  · intro slot hd
    rw [hod _ hd]
    exact h.dir_chain slot ((hdir _).mp hd).1
  · intro o slot hd hc hs
    rw [hod o hd] at hc
    rw [hrank]
    exact h.rank_lt o slot ((hdir o).mp hd).1 hc ((hdir _).mp hs).1
  · intro slot hs
    have hsX : slot ≠ X := by
      rintro rfl
      exact hs hnil
    rw [hentry slot hsX] at hs
    obtain ⟨hi, b, f, z, hkind⟩ := h.own_node slot hs
    exact ⟨hup _ _ _ _ hi hkind, b, f, z, by rwa [hk slot hi hsX]⟩
  · intro slot b f z hi hkind
    have hsX := hnode _ _ _ _ hkind
    have hi := hdown slot hi
    rw [hk slot hi hsX] at hkind
    rw [hentry slot hsX]
    exact h.first slot b f z hi hkind
  · intro slot f z hi hkind
    have hsX := hnode _ _ _ _ hkind
    have hi := hdown slot hi
    rw [hk slot hi hsX] at hkind
    rw [hentry slot hsX]
    exact h.file_len slot f z hi hkind
  · intro o c i hd hc hi hkind
    rw [hod o hd] at hc ⊢
    have hdo := ((hdir o).mp hd).1
    have hi' : G.InDirs L ⟨c, i⟩ := ⟨⟨o, hdo, hc⟩, hi⟩
    have hi0 : G.InDirs L ⟨c, 0⟩ := ⟨⟨o, hdo, hc⟩, Nat.zero_lt_of_lt hi⟩
    have hcX : (⟨c, i⟩ : DirSlot) ≠ X := by
      rintro rfl
      rw [hnew] at hkind
      cases hkind
    rw [hk _ hi' hcX] at hkind
    obtain ⟨hhd, hor⟩ := h.dots o c i hdo hc hi hkind
    refine ⟨hhd, hor.imp_right fun ⟨h1, h2⟩ => ⟨h1, ?_⟩⟩
    rw [hk _ hi0 (by rintro rfl; rw [hkX] at h2; cases h2)]
    exact h2

end Tree

-- ==== reachability

/-- The first clusters of the directories that are reached from the
root. -/
inductive Reach (L : Layout) (fat : Nat → Nat) (kind : DirSlot → Kind) :
    Nat → Prop
  | root : Reach L fat kind L.rootCluster
  | sub {d : Nat} {l : List Nat} {slot : DirSlot} {first size : Nat} :
      Reach L fat kind d → Chain L.marks fat d l → slot.cluster ∈ l →
      slot.entryIndex < L.entriesPerCluster →
      kind slot = .node true first size → Reach L fat kind first

/-- The slot holds a live entry: a node in a directory that is reached
from the root. -/
def Live (L : Layout) (fat : Nat → Nat) (kind : DirSlot → Kind)
    (slot : DirSlot) (isDir : Bool) (first size : Nat) : Prop :=
  ∃ d l, Reach L fat kind d ∧ Chain L.marks fat d l ∧ slot.cluster ∈ l ∧
    slot.entryIndex < L.entriesPerCluster ∧
    kind slot = .node isDir first size

namespace Tree

variable {L : Layout} {fat : Nat → Nat} {kind : DirSlot → Kind} {G : Ghost}

theorem chain_of_head? (h : Tree L fat kind G) {o : Owner} {c : Nat}
    (hc : (G.own o).head? = some c) : Chain L.marks fat c (G.own o) := by
  obtain ⟨t, ht⟩ := List.head?_eq_some_iff.mp hc
  exact h.owned.chain_of_head ht

theorem own_eq_of_chain (h : Tree L fat kind G) {o : Owner} {c : Nat}
    {l : List Nat} (hc : (G.own o).head? = some c)
    (hl : Chain L.marks fat c l) : l = G.own o :=
  hl.unique (h.chain_of_head? hc)

theorem dir_head (h : Tree L fat kind G) {slot : DirSlot} {f z : Nat}
    (hin : G.InDirs L slot) (hk : kind slot = .node true f z) :
    G.dir (.entry slot) ∧ (G.own (.entry slot)).head? = some f := by
  have hd : G.dir (.entry slot) := (h.dir_iff slot).mpr ⟨hin, f, z, hk⟩
  refine ⟨hd, ?_⟩
  have hf := h.first slot _ _ _ hin hk
  obtain ⟨c, hc, _⟩ := h.dir_own_chain hd
  rw [hc, hf, List.headD_eq_head?_getD, hc]
  rfl

theorem reach_iff (h : Tree L fat kind G) (d : Nat) :
    Reach L fat kind d ↔ ∃ o, G.dir o ∧ (G.own o).head? = some d := by
  constructor
  · intro hr
    induction hr with
    | root => exact ⟨.root, h.root_dir, h.root_head⟩
    | sub _ hl hc hi hk ih =>
      obtain ⟨o, hd, hh⟩ := ih
      rw [h.own_eq_of_chain hh hl] at hc
      exact ⟨_, h.dir_head ⟨⟨o, hd, hc⟩, hi⟩ hk⟩
  · rintro ⟨o, hd, hh⟩
    -- Parents lie nearer to the root.
    induction hn : G.rank o using Nat.strong_induction_on generalizing o d with
    | _ n ih =>
      cases o with
      | root =>
        rw [h.root_head] at hh
        cases hh
        exact .root
      | pending => exact absurd hd h.pending_not_dir
      | entry slot =>
        obtain ⟨⟨⟨p, hp, hc⟩, hi⟩, f, z, hk⟩ := (h.dir_iff slot).mp hd
        obtain ⟨cp, hcp, hchain⟩ := h.dir_own_chain hp
        have hlt := h.rank_lt p slot hp hc hd
        have hrp := ih (G.rank p) (by omega) cp p hp hcp rfl
        have hf := (h.dir_head ⟨⟨p, hp, hc⟩, hi⟩ hk).2
        rw [hh] at hf
        cases hf
        exact .sub hrp hchain hc hi hk

theorem live_iff (h : Tree L fat kind G) {slot : DirSlot} {b : Bool}
    {f z : Nat} : Live L fat kind slot b f z ↔
      G.InDirs L slot ∧ kind slot = .node b f z := by
  constructor
  · rintro ⟨d, l, hr, hl, hc, hi, hk⟩
    obtain ⟨o, hd, hh⟩ := (h.reach_iff d).mp hr
    rw [h.own_eq_of_chain hh hl] at hc
    exact ⟨⟨⟨o, hd, hc⟩, hi⟩, hk⟩
  · rintro ⟨⟨⟨o, hd, hc⟩, hi⟩, hk⟩
    obtain ⟨c, hh, hl⟩ := h.dir_own_chain hd
    exact ⟨c, _, (h.reach_iff c).mpr ⟨o, hd, hh⟩, hl, hc, hi, hk⟩

end Tree

end Clks.Disk
