/-
What a path resolves to.

`lookup_relative_path` walks from directory to directory. On a volume
with a tree the walk is a function of the volume alone (`Vol.resolve`):
each directory is the list of entries along its chain, and a component
is looked up in that list. Whatever it finds is a node of the tree, in
the directory it was looked up in (`Tree.lookupIn_some`): the two dot
entries cannot be named, since no short name starts with a dot and no
long name stands in front of them.
-/
import Clks.Disk.Api
import Clks.Disk.Proofs.Entries
import Clks.Proofs.Path

namespace Clks.Disk

open Bytes Linked

-- ==== chains, computed

/-- The clusters along the links from a cluster, at most `n` of them. -/
def Vol.chainFrom (L : Layout) (v : Vol) : Nat → Nat → List Nat
  | 0, _ => []
  | n + 1, c =>
    if L.clusterValid c then
      c :: if eocMin ≤ v.fat c then [] else chainFrom L v n (v.fat c)
    else []

/-- The clusters of the chain that starts at a cluster. -/
def Vol.clustersOf (L : Layout) (v : Vol) (c : Nat) : List Nat :=
  v.chainFrom L L.clusterCount c

theorem Vol.Chain.chainFrom {L : Layout} {total : Nat} (hs : L.Sound total)
    {v : Vol} {n c : Nat} {l : List Nat} (h : v.Chain L c l)
    (hn : l.length ≤ n) : v.chainFrom L n c = l := by
  induction n generalizing c l with
  | zero =>
    obtain ⟨t, rfl⟩ := h.eq_cons
    simp at hn
  | succ n ih =>
    rw [Vol.chainFrom, if_pos ((hs.ok_iff c).mp h.head_ok)]
    cases h with
    | last _ hstop =>
      have hstop : eocMin ≤ v.fat c := hstop
      rw [if_pos hstop]
    | cons _ hct =>
      have hns : ¬ eocMin ≤ v.fat c := L.marks.ok_not_stop hct.head_ok
      rw [if_neg hns, ih hct (by simpa using hn)]

theorem Vol.Chain.clustersOf {L : Layout} {total : Nat} (hs : L.Sound total)
    {v : Vol} {c : Nat} {l : List Nat} (h : v.Chain L c l) :
    v.clustersOf L c = l :=
  h.chainFrom hs h.length_le

/-- The entries of the directory that starts at a cluster. -/
def Vol.listing (L : Layout) (v : Vol) (dir : Nat) : List (DirSlot × Entry) :=
  v.dirEntries L (v.clustersOf L dir)

-- ==== resolution

/-- `clks_disk_lookup_relative_path` on a volume: the outcome of looking
up components from a directory on. -/
def Vol.resolve (L : Layout) (v : Vol) :
    List (List UInt8) → Nat → Option PathLookup
  | [], _ => none
  | component :: rest, dir =>
    match lookupIn component (v.listing L dir) with
    | some f =>
      if rest = [] then
        some
          { found := true, parentCluster := dir, sfn := f.sfn
            slot := f.slot, info := f.info }
      else if isDirectoryAttr f.info.attr
          && L.clusterValid f.info.firstCluster then
        resolve L v rest f.info.firstCluster
      else none
    | none =>
      if rest = [] then
        (componentGenerateSfn component).map fun sfn =>
          { found := false, parentCluster := dir, sfn
            slot := ⟨0, 0⟩, info := ⟨0, 0, 0⟩ }
      else none

/-- The first cluster of the directory that components lead to. -/
def Vol.walk (L : Layout) (v : Vol) : List (List UInt8) → Nat → Option Nat
  | [], dir => some dir
  | component :: rest, dir =>
    match lookupIn component (v.listing L dir) with
    | some f =>
      if isDirectoryAttr f.info.attr
          && L.clusterValid f.info.firstCluster then
        walk L v rest f.info.firstCluster
      else none
    | none => none

/-- The outcome of looking a last component up in a directory. -/
def Vol.resolveLast (L : Layout) (v : Vol) (component : List UInt8)
    (dir : Nat) : Option PathLookup :=
  match lookupIn component (v.listing L dir) with
  | some f =>
    some
      { found := true, parentCluster := dir, sfn := f.sfn
        slot := f.slot, info := f.info }
  | none =>
    (componentGenerateSfn component).map fun sfn =>
      { found := false, parentCluster := dir, sfn
        slot := ⟨0, 0⟩, info := ⟨0, 0, 0⟩ }

theorem Vol.resolve_snoc (L : Layout) (v : Vol) (pre : List (List UInt8))
    (c : List UInt8) (dir : Nat) :
    v.resolve L (pre ++ [c]) dir
      = (v.walk L pre dir).bind fun d => v.resolveLast L c d := by
  induction pre generalizing dir with
  | nil =>
    simp only [List.nil_append, resolve, walk, resolveLast, if_true,
      Option.bind_some]
  | cons x pre ih =>
    rw [List.cons_append, resolve, walk]
    cases lookupIn x (v.listing L dir) with
    | none => simp
    | some f =>
      simp only [List.append_eq_nil_iff, List.cons_ne_self, and_false,
        if_false]
      by_cases hd : (isDirectoryAttr f.info.attr
          && L.clusterValid f.info.firstCluster) = true
      · rw [if_pos hd, if_pos hd, ih]
      · rw [if_neg hd, if_neg hd]
        rfl

-- ==== what a walk can find

theorem findIn_some {component : List UInt8} {target : Option Sfn}
    {st st' : LfnState} {es : List (DirSlot × Entry)} {f : DirFound}
    (h : findIn component target st es = (some f, st')) :
    ∃ pre slot e post, es = pre ++ (slot, e) :: post ∧
      f = ⟨slot, e.info, e.name⟩ ∧ e.isVisible = true ∧
      entryMatches component target st' e = true ∧
      findIn component target st pre = (none, st') := by
  induction es generalizing st with
  | nil => cases h
  | cons x es ih =>
    obtain ⟨slot, e⟩ := x
    -- An entry that is passed over becomes part of the prefix.
    have hskip : ∀ st1, findIn component target st1 es = (some f, st') →
        (∀ l, findIn component target st ((slot, e) :: l)
          = findIn component target st1 l) →
        ∃ pre slot' e' post, (slot, e) :: es = pre ++ (slot', e') :: post ∧
          f = ⟨slot', e'.info, e'.name⟩ ∧ e'.isVisible = true ∧
          entryMatches component target st' e' = true ∧
          findIn component target st pre = (none, st') := by
      intro st1 h1 hl
      obtain ⟨pre, slot', e', post, rfl, hf, hv, hm, hp⟩ := ih h1
      exact ⟨(slot, e) :: pre, slot', e', post, rfl, hf, hv, hm, by
        rw [hl, hp]⟩
    rw [findIn] at h
    by_cases h1 : e.isFree = true
    · rw [if_pos h1] at h
      exact hskip _ h fun l => by rw [findIn, if_pos h1]
    rw [if_neg h1] at h
    by_cases h2 : e.attr = attrLfn
    · rw [if_pos h2] at h
      exact hskip _ h fun l => by rw [findIn, if_neg h1, if_pos h2]
    rw [if_neg h2] at h
    by_cases h3 : e.isVolumeId = true
    · rw [if_pos h3] at h
      exact hskip _ h fun l => by
        rw [findIn, if_neg h1, if_neg h2, if_pos h3]
    rw [if_neg h3] at h
    by_cases h4 : entryMatches component target st e = true
    · rw [if_pos h4] at h
      cases h
      refine ⟨[], slot, e, es, rfl, rfl, ?_, h4, rfl⟩
      rw [Bool.not_eq_true] at h1 h3
      simp only [Entry.isVisible, h1, h2, h3, ne_eq, not_false_eq_true,
        decide_true, Bool.not_false, Bool.and_self]
    · rw [if_neg h4] at h
      exact hskip _ h fun l => by
        rw [findIn, if_neg h1, if_neg h2, if_neg h3, if_neg h4]

theorem not_dotLike_of_target {component : List UInt8} {e : Entry}
    (h : componentToSfn component = some e.name) : e.isDotLike = false := by
  have hp := componentToSfn_proper h
  have hd := (sfnCharValid_ne hp.head).2.2.1
  have he : e.name.getD 0 0 = e 0 := by simp [Entry.name]
  rw [he] at hd
  simp only [Entry.isDotLike, hd, decide_false, Bool.false_and,
    Bool.or_self]

private theorem findIn_head {component : List UInt8} {st st' : LfnState}
    {slot : DirSlot} {e : Entry} {es : List (DirSlot × Entry)}
    {f : DirFound} (hst : st.active = false)
    (h : findIn component (componentToSfn component) st ((slot, e) :: es)
      = (some f, st')) :
    (f = ⟨slot, e.info, e.name⟩ ∧ e.kind ≠ .dots) ∨
      ∃ st1, findIn component (componentToSfn component) st1 es
          = (some f, st') ∧
        (e.kind = .dots → st1.active = false) := by
  rw [findIn] at h
  split_ifs at h with h1 h2 h3 h4
  · exact .inr ⟨_, h, fun _ => rfl⟩
  · refine .inr ⟨_, h, fun hk => ?_⟩
    have hv := (Entry.kind_dots.mp hk).1
    simp [Entry.isVisible, h2] at hv
  · exact .inr ⟨_, h, fun _ => rfl⟩
  · cases h
    refine .inl ⟨rfl, fun hk => ?_⟩
    have hm : componentToSfn component = some e.name := by
      simpa [entryMatches, hst] using h4
    have hdot := (Entry.kind_dots.mp hk).2
    rw [not_dotLike_of_target hm] at hdot
    cases hdot
  · exact .inr ⟨_, h, fun _ => rfl⟩

-- ==== lookups in a tree

section tree

variable {L : Layout} {total : Nat} {v : Vol} {G : Ghost}

theorem Tree.listing_eq (hs : L.Sound total)
    (h : Tree L v.fat v.kind G) {o : Owner} {d : Nat}
    (hd : (G.own o).head? = some d) :
    v.listing L d = v.dirEntries L (G.own o) := by
  have hc : v.Chain L d (G.own o) := h.chain_of_head? hd
  rw [Vol.listing, hc.clustersOf hs]

private theorem listing_split (hs : L.Sound total) (c : Nat)
    (t : List Nat) : ∃ es, v.dirEntries L (c :: t)
        = (⟨c, 0⟩, v.entry ⟨c, 0⟩) :: (⟨c, 1⟩, v.entry ⟨c, 1⟩) :: es ∧
      ∀ x ∈ es, x ∈ v.dirEntries L (c :: t) ∧
        (x.1.cluster = c → 2 ≤ x.1.entryIndex ∨ c ∈ t) := by
  have hepc := hs.entries
  have hsp := hs.spc_pos
  obtain ⟨n, hn⟩ : ∃ n, L.entriesPerCluster = n + 1 + 1 :=
    ⟨L.entriesPerCluster - 2, by omega⟩
  refine ⟨v.clusterEntries c 2 n ++ v.dirEntries L t, ?_, ?_⟩
  · rw [Vol.dirEntries_cons, hn, Vol.clusterEntries_succ,
      Vol.clusterEntries_succ]
    rfl
  · intro x hx
    obtain ⟨slot, e⟩ := x
    rcases List.mem_append.mp hx with hx | hx
    · simp only [Vol.clusterEntries, List.mem_map, List.mem_range'_1,
        Prod.mk.injEq] at hx
      obtain ⟨j, hj, rfl, rfl⟩ := hx
      exact ⟨Vol.mem_dirEntries.mpr
        ⟨List.mem_cons_self, by simp only; omega, rfl⟩,
        fun _ => .inl hj.1⟩
    · obtain ⟨h1, h2, h3⟩ := Vol.mem_dirEntries.mp hx
      refine ⟨Vol.mem_dirEntries.mpr
        ⟨List.mem_cons_of_mem _ h1, h2, h3⟩, fun hc => .inr ?_⟩
      exact hc ▸ h1

theorem Tree.lookupIn_some (hs : L.Sound total)
    (h : Tree L v.fat v.kind G) {o : Owner} (ho : G.dir o)
    {component : List UInt8} {f : DirFound}
    (hf : lookupIn component (v.dirEntries L (G.own o)) = some f) :
    f.slot.cluster ∈ G.own o ∧
      f.slot.entryIndex < L.entriesPerCluster ∧
      f.info = (v.entry f.slot).info ∧ f.sfn = (v.entry f.slot).name ∧
      v.kind f.slot = .node (isDirectoryAttr f.info.attr)
        f.info.firstCluster f.info.size := by
  unfold lookupIn at hf
  cases hres : findIn component (componentToSfn component) .init
      (v.dirEntries L (G.own o)) with
  | mk r st' =>
    rw [hres] at hf
    obtain rfl : r = some f := hf
    obtain ⟨pre, slot, e, post, hes, rfl, hv, -, -⟩ := findIn_some hres
    have hmem : (slot, e) ∈ v.dirEntries L (G.own o) := by
      rw [hes]
      simp
    obtain ⟨hc, hi, rfl⟩ := Vol.mem_dirEntries.mp hmem
    -- It remains to rule out the dot entries.
    have hdots : v.kind slot ≠ .dots := by
      obtain ⟨c, hhead, hchain⟩ := h.dir_own_chain ho
      obtain ⟨t, ht⟩ := List.head?_eq_some_iff.mp hhead
      have hnd := hchain.nodup
      obtain ⟨es, hsplit, hrest⟩ := listing_split (v := v) hs c t
      rw [ht] at hres hnd
      rw [hsplit] at hres
      -- Behind the first entry there are dots only if the first is one.
      have hlate : ∀ slot', slot'.cluster ∈ G.own o →
          slot'.entryIndex < L.entriesPerCluster →
          v.kind slot' = .dots → slot' = ⟨c, 0⟩ ∨
            slot' = ⟨c, 1⟩ ∧ v.kind ⟨c, 0⟩ = .dots := by
        rintro ⟨c', i'⟩ hc' hi' hk
        obtain ⟨hh, hor⟩ := h.dots o c' i' ho hc' hi' hk
        rw [hhead] at hh
        cases hh
        rcases hor with rfl | ⟨rfl, hk0⟩
        · exact .inl rfl
        · exact .inr ⟨rfl, hk0⟩
      have hes' : ∀ x ∈ es, v.kind x.1 ≠ .dots := by
        intro x hx hk
        obtain ⟨hmem', hpos⟩ := hrest x hx
        rw [← ht] at hmem'
        obtain ⟨h1, h2, _⟩ := Vol.mem_dirEntries.mp hmem'
        have hct := (List.nodup_cons.mp hnd).1
        rcases hlate x.1 h1 h2 hk with he | ⟨he, _⟩ <;>
          (rw [he] at hpos; rcases hpos rfl with h3 | h3)
        · exact absurd h3 (by simp)
        · exact hct h3
        · exact absurd h3 (by simp)
        · exact hct h3
      have htail : ∀ {st st'}, findIn component (componentToSfn component) st
          es = (some ⟨slot, (v.entry slot).info, (v.entry slot).name⟩, st') →
          v.kind slot ≠ .dots := by
        intro st st' hfi
        obtain ⟨_, slot', _, _, rfl, he, -⟩ := findIn_some hfi
        obtain rfl : slot = slot' := congrArg DirFound.slot he
        exact hes' _ (List.mem_append_right _ List.mem_cons_self)
      rcases findIn_head (by rfl) hres with ⟨he, hk⟩ | ⟨st1, hres1, hst1⟩
      · cases he
        exact hk
      by_cases hk0 : v.kind ⟨c, 0⟩ = .dots
      · rcases findIn_head (hst1 hk0) hres1 with ⟨he, hk⟩ | ⟨_, hres2, -⟩
        · cases he
          exact hk
        · exact htail hres2
      · intro hk
        rcases hlate slot hc hi hk with he | ⟨_, hk'⟩
        · exact hk0 (he ▸ hk)
        · exact hk0 hk'
    refine ⟨hc, hi, rfl, rfl, ?_⟩
    refine Entry.kind_of_live hv ?_
    by_contra hd
    rw [Bool.not_eq_false] at hd
    exact hdots (Entry.kind_dots.mpr ⟨hv, hd⟩)

end tree

-- ==== walks in a tree

section walks

variable {L : Layout} {total : Nat} {v v' : Vol} {G : Ghost}

theorem Tree.walk_some (hs : L.Sound total) (h : Tree L v.fat v.kind G)
    {cs : List (List UInt8)} {o : Owner} {d d' : Nat} (ho : G.dir o)
    (hd : (G.own o).head? = some d) (hw : v.walk L cs d = some d') :
    ∃ o', G.dir o' ∧ (G.own o').head? = some d' ∧
      G.rank o + cs.length ≤ G.rank o' := by
  induction cs generalizing o d with
  | nil =>
    cases hw
    exact ⟨o, ho, hd, le_refl _⟩
  | cons c cs ih =>
    rw [Vol.walk, h.listing_eq hs hd] at hw
    cases hlook : lookupIn c (v.dirEntries L (G.own o)) with
    | none => rw [hlook] at hw; cases hw
    | some f =>
      rw [hlook] at hw
      simp only [Bool.and_eq_true] at hw
      split_ifs at hw with hc
      obtain ⟨hcl, hi, -, -, hk⟩ := h.lookupIn_some hs ho hlook
      rw [hc.1] at hk
      obtain ⟨hd', hhead⟩ := h.dir_head ⟨⟨o, ho, hcl⟩, hi⟩ hk
      obtain ⟨o', ho', hh', hr⟩ := ih hd' hhead hw
      have hlt := h.rank_lt o f.slot ho hcl hd'
      refine ⟨o', ho', hh', ?_⟩
      rw [List.length_cons]
      omega

theorem Tree.walk_congr (hs : L.Sound total) (h : Tree L v.fat v.kind G)
    {cs : List (List UInt8)} {o p : Owner} {d d' : Nat} (ho : G.dir o)
    (hd : (G.own o).head? = some d) (hp : G.dir p)
    (hd' : (G.own p).head? = some d') (hw : v.walk L cs d = some d')
    (hl : ∀ q e, G.dir q → q ≠ p → (G.own q).head? = some e →
      v'.listing L e = v.listing L e) : v'.walk L cs d = some d' := by
  induction cs generalizing o d with
  | nil => exact hw
  | cons c cs ih =>
    -- The first directory is not the last one, which lies deeper.
    have hop : o ≠ p := by
      rintro rfl
      obtain ⟨o', ho', hh', hr⟩ := h.walk_some hs ho hd hw
      obtain ⟨t, ht⟩ := List.head?_eq_some_iff.mp hd'
      obtain ⟨t', ht'⟩ := List.head?_eq_some_iff.mp hh'
      have : o = o' := h.dir_unique (c := d') (by simp [ht]) (by simp [ht'])
      subst this
      rw [List.length_cons] at hr
      omega
    rw [Vol.walk, hl o d ho hop hd]
    rw [Vol.walk] at hw
    cases hlook : lookupIn c (v.listing L d) with
    | none => rw [hlook] at hw; cases hw
    | some f =>
      rw [hlook] at hw
      simp only [Bool.and_eq_true] at hw ⊢
      split_ifs at hw with hc
      rw [if_pos hc]
      rw [h.listing_eq hs hd] at hlook
      obtain ⟨hcl, hi, -, -, hk⟩ := h.lookupIn_some hs ho hlook
      rw [hc.1] at hk
      obtain ⟨hdq, hhead⟩ := h.dir_head ⟨⟨o, ho, hcl⟩, hi⟩ hk
      exact ih hdq hhead hw

theorem Tree.resolve_congr (hs : L.Sound total)
    (h : Tree L v.fat v.kind G) {cs : List (List UInt8)} {o : Owner}
    {d : Nat} (ho : G.dir o) (hd : (G.own o).head? = some d)
    (hl : ∀ q e, G.dir q → (G.own q).head? = some e →
      v'.listing L e = v.listing L e) :
    v'.resolve L cs d = v.resolve L cs d := by
  induction cs generalizing o d with
  | nil => rfl
  | cons c cs ih =>
    rw [Vol.resolve, Vol.resolve, hl o d ho hd]
    cases hlook : lookupIn c (v.listing L d) with
    | none => rfl
    | some f =>
      simp only []
      by_cases hr : cs = []
      · rw [if_pos hr, if_pos hr]
      rw [if_neg hr, if_neg hr]
      by_cases hc : (isDirectoryAttr f.info.attr
          && L.clusterValid f.info.firstCluster) = true
      · rw [if_pos hc, if_pos hc]
        rw [Bool.and_eq_true] at hc
        rw [h.listing_eq hs hd] at hlook
        obtain ⟨hcl, hi, -, -, hk⟩ := h.lookupIn_some hs ho hlook
        rw [hc.1] at hk
        obtain ⟨hdq, hhead⟩ := h.dir_head ⟨⟨o, ho, hcl⟩, hi⟩ hk
        exact ih hdq hhead
      · rw [if_neg hc, if_neg hc]

theorem Vol.dirEntries_congr {l : List Nat}
    (h : ∀ c ∈ l, v'.data c = v.data c) :
    v'.dirEntries L l = v.dirEntries L l := by
  induction l with
  | nil => rfl
  | cons c l ih =>
    rw [dirEntries_cons, dirEntries_cons,
      ih fun x hx => h x (List.mem_cons_of_mem _ hx)]
    congr 1
    refine List.map_congr_left fun j _ => ?_
    rw [entry_congr (h c List.mem_cons_self)]

end walks

-- ==== the walk

theorem takeWhile_join {c : List UInt8} (hc : slash ∉ c)
    (cs : List (List UInt8)) :
    (Path.join (c :: cs)).takeWhile (· ≠ slash) = c := by
  have hw : ∀ l, (c ++ l).takeWhile (· ≠ slash)
      = c ++ l.takeWhile (· ≠ slash) := by
    intro l
    refine List.takeWhile_append_of_pos fun x hx => ?_
    have hne : x ≠ slash := fun he => hc (he ▸ hx)
    simpa using hne
  by_cases hcs : cs = []
  · subst hcs
    have := hw []
    simpa using this
  · rw [Path.join_cons hcs, hw]
    simp

theorem nextComponent_join {c : List UInt8} {cs : List (List UInt8)}
    (hc : Path.Component c) (hcs : ∀ x ∈ cs, x ≠ [])
    (hlen : c.length + 1 ≤ pathMax) :
    nextComponent (Path.join (c :: cs))
      = some (c, Path.join cs, decide (cs = [])) := by
  have hpos := List.length_pos_of_ne_nil hc.ne_nil
  have hne : Path.join (c :: cs) ≠ [] := by
    rw [Ne, Path.join_eq_nil (by simpa [hc.ne_nil] using hcs)]
    exact List.cons_ne_nil _ _
  have hdrop : ((Path.join (c :: cs)).drop c.length).drop 1
      = Path.join cs := by
    by_cases hn : cs = []
    · subst hn
      simp
    · rw [Path.join_cons hn, List.drop_left]
      rfl
  unfold nextComponent
  rw [if_neg hne, takeWhile_join hc.no_slash]
  simp only []
  rw [if_neg (by omega), hdrop]
  simp only [Path.join_eq_nil hcs]

theorem relativeBasename_join {cs : List (List UInt8)} {c : List UInt8}
    (hc : slash ∉ c) : relativeBasename (Path.join (cs ++ [c])) = c := by
  have hw : ∀ l, (c.reverse ++ l).takeWhile (· ≠ slash)
      = c.reverse ++ l.takeWhile (· ≠ slash) := by
    intro l
    refine List.takeWhile_append_of_pos fun x hx => ?_
    have hne : x ≠ slash := fun he =>
      hc (he ▸ List.mem_reverse.mp hx)
    simpa using hne
  unfold relativeBasename
  by_cases hcs : cs = []
  · subst hcs
    have := hw []
    simp only [List.append_nil, List.takeWhile_nil] at this
    rw [List.nil_append, Path.join_singleton, this, List.reverse_reverse]
  · rw [Path.join_snoc hcs, List.reverse_append, List.reverse_cons,
      List.append_assoc, hw]
    simp

/-- The sectors of the table and of the directories. -/
def Ghost.dirSectors (G : Ghost) (L : Layout) : Set Nat :=
  {k | k ∈ L.tableSectors ∨
    ∃ o c, G.dir o ∧ c ∈ G.own o ∧ k ∈ L.clusterSectors c}

theorem Ghost.chainSectors_subset {G : Ghost} (L : Layout) {o : Owner}
    (ho : G.dir o) : L.chainSectors (G.own o) ⊆ G.dirSectors L :=
  fun _ hk => hk.imp_right fun ⟨c, hc, hk⟩ => ⟨o, c, ho, hc, hk⟩

section walk

variable {s : State} {G : Ghost}

private theorem lookupLoop_run (h : s.Ok)
    (ht : Tree s.fat32 s.vol.fat s.vol.kind G) {n : Nat}
    {cs : List (List UInt8)} {o : Owner} {d : Nat} (ho : G.dir o)
    (hd : (G.own o).head? = some d) (hne : cs ≠ [])
    (hcs : ∀ c ∈ cs, Path.Component c)
    (hn : (Path.join cs).length ≤ n)
    (hmax : (Path.join cs).length < pathMax) :
    ∃ s', lookupLoop n (Path.join cs) d s
        = (s.vol.resolve s.fat32 cs d, s') ∧
      Reads (G.dirSectors s.fat32) s s' := by
  induction n generalizing cs o d s with
  | zero =>
    have hz := List.length_eq_zero_iff.mp (Nat.le_zero.mp hn)
    exact absurd ((Path.join_eq_nil fun c hc => (hcs c hc).ne_nil).mp hz) hne
  | succ n ih =>
    obtain ⟨c, rest, rfl⟩ := List.exists_cons_of_ne_nil hne
    have hc := hcs c List.mem_cons_self
    have hrest : ∀ x ∈ rest, Path.Component x :=
      fun x hx => hcs x (List.mem_cons_of_mem _ hx)
    have hclen : c.length ≤ (Path.join (c :: rest)).length := by
      by_cases hr : rest = []
      · simp [hr]
      · rw [Path.join_cons hr]
        simp
    have hchain : s.vol.Chain s.fat32 d (G.own o) := ht.chain_of_head? hd
    obtain ⟨s1, hrun1, hr1⟩ := dirFindEntryByComponent_run h hchain c
    have hr1' := hr1.mono (Ghost.chainSectors_subset s.fat32 ho)
    rw [lookupLoop, nextComponent_join hc (fun x hx => (hrest x hx).ne_nil)
      (by omega)]
    simp only []
    rw [Cmd.bind_ok hrun1, Vol.resolve, ht.listing_eq h.sound hd]
    cases hlook : lookupIn c (s.vol.dirEntries s.fat32 (G.own o)) with
    | none =>
      refine ⟨s1, ?_, hr1'⟩
      by_cases hr : rest = []
      · simp only [hr, decide_true, if_true]
        cases componentGenerateSfn c <;> rfl
      · simp only [hr, decide_false, Bool.false_eq_true, if_false]
        rfl
    | some f =>
      by_cases hr : rest = []
      · refine ⟨s1, ?_, hr1'⟩
        simp only [hr, decide_true, if_true]
        rfl
      simp only [hr, decide_false, Bool.false_eq_true, if_false]
      by_cases hdir : isDirectoryAttr f.info.attr = true
      swap
      · rw [Bool.not_eq_true] at hdir
        refine ⟨s1, ?_, hr1'⟩
        rw [Cmd.require_bind_err hdir, if_neg (by simp [hdir])]
      rw [Cmd.require_bind hdir, Cmd.get_bind_apply, hr1.fat32]
      by_cases hv : s.fat32.clusterValid f.info.firstCluster = true
      swap
      · rw [Bool.not_eq_true] at hv
        refine ⟨s1, ?_, hr1'⟩
        rw [Cmd.require_bind_err hv, if_neg (by simp [hv])]
      rw [Cmd.require_bind hv, if_pos (by simp [hdir, hv])]
      -- The walk goes on in the directory that was found.
      obtain ⟨hcl, hi, -, -, hk⟩ := ht.lookupIn_some h.sound ho hlook
      rw [hdir] at hk
      obtain ⟨hd', hhead⟩ := ht.dir_head ⟨⟨o, ho, hcl⟩, hi⟩ hk
      have hjoin : (Path.join (c :: rest)).length
          = c.length + 1 + (Path.join rest).length := by
        rw [Path.join_cons hr, List.length_append, List.length_cons]
        omega
      obtain ⟨s2, hrun2, hr2⟩ := ih (hr1.ok h)
        (by rw [hr1.fat32, hr1.vol]; exact ht) hd' hhead hr hrest
        (by omega) (by omega)
      rw [hr1.vol, hr1.fat32] at hrun2
      rw [hr1.fat32] at hr2
      exact ⟨s2, hrun2, hr1'.trans hr2⟩

theorem lookupRelativePath_run (h : s.Ok)
    (ht : Tree s.fat32 s.vol.fat s.vol.kind G) {cs : List (List UInt8)}
    (hne : cs ≠ []) (hcs : ∀ c ∈ cs, Path.Component c)
    (hmax : (Path.join cs).length < pathMax) :
    ∃ s', lookupRelativePath (Path.join cs) s
        = (s.vol.resolve s.fat32 cs s.fat32.rootCluster, s') ∧
      Reads (G.dirSectors s.fat32) s s' := by
  have hj : Path.join cs ≠ [] := by
    rwa [Ne, Path.join_eq_nil fun c hc => (hcs c hc).ne_nil]
  rw [lookupRelativePath, Cmd.get_bind_apply]
  simp only [if_neg hj]
  exact lookupLoop_run h ht ht.root_dir ht.root_head hne hcs (le_refl _) hmax

end walk

end Clks.Disk
