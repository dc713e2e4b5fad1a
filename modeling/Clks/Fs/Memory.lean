/-
Every place that holds file data has one owner (fs.c, disk/cache_io.inc).

A heap block belongs to a node, to an entry of the file cache or to the
read buffer, and to one of them only (`Apart`); and each of them holds the
bytes of its file (`Sound`). Every operation keeps that, so a pointer that
`clks_fs_read_all` returns has the file's bytes behind it.
-/
import Clks.Fs.Store
import Clks.Proofs.Path

namespace Clks.Fs

open Disk Bytes

-- ==== the table

/-- The data of the file that a node is. -/
def FsState.fileAt (s : FsState) (i : Nat) : Option (List UInt8) :=
  (s.nodes[i]?).bind fun n =>
    if n.used ∧ n.type = .file then some n.data else none

/-- The files of the table are the same, and so is everything else but
the directories. -/
structure SameFiles (s s' : FsState) : Prop where
  ready : s'.ready = s.ready
  disk : s'.disk = s.disk
  files : s'.fileAt = s.fileAt

section table

variable {s s' : FsState} {internal : List UInt8} {i : Nat} {n : FsNode}

theorem SameFiles.refl (s : FsState) : SameFiles s s := ⟨rfl, rfl, rfl⟩

instance : IsPreorder FsState SameFiles where
  refl := .refl
  trans _ _ _ h h' := ⟨h'.ready.trans h.ready, h'.disk.trans h.disk,
    h'.files.trans h.files⟩

theorem used_of_find (h : findNodeByInternal s internal = some i)
    (hn : s.nodes[i]? = some n) : n.used = true := by
  obtain ⟨hlt, hp, -⟩ := List.findIdx?_eq_some_iff_getElem.mp h
  have hget : s.nodes[i]? = some s.nodes[i] := List.getElem?_eq_getElem hlt
  rw [hget] at hn
  cases hn
  simpa using (Bool.and_eq_true _ _ ▸ hp).1

theorem nodeAt_some {index : Option Nat} (h : nodeAt s index = some (i, n)) :
    index = some i ∧ s.nodes[i]? = some n := by
  unfold nodeAt at h
  obtain ⟨j, hj, h⟩ := Option.bind_eq_some_iff.mp h
  obtain ⟨m, hm, h⟩ := Option.map_eq_some_iff.mp h
  cases h
  exact ⟨hj, hm⟩

theorem fileAt_set (hn : s.nodes[i]? = some n) (m : FsNode) (j : Nat) :
    FsState.fileAt { s with nodes := s.nodes.set i m } j
      = if j = i then
          if m.used ∧ m.type = .file then some m.data else none
        else s.fileAt j := by
  have hlt : i < s.nodes.length := by
    by_contra hge
    rw [List.getElem?_eq_none (by omega)] at hn
    cases hn
  unfold FsState.fileAt
  by_cases hj : j = i
  · subst hj
    rw [if_pos rfl, List.getElem?_set_self hlt]
    rfl
  · rw [if_neg hj, List.getElem?_set_ne (fun h => hj h.symm)]

theorem fileAt_unused (hn : s.nodes[i]? = some n) (hu : n.used = false) :
    s.fileAt i = none := by
  simp [FsState.fileAt, hn, hu]

theorem putNew_cases (node : FsNode) (s : FsState) :
    putNew node s = (none, s) ∨
    ∃ i s', putNew node s = (some i, s') ∧ s.fileAt i = none ∧
      s'.ready = s.ready ∧ s'.disk = s.disk ∧
      ∀ j, s'.fileAt j = if j = i then
          if node.used ∧ node.type = .file then some node.data else none
        else s.fileAt j := by
  unfold putNew
  rw [Cmd.get_bind_apply]
  cases hfree : s.nodes.findIdx? fun n => !n.used with
  | some i =>
    right
    obtain ⟨hlt, hp, -⟩ := List.findIdx?_eq_some_iff_getElem.mp hfree
    have hn : s.nodes[i]? = some s.nodes[i] := List.getElem?_eq_getElem hlt
    exact ⟨i, _, rfl, fileAt_unused hn (by simpa using hp), rfl, rfl,
      fileAt_set hn node⟩
  | none =>
    by_cases hroom : s.nodes.length < maxNodes
    · right
      have hend : s.fileAt s.nodes.length = none := by
        simp [FsState.fileAt]
      refine ⟨s.nodes.length, { s with nodes := s.nodes ++ [node] }, ?_,
        hend, rfl, rfl, fun j => ?_⟩
      · dsimp only
        rw [Cmd.require_bind (by simpa using hroom), Cmd.modify_bind_apply,
          Cmd.pure_apply]
      · unfold FsState.fileAt
        dsimp only
        rw [List.getElem?_append]
        split
        · next hj => rw [if_neg (by omega)]
        · next hj =>
          by_cases he : j = s.nodes.length
          · subst he
            simp
          · rw [if_neg he, List.getElem?_eq_none (by simp; omega),
              List.getElem?_eq_none (by omega)]
    · left
      dsimp only
      rw [Cmd.require_bind_err (by simpa using hroom)]

theorem createDir_keeps (internal : List UInt8) (parent : Nat)
    (data : List UInt8) :
    Cmd.Keeps SameFiles
      (createOrUpdateNode internal .dir parent data) := by
  refine .bind (.require _) fun _ => ?_
  intro s
  rw [Cmd.get_bind_apply]
  cases hat : nodeAt s (findNodeByInternal s internal) with
  | some found =>
    obtain ⟨i, n⟩ := found
    dsimp only
    by_cases htype : n.type = .dir
    · rw [Cmd.require_bind (by simpa using htype)]
      refine ⟨rfl, rfl, funext fun j => ?_⟩
      have hn := (nodeAt_some hat).2
      show FsState.fileAt { s with nodes := s.nodes.set i _ } j = s.fileAt j
      rw [fileAt_set hn]
      split
      · next hj => simp [FsState.fileAt, hj, hn, htype]
      · rfl
    · rw [Cmd.require_bind_err (by simpa using htype)]
      exact .refl s
  | none =>
    dsimp only
    rcases putNew_cases _ s with hput | ⟨i, s', hput, hnone, hready, hdisk,
      hfiles⟩
    · rw [hput]
      exact .refl s
    · rw [hput]
      refine ⟨hready, hdisk, funext fun j => ?_⟩
      rw [hfiles j]
      split
      · next hj => simp [hj, hnone]
      · rfl

theorem ensureDirLoop_keeps (components : List (List UInt8))
    (pfx : List UInt8) (parent : Nat) :
    Cmd.Keeps SameFiles (ensureDirLoop components pfx parent) := by
  induction components generalizing pfx parent with
  | nil => exact .pure _
  | cons component rest ih =>
    refine .bind (.require _) fun _ => .bind (.require _) fun _ =>
      .bind (.require _) fun _ => .getBind fun s => ?_
    split
    · exact .bind (.require _) fun _ => ih _ _
    · exact .bind (createDir_keeps _ _ _) fun _ => ih _ _

theorem ensureDirHierarchy_keeps (internal : List UInt8) :
    Cmd.Keeps SameFiles (ensureDirHierarchy internal) :=
  .ite (.pure _) (ensureDirLoop_keeps _ _ _)

theorem writablePath_keeps (path : List UInt8) :
    Cmd.Keeps SameFiles (writablePath path) := by
  unfold writablePath
  split
  · exact .bind (.require _) fun _ => .pure _
  · exact .fail

theorem writablePath_state (path : List UInt8) (s : FsState) :
    (writablePath path s).2 = s := by
  unfold writablePath
  cases normalizeExternalPath path with
  | none => rfl
  | some internal =>
    dsimp only
    cases internalWritable internal <;> rfl

theorem writablePath_length {path : List UInt8}
    (h : writablePath path s = (some internal, s')) :
    internal.length < fsPathMax := by
  unfold writablePath at h
  cases hp : normalizeExternalPath path with
  | none =>
    rw [hp] at h
    cases h
  | some p =>
    rw [hp] at h
    obtain ⟨-, h⟩ := Cmd.require_ok_inv h
    cases h
    unfold normalizeExternalPath at hp
    rw [Path.normalizeExternalInternal_eq (by decide)] at hp
    split at hp
    · next hcond =>
      cases hp
      exact hcond.2.2
    · cases hp

theorem createFile_cases (hlen : internal.length < fsPathMax)
    (parent : Nat) (data : List UInt8) (s : FsState) :
    (createOrUpdateNode internal .file parent data s = (none, s) ∧
      ∀ i n, nodeAt s (findNodeByInternal s internal) = some (i, n) →
        n.type ≠ .file) ∨
    ∃ i s', createOrUpdateNode internal .file parent data s = (some i, s') ∧
      ((∃ n, nodeAt s (findNodeByInternal s internal) = some (i, n)) ∨
        nodeAt s (findNodeByInternal s internal) = none ∧
          s.fileAt i = none) ∧
      s'.ready = s.ready ∧ s'.disk = s.disk ∧
      ∀ j, s'.fileAt j = if j = i then some data else s.fileAt j := by
  unfold createOrUpdateNode
  rw [Cmd.require_bind (by simpa using hlen), Cmd.get_bind_apply]
  cases hat : nodeAt s (findNodeByInternal s internal) with
  | some found =>
    obtain ⟨i, n⟩ := found
    dsimp only
    by_cases htype : n.type = .file
    · right
      rw [Cmd.require_bind (by simpa using htype)]
      have hn := (nodeAt_some hat).2
      refine ⟨i, _, rfl, .inl ⟨n, rfl⟩, rfl, rfl, fun j => ?_⟩
      show FsState.fileAt { s with nodes := s.nodes.set i _ } j = _
      rw [fileAt_set hn]
      simp [htype]
    · left
      rw [Cmd.require_bind_err (by simpa using htype)]
      refine ⟨rfl, fun j m hm => ?_⟩
      cases hm
      exact htype
  | none =>
    dsimp only
    rcases putNew_cases _ s with hput | ⟨i, s', hput, hnone, hready, hdisk,
      hfiles⟩
    · exact .inl ⟨hput, fun _ _ h => nomatch h⟩
    · refine .inr ⟨i, s', hput, .inr ⟨rfl, hnone⟩, hready, hdisk, ?_⟩
      intro j
      rw [hfiles j]
      simp

end table

-- ==== owners

/-- Whose a block may be. -/
inductive Owner
  | node (index : Nat)
  | entry (index : Fin fileCacheSlots)
  | buffer
  deriving DecidableEq

/-- The block behind a pointer, when it is one. -/
def Ptr.number : Ptr → Option Nat
  | .still _ => none
  | .block b => some b

namespace Store

/-- The block of an owner. -/
def owned (s : Store) : Owner → Option Nat
  | .node i => (s.nodeData i).number
  | .entry i => (s.cache.entries i).data
  | .buffer => s.readCache

/-- No block has two owners, and every one that has an owner is there. -/
structure Apart (s : Store) : Prop where
  live : ∀ o b, s.owned o = some b → s.heap b ≠ none
  apart : ∀ o o' b, s.owned o = some b → s.owned o' = some b → o = o'
  fresh : ∀ b, s.heap b ≠ none → b < s.requests

/-- Every place holds the bytes of its file: a node's pointer those of the
node, an entry of the cache those that the disk shows, now and as long as
it is only read. -/
structure Sound (s : Store) : Prop extends s.Apart where
  files : ∀ i data, s.fileAt i = some data →
    s.behind data.length (s.nodeData i) = some data
  others : ∀ i, s.fileAt i = none → (s.nodeData i).number = none
  clean : s.cache.Clean
  cached : ∀ i b, (s.cache.entries i).data = some b →
    ∃ bytes, s.heap b = some bytes ∧ ∀ t, Later s.disk t →
      (readFileChain (s.cache.entries i).firstCluster
        (s.cache.entries i).size t).1 = some bytes

/-- Of the blocks that were there, these were given back, and nobody got
one that was not his. -/
structure Gives (freed : List Nat) (s s' : Store) : Prop where
  grow : s.requests ≤ s'.requests
  owners : ∀ o b, s'.owned o = some b → b < s.requests →
    s.owned o = some b
  heap : ∀ b < s.requests,
    s'.heap b = if b ∈ freed then none else s.heap b

section rules

variable {s s' s'' : Store} {freed more : List Nat} {b size : Nat}
  {content : List UInt8}

theorem Gives.refl (s : Store) : Gives [] s s :=
  ⟨Nat.le_refl _, fun _ _ ho _ => ho, fun _ _ => by simp⟩

theorem Gives.trans (h : Gives freed s s') (h' : Gives more s' s'') :
    Gives (freed ++ more) s s'' where
  grow := h.grow.trans h'.grow
  owners o b ho hb :=
    h.owners o b (h'.owners o b ho (Nat.lt_of_lt_of_le hb h.grow)) hb
  heap b hb := by
    rw [h'.heap b (Nat.lt_of_lt_of_le hb h.grow), h.heap b hb]
    by_cases h1 : b ∈ freed <;> by_cases h2 : b ∈ more <;> simp [h1, h2]

theorem Gives.congr (h : Gives freed s s')
    (hmem : ∀ b < s.requests, b ∈ freed ↔ b ∈ more) : Gives more s s' where
  grow := h.grow
  owners := h.owners
  heap b hb := by
    rw [h.heap b hb]
    simp only [hmem b hb]

theorem behind_congr {ptr : Ptr}
    (h : ∀ b, ptr.number = some b → s'.heap b = s.heap b) :
    s'.behind size ptr = s.behind size ptr := by
  cases ptr with
  | still data => rfl
  | block b =>
    show (s'.heap b).map _ = (s.heap b).map _
    rw [h b rfl]

theorem Apart.lt (h : s.Apart) {o : Owner} (ho : s.owned o = some b) :
    b < s.requests := h.fresh b (h.live o b ho)

theorem Apart.congr (h : s.Apart) (howned : s'.owned = s.owned)
    (hheap : ∀ o b, s.owned o = some b → s'.heap b = none →
      s.heap b = none)
    (hfresh : ∀ b, s'.heap b ≠ none → b < s'.requests) : s'.Apart where
  live o b ho hnone := by
    rw [howned] at ho
    exact h.live o b ho (hheap o b ho hnone)
  apart o o' b ho ho' := by
    rw [howned] at ho ho'
    exact h.apart o o' b ho ho'
  fresh := hfresh

theorem Sound.table (h : s.Sound) {t : FsState}
    (hfiles : t.fileAt = s.fileAt) (hlater : Later s.disk t.disk) :
    ({ s with toFsState := t } : Store).Sound where
  toApart := h.toApart.congr rfl (fun _ _ _ => id) h.fresh
  files i data hi := h.files i data (by rw [← hfiles]; exact hi)
  others i hi := h.others i (by rw [← hfiles]; exact hi)
  clean := h.clean
  cached i b hb := by
    obtain ⟨bytes, hbytes, hread⟩ := h.cached i b hb
    exact ⟨bytes, hbytes, fun t ht => hread t (hlater.trans ht)⟩

theorem Sound.heap (h : s.Sound) {H : Nat → Option (List UInt8)} {R : Nat}
    (hheap : ∀ o b, s.owned o = some b → H b = s.heap b)
    (hfresh : ∀ b, H b ≠ none → b < R) :
    ({ s with heap := H, requests := R } : Store).Sound where
  toApart := h.toApart.congr rfl
    (fun o b ho hnone => (hheap o b ho).symm.trans hnone) hfresh
  files i data hi := by
    rw [← h.files i data hi]
    exact behind_congr fun b hb => hheap (.node i) b hb
  others := h.others
  clean := h.clean
  cached i b hb := by
    obtain ⟨bytes, hbytes, hread⟩ := h.cached i b hb
    exact ⟨bytes, (hheap (.entry i) b hb).trans hbytes, hread⟩

theorem kmalloc_cases (grants : Grants) (content : List UInt8) (s : Store) :
    kmalloc grants content s
        = (none, { s with requests := s.requests + 1 }) ∧
      grants s.requests content.length = false ∨
    kmalloc grants content s
        = (some s.requests, { s with
            requests := s.requests + 1
            heap := fun b =>
              if b = s.requests then some content else s.heap b }) ∧
      grants s.requests content.length = true := by
  unfold kmalloc
  rw [Cmd.get_bind_apply, Cmd.modify_bind_apply]
  cases hg : grants s.requests content.length with
  | false => exact .inl ⟨Cmd.require_bind_err rfl, rfl⟩
  | true =>
    right
    rw [Cmd.require_bind rfl, Cmd.modify_bind_apply]
    exact ⟨rfl, rfl⟩

theorem Sound.refused (h : s.Sound) :
    ({ s with requests := s.requests + 1 } : Store).Sound :=
  h.heap (fun _ _ _ => rfl) fun b hb => Nat.lt_succ_of_lt (h.fresh b hb)

theorem Sound.granted (h : s.Sound) (content : List UInt8) :
    ({ s with
      requests := s.requests + 1
      heap := fun b =>
        if b = s.requests then some content else s.heap b } : Store).Sound := by
  refine h.heap (fun o b ho => if_neg ?_) fun b hb => ?_
  · exact Nat.ne_of_lt (h.lt ho)
  · by_cases he : b = s.requests
    · omega
    · rw [if_neg he] at hb
      exact Nat.lt_succ_of_lt (h.fresh b hb)

theorem gives_refused (s : Store) :
    Gives [] s { s with requests := s.requests + 1 } :=
  ⟨Nat.le_succ _, fun _ _ ho _ => ho, fun _ _ => by simp⟩

theorem gives_granted (s : Store) (content : List UInt8) :
    Gives [] s { s with
      requests := s.requests + 1
      heap := fun b =>
        if b = s.requests then some content else s.heap b } :=
  ⟨Nat.le_succ _, fun _ _ ho _ => ho,
    fun b hb => by simp [Nat.ne_of_lt hb]⟩

-- ==== the cache

theorem Sound.drop (h : s.Sound) {c : FileCache}
    (hdrop : FileCache.Drops s.cache c freed) :
    ({ s with
      heap := fun b => if b ∈ freed then none else s.heap b
      cache := c } : Store).Sound := by
  -- an owner that is left had its block before, and it was not given back
  have hold : ∀ o b, ({ s with cache := c } : Store).owned o = some b →
      s.owned o = some b ∧ b ∉ freed := by
    intro o b ho
    have hkept : s.owned o = some b := by
      cases o with
      | node i => exact ho
      | buffer => exact ho
      | entry i =>
        rcases hdrop.entry i with he | ⟨hz, -⟩
        · show (s.cache.entries i).data = some b
          rw [← he]
          exact ho
        · have hno : (c.entries i).data = some b := ho
          rw [hz] at hno
          cases hno
    refine ⟨hkept, fun hmem => ?_⟩
    obtain ⟨j, hj, hz⟩ := hdrop.freed b hmem
    have heq : o = .entry j := h.apart o (.entry j) b hkept hj
    subst heq
    have hno : (c.entries j).data = some b := ho
    rw [hz] at hno
    cases hno
  refine
    { live := fun o b ho => ?_
      apart := fun o o' b ho ho' =>
        h.apart o o' b (hold o b ho).1 (hold o' b ho').1
      fresh := fun b hb => ?_
      files := fun i data hi => ?_
      others := h.others
      clean := hdrop.clean h.clean
      cached := fun i b hb => ?_ }
  · obtain ⟨hkept, hnot⟩ := hold o b ho
    show (if b ∈ freed then none else s.heap b) ≠ none
    rw [if_neg hnot]
    exact h.live o b hkept
  · by_cases hmem : b ∈ freed
    · exact absurd (if_pos hmem) hb
    · have hb : (if b ∈ freed then none else s.heap b) ≠ none := hb
      rw [if_neg hmem] at hb
      exact h.fresh b hb
  · rw [← h.files i data hi]
    exact behind_congr fun b hb => if_neg (hold (.node i) b hb).2
  · obtain ⟨hkept, hnot⟩ := hold (.entry i) b hb
    obtain ⟨bytes, hbytes, hread⟩ := h.cached i b hkept
    have he : c.entries i = s.cache.entries i := by
      rcases hdrop.entry i with he | ⟨hz, -⟩
      · exact he
      · have hno : (c.entries i).data = some b := hb
        rw [hz] at hno
        cases hno
    refine ⟨bytes, ?_, ?_⟩
    · show (if b ∈ freed then none else s.heap b) = some bytes
      rw [if_neg hnot]
      exact hbytes
    · show ∀ t, Later s.disk t →
        (readFileChain (c.entries i).firstCluster (c.entries i).size t).1
          = some bytes
      rw [he]
      exact hread

theorem gives_dropped {c : FileCache}
    (hdrop : FileCache.Drops s.cache c freed) :
    Gives freed s { s with
      heap := fun b => if b ∈ freed then none else s.heap b
      cache := c } where
  grow := Nat.le_refl _
  owners o b ho _ := by
    cases o with
    | node i => exact ho
    | buffer => exact ho
    | entry i =>
      have ho : (c.entries i).data = some b := ho
      show (s.cache.entries i).data = some b
      rcases hdrop.entry i with he | ⟨hz, -⟩
      · rw [← he]
        exact ho
      · rw [hz] at ho
        cases ho
  heap _ _ := rfl

theorem Apart.take (h : s.Apart) {o : Owner}
    (hreq : s'.requests = s.requests + 1)
    (hheap : s'.heap = fun b =>
      if b = s.requests then some content else s.heap b)
    (hself : s'.owned o = some s.requests)
    (hrest : ∀ o' b, o' ≠ o → s'.owned o' = some b → s.owned o' = some b) :
    s'.Apart where
  live o' b ho := by
    rw [hheap]
    dsimp only
    split
    · exact Option.some_ne_none _
    · next hne =>
      refine h.live o' b (hrest o' b (fun he => hne ?_) ho)
      rw [he, hself] at ho
      exact (Option.some.inj ho).symm
  apart o1 o2 b h1 h2 := by
    -- an old owner's block is below the new one
    have hlow : ∀ o', o' ≠ o → s'.owned o' = some b → b ≠ s.requests :=
      fun o' hne ho => Nat.ne_of_lt (h.lt (hrest o' b hne ho))
    by_cases e1 : o1 = o
    · by_cases e2 : o2 = o
      · rw [e1, e2]
      · rw [e1, hself] at h1
        exact absurd (Option.some.inj h1).symm (hlow o2 e2 h2)
    · by_cases e2 : o2 = o
      · rw [e2, hself] at h2
        exact absurd (Option.some.inj h2).symm (hlow o1 e1 h1)
      · exact h.apart o1 o2 b (hrest o1 b e1 h1) (hrest o2 b e2 h2)
  fresh b hb := by
    rw [hheap] at hb
    dsimp only at hb
    rw [hreq]
    by_cases he : b = s.requests
    · omega
    · rw [if_neg he] at hb
      exact Nat.lt_succ_of_lt (h.fresh b hb)

theorem gives_taken (o : Owner) (hreq : s'.requests = s.requests + 1)
    (hheap : s'.heap = fun b =>
      if b = s.requests then some content else s.heap b)
    (hself : s'.owned o = some s.requests)
    (hrest : ∀ o' b, o' ≠ o → s'.owned o' = some b → s.owned o' = some b) :
    Gives [] s s' where
  grow := by omega
  owners o' b ho hb := by
    refine hrest o' b (fun he => ?_) ho
    rw [he, hself] at ho
    exact absurd (Option.some.inj ho) (Nat.ne_of_gt hb)
  heap b hb := by
    rw [hheap]
    simp [Nat.ne_of_lt hb]

theorem enter_owned {i : Fin fileCacheSlots} {relative : List UInt8}
    {firstCluster block : Nat} {o : Owner} (hne : o ≠ .entry i)
    (ho : ({ s with
      cache := s.cache.enter i relative firstCluster size block } :
      Store).owned o = some b) : s.owned o = some b := by
  cases o with
  | node j => exact ho
  | buffer => exact ho
  | entry j =>
    have hji : j ≠ i := fun he => hne (by rw [he])
    have ho : (if j = i then _ else s.cache.entries j).data = some b := ho
    rw [if_neg hji] at ho
    exact ho

theorem Sound.enter (h : s.Sound) {i : Fin fileCacheSlots}
    {relative : List UInt8} {firstCluster : Nat}
    (hread : ∀ t, Later s.disk t →
      (readFileChain firstCluster size t).1 = some content) :
    ({ s with
      requests := s.requests + 1
      heap := fun b => if b = s.requests then some content else s.heap b
      cache := s.cache.enter i relative firstCluster size s.requests } :
      Store).Sound := by
  have hentry : ∀ j, (s.cache.enter i relative firstCluster size
      s.requests).entries j
      = if j = i then ⟨true, relative, firstCluster, size, s.cache.nextAge,
          some s.requests⟩ else s.cache.entries j := fun _ => rfl
  have hself : (if s.requests = s.requests then some content
      else s.heap s.requests) = some content := if_pos rfl
  refine
    { toApart := h.toApart.take (o := .entry i) rfl rfl ?_
        fun o' b hne ho => enter_owned hne ho
      files := fun j data hj => ?_
      others := h.others
      clean := fun j hj => ?_
      cached := fun j b hb => ?_ }
  · show ((s.cache.enter i relative firstCluster size
      s.requests).entries i).data = some s.requests
    rw [hentry, if_pos rfl]
  · rw [← h.files j data hj]
    exact behind_congr fun b hb =>
      if_neg (Nat.ne_of_lt (h.lt (o := .node j) hb))
  · have hj : ((s.cache.enter i relative firstCluster size
      s.requests).entries j).valid = false := hj
    show (s.cache.enter i relative firstCluster size s.requests).entries j
      = .zero
    rw [hentry] at hj ⊢
    split at hj
    · cases hj
    · next hji =>
      rw [if_neg hji]
      exact h.clean j hj
  · have hb : ((s.cache.enter i relative firstCluster size
      s.requests).entries j).data = some b := hb
    show ∃ bytes, (if b = s.requests then some content else s.heap b)
        = some bytes ∧ ∀ t, Later s.disk t →
      (readFileChain ((s.cache.enter i relative firstCluster size
        s.requests).entries j).firstCluster ((s.cache.enter i relative
        firstCluster size s.requests).entries j).size t).1 = some bytes
    rw [hentry] at hb ⊢
    split at hb
    · next hji =>
      cases hb
      rw [if_pos hji]
      exact ⟨content, hself, hread⟩
    · next hji =>
      rw [if_neg hji, if_neg (Nat.ne_of_lt (h.lt (o := .entry j) hb))]
      exact h.cached j b hb

theorem Sound.touch (h : s.Sound) {c : FileCache}
    (hage : ∀ j, c.entries j = s.cache.entries j ∨
      (s.cache.entries j).valid = true ∧
        ∃ age, c.entries j = { s.cache.entries j with age }) :
    ({ s with cache := c } : Store).Sound ∧
      Gives [] s { s with cache := c } := by
  have hdata : ∀ j, (c.entries j).data = (s.cache.entries j).data := by
    intro j
    rcases hage j with he | ⟨-, age, he⟩ <;> rw [he]
  have howned : ({ s with cache := c } : Store).owned = s.owned := by
    funext o
    cases o with
    | node j => rfl
    | buffer => rfl
    | entry j => exact hdata j
  refine ⟨?_, Nat.le_refl _, fun o b ho _ => by rwa [howned] at ho,
    fun b _ => by simp⟩
  refine
    { toApart := h.toApart.congr howned (fun _ _ _ => id) h.fresh
      files := h.files
      others := h.others
      clean := fun j hj => ?_
      cached := fun j b hb => ?_ }
  · show c.entries j = .zero
    have hj : (c.entries j).valid = false := hj
    rcases hage j with he | ⟨hv, age, he⟩
    · rw [he] at hj ⊢
      exact h.clean j hj
    · rw [he, hv] at hj
      cases hj
  · obtain ⟨bytes, hbytes, hread⟩ := h.cached j b ((hdata j).symm.trans hb)
    refine ⟨bytes, hbytes, ?_⟩
    show ∀ t, Later s.disk t →
      (readFileChain (c.entries j).firstCluster (c.entries j).size t).1
        = some bytes
    rcases hage j with he | ⟨-, age, he⟩ <;> rw [he] <;> exact hread

-- ==== the buffer and the nodes

theorem Sound.newBuffer (h : s.Sound) (content : List UInt8) (size : Nat) :
    ({ s with
      requests := s.requests + 1
      heap := fun b => if b = s.requests then some content else s.heap b
      readCache := some s.requests
      readCacheSize := size } : Store).Sound where
  toApart := h.toApart.take (o := .buffer) rfl rfl rfl
    fun o' b hne ho => by
      cases o' with
      | node j => exact ho
      | entry j => exact ho
      | buffer => exact absurd rfl hne
  files j data hj := by
    rw [← h.files j data hj]
    exact behind_congr fun b hb =>
      if_neg (Nat.ne_of_lt (h.lt (o := .node j) hb))
  others := h.others
  clean := h.clean
  cached j b hb := by
    obtain ⟨bytes, hbytes, hread⟩ := h.cached j b hb
    refine ⟨bytes, ?_, hread⟩
    exact (if_neg (Nat.ne_of_lt (h.lt (o := .entry j) hb))).trans hbytes

theorem Sound.dropBuffer (h : s.Sound) (hb : s.readCache = some b) :
    ({ s with
      heap := fun b' => if b' ∈ [b] then none else s.heap b'
      readCache := none
      readCacheSize := 0 } : Store).Sound := by
  have hother : ∀ o b', o ≠ .buffer → s.owned o = some b' → b' ∉ [b] := by
    intro o b' hne ho hmem
    rw [List.mem_singleton.mp hmem] at ho
    exact hne (h.apart o .buffer b ho hb)
  have hnone : ∀ o b',
      ({ s with readCache := none } : Store).owned o = some b' →
      o ≠ .buffer ∧ s.owned o = some b' := by
    intro o b' ho
    cases o with
    | node j => exact ⟨by rintro ⟨⟩, ho⟩
    | entry j => exact ⟨by rintro ⟨⟩, ho⟩
    | buffer => cases ho
  refine
    { live := fun o b' ho => ?_
      apart := fun o o' b' ho ho' =>
        h.apart o o' b' (hnone o b' ho).2 (hnone o' b' ho').2
      fresh := fun b' hb' => ?_
      files := fun j data hj => ?_
      others := h.others
      clean := h.clean
      cached := fun j b' hb' => ?_ }
  · obtain ⟨hne, ho⟩ := hnone o b' ho
    show (if b' ∈ [b] then none else s.heap b') ≠ none
    rw [if_neg (hother o b' hne ho)]
    exact h.live o b' ho
  · have hb' : (if b' ∈ [b] then none else s.heap b') ≠ none := hb'
    split at hb'
    · exact absurd rfl hb'
    · exact h.fresh b' hb'
  · rw [← h.files j data hj]
    exact behind_congr fun b' hb' =>
      if_neg (hother (.node j) b' (fun he => nomatch he) hb')
  · obtain ⟨bytes, hbytes, hread⟩ := h.cached j b' hb'
    refine ⟨bytes, ?_, hread⟩
    exact (if_neg (hother (.entry j) b' (fun he => nomatch he) hb')).trans
      hbytes

theorem Sound.fillBuffer (h : s.Sound) (hb : s.readCache = some b)
    (bytes : List UInt8) : (fill b bytes s).2.Sound := by
  have hother : ∀ o b', o ≠ .buffer → s.owned o = some b' → b' ≠ b := by
    intro o b' hne ho he
    rw [he] at ho
    exact hne (h.apart o .buffer b ho hb)
  have hlive : ∀ b', (fill b bytes s).2.heap b' = none → s.heap b' = none := by
    intro b' hnone
    have hnone : (if b' = b then (s.heap b').map (overlay bytes)
      else s.heap b') = none := hnone
    split at hnone
    · exact Option.map_eq_none_iff.mp hnone
    · exact hnone
  refine
    { toApart := h.toApart.congr rfl (fun _ b' _ => hlive b') fun b' hb' => ?_
      files := fun j data hj => ?_
      others := h.others
      clean := h.clean
      cached := fun j b' hb' => ?_ }
  · refine h.fresh b' fun hnone => hb' ?_
    show (if b' = b then (s.heap b').map (overlay bytes) else s.heap b') = none
    rw [hnone]
    simp
  · rw [← h.files j data hj]
    exact behind_congr fun b' hb' =>
      if_neg (hother (.node j) b' (fun he => nomatch he) hb')
  · obtain ⟨old, hold, hread⟩ := h.cached j b' hb'
    refine ⟨old, ?_, hread⟩
    exact (if_neg (hother (.entry j) b' (fun he => nomatch he) hb')).trans hold

theorem Sound.replace (h : s.Sound) {i : Nat} {t : FsState} {ptr : Ptr}
    {data : Option (List UInt8)} (hdisk : t.disk = s.disk)
    (hfiles : ∀ j, t.fileAt j = if j = i then data else s.fileAt j)
    (hfreed : ∀ b ∈ freed, s.owned (.node i) = some b)
    (hptr : ∀ b, ptr.number = some b →
      s.heap b ≠ none ∧ ∀ o, s.owned o ≠ some b)
    (hdata : ∀ d, data = some d → s.behind d.length ptr = some d)
    (hnone : data = none → ptr.number = none) :
    ({ s with
      toFsState := t
      heap := fun b => if b ∈ freed then none else s.heap b
      nodeData := fun j => if j = i then ptr else s.nodeData j } :
      Store).Sound := by
  -- whoever has a block now has it from before, or it is the new pointer's
  have hold : ∀ o b, ({ s with
      nodeData := fun j => if j = i then ptr else s.nodeData j } :
      Store).owned o = some b →
      o ≠ .node i ∧ s.owned o = some b ∨
        o = .node i ∧ ptr.number = some b := by
    intro o b ho
    cases o with
    | entry j => exact .inl ⟨by rintro ⟨⟩, ho⟩
    | buffer => exact .inl ⟨by rintro ⟨⟩, ho⟩
    | node j =>
      have ho : (if j = i then ptr else s.nodeData j).number = some b := ho
      split at ho
      · next hj => exact .inr ⟨by rw [hj], ho⟩
      · next hj => exact .inl ⟨fun he => hj (Owner.node.inj he), ho⟩
  have hkept : ∀ o b, ({ s with
      nodeData := fun j => if j = i then ptr else s.nodeData j } :
      Store).owned o = some b → b ∉ freed ∧ s.heap b ≠ none := by
    intro o b ho
    rcases hold o b ho with ⟨hne, ho⟩ | ⟨-, hp⟩
    · exact ⟨fun hmem => hne (h.apart o (.node i) b ho (hfreed b hmem)),
        h.live o b ho⟩
    · exact ⟨fun hmem => (hptr b hp).2 (.node i) (hfreed b hmem),
        (hptr b hp).1⟩
  refine
    { live := fun o b ho => ?_
      apart := fun o o' b ho ho' => ?_
      fresh := fun b hb => ?_
      files := fun j d hj => ?_
      others := fun j hj => ?_
      clean := h.clean
      cached := fun j b hb => ?_ }
  · show (if b ∈ freed then none else s.heap b) ≠ none
    rw [if_neg (hkept o b ho).1]
    exact (hkept o b ho).2
  · rcases hold o b ho with ⟨-, h1⟩ | ⟨rfl, h1⟩
    · rcases hold o' b ho' with ⟨-, h2⟩ | ⟨rfl, h2⟩
      · exact h.apart o o' b h1 h2
      · exact absurd h1 ((hptr b h2).2 o)
    · rcases hold o' b ho' with ⟨-, h2⟩ | ⟨rfl, h2⟩
      · exact absurd h2 ((hptr b h1).2 o')
      · rfl
  · have hb : (if b ∈ freed then none else s.heap b) ≠ none := hb
    split at hb
    · exact absurd rfl hb
    · exact h.fresh b hb
  · have hj : t.fileAt j = some d := hj
    rw [hfiles] at hj
    by_cases he : j = i
    · rw [if_pos he] at hj
      show ({ s with heap := fun b => if b ∈ freed then none else s.heap b } :
        Store).behind d.length (if j = i then ptr else s.nodeData j) = some d
      rw [if_pos he, ← hdata d hj]
      exact behind_congr fun b hb =>
        if_neg fun hmem => (hptr b hb).2 (.node i) (hfreed b hmem)
    · rw [if_neg he] at hj
      show ({ s with heap := fun b => if b ∈ freed then none else s.heap b } :
        Store).behind d.length (if j = i then ptr else s.nodeData j) = some d
      rw [if_neg he, ← h.files j d hj]
      exact behind_congr fun b hb => if_neg fun hmem =>
        he (Owner.node.inj (h.apart (.node j) (.node i) b hb (hfreed b hmem)))
  · have hj : t.fileAt j = none := hj
    rw [hfiles] at hj
    show (if j = i then ptr else s.nodeData j).number = none
    split at hj
    · next he =>
      rw [if_pos he]
      exact hnone hj
    · next he =>
      rw [if_neg he]
      exact h.others j hj
  · obtain ⟨bytes, hbytes, hread⟩ := h.cached j b hb
    refine ⟨bytes, ?_, ?_⟩
    · show (if b ∈ freed then none else s.heap b) = some bytes
      rw [if_neg (hkept (.entry j) b hb).1]
      exact hbytes
    · rw [← hdisk] at hread
      exact hread

end rules

end Store

end Clks.Fs
