/-
The node table: what each operation does to it (fs.c).

A slot of the table holds a node, used or not. Everything that enters a
node does it through `Put`, one slot that was free; making the directories
above a path adds such nodes and nothing else (`Grown`), also where it
gives up half way.
-/
import Clks.Disk.Naming
import Clks.Fs.Memory

namespace Clks.Fs

open Disk Bytes

-- ==== used nodes

/-- The node in a slot, when it is in use. -/
def FsState.usedAt (s : FsState) (i : Nat) : Option FsNode :=
  (s.nodes[i]?).filter (·.used)

/-- Everything above a path: its leading components. -/
def Above (internal q : List UInt8) : Prop := (q ++ [slash]) <+: internal

section table

variable {s s' s'' : FsState} {internal q : List UInt8} {i j : Nat}
  {n m : FsNode} {P Q : List UInt8 → Prop}

theorem usedAt_some : s.usedAt i = some n ↔
    s.nodes[i]? = some n ∧ n.used = true := by
  simp [FsState.usedAt, Option.filter_eq_some_iff]

theorem find_some (h : findNodeByInternal s internal = some i) :
    ∃ n, s.usedAt i = some n ∧ n.path = internal := by
  obtain ⟨hlt, hp, -⟩ := List.findIdx?_eq_some_iff_getElem.mp h
  rw [Bool.and_eq_true, decide_eq_true_eq] at hp
  exact ⟨s.nodes[i], usedAt_some.mpr
    ⟨List.getElem?_eq_getElem hlt, hp.1⟩, hp.2⟩

theorem find_none : findNodeByInternal s internal = none ↔
    ∀ i n, s.usedAt i = some n → n.path ≠ internal := by
  unfold findNodeByInternal
  rw [List.findIdx?_eq_none_iff]
  constructor
  · intro h i n hn hp
    obtain ⟨hget, hu⟩ := usedAt_some.mp hn
    have := h n (List.mem_of_getElem? hget)
    simp [hu, hp] at this
  · intro h n hmem
    obtain ⟨i, hget⟩ := List.mem_iff_getElem?.mp hmem
    by_cases hu : n.used = true
    · simpa [hu] using h i n (usedAt_some.mpr ⟨hget, hu⟩)
    · simp [hu]

theorem nodeAt_find (h : nodeAt s (findNodeByInternal s internal)
      = some (i, n)) : s.usedAt i = some n ∧ n.path = internal := by
  obtain ⟨hfind, hget⟩ := nodeAt_some h
  obtain ⟨m, hm, hpath⟩ := find_some hfind
  have := (usedAt_some.mp hm).1
  rw [hget] at this
  cases this
  exact ⟨hm, hpath⟩

theorem nodeAt_none
    (h : nodeAt s (findNodeByInternal s internal) = none) :
    findNodeByInternal s internal = none := by
  cases hfind : findNodeByInternal s internal with
  | none => rfl
  | some i =>
    obtain ⟨n, hn, -⟩ := find_some hfind
    simp [nodeAt, hfind, (usedAt_some.mp hn).1] at h

-- ==== one slot

/-- A node is entered in a slot that was free. -/
structure Put (i : Nat) (node : FsNode) (s s' : FsState) : Prop where
  ready : s'.ready = s.ready
  disk : s'.disk = s.disk
  free : s.usedAt i = none
  nodes : ∀ j, s'.nodes[j]? = if j = i then some node else s.nodes[j]?
  room : s.nodes.length ≤ maxNodes → s'.nodes.length ≤ maxNodes
  grow : s.nodes.length ≤ s'.nodes.length

theorem putNew_put (node : FsNode) (s : FsState) :
    putNew node s = (none, s) ∨
    ∃ i s', putNew node s = (some i, s') ∧ Put i node s s' := by
  unfold putNew
  rw [Cmd.get_bind_apply]
  cases hfree : s.nodes.findIdx? fun n => !n.used with
  | some i =>
    right
    obtain ⟨hlt, hp, -⟩ := List.findIdx?_eq_some_iff_getElem.mp hfree
    refine ⟨i, _, rfl, rfl, rfl, ?_, fun j => ?_, ?_, ?_⟩
    · have hu : s.nodes[i].used = false := by simpa using hp
      simp [FsState.usedAt, List.getElem?_eq_getElem hlt, hu]
    · by_cases hj : j = i
      · subst hj
        rw [if_pos rfl]
        exact List.getElem?_set_self hlt
      · rw [if_neg hj]
        exact List.getElem?_set_ne (fun h => hj h.symm)
    · intro h
      exact (List.length_set ..).le.trans h
    · exact (List.length_set ..).ge
  | none =>
    dsimp only
    by_cases hroom : s.nodes.length < maxNodes
    · right
      rw [Cmd.require_bind (by simpa using hroom)]
      refine ⟨s.nodes.length, _, rfl, rfl, rfl, ?_, fun j => ?_, ?_, ?_⟩
      · simp [FsState.usedAt]
      · show (s.nodes ++ [node])[j]? = _
        rw [List.getElem?_append]
        split
        · next hj => rw [if_neg (by omega)]
        · next hj =>
          by_cases he : j = s.nodes.length
          · subst he
            simp
          · rw [if_neg he, List.getElem?_eq_none (by simp; omega),
              List.getElem?_eq_none (by omega)]
      · intro _
        show (s.nodes ++ [node]).length ≤ maxNodes
        rw [List.length_append]
        exact hroom
      · show s.nodes.length ≤ (s.nodes ++ [node]).length
        rw [List.length_append]
        omega
    · left
      rw [Cmd.require_bind_err (by simpa using hroom)]

theorem Put.usedAt (h : Put i m s s') (hu : m.used = true) (j : Nat) :
    s'.usedAt j = if j = i then some m else s.usedAt j := by
  unfold FsState.usedAt
  rw [h.nodes j]
  split
  · simp [hu]
  · rfl

-- ==== more directories

/-- The table has grown by empty directories, at paths with a property
where nothing was. -/
structure Grown (P : List UInt8 → Prop) (s s' : FsState) : Prop where
  ready : s'.ready = s.ready
  disk : s'.disk = s.disk
  kept : ∀ i n, s.usedAt i = some n → s'.usedAt i = some n
  fresh : ∀ (i : Nat) (n : FsNode), s'.nodes[i]? = some n →
    s.nodes[i]? = some n ∨
    (n.used = true ∧ n.type = .dir ∧ n.data = [] ∧ P n.path ∧
      findNodeByInternal s n.path = none)
  grow : s.nodes.length ≤ s'.nodes.length

theorem Grown.refl (P : List UInt8 → Prop) (s : FsState) : Grown P s s :=
  ⟨rfl, rfl, fun _ _ h => h, fun _ _ h => .inl h, Nat.le_refl _⟩

theorem Grown.mono (h : Grown P s s') (hPQ : ∀ q, P q → Q q) :
    Grown Q s s' where
  ready := h.ready
  disk := h.disk
  kept := h.kept
  fresh i n hn := (h.fresh i n hn).imp_right fun ⟨hu, ht, hd, hp, hf⟩ =>
    ⟨hu, ht, hd, hPQ _ hp, hf⟩
  grow := h.grow

theorem Grown.find_none (h : Grown P s s')
    (hq : findNodeByInternal s' q = none) :
    findNodeByInternal s q = none :=
  Fs.find_none.mpr fun i n hn => Fs.find_none.mp hq i n (h.kept i n hn)

theorem Grown.trans (h : Grown P s s') (h' : Grown P s' s'') :
    Grown P s s'' where
  ready := h'.ready.trans h.ready
  disk := h'.disk.trans h.disk
  kept i n hn := h'.kept i n (h.kept i n hn)
  fresh i n hn := by
    rcases h'.fresh i n hn with hold | ⟨hu, ht, hd, hp, hf⟩
    · exact h.fresh i n hold
    · exact .inr ⟨hu, ht, hd, hp, h.find_none hf⟩
  grow := h.grow.trans h'.grow

theorem Grown.of_put (h : Put i m s s') (hu : m.used = true)
    (ht : m.type = .dir) (hd : m.data = []) (hp : P m.path)
    (hnone : findNodeByInternal s m.path = none) : Grown P s s' where
  ready := h.ready
  disk := h.disk
  kept j n hn := by
    rw [h.usedAt hu]
    split
    · next hj => rw [hj, h.free] at hn; cases hn
    · exact hn
  fresh j n hn := by
    rw [h.nodes j] at hn
    split at hn
    · cases hn
      exact .inr ⟨hu, ht, hd, hp, hnone⟩
    · exact .inl hn
  grow := h.grow

theorem Grown.eq_self (h : Grown P s s')
    (hall : ∀ q, P q → findNodeByInternal s q ≠ none) : s' = s := by
  have hnodes : s'.nodes = s.nodes := by
    refine List.ext_getElem? fun i => ?_
    cases hi : s'.nodes[i]? with
    | some n =>
      rcases h.fresh i n hi with hold | ⟨-, -, -, hp, hf⟩
      · exact hold.symm
      · exact absurd hf (hall _ hp)
    | none =>
      have hge : s'.nodes.length ≤ i := List.getElem?_eq_none_iff.mp hi
      exact (List.getElem?_eq_none (h.grow.trans hge)).symm
  cases s
  cases s'
  obtain ⟨hready, hdisk⟩ := And.intro h.ready h.disk
  dsimp only at hready hdisk hnodes
  rw [hready, hdisk, hnodes]

theorem Grown.fileAt (h : Grown P s s') : s'.fileAt = s.fileAt := by
  have hfile : ∀ (t : FsState) i, t.fileAt i = (t.usedAt i).bind fun n =>
      if n.type = .file then some n.data else none := by
    intro t i
    unfold FsState.fileAt FsState.usedAt
    cases t.nodes[i]? with
    | none => rfl
    | some n => cases hu : n.used <;> simp [hu, Option.filter]
  funext i
  rw [hfile, hfile]
  cases hi : s.usedAt i with
  | some n => rw [h.kept i n hi]
  | none =>
    cases hi' : s'.usedAt i with
    | none => rfl
    | some n =>
      obtain ⟨hget, hu⟩ := usedAt_some.mp hi'
      rcases h.fresh i n hget with hold | ⟨-, ht, -⟩
      · rw [usedAt_some.mpr ⟨hold, hu⟩] at hi
        cases hi
      · simp [ht]

-- ==== the hierarchy

theorem Put.nodeAt (h : Put i m s s') (hu : m.used = true)
    (hnone : findNodeByInternal s m.path = none) :
    nodeAt s' (findNodeByInternal s' m.path) = some (i, m) := by
  have hi : s'.usedAt i = some m := by rw [h.usedAt hu, if_pos rfl]
  cases hfind : findNodeByInternal s' m.path with
  | none => exact absurd rfl (find_none.mp hfind i m hi)
  | some j =>
    obtain ⟨n, hn, hpath⟩ := find_some hfind
    have hj : j = i := by
      by_contra hne
      rw [h.usedAt hu, if_neg hne] at hn
      exact find_none.mp hnone j n hn hpath
    subst hj
    rw [hi] at hn
    cases hn
    simp [Fs.nodeAt, (usedAt_some.mp hi).1]

theorem createDir_put (hnone : findNodeByInternal s q = none)
    (parent : Nat) :
    createOrUpdateNode q .dir parent [] s = (none, s) ∨
    ∃ i s', createOrUpdateNode q .dir parent [] s = (some i, s') ∧
      Put i ⟨true, .dir, parent, [], q⟩ s s' := by
  unfold createOrUpdateNode
  by_cases hlen : q.length < fsPathMax
  · rw [Cmd.require_bind (by simpa using hlen), Cmd.get_bind_apply, hnone]
    exact putNew_put _ s
  · left
    rw [Cmd.require_bind_err (by simpa using hlen)]

/-- What stands in front of the next component. -/
def separated (pfx : List UInt8) : List UInt8 :=
  if pfx = [] then [] else pfx ++ [slash]

theorem separated_of_ne {pfx : List UInt8} (h : pfx ≠ []) :
    separated pfx = pfx ++ [slash] := if_neg h

theorem separated_intercalate {pfx c : List UInt8} (hc : c ≠ [])
    (rest : List (List UInt8)) :
    separated pfx ++ [slash].intercalate (c :: rest)
      = if rest = [] then separated pfx ++ c
        else separated (separated pfx ++ c) ++ [slash].intercalate rest := by
  cases rest with
  | nil => simp [List.intercalate]
  | cons d rest =>
    have hne : separated pfx ++ c ≠ [] := by simp [hc]
    rw [if_neg (List.cons_ne_nil d rest)]
    rw [separated_of_ne hne]
    simp [List.intercalate, List.intersperse]

theorem ensureDirLoop_cons (c : List UInt8) (rest : List (List UInt8))
    (pfx : List UInt8) (parent : Nat) (s : FsState) :
    ensureDirLoop (c :: rest) pfx parent s = (none, s) ∨
    (c ≠ [] ∧ ∃ i n, Fs.nodeAt s
        (findNodeByInternal s (separated pfx ++ c)) = some (i, n) ∧
      n.type = .dir ∧ ensureDirLoop (c :: rest) pfx parent s
        = ensureDirLoop rest (separated pfx ++ c) i s) ∨
    (c ≠ [] ∧ findNodeByInternal s (separated pfx ++ c) = none ∧ ∃ i s',
      Put i ⟨true, .dir, parent, [], separated pfx ++ c⟩ s s' ∧
      ensureDirLoop (c :: rest) pfx parent s
        = ensureDirLoop rest (separated pfx ++ c) i s') := by
  rw [ensureDirLoop]
  simp only [show (if pfx = [] then [] else pfx ++ [slash]) = separated pfx
    from rfl]
  by_cases hc : c = []
  · left
    rw [Cmd.require_bind_err (by simpa using hc)]
  rw [Cmd.require_bind (by simpa using hc)]
  by_cases hroom : pfx = [] ∨ pfx.length + 1 < fsPathMax
  swap
  · left
    rw [Cmd.require_bind_err (by simpa using hroom)]
  rw [Cmd.require_bind (by simpa using hroom)]
  by_cases hlen : (separated pfx).length + c.length < fsPathMax
  swap
  · left
    rw [Cmd.require_bind_err (by simpa using hlen)]
  rw [Cmd.require_bind (by simpa using hlen), Cmd.get_bind_apply]
  cases hat : Fs.nodeAt s (findNodeByInternal s (separated pfx ++ c)) with
  | some found =>
    obtain ⟨i, n⟩ := found
    dsimp only
    by_cases htype : n.type = .dir
    · exact .inr (.inl ⟨hc, i, n, rfl, htype,
        Cmd.require_bind (by simpa using htype)⟩)
    · exact .inl (Cmd.require_bind_err (by simpa using htype))
  | none =>
    have hnone := nodeAt_none hat
    dsimp only
    rcases createDir_put hnone parent with hput | ⟨i, s', hput, h⟩
    · exact .inl (Cmd.bind_err hput)
    · exact .inr (.inr ⟨hc, hnone, i, s', h, Cmd.bind_ok hput⟩)

theorem ensureDirLoop_run (comps : List (List UInt8))
    (pfx : List UInt8) (parent : Nat) (s : FsState) :
    ∃ r s', ensureDirLoop comps pfx parent s = (r, s') ∧
      Grown (fun q =>
        Above (separated pfx ++ [slash].intercalate comps) q ∨
          r = some () ∧ q = separated pfx ++ [slash].intercalate comps)
        s s' ∧
      (r = some () → comps ≠ [] → ∃ i n, n.type = .dir ∧
        Fs.nodeAt s' (findNodeByInternal s'
          (separated pfx ++ [slash].intercalate comps)) = some (i, n)) := by
  induction comps generalizing pfx parent s with
  | nil => exact ⟨_, _, rfl, .refl _ s, fun _ h => absurd rfl h⟩
  | cons c rest ih =>
    rcases ensureDirLoop_cons c rest pfx parent s with hfail |
      ⟨hc, i, n, hat, htype, hrun⟩ | ⟨hc, hnone, i, s1, hput, hrun⟩
    · exact ⟨none, s, hfail, .refl _ s, fun h => nomatch h⟩
    · -- the directory is there
      rw [hrun, separated_intercalate hc]
      by_cases hrest : rest = []
      · subst hrest
        refine ⟨_, _, rfl, .refl _ s, fun _ _ => ⟨i, n, htype, ?_⟩⟩
        rw [if_pos rfl]
        exact hat
      · rw [if_neg hrest]
        obtain ⟨r, s', hr, hg, hend⟩ := ih (separated pfx ++ c) i s
        exact ⟨r, s', hr, hg, fun h _ => hend h hrest⟩
    · -- the directory is made
      rw [hrun, separated_intercalate hc]
      have hgrown : ∀ P : List UInt8 → Prop, P (separated pfx ++ c) →
          Grown P s s1 := fun P hP =>
        .of_put hput rfl rfl rfl hP hnone
      by_cases hrest : rest = []
      · subst hrest
        rw [if_pos rfl]
        exact ⟨_, _, rfl, hgrown _ (.inr ⟨rfl, rfl⟩), fun _ _ =>
          ⟨i, _, rfl, hput.nodeAt rfl hnone⟩⟩
      · rw [if_neg hrest]
        obtain ⟨r, s', hr, hg, hend⟩ := ih (separated pfx ++ c) i s1
        refine ⟨r, s', hr, (hgrown _ (.inl ?_)).trans hg,
          fun h _ => hend h hrest⟩
        have hne : separated pfx ++ c ≠ [] := by simp [hc]
        rw [Above, separated_of_ne hne]
        exact List.prefix_append _ _

theorem ensureDirHierarchy_run (internal : List UInt8) (s : FsState) :
    ∃ r s', ensureDirHierarchy internal s = (r, s') ∧
      Grown (fun q => Above internal q ∨
        r = some () ∧ q = internal ∧ internal ≠ []) s s' ∧
      (r = some () → internal ≠ [] → ∃ i n, n.type = .dir ∧
        Fs.nodeAt s' (findNodeByInternal s' internal) = some (i, n)) := by
  unfold ensureDirHierarchy
  split
  · next h => exact ⟨_, _, rfl, .refl _ s, fun _ hne => absurd h hne⟩
  · next hne =>
    have hrun := ensureDirLoop_run (internal.splitOn slash) [] 0 s
    rw [separated, if_pos rfl, List.nil_append,
      List.intercalate_splitOn] at hrun
    obtain ⟨r, s', hr, hg, hend⟩ := hrun
    exact ⟨r, s', hr, hg.mono fun q hq => hq.imp_right
        fun ⟨hr, hq⟩ => ⟨hr, hq, hne⟩,
      fun h _ => hend h (List.splitOn_ne_nil _ _)⟩

-- ==== failures

theorem above_trans {p : List UInt8} (h : Above p q)
    (h' : Above internal p) : Above internal q :=
  List.IsPrefix.trans h ((List.prefix_append p [slash]).trans h')

theorem split_path (internal : List UInt8) :
    (splitParent internal = [] ∧ basename internal = internal ∧
      slash ∉ internal) ∨
    internal = splitParent internal ++ slash :: basename internal := by
  have hsplit := List.takeWhile_append_dropWhile
    (p := fun b => decide (b ≠ slash)) (l := internal.reverse)
  unfold splitParent basename
  cases hdrop : internal.reverse.dropWhile fun b => decide (b ≠ slash) with
  | nil =>
    left
    rw [hdrop, List.append_nil] at hsplit
    refine ⟨rfl, by rw [hsplit, List.reverse_reverse], fun hmem => ?_⟩
    rw [← List.mem_reverse, ← hsplit] at hmem
    simpa using List.mem_takeWhile_imp hmem
  | cons b rest =>
    right
    have hb : b = slash := by
      have := List.head?_dropWhile_not (fun b => decide (b ≠ slash))
        internal.reverse
      rw [hdrop] at this
      simpa using this
    subst hb
    rw [hdrop] at hsplit
    have := congrArg List.reverse hsplit
    rw [List.reverse_reverse, List.reverse_append] at this
    simpa using this.symm

theorem splitParent_above (hne : splitParent internal ≠ []) :
    Above internal (splitParent internal) := by
  rcases split_path internal with ⟨hnil, -, -⟩ | heq
  · exact absurd hnil hne
  · refine ⟨basename internal, ?_⟩
    rw [List.append_assoc]
    exact heq.symm

theorem ensureParent_grown (internal : List UInt8) (s : FsState) :
    Grown (Above internal) s (ensureDirHierarchy (splitParent internal) s).2
    := by
  obtain ⟨r, s', hr, hg, -⟩ :=
    ensureDirHierarchy_run (splitParent internal) s
  rw [hr]
  refine hg.mono fun q hq => ?_
  rcases hq with hq | ⟨-, rfl, hne⟩
  · by_cases hne : splitParent internal = []
    · rw [hne, Above] at hq
      simpa using hq.length_le
    · exact above_trans hq (splitParent_above hne)
  · exact splitParent_above hne

section failures

variable {R : FsState → FsState → Prop} [IsPreorder FsState R]

theorem createOrUpdateNode_fails (internal : List UInt8) (type : NodeType)
    (parent : Nat) (data : List UInt8) (s : FsState) :
    Cmd.FailsTo R (createOrUpdateNode internal type parent data) s := by
  refine .requireBind fun _ => .getBind ?_
  split
  · exact .requireBind fun _ => .of_some rfl
  · rcases putNew_put ⟨true, type, parent,
      if type = .file then data else [], internal⟩ s with hput | ⟨i, s', hput,
      -⟩
    · refine .of_keeps ?_
      rw [hput]
      exact Std.Refl.refl s
    · exact .of_some hput

theorem buildFilePayload_state (kmalloc : Nat → Bool) (data : Option Mem)
    (size : Nat) (s : FsState) :
    (buildFilePayload kmalloc data size s).2 = s := by
  unfold buildFilePayload
  split
  · rfl
  · cases data with
    | none => rfl
    | some d => cases h : kmalloc size <;> rfl

end failures

theorem writablePath_some {path : List UInt8}
    (h : writablePath path s = (some internal, s')) :
    s' = s ∧ normalizeExternalPath path = some internal ∧ internal ≠ [] := by
  unfold writablePath at h
  cases hp : normalizeExternalPath path with
  | none => rw [hp] at h; cases h
  | some p =>
    rw [hp] at h
    obtain ⟨hw, h⟩ := Cmd.require_ok_inv h
    cases h
    refine ⟨rfl, rfl, fun hnil => ?_⟩
    rw [hnil] at hw
    cases hw

/-- The directories that a failed call may leave are above its path. -/
def AbovePath (path q : List UInt8) : Prop :=
  ∃ internal, normalizeExternalPath path = some internal ∧ Above internal q

instance (P : List UInt8 → Prop) : IsPreorder FsState (Grown P) where
  refl := .refl P
  trans _ _ _ := .trans

theorem mkdir_fails {path : List UInt8} (hout : pathInMount s path = false) :
    Cmd.FailsTo (Grown (AbovePath path)) (mkdir path) s := by
  refine .getBind (.requireBind fun _ => ?_)
  rw [if_neg (by simp [hout])]
  refine .bind ?_ fun internal s1 hw => ?_
  · rw [writablePath_state]
    exact .refl _ s
  · obtain ⟨rfl, hnorm, hne⟩ := writablePath_some hw
    obtain ⟨r, s2, hr, hg, hend⟩ := ensureDirHierarchy_run internal s1
    cases r with
    | none =>
      refine .of_keeps ?_
      rw [Cmd.bind_err hr]
      exact hg.mono fun q hq => ⟨internal, hnorm,
        hq.elim id fun h => nomatch h.1⟩
    | some u =>
      -- the directory is there, and the call succeeds
      obtain ⟨i, n, htype, hat⟩ := hend rfl hne
      refine .of_some (?_ : _ = (some (), s2))
      rw [Cmd.bind_ok hr, Cmd.get_bind_apply, hat]
      dsimp only
      rw [decide_eq_true htype]
      rfl

theorem writeAll_fails (kmalloc : Nat → Bool) {path : List UInt8}
    (data : Option Mem) (size : Nat) (hout : pathInMount s path = false) :
    Cmd.FailsTo (Grown (AbovePath path)) (writeAll kmalloc path data size)
      s := by
  refine .getBind (.requireBind fun _ => ?_)
  rw [if_neg (by simp [hout])]
  refine .bind ?_ fun internal s1 hw => ?_
  · rw [writablePath_state]
    exact .refl _ s
  · obtain ⟨rfl, hnorm, -⟩ := writablePath_some hw
    dsimp only
    refine .bind ?_ fun _ s2 _ => .getBind ?_
    · exact (ensureParent_grown internal s1).mono fun q hq =>
        ⟨internal, hnorm, hq⟩
    · -- behind the parents, nothing that fails leaves a trace
      split
      · exact .fail
      · refine .requireBind fun _ => .requireBind fun _ =>
          .bind ?_ fun payload s3 _ => ?_
        · rw [buildFilePayload_state]
          exact .refl _ s2
        · exact .bindTotal (createOrUpdateNode_fails _ _ _ _ s3)
            fun _ _ h => nomatch h

theorem append_fails (kmalloc : Nat → Bool) {path : List UInt8}
    (data : Option Mem) (size : Nat) (hout : pathInMount s path = false) :
    Cmd.FailsTo (Grown (AbovePath path)) (append kmalloc path data size)
      s := by
  refine .getBind (.requireBind fun _ => ?_)
  rw [if_neg (by simp [hout])]
  refine .requireBind fun _ => .bind ?_ fun internal s1 hw => ?_
  · rw [writablePath_state]
    exact .refl _ s
  · obtain ⟨rfl, -, -⟩ := writablePath_some hw
    split
    · exact writeAll_fails kmalloc data size hout
    · exact .requireBind fun _ => .requireBind fun _ =>
        .ite (writeAll_fails kmalloc _ 0 hout)
          (.requireBind fun _ => writeAll_fails kmalloc _ _ hout)

end table

-- ==== failed calls

/-- The calls that make nodes. -/
inductive TableCall
  | mkdir (path : List UInt8)
  | writeAll (path : List UInt8) (data : Option Mem) (size : Nat)
  | append (path : List UInt8) (data : Option Mem) (size : Nat)

namespace TableCall

def path : TableCall → List UInt8
  | mkdir path | writeAll path _ _ | append path _ _ => path

/-- The call; `kmalloc` says which requests for memory are granted. -/
def run (kmalloc : Nat → Bool) : TableCall → Cmd FsState Unit
  | mkdir path => Fs.mkdir path
  | writeAll path data size => Fs.writeAll kmalloc path data size
  | append path data size => Fs.append kmalloc path data size

theorem run_fails (kmalloc : Nat → Bool) (c : TableCall) {s : FsState}
    (hout : pathInMount s c.path = false) :
    Cmd.FailsTo (Grown (AbovePath c.path)) (c.run kmalloc) s := by
  cases c with
  | mkdir path => exact mkdir_fails hout
  | writeAll path data size => exact writeAll_fails kmalloc data size hout
  | append path data size => exact append_fails kmalloc data size hout

/-- A call that fails leaves every node as it was, and every file; it may
leave new directories above its path, and where none of these was missing
the table is exactly what it was. -/
theorem failed_call (kmalloc : Nat → Bool) (c : TableCall) {s s' : FsState}
    (hout : pathInMount s c.path = false)
    (hfail : c.run kmalloc s = (none, s')) :
    Grown (AbovePath c.path) s s' ∧ s'.fileAt = s.fileAt ∧
      ((∀ q, AbovePath c.path q → findNodeByInternal s q ≠ none) →
        s' = s) := by
  have hg := c.run_fails kmalloc hout (by rw [hfail])
  rw [hfail] at hg
  exact ⟨hg, hg.fileAt, hg.eq_self⟩

/-- The file system with nothing but the root node. -/
def rootOnly : FsState where
  ready := true
  nodes :=
    [{ used := true, type := .dir, parent := 0, data := [], path := [] }]
  disk := freshDisk

/-- A file in a directory that is not there, from a null pointer. -/
def nullWrite : TableCall := .writeAll (txt "/a/b") none 5

/-- The call fails and the directory stays. -/
theorem nullWrite_leaves :
    ¬ ∀ (kmalloc : Nat → Bool) (c : TableCall) (s s' : FsState),
      pathInMount s c.path = false → c.run kmalloc s = (none, s') →
      s' = s := by
  intro h
  have hfail : nullWrite.run (fun _ => true) rootOnly
      = (none, (nullWrite.run (fun _ => true) rootOnly).2) :=
    Prod.ext (by decide +kernel) rfl
  have hsame := h _ _ _ _ (by decide +kernel) hfail
  have hlen : (nullWrite.run (fun _ => true) rootOnly).2.nodes.length = 2 :=
    by decide +kernel
  rw [hsame] at hlen
  exact absurd hlen (by decide)

theorem failed_call_nullWrite :
    Grown (AbovePath (txt "/a/b")) rootOnly
        (nullWrite.run (fun _ => true) rootOnly).2 ∧
      (nullWrite.run (fun _ => true) rootOnly).2.fileAt = rootOnly.fileAt :=
  have h := failed_call (fun _ => true) nullWrite
    (by decide +kernel : pathInMount rootOnly nullWrite.path = false)
    (Prod.ext (by decide +kernel) rfl)
  ⟨h.1, h.2.1⟩

end TableCall

end Clks.Fs
