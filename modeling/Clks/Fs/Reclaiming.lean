/-
What the file operations give back (fs.c, disk/public_api.inc).

For every operation there is a list, told from the state before it, of
the blocks it gives back: the ones of the whole cache when it changes the
disk, a node's own when it replaces the node's data, and when it reads a
file that is not cached the buffer that is too small and what the cache
drops to make room. The buffer that is large enough is copied over
(`readFills`). Nothing else that was in memory changes, and whoever owns a
block still has his file there.
-/
import Clks.Fs.Memory

namespace Clks.Fs

open Disk Bytes

namespace Store

-- ==== what is reclaimed

/-- The block that `clks_disk_prepare_read_cache` gives back. -/
def bufferFrees (s : Store) (size : Nat) : List Nat :=
  match s.readCache with
  | none => []
  | some b => if size ≤ s.readCacheSize then [] else [b]

/-- Does `clks_disk_prepare_read_cache` succeed? -/
def hasBuffer (grants : Grants) (s : Store) (size : Nat) : Bool :=
  match s.readCache with
  | none => grants s.requests size
  | some _ => size ≤ s.readCacheSize || grants s.requests size

/-- The blocks that `clks_disk_file_cache_store` gives back. -/
def storeFrees (s : Store) (relative : List UInt8) (size : Nat) :
    List Nat :=
  if FileCache.keeps size then (s.cache.makeRoom relative size).2.2 else []

/-- The file that a path names on the disk when the cache does not have
it, and the file system after it was looked up. -/
def miss (path : List UInt8) (s : Store) :
    Option (List UInt8 × DirInfo × FsState) :=
  if s.ready && pathInMount s.toFsState path then
    match locate path s.toFsState with
    | (none, _) => none
    | (some (relative, info), t) =>
      if info.size = 0 ||
          (s.cache.lookup relative info.firstCluster info.size).isSome then
        none
      else some (relative, info, t)
  else none

/-- The bytes that `clks_disk_read_file_chain` copies, and whether they
are all. -/
def copied (info : DirInfo) (t : FsState) : List UInt8 × Bool :=
  ((copyFileChain info.firstCluster info.size t.disk).1).getD ([], false)

/-- The blocks that `clks_fs_read_all` gives back. -/
def readFrees (grants : Grants) (path : List UInt8) (s : Store) :
    List Nat :=
  match s.miss path with
  | none => []
  | some (relative, info, t) =>
    s.bufferFrees info.size ++
      if s.hasBuffer grants info.size && (copied info t).2 then
        s.storeFrees relative info.size
      else []

/-- The buffer that is copied over when it is large enough, and the
bytes. -/
def bufferFills (s : Store) (info : DirInfo) (t : FsState) :
    Option (Nat × List UInt8) :=
  match s.readCache with
  | none => none
  | some b =>
    if info.size ≤ s.readCacheSize then some (b, (copied info t).1) else none

/-- The buffer that `clks_fs_read_all` copies over, and the bytes. -/
def readFills (path : List UInt8) (s : Store) :
    Option (Nat × List UInt8) :=
  match s.miss path with
  | none => none
  | some (_, info, t) => s.bufferFills info t

/-- The blocks that `clks_fs_write_all` gives back. -/
def writeFrees (grants : Grants) (path : List UInt8) (data : Option Mem)
    (size : Nat) (s : Store) : List Nat :=
  if !s.ready then []
  else if pathInMount s.toFsState path then s.cache.blocks
  else
    match planWrite grants path data size s with
    | (none, _) => []
    | (some plan, t) =>
      match plan.existing with
      | none => []
      | some i => t.nodeBlock i

/-- The blocks that `clks_fs_append` gives back. -/
def appendFrees (grants : Grants) (path : List UInt8) (data : Option Mem)
    (size : Nat) (s : Store) : List Nat :=
  if !s.ready then []
  else if pathInMount s.toFsState path then s.cache.blocks
  else if 0 < size && data.isNone then []
  else
    match (writablePath path s.toFsState).1 with
    | none => []
    | some internal =>
      match nodeAt s.toFsState (findNodeByInternal s.toFsState internal) with
      | none => s.writeFrees grants path data size
      | some (_, n) =>
        let merged := mergedData n.data data size
        if n.type ≠ .file ∨ ¬ n.data.length ≤ 2 ^ 64 - 1 - size then []
        else if merged = [] then
          s.writeFrees grants path (some fun _ => 0) 0
        else
          match kmalloc grants merged s with
          | (none, _) => []
          | (some _, t) =>
            t.writeFrees grants path (some fun i => merged.getD i 0)
              merged.length

/-- The blocks that `clks_fs_remove` gives back. -/
def removeFrees (path : List UInt8) (s : Store) : List Nat :=
  if !s.ready then []
  else if pathInMount s.toFsState path then s.cache.blocks
  else
    match (writablePath path s.toFsState).1 with
    | none => []
    | some internal =>
      match nodeAt s.toFsState (findNodeByInternal s.toFsState internal) with
      | none => []
      | some (i, n) =>
        if n.type = .dir && s.nodes.any fun n => n.used && n.parent = i then []
        else s.nodeBlock i

/-- Of the blocks that were there, these were given back and this one was
copied over. -/
structure Reclaims (freed : List Nat) (filled : Option (Nat × List UInt8))
    (s s' : Store) : Prop where
  grow : s.requests ≤ s'.requests
  heap : ∀ b < s.requests, s'.heap b =
    if b ∈ freed then none
    else match filled with
      | none => s.heap b
      | some (block, bytes) =>
        if b = block then (s.heap b).map (overlay bytes) else s.heap b

theorem Gives.reclaims {freed : List Nat} {s s' : Store}
    (h : Gives freed s s') : Reclaims freed none s s' := ⟨h.grow, h.heap⟩

theorem Gives.reclaims_new {freed more : List Nat} {s s1 s' : Store}
    {block : Nat} {bytes : List UInt8} (h : Gives freed s s1)
    (h' : Reclaims more (some (block, bytes)) s1 s')
    (hnew : s.requests ≤ block) : Reclaims (freed ++ more) none s s' where
  grow := h.grow.trans h'.grow
  heap b hb := by
    have hne : b ≠ block := by omega
    rw [h'.heap b (Nat.lt_of_lt_of_le hb h.grow)]
    dsimp only
    rw [if_neg hne, h.heap b hb]
    by_cases h1 : b ∈ freed <;> by_cases h2 : b ∈ more <;> simp [h1, h2]

-- ==== the cache

section runs

variable (grants : Grants) {s s' : Store} {freed : List Nat} {size : Nat}

theorem fileCacheStore_run (h : s.Sound) (relative : List UInt8)
    (firstCluster : Nat) {data : List UInt8}
    (hread : ∀ t, Later s.disk t →
      (readFileChain firstCluster size t).1 = some data) :
    ∃ s', fileCacheStore grants relative firstCluster size data s
        = (some (), s') ∧ s'.Sound ∧
      Gives (s.storeFrees relative size) s s' ∧
      s'.toFsState = s.toFsState ∧ s'.readCache = s.readCache := by
  unfold fileCacheStore storeFrees
  cases hk : FileCache.keeps size with
  | false => exact ⟨s, rfl, h, .refl s, rfl, rfl⟩
  | true =>
    rw [if_pos rfl, if_pos rfl, Cmd.get_bind_apply]
    have hdrop := FileCache.makeRoom_drops relative size s.cache
    have hgives := gives_dropped hdrop
    have hsound := h.drop hdrop
    generalize hroom : s.cache.makeRoom relative size = room
      at hdrop hgives hsound ⊢
    unfold kfree
    rw [Cmd.modify_bind_apply, Cmd.modify_bind_apply]
    cases hi : room.1 with
    | none => exact ⟨_, rfl, hsound, hgives, rfl, rfl⟩
    | some i =>
      dsimp only
      rw [Cmd.ignore_apply]
      rcases kmalloc_cases grants data
        { s with
          heap := fun b => if b ∈ room.2.2 then none else s.heap b
          cache := room.2.1 } with ⟨hrun, -⟩ | ⟨hrun, -⟩
      · rw [Cmd.bind_err hrun]
        exact ⟨_, rfl, hsound.refused, hgives.trans (gives_refused _)
          |>.congr fun b _ => by simp, rfl, rfl⟩
      · rw [Cmd.bind_ok hrun]
        refine ⟨_, rfl, hsound.enter hread, ?_, rfl, rfl⟩
        refine (hgives.trans (gives_taken (.entry i) rfl rfl ?_ ?_)).congr
          fun b _ => by simp
        · exact congrArg CacheEntry.data (if_pos rfl)
        · exact fun o' b hne ho => enter_owned hne ho

-- ==== the buffer

theorem newReadCache_run (h : s.Sound) (size : Nat) :
    (∃ s', newReadCache grants size s = (none, s') ∧ s'.Sound ∧
      Gives [] s s' ∧ s'.toFsState = s.toFsState ∧ s'.cache = s.cache ∧
      grants s.requests size = false) ∨
    ∃ s', newReadCache grants size s = (some s.requests, s') ∧ s'.Sound ∧
      Gives [] s s' ∧ s'.toFsState = s.toFsState ∧ s'.cache = s.cache ∧
      s'.readCache = some s.requests ∧ s'.heap s.requests ≠ none ∧
      grants s.requests size = true := by
  unfold newReadCache
  rcases kmalloc_cases grants (List.replicate size 0) s with
    ⟨hrun, hgrant⟩ | ⟨hrun, hgrant⟩
  · rw [List.length_replicate] at hgrant
    left
    rw [Cmd.bind_err hrun]
    exact ⟨_, rfl, h.refused, gives_refused s, rfl, rfl, hgrant⟩
  · rw [List.length_replicate] at hgrant
    right
    rw [Cmd.bind_ok hrun, Cmd.modify_bind_apply]
    refine ⟨_, rfl, h.newBuffer _ size, ?_, rfl, rfl, rfl, ?_, hgrant⟩
    · refine gives_taken .buffer rfl rfl rfl fun o' b hne ho => ?_
      cases o' with
      | node j => exact ho
      | entry j => exact ho
      | buffer => exact absurd rfl hne
    · show (if s.requests = s.requests then _ else _) ≠ none
      rw [if_pos rfl]
      exact Option.some_ne_none _

theorem prepareReadCache_run (h : s.Sound) (size : Nat) :
    (∃ b, prepareReadCache grants size s = (some b, s) ∧
      s.readCache = some b ∧ size ≤ s.readCacheSize) ∨
    (∀ b, s.readCache = some b → ¬ size ≤ s.readCacheSize) ∧
    ∃ r s', prepareReadCache grants size s = (r, s') ∧ s'.Sound ∧
      Gives (s.bufferFrees size) s s' ∧ s'.toFsState = s.toFsState ∧
      s'.cache = s.cache ∧
      (r = none ∧ grants s.requests size = false ∨
        r = some s.requests ∧ s'.readCache = some s.requests ∧
          s'.heap s.requests ≠ none ∧ grants s.requests size = true) := by
  unfold prepareReadCache bufferFrees
  rw [Cmd.get_bind_apply]
  cases hb : s.readCache with
  | none =>
    right
    refine ⟨fun _ hsome => (nomatch hsome), ?_⟩
    rcases newReadCache_run grants h size with
      ⟨s', hrun, hs, hg, hfs, hc, hgr⟩ | ⟨s', hrun, hs, hg, hfs, hc, hrc,
        hlive, hgr⟩
    · exact ⟨_, s', hrun, hs, hg, hfs, hc, .inl ⟨rfl, hgr⟩⟩
    · exact ⟨_, s', hrun, hs, hg, hfs, hc, .inr ⟨rfl, hrc, hlive, hgr⟩⟩
  | some b =>
    by_cases hfits : size ≤ s.readCacheSize
    · left
      dsimp only
      rw [if_pos hfits]
      exact ⟨b, rfl, rfl, hfits⟩
    · right
      refine ⟨fun _ _ => hfits, ?_⟩
      dsimp only
      rw [if_neg hfits, if_neg hfits]
      unfold kfree
      rw [Cmd.modify_bind_apply, Cmd.modify_bind_apply]
      have hs1 := h.dropBuffer hb
      have hg1 : Gives [b] s
          { s with
            heap := fun b' => if b' ∈ [b] then none else s.heap b'
            readCache := none
            readCacheSize := 0 } := by
        refine ⟨Nat.le_refl _, fun o b' ho _ => ?_, fun _ _ => rfl⟩
        cases o with
        | node j => exact ho
        | entry j => exact ho
        | buffer => cases ho
      rcases newReadCache_run grants hs1 size with
        ⟨s', hrun, hs, hg, hfs, hc, hgr⟩ | ⟨s', hrun, hs, hg, hfs, hc, hrc,
          hlive, hgr⟩
      · exact ⟨_, s', hrun, hs, (hg1.trans hg).congr fun b _ => by simp, hfs,
          hc, .inl ⟨rfl, hgr⟩⟩
      · exact ⟨_, s', hrun, hs, (hg1.trans hg).congr fun b _ => by simp, hfs,
          hc, .inr ⟨rfl, hrc, hlive, hgr⟩⟩

-- ==== reading a file

theorem take_overlay {bytes old : List UInt8} (h : bytes.length = size) :
    (overlay bytes old).take size = bytes := by
  unfold overlay
  rw [← h, List.take_left]

theorem copied_run (firstCluster size : Nat) (d : State) :
    ∃ l ok d', copyFileChain firstCluster size d = (some (l, ok), d') ∧
      Later d d' ∧
      (ok = true → l.length = size ∧
        (readFileChain firstCluster size d).1 = some l ∧
        ∀ t, Later d' t →
          (readFileChain firstCluster size t).1 = some l) := by
  obtain ⟨l, ok, hrun, hread⟩ := copyFileChain_run firstCluster size d
  refine ⟨l, ok, _, hrun, readFileChain_keeps firstCluster size d, ?_⟩
  rintro rfl
  have hread : (readFileChain firstCluster size d).1 = some l := hread
  refine ⟨readFileChain_length (Prod.ext hread rfl), hread, fun t ht => ?_⟩
  rw [(readFileChain_repeats firstCluster size).again d t ht]
  exact hread

theorem fillReadCache_run (h : s.Sound) {b : Nat}
    (hb : s.readCache = some b) (relative : List UInt8) (info : DirInfo) :
    ∃ r s', fillReadCache grants relative info.firstCluster info.size b s
        = (r, s') ∧ s'.Sound ∧
      Reclaims
        (if (copied info s.toFsState).2 then s.storeFrees relative info.size
          else []) (some (b, (copied info s.toFsState).1)) s s' ∧
      ∀ ptr, r = some ptr → ∃ bytes,
        (readFileChain info.firstCluster info.size s.disk).1 = some bytes ∧
        bytes.length = info.size ∧
        s'.behind info.size ptr = some bytes := by
  obtain ⟨l, ok, d, hcopy, hlater, hok⟩ :=
    copied_run info.firstCluster info.size s.disk
  have hcopied : copied info s.toFsState = (l, ok) := by
    unfold copied
    rw [hcopy]
    rfl
  rw [hcopied]
  -- the disk after the copy, and the buffer filled
  have hrun : onFs (onDisk (copyFileChain info.firstCluster info.size)) s
      = (some (l, ok),
        { s with toFsState := { s.toFsState with disk := d } }) := by
    unfold onFs onDisk
    rw [hcopy]
  have hs1 : ({ s with toFsState := { s.toFsState with disk := d } } :
      Store).Sound := h.table rfl hlater
  have hs2 := hs1.fillBuffer hb l
  have hfilled : ∀ b', (fill b l
      { s with toFsState := { s.toFsState with disk := d } }).2.heap b'
      = if b' = b then (s.heap b').map (overlay l) else s.heap b' :=
    fun _ => rfl
  unfold fillReadCache
  rw [Cmd.bind_ok hrun]
  dsimp only
  cases ok with
  | false =>
    refine ⟨none, _, rfl, hs2, ⟨Nat.le_refl _, fun b' _ => ?_⟩,
      fun ptr hp => nomatch hp⟩
    refine (hfilled b').trans ?_
    simp
  | true =>
    obtain ⟨hlen, hread, hagain⟩ := hok rfl
    obtain ⟨s', hstore, hs', hg, hfs, hrc⟩ :=
      fileCacheStore_run grants hs2 relative info.firstCluster hagain
    have hend : (fill b l >>= fun _ => Cmd.require true >>= fun _ =>
        fileCacheStore grants relative info.firstCluster info.size l
          >>= fun _ => (pure (.block b) : Cmd Store Ptr))
        { s with toFsState := { s.toFsState with disk := d } }
        = (some (.block b), s') := by
      have hfill : fill b l
          { s with toFsState := { s.toFsState with disk := d } }
          = (some (), (fill b l
            { s with toFsState := { s.toFsState with disk := d } }).2) := rfl
      rw [Cmd.bind_ok hfill, Cmd.require_true_bind, Cmd.bind_ok hstore]
      rfl
    refine ⟨_, s', hend, hs', ⟨hg.grow, fun b' hb' => ?_⟩, ?_⟩
    · rw [hg.heap b' hb', hfilled]
      rfl
    · rintro ptr hp
      cases hp
      refine ⟨l, hread, hlen, ?_⟩
      -- the cache did not give the buffer back, as it is still there
      have hlive : s'.heap b ≠ none := hs'.live .buffer b (hrc.trans hb)
      have hheap := hg.heap b (hs2.lt (o := .buffer) hb)
      split at hheap
      · exact absurd hheap hlive
      · rw [hfilled, if_pos rfl] at hheap
        obtain ⟨old, hold⟩ :=
          Option.ne_none_iff_exists'.mp (h.live .buffer b hb)
        show (s'.heap b).map (·.take info.size) = some l
        rw [hheap, hold]
        exact congrArg some (take_overlay hlen)

theorem readUncached_run (h : s.Sound) (relative : List UInt8)
    (info : DirInfo) :
    ∃ r s', readUncached grants relative info.firstCluster info.size s
        = (r, s') ∧ s'.Sound ∧
      Reclaims
        (s.bufferFrees info.size ++
          if s.hasBuffer grants info.size && (copied info s.toFsState).2 then
            s.storeFrees relative info.size
          else []) (s.bufferFills info s.toFsState) s s' ∧
      ∀ ptr, r = some ptr → ∃ bytes,
        (readFileChain info.firstCluster info.size s.disk).1 = some bytes ∧
        bytes.length = info.size ∧
        s'.behind info.size ptr = some bytes := by
  unfold readUncached
  rcases prepareReadCache_run grants h info.size with
    ⟨b, hprep, hb, hfits⟩ | ⟨hsmall, r, s1, hprep, hs1, hg1, hfs, hc, hr⟩
  · -- the old buffer is copied over
    obtain ⟨r, s', hrun, hs', hrec, hptr⟩ :=
      fillReadCache_run grants h hb relative info
    rw [Cmd.bind_ok hprep]
    have hfrees : s.bufferFrees info.size = [] := by
      simp [bufferFrees, hb, hfits]
    have hhas : s.hasBuffer grants info.size = true := by
      simp [hasBuffer, hb, hfits]
    have hfills : s.bufferFills info s.toFsState
        = some (b, (copied info s.toFsState).1) := by
      simp [bufferFills, hb, hfits]
    rw [hfrees, hhas, hfills, Bool.true_and, List.nil_append]
    exact ⟨r, s', hrun, hs', hrec, hptr⟩
  · -- there is a new one, or no memory for it
    have hhas : s.hasBuffer grants info.size
        = grants s.requests info.size := by
      unfold hasBuffer
      split
      · rfl
      · next b hb => simp [hsmall b hb]
    have hfills : s.bufferFills info s.toFsState = none := by
      unfold bufferFills
      split
      · rfl
      · next b hb => exact if_neg (hsmall b hb)
    rw [hhas, hfills]
    rcases hr with ⟨rfl, hgrant⟩ | ⟨rfl, hb, hlive, hgrant⟩
    · rw [Cmd.bind_err hprep, hgrant, Bool.false_and]
      refine ⟨none, s1, rfl, hs1, ?_, fun ptr hp => nomatch hp⟩
      exact (hg1.congr fun b _ => by simp).reclaims
    · obtain ⟨r, s', hrun, hs', hrec, hptr⟩ :=
        fillReadCache_run grants hs1 hb relative info
      rw [Cmd.bind_ok hprep, hgrant, Bool.true_and]
      rw [hfs] at hrec hptr
      have hstore : s1.storeFrees relative info.size
          = s.storeFrees relative info.size := by
        simp only [storeFrees, hc]
      rw [hstore] at hrec
      exact ⟨r, s', hrun, hs', hg1.reclaims_new hrec (Nat.le_refl _), hptr⟩

theorem locate_later (path : List UInt8) (t : FsState) :
    (locate path t).2 = { t with disk := (locate path t).2.disk } ∧
      Later t.disk (locate path t).2.disk := by
  refine ⟨rfl, ?_⟩
  have hkeeps : Cmd.Keeps Later (do
      let relative ← relativeOf path
      Cmd.require (relative ≠ [])
      let lookup ← lookupRelativePath relative
      Cmd.require lookup.found
      Cmd.require (!isDirectoryAttr lookup.info.attr)
      pure (relative, lookup.info)) :=
    .bind (relativeOf_keeps path) fun _ => .bind (.require _) fun _ =>
      .bind (lookupRelativePath_keeps _) fun _ => .bind (.require _) fun _ =>
      .bind (.require _) fun _ => .pure _
  exact hkeeps t.disk

theorem disk_readAll_eq (path : List UInt8) (t : FsState) :
    (onDisk (Disk.readAll path) t).1
      = (locate path t).1.bind fun found =>
        if found.2.size = 0 then some []
        else (readFileChain found.2.firstCluster found.2.size
          (locate path t).2.disk).1 := by
  unfold locate Disk.readAll onDisk
  dsimp only
  cases hrel : relativeOf path t.disk with
  | mk r d1 =>
    cases r with
    | none => rw [Cmd.bind_err hrel, Cmd.bind_err hrel]; rfl
    | some relative =>
      rw [Cmd.bind_ok hrel, Cmd.bind_ok hrel]
      by_cases hne : relative = []
      · rw [Cmd.require_bind_err (by simp [hne]),
          Cmd.require_bind_err (by simp [hne])]
        rfl
      · rw [Cmd.require_bind (by simp [hne]), Cmd.require_bind (by simp [hne])]
        cases hlook : lookupRelativePath relative d1 with
        | mk r d2 =>
          cases r with
          | none => rw [Cmd.bind_err hlook, Cmd.bind_err hlook]; rfl
          | some lookup =>
            rw [Cmd.bind_ok hlook, Cmd.bind_ok hlook]
            cases lookup.found with
            | false => rfl
            | true =>
              rw [Cmd.require_bind rfl, Cmd.require_bind rfl]
              cases isDirectoryAttr lookup.info.attr with
              | true => rfl
              | false =>
                rw [Bool.not_false, Cmd.require_true_bind,
                  Cmd.require_true_bind, Cmd.pure_apply]
                dsimp only [Option.bind_some]
                by_cases hz : lookup.info.size = 0
                · rw [if_pos hz, if_pos hz]
                  rfl
                · rw [if_neg hz, if_neg hz]

theorem reclaims_none {path : List UInt8} (hmiss : s.miss path = none)
    (hg : Gives [] s s') :
    Reclaims (s.readFrees grants path) (s.readFills path) s s' := by
  have hfrees : s.readFrees grants path = [] := by simp [readFrees, hmiss]
  have hfills : s.readFills path = none := by simp [readFills, hmiss]
  rw [hfrees, hfills]
  exact hg.reclaims

theorem diskReadAll_run (h : s.Sound) {path : List UInt8}
    (hready : s.ready = true) (hin : pathInMount s.toFsState path = true) :
    (diskReadAll grants path s).2.Sound ∧
    Reclaims (s.readFrees grants path) (s.readFills path) s
      (diskReadAll grants path s).2 ∧
    ∀ ptr size, (diskReadAll grants path s).1 = some (ptr, size) →
      ∃ bytes, (onDisk (Disk.readAll path) s.toFsState).1 = some bytes ∧
        bytes.length = size ∧
        (diskReadAll grants path s).2.behind size ptr = some bytes := by
  obtain ⟨htable, hlater⟩ := locate_later path s.toFsState
  rw [disk_readAll_eq]
  unfold diskReadAll
  cases hloc : locate path s.toFsState with
  | mk r t =>
    rw [hloc] at htable hlater
    dsimp only at htable hlater
    have hfiles : t.fileAt = s.fileAt := by
      rw [htable]
      rfl
    have hs1 : ({ s with toFsState := t } : Store).Sound :=
      h.table hfiles hlater
    have hg1 : Gives [] s { s with toFsState := t } :=
      ⟨Nat.le_refl _, fun _ _ ho _ => ho, fun _ _ => by simp⟩
    have hrun : onFs (locate path) s = (r, { s with toFsState := t }) := by
      unfold onFs
      rw [hloc]
    cases r with
    | none =>
      have hmiss : s.miss path = none := by simp [miss, hloc]
      rw [Cmd.bind_err hrun]
      exact ⟨hs1, reclaims_none grants hmiss hg1, fun _ _ hp => nomatch hp⟩
    | some found =>
      obtain ⟨relative, info⟩ := found
      rw [Cmd.bind_ok hrun]
      dsimp only
      by_cases hz : info.size = 0
      · have hmiss : s.miss path = none := by simp [miss, hloc, hz]
        rw [if_pos hz]
        refine ⟨hs1, reclaims_none grants hmiss hg1, fun ptr size hp => ?_⟩
        cases hp
        exact ⟨[], by simp [hz], rfl, rfl⟩
      · rw [if_neg hz, Cmd.get_bind_apply]
        cases hlook : s.cache.lookup relative info.firstCluster info.size with
        | some hit =>
          obtain ⟨b, c⟩ := hit
          obtain ⟨⟨i, -, hb, hfirst, hsize⟩, hage⟩ :=
            FileCache.lookup_some hlook
          obtain ⟨hs2, hg2⟩ := hs1.touch hage
          have hmiss : s.miss path = none := by simp [miss, hloc, hlook]
          refine ⟨hs2, reclaims_none grants hmiss (hg1.trans hg2), ?_⟩
          intro ptr size hp
          cases hp
          obtain ⟨bytes, hbytes, hread⟩ := hs1.cached i b hb
          rw [hfirst, hsize] at hread
          have hnow := hread t.disk (.refl _)
          have hlen : bytes.length = info.size :=
            readFileChain_length (Prod.ext hnow rfl)
          refine ⟨bytes, ?_, hlen, ?_⟩
          · rw [Option.bind_some, if_neg hz]
            exact hnow
          · show (s.heap b).map (·.take info.size) = some bytes
            have hbytes : s.heap b = some bytes := hbytes
            rw [hbytes, ← hlen]
            exact congrArg some List.take_length
        | none =>
          have hmiss : s.miss path = some (relative, info, t) := by
            simp [miss, hready, hin, hloc, hlook, hz]
          obtain ⟨r, s', hrun', hs', hrec, hptr⟩ :=
            readUncached_run grants hs1 relative info
          have hrec : Reclaims (s.readFrees grants path) (s.readFills path)
              s s' := by
            unfold readFrees readFills
            rw [hmiss]
            exact ⟨hrec.grow, hrec.heap⟩
          dsimp only
          cases r with
          | none =>
            rw [Cmd.bind_err hrun']
            exact ⟨hs', hrec, fun _ _ hp => nomatch hp⟩
          | some ptr =>
            rw [Cmd.bind_ok hrun']
            refine ⟨hs', hrec, fun ptr' size hp => ?_⟩
            cases hp
            obtain ⟨bytes, hread, hlen, hbehind⟩ := hptr ptr rfl
            refine ⟨bytes, ?_, hlen, hbehind⟩
            rw [Option.bind_some, if_neg hz]
            exact hread

theorem readAll_run (h : s.Sound) (path : List UInt8) :
    (readAll grants path s).2.Sound ∧
    Reclaims (s.readFrees grants path) (s.readFills path) s
      (readAll grants path s).2 ∧
    ∀ ptr size, (readAll grants path s).1 = some (ptr, size) →
      ∃ bytes, (Fs.readAll path s.toFsState).1 = some bytes ∧
        bytes.length = size ∧
        (readAll grants path s).2.behind size ptr = some bytes := by
  have hstay : Reclaims [] none s s := (Gives.refl s).reclaims
  unfold readAll Fs.readAll
  rw [Cmd.get_bind_apply, Cmd.get_bind_apply]
  cases hready : s.ready with
  | false =>
    have hmiss : s.miss path = none := by simp [miss, hready]
    rw [Cmd.require_bind_err rfl]
    refine ⟨h, ?_, fun _ _ hp => nomatch hp⟩
    simpa [readFrees, readFills, hmiss] using hstay
  | true =>
    rw [Cmd.require_bind rfl, Cmd.require_bind rfl]
    by_cases hin : pathInMount s.toFsState path = true
    · rw [if_pos hin, if_pos hin]
      exact diskReadAll_run grants h hready hin
    · have hmiss : s.miss path = none := by simp [miss, hin]
      have hfrees : s.readFrees grants path = [] := by simp [readFrees, hmiss]
      have hfills : s.readFills path = none := by simp [readFills, hmiss]
      rw [if_neg hin, if_neg hin, hfrees, hfills]
      cases hat : nodeAt s.toFsState (findNodeByExternal s.toFsState path) with
      | none => exact ⟨h, hstay, fun _ _ hp => nomatch hp⟩
      | some found =>
        obtain ⟨i, n⟩ := found
        dsimp only
        by_cases htype : n.type = .file
        · rw [Cmd.require_bind (by simpa using htype),
            Cmd.require_bind (by simpa using htype)]
          obtain ⟨hi, hn⟩ := nodeAt_some hat
          by_cases hz : n.data.length = 0
          · rw [if_pos hz]
            refine ⟨h, hstay, fun ptr size hp => ?_⟩
            cases hp
            exact ⟨n.data, rfl, hz, by rw [List.length_eq_zero_iff.mp hz]; rfl⟩
          · rw [if_neg hz]
            refine ⟨h, hstay, fun ptr size hp => ?_⟩
            cases hp
            refine ⟨n.data, rfl, rfl, h.files i n.data ?_⟩
            obtain ⟨internal, -, hfind⟩ := Option.bind_eq_some_iff.mp hi
            simp [FsState.fileAt, hn, htype, used_of_find hfind hn]
        · rw [Cmd.require_bind_err (by simpa using htype)]
          exact ⟨h, hstay, fun _ _ hp => nomatch hp⟩

-- ==== writing a node

theorem mem_nodeBlock {i b : Nat} (hb : b ∈ s.nodeBlock i) :
    s.owned (.node i) = some b := by
  unfold nodeBlock at hb
  split at hb
  · next n b' hn hptr =>
    split at hb
    · rw [List.mem_singleton.mp hb]
      show (s.nodeData i).number = some b'
      rw [hptr]
      rfl
    · cases hb
  · cases hb

theorem onFs_table (h : s.Sound) {α : Type} {m : Cmd FsState α}
    (hm : Cmd.Keeps SameFiles m) :
    (onFs m s).2.Sound ∧ Gives [] s (onFs m s).2 ∧
      SameFiles s.toFsState (onFs m s).2.toFsState := by
  have hsame := hm s.toFsState
  refine ⟨h.table hsame.files ?_, ⟨Nat.le_refl _, fun _ _ ho _ => ho,
    fun _ _ => by simp [onFs]⟩, hsame⟩
  rw [hsame.disk]
  exact .refl _

theorem filePayload_run (h : s.Sound) (data : Option Mem) (size : Nat) :
    (filePayload grants data size s).2.Sound ∧
    Gives [] s (filePayload grants data size s).2 ∧
    (filePayload grants data size s).2.toFsState = s.toFsState ∧
    (filePayload grants data size s).2.owned = s.owned ∧
    ∀ p, (filePayload grants data size s).1 = some p →
      (filePayload grants data size s).2.behind p.2.length p.1 = some p.2 ∧
      ∀ b, p.1.number = some b → s.requests ≤ b ∧
        (filePayload grants data size s).2.heap b ≠ none := by
  unfold filePayload
  split
  · refine ⟨h, .refl s, rfl, rfl, fun p hp => ?_⟩
    cases hp
    exact ⟨rfl, fun _ hb => nomatch hb⟩
  · cases data with
    | none => exact ⟨h, .refl s, rfl, rfl, fun p hp => nomatch hp⟩
    | some d =>
      dsimp only
      rcases kmalloc_cases grants (readBytes d 0 size) s with
        ⟨hrun, -⟩ | ⟨hrun, -⟩
      · rw [Cmd.bind_err hrun]
        exact ⟨h.refused, gives_refused s, rfl, rfl,
          fun p hp => nomatch hp⟩
      · rw [Cmd.bind_ok hrun]
        refine ⟨h.granted _, gives_granted s _, rfl, rfl, ?_⟩
        intro p hp
        cases hp
        refine ⟨?_, fun b hb => ?_⟩
        · show (if s.requests = s.requests then some (readBytes d 0 size)
            else s.heap s.requests).map
              (fun l => l.take (readBytes d 0 size).length) = _
          rw [if_pos rfl]
          exact congrArg some List.take_length
        · cases hb
          refine ⟨Nat.le_refl _, ?_⟩
          show (if s.requests = s.requests then _ else _) ≠ none
          rw [if_pos rfl]
          exact Option.some_ne_none _

/-- What a plan is in the state it was made for. -/
structure WritePlan.Fits (plan : WritePlan) (s t : Store) : Prop where
  length : plan.internal.length < fsPathMax
  existing : ∀ i, plan.existing = some i → ∃ n,
    nodeAt t.toFsState (findNodeByInternal t.toFsState plan.internal)
      = some (i, n) ∧ n.type = .file
  missing : plan.existing = none →
    nodeAt t.toFsState (findNodeByInternal t.toFsState plan.internal) = none
  behind : t.behind plan.data.length plan.ptr = some plan.data
  isNew : ∀ b, plan.ptr.number = some b → s.requests ≤ b ∧ t.heap b ≠ none ∧
    ∀ o, t.owned o ≠ some b

theorem planWrite_run (h : s.Sound) (path : List UInt8) (data : Option Mem)
    (size : Nat) :
    (planWrite grants path data size s).2.Sound ∧
    Gives [] s (planWrite grants path data size s).2 ∧
    (planWrite grants path data size s).2.fileAt = s.fileAt ∧
    ∀ plan, (planWrite grants path data size s).1 = some plan →
      plan.Fits s (planWrite grants path data size s).2 := by
  unfold planWrite
  obtain ⟨hs1, hg1, hf1⟩ := onFs_table h (writablePath_keeps path)
  cases hrun1 : onFs (writablePath path) s with
  | mk r s1 =>
    rw [hrun1] at hs1 hg1 hf1
    cases r with
    | none =>
      rw [Cmd.bind_err hrun1]
      exact ⟨hs1, hg1, hf1.files, fun _ hp => nomatch hp⟩
    | some internal =>
      have hlen : internal.length < fsPathMax := by
        have hfst : (onFs (writablePath path) s).1 = some internal := by
          rw [hrun1]
        have hpath : writablePath path s.toFsState
            = (some internal, (writablePath path s.toFsState).2) :=
          Prod.ext hfst rfl
        exact writablePath_length hpath
      rw [Cmd.bind_ok hrun1]
      dsimp only
      obtain ⟨hs2, hg2, hf2⟩ :=
        onFs_table hs1 (ensureDirHierarchy_keeps (splitParent internal))
      have hg2 := hg1.trans hg2
      have hf2 : SameFiles s.toFsState _ := IsTrans.trans _ _ _ hf1 hf2
      cases hrun2 : onFs (ensureDirHierarchy (splitParent internal)) s1 with
      | mk r s2 =>
        rw [hrun2] at hs2 hg2 hf2
        cases r with
        | none =>
          rw [Cmd.bind_err hrun2]
          exact ⟨hs2, hg2, hf2.files, fun _ hp => nomatch hp⟩
        | some u =>
          rw [Cmd.bind_ok hrun2, Cmd.get_bind_apply]
          cases hpar : nodeAt s2.toFsState
              (findNodeByInternal s2.toFsState (splitParent internal)) with
          | none => exact ⟨hs2, hg2, hf2.files, fun _ hp => nomatch hp⟩
          | some found =>
            obtain ⟨parentIndex, n⟩ := found
            dsimp only
            by_cases hdir : n.type = .dir
            swap
            · rw [Cmd.require_bind_err (by simpa using hdir)]
              exact ⟨hs2, hg2, hf2.files, fun _ hp => nomatch hp⟩
            rw [Cmd.require_bind (by simpa using hdir)]
            generalize hat : nodeAt s2.toFsState
              (findNodeByInternal s2.toFsState internal) = existing
            cases hfile : mayReplace existing with
            | false =>
              rw [Cmd.require_bind_err rfl]
              exact ⟨hs2, hg2, hf2.files, fun _ hp => nomatch hp⟩
            | true =>
              rw [Cmd.require_bind rfl]
              obtain ⟨hs3, hg3, hfs, howned, hpay⟩ :=
                filePayload_run grants hs2 data size
              have hg3 := hg2.trans hg3
              cases hrun3 : filePayload grants data size s2 with
              | mk r s3 =>
                rw [hrun3] at hs3 hg3 hfs howned hpay
                have hfs : s3.toFsState = s2.toFsState := hfs
                have hfiles : s3.fileAt = s.fileAt := by
                  rw [hfs]
                  exact hf2.files
                cases r with
                | none =>
                  rw [Cmd.bind_err hrun3]
                  exact ⟨hs3, hg3, hfiles, fun _ hp => nomatch hp⟩
                | some p =>
                  rw [Cmd.bind_ok hrun3]
                  refine ⟨hs3, hg3, hfiles, fun plan hp => ?_⟩
                  cases hp
                  obtain ⟨hbehind, hnew⟩ := hpay p rfl
                  show WritePlan.Fits _ s s3
                  refine ⟨hlen, fun i hi => ?_, fun hi => ?_, hbehind,
                    fun b hb => ?_⟩
                  · obtain ⟨found, hfound, hi⟩ := Option.map_eq_some_iff.mp hi
                    obtain ⟨j, m⟩ := found
                    cases hi
                    rw [hfound] at hat hfile
                    rw [hfs]
                    exact ⟨m, hat, by simpa [mayReplace] using hfile⟩
                  · have hnone : existing = none := by simpa using hi
                    rw [hfs, hat, hnone]
                  · obtain ⟨hle, hlive⟩ := hnew b hb
                    refine ⟨hg2.grow.trans hle, hlive, fun o ho => ?_⟩
                    have ho : s2.owned o = some b :=
                      (congrFun howned o).symm.trans ho
                    exact absurd (hs2.lt ho) (Nat.not_lt.mpr hle)

theorem kfree_run (h : s.Sound) {b : Nat} (hnot : ∀ o, s.owned o ≠ some b) :
    (kfree [b] s).2.Sound ∧ Gives [b] s (kfree [b] s).2 := by
  refine ⟨h.heap (fun o b' ho => if_neg fun hm => ?_) fun b' hb' => ?_,
    Nat.le_refl _, fun _ _ ho _ => ho, fun _ _ => rfl⟩
  · rw [List.mem_singleton.mp hm] at ho
    exact hnot o ho
  · by_cases hm : b' ∈ [b]
    · exact absurd (if_pos hm) hb'
    · rw [if_neg hm] at hb'
      exact h.fresh b' hb'

theorem Gives.new {b : Nat} (h : Gives (freed ++ [b]) s s')
    (hb : s.requests ≤ b) : Gives freed s s' := by
  refine h.congr fun b' hlt => ?_
  rw [List.mem_append, List.mem_singleton]
  exact or_iff_left (by omega)

theorem cleanup_run {t : Store} (ht : t.Sound) {plan : WritePlan}
    (hp : plan.Fits s t) (hg : Gives freed s t) :
    ((match plan.ptr with
      | .still _ => pure ()
      | .block b => kfree [b] : Cmd Store Unit) t).2.Sound ∧
    Gives freed s ((match plan.ptr with
      | .still _ => pure ()
      | .block b => kfree [b] : Cmd Store Unit) t).2 := by
  cases hptr : plan.ptr with
  | still data => exact ⟨ht, hg⟩
  | block b =>
    obtain ⟨hle, hlive, hnot⟩ := hp.isNew b (by rw [hptr]; rfl)
    obtain ⟨hs, hfree⟩ := kfree_run ht hnot
    exact ⟨hs, (hg.trans hfree).new hle⟩

theorem commitWrite_run {t : Store} (ht : t.Sound) {plan : WritePlan}
    (hp : plan.Fits s t) (hg : Gives [] s t) :
    (commitWrite plan t).2.Sound ∧
    Gives (match plan.existing with
      | none => []
      | some i => t.nodeBlock i) s (commitWrite plan t).2 := by
  -- the table and the pointer are set, in the state after the release
  have hset : ∀ (freed : List Nat) (i : Nat) (t' : FsState),
      (∀ b ∈ freed, t.owned (.node i) = some b) →
      t'.disk = t.disk →
      (∀ j, t'.fileAt j = if j = i then some plan.data else t.fileAt j) →
      ({ t with
        toFsState := t'
        heap := fun b => if b ∈ freed then none else t.heap b
        nodeData := fun j => if j = i then plan.ptr else t.nodeData j } :
        Store).Sound ∧
      Gives freed s { t with
        toFsState := t'
        heap := fun b => if b ∈ freed then none else t.heap b
        nodeData := fun j => if j = i then plan.ptr else t.nodeData j } := by
    intro freed i t' hfreed hdisk hfiles
    refine ⟨ht.replace hdisk hfiles hfreed
      (fun b hb => (hp.isNew b hb).2)
      (fun d hd => by cases hd; exact hp.behind) (fun hn => nomatch hn),
      hg.grow, fun o b ho hlt => ?_, fun b hlt => ?_⟩
    · refine hg.owners o b ?_ hlt
      cases o with
      | entry j => exact ho
      | buffer => exact ho
      | node j =>
        have ho : (if j = i then plan.ptr else t.nodeData j).number = some b :=
          ho
        split at ho
        · exact absurd (hp.isNew b ho).1 (Nat.not_le.mpr hlt)
        · exact ho
    · show (if b ∈ freed then none else t.heap b) = _
      rw [hg.heap b hlt]
      simp
  unfold commitWrite
  cases hex : plan.existing with
  | some i =>
    obtain ⟨n, hat, hfile⟩ := hp.existing i hex
    dsimp only
    have hrel : releaseNodeData i t = (some (), { t with
        heap := fun b => if b ∈ t.nodeBlock i then none else t.heap b }) := rfl
    rw [Cmd.bind_ok hrel]
    rcases createFile_cases hp.length plan.parent plan.data t.toFsState with
      ⟨-, hno⟩ | ⟨j, t', hrun, hj, -, hdisk, hfiles⟩
    · exact absurd hfile (hno i n hat)
    · have hij : j = i := by
        rcases hj with ⟨m, hj⟩ | ⟨hnone, -⟩
        · rw [hat] at hj
          cases hj
          rfl
        · rw [hat] at hnone
          cases hnone
      subst hij
      have hrun' : onFs (createOrUpdateNode plan.internal .file plan.parent
          plan.data) { t with
            heap := fun b => if b ∈ t.nodeBlock j then none else t.heap b }
          = (some j, { t with
            toFsState := t'
            heap := fun b =>
              if b ∈ t.nodeBlock j then none else t.heap b }) := by
        unfold onFs
        rw [hrun]
      rw [Cmd.bind_ok (Cmd.orCleanup_ok hrun')]
      exact hset _ j t' (fun b => mem_nodeBlock) hdisk hfiles
  | none =>
    dsimp only
    rcases createFile_cases hp.length plan.parent plan.data t.toFsState with
      ⟨hrun, -⟩ | ⟨j, t', hrun, hj, -, hdisk, hfiles⟩
    · have hrun' : onFs (createOrUpdateNode plan.internal .file plan.parent
          plan.data) t = (none, t) := by
        unfold onFs
        rw [hrun]
      rw [Cmd.bind_err (Cmd.orCleanup_err hrun')]
      exact cleanup_run ht hp hg
    · have hrun' : onFs (createOrUpdateNode plan.internal .file plan.parent
          plan.data) t = (some j, { t with toFsState := t' }) := by
        unfold onFs
        rw [hrun]
      rw [Cmd.bind_ok (Cmd.orCleanup_ok hrun')]
      have hend := hset [] j t' (fun b hb => by cases hb) hdisk hfiles
      simp only [List.not_mem_nil, if_false] at hend
      exact hend

theorem disk_owned {t : FsState} (h : s.Sound) (hempty : s.cache = .empty)
    (hnodes : t.fileAt = s.fileAt) :
    ({ s with toFsState := t } : Store).Sound where
  toApart := h.toApart.congr rfl (fun _ _ _ => id) h.fresh
  files i data hi := h.files i data (by rw [← hnodes]; exact hi)
  others i hi := h.others i (by rw [← hnodes]; exact hi)
  clean := h.clean
  cached i b hb := by
    have hb : (s.cache.entries i).data = some b := hb
    rw [hempty] at hb
    cases hb

theorem changeDisk_run (h : s.Sound) {α : Type} (m : Cmd State α) :
    ((fileCacheClear >>= fun _ => onFs (onDisk m)) s).2.Sound ∧
    Gives s.cache.blocks s
      ((fileCacheClear >>= fun _ => onFs (onDisk m)) s).2 := by
  have hdrop := FileCache.empty_drops s.cache
  have hs := h.drop hdrop
  have hg := gives_dropped hdrop
  exact ⟨disk_owned hs rfl rfl, hg.grow, hg.owners, hg.heap⟩

theorem writeAll_run (h : s.Sound) (path : List UInt8) (data : Option Mem)
    (size : Nat) :
    (writeAll grants path data size s).2.Sound ∧
    Gives (s.writeFrees grants path data size) s
      (writeAll grants path data size s).2 := by
  unfold writeAll writeFrees
  rw [Cmd.get_bind_apply]
  cases hready : s.ready with
  | false =>
    rw [Cmd.require_bind_err rfl]
    exact ⟨h, .refl s⟩
  | true =>
    rw [Cmd.require_bind rfl]
    by_cases hin : pathInMount s.toFsState path = true
    · rw [if_pos hin, if_pos hin]
      exact changeDisk_run h _
    · rw [if_neg hin, if_neg hin]
      obtain ⟨ht, hg, -, hfits⟩ :=
        planWrite_run grants h path data size
      cases hplan : planWrite grants path data size s with
      | mk r t =>
        rw [hplan] at ht hg hfits
        cases r with
        | none =>
          rw [Cmd.bind_err hplan]
          exact ⟨ht, hg⟩
        | some plan =>
          rw [Cmd.bind_ok hplan]
          exact commitWrite_run ht (hfits plan rfl) hg

theorem append_run (h : s.Sound) (path : List UInt8) (data : Option Mem)
    (size : Nat) :
    (append grants path data size s).2.Sound ∧
    Gives (s.appendFrees grants path data size) s
      (append grants path data size s).2 := by
  unfold append appendFrees
  rw [Cmd.get_bind_apply]
  cases hready : s.ready with
  | false =>
    rw [Cmd.require_bind_err rfl]
    exact ⟨h, .refl s⟩
  | true =>
    rw [Cmd.require_bind rfl]
    by_cases hin : pathInMount s.toFsState path = true
    · rw [if_pos hin, if_pos hin]
      exact changeDisk_run h _
    rw [if_neg hin, if_neg hin]
    cases hnull : (decide (0 < size) && data.isNone) with
    | true =>
      rw [Bool.not_true, Cmd.require_bind_err rfl]
      exact ⟨h, .refl s⟩
    | false =>
      rw [Bool.not_false, Cmd.require_bind rfl, Bool.not_true,
        if_neg Bool.false_ne_true, if_neg Bool.false_ne_true]
      have hpath : onFs (writablePath path) s
          = ((writablePath path s.toFsState).1, s) := by
        unfold onFs
        rw [writablePath_state]
      cases hint : (writablePath path s.toFsState).1 with
      | none =>
        rw [hint] at hpath
        rw [Cmd.bind_err hpath]
        exact ⟨h, .refl s⟩
      | some internal =>
        rw [hint] at hpath
        rw [Cmd.bind_ok hpath]
        dsimp only
        cases hat : nodeAt s.toFsState
            (findNodeByInternal s.toFsState internal) with
        | none => exact writeAll_run grants h path data size
        | some found =>
          obtain ⟨i, n⟩ := found
          dsimp only
          by_cases htype : n.type = .file
          swap
          · rw [Cmd.require_bind_err (by simpa using htype),
              if_pos (.inl htype)]
            exact ⟨h, .refl s⟩
          by_cases hfits : n.data.length ≤ 2 ^ 64 - 1 - size
          swap
          · rw [Cmd.require_bind (by simpa using htype),
              Cmd.require_bind_err (by simpa using hfits),
              if_pos (.inr hfits)]
            exact ⟨h, .refl s⟩
          have hgood : ¬ (n.type ≠ .file ∨
              ¬ n.data.length ≤ 2 ^ 64 - 1 - size) :=
            not_or.mpr ⟨not_not.mpr htype, not_not.mpr hfits⟩
          rw [Cmd.require_bind (by simpa using htype),
            Cmd.require_bind (by simpa using hfits), if_neg hgood]
          by_cases hnil : mergedData n.data data size = []
          · rw [if_pos hnil, if_pos hnil]
            exact writeAll_run grants h path _ 0
          rw [if_neg hnil, if_neg hnil]
          rcases kmalloc_cases grants (mergedData n.data data size) s with
            ⟨hrun, -⟩ | ⟨hrun, -⟩
          · rw [Cmd.bind_err hrun, hrun]
            exact ⟨h.refused, gives_refused s⟩
          rw [Cmd.bind_ok hrun, hrun]
          dsimp only
          have hs1 := h.granted (mergedData n.data data size)
          have hg1 := gives_granted s (mergedData n.data data size)
          have hnot1 : ∀ o, s.owned o ≠ some s.requests := fun o ho =>
            absurd (h.lt ho) (Nat.lt_irrefl _)
          generalize hm : mergedData n.data data size = merged at hs1 hg1 ⊢
          obtain ⟨hs2, hg2⟩ := writeAll_run grants hs1 path
            (some fun i => merged.getD i 0) merged.length
          -- the block of the merged data is nobody's, before and behind
          have hnot2 : ∀ o, (writeAll grants path
              (some fun i => merged.getD i 0) merged.length { s with
                requests := s.requests + 1
                heap := fun b =>
                  if b = s.requests then some merged
                  else s.heap b }).2.owned o ≠ some s.requests := fun o ho =>
            hnot1 o (hg2.owners o _ ho (Nat.lt_succ_self _))
          obtain ⟨hs3, hg3⟩ := kfree_run hs2 hnot2
          have hg := ((hg1.trans hg2).trans hg3).new (Nat.le_refl _)
          cases hwrite : writeAll grants path
              (some fun i => merged.getD i 0) merged.length { s with
                requests := s.requests + 1
                heap := fun b =>
                  if b = s.requests then some merged else s.heap b } with
          | mk r s2 =>
            rw [hwrite] at hs3 hg
            cases r with
            | none =>
              rw [Cmd.bind_err (Cmd.orCleanup_err hwrite)]
              exact ⟨hs3, hg⟩
            | some u =>
              rw [Cmd.bind_ok (Cmd.orCleanup_ok hwrite)]
              exact ⟨hs3, hg⟩

theorem remove_run (h : s.Sound) (path : List UInt8) :
    (remove path s).2.Sound ∧
    Gives (s.removeFrees path) s (remove path s).2 := by
  unfold remove removeFrees
  rw [Cmd.get_bind_apply]
  cases hready : s.ready with
  | false =>
    rw [Cmd.require_bind_err rfl]
    exact ⟨h, .refl s⟩
  | true =>
    rw [Cmd.require_bind rfl]
    by_cases hin : pathInMount s.toFsState path = true
    · rw [if_pos hin, if_pos hin]
      exact changeDisk_run h _
    rw [if_neg hin, if_neg hin, Bool.not_true, if_neg Bool.false_ne_true]
    have hpath : onFs (writablePath path) s
        = ((writablePath path s.toFsState).1, s) := by
      unfold onFs
      rw [writablePath_state]
    cases hint : (writablePath path s.toFsState).1 with
    | none =>
      rw [hint] at hpath
      rw [Cmd.bind_err hpath]
      exact ⟨h, .refl s⟩
    | some internal =>
      rw [hint] at hpath
      rw [Cmd.bind_ok hpath]
      dsimp only
      cases hat : nodeAt s.toFsState
          (findNodeByInternal s.toFsState internal) with
      | none => exact ⟨h, .refl s⟩
      | some found =>
        obtain ⟨i, n⟩ := found
        dsimp only
        cases hbusy : (decide (n.type = .dir) &&
            s.nodes.any fun n => n.used && decide (n.parent = i)) with
        | true =>
          rw [Bool.not_true, Cmd.require_bind_err rfl]
          exact ⟨h, .refl s⟩
        | false =>
          rw [Bool.not_false, Cmd.require_bind rfl,
            if_neg Bool.false_ne_true]
          have hn := (nodeAt_some hat).2
          refine ⟨?_, Nat.le_refl _, fun o b ho _ => ?_, fun _ _ => rfl⟩
          · refine h.replace rfl (fun j => ?_) (fun b => mem_nodeBlock)
              (fun b hb => nomatch hb)
              (fun d (hd : none = some d) => nomatch hd) fun _ => rfl
            exact (fileAt_set hn _ j).trans (by simp)
          · cases o with
            | entry j => exact ho
            | buffer => exact ho
            | node j =>
              have ho : (if j = i then Ptr.still [] else s.nodeData j).number
                  = some b := ho
              split at ho
              · cases ho
              · exact ho

end runs

end Store

end Clks.Fs
