/-
What a path reads, and what the calls that write leave it reading (fs.c).

The contents of a path are what `clks_fs_read_all` returns for it. A path
outside the mount names a node of the table; which one depends on the
paths of the nodes in use alone, so a call that changes one node and
enters directories where nothing was leaves every other file where it is.
A path in the mount names a file of the disk, as far as the volume is
consistent, and two of the driver's operations leave a volume
inconsistent when clusters run out half way (`Clks.Disk.Overcommits`,
`Clks.Disk.GrowsPartly`). Everything else is the same on both sides.
-/
import Clks.Fs.Table
import Clks.Disk.Contents

namespace Clks.Fs

open Disk Bytes

/-- What a path reads. -/
def FsState.content (s : FsState) (path : List UInt8) :
    Option (List UInt8) :=
  (readAll path s).1

/-- The file of the table at an internal path. -/
def FsState.fileNamed (s : FsState) (internal : List UInt8) :
    Option (List UInt8) :=
  (nodeAt s (findNodeByInternal s internal)).bind fun found =>
    if found.2.type = .file then some found.2.data else none

-- ==== the table

section table

variable {s s' : FsState} {path internal q : List UInt8} {i : Nat}
  {n m : FsNode}

/-- A node in use at this number has this path. -/
def FsState.Names (s : FsState) (q : List UInt8) (i : Nat) : Prop :=
  ∃ n, s.usedAt i = some n ∧ n.path = q

theorem find_iff : findNodeByInternal s q = some i ↔
    s.Names q i ∧ ∀ j < i, ¬ s.Names q j := by
  have hnames : ∀ j, s.Names q j ↔ ∃ n, s.nodes[j]? = some n ∧
      (n.used && decide (n.path = q)) = true := by
    intro j
    refine exists_congr fun n => ?_
    rw [usedAt_some, Bool.and_eq_true, decide_eq_true_eq, and_assoc]
  unfold findNodeByInternal
  rw [List.findIdx?_eq_some_iff_getElem]
  constructor
  · intro h
    obtain ⟨hlt, hp, hbefore⟩ := h
    refine ⟨(hnames i).mpr ⟨_, List.getElem?_eq_getElem hlt, hp⟩,
      fun j hj hq => ?_⟩
    obtain ⟨n, hn, hpn⟩ := (hnames j).mp hq
    have hget := List.getElem?_eq_getElem (Nat.lt_trans hj hlt)
    rw [hget] at hn
    cases hn
    exact hbefore j hj hpn
  · intro h
    obtain ⟨hi, hbefore⟩ := h
    obtain ⟨n, hn, hpn⟩ := (hnames i).mp hi
    obtain ⟨hlt, hget⟩ := List.getElem?_eq_some_iff.mp hn
    refine ⟨hlt, by rw [hget]; exact hpn, fun j hj hpj => ?_⟩
    exact hbefore j hj ((hnames j).mpr
      ⟨_, List.getElem?_eq_getElem (Nat.lt_trans hj hlt), hpj⟩)

theorem find_congr (h : ∀ j, s'.Names q j ↔ s.Names q j) :
    findNodeByInternal s' q = findNodeByInternal s q := by
  refine Option.ext fun i => ?_
  rw [find_iff, find_iff, h i]
  simp only [h]

theorem nodeAt_of_find (h : findNodeByInternal s q = some i) :
    ∃ n, s.usedAt i = some n ∧ n.path = q ∧
      nodeAt s (findNodeByInternal s q) = some (i, n) := by
  obtain ⟨n, hn, hp⟩ := find_some h
  refine ⟨n, hn, hp, ?_⟩
  rw [h]
  unfold nodeAt
  rw [Option.bind_some, (usedAt_some.mp hn).1]
  rfl

theorem fileNamed_congr (h : ∀ j, s'.Names q j ↔ s.Names q j)
    (hsame : ∀ j, s.Names q j → s'.usedAt j = s.usedAt j) :
    s'.fileNamed q = s.fileNamed q := by
  have hfind := find_congr h
  unfold FsState.fileNamed
  cases hf : findNodeByInternal s q with
  | none =>
    rw [hfind, hf]
    rfl
  | some j =>
    obtain ⟨n, hn, -, hat⟩ := nodeAt_of_find hf
    obtain ⟨n', hn', -, hat'⟩ := nodeAt_of_find (hfind.trans hf)
    rw [hsame j (find_iff.mp hf).1, hn] at hn'
    cases hn'
    rw [hf] at hat
    rw [hfind, hf] at hat'
    rw [hfind, hf, hat, hat']

theorem Grown.fileNamed {P : List UInt8 → Prop} (h : Grown P s s') :
    s'.fileNamed q = s.fileNamed q := by
  cases hf : findNodeByInternal s q with
  | none =>
    have hnone : s.fileNamed q = none := by
      unfold FsState.fileNamed
      rw [hf]
      rfl
    rw [hnone]
    unfold FsState.fileNamed
    cases hf' : findNodeByInternal s' q with
    | none => rfl
    | some i =>
      obtain ⟨n, hn, hp, hat⟩ := nodeAt_of_find hf'
      obtain ⟨hget, hu⟩ := usedAt_some.mp hn
      rw [← hf', hat]
      cases h.fresh i n hget with
      | inl hold =>
        exact absurd hp (Fs.find_none.mp hf i n (usedAt_some.mpr ⟨hold, hu⟩))
      | inr hnew =>
        show (if n.type = .file then some n.data else none) = none
        rw [hnew.2.1]
        rfl
  | some i =>
    have hmem : findNodeByInternal s q ≠ none := by
      rw [hf]
      exact Option.some_ne_none i
    have hback : ∀ j n, s'.usedAt j = some n → n.path = q →
        s.usedAt j = some n := by
      intro j n hn hp
      obtain ⟨hget, hu⟩ := usedAt_some.mp hn
      cases h.fresh j n hget with
      | inl hold => exact usedAt_some.mpr ⟨hold, hu⟩
      | inr hnew =>
        rw [hp] at hnew
        exact absurd hnew.2.2.2.2 hmem
    refine fileNamed_congr (fun j => ⟨?_, ?_⟩) ?_
    · intro hj
      obtain ⟨n, hn, hp⟩ := hj
      exact ⟨n, hback j n hn hp, hp⟩
    · intro hj
      obtain ⟨n, hn, hp⟩ := hj
      exact ⟨n, h.kept j n hn, hp⟩
    · intro j hj
      obtain ⟨n, hn, -⟩ := hj
      rw [hn, h.kept j n hn]

-- ------------------------------------------------------------- writing

/-- The file at an internal path was written, and no other one. -/
structure Wrote (internal bytes : List UInt8) (s s' : FsState) : Prop where
  ready : s'.ready = s.ready
  disk : s'.disk = s.disk
  here : s'.fileNamed internal = some bytes
  others : ∀ q, q ≠ internal → s'.fileNamed q = s.fileNamed q

theorem Wrote.of_grown {P : List UInt8 → Prop} {s1 : FsState}
    {bytes : List UInt8} (hg : Grown P s s1) (h : Wrote internal bytes s1 s') :
    Wrote internal bytes s s' where
  ready := h.ready.trans hg.ready
  disk := h.disk.trans hg.disk
  here := h.here
  others q hq := (h.others q hq).trans hg.fileNamed

theorem wrote_set (hfind : findNodeByInternal s internal = some i)
    (hn : s.usedAt i = some n) (hp : n.path = internal)
    (hu : m.used = true) (hm : m.path = internal) (ht : m.type = .file) :
    Wrote internal m.data s { s with nodes := s.nodes.set i m } := by
  have hlt : i < s.nodes.length := by
    obtain ⟨hlt, -⟩ := List.getElem?_eq_some_iff.mp (usedAt_some.mp hn).1
    exact hlt
  have hused : ∀ j, FsState.usedAt { s with nodes := s.nodes.set i m } j
      = if j = i then some m else s.usedAt j := by
    intro j
    unfold FsState.usedAt
    dsimp only
    by_cases hj : j = i
    · subst hj
      rw [if_pos rfl, List.getElem?_set_self hlt]
      simp [hu]
    · rw [if_neg hj, List.getElem?_set_ne fun h => hj h.symm]
  have hnames : ∀ q j, FsState.Names { s with nodes := s.nodes.set i m } q j
      ↔ s.Names q j := by
    intro q j
    unfold FsState.Names
    rw [hused j]
    by_cases hj : j = i
    · subst hj
      rw [if_pos rfl, hn]
      simp [hm, hp]
    · rw [if_neg hj]
  refine ⟨rfl, rfl, ?_, fun q hq => ?_⟩
  · have hfind' := (find_congr (hnames internal)).trans hfind
    obtain ⟨n', hn', -, hat⟩ := nodeAt_of_find hfind'
    rw [hused i, if_pos rfl] at hn'
    cases hn'
    unfold FsState.fileNamed
    rw [hat]
    exact if_pos ht
  · refine fileNamed_congr (hnames q) fun j hj => ?_
    rw [hused j, if_neg]
    intro hji
    obtain ⟨n', hn', hp'⟩ := hj
    rw [hji, hn] at hn'
    cases hn'
    exact hq (hp'.symm.trans hp)

theorem wrote_put (hput : Put i m s s') (hu : m.used = true)
    (hm : m.path = internal) (ht : m.type = .file)
    (hnone : findNodeByInternal s internal = none) :
    Wrote internal m.data s s' := by
  subst hm
  refine ⟨hput.ready, hput.disk, ?_, fun q hq => ?_⟩
  · unfold FsState.fileNamed
    rw [hput.nodeAt hu hnone]
    exact if_pos ht
  · refine fileNamed_congr (fun j => ?_) fun j hj => ?_
    · unfold FsState.Names
      rw [hput.usedAt hu j]
      by_cases hj : j = i
      · subst hj
        rw [if_pos rfl, hput.free]
        simp [hq.symm]
      · rw [if_neg hj]
    · rw [hput.usedAt hu j, if_neg]
      intro hji
      obtain ⟨n', hn', -⟩ := hj
      rw [hji, hput.free] at hn'
      cases hn'

theorem createFile_wrote {parent : Nat} {data : List UInt8}
    (hrun : createOrUpdateNode internal .file parent data s
      = (some i, s')) : Wrote internal data s s' := by
  unfold createOrUpdateNode at hrun
  obtain ⟨-, hrun⟩ := Cmd.require_ok_inv hrun
  rw [Cmd.get_bind_apply] at hrun
  cases hat : nodeAt s (findNodeByInternal s internal) with
  | some found =>
    obtain ⟨j, n⟩ := found
    rw [hat] at hrun
    obtain ⟨htype, hrun⟩ := Cmd.require_ok_inv hrun
    cases hrun
    obtain ⟨hn, hp⟩ := nodeAt_find hat
    exact wrote_set (m := { n with parent, data, used := true })
      (nodeAt_some hat).1 hn hp rfl hp (of_decide_eq_true htype)
  | none =>
    rw [hat] at hrun
    cases putNew_put ⟨true, .file, parent, data, internal⟩ s with
    | inl hnone => cases hnone.symm.trans hrun
    | inr hput =>
      obtain ⟨j, s1, hrun1, hput⟩ := hput
      cases hrun1.symm.trans hrun
      exact wrote_put hput rfl rfl rfl (nodeAt_none hat)

theorem buildFilePayload_ok {kmalloc : Nat → Bool} {data : Option Mem}
    {size : Nat} {payload : List UInt8}
    (h : buildFilePayload kmalloc data size s = (some payload, s')) :
    s' = s ∧ payload = bufferBytes (dataOf data) size := by
  have hs := buildFilePayload_state kmalloc data size s
  rw [h] at hs
  refine ⟨hs, ?_⟩
  unfold buildFilePayload at h
  split at h
  · next hz =>
    cases h
    rw [hz]
    rfl
  · cases data with
    | none => cases h
    | some d =>
      obtain ⟨-, h⟩ := Cmd.require_ok_inv h
      cases h
      unfold readBytes bufferBytes
      simp only [Nat.zero_add]
      rfl

theorem writeAll_wrote {kmalloc : Nat → Bool} {data : Option Mem}
    {size : Nat} (hout : pathInMount s path = false)
    (hrun : writeAll kmalloc path data size s = (some (), s')) :
    ∃ internal, normalizeExternalPath path = some internal ∧
      Wrote internal (bufferBytes (dataOf data) size) s s' := by
  unfold writeAll at hrun
  rw [Cmd.get_bind_apply] at hrun
  obtain ⟨-, hrun⟩ := Cmd.require_ok_inv hrun
  rw [if_neg (by simp [hout])] at hrun
  obtain ⟨internal, s1, hw, hmake⟩ := Cmd.bind_ok_inv hrun
  obtain ⟨rfl, hnorm, -⟩ := writablePath_some hw
  dsimp only at hmake
  obtain ⟨_, s2, hdir, hput⟩ := Cmd.bind_ok_inv hmake
  have hgrown := ensureParent_grown internal s1
  rw [hdir] at hgrown
  rw [Cmd.get_bind_apply] at hput
  refine ⟨internal, hnorm, .of_grown hgrown ?_⟩
  cases hat : nodeAt s2 (findNodeByInternal s2 (splitParent internal)) with
  | none =>
    rw [hat] at hput
    cases hput
  | some found =>
    rw [hat] at hput
    obtain ⟨-, hput⟩ := Cmd.require_ok_inv hput
    obtain ⟨-, hput⟩ := Cmd.require_ok_inv hput
    obtain ⟨payload, s3, hpay, hnew⟩ := Cmd.bind_ok_inv hput
    obtain ⟨rfl, rfl⟩ := buildFilePayload_ok hpay
    obtain ⟨j, s4, hcreate, hend⟩ := Cmd.bind_ok_inv hnew
    cases hend
    exact createFile_wrote hcreate

theorem bufferBytes_getD (l : List UInt8) :
    bufferBytes (fun i => l.getD i 0) l.length = l := by
  unfold bufferBytes
  refine List.ext_getElem (by simp) fun i h1 h2 => ?_
  simp [List.getD_eq_getElem?_getD, List.getElem?_eq_getElem h2]

theorem append_wrote {kmalloc : Nat → Bool} {data : Option Mem}
    {size : Nat} (hout : pathInMount s path = false)
    (hrun : append kmalloc path data size s = (some (), s')) :
    ∃ internal, normalizeExternalPath path = some internal ∧
      Wrote internal ((s.fileNamed internal).getD []
        ++ bufferBytes (dataOf data) size) s s' := by
  unfold append at hrun
  rw [Cmd.get_bind_apply] at hrun
  obtain ⟨-, hrun⟩ := Cmd.require_ok_inv hrun
  rw [if_neg (by simp [hout])] at hrun
  obtain ⟨hnull, hrun⟩ := Cmd.require_ok_inv hrun
  obtain ⟨internal, s1, hw, hput⟩ := Cmd.bind_ok_inv hrun
  obtain ⟨rfl, hnorm, -⟩ := writablePath_some hw
  refine ⟨internal, hnorm, ?_⟩
  have hsame : ∀ {d : Option Mem} {n : Nat},
      writeAll kmalloc path d n s1 = (some (), s') →
      Wrote internal (bufferBytes (dataOf d) n) s1 s' := by
    intro d n hwrite
    obtain ⟨internal', hnorm', hwrote⟩ := writeAll_wrote hout hwrite
    cases hnorm.symm.trans hnorm'
    exact hwrote
  unfold FsState.fileNamed
  cases hat : nodeAt s1 (findNodeByInternal s1 internal) with
  | none =>
    rw [hat] at hput
    exact hsame hput
  | some found =>
    rw [hat] at hput
    obtain ⟨htype, hput⟩ := Cmd.require_ok_inv hput
    obtain ⟨-, hput⟩ := Cmd.require_ok_inv hput
    have hfile : (some found).bind (fun found : Nat × FsNode =>
        if found.2.type = .file then some found.2.data else none)
        = some found.2.data := if_pos (of_decide_eq_true htype)
    rw [hfile, Option.getD_some]
    have hmerged : ∀ merged : List UInt8,
        (if merged = [] then writeAll kmalloc path (some fun _ => 0) 0
          else do
            Cmd.require (kmalloc merged.length)
            writeAll kmalloc path (some fun i => merged.getD i 0)
              merged.length) s1 = (some (), s') →
        Wrote internal merged s1 s' := by
      intro merged hwrite
      split at hwrite
      · next hnil =>
        rw [hnil]
        exact hsame hwrite
      · obtain ⟨-, hwrite⟩ := Cmd.require_ok_inv hwrite
        have hwrote := hsame hwrite
        rwa [dataOf, Option.getD_some, bufferBytes_getD] at hwrote
    cases data with
    | none =>
      have hz : size = 0 := by
        cases size with
        | zero => rfl
        | succ n => simp at hnull
      rw [hz]
      exact hmerged _ hput
    | some d =>
      have hbytes : readBytes d 0 size = bufferBytes (dataOf (some d)) size :=
        by
        unfold readBytes bufferBytes
        simp only [Nat.zero_add]
        rfl
      rw [← hbytes]
      exact hmerged _ hput

end table

-- ==== what is read

section content

variable {s s' : FsState} {path : List UInt8}

theorem content_table (hready : s.ready = true)
    (hout : pathInMount s path = false) :
    s.content path = (normalizeExternalPath path).bind s.fileNamed := by
  unfold FsState.content readAll
  rw [Cmd.get_bind_apply, Cmd.require_bind hready, if_neg (by simp [hout])]
  unfold findNodeByExternal
  cases normalizeExternalPath path with
  | none => rfl
  | some internal =>
    rw [Option.bind_some, Option.bind_some]
    unfold FsState.fileNamed
    cases nodeAt s (findNodeByInternal s internal) with
    | none => rfl
    | some found =>
      obtain ⟨i, n⟩ := found
      dsimp only
      rw [Option.bind_some]
      by_cases ht : n.type = .file
      · rw [Cmd.require_bind (by simpa using ht), if_pos ht]
        rfl
      · rw [Cmd.require_bind_err (by simpa using ht), if_neg ht]

theorem content_disk (hready : s.ready = true)
    (hin : pathInMount s path = true) :
    s.content path = (Disk.readAll path s.disk).1 := by
  unfold FsState.content readAll
  rw [Cmd.get_bind_apply, Cmd.require_bind hready, if_pos hin]
  rfl

theorem readAll_table_state (hout : pathInMount s path = false) :
    (readAll path s).2 = s := by
  unfold readAll
  rw [Cmd.get_bind_apply]
  cases hready : s.ready with
  | false => rfl
  | true =>
    rw [Cmd.require_bind rfl, if_neg (by simp [hout])]
    cases nodeAt s (findNodeByExternal s path) with
    | none => rfl
    | some found =>
      obtain ⟨i, n⟩ := found
      dsimp only
      by_cases ht : n.type = .file
      · rw [Cmd.require_bind (by simpa using ht)]
        rfl
      · rw [Cmd.require_bind_err (by simpa using ht)]

-- ------------------------------------------------------- both together

/-- A disk that is mounted has a consistent volume. -/
def FsState.Steady (s : FsState) : Prop :=
  s.disk.mounted = true → s.disk.Consistent

/-- The path is in the mount, and a write to it gives the old chain back
and does not get a new one. -/
def FsState.WriteExhausts (s : FsState) (path : List UInt8)
    (data : Option Mem) (size : Nat) : Prop :=
  pathInMount s path = true ∧ Overcommits s.disk path data size

/-- The path is in the mount, and an append to it gets some of the
clusters that it needs. -/
def FsState.AppendExhausts (s : FsState) (path : List UInt8)
    (data : Option Mem) (size : Nat) : Prop :=
  pathInMount s path = true ∧ GrowsPartly s.disk path data size

/-- The end of the file is shown, if it is on the disk. -/
def FsState.EndShownOf (s : FsState) (path : List UInt8) : Prop :=
  pathInMount s path = true → s.disk.EndShownOf path

theorem mounted_of_inMount (hin : pathInMount s path = true) :
    s.disk.mounted = true := by
  unfold pathInMount pathToRelative at hin
  by_contra hm
  rw [Bool.not_eq_true] at hm
  rw [hm] at hin
  cases hin

theorem ready_of_content {old : List UInt8}
    (hold : s.content path = some old) : s.ready = true := by
  cases hready : s.ready with
  | true => rfl
  | false =>
    unfold FsState.content readAll at hold
    rw [Cmd.get_bind_apply, hready, Cmd.require_false_bind] at hold
    cases hold

theorem FsState.Steady.onDisk {α : Type} {m : Cmd State α}
    (hm : (m s.disk).2.Consistent) : (Fs.onDisk m s).2.Steady :=
  fun _ => hm

theorem FsState.Steady.same (h : s.Steady) (hdisk : s'.disk = s.disk) :
    s'.Steady := by
  unfold FsState.Steady
  rw [hdisk]
  exact h

theorem FsState.Steady.readAll (h : s.Steady) (path : List UInt8) :
    (Fs.readAll path s).2.Steady := by
  cases hin : pathInMount s path with
  | false =>
    rw [readAll_table_state hin]
    exact h
  | true =>
    unfold Fs.readAll
    rw [Cmd.get_bind_apply]
    cases s.ready with
    | false => exact h
    | true =>
      rw [Cmd.require_true_bind, if_pos hin]
      exact .onDisk (readAll_consistent (h (mounted_of_inMount hin)) path).1

theorem readAll_state (s : FsState) (path : List UInt8) :
    (Fs.readAll path s).2 = s ∨
      pathInMount s path = true ∧ (Fs.readAll path s).2
        = { s with disk := (Disk.readAll path s.disk).2 } := by
  cases hin : pathInMount s path with
  | false => exact .inl (readAll_table_state hin)
  | true =>
    unfold Fs.readAll
    rw [Cmd.get_bind_apply]
    cases hready : s.ready with
    | false => exact .inl rfl
    | true =>
      rw [Cmd.require_true_bind, if_pos hin]
      exact .inr ⟨rfl, by rw [← hready]; rfl⟩

theorem readAll_same (h : s.Steady) (path other : List UInt8) :
    (Fs.readAll path s).2.content other = s.content other ∧
      pathInMount (Fs.readAll path s).2 other = pathInMount s other := by
  cases readAll_state s path with
  | inl hsame =>
    rw [hsame]
    exact ⟨rfl, rfl⟩
  | inr hread =>
    obtain ⟨hin, hread⟩ := hread
    rw [hread]
    have hcons := h (mounted_of_inMount hin)
    obtain ⟨-, -, henv⟩ := readAll_consistent hcons path
    have hmount : pathInMount
        { s with disk := (Disk.readAll path s.disk).2 } other
        = pathInMount s other := by
      unfold pathInMount
      dsimp only
      rw [henv]
    refine ⟨?_, hmount⟩
    by_cases hready : s.ready = true
    · have hready' : FsState.ready
          { s with disk := (Disk.readAll path s.disk).2 } = true := hready
      cases hother : pathInMount s other with
      | true =>
        rw [content_disk hready' (hmount.trans hother),
          content_disk hready hother]
        exact readAll_again hcons path other
      | false =>
        rw [content_table hready' (hmount.trans hother),
          content_table hready hother]
        rfl
    · rw [Bool.not_eq_true] at hready
      unfold FsState.content Fs.readAll
      rw [Cmd.get_bind_apply, Cmd.get_bind_apply, hready]
      rfl

theorem FsState.WriteExhausts.of_readAll {other : List UInt8}
    {data data' : Option Mem} {size : Nat} (h : s.Steady)
    (hdata : data'.isSome = data.isSome)
    (hov : (Fs.readAll path s).2.WriteExhausts other data' size) :
    s.WriteExhausts other data size := by
  obtain ⟨hin, hov⟩ := hov
  rw [(readAll_same h path other).2] at hin
  refine ⟨hin, ?_⟩
  cases readAll_state s path with
  | inl hsame =>
    rw [hsame] at hov
    exact Overcommits.congr rfl rfl hdata hov
  | inr hread =>
    rw [hread.2] at hov
    obtain ⟨-, hvol, henv⟩ :=
      readAll_consistent (h (mounted_of_inMount hin)) path
    exact Overcommits.congr hvol henv hdata hov

theorem disk_of_run {m : Cmd FsState Unit} {P : List UInt8 → Prop}
    (hfail : Cmd.FailsTo (Grown P) m s)
    (hok : ∀ s', m s = (some (), s') → s'.disk = s.disk) :
    (m s).2.disk = s.disk := by
  cases hrun : m s with
  | mk r t =>
    cases r with
    | none =>
      have hgrown := hfail (by rw [hrun])
      rw [hrun] at hgrown
      exact hgrown.disk
    | some u => exact hok t hrun

variable {kmalloc : Nat → Bool} {data : Option Mem} {size : Nat}
  {old : List UInt8}

theorem FsState.Steady.writeAll (h : s.Steady)
    (hsize : pathInMount s path = true → size < 2 ^ 64)
    (hne : ¬ s.WriteExhausts path data size) :
    (Fs.writeAll kmalloc path data size s).2.Steady := by
  cases hin : pathInMount s path with
  | false =>
    refine h.same (disk_of_run (writeAll_fails kmalloc data size hin) ?_)
    intro s' hrun
    obtain ⟨internal, -, hwrote⟩ := writeAll_wrote hin hrun
    exact hwrote.disk
  | true =>
    unfold Fs.writeAll
    rw [Cmd.get_bind_apply]
    cases s.ready with
    | false => exact h
    | true =>
      rw [Cmd.require_true_bind, if_pos hin]
      exact .onDisk (writeAll_consistent (h (mounted_of_inMount hin))
        (hsize hin)
        fun hov => hne ⟨hin, hov⟩)

theorem FsState.Steady.append (h : s.Steady) (hsize : size < 2 ^ 64)
    (hne : ¬ s.AppendExhausts path data size) :
    (Fs.append kmalloc path data size s).2.Steady := by
  cases hin : pathInMount s path with
  | false =>
    refine h.same (disk_of_run (append_fails kmalloc data size hin) ?_)
    intro s' hrun
    obtain ⟨internal, -, hwrote⟩ := append_wrote hin hrun
    exact hwrote.disk
  | true =>
    unfold Fs.append
    rw [Cmd.get_bind_apply]
    cases s.ready with
    | false => exact h
    | true =>
      rw [Cmd.require_true_bind, if_pos hin]
      exact .onDisk (append_consistent (h (mounted_of_inMount hin)) hsize
        fun hgrow => hne ⟨hin, hgrow⟩)

theorem Wrote.content {internal bytes : List UInt8}
    (h : Wrote internal bytes s s') (hready : s.ready = true)
    (hout : pathInMount s path = false)
    (hnorm : normalizeExternalPath path = some internal) :
    s'.content path = some bytes := by
  have hout' : pathInMount s' path = false := by
    unfold pathInMount
    rw [h.disk]
    exact hout
  rw [content_table (h.ready.trans hready) hout', hnorm, Option.bind_some]
  exact h.here

theorem onDisk_ok {m : Cmd State Unit} (hready : s.ready = true)
    (hin : pathInMount s path = true)
    (henv : (m s.disk).2.toEnv = s.disk.toEnv)
    (hrun : onDisk m s = (some (), s')) :
    m s.disk = (some (), s'.disk) ∧
      s'.content path = (Disk.readAll path s'.disk).1 := by
  unfold onDisk at hrun
  injection hrun with hr hs
  subst hs
  have hin' : pathInMount { s with disk := (m s.disk).2 } path = true := by
    unfold pathInMount
    dsimp only
    rw [henv]
    exact hin
  exact ⟨Prod.ext hr rfl, content_disk hready hin'⟩

theorem content_length (h : s.Steady) (hold : s.content path = some old)
    (hin : pathInMount s path = true) : old.length ≤ 2 ^ 28 := by
  rw [content_disk (ready_of_content hold) hin] at hold
  exact readAll_length (h (mounted_of_inMount hin)) hold

theorem writeAll_content (h : s.Steady)
    (hsize : pathInMount s path = true → size < 2 ^ 64)
    (hold : s.content path = some old)
    (hrun : Fs.writeAll kmalloc path data size s = (some (), s')) :
    s'.content path = some (bufferBytes (dataOf data) size) := by
  have hready := ready_of_content hold
  cases hin : pathInMount s path with
  | false =>
    obtain ⟨internal, hnorm, hwrote⟩ := writeAll_wrote hin hrun
    exact hwrote.content hready hin hnorm
  | true =>
    have hcons := h (mounted_of_inMount hin)
    unfold Fs.writeAll at hrun
    rw [Cmd.get_bind_apply, Cmd.require_bind hready, if_pos hin] at hrun
    obtain ⟨hdisk, hread⟩ :=
      onDisk_ok hready hin (writeAll_env hcons (hsize hin)) hrun
    rw [content_disk hready hin] at hold
    rw [hread]
    exact (writeAll_reads hcons (hsize hin) hold hdisk).1

theorem append_content_iff (h : s.Steady) (hsize : size < 2 ^ 64)
    (hold : s.content path = some old)
    (hrun : Fs.append kmalloc path data size s = (some (), s')) :
    s'.content path = some (old ++ bufferBytes (dataOf data) size) ↔
      size = 0 ∨ s.EndShownOf path := by
  have hready := ready_of_content hold
  cases hin : pathInMount s path with
  | false =>
    obtain ⟨internal, hnorm, hwrote⟩ := append_wrote hin hrun
    rw [content_table hready hin, hnorm, Option.bind_some] at hold
    rw [hold, Option.getD_some] at hwrote
    refine iff_of_true (hwrote.content hready hin hnorm) (.inr fun hin' => ?_)
    rw [hin] at hin'
    cases hin'
  | true =>
    have hcons := h (mounted_of_inMount hin)
    unfold Fs.append at hrun
    rw [Cmd.get_bind_apply, Cmd.require_bind hready, if_pos hin] at hrun
    obtain ⟨hdisk, hread⟩ :=
      onDisk_ok hready hin (append_env hcons hsize) hrun
    rw [content_disk hready hin] at hold
    rw [hread, append_reads_iff hcons hold hdisk]
    exact or_congr_right ⟨fun hshown _ => hshown, fun hshown => hshown hin⟩

end content

end Clks.Fs
