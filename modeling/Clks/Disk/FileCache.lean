/-
The cache of whole files (disk/cache_io.inc) and the buffer that files
are read into (disk/file_chain.inc).

The cache owns heap blocks, and which block is whose is all that is here:
an entry names its block by number, and a function that gives blocks back
returns their numbers beside the new cache. What the blocks hold is the
caller's.
-/
import Clks.Disk.Rereading

namespace Clks.Disk

open Bytes

-- ==== constants

/-- `CLKS_DISK_FILE_CACHE_SLOTS`. -/
abbrev fileCacheSlots : Nat := 8

/-- `CLKS_DISK_FILE_CACHE_MAX_FILE_BYTES`. -/
abbrev fileCacheMaxFileBytes : Nat := 2 * 1024 * 1024

/-- `CLKS_DISK_FILE_CACHE_MAX_TOTAL_BYTES`. -/
abbrev fileCacheMaxTotalBytes : Nat := 8 * 1024 * 1024

-- ==== the cache

/-- `struct clks_disk_file_cache_entry`. -/
structure CacheEntry where
  valid : Bool
  path : List UInt8
  firstCluster : Nat
  size : Nat
  age : Nat
  data : Option Nat
  deriving DecidableEq, Repr

/-- An entry after `clks_memset`. -/
def CacheEntry.zero : CacheEntry := ⟨false, [], 0, 0, 0, none⟩

/-- `clks_disk_file_cache` with its two counters. -/
structure FileCache where
  entries : Fin fileCacheSlots → CacheEntry
  bytes : Nat
  clock : Nat

namespace FileCache

/-- The cache at boot, and behind `clks_disk_file_cache_clear`. -/
def empty : FileCache := ⟨fun _ => .zero, 0, 0⟩

/-- The blocks that `clks_disk_file_cache_clear` gives back. -/
def blocks (c : FileCache) : List Nat :=
  (List.finRange fileCacheSlots).filterMap fun i => (c.entries i).data

/-- `++clks_disk_file_cache_clock`. -/
def nextAge (c : FileCache) : Nat := (c.clock + 1) % 2 ^ 64

/-- Replace one entry. -/
def set (c : FileCache) (i : Fin fileCacheSlots) (e : CacheEntry) :
    FileCache :=
  { c with entries := fun j => if j = i then e else c.entries j }

/-- `clks_disk_file_cache_drop_slot`, with the block it gives back. -/
def dropSlot (i : Fin fileCacheSlots) (c : FileCache) :
    FileCache × List Nat :=
  let e := c.entries i
  if e.valid then
    ({ c.set i .zero with bytes := c.bytes - e.size }, e.data.toList)
  else
    (c, [])

/-- The entry that `clks_disk_file_cache_lookup` finds. -/
def find (relative : List UInt8) (firstCluster size : Nat)
    (c : FileCache) : Option (Fin fileCacheSlots) :=
  (List.finRange fileCacheSlots).find? fun i =>
    let e := c.entries i
    e.valid && e.firstCluster = firstCluster && e.size = size
      && e.path = relative

/-- `clks_disk_file_cache_lookup`: the block with the file's data. -/
def lookup (relative : List UInt8) (firstCluster size : Nat)
    (c : FileCache) : Option (Nat × FileCache) :=
  (c.find relative firstCluster size).bind fun i =>
    let e := c.entries i
    e.data.map fun block =>
      (block, { c.set i { e with age := c.nextAge } with clock := c.nextAge })

/-- The searches for the entry with the smallest age. -/
def oldest (p : CacheEntry → Bool) (c : FileCache) :
    Option (Fin fileCacheSlots) :=
  ((List.finRange fileCacheSlots).foldl
    (fun best i =>
      let e := c.entries i
      if p e && e.age < best.2 then (some i, e.age) else best)
    (none, 2 ^ 64 - 1)).1

/-- The first part of `clks_disk_file_cache_store`: drop the entry of the
same path. -/
def dropPath (relative : List UInt8) (c : FileCache) :
    FileCache × List Nat :=
  match (List.finRange fileCacheSlots).find? fun i =>
      (c.entries i).valid && (c.entries i).path = relative with
  | some i => c.dropSlot i
  | none => (c, [])

/-- The second part: drop the oldest entries until the new file fits. -/
def shrink (size : Nat) : Nat → FileCache → FileCache × List Nat
  | 0, c => (c, [])
  | n + 1, c =>
    if fileCacheMaxTotalBytes < c.bytes + size then
      match c.oldest (·.valid) with
      | none => (c, [])
      | some i =>
        let (c, freed) := c.dropSlot i
        let (c, more) := shrink size n c
        (c, freed ++ more)
    else
      (c, [])

/-- The third part: an entry that is not in use, else the oldest one is
dropped. -/
def takeSlot (c : FileCache) :
    Option (Fin fileCacheSlots) × FileCache × List Nat :=
  match (List.finRange fileCacheSlots).find? fun i =>
      !(c.entries i).valid with
  | some i => (some i, c, [])
  | none =>
    match c.oldest fun _ => true with
    | some i => (some i, c.dropSlot i)
    | none => (none, c, [])

/-- What `clks_disk_file_cache_store` does before it asks for memory: the
entry for the new file, the cache with that entry free, and the blocks
given back on the way. -/
def makeRoom (relative : List UInt8) (size : Nat) (c : FileCache) :
    Option (Fin fileCacheSlots) × FileCache × List Nat :=
  let dropped := c.dropPath relative
  let shrunk := dropped.1.shrink size (fileCacheSlots + 1)
  let taken := shrunk.1.takeSlot
  (taken.1, taken.2.1, dropped.2 ++ shrunk.2 ++ taken.2.2)

/-- The last part of `clks_disk_file_cache_store`: fill the entry. -/
def enter (i : Fin fileCacheSlots) (relative : List UInt8)
    (firstCluster size block : Nat) (c : FileCache) : FileCache :=
  { c.set i ⟨true, relative, firstCluster, size, c.nextAge, some block⟩ with
    bytes := c.bytes + size
    clock := c.nextAge }

/-- Does `clks_disk_file_cache_store` keep a file of this size at all? -/
def keeps (size : Nat) : Bool := size ≠ 0 && size ≤ fileCacheMaxFileBytes

end FileCache

namespace FileCache

-- ==== what is given back

/-- From one cache to another by dropping entries: an entry is the same
or was dropped, and the blocks of those that were dropped are the ones
that were given back. -/
structure Drops (c c' : FileCache) (freed : List Nat) : Prop where
  entry : ∀ j, c'.entries j = c.entries j ∨
    c'.entries j = .zero ∧ ∀ b, (c.entries j).data = some b → b ∈ freed
  freed : ∀ b ∈ freed, ∃ j, (c.entries j).data = some b ∧
    c'.entries j = .zero

section drops

variable {c c' c'' : FileCache} {freed more : List Nat}
  {relative : List UInt8} {size : Nat} {i : Fin fileCacheSlots}

theorem Drops.refl (c : FileCache) : Drops c c [] :=
  ⟨fun _ => .inl rfl, fun _ hb => by cases hb⟩

theorem Drops.trans (h : Drops c c' freed) (h' : Drops c' c'' more) :
    Drops c c'' (freed ++ more) where
  entry j := by
    rcases h.entry j with he | ⟨hz, hmem⟩
    · rcases h'.entry j with he' | ⟨hz', hmem'⟩
      · exact .inl (he'.trans he)
      · refine .inr ⟨hz', fun b hb => List.mem_append_right _ ?_⟩
        exact hmem' b (by rw [he]; exact hb)
    · refine .inr ⟨?_, fun b hb => List.mem_append_left _ (hmem b hb)⟩
      rcases h'.entry j with he' | ⟨hz', -⟩
      · exact he'.trans hz
      · exact hz'
  freed b hb := by
    rcases List.mem_append.mp hb with hb | hb
    · obtain ⟨j, hj, hz⟩ := h.freed b hb
      refine ⟨j, hj, ?_⟩
      rcases h'.entry j with he | ⟨hz', -⟩
      · exact he.trans hz
      · exact hz'
    · obtain ⟨j, hj, hz⟩ := h'.freed b hb
      refine ⟨j, ?_, hz⟩
      rcases h.entry j with he | ⟨hz', -⟩
      · rw [← he]
        exact hj
      · rw [hz'] at hj
        cases hj

theorem empty_drops (c : FileCache) : Drops c .empty c.blocks where
  entry j := .inr ⟨rfl, fun _ hb =>
    List.mem_filterMap.mpr ⟨j, List.mem_finRange j, hb⟩⟩
  freed b hb := by
    obtain ⟨j, -, hj⟩ := List.mem_filterMap.mp hb
    exact ⟨j, hj, rfl⟩

/-- An entry that is not valid is all zeros. -/
def Clean (c : FileCache) : Prop :=
  ∀ j, (c.entries j).valid = false → c.entries j = .zero

theorem Drops.clean (h : Drops c c' freed) (hc : c.Clean) : c'.Clean := by
  intro j hj
  rcases h.entry j with he | ⟨hz, -⟩
  · rw [he] at hj ⊢
    exact hc j hj
  · exact hz

theorem dropSlot_drops (i : Fin fileCacheSlots) (c : FileCache) :
    Drops c (c.dropSlot i).1 (c.dropSlot i).2 := by
  unfold dropSlot
  dsimp only
  split
  · refine ⟨fun j => ?_, fun b hb => ⟨i, ?_, ?_⟩⟩
    · by_cases hj : j = i
      · subst hj
        exact .inr ⟨by simp [set], fun b hb => by simp [hb]⟩
      · exact .inl (by simp [set, hj])
    · simpa using hb
    · simp [set]
  · exact .refl c

theorem dropPath_drops (relative : List UInt8) (c : FileCache) :
    Drops c (c.dropPath relative).1 (c.dropPath relative).2 := by
  unfold dropPath
  split
  · exact dropSlot_drops _ c
  · exact .refl c

theorem shrink_drops (size n : Nat) (c : FileCache) :
    Drops c (c.shrink size n).1 (c.shrink size n).2 := by
  induction n generalizing c with
  | zero => exact .refl c
  | succ n ih =>
    unfold shrink
    split
    · split
      · exact .refl c
      · next i _ => exact (dropSlot_drops i c).trans (ih _)
    · exact .refl c

theorem takeSlot_drops (c : FileCache) :
    Drops c c.takeSlot.2.1 c.takeSlot.2.2 := by
  unfold takeSlot
  split
  · exact .refl c
  · split
    · exact dropSlot_drops _ c
    · exact .refl c

theorem makeRoom_drops (relative : List UInt8) (size : Nat)
    (c : FileCache) :
    Drops c (c.makeRoom relative size).2.1
      (c.makeRoom relative size).2.2 := by
  have hpath := dropPath_drops relative c
  have hshrink := shrink_drops size (fileCacheSlots + 1)
    (c.dropPath relative).1
  exact (hpath.trans hshrink).trans (takeSlot_drops _)

theorem lookup_some {firstCluster block : Nat}
    (h : c.lookup relative firstCluster size = some (block, c')) :
    (∃ i, (c.entries i).valid = true ∧ (c.entries i).data = some block ∧
      (c.entries i).firstCluster = firstCluster ∧
      (c.entries i).size = size) ∧
    ∀ j, c'.entries j = c.entries j ∨ (c.entries j).valid = true ∧
      ∃ age, c'.entries j = { c.entries j with age } := by
  unfold lookup at h
  obtain ⟨i, hi, h⟩ := Option.bind_eq_some_iff.mp h
  obtain ⟨b, hb, h⟩ := Option.map_eq_some_iff.mp h
  cases h
  have hp := List.find?_some hi
  simp only [Bool.and_eq_true, decide_eq_true_eq] at hp
  refine ⟨⟨i, hp.1.1.1, hb, hp.1.1.2, hp.1.2⟩, fun j => ?_⟩
  by_cases hj : j = i
  · subst hj
    exact .inr ⟨hp.1.1.1, c.nextAge, by simp [set]⟩
  · exact .inl (by simp [set, hj])

end drops

end FileCache

-- ==== reading into a buffer

/-- One turn of `clks_disk_read_file_chain`: the bytes of a cluster. -/
def readCluster (cluster size : Nat) : Cmd State (List UInt8) := do
  let s ← Cmd.get
  Cmd.require (s.fat32.clusterValid cluster)
  let clusterOffset ← clusterFirstByteOffset cluster
  let toCopy := min size s.fat32.clusterSizeBytes
  Cmd.require (s.bytesRangeValid clusterOffset toCopy)
  ensureLoadedRange clusterOffset toCopy
  let s ← Cmd.get
  pure (readBytes s.bytes clusterOffset toCopy)

/-- The link that `clks_disk_read_file_chain` follows. -/
def readLink (cluster : Nat) : Cmd State Nat := do
  let s ← Cmd.get
  let (nextCluster, isEoc) ← fatNextCluster cluster
  Cmd.require (!isEoc)
  Cmd.require (s.fat32.clusterValid nextCluster)
  pure nextCluster

/-- The loop of `clks_disk_read_file_chain` with the bytes copied so far
and whether that is all of them. -/
def copyChainLoop : Nat → Nat → Nat → Cmd State (List UInt8 × Bool)
  | 0, _, _ => pure ([], false)
  | guard + 1, cluster, size => do
    let s ← Cmd.get
    match ← Cmd.attempt (readCluster cluster size) with
    | none => pure ([], false)
    | some part =>
      if size ≤ min size s.fat32.clusterSizeBytes then
        pure (part, true)
      else do
        match ← Cmd.attempt (readLink cluster) with
        | none => pure (part, false)
        | some nextCluster => do
          let (rest, complete) ← copyChainLoop guard nextCluster
            (size - min size s.fat32.clusterSizeBytes)
          pure (part ++ rest, complete)

/-- `clks_disk_read_file_chain` into a buffer. -/
def copyFileChain (firstCluster size : Nat) :
    Cmd State (List UInt8 × Bool) := do
  let s ← Cmd.get
  if size = 0 then
    pure ([], true)
  else if s.fat32.clusterValid firstCluster then
    copyChainLoop s.fat32.clusterCount firstCluster size
  else
    pure ([], false)

section copying

open Cmd

variable {s s' : State}

theorem readChainLoop_err {guard cluster size : Nat}
    (h : readCluster cluster size s = (none, s')) :
    readChainLoop (guard + 1) cluster size s = (none, s') := by
  unfold readCluster at h
  unfold readChainLoop
  rw [get_bind_apply] at h ⊢
  cases hv : s.fat32.clusterValid cluster with
  | false =>
    rw [hv, require_bind_err rfl] at h
    rw [require_bind_err rfl]
    exact h
  | true =>
    rw [hv, require_bind rfl] at h
    rw [require_bind rfl]
    rcases bind_err_inv h with h | ⟨offset, s1, hoff, h⟩
    · rw [bind_err h]
    · rw [bind_ok hoff]
      dsimp only at h ⊢
      rcases bind_err_inv h with h | ⟨_, s2, hreq, h⟩
      · rw [bind_err h]
      · rw [bind_ok hreq]
        rcases bind_err_inv h with h | ⟨_, s3, _, h⟩
        · rw [bind_err h]
        · cases h

theorem readChainLoop_ok {guard cluster size : Nat} {part : List UInt8}
    (h : readCluster cluster size s = (some part, s')) :
    readChainLoop (guard + 1) cluster size s
      = if size ≤ min size s.fat32.clusterSizeBytes then (some part, s')
        else (readLink cluster >>= fun nextCluster =>
          readChainLoop guard nextCluster
            (size - min size s.fat32.clusterSizeBytes) >>= fun rest =>
          pure (part ++ rest)) s' := by
  unfold readCluster at h
  rw [get_bind_apply] at h
  obtain ⟨hv, h⟩ := require_ok_inv h
  obtain ⟨offset, s1, hoff, h⟩ := bind_ok_inv h
  obtain ⟨hreq, h⟩ := require_ok_inv h
  obtain ⟨_, s3, hload, h⟩ := bind_ok_inv h
  rw [get_bind_apply] at h
  cases h
  rw [readChainLoop, get_bind_apply, require_bind hv, bind_ok hoff]
  dsimp only
  rw [require_bind hreq, bind_ok hload, get_bind_apply]
  split
  · rfl
  · unfold readLink
    rw [bind_assoc_apply, get_bind_apply, bind_assoc_apply]
    refine congrArg (fun f => (fatNextCluster cluster >>= f) s') ?_
    funext link t
    rw [bind_assoc_apply]
    refine congrArg (fun f => (require _ >>= f) t) ?_
    funext u t
    rw [bind_assoc_apply]
    rfl

theorem copyChainLoop_run (guard cluster size : Nat) (s : State) :
    ∃ l ok, copyChainLoop guard cluster size s
        = (some (l, ok), (readChainLoop guard cluster size s).2) ∧
      (readChainLoop guard cluster size s).1
        = if ok then some l else none := by
  induction guard generalizing cluster size s with
  | zero => exact ⟨[], false, rfl, rfl⟩
  | succ guard ih =>
    rw [copyChainLoop, get_bind_apply, attempt_bind_apply]
    cases hturn : readCluster cluster size s with
    | mk r s1 =>
      cases r with
      | none =>
        rw [readChainLoop_err hturn]
        exact ⟨[], false, rfl, rfl⟩
      | some part =>
        rw [readChainLoop_ok hturn]
        dsimp only
        by_cases hlast : size ≤ min size s.fat32.clusterSizeBytes
        · rw [if_pos hlast, if_pos hlast]
          exact ⟨part, true, rfl, rfl⟩
        · rw [if_neg hlast, if_neg hlast, attempt_bind_apply]
          cases hlink : readLink cluster s1 with
          | mk r s2 =>
            cases r with
            | none =>
              rw [bind_err hlink]
              exact ⟨part, false, rfl, rfl⟩
            | some nextCluster =>
              rw [bind_ok hlink]
              dsimp only
              obtain ⟨l, ok, hcopy, hread⟩ := ih nextCluster
                (size - min size s.fat32.clusterSizeBytes) s2
              rw [bind_ok hcopy]
              refine ⟨part ++ l, ok, ?_, ?_⟩
              · cases hrest : readChainLoop guard nextCluster
                    (size - min size s.fat32.clusterSizeBytes) s2 with
                | mk r s3 =>
                  cases r with
                  | none => rw [bind_err hrest]; rfl
                  | some rest => rw [bind_ok hrest]; rfl
              · cases hrest : readChainLoop guard nextCluster
                    (size - min size s.fat32.clusterSizeBytes) s2 with
                | mk r s3 =>
                  rw [hrest] at hread
                  cases r with
                  | none =>
                    rw [bind_err hrest]
                    cases ok with
                    | false => rfl
                    | true => cases hread
                  | some rest =>
                    rw [bind_ok hrest]
                    cases ok with
                    | false => cases hread
                    | true => cases hread; rfl

theorem copyFileChain_run (firstCluster size : Nat) (s : State) :
    ∃ l ok, copyFileChain firstCluster size s
        = (some (l, ok), (readFileChain firstCluster size s).2) ∧
      (readFileChain firstCluster size s).1
        = if ok then some l else none := by
  rw [copyFileChain, readFileChain, get_bind_apply, get_bind_apply]
  by_cases hz : size = 0
  · rw [if_pos hz, if_pos hz]
    exact ⟨[], true, rfl, rfl⟩
  · rw [if_neg hz, if_neg hz]
    cases hv : s.fat32.clusterValid firstCluster with
    | false => exact ⟨[], false, rfl, rfl⟩
    | true => exact copyChainLoop_run _ _ _ s

theorem readChainLoop_length {guard cluster size : Nat} {l : List UInt8}
    (h : readChainLoop guard cluster size s = (some l, s')) :
    l.length = size := by
  induction guard generalizing cluster size s l with
  | zero => cases h
  | succ guard ih =>
    cases hturn : readCluster cluster size s with
    | mk r s1 =>
      cases r with
      | none =>
        rw [readChainLoop_err hturn] at h
        cases h
      | some part =>
        have hpart : part.length = min size s.fat32.clusterSizeBytes := by
          unfold readCluster at hturn
          rw [get_bind_apply] at hturn
          obtain ⟨-, hturn⟩ := require_ok_inv hturn
          obtain ⟨_, _, -, hturn⟩ := bind_ok_inv hturn
          obtain ⟨-, hturn⟩ := require_ok_inv hturn
          obtain ⟨_, _, -, hturn⟩ := bind_ok_inv hturn
          cases hturn
          simp [readBytes]
        rw [readChainLoop_ok hturn] at h
        split at h
        · cases h
          omega
        · obtain ⟨nextCluster, s2, -, h⟩ := bind_ok_inv h
          obtain ⟨rest, s3, hrest, h⟩ := bind_ok_inv h
          cases h
          rw [List.length_append, hpart, ih hrest]
          omega

theorem readFileChain_length {firstCluster size : Nat} {l : List UInt8}
    (h : readFileChain firstCluster size s = (some l, s')) :
    l.length = size := by
  rw [readFileChain, get_bind_apply] at h
  split at h
  · next hz =>
    cases h
    exact hz.symm
  · obtain ⟨-, h⟩ := require_ok_inv h
    exact readChainLoop_length h

end copying

end Clks.Disk
