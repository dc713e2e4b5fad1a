/-
Directories (disk/directory.inc): 32-byte entries with short names, long
names spread over entries in front of the one they belong to, and the
walks over a directory's cluster chain.

A pointer to an entry is its offset in the sector image; what is read
through it is the 32 bytes there, `entryAt`. An entry that is being put
together is a byte memory that is zero past its 32 bytes.
-/
import Clks.Disk.Fat
import Clks.Path

namespace Clks.Disk

open Bytes

-- ==== constants

/-- `CLKS_DISK_DIRENT_SIZE`. -/
abbrev direntSize : Nat := 32

/-- `CLKS_DISK_DIRENT_NAME_LEN`. -/
abbrev direntNameLen : Nat := 11

/-- `CLKS_DISK_LFN_MAX_ENTRIES`. -/
abbrev lfnMaxEntries : Nat := 15

/-- `CLKS_DISK_ATTR_VOLUME_ID`. -/
abbrev attrVolumeId : UInt8 := 0x08

/-- `CLKS_DISK_ATTR_DIRECTORY`. -/
abbrev attrDirectory : UInt8 := 0x10

/-- `CLKS_DISK_ATTR_ARCHIVE`. -/
abbrev attrArchive : UInt8 := 0x20

/-- `CLKS_DISK_ATTR_LFN`. -/
abbrev attrLfn : UInt8 := 0x0F

/-- First byte of an entry that was never used. -/
abbrev entryUnused : UInt8 := 0x00

/-- First byte of an entry that was removed. -/
abbrev entryRemoved : UInt8 := 0xE5

-- ==== entries

/-- The bytes of a directory entry. -/
abbrev Entry := Mem

/-- A short name: eleven bytes, name and extension filled up with
blanks. -/
abbrev Sfn := List UInt8

/-- The entry that starts at an offset. -/
def entryAt (m : Mem) (offset : Nat) : Entry := fun k =>
  if k < direntSize then m (offset + k) else 0

/-- `clks_disk_dirent_first_cluster`. -/
def Entry.firstCluster (e : Entry) : Nat :=
  readU16 e 20 * 65536 + readU16 e 26

/-- `clks_disk_dirent_size`. -/
def Entry.size (e : Entry) : Nat := readU32 e 28

/-- The attribute byte. -/
def Entry.attr (e : Entry) : UInt8 := e 11

/-- The name bytes. -/
def Entry.name (e : Entry) : Sfn := (List.range direntNameLen).map e

/-- `clks_disk_dirent_is_dot_like`. -/
def Entry.isDotLike (e : Entry) : Bool :=
  (e 0 = dot && e 1 = space) || (e 0 = dot && e 1 = dot && e 2 = space)

/-- The entry may be taken for a new name. -/
def Entry.isFree (e : Entry) : Bool := e 0 = entryUnused || e 0 = entryRemoved

/-- The attribute byte carries the volume label bit. -/
def Entry.isVolumeId (e : Entry) : Bool := e.attr &&& attrVolumeId ≠ 0

/-- The attribute byte carries the directory bit. -/
def isDirectoryAttr (attr : UInt8) : Bool := attr &&& attrDirectory ≠ 0

/-- `clks_disk_dirent_is_visible`. -/
def Entry.isVisible (e : Entry) : Bool :=
  !e.isFree && e.attr ≠ attrLfn && !e.isVolumeId

/-- `clks_disk_build_dir_entry`. -/
def buildDirEntry (name : Sfn) (attr : UInt8) (firstCluster size : Nat) :
    Entry :=
  let e : Entry := blit (fun _ => 0) 0 direntNameLen fun k => name.getD k 0
  let e := blit e 11 1 fun _ => attr
  let e := writeU16 e 20 (firstCluster / 65536 % 65536)
  let e := writeU16 e 26 (firstCluster % 65536)
  writeU32 e 28 size

-- ==== short names

/-- `clks_disk_ascii_upper`. -/
def asciiUpper (ch : UInt8) : UInt8 :=
  if chr 'a' ≤ ch ∧ ch ≤ chr 'z' then ch - 0x20 else ch

/-- `clks_disk_ascii_lower`. -/
def asciiLower (ch : UInt8) : UInt8 :=
  if chr 'A' ≤ ch ∧ ch ≤ chr 'Z' then ch + 0x20 else ch

/-- `clks_disk_text_equals_casefold`. -/
def textEqualsCasefold : List UInt8 → List UInt8 → Bool
  | [], [] => true
  | a :: as, b :: bs => asciiUpper a = asciiUpper b && textEqualsCasefold as bs
  | _, _ => false

/-- `clks_disk_sfn_char_valid`. -/
def sfnCharValid (ch : UInt8) : Bool :=
  (chr 'A' ≤ ch && ch ≤ chr 'Z') || (chr '0' ≤ ch && ch ≤ chr '9') ||
    (txt "$%'-_@~\x60!()\x7b\x7d^#&+,;=").contains ch

/-- Name and extension, filled up with blanks. -/
def padSfn (base ext : List UInt8) : Sfn :=
  base ++ List.replicate (8 - base.length) space
    ++ (ext ++ List.replicate (3 - ext.length) space)

/-- The loop of `clks_disk_component_to_sfn`: the rest of the component,
whether a dot was seen, and the characters so far. -/
def toSfnLoop :
    List UInt8 → Bool → List UInt8 → List UInt8 →
      Option (Bool × List UInt8 × List UInt8)
  | [], inExt, base, ext => some (inExt, base, ext)
  | ch :: rest, inExt, base, ext =>
    if ch = dot then
      if inExt || base.length = 0 then none
      else toSfnLoop rest true base ext
    else
      let ch := asciiUpper ch
      if !sfnCharValid ch then
        none
      else if !inExt then
        if 8 ≤ base.length then none
        else toSfnLoop rest inExt (base ++ [ch]) ext
      else
        if 3 ≤ ext.length then none
        else toSfnLoop rest inExt base (ext ++ [ch])

/-- `clks_disk_component_to_sfn`. -/
def componentToSfn (component : List UInt8) : Option Sfn :=
  if component = [] then
    none
  else
    match toSfnLoop component false [] [] with
    | none => none
    | some (inExt, base, ext) =>
      if base.length = 0 then none
      else if inExt && ext.length = 0 then none
      else some (padSfn base ext)

/-- A character of a generated short name. -/
def cleanChar (ch : UInt8) : UInt8 :=
  if sfnCharValid (asciiUpper ch) then asciiUpper ch else chr '_'

/-- Position of the last dot of a component. -/
def lastDot (component : List UInt8) : Option Nat :=
  (List.range component.length).reverse.find? fun i =>
    component[i]? = some dot

/-- `clks_disk_component_generate_sfn`: the name itself where it is a
short name already, else its first eight characters and the first three
after the last dot, cut off without regard to other names. -/
def componentGenerateSfn (component : List UInt8) : Option Sfn :=
  if component = [] then
    none
  else
    match componentToSfn component with
    | some sfn => some sfn
    | none =>
      let dotPos := lastDot component
      let kept := match dotPos with
        | none => component
        | some i => component.eraseIdx i
      let clean := (kept.take 8).map cleanChar
      let clean := if clean = [] then [chr '_'] else clean
      let ext := match dotPos with
        | none => []
        | some i => ((component.drop (i + 1)).take 3).map cleanChar
      some (padSfn clean ext)

/-- `clks_disk_sfn_to_text`, into a buffer that holds any short name. -/
def sfnToText (name : Sfn) : List UInt8 :=
  let base := ((name.take 8).reverse.dropWhile (· = space)).reverse
  let ext := (((name.drop 8).take 3).reverse.dropWhile (· = space)).reverse
  if ext = [] then base.map asciiLower
  else base.map asciiLower ++ dot :: ext.map asciiLower

-- ==== long names

/-- `clks_disk_lfn_checksum`. -/
def lfnChecksum (sfn : Sfn) : UInt8 :=
  sfn.foldl (fun sum c =>
    (if sum &&& 1 ≠ 0 then (0x80 : UInt8) else 0) + (sum >>> 1) + c) 0

/-- Where the thirteen characters of a long-name entry are stored. -/
def lfnOffsets : List Nat := [1, 3, 5, 7, 9, 14, 16, 18, 20, 22, 24, 28, 30]

/-- `clks_disk_build_lfn_entry`. -/
def buildLfnEntry (name : List UInt8) (ordinal checksum : UInt8) : Entry :=
  let e : Entry := blit (fun _ => 0) 0 direntSize fun _ => 0xFF
  let e := blit e 0 1 fun _ => ordinal
  let e := blit e 11 1 fun _ => attrLfn
  let e := blit e 12 1 fun _ => 0
  let e := blit e 13 1 fun _ => checksum
  let e := blit e 26 2 fun _ => 0
  let start := ((ordinal &&& 0x1F).toNat - 1) * 13
  (lfnOffsets.zipIdx).foldl (fun e (off, i) =>
    let src := start + i
    let value :=
      if src < name.length then (name.getD src 0).toNat
      else if src = name.length then 0
      else 0xFFFF
    writeU16 e off value) e

/-- The loop of `clks_disk_lfn_prepend_part`: the characters of one
long-name entry up to its end mark, unless one is not ASCII. -/
def lfnPart (e : Entry) : List Nat → List UInt8 → Option (List UInt8)
  | [], part => some part
  | off :: offs, part =>
    let value := readU16 e off
    if value = 0 ∨ value = 0xFFFF then some part
    else if 0x7F < value ∨ pathMax ≤ part.length + 1 then none
    else lfnPart e offs (part ++ [UInt8.ofNat value])

/-- `clks_disk_lfn_prepend_part`, into a buffer of `CLKS_DISK_PATH_MAX`
bytes. -/
def lfnPrependPart (e : Entry) (name : List UInt8) : Option (List UInt8) :=
  match lfnPart e lfnOffsets [] with
  | none => none
  | some part =>
    if pathMax < part.length + name.length + 1 then none
    else some (part ++ name)

/-- The variables `lfn_active`, `lfn_name`, `lfn_checksum` and
`lfn_expected_seq` of a walk. -/
structure LfnState where
  active : Bool
  name : List UInt8
  checksum : UInt8
  expectedSeq : Nat

namespace LfnState

/-- The variables before a walk. -/
def init : LfnState where
  active := false
  name := []
  checksum := 0
  expectedSeq := 0

/-- The name collected so far is dropped. -/
def reset (st : LfnState) : LfnState := { st with active := false, name := [] }

/-- A long-name entry is met. -/
def step (st : LfnState) (e : Entry) : LfnState :=
  let order := (e 0 &&& 0x1F).toNat
  let checksum := e 13
  let st? : Option LfnState :=
    if e 0 &&& 0x40 ≠ 0 then
      some { active := true, expectedSeq := order, checksum, name := [] }
    else if !st.active || order + 1 ≠ st.expectedSeq
        || checksum ≠ st.checksum then
      none
    else
      some st
  match st? with
  | none => st.reset
  | some st =>
    if order = 0 then st.reset
    else
      match lfnPrependPart e st.name with
      | none => st.reset
      | some name => { st with name, expectedSeq := order }

end LfnState

-- ==== walks

/-- `struct clks_disk_dir_slot`. -/
structure DirSlot where
  cluster : Nat
  entryIndex : Nat
  deriving DecidableEq, Repr

/-- `struct clks_disk_dir_info`. -/
structure DirInfo where
  attr : UInt8
  firstCluster : Nat
  size : Nat
  deriving DecidableEq, Repr

/-- An entry that a walk found: `out_slot`, `out_info` and `out_sfn`. -/
structure DirFound where
  slot : DirSlot
  info : DirInfo
  sfn : Sfn
  deriving DecidableEq, Repr

/-- What the driver reads off an entry. -/
def Entry.info (e : Entry) : DirInfo where
  attr := e.attr
  firstCluster := e.firstCluster
  size := e.size

/-- `clks_disk_dir_entry_ptr`: offset of an entry, and its sector. -/
def dirEntryPtr (cluster entryIndex : Nat) : Cmd State (Nat × Nat) := do
  let clusterLba ← clusterLba cluster
  let s ← Cmd.get
  Cmd.require (entryIndex < s.fat32.entriesPerCluster)
  let entriesPerSector := sectorSize / direntSize
  let sectorInCluster := entryIndex / entriesPerSector
  let entryInSector := entryIndex % entriesPerSector
  let lba := clusterLba + sectorInCluster
  let entryOffset := entryInSector * direntSize
  let diskOffset := lba * sectorSize + entryOffset
  Cmd.require (s.bytesRangeValid diskOffset direntSize)
  ensureLoadedRange diskOffset direntSize
  pure (diskOffset, lba)

/-- `clks_disk_dir_entry_ptr` and the bytes behind the pointer. -/
def dirEntryRead (cluster entryIndex : Nat) : Cmd State Entry := do
  let (ptr, _) ← dirEntryPtr cluster entryIndex
  let s ← Cmd.get
  pure (entryAt s.bytes ptr)

/-- Does an entry answer to a component, under its long name or its
short one? -/
def entryMatches (component : List UInt8) (targetSfn : Option Sfn)
    (st : LfnState) (e : Entry) : Bool :=
  (st.active && st.checksum = lfnChecksum e.name &&
      textEqualsCasefold st.name component) ||
    targetSfn = some e.name

/-- The inner loop of `clks_disk_dir_find_entry_by_component`, over the
next `n` entries of a cluster. -/
def dirFindEntries (component : List UInt8) (targetSfn : Option Sfn)
    (cluster : Nat) :
    Nat → Nat → LfnState → Cmd State (Option DirFound × LfnState)
  | 0, _, st => pure (none, st)
  | n + 1, entryIndex, st => do
    let e ← dirEntryRead cluster entryIndex
    if e.isFree then
      dirFindEntries component targetSfn cluster n (entryIndex + 1) st.reset
    else if e.attr = attrLfn then
      dirFindEntries component targetSfn cluster n (entryIndex + 1) (st.step e)
    else if e.isVolumeId then
      dirFindEntries component targetSfn cluster n (entryIndex + 1) st.reset
    else if entryMatches component targetSfn st e then
      pure (some
        { slot := { cluster, entryIndex }
          info := e.info
          sfn := e.name }, st)
    else
      dirFindEntries component targetSfn cluster n (entryIndex + 1) st.reset

/-- The outer loop of `clks_disk_dir_find_entry_by_component`. -/
def dirFindLoop (component : List UInt8) (targetSfn : Option Sfn) :
    Nat → Nat → LfnState → Cmd State (Option DirFound)
  | 0, _, _ => Cmd.fail
  | guard + 1, cluster, st => do
    let s ← Cmd.get
    Cmd.require (s.fat32.clusterValid cluster)
    let (found, st) ← dirFindEntries component targetSfn cluster
      s.fat32.entriesPerCluster 0 st
    match found with
    | some f => pure (some f)
    | none => do
      let (nextCluster, isEoc) ← fatNextCluster cluster
      if isEoc then
        pure none
      else do
        Cmd.require (s.fat32.clusterValid nextCluster)
        dirFindLoop component targetSfn guard nextCluster st

/-- `clks_disk_dir_find_entry_by_component`: the first entry of a
directory that answers to a component, if there is one. -/
def dirFindEntryByComponent (dirCluster : Nat) (component : List UInt8) :
    Cmd State (Option DirFound) := do
  let s ← Cmd.get
  dirFindLoop component (componentToSfn component) s.fat32.clusterCount
    dirCluster .init

/-- The inner loop of `clks_disk_dir_find_free_slots`: the start of the
first run of `needed` free entries in a cluster. -/
def dirFreeRun (cluster needed : Nat) :
    Nat → Nat → Nat → Nat → Cmd State (Option Nat)
  | 0, _, _, _ => pure none
  | n + 1, entryIndex, runStart, runLen => do
    let e ← dirEntryRead cluster entryIndex
    if e.isFree then
      let runStart := if runLen = 0 then entryIndex else runStart
      let runLen := runLen + 1
      if needed ≤ runLen then
        pure (some runStart)
      else
        dirFreeRun cluster needed n (entryIndex + 1) runStart runLen
    else
      dirFreeRun cluster needed n (entryIndex + 1) runStart 0

/-- The outer loop of `clks_disk_dir_find_free_slots`. -/
def dirFindFreeLoop (needed : Nat) : Nat → Nat → Cmd State DirSlot
  | 0, _ => Cmd.fail
  | guard + 1, cluster => do
    let s ← Cmd.get
    Cmd.require (s.fat32.clusterValid cluster)
    let run ← dirFreeRun cluster needed s.fat32.entriesPerCluster 0 0 0
    match run with
    | some runStart => pure { cluster, entryIndex := runStart }
    | none => do
      let (nextCluster, isEoc) ← fatNextCluster cluster
      if isEoc then do
        let newCluster ← allocCluster
        (fatWriteEntry cluster newCluster).orCleanup (freeChain newCluster)
        pure { cluster := newCluster, entryIndex := 0 }
      else do
        Cmd.require (s.fat32.clusterValid nextCluster)
        dirFindFreeLoop needed guard nextCluster

/-- `clks_disk_dir_find_free_slots`. -/
def dirFindFreeSlots (dirCluster needed : Nat) : Cmd State DirSlot := do
  let s ← Cmd.get
  Cmd.require (s.fat32.clusterValid dirCluster)
  Cmd.require (needed ≠ 0)
  dirFindFreeLoop needed s.fat32.clusterCount dirCluster

/-- `clks_disk_write_dir_entry`. -/
def writeDirEntry (slot : DirSlot) (entryData : Entry) : Cmd State Unit := do
  let (ptr, lba) ← dirEntryPtr slot.cluster slot.entryIndex
  poke ptr direntSize entryData
  syncSectorRange lba 1

/-- The loop of `clks_disk_write_named_dir_entry` over the long-name
entries, the last part of the name first. -/
def writeLfnLoop (slot : DirSlot) (component : List UInt8)
    (checksum : UInt8) (lfnCount : Nat) : Nat → Nat → Cmd State Unit
  | 0, _ => pure ()
  | n + 1, i => do
    let order := UInt8.ofNat (lfnCount - i)
    let order := if i = 0 then order ||| 0x40 else order
    writeDirEntry { slot with entryIndex := slot.entryIndex + i }
      (buildLfnEntry component order checksum)
    writeLfnLoop slot component checksum lfnCount n (i + 1)

/-- `clks_disk_write_named_dir_entry`. -/
def writeNamedDirEntry (parentCluster : Nat) (component : List UInt8)
    (attr : UInt8) (firstCluster size : Nat) : Cmd State DirSlot := do
  let (sfn, needsLfn) ← match componentToSfn component with
    | some sfn => pure (sfn, false)
    | none => match componentGenerateSfn component with
      | none => Cmd.fail
      | some sfn => pure (sfn, true)
  let lfnCount := if needsLfn then (component.length + 12) / 13 else 0
  Cmd.require (!(needsLfn && (lfnCount = 0 || lfnMaxEntries < lfnCount)))
  let needed := lfnCount + 1
  let freeSlot ← dirFindFreeSlots parentCluster needed
  writeLfnLoop freeSlot component (lfnChecksum sfn) lfnCount lfnCount 0
  let slot := { freeSlot with entryIndex := freeSlot.entryIndex + lfnCount }
  writeDirEntry slot (buildDirEntry sfn attr firstCluster size)
  pure slot

/-- `dot_name` of `clks_disk_init_directory_cluster`. -/
def dotName : Sfn := dot :: List.replicate 10 space

/-- `dotdot_name` of `clks_disk_init_directory_cluster`. -/
def dotdotName : Sfn := dot :: dot :: List.replicate 9 space

/-- `clks_disk_init_directory_cluster`. -/
def initDirectoryCluster (cluster parentCluster : Nat) : Cmd State Unit := do
  let clusterOffset ← clusterFirstByteOffset cluster
  let s ← Cmd.get
  let byteCount := s.fat32.clusterSizeBytes
  Cmd.require (s.bytesRangeValid clusterOffset byteCount)
  let clusterLba ← clusterLba cluster
  poke clusterOffset byteCount fun _ => 0
  poke clusterOffset direntSize
    (buildDirEntry dotName attrDirectory cluster 0)
  poke (clusterOffset + direntSize) direntSize
    (buildDirEntry dotdotName attrDirectory parentCluster 0)
  syncSectorRange clusterLba s.fat32.sectorsPerCluster

/-- The inner loop of `clks_disk_dir_is_empty`. -/
def dirAllHidden (cluster : Nat) : Nat → Nat → Cmd State Unit
  | 0, _ => pure ()
  | n + 1, entryIndex => do
    let e ← dirEntryRead cluster entryIndex
    Cmd.require (!e.isVisible || e.isDotLike)
    dirAllHidden cluster n (entryIndex + 1)

/-- The outer loop of `clks_disk_dir_is_empty`. -/
def dirIsEmptyLoop : Nat → Nat → Cmd State Unit
  | 0, _ => Cmd.fail
  | guard + 1, cluster => do
    let s ← Cmd.get
    Cmd.require (s.fat32.clusterValid cluster)
    dirAllHidden cluster s.fat32.entriesPerCluster 0
    let (nextCluster, isEoc) ← fatNextCluster cluster
    if isEoc then
      pure ()
    else do
      Cmd.require (s.fat32.clusterValid nextCluster)
      dirIsEmptyLoop guard nextCluster

/-- `clks_disk_dir_is_empty`: succeeds on an empty directory. -/
def dirIsEmpty (dirCluster : Nat) : Cmd State Unit := do
  let s ← Cmd.get
  dirIsEmptyLoop s.fat32.clusterCount dirCluster

-- ==== paths

/-- `clks_disk_next_component`: the component at the head of a relative
path, the rest of the path, and whether that is empty. -/
def nextComponent (rest : List UInt8) :
    Option (List UInt8 × List UInt8 × Bool) :=
  if rest = [] then
    none
  else
    let component := rest.takeWhile (· ≠ slash)
    if component.length = 0 ∨ pathMax < component.length + 1 then
      none
    else
      let rest := (rest.drop component.length).drop 1
      some (component, rest, rest = [])

/-- `struct clks_disk_path_lookup`. -/
structure PathLookup where
  found : Bool
  parentCluster : Nat
  sfn : Sfn
  slot : DirSlot
  info : DirInfo
  deriving DecidableEq, Repr

/-- The loop of `clks_disk_lookup_relative_path`. -/
def lookupLoop : Nat → List UInt8 → Nat → Cmd State PathLookup
  | 0, _, _ => Cmd.fail
  | n + 1, rest, currentDir => do
    match nextComponent rest with
    | none => Cmd.fail
    | some (component, rest, last) => do
      let found ← dirFindEntryByComponent currentDir component
      if last then
        match found with
        | some f =>
          pure
            { found := true, parentCluster := currentDir, sfn := f.sfn
              slot := f.slot, info := f.info }
        | none =>
          match componentGenerateSfn component with
          | none => Cmd.fail
          | some sfn =>
            pure
              { found := false, parentCluster := currentDir, sfn
                slot := ⟨0, 0⟩, info := ⟨0, 0, 0⟩ }
      else
        match found with
        | none => Cmd.fail
        | some f => do
          Cmd.require (isDirectoryAttr f.info.attr)
          let s ← Cmd.get
          Cmd.require (s.fat32.clusterValid f.info.firstCluster)
          lookupLoop n rest f.info.firstCluster

/-- `clks_disk_lookup_relative_path`. -/
def lookupRelativePath (relativePath : List UInt8) :
    Cmd State PathLookup := do
  let s ← Cmd.get
  let root := s.fat32.rootCluster
  if relativePath = [] then
    pure
      { found := true, parentCluster := root, sfn := List.replicate 11 0
        slot := ⟨0, 0⟩, info := ⟨attrDirectory, root, 0⟩ }
  else
    lookupLoop relativePath.length relativePath root

/-- `clks_disk_relative_basename`. -/
def relativeBasename (relativePath : List UInt8) : List UInt8 :=
  (relativePath.reverse.takeWhile (· ≠ slash)).reverse

end Clks.Disk
