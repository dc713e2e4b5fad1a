/-
The entries that the driver builds, and the short names in them.

A short name made from a component starts with one of the characters
that `sfn_char_valid` admits, so the entry that carries it is neither
free nor dot-like; a long-name entry is hidden by its attribute.
-/
import Clks.Disk.Proofs.Directory

namespace Clks.Disk

open Bytes

-- ==== built entries

section built

variable {name : Sfn} {attr : UInt8} {first size : Nat}

theorem buildDirEntry_head {k : Nat} (hk : k < 11) :
    buildDirEntry name attr first size k = name.getD k 0 := by
  simp only [buildDirEntry, writeU32, writeU16]
  rw [blit_out (by omega), blit_out (by omega), blit_out (by omega),
    blit_out (by omega), blit_in (by omega) (by omega), Nat.sub_zero]

@[simp] theorem buildDirEntry_attr :
    (buildDirEntry name attr first size).attr = attr := by
  simp only [Entry.attr, buildDirEntry, writeU32, writeU16]
  rw [blit_out (by omega), blit_out (by omega), blit_out (by omega),
    blit_in (by omega) (by omega)]

theorem buildDirEntry_firstCluster (hf : first < 2 ^ 32) :
    (buildDirEntry name attr first size).firstCluster = first := by
  simp only [Entry.firstCluster, buildDirEntry, writeU32]
  rw [readU16_blit_out (by omega), readU16_blit_out (by omega),
    readU16_writeU16, readU16_writeU16_out (by omega), readU16_writeU16]
  omega

@[simp] theorem buildDirEntry_size :
    (buildDirEntry name attr first size).size = size % 2 ^ 32 := by
  simp only [Entry.size, buildDirEntry]
  exact readU32_writeU32 _ _ _

theorem buildDirEntry_name (hn : name.length = 11) :
    (buildDirEntry name attr first size).name = name := by
  refine List.ext_getElem (by simp [Entry.name, hn]) fun k h1 h2 => ?_
  have hk : k < 11 := by simpa [Entry.name] using h1
  simp only [Entry.name, List.getElem_map, List.getElem_range]
  rw [buildDirEntry_head hk, List.getD_eq_getElem?_getD,
    List.getElem?_eq_getElem h2, Option.getD_some]

theorem buildDirEntry_tail {k : Nat} (hk : 32 ≤ k) :
    buildDirEntry name attr first size k = 0 := by
  simp only [buildDirEntry, writeU32, writeU16, direntNameLen]
  rw [blit_out (by omega), blit_out (by omega), blit_out (by omega),
    blit_out (by omega), blit_out (by omega)]

end built

-- ==== short names

theorem sfnCharValid_ne {b : UInt8} (h : sfnCharValid b = true) :
    b ≠ entryUnused ∧ b ≠ entryRemoved ∧ b ≠ dot ∧ b ≠ space := by
  refine ⟨?_, ?_, ?_, ?_⟩ <;> (rintro rfl; revert h; decide)

theorem sfnCharValid_cleanChar (b : UInt8) :
    sfnCharValid (cleanChar b) = true := by
  unfold cleanChar
  split_ifs with h
  · exact h
  · decide

private theorem toSfnLoop_inv {rest base ext : List UInt8} {inExt x : Bool}
    {b e : List UInt8}
    (h : toSfnLoop rest inExt base ext = some (x, b, e))
    (hb : base.length ≤ 8 ∧ ∀ ch ∈ base, sfnCharValid ch = true)
    (he : ext.length ≤ 3 ∧ ∀ ch ∈ ext, sfnCharValid ch = true) :
    (b.length ≤ 8 ∧ ∀ ch ∈ b, sfnCharValid ch = true) ∧
      (e.length ≤ 3 ∧ ∀ ch ∈ e, sfnCharValid ch = true) := by
  induction rest generalizing inExt base ext with
  | nil =>
    cases h
    exact ⟨hb, he⟩
  | cons ch rest ih =>
    simp only [toSfnLoop] at h
    split_ifs at h with hdot hbad hval hext hlen hlen
    · exact ih h hb he
    · refine ih h ⟨by simp; omega, ?_⟩ he
      intro c hc
      rcases List.mem_append.mp hc with hc | hc
      · exact hb.2 c hc
      · rw [List.mem_singleton.mp hc]
        simpa using hval
    · refine ih h hb ⟨by simp; omega, ?_⟩
      intro c hc
      rcases List.mem_append.mp hc with hc | hc
      · exact he.2 c hc
      · rw [List.mem_singleton.mp hc]
        simpa using hval

theorem padSfn_length {base ext : List UInt8} (hb : base.length ≤ 8)
    (he : ext.length ≤ 3) : (padSfn base ext).length = 11 := by
  simp only [padSfn, List.length_append, List.length_replicate]
  omega

/-- A short name: eleven bytes, and the first is a character. -/
structure Sfn.Proper (sfn : Sfn) : Prop where
  length : sfn.length = 11
  head : sfnCharValid (sfn.getD 0 0) = true

theorem padSfn_proper {base ext : List UInt8} (hb : base.length ≤ 8)
    (hne : base ≠ []) (hv : ∀ ch ∈ base, sfnCharValid ch = true)
    (he : ext.length ≤ 3) : Sfn.Proper (padSfn base ext) := by
  refine ⟨padSfn_length hb he, ?_⟩
  cases base with
  | nil => exact absurd rfl hne
  | cons ch base => exact hv ch List.mem_cons_self

theorem componentToSfn_some {component : List UInt8} {sfn : Sfn}
    (h : componentToSfn component = some sfn) :
    ∃ base ext, sfn = padSfn base ext ∧ base ≠ [] ∧ base.length ≤ 8 ∧
      ext.length ≤ 3 ∧ (∀ ch ∈ base, sfnCharValid ch = true) ∧
      ∀ ch ∈ ext, sfnCharValid ch = true := by
  unfold componentToSfn at h
  split_ifs at h with hne
  split at h
  · cases h
  · next inExt base ext hl =>
    obtain ⟨⟨hb, hbv⟩, he, hev⟩ :=
      toSfnLoop_inv hl ⟨by simp, by simp⟩ ⟨by simp, by simp⟩
    split_ifs at h with hb0 he0
    cases h
    refine ⟨base, ext, rfl, ?_, hb, he, hbv, hev⟩
    rintro rfl
    exact hb0 rfl

theorem componentToSfn_proper {component : List UInt8} {sfn : Sfn}
    (h : componentToSfn component = some sfn) : sfn.Proper := by
  obtain ⟨base, ext, rfl, hne, hb, he, hbv, _⟩ := componentToSfn_some h
  exact padSfn_proper hb hne hbv he

theorem componentGenerateSfn_proper {component : List UInt8} {sfn : Sfn}
    (h : componentGenerateSfn component = some sfn) : sfn.Proper := by
  unfold componentGenerateSfn at h
  split_ifs at h
  split at h
  · next sfn' hs =>
    cases h
    exact componentToSfn_proper hs
  · simp only [Option.some.injEq] at h
    rw [← h]
    refine padSfn_proper ?_ ?_ ?_ ?_
    · split_ifs <;> simp
    · split_ifs with hc
      · simp
      · exact hc
    · intro ch hch
      split_ifs at hch with hc
      · rw [List.mem_singleton.mp hch]
        decide
      · obtain ⟨b, _, rfl⟩ := List.mem_map.mp hch
        exact sfnCharValid_cleanChar b
    · split <;> simp

theorem componentGenerateSfn_isSome {component : List UInt8}
    (h : component ≠ []) : ∃ sfn, componentGenerateSfn component = some sfn := by
  unfold componentGenerateSfn
  rw [if_neg h]
  split
  · exact ⟨_, rfl⟩
  · exact ⟨_, rfl⟩

-- ==== what they are to the tree

section kinds

variable {name : Sfn} {attr : UInt8} {first size : Nat}

theorem buildDirEntry_live (hn : name.Proper) :
    (buildDirEntry name attr first size).isFree = false ∧
      (buildDirEntry name attr first size).isDotLike = false := by
  obtain ⟨h1, h2, h3, _⟩ := sfnCharValid_ne hn.head
  have h0 : buildDirEntry name attr first size 0 = name.getD 0 0 :=
    buildDirEntry_head (by omega)
  constructor
  · simp only [Entry.isFree, h0, h1, h2, decide_false, Bool.or_self]
  · simp only [Entry.isDotLike, h0, h3, decide_false, Bool.false_and,
      Bool.or_self]

theorem buildDirEntry_kind_file (hn : name.Proper) (hf : first < 2 ^ 32) :
    (buildDirEntry name attrArchive first size).kind
      = .node false first (size % 2 ^ 32) := by
  obtain ⟨hfree, hdot⟩ := buildDirEntry_live hn
  rw [Entry.kind_of_live _ hdot, buildDirEntry_attr,
    buildDirEntry_firstCluster hf, buildDirEntry_size]
  · rfl
  · simp only [Entry.isVisible, hfree, Entry.isVolumeId, buildDirEntry_attr]
    decide

theorem buildDirEntry_kind_rename {e : Entry} (hv : e.isVisible = true)
    (hd : e.isDotLike = false) (hf : first < 2 ^ 32) :
    (buildDirEntry e.name attrArchive first size).kind
      = .node false first (size % 2 ^ 32) := by
  have hb : ∀ k < 11, buildDirEntry e.name attrArchive first size k = e k := by
    intro k hk
    rw [buildDirEntry_head hk]
    simp [Entry.name, hk]
  have hfree : (buildDirEntry e.name attrArchive first size).isFree
      = false := by
    simp only [Entry.isVisible, Bool.and_eq_true, Bool.not_eq_true'] at hv
    rw [← hv.1.1, Entry.isFree, Entry.isFree, hb 0 (by omega)]
  have hdot : (buildDirEntry e.name attrArchive first size).isDotLike
      = false := by
    rw [← hd, Entry.isDotLike, Entry.isDotLike, hb 0 (by omega),
      hb 1 (by omega), hb 2 (by omega)]
  rw [Entry.kind_of_live _ hdot, buildDirEntry_attr,
    buildDirEntry_firstCluster hf, buildDirEntry_size]
  · rfl
  · simp only [Entry.isVisible, hfree, Entry.isVolumeId, buildDirEntry_attr]
    decide

theorem buildDirEntry_kind_dir (size : Nat) (hn : name.Proper) (hf : first < 2 ^ 32) :
    (buildDirEntry name attrDirectory first size).kind
      = .node true first (size % 2 ^ 32) := by
  obtain ⟨hfree, hdot⟩ := buildDirEntry_live hn
  rw [Entry.kind_of_live _ hdot, buildDirEntry_attr,
    buildDirEntry_firstCluster hf, buildDirEntry_size]
  · rfl
  · simp only [Entry.isVisible, hfree, Entry.isVolumeId, buildDirEntry_attr]
    decide

theorem buildDirEntry_kind_dots
    (hn : name = dotName ∨ name = dotdotName) :
    (buildDirEntry name attrDirectory first size).kind = .dots := by
  have hb : ∀ k < 3, buildDirEntry name attrDirectory first size k
      = name.getD k 0 := fun k hk => buildDirEntry_head (by omega)
  rw [Entry.kind_dots]
  simp only [Entry.isVisible, Entry.isFree, Entry.isVolumeId,
    Entry.isDotLike, buildDirEntry_attr, hb 0 (by omega), hb 1 (by omega),
    hb 2 (by omega)]
  rcases hn with rfl | rfl <;> decide

theorem foldl_writeU16_out {k : Nat} (f : Nat × Nat → Nat)
    (offs : List (Nat × Nat)) (e : Entry)
    (h : ∀ p ∈ offs, p.1 + 2 ≤ k ∨ k < p.1) :
    offs.foldl (fun e p => writeU16 e p.1 (f p)) e k = e k := by
  induction offs generalizing e with
  | nil => rfl
  | cons p offs ih =>
    rw [List.foldl_cons, ih _ fun q hq => h q (List.mem_cons_of_mem _ hq)]
    have hp := h p List.mem_cons_self
    exact blit_out (by omega)

@[simp] theorem buildLfnEntry_attr (component : List UInt8)
    (ordinal checksum : UInt8) :
    (buildLfnEntry component ordinal checksum).attr = attrLfn := by
  have hoff : ∀ p ∈ lfnOffsets.zipIdx, p.1 + 2 ≤ 11 ∨ 11 < p.1 := by decide
  simp only [Entry.attr, buildLfnEntry]
  rw [foldl_writeU16_out _ _ _ hoff, blit_out (by omega),
    blit_out (by omega), blit_out (by omega),
    blit_in (by omega) (by omega)]

theorem buildLfnEntry_kind (component : List UInt8)
    (ordinal checksum : UInt8) :
    (buildLfnEntry component ordinal checksum).kind = .hidden := by
  rw [Entry.kind_hidden]
  simp [Entry.isVisible]

end kinds

end Clks.Disk
