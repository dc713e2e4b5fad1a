/-
The blocks of the heap tile the arena.

`Heap.Tiled` says which segments the headers describe: they follow one
another without gaps, and the links go back and forth between neighbours.
Each part of heap.c does to these segments what the operation of the same
kind does to the segments of an arena.
-/
import Clks.Lib.Arena
import Clks.Memory.Heap

namespace Clks.Memory

open Arena

/-- The bytes of a header. -/
abbrev hdr : Nat := 40

/-- The pointer to a header at an offset, if that is not the end. -/
def link (e : Nat) : Option Nat := if e = heapArenaSize then none else some e

/-- The header of a segment. -/
def headerOf (prev : Option Nat) (a : Nat) (s : Seg) : Block :=
  ⟨.ofNat s.size, s.free, link (a + hdr + s.size), prev, heapMagic⟩

/-- Headers describe these segments, from an offset on. -/
def Linked (blocks : Nat → Block) : Option Nat → Nat → List Seg → Prop
  | _, _, [] => True
  | prev, a, s :: segs =>
    blocks a = headerOf prev a s ∧
      Linked blocks (some a) (a + hdr + s.size) segs

/-- Where the last of the segments begins. -/
def lastStart : Option Nat → Nat → List Seg → Option Nat
  | prev, _, [] => prev
  | _, a, s :: segs => lastStart (some a) (a + hdr + s.size) segs

/-- The blocks of the heap are these segments. -/
structure Heap.Tiled (h : Heap) (segs : List Seg) : Prop where
  ready : h.ready = true
  head : h.head = some 0
  links : Linked h.blocks none 0 segs
  size : extent hdr segs = heapArenaSize

section tiled

variable {h : Heap} {blocks blocks' : Nat → Block} {prev : Option Nat}
  {a b : Nat} {s t : Seg} {segs before after : List Seg} {need : UInt64}

theorem hdr_eq : hdr = 40 := rfl

theorem heapArenaSize_eq : heapArenaSize = 268435456 := rfl

-- ==== links

theorem linked_cons :
    Linked blocks prev a (s :: segs) ↔ blocks a = headerOf prev a s ∧
      Linked blocks (some a) (a + hdr + s.size) segs := Iff.rfl

theorem lastStart_cons :
    lastStart prev a (s :: segs)
      = lastStart (some a) (a + hdr + s.size) segs := rfl

theorem linked_append :
    Linked blocks prev a (before ++ after) ↔
      Linked blocks prev a before ∧
        Linked blocks (lastStart prev a before) (a + extent hdr before) after := by
  induction before generalizing prev a with
  | nil => simp [Linked, lastStart]
  | cons s before ih =>
    have hstart : a + hdr + s.size + extent hdr before
        = a + extent hdr (s :: before) := by
      rw [extent_cons]
      omega
    rw [List.cons_append, linked_cons, linked_cons, lastStart_cons, ih, hstart,
      and_assoc]

theorem Linked.congr (hlinked : Linked blocks prev a segs)
    (hsame : ∀ b, a ≤ b → b < a + extent hdr segs → blocks' b = blocks b) :
    Linked blocks' prev a segs := by
  induction segs generalizing prev a with
  | nil => trivial
  | cons s segs ih =>
    obtain ⟨hheader, hrest⟩ := hlinked
    have hhdr := hdr_eq
    rw [extent_cons] at hsame
    refine ⟨?_, ih hrest ?_⟩
    · rw [hsame a (Nat.le_refl a) (by omega)]
      exact hheader
    · intro b hb hlt
      exact hsame b (by omega) (by omega)

theorem Linked.relink {prev' : Option Nat}
    (hlinked : Linked blocks prev a (s :: segs)) :
    Linked (Function.update blocks a { blocks a with prev := prev' }) prev' a
      (s :: segs) := by
  obtain ⟨hheader, hrest⟩ := hlinked
  have hhdr := hdr_eq
  refine ⟨?_, hrest.congr ?_⟩
  · rw [Function.update_self, hheader]
    rfl
  · intro b hb _
    rw [Function.update_of_ne (by omega)]

theorem lastStart_append :
    lastStart prev a (before ++ [s]) = some (a + extent hdr before) := by
  induction before generalizing prev a with
  | nil => rfl
  | cons t before ih =>
    rw [List.cons_append, lastStart_cons, ih, extent_cons]
    congr 1
    omega

-- ==== blocks

theorem Heap.Tiled.header (htiled : h.Tiled (before ++ s :: after)) :
    h.blocks (extent hdr before)
      = headerOf (lastStart none 0 before) (extent hdr before) s := by
  have hlinks := (linked_append.mp htiled.links).2
  rw [Nat.zero_add] at hlinks
  exact hlinks.1

theorem Heap.Tiled.fits (htiled : h.Tiled (before ++ s :: after)) :
    extent hdr before + hdr + s.size + extent hdr after = heapArenaSize := by
  have hsize := htiled.size
  rw [extent_append, extent_cons] at hsize
  omega

theorem Heap.Tiled.toNat_size (htiled : h.Tiled (before ++ s :: after)) :
    (h.blocks (extent hdr before)).size.toNat = s.size := by
  have hfits := htiled.fits
  have harena := heapArenaSize_eq
  rw [htiled.header]
  show (UInt64.ofNat s.size).toNat = s.size
  rw [UInt64.toNat_ofNat']
  exact Nat.mod_eq_of_lt (by omega)

theorem Heap.Tiled.next (htiled : h.Tiled (before ++ s :: after)) :
    (h.blocks (extent hdr before)).next
      = if after = [] then none else some (extent hdr before + hdr + s.size) := by
  have hfits := htiled.fits
  rw [htiled.header]
  show link _ = _
  unfold link
  cases after with
  | nil =>
    rw [extent_nil, Nat.add_zero] at hfits
    rw [if_pos hfits, if_pos rfl]
  | cons t after =>
    have hhdr := hdr_eq
    rw [extent_cons] at hfits
    rw [if_neg (by omega), if_neg (List.cons_ne_nil t after)]

theorem Heap.Tiled.replace {h' : Heap} {segs' : List Seg}
    (htiled : h.Tiled (before ++ segs)) (hready : h'.ready = h.ready)
    (hhead : h'.head = h.head)
    (hbefore : ∀ b, b < extent hdr before → h'.blocks b = h.blocks b)
    (hlinks : Linked h'.blocks (lastStart none 0 before) (extent hdr before)
      segs')
    (hextent : extent hdr segs' = extent hdr segs) :
    h'.Tiled (before ++ segs') where
  ready := hready.trans htiled.ready
  head := hhead.trans htiled.head
  links := by
    refine linked_append.mpr ⟨?_, ?_⟩
    · refine (linked_append.mp htiled.links).1.congr ?_
      intro b _ hb
      rw [Nat.zero_add] at hb
      exact hbefore b hb
    · rw [Nat.zero_add]
      exact hlinks
  size := by
    have hsize := htiled.size
    rw [extent_append] at hsize ⊢
    rw [hextent]
    exact hsize

theorem Heap.Tiled.behind (htiled : h.Tiled (before ++ s :: after)) :
    Linked h.blocks (some (extent hdr before))
      (extent hdr before + hdr + s.size) after := by
  have hlinks := (linked_append.mp htiled.links).2
  rw [Nat.zero_add] at hlinks
  exact hlinks.2

theorem Heap.Tiled.relink (htiled : h.Tiled (before ++ s :: after))
    (hnext : ∀ e, (h.blocks (extent hdr before)).next = some e →
      blocks' e = { h.blocks e with prev := prev })
    (hother : ∀ c, extent hdr before + hdr + s.size ≤ c →
      (h.blocks (extent hdr before)).next ≠ some c → blocks' c = h.blocks c) :
    Linked blocks' prev (extent hdr before + hdr + s.size) after := by
  have hbehind := htiled.behind
  have hlink := htiled.next
  cases after with
  | nil => trivial
  | cons t after =>
    rw [if_neg (List.cons_ne_nil t after)] at hlink
    have hfirst : Linked (Function.update h.blocks
        (extent hdr before + hdr + s.size)
        { h.blocks (extent hdr before + hdr + s.size) with prev := prev })
        prev (extent hdr before + hdr + s.size) (t :: after) := hbehind.relink
    refine hfirst.congr ?_
    intro c hc _
    by_cases hfirst : c = extent hdr before + hdr + s.size
    · subst hfirst
      rw [Function.update_self]
      exact hnext _ hlink
    · rw [Function.update_of_ne hfirst]
      refine hother c hc ?_
      rw [hlink]
      exact fun heq => hfirst (Option.some.inj heq).symm

theorem Heap.Tiled.mark (htiled : h.Tiled (before ++ s :: after))
    (free : Bool) :
    (h.modify (extent hdr before) fun block => { block with isFree := free }
      ).Tiled (before ++ { s with free } :: after) := by
  refine htiled.replace rfl rfl ?_ ⟨?_, ?_⟩ rfl
  · intro b hb
    exact Function.update_of_ne (by omega) ..
  · unfold Heap.modify
    simp only []
    rw [Function.update_self, htiled.header]
    rfl
  · have hhdr := hdr_eq
    refine htiled.behind.congr ?_
    intro b hb _
    exact Function.update_of_ne (by omega) ..

theorem Heap.Tiled.used (htiled : h.Tiled segs) (usedBytes : UInt64) :
    Heap.Tiled { h with usedBytes } segs :=
  ⟨htiled.ready, htiled.head, htiled.links, htiled.size⟩

-- ==== splitting

/-- The segments that one is split into. -/
def split (need : Nat) (s : Seg) : List Seg :=
  if s.size < need + (hdr + 16) then [s]
  else [⟨need, s.free⟩, ⟨s.size - need - hdr, true⟩]

theorem place_eq_split :
    ∃ n rest, split need.toNat s = ⟨n, s.free⟩ :: rest ∧
      place hdr 16 need.toNat s = ⟨n, false⟩ :: rest := by
  unfold split place
  split
  · exact ⟨s.size, [], rfl, rfl⟩
  · exact ⟨need.toNat, _, rfl, rfl⟩

theorem splitBlock_blocks {n : Nat} (hn : n = b + headerSize.toNat + need.toNat)
    (hself : b ≠ n) (hnext : (h.blocks b).next ≠ some b)
    (hnew : (h.blocks b).next ≠ some n)
    (hbig : ¬ (h.blocks b).size < need + (headerSize + heapAlign)) :
    (h.splitBlock b need).blocks b
        = { h.blocks b with next := some n, size := need } ∧
      (h.splitBlock b need).blocks n
        = { size := (h.blocks b).size - need - headerSize, isFree := true
            next := (h.blocks b).next, prev := some b, magic := heapMagic } ∧
      (∀ e, (h.blocks b).next = some e →
        (h.splitBlock b need).blocks e
          = { h.blocks e with prev := some n }) ∧
      ∀ c, c ≠ b → c ≠ n → (h.blocks b).next ≠ some c →
        (h.splitBlock b need).blocks c = h.blocks c := by
  unfold Heap.splitBlock
  simp only []
  rw [if_neg hbig, ← hn]
  cases hlink : (h.blocks b).next with
  | none =>
    unfold Heap.modify
    simp only []
    refine ⟨?_, ?_, nofun, ?_⟩
    · rw [Function.update_self, Function.update_of_ne hself]
    · rw [Function.update_of_ne hself.symm, Function.update_self]
    · intro c hcb hcn _
      rw [Function.update_of_ne hcb, Function.update_of_ne hcn]
  | some e =>
    rw [hlink] at hnext hnew
    have heb : e ≠ b := fun heq => hnext (congrArg some heq)
    have hen : e ≠ n := fun heq => hnew (congrArg some heq)
    unfold Heap.modify
    simp only []
    refine ⟨?_, ?_, ?_, ?_⟩
    · rw [Function.update_self, Function.update_of_ne heb.symm,
        Function.update_of_ne hself]
    · rw [Function.update_of_ne hself.symm, Function.update_of_ne hen.symm,
        Function.update_self]
    · intro e' he'
      obtain rfl := Option.some.inj he'
      rw [Function.update_of_ne heb, Function.update_self,
        Function.update_of_ne hen]
    · intro c hcb hcn hce
      have hce : c ≠ e := fun heq => hce (congrArg some heq.symm)
      rw [Function.update_of_ne hcb, Function.update_of_ne hce,
        Function.update_of_ne hcn]

theorem splitBlock_rest :
    (h.splitBlock b need).ready = h.ready ∧
      (h.splitBlock b need).head = h.head ∧
      (h.splitBlock b need).usedBytes = h.usedBytes := by
  unfold Heap.splitBlock
  simp only []
  split
  · exact ⟨rfl, rfl, rfl⟩
  · split
    · exact ⟨rfl, rfl, rfl⟩
    · exact ⟨rfl, rfl, rfl⟩

theorem splitBlock_tiled (htiled : h.Tiled (before ++ s :: after))
    (hneed : need.toNat ≤ s.size) :
    (h.splitBlock (extent hdr before) need).Tiled
      (before ++ (split need.toNat s ++ after)) := by
  have hhdr := hdr_eq
  have harena := heapArenaSize_eq
  have hfits := htiled.fits
  have hsize := htiled.toNat_size
  have hlink := htiled.next
  have hheader := htiled.header
  have hsmall : ((h.blocks (extent hdr before)).size
      < need + (headerSize + heapAlign)) ↔ s.size < need.toNat + (hdr + 16) := by
    rw [UInt64.lt_iff_toNat_lt, hsize, UInt64.toNat_add]
    show _ < (need.toNat + 56) % 2 ^ 64 ↔ _
    rw [Nat.mod_eq_of_lt (by omega)]
  by_cases hcut : s.size < need.toNat + (hdr + 16)
  · unfold Heap.splitBlock split
    simp only []
    rw [if_pos (hsmall.mpr hcut), if_pos hcut]
    exact htiled
  -- the new header lies between that of the segment and the one behind
  obtain ⟨hself, hnew, hnext, hother⟩ :=
    @splitBlock_blocks h (extent hdr before) need
      (extent hdr before + hdr + need.toNat) rfl (by omega)
      (by
        rw [hlink]
        split
        · nofun
        · exact fun heq => by
            have hback := Option.some.inj heq
            omega)
      (by
        rw [hlink]
        split
        · nofun
        · exact fun heq => by
            have hback := Option.some.inj heq
            omega)
      (fun hlt => hcut (hsmall.mp hlt))
  obtain ⟨hready, hhead, -⟩ := @splitBlock_rest h (extent hdr before) need
  have hsplit : split need.toNat s
      = [⟨need.toNat, s.free⟩, ⟨s.size - need.toNat - hdr, true⟩] := if_neg hcut
  rw [hsplit]
  refine htiled.replace hready hhead ?_ ⟨?_, ?_, ?_⟩ ?_
  · intro c hc
    refine hother c (by omega) (by omega) ?_
    rw [hlink]
    split
    · nofun
    · intro heq
      have hback := Option.some.inj heq
      omega
  · rw [hself, hheader]
    have hnlink : link (extent hdr before + hdr + need.toNat)
        = some (extent hdr before + hdr + need.toNat) := if_neg (by omega)
    unfold headerOf
    simp only [hnlink, UInt64.ofNat_toNat]
  · rw [hnew]
    have hend : extent hdr before + hdr + need.toNat + hdr
          + (s.size - need.toNat - hdr) = extent hdr before + hdr + s.size := by
      omega
    have hnextlink : (h.blocks (extent hdr before)).next
        = link (extent hdr before + hdr + s.size) := by
      rw [hheader]
      rfl
    have hle : need ≤ (h.blocks (extent hdr before)).size := by
      rw [UInt64.le_iff_toNat_le, hsize]
      exact hneed
    have hle' : headerSize ≤ (h.blocks (extent hdr before)).size - need := by
      rw [UInt64.le_iff_toNat_le, UInt64.toNat_sub_of_le _ _ hle, hsize]
      show 40 ≤ _
      omega
    have hrest : (h.blocks (extent hdr before)).size - need - headerSize
        = .ofNat (s.size - need.toNat - hdr) := by
      apply UInt64.toNat_inj.mp
      rw [UInt64.toNat_sub_of_le _ _ hle', UInt64.toNat_sub_of_le _ _ hle,
        hsize, UInt64.toNat_ofNat', Nat.mod_eq_of_lt (by omega)]
      rfl
    unfold headerOf
    simp only [hend, hnextlink, hrest]
  · have hend : extent hdr before + hdr + need.toNat + hdr
          + (s.size - need.toNat - hdr) = extent hdr before + hdr + s.size := by
      omega
    show Linked _ _ (extent hdr before + hdr + need.toNat + hdr
      + (s.size - need.toNat - hdr)) after
    rw [hend]
    refine htiled.relink hnext ?_
    intro c hc hne
    exact hother c (by omega) (by omega) hne
  · simp only [List.cons_append, List.nil_append, extent_cons]
    omega

-- ==== merging

theorem mergeNext_blocks {e : Nat} (hlink : (h.blocks b).next = some e)
    (hfree : (h.blocks e).isFree = true) (hmagic : (h.blocks e).magic = heapMagic)
    (hself : (h.blocks e).next ≠ some b) :
    (h.mergeNext b).blocks b
        = { h.blocks b with
            size := (h.blocks b).size + (headerSize + (h.blocks e).size)
            next := (h.blocks e).next } ∧
      (∀ m, (h.blocks e).next = some m →
        (h.mergeNext b).blocks m = { h.blocks m with prev := some b }) ∧
      ∀ c, c ≠ b → (h.blocks e).next ≠ some c →
        (h.mergeNext b).blocks c = h.blocks c := by
  unfold Heap.mergeNext
  rw [hlink]
  simp only []
  rw [if_neg (by simp [hfree, hmagic])]
  cases hnext : (h.blocks e).next with
  | none =>
    unfold Heap.modify
    simp only []
    refine ⟨?_, nofun, ?_⟩
    · rw [Function.update_self]
    · intro c hc _
      rw [Function.update_of_ne hc]
  | some m =>
    rw [hnext] at hself
    have hmb : m ≠ b := fun heq => hself (congrArg some heq)
    unfold Heap.modify
    simp only []
    refine ⟨?_, ?_, ?_⟩
    · rw [Function.update_of_ne hmb.symm, Function.update_self]
    · intro m' hm'
      obtain rfl := Option.some.inj hm'
      rw [Function.update_self, Function.update_of_ne hmb]
    · intro c hcb hcm
      have hcm : c ≠ m := fun heq => hcm (congrArg some heq.symm)
      rw [Function.update_of_ne hcm, Function.update_of_ne hcb]

theorem mergeNext_rest :
    (h.mergeNext b).ready = h.ready ∧ (h.mergeNext b).head = h.head ∧
      (h.mergeNext b).usedBytes = h.usedBytes := by
  unfold Heap.mergeNext
  split
  · exact ⟨rfl, rfl, rfl⟩
  · simp only []
    split
    · exact ⟨rfl, rfl, rfl⟩
    · split
      · exact ⟨rfl, rfl, rfl⟩
      · exact ⟨rfl, rfl, rfl⟩

theorem mergeNext_tiled (htiled : h.Tiled (before ++ s :: after)) :
    (h.mergeNext (extent hdr before)).Tiled
      (before ++ absorb hdr s after) := by
  have hhdr := hdr_eq
  have hlink := htiled.next
  cases after with
  | nil =>
    rw [if_pos rfl] at hlink
    unfold Heap.mergeNext
    rw [hlink]
    exact htiled
  | cons t after =>
    rw [if_neg (List.cons_ne_nil t after)] at hlink
    -- the header of the neighbour
    have hsecond : h.Tiled ((before ++ [s]) ++ t :: after) := by
      rw [List.append_assoc]
      exact htiled
    have hstart : extent hdr (before ++ [s])
        = extent hdr before + hdr + s.size := by
      rw [extent_append, extent_cons, extent_nil]
      omega
    have htheader := hsecond.header
    have htnext := hsecond.next
    have hfits := hsecond.fits
    have hrelink := fun blocks' hnext hother =>
      @Heap.Tiled.relink h blocks' (some (extent hdr before)) t (before ++ [s])
        after hsecond hnext hother
    rw [hstart] at htheader htnext hfits hrelink
    have hmagic : (h.blocks (extent hdr before + hdr + s.size)).magic
        = heapMagic := by
      rw [htheader]
      rfl
    have hisFree : (h.blocks (extent hdr before + hdr + s.size)).isFree
        = t.free := by
      rw [htheader]
      rfl
    rw [absorb_cons]
    split
    swap
    · next hused =>
      unfold Heap.mergeNext
      rw [hlink]
      simp only []
      rw [if_pos (by simp [hisFree, hused])]
      exact htiled
    next hfree =>
    obtain ⟨hself, hnext, hother⟩ := mergeNext_blocks hlink
      (hisFree.trans hfree) hmagic (by
        rw [htnext]
        split
        · nofun
        · exact fun heq => by
            have hback := Option.some.inj heq
            omega)
    obtain ⟨hready, hhead, -⟩ := @mergeNext_rest h (extent hdr before)
    have hend : extent hdr before + hdr + (s.size + hdr + t.size)
        = extent hdr before + hdr + s.size + hdr + t.size := by omega
    refine htiled.replace hready hhead ?_ ⟨?_, ?_⟩ ?_
    · intro c hc
      refine hother c (by omega) ?_
      rw [htnext]
      split
      · nofun
      · intro heq
        have hback := Option.some.inj heq
        omega
    · rw [hself, htiled.header, htheader]
      have hsize : UInt64.ofNat s.size + (headerSize + UInt64.ofNat t.size)
          = UInt64.ofNat (s.size + hdr + t.size) := by
        rw [UInt64.ofNat_add, UInt64.ofNat_add, UInt64.add_assoc]
        rfl
      unfold headerOf
      simp only [hend, hsize]
    · rw [hend]
      refine hrelink _ hnext ?_
      intro c hc hne
      exact hother c (by omega) hne
    · simp only [extent_cons]
      omega

-- ==== search

theorem findBlock_spec {fuel : Nat} (hlinked : Linked h.blocks prev a segs)
    (hfits : a + extent hdr segs = heapArenaSize) (hfuel : segs.length ≤ fuel) :
    (h.findBlock need fuel (link a) = none ∧
        ∀ s ∈ segs, s.free = true → s.size < need.toNat) ∨
      ∃ before s after, segs = before ++ s :: after ∧ s.free = true ∧
        need.toNat ≤ s.size ∧
        h.findBlock need fuel (link a) = some (a + extent hdr before) := by
  have hhdr := hdr_eq
  have harena := heapArenaSize_eq
  induction segs generalizing prev a fuel with
  | nil =>
    left
    rw [extent_nil, Nat.add_zero] at hfits
    have hend : link a = none := if_pos hfits
    rw [hend]
    refine ⟨?_, nofun⟩
    cases fuel <;> rfl
  | cons s segs ih =>
    obtain ⟨hheader, hrest⟩ := hlinked
    rw [extent_cons] at hfits
    cases fuel with
    | zero => cases hfuel
    | succ fuel =>
      rw [List.length_cons] at hfuel
      have hlink : link a = some a := if_neg (by omega)
      have hsize : (UInt64.ofNat s.size).toNat = s.size := by
        rw [UInt64.toNat_ofNat']
        exact Nat.mod_eq_of_lt (by omega)
      have hstep : h.findBlock need (fuel + 1) (some a)
          = if s.free && need ≤ UInt64.ofNat s.size then some a
            else h.findBlock need fuel (link (a + hdr + s.size)) := by
        show (if (h.blocks a).magic ≠ heapMagic then none else _) = _
        rw [hheader]
        rfl
      rw [hlink, hstep]
      by_cases hfound : s.free = true ∧ need.toNat ≤ s.size
      · right
        have hle : need ≤ UInt64.ofNat s.size := by
          rw [UInt64.le_iff_toNat_le, hsize]
          exact hfound.2
        rw [if_pos (by simp [hfound.1, hle])]
        exact ⟨[], s, segs, rfl, hfound.1, hfound.2, rfl⟩
      · have hnot : ¬ (s.free && need ≤ UInt64.ofNat s.size) = true := by
          rw [Bool.and_eq_true, decide_eq_true_eq, UInt64.le_iff_toNat_le, hsize]
          exact hfound
        rw [if_neg hnot]
        rcases ih hrest (by omega) (Nat.le_of_succ_le_succ hfuel) with
          ⟨hnone, hsmall⟩ | ⟨before, t, after, rfl, hfree, hbig, hsome⟩
        · left
          refine ⟨hnone, ?_⟩
          intro t ht hfree
          rcases List.mem_cons.mp ht with rfl | ht
          · exact Nat.lt_of_not_le fun hle => hfound ⟨hfree, hle⟩
          · exact hsmall t ht hfree
        · right
          refine ⟨s :: before, t, after, rfl, hfree, hbig, ?_⟩
          rw [hsome, extent_cons]
          congr 1
          omega

end tiled

end Clks.Memory
