/-
What the heap gives out and gets back, over every run of calls.

The live pointers are the payloads in use of the segments, so that they do
not overlap, and when all of them have come back there is one free segment
again. A request is rounded up in arithmetic that wraps, so that one just
below 2^64 gets a block of almost nothing.
-/
import Clks.Lib.Masks
import Clks.Memory.Tiled

namespace Clks.Memory

open Arena

/-- The bytes from a pointer to the end of its block. -/
def Heap.payload (h : Heap) (ptr : Nat) : Set Nat :=
  { x | ptr ≤ x ∧ x < ptr + (h.blocks (ptr - hdr)).size.toNat }

/-- The blocks tile the arena as these segments, and the counter and the
live pointers agree with them. -/
structure Session.Orderly (s : Session) (segs : List Seg) : Prop where
  tiled : s.heap.Tiled segs
  coalesced : Coalesced segs
  usedBytes : s.heap.usedBytes.toNat = used segs
  live : s.live.Perm ((payloads hdr 0 segs).map Prod.fst)

/-- A size, rounded up to the alignment. -/
def roundUp (n : Nat) : Nat := (n + 15) / 16 * 16

section allocating

variable {h : Heap} {s s' : Session} {seg : Seg} {segs before after : List Seg}
  {size : UInt64} {ptr : Nat}

-- ==== rounding

theorem alignUp_toNat (size : UInt64) :
    (alignUp size).toNat = (size.toNat + 15) % 2 ^ 64 / 16 * 16 := by
  unfold alignUp
  rw [Masks.and_not_toNat _ _ (by decide : 4 ≤ 64) (by decide),
    UInt64.toNat_add]
  rfl

theorem alignUp_of_le (hsize : size.toNat ≤ 2 ^ 64 - 16) :
    (alignUp size).toNat = roundUp size.toNat := by
  rw [alignUp_toNat, Nat.mod_eq_of_lt (by omega)]
  rfl

theorem alignUp_of_gt (hsize : 2 ^ 64 - 16 < size.toNat) :
    (alignUp size).toNat = 0 := by
  have hlt := size.toNat_lt
  rw [alignUp_toNat]
  omega

theorem le_roundUp (n : Nat) : n ≤ roundUp n := by
  unfold roundUp
  omega

-- ==== the calls

theorem kmalloc_spec (htiled : h.Tiled segs) (hsize : size ≠ 0) :
    (h.kmalloc size = (none, h) ∧
        ∀ s ∈ segs, s.free = true → s.size < (alignUp size).toNat) ∨
      ∃ before s after, segs = before ++ s :: after ∧ s.free = true ∧
        (alignUp size).toNat ≤ s.size ∧
        (h.kmalloc size).1 = some (extent hdr before + hdr) ∧
        (h.kmalloc size).2.Tiled
          (before ++ (place hdr 16 (alignUp size).toNat s ++ after)) ∧
        (h.kmalloc size).2.usedBytes = h.usedBytes
          + ((h.kmalloc size).2.blocks (extent hdr before)).size := by
  have hlength : segs.length ≤ heapArenaSize := by
    rw [← htiled.size]
    exact length_le_extent (by decide)
  have hfind := @findBlock_spec h none 0 segs (alignUp size) _ htiled.links
    (by rw [Nat.zero_add]; exact htiled.size) hlength
  have hzero : link 0 = some 0 := rfl
  rw [hzero, ← htiled.head] at hfind
  unfold Heap.kmalloc
  rw [if_neg (by simp [htiled.ready, hsize])]
  dsimp only
  rcases hfind with ⟨hnone, hsmall⟩ |
    ⟨before, s, after, rfl, hfree, hbig, hsome⟩
  · left
    rw [hnone]
    exact ⟨rfl, hsmall⟩
  · right
    rw [Nat.zero_add] at hsome
    rw [hsome]
    refine ⟨before, s, after, rfl, hfree, hbig, rfl, ?_, ?_⟩
    · have hsplit := splitBlock_tiled htiled hbig
      obtain ⟨n, rest, hsegs, hplace⟩ := @place_eq_split s (alignUp size)
      rw [hsegs, List.cons_append] at hsplit
      rw [hplace, List.cons_append]
      exact (hsplit.mark false).used _
    · show (h.splitBlock _ _).usedBytes + _ = _
      rw [splitBlock_rest.2.2]

theorem release_append {t : Seg} :
    absorbLast hdr (before ++ [t]) segs
      = before ++ if t.free then absorb hdr t segs else t :: segs := by
  induction before with
  | nil => rfl
  | cons s before ih =>
    cases before with
    | nil => rfl
    | cons u before =>
      show s :: absorbLast hdr (u :: before ++ [t]) segs = _
      rw [ih]
      rfl

theorem mergePrev_tiled {n : Nat} {rest : List Seg}
    (htiled : h.Tiled (before ++ ⟨n, true⟩ :: rest)) :
    (match (h.blocks (extent hdr before)).prev with
      | none => h
      | some p => if (h.blocks p).isFree then h.mergeNext p else h).Tiled
        (absorbLast hdr before (⟨n, true⟩ :: rest)) := by
  have hprev : (h.blocks (extent hdr before)).prev
      = lastStart none 0 before := by
    rw [htiled.header]
    rfl
  rw [hprev]
  rcases List.eq_nil_or_concat before with rfl | ⟨first, t, rfl⟩
  · exact htiled
  · rw [List.concat_eq_append] at htiled ⊢
    rw [List.append_assoc] at htiled
    have hfree : (h.blocks (extent hdr first)).isFree = t.free := by
      rw [htiled.header]
      rfl
    rw [lastStart_append, release_append, Nat.zero_add]
    simp only []
    rw [hfree]
    split
    · exact mergeNext_tiled htiled
    · exact htiled

theorem kfree_spec (htiled : h.Tiled (before ++ seg :: after))
    (hused : seg.free = false) :
    (h.kfree (some (extent hdr before + hdr))).Tiled
        (release hdr before seg after) ∧
      (h.kfree (some (extent hdr before + hdr))).usedBytes
        = if UInt64.ofNat seg.size ≤ h.usedBytes then
            h.usedBytes - UInt64.ofNat seg.size
          else 0 := by
  have hback : extent hdr before + hdr - headerSize.toNat
      = extent hdr before := Nat.add_sub_cancel ..
  have hsize : (h.blocks (extent hdr before)).size = .ofNat seg.size := by
    rw [htiled.header]
    rfl
  have hlive : ¬ (!h.ready || (h.blocks (extent hdr before)).magic ≠ heapMagic ||
      (h.blocks (extent hdr before)).isFree) = true := by
    rw [htiled.header, htiled.ready]
    simp [headerOf, hused]
  have hmarked := (htiled.mark true).used
    (if UInt64.ofNat seg.size ≤ h.usedBytes then
      h.usedBytes - UInt64.ofNat seg.size else 0)
  have hkfree : ∃ h1 : Heap, h1.Tiled (before ++ ⟨seg.size, true⟩ :: after) ∧
      h1.usedBytes = (if UInt64.ofNat seg.size ≤ h.usedBytes then
        h.usedBytes - UInt64.ofNat seg.size else 0) ∧
      h.kfree (some (extent hdr before + hdr))
        = match ((h1.mergeNext (extent hdr before)).blocks
              (extent hdr before)).prev with
          | none => h1.mergeNext (extent hdr before)
          | some p =>
            if ((h1.mergeNext (extent hdr before)).blocks p).isFree then
              (h1.mergeNext (extent hdr before)).mergeNext p
            else h1.mergeNext (extent hdr before) := by
    refine ⟨_, hmarked, rfl, ?_⟩
    unfold Heap.kfree
    simp only []
    rw [hback, if_neg hlive, hsize]
    rfl
  obtain ⟨h1, hmarked, hused1, hkfree⟩ := hkfree
  have hmerged := mergeNext_tiled hmarked
  obtain ⟨n, rest, hfirst⟩ := @absorb_eq hdr ⟨seg.size, true⟩ after
  rw [hkfree]
  constructor
  · unfold release
    rw [hfirst] at hmerged ⊢
    exact mergePrev_tiled hmerged
  · have hbytes : (h1.mergeNext (extent hdr before)).usedBytes = h1.usedBytes :=
      mergeNext_rest.2.2
    rw [← hused1, ← hbytes]
    split
    · rfl
    · split
      · exact mergeNext_rest.2.2
      · rfl

-- ==== runs

theorem orderly_init :
    Session.Orderly ⟨Heap.init, []⟩ [⟨heapArenaSize - hdr, true⟩] where
  tiled := ⟨rfl, rfl, ⟨rfl, trivial⟩, rfl⟩
  coalesced := List.isChain_singleton _
  usedBytes := rfl
  live := List.Perm.refl _

theorem used_lt (htiled : h.Tiled segs) : used segs < 2 ^ 64 := by
  have hle : used segs ≤ heapArenaSize := by
    rw [← htiled.size]
    exact used_le_extent
  have harena := heapArenaSize_eq
  omega

theorem Session.Orderly.malloc (hs : s.Orderly segs)
    (hstep : s.step (.malloc size) = some s') : ∃ segs', s'.Orderly segs' := by
  simp only [Session.step] at hstep
  by_cases hzero : size = 0
  · have hnone : s.heap.kmalloc size = (none, s.heap) := by
      unfold Heap.kmalloc
      exact if_pos (by simp [hzero])
    rw [hnone] at hstep
    obtain rfl := Option.some.inj hstep
    exact ⟨segs, hs⟩
  rcases kmalloc_spec hs.tiled hzero with ⟨hnone, -⟩ |
    ⟨before, t, after, rfl, hfree, hbig, hsome, htiled, hbytes⟩
  · rw [hnone] at hstep
    obtain rfl := Option.some.inj hstep
    exact ⟨segs, hs⟩
  generalize s.heap.kmalloc size = r at hstep hsome htiled hbytes
  obtain ⟨got, heap⟩ := r
  obtain rfl : got = _ := hsome
  obtain rfl := Option.some.inj hstep
  have hlive := hs.live
  obtain ⟨n, rest, hplace, -, hrest⟩ := @place_eq hdr 16 (alignUp size).toNat t
  obtain ⟨got, -, hpayloads⟩ := @payloads_place hdr 16 (alignUp size).toNat
    (0 + extent hdr before) t after hbig
  refine ⟨before ++ (place hdr 16 (alignUp size).toNat t ++ after), htiled,
    Coalesced.place hfree hs.coalesced, ?_, ?_⟩
  · have hlt := used_lt htiled
    have hused : used (place hdr 16 (alignUp size).toNat t) = n := by
      rw [hplace]
      rcases hrest with rfl | ⟨m, rfl⟩
      · rfl
      · rfl
    have hold := hs.usedBytes
    rw [used_append, used_append, hused] at hlt ⊢
    rw [used_append, used_cons, if_pos hfree] at hold
    rw [hplace, List.cons_append] at htiled
    have hgot : (heap.blocks (extent hdr before)).size.toNat = n :=
      htiled.toNat_size
    show heap.usedBytes.toNat = _
    rw [hbytes, UInt64.toNat_add, hgot, hold]
    omega
  · rw [payloads_append, payloads_cons, if_pos hfree, List.map_append] at hlive
    rw [payloads_append, hpayloads, List.map_append, List.map_cons]
    rw [Nat.zero_add] at hlive ⊢
    exact (hlive.cons _).trans List.perm_middle.symm

theorem Session.Orderly.free (hs : s.Orderly segs)
    (hstep : s.step (.free ptr) = some s') : ∃ segs', s'.Orderly segs' := by
  simp only [Session.step] at hstep
  split at hstep
  swap
  · cases hstep
  next hlive =>
  obtain rfl := Option.some.inj hstep
  obtain ⟨⟨ptr, n⟩, hmem, rfl⟩ := List.mem_map.mp (hs.live.mem_iff.mp hlive)
  obtain ⟨before, seg, after, rfl, hused, rfl, rfl⟩ := mem_payloads hmem
  rw [Nat.zero_add] at hlive ⊢
  obtain ⟨htiled, hbytes⟩ := kfree_spec hs.tiled hused
  refine ⟨release hdr before seg after, htiled, hs.coalesced.release, ?_, ?_⟩
  · have hlt := used_lt hs.tiled
    have hold := hs.usedBytes
    rw [used_append, used_cons, if_neg (by rw [hused]; nofun)] at hold hlt
    have hsize : (UInt64.ofNat seg.size).toNat = seg.size := by
      rw [UInt64.toNat_ofNat']
      exact Nat.mod_eq_of_lt (by omega)
    have hle : UInt64.ofNat seg.size ≤ s.heap.usedBytes := by
      rw [UInt64.le_iff_toNat_le, hsize, hold]
      omega
    show (s.heap.kfree _).usedBytes.toNat = _
    rw [hbytes, if_pos hle, UInt64.toNat_sub_of_le _ _ hle, hsize, hold,
      used_release]
    omega
  · have hperm := hs.live
    rw [payloads_append, payloads_cons, if_neg (by rw [hused]; nofun),
      List.map_append, List.map_cons, Nat.zero_add] at hperm
    have herase := (hperm.trans List.perm_middle).erase (extent hdr before + hdr)
    rw [List.erase_cons_head] at herase
    rw [payloads_release, List.map_append, Nat.zero_add]
    exact herase

theorem Session.Reached.orderly (hs : s.Reached) : ∃ segs, s.Orderly segs := by
  induction hs with
  | init => exact ⟨_, orderly_init⟩
  | @step s s' call _ hstep ih =>
    obtain ⟨segs, hs⟩ := ih
    cases call with
    | malloc size => exact hs.malloc hstep
    | free ptr => exact hs.free hstep

-- ==== payloads

theorem payload_eq (htiled : h.Tiled segs) {p : Nat × Nat}
    (hp : p ∈ payloads hdr 0 segs) :
    h.payload p.1 = { x | p.1 ≤ x ∧ x < p.1 + p.2 } := by
  obtain ⟨before, seg, after, rfl, -, hstart, hsize⟩ :=
    mem_payloads (p := p.1) (n := p.2) hp
  rw [Nat.zero_add] at hstart
  have hback : p.1 - hdr = extent hdr before := by
    rw [hstart]
    exact Nat.add_sub_cancel ..
  unfold Heap.payload
  rw [hback, htiled.toNat_size, hsize]

theorem Session.Orderly.apart (hs : s.Orderly segs) :
    s.live.Nodup ∧
      s.live.Pairwise fun p q =>
        Disjoint (s.heap.payload p) (s.heap.payload q) := by
  have hhdr := hdr_eq
  have hapart := @payloads_apart hdr 0 segs
  have hnodup : ((payloads hdr 0 segs).map Prod.fst).Nodup := by
    refine List.pairwise_map.mpr (hapart.imp ?_)
    intro p q hpq
    omega
  have hdisjoint : ((payloads hdr 0 segs).map Prod.fst).Pairwise fun p q =>
      Disjoint (s.heap.payload p) (s.heap.payload q) := by
    refine List.pairwise_map.mpr (hapart.imp_of_mem ?_)
    intro p q hp hq hpq
    rw [payload_eq hs.tiled hp, payload_eq hs.tiled hq]
    refine Set.disjoint_left.mpr ?_
    rintro x ⟨-, hlt⟩ ⟨hle, -⟩
    omega
  refine ⟨hs.live.nodup_iff.mpr hnodup, ?_⟩
  exact (hs.live.pairwise_iff fun hpq => hpq.symm).mpr hdisjoint

theorem Session.Reached.freeAll {order : List Nat} (hs : s.Reached)
    (horder : order.Perm s.live) :
    Session.Reached
      ⟨order.foldl (fun h ptr => h.kfree (some ptr)) s.heap, []⟩ := by
  induction order generalizing s with
  | nil =>
    obtain ⟨heap, live⟩ := s
    obtain rfl : live = [] := horder.symm.eq_nil
    exact hs
  | cons ptr order ih =>
    have hlive : ptr ∈ s.live := horder.mem_iff.mp List.mem_cons_self
    have hstep : s.step (.free ptr)
        = some ⟨s.heap.kfree (some ptr), s.live.erase ptr⟩ := if_pos hlive
    refine ih (hs.step hstep) ?_
    exact (List.cons_perm_iff_perm_erase.mp horder).2

theorem Session.Orderly.single (hs : s.Orderly segs) (hlive : s.live = []) :
    s.heap.Tiled [⟨heapArenaSize - hdr, true⟩] ∧ s.heap.usedBytes = 0 := by
  have hnone : payloads hdr 0 segs = [] := by
    have hperm := hs.live
    rw [hlive] at hperm
    exact List.map_eq_nil_iff.mp hperm.symm.eq_nil
  have hne : segs ≠ [] := by
    rintro rfl
    have hsize := hs.tiled.size
    cases hsize
  obtain ⟨n, rfl⟩ := single_of_free hs.coalesced hne hnone
  have hsize : hdr + n + 0 = heapArenaSize := hs.tiled.size
  have hsum : n + hdr = heapArenaSize := by omega
  have hn : n = heapArenaSize - hdr := by
    rw [← hsum]
    exact (Nat.add_sub_cancel ..).symm
  subst hn
  refine ⟨hs.tiled, ?_⟩
  apply UInt64.toNat_inj.mp
  rw [hs.usedBytes]
  rfl

-- ==== guarantees

/-- The heap after any calls. A request of at least one byte, and at most
the arena, fails only if no free block is big enough. -/
theorem heap_of_reached (hs : s.Reached) :
    ∃ segs, s.Orderly segs ∧
      s.live.Pairwise (fun p q =>
        Disjoint (s.heap.payload p) (s.heap.payload q)) ∧
      (∀ order : List Nat, order.Perm s.live →
        (order.foldl (fun h ptr => h.kfree (some ptr)) s.heap).Tiled
            [⟨heapArenaSize - hdr, true⟩] ∧
          (order.foldl (fun h ptr => h.kfree (some ptr)) s.heap).usedBytes
            = 0) ∧
      ∀ size : UInt64, 0 < size.toNat → size.toNat ≤ heapArenaSize →
        (s.heap.kmalloc size).1 = none →
        ∀ seg ∈ segs, seg.free = true → seg.size < roundUp size.toNat := by
  obtain ⟨segs, horderly⟩ := hs.orderly
  refine ⟨segs, horderly, horderly.apart.2, ?_, ?_⟩
  · intro order horder
    obtain ⟨segs', hfreed⟩ := (hs.freeAll horder).orderly
    exact hfreed.single rfl
  · intro size hpos hle hnone seg hseg hfree
    have harena := heapArenaSize_eq
    have hzero : size ≠ 0 := by
      rintro rfl
      cases hpos
    rcases kmalloc_spec horderly.tiled hzero with ⟨-, hsmall⟩ |
      ⟨before, t, after, -, -, -, hsome, -⟩
    · rw [← alignUp_of_le (by omega)]
      exact hsmall seg hseg hfree
    · rw [hnone] at hsome
      cases hsome

/-- There is no free block. -/
def Heap.Full (h : Heap) : Prop :=
  ∀ segs, h.Tiled segs → ∀ seg ∈ segs, seg.free = false

/-- A pointer is to at least so many bytes in the arena, of which no live
pointer has any. -/
structure Session.Gives (s : Session) (n : Nat) (h' : Heap) (ptr : Nat) :
    Prop where
  enough : n ≤ (h'.blocks (ptr - hdr)).size.toNat
  inside : hdr ≤ ptr ∧ ptr + (h'.blocks (ptr - hdr)).size.toNat ≤ heapArenaSize
  apart : ∀ q ∈ s.live, Disjoint (h'.payload ptr) (h'.payload q)

theorem Session.Orderly.gives (hs : s.Orderly segs) (hzero : size ≠ 0)
    (hle : size.toNat ≤ 2 ^ 64 - 16)
    (hptr : (s.heap.kmalloc size).1 = some ptr) :
    s.Gives size.toNat (s.heap.kmalloc size).2 ptr := by
  have hstep : s.step (.malloc size)
      = some ⟨(s.heap.kmalloc size).2, ptr :: s.live⟩ := by
    simp only [Session.step]
    generalize s.heap.kmalloc size = r at hptr
    obtain ⟨got, heap⟩ := r
    obtain rfl : got = some ptr := hptr
    rfl
  obtain ⟨segs', hs'⟩ := hs.malloc hstep
  rcases kmalloc_spec hs.tiled hzero with ⟨hnone, -⟩ |
    ⟨before, t, after, rfl, -, hbig, hsome, htiled, -⟩
  · rw [hnone] at hptr
    cases hptr
  rw [hptr] at hsome
  obtain rfl := Option.some.inj hsome
  have hround := le_roundUp size.toNat
  rw [← alignUp_of_le hle] at hround
  obtain ⟨n, rest, hplace, hn, -⟩ := @place_eq hdr 16 (alignUp size).toNat t
  rw [hplace, List.cons_append] at htiled
  have hback : extent hdr before + hdr - hdr = extent hdr before :=
    Nat.add_sub_cancel ..
  have hgot : ((s.heap.kmalloc size).2.blocks
      (extent hdr before + hdr - hdr)).size.toNat = n := by
    rw [hback]
    exact htiled.toNat_size
  have hfits : extent hdr before + hdr + n
      + extent hdr (rest ++ after) = heapArenaSize := htiled.fits
  refine ⟨?_, ⟨Nat.le_add_left .., ?_⟩, ?_⟩
  · rw [hgot]
    exact hround.trans (hn hbig)
  · rw [hgot]
    omega
  · exact (List.pairwise_cons.mp hs'.apart.2).1

/-- A pointer that the heap gives out is to as many bytes as were asked for,
exactly if rounding up has not wrapped; of a full heap nothing is got. -/
theorem kmalloc_gives_iff (hs : s.Reached) (hpos : 0 < size.toNat) :
    (∀ ptr, (s.heap.kmalloc size).1 = some ptr →
        s.Gives size.toNat (s.heap.kmalloc size).2 ptr) ↔
      size.toNat ≤ 2 ^ 64 - 16 ∨ s.heap.Full := by
  have hzero : size ≠ 0 := by
    rintro rfl
    cases hpos
  constructor
  · intro hgives
    by_contra hnot
    rw [not_or] at hnot
    obtain ⟨hbig, hfull⟩ := hnot
    -- the request is rounded up to nothing, and there is a free block
    have hround := alignUp_of_gt (Nat.lt_of_not_le hbig)
    unfold Heap.Full at hfull
    push Not at hfull
    obtain ⟨segs, htiled, seg, hseg, hfree⟩ := hfull
    rcases kmalloc_spec htiled hzero with ⟨-, hsmall⟩ |
      ⟨before, t, after, rfl, -, -, hsome, htiled', -⟩
    · have hlt := hsmall seg hseg (by simpa using hfree)
      rw [hround] at hlt
      cases hlt
    · have henough := (hgives _ hsome).enough
      have hback : extent hdr before + hdr - hdr = extent hdr before :=
        Nat.add_sub_cancel ..
      have hhdr := hdr_eq
      rw [hback] at henough
      rw [hround] at htiled'
      unfold place at htiled'
      split at htiled'
      · next hsmall =>
        rw [htiled'.toNat_size] at henough
        have henough : size.toNat ≤ t.size := henough
        omega
      · rw [List.cons_append] at htiled'
        rw [htiled'.toNat_size] at henough
        have henough : size.toNat ≤ 0 := henough
        omega
  · intro hok ptr hptr
    obtain ⟨segs, horderly⟩ := hs.orderly
    rcases hok with hle | hfull
    · exact horderly.gives hzero hle hptr
    · rcases kmalloc_spec horderly.tiled hzero with ⟨hnone, -⟩ |
        ⟨before, t, after, rfl, hfree, -⟩
      · rw [hnone] at hptr
        cases hptr
      · have hused := hfull _ horderly.tiled t (by simp)
        rw [hfree] at hused
        cases hused

end allocating

-- ==== inputs

/-- Two blocks are taken, and the first one is given back, so that the
second one is the only live pointer. -/
theorem heap_of_reached_two :
    ∃ s : Session, s.live = [96] ∧
      (s.heap.kfree (some 96)).Tiled [⟨heapArenaSize - hdr, true⟩] := by
  have hrun : ((Session.calls [.malloc 8, .malloc 100, .free 40]
      ⟨Heap.init, []⟩).any fun s => s.live = [96]) = true := by
    decide +kernel
  obtain ⟨s, hcalls, hlive⟩ := (Option.any_eq_true ..).mp hrun
  have hlive : s.live = [96] := by simpa using hlive
  obtain ⟨segs, -, -, hfreed, -⟩ :=
    heap_of_reached (Session.Reached.init.calls hcalls)
  have hall := (hfreed [96] (by rw [hlive])).1
  exact ⟨s, hlive, hall⟩

/-- A request for no byte fails, though there is a free block. -/
theorem kmalloc_zero_fails :
    ∃ s segs, Session.Reached s ∧ s.Orderly segs ∧
      (s.heap.kmalloc 0).1 = none ∧
      ∃ seg ∈ segs, seg.free = true ∧ roundUp 0 ≤ seg.size :=
  ⟨⟨Heap.init, []⟩, _, .init, orderly_init, rfl, _, List.mem_cons_self, rfl,
    Nat.zero_le _⟩

theorem kmalloc_gives_iff_hundred :
    Session.Gives ⟨Heap.init, []⟩ 100 (Heap.init.kmalloc 100).2 40 :=
  (@kmalloc_gives_iff ⟨Heap.init, []⟩ 100 .init (by decide)).mpr (.inl (by decide)) 40 (by decide +kernel)

/-- A request for 2^64 - 1 bytes gets a block of none. -/
theorem kmalloc_wraps :
    ∃ s size ptr, Session.Reached s ∧ 0 < size.toNat ∧
      (s.heap.kmalloc size).1 = some ptr ∧
      ¬ s.Gives size.toNat (s.heap.kmalloc size).2 ptr := by
  refine ⟨⟨Heap.init, []⟩, 0xFFFFFFFFFFFFFFFF, 40, .init, by decide,
    by decide +kernel, ?_⟩
  intro hgives
  have hsize : (((Heap.init.kmalloc 0xFFFFFFFFFFFFFFFF).2.blocks 0).size).toNat
      = 0 := by
    decide +kernel
  have henough : (0xFFFFFFFFFFFFFFFF : UInt64).toNat
      ≤ ((Heap.init.kmalloc 0xFFFFFFFFFFFFFFFF).2.blocks 0).size.toNat :=
    hgives.enough
  rw [hsize] at henough
  exact absurd henough (by decide)

end Clks.Memory
