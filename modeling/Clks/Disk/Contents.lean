/-
What writing and appending leave of a volume.

Both leave a consistent volume consistent, and what was written is what
the path reads, as long as the clusters do not run out half way: an
overwrite gives the old chain back before it takes the new one
(`Overcommits`), and an append links the clusters that it still gets
(`GrowsPartly`). Where a call is refused nothing but sectors was loaded.
-/
import Clks.Disk.FailedAppend

namespace Clks.Disk

open Bytes

variable {s s' : State} {path : List UInt8} {data : Option Mem} {size : Nat}
  {old : List UInt8}

theorem readAll_consistent (hs : s.Consistent) (path : List UInt8) :
    (readAll path s).2.Consistent ∧ (readAll path s).2.vol = s.vol ∧
      (readAll path s).2.toEnv = s.toEnv := by
  obtain ⟨G, h⟩ := hs
  obtain ⟨s1, P, hrun, hr⟩ := readAll_run h path
  rw [hrun]
  exact ⟨⟨G, hr.holds h⟩, hr.vol, hr.env⟩

theorem readAll_again (hs : s.Consistent) (path other : List UInt8) :
    (readAll other (readAll path s).2).1 = (readAll other s).1 := by
  obtain ⟨hcons, hvol, henv⟩ := readAll_consistent hs path
  obtain ⟨G, h⟩ := hs
  obtain ⟨G', h'⟩ := hcons
  rw [h'.readAll_eq, h.readAll_eq, hvol, henv]

theorem readAll_length (hs : s.Consistent)
    (hold : (readAll path s).1 = some old) : old.length ≤ 2 ^ 28 := by
  obtain ⟨G, h⟩ := hs
  obtain ⟨lookup, -, -, -, hin, hk, -, rfl⟩ := h.readAll_some hold
  refine Nat.le_trans ?_ (h.file_size_le hin hk)
  unfold Vol.content
  exact List.length_take_le ..

theorem Overcommits.congr {data' : Option Mem} (hvol : s'.vol = s.vol)
    (henv : s'.toEnv = s.toEnv) (hdata : data'.isSome = data.isSome)
    (h : Overcommits s' path data' size) : Overcommits s path data size := by
  obtain ⟨lookup, hg, hf, hpos, hlt⟩ := h
  obtain ⟨hpath, hfile, hbuffer, hfits⟩ := hg
  rw [hvol, henv] at hpath hlt
  rw [hdata] at hbuffer
  rw [henv] at hfits
  exact ⟨lookup, ⟨hpath, hfile, hbuffer, hfits⟩, hf, hpos, hlt⟩

theorem writeAll_consistent (hs : s.Consistent) (hsize : size < 2 ^ 64)
    (hov : ¬ Overcommits s path data size) :
    (writeAll path data size s).2.Consistent := by
  obtain ⟨G, h⟩ := hs
  by_cases hg : ∃ lookup, WriteGuard s path data size lookup
  swap
  · obtain ⟨s1, P, hrun, hr⟩ := writeAll_refused h hsize (not_exists.mp hg)
    rw [hrun]
    exact ⟨G, hr.holds h⟩
  obtain ⟨lookup, hg⟩ := hg
  cases hf : lookup.found with
  | true =>
    rcases writeAll_found h hsize hg hf with
      ⟨l, s1, hrun, hrw, -⟩ | ⟨s1, hrun, hst, hlt⟩
    · rw [hrun]
      exact ⟨_, hrw.holds⟩
    · rw [hrun]
      obtain ⟨hin, -, -, hk⟩ := h.resolvePath_found hg.path hf
      rw [hg.file hf] at hk
      have hlen := h.tree.file_len _ _ _ hin hk
      rw [Vol.released_card (h.tree.owned.chain (.entry lookup.slot)),
        hlen] at hlt
      -- The file was empty, and there was no chain to give back.
      have hz : lookup.info.size = 0 := by
        by_contra hz
        exact hov ⟨lookup, hg, hf, Nat.pos_of_ne_zero hz, hlt⟩
      rw [hz, (Layout.clustersFor_eq_zero h.ok.sound.clusterSize_pos).mpr
        rfl, List.length_eq_zero_iff] at hlen
      refine ⟨G, h.same hst.moves ?_⟩
      rw [hst.vol, hlen]
      exact ⟨funext fun c => by simp [Vol.released], fun _ _ => rfl⟩
  | false =>
    rcases writeAll_missing h hsize hg hf with
      ⟨_, _, _, _, _, _, _, s1, -, -, -, hrun, -, hcons, -⟩ |
      ⟨s1, hrun, hm, hv⟩
    · rw [hrun]
      exact hcons
    · rw [hrun]
      exact ⟨G, h.same hm hv⟩

theorem append_consistent (hs : s.Consistent) (hsize : size < 2 ^ 64)
    (hgrow : ¬ GrowsPartly s path data size) :
    (append path data size s).2.Consistent := by
  obtain ⟨G, h⟩ := hs
  rcases append_run h path data size with
    ⟨s1, hrun, hr, -⟩ | ⟨lookup, s1, hg, -, -⟩ |
    ⟨lookup, d, s1, hres, hrun, hr, hor⟩
  · rw [hrun]
    exact ⟨G, hr.holds h⟩
  · obtain ⟨hin, -, -, hk⟩ := h.resolvePath_found hg.path hg.found
    rw [hg.file] at hk
    rcases append_found h hg with
      ⟨l', bytes, s2, hrun, hrw, -⟩ | ⟨s2, hrun, hpos, hfail⟩
    · rw [hrun]
      exact ⟨_, hrw.holds⟩
    · rw [hrun]
      refine ⟨G, (hfail.stalls h hin hk hpos fun hold hfree => ?_).holds⟩
      by_contra hlt
      exact hgrow ⟨lookup, hg, hold, hfree, Nat.lt_of_not_le hlt⟩
  · -- Nothing is there, or an empty file to which nothing is appended.
    rw [hrun]
    refine writeAll_consistent ⟨G, hr.holds h⟩ hsize ?_
    intro hov
    obtain ⟨lookup', hg, hf, hpos, hlt⟩ := hov
    have hres' := hg.path
    rw [hr.env, hr.vol, hres] at hres'
    cases hres'
    cases hor with
    | inl hnew =>
      rw [hnew.1] at hf
      cases hf
    | inr hempty =>
      rw [hempty.2.2.1] at hpos
      exact Nat.lt_irrefl 0 hpos

theorem writeAll_env (hs : s.Consistent) (hsize : size < 2 ^ 64) :
    (writeAll path data size s).2.toEnv = s.toEnv := by
  obtain ⟨G, h⟩ := hs
  by_cases hg : ∃ lookup, WriteGuard s path data size lookup
  swap
  · obtain ⟨s1, P, hrun, hr⟩ := writeAll_refused h hsize (not_exists.mp hg)
    rw [hrun]
    exact hr.env
  obtain ⟨lookup, hg⟩ := hg
  cases hf : lookup.found with
  | true =>
    rcases writeAll_found h hsize hg hf with
      ⟨l, s1, hrun, hrw, -⟩ | ⟨s1, hrun, hst, -⟩
    · rw [hrun]
      exact hrw.moves.env
    · rw [hrun]
      exact hst.moves.env
  | false =>
    rcases writeAll_missing h hsize hg hf with
      ⟨_, _, _, _, _, _, _, s1, -, -, -, hrun, hen, -⟩ | ⟨s1, hrun, hm, -⟩
    · rw [hrun]
      exact hen.moves.env
    · rw [hrun]
      exact hm.env

theorem append_env (hs : s.Consistent) (hsize : size < 2 ^ 64) :
    (append path data size s).2.toEnv = s.toEnv := by
  obtain ⟨G, h⟩ := hs
  rcases append_run h path data size with
    ⟨s1, hrun, hr, -⟩ | ⟨lookup, s1, hg, -, -⟩ |
    ⟨lookup, d, s1, -, hrun, hr, -⟩
  · rw [hrun]
    exact hr.env
  · rcases append_found h hg with
      ⟨l', bytes, s2, hrun, hrw, -⟩ | ⟨s2, hrun, -, hfail⟩
    · rw [hrun]
      exact hrw.moves.env
    · rw [hrun]
      exact hfail.moves.env
  · rw [hrun]
    exact (writeAll_env ⟨G, hr.holds h⟩ hsize).trans hr.env

theorem writeAll_reads (hs : s.Consistent) (hsize : size < 2 ^ 64)
    (hold : (readAll path s).1 = some old)
    (hrun : writeAll path data size s = (some (), s')) :
    (readAll path s').1 = some (bufferBytes (dataOf data) size) ∧
      s'.Consistent := by
  obtain ⟨G, h⟩ := hs
  obtain ⟨lookup, hres, hf, hd, -⟩ := h.readAll_some hold
  by_cases hg : ∃ lookup, WriteGuard s path data size lookup
  swap
  · obtain ⟨s1, P, hrun1, -⟩ := writeAll_refused h hsize (not_exists.mp hg)
    cases hrun.symm.trans hrun1
  obtain ⟨lookup', hg⟩ := hg
  cases hres.symm.trans hg.path
  rcases writeAll_found h hsize hg hf with
    ⟨l, s1, hrun1, hrw, -⟩ | ⟨s1, hrun1, -, -⟩
  · cases hrun.symm.trans hrun1
    exact ⟨hrw.readAll_eq h hres hf hd, _, hrw.holds⟩
  · cases hrun.symm.trans hrun1

theorem append_reads_iff (hs : s.Consistent)
    (hold : (readAll path s).1 = some old)
    (hrun : append path data size s = (some (), s')) :
    (readAll path s').1 = some (old ++ bufferBytes (dataOf data) size) ↔
      size = 0 ∨ s.EndShownOf path := by
  obtain ⟨G, h⟩ := hs
  obtain ⟨bytes, happ, hiff⟩ := append_ok h hold hrun
  rw [happ.reads, ← hiff]
  exact ⟨Option.some.inj, congrArg some⟩

end Clks.Disk
