/-
The table of links before and after a chain is allocated.

`allocChain_run` speaks of the links, which is all that the driver reads.
Here it is told for the entries of the table, all 32 bits of them and in
every copy: the clusters of the new chain aside, nothing is written, and a
call that fails has put everything back.
-/
import Clks.Disk.Naming

namespace Clks.Disk

variable {s s' : State} {first n : Nat} {l : List Nat}

/-- Outside of the clusters of a list, the table is as it was: its first
copy, and every copy if they agreed. -/
def State.SameEntries (s s' : State) (l : List Nat) : Prop :=
  ∀ k c, k < s.fat32.fatCount → c < s.fat32.clusterCount + 2 → c ∉ l →
    (k = 0 ∨ s.Mirrored) →
    rawFat s.fat32 s'.hw k c = rawFat s.fat32 s.hw k c

theorem rawFat_eq (s : State) (k c : Nat) :
    rawFat s.fat32 s.hw k c
      = s.topBits k c * 2 ^ 28 + low28 (rawFat s.fat32 s.hw k c) :=
  (Nat.div_add_mod' _ _).symm

theorem low28_rawFat (s : State) {k c : Nat} (hk : k < s.fat32.fatCount)
    (hc : c < s.fat32.clusterCount + 2) (h : k = 0 ∨ s.Mirrored) :
    low28 (rawFat s.fat32 s.hw k c) = s.vol.fat c := by
  unfold State.vol
  rw [volOf_fat hc]
  rcases h with rfl | hmirrored
  · rfl
  · exact hmirrored k hk c hc

theorem Moves.sameEntries (h : Moves s s')
    (hlinks : ∀ c ∉ l, s'.vol.fat c = s.vol.fat c) : s.SameEntries s' l := by
  intro k c hk hc hl hcopy
  have hfat := h.fat32
  have hcopy' : k = 0 ∨ s'.Mirrored := hcopy.imp_right h.mirrored
  have hlow := low28_rawFat s hk hc hcopy
  have hlow' := low28_rawFat s' (by rwa [hfat]) (by rwa [hfat]) hcopy'
  have hraw' := rawFat_eq s' k c
  rw [hlow', h.topBits k hk c hc, hfat] at hraw'
  rw [hraw', rawFat_eq s k c, hlow, hlinks c hl]

/-- A chain is allocated if and only if that many clusters are free, and
then of them and of nothing else. -/
theorem allocChain_exact (h : s.Ok) (hn : 0 < n) :
    ∃ r s', allocChain n s = (r, s') ∧
      (r ≠ none ↔ n ≤ (s.vol.freeSet s.fat32).card) ∧
      (∀ first, r = some first → ∃ l, l.length = n ∧ l.Nodup ∧
        (∀ c ∈ l, c ∈ s.vol.freeSet s.fat32) ∧
        s'.vol.Chain s.fat32 first l ∧ s.SameEntries s' l) ∧
      (r = none → s.SameEntries s' []) := by
  rcases allocChain_run h hn with
    ⟨first, l, s', hrun, htakes, hlen, hfree⟩ | ⟨s', hrun, hsteps, hfull⟩
  · refine ⟨some first, s', hrun, iff_of_true (Option.some_ne_none _) hfree,
      ?_, (fun hnone => nomatch hnone)⟩
    intro first' hsome
    cases hsome
    exact ⟨l, hlen, htakes.chain.nodup, htakes.free, htakes.chain,
      htakes.moves.sameEntries htakes.links⟩
  · refine ⟨none, s', hrun, iff_of_false (fun hsome => hsome rfl) (by omega),
      (fun _ hsome => nomatch hsome), fun _ => ?_⟩
    refine hsteps.moves.sameEntries fun c _ => ?_
    rw [hsteps.vol]

/-- Three clusters of a disk that was just formatted. -/
theorem allocChain_exact_fresh : freshDisk.Ok ∧ 0 < 3 ∧
    ∃ r s', allocChain 3 freshDisk = (r, s') ∧
      (r ≠ none ↔ 3 ≤ (freshDisk.vol.freeSet freshDisk.fat32).card) ∧
      (∀ first, r = some first → ∃ l, l.length = 3 ∧ l.Nodup ∧
        (∀ c ∈ l, c ∈ freshDisk.vol.freeSet freshDisk.fat32) ∧
        s'.vol.Chain freshDisk.fat32 first l ∧
        freshDisk.SameEntries s' l) ∧
      (r = none → freshDisk.SameEntries s' []) :=
  ⟨freshDisk_root.1, by decide, allocChain_exact freshDisk_root.1 (by decide)⟩

end Clks.Disk
