/-
The size of the table of a fresh volume.

`fatSectorsLoop` follows `nextFat` from one sector on: the table that a
number of clusters needs, beside which there are fewer clusters, which
need a smaller table. `nextFat` falls where the size grows, so the sizes
of the search lie alternately below and above the right one, `fatFix`,
and the distance shrinks by a factor of 64 with every step.
-/
import Clks.Disk.Format

namespace Clks.Disk

open Bytes

-- ==== one step

/-- The cluster sizes that the formatter chooses from. -/
def IsSpc (spc : Nat) : Prop :=
  spc = 1 ∨ spc = 8 ∨ spc = 16 ∨ spc = 32 ∨ spc = 64

theorem formatChooseSpc_isSpc (totalSectors : Nat) :
    IsSpc (formatChooseSpc totalSectors) := by
  unfold formatChooseSpc IsSpc
  split_ifs <;> simp

/-- The size of the table that the clusters beside one of this size
need. -/
def nextFat (totalSectors spc fatSectors : Nat) : Nat :=
  fatSectorsFor (clustersBeside totalSectors spc fatSectors)

/-- The smallest table that has an entry for every cluster beside it. -/
def fatFix (totalSectors spc : Nat) : Nat :=
  (totalSectors + spc - formatReserved) / (128 * spc + 2) + 1

/-- A table of that size is one sector more than its clusters need. -/
def Oscillates (totalSectors spc : Nat) : Prop :=
  (totalSectors + spc - formatReserved) % (128 * spc + 2) < 2

section step

variable {T spc f : Nat}

theorem nextFat_le_iff (T spc f : Nat) :
    nextFat T spc f ≤ f ↔
      (clustersBeside T spc f + 2) * 4 ≤ f * sectorSize := by
  unfold nextFat fatSectorsFor
  simp only [sectorSize]
  omega

theorem nextFat_fix (hs : IsSpc spc) (hT : 32 + 2 * fatFix T spc < T)
    (ho : ¬ Oscillates T spc) :
    nextFat T spc (fatFix T spc) = fatFix T spc := by
  unfold Oscillates at ho
  unfold fatFix nextFat fatSectorsFor clustersBeside at *
  simp only [formatReserved, formatFats, sectorSize] at *
  rcases hs with rfl | rfl | rfl | rfl | rfl <;> omega

theorem nextFat_above (hs : IsSpc spc) (hT : 32 + 2 * f < T)
    (ho : ¬ Oscillates T spc) (hf : f ≤ fatFix T spc) :
    fatFix T spc ≤ nextFat T spc f ∧
      nextFat T spc f ≤ fatFix T spc + (fatFix T spc - f + 63) / 64 := by
  unfold Oscillates at ho
  unfold fatFix nextFat fatSectorsFor clustersBeside at *
  simp only [formatReserved, formatFats, sectorSize] at *
  rcases hs with rfl | rfl | rfl | rfl | rfl <;> omega

theorem nextFat_below (hs : IsSpc spc) (hT : 32 + 2 * f < T)
    (ho : ¬ Oscillates T spc) (hf : fatFix T spc ≤ f) :
    nextFat T spc f ≤ fatFix T spc ∧
      fatFix T spc ≤ nextFat T spc f + (f - fatFix T spc + 63) / 64 := by
  unfold Oscillates at ho
  unfold fatFix nextFat fatSectorsFor clustersBeside at *
  simp only [formatReserved, formatFats, sectorSize] at *
  rcases hs with rfl | rfl | rfl | rfl | rfl <;> omega

theorem nextFat_next (hs : IsSpc spc) (hT : 32 + 2 * f < T)
    (ho : ¬ Oscillates T spc)
    (hf : f = fatFix T spc + 1 ∨ f + 1 = fatFix T spc)
    (hT' : 32 + 2 * nextFat T spc f < T)
    (hne : nextFat T spc f ≠ fatFix T spc) :
    nextFat T spc (nextFat T spc f) = fatFix T spc := by
  unfold Oscillates at ho
  unfold fatFix nextFat fatSectorsFor clustersBeside at *
  simp only [formatReserved, formatFats, sectorSize] at *
  rcases hs with rfl | rfl | rfl | rfl | rfl <;> omega

theorem nextFat_oscillates (hs : IsSpc spc) (hT : 32 + 2 * f < T)
    (ho : Oscillates T spc) :
    nextFat T spc f < fatFix T spc ↔ fatFix T spc ≤ f := by
  unfold Oscillates at ho
  unfold fatFix nextFat fatSectorsFor clustersBeside at *
  simp only [formatReserved, formatFats, sectorSize] at *
  rcases hs with rfl | rfl | rfl | rfl | rfl <;> omega

end step

-- ==== the search

section search

variable {T spc n f c fs cc : Nat}

theorem fatSectorsLoop_succ
    (h : fatSectorsLoop T spc (n + 1) f c = some (fs, cc)) :
    32 + 2 * f < T ∧
      (nextFat T spc f = f ∧ fs = f ∧ cc = clustersBeside T spc f ∨
        nextFat T spc f ≠ f ∧
          fatSectorsLoop T spc n (nextFat T spc f) (clustersBeside T spc f)
            = some (fs, cc)) := by
  rw [fatSectorsLoop] at h
  simp only [formatReserved, formatFats] at h
  split_ifs at h with h1 h2 h3
  · injection h with h
    injection h with hfs hcc
    exact ⟨by omega, .inl ⟨h3, hfs.symm, hcc.symm⟩⟩
  · exact ⟨by omega, .inr ⟨h3, h⟩⟩

theorem fatSectorsLoop_count (hc : c * spc ≤ T)
    (h : fatSectorsLoop T spc n f c = some (fs, cc)) : cc * spc ≤ T := by
  have hbeside : ∀ f, clustersBeside T spc f * spc ≤ T := by
    intro f
    unfold clustersBeside
    exact Nat.le_trans (Nat.div_mul_le_self _ _) (by omega)
  induction n generalizing f c with
  | zero =>
    cases h
    exact hc
  | succ n ih =>
    obtain ⟨-, ⟨-, -, rfl⟩ | ⟨-, h⟩⟩ := fatSectorsLoop_succ h
    · exact hbeside f
    · exact ih (hbeside f) h

theorem fatSectorsLoop_pos (hf : 0 < f)
    (h : fatSectorsLoop T spc n f c = some (fs, cc)) : 0 < fs := by
  induction n generalizing f c with
  | zero =>
    cases h
    exact hf
  | succ n ih =>
    obtain ⟨-, ⟨-, rfl, -⟩ | ⟨-, h⟩⟩ := fatSectorsLoop_succ h
    · exact hf
    · refine ih ?_ h
      unfold nextFat fatSectorsFor
      simp only [sectorSize]
      omega

theorem fatSectorsLoop_fix (hs : IsSpc spc) (ho : ¬ Oscillates T spc)
    (hf : f = fatFix T spc)
    (h : fatSectorsLoop T spc (n + 1) f c = some (fs, cc)) :
    fs = fatFix T spc ∧ cc = clustersBeside T spc (fatFix T spc) := by
  obtain ⟨hT, ⟨-, hfs, hcc⟩ | ⟨hne, -⟩⟩ := fatSectorsLoop_succ h
  · rw [hf] at hfs hcc
    exact ⟨hfs, hcc⟩
  · rw [hf] at hT hne
    exact absurd (nextFat_fix hs hT ho) hne

theorem fatSectorsLoop_near (hs : IsSpc spc) (ho : ¬ Oscillates T spc)
    (h1 : f ≤ fatFix T spc + 1) (h2 : fatFix T spc ≤ f + 1)
    (h : fatSectorsLoop T spc (n + 3) f c = some (fs, cc)) :
    fs = fatFix T spc ∧ cc = clustersBeside T spc (fatFix T spc) := by
  by_cases hf : f = fatFix T spc
  · exact fatSectorsLoop_fix hs ho hf h
  have hnext : f = fatFix T spc + 1 ∨ f + 1 = fatFix T spc := by omega
  obtain ⟨hT, ⟨he, -⟩ | ⟨-, h⟩⟩ := fatSectorsLoop_succ h
  · -- Only the right size leads to itself.
    rcases Nat.le_total f (fatFix T spc) with hle | hle
    · have := (nextFat_above hs hT ho hle).1
      omega
    · have := (nextFat_below hs hT ho hle).1
      omega
  by_cases hf' : nextFat T spc f = fatFix T spc
  · exact fatSectorsLoop_fix hs ho hf' h
  obtain ⟨hT', ⟨he, -⟩ | ⟨-, h⟩⟩ := fatSectorsLoop_succ h
  · rw [nextFat_next hs hT ho hnext hT' hf'] at he
    exact absurd he.symm hf'
  · exact fatSectorsLoop_fix hs ho (nextFat_next hs hT ho hnext hT' hf') h

theorem fatSectorsLoop_far (hs : IsSpc spc) (ho : ¬ Oscillates T spc)
    (k : Nat) (h1 : f ≤ fatFix T spc + 64 ^ k)
    (h2 : fatFix T spc ≤ f + 64 ^ k)
    (h : fatSectorsLoop T spc (n + 3 + k) f c = some (fs, cc)) :
    fs = fatFix T spc ∧ cc = clustersBeside T spc (fatFix T spc) := by
  induction k generalizing f c with
  | zero => exact fatSectorsLoop_near hs ho h1 h2 h
  | succ k ih =>
    have hpow : 64 ^ (k + 1) = 64 * 64 ^ k := Nat.pow_succ'
    rw [hpow] at h1 h2
    obtain ⟨hT, ⟨he, -, -⟩ | ⟨-, h'⟩⟩ :=
      fatSectorsLoop_succ (n := n + 3 + k) h
    · -- A size that leads to itself is the right one.
      refine fatSectorsLoop_fix (n := n + 3 + k) hs ho ?_ h
      rcases Nat.le_total f (fatFix T spc) with hle | hle
      · have := (nextFat_above hs hT ho hle).1
        omega
      · have := (nextFat_below hs hT ho hle).1
        omega
    rcases Nat.le_total f (fatFix T spc) with hle | hle
    · obtain ⟨h3, h4⟩ := nextFat_above hs hT ho hle
      exact ih (by omega) (by omega) h'
    · obtain ⟨h3, h4⟩ := nextFat_below hs hT ho hle
      exact ih (by omega) (by omega) h'

theorem fatSectorsLoop_converges (hs : IsSpc spc) (ho : ¬ Oscillates T spc)
    (hT : T < 2 ^ 32)
    (h : fatSectorsLoop T spc 16 1 c = some (fs, cc)) :
    fs = fatFix T spc ∧ cc = clustersBeside T spc (fatFix T spc) := by
  have hfix : fatFix T spc ≤ 1 + 64 ^ 13 := by
    unfold fatFix
    simp only [formatReserved]
    rcases hs with rfl | rfl | rfl | rfl | rfl <;> omega
  refine fatSectorsLoop_far (n := 0) hs ho 13 ?_ hfix h
  omega

theorem fatSectorsLoop_oscillates (hs : IsSpc spc) (ho : Oscillates T spc)
    (hf : n % 2 = 0 ↔ f < fatFix T spc)
    (h : fatSectorsLoop T spc n f c = some (fs, cc)) :
    fs < fatFix T spc := by
  induction n generalizing f c with
  | zero =>
    cases h
    exact hf.mp rfl
  | succ n ih =>
    obtain ⟨hT, hor⟩ := fatSectorsLoop_succ h
    have hstep := nextFat_oscillates hs hT ho
    rcases hor with ⟨he, -, -⟩ | ⟨-, h⟩
    · rw [he] at hstep
      omega
    · refine ih ?_ h
      rw [hstep]
      omega

theorem short_of_lt_fatFix (hs : IsSpc spc) (hT : 32 + 2 * f < T)
    (hf : f < fatFix T spc) :
    f * sectorSize < (clustersBeside T spc f + 2) * 4 := by
  unfold fatFix clustersBeside at *
  simp only [formatReserved, formatFats, sectorSize] at *
  rcases hs with rfl | rfl | rfl | rfl | rfl <;> omega

end search

end Clks.Disk
