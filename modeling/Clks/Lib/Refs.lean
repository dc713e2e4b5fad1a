/-
Reference counts.

Each of finitely many holders holds one object at most. A count is exact if
it says of every object how many hold it, so that an object that nobody
holds counts nothing.
-/
import Mathlib

namespace Refs

variable {H O : Type} [Fintype H] [DecidableEq O]
  {hold hold' : H → Option O} {count : O → Nat} {x : H} {o o' : O}

/-- How many hold an object. -/
def holders (hold : H → Option O) (o : O) : Nat :=
  (Finset.univ.filter fun x => hold x = some o).card

/-- A count of every object's holders. -/
def Exact (hold : H → Option O) (count : O → Nat) : Prop :=
  ∀ o, count o = holders hold o

theorem holders_pos (h : hold x = some o) : 0 < holders hold o :=
  Finset.card_pos.mpr ⟨x, Finset.mem_filter.mpr ⟨Finset.mem_univ x, h⟩⟩

theorem one_lt_holders {y : H} (hx : hold x = some o) (hy : hold y = some o) (hne : x ≠ y) :
    1 < holders hold o :=
  Finset.one_lt_card.mpr ⟨x, Finset.mem_filter.mpr ⟨Finset.mem_univ x, hx⟩, y,
    Finset.mem_filter.mpr ⟨Finset.mem_univ y, hy⟩, hne⟩

theorem Exact.pos (h : Exact hold count) (hx : hold x = some o) : 0 < count o := by
  rw [h o]
  exact holders_pos hx

variable [DecidableEq H]

theorem holders_update (new : Option O) (hx : hold x = some o) (hnew : new ≠ some o) :
    holders (Function.update hold x new) o + 1 = holders hold o := by
  have hset : (Finset.univ.filter fun y => Function.update hold x new y = some o)
      = (Finset.univ.filter fun y => hold y = some o).erase x := by
    ext y
    rw [Finset.mem_erase, Finset.mem_filter, Finset.mem_filter]
    by_cases hy : y = x
    · subst hy
      rw [Function.update_self]
      exact ⟨fun h => absurd h.2 hnew, fun h => absurd rfl h.1⟩
    · rw [Function.update_of_ne hy]
      exact ⟨fun h => ⟨hy, h⟩, fun h => h.2⟩
  have hmem : x ∈ Finset.univ.filter fun y => hold y = some o :=
    Finset.mem_filter.mpr ⟨Finset.mem_univ x, hx⟩
  unfold holders
  rw [hset]
  exact Finset.card_erase_add_one hmem

theorem holders_update_other (new : Option O) (hx : hold x ≠ some o) (hnew : new ≠ some o) :
    holders (Function.update hold x new) o = holders hold o := by
  unfold holders
  congr 1
  ext y
  rw [Finset.mem_filter, Finset.mem_filter]
  by_cases hy : y = x
  · subst hy
    rw [Function.update_self]
    exact ⟨fun h => absurd h.2 hnew, fun h => absurd h.2 hx⟩
  · rw [Function.update_of_ne hy]

theorem holders_take (hx : hold x ≠ some o) :
    holders (Function.update hold x (some o)) o = holders hold o + 1 := by
  have hself : Function.update hold x (some o) x = some o := Function.update_self ..
  have hback := holders_update (hold x) hself hx
  rw [Function.update_idem, Function.update_eq_self] at hback
  exact hback.symm

-- ==== the rules

theorem Exact.take (h : Exact hold count) (hx : hold x = none) :
    Exact (Function.update hold x (some o)) (Function.update count o (count o + 1)) := by
  intro o'
  by_cases ho : o' = o
  · subst ho
    rw [Function.update_self, holders_take, h o']
    rw [hx]
    nofun
  · rw [Function.update_of_ne ho, holders_update_other, h o']
    · rw [hx]
      nofun
    · exact fun heq => ho (Option.some.inj heq).symm

theorem Exact.drop (h : Exact hold count) (hx : hold x = some o) :
    Exact (Function.update hold x none) (Function.update count o (count o - 1)) := by
  intro o'
  by_cases ho : o' = o
  · subst ho
    have hone := holders_update none hx nofun
    rw [Function.update_self, h o']
    omega
  · rw [Function.update_of_ne ho, holders_update_other none _ nofun, h o']
    rw [hx]
    exact fun heq => ho (Option.some.inj heq).symm

end Refs
