/-
References to pseudo terminals.

A list of descriptors is retained over a table of terminals when every
count is what it was plus one for each descriptor of the terminal. Copying
a descriptor retains it, and releasing all of the list gives back the table.
-/
import Clks.Exec.Process

namespace Clks.Exec

/-- The terminal that a descriptor refers to. -/
def FdEntry.terminal (ptys : Fin ptyMax → Pty) (entry : FdEntry) :
    Option (Fin ptyMax) :=
  if entry.used && entry.kind = .pty then findPty entry.ptyId ptys else none

/-- How many of the descriptors refer to a terminal. -/
def references (ptys : Fin ptyMax → Pty) (entries : List FdEntry)
    (s : Fin ptyMax) : Nat :=
  entries.countP fun entry => entry.terminal ptys = some s

/-- The references of the descriptors have been added to the table. -/
structure Retained (base : Fin ptyMax → Pty) (entries : List FdEntry)
    (ptys : Fin ptyMax → Pty) : Prop where
  counts : ∀ s, ptys s =
    { base s with
      refCount := (base s).refCount + UInt64.ofNat (references base entries s) }
  fits : ∀ s, (base s).refCount.toNat + references base entries s < 2 ^ 64

/-- Every terminal in use is referred to. -/
def Referred (ptys : Fin ptyMax → Pty) : Prop :=
  ∀ s, (ptys s).used = true → (ptys s).refCount ≠ 0

section terminals

variable {base ptys ptys' : Fin ptyMax → Pty} {entries entries' : List FdEntry}
  {entry : FdEntry} {s : Fin ptyMax} {ptyId : UInt64}

-- ==== the table

theorem findPty_some (h : findPty ptyId ptys = some s) :
    ptyId ≠ 0 ∧ (ptys s).used = true := by
  unfold findPty at h
  split at h
  · cases h
  · next hid =>
    have hfound := List.find?_some h
    rw [Bool.and_eq_true] at hfound
    exact ⟨hid, hfound.1⟩

theorem findPty_congr
    (h : ∀ s, (ptys s).used = (base s).used ∧ (ptys s).id = (base s).id) :
    findPty ptyId ptys = findPty ptyId base := by
  unfold findPty
  congr 2
  funext s
  rw [(h s).1, (h s).2]

theorem Retained.findPty (h : Retained base entries ptys) :
    findPty ptyId ptys = findPty ptyId base := by
  apply findPty_congr
  intro s
  rw [h.counts s]
  exact ⟨rfl, rfl⟩

theorem Retained.refCount (h : Retained base entries ptys) (s : Fin ptyMax) :
    (ptys s).refCount.toNat
      = (base s).refCount.toNat + references base entries s := by
  rw [h.counts s]
  have hfits := h.fits s
  rw [UInt64.toNat_add, UInt64.toNat_ofNat',
    Nat.mod_eq_of_lt (a := references base entries s) (by omega),
    Nat.mod_eq_of_lt hfits]

theorem Retained.congr (h : Retained base entries ptys)
    (hcounts : ∀ s, references base entries' s = references base entries s) :
    Retained base entries' ptys := by
  refine ⟨?_, ?_⟩
  · intro s
    rw [hcounts]
    exact h.counts s
  · intro s
    rw [hcounts]
    exact h.fits s

theorem retained_nil (h : ∀ entry ∈ entries, entry.terminal base = none) :
    Retained base entries base := by
  have hzero : ∀ s, references base entries s = 0 := by
    intro s
    apply List.countP_eq_zero.mpr
    intro entry hentry
    rw [h entry hentry]
    simp
  refine ⟨?_, ?_⟩
  · intro s
    rw [hzero]
    simp
  · intro s
    rw [hzero]
    exact (base s).refCount.toNat_lt

theorem references_cons :
    references base (entry :: entries) s
      = references base entries s
        + if entry.terminal base = some s then 1 else 0 := by
  unfold references
  rw [List.countP_cons]
  simp

-- ==== retain

theorem Retained.retain (h : Retained base entries ptys)
    (hused : entry.used = true) (hkind : entry.kind = .pty)
    (hretain : ptyRetain entry.ptyId ptys = some ptys') :
    Retained base (entry :: entries) ptys' := by
  unfold ptyRetain at hretain
  split at hretain
  · cases hretain
  next s hfound =>
  split at hretain
  · cases hretain
  next hmax =>
  obtain rfl := Option.some.inj hretain
  rw [h.findPty] at hfound
  have hterminal : entry.terminal base = some s := by
    unfold FdEntry.terminal
    rw [hused, hkind]
    exact hfound
  have hcount : ∀ t, references base (entry :: entries) t
      = references base entries t + if t = s then 1 else 0 := by
    intro t
    rw [references_cons, hterminal]
    congr 1
    by_cases ht : t = s
    · subst ht
      simp
    · rw [if_neg ht, if_neg fun hst => ht (Option.some.inj hst).symm]
  refine ⟨?_, ?_⟩
  · intro t
    rw [hcount t]
    by_cases ht : t = s
    · subst ht
      rw [Function.update_self, if_pos rfl, h.counts t]
      simp only [Pty.mk.injEq, true_and]
      rw [UInt64.ofNat_add, UInt64.add_assoc]
      rfl
    · rw [Function.update_of_ne ht, if_neg ht]
      exact h.counts t
  · intro t
    rw [hcount t]
    have hfits := h.fits t
    by_cases ht : t = s
    · subst ht
      have hroom : (ptys t).refCount.toNat ≠ 2 ^ 64 - 1 := by
        intro heq
        apply hmax
        apply UInt64.toNat_inj.mp
        rw [heq]
        rfl
      rw [h.refCount t] at hroom
      rw [if_pos rfl]
      omega
    · rw [if_neg ht]
      omega

-- ==== release

theorem Retained.release (h : Retained base (entry :: entries) ptys)
    (hbase : Referred base) : Retained base entries (entry.release ptys) := by
  have hother : ∀ t, entry.terminal base ≠ some t →
      references base (entry :: entries) t = references base entries t := by
    intro t ht
    rw [references_cons, if_neg ht, Nat.add_zero]
  cases hterminal : entry.terminal base with
  | none =>
    have hsame : entry.release ptys = ptys := by
      unfold FdEntry.release
      split
      · next hpty =>
        unfold FdEntry.terminal at hterminal
        rw [Bool.and_eq_true] at hpty
        rw [if_pos hpty.1] at hterminal
        unfold ptyRelease
        rw [h.findPty, hterminal]
      · rfl
    rw [hsame]
    refine h.congr fun t => (hother t ?_).symm
    rw [hterminal]
    nofun
  | some s =>
    have hfound : Clks.Exec.findPty entry.ptyId base = some s ∧
        (entry.used && entry.kind = .pty) = true := by
      unfold FdEntry.terminal at hterminal
      split at hterminal
      · next hpty => exact ⟨hterminal, hpty⟩
      · cases hterminal
    obtain ⟨hid, hused⟩ := findPty_some hfound.1
    have hcount : references base (entry :: entries) s
        = references base entries s + 1 := by
      rw [references_cons, if_pos hterminal]
    have hnonzero : (base s).refCount.toNat ≠ 0 := by
      intro hzero
      apply hbase s hused
      apply UInt64.toNat_inj.mp
      exact hzero
    have hrefs := h.refCount s
    rw [hcount] at hrefs
    have hfits := h.fits s
    rw [hcount] at hfits
    -- there is another reference, so the terminal stays
    have hmany : 1 < (ptys s).refCount := by
      show (1 : UInt64).toNat < (ptys s).refCount.toNat
      rw [hrefs]
      show 1 < _
      omega
    have hrelease : entry.release ptys
        = Function.update ptys s
          { ptys s with refCount := (ptys s).refCount - 1 } := by
      unfold FdEntry.release
      rw [if_pos (by rw [hfound.2]; simpa using hid)]
      unfold ptyRelease
      rw [h.findPty, hfound.1]
      simp only []
      rw [if_pos hmany]
    rw [hrelease]
    refine ⟨?_, ?_⟩
    · intro t
      by_cases ht : t = s
      · subst ht
        rw [Function.update_self, h.counts t, hcount]
        simp only [Pty.mk.injEq, true_and]
        rw [UInt64.ofNat_add, ← UInt64.add_assoc]
        exact UInt64.add_sub_cancel _ 1
      · rw [Function.update_of_ne ht, ← hother t]
        · exact h.counts t
        · rw [hterminal]
          exact fun hst => ht (Option.some.inj hst).symm
    · intro t
      by_cases ht : t = s
      · subst ht
        omega
      · rw [← hother t]
        · exact h.fits t
        · rw [hterminal]
          exact fun hst => ht (Option.some.inj hst).symm

theorem Retained.releaseAll (hbase : Referred base)
    (h : Retained base entries ptys) :
    entries.foldl (fun ptys entry => entry.release ptys) ptys = base := by
  induction entries generalizing ptys with
  | nil =>
    funext s
    rw [List.foldl_nil, h.counts s]
    simp [references]
  | cons entry entries ih =>
    rw [List.foldl_cons]
    exact ih (h.release hbase)

theorem references_update {fds : Fin fdMax → FdEntry} {c : Fin fdMax}
    (hc : (fds c).terminal base = none) (s : Fin ptyMax) :
    references base ((List.finRange fdMax).map (Function.update fds c entry)) s
      = references base (entry :: (List.finRange fdMax).map fds) s := by
  have hmem : c ∈ List.finRange fdMax := List.mem_finRange c
  rw [(List.nodup_finRange fdMax).map_update, if_pos hmem, references_cons]
  unfold references
  have hlt : (List.finRange fdMax).idxOf c
      < ((List.finRange fdMax).map fds).length := by
    rw [List.length_map]
    exact List.idxOf_lt_length_iff.mpr hmem
  rw [List.countP_set hlt]
  simp only [List.getElem_map, List.getElem_idxOf]
  rw [hc]
  simp

end terminals

end Clks.Exec
