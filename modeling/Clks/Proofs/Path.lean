/-
What normalisation does to a path text.

A normalised text is the list of its components put together again:
`normalizeImpl` drops the empty pieces and the dots, refuses a `..` and
a text that is too long, and joins the rest. Everything that later looks
at a normalised path looks at components, so this file is where texts
end.
-/
import Clks.Lib.Fields
import Clks.Path

namespace Clks.Path

-- ==== join and split

/-- Components with a slash between them. -/
def join (cs : List (List UInt8)) : List UInt8 := [slash].intercalate cs

/-- A component that normalisation keeps. -/
structure Component (c : List UInt8) : Prop where
  ne_nil : c ≠ []
  no_slash : slash ∉ c
  ne_dot : c ≠ [dot]
  ne_dotdot : c ≠ [dot, dot]

@[simp] theorem join_nil : join [] = [] := rfl

@[simp] theorem join_singleton (c : List UInt8) : join [c] = c :=
  List.intercalate_singleton

theorem join_cons {c : List UInt8} {cs : List (List UInt8)} (h : cs ≠ []) :
    join (c :: cs) = c ++ slash :: join cs := by
  rw [join, List.intercalate_cons_of_ne_nil h, List.append_assoc]
  rfl

theorem join_snoc {cs : List (List UInt8)} {c : List UInt8} (h : cs ≠ []) :
    join (cs ++ [c]) = join cs ++ slash :: c := by
  induction cs with
  | nil => exact absurd rfl h
  | cons x cs ih =>
    by_cases hcs : cs = []
    · subst hcs
      rw [List.singleton_append, join_cons (by simp), join_singleton,
        join_singleton]
    · rw [List.cons_append, join_cons (by simp), ih hcs, join_cons hcs,
        List.append_assoc, List.cons_append]

theorem join_eq_nil {cs : List (List UInt8)} (h : ∀ c ∈ cs, c ≠ []) :
    join cs = [] ↔ cs = [] := by
  constructor
  · intro hj
    cases cs with
    | nil => rfl
    | cons c cs =>
      have hc := h c List.mem_cons_self
      by_cases hcs : cs = []
      · subst hcs
        rw [join_singleton] at hj
        exact absurd hj hc
      · rw [join_cons hcs] at hj
        exact absurd (List.append_eq_nil_iff.mp hj).1 hc
  · rintro rfl
    rfl

theorem splitOn_join {cs : List (List UInt8)} (hne : cs ≠ [])
    (h : ∀ c ∈ cs, slash ∉ c) : (join cs).splitOn slash = cs :=
  List.splitOn_intercalate slash h hne

/-- What normalisation keeps of the pieces of a text. -/
def kept (ps : List (List UInt8)) : List (List UInt8) :=
  ps.filter fun c => c ≠ [] ∧ c ≠ [dot]

theorem kept_of_components {cs : List (List UInt8)}
    (h : ∀ c ∈ cs, Component c) : kept cs = cs := by
  refine List.filter_eq_self.mpr fun c hc => ?_
  simp [(h c hc).ne_nil, (h c hc).ne_dot]

theorem component_of_kept {ps : List (List UInt8)} {c : List UInt8}
    (h : ∀ c ∈ ps, slash ∉ c) (hdd : [dot, dot] ∉ ps) (hc : c ∈ kept ps) :
    Component c := by
  obtain ⟨hin, hk⟩ := List.mem_filter.mp hc
  simp only [decide_eq_true_eq] at hk
  refine ⟨hk.1, h c hin, hk.2, ?_⟩
  rintro rfl
  exact hdd hin

-- ==== one component

/-- The text that stands for some components. -/
def render (keepRootSlash : Bool) (cs : List (List UInt8)) : List UInt8 :=
  (if keepRootSlash then [slash] else []) ++ join cs

theorem render_snoc_length (keep : Bool) {pre : List (List UInt8)}
    {c : List UInt8} (hpre : pre ≠ []) :
    (render keep (pre ++ [c])).length
      = (render keep pre).length + 1 + c.length := by
  simp only [render, join_snoc hpre, List.length_append, List.length_cons]
  omega

private theorem sep_eq {keep : Bool} {pre : List (List UInt8)}
    (h : ∀ c ∈ pre, c ≠ []) :
    ((keep && decide (1 < (render keep pre).length))
      || (!keep && decide ((render keep pre).length ≠ 0)))
      = decide (pre ≠ []) := by
  have hlen : (join pre).length = 0 ↔ pre = [] := by
    rw [List.length_eq_zero_iff, join_eq_nil h]
  have hr : (render keep pre).length
      = (if keep then 1 else 0) + (join pre).length := by
    cases keep <;> simp [render, Nat.add_comm]
  rw [hr]
  cases keep
  · simp [hlen]
  · simp only [if_true, Bool.true_and, Bool.not_true, Bool.false_and,
      Bool.or_false, ne_eq, ← hlen, decide_eq_decide]
    omega

private theorem addComponent_eq {keep : Bool} {n : Nat}
    {pre : List (List UInt8)} {c : List UInt8} (h : ∀ c ∈ pre, c ≠ [])
    (hc : c ≠ []) (hd : c ≠ [dot]) (hdd : c ≠ [dot, dot]) :
    addComponent keep n (render keep pre) c
      = if (render keep (pre ++ [c])).length < n then
          some (render keep (pre ++ [c]))
        else none := by
  have hpos := List.length_pos_iff.mpr hc
  unfold addComponent
  rw [if_neg (by simp [hc, hd]), if_neg hdd]
  simp only [sep_eq h]
  by_cases hpre : pre = []
  · subst hpre
    have he : render keep [] ++ c = render keep [c] := by
      cases keep <;> simp [render]
    simp only [ne_eq, not_true_eq_false, decide_false, Bool.false_and,
      Bool.false_eq_true, if_false, List.nil_append, ← he,
      List.length_append]
    split_ifs <;> first | rfl | omega
  · have he : render keep pre ++ [slash] ++ c = render keep (pre ++ [c]) := by
      simp only [render, join_snoc hpre, List.append_assoc,
        List.singleton_append]
    have hl := render_snoc_length keep (c := c) hpre
    simp only [ne_eq, hpre, not_false_eq_true, decide_true, Bool.true_and,
      decide_eq_true_eq, if_true, he, List.length_append,
      List.length_singleton, hl]
    split_ifs <;> first | rfl | omega

private theorem foldlM_addComponent (keep : Bool) {n : Nat}
    (ps pre : List (List UInt8))
    (h : ∀ c ∈ pre, c ≠ []) (hn : (render keep pre).length < n) :
    ps.foldlM (addComponent keep n) (render keep pre)
      = if [dot, dot] ∉ ps ∧ (render keep (pre ++ kept ps)).length < n then
          some (render keep (pre ++ kept ps))
        else none := by
  induction ps generalizing pre with
  | nil => simp [kept, hn]
  | cons c ps ih =>
    rw [List.foldlM_cons]
    by_cases hskip : c = [] ∨ c = [dot]
    · have hk : kept (c :: ps) = kept ps := by
        refine List.filter_cons_of_neg ?_
        simp only [decide_eq_true_eq]
        tauto
      have hdd : [dot, dot] ≠ c := by
        rintro rfl
        revert hskip
        decide
      have hmem : [dot, dot] ∉ c :: ps ↔ [dot, dot] ∉ ps := by
        rw [List.mem_cons, not_or]
        exact ⟨fun h => h.2, fun h => ⟨hdd, h⟩⟩
      rw [hk, addComponent, if_pos hskip]
      simp only [hmem, Option.bind_eq_bind, Option.bind_some]
      exact ih _ h hn
    · rw [not_or] at hskip
      by_cases hdd : c = [dot, dot]
      · subst hdd
        rw [if_neg (by simp), addComponent, if_neg (by decide), if_pos rfl]
        rfl
      · have hk : kept (c :: ps) = c :: kept ps :=
          List.filter_cons_of_pos (by simpa using hskip)
        have hmem : [dot, dot] ∉ c :: ps ↔ [dot, dot] ∉ ps := by
          rw [List.mem_cons, not_or]
          exact ⟨fun h => h.2, fun h => ⟨Ne.symm hdd, h⟩⟩
        rw [addComponent_eq h hskip.1 hskip.2 hdd, hk,
          List.append_cons pre c (kept ps)]
        by_cases hlen : (render keep (pre ++ [c])).length < n
        · rw [if_pos hlen]
          simp only [hmem, Option.bind_eq_bind, Option.bind_some]
          refine ih _ ?_ hlen
          intro x hx
          rcases List.mem_append.mp hx with hx | hx
          · exact h x hx
          · rw [List.mem_singleton.mp hx]
            exact hskip.1
        · -- What is too long already does not get shorter.
          have hmono : (render keep (pre ++ [c])).length
              ≤ (render keep (pre ++ [c] ++ kept ps)).length := by
            clear ih hk hmem hn hlen
            generalize kept ps = qs
            have hpc : pre ++ [c] ≠ [] := by simp
            generalize pre ++ [c] = ds at hpc
            induction qs generalizing ds with
            | nil => simp
            | cons q qs ih =>
              rw [List.append_cons]
              refine Nat.le_trans ?_ (ih (ds ++ [q]) (by simp))
              rw [render_snoc_length keep hpc]
              omega
          rw [if_neg hlen, if_neg (fun hh => hlen (by omega))]
          rfl

-- ==== normalisation

/-- The components of a text. -/
def components (p : List UInt8) : List (List UInt8) :=
  kept (p.splitOn slash)

theorem normalizeAbsolute_eq {p : List UInt8} {n : Nat} (hn : 2 ≤ n) :
    normalizeAbsolute p n
      = if p.head? = some slash ∧ [dot, dot] ∉ p.splitOn slash ∧
          (slash :: join (components p)).length < n then
          some (slash :: join (components p))
        else none := by
  have hfold := foldlM_addComponent true (n := n)
    (p.splitOn slash) [] (by simp) (by simp [render]; omega)
  simp only [render, if_true, join_nil, List.append_nil, List.nil_append,
    List.singleton_append] at hfold
  unfold normalizeAbsolute normalizeImpl
  rw [if_neg (by omega)]
  by_cases hp : p.head? = some slash
  · simp only [hp, ne_eq, not_true_eq_false, decide_false, Bool.false_or,
      Bool.true_and, decide_eq_true_eq, Bool.not_true, Bool.false_and,
      Bool.false_eq_true, if_false, if_true, true_and]
    rw [if_neg (by omega)]
    exact hfold
  · simp [hp]

theorem normalizeRelative_eq {p : List UInt8} {n : Nat} (hn : 0 < n) :
    normalizeRelative p n
      = if p.head? ≠ some slash ∧ [dot, dot] ∉ p.splitOn slash ∧
          (join (components p)).length < n then
          some (join (components p))
        else none := by
  have hfold := foldlM_addComponent false (n := n)
    (p.splitOn slash) [] (by simp) (by simpa [render] using hn)
  simp only [render, Bool.false_eq_true, if_false, join_nil,
    List.nil_append] at hfold
  unfold normalizeRelative normalizeImpl
  rw [if_neg (by omega)]
  by_cases hp : p.head? = some slash
  · simp [hp]
  · simp only [hp, Bool.false_and, Bool.false_eq_true, if_false,
      Bool.not_false, decide_false, Bool.and_false, ne_eq,
      not_false_eq_true, true_and]
    exact hfold

theorem normalizeExternalInternal_eq {p : List UInt8} {n : Nat}
    (hn : 2 ≤ n) :
    normalizeExternalInternal p n
      = if p.head? = some slash ∧ [dot, dot] ∉ p.splitOn slash ∧
          (join (components p)).length < n then
          some (join (components p))
        else none := by
  have hfold := foldlM_addComponent false (n := n)
    (p.splitOn slash) [] (by simp) (by simp [render]; omega)
  simp only [render, Bool.false_eq_true, if_false, join_nil,
    List.nil_append] at hfold
  unfold normalizeExternalInternal normalizeImpl
  rw [if_neg (by omega)]
  by_cases hp : p.head? = some slash
  · simp only [hp, ne_eq, not_true_eq_false, decide_false, Bool.false_or,
      Bool.true_and, decide_eq_true_eq, Bool.not_true, Bool.false_and,
      Bool.false_eq_true, if_false, true_and]
    rw [if_neg (by omega)]
    exact hfold
  · simp [hp]

/-- The normalised form of an absolute path, whatever room there is for
it. -/
def normalForm (p : List UInt8) : Option (List UInt8) :=
  if p.head? = some slash ∧ [dot, dot] ∉ p.splitOn slash then
    some (slash :: join (components p))
  else none

theorem normalForm_some {p q : List UInt8} (h : normalForm p = some q) :
    p.head? = some slash ∧ [dot, dot] ∉ p.splitOn slash ∧
      q = slash :: join (components p) := by
  unfold normalForm at h
  split_ifs at h with hp
  exact ⟨hp.1, hp.2, (Option.some.inj h).symm⟩

theorem normalizeAbsolute_normalForm {p q : List UInt8} {n : Nat}
    (hn : 2 ≤ n) (h : normalForm p = some q) :
    normalizeAbsolute p n = if q.length < n then some q else none := by
  obtain ⟨hhead, hdd, rfl⟩ := normalForm_some h
  rw [normalizeAbsolute_eq hn]
  simp only [hhead, hdd, not_false_eq_true, true_and]

theorem normalizeExternalInternal_normalForm {p q : List UInt8} {n : Nat}
    (hn : 2 ≤ n) (h : normalForm p = some q) :
    normalizeExternalInternal p n
      = if q.length ≤ n then some (q.drop 1) else none := by
  obtain ⟨hhead, hdd, rfl⟩ := normalForm_some h
  rw [normalizeExternalInternal_eq hn]
  simp only [hhead, hdd, not_false_eq_true, true_and, List.length_cons,
    List.drop_succ_cons, List.drop_zero, Nat.lt_iff_add_one_le]

theorem component_of_components {p c : List UInt8}
    (hdd : [dot, dot] ∉ p.splitOn slash) (hc : c ∈ components p) :
    Component c :=
  component_of_kept (fun _ => Fields.sep_notMem_of_splitOn) hdd hc

theorem mem_join {cs : List (List UInt8)} {ch : UInt8}
    (h : ch ∈ join cs) : ch = slash ∨ ∃ c ∈ cs, ch ∈ c := by
  induction cs with
  | nil => cases h
  | cons c cs ih =>
    by_cases hcs : cs = []
    · subst hcs
      rw [join_singleton] at h
      exact .inr ⟨c, List.mem_cons_self, h⟩
    · rw [join_cons hcs, List.mem_append, List.mem_cons] at h
      rcases h with h | h | h
      · exact .inr ⟨c, List.mem_cons_self, h⟩
      · exact .inl h
      · rcases ih h with h | ⟨d, hd, h⟩
        · exact .inl h
        · exact .inr ⟨d, List.mem_cons_of_mem _ hd, h⟩

theorem mem_of_mem_components {p : List UInt8} {ch : UInt8}
    (h : ch ∈ join (components p)) : ch = slash ∨ ch ∈ p := by
  rcases mem_join h with h | ⟨c, hc, h⟩
  · exact .inl h
  · exact .inr (Fields.mem_of_mem_splitOn (List.mem_filter.mp hc).1 h)

theorem components_join {cs : List (List UInt8)}
    (h : ∀ c ∈ cs, Component c) : components (join cs) = cs := by
  by_cases hne : cs = []
  · subst hne
    decide
  · rw [components, splitOn_join hne fun c hc => (h c hc).no_slash]
    exact kept_of_components h

theorem components_slash_join {cs : List (List UInt8)}
    (h : ∀ c ∈ cs, Component c) : components (slash :: join cs) = cs := by
  rw [components, List.splitOn_cons_eq_if_modifyHead,
    if_pos (beq_self_eq_true _)]
  have hk : kept ([] :: (join cs).splitOn slash)
      = kept ((join cs).splitOn slash) :=
    List.filter_cons_of_neg (by simp)
  rw [hk]
  exact components_join h

end Clks.Path
