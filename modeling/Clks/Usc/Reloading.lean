/-
The rule file, read again.

A remembered path is written as a line behind whatever the file ends with,
and a line is read without its trailing blanks and not at all if it looks
like a comment. So a path comes back as it was written exactly if it is
`Storable` and the file it is appended to is `Terminated`
(`remembered_reload_iff`); a path that was allowed by the file already is
not written.
-/
import Clks.Lib.Fields
import Clks.Usc.Rules

namespace Clks.Usc

-- ==== tables

section tables

variable {t : Table} {p q : AppPath}

theorem Table.mem_add (h : q ∈ (t.add p).2.apps) :
    q ∈ t.apps ∨ q = p ∧ p.bytes ≠ [] := by
  unfold Table.add at h
  split_ifs at h with hnil hfind hroom
  · exact Or.inl h
  · exact Or.inl h
  · cases List.mem_append.mp h with
    | inl hold => exact Or.inl hold
    | inr hnew => exact Or.inr ⟨List.mem_singleton.mp hnew, hnil⟩
  · exact Or.inl h

theorem Table.subset_add (h : q ∈ t.apps) : q ∈ (t.add p).2.apps := by
  unfold Table.add
  split_ifs
  · exact h
  · exact h
  · exact List.mem_append_left _ h
  · exact h

theorem Table.full_of_notMem_add (hp : p.bytes ≠ [])
    (h : p ∉ (t.add p).2.apps) :
    maxAllowedApps ≤ (t.add p).2.apps.length := by
  unfold Table.add at h ⊢
  rw [if_neg hp] at h ⊢
  split_ifs at h ⊢ with hfind hroom
  · exact absurd hfind h
  · exact absurd (List.mem_append_right _ (List.mem_singleton_self p)) h
  · exact Nat.not_lt.mp hroom

theorem Table.add_new (hp : p.bytes ≠ []) (hfind : p ∉ t.apps)
    (hroom : t.apps.length < maxAllowedApps) :
    (t.add p).1 = true ∧ (t.add p).2.apps = t.apps ++ [p] := by
  unfold Table.add
  rw [if_neg hp, dif_neg hfind, dif_pos hroom]
  exact ⟨rfl, rfl⟩

theorem Table.add_true (hfind : p ∉ t.apps) (h : (t.add p).1 = true) :
    p.bytes ≠ [] ∧ (t.add p).2.apps = t.apps ++ [p] := by
  unfold Table.add at h ⊢
  split_ifs at h ⊢ with hnil hroom
  exact ⟨hnil, rfl⟩

end tables

-- ==== lines

/-- The line gives the path. -/
structure Names (piece : List UInt8) (p : AppPath) : Prop where
  ne_nil : p.bytes ≠ []
  short : (piece.rdropWhile isBlank).length < pathMax
  rule : piece.head? ≠ some (chr '#') ∧ piece.head? ≠ some (chr ';')
  bytes : p.bytes = cstr (piece.rdropWhile isBlank)

/-- A path that is read as it is written. -/
structure Storable (p : AppPath) : Prop where
  line : newline ∉ p.bytes
  last : ∀ c, p.bytes.getLast? = some c → isBlank c = false
  rule : p.bytes.head? ≠ some (chr '#') ∧ p.bytes.head? ≠ some (chr ';')

/-- A file whose last line is complete. -/
def Terminated (data : List UInt8) : Prop :=
  data = [] ∨ data.getLast? = some newline

section lines

variable {t : Table} {p q : AppPath} {piece e s : List UInt8}

theorem isBlank_zero : isBlank 0 = false := by decide

theorem head?_rdropWhile (h : piece.rdropWhile isBlank ≠ []) :
    (piece.rdropWhile isBlank).head? = piece.head? := by
  obtain ⟨rest, hrest⟩ := List.rdropWhile_prefix isBlank piece
  cases hl : piece.rdropWhile isBlank with
  | nil => exact absurd hl h
  | cons c l =>
    rw [hl] at hrest
    rw [← hrest]
    rfl

theorem cstr_of_notMem (h : 0 ∉ piece) : cstr piece = piece := by
  refine List.takeWhile_eq_self_iff.mpr fun c hc => ?_
  have hne : c ≠ 0 := fun h0 => h (h0 ▸ hc)
  simp [hne]

@[simp] theorem addLine_nil : addLine t [] = t := by
  simp [addLine]

theorem addLine_cases (t : Table) (piece : List UInt8) :
    (addLine t piece = t ∧ ∀ q, ¬ Names piece q) ∨
      ∃ p : AppPath, addLine t piece = (t.add p).2 ∧
        p.bytes = cstr (piece.rdropWhile isBlank) ∧
        (p.bytes ≠ [] → Names piece p) := by
  unfold addLine
  by_cases hlen : piece.rdropWhile isBlank = [] ∨
      pathMax ≤ (piece.rdropWhile isBlank).length
  · refine Or.inl ⟨dif_pos hlen, ?_⟩
    intro q hq
    cases hlen with
    | inl hnil =>
      have := hq.bytes
      rw [hnil] at this
      exact hq.ne_nil this
    | inr hlong => exact absurd hq.short (Nat.not_lt.mpr hlong)
  · rw [dif_neg hlen]
    push Not at hlen
    rw [head?_rdropWhile hlen.1]
    by_cases hrule : piece.head? = some (chr '#') ∨
        piece.head? = some (chr ';')
    · refine Or.inl ⟨if_pos hrule, ?_⟩
      intro q hq
      cases hrule with
      | inl hhash => exact hq.rule.1 hhash
      | inr hsemi => exact hq.rule.2 hsemi
    · rw [if_neg hrule]
      push Not at hrule
      exact Or.inr ⟨inBuffer _ hlen.2, rfl, rfl,
        fun hne => ⟨hne, hlen.2, hrule, rfl⟩⟩

theorem subset_addLine (h : q ∈ t.apps) : q ∈ (addLine t piece).apps := by
  obtain ⟨heq, -⟩ | ⟨p, heq, -⟩ := addLine_cases t piece
  · rw [heq]
    exact h
  · rw [heq]
    exact Table.subset_add h

theorem mem_addLine (h : q ∈ (addLine t piece).apps) :
    q ∈ t.apps ∨ Names piece q := by
  obtain ⟨heq, -⟩ | ⟨p, heq, -, hnames⟩ := addLine_cases t piece
  · rw [heq] at h
    exact Or.inl h
  · rw [heq] at h
    cases Table.mem_add h with
    | inl hold => exact Or.inl hold
    | inr hnew =>
      rw [hnew.1]
      exact Or.inr (hnames hnew.2)

theorem Names.mem (hq : Names piece q)
    (hroom : (addLine t piece).apps.length < maxAllowedApps) :
    q ∈ (addLine t piece).apps := by
  obtain ⟨-, hnone⟩ | ⟨p, heq, hbytes, -⟩ := addLine_cases t piece
  · exact absurd hq (hnone q)
  · have hpq : p = q := AppPath.ext (hbytes.trans hq.bytes.symm)
    rw [heq] at hroom ⊢
    rw [hpq] at hroom ⊢
    by_contra hmem
    exact absurd (Table.full_of_notMem_add hq.ne_nil hmem)
      (Nat.not_le.mpr hroom)

theorem Names.storable (hq : Names piece q) (hzero : 0 ∉ piece)
    (hline : newline ∉ piece) : Storable q := by
  have hsub : ∀ c ∈ piece.rdropWhile isBlank, c ∈ piece := fun c hc =>
    (List.rdropWhile_prefix isBlank piece).subset hc
  have hbytes : q.bytes = piece.rdropWhile isBlank := by
    rw [hq.bytes]
    exact cstr_of_notMem fun h => hzero (hsub _ h)
  have hne : piece.rdropWhile isBlank ≠ [] := hbytes ▸ hq.ne_nil
  refine ⟨?_, ?_, ?_⟩
  · rw [hbytes]
    exact fun h => hline (hsub _ h)
  · intro c hc
    rw [hbytes, List.getLast?_eq_some_getLast hne] at hc
    cases hc
    have := List.rdropWhile_last_not isBlank piece hne
    simpa using this
  · rw [hbytes, head?_rdropWhile hne]
    exact hq.rule

theorem Storable.rdropWhile_append (hp : Storable p) (hne : p.bytes ≠ [])
    (e : List UInt8) :
    (e ++ p.bytes).rdropWhile isBlank = e ++ p.bytes := by
  rw [List.rdropWhile_eq_self_iff]
  intro hl
  have hlast : isBlank ((e ++ p.bytes).getLast hl) = false := by
    apply hp.last
    rw [List.getLast_append_of_ne_nil hl hne]
    exact List.getLast?_eq_some_getLast hne
  rw [hlast]
  exact Bool.false_ne_true

theorem Storable.addLine (hp : Storable p) (hne : p.bytes ≠ [])
    (t : Table) : addLine t p.bytes = (t.add p).2 := by
  have hself : p.bytes.rdropWhile isBlank = p.bytes :=
    hp.rdropWhile_append hne []
  have hcstr : cstr p.bytes = p.bytes := cstr_of_notMem p.terminated
  have hnames : Names p.bytes p :=
    ⟨hne, by rw [hself]; exact p.short, hp.rule, by rw [hself, hcstr]⟩
  obtain ⟨-, hnone⟩ | ⟨q, heq, hbytes, -⟩ := addLine_cases t p.bytes
  · exact absurd hnames (hnone p)
  · rw [hself, hcstr] at hbytes
    rw [heq, AppPath.ext hbytes]

theorem length_rdropWhile_le_append (e s : List UInt8) :
    (e.rdropWhile isBlank).length ≤ ((e ++ s).rdropWhile isBlank).length := by
  induction s using List.reverseRecOn with
  | nil => rw [List.append_nil]
  | append_singleton s c ih =>
    rw [← List.append_assoc]
    cases hc : isBlank c with
    | true =>
      rw [List.rdropWhile_concat_pos _ _ _ hc]
      exact ih
    | false =>
      rw [List.rdropWhile_concat_neg _ _ _ (by simp [hc]), List.append_assoc,
        List.length_append]
      exact le_trans (List.rdropWhile_prefix isBlank e).length_le
        (Nat.le_add_right _ _)

theorem names_append (hzero : 0 ∈ e) (hq : Names (e ++ s) q) : Names e q := by
  obtain ⟨a, x, b, rfl, ha, hx⟩ :=
    Fields.cut_at_first (q := fun c : UInt8 => decide (c ≠ 0)) (l := e)
      ⟨0, hzero, by decide⟩
  have hx0 : x = 0 := by simpa using hx
  subst hx0
  have hlong : ((a ++ 0 :: (b ++ s)).rdropWhile isBlank)
      = a ++ 0 :: (b ++ s).rdropWhile isBlank :=
    Fields.rdropWhile_append_cons isBlank_zero
  have hshort : ((a ++ 0 :: b).rdropWhile isBlank)
      = a ++ 0 :: b.rdropWhile isBlank :=
    Fields.rdropWhile_append_cons isBlank_zero
  have hcut : ∀ m, cstr (a ++ 0 :: m) = a := fun m =>
    Fields.takeWhile_sep ha hx
  have hlen := hq.short
  have hrule := hq.rule
  have hbytes := hq.bytes
  rw [List.append_assoc, List.cons_append, hlong] at hlen hbytes
  rw [hcut] at hbytes
  refine ⟨hq.ne_nil, ?_, ?_, ?_⟩
  · rw [hshort]
    refine lt_of_le_of_lt ?_ hlen
    rw [List.length_append, List.length_append, List.length_cons,
      List.length_cons]
    have := length_rdropWhile_le_append b s
    omega
  · cases a with
    | nil => exact hrule
    | cons c a => exact hrule
  · rw [hshort, hcut, hbytes]

end lines

-- ==== reading

/-- The text that remembering the paths appends. -/
def encode (qs : List AppPath) : List UInt8 :=
  qs.flatMap fun q => q.bytes ++ [newline]

section reading

variable {t : Table} {p q : AppPath} {qs : List AppPath}
  {ls : List (List UInt8)} {data x y : List UInt8}

theorem encode_cons (q : AppPath) (qs : List AppPath) :
    encode (q :: qs) = q.bytes ++ newline :: encode qs := by
  unfold encode
  rw [List.flatMap_cons, List.append_assoc, List.singleton_append]

theorem encode_concat (qs : List AppPath) (q : AppPath) :
    encode (qs ++ [q]) = encode qs ++ (q.bytes ++ [newline]) := by
  unfold encode
  rw [List.flatMap_append, List.flatMap_singleton]

theorem zero_notMem_encode (qs : List AppPath) : 0 ∉ encode qs := by
  intro h
  obtain ⟨q, -, hq⟩ := List.mem_flatMap.mp h
  cases List.mem_append.mp hq with
  | inl hbytes => exact q.terminated hbytes
  | inr hnew => exact absurd (List.mem_singleton.mp hnew) (by decide)

theorem mem_foldl (h : q ∈ (ls.foldl addLine t).apps) :
    q ∈ t.apps ∨ ∃ l ∈ ls, Names l q := by
  induction ls generalizing t with
  | nil => exact Or.inl h
  | cons l ls ih =>
    cases ih h with
    | inl hold =>
      cases mem_addLine hold with
      | inl ht => exact Or.inl ht
      | inr hl => exact Or.inr ⟨l, List.mem_cons_self, hl⟩
    | inr hlater =>
      obtain ⟨m, hm, hnames⟩ := hlater
      exact Or.inr ⟨m, List.mem_cons_of_mem _ hm, hnames⟩

@[simp] theorem readRules_nil : readRules t [] = t := by
  simp [readRules]

theorem readRules_append_cons (t : Table) (x y : List UInt8) :
    readRules t (x ++ newline :: y) = readRules (readRules t x) y := by
  unfold readRules
  rw [List.splitOn_append_cons_self, List.foldl_append]

theorem Terminated.readRules (h : Terminated data) (t : Table)
    (y : List UInt8) :
    readRules t (data ++ y) = readRules (readRules t data) y := by
  cases h with
  | inl hnil => rw [hnil, readRules_nil, List.nil_append]
  | inr hlast =>
    obtain ⟨x, rfl⟩ := List.getLast?_eq_some_iff.mp hlast
    rw [List.append_assoc, List.singleton_append, readRules_append_cons,
      readRules_append_cons, readRules_nil]

theorem readRules_encode (hstorable : ∀ q ∈ qs, Storable q)
    (hne : ∀ q ∈ qs, q.bytes ≠ []) (hnodup : (t.apps ++ qs).Nodup)
    (hfits : (t.apps ++ qs).length ≤ maxAllowedApps) :
    (readRules t (encode qs)).apps = t.apps ++ qs := by
  induction qs generalizing t with
  | nil =>
    rw [List.append_nil]
    exact congrArg Table.apps readRules_nil
  | cons q qs ih =>
    have hq := hstorable q List.mem_cons_self
    have hnew : q ∉ t.apps := by
      intro hmem
      exact (List.nodup_append.mp hnodup).2.2 q hmem q List.mem_cons_self rfl
    have hroom : t.apps.length < maxAllowedApps := by
      rw [List.length_append, List.length_cons] at hfits
      omega
    have hline : readRules t q.bytes = (t.add q).2 := by
      show (q.bytes.splitOn newline).foldl addLine t = _
      rw [List.splitOn_eq_singleton hq.line]
      exact hq.addLine (hne q List.mem_cons_self) t
    have hadd := (Table.add_new (hne q List.mem_cons_self) hnew hroom).2
    rw [List.append_cons] at hnodup hfits
    rw [encode_cons, readRules_append_cons, hline, ih, hadd,
      List.append_assoc, List.singleton_append]
    · exact fun r hr => hstorable r (List.mem_cons_of_mem _ hr)
    · exact fun r hr => hne r (List.mem_cons_of_mem _ hr)
    · rw [hadd]
      exact hnodup
    · rw [hadd]
      exact hfits

theorem splitOn_behind {init : List (List UInt8)} {e s : List UInt8}
    (hdata : data.splitOn newline = init ++ [e]) (hs : newline ∉ s)
    (y : List UInt8) :
    (data ++ (s ++ newline :: y)).splitOn newline
      = init ++ [e ++ s] ++ y.splitOn newline := by
  rw [← List.append_assoc, List.splitOn_append_cons_self,
    Fields.splitOn_append hdata hs]

theorem exists_last_piece (data : List UInt8) :
    ∃ init e, data.splitOn newline = init ++ [e] := by
  obtain ⟨init, e, hinit⟩ :=
    (List.eq_nil_or_concat (data.splitOn newline)).resolve_left
      (List.splitOn_ne_nil _ _)
  exact ⟨init, e, hinit.trans (List.concat_eq_append)⟩

theorem terminated_of_last_nil {init : List (List UInt8)}
    (h : data.splitOn newline = init ++ [[]]) : Terminated data := by
  induction data using List.reverseRecOn with
  | nil => exact Or.inl rfl
  | append_singleton x c _ =>
    by_cases hc : newline = c
    · rw [← hc]
      exact Or.inr List.getLast?_concat
    · obtain ⟨init', e, hx⟩ := exists_last_piece x
      rw [Fields.splitOn_append hx (by simpa using hc)] at h
      have hlast := (List.append_inj' h rfl).2
      simp at hlast

theorem reread_cases {init : List (List UInt8)} {e s : List UInt8}
    (hdata : data.splitOn newline = init ++ [e]) (hs : newline ∉ s)
    (hroom : (readRules t data).apps.length < maxAllowedApps)
    (hnew : q ∉ (readRules t data).apps)
    (h : q ∈ (readRules t (data ++ (s ++ newline :: y))).apps) :
    (0 ∉ e ∧ Names (e ++ s) q) ∨ ∃ l ∈ y.splitOn newline, Names l q := by
  have hbefore : readRules t data = addLine (init.foldl addLine t) e := by
    unfold readRules
    rw [hdata, List.foldl_append]
    rfl
  rw [hbefore] at hnew hroom
  unfold readRules at h
  rw [splitOn_behind hdata hs, List.foldl_append] at h
  cases mem_foldl h with
  | inr hlater => exact Or.inr hlater
  | inl hfirst =>
    rw [List.foldl_append] at hfirst
    cases mem_addLine hfirst with
    | inl hold => exact absurd (subset_addLine hold) hnew
    | inr hnames =>
      refine Or.inl ⟨?_, hnames⟩
      intro hzero
      exact hnew ((names_append hzero hnames).mem hroom)

theorem newline_mem_encode (q : AppPath) (qs : List AppPath) :
    newline ∈ encode (q :: qs) := by
  rw [encode_cons]
  exact List.mem_append_right _ List.mem_cons_self

theorem storable_of_reread
    (hroom : (readRules t data).apps.length < maxAllowedApps)
    (hnew : q ∉ (readRules t data).apps) (hqs : qs ≠ [])
    (h : q ∈ (readRules t (data ++ encode qs)).apps) : Storable q := by
  have hmem : newline ∈ encode qs := by
    cases qs with
    | nil => exact absurd rfl hqs
    | cons r rs => exact newline_mem_encode r rs
  have hzero := zero_notMem_encode qs
  obtain ⟨s, x, y, hy, hs, hx⟩ :=
    Fields.cut_at_first (q := fun c : UInt8 => decide (c ≠ newline))
      ⟨newline, hmem, by decide⟩
  have hxn : x = newline := by simpa using hx
  have hnot : newline ∉ s := fun h => by simpa using hs _ h
  rw [hxn] at hy
  rw [hy] at h hzero
  rw [List.mem_append, List.mem_cons, not_or, not_or] at hzero
  obtain ⟨init, e, hdata⟩ := exists_last_piece data
  obtain ⟨he, hnames⟩ | ⟨l, hl, hnames⟩ :=
    reread_cases hdata hnot hroom hnew h
  · refine hnames.storable ?_ ?_
    · rw [List.mem_append, not_or]
      exact ⟨he, hzero.1⟩
    · rw [List.mem_append, not_or]
      have hpiece : e ∈ data.splitOn newline :=
        hdata ▸ List.mem_append_right _ (List.mem_singleton_self e)
      exact ⟨Fields.sep_notMem_of_splitOn hpiece, hnot⟩
  · refine hnames.storable ?_ (Fields.sep_notMem_of_splitOn hl)
    intro h0
    exact hzero.2.2 (Fields.mem_of_mem_splitOn hl h0)

theorem names_encode (hstorable : ∀ r ∈ qs, Storable r)
    (hne : ∀ r ∈ qs, r.bytes ≠ []) {l : List UInt8}
    (hl : l ∈ (encode qs).splitOn newline) (h : Names l q) : q ∈ qs := by
  induction qs with
  | nil =>
    rw [show encode [] = [] from rfl, List.splitOn_nil,
      List.mem_singleton] at hl
    rw [hl] at h
    exact absurd h.bytes h.ne_nil
  | cons r rs ih =>
    have hr := hstorable r List.mem_cons_self
    rw [encode_cons, List.splitOn_append_cons_self,
      List.splitOn_eq_singleton hr.line, List.singleton_append] at hl
    cases List.mem_cons.mp hl with
    | inl heq =>
      have hself : r.bytes.rdropWhile isBlank = r.bytes :=
        hr.rdropWhile_append (hne r List.mem_cons_self) []
      have hbytes := h.bytes
      rw [heq, hself, cstr_of_notMem r.terminated] at hbytes
      rw [AppPath.ext hbytes]
      exact List.mem_cons_self
    | inr hrest =>
      exact List.mem_cons_of_mem _
        (ih (fun r hr => hstorable r (List.mem_cons_of_mem _ hr))
          (fun r hr => hne r (List.mem_cons_of_mem _ hr)) hrest)

theorem terminated_of_reread (hstorable : ∀ r ∈ q :: qs, Storable r)
    (hne : ∀ r ∈ q :: qs, r.bytes ≠ []) (hq : q ∉ qs)
    (hroom : (readRules t data).apps.length < maxAllowedApps)
    (hnew : q ∉ (readRules t data).apps)
    (h : q ∈ (readRules t (data ++ encode (q :: qs))).apps) :
    Terminated data := by
  have hstore := hstorable q List.mem_cons_self
  have hbytes := hne q List.mem_cons_self
  obtain ⟨init, e, hdata⟩ := exists_last_piece data
  rw [encode_cons] at h
  obtain ⟨he, hnames⟩ | ⟨l, hl, hnames⟩ :=
    reread_cases hdata hstore.line hroom hnew h
  · have hnot : 0 ∉ e ++ q.bytes := by
      rw [List.mem_append, not_or]
      exact ⟨he, q.terminated⟩
    have heq := hnames.bytes
    rw [hstore.rdropWhile_append hbytes, cstr_of_notMem hnot] at heq
    have hnil : e = [] := by
      have := congrArg List.length heq
      rw [List.length_append] at this
      exact List.eq_nil_of_length_eq_zero (by omega)
    rw [hnil] at hdata
    exact terminated_of_last_nil hdata
  · refine absurd (names_encode ?_ ?_ hl hnames) hq
    · exact fun r hr => hstorable r (List.mem_cons_of_mem _ hr)
    · exact fun r hr => hne r (List.mem_cons_of_mem _ hr)

end reading

-- ==== runs

/-- The rules of a disk that can be read, with `qs` added since. -/
structure Saved (v : Volume) (qs : List AppPath) (s : Rules) : Prop where
  path : (buildPermRulePath v).isSome
  loaded : s.loaded = true
  mount : s.volume.mount = v.mount
  ruleFile : s.volume.ruleFile = v.ruleFile ++ encode qs
  apps : s.permanent.apps = (readRules Table.empty v.ruleFile).apps ++ qs
  ne_nil : ∀ q ∈ qs, q.bytes ≠ []

section runs

variable {v w : Volume} {s s' : Rules} {a : Append} {p : AppPath}
  {qs : List AppPath} {ds : List (Append × AppPath)}

theorem buildPermRulePath_congr (h : w.mount = v.mount) :
    buildPermRulePath w = buildPermRulePath v := by
  unfold buildPermRulePath
  rw [h]

theorem Rules.load_of_loaded (h : s.loaded = true) : s.load = s := if_pos h

theorem Rules.load_of_none (h : buildPermRulePath s.volume = none) :
    s.load = s := by
  unfold Rules.load
  rw [h, ite_self]

theorem Rules.load_of_some (hloaded : s.loaded = false)
    (h : (buildPermRulePath s.volume).isSome) :
    s.load = { s with
      loaded := true
      permanent := readRules s.permanent s.volume.ruleFile } := by
  obtain ⟨path, hpath⟩ := Option.isSome_iff_exists.mp h
  unfold Rules.load
  rw [hloaded, hpath]
  rfl

theorem saved_opened (h : (buildPermRulePath v).isSome) :
    Saved v [] (Rules.opened v) := by
  unfold Rules.opened
  rw [Rules.load_of_some rfl h]
  exact ⟨h, rfl, rfl, (List.append_nil _).symm, (List.append_nil _).symm,
    fun _ hq => nomatch hq⟩

theorem Saved.remember (hs : Saved v qs s)
    (h : s.remember a p = (true, s')) :
    (s' = s ∧ p ∈ s.permanent.apps) ∨ Saved v (qs ++ [p]) s' := by
  have hpath : (buildPermRulePath s.volume).isSome :=
    buildPermRulePath_congr hs.mount ▸ hs.path
  obtain ⟨path, hsome⟩ := Option.isSome_iff_exists.mp hpath
  unfold Rules.remember at h
  rw [Rules.load_of_loaded hs.loaded] at h
  unfold appendPermanentRule Table.find diskAppend at h
  simp only [hsome] at h
  by_cases hnil : p.bytes = []
  · rw [if_pos hnil] at h
    cases h
  simp only [hnil, if_false, decide_not, decide_false, Bool.not_false,
    Bool.true_and, List.contains_iff_mem] at h
  by_cases hfind : p ∈ s.permanent.apps
  · rw [if_pos hfind] at h
    cases h
    exact Or.inl ⟨rfl, hfind⟩
  rw [if_neg hfind] at h
  cases hdone : a.done with
  | false =>
    rw [hdone] at h
    cases h
  | true =>
    rw [hdone] at h
    cases hadd : s.permanent.add p with
    | mk added permanent =>
      rw [hadd] at h
      cases h
      have happs := (Table.add_true hfind (by rw [hadd])).2
      rw [hadd] at happs
      refine Or.inr ⟨hs.path, hs.loaded, hs.mount, ?_, ?_, ?_⟩
      · show s.volume.ruleFile ++ (p.bytes ++ [newline]) = _
        rw [hs.ruleFile, encode_concat, List.append_assoc]
      · show permanent.apps = _
        rw [happs, hs.apps, List.append_assoc]
      · intro q hq
        cases List.mem_append.mp hq with
        | inl hold => exact hs.ne_nil q hold
        | inr hnew =>
          rw [List.mem_singleton.mp hnew]
          exact hnil

theorem Saved.rememberAll (hs : Saved v qs s)
    (h : s.rememberAll ds = some s') :
    ∃ rs, Saved v (qs ++ rs) s' ∧ (∀ r ∈ rs, ∃ x ∈ ds, x.2 = r) ∧
      ∀ x ∈ ds, x.2 ∈ s'.permanent.apps := by
  induction ds generalizing qs s with
  | nil =>
    cases h
    exact ⟨[], by rwa [List.append_nil], (fun _ hr => nomatch hr),
      (fun _ hx => nomatch hx)⟩
  | cons d ds ih =>
    obtain ⟨a, p⟩ := d
    unfold Rules.rememberAll at h
    cases hstep : s.remember a p with
    | mk ok s1 =>
      rw [hstep] at h
      cases ok with
      | false => cases h
      | true =>
        -- What is in the table stays there.
        have hkept : ∀ {us rs}, Saved v us s1 → Saved v (us ++ rs) s' →
            p ∈ s1.permanent.apps → p ∈ s'.permanent.apps := by
          intro us rs hs1 hs' hp
          rw [hs1.apps] at hp
          rw [hs'.apps, ← List.append_assoc]
          exact List.mem_append_left _ hp
        obtain ⟨rfl, hp⟩ | hs1 := hs.remember hstep
        · obtain ⟨rs, hs', hfrom, hall⟩ := ih hs h
          refine ⟨rs, hs', ?_, ?_⟩
          · intro r hr
            obtain ⟨x, hx, hxr⟩ := hfrom r hr
            exact ⟨x, List.mem_cons_of_mem _ hx, hxr⟩
          · intro x hx
            cases List.mem_cons.mp hx with
            | inl heq =>
              rw [heq]
              exact hkept hs hs' hp
            | inr hrest => exact hall x hrest
        · obtain ⟨rs, hs', hfrom, hall⟩ := ih hs1 h
          rw [List.append_assoc] at hs'
          refine ⟨[p] ++ rs, hs', ?_, ?_⟩
          · intro r hr
            cases List.mem_append.mp hr with
            | inl hhead =>
              rw [List.mem_singleton.mp hhead]
              exact ⟨(a, p), List.mem_cons_self, rfl⟩
            | inr hrest =>
              obtain ⟨x, hx, hxr⟩ := hfrom r hrest
              exact ⟨x, List.mem_cons_of_mem _ hx, hxr⟩
          · intro x hx
            cases List.mem_cons.mp hx with
            | inl heq =>
              rw [heq]
              rw [← List.append_assoc] at hs'
              refine hkept hs1 hs' ?_
              rw [hs1.apps]
              simp
            | inr hrest => exact hall x hrest

theorem Saved.reload (hs : Saved v qs s) :
    s.reload.permanent
      = readRules Table.empty (v.ruleFile ++ encode qs) := by
  have hpath : (buildPermRulePath s.volume).isSome :=
    buildPermRulePath_congr hs.mount ▸ hs.path
  show s.clear.load.permanent = _
  rw [Rules.load_of_some (s := s.clear) rfl hpath]
  show readRules Table.empty s.volume.ruleFile = _
  rw [hs.ruleFile]

theorem rememberAll_of_none (h : buildPermRulePath v = none)
    (hrun : (Rules.opened v).rememberAll ds = some s) :
    ds = [] ∧ s = ⟨false, Table.empty, v⟩ := by
  unfold Rules.opened at hrun
  rw [Rules.load_of_none h] at hrun
  cases ds with
  | nil =>
    cases hrun
    exact ⟨rfl, rfl⟩
  | cons d ds =>
    obtain ⟨a, p⟩ := d
    unfold Rules.rememberAll Rules.remember at hrun
    rw [Rules.load_of_none h] at hrun
    unfold appendPermanentRule Table.find at hrun
    simp only [h, Table.empty, List.contains_nil, Bool.and_false,
      Bool.false_eq_true, if_false, ite_self] at hrun
    cases hrun

end runs

-- ==== the round trip

/-- The table that is read back holds the same paths. -/
def SameApps (s : Rules) : Prop :=
  ∀ p, p ∈ s.reload.permanent.apps ↔ p ∈ s.permanent.apps

/-- Reading the rule file again gives the same applications exactly if
every path that was remembered was allowed by the file before, or is
storable and was appended to a terminated file. -/
theorem remembered_reload_iff {v : Volume} {ds : List (Append × AppPath)}
    {s : Rules} (hrun : (Rules.opened v).rememberAll ds = some s) :
    SameApps s ↔
      ∀ x ∈ ds, x.2 ∈ (Rules.opened v).permanent.apps ∨
        (Terminated v.ruleFile ∧ Storable x.2) := by
  cases hpath : buildPermRulePath v with
  | none =>
    obtain ⟨rfl, rfl⟩ := rememberAll_of_none hpath hrun
    refine iff_of_true ?_ (fun _ hx => nomatch hx)
    intro p
    unfold Rules.reload Rules.clear
    rw [Rules.load_of_none hpath]
  | some path =>
    have hsome : (buildPermRulePath v).isSome := by rw [hpath]; rfl
    have hopened := saved_opened hsome
    obtain ⟨qs, hs, hfrom, hall⟩ := hopened.rememberAll hrun
    rw [List.nil_append] at hs
    have hbefore : (Rules.opened v).permanent.apps
        = (readRules Table.empty v.ruleFile).apps := by
      rw [hopened.apps, List.append_nil]
    have hnodup := s.permanent.nodup
    have hfits := s.permanent.fits
    rw [hs.apps] at hnodup hfits
    have hnew : ∀ q ∈ qs, q ∉ (readRules Table.empty v.ruleFile).apps :=
      fun q hq hold => (List.nodup_append.mp hnodup).2.2 q hold q hq rfl
    unfold SameApps
    rw [hs.reload, hs.apps, hbefore]
    constructor
    · intro hsame x hx
      have hmem := hall x hx
      rw [hs.apps] at hmem
      refine (List.mem_append.mp hmem).imp_right fun hxq => ?_
      have hroom : (readRules Table.empty v.ruleFile).apps.length
          < maxAllowedApps := by
        have := List.length_pos_of_mem hxq
        rw [List.length_append] at hfits
        omega
      have hback : ∀ q ∈ qs, q ∈ (readRules Table.empty
          (v.ruleFile ++ encode qs)).apps :=
        fun q hq => (hsame q).mpr (List.mem_append_right _ hq)
      have hstorable : ∀ q ∈ qs, Storable q := fun q hq =>
        storable_of_reread hroom (hnew q hq) (List.ne_nil_of_mem hq)
          (hback q hq)
      refine ⟨?_, hstorable _ hxq⟩
      cases qs with
      | nil => cases hxq
      | cons q qs =>
        have hq : q ∉ qs :=
          (List.nodup_cons.mp (List.nodup_append.mp hnodup).2.1).1
        exact terminated_of_reread hstorable hs.ne_nil hq hroom
          (hnew q List.mem_cons_self) (hback q List.mem_cons_self)
    · intro hgood
      have hboth : ∀ q ∈ qs, Terminated v.ruleFile ∧ Storable q := by
        intro q hq
        obtain ⟨x, hx, rfl⟩ := hfrom q hq
        exact (hgood x hx).resolve_left (hnew _ hq)
      cases hqs : qs with
      | nil =>
        intro p
        rw [show encode [] = [] from rfl, List.append_nil, List.append_nil]
      | cons q rest =>
        rw [← hqs]
        have hend : Terminated v.ruleFile :=
          (hboth q (hqs ▸ List.mem_cons_self)).1
        intro p
        rw [hend.readRules, readRules_encode (fun q hq => (hboth q hq).2)
          hs.ne_nil hnodup hfits]

-- ==== examples

/-- `/shell/b.elf`. -/
def shellB : AppPath := ⟨txt "/shell/b.elf", by decide, by decide⟩

/-- A disk whose rule file ends with a newline, and one whose rule file
does not. -/
def endedVolume : Volume := ⟨some (txt "/temp/disk"), txt "/shell/a.elf\n"⟩

def brokenVolume : Volume := ⟨some (txt "/temp/disk"), txt "/shell/a.elf"⟩

/-- A path that comes back. -/
theorem remembered_reload_ended :
    ∃ s, (Rules.opened endedVolume).rememberAll [(⟨true, []⟩, shellB)] = some s ∧
      SameApps s := by
  have hrun : ((Rules.opened endedVolume).rememberAll
      [(⟨true, []⟩, shellB)]).isSome := by decide +kernel
  obtain ⟨s, hs⟩ := Option.isSome_iff_exists.mp hrun
  refine ⟨s, hs, (remembered_reload_iff hs).mpr ?_⟩
  intro x hx
  rw [List.mem_singleton.mp hx]
  refine Or.inr ⟨Or.inr (by decide +kernel), by decide +kernel, ?_, by decide +kernel⟩
  intro c hc
  have hlast : shellB.bytes.getLast? = some (chr 'f') := by decide +kernel
  rw [hlast] at hc
  cases hc
  decide

/-- A path that does not: it continues the last line of the file, and the
two come back as one. -/
theorem remembered_reload_broken :
    ∃ s, (Rules.opened brokenVolume).rememberAll [(⟨true, []⟩, shellB)] = some s ∧
      ¬ SameApps s := by
  have hrun : ((Rules.opened brokenVolume).rememberAll
      [(⟨true, []⟩, shellB)]).any (fun s => decide
        (shellB ∈ s.permanent.apps ∧ shellB ∉ s.reload.permanent.apps))
          = true := by decide +kernel
  obtain ⟨s, hs, hlost⟩ := (Option.any_eq_true ..).mp hrun
  have hlost := of_decide_eq_true hlost
  exact ⟨s, hs, fun hsame => hlost.2 ((hsame shellB).mpr hlost.1)⟩

end Clks.Usc
