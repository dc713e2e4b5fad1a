/-
Writing the database anew.

A change of one user copies all other lines and builds the line of the
changed record anew, in a buffer of 192 bytes. A record that does not fit
loses the end of its line, newline included, and the line behind it is
lost in it; and a record that stands in the text more than once is
replaced by the first one everywhere (`rewriting_iff`).
-/
import Clks.User.Creating

namespace Clks.User

-- ==== what is copied over

section chunks

variable {name piece line : List UInt8} {r : Record} {w w' : Rewriting}
  {pieces : List (List UInt8)} {replace : Option Record}
  {remove : Option (List UInt8)}

theorem length_cutLine_le (piece : List UInt8) :
    (cutLine piece).length ≤ min piece.length (recordMax - 1) := by
  have h1 := (List.takeWhile_prefix (· ≠ (0 : UInt8))
    (l := piece.take (recordMax - 1))).length_le
  rw [List.length_take, Nat.min_comm] at h1
  exact h1

theorem cutLine_cutLine (piece : List UInt8) :
    cutLine (cutLine piece) = cutLine piece := by
  have hlen := Nat.le_trans (length_cutLine_le piece) (Nat.min_le_right _ _)
  rw [cutLine, List.take_of_length_le hlen, cstr]
  unfold cutLine cstr
  rw [List.takeWhile_takeWhile]
  simp

theorem newline_notMem_cutLine (h : newline ∉ piece) :
    newline ∉ cutLine piece := fun hc =>
  h (List.mem_of_mem_take ((List.takeWhile_sublist _).mem hc))

theorem parseRecord_nil : parseRecord [] = none := by decide

/-- What stands in the new text for a line: `line` for the record of the
name, and the line itself for all others. -/
def chunk (name line piece : List UInt8) : List UInt8 :=
  match parseLine piece with
  | some r => if r.name = name then line else cutLine piece ++ [newline]
  | none =>
    if cutLine piece = [] then [] else cutLine piece ++ [newline]

/-- The new text for some lines. -/
def copied (name line : List UInt8) (pieces : List (List UInt8)) :
    List UInt8 :=
  pieces.flatMap (chunk name line)

/-- Is the line a record of the name? -/
def isTarget (name piece : List UInt8) : Bool :=
  match parseLine piece with
  | some r => r.name = name
  | none => false

/-- A text as long as it is taken to be, at most. -/
def Rewriting.Measured (w : Rewriting) : Prop := w.nextDb.length ≤ w.nextLen

theorem append_room {size : Nat} {dst src : List UInt8}
    (h : dst.length + src.length < size) : append size dst src = dst ++ src := by
  unfold append copy
  rw [if_neg (by omega), List.take_of_length_le (by omega)]

theorem emitOriginal_some {lineLen : Nat}
    (hw : w.Measured) (hlen : line.length ≤ lineLen)
    (h : emitOriginal line lineLen w = some w') :
    w'.Measured ∧ w'.found = w.found ∧
      w'.nextDb = w.nextDb ++ (if line = [] then [] else line ++ [newline]) := by
  unfold emitOriginal at h
  unfold Rewriting.Measured at hw ⊢
  split_ifs at h with hnil hroom
  · cases h
    rw [if_pos hnil, List.append_nil]
    exact ⟨hw, rfl, rfl⟩
  · cases h
    have hsmall : w.nextDb.length + line.length + 1 < dbMax := by omega
    rw [append_room (by omega : w.nextDb.length + line.length < dbMax),
      append_room (by
        rw [List.length_append, List.length_singleton]
        exact hsmall)]
    rw [if_neg hnil]
    refine ⟨?_, rfl, List.append_assoc _ _ _⟩
    simp only [List.length_append, List.length_cons, List.length_nil]
    omega

/-- What is asked for: the name, and the line that replaces the one of its
record, nothing if it is removed. -/
inductive Job : Option Record → Option (List UInt8) → List UInt8 →
    List UInt8 → Prop
  | replace (new : Record) : Job (some new) none new.name (recordLine new)
  | remove (name : List UInt8) : Job none (some name) name []

theorem rewriteLine_some (hjob : Job replace remove name line)
    (hw : w.Measured) (h : rewriteLine replace remove w piece = some w') :
    w'.Measured ∧ w'.found = (w.found || isTarget name piece) ∧
      w'.nextDb = w.nextDb ++ chunk name line piece := by
  unfold rewriteLine at h
  unfold chunk isTarget parseLine
  simp only [] at h
  cases hp : parseRecord (cutLine piece) with
  | none =>
    rw [hp] at h
    obtain ⟨hw', hfound, hdb⟩ :=
      emitOriginal_some hw (length_cutLine_le piece) h
    exact ⟨hw', by rw [hfound, Bool.or_false], hdb⟩
  | some r =>
    have hline : cutLine piece ≠ [] := by
      intro hnil
      rw [hnil, parseRecord_nil] at hp
      cases hp
    rw [hp] at h
    -- The line of another record.
    have hother : r.name ≠ name →
        emitOriginal (cutLine piece) (min piece.length (recordMax - 1)) w
          = some w' →
        w'.Measured ∧ w'.found = (w.found || decide (r.name = name)) ∧
          w'.nextDb = w.nextDb ++
            if r.name = name then line else cutLine piece ++ [newline] := by
      intro hname hemit
      obtain ⟨hw', hfound, hdb⟩ :=
        emitOriginal_some hw (length_cutLine_le piece) hemit
      rw [if_neg hline] at hdb
      rw [if_neg hname, decide_eq_false hname, Bool.or_false]
      exact ⟨hw', hfound, hdb⟩
    cases hjob with
    | replace new =>
      simp only [reduceCtorEq, if_false] at h
      split_ifs at h with hname hroom
      · cases h
        simp only [hname, if_true, decide_true, Bool.or_true, true_and]
        unfold Rewriting.Measured at hw ⊢
        have hfit : w.nextDb.length + (recordLine new).length < dbMax := by
          omega
        simp only [append_room hfit, List.length_append, and_true]
        omega
      · exact hother hname h
    | remove name =>
      simp only [Option.some.injEq] at h
      split_ifs at h with hname
      · cases h
        simp only [hname, if_true, decide_true, Bool.or_true,
          List.append_nil, and_true]
        exact hw
      · exact hother (Ne.symm hname) h

theorem foldlM_rewriteLine (hjob : Job replace remove name line)
    (hw : w.Measured)
    (h : pieces.foldlM (rewriteLine replace remove) w = some w') :
    w'.found = (w.found || pieces.any (isTarget name)) ∧
      w'.nextDb = w.nextDb ++ copied name line pieces := by
  induction pieces generalizing w with
  | nil =>
    cases h
    unfold copied
    simp
  | cons piece pieces ih =>
    rw [List.foldlM_cons] at h
    obtain ⟨w1, hstep, hrest⟩ := Option.bind_eq_some_iff.mp h
    obtain ⟨hw1, hfound, hdb⟩ := rewriteLine_some hjob hw hstep
    obtain ⟨hfound', hdb'⟩ := ih hw1 hrest
    refine ⟨?_, ?_⟩
    · rw [hfound', hfound, List.any_cons, Bool.or_assoc]
    · rw [hdb', hdb, copied, copied, List.flatMap_cons, List.append_assoc]

theorem rewriteText_some {text next : List UInt8}
    (hjob : Job replace remove name line)
    (h : rewriteText replace remove text = some next) :
    (∃ piece ∈ text.splitOn newline, isTarget name piece = true) ∧
      next = copied name line (text.splitOn newline) := by
  unfold rewriteText at h
  split at h
  · next w hfold =>
    obtain ⟨hfound, hdb⟩ :=
      foldlM_rewriteLine (w := ⟨[], 0, false⟩) hjob (Nat.le_refl 0) hfold
    split_ifs at h with htarget
    cases h
    rw [hfound, Bool.false_or, List.any_eq_true] at htarget
    exact ⟨htarget, hdb⟩
  · cases h

end chunks

-- ==== the records of a copy

/-- Every line that is not empty is a record. -/
def AllParse (text : List UInt8) : Prop :=
  ∀ piece ∈ text.splitOn newline, piece = [] ∨ (parseLine piece).isSome

/-- The records with a change of those of a name. -/
def changed (name : List UInt8) (change : Record → Option Record)
    (rs : List Record) : List Record :=
  rs.filterMap fun r => if r.name = name then change r else some r

section copies

variable {text name line piece rest : List UInt8} {r : Record}
  {rs : List Record} {change : Record → Option Record}
  {new : Option Record} {pieces : List (List UInt8)}

theorem changed_cons :
    changed name change (r :: rs)
      = (if r.name = name then change r else some r).toList
        ++ changed name change rs := by
  unfold changed
  rw [List.filterMap_cons]
  split <;> simp_all

theorem records_nil : records [] = [] := by decide

theorem records_line (h : newline ∉ line) :
    records line = (parseLine line).toList := by
  unfold records
  rw [List.splitOn_eq_singleton h]
  cases hp : parseLine line <;> simp [hp]

theorem records_cons (h : newline ∉ line) :
    records (line ++ newline :: rest)
      = (parseLine line).toList ++ records rest := by
  have hsplit : (line ++ newline :: rest).splitOn newline
      = [line] ++ rest.splitOn newline := by
    rw [List.splitOn_append_cons_self, List.splitOn_eq_singleton h]
  unfold records
  rw [hsplit, List.filterMap_append]
  cases hp : parseLine line <;> simp [hp]

theorem parseLine_cutLine (piece : List UInt8) :
    parseLine (cutLine piece) = parseLine piece := by
  unfold parseLine
  rw [cutLine_cutLine]

theorem isTarget_iff :
    isTarget name piece = true ↔ ∃ r, parseLine piece = some r ∧ r.name = name := by
  unfold isTarget
  cases parseLine piece with
  | none => simp
  | some r => simp

theorem chunk_other (hpiece : newline ∉ piece)
    (hlegal : piece = [] ∨ (parseLine piece).isSome)
    (hother : isTarget name piece = false) :
    records (chunk name line piece ++ rest)
      = (parseLine piece).toList ++ records rest := by
  unfold chunk
  cases hp : parseLine piece with
  | none =>
    have hnil : piece = [] := by
      cases hlegal with
      | inl h => exact h
      | inr h =>
        rw [hp] at h
        cases h
    rw [hnil]
    rfl
  | some r =>
    have hname : r.name ≠ name := by
      intro heq
      rw [isTarget_iff.mpr ⟨r, hp, heq⟩] at hother
      cases hother
    simp only [hname, if_false]
    rw [List.append_assoc, List.singleton_append,
      records_cons (newline_notMem_cutLine hpiece), parseLine_cutLine, hp]

theorem records_copied
    (hpieces : ∀ piece ∈ pieces, newline ∉ piece)
    (hlegal : ∀ piece ∈ pieces, piece = [] ∨ (parseLine piece).isSome)
    (hclosed : ∀ piece ∈ pieces, isTarget name piece = true →
      ∀ rest, records (line ++ rest) = new.toList ++ records rest) :
    records (copied name line pieces ++ rest)
      = changed name (fun _ => new) (pieces.filterMap parseLine)
        ++ records rest := by
  unfold copied
  induction pieces with
  | nil => rfl
  | cons piece pieces ih =>
    have ih := ih (fun p hp => hpieces p (List.mem_cons_of_mem _ hp))
      (fun p hp => hlegal p (List.mem_cons_of_mem _ hp))
      (fun p hp => hclosed p (List.mem_cons_of_mem _ hp))
    have hmem : piece ∈ piece :: pieces := List.mem_cons_self
    rw [List.flatMap_cons, List.append_assoc]
    cases htarget : isTarget name piece with
    | true =>
      obtain ⟨r, hp, hname⟩ := isTarget_iff.mp htarget
      have hchunk : chunk name line piece = line := by
        unfold chunk
        rw [hp]
        exact if_pos hname
      rw [hchunk, hclosed piece hmem htarget, ih,
        List.filterMap_cons_some hp, changed_cons, if_pos hname,
        List.append_assoc]
    | false =>
      rw [chunk_other (hpieces piece hmem) (hlegal piece hmem) htarget, ih]
      cases hp : parseLine piece with
      | none =>
        rw [List.filterMap_cons_none hp]
        rfl
      | some r =>
        have hname : r.name ≠ name := by
          intro heq
          rw [isTarget_iff.mpr ⟨r, hp, heq⟩] at htarget
          cases htarget
        rw [List.filterMap_cons_some hp, changed_cons, if_neg hname,
          List.append_assoc]

theorem length_records_copied (hline : newline ∉ line)
    (hpieces : ∀ piece ∈ pieces, newline ∉ piece)
    (hlegal : ∀ piece ∈ pieces, piece = [] ∨ (parseLine piece).isSome) :
    (records (copied name line pieces)).length
        ≤ (pieces.filterMap parseLine).length ∧
      ∀ l, newline ∉ l → (records (l ++ copied name line pieces)).length
        ≤ max 1 (pieces.filterMap parseLine).length := by
  have hone : ∀ o : Option Record, o.toList.length ≤ 1 := by
    intro o
    cases o with
    | none => exact Nat.zero_le 1
    | some r => exact Nat.le_refl 1
  unfold copied
  induction pieces with
  | nil =>
    refine ⟨by rw [List.flatMap_nil, records_nil]; exact Nat.le_refl 0,
      fun l hl => ?_⟩
    rw [List.flatMap_nil, List.append_nil, records_line hl]
    exact Nat.le_trans (hone _) (Nat.le_max_left _ _)
  | cons piece pieces ih =>
    obtain ⟨ih, ihJoin⟩ := ih
      (fun p hp => hpieces p (List.mem_cons_of_mem _ hp))
      (fun p hp => hlegal p (List.mem_cons_of_mem _ hp))
    have hpiece := hpieces piece List.mem_cons_self
    rw [List.flatMap_cons]
    cases hp : parseLine piece with
    | none =>
      have hnil : piece = [] := by
        cases hlegal piece List.mem_cons_self with
        | inl h => exact h
        | inr h =>
          rw [hp] at h
          cases h
      have hchunk : chunk name line piece = [] := by
        rw [hnil]
        rfl
      rw [hchunk, List.nil_append, List.filterMap_cons_none hp]
      exact ⟨ih, ihJoin⟩
    | some r =>
      rw [List.filterMap_cons_some hp, List.length_cons]
      by_cases hname : r.name = name
      · have hchunk : chunk name line piece = line := by
          unfold chunk
          rw [hp]
          exact if_pos hname
        rw [hchunk]
        refine ⟨Nat.le_trans (ihJoin line hline) (by omega),
          fun l hl => ?_⟩
        rw [← List.append_assoc]
        refine Nat.le_trans (ihJoin (l ++ line) ?_) (by omega)
        rw [List.mem_append, not_or]
        exact ⟨hl, hline⟩
      · have hchunk : chunk name line piece
            = cutLine piece ++ [newline] := by
          unfold chunk
          rw [hp]
          exact if_neg hname
        have hcut := newline_notMem_cutLine hpiece
        have hjoin : ∀ l, newline ∉ l →
            (records (l ++ (chunk name line piece
              ++ pieces.flatMap (chunk name line)))).length
              ≤ (pieces.filterMap parseLine).length + 1 := by
          intro l hl
          have hmem : newline ∉ l ++ cutLine piece := by
            rw [List.mem_append, not_or]
            exact ⟨hl, hcut⟩
          rw [hchunk, List.append_assoc, List.singleton_append,
            ← List.append_assoc, records_cons hmem, List.length_append]
          have hle := hone (parseLine (l ++ cutLine piece))
          omega
        refine ⟨hjoin [] (by simp), fun l hl => ?_⟩
        exact Nat.le_trans (hjoin l hl) (Nat.le_max_right _ _)

end copies

-- ==== a record of a text

section parsed

variable {line piece f : List UInt8} {cursor rest : Option (List UInt8)}
  {r : Record}

theorem nextField_some (h : nextField cursor = (some f, rest)) :
    ∃ text, cursor = some text ∧ colon ∉ f ∧ f ⊆ text ∧
      ∀ t, rest = some t → t ⊆ text := by
  cases cursor with
  | none => cases h
  | some text =>
    simp only [nextField, Prod.mk.injEq, Option.some.injEq] at h
    obtain ⟨hf, hrest⟩ := h
    refine ⟨text, rfl, ?_, ?_, ?_⟩
    · rw [← hf]
      intro hc
      have hne := List.mem_takeWhile_imp hc
      rw [decide_eq_true_eq] at hne
      exact hne rfl
    · rw [← hf]
      exact (List.takeWhile_sublist _).subset
    · intro t ht
      have hsub := (List.dropWhile_sublist (· ≠ colon) (l := text)).subset
      cases hd : text.dropWhile (· ≠ colon) with
      | nil =>
        rw [hd, ht] at hrest
        cases hrest
      | cons c t' =>
        rw [hd, ht] at hrest
        cases hrest
        rw [hd] at hsub
        exact fun x hx => hsub (List.mem_cons_of_mem _ hx)

theorem trim_subset (text : List UInt8) : trim text ⊆ text := fun _ hc =>
  (List.dropWhile_sublist _).subset ((List.rdropWhile_prefix _ _).subset hc)

theorem parseRecord_valid (h : parseRecord line = some r)
    (hline : ∀ c ∈ line, c ≠ newline ∧ c ≠ 0) : r.Valid := by
  unfold parseRecord at h
  simp only [] at h
  have htmp : ∀ c ∈ trim (copy recordMax line), c ≠ newline ∧ c ≠ 0 :=
    fun c hc => hline c (List.mem_of_mem_take (trim_subset _ hc))
  generalize trim (copy recordMax line) = tmp at h htmp
  split_ifs at h with hguard
  cases h1 : nextField (some tmp) with
  | mk name c1 =>
  cases h2 : nextField c1 with
  | mk role c2 =>
  cases h3 : nextField c2 with
  | mk hash c3 =>
  cases h4 : nextField c3 with
  | mk home uid =>
  simp only [h1, h2, h3, h4] at h
  split at h
  · next name role hash home =>
    split_ifs at h with hcheck
    obtain ⟨uid', -, hr⟩ := Option.map_eq_some_iff.mp h
    simp only [Bool.or_eq_true, Bool.not_eq_true', decide_eq_true_eq,
      not_or, Bool.not_eq_false, ne_eq, not_not] at hcheck
    obtain ⟨⟨hname, hlen⟩, hslash⟩ := hcheck
    -- Each field is a part of the line.
    obtain ⟨t1, ht1, -, -, hrest1⟩ := nextField_some h1
    obtain ⟨t2, ht2, -, -, hrest2⟩ := nextField_some h2
    obtain ⟨t3, ht3, hhash, hsub3, hrest3⟩ := nextField_some h3
    obtain ⟨t4, ht4, hhome, hsub4, -⟩ := nextField_some h4
    cases ht1
    have hin2 := hrest1 t2 ht2
    have hin3 := List.Subset.trans (hrest2 t3 ht3) hin2
    have hin4 := List.Subset.trans (hrest3 t4 ht4) hin3
    have hshort := (nameValid_iff.mp hname).2.1
    have hnameCopy : copy nameMax name = name :=
      List.take_of_length_le (Nat.le_pred_of_lt hshort)
    have hhashCopy : copy (hashHexLen + 1) hash = hash :=
      List.take_of_length_le (by rw [hlen]; decide)
    rw [hnameCopy, hhashCopy] at hr
    rw [← hr]
    refine ⟨hname, hlen, fun c hc => ?_, ?_, ?_, fun c hc => ?_⟩
    · refine ⟨?_, htmp c (hin3 (hsub3 hc))⟩
      intro heq
      exact hhash (heq ▸ hc)
    · exact Nat.lt_of_le_of_lt (List.length_take_le _ _) (by decide)
    · show ((trim home).take (homeMax - 1)).head? = _
      rw [List.head?_take, if_neg (by decide)]
      exact hslash
    · have hc' := trim_subset _ (List.mem_of_mem_take hc)
      refine ⟨?_, htmp c (hin4 (hsub4 hc'))⟩
      intro heq
      exact hhome (heq ▸ hc')
  · cases h

theorem parseLine_valid (h : parseLine piece = some r)
    (hpiece : newline ∉ piece) : r.Valid := by
  apply parseRecord_valid h
  intro c hc
  refine ⟨?_, ?_⟩
  · intro heq
    exact newline_notMem_cutLine hpiece (heq ▸ hc)
  · have hne := List.mem_takeWhile_imp hc
    rw [decide_eq_true_eq] at hne
    exact hne

end parsed

-- ==== the target line

/-- The records behind the first one of a name. -/
def behind (name : List UInt8) (rs : List Record) : List Record :=
  (rs.dropWhile fun r => r.name ≠ name).tail

section replaced

variable {text name : List UInt8} {q r new : Record} {rs : List Record}
  {change : Record → Option Record} {o : Option Record}

theorem length_changed (hall : ∀ r, (change r).isSome) :
    (changed name change rs).length = rs.length := by
  induction rs with
  | nil => rfl
  | cons r rs ih =>
    obtain ⟨r', hr'⟩ := Option.isSome_iff_exists.mp (hall r)
    rw [changed_cons, List.length_append, ih, List.length_cons, Nat.add_comm]
    split_ifs
    · rw [hr']
      rfl
    · rfl

theorem changed_const_iff (hall : ∀ r, (change r).isSome) :
    changed name (fun _ => o) rs = changed name change rs ↔
      ∀ r ∈ rs, r.name = name → o = change r := by
  induction rs with
  | nil => simp [changed]
  | cons r rs ih =>
    rw [List.forall_mem_cons, changed_cons, changed_cons]
    by_cases hname : r.name = name
    · obtain ⟨r', hr'⟩ := Option.isSome_iff_exists.mp (hall r)
      simp only [hname, if_true, forall_const, hr', Option.toList_some]
      cases o with
      | none =>
        have hlen : (changed name (fun _ => none) rs).length
            < ([r'] ++ changed name change rs).length := by
          rw [List.length_append, length_changed hall]
          exact Nat.lt_of_le_of_lt (List.length_filterMap_le _ rs)
            (Nat.lt_add_of_pos_left Nat.one_pos)
        constructor
        · intro heq
          rw [← heq] at hlen
          exact absurd hlen (Nat.lt_irrefl _)
        · intro h
          cases h.1
      | some x =>
        rw [Option.toList_some, List.singleton_append, List.singleton_append,
          List.cons.injEq, ih, Option.some.injEq]
    · simp only [hname, if_false, false_implies, true_and, ← ih]
      rw [List.append_cancel_left_eq]

theorem changed_append (rs rs' : List Record) :
    changed name change (rs ++ rs')
      = changed name change rs ++ changed name change rs' :=
  List.filterMap_append

theorem changed_others (h : ∀ r ∈ rs, r.name ≠ name) :
    changed name change rs = rs := by
  induction rs with
  | nil => rfl
  | cons r rs ih =>
    rw [changed_cons, if_neg (h r List.mem_cons_self),
      ih fun r' hr' => h r' (List.mem_cons_of_mem _ hr')]
    rfl

theorem recordLine_chars (h : r.Valid) {c : UInt8} (hc : c ∈ recordLine r) :
    c ≠ 0 := by
  rw [recordLine_eq] at hc
  cases List.mem_append.mp (List.mem_of_mem_take hc) with
  | inl htext => exact (text_chars h htext).2
  | inr hline =>
    rw [List.mem_singleton.mp hline]
    decide

theorem parseLine_short {line : List UInt8} (hlen : line.length < recordMax)
    (hline : ∀ c ∈ line, c ≠ 0) : parseLine line = parseRecord line := by
  unfold parseLine cutLine cstr
  rw [List.take_of_length_le (Nat.le_sub_one_of_lt hlen),
    List.takeWhile_eq_self_iff.mpr]
  intro c hc
  rw [decide_eq_true_eq]
  exact hline c hc

theorem length_recordLine (r : Record) : (recordLine r).length < recordMax := by
  rw [recordLine_eq]
  exact Nat.lt_of_le_of_lt (List.length_take_le _ _) (by decide)

theorem parseRecord_newline {line : List UInt8}
    (h : line.length + 1 < recordMax) :
    parseRecord (line ++ [newline]) = parseRecord line := by
  have hcopy : copy recordMax line = line :=
    List.take_of_length_le (Nat.le_sub_one_of_lt (Nat.lt_of_succ_lt h))
  have hcopy' : copy recordMax (line ++ [newline]) = line ++ [newline] := by
    apply List.take_of_length_le
    rw [List.length_append]
    exact Nat.le_sub_one_of_lt h
  have htrim : trim (line ++ [newline]) = trim line := by
    rw [← trim_trimRight, List.rdropWhile_concat_pos _ _ _ (by decide),
      trim_trimRight]
  unfold parseRecord
  rw [hcopy, hcopy', htrim]

theorem closed_line (h : r.Valid) (hshort : r.text.length + 1 < recordMax) :
    recordLine r = r.text ++ [newline] ∧
      (parseLine r.text = some r ↔ r.Fits) := by
  have hline : recordLine r = r.text ++ [newline] := by
    rw [recordLine_eq]
    apply List.take_of_length_le
    rw [List.length_append]
    exact Nat.le_sub_one_of_lt hshort
  refine ⟨hline, ?_⟩
  rw [← parse_recordLine_iff h, hline, parseRecord_newline hshort,
    parseLine_short (Nat.lt_of_succ_lt hshort) fun c hc => (text_chars h hc).2]

theorem open_line (h : r.Valid) (hlong : ¬ r.text.length + 1 < recordMax) :
    newline ∉ recordLine r ∧
      (parseLine (recordLine r) = some r ↔ r.Fits) := by
  refine ⟨?_, ?_⟩
  · rw [recordLine_eq, List.take_append_of_le_length (by
      simp only [recordMax] at *
      omega)]
    exact fun hc => newline_notMem_text h (List.mem_of_mem_take hc)
  · rw [parseLine_short (length_recordLine r) fun c hc => recordLine_chars h hc,
      parse_recordLine_iff h]

theorem cut_at_target
    (htarget : ∃ piece ∈ text.splitOn newline, isTarget name piece = true) :
    ∃ pre p post q, text.splitOn newline = pre ++ p :: post ∧
      (∀ piece ∈ pre, isTarget name piece = false) ∧
      parseLine p = some q ∧ q.name = name ∧
      (∀ r ∈ pre.filterMap parseLine, r.name ≠ name) ∧
      records text
        = pre.filterMap parseLine ++ q :: post.filterMap parseLine := by
  have hcut : ∃ piece ∈ text.splitOn newline,
      (!isTarget name piece) = false := by
    obtain ⟨piece, hmem, h⟩ := htarget
    exact ⟨piece, hmem, by rw [h]; rfl⟩
  obtain ⟨pre, p, post, hsplit, hpre, hp⟩ := Fields.cut_at_first hcut
  obtain ⟨q, hq, hname⟩ := isTarget_iff.mp (by simpa using hp)
  have hothers : ∀ piece ∈ pre, isTarget name piece = false :=
    fun piece hmem => by simpa using hpre piece hmem
  refine ⟨pre, p, post, q, hsplit, hothers, hq, hname, ?_, ?_⟩
  · intro r hr heq
    obtain ⟨piece, hmem, hparse⟩ := List.mem_filterMap.mp hr
    have hno := hothers piece hmem
    rw [isTarget_iff.mpr ⟨r, hparse, heq⟩] at hno
    cases hno
  · unfold records
    rw [hsplit, List.filterMap_append, List.filterMap_cons_some hq]

theorem records_replaced_iff (hparse : AllParse text)
    (hall : ∀ r, (change r).isSome)
    (hq : (records text).find? (fun r => r.name = name) = some q)
    (hnew : change q = some new) (hvalid : new.Valid) :
    records (copied name (recordLine new) (text.splitOn newline))
        = changed name change (records text) ↔
      (∀ r ∈ records text, r.name = name → change r = some new) ∧
        new.Fits ∧
        (new.text.length + 1 < recordMax ∨ behind name (records text) = []) := by
  have hpieces : ∀ piece ∈ text.splitOn newline, newline ∉ piece :=
    fun piece h => Fields.sep_notMem_of_splitOn h
  have hqmem := List.mem_of_find?_eq_some hq
  have hqname : q.name = name := by simpa using List.find?_some hq
  by_cases hshort : new.text.length + 1 < recordMax
  · obtain ⟨hline, hreads⟩ := closed_line hvalid hshort
    have hcopied := @records_copied name (recordLine new) []
      (parseLine new.text) _ hpieces hparse
      (fun _ _ _ rest => by
        rw [hline, List.append_assoc, List.singleton_append,
          records_cons (newline_notMem_text hvalid)])
    rw [List.append_nil, records_nil, List.append_nil] at hcopied
    rw [hcopied]
    show changed name _ (records text) = _ ↔ _
    rw [changed_const_iff hall]
    simp only [hshort, true_or, and_true]
    constructor
    · intro h
      have hread : parseLine new.text = some new := by
        rw [h q hqmem hqname, hnew]
      refine ⟨fun r hr hname => ?_, hreads.mp hread⟩
      rw [← h r hr hname, hread]
    · rintro ⟨hsame, hfits⟩ r hr hname
      rw [hreads.mpr hfits, hsame r hr hname]
  · obtain ⟨hline, hreads⟩ := open_line hvalid hshort
    obtain ⟨piece, hmem, hread⟩ := List.mem_filterMap.mp hqmem
    obtain ⟨pre, p, post, q', hsplit, hpre, hq', hname', hothers, hrecords⟩ :=
      cut_at_target ⟨piece, hmem, isTarget_iff.mpr ⟨q, hread, hqname⟩⟩
    have hfirst : q' = q := by
      rw [hrecords, List.find?_append, List.find?_eq_none.mpr (by
        intro r hr
        simpa using hothers r hr), Option.none_or,
        List.find?_cons_of_pos (by simpa using hname')] at hq
      exact Option.some.inj hq
    subst hfirst
    have hbehind : behind name (records text) = post.filterMap parseLine := by
      unfold behind
      rw [hrecords, List.dropWhile_append_of_pos (by
        intro r hr
        simpa using hothers r hr),
        List.dropWhile_cons_of_neg (by simpa using hname'), List.tail_cons]
    have hmem' : ∀ piece ∈ pre ++ p :: post, newline ∉ piece ∧
        (piece = [] ∨ (parseLine piece).isSome) := by
      rw [← hsplit]
      exact fun piece h => ⟨hpieces piece h, hparse piece h⟩
    have hchunk : chunk name (recordLine new) p = recordLine new := by
      unfold chunk
      rw [hq']
      exact if_pos hname'
    -- What stands in front of the target is copied.
    have hcopied : records (copied name (recordLine new) (text.splitOn newline))
        = pre.filterMap parseLine
          ++ records (recordLine new ++ copied name (recordLine new) post) := by
      have hsplit' : copied name (recordLine new) (text.splitOn newline)
          = copied name (recordLine new) pre
            ++ (recordLine new ++ copied name (recordLine new) post) := by
        unfold copied
        rw [hsplit, List.flatMap_append, List.flatMap_cons, hchunk]
      rw [hsplit', @records_copied _ _ _ none _
        (fun piece h => (hmem' piece (List.mem_append_left _ h)).1)
        (fun piece h => (hmem' piece (List.mem_append_left _ h)).2)
        (fun piece h htarget => by
          rw [hpre piece h] at htarget
          cases htarget), changed_others hothers]
    have hchanged : changed name change (records text)
        = pre.filterMap parseLine
          ++ new :: changed name change (post.filterMap parseLine) := by
      rw [hrecords, changed_append, changed_others hothers, changed_cons,
        if_pos hname', hnew]
      rfl
    rw [hcopied, hchanged, hbehind, List.append_cancel_left_eq]
    simp only [hshort, false_or]
    have hpost : ∀ piece ∈ post, newline ∉ piece ∧
        (piece = [] ∨ (parseLine piece).isSome) := fun piece h =>
      hmem' piece (List.mem_append_right _ (List.mem_cons_of_mem _ h))
    have hlen := (@length_records_copied name _ _ hline
      (fun piece h => (hpost piece h).1) (fun piece h => (hpost piece h).2)).2
      (recordLine new) hline
    cases hrest : post.filterMap parseLine with
    | cons r rs =>
      -- The record behind the target is lost.
      rw [hrest, List.length_cons, Nat.max_eq_right (Nat.le_add_left 1 _)] at hlen
      constructor
      · intro heq
        rw [heq, List.length_cons, length_changed hall, List.length_cons] at hlen
        omega
      · intro h
        cases h.2.2
    | nil =>
      have hempty : copied name (recordLine new) post = [] := by
        unfold copied
        rw [List.flatMap_eq_nil_iff]
        intro piece h
        cases (hpost piece h).2 with
        | inl hnil =>
          rw [hnil]
          rfl
        | inr hsome =>
          obtain ⟨r, hr⟩ := Option.isSome_iff_exists.mp hsome
          have hin := List.mem_filterMap.mpr ⟨piece, h, hr⟩
          rw [hrest] at hin
          cases hin
      rw [hempty, List.append_nil, records_line hline]
      have hone : (parseLine (recordLine new)).toList
          = new :: changed name change [] ↔
          parseLine (recordLine new) = some new := by
        cases parseLine (recordLine new) <;> simp [changed]
      rw [hone, hreads]
      refine ⟨fun hfits => ⟨fun r hr hname => ?_, hfits, rfl⟩, fun h => h.2.1⟩
      rw [hrecords, hrest] at hr
      cases List.mem_append.mp hr with
      | inl h => exact absurd hname (hothers r h)
      | inr h =>
        rw [List.mem_singleton.mp h]
        exact hnew

end replaced

-- ==== the changes

/-- A change of one user. -/
inductive Op
  | changePassword (name : List UInt8) (oldPassword : Option (List UInt8))
      (newPassword : List UInt8)
  | setRole (name : List UInt8) (role : Role)
  | remove (name : List UInt8)

/-- The call that makes it. -/
def Op.run (o : Outcome) (c : Caller) : Op → Storage → Bool × Storage
  | .changePassword name oldPassword newPassword =>
    Clks.User.changePassword o c name oldPassword newPassword
  | .setRole name role => Clks.User.setRole o c name role
  | .remove name => Clks.User.remove o c name

/-- Its target. -/
def Op.name : Op → List UInt8
  | .changePassword name _ _ => name
  | .setRole name _ => name
  | .remove name => name

/-- What it is to make of the record of the target. -/
def Op.change : Op → Record → Option Record
  | .changePassword _ _ newPassword, r =>
    some { r with hash := hashPassword newPassword }
  | .setRole _ role, r => some { r with role }
  | .remove _, _ => none

/-- The caller may make the change, and there is someone to change. -/
def Op.allowed (c : Caller) (s : Storage) : Op → Bool
  | .changePassword name oldPassword newPassword =>
    nameValid name && newPassword ≠ [] && (find name s).isSome &&
      c.loggedIn &&
      !((c.role ≠ .admin || c.name = name) &&
        (verifyPassword name oldPassword s).isNone)
  | .setRole name _ =>
    c.isAdmin && (find name s).isSome && name ≠ txt "root"
  | .remove name => c.isAdmin && nameValid name && name ≠ txt "root"

/-- The new text, if there is room for it. -/
def Op.rewritten (text : List UInt8) : Op → Option (List UInt8)
  | .remove name => rewriteText none (some name) text
  | op =>
    match findIn op.name text with
    | some r => rewriteText (op.change r) none text
    | none => none

/-- The change gets as far as the write of the file. -/
def Op.Reaches (op : Op) (c : Caller) (text : List UInt8) : Prop :=
  op.allowed c ⟨some text⟩ = true ∧ text.length < dbMax ∧
    (op.rewritten text).isSome

/-- A call that returns true changes the target only, and one that returns
false changes nothing. -/
def Op.TouchesTarget (op : Op) (o : Outcome) (c : Caller)
    (text : List UInt8) : Prop :=
  match op.run o c ⟨some text⟩ with
  | (true, s) => ∃ next, s.db = some next ∧
      records next = changed op.name op.change (records text)
  | (false, s) => s = ⟨some text⟩

/-- All records of the name become the same one, it fits into a line, and
nothing runs into that line. -/
def Op.Clean (op : Op) (rs : List Record) : Prop :=
  ∀ q new, rs.find? (fun r => r.name = op.name) = some q →
    op.change q = some new →
    (∀ r ∈ rs, r.name = op.name → op.change r = some new) ∧ new.Fits ∧
      (new.text.length + 1 < recordMax ∨ behind op.name rs = [])

section ops

variable {op : Op} {o : Outcome} {c : Caller} {text next : List UInt8}
  {q r new : Record} {rs : List Record}

theorem find_text {name : List UInt8} (h : find name ⟨some text⟩ = some q) :
    text.length < dbMax ∧ findIn name text = some q := by
  rw [find_eq] at h
  rw [findIn_eq]
  split_ifs at h with hguard
  exact ⟨hguard.2, h⟩

theorem dbRewriteWith_cases (o : Outcome) (replace : Option Record)
    (remove : Option (List UInt8)) (text : List UInt8) :
    dbRewriteWith o replace remove ⟨some text⟩
      = if text.length < dbMax then
          match rewriteText replace remove text with
          | none => (false, ⟨some text⟩)
          | some next => fsWriteAll o next
        else (false, ⟨some text⟩) := by
  unfold dbRewriteWith
  by_cases hlen : text.length < dbMax
  · have hread : readDb ⟨some text⟩ = some text :=
      if_neg (Nat.not_lt.mpr hlen)
    cases hnext : rewriteText replace remove text with
    | none => simp only [hread, hlen, hnext, if_true]
    | some next => simp only [hread, hlen, hnext, if_true]
  · have hread : readDb ⟨some text⟩ = none :=
      if_pos (Nat.lt_succ_of_le (Nat.le_of_not_lt hlen))
    simp only [hread, if_neg hlen]

theorem Op.run_eq (op : Op) (o : Outcome) (c : Caller) (text : List UInt8) :
    op.run o c ⟨some text⟩
      = if op.allowed c ⟨some text⟩ = true ∧ text.length < dbMax then
          match op.rewritten text with
          | none => (false, ⟨some text⟩)
          | some next => fsWriteAll o next
        else (false, ⟨some text⟩) := by
  cases op with
  | changePassword name oldPassword newPassword =>
    simp only [Op.run, Clks.User.changePassword, Op.allowed]
    cases Option.eq_none_or_eq_some (find name ⟨some text⟩) with
    | inl hq => simp [hq]
    | inr hsome =>
      obtain ⟨q, hq⟩ := hsome
      obtain ⟨hlen, hin⟩ := find_text hq
      simp only [hq, Op.rewritten, Op.name, hin, Op.change, dbRewriteWith_cases,
        hlen, if_true, and_true, Option.isSome_some]
      cases nameValid name <;> cases c.loggedIn <;>
        by_cases hnil : newPassword = [] <;>
        cases hpw : (decide (c.role ≠ .admin) || decide (c.name = name)) &&
          (verifyPassword name oldPassword ⟨some text⟩).isNone <;>
        simp [hnil]
  | setRole name role =>
    simp only [Op.run, Clks.User.setRole, Op.allowed]
    cases Option.eq_none_or_eq_some (find name ⟨some text⟩) with
    | inl hq => simp [hq]
    | inr hsome =>
      obtain ⟨q, hq⟩ := hsome
      obtain ⟨hlen, hin⟩ := find_text hq
      simp only [hq, Op.rewritten, Op.name, hin, Op.change, dbRewriteWith_cases,
        hlen, if_true, and_true, Option.isSome_some]
      cases c.isAdmin <;> by_cases hroot : name = txt "root" <;> simp [hroot]
  | remove name =>
    simp only [Op.run, Clks.User.remove, Op.allowed, Op.rewritten,
      dbRewriteWith_cases]
    by_cases hadmin : c.isAdmin = true <;>
      by_cases hname : nameValid name = true <;>
      by_cases hroot : name = txt "root" <;>
      by_cases hlen : text.length < dbMax <;>
      simp [hadmin, hname, hroot, hlen]

theorem Op.change_name (h : op.change q = some new) : new.name = q.name := by
  cases op with
  | changePassword => cases h; rfl
  | setRole => cases h; rfl
  | remove => cases h

theorem Op.change_valid (hq : q.Valid) (h : op.change q = some new) :
    new.Valid := by
  cases op with
  | changePassword name oldPassword newPassword =>
    cases h
    obtain ⟨hlen, hhex⟩ := hashPassword_digits newPassword
    exact
      { name := hq.name
        hashLen := hlen
        hash := fun c hc => hexDigit_facts c (hhex c hc)
        homeLen := hq.homeLen
        slash := hq.slash
        home := hq.home }
  | setRole =>
    cases h
    exact
      { name := hq.name
        hashLen := hq.hashLen
        hash := hq.hash
        homeLen := hq.homeLen
        slash := hq.slash
        home := hq.home }
  | remove => cases h

theorem mem_records_valid (h : r ∈ records text) : r.Valid := by
  obtain ⟨piece, hmem, hparse⟩ := List.mem_filterMap.mp h
  exact parseLine_valid hparse (Fields.sep_notMem_of_splitOn hmem)

theorem Op.records_rewritten_iff (hparse : AllParse text)
    (h : op.rewritten text = some next) :
    records next = changed op.name op.change (records text) ↔
      op.Clean (records text) := by
  -- A change that leaves a record replaces the first one of the name.
  have hreplaced : (∀ r, (op.change r).isSome) →
      (match findIn op.name text with
        | some r => rewriteText (op.change r) none text
        | none => none) = some next →
      (records next = changed op.name op.change (records text) ↔
        op.Clean (records text)) := by
    intro hall hwritten
    cases Option.eq_none_or_eq_some (findIn op.name text) with
    | inl hq =>
      rw [hq] at hwritten
      cases hwritten
    | inr hsome =>
      obtain ⟨q, hq⟩ := hsome
      obtain ⟨new, hnew⟩ := Option.isSome_iff_exists.mp (hall q)
      rw [hq] at hwritten
      simp only [hnew] at hwritten
      rw [findIn_eq] at hq
      have hqname : q.name = op.name := by simpa using List.find?_some hq
      have hname : new.name = op.name := (op.change_name hnew).trans hqname
      obtain ⟨-, htext⟩ := rewriteText_some (Job.replace new) hwritten
      have hvalid := op.change_valid
        (mem_records_valid (List.mem_of_find?_eq_some hq)) hnew
      rw [hname] at htext
      rw [htext, records_replaced_iff hparse hall hq hnew hvalid]
      unfold Op.Clean
      constructor
      · intro hclean q' new' hq' hnew'
        rw [hq] at hq'
        cases hq'
        rw [hnew] at hnew'
        cases hnew'
        exact hclean
      · intro hclean
        exact hclean q new hq hnew
  cases op with
  | changePassword name oldPassword newPassword =>
    exact hreplaced (fun _ => rfl) h
  | setRole name role => exact hreplaced (fun _ => rfl) h
  | remove name =>
    obtain ⟨-, htext⟩ := rewriteText_some (Job.remove name) h
    have hcopied := @records_copied name [] [] none _
      (fun piece h => Fields.sep_notMem_of_splitOn h) hparse
      (fun _ _ _ rest => rfl)
    rw [List.append_nil, records_nil, List.append_nil, ← htext] at hcopied
    constructor
    · intro _ q new _ hnew
      cases hnew
    · intro _
      exact hcopied

/-- A change touches its target only exactly if the record that it puts
there is clean, or, when the write fails, the file survives that; and a
record is read back from its line exactly if it fits. -/
theorem rewriting_iff (hparse : AllParse text) (hvalid : r.Valid) :
    (op.TouchesTarget o c text ↔
      (op.Reaches c text →
        if o.done then op.Clean (records text) else o.left = some text)) ∧
      (parseRecord (recordLine r) = some r ↔ r.Fits) := by
  refine ⟨?_, parse_recordLine_iff hvalid⟩
  unfold Op.TouchesTarget Op.Reaches
  rw [op.run_eq o c text]
  by_cases hguard : op.allowed c ⟨some text⟩ = true ∧ text.length < dbMax
  · rw [if_pos hguard]
    cases hnext : op.rewritten text with
    | none => simp
    | some next =>
      simp only [hguard, Option.isSome_some, true_and, forall_const]
      unfold fsWriteAll
      cases hdone : o.done with
      | true =>
        simp only [if_true, Option.some.injEq]
        rw [← op.records_rewritten_iff hparse hnext]
        constructor
        · intro h
          obtain ⟨next', heq, hrec⟩ := h
          rw [heq]
          exact hrec
        · intro h
          exact ⟨next, rfl, h⟩
      | false =>
        simp only [Bool.false_eq_true, if_false, Storage.mk.injEq]
  · rw [if_neg hguard]
    simp only [true_iff]
    intro hreach
    exact absurd ⟨hreach.1, hreach.2.1⟩ hguard

end ops

-- ==== an open line

set_option maxRecDepth 4000

/-- A user whose line just fits. -/
def longUser : Record where
  uid := 0xFFFFFFFFFFFFFFFF
  role := .user
  name := txt "bob"
  hash := List.replicate 64 0x30
  home := slash :: List.replicate 94 0x62

/-- The user behind. -/
def nextUser : Record where
  uid := 1000
  role := .user
  name := txt "eve"
  hash := List.replicate 64 0x30
  home := txt "/home/eve"

/-- A database of both. -/
def twoUsers : List UInt8 := recordLine longUser ++ recordLine nextUser

/-- The database with the first one an administrator. -/
def oneAdmin : List UInt8 :=
  recordLine { longUser with role := .admin } ++ recordLine nextUser

/-- The first one becomes an administrator, and the second one is lost. -/
theorem setRole_not_touchesTarget :
    AllParse twoUsers ∧
      ((Op.setRole (txt "bob") .admin).run ⟨true, none⟩ rootCaller
        ⟨some twoUsers⟩).1 = true ∧
      ¬ (Op.setRole (txt "bob") .admin).TouchesTarget ⟨true, none⟩ rootCaller
        twoUsers := by
  have hparse : AllParse twoUsers := by
    unfold AllParse
    decide +kernel
  have hrun : (Op.setRole (txt "bob") .admin).run ⟨true, none⟩ rootCaller
      ⟨some twoUsers⟩ = (true, ⟨some oneAdmin⟩) := by decide +kernel
  refine ⟨hparse, by rw [hrun], fun h => ?_⟩
  unfold Op.TouchesTarget at h
  rw [hrun] at h
  obtain ⟨next, hnext, hrecords⟩ := h
  rw [← Option.some.inj hnext] at hrecords
  have hone : (records oneAdmin).length = 1 := by decide +kernel
  have htwo : (changed (txt "bob") (Op.setRole (txt "bob") .admin).change
      (records twoUsers)).length = 2 := by decide +kernel
  rw [hrecords, show (Op.setRole (txt "bob") .admin).name = txt "bob" from rfl,
    htwo] at hone
  exact absurd hone (by decide)

/-- A change of the second one is clean. -/
theorem rewriting_iff_second :
    ((Op.remove (txt "eve")).TouchesTarget ⟨true, none⟩ rootCaller twoUsers ↔
      ((Op.remove (txt "eve")).Reaches rootCaller twoUsers →
        if true then (Op.remove (txt "eve")).Clean (records twoUsers)
        else none = some twoUsers)) ∧
      (parseRecord (recordLine nextUser) = some nextUser ↔ nextUser.Fits) :=
  rewriting_iff (o := ⟨true, none⟩) (by unfold AllParse; decide +kernel)
    { name := by decide
      hashLen := by decide
      hash := by decide
      homeLen := by decide
      slash := by decide
      home := by decide }

end Clks.User
