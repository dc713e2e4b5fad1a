/-
The candidates of a composition against what its table lists.

`Lists` is the meaning of a table: a word for a key. What the code tries is a
list of attempts, the words of the composition and then those of its splits,
and it offers the first ones that differ (`list_rebuildCandidates`). An attempt
is tried in a buffer of its own, so a long one is cut. The candidates are
sound exactly if each attempt that comes before the list is full fits the
buffer, or by chance leaves another of these texts in it (`sound_iff`).
-/
import Clks.Input.Commit

namespace Clks.Input

open Tokens (tokens)

-- ==== what is offered

/-- A table lists a word for a key. -/
def Lists (data key word : List UInt8) : Prop :=
  ∃ line rest, line ∈ tokens isEol data ∧ line.head? ≠ some 0x23 ∧
    line = key ++ 0x09 :: rest ∧ word ∈ tokens isBlank rest

/-- A word that the table lists for the composition, or, where splits are
enabled, words one behind the other, for keys one behind the other. -/
def Sound (split : Bool) (data comp text : List UInt8) : Prop :=
  Lists data comp text ∨
    split = true ∧ ∃ keys words : List (List UInt8), keys.flatten = comp ∧
      (∀ key ∈ keys, key ≠ []) ∧ List.Forall₂ (Lists data) keys words ∧
      text = words.flatten

theorem mem_lines {data line : List UInt8} (hline : line ≠ []) :
    line ∈ lines data ↔ line ∈ tokens isEol data := by
  rw [← Tokens.filter_pieces _ _ (Nat.le_refl data.length), List.mem_filter, lines]
  simp [hline]

theorem words_eq (rest : List UInt8) : words rest = tokens isBlank rest :=
  Tokens.filter_words _ _ (Nat.le_refl _)

theorem behindKey_eq_some {key line rest : List UInt8} :
    behindKey key line = some rest ↔ line = key ++ 0x09 :: rest := by
  induction key generalizing line with
  | nil =>
    cases line with
    | nil => simp [behindKey]
    | cons b line => simp [behindKey]
  | cons k key ih =>
    cases line with
    | nil => simp [behindKey]
    | cons b line =>
      unfold behindKey
      split_ifs with h
      · rw [ih, h, List.cons_append, List.cons_inj_right]
      · simp [h]

theorem keyedLine_eq_some {key line rest : List UInt8} :
    keyedLine key line = some rest ↔
      line.head? ≠ some 0x23 ∧ line = key ++ 0x09 :: rest := by
  unfold keyedLine
  split_ifs with h
  · refine iff_of_false (fun h' => nomatch h') ?_
    intro ⟨hhead, hline⟩
    rcases h with rfl | h
    · simp at hline
    · exact hhead h
  · rw [not_or] at h
    rw [behindKey_eq_some]
    exact (and_iff_right h.2).symm

theorem keyedLineAt_eq (key line : List UInt8) :
    keyedLineAt key line = keyedLine key line := by
  apply Option.ext
  intro rest
  rw [keyedLine_eq_some]
  unfold keyedLineAt
  split_ifs with hline htab hkey
  · refine iff_of_false (fun h' => nomatch h') ?_
    intro ⟨hhead, heq⟩
    rcases hline with rfl | hline
    · simp at heq
    · exact hhead hline
  · refine iff_of_false (fun h' => nomatch h') fun ⟨_, heq⟩ => htab ?_
    rw [heq, List.getElem?_append_right (Nat.le_refl _), Nat.sub_self]
    rfl
  · refine iff_of_false (fun h' => nomatch h') fun ⟨_, heq⟩ => hkey ?_
    rw [heq, List.take_left]
  · rw [not_or] at hline
    rw [ne_eq, not_not] at htab hkey
    obtain ⟨hlt, hget⟩ := List.getElem?_eq_some_iff.mp htab
    have hsplit : line = key ++ 0x09 :: line.drop (key.length + 1) := by
      conv_lhs => rw [← List.take_append_drop key.length line, hkey,
        List.drop_eq_getElem_cons hlt, hget]
    constructor
    · intro h
      obtain rfl := Option.some.inj h
      exact ⟨hline.2, hsplit⟩
    · intro ⟨_, heq⟩
      have hrest := List.append_cancel_left (hsplit.symm.trans heq)
      exact congrArg some (List.cons.inj hrest).2

theorem lists_of_wordAt {data key word : List UInt8} {i : Nat}
    (h : wordAt (keyedLine key) data i = some word) : Lists data key word := by
  obtain ⟨line, hline, hword⟩ := List.exists_of_findSome?_eq_some h
  obtain ⟨rest, hrest, hget⟩ := Option.bind_eq_some_iff.mp hword
  obtain ⟨hhead, heq⟩ := keyedLine_eq_some.mp hrest
  refine ⟨line, rest, (mem_lines (by rw [heq]; simp)).mp hline, hhead, heq, ?_⟩
  rw [← words_eq]
  exact List.mem_of_getElem? hget

/-- The words that a table lists for a key, in its lines. -/
def listedWords (data key : List UInt8) : List (List UInt8) :=
  (lines data).flatMap fun line => ((keyedLine key line).map words).getD []

theorem mem_listedWords {data key word : List UInt8} :
    word ∈ listedWords data key ↔ Lists data key word := by
  unfold listedWords Lists
  rw [List.mem_flatMap]
  constructor
  · intro ⟨line, hline, hword⟩
    cases hrest : keyedLine key line with
    | none =>
      rw [hrest] at hword
      exact absurd hword List.not_mem_nil
    | some rest =>
      rw [hrest, Option.map_some, Option.getD_some, words_eq] at hword
      obtain ⟨hhead, heq⟩ := keyedLine_eq_some.mp hrest
      exact ⟨line, rest, (mem_lines (by rw [heq]; simp)).mp hline, hhead, heq, hword⟩
  · intro ⟨line, rest, hline, hhead, heq, hword⟩
    refine ⟨line, (mem_lines (by rw [heq]; simp)).mpr hline, ?_⟩
    rw [keyedLine_eq_some.mpr ⟨hhead, heq⟩, Option.map_some, Option.getD_some,
      words_eq]
    exact hword

-- ==== the attempts

/-- The words for a key of a split, before a buffer cuts them. -/
def wholeAlternatives (data key : List UInt8) : List (List UInt8) :=
  (((List.range inputmSplitAltMax).map fun alt =>
    wordAt (keyedLineAt key) data alt).takeWhile Option.isSome).reduceOption

private theorem takeSome_map {α : Type} (f : α → α) (l : List (Option α)) :
    ((l.map (Option.map f)).takeWhile Option.isSome).reduceOption =
      ((l.takeWhile Option.isSome).reduceOption).map f := by
  induction l with
  | nil => rfl
  | cons x l ih =>
    cases x with
    | none => rfl
    | some x =>
      rw [List.map_cons, Option.map_some, List.takeWhile_cons_of_pos rfl,
        List.takeWhile_cons_of_pos rfl]
      show f x :: _ = f x :: _
      exact congrArg (f x :: ·) ih

theorem alternatives_eq (data key : List UInt8) :
    alternatives data key =
      (wholeAlternatives data key).map (List.take (inputmCandBytes - 1)) := by
  unfold wholeAlternatives
  rw [← takeSome_map, List.map_map]
  rfl

/-- The words of the splits from a letter on, in the order of the code. -/
def splits (data comp : List UInt8) : (parts start : Nat) →
    List (List (List UInt8))
  | 0, _ => []
  | parts + 1, start =>
    if comp.length ≤ start then [[]]
    else
      (ends comp.length start).flatMap fun end' =>
        (wholeAlternatives data ((comp.take end').drop start)).flatMap fun word =>
          (splits data comp parts end').map (word :: ·)

/-- Words behind a phrase, in a buffer. -/
def phraseOf (phrase : List UInt8) (words : List (List UInt8)) : List UInt8 :=
  words.foldl (fun phrase word => appendCandidateBytes inputmCandBytes phrase
    (word.take (inputmCandBytes - 1))) phrase

/-- What is tried as a candidate. -/
inductive Attempt where
  | listed (word : List UInt8)
  | joined (words : List (List UInt8))

namespace Attempt

/-- The text that is meant. -/
def whole : Attempt → List UInt8
  | listed word => word
  | joined words => words.flatten

/-- The buffer that is tried. -/
def tried : Attempt → List UInt8
  | listed word => word.take (inputmCandBytes - 1)
  | joined words => phraseOf [] words

/-- What is read of it. -/
def text (a : Attempt) : List UInt8 := cstr a.tried

/-- The text that is meant fits the buffer. -/
def Fits (a : Attempt) : Prop :=
  a.whole.length < inputmCandBytes ∧ 0 ∉ a.whole

end Attempt

/-- The splits of a composition, where they are enabled. -/
def joinedWords (split : Bool) (data comp : List UInt8) :
    List (List (List UInt8)) :=
  if split = true ∧ 2 ≤ comp.length then
    splits data comp inputmSplitMaxParts 0
  else []

/-- What the code tries for a composition; an empty text is no attempt. -/
def attempts (split : Bool) (data comp : List UInt8) : List Attempt :=
  if comp = [] then []
  else
    ((listedWords data comp).map Attempt.listed ++
      (joinedWords split data comp).map Attempt.joined).filter fun a =>
        a.tried ≠ []

-- ==== the phrases

/-- A phrase that its buffer holds. -/
def Kept (phrase : List UInt8) : Prop :=
  phrase.length < inputmCandBytes ∧ 0 ∉ phrase

theorem copyString_of_kept {phrase : List UInt8} (h : Kept phrase) :
    copyString inputmCandBytes phrase = phrase := by
  unfold copyString
  rw [cstr_of_notMem h.2, List.take_of_length_le (Nat.le_sub_one_of_lt h.1)]

theorem appendCandidateBytes_kept {phrase : List UInt8} (h : Kept phrase)
    (cand : List UInt8) :
    Kept (appendCandidateBytes inputmCandBytes phrase cand) := by
  obtain ⟨hshort, hzero⟩ := h
  have htake := List.length_take_le (inputmCandBytes - 1 - phrase.length)
    (cstr cand)
  unfold appendCandidateBytes
  refine ⟨by rw [List.length_append]; omega, fun hmem => ?_⟩
  rcases List.mem_append.mp hmem with hmem | hmem
  · exact hzero hmem
  · exact zero_notMem_cstr cand (List.mem_of_mem_take hmem)

theorem phraseOf_kept {phrase : List UInt8} (h : Kept phrase)
    (words : List (List UInt8)) : Kept (phraseOf phrase words) := by
  induction words generalizing phrase with
  | nil => exact h
  | cons word words ih => exact ih (appendCandidateBytes_kept h _)

theorem phraseOf_of_fits {phrase : List UInt8} {words : List (List UInt8)}
    (h : Kept (phrase ++ words.flatten)) :
    phraseOf phrase words = phrase ++ words.flatten := by
  induction words generalizing phrase with
  | nil => rw [List.flatten_nil, List.append_nil]; rfl
  | cons word words ih =>
    have hword : appendCandidateBytes inputmCandBytes phrase
        (word.take (inputmCandBytes - 1)) = phrase ++ word := by
      obtain ⟨hshort, hzero⟩ := h
      simp only [List.flatten_cons, List.length_append, List.mem_append,
        not_or] at hshort hzero
      have hword : word.length ≤ inputmCandBytes - 1 := by omega
      have hroom : word.length ≤ inputmCandBytes - 1 - phrase.length := by omega
      unfold appendCandidateBytes
      rw [List.take_of_length_le hword, cstr_of_notMem hzero.2.1,
        List.take_of_length_le hroom]
    rw [List.flatten_cons, ← List.append_assoc] at h ⊢
    rw [← ih h, ← hword]
    rfl

theorem Attempt.text_of_fits {a : Attempt} (h : a.Fits) : a.text = a.whole := by
  cases a with
  | listed word =>
    have hshort : word.length ≤ inputmCandBytes - 1 := Nat.le_sub_one_of_lt h.1
    show cstr (word.take (inputmCandBytes - 1)) = word
    rw [List.take_of_length_le hshort]
    exact cstr_of_notMem h.2
  | joined words =>
    have hphrase := @phraseOf_of_fits [] words h
    show cstr (phraseOf [] words) = words.flatten
    rw [hphrase, List.nil_append]
    exact cstr_of_notMem h.2

-- ==== the lists

theorem Candidates.list_add (cands : Candidates) {start : List UInt8}
    (hstart : start ≠ []) :
    (cands.add start).list = Distinct.offer cstr inputmCandMax cands.list
      (start.take (inputmCandBytes - 1)) := by
  have hany : (cands.list.any fun c =>
      decide (cstr c = start.take (inputmCandBytes - 1))) = true ↔
      start.take (inputmCandBytes - 1) ∈ cands.list.map cstr := by
    simp only [List.any_eq_true, decide_eq_true_eq, List.mem_map]
  unfold add Distinct.offer
  by_cases hfull : inputmCandMax ≤ cands.list.length
  · rw [dif_pos (.inr hfull), if_pos (.inl hfull)]
  · rw [dif_neg (not_or.mpr ⟨hstart, hfull⟩)]
    dsimp only
    split_ifs with hsame hor hor
    · rfl
    · exact absurd (.inr (hany.mp hsame)) hor
    · exact absurd (hany.mpr (hor.resolve_left hfull)) hsame
    · rfl

theorem Candidates.add_nil (cands : Candidates) : cands.add [] = cands :=
  dif_pos (.inl rfl)

theorem Candidates.add_full {cands : Candidates}
    (h : inputmCandMax ≤ cands.list.length) (start : List UInt8) :
    cands.add start = cands :=
  dif_pos (.inr h)

theorem Candidates.foldl_add_full {cands : Candidates}
    (h : inputmCandMax ≤ cands.list.length) (starts : List (List UInt8)) :
    starts.foldl Candidates.add cands = cands := by
  induction starts with
  | nil => rfl
  | cons start starts ih => rw [List.foldl_cons, add_full h, ih]

theorem listCandidates_eq (data comp : List UInt8) (cands : Candidates) :
    Inputm.listCandidates data comp cands =
      (listedWords data comp).foldl Candidates.add cands := by
  unfold Inputm.listCandidates listedWords
  induction lines data generalizing cands with
  | nil => rfl
  | cons line lines ih =>
    rw [List.foldl_cons, ih, List.flatMap_cons, List.foldl_append]
    congr 1
    by_cases hfull : inputmCandMax ≤ cands.list.length
    · rw [if_pos hfull, Candidates.foldl_add_full hfull]
    · rw [if_neg hfull]
      cases keyedLine comp line with
      | none => rfl
      | some rest =>
        rw [Option.map_some, Option.getD_some]
        have hadd : (fun (cands : Candidates) word =>
            if inputmCandMax ≤ cands.list.length then cands
            else cands.add word) = Candidates.add := by
          funext cands word
          split_ifs with h
          · exact (Candidates.add_full h word).symm
          · rfl
        dsimp only
        rw [hadd]

private theorem foldl_beside {α β σ : Type} {f : β × σ → α → β × σ}
    {g : σ → α → σ} {b : β} (h : ∀ c x, f (b, c) x = (b, g c x)) (xs : List α)
    (c : σ) : xs.foldl f (b, c) = (b, xs.foldl g c) := by
  induction xs generalizing c with
  | nil => rfl
  | cons x xs ih => rw [List.foldl_cons, h, ih, List.foldl_cons]

theorem rebuildSplitCandidatesRec_eq (data comp : List UInt8)
    (parts start : Nat) {phrase : List UInt8} (hphrase : Kept phrase)
    (cands : Candidates) :
    rebuildSplitCandidatesRec data comp parts start phrase cands =
      ((splits data comp parts start).map (phraseOf phrase)).foldl
        Candidates.add cands := by
  induction parts generalizing start phrase cands with
  | zero => rfl
  | succ parts ih =>
    unfold rebuildSplitCandidatesRec splits
    by_cases hfull : inputmCandMax ≤ cands.list.length
    · rw [if_pos hfull, Candidates.foldl_add_full hfull]
    rw [if_neg hfull]
    by_cases hend : comp.length ≤ start
    · rw [if_pos hend, if_pos hend]
      show _ = cands.add phrase
      split_ifs with hempty
      · rfl
      · rw [ne_eq, not_not] at hempty
        rw [hempty, Candidates.add_nil]
    · rw [if_neg hend, if_neg hend]
      -- The phrase is restored behind each part, so each begins with it.
      have hsaved : copyString inputmCandBytes
          (copyString inputmCandBytes phrase) = phrase := by
        rw [copyString_of_kept hphrase, copyString_of_kept hphrase]
      dsimp only
      rw [foldl_beside (g := fun cands end' =>
        (alternatives data ((comp.take end').drop start)).foldl
          (fun cands cand => rebuildSplitCandidatesRec data comp parts end'
            (appendCandidateBytes inputmCandBytes phrase cand) cands) cands)]
      · dsimp only
        rw [List.map_flatMap, List.foldl_flatMap]
        congr 1
        funext cands end'
        rw [alternatives_eq, List.foldl_map, List.map_flatMap,
          List.foldl_flatMap]
        congr 1
        funext cands word
        rw [ih _ (appendCandidateBytes_kept hphrase _), List.map_map]
        rfl
      · intro cands end'
        refine foldl_beside (fun cands cand => ?_) _ _
        rw [hsaved]

theorem Candidates.list_foldl_add (starts : List (List UInt8))
    (cands : Candidates) :
    (starts.foldl Candidates.add cands).list =
      ((starts.map (List.take (inputmCandBytes - 1))).filter (· ≠ [])).foldl
        (Distinct.offer cstr inputmCandMax) cands.list := by
  induction starts generalizing cands with
  | nil => rfl
  | cons start starts ih =>
    rw [List.foldl_cons, ih, List.map_cons]
    cases start with
    | nil =>
      rw [add_nil, List.take_nil, List.filter_cons_of_neg (by simp)]
    | cons b start =>
      rw [list_add _ (List.cons_ne_nil _ _), List.filter_cons_of_pos (by simp),
        List.foldl_cons]

theorem map_tried {split : Bool} {data comp : List UInt8} (hcomp : comp ≠ []) :
    (attempts split data comp).map Attempt.tried =
      ((listedWords data comp ++ (joinedWords split data comp).map
        (phraseOf [])).map (List.take (inputmCandBytes - 1))).filter
          (· ≠ []) := by
  have hkept : Kept [] := ⟨by decide, List.not_mem_nil⟩
  have hjoined : ∀ joined : List (List (List UInt8)),
      (joined.map Attempt.joined).map Attempt.tried =
        (joined.map (phraseOf [])).map (List.take (inputmCandBytes - 1)) := by
    intro joined
    rw [List.map_map, List.map_map]
    refine List.map_congr_left fun ws _ => ?_
    exact (List.take_of_length_le
      (Nat.le_sub_one_of_lt (phraseOf_kept hkept ws).1)).symm
  have hsame : ∀ tries : List Attempt,
      (tries.filter fun a => a.tried ≠ []).map Attempt.tried =
        (tries.map Attempt.tried).filter (· ≠ []) := fun tries => by
    rw [List.filter_map]
    rfl
  unfold attempts
  rw [if_neg hcomp, hsame, List.map_append, List.map_append, hjoined,
    List.map_map]
  rfl

theorem rebuildSplitCandidates_eq {data : List UInt8} (hdata : data ≠ [])
    (comp : List UInt8) (cands : Candidates) :
    rebuildSplitCandidates data comp cands =
      ((joinedWords true data comp).map (phraseOf [])).foldl Candidates.add
        cands := by
  unfold rebuildSplitCandidates joinedWords
  by_cases hlen : 2 ≤ comp.length
  · rw [if_neg (not_or.mpr ⟨hdata, Nat.not_lt.mpr hlen⟩), if_pos ⟨rfl, hlen⟩]
    exact rebuildSplitCandidatesRec_eq data comp _ 0
      ⟨by decide, List.not_mem_nil⟩ cands
  · rw [if_pos (.inr (Nat.not_le.mp hlen)), if_neg fun h => hlen h.2]
    rfl

namespace Inputm

variable (readAll : List UInt8 → Option (List UInt8)) (m : Inputm)

theorem ruleTable_ne_nil {data : List UInt8}
    (h : m.ruleTable readAll = some data) : data ≠ [] := by
  unfold ruleTable at h
  cases hentry : m.entries[m.currentIndex]? with
  | none =>
    rw [hentry] at h
    exact nomatch h
  | some entry =>
    rw [hentry] at h
    dsimp only at h
    cases hread : readAll entry.rulePath with
    | none =>
      rw [hread] at h
      exact nomatch h
    | some found =>
      rw [hread] at h
      dsimp only at h
      split_ifs at h with hempty
      obtain rfl := Option.some.inj h
      exact (not_or.mp hempty).2

/-- Splits are enabled. -/
def splitEnabled : Bool := m.flags &&& flagRuleSplit ≠ 0

/-- What the code tries for the composition. -/
def tries : List Attempt :=
  match m.ruleTable readAll with
  | none => []
  | some data => attempts m.splitEnabled data m.comp.text

theorem list_rebuildCandidates :
    (m.rebuildCandidates readAll).candidates.list =
      Distinct.offerAll cstr inputmCandMax
        ((m.tries readAll).map Attempt.tried) := by
  have hclear : m.clearCandidates.ruleTable readAll = m.ruleTable readAll := rfl
  have hcompeq : m.clearCandidates.comp = m.comp := rfl
  have hflags : m.clearCandidates.flags = m.flags := rfl
  have hnone : m.clearCandidates.candidates = .empty := rfl
  unfold rebuildCandidates tries
  dsimp only
  rw [hclear, hcompeq, hflags, hnone]
  by_cases hcomp : m.comp.text = []
  · rw [if_pos hcomp]
    cases m.ruleTable readAll with
    | none => rfl
    | some data =>
      unfold attempts
      dsimp only
      rw [if_pos hcomp]
      rfl
  rw [if_neg hcomp]
  cases hdata : m.ruleTable readAll with
  | none => rfl
  | some data =>
    have hne := ruleTable_ne_nil readAll m hdata
    have hlist := fun starts => Candidates.list_foldl_add starts .empty
    dsimp only
    rw [map_tried hcomp, Distinct.offerAll, listCandidates_eq]
    refine Eq.trans ?_ (hlist _)
    rw [List.foldl_append]
    by_cases hroom : ((listedWords data m.comp.text).foldl Candidates.add
        .empty).list.length < inputmCandMax
    · by_cases hsplit : m.flags &&& flagRuleSplit ≠ 0
      · rw [if_pos ⟨hroom, hsplit⟩]
        dsimp only
        rw [rebuildSplitCandidates_eq hne, splitEnabled, decide_eq_true hsplit]
      · rw [if_neg fun h => hsplit h.2, splitEnabled, decide_eq_false hsplit]
        rfl
    · rw [if_neg fun h => hroom h.1,
        Candidates.foldl_add_full (Nat.not_lt.mp hroom)]

end Inputm

-- ==== the meaning

theorem lists_of_whole {data key word : List UInt8}
    (h : word ∈ wholeAlternatives data key) : Lists data key word := by
  unfold wholeAlternatives at h
  rw [List.reduceOption_mem_iff] at h
  obtain ⟨alt, -, halt⟩ := List.mem_map.mp (List.takeWhile_subset _ h)
  refine lists_of_wordAt (i := alt) ?_
  rw [← halt]
  congr 1
  funext line
  exact (keyedLineAt_eq key line).symm

theorem mem_ends {compLen start end' : Nat} (h : end' ∈ ends compLen start) :
    start < end' ∧ end' ≤ compLen := by
  unfold ends at h
  obtain ⟨hmem, hle⟩ := List.mem_filter.mp h
  obtain ⟨i, -, rfl⟩ := List.mem_map.mp hmem
  exact ⟨by omega, by simpa using hle⟩

theorem keys_of_splits {data comp : List UInt8} {parts start : Nat}
    {ws : List (List UInt8)} (h : ws ∈ splits data comp parts start) :
    ∃ keys : List (List UInt8), keys.flatten = comp.drop start ∧
      (∀ key ∈ keys, key ≠ []) ∧ List.Forall₂ (Lists data) keys ws := by
  induction parts generalizing start ws with
  | zero => exact absurd h List.not_mem_nil
  | succ parts ih =>
    unfold splits at h
    split_ifs at h with hend
    · obtain rfl := List.mem_singleton.mp h
      rw [List.drop_of_length_le hend]
      exact ⟨[], rfl, fun _ h => absurd h List.not_mem_nil, .nil⟩
    · obtain ⟨end', hend', h⟩ := List.mem_flatMap.mp h
      obtain ⟨word, hword, h⟩ := List.mem_flatMap.mp h
      obtain ⟨rest, hrest, rfl⟩ := List.mem_map.mp h
      obtain ⟨hlt, hle⟩ := mem_ends hend'
      obtain ⟨keys, hkeys, hne, hlists⟩ := ih hrest
      refine ⟨(comp.take end').drop start :: keys, ?_, ?_,
        .cons (lists_of_whole hword) hlists⟩
      · have hstart : start ≤ (comp.take end').length := by
          rw [List.length_take]
          omega
        rw [List.flatten_cons, hkeys, ← List.drop_append_of_le_length hstart,
          List.take_append_drop]
      · intro key hkey
        rcases List.mem_cons.mp hkey with rfl | hkey
        · intro hnil
          have hlen := congrArg List.length hnil
          rw [List.length_drop, List.length_take, List.length_nil] at hlen
          omega
        · exact hne key hkey

theorem sound_of_attempts {split : Bool} {data comp : List UInt8} {a : Attempt}
    (h : a ∈ attempts split data comp) : Sound split data comp a.whole := by
  unfold attempts at h
  split_ifs at h with hcomp
  · exact absurd h List.not_mem_nil
  rcases List.mem_append.mp (List.mem_filter.mp h).1 with h | h
  · obtain ⟨word, hword, rfl⟩ := List.mem_map.mp h
    exact .inl (mem_listedWords.mp hword)
  · obtain ⟨ws, hws, rfl⟩ := List.mem_map.mp h
    unfold joinedWords at hws
    split_ifs at hws with hsplit
    · obtain ⟨keys, hkeys, hne, hlists⟩ := keys_of_splits hws
      exact .inr ⟨hsplit.1, keys, ws, hkeys, hne, hlists, rfl⟩
    · exact absurd hws List.not_mem_nil

namespace Inputm

variable (readAll : List UInt8 → Option (List UInt8)) (m : Inputm)

/-- What the table of the input method lists, on its own or in splits. -/
def Offerable (text : List UInt8) : Prop :=
  ∃ data, m.ruleTable readAll = some data ∧
    Sound m.splitEnabled data m.comp.text text

/-- Each candidate that is offered is one that the table lists, and none is
offered twice. -/
def SoundCandidates : Prop :=
  (∀ text ∈ (m.rebuildCandidates readAll).candidates.texts,
    m.Offerable readAll text) ∧
  (m.rebuildCandidates readAll).candidates.texts.Nodup

/-- Each attempt that comes before so many different ones as there is room for
fits its buffer, or what is left of it is another such text; and where a NUL
cuts it, none before it has left the same. -/
def AllFit : Prop :=
  ∀ before a after, m.tries readAll = before ++ a :: after →
    (before.map Attempt.text).toFinset.card < inputmCandMax →
      (a.Fits ∨ m.Offerable readAll a.text) ∧
        (0 ∈ a.tried → a.text ∉ before.map Attempt.text)

variable {readAll m}

theorem offerable_of_tries {a : Attempt} (h : a ∈ m.tries readAll) :
    m.Offerable readAll a.whole := by
  unfold tries at h
  cases hdata : m.ruleTable readAll with
  | none =>
    rw [hdata] at h
    exact absurd h List.not_mem_nil
  | some data =>
    rw [hdata] at h
    exact ⟨data, hdata, sound_of_attempts h⟩

theorem cstr_ne_iff {buffer : List UInt8} : cstr buffer ≠ buffer ↔ 0 ∈ buffer := by
  constructor
  · intro h
    by_contra hzero
    exact h (cstr_of_notMem hzero)
  · intro hzero h
    rw [← h] at hzero
    exact zero_notMem_cstr _ hzero

/-- The candidates are sound exactly if all that is tried fits, but for what
is cut to another sound one. -/
theorem soundCandidates_iff (readAll : List UInt8 → Option (List UInt8))
    (m : Inputm) : m.SoundCandidates readAll ↔ m.AllFit readAll := by
  unfold SoundCandidates Candidates.texts
  rw [list_rebuildCandidates, Distinct.offerAll_iff cstr_cstr]
  have hshown : ∀ tries : List Attempt,
      (tries.map Attempt.tried).map cstr = tries.map Attempt.text :=
    fun _ => List.map_map
  unfold Distinct.Early AllFit
  constructor
  · intro h before a after hsplit hearly
    obtain ⟨hkind, hnew⟩ := h (before.map Attempt.tried) a.tried
      (after.map Attempt.tried) (by rw [hsplit, List.map_append, List.map_cons])
      (by rwa [hshown])
    rw [cstr_ne_iff, hshown] at hnew
    exact ⟨.inr hkind, hnew⟩
  · intro h before x after hsplit hearly
    obtain ⟨before, rest, htries, rfl, hrest⟩ := List.map_eq_append_iff.mp hsplit
    obtain ⟨a, after, rfl, rfl, rfl⟩ := List.map_eq_cons_iff.mp hrest
    rw [hshown] at hearly ⊢
    obtain ⟨hkind, hnew⟩ := h before a after htries hearly
    rw [cstr_ne_iff]
    refine ⟨?_, hnew⟩
    rcases hkind with hfits | hkind
    · have hwhole : m.Offerable readAll a.whole := offerable_of_tries
        (by rw [htries]; exact List.mem_append_right _ List.mem_cons_self)
      rw [← Attempt.text_of_fits hfits] at hwhole
      exact hwhole
    · exact hkind

/-- A table with one word of 64 bytes, for the letter `a`. -/
def longTable : List UInt8 := [0x61, 0x09] ++ List.replicate 64 0x78

/-- The letter `a` is composed. -/
def letterA : Inputm where
  entries := [⟨true, [0x2F], flagRuleTable⟩]
  currentIndex := 0
  comp := ⟨[0x61], by decide, by decide +kernel⟩
  candidates := .empty
  candidatePage := 0

/-- The word is offered without its last byte, and that is no word. -/
theorem cut_word_is_offered :
    ¬ letterA.SoundCandidates fun _ => some longTable := by
  intro ⟨hsound, _⟩
  have hoffered : List.replicate 63 0x78 ∈
      (letterA.rebuildCandidates fun _ => some longTable).candidates.texts := by
    decide +kernel
  obtain ⟨data, hdata, hlists⟩ := hsound _ hoffered
  obtain rfl : data = longTable := (Option.some.inj hdata).symm
  rcases hlists with hlists | ⟨hsplit, -⟩
  · have hmem := mem_listedWords.mpr hlists
    revert hmem
    decide +kernel
  · exact absurd hsplit (by decide)

end Inputm

end Clks.Input
