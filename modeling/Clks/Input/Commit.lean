/-
A composition that is committed.

What is chosen (`Inputm.chosen`) is the candidate with an index on the page,
or, where none has it, the word that the table lists under it, or the letters
themselves. A commit clears the composition in any case, so it is one of all
or nothing exactly if there is such a text and all of it goes into the queue
(`allOrNothing_iff`).
-/
import Clks.Input.Inputm

namespace Clks.Input

-- ==== the queues

namespace Queues

variable {tty other : Nat} {q : Queues}

theorem pushForTty_of_room (ch : UInt8)
    (hroom : (q.waiting tty).length < kbdInputCap) :
    ∃ q', q.pushForTty tty ch = (true, q') ∧
      q'.waiting tty = q.waiting tty ++ [ch] ∧
      ∀ other, clampTtyIndex other ≠ clampTtyIndex tty →
        q'.waiting other = q.waiting other := by
  unfold waiting at hroom
  rw [RingBuf.length_toList] at hroom
  unfold pushForTty
  rw [dif_pos hroom]
  refine ⟨_, rfl, ?_, fun other hother => ?_⟩
  · unfold waiting
    dsimp only
    rw [Function.update_self, RingBuf.toList_put]
  · unfold waiting
    dsimp only
    rw [Function.update_of_ne hother]

theorem pushForTty_full (ch : UInt8)
    (hfull : ¬ (q.waiting tty).length < kbdInputCap) :
    ∃ q', q.pushForTty tty ch = (false, q') ∧
      ∀ other, q'.waiting other = q.waiting other := by
  unfold waiting at hfull
  rw [RingBuf.length_toList] at hfull
  unfold pushForTty
  rw [dif_neg hfull]
  exact ⟨_, rfl, fun _ => rfl⟩

theorem waiting_injectTextForTty (text : List UInt8) (q : Queues) :
    (q.injectTextForTty tty text).2.waiting tty =
      q.waiting tty ++ text.take (kbdInputCap - (q.waiting tty).length) := by
  induction text generalizing q with
  | nil => rw [List.take_nil, List.append_nil]; rfl
  | cons ch text ih =>
    unfold injectTextForTty
    by_cases hroom : (q.waiting tty).length < kbdInputCap
    · obtain ⟨q', hpush, hwaiting, -⟩ := pushForTty_of_room ch hroom
      have hleft : kbdInputCap - (q.waiting tty).length
          = kbdInputCap - (q'.waiting tty).length + 1 := by
        rw [hwaiting, List.length_append, List.length_singleton]
        omega
      rw [hpush]
      dsimp only
      rw [ih, hleft, List.take_succ_cons, hwaiting, List.append_assoc,
        List.singleton_append]
    · obtain ⟨q', hpush, hwaiting⟩ := pushForTty_full ch hroom
      have hleft : kbdInputCap - (q.waiting tty).length = 0 := by omega
      rw [hpush]
      dsimp only
      rw [hwaiting, hleft, List.take_zero, List.append_nil]

end Queues

-- ==== the strings

theorem zero_notMem_cstr (buffer : List UInt8) : 0 ∉ cstr buffer := by
  intro h
  simpa using List.mem_takeWhile_imp h

theorem cstr_of_notMem {buffer : List UInt8} (h : 0 ∉ buffer) :
    cstr buffer = buffer := by
  refine List.takeWhile_eq_self_iff.mpr fun b hb => ?_
  simp only [decide_eq_true_eq]
  intro hzero
  rw [hzero] at hb
  exact h hb

theorem cstr_cstr (buffer : List UInt8) : cstr (cstr buffer) = cstr buffer :=
  cstr_of_notMem (zero_notMem_cstr buffer)

theorem prefix_cstr (buffer : List UInt8) : cstr buffer <+: buffer :=
  List.takeWhile_prefix _

theorem cut_eq_iff {n room : Nat} {text : List UInt8} :
    (cstr (text.take n)).take room = text ↔
      text.length ≤ n ∧ 0 ∉ text ∧ text.length ≤ room := by
  constructor
  · intro h
    have hpre := ((List.take_prefix room _).trans
      (prefix_cstr (text.take n))).length_le
    have hroom := List.length_take_le room (cstr (text.take n))
    have hzero : 0 ∉ (cstr (text.take n)).take room := fun hmem =>
      zero_notMem_cstr _ (List.mem_of_mem_take hmem)
    rw [h] at hpre hroom hzero
    exact ⟨hpre.trans (List.length_take_le _ _), hzero, hroom⟩
  · intro ⟨hn, hzero, hroom⟩
    rw [List.take_of_length_le hn, cstr_of_notMem hzero,
      List.take_of_length_le hroom]

-- ==== the commit

namespace Inputm

variable (readAll : List UInt8 → Option (List UInt8)) (ttyIndex index : Nat)
  (flags : UInt64) (q : Queues) (m : Inputm)

/-- The text that is chosen. -/
def chosen : Option (List UInt8) :=
  let absoluteIndex := m.candidatePage * inputmCandPageSize + index
  match m.candidates.list[absoluteIndex]? with
  | some cand => some (cstr cand)
  | none =>
    match (m.ruleTable readAll).bind
        (wordAt (keyedLine m.comp.text) · absoluteIndex) with
    | some word => some word
    | none => if flags &&& flagRuleCommitRaw ≠ 0 then some m.comp.text else none

/-- The whole text that is chosen is behind what waited, and the composition
is cleared; or nothing is queued, and the composition and the candidates are
what they were. -/
def AllOrNothing : Prop :=
  let s := m.commitComp readAll ttyIndex index flags q
  (∃ text, m.chosen readAll index flags = some text ∧
    s.2.1.waiting ttyIndex = q.waiting ttyIndex ++ text ∧
    s.2.2.comp.text = []) ∨
  ((∀ tty, s.2.1.waiting tty = q.waiting tty) ∧ s.2.2.comp = m.comp ∧
    s.2.2.candidates = m.candidates ∧ s.2.2.candidatePage = m.candidatePage)

/-- Nothing is composed, or a text is chosen that a buffer of a candidate
holds and that has room in the queue. -/
def Commits : Prop :=
  m.comp.text = [] ∨ ∃ text, m.chosen readAll index flags = some text ∧
    text.length < inputmCandBytes ∧ 0 ∉ text ∧
    (q.waiting ttyIndex).length + text.length ≤ kbdInputCap

variable {readAll ttyIndex index flags q m}

@[simp] theorem dropComp_comp : m.dropComp.comp = .empty := by
  unfold dropComp refreshStatus
  split_ifs <;> rfl

theorem zero_notMem_comp (comp : Composition) : 0 ∉ comp.text := fun h =>
  absurd (comp.letters 0 h) (by decide)

theorem lookupCandidate_eq (key : List UInt8) (i outSize : Nat) :
    m.lookupCandidate readAll key i outSize =
      ((m.ruleTable readAll).bind (wordAt (keyedLine key) · i)).map
        (List.take (outSize - 1)) := by
  unfold lookupCandidate
  cases m.ruleTable readAll <;> rfl

theorem commitComp_of_chosen (hcomp : m.comp.text ≠ []) {text : List UInt8}
    (hchosen : m.chosen readAll index flags = some text) :
    m.commitComp readAll ttyIndex index flags q =
      (true, (q.injectTextForTty ttyIndex
        (cstr (text.take (inputmCandBytes - 1)))).2, m.dropComp) := by
  unfold chosen at hchosen
  unfold commitComp
  rw [if_neg hcomp]
  dsimp only at hchosen ⊢
  rw [lookupCandidate_eq]
  cases hcand : m.candidates.list[m.candidatePage * inputmCandPageSize + index]? with
  | some cand =>
    rw [hcand] at hchosen
    obtain rfl := Option.some.inj hchosen
    have hshort := m.candidates.short cand (List.mem_of_getElem? hcand)
    have hle : (cstr cand).length ≤ inputmCandBytes - 1 :=
      Nat.le_sub_one_of_lt
        (Nat.lt_of_le_of_lt (prefix_cstr cand).length_le hshort)
    rw [List.take_of_length_le hle, cstr_cstr]
  | none =>
    rw [hcand] at hchosen
    dsimp only at hchosen ⊢
    cases hword : (m.ruleTable readAll).bind (wordAt (keyedLine m.comp.text) ·
        (m.candidatePage * inputmCandPageSize + index)) with
    | some word =>
      rw [hword] at hchosen
      obtain rfl := Option.some.inj hchosen
      rfl
    | none =>
      rw [hword] at hchosen
      dsimp only [Option.map_none] at hchosen ⊢
      split_ifs at hchosen with hraw
      · obtain rfl := Option.some.inj hchosen
        have hle : m.comp.text.length ≤ inputmCandBytes - 1 :=
          (Nat.le_of_lt m.comp.short).trans (by decide)
        rw [if_pos hraw, List.take_of_length_le hle,
          cstr_of_notMem (zero_notMem_comp m.comp)]

theorem commitComp_of_none (hcomp : m.comp.text ≠ [])
    (hchosen : m.chosen readAll index flags = none) :
    m.commitComp readAll ttyIndex index flags q = (true, q, m.dropComp) := by
  unfold chosen at hchosen
  unfold commitComp
  rw [if_neg hcomp]
  dsimp only at hchosen ⊢
  rw [lookupCandidate_eq]
  cases hcand : m.candidates.list[m.candidatePage * inputmCandPageSize + index]? with
  | some cand =>
    rw [hcand] at hchosen
    exact nomatch hchosen
  | none =>
    rw [hcand] at hchosen
    dsimp only at hchosen ⊢
    cases hword : (m.ruleTable readAll).bind (wordAt (keyedLine m.comp.text) ·
        (m.candidatePage * inputmCandPageSize + index)) with
    | some word =>
      rw [hword] at hchosen
      exact nomatch hchosen
    | none =>
      rw [hword] at hchosen
      dsimp only [Option.map_none] at hchosen ⊢
      split_ifs at hchosen with hraw
      rw [if_neg hraw]

theorem dropComp_comp_ne (hcomp : m.comp.text ≠ []) : m.dropComp.comp ≠ m.comp :=
  fun h => hcomp (by rw [← h, dropComp_comp]; rfl)

theorem not_allOrNothing_of_none (hcomp : m.comp.text ≠ [])
    (hchosen : m.chosen readAll index flags = none) :
    ¬ m.AllOrNothing readAll ttyIndex index flags q := by
  unfold AllOrNothing
  rw [hchosen, commitComp_of_none hcomp hchosen]
  intro h
  rcases h with ⟨text, htext, -⟩ | ⟨-, hsame, -⟩
  · exact nomatch htext
  · exact dropComp_comp_ne hcomp hsame

theorem allOrNothing_of_chosen (hcomp : m.comp.text ≠ []) {text : List UInt8}
    (hchosen : m.chosen readAll index flags = some text) :
    m.AllOrNothing readAll ttyIndex index flags q ↔
      text.length < inputmCandBytes ∧ 0 ∉ text ∧
        (q.waiting ttyIndex).length + text.length ≤ kbdInputCap := by
  have hle : (q.waiting ttyIndex).length ≤ kbdInputCap := by
    rw [Queues.waiting, RingBuf.length_toList]
    exact RingBuf.count_le _
  have hpos : 0 < inputmCandBytes := by decide
  have hcut := @cut_eq_iff (inputmCandBytes - 1)
    (kbdInputCap - (q.waiting ttyIndex).length) text
  unfold AllOrNothing
  rw [hchosen, commitComp_of_chosen hcomp hchosen]
  dsimp only
  rw [Queues.waiting_injectTextForTty]
  constructor
  · intro h
    rcases h with ⟨text', htext, hqueued, -⟩ | ⟨-, hsame, -⟩
    · obtain rfl := Option.some.inj htext
      obtain ⟨hshort, hzero, hroom⟩ := hcut.mp (List.append_cancel_left hqueued)
      exact ⟨by omega, hzero, by omega⟩
    · exact absurd hsame (dropComp_comp_ne hcomp)
  · intro ⟨hshort, hzero, hroom⟩
    refine .inl ⟨text, rfl, ?_, by rw [dropComp_comp]; rfl⟩
    rw [hcut.mpr ⟨by omega, hzero, by omega⟩]

/-- A commit is one of all or nothing exactly if there is a text to commit
that goes whole into the queue, or nothing is composed. -/
theorem allOrNothing_iff (readAll : List UInt8 → Option (List UInt8))
    (ttyIndex index : Nat) (flags : UInt64) (q : Queues) (m : Inputm) :
    m.AllOrNothing readAll ttyIndex index flags q ↔
      m.Commits readAll ttyIndex index flags q := by
  unfold Commits
  by_cases hcomp : m.comp.text = []
  · have hstay : m.commitComp readAll ttyIndex index flags q = (false, q, m) :=
      if_pos hcomp
    unfold AllOrNothing
    rw [hstay]
    exact iff_of_true (.inr ⟨fun _ => rfl, rfl, rfl, rfl⟩) (.inl hcomp)
  rw [or_iff_right hcomp]
  cases hchosen : m.chosen readAll index flags with
  | none =>
    refine iff_of_false (not_allOrNothing_of_none hcomp hchosen) ?_
    intro ⟨text, htext, _⟩
    exact nomatch htext
  | some text =>
    rw [allOrNothing_of_chosen hcomp hchosen]
    constructor
    · intro h
      exact ⟨text, rfl, h⟩
    · intro ⟨text', htext, h⟩
      obtain rfl := Option.some.inj htext
      exact h

/-- The letters `ni` with one candidate, of three bytes. -/
def composed : Inputm where
  entries := [⟨true, [0x2F, 0x70], flagRuleTable ||| flagRuleSplit⟩]
  currentIndex := 0
  comp := ⟨[0x6E, 0x69], by decide, by decide +kernel⟩
  candidates := ⟨[[0xE4, 0xBD, 0xA0]], by decide, by decide⟩
  candidatePage := 0

/-- Queues with one free place. -/
def nearlyFull : Queues where
  input := fun _ => ⟨fun _ => 0x61, 0, 255, 255, kbdInputCap_pos, by decide, rfl⟩
  pushCount := 255
  popCount := 0
  dropCount := 0

/-- The candidate is cut in its first character; and under an index that has
no candidate the letters are dropped. -/
theorem cut_and_dropped :
    ¬ composed.AllOrNothing (fun _ => none) 0 0 flagRuleTable nearlyFull ∧
      ¬ composed.AllOrNothing (fun _ => none) 0 4 flagRuleTable nearlyFull := by
  constructor
  · intro h
    have hchosen : composed.chosen (fun _ => none) 0 flagRuleTable
        = some [0xE4, 0xBD, 0xA0] := rfl
    obtain ⟨-, -, hroom⟩ :=
      (allOrNothing_of_chosen (List.cons_ne_nil _ _) hchosen).mp h
    rw [Queues.waiting, RingBuf.length_toList] at hroom
    exact absurd hroom (by decide)
  · exact not_allOrNothing_of_none (List.cons_ne_nil _ _) rfl

end Inputm

end Clks.Input
