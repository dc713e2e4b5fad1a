/-
A byte string as a list of sequences, and what the two decoders make of
it.

Every string is a list of whole pieces, and behind them perhaps a lead
byte with too few continuation bytes. The decoder that is fed byte after
byte says one character for each piece (`streamed_reads`); the one that
walks with an index does too, unless the string ends too early for what a
lead byte announces (`walk_reads`).
-/
import Clks.Text.Unicode

namespace Clks.Text

-- ==== pieces

/-- How many continuation bytes a byte announces. -/
def announced (b : UInt8) : Nat :=
  if b < 0x80 then 0 else ((firstByte b).map (·.2.1)).getD 0

/-- The character of a lead byte and its continuation bytes. -/
def sequenceChar (b0 : UInt8) (conts : List UInt8) : UInt32 :=
  match firstByte b0 with
  | none => replacement
  | some (value, _, expected) =>
    if validFinished (conts.foldl shiftIn value) expected then
      conts.foldl shiftIn value
    else replacement

/-- The bytes that make one character: a byte of ASCII, a byte that
cannot stand first, a lead byte with all it announces, or one that is
broken off by a byte that is no continuation. -/
inductive Piece : List UInt8 → UInt32 → Prop
  | ascii {b : UInt8} (h : b < 0x80) : Piece [b] b.toUInt32
  | stray {b : UInt8} (h : ¬ b < 0x80) (hfirst : firstByte b = none) :
      Piece [b] replacement
  | full {b : UInt8} {conts : List UInt8} (hpos : 0 < announced b)
      (hconts : ∀ c ∈ conts, isCont c = true)
      (hlen : conts.length = announced b) :
      Piece (b :: conts) (sequenceChar b conts)
  | broken {b bad : UInt8} {conts : List UInt8}
      (hconts : ∀ c ∈ conts, isCont c = true)
      (hlen : conts.length < announced b) (hbad : isCont bad = false) :
      Piece (b :: (conts ++ [bad])) replacement

/-- A list of pieces, and its characters. -/
inductive Reads : List UInt8 → List UInt32 → Prop
  | nil : Reads [] []
  | cons {p rest : List UInt8} {c : UInt32} {cs : List UInt32}
      (hp : Piece p c) (hrest : Reads rest cs) : Reads (p ++ rest) (c :: cs)

/-- The string ends where a piece ends. -/
def Whole (w : List UInt8) : Prop := ∃ cs, Reads w cs

/-- A lead byte followed by valid continuation bytes, too few to complete
it. -/
def Incomplete (t : List UInt8) : Prop :=
  ∃ b conts, t = b :: conts ∧ (∀ c ∈ conts, isCont c = true) ∧
    conts.length < announced b

theorem firstByte_some {b : UInt8} {value : UInt32} {need : Nat}
    {expected : UInt8} (h : firstByte b = some (value, need, expected)) :
    0 < need ∧ need ≤ 3 := by
  unfold firstByte at h
  split at h
  · cases h
    omega
  · split at h
    · cases h
      omega
    · split at h
      · cases h
        omega
      · cases h

theorem announced_pos {b : UInt8} (h : 0 < announced b) :
    ¬ b < 0x80 ∧ announced b ≤ 3 ∧ ∃ value expected,
      firstByte b = some (value, announced b, expected) := by
  unfold announced at h ⊢
  split at h
  · cases h
  · next hb =>
    rw [if_neg hb]
    cases hf : firstByte b with
    | none => rw [hf] at h; cases h
    | some f =>
      obtain ⟨value, need, expected⟩ := f
      exact ⟨hb, (firstByte_some hf).2, value, expected, rfl⟩

theorem announced_le (b : UInt8) : announced b ≤ 3 := by
  rcases Nat.eq_zero_or_pos (announced b) with h | h
  · omega
  · exact (announced_pos h).2.1

theorem piece_of_announced {b : UInt8} (h : announced b = 0) :
    ∃ c, Piece [b] c := by
  by_cases hb : b < 0x80
  · exact ⟨_, .ascii hb⟩
  · cases hf : firstByte b with
    | none => exact ⟨_, .stray hb hf⟩
    | some f =>
      obtain ⟨value, need, expected⟩ := f
      have hpos := (firstByte_some hf).1
      unfold announced at h
      rw [if_neg hb, hf] at h
      exact absurd h (Nat.ne_of_gt hpos)

theorem Piece.announced_eq {p : List UInt8} {b : UInt8} {c : UInt32}
    (h : Piece p c) (hp : p = [b]) : announced b = 0 := by
  cases h with
  | ascii h =>
    cases hp
    exact if_pos h
  | stray h hfirst =>
    cases hp
    unfold announced
    rw [if_neg h, hfirst]
    rfl
  | full hpos hconts hlen =>
    cases hp
    exact hlen.symm
  | broken hconts hlen hbad =>
    have := congrArg List.length hp
    simp at this

theorem Piece.ne_nil {p : List UInt8} {c : UInt32} (h : Piece p c) :
    p ≠ [] := by
  cases h with
  | ascii h => simp
  | stray h hfirst => simp
  | full hpos hconts hlen => simp
  | broken hconts hlen hbad => simp

theorem Reads.append {w w' : List UInt8} {cs cs' : List UInt32}
    (h : Reads w cs) (h' : Reads w' cs') : Reads (w ++ w') (cs ++ cs') := by
  induction h with
  | nil => exact h'
  | cons hp hrest ih =>
    rw [List.append_assoc]
    exact .cons hp ih

theorem Reads.singleton {p : List UInt8} {c : UInt32} (h : Piece p c) :
    Reads p [c] := by
  have := Reads.cons h .nil
  rwa [List.append_nil] at this

theorem piece_cons (b : UInt8) (tail : List UInt8) :
    (∃ p rest c, b :: tail = p ++ rest ∧ Piece p c) ∨
      Incomplete (b :: tail) := by
  rcases Nat.eq_zero_or_pos (announced b) with hzero | hpos
  · obtain ⟨c, hc⟩ := piece_of_announced hzero
    exact .inl ⟨[b], tail, c, rfl, hc⟩
  · -- the continuation bytes, and what is behind them
    have hsplit := List.takeWhile_append_dropWhile (p := isCont) (l := tail)
    have hconts : ∀ c ∈ tail.takeWhile isCont, isCont c = true :=
      fun c hc => List.mem_takeWhile_imp hc
    by_cases hlen : (tail.takeWhile isCont).length < announced b
    · cases hdrop : tail.dropWhile isCont with
      | nil =>
        rw [hdrop, List.append_nil] at hsplit
        right
        refine ⟨b, tail, rfl, ?_, ?_⟩
        · rw [← hsplit]; exact hconts
        · rw [← hsplit]; exact hlen
      | cons bad rest =>
        have hbad : isCont bad = false := by
          have := List.head?_dropWhile_not isCont tail
          rw [hdrop] at this
          simpa using this
        left
        refine ⟨_, rest, _, ?_, .broken hconts hlen hbad⟩
        conv_lhs => rw [← hsplit, hdrop]
        simp
    · left
      refine ⟨b :: tail.take (announced b), tail.drop (announced b), _, ?_,
        .full hpos (fun c hc => hconts c ?_) ?_⟩
      · simp
      · have htake : tail.take (announced b)
            = (tail.takeWhile isCont).take (announced b) := by
          conv_lhs => rw [← hsplit]
          exact List.take_append_of_le_length (Nat.le_of_not_lt hlen)
        rw [htake] at hc
        exact List.mem_of_mem_take hc
      · have := (List.takeWhile_sublist isCont (l := tail)).length_le
        rw [List.length_take]
        omega

theorem reads_exists (s : List UInt8) :
    ∃ w cs t, s = w ++ t ∧ Reads w cs ∧ (t = [] ∨ Incomplete t) := by
  induction hn : s.length using Nat.strongRecOn generalizing s with
  | ind n ih =>
    cases s with
    | nil => exact ⟨[], [], [], rfl, .nil, .inl rfl⟩
    | cons b tail =>
      rcases piece_cons b tail with ⟨p, rest, c, heq, hp⟩ | hinc
      · have hlen := congrArg List.length heq
        rw [List.length_append] at hlen
        have hpos := List.length_pos_of_ne_nil hp.ne_nil
        obtain ⟨w, cs, t, rfl, hw, ht⟩ := ih rest.length (by omega) rest rfl
        exact ⟨p ++ w, c :: cs, t, by rw [heq, List.append_assoc],
          .cons hp hw, ht⟩
      · exact ⟨[], [], b :: tail, rfl, .nil, .inr hinc⟩

-- ==== one byte after another

section streamed

variable {b bad : UInt8} {value : UInt32} {need : Nat} {expected : UInt8}
  {conts p w rest : List UInt8} {c : UInt32} {cs : List UInt32}

theorem reset_remaining : Utf8State.reset.remaining = 0 := rfl

theorem decodeByte_lead (hb : ¬ b < 0x80)
    (h : firstByte b = some (value, need, expected)) :
    decodeByte .reset b
      = (⟨value, need.toUInt8, expected⟩, .needMore) := by
  unfold firstByte at h
  unfold decodeByte
  rw [if_pos reset_remaining, if_neg hb]
  split at h
  · next h2 => cases h; rw [if_pos h2]; rfl
  · next h2 =>
    rw [if_neg h2]
    split at h
    · next h3 => cases h; rw [if_pos h3]; rfl
    · next h3 =>
      rw [if_neg h3]
      split at h
      · next h4 => cases h; rw [if_pos h4]; rfl
      · cases h

theorem remaining_pos (hpos : 0 < need) (hle : need ≤ 3) :
    need.toUInt8 ≠ 0 ∧ need.toUInt8 - 1 = (need - 1).toUInt8 := by
  have h : need = 1 ∨ need = 2 ∨ need = 3 := by omega
  rcases h with rfl | rfl | rfl <;> decide

theorem decodeByte_bad (hpos : 0 < need) (hle : need ≤ 3)
    (hbad : isCont bad = false) :
    decodeByte ⟨value, need.toUInt8, expected⟩ bad
      = (.reset, .replacement) := by
  unfold decodeByte
  rw [if_neg (remaining_pos hpos hle).1, if_pos (by rw [hbad]; rfl)]

theorem decodeByte_cont (hpos : 1 < need) (hle : need ≤ 3)
    (hcont : isCont b = true) :
    decodeByte ⟨value, need.toUInt8, expected⟩ b
      = (⟨shiftIn value b, (need - 1).toUInt8, expected⟩, .needMore) := by
  obtain ⟨hne, hsub⟩ := remaining_pos (by omega : 0 < need) hle
  obtain ⟨hne', -⟩ := remaining_pos (by omega : 0 < need - 1) (by omega)
  unfold decodeByte
  rw [if_neg hne, if_neg (by rw [hcont]; simp)]
  dsimp only
  rw [hsub, if_pos hne']

theorem decodeByte_last (hcont : isCont b = true) :
    decodeByte ⟨value, Nat.toUInt8 1, expected⟩ b = (.reset,
      if validFinished (shiftIn value b) expected then
        .codepoint (shiftIn value b)
      else .replacement) := by
  obtain ⟨hne, hsub⟩ := remaining_pos Nat.one_pos (by omega : 1 ≤ 3)
  unfold decodeByte
  rw [if_neg hne, if_neg (by rw [hcont]; simp)]
  dsimp only
  rw [hsub, if_neg (by decide)]
  split <;> rfl

theorem feed_conts (hconts : ∀ c ∈ conts, isCont c = true)
    (hlen : conts.length < need) (hle : need ≤ 3) :
    feed ⟨value, need.toUInt8, expected⟩ (conts ++ rest)
      = feed ⟨conts.foldl shiftIn value, (need - conts.length).toUInt8,
          expected⟩ rest := by
  induction conts generalizing value need with
  | nil => rfl
  | cons c conts ih =>
    rw [List.length_cons] at hlen
    rw [List.cons_append, feed, decodeByte_cont (by omega) hle
      (hconts c List.mem_cons_self)]
    dsimp only [Utf8Status.chars]
    rw [List.nil_append, ih (fun d hd => hconts d (.tail _ hd)) (by omega)
      (by omega), List.foldl_cons, List.length_cons,
      Nat.sub_sub, Nat.add_comm 1]

theorem feed_piece (h : Piece p c) :
    feed .reset (p ++ rest) = c :: feed .reset rest := by
  cases h with
  | @ascii b h =>
    rw [List.singleton_append, feed]
    unfold decodeByte
    rw [if_pos reset_remaining, if_pos h]
    rfl
  | @stray b h hfirst =>
    rw [List.singleton_append, feed]
    have hdecode : decodeByte .reset b = (.reset, .replacement) := by
      unfold firstByte at hfirst
      unfold decodeByte
      rw [if_pos reset_remaining, if_neg h]
      split at hfirst
      · cases hfirst
      · next h2 =>
        rw [if_neg h2]
        split at hfirst
        · cases hfirst
        · next h3 =>
          rw [if_neg h3]
          split at hfirst
          · cases hfirst
          · next h4 => rw [if_neg h4]
    rw [hdecode]
    rfl
  | @full b conts hpos hconts hlen =>
    obtain ⟨hb, hle, value, expected, hfirst⟩ := announced_pos hpos
    -- all but the last byte, and the last byte
    have hne : conts ≠ [] := by
      intro hnil
      rw [hnil, List.length_nil] at hlen
      omega
    have hinit : ∀ c ∈ conts.dropLast, isCont c = true :=
      fun c hc => hconts c (List.dropLast_subset _ hc)
    have hshort : conts.dropLast.length < announced b := by
      rw [List.length_dropLast]
      omega
    rw [List.cons_append, feed, decodeByte_lead hb hfirst]
    dsimp only [Utf8Status.chars]
    rw [List.nil_append]
    conv_lhs => rw [← List.dropLast_append_getLast hne]
    rw [List.append_assoc, feed_conts hinit hshort hle]
    have hone : announced b - conts.dropLast.length = 1 := by
      rw [List.length_dropLast]
      omega
    have hfold : shiftIn (conts.dropLast.foldl shiftIn value)
        (conts.getLast hne) = conts.foldl shiftIn value := by
      conv_rhs => rw [← List.dropLast_append_getLast hne]
      rw [List.foldl_append]
      rfl
    rw [hone, List.singleton_append, feed,
      decodeByte_last (hconts _ (List.getLast_mem hne)), hfold]
    unfold sequenceChar
    rw [hfirst]
    dsimp only
    split <;> rfl
  | @broken b bad conts hconts hlen hbad =>
    have hpos : 0 < announced b := by omega
    obtain ⟨hb, hle, value, expected, hfirst⟩ := announced_pos hpos
    rw [List.cons_append, feed, decodeByte_lead hb hfirst]
    dsimp only [Utf8Status.chars]
    rw [List.nil_append, List.append_assoc, feed_conts hconts hlen hle,
      List.singleton_append, feed,
      decodeByte_bad (by omega) (by omega) hbad]
    rfl

theorem streamed_reads (h : Reads w cs) :
    feed .reset (w ++ rest) = cs ++ feed .reset rest := by
  induction h with
  | nil => rfl
  | cons hp hrest ih => rw [List.append_assoc, feed_piece hp, ih]; rfl

theorem feed_incomplete (h : Incomplete rest) : feed .reset rest = [] := by
  obtain ⟨b, conts, rfl, hconts, hlen⟩ := h
  obtain ⟨hb, hle, value, expected, hfirst⟩ :=
    announced_pos (by omega : 0 < announced b)
  rw [feed, decodeByte_lead hb hfirst, ← List.append_nil conts]
  dsimp only [Utf8Status.chars]
  rw [feed_conts hconts hlen hle]
  rfl

theorem Reads.streamed_eq (h : Reads w cs) : streamed w = cs := by
  rw [streamed, ← List.append_nil w, streamed_reads h, feed,
    List.append_nil]

theorem Whole.streamed_append (h : Whole w) (ht : Incomplete rest) :
    streamed (w ++ rest) = streamed w := by
  obtain ⟨cs, hw⟩ := h
  rw [hw.streamed_eq, streamed, streamed_reads hw, feed_incomplete ht,
    List.append_nil]

end streamed

-- ==== by the index

section indexed

variable {b bad : UInt8} {conts p w t rest pre : List UInt8} {c : UInt32}
  {cs : List UInt32}

theorem getElem?_behind (pre rest : List UInt8) (b : UInt8) :
    (pre ++ b :: rest)[pre.length]? = some b := by
  rw [List.getElem?_append_right (Nat.le_refl _), Nat.sub_self,
    List.getElem?_cons_zero]

theorem takeConts_append (pre conts rest : List UInt8) (need : Nat)
    (value : UInt32) (hconts : ∀ c ∈ conts, isCont c = true) :
    takeConts (pre ++ (conts ++ rest)) (conts.length + need) pre.length value
      = takeConts (pre ++ (conts ++ rest)) need (pre.length + conts.length)
          (conts.foldl shiftIn value) := by
  induction conts generalizing pre value with
  | nil => simp
  | cons c conts ih =>
    have hget : (pre ++ (c :: conts ++ rest)).getD pre.length 0 = c := by
      rw [List.getD_eq_getElem?_getD, List.cons_append, getElem?_behind]
      rfl
    have hmove : pre ++ (c :: conts ++ rest)
        = (pre ++ [c]) ++ (conts ++ rest) := by simp
    rw [List.length_cons, Nat.add_right_comm, takeConts, hget,
      if_neg (by rw [hconts c List.mem_cons_self]; simp)]
    have := ih (pre ++ [c]) (shiftIn value c)
      (fun d hd => hconts d (.tail _ hd))
    rw [List.length_append, List.length_singleton, ← hmove] at this
    rw [this, List.foldl_cons, Nat.add_assoc, Nat.add_comm 1]

theorem utf8Next_lead (pre : List UInt8) (hpos : 0 < announced b)
    (hlen : announced b ≤ rest.length) :
    ∃ value expected, firstByte b = some (value, announced b, expected) ∧
      utf8Next (pre ++ b :: rest) pre.length
        = match takeConts (pre ++ b :: rest) (announced b) (pre.length + 1)
            value with
          | (index, none) => (true, index, some replacement)
          | (index, some value) =>
            if validFinished value expected then (true, index, some value)
            else (true, index, some replacement) := by
  obtain ⟨hb, -, value, expected, hfirst⟩ := announced_pos hpos
  refine ⟨value, expected, hfirst, ?_⟩
  unfold utf8Next utf8NextImpl
  rw [getElem?_behind]
  dsimp only
  rw [if_neg hb, hfirst]
  dsimp only
  rw [if_neg (by rw [List.length_append, List.length_cons]; omega)]
  rfl

theorem utf8Next_short (hlen : rest.length < announced b) :
    utf8Next (pre ++ b :: rest) pre.length
      = (true, (pre ++ b :: rest).length, some replacement) := by
  obtain ⟨hb, -, value, expected, hfirst⟩ :=
    announced_pos (by omega : 0 < announced b)
  unfold utf8Next utf8NextImpl
  rw [getElem?_behind]
  dsimp only
  rw [if_neg hb, hfirst]
  dsimp only
  rw [if_pos (by rw [List.length_append, List.length_cons]; omega)]
  rfl

/-- The string goes on as far as the first byte of the piece announces. -/
def Fits (p rest : List UInt8) : Prop :=
  ∀ b tail, p ++ rest = b :: tail → announced b ≤ tail.length

theorem utf8Next_piece (h : Piece p c) (hfits : Fits p rest) :
    utf8Next (pre ++ (p ++ rest)) pre.length
      = (true, pre.length + p.length, some c) := by
  cases h with
  | @ascii b h =>
    unfold utf8Next utf8NextImpl
    rw [List.singleton_append, getElem?_behind]
    dsimp only
    rw [if_pos h]
    rfl
  | @stray b h hfirst =>
    unfold utf8Next utf8NextImpl
    rw [List.singleton_append, getElem?_behind]
    dsimp only
    rw [if_neg h, hfirst]
    rfl
  | @full b conts hpos hconts hlen =>
    obtain ⟨value, expected, hfirst, hnext⟩ :=
      utf8Next_lead pre hpos (hfits b (conts ++ rest) rfl)
    have htake := takeConts_append (pre ++ [b]) conts rest 0 value hconts
    rw [List.append_assoc, List.singleton_append, List.length_append,
      List.length_singleton, Nat.add_zero, hlen] at htake
    rw [List.cons_append, hnext, htake]
    unfold takeConts sequenceChar
    rw [hfirst, List.length_cons, hlen, Nat.add_comm (announced b) 1,
      ← Nat.add_assoc]
    dsimp only
    split <;> rfl
  | @broken b bad conts hconts hlen hbad =>
    obtain ⟨value, expected, hfirst, hnext⟩ :=
      utf8Next_lead pre (by omega : 0 < announced b)
        (hfits b (conts ++ [bad] ++ rest) rfl)
    obtain ⟨more, hmore⟩ : ∃ more, announced b = conts.length + (more + 1) :=
      ⟨announced b - conts.length - 1, by omega⟩
    have htake := takeConts_append (pre ++ [b]) conts ([bad] ++ rest)
      (more + 1) value hconts
    have hget : (pre ++ b :: (conts ++ [bad] ++ rest)).getD
        (pre.length + 1 + conts.length) 0 = bad := by
      have := getElem?_behind (pre ++ b :: conts) rest bad
      rw [List.length_append, List.length_cons] at this
      rw [List.getD_eq_getElem?_getD,
        show pre.length + 1 + conts.length
          = pre.length + (conts.length + 1) by omega]
      simp only [List.append_assoc, List.cons_append,
        List.nil_append] at this ⊢
      rw [this]
      rfl
    rw [List.append_assoc, List.singleton_append, List.length_append,
      List.length_singleton, ← hmore, ← List.append_assoc conts] at htake
    rw [List.cons_append, hnext, htake, takeConts, hget, hbad]
    have hindex : pre.length + 1 + conts.length + 1
        = pre.length + (b :: (conts ++ [bad])).length := by
      rw [List.length_cons, List.length_append, List.length_singleton]
      omega
    simp only [Bool.not_false, if_true, hindex]

theorem utf8Walk_some {input : List UInt8} {index next : Nat}
    (h : utf8Next input index = (true, next, some c)) :
    utf8Walk input index = c :: utf8Walk input next := by
  rw [utf8Walk]
  split
  · next next' c' h' =>
    rw [h] at h'
    cases h'
    rfl
  · next h' => rw [h] at h'; cases h'

theorem utf8Walk_end (input : List UInt8) :
    utf8Walk input input.length = [] := by
  have hend : utf8Next input input.length = (false, input.length, none) :=
    utf8NextImpl_end false (Nat.le_refl _)
  rw [utf8Walk]
  split
  · next h => rw [hend] at h; cases h
  · rfl

theorem utf8Walk_piece (h : Piece p c) (hfits : Fits p rest) :
    utf8Walk (pre ++ (p ++ rest)) pre.length
      = c :: utf8Walk (pre ++ p ++ rest) (pre ++ p).length := by
  rw [utf8Walk_some (utf8Next_piece h hfits), List.length_append,
    List.append_assoc]

theorem utf8Walk_short (hlen : rest.length < announced b) :
    utf8Walk (pre ++ b :: rest) pre.length = [replacement] := by
  rw [utf8Walk_some (utf8Next_short hlen), utf8Walk_end]

end indexed

end Clks.Text
