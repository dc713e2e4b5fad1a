/-
What becomes of the bytes that are written to a terminal.

The escape parser takes a byte, or the decoder does, and then the byte says
nothing yet, or a codepoint, or the replacement character (`Fate`). A stream
is faithful if every character in the bytes of the decoder is passed on as
its own codepoint, and no other codepoint is (`Faithful`).
-/
import Clks.Text.WellFormed
import Clks.Tty.Frames

namespace Clks.Tty

open Text

-- ==== the fates

/-- What becomes of a byte: it is part of an escape sequence, or the decoder,
which holds what it has of a sequence, answers it. -/
inductive Fate
  | escaped
  | decoded (held : Utf8State) (byte : UInt8) (status : Utf8Status)
  deriving DecidableEq, Repr

/-- The byte, where the decoder gets it. -/
def Fate.byte? : Fate → Option UInt8
  | escaped => none
  | decoded _ byte _ => some byte

/-- What is put on the screen for it: a codepoint or the replacement. -/
def Fate.passed? : Fate → Option Utf8Status
  | escaped => none
  | decoded _ _ .needMore => none
  | decoded _ _ status => some status

/-- The bytes that no escape sequence takes. -/
def bytes (fates : List Fate) : List UInt8 := fates.filterMap Fate.byte?

/-- What is put on the screen. -/
def passed (fates : List Fate) : List Utf8Status := fates.filterMap Fate.passed?

/-- Every character is passed on as its own codepoint, and every codepoint
is that of a character whose last byte it was. -/
structure Faithful (fates : List Fate) : Prop where
  kept : ∀ front mid back (c : Char), fates = front ++ mid ++ back →
    bytes mid = encode c → passed mid = [.codepoint c.val]
  only : ∀ front f back v, fates = front ++ f :: back →
    f.passed? = some (.codepoint v) →
    ∃ c : Char, c.val = v ∧ encode c <:+ bytes (front ++ [f])

/-- The decoder holds nothing where a character begins, and no byte of an
escape sequence is between the bytes of one. -/
structure Undisturbed (fates : List Fate) : Prop where
  begins : ∀ front held byte status back (c : Char),
    fates = front ++ .decoded held byte status :: back →
    encode c <+: byte :: bytes back → held.remaining = 0
  whole : ∀ front back (c : Char) pre post,
    fates = front ++ .escaped :: back → pre ++ post = encode c → pre ≠ [] →
    post ≠ [] → pre <:+ bytes front → ¬ post <+: bytes back

@[simp] theorem bytes_append (xs ys : List Fate) :
    bytes (xs ++ ys) = bytes xs ++ bytes ys := List.filterMap_append

@[simp] theorem passed_append (xs ys : List Fate) :
    passed (xs ++ ys) = passed xs ++ passed ys := List.filterMap_append

@[simp] theorem bytes_nil : bytes [] = [] := rfl

@[simp] theorem bytes_escaped (fates : List Fate) :
    bytes (.escaped :: fates) = bytes fates := rfl

@[simp] theorem bytes_decoded (held : Utf8State) (b : UInt8)
    (status : Utf8Status) (fates : List Fate) :
    bytes (.decoded held b status :: fates) = b :: bytes fates := rfl

theorem passed_of_bytes {fates : List Fate} (h : bytes fates = []) :
    passed fates = [] := by
  induction fates with
  | nil => rfl
  | cons f fates ih =>
    cases f with
    | escaped => exact ih h
    | decoded held b status => exact nomatch h

-- ==== the reader

/-- What the parser and the decoder do with a byte. -/
inductive Next : Reader → Fate → Reader → Prop
  | begins (u : Utf8State) : Next ⟨false, u⟩ .escaped ⟨true, u⟩
  | within (u : Utf8State) : Next ⟨true, u⟩ .escaped ⟨true, u⟩
  | ends (u : Utf8State) : Next ⟨true, u⟩ .escaped ⟨false, .reset⟩
  | decodes (u : Utf8State) (b : UInt8) :
      Next ⟨false, u⟩ (.decoded u b (decodeByte u b).2)
        ⟨false, (decodeByte u b).1⟩

/-- What they do with one byte after another. -/
inductive Follows : Reader → List Fate → Reader → Prop
  | nil (r : Reader) : Follows r [] r
  | cons {r r₁ r' : Reader} {f : Fate} {fates : List Fate} (h : Next r f r₁)
      (hrest : Follows r₁ fates r') : Follows r (f :: fates) r'

theorem Follows.append {r r1 r' : Reader} {xs ys : List Fate}
    (h : Follows r xs r1) (h' : Follows r1 ys r') : Follows r (xs ++ ys) r' := by
  induction h with
  | nil => exact h'
  | cons hnext _ ih => exact .cons hnext (ih h')

theorem Follows.split {r r' : Reader} {xs ys : List Fate}
    (h : Follows r (xs ++ ys) r') :
    ∃ r1, Follows r xs r1 ∧ Follows r1 ys r' := by
  induction xs generalizing r with
  | nil => exact ⟨r, .nil r, h⟩
  | cons f xs ih =>
    cases h with
    | cons hnext hrest =>
      obtain ⟨r1, hxs, hys⟩ := ih hrest
      exact ⟨r1, .cons hnext hxs, hys⟩

/-- The decoder will hold nothing when it gets its next byte. -/
def Reader.Clear (r : Reader) : Prop :=
  r.inEscape = true ∨ r.utf8.remaining = 0

theorem Next.clear {r r' : Reader} (h : Next r .escaped r') : r'.Clear := by
  cases h with
  | begins u => exact .inl rfl
  | within u => exact .inl rfl
  | ends u => exact .inr rfl

theorem Follows.first {r r' : Reader} {fates : List Fate} {b : UInt8}
    {bs : List UInt8} (h : Follows r fates r') (hbytes : bytes fates = b :: bs) :
    ∃ escapes u rest, fates = escapes ++ .decoded u b (decodeByte u b).2 :: rest ∧
      bytes escapes = [] ∧ bytes rest = bs ∧
      Follows ⟨false, (decodeByte u b).1⟩ rest r' ∧
      (r.Clear → u.remaining = 0) := by
  induction h with
  | nil => exact nomatch hbytes
  | @cons r r1 r' f fates hnext hrest ih =>
    cases f with
    | escaped =>
      obtain ⟨escapes, u, rest, rfl, hnone, hbs, hfollows, hclear⟩ := ih hbytes
      exact ⟨.escaped :: escapes, u, rest, rfl, hnone, hbs, hfollows,
        fun _ => hclear hnext.clear⟩
    | decoded held x status =>
      cases hnext
      rw [bytes_decoded] at hbytes
      obtain ⟨rfl, rfl⟩ := List.cons.inj hbytes
      refine ⟨[], held, fates, rfl, rfl, rfl, hrest, fun hclear => ?_⟩
      exact hclear.resolve_left Bool.false_ne_true

-- ==== the decoder

section decoder

variable {u : Utf8State} {b : UInt8} {pending rest : List UInt8} {c : Char}

/-- What the decoder holds of a sequence. -/
inductive Part : Utf8State → List UInt8 → Prop
  | nothing {u : Utf8State} (h : u.remaining = 0) : Part u []
  | some {b : UInt8} {conts : List UInt8} {bits : UInt32} {more : Nat}
      {expected : UInt8} (hlarge : 0x80 ≤ b) (hmore : 0 < more)
      (hfirst : firstByte b = some (bits, conts.length + more, expected))
      (hconts : ∀ x ∈ conts, isCont x = true) :
      Part ⟨conts.foldl shiftIn bits, more.toUInt8, expected⟩ (b :: conts)

theorem isCont_first {bits : UInt32} {need : Nat} {expected : UInt8}
    (h : firstByte b = some (bits, need, expected)) : isCont b = false := by
  have hall : ∀ n < 256, isCont (UInt8.ofNat n) = true →
      firstByte (UInt8.ofNat n) = none := by
    decide +kernel
  have hn := hall b.toNat b.toNat_lt
  rw [UInt8.ofNat_toNat] at hn
  rw [← Bool.not_eq_true]
  intro hcont
  rw [hn hcont] at h
  cases h

theorem isCont_ascii (h : b < 0x80) : isCont b = false := by
  have hall : ∀ n < 256, isCont (UInt8.ofNat n) = true →
      ¬ UInt8.ofNat n < 0x80 := by
    decide +kernel
  have hn := hall b.toNat b.toNat_lt
  rw [UInt8.ofNat_toNat] at hn
  rw [← Bool.not_eq_true]
  exact fun hcont => hn hcont h

theorem isCont_encode (h : encode c = b :: rest) :
    isCont b = false ∧ ∀ x ∈ rest, isCont x = true := by
  rcases encode_cases c with ⟨b', heq, hsmall, -⟩ | ⟨b', conts, heq, hseq⟩
  · obtain ⟨rfl, rfl⟩ := List.cons.inj (h.symm.trans heq)
    exact ⟨isCont_ascii hsmall, fun x hx => absurd hx List.not_mem_nil⟩
  · obtain ⟨rfl, rfl⟩ := List.cons.inj (h.symm.trans heq)
    obtain ⟨bits, expected, hfirst, -, -⟩ := hseq.decodes
    exact ⟨isCont_first hfirst, hseq.continued⟩

theorem decodeByte_breaks (hheld : u.remaining ≠ 0) (hb : isCont b = false) :
    decodeByte u b = (.reset, .replacement) := by
  unfold decodeByte
  rw [if_neg hheld, if_pos (by rw [hb]; rfl)]

theorem decodeByte_stray (hheld : u.remaining = 0) (hb : isCont b = true) :
    decodeByte u b = (u, .replacement) := by
  have hall : ∀ n < 256, isCont (UInt8.ofNat n) = true →
      ¬ UInt8.ofNat n < 0x80 ∧ firstByte (UInt8.ofNat n) = none := by
    decide +kernel
  have hn := hall b.toNat b.toNat_lt
  rw [UInt8.ofNat_toNat] at hn
  obtain ⟨hlarge, hfirst⟩ := hn hb
  unfold firstByte at hfirst
  unfold decodeByte
  split_ifs at hfirst ⊢
  rfl

theorem decodeByte_fresh (hheld : u.remaining = 0) :
    decodeByte u b = if b < 0x80 then (u, .codepoint b.toUInt32)
      else match firstByte b with
        | none => (u, .replacement)
        | some (bits, need, expected) =>
          (⟨bits, need.toUInt8, expected⟩, .needMore) := by
  unfold decodeByte firstByte
  rw [if_pos hheld]
  split_ifs <;> rfl

theorem Part.decode (h : Part u pending) (b : UInt8) :
    ∃ pending', Part (decodeByte u b).1 pending' ∧
      match (decodeByte u b).2 with
      | .needMore => pending' = pending ++ [b]
      | .codepoint v => pending' = [] ∧
          ∃ c : Char, c.val = v ∧ encode c = pending ++ [b]
      | .replacement => pending' = [] := by
  have hreset : Part .reset [] := .nothing reset_remaining
  cases h with
  | nothing hheld =>
    rw [decodeByte_fresh hheld]
    by_cases hb : b < 0x80
    · rw [if_pos hb]
      exact ⟨[], .nothing hheld, rfl, encode_ascii hb⟩
    · rw [if_neg hb]
      cases hfirst : firstByte b with
      | none => exact ⟨[], .nothing hheld, rfl⟩
      | some first =>
        obtain ⟨bits, need, expected⟩ := first
        refine ⟨[b], ?_, rfl⟩
        exact @Part.some b [] bits need expected (UInt8.not_lt.mp hb)
          (firstByte_some hfirst).1 (by rw [hfirst, List.length_nil, Nat.zero_add])
          fun x hx => absurd hx List.not_mem_nil
  | @some b0 conts bits more expected hlarge hmore hfirst hconts =>
    have hle := (firstByte_some hfirst).2
    cases hb : isCont b with
    | false =>
      rw [decodeByte_bad hmore (by omega) hb]
      exact ⟨[], hreset, rfl⟩
    | true =>
      have hconts' : ∀ x ∈ conts ++ [b], isCont x = true :=
        List.forall_mem_append.mpr ⟨hconts, List.forall_mem_singleton.mpr hb⟩
      have hfold : (conts ++ [b]).foldl shiftIn bits
          = shiftIn (conts.foldl shiftIn bits) b := List.foldl_concat ..
      have hlen : (conts ++ [b]).length + (more - 1) = conts.length + more := by
        rw [List.length_append, List.length_singleton]
        omega
      by_cases hone : 1 < more
      · rw [decodeByte_cont hone (by omega) hb, ← hfold]
        refine ⟨b0 :: (conts ++ [b]), ?_, rfl⟩
        exact .some hlarge (by omega) (by rw [hlen, hfirst]) hconts'
      · obtain rfl : more = 1 := by omega
        rw [decodeByte_last hb, ← hfold]
        split_ifs with hvalid
        · refine ⟨[], hreset, rfl, ?_⟩
          have hseq : Sequence b0 (conts ++ [b]) ((conts ++ [b]).foldl shiftIn bits) :=
            ⟨hlarge, hconts', bits, expected, by rw [← hlen] at hfirst; exact hfirst,
              rfl, hvalid⟩
          exact hseq.encodes
        · exact ⟨[], hreset, rfl⟩

theorem Part.decode_char (h : Part u pending)
    (hc : encode c = pending ++ b :: rest) :
    if rest = [] then (decodeByte u b).2 = .codepoint c.val
    else (decodeByte u b).2 = .needMore ∧
      Part (decodeByte u b).1 (pending ++ [b]) := by
  rcases encode_cases c with ⟨b', heq, hsmall, hval⟩ | ⟨b', conts', heq, hseq⟩
  · have hall := heq.symm.trans hc
    cases h with
    | nothing hheld =>
      obtain ⟨rfl, rfl⟩ := List.cons.inj hall
      rw [if_pos rfl, decodeByte_fresh hheld, if_pos hsmall, hval]
    | some =>
      have := (List.cons.inj hall).2
      exact absurd this.symm (List.append_ne_nil_of_right_ne_nil _
        (List.cons_ne_nil b rest))
  · obtain ⟨bits', expected', hfirst', hfold, hvalid⟩ := hseq.decodes
    have hall := heq.symm.trans hc
    cases h with
    | nothing hheld =>
      obtain ⟨rfl, rfl⟩ := List.cons.inj hall
      have hpos := (firstByte_some hfirst').1
      rw [if_neg (List.ne_nil_of_length_pos hpos), decodeByte_fresh hheld,
        if_neg (UInt8.not_lt.mpr hseq.large), hfirst']
      refine ⟨rfl, ?_⟩
      exact @Part.some b' [] _ _ _ hseq.large hpos
        (by rw [hfirst', List.length_nil, Nat.zero_add])
        fun x hx => absurd hx List.not_mem_nil
    | @some b0 conts bits more expected hlarge hmore hfirst hconts =>
      obtain rfl : b' = b0 := (List.cons.inj hall).1
      obtain rfl : conts' = conts ++ b :: rest := (List.cons.inj hall).2
      have hle := (firstByte_some hfirst).2
      have hb : isCont b = true :=
        hseq.continued b (List.mem_append_right _ List.mem_cons_self)
      have hsame := Option.some.inj (hfirst.symm.trans hfirst')
      simp only [Prod.mk.injEq, List.length_append, List.length_cons] at hsame
      obtain ⟨rfl, hlen, rfl⟩ := hsame
      obtain rfl : more = rest.length + 1 := by omega
      by_cases hnil : rest = []
      · subst hnil
        rw [List.foldl_append, List.foldl_cons, List.foldl_nil] at hfold
        rw [if_pos rfl, List.length_nil, decodeByte_last hb, hfold]
        exact if_pos hvalid
      · have hpos := List.length_pos_of_ne_nil hnil
        rw [if_neg hnil, decodeByte_cont (by omega) (by omega) hb]
        have hfold' : shiftIn (conts.foldl shiftIn bits) b
            = (conts ++ [b]).foldl shiftIn bits := (List.foldl_concat ..).symm
        rw [hfold']
        refine ⟨rfl, .some hlarge (by omega) ?_ ?_⟩
        · rw [hfirst, List.length_append, List.length_singleton]
          congr 3
          omega
        · exact List.forall_mem_append.mpr
            ⟨hconts, List.forall_mem_singleton.mpr hb⟩

end decoder

-- ==== the theorem

section faithful

variable {r r' : Reader} {fates : List Fate} {pending : List UInt8} {c : Char}

theorem Follows.only (h : Follows r fates r') (hpart : Part r.utf8 pending)
    {front back : List Fate} {f : Fate} {v : UInt32}
    (heq : fates = front ++ f :: back)
    (hf : f.passed? = some (.codepoint v)) :
    ∃ c : Char, c.val = v ∧ encode c <:+ pending ++ bytes (front ++ [f]) := by
  induction h generalizing front pending with
  | nil => exact absurd heq.symm (List.append_ne_nil_of_right_ne_nil _
      (List.cons_ne_nil f back))
  | @cons r r1 r' f0 fates hnext hrest ih =>
    -- What is held behind the first byte is the end of what there was.
    have hstep : ∃ pending', Part r1.utf8 pending' ∧
        pending' <:+ pending ++ bytes [f0] ∧
        ∀ v, f0.passed? = some (.codepoint v) →
          ∃ c : Char, c.val = v ∧ encode c = pending ++ bytes [f0] := by
      cases hnext with
      | begins u =>
        exact ⟨pending, hpart, by simp, fun v hv => nomatch hv⟩
      | within u =>
        exact ⟨pending, hpart, by simp, fun v hv => nomatch hv⟩
      | ends u =>
        exact ⟨[], .nothing reset_remaining, List.nil_suffix,
          fun v hv => nomatch hv⟩
      | decodes u b =>
        obtain ⟨pending', hpart', hstatus⟩ := hpart.decode b
        refine ⟨pending', hpart', ?_⟩
        cases hdecode : (decodeByte u b).2 with
        | needMore =>
          rw [hdecode] at hstatus
          exact ⟨by rw [hstatus]; exact List.suffix_refl _, fun v hv => nomatch hv⟩
        | codepoint v =>
          rw [hdecode] at hstatus
          obtain ⟨rfl, hchar⟩ := hstatus
          refine ⟨List.nil_suffix, fun w hw => ?_⟩
          cases hw
          exact hchar
        | replacement =>
          rw [hdecode] at hstatus
          obtain rfl := hstatus
          exact ⟨List.nil_suffix, fun v hv => nomatch hv⟩
    obtain ⟨pending', hpart', hsuffix, hsays⟩ := hstep
    cases front with
    | nil =>
      obtain ⟨rfl, rfl⟩ := List.cons.inj heq
      obtain ⟨c, hval, hc⟩ := hsays v hf
      exact ⟨c, hval, by rw [hc]; exact List.suffix_refl _⟩
    | cons f' front =>
      obtain ⟨rfl, rfl⟩ := List.cons.inj heq
      obtain ⟨c, hval, hc⟩ := ih hpart' rfl
      obtain ⟨before, hbefore⟩ := hsuffix
      have hcons : f0 :: front ++ [f] = [f0] ++ (front ++ [f]) := rfl
      refine ⟨c, hval, hc.trans ⟨before, ?_⟩⟩
      rw [hcons, bytes_append [f0], ← List.append_assoc, ← List.append_assoc,
        hbefore]

theorem Follows.rest_passed {u : Utf8State} (h : Follows ⟨false, u⟩ fates r')
    (hpart : Part u pending) (hpending : pending ≠ [])
    (hc : encode c = pending ++ bytes fates) (hmore : bytes fates ≠ [])
    (hwhole : ∀ front back, fates = front ++ .escaped :: back → bytes back = []) :
    passed fates = [.codepoint c.val] := by
  induction fates generalizing u pending with
  | nil => exact absurd rfl hmore
  | cons f fates ih =>
    cases h with
    | @cons _ r1 _ _ _ hnext hrest =>
      cases hnext with
      | begins u =>
        exact absurd (hwhole [] fates rfl) hmore
      | decodes u b =>
        rw [bytes_decoded] at hc
        have hstep := hpart.decode_char hc
        have hpassed : ∀ status, passed (.decoded u b status :: fates)
            = (Fate.decoded u b status).passed?.toList ++ passed fates := by
          intro status
          cases status <;> rfl
        rw [hpassed]
        by_cases hnil : bytes fates = []
        · rw [if_pos hnil] at hstep
          rw [hstep, passed_of_bytes hnil]
          rfl
        · rw [if_neg hnil] at hstep
          obtain ⟨hstatus, hpart'⟩ := hstep
          rw [hstatus]
          refine ih hrest hpart' (List.append_ne_nil_of_right_ne_nil _
            (List.cons_ne_nil b [])) ?_ hnil ?_
          · rw [hc, List.append_assoc, List.singleton_append]
          · intro front back heq
            exact hwhole (.decoded u b _ :: front) back (by rw [heq]; rfl)

theorem Follows.kept (h : Follows r fates r') (hbytes : bytes fates = encode c)
    (hbegins : ∀ front held byte status back,
      fates = front ++ .decoded held byte status :: back → bytes front = [] →
        held.remaining = 0)
    (hwhole : ∀ front back, fates = front ++ .escaped :: back →
      bytes front ≠ [] → bytes back = []) :
    passed fates = [.codepoint c.val] := by
  obtain ⟨b, conts, heq, -, -⟩ := encode_head c
  obtain ⟨escapes, u, rest, rfl, hnone, hrest, hfollows, -⟩ :=
    h.first (hbytes.trans heq)
  have hheld := hbegins escapes u b _ rest rfl hnone
  have hc : encode c = [] ++ b :: bytes rest := by rw [heq, hrest]; rfl
  have hstep := (Part.nothing hheld).decode_char hc
  have hpassed : ∀ status, passed (escapes ++ .decoded u b status :: rest)
      = (Fate.decoded u b status).passed?.toList ++ passed rest := by
    intro status
    rw [passed_append, passed_of_bytes hnone]
    cases status <;> rfl
  rw [hpassed]
  by_cases hnil : bytes rest = []
  · rw [if_pos hnil] at hstep
    rw [hstep, passed_of_bytes hnil]
    rfl
  · rw [if_neg hnil] at hstep
    obtain ⟨hstatus, hpart⟩ := hstep
    rw [hstatus]
    refine hfollows.rest_passed hpart (List.cons_ne_nil b []) hc hnil ?_
    intro front back hsplit
    refine hwhole (escapes ++ .decoded u b _ :: front) back
      (by rw [hsplit, List.append_assoc]; rfl) ?_
    simp

theorem split_bytes {xs : List UInt8} (h : xs <+: bytes fates) :
    ∃ mid back, fates = mid ++ back ∧ bytes mid = xs := by
  obtain ⟨rest, hrest⟩ := h
  obtain ⟨mid, back, heq, hmid, -⟩ :=
    List.filterMap_eq_append_iff.mp hrest.symm
  exact ⟨mid, back, heq, hmid⟩

theorem split_bytes_end {xs : List UInt8} (h : xs <:+ bytes fates) :
    ∃ front mid, fates = front ++ mid ∧ bytes mid = xs := by
  obtain ⟨rest, hrest⟩ := h
  obtain ⟨front, mid, heq, -, hmid⟩ :=
    List.filterMap_eq_append_iff.mp hrest.symm
  exact ⟨front, mid, heq, hmid⟩

theorem Follows.undisturbed (h : Follows r fates r')
    (hkept : ∀ front mid back (c : Char), fates = front ++ mid ++ back →
      bytes mid = encode c → passed mid = [.codepoint c.val]) :
    Undisturbed fates where
  begins := by
    intro front held b status back c heq hc
    obtain ⟨b', conts, hb, -, -⟩ := encode_head c
    rw [hb, List.cons_prefix_cons] at hc
    obtain ⟨rfl, hconts⟩ := hc
    obtain ⟨mid, rest, rfl, hmid⟩ := split_bytes hconts
    have hchar := hkept front (.decoded held b' status :: mid) rest c
      (by rw [heq, List.append_assoc]; rfl) (by rw [bytes_decoded, hmid, hb])
    -- A byte that breaks a sequence off says the replacement character.
    by_contra hheld
    rw [heq] at h
    obtain ⟨r1, -, hrest⟩ := h.split
    cases hrest with
    | cons hnext _ =>
      cases hnext
      rw [decodeByte_breaks hheld (isCont_encode hb).1] at hchar
      exact nomatch hchar
  whole := by
    intro front back c pre post heq hc hpre hpost hfront hback
    obtain ⟨start, mid, rfl, hmid⟩ := split_bytes_end hfront
    obtain ⟨mid', rest, rfl, hmid'⟩ := split_bytes hback
    have hchar := hkept start (mid ++ .escaped :: mid') rest c
      (by rw [heq]; simp) (by rw [bytes_append, bytes_escaped, hmid, hmid', hc])
    -- The next byte is a continuation that continues nothing.
    obtain ⟨x, xs, rfl⟩ := List.exists_cons_of_ne_nil hpost
    obtain ⟨b, conts, rfl⟩ := List.exists_cons_of_ne_nil hpre
    have hcont : isCont x = true :=
      (isCont_encode hc.symm).2 x (List.mem_append_right _ List.mem_cons_self)
    rw [heq, List.append_assoc] at h
    obtain ⟨r1, -, hmiddle⟩ := h.split
    obtain ⟨r2, -, hescape⟩ := hmiddle.split
    cases hescape with
    | @cons _ r3 _ _ _ hnext hrest =>
      obtain ⟨r4, hlast, -⟩ := hrest.split
      obtain ⟨escapes, u, last, rfl, -, -, -, hclear⟩ := hlast.first hmid'
      rw [decodeByte_stray (hclear hnext.clear) hcont] at hchar
      have hmem : Utf8Status.replacement ∈ passed (mid ++ .escaped ::
          (escapes ++ .decoded u x .replacement :: last)) :=
        List.mem_filterMap.mpr ⟨.decoded u x .replacement, by simp, rfl⟩
      rw [hchar] at hmem
      exact nomatch List.mem_singleton.mp hmem

theorem faithful_iff (h : Follows r fates r') (hheld : r.utf8.remaining = 0) :
    Faithful fates ↔ Undisturbed fates := by
  constructor
  · exact fun hfaithful => h.undisturbed hfaithful.kept
  · intro hundisturbed
    refine ⟨?_, ?_⟩
    · intro front mid back c heq hmid
      rw [heq, List.append_assoc] at h
      obtain ⟨r1, -, hmiddle⟩ := h.split
      obtain ⟨r2, hchar, -⟩ := hmiddle.split
      refine hchar.kept hmid ?_ ?_
      · intro start held b status rest hsplit hnone
        refine hundisturbed.begins (front ++ start) held b status (rest ++ back)
          c ?_ ?_
        · rw [heq, hsplit]
          simp
        · rw [← hmid, hsplit]
          simp [hnone]
      · intro start rest hsplit hstart
        by_contra hrest
        refine hundisturbed.whole (front ++ start) (rest ++ back) c (bytes start)
          (bytes rest) ?_ ?_ hstart hrest ?_ ?_
        · rw [heq, hsplit]
          simp
        · rw [← hmid, hsplit]
          simp
        · simp
        · simp
    · intro front f back v heq hf
      obtain ⟨c, hval, hc⟩ := h.only (.nothing hheld) heq hf
      exact ⟨c, hval, by simpa using hc⟩

end faithful

end Clks.Tty
