/-
What the Unicode table of a font means, and what is looked up in it
(psf_font.c).

A table has an entry for every glyph: the characters that it is, one after
another, then sequences of characters that it is together, each behind a
mark, and a separator. `firstListing` is the glyph that a table has for a
codepoint.
-/
import Clks.Font.Psf
import Clks.Text.WellFormed

namespace Clks.Font

open Reads
open Text

-- ==== the tables

/-- What a table has for a glyph. -/
structure TableEntry where
  singles : List Char
  sequences : List (List Char)

/-- The bytes of the sequences, each behind its mark. -/
def sequenceBytes (sequences : List (List Char)) : List UInt8 :=
  sequences.flatMap fun s => psfUnicodeStartseq :: encodeAll s

/-- The bytes of an entry. -/
def TableEntry.bytes (e : TableEntry) : List UInt8 :=
  encodeAll e.singles ++ sequenceBytes e.sequences ++ [psfUnicodeSeparator]

/-- The bytes of a table. -/
def tableBytes (entries : List TableEntry) : List UInt8 :=
  entries.flatMap TableEntry.bytes

/-- Is the codepoint among the characters? -/
def among (codepoint : UInt32) (cs : List Char) : Bool :=
  cs.any fun c => c.val = codepoint

/-- Is the glyph this codepoint? -/
def TableEntry.lists (e : TableEntry) (codepoint : UInt32) : Bool :=
  among codepoint e.singles

/-- The second, the fourth and so on. -/
def everySecond {α : Type} : List α → List α
  | _ :: b :: rest => b :: everySecond rest
  | _ => []

/-- Is the codepoint in a sequence that is read in the outer loop? -/
def TableEntry.misread (e : TableEntry) (codepoint : UInt32) : Bool :=
  among codepoint (everySecond e.sequences).flatten

/-- The number of a glyph, or that there is none. -/
def glyphNumber (o : Option Nat) : UInt32 := (o.map UInt32.ofNat).getD noGlyph

/-- The first glyph that is the codepoint. -/
def firstListing (entries : List TableEntry) (codepoint : UInt32) : UInt32 :=
  glyphNumber (entries.findIdx? (·.lists codepoint))

/-- The font has this table in the blob, with an entry for each glyph. -/
structure HasTable (blob : List UInt8) (font : PsfFont)
    (entries : List TableEntry) : Prop where
  count : entries.length = font.glyphCount.toNat
  there : ∃ table rest, font.unicodeTable = some table ∧
    table + font.unicodeTableSize.toNat ≤ blob.length ∧
    tableText blob table font.unicodeTableSize.toNat
      = tableBytes entries ++ rest

@[simp] theorem encodeAll_nil : encodeAll [] = [] := rfl

@[simp] theorem encodeAll_cons (c : Char) (cs : List Char) :
    encodeAll (c :: cs) = encode c ++ encodeAll cs := rfl

@[simp] theorem among_nil (codepoint : UInt32) : among codepoint [] = false :=
  rfl

@[simp] theorem among_cons (codepoint : UInt32) (c : Char) (cs : List Char) :
    among codepoint (c :: cs)
      = (decide (c.val = codepoint) || among codepoint cs) := rfl

@[simp] theorem among_append (codepoint : UInt32) (cs ds : List Char) :
    among codepoint (cs ++ ds)
      = (among codepoint cs || among codepoint ds) := List.any_append

-- ==== single reads

section walk

variable {blob : List UInt8} {table size : Nat} {pre rest : List UInt8}
  {b : UInt8} {c : Char} {cs : List Char}

theorem byteAt_behind (hfit : table + size ≤ blob.length)
    (htext : tableText blob table size = pre ++ b :: rest) :
    pre.length < size ∧ byteAt blob (table + pre.length) = .ok b := by
  have hlen := length_tableText hfit
  rw [htext, List.length_append, List.length_cons] at hlen
  have hlt : pre.length < size := by omega
  refine ⟨hlt, ?_⟩
  have hget : (tableText blob table size)[pre.length]? = some b := by
    rw [htext, getElem?_behind]
  obtain ⟨hin, hb⟩ := List.getElem?_eq_some_iff.mp hget
  rw [byteAt_table hfit hlt, List.get_eq_getElem]
  exact congrArg Except.ok hb

theorem decode_char (hfit : table + size ≤ blob.length)
    (htext : tableText blob table size = pre ++ (encode c ++ rest)) :
    decodeUtf8TableCodepoint blob table size pre.length
      = .ok (true, (pre ++ encode c).length, some c.val) := by
  obtain ⟨b, conts, heq, -, -⟩ := encode_head c
  have hfirst : tableText blob table size = pre ++ b :: (conts ++ rest) := by
    rw [htext, heq, List.cons_append]
  have hlt := (byteAt_behind hfit hfirst).1
  unfold decodeUtf8TableCodepoint
  rw [if_neg (Nat.not_le.mpr hlt), utf8NextStrictAt_eq hfit, htext,
    utf8NextStrict_encode]

theorem decode_mark (hfit : table + size ≤ blob.length)
    (htext : tableText blob table size = pre ++ psfUnicodeStartseq :: rest) :
    decodeUtf8TableCodepoint blob table size pre.length
      = .ok (false, pre.length + 1, some replacement) := by
  have hlt := (byteAt_behind hfit htext).1
  unfold decodeUtf8TableCodepoint
  rw [if_neg (Nat.not_le.mpr hlt), utf8NextStrictAt_eq hfit, htext]
  unfold utf8NextStrict utf8NextImpl
  rw [getElem?_behind]
  rfl

theorem byteAt_char (hfit : table + size ≤ blob.length)
    (htext : tableText blob table size = pre ++ (encode c ++ rest)) :
    ∃ b, pre.length < size ∧ byteAt blob (table + pre.length) = .ok b ∧
      b ≠ psfUnicodeStartseq ∧ b ≠ psfUnicodeSeparator := by
  obtain ⟨b, conts, heq, hmark, hsep⟩ := encode_head c
  have hfirst : tableText blob table size = pre ++ b :: (conts ++ rest) := by
    rw [htext, heq, List.cons_append]
  obtain ⟨hlt, hbyte⟩ := byteAt_behind hfit hfirst
  exact ⟨b, hlt, hbyte, hmark, hsep⟩

-- ==== the inner loop

/-- The inner loop comes from one offset to another. -/
def Skips (blob : List UInt8) (table size offset last : Nat) : Prop :=
  ∀ rounds, size - offset < rounds →
    skipSequences blob table size rounds offset = .ok last

theorem Skips.separator (hfit : table + size ≤ blob.length)
    (htext : tableText blob table size = pre ++ psfUnicodeSeparator :: rest) :
    Skips blob table size pre.length pre.length := by
  obtain ⟨hlt, hbyte⟩ := byteAt_behind hfit htext
  intro rounds hrounds
  obtain ⟨k, rfl⟩ := Nat.exists_eq_succ_of_ne_zero (Nat.ne_zero_of_lt hrounds)
  unfold skipSequences
  rw [if_neg (Nat.not_le.mpr hlt), hbyte, ok_bind, if_pos rfl]
  rfl

theorem Skips.mark (hfit : table + size ≤ blob.length)
    (htext : tableText blob table size = pre ++ psfUnicodeStartseq :: rest) :
    Skips blob table size pre.length (pre.length + 1) := by
  obtain ⟨hlt, hbyte⟩ := byteAt_behind hfit htext
  intro rounds hrounds
  obtain ⟨k, rfl⟩ := Nat.exists_eq_succ_of_ne_zero (Nat.ne_zero_of_lt hrounds)
  unfold skipSequences
  rw [if_neg (Nat.not_le.mpr hlt), hbyte, ok_bind, if_neg (by decide),
    decode_mark hfit htext]
  rfl

theorem Skips.chars {last : Nat} (hfit : table + size ≤ blob.length)
    (htext : tableText blob table size = pre ++ (encodeAll cs ++ rest))
    (hskips : Skips blob table size (pre ++ encodeAll cs).length last) :
    Skips blob table size pre.length last := by
  induction cs generalizing pre with
  | nil => rwa [encodeAll_nil, List.append_nil] at hskips
  | cons c cs ih =>
    rw [encodeAll_cons, List.append_assoc] at htext
    rw [encodeAll_cons, ← List.append_assoc] at hskips
    have hnext := ih (by rw [htext, List.append_assoc]) hskips
    obtain ⟨b, hlt, hbyte, -, hsep⟩ := byteAt_char hfit htext
    have hmoves : pre.length < (pre ++ encode c).length := by
      obtain ⟨b, conts, heq, -, -⟩ := encode_head c
      rw [heq, List.length_append, List.length_cons]
      omega
    intro rounds hrounds
    obtain ⟨k, rfl⟩ := Nat.exists_eq_succ_of_ne_zero (Nat.ne_zero_of_lt hrounds)
    unfold skipSequences
    rw [if_neg (Nat.not_le.mpr hlt), hbyte, ok_bind, if_neg hsep,
      decode_char hfit htext]
    exact hnext k (by omega)

-- ==== the outer loop

/-- The loop answers this from an offset and a glyph on. -/
def Finds (blob : List UInt8) (glyphCount codepoint : UInt32)
    (table size offset : Nat) (glyph answer : UInt32) : Prop :=
  ∀ rounds, size - offset < rounds →
    unicodeLookupLoop blob glyphCount codepoint table size rounds offset glyph
      = .ok answer

variable {glyphCount codepoint glyph answer : UInt32}

theorem Finds.stop (hglyph : glyphCount ≤ glyph) (offset : Nat) :
    Finds blob glyphCount codepoint table size offset glyph noGlyph := by
  intro rounds hrounds
  obtain ⟨k, rfl⟩ := Nat.exists_eq_succ_of_ne_zero (Nat.ne_zero_of_lt hrounds)
  unfold unicodeLookupLoop
  exact if_pos (.inr hglyph)

theorem Finds.separator (hfit : table + size ≤ blob.length)
    (htext : tableText blob table size = pre ++ psfUnicodeSeparator :: rest)
    (hglyph : glyph < glyphCount)
    (hnext : Finds blob glyphCount codepoint table size (pre.length + 1)
      (glyph + 1) answer) :
    Finds blob glyphCount codepoint table size pre.length glyph answer := by
  obtain ⟨hlt, hbyte⟩ := byteAt_behind hfit htext
  intro rounds hrounds
  obtain ⟨k, rfl⟩ := Nat.exists_eq_succ_of_ne_zero (Nat.ne_zero_of_lt hrounds)
  unfold unicodeLookupLoop
  rw [if_neg (not_or.mpr ⟨Nat.not_le.mpr hlt, UInt32.not_le.mpr hglyph⟩), hbyte,
    ok_bind, if_pos rfl]
  exact hnext k (by omega)

theorem Finds.mark {last : Nat} (hfit : table + size ≤ blob.length)
    (htext : tableText blob table size = pre ++ psfUnicodeStartseq :: rest)
    (hglyph : glyph < glyphCount)
    (hskips : Skips blob table size (pre.length + 1) last)
    (hlast : pre.length < last)
    (hnext : Finds blob glyphCount codepoint table size last glyph answer) :
    Finds blob glyphCount codepoint table size pre.length glyph answer := by
  obtain ⟨hlt, hbyte⟩ := byteAt_behind hfit htext
  intro rounds hrounds
  obtain ⟨k, rfl⟩ := Nat.exists_eq_succ_of_ne_zero (Nat.ne_zero_of_lt hrounds)
  unfold unicodeLookupLoop
  rw [if_neg (not_or.mpr ⟨Nat.not_le.mpr hlt, UInt32.not_le.mpr hglyph⟩), hbyte,
    ok_bind, if_neg (by decide), if_pos rfl, hskips (size + 1) (by omega)]
  exact hnext k (by omega)

theorem Finds.chars (hfit : table + size ≤ blob.length)
    (htext : tableText blob table size = pre ++ (encodeAll cs ++ rest))
    (hglyph : glyph < glyphCount)
    (hnext : Finds blob glyphCount codepoint table size
      (pre ++ encodeAll cs).length glyph answer) :
    Finds blob glyphCount codepoint table size pre.length glyph
      (if among codepoint cs then glyph else answer) := by
  induction cs generalizing pre with
  | nil => rwa [encodeAll_nil, List.append_nil] at hnext
  | cons c cs ih =>
    rw [encodeAll_cons, List.append_assoc] at htext
    rw [encodeAll_cons, ← List.append_assoc] at hnext
    have hrest := ih (by rw [htext, List.append_assoc]) hnext
    obtain ⟨b, hlt, hbyte, hmark, hsep⟩ := byteAt_char hfit htext
    have hmoves : pre.length < (pre ++ encode c).length := by
      obtain ⟨b, conts, heq, -, -⟩ := encode_head c
      rw [heq, List.length_append, List.length_cons]
      omega
    intro rounds hrounds
    obtain ⟨k, rfl⟩ := Nat.exists_eq_succ_of_ne_zero (Nat.ne_zero_of_lt hrounds)
    unfold unicodeLookupLoop
    rw [if_neg (not_or.mpr ⟨Nat.not_le.mpr hlt, UInt32.not_le.mpr hglyph⟩),
      hbyte, ok_bind, if_neg hsep, if_neg hmark, decode_char hfit htext,
      among_cons]
    by_cases hc : c.val = codepoint
    · rw [decide_eq_true hc, Bool.true_or, if_pos rfl]
      exact if_pos ⟨rfl, congrArg some hc⟩
    · rw [decide_eq_false hc, Bool.false_or]
      refine (if_neg fun h => hc (Option.some.inj h.2)).trans ?_
      exact hrest k (by omega)

-- ==== an entry

theorem length_mark (pre : List UInt8) :
    (pre ++ [psfUnicodeStartseq]).length = pre.length + 1 :=
  List.length_append

theorem Finds.sequences {sequences : List (List Char)}
    (hfit : table + size ≤ blob.length)
    (htext : tableText blob table size
      = pre ++ (sequenceBytes sequences ++ psfUnicodeSeparator :: rest))
    (hglyph : glyph < glyphCount)
    (hnext : Finds blob glyphCount codepoint table size
      (pre ++ sequenceBytes sequences).length glyph answer) :
    Finds blob glyphCount codepoint table size pre.length glyph
      (if among codepoint (everySecond sequences).flatten then glyph
        else answer) := by
  induction sequences using everySecond.induct generalizing pre with
  | case1 s s' more ih =>
    -- the mark of `s'` ends the loop that the mark of `s` began
    have hbytes : sequenceBytes (s :: s' :: more)
        = [psfUnicodeStartseq] ++ encodeAll s ++ [psfUnicodeStartseq] ++
          encodeAll s' ++ sequenceBytes more := by
      simp [sequenceBytes]
    simp only [hbytes, ← List.append_assoc] at hnext
    simp only [hbytes, List.append_assoc, List.cons_append,
      List.nil_append] at htext
    have hfirst : tableText blob table size = pre ++ [psfUnicodeStartseq] ++
        (encodeAll s ++ (psfUnicodeStartseq :: (encodeAll s' ++
          (sequenceBytes more ++ psfUnicodeSeparator :: rest)))) := by
      simp only [htext, List.append_assoc, List.singleton_append]
    have hmark : tableText blob table size
        = pre ++ [psfUnicodeStartseq] ++ encodeAll s ++ psfUnicodeStartseq ::
          (encodeAll s' ++
            (sequenceBytes more ++ psfUnicodeSeparator :: rest)) := by
      simp only [hfirst, List.append_assoc]
    have hsecond : tableText blob table size
        = pre ++ [psfUnicodeStartseq] ++ encodeAll s ++ [psfUnicodeStartseq] ++
          (encodeAll s' ++
            (sequenceBytes more ++ psfUnicodeSeparator :: rest)) := by
      simp only [hmark, List.append_assoc, List.singleton_append]
    have hmore := ih (hsecond.trans (List.append_assoc ..).symm) hnext
    have hchars := Finds.chars hfit hsecond hglyph hmore
    have hskips := Skips.chars hfit hfirst (Skips.mark hfit hmark)
    rw [length_mark] at hchars hskips
    have hanswer : (if among codepoint (everySecond (s :: s' :: more)).flatten
          then glyph else answer)
        = if among codepoint s' then glyph
          else if among codepoint (everySecond more).flatten then glyph
          else answer := by
      rw [everySecond, List.flatten_cons, among_append]
      cases among codepoint s' <;> rfl
    rw [hanswer]
    refine Finds.mark hfit htext hglyph hskips ?_ hchars
    simp only [List.length_append, List.length_singleton]
    omega
  | case2 sequences hshort =>
    match sequences with
    | [] => rwa [sequenceBytes, List.flatMap_nil, List.append_nil] at hnext
    | [s] =>
      have hbytes : sequenceBytes [s] = [psfUnicodeStartseq] ++ encodeAll s := by
        simp [sequenceBytes]
      rw [hbytes, ← List.append_assoc] at hnext
      simp only [hbytes, List.cons_append, List.nil_append] at htext
      have hfirst : tableText blob table size = pre ++ [psfUnicodeStartseq] ++
          (encodeAll s ++ psfUnicodeSeparator :: rest) := by
        simp only [htext, List.append_assoc, List.singleton_append]
      have hsep : tableText blob table size
          = pre ++ [psfUnicodeStartseq] ++ encodeAll s ++
            psfUnicodeSeparator :: rest := by
        simp only [hfirst, List.append_assoc]
      have hskips := Skips.chars hfit hfirst (Skips.separator hfit hsep)
      rw [length_mark] at hskips
      refine Finds.mark hfit htext hglyph hskips ?_ hnext
      simp only [List.length_append, List.length_singleton]
      omega
    | s :: s' :: more => exact absurd rfl (hshort s s' more)

-- ==== the table

/-- Is the codepoint read as the glyph? -/
def TableEntry.taken (codepoint : UInt32) (e : TableEntry) : Bool :=
  e.lists codepoint || e.misread codepoint

theorem Finds.entries {entries : List TableEntry} {i : Nat}
    (hfit : table + size ≤ blob.length)
    (htext : tableText blob table size = pre ++ (tableBytes entries ++ rest))
    (hcount : i + entries.length = glyphCount.toNat) :
    Finds blob glyphCount codepoint table size pre.length (UInt32.ofNat i)
      (glyphNumber ((entries.findIdx? (TableEntry.taken codepoint)).map
        (· + i))) := by
  have hcount_lt := glyphCount.toNat_lt
  induction entries generalizing pre i with
  | nil =>
    rw [List.length_nil, Nat.add_zero] at hcount
    rw [hcount, UInt32.ofNat_toNat]
    exact Finds.stop (UInt32.le_refl _) _
  | cons e entries ih =>
    rw [List.length_cons] at hcount
    have hglyph : UInt32.ofNat i < glyphCount := by
      rw [UInt32.lt_iff_toNat_lt, UInt32.toNat_ofNat_of_lt' (by
        rw [UInt32.size]
        omega)]
      omega
    simp only [tableBytes, List.flatMap_cons, TableEntry.bytes,
      List.append_assoc, List.cons_append, List.nil_append] at htext
    have hsequences : tableText blob table size
        = pre ++ encodeAll e.singles ++ (sequenceBytes e.sequences ++
          psfUnicodeSeparator :: (tableBytes entries ++ rest)) := by
      simp only [htext, tableBytes, List.append_assoc]
    have hsep : tableText blob table size
        = pre ++ encodeAll e.singles ++ sequenceBytes e.sequences ++
          psfUnicodeSeparator :: (tableBytes entries ++ rest) := by
      simp only [hsequences, List.append_assoc]
    have hrest : tableText blob table size
        = pre ++ encodeAll e.singles ++ sequenceBytes e.sequences ++
          [psfUnicodeSeparator] ++ (tableBytes entries ++ rest) := by
      simp only [hsep, List.append_assoc, List.cons_append, List.nil_append]
    have hnext := ih hrest (by omega : i + 1 + entries.length = _)
    rw [List.length_append, List.length_singleton, UInt32.ofNat_add] at hnext
    have hentry := Finds.chars hfit htext hglyph
      (Finds.sequences hfit hsequences hglyph
        (Finds.separator hfit hsep hglyph hnext))
    have hanswer : glyphNumber (((e :: entries).findIdx?
          (TableEntry.taken codepoint)).map (· + i))
        = if among codepoint e.singles then UInt32.ofNat i
          else if among codepoint (everySecond e.sequences).flatten then
            UInt32.ofNat i
          else glyphNumber ((entries.findIdx? (TableEntry.taken codepoint)).map
            (· + (i + 1))) := by
      rw [List.findIdx?_cons, TableEntry.taken, TableEntry.lists,
        TableEntry.misread]
      cases among codepoint e.singles with
      | true => simp [glyphNumber]
      | false =>
        cases among codepoint (everySecond e.sequences).flatten with
        | true => simp [glyphNumber]
        | false => simp [Function.comp_def, Nat.add_assoc, Nat.add_comm 1]
    rw [hanswer]
    exact hentry

end walk

-- ==== exactness

section exact

variable {blob : List UInt8} {font : PsfFont} {entries : List TableEntry}

theorem unicodeLookup_eq (htable : HasTable blob font entries)
    (codepoint : UInt32) :
    unicodeLookup blob font codepoint = .ok (glyphNumber
      (entries.findIdx? (TableEntry.taken codepoint))) := by
  obtain ⟨table, rest, hsome, hfit, htext⟩ := htable.there
  have hstart : tableText blob table font.unicodeTableSize.toNat
      = [] ++ (tableBytes entries ++ rest) := htext
  have hfinds : Finds blob font.glyphCount codepoint table
      font.unicodeTableSize.toNat 0 0 _ :=
    Finds.entries hfit hstart (by rw [Nat.zero_add, htable.count])
  unfold unicodeLookup
  rw [hsome]
  have := hfinds _ (Nat.lt_succ_self _)
  simpa using this

theorem glyphNumber_inj {o o' : Option Nat} {n : Nat} (hn : n < 2 ^ 32)
    (ho : ∀ i, o = some i → i < n) (ho' : ∀ i, o' = some i → i < n)
    (h : glyphNumber o = glyphNumber o') : o = o' := by
  have hnat : ∀ i < n, (UInt32.ofNat i).toNat = i := fun i hi =>
    UInt32.toNat_ofNat_of_lt' (by rw [UInt32.size]; omega)
  have hnone : noGlyph.toNat = 2 ^ 32 - 1 := rfl
  have hnat_eq := congrArg UInt32.toNat h
  cases o with
  | none =>
    cases o' with
    | none => rfl
    | some j =>
      have hj := ho' j rfl
      simp only [glyphNumber, Option.map_none, Option.map_some,
        Option.getD_none, Option.getD_some, hnat j hj, hnone] at hnat_eq
      omega
  | some i =>
    have hi := ho i rfl
    cases o' with
    | none =>
      simp only [glyphNumber, Option.map_none, Option.map_some,
        Option.getD_none, Option.getD_some, hnat i hi, hnone] at hnat_eq
      omega
    | some j =>
      have hj := ho' j rfl
      simp only [glyphNumber, Option.map_some, Option.getD_some, hnat i hi,
        hnat j hj] at hnat_eq
      rw [hnat_eq]

theorem findIdx?_or_iff {α : Type} (p q : α → Bool) (l : List α) :
    l.findIdx? (fun a => p a || q a) = l.findIdx? p ↔
      ∀ front a back, l = front ++ a :: back →
        (∀ d ∈ front ++ [a], p d = false) → q a = false := by
  induction l with
  | nil => simp
  | cons b l ih =>
    rw [List.findIdx?_cons, List.findIdx?_cons]
    cases hp : p b with
    | true =>
      simp only [Bool.true_or, if_true, true_iff]
      intro front a back heq hnone
      have hb : b ∈ front ++ [a] := by
        cases front with
        | nil => rw [← (List.cons.inj heq).1]; exact List.mem_singleton_self b
        | cons d front =>
          rw [← (List.cons.inj heq).1]
          exact List.mem_cons_self
      rw [hnone b hb] at hp
      cases hp
    | false =>
      cases hq : q b with
      | true =>
        simp only [Bool.false_or, if_true, Bool.false_eq_true, if_false]
        constructor
        · intro h
          cases hfind : l.findIdx? p with
          | none => rw [hfind] at h; cases h
          | some i => rw [hfind] at h; cases h
        · intro h
          have := h [] b l rfl (List.forall_mem_singleton.mpr hp)
          rw [hq] at this
          cases this
      | false =>
        have hinj : Function.Injective (Option.map (· + 1) : Option Nat → _) :=
          Option.map_injective fun a b h => Nat.succ.inj h
        simp only [Bool.false_or, Bool.false_eq_true, if_false]
        rw [hinj.eq_iff, ih]
        constructor
        · intro h front a back heq hnone
          cases front with
          | nil => rw [← (List.cons.inj heq).1, hq]
          | cons d front =>
            exact h front a back (List.cons.inj heq).2 fun d hd =>
              hnone d (List.mem_cons_of_mem _ hd)
        · intro h front a back heq hnone
          exact h (b :: front) a back (by rw [heq, List.cons_append])
            (List.forall_mem_cons.mpr ⟨hp, hnone⟩)

/-- A codepoint is looked up as the table means it if, and only if, no glyph
in front of the first one that it is, or no glyph at all where it is none,
has it in a sequence that is read as characters. -/
theorem tableExact_iff (htable : HasTable blob font entries)
    (codepoint : UInt32) :
    unicodeLookup blob font codepoint = .ok (firstListing entries codepoint) ↔
      ∀ front e back, entries = front ++ e :: back →
        (∀ d ∈ front ++ [e], d.lists codepoint = false) →
          e.misread codepoint = false := by
  have hcount := htable.count
  have hlt := font.glyphCount.toNat_lt
  have hin : ∀ p : TableEntry → Bool, ∀ i, entries.findIdx? p = some i →
      i < entries.length := by
    intro p i hi
    obtain ⟨h, -⟩ := List.findIdx?_eq_some_iff_getElem.mp hi
    exact h
  rw [unicodeLookup_eq htable]
  refine Iff.trans ?_
    (findIdx?_or_iff (·.lists codepoint) (·.misread codepoint) entries)
  constructor
  · intro h
    exact glyphNumber_inj (by omega : entries.length < 2 ^ 32) (hin _) (hin _)
      (Except.ok.inj h)
  · intro h
    exact congrArg (fun o => Except.ok (glyphNumber o)) h

/-- A font of two glyphs, eight pixels each: a letter with two sequences that
end in an accent, and another letter. -/
def twoEntries : List TableEntry :=
  [⟨['a'], [['e', '\u0301'], ['o', '\u0301']]⟩, ⟨['o'], []⟩]

/-- Its header, its glyphs and its table. -/
def twoGlyphs : List UInt8 :=
  [0x72, 0xB5, 0x4A, 0x86] ++ [0, 0, 0, 0] ++ [32, 0, 0, 0] ++ [1, 0, 0, 0] ++
    [2, 0, 0, 0] ++ [1, 0, 0, 0] ++ [1, 0, 0, 0] ++ [8, 0, 0, 0] ++
    [0x18, 0x24] ++ tableBytes twoEntries

/-- What it is read as. -/
def twoPsf : PsfFont where
  width := 8
  height := 1
  glyphCount := 2
  bytesPerGlyph := 1
  bytesPerRow := 1
  glyphs := 32
  unicodeTable := some 34
  unicodeTableSize := 12

theorem twoPsf_hasTable : HasTable twoGlyphs twoPsf twoEntries where
  count := rfl
  there := ⟨34, [], rfl, by decide +kernel, by decide +kernel⟩

/-- The letter of the first glyph is in no sequence. -/
theorem tableExact_iff_letter :
    unicodeLookup twoGlyphs twoPsf 0x61 = .ok 0 := by
  refine (tableExact_iff twoPsf_hasTable 0x61).mpr ?_
  intro front e back heq hnone
  have hall : ∀ e ∈ twoEntries, e.misread 0x61 = false := by decide
  exact hall e (by rw [heq]; exact List.mem_append_right _ List.mem_cons_self)

/-- The second letter is taken for the first glyph, which has it in its
second sequence. -/
theorem second_sequence_is_taken :
    parseFont twoGlyphs 46 = .ok (some twoPsf) ∧
      unicodeLookup twoGlyphs twoPsf 0x6F = .ok 0 ∧
      firstListing twoEntries 0x6F = 1 := by
  decide +kernel

end exact

end Clks.Font
