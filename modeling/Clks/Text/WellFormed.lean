/-
Well-formed UTF-8 for the decoders: the bytes of a character.

A character is a scalar value, and its bytes are those of Lean's encoder. In
the words of the decoders they are a byte of ASCII, or a first byte with all
the continuation bytes that it announces, whose bits are the character
(`encode_cases`).
-/
import Clks.Text.Sequences

namespace Clks.Text

/-- The bytes of a character. -/
abbrev encode (c : Char) : List UInt8 := String.utf8EncodeChar c

/-- The bytes of a text. -/
def encodeAll (cs : List Char) : List UInt8 := cs.flatMap encode

-- ==== the numbers

private theorem cont_ofNat {k : Nat} (hk : k < 64) :
    isCont (UInt8.ofNat (k + 0x80)) = true ∧
      (UInt8.ofNat (k + 0x80) &&& 0x3F).toNat = k := by
  have hall : ∀ k < 64, isCont (UInt8.ofNat (k + 0x80)) = true ∧
      (UInt8.ofNat (k + 0x80) &&& 0x3F).toNat = k := by decide
  exact hall k hk

private theorem shiftIn_ofNat {n k : Nat} (hn : n < 2 ^ 26) (hk : k < 64) :
    shiftIn (UInt32.ofNat n) (UInt8.ofNat (k + 0x80)) =
      UInt32.ofNat (64 * n + k) := by
  have hor := Nat.shiftLeft_add_eq_or_of_lt (i := 6) hk n
  have hsize : UInt32.size = 2 ^ 32 := rfl
  have hshift : n <<< 6 = 64 * n := by rw [Nat.shiftLeft_eq, Nat.mul_comm]
  apply UInt32.toNat_inj.mp
  unfold shiftIn
  rw [UInt32.toNat_or, UInt32.toNat_shiftLeft, UInt8.toNat_toUInt32,
    (cont_ofNat hk).2, UInt32.toNat_ofNat_of_lt' (by omega),
    UInt32.toNat_ofNat_of_lt' (by omega)]
  show n <<< 6 % 2 ^ 32 ||| k = 64 * n + k
  rw [Nat.mod_eq_of_lt (by omega), ← hor, hshift]

private theorem first_two : ∀ k < 0x20, 0x80 ≤ UInt8.ofNat (k + 0xC0) ∧
    firstByte (UInt8.ofNat (k + 0xC0)) = some (UInt32.ofNat k, 1, 2) := by
  decide

private theorem first_three : ∀ k < 0x10, 0x80 ≤ UInt8.ofNat (k + 0xE0) ∧
    firstByte (UInt8.ofNat (k + 0xE0)) = some (UInt32.ofNat k, 2, 3) := by
  decide

private theorem first_four : ∀ k < 0x08, 0x80 ≤ UInt8.ofNat (k + 0xF0) ∧
    firstByte (UInt8.ofNat (k + 0xF0)) = some (UInt32.ofNat k, 3, 4) := by
  decide

private theorem validFinished_iff {v : UInt32} {expected : UInt8} :
    validFinished v expected = true ↔
      (v.toNat < 0xD800 ∨ 0xDFFF < v.toNat ∧ v.toNat < 0x110000) ∧
        (expected = 2 → 0x80 ≤ v.toNat) ∧ (expected = 3 → 0x800 ≤ v.toNat) ∧
          (expected = 4 → 0x10000 ≤ v.toNat) := by
  unfold validFinished
  simp only [Bool.not_eq_true', Bool.or_eq_false_iff, Bool.and_eq_false_iff,
    decide_eq_false_iff_not, UInt32.lt_iff_toNat_lt, UInt32.le_iff_toNat_le]
  have hends : UInt32.toNat 0x80 = 0x80 ∧ UInt32.toNat 0x800 = 0x800 ∧
      UInt32.toNat 0x10000 = 0x10000 ∧ UInt32.toNat 0x10FFFF = 0x10FFFF ∧
      UInt32.toNat 0xD800 = 0xD800 ∧ UInt32.toNat 0xDFFF = 0xDFFF := by decide
  obtain ⟨e1, e2, e3, e4, e5, e6⟩ := hends
  rw [e1, e2, e3, e4, e5, e6]
  simp only [← imp_iff_not_or, Nat.not_lt]
  constructor
  · intro ⟨⟨⟨⟨h2, h3⟩, h4⟩, htop⟩, hsurrogate⟩
    exact ⟨by omega, h2, h3, h4⟩
  · intro ⟨hvalid, h2, h3, h4⟩
    exact ⟨⟨⟨⟨h2, h3⟩, h4⟩, by omega⟩, by omega⟩

/-- A first byte with what it announces. -/
structure Sequence (b : UInt8) (conts : List UInt8) (value : UInt32) : Prop where
  large : 0x80 ≤ b
  continued : ∀ x ∈ conts, isCont x = true
  decodes : ∃ bits expected, firstByte b = some (bits, conts.length, expected) ∧
    conts.foldl shiftIn bits = value ∧ validFinished value expected = true

theorem encode_cases (c : Char) :
    (∃ b, encode c = [b] ∧ b < 0x80 ∧ b.toUInt32 = c.val) ∨
      ∃ b conts, encode c = b :: conts ∧ Sequence b conts c.val := by
  have hvalid : c.val.toNat < 0xD800 ∨ 0xDFFF < c.val.toNat ∧
      c.val.toNat < 0x110000 := c.valid
  have hof : UInt32.ofNat c.val.toNat = c.val := UInt32.ofNat_toNat
  have hfinished := fun n h2 h3 h4 =>
    (@validFinished_iff c.val n).mpr ⟨hvalid, h2, h3, h4⟩
  unfold encode String.utf8EncodeChar
  dsimp only
  generalize c.val.toNat = v at hvalid hof hfinished ⊢
  rw [← hof] at hfinished ⊢
  split_ifs with h1 h2 h3
  · have hsize : v < UInt8.size ∧ v < UInt32.size := by
      rw [UInt8.size, UInt32.size]
      omega
    refine .inl ⟨_, rfl, ?_, UInt32.toNat_inj.mp ?_⟩
    · rw [UInt8.lt_iff_toNat_lt, UInt8.toNat_ofNat_of_lt' hsize.1]
      exact Nat.lt_succ_of_le h1
    · rw [UInt8.toNat_toUInt32, UInt8.toNat_ofNat_of_lt' hsize.1,
        UInt32.toNat_ofNat_of_lt' hsize.2]
  · obtain ⟨hlarge, hfirst⟩ := first_two _ (Nat.mod_lt (v / 64) (by decide))
    have hk := Nat.mod_lt v (by decide : 0x40 > 0)
    refine .inr ⟨_, _, rfl, hlarge, ?_, _, _, hfirst, ?_, ?_⟩
    · exact List.forall_mem_singleton.mpr (cont_ofNat hk).1
    · rw [List.foldl_cons, List.foldl_nil, shiftIn_ofNat (by omega) hk]
      congr 1
      omega
    · exact hfinished _ (fun _ => by omega) (fun h => nomatch h)
        (fun h => nomatch h)
  · obtain ⟨hlarge, hfirst⟩ := first_three _ (Nat.mod_lt (v / 4096) (by decide))
    have hk := Nat.mod_lt v (by decide : 0x40 > 0)
    have hk' := Nat.mod_lt (v / 64) (by decide : 0x40 > 0)
    refine .inr ⟨_, _, rfl, hlarge, ?_, _, _, hfirst, ?_, ?_⟩
    · exact List.forall_mem_cons.mpr ⟨(cont_ofNat hk').1,
        List.forall_mem_singleton.mpr (cont_ofNat hk).1⟩
    · rw [List.foldl_cons, List.foldl_cons, List.foldl_nil,
        shiftIn_ofNat (by omega) hk', shiftIn_ofNat (by omega) hk]
      congr 1
      omega
    · exact hfinished _ (fun h => nomatch h) (fun _ => by omega)
        (fun h => nomatch h)
  · obtain ⟨hlarge, hfirst⟩ :=
      first_four _ (Nat.mod_lt (v / 262144) (by decide))
    have hk := Nat.mod_lt v (by decide : 0x40 > 0)
    have hk' := Nat.mod_lt (v / 64) (by decide : 0x40 > 0)
    have hk'' := Nat.mod_lt (v / 4096) (by decide : 0x40 > 0)
    refine .inr ⟨_, _, rfl, hlarge, ?_, _, _, hfirst, ?_, ?_⟩
    · exact List.forall_mem_cons.mpr ⟨(cont_ofNat hk'').1,
        List.forall_mem_cons.mpr ⟨(cont_ofNat hk').1,
          List.forall_mem_singleton.mpr (cont_ofNat hk).1⟩⟩
    · rw [List.foldl_cons, List.foldl_cons, List.foldl_cons, List.foldl_nil,
        shiftIn_ofNat (by omega) hk'', shiftIn_ofNat (by omega) hk',
        shiftIn_ofNat (by omega) hk]
      congr 1
      omega
    · exact hfinished _ (fun h => nomatch h) (fun h => nomatch h)
        (fun _ => by omega)

private theorem cont_cases {x : UInt8} (hx : isCont x = true) :
    ∃ k, k < 64 ∧ x = UInt8.ofNat (k + 0x80) := by
  have hall : ∀ n < 256, isCont (UInt8.ofNat n) = true →
      ∃ k, k < 64 ∧ UInt8.ofNat n = UInt8.ofNat (k + 0x80) := by
    decide +kernel
  have hn := hall x.toNat x.toNat_lt
  rw [UInt8.ofNat_toNat] at hn
  exact hn hx

private theorem first_cases {b : UInt8} {bits : UInt32} {need : Nat}
    {expected : UInt8} (h : firstByte b = some (bits, need, expected)) :
    (∃ k, k < 0x20 ∧ b = UInt8.ofNat (k + 0xC0) ∧ bits = UInt32.ofNat k ∧
        need = 1 ∧ expected = 2) ∨
      (∃ k, k < 0x10 ∧ b = UInt8.ofNat (k + 0xE0) ∧ bits = UInt32.ofNat k ∧
        need = 2 ∧ expected = 3) ∨
      ∃ k, k < 0x08 ∧ b = UInt8.ofNat (k + 0xF0) ∧ bits = UInt32.ofNat k ∧
        need = 3 ∧ expected = 4 := by
  have hall : ∀ n < 256, (firstByte (UInt8.ofNat n)).isSome = true →
      (∃ k, k < 0x20 ∧ UInt8.ofNat n = UInt8.ofNat (k + 0xC0)) ∨
        (∃ k, k < 0x10 ∧ UInt8.ofNat n = UInt8.ofNat (k + 0xE0)) ∨
        ∃ k, k < 0x08 ∧ UInt8.ofNat n = UInt8.ofNat (k + 0xF0) := by
    decide +kernel
  have hn := hall b.toNat b.toNat_lt
  rw [UInt8.ofNat_toNat, h] at hn
  rcases hn rfl with ⟨k, hk, rfl⟩ | ⟨k, hk, rfl⟩ | ⟨k, hk, rfl⟩
  · rw [(first_two _ hk).2] at h
    cases h
    exact .inl ⟨k, hk, rfl, rfl, rfl, rfl⟩
  · rw [(first_three _ hk).2] at h
    cases h
    exact .inr (.inl ⟨k, hk, rfl, rfl, rfl, rfl⟩)
  · rw [(first_four _ hk).2] at h
    cases h
    exact .inr (.inr ⟨k, hk, rfl, rfl, rfl, rfl⟩)

theorem Sequence.encodes {b : UInt8} {conts : List UInt8} {value : UInt32}
    (h : Sequence b conts value) :
    ∃ c : Char, c.val = value ∧ encode c = b :: conts := by
  obtain ⟨bits, expected, hfirst, hfold, hfinished⟩ := h.decodes
  obtain ⟨hvalid, h2, h3, h4⟩ := validFinished_iff.mp hfinished
  have hconts : ∀ x ∈ conts, ∃ k, k < 64 ∧ x = UInt8.ofNat (k + 0x80) :=
    fun x hx => cont_cases (h.continued x hx)
  have hsize : UInt32.size = 2 ^ 32 := rfl
  refine ⟨⟨value, hvalid⟩, rfl, ?_⟩
  unfold encode String.utf8EncodeChar
  dsimp only
  rcases first_cases hfirst with ⟨k, hk, rfl, rfl, hneed, rfl⟩ |
    ⟨k, hk, rfl, rfl, hneed, rfl⟩ | ⟨k, hk, rfl, rfl, hneed, rfl⟩
  · obtain ⟨x, rfl⟩ := List.length_eq_one_iff.mp hneed
    obtain ⟨i, hi, rfl⟩ := hconts x List.mem_cons_self
    have hlow := h2 rfl
    rw [List.foldl_cons, List.foldl_nil, shiftIn_ofNat (by omega) hi] at hfold
    have hnat : value.toNat = 64 * k + i := by
      rw [← hfold, UInt32.toNat_ofNat_of_lt' (by omega)]
    rw [hnat] at hlow ⊢
    rw [if_neg (by omega), if_pos (by omega),
      (by omega : (64 * k + i) / 64 % 0x20 = k),
      (by omega : (64 * k + i) % 0x40 = i)]
  · obtain ⟨x, y, rfl⟩ := List.length_eq_two.mp hneed
    obtain ⟨i, hi, rfl⟩ := hconts x List.mem_cons_self
    obtain ⟨j, hj, rfl⟩ := hconts y (List.mem_cons_of_mem _ List.mem_cons_self)
    have hlow := h3 rfl
    rw [List.foldl_cons, List.foldl_cons, List.foldl_nil,
      shiftIn_ofNat (by omega) hi, shiftIn_ofNat (by omega) hj] at hfold
    have hnat : value.toNat = 64 * (64 * k + i) + j := by
      rw [← hfold, UInt32.toNat_ofNat_of_lt' (by omega)]
    rw [hnat] at hlow ⊢
    rw [if_neg (by omega), if_neg (by omega), if_pos (by omega),
      (by omega : (64 * (64 * k + i) + j) / 4096 % 0x10 = k),
      (by omega : (64 * (64 * k + i) + j) / 64 % 0x40 = i),
      (by omega : (64 * (64 * k + i) + j) % 0x40 = j)]
  · obtain ⟨x, y, z, rfl⟩ := List.length_eq_three.mp hneed
    obtain ⟨i, hi, rfl⟩ := hconts x (by simp)
    obtain ⟨j, hj, rfl⟩ := hconts y (by simp)
    obtain ⟨l, hl, rfl⟩ := hconts z (by simp)
    have hlow := h4 rfl
    rw [List.foldl_cons, List.foldl_cons, List.foldl_cons, List.foldl_nil,
      shiftIn_ofNat (by omega) hi, shiftIn_ofNat (by omega) hj,
      shiftIn_ofNat (by omega) hl] at hfold
    have hnat : value.toNat = 64 * (64 * (64 * k + i) + j) + l := by
      rw [← hfold, UInt32.toNat_ofNat_of_lt' (by omega)]
    rw [hnat] at hlow ⊢
    rw [if_neg (by omega), if_neg (by omega), if_neg (by omega),
      (by omega : (64 * (64 * (64 * k + i) + j) + l) / 262144 % 0x08 = k),
      (by omega : (64 * (64 * (64 * k + i) + j) + l) / 4096 % 0x40 = i),
      (by omega : (64 * (64 * (64 * k + i) + j) + l) / 64 % 0x40 = j),
      (by omega : (64 * (64 * (64 * k + i) + j) + l) % 0x40 = l)]

theorem encode_ascii {b : UInt8} (h : b < 0x80) :
    ∃ c : Char, c.val = b.toUInt32 ∧ encode c = [b] := by
  have hlt : b.toNat < 0x80 := UInt8.lt_iff_toNat_lt.mp h
  have hnat : b.toUInt32.toNat = b.toNat := UInt8.toNat_toUInt32 b
  refine ⟨⟨b.toUInt32, .inl (by rw [hnat]; omega)⟩, rfl, ?_⟩
  unfold encode String.utf8EncodeChar
  dsimp only
  rw [hnat, if_pos (by omega), UInt8.ofNat_toNat]

theorem encode_head (c : Char) :
    ∃ b conts, encode c = b :: conts ∧ b ≠ 0xFE ∧ b ≠ 0xFF := by
  rcases encode_cases c with ⟨b, heq, hsmall, -⟩ | ⟨b, conts, heq, hseq⟩
  · refine ⟨b, [], heq, ?_, ?_⟩
    · rintro rfl
      exact absurd hsmall (by decide)
    · rintro rfl
      exact absurd hsmall (by decide)
  · obtain ⟨bits, expected, hfirst, -, -⟩ := hseq.decodes
    refine ⟨b, conts, heq, ?_, ?_⟩
    · rintro rfl
      exact nomatch (show firstByte 0xFE = none by decide) ▸ hfirst
    · rintro rfl
      exact nomatch (show firstByte 0xFF = none by decide) ▸ hfirst

theorem utf8NextStrict_encode (pre rest : List UInt8) (c : Char) :
    utf8NextStrict (pre ++ (encode c ++ rest)) pre.length
      = (true, (pre ++ encode c).length, some c.val) := by
  unfold utf8NextStrict utf8NextImpl
  rcases encode_cases c with ⟨b, heq, hsmall, hval⟩ | ⟨b, conts, heq, hseq⟩
  · rw [heq, List.singleton_append, getElem?_behind, ← hval]
    dsimp only
    rw [if_pos hsmall, List.length_append, List.length_singleton]
  · obtain ⟨bits, expected, hfirst, hfold, hfinished⟩ := hseq.decodes
    have htake := takeConts_append (pre ++ [b]) conts rest 0 bits hseq.continued
    rw [List.append_assoc, List.singleton_append, List.length_append,
      List.length_singleton, Nat.add_zero, hfold] at htake
    rw [heq, List.cons_append, getElem?_behind]
    dsimp only
    rw [if_neg (UInt8.not_lt.mpr hseq.large), hfirst]
    dsimp only
    rw [if_neg (by simp only [List.length_append, List.length_cons]; omega),
      htake]
    unfold takeConts
    dsimp only
    rw [if_pos hfinished, List.length_append, List.length_cons,
      Nat.add_assoc, Nat.add_comm 1]

-- ==== texts

theorem piece_encode (c : Char) : Piece (encode c) c.val ∧ ∀ rest,
    Fits (encode c) rest := by
  rcases encode_cases c with ⟨b, heq, hsmall, hval⟩ | ⟨b, conts, heq, hseq⟩
  · rw [heq, ← hval]
    refine ⟨.ascii hsmall, ?_⟩
    rintro rest _ _ hcons
    cases hcons
    rw [announced, if_pos hsmall]
    exact Nat.zero_le _
  · obtain ⟨bits, expected, hfirst, hfold, hfinished⟩ := hseq.decodes
    have hannounced : announced b = conts.length := by
      rw [announced, if_neg (UInt8.not_lt.mpr hseq.large), hfirst]
      rfl
    have hchar : sequenceChar b conts = c.val := by
      rw [sequenceChar, hfirst]
      dsimp only
      rw [hfold, if_pos hfinished]
    rw [heq, ← hchar]
    refine ⟨.full ?_ hseq.continued hannounced.symm, ?_⟩
    · rw [hannounced]
      exact (firstByte_some hfirst).1
    · rintro rest _ _ hcons
      cases hcons
      rw [hannounced]
      exact (List.sublist_append_left conts rest).length_le

theorem reads_encodeAll (cs : List Char) :
    Reads (encodeAll cs) (cs.map Char.val) := by
  induction cs with
  | nil => exact .nil
  | cons c cs ih => exact .cons (piece_encode c).1 ih

theorem utf8Walk_encodeAll (cs : List Char) (pre : List UInt8) :
    utf8Walk (pre ++ encodeAll cs) pre.length = cs.map Char.val := by
  induction cs generalizing pre with
  | nil =>
    show utf8Walk (pre ++ []) _ = []
    rw [List.append_nil, utf8Walk_end]
  | cons c cs ih =>
    obtain ⟨hpiece, hfits⟩ := piece_encode c
    show utf8Walk (pre ++ (encode c ++ encodeAll cs)) _ = _
    rw [utf8Walk_piece hpiece (hfits _), ih]
    rfl

/-- What is encoded is read back, byte after byte and by the index. -/
theorem decode_encodeAll (cs : List Char) :
    streamed (encodeAll cs) = cs.map Char.val ∧
      indexed (encodeAll cs) = cs.map Char.val :=
  ⟨(reads_encodeAll cs).streamed_eq, utf8Walk_encodeAll cs []⟩

end Clks.Text
