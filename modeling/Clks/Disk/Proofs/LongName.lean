/-
Long names, written and read back.

A long name goes to the disk in pieces of thirteen characters, the last
piece first; each entry carries its number, and the first one a mark.
The walks put the pieces together again from the back
(`lfnEntries_read`). They do so only for a name that is `Legible`: a
character beyond ASCII, which the encoder takes, makes the decoder drop
everything collected so far, and so does a name that does not fit the
buffer of a path.
-/
import Clks.Disk.Proofs.DirWrite

namespace Clks.Disk

open Bytes

-- ==== one piece, written

/-- The word for character `i` of a piece. -/
def lfnWord (name : List UInt8) (start i : Nat) : Nat :=
  if start + i < name.length then (name.getD (start + i) 0).toNat
  else if start + i = name.length then 0
  else 0xFFFF

/-- The characters of a name from a position on, one piece of them. -/
def lfnPiece (name : List UInt8) (start n : Nat) : List UInt8 :=
  (name.drop start).take n

section written

variable {name : List UInt8} {ordinal checksum : UInt8}

theorem foldl_writeU16_in (f : Nat × Nat → Nat) {offs : List (Nat × Nat)}
    (e : Entry) (h : offs.Pairwise fun p q => p.1 + 2 ≤ q.1)
    {p : Nat × Nat} (hp : p ∈ offs) :
    readU16 (offs.foldl (fun e p => writeU16 e p.1 (f p)) e) p.1
      = f p % 2 ^ 16 := by
  induction offs generalizing e with
  | nil => cases hp
  | cons q offs ih =>
    obtain ⟨hq, hrest⟩ := List.pairwise_cons.mp h
    rw [List.foldl_cons]
    rcases List.mem_cons.mp hp with rfl | hp
    · rw [← readU16_writeU16 e p.1 (f p)]
      apply readU16_congr
      intro k hk
      apply foldl_writeU16_out
      intro r hr
      have := hq r hr
      omega
    · exact ih _ hrest hp

private theorem buildLfnEntry_byte {k : Nat}
    (hk : ∀ p ∈ lfnOffsets.zipIdx, p.1 + 2 ≤ k ∨ k < p.1) :
    buildLfnEntry name ordinal checksum k
      = blit (blit (blit (blit (blit (blit (fun _ => 0) 0 32 fun _ => 0xFF)
          0 1 fun _ => ordinal) 11 1 fun _ => attrLfn) 12 1 fun _ => 0)
          13 1 fun _ => checksum) 26 2 (fun _ => 0) k := by
  unfold buildLfnEntry
  exact foldl_writeU16_out _ _ _ hk

theorem buildLfnEntry_ordinal :
    buildLfnEntry name ordinal checksum 0 = ordinal := by
  rw [buildLfnEntry_byte (by decide), blit_out (by omega),
    blit_out (by omega), blit_out (by omega), blit_out (by omega),
    blit_in (by omega) (by omega)]

theorem buildLfnEntry_checksum :
    buildLfnEntry name ordinal checksum 13 = checksum := by
  rw [buildLfnEntry_byte (by decide), blit_out (by omega),
    blit_in (by omega) (by omega)]

theorem lfnWord_lt (start i : Nat) : lfnWord name start i < 65536 := by
  unfold lfnWord
  split_ifs
  · have := (name.getD (start + i) 0).toNat_lt
    omega
  · decide
  · decide

theorem buildLfnEntry_word {p : Nat × Nat} (hp : p ∈ lfnOffsets.zipIdx) :
    readU16 (buildLfnEntry name ordinal checksum) p.1
      = lfnWord name (((ordinal &&& 0x1F).toNat - 1) * 13) p.2 := by
  unfold buildLfnEntry
  have hpair : lfnOffsets.zipIdx.Pairwise fun p q => p.1 + 2 ≤ q.1 := by
    decide
  refine (foldl_writeU16_in _ _ hpair hp).trans ?_
  exact Nat.mod_eq_of_lt (lfnWord_lt _ _)

end written

-- ==== one piece, read

/-- The characters are ASCII. -/
def Ascii (name : List UInt8) : Prop := ∀ ch ∈ name, ch.toNat ≤ 0x7F

instance (name : List UInt8) : Decidable (Ascii name) := by
  unfold Ascii
  infer_instance

section read

variable {name : List UInt8} {e : Entry} {start : Nat}

private theorem lfnPart_eq (hz : ∀ ch ∈ name, ch ≠ 0) {offs : List Nat}
    {i : Nat} (part : List UInt8)
    (hw : ∀ p ∈ offs.zipIdx i, readU16 e p.1 = lfnWord name start p.2)
    (hlen : part.length + offs.length < pathMax) :
    lfnPart e offs part
      = if Ascii (lfnPiece name (start + i) offs.length) then
          some (part ++ lfnPiece name (start + i) offs.length)
        else none := by
  induction offs generalizing i part with
  | nil => simp [lfnPart, lfnPiece, Ascii]
  | cons off offs ih =>
    rw [List.length_cons] at hlen
    have hval : readU16 e off = lfnWord name start i :=
      hw (off, i) List.mem_cons_self
    unfold lfnPart
    simp only [hval]
    by_cases hi : start + i < name.length
    · -- A character.
      have hword : lfnWord name start i = (name[start + i]).toNat := by
        unfold lfnWord
        rw [if_pos hi, List.getD_eq_getElem?_getD,
          List.getElem?_eq_getElem hi, Option.getD_some]
      have hlt := (name[start + i]).toNat_lt
      have hne : (name[start + i]).toNat ≠ 0 := by
        intro h0
        refine hz _ (List.getElem_mem hi) (UInt8.toNat_inj.mp ?_)
        rw [h0]
        rfl
      have hpiece : lfnPiece name (start + i) (off :: offs).length
          = name[start + i] :: lfnPiece name (start + (i + 1)) offs.length := by
        unfold lfnPiece
        rw [List.drop_eq_getElem_cons hi, List.length_cons,
          List.take_succ_cons, Nat.add_assoc]
      have hascii : Ascii (name[start + i]
            :: lfnPiece name (start + (i + 1)) offs.length) ↔
          (name[start + i]).toNat ≤ 0x7F ∧
            Ascii (lfnPiece name (start + (i + 1)) offs.length) := by
        unfold Ascii
        exact List.forall_mem_cons
      rw [hword, if_neg (by omega), hpiece]
      by_cases hbig : 0x7F < (name[start + i]).toNat
      · rw [if_pos (.inl hbig), if_neg]
        rw [hascii]
        omega
      · rw [if_neg (by omega), ih (i := i + 1)]
        · simp only [hascii, UInt8.ofNat_toNat, List.append_assoc,
            List.singleton_append]
          by_cases ha : Ascii (lfnPiece name (start + (i + 1)) offs.length)
          · rw [if_pos ha, if_pos ⟨by omega, ha⟩]
          · rw [if_neg ha, if_neg fun h => ha h.2]
        · intro p hp
          exact hw p (List.mem_cons_of_mem _ hp)
        · rw [List.length_append, List.length_singleton]
          omega
    · -- The end mark, or what fills up the entry behind it.
      have hstop : lfnWord name start i = 0 ∨ lfnWord name start i = 0xFFFF := by
        unfold lfnWord
        rw [if_neg hi]
        split_ifs
        · exact .inl rfl
        · exact .inr rfl
      have hpiece : lfnPiece name (start + i) (off :: offs).length = [] := by
        unfold lfnPiece
        rw [List.drop_eq_nil_of_le (by omega), List.take_nil]
      rw [if_pos hstop, hpiece, List.append_nil, if_pos]
      intro ch hch
      cases hch

/-- A name that the walks can read. -/
def Legible (name : List UInt8) : Prop :=
  Ascii name ∧ name.length < pathMax

instance (name : List UInt8) : Decidable (Legible name) := by
  unfold Legible
  infer_instance

theorem Ascii.append {xs ys : List UInt8} :
    Ascii (xs ++ ys) ↔ Ascii xs ∧ Ascii ys := by
  unfold Ascii
  exact List.forall_mem_append

theorem lfnPrependPart_eq (checksum : UInt8) (hz : ∀ ch ∈ name, ch ≠ 0)
    {k : Nat} {ordinal : UInt8} (hk : (ordinal &&& 0x1F).toNat = k + 1)
    (hrest : Ascii (name.drop ((k + 1) * 13))) :
    lfnPrependPart (buildLfnEntry name ordinal checksum)
        (name.drop ((k + 1) * 13))
      = if Legible (name.drop (k * 13)) then some (name.drop (k * 13))
        else none := by
  have hcat : lfnPiece name (k * 13) 13 ++ name.drop ((k + 1) * 13)
      = name.drop (k * 13) := by
    unfold lfnPiece
    rw [Nat.succ_mul, ← List.drop_drop, List.take_append_drop]
  have hw : ∀ p ∈ lfnOffsets.zipIdx 0,
      readU16 (buildLfnEntry name ordinal checksum) p.1
        = lfnWord name (k * 13) p.2 := by
    intro p hp
    rw [buildLfnEntry_word hp, hk, Nat.add_sub_cancel]
  have hpart := lfnPart_eq hz [] hw (by decide)
  rw [Nat.add_zero, List.nil_append,
    show lfnOffsets.length = 13 from rfl] at hpart
  unfold lfnPrependPart
  rw [hpart]
  have hleg : Legible (name.drop (k * 13)) ↔
      Ascii (lfnPiece name (k * 13) 13) ∧
        (lfnPiece name (k * 13) 13).length
          + (name.drop ((k + 1) * 13)).length < pathMax := by
    unfold Legible
    rw [← hcat, Ascii.append, List.length_append]
    exact ⟨fun h => ⟨h.1.1, h.2⟩, fun h => ⟨⟨h.1, hrest⟩, h.2⟩⟩
  by_cases ha : Ascii (lfnPiece name (k * 13) 13)
  · simp only [if_pos ha, hcat]
    by_cases hl : Legible (name.drop (k * 13))
    · rw [if_pos hl, if_neg]
      have := (hleg.mp hl).2
      omega
    · rw [if_neg hl, if_pos]
      by_contra hlt
      exact hl (hleg.mpr ⟨ha, by omega⟩)
  · rw [if_neg ha]
    simp only []
    rw [if_neg fun hl => ha (hleg.mp hl).1]

end read

-- ==== a whole name, read back

private theorem ordinal_bits : ∀ k < 16, 0 < k →
    (UInt8.ofNat k &&& 0x1F).toNat = k ∧
      ((UInt8.ofNat k ||| 0x40) &&& 0x1F).toNat = k ∧
      UInt8.ofNat k &&& 0x40 = 0 ∧ (UInt8.ofNat k ||| 0x40) &&& 0x40 ≠ 0 ∧
      (UInt8.ofNat k ≠ entryUnused ∧ UInt8.ofNat k ≠ entryRemoved) ∧
      (UInt8.ofNat k ||| 0x40 ≠ entryUnused ∧
        UInt8.ofNat k ||| 0x40 ≠ entryRemoved) := by
  decide

section name

variable {name : List UInt8} {checksum : UInt8} {st : LfnState}

/-- What the walks have collected of a name, from position `k * 13`
on. -/
def Collected (name : List UInt8) (checksum : UInt8) (k : Nat)
    (st : LfnState) : Prop :=
  if Legible (name.drop (k * 13)) then
    st = ⟨true, name.drop (k * 13), checksum, k + 1⟩
  else st.active = false

private theorem step_first (hz : ∀ ch ∈ name, ch ≠ 0) {k : Nat}
    (hk : k + 1 < 16) (hend : name.length ≤ (k + 1) * 13) :
    Collected name checksum k
      (st.step (buildLfnEntry name (UInt8.ofNat (k + 1) ||| 0x40)
        checksum)) := by
  obtain ⟨-, hord, -, hmark, -, -⟩ := ordinal_bits (k + 1) hk (by omega)
  have hnil : name.drop ((k + 1) * 13) = [] := List.drop_eq_nil_of_le hend
  have hpre := lfnPrependPart_eq checksum hz hord
    (by rw [hnil]; exact fun ch hch => by cases hch)
  rw [hnil] at hpre
  unfold Collected LfnState.step
  simp only [buildLfnEntry_ordinal, buildLfnEntry_checksum, hord]
  rw [if_pos hmark]
  simp only [Nat.succ_ne_zero, if_false, hpre]
  split_ifs
  · rfl
  · rfl

private theorem step_next (hz : ∀ ch ∈ name, ch ≠ 0) {k : Nat}
    (hk : k + 1 < 16) (hst : Collected name checksum (k + 1) st) :
    Collected name checksum k
      (st.step (buildLfnEntry name (UInt8.ofNat (k + 1)) checksum)) := by
  obtain ⟨hord, -, hmark, -, -, -⟩ := ordinal_bits (k + 1) hk (by omega)
  have hcat : name.drop (k * 13)
      = lfnPiece name (k * 13) 13 ++ name.drop ((k + 1) * 13) := by
    unfold lfnPiece
    rw [Nat.succ_mul, ← List.drop_drop, List.take_append_drop]
  unfold Collected at hst ⊢
  unfold LfnState.step
  simp only [buildLfnEntry_ordinal, buildLfnEntry_checksum, hord, hmark,
    ne_eq, not_true_eq_false, if_false]
  by_cases hl : Legible (name.drop ((k + 1) * 13))
  · rw [if_pos hl] at hst
    subst hst
    have hpre := lfnPrependPart_eq checksum hz hord hl.1
    simp only [Bool.not_true, not_true_eq_false, decide_false,
      Bool.or_self, Bool.false_eq_true, if_false, Nat.succ_ne_zero, hpre]
    split_ifs
    · rfl
    · rfl
  · rw [if_neg hl] at hst
    have hno : ¬ Legible (name.drop (k * 13)) := by
      intro h
      rw [hcat] at h
      refine hl ⟨(Ascii.append.mp h.1).2, ?_⟩
      have := h.2
      rw [List.length_append] at this
      omega
    rw [if_neg hno]
    simp only [hst, Bool.not_false, Bool.true_or, if_true]
    rfl

theorem lfnEntries_read (st : LfnState) (checksum : UInt8)
    (hz : ∀ ch ∈ name, ch ≠ 0) {count : Nat}
    (hpos : 0 < count) (hmax : count ≤ lfnMaxEntries)
    (hend : name.length ≤ count * 13) :
    Collected name checksum 0
      ((lfnEntries name checksum count).foldl LfnState.step st) := by
  simp only [lfnMaxEntries] at hmax
  -- After `i` entries, `i` pieces are read.
  have hread : ∀ i, 0 < i → i ≤ count → Collected name checksum (count - i)
      (((lfnEntries name checksum count).take i).foldl LfnState.step st) := by
    intro i hi
    induction i with
    | zero => omega
    | succ i ih =>
      intro hle
      have hlen : i < (lfnEntries name checksum count).length := by
        simp [lfnEntries]
        omega
      rw [List.take_succ_eq_append_getElem hlen, List.foldl_append,
        List.foldl_cons, List.foldl_nil]
      simp only [lfnEntries, List.getElem_map, List.getElem_range]
      cases i with
      | zero =>
        obtain ⟨k, rfl⟩ : ∃ k, count = k + 1 := ⟨count - 1, by omega⟩
        rw [if_pos rfl]
        exact step_first hz (by omega) hend
      | succ i =>
        rw [if_neg (by omega)]
        have hst := ih (by omega) (by omega)
        have hk : count - (i + 1) = count - (i + 1 + 1) + 1 := by omega
        rw [hk] at hst ⊢
        exact step_next hz (by omega) hst
  have := hread count hpos (le_refl _)
  rwa [Nat.sub_self, List.take_of_length_le (by simp [lfnEntries])] at this

theorem lfnEntries_used {count : Nat} (hmax : count ≤ lfnMaxEntries) :
    ∀ e ∈ lfnEntries name checksum count,
      e.isFree = false ∧ e.attr = attrLfn := by
  intro e he
  simp only [lfnMaxEntries] at hmax
  obtain ⟨i, hi, rfl⟩ := List.mem_map.mp he
  have hi := List.mem_range.mp hi
  refine ⟨?_, buildLfnEntry_attr _ _ _⟩
  obtain ⟨-, -, -, -, h1, h2⟩ := ordinal_bits (count - i) (by omega) (by omega)
  unfold Entry.isFree
  rw [buildLfnEntry_ordinal]
  split_ifs
  · simp [h2]
  · simp [h1]

end name

end Clks.Disk
