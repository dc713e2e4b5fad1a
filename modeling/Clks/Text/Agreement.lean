/-
Do the two UTF-8 decoders agree?

They do on every string, but for one kind of ending: a four-byte lead
byte, a byte that breaks the sequence off, and one more byte that begins
no sequence. There the byte behind is a character of its own to the
decoder that is fed byte after byte, and the one that walks with an index
never looks at it.
-/
import Clks.Text.Sequences

namespace Clks.Text

/-- Both say the same characters; where the string ends in an incomplete
sequence, in front of it. -/
def Agree (s : List UInt8) : Prop :=
  indexed s = streamed s ∨
    ∃ w t, s = w ++ t ∧ Whole w ∧ Incomplete t ∧ streamed w <+: indexed s

/-- The ending that is swallowed: a lead byte that announces three bytes,
one that is no continuation, and one that announces nothing. -/
def Swallowed (s : List UInt8) : Prop :=
  ∃ w lead bad last, s = w ++ [lead, bad, last] ∧ Whole w ∧
    announced lead = 3 ∧ isCont bad = false ∧ announced last = 0

variable {p w t : List UInt8} {c : UInt32} {cs : List UInt32}

theorem Swallowed.cons (hp : Piece p c) (h : Swallowed t) :
    Swallowed (p ++ t) := by
  obtain ⟨w, lead, bad, last, rfl, ⟨cs, hw⟩, hrest⟩ := h
  exact ⟨p ++ w, lead, bad, last, by rw [List.append_assoc],
    ⟨_, .cons hp hw⟩, hrest⟩

theorem Piece.fits_or (hp : Piece p c) (rest : List UInt8) :
    Fits p rest ∨ ∃ b conts bad, p = b :: (conts ++ [bad]) ∧
      isCont bad = false ∧ conts.length + 1 + rest.length < announced b := by
  cases hp with
  | @ascii b h =>
    left
    intro b' tail heq
    cases heq
    rw [(Piece.ascii h).announced_eq rfl]
    omega
  | @stray b h hfirst =>
    left
    intro b' tail heq
    cases heq
    rw [(Piece.stray h hfirst).announced_eq rfl]
    omega
  | @full b conts hpos hconts hlen =>
    left
    intro b' tail heq
    cases heq
    rw [← hlen]
    simp
  | @broken b bad conts hconts hlen hbad =>
    by_cases hshort : conts.length + 1 + rest.length < announced b
    · exact .inr ⟨b, conts, bad, rfl, hbad, hshort⟩
    · left
      intro b' tail heq
      cases heq
      simp only [List.append_eq, List.length_append, List.length_singleton]
      omega

theorem walk_reads (h : Reads w cs) (ht : t = [] ∨ Incomplete t)
    (pre : List UInt8) (hs : ¬ Swallowed (w ++ t)) :
    utf8Walk (pre ++ (w ++ t)) pre.length = cs ∨
      (Incomplete t ∧ cs <+: utf8Walk (pre ++ (w ++ t)) pre.length) := by
  induction h generalizing pre with
  | nil =>
    rcases ht with rfl | ht
    · left
      rw [List.append_nil, List.append_nil, utf8Walk_end]
    · exact .inr ⟨ht, List.nil_prefix⟩
  | @cons p rest c cs hp hrest ih =>
    rw [List.append_assoc] at hs ⊢
    rcases hp.fits_or (rest ++ t) with hfits | ⟨b, conts, bad, rfl, hbad,
      hshort⟩
    · rw [utf8Walk_piece hp hfits]
      rcases ih (pre ++ p) (fun h => hs (h.cons hp)) with heq | ⟨hinc, hpre⟩
      · rw [heq]
        exact .inl rfl
      · exact .inr ⟨hinc, List.cons_prefix_cons.mpr ⟨rfl, hpre⟩⟩
    · -- the rest of the string is one sequence to the walk
      have hc : c = replacement ∧ cs = [] := by
        have hle := announced_le b
        have hbreak : Piece (b :: (conts ++ [bad])) c := hp
        refine ⟨?_, ?_⟩
        · generalize hq : b :: (conts ++ [bad]) = q at hbreak
          cases hbreak with
          | ascii h => simp at hq
          | stray h hfirst => rfl
          | full hpos hconts hlen =>
            cases hq
            rw [List.length_append, List.length_singleton] at hlen
            omega
          | broken hconts hlen hbad => rfl
        · cases hrest with
          | nil => rfl
          | @cons q rest c' cs' hq hrest' =>
            exfalso
            have hqpos := List.length_pos_of_ne_nil hq.ne_nil
            simp only [List.length_append] at hshort
            obtain ⟨x, rfl⟩ := List.length_eq_one_iff.mp
              (by omega : q.length = 1)
            have hrnil : rest = [] :=
              List.eq_nil_of_length_eq_zero (by omega)
            have htnil : t = [] := List.eq_nil_of_length_eq_zero (by omega)
            have hcnil : conts = [] :=
              List.eq_nil_of_length_eq_zero (by omega)
            subst hrnil htnil hcnil
            exact hs ⟨[], b, bad, x, rfl, ⟨[], .nil⟩, by omega, hbad,
              hq.announced_eq rfl⟩
      obtain ⟨rfl, rfl⟩ := hc
      left
      rw [List.cons_append]
      refine utf8Walk_short ?_
      simp only [List.length_append, List.length_singleton] at hshort ⊢
      omega

theorem walk_fits (h : Reads w cs) (pre rest : List UInt8)
    (hlen : 3 ≤ rest.length) :
    utf8Walk (pre ++ (w ++ rest)) pre.length
      = cs ++ utf8Walk (pre ++ w ++ rest) (pre ++ w).length := by
  induction h generalizing pre with
  | nil => simp
  | @cons p rest' c cs hp hrest ih =>
    have hfits : Fits p (rest' ++ rest) := by
      intro b tail heq
      have hle := announced_le b
      have heqlen := congrArg List.length heq
      have hpos := List.length_pos_of_ne_nil hp.ne_nil
      simp only [List.length_append, List.length_cons] at heqlen
      omega
    rw [List.append_assoc, utf8Walk_piece hp hfits, ih,
      List.append_assoc pre p]
    rfl

theorem Swallowed.not_agree {s : List UInt8} (h : Swallowed s) :
    ¬ Agree s := by
  obtain ⟨w, lead, bad, last, rfl, ⟨cs, hw⟩, hlead, hbad, hlast⟩ := h
  have hbreak : Piece (lead :: ([] ++ [bad])) replacement :=
    .broken (fun _ h => nomatch h) (by
      rw [hlead]
      exact Nat.succ_pos 2) hbad
  obtain ⟨c, hc⟩ := piece_of_announced hlast
  have hstream : streamed (w ++ [lead, bad, last])
      = cs ++ [replacement, c] := by
    have hall : Reads (w ++ [lead, bad, last]) (cs ++ [replacement, c]) :=
      hw.append (.cons hbreak (.singleton hc))
    exact hall.streamed_eq
  have hindex : indexed (w ++ [lead, bad, last]) = cs ++ [replacement] := by
    have hwalk := walk_fits hw [] [lead, bad, last] (Nat.le_refl 3)
    rw [List.nil_append, List.nil_append, List.length_nil] at hwalk
    rw [indexed, hwalk, utf8Walk_short (by
      rw [hlead]
      exact Nat.lt_succ_self 2)]
  intro hagree
  rcases hagree with heq | ⟨w', t, hs, hwhole, hinc, hpre⟩
  · rw [hstream, hindex] at heq
    have := congrArg List.length heq
    simp at this
  · rw [← hwhole.streamed_append hinc, ← hs, hstream, hindex] at hpre
    have := hpre.length_le
    simp at this

theorem agree_of_not_swallowed {s : List UInt8} (h : ¬ Swallowed s) :
    Agree s := by
  obtain ⟨w, cs, t, rfl, hw, ht⟩ := reads_exists s
  have hwalk := walk_reads hw ht [] h
  rw [List.nil_append, List.length_nil] at hwalk
  rcases hwalk with heq | ⟨hinc, hpre⟩
  · left
    rw [indexed, heq]
    rcases ht with rfl | ht
    · rw [List.append_nil, hw.streamed_eq]
    · rw [Whole.streamed_append ⟨cs, hw⟩ ht, hw.streamed_eq]
  · refine .inr ⟨w, t, rfl, ⟨cs, hw⟩, hinc, ?_⟩
    rw [hw.streamed_eq]
    exact hpre

/-- The decoders agree on a string exactly when its end is not
swallowed. -/
theorem agree_iff (s : List UInt8) : Agree s ↔ ¬ Swallowed s :=
  ⟨fun h hs => hs.not_agree h, agree_of_not_swallowed⟩

/-- `F0 41 42`: fed byte after byte it says a replacement character and
"B", and walked over only the replacement character. -/
theorem not_agree_cut_off : ¬ ∀ s, Agree s := by
  intro h
  have hs : Swallowed [0xF0, 0x41, 0x42] :=
    ⟨[], 0xF0, 0x41, 0x42, rfl, ⟨[], .nil⟩, by decide, by decide, by decide⟩
  exact hs.not_agree (h _)

end Clks.Text
