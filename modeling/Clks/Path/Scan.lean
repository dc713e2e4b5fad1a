/-
The scanner of `normalize_impl` (rust/src/path.rs), byte by byte.

`Clks/Path.lean` cuts a path at every slash and lets the output be a text.
The loop itself moves a position through the path and another one through
a buffer of the caller, and leaves the buffer terminated. Here it is
written as it runs: the path is read and the buffer is written through
checks, so that a position outside of either is a fault, and so is a loop
that would not end. `normalizeImpl_eq` is that there is no fault, and that
the buffer then starts with the text of the other definition.
-/
import Clks.Lib.Reads
import Clks.Proofs.Path

namespace Clks.Path.Scan

open Reads

-- ==== the loops

/-- The bytes of a C string. -/
abbrev CString := { s : List UInt8 // 0 ∉ s }

/-- A buffer, and the size that the caller gives with it. -/
structure Out where
  bytes : List UInt8
  size : UInt64
  size_eq : bytes.length = size.toNat

/-- What has been written so far, and up to where. -/
structure Written where
  out : List UInt8
  outPos : Nat
  deriving DecidableEq

/-- Write some bytes and move on. -/
def Written.put (w : Written) (xs : List UInt8) : Checked Written := do
  let out ← putAt w.out w.outPos xs
  return ⟨out, w.outPos + xs.length⟩

/-- Move on in the path while `p` holds. -/
def advance (p : UInt8 → Bool) (path : List UInt8) :
    (rounds : Nat) → (inPos : Nat) → Checked Nat
  | 0, _ => .error .unfinished
  | rounds + 1, inPos => do
    if inPos < path.length then
      if p (← byteAt path inPos) then advance p path rounds (inPos + 1)
      else return inPos
    else return inPos

/-- `copy_component`. -/
def copyComponent (src : List UInt8) (w : Written) (outSize : Nat) :
    Checked (Option Written) := do
  if w.outPos + src.length ≥ outSize then return none
  else return some (← w.put src)

/-- A component that is neither skipped nor refused. -/
def addComponent (keepRootSlash : Bool) (outSize : Nat)
    (component : List UInt8) (w : Written) : Checked (Option Written) := do
  if (keepRootSlash && w.outPos > 1) || (!keepRootSlash && w.outPos ≠ 0) then
    if w.outPos + 1 ≥ outSize then return none
    else copyComponent component (← w.put [slash]) outSize
  else copyComponent component w outSize

/-- The loop over the components. -/
def components (path : List UInt8) (keepRootSlash : Bool) (outSize : Nat) :
    (rounds : Nat) → (inPos : Nat) → Written → Checked (Option Written)
  | 0, _, _ => .error .unfinished
  | rounds + 1, inPos, w => do
    if inPos < path.length then
      let compStart := inPos
      let inPos ← advance (fun ch => ch != slash && ch != 0) path
        (path.length + 1) inPos
      let component ← blockAt path compStart (inPos - compStart)
      if component.val = [] ∨ component.val = [dot] then
        let inPos ← advance (· == slash) path (path.length + 1) inPos
        components path keepRootSlash outSize rounds inPos w
      else if component.val = [dot, dot] then return none
      else
        match ← addComponent keepRootSlash outSize component.val w with
        | none => return none
        | some w =>
          let inPos ← advance (· == slash) path (path.length + 1) inPos
          components path keepRootSlash outSize rounds inPos w
    else return some w

/-- `normalize_impl`: the buffer, if it succeeds. -/
def normalizeImpl (path : List UInt8) (absolute : Bool) (out : Out)
    (keepRootSlash : Bool) : Checked (Option (List UInt8)) := do
  let outSize := out.size.toNat
  if outSize = 0 then return none
  else if absolute && (path.head? ≠ some slash || outSize < 2) then
    return none
  else if !absolute && path.head? = some slash then return none
  else
    let w : Written := ⟨out.bytes, 0⟩
    let w ← if keepRootSlash then w.put [slash] else pure w
    let inPos ← advance (· == slash) path (path.length + 1) 0
    match ← components path keepRootSlash outSize (path.length + 1) inPos w with
    | none => return none
    | some w =>
      if w.outPos ≥ outSize then return none
      else return some (← putAt w.out w.outPos [0])

/-- `clks_rust_path_normalize_absolute`. -/
def normalizeAbsolute (path : CString) (out : Out) :
    Checked (Option (List UInt8)) :=
  normalizeImpl path.val true out true

/-- `clks_rust_path_normalize_relative`. -/
def normalizeRelative (path : CString) (out : Out) :
    Checked (Option (List UInt8)) :=
  normalizeImpl path.val false out false

/-- `clks_rust_path_normalize_external_internal`. -/
def normalizeExternalInternal (path : CString) (out : Out) :
    Checked (Option (List UInt8)) :=
  normalizeImpl path.val true out false

-- ==== the buffer

variable {out text xs : List UInt8}

/-- The buffer with a text at its front. -/
def Written.of (out text : List UInt8) : Written :=
  ⟨overwrite out 0 text, text.length⟩

theorem overwrite_append :
    overwrite (overwrite out 0 text) text.length xs
      = overwrite out 0 (text ++ xs) := by
  have hdrop : (text ++ out.drop text.length).drop (text.length + xs.length)
      = out.drop (text.length + xs.length) := by
    rw [List.drop_append, List.drop_eq_nil_of_le (by omega), List.nil_append,
      Nat.add_sub_cancel_left, List.drop_drop]
  unfold overwrite
  rw [List.take_zero, List.nil_append, List.nil_append, Nat.zero_add,
    Nat.zero_add, List.take_left, hdrop, List.length_append]

theorem Written.put_of (h : text.length + xs.length ≤ out.length) :
    (Written.of out text).put xs = .ok (.of out (text ++ xs)) := by
  unfold Written.put Written.of
  show putAt (overwrite out 0 text) text.length xs >>= _ = _
  rw [putAt_eq, overwrite_append, List.length_append]
  · rfl
  · rw [length_overwrite (by omega)]
    exact h

-- ==== the scanner

variable {path rest : List UInt8} {p : UInt8 → Bool} {rounds inPos n : Nat}

theorem advance_eq (h : path.drop inPos = rest) (hin : inPos ≤ path.length)
    (hrounds : rest.length < rounds) :
    advance p path rounds inPos = .ok (inPos + (rest.takeWhile p).length) := by
  induction rounds generalizing inPos rest with
  | zero => omega
  | succ rounds ih =>
    unfold advance
    cases rest with
    | nil =>
      rw [if_neg (by
        have := List.drop_eq_nil_iff.mp h
        omega)]
      rfl
    | cons ch rest =>
      have hlt : inPos < path.length := by
        by_contra hn
        rw [List.drop_eq_nil_of_le (by omega)] at h
        cases h
      rw [List.drop_eq_getElem_cons hlt] at h
      obtain ⟨hch, htail⟩ := List.cons.inj h
      have hbyte : byteAt path inPos = .ok ch := by
        unfold byteAt
        rw [dif_pos hlt, hch]
      rw [if_pos hlt, hbyte]
      show (if p ch = true then _ else _) = _
      cases hp : p ch with
      | true =>
        rw [if_pos rfl, ih htail hlt
          (by rw [List.length_cons] at hrounds; omega),
          List.takeWhile_cons_of_pos hp, List.length_cons]
        congr 1
        omega
      | false =>
        rw [if_neg (by decide), List.takeWhile_cons_of_neg (by rw [hp]; decide)]
        rfl

theorem drop_takeWhile (h : path.drop inPos = rest) :
    path.drop (inPos + (rest.takeWhile p).length) = rest.dropWhile p := by
  have hcut := List.takeWhile_append_dropWhile (p := p) (l := rest)
  rw [← List.drop_drop, h]
  calc rest.drop (rest.takeWhile p).length
      = (rest.takeWhile p ++ rest.dropWhile p).drop
          (rest.takeWhile p).length := by rw [hcut]
    _ = rest.dropWhile p := List.drop_left

/-- The pieces of a text, one after the other. -/
def fold (keepRootSlash : Bool) (outSize : Nat) (rest out : List UInt8) :
    Option (List UInt8) :=
  (rest.splitOn slash).foldlM (Path.addComponent keepRootSlash outSize) out

variable {keep : Bool} {outSize : Nat} {component : List UInt8}

theorem fold_nil : fold keep outSize [] text = some text := by
  unfold fold
  rw [List.splitOn_nil]
  rfl

theorem fold_slash :
    fold keep outSize (slash :: rest) text = fold keep outSize rest text := by
  unfold fold
  rw [List.splitOn_cons_eq_if_modifyHead, if_pos (beq_self_eq_true _)]
  rfl

theorem fold_slashes :
    fold keep outSize (rest.dropWhile (· == slash)) text
      = fold keep outSize rest text := by
  induction rest with
  | nil => rfl
  | cons ch rest ih =>
    by_cases hch : ch = slash
    · subst hch
      rw [List.dropWhile_cons_of_pos (p := (· == slash))
        (beq_self_eq_true slash), fold_slash]
      exact ih
    · rw [List.dropWhile_cons_of_neg (by rw [beq_iff_eq]; exact hch)]

theorem fold_component (hc : slash ∉ component)
    (hrest : rest = [] ∨ rest.head? = some slash) :
    fold keep outSize (component ++ rest) text
      = (Path.addComponent keep outSize text component).bind
          (fold keep outSize rest) := by
  unfold fold
  cases rest with
  | nil =>
    rw [List.append_nil, List.splitOn_eq_singleton hc, List.foldlM_cons]
    congr 1
  | cons ch rest =>
    obtain rfl : ch = slash := by
      rcases hrest with h | h
      · cases h
      · exact Option.some.inj h
    rw [List.splitOn_append_cons_self, List.splitOn_eq_singleton hc,
      List.singleton_append, List.foldlM_cons]
    congr 1

-- ==== the components

theorem copyComponent_eq {outSize : Nat} (hsize : outSize ≤ out.length) :
    copyComponent xs (.of out text) outSize
      = .ok (if outSize ≤ text.length + xs.length then none
          else some (.of out (text ++ xs))) := by
  unfold copyComponent
  show (if text.length + xs.length ≥ outSize then _ else _) = _
  split_ifs with h
  · rfl
  · rw [Written.put_of (by omega)]
    rfl

theorem addComponent_eq {outSize : Nat} (hsize : outSize ≤ out.length)
    (hnil : component ≠ []) (hdot : component ≠ [dot])
    (hdotdot : component ≠ [dot, dot]) :
    addComponent keep outSize component (.of out text)
      = .ok ((Path.addComponent keep outSize text component).map
          (Written.of out)) := by
  unfold addComponent Path.addComponent
  rw [if_neg (not_or.mpr ⟨hnil, hdot⟩), if_neg hdotdot]
  show (if ((keep && decide (text.length > 1))
    || (!keep && decide (text.length ≠ 0))) = true then _ else _) = _
  cases hsep : (keep && decide (1 < text.length))
      || (!keep && decide (text.length ≠ 0)) with
  | true =>
    show (if text.length + 1 ≥ outSize then _ else _) = Except.ok (Option.map _
      (if (true && decide (outSize ≤ text.length + 1)) = true then none
      else if outSize ≤ (text ++ [slash]).length + component.length then none
      else some (text ++ [slash] ++ component)))
    have hcond : (true && decide (outSize ≤ text.length + 1)) = true
        ↔ text.length + 1 ≥ outSize := by
      rw [Bool.true_and, decide_eq_true_eq]
    by_cases hroom : text.length + 1 ≥ outSize
    · rw [if_pos hroom, if_pos (hcond.mpr hroom)]
      rfl
    · rw [if_neg hroom, if_neg (fun h => hroom (hcond.mp h)),
        Written.put_of (by rw [List.length_singleton]; omega)]
      show copyComponent _ _ _ = _
      rw [copyComponent_eq hsize]
      split_ifs <;> rfl
  | false =>
    show copyComponent _ _ _ = Except.ok (Option.map _
      (if outSize ≤ text.length + component.length then none
      else some (text ++ component)))
    rw [copyComponent_eq hsize]
    split_ifs <;> rfl

/-- A byte of a component. -/
def inComponent (ch : UInt8) : Bool := ch != slash && ch != 0

theorem dropWhile_inComponent (h : 0 ∉ rest) :
    rest.dropWhile inComponent = [] ∨
      (rest.dropWhile inComponent).head? = some slash := by
  induction rest with
  | nil => exact .inl rfl
  | cons ch rest ih =>
    rw [List.mem_cons, not_or] at h
    cases hch : inComponent ch with
    | true =>
      rw [List.dropWhile_cons_of_pos hch]
      exact ih h.2
    | false =>
      rw [List.dropWhile_cons_of_neg (by rw [hch]; decide)]
      rcases Bool.and_eq_false_iff.mp hch with hslash | hzero
      · exact .inr (congrArg some (bne_eq_false_iff_eq.mp hslash))
      · exact absurd (bne_eq_false_iff_eq.mp hzero).symm h.1

theorem slash_notMem_takeWhile : slash ∉ rest.takeWhile inComponent := by
  intro hin
  have h := List.mem_takeWhile_imp hin
  revert h
  decide

theorem length_next (hne : rest ≠ [])
    (hnext : rest.dropWhile inComponent = [] ∨
      (rest.dropWhile inComponent).head? = some slash) :
    ((rest.dropWhile inComponent).dropWhile (· == slash)).length
      < rest.length := by
  have hcut := congrArg List.length
    (List.takeWhile_append_dropWhile (p := inComponent) (l := rest))
  have hle := List.length_dropWhile_le (· == slash)
    (rest.dropWhile inComponent)
  rw [List.length_append] at hcut
  rcases hnext with hnil | hslash
  · rw [hnil]
    exact List.length_pos_iff.mpr hne
  · obtain ⟨tail, htail⟩ := List.head?_eq_some_iff.mp hslash
    rw [htail] at hcut ⊢
    rw [List.dropWhile_cons_of_pos (p := (· == slash))
      (beq_self_eq_true slash)]
    have hle := List.length_dropWhile_le (· == slash) tail
    rw [List.length_cons] at hcut
    omega

theorem components_eq {outSize : Nat} (hpath : 0 ∉ path)
    (hsize : outSize ≤ out.length) (h : path.drop inPos = rest)
    (hin : inPos ≤ path.length) (hrounds : rest.length < rounds) :
    components path keep outSize rounds inPos (.of out text)
      = .ok ((fold keep outSize rest text).map (Written.of out)) := by
  induction rounds generalizing inPos rest text with
  | zero => omega
  | succ rounds ih =>
    unfold components
    by_cases hend : inPos < path.length
    · have hzero : 0 ∉ rest := by
        rw [← h]
        exact fun hin => hpath (List.mem_of_mem_drop hin)
      have hne : rest ≠ [] := by
        rw [← h]
        exact fun hnil => absurd (List.drop_eq_nil_iff.mp hnil) (by omega)
      have hlength : rest.length = path.length - inPos := by
        rw [← h, List.length_drop]
      have hcut := List.takeWhile_append_dropWhile (p := inComponent)
        (l := rest)
      have hnext := dropWhile_inComponent hzero
      have slash_notMem := @slash_notMem_takeWhile rest
      have hless := length_next hne hnext
      have hlen := congrArg List.length hcut
      rw [List.length_append] at hlen
      generalize hc : rest.takeWhile inComponent = component at *
      have hdrop := drop_takeWhile (p := inComponent) h
      rw [hc] at hdrop
      generalize hr : rest.dropWhile inComponent = rest1 at *
      have hpos : inPos + component.length ≤ path.length := by omega
      -- The component, and the slashes behind it.
      have hadvance : advance (fun ch => ch != slash && ch != 0) path
          (path.length + 1) inPos = .ok (inPos + component.length) := by
        rw [← hc]
        exact advance_eq h hin (by omega)
      have hlast : inPos + (inPos + component.length - inPos)
          ≤ path.length := by omega
      obtain ⟨bytes, hblock, hbytes⟩ := blockAt_gives hlast
      have hval : bytes.val = component := by
        rw [hbytes, h, ← hcut, Nat.add_sub_cancel_left, List.take_left]
      have hskip : advance (· == slash) path (path.length + 1)
          (inPos + component.length) = .ok (inPos + component.length
            + (rest1.takeWhile (· == slash)).length) :=
        advance_eq hdrop hpos (by omega)
      have hdrop2 := drop_takeWhile (p := (· == slash)) hdrop
      have hslashes : (rest1.takeWhile (· == slash)).length ≤ rest1.length :=
        (List.takeWhile_sublist _).length_le
      have hgo : ∀ text, components path keep outSize rounds
          (inPos + component.length + (rest1.takeWhile (· == slash)).length)
          (.of out text)
            = .ok ((fold keep outSize rest1 text).map (Written.of out)) := by
        intro text
        rw [← fold_slashes]
        exact ih hdrop2 (by omega) (by omega)
      rw [if_pos hend, hadvance]
      show blockAt path inPos (inPos + component.length - inPos) >>= _ = _
      rw [hblock]
      show (if bytes.val = [] ∨ bytes.val = [dot] then _ else _) = _
      rw [hval, ← hcut, fold_component slash_notMem hnext]
      by_cases hskipped : component = [] ∨ component = [dot]
      · rw [if_pos hskipped, hskip]
        unfold Path.addComponent
        rw [if_pos hskipped]
        exact hgo text
      · rw [if_neg hskipped]
        by_cases hdotdot : component = [dot, dot]
        · unfold Path.addComponent
          rw [if_pos hdotdot, if_neg hskipped, if_pos hdotdot]
          rfl
        · rw [not_or] at hskipped
          rw [if_neg hdotdot, addComponent_eq hsize hskipped.1 hskipped.2
            hdotdot]
          cases Path.addComponent keep outSize text component with
          | none => rfl
          | some text =>
            show advance _ _ _ _ >>= _ = _
            rw [hskip]
            exact hgo text
    · rw [List.drop_eq_nil_of_le (Nat.not_lt.mp hend)] at h
      rw [if_neg hend, ← h, fold_nil]
      rfl

theorem addComponent_length {o : List UInt8}
    (h : Path.addComponent keep outSize text component = some o)
    (hroom : text.length < outSize) : o.length < outSize := by
  unfold Path.addComponent at h
  split at h
  · obtain rfl := Option.some.inj h
    exact hroom
  split at h
  · cases h
  dsimp only at h
  split at h
  · cases h
  generalize (keep && decide (1 < text.length)
    || !keep && decide (text.length ≠ 0)) = sep at h
  have hfits : ∀ t : List UInt8, (if outSize ≤ t.length + component.length
      then none else some (t ++ component)) = some o → o.length < outSize := by
    intro t ht
    split at ht
    · cases ht
    · next hsmall =>
      obtain rfl := Option.some.inj ht
      rw [List.length_append]
      exact Nat.not_le.mp hsmall
  exact hfits _ h

theorem foldlM_length {ps : List (List UInt8)} {o : List UInt8}
    (h : ps.foldlM (Path.addComponent keep outSize) text = some o)
    (hroom : text.length < outSize) : o.length < outSize := by
  induction ps generalizing text with
  | nil =>
    obtain rfl := Option.some.inj h
    exact hroom
  | cons c ps ih =>
    rw [List.foldlM_cons] at h
    obtain ⟨text1, hadd, hrest⟩ := Option.bind_eq_some_iff.mp h
    exact ih hrest (addComponent_length hadd hroom)

theorem scan_eq {outSize : Nat} (hpath : 0 ∉ path)
    (hsize : outSize ≤ out.length) (hroom : text.length < outSize) :
    (do
      let inPos ← advance (· == slash) path (path.length + 1) 0
      match ← components path keep outSize (path.length + 1) inPos
        (.of out text) with
      | none => return none
      | some w =>
        if w.outPos ≥ outSize then return none
        else return some (← putAt w.out w.outPos [0]) : Checked _)
      = .ok ((fold keep outSize path text).map fun text =>
          overwrite out 0 (text ++ [0])) := by
  have hdrop : path.drop 0 = path := rfl
  have hslashes : (path.takeWhile (· == slash)).length ≤ path.length :=
    (List.takeWhile_sublist _).length_le
  have hrest : (path.dropWhile (· == slash)).length ≤ path.length :=
    (List.dropWhile_sublist _).length_le
  rw [advance_eq (p := (· == slash)) hdrop (Nat.zero_le _)
    (Nat.lt_succ_self _)]
  show components path keep outSize (path.length + 1) _ (.of out text) >>= _ = _
  rw [components_eq hpath hsize (drop_takeWhile (p := (· == slash)) hdrop)
    (by omega) (by omega), fold_slashes]
  cases hfold : fold keep outSize path text with
  | none => rfl
  | some t =>
    have hlen := foldlM_length hfold hroom
    show (if t.length ≥ outSize then _ else _) = _
    rw [if_neg (Nat.not_le.mpr hlen)]
    show putAt (overwrite out 0 t) t.length [0] >>= _ = _
    rw [putAt_eq, overwrite_append]
    · rfl
    · rw [length_overwrite (by omega), List.length_singleton]
      omega

theorem normalizeImpl_eq (hpath : 0 ∉ path) (absolute : Bool) (out : Out)
    (keep : Bool) (hkeep : keep = true → absolute = true) :
    normalizeImpl path absolute out keep
      = .ok ((Path.normalizeImpl path absolute out.size.toNat keep).map
          fun text => overwrite out.bytes 0 (text ++ [0])) := by
  have hsize := out.size_eq
  unfold normalizeImpl Path.normalizeImpl
  by_cases hnone : out.size.toNat = 0
  · rw [if_pos hnone, if_pos hnone]
    rfl
  rw [if_neg hnone, if_neg hnone]
  by_cases habs : (absolute && (decide (path.head? ≠ some slash)
      || decide (out.size.toNat < 2))) = true
  · rw [if_pos habs, if_pos habs]
    rfl
  rw [if_neg habs, if_neg habs]
  by_cases hrel : (!absolute && decide (path.head? = some slash)) = true
  · rw [if_pos hrel, if_pos hrel]
    rfl
  rw [if_neg hrel, if_neg hrel]
  cases keep with
  | false =>
    have hnil : Written.of out.bytes [] = ⟨out.bytes, 0⟩ := rfl
    have hscan := @scan_eq out.bytes [] path false _ hpath
      (Nat.le_of_eq hsize.symm) (by rw [List.length_nil]; omega)
    rw [hnil] at hscan
    exact hscan
  | true =>
    have htwo : 2 ≤ out.size.toNat := by
      by_contra hn
      apply habs
      rw [hkeep rfl, Bool.true_and, decide_eq_true (Nat.not_le.mp hn),
        Bool.or_true]
    have hput := @Written.put_of out.bytes [] [slash]
      (by rw [List.length_nil, List.length_singleton]; omega)
    have hscan := @scan_eq out.bytes [slash] path true _ hpath
      (Nat.le_of_eq hsize.symm) (by rw [List.length_singleton]; omega)
    show Written.put (Written.of out.bytes []) [slash] >>= _ = _
    rw [hput]
    exact hscan

end Clks.Path.Scan
