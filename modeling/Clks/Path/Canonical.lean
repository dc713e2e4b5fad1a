/-
What the three normalizers leave in the buffer (rust/src/path.rs).

`normalize_canonical`: a call succeeds exactly if the path is of the right
kind, has no component `..` and its normal form fits with a terminator,
and the normal form is what the buffer then holds. It has no empty
component and no dot, and normalizing it again changes nothing. The form
for the outside of the file system is the one for the inside behind a
slash.
-/
import Clks.Path.Scan

namespace Clks.Path.Scan

open Reads

/-- The normalizers. -/
inductive Kind
  | absolute
  | relative
  | internal
  deriving DecidableEq

/-- The one that is called. -/
def Kind.normalize : Kind → CString → Out → Checked (Option (List UInt8))
  | .absolute => normalizeAbsolute
  | .relative => normalizeRelative
  | .internal => normalizeExternalInternal

/-- The paths it is for. -/
def Kind.Accepts (kind : Kind) (path : List UInt8) : Prop :=
  match kind with
  | .absolute => path.head? = some slash
  | .relative => path.head? ≠ some slash
  | .internal => path.head? = some slash

instance (kind : Kind) (path : List UInt8) : Decidable (kind.Accepts path) :=
  match kind with
  | .absolute => inferInstanceAs (Decidable (_ = _))
  | .relative => inferInstanceAs (Decidable (_ ≠ _))
  | .internal => inferInstanceAs (Decidable (_ = _))

/-- The normal form: the components, with a slash between them. -/
def Kind.normalForm (kind : Kind) (path : List UInt8) : List UInt8 :=
  match kind with
  | .absolute => slash :: join (Path.components path)
  | .relative => join (Path.components path)
  | .internal => join (Path.components path)

/-- The normalizer that the output of this one is for. -/
def Kind.again : Kind → Kind
  | .absolute => .absolute
  | .relative => .relative
  | .internal => .relative

/-- The size below which it fails, whatever the path is. -/
def Kind.leastSize : Kind → Nat
  | .absolute => 2
  | .relative => 1
  | .internal => 2

/-- A text in a buffer, with its terminator. -/
def Out.holding (out : Out) (text : List UInt8) : List UInt8 :=
  overwrite out.bytes 0 (text ++ [0])

variable {kind : Kind} {path : CString} {out : Out}

/-- What a call can succeed with. -/
def Kind.Succeeds (kind : Kind) (path : List UInt8) (size : Nat) : Prop :=
  kind.Accepts path ∧ [dot, dot] ∉ path.splitOn slash ∧
    (kind.normalForm path).length < size ∧ kind.leastSize ≤ size

instance (kind : Kind) (path : List UInt8) (size : Nat) :
    Decidable (kind.Succeeds path size) :=
  inferInstanceAs (Decidable (_ ∧ _))

/-- Does it take absolute paths? -/
def Kind.takesAbsolute (kind : Kind) : Bool := kind ≠ .relative

/-- Does the output start with a slash? -/
def Kind.keepsSlash (kind : Kind) : Bool := kind = .absolute

theorem text_eq (kind : Kind) (path : List UInt8) (n : Nat) :
    Path.normalizeImpl path kind.takesAbsolute n kind.keepsSlash
      = if kind.Succeeds path n then some (kind.normalForm path) else none := by
  by_cases hleast : kind.leastSize ≤ n
  · have hiff : kind.Succeeds path n ↔ kind.Accepts path ∧
        [dot, dot] ∉ path.splitOn slash ∧
          (kind.normalForm path).length < n := by
      unfold Kind.Succeeds
      rw [← and_assoc, ← and_assoc, and_iff_left hleast, and_assoc]
    rw [if_congr hiff rfl rfl]
    cases kind with
    | absolute => exact normalizeAbsolute_eq hleast
    | relative => exact normalizeRelative_eq hleast
    | internal => exact normalizeExternalInternal_eq hleast
  · rw [if_neg fun h => hleast h.2.2.2]
    unfold Path.normalizeImpl
    by_cases hzero : n = 0
    · rw [if_pos hzero]
    rw [if_neg hzero]
    cases kind with
    | relative => exact absurd (Nat.pos_iff_ne_zero.mpr hzero) hleast
    | absolute =>
      have hsmall : n < 2 := Nat.not_le.mp hleast
      rw [if_pos]
      rw [decide_eq_true hsmall, Bool.or_true]
      rfl
    | internal =>
      have hsmall : n < 2 := Nat.not_le.mp hleast
      rw [if_pos]
      rw [decide_eq_true hsmall, Bool.or_true]
      rfl

theorem normalize_eq (kind : Kind) (path : CString) (out : Out) :
    kind.normalize path out
      = .ok (if kind.Succeeds path.val out.size.toNat then
          some (out.holding (kind.normalForm path.val)) else none) := by
  have himpl : kind.normalize path out
      = normalizeImpl path.val kind.takesAbsolute out kind.keepsSlash := by
    cases kind <;> rfl
  have hkeep : kind.keepsSlash = true → kind.takesAbsolute = true := by
    cases kind <;> decide
  rw [himpl, normalizeImpl_eq path.property _ _ _ hkeep, text_eq]
  split_ifs <;> rfl

-- ==== the form

variable {cs : List (List UInt8)} {p : List UInt8}

theorem getLast?_join (h : ∀ c ∈ cs, Component c) :
    (join cs).getLast? ≠ some slash := by
  induction cs using List.reverseRecOn with
  | nil => decide
  | append_singleton cs c _ =>
    have hc := h c (List.mem_append_right _ (List.mem_singleton_self c))
    have hlast : (join (cs ++ [c])).getLast? = c.getLast? := by
      by_cases hcs : cs = []
      · rw [hcs, List.nil_append, join_singleton]
      · rw [join_snoc hcs, List.getLast?_append_of_ne_nil _ (List.cons_ne_nil _ _),
          List.getLast?_cons_of_ne_nil hc.ne_nil]
    rw [hlast]
    intro hslash
    exact hc.no_slash (List.mem_of_getLast? hslash)

theorem components_normalForm (hdd : [dot, dot] ∉ p.splitOn slash) :
    Path.components (kind.normalForm p) = Path.components p := by
  have hcs : ∀ c ∈ Path.components p, Component c :=
    fun c hc => component_of_components hdd hc
  cases kind with
  | absolute => exact components_slash_join hcs
  | relative => exact components_join hcs
  | internal => exact components_join hcs

theorem again_normalForm (hdd : [dot, dot] ∉ p.splitOn slash) :
    kind.again.normalForm (kind.normalForm p) = kind.normalForm p := by
  have h := @components_normalForm kind p hdd
  cases kind with
  | absolute => exact congrArg (fun cs => slash :: join cs) h
  | relative => exact congrArg join h
  | internal => exact congrArg join h

theorem mem_splitOn_join (h : ∀ c ∈ cs, Component c) {c : List UInt8}
    (hc : c ∈ (join cs).splitOn slash) : join cs = [] ∨ Component c := by
  by_cases hcs : cs = []
  · subst hcs
    exact .inl rfl
  · rw [splitOn_join hcs fun c hc => (h c hc).no_slash] at hc
    exact .inr (h c hc)

theorem head?_join (h : ∀ c ∈ cs, Component c) :
    (join cs).head? ≠ some slash := by
  cases cs with
  | nil => decide
  | cons c cs =>
    have hc := h c List.mem_cons_self
    have hhead : (join (c :: cs)).head? = c.head? := by
      by_cases hcs : cs = []
      · rw [hcs, join_singleton]
      · rw [join_cons hcs, List.head?_append_of_ne_nil _ hc.ne_nil]
    rw [hhead]
    intro hslash
    exact hc.no_slash (List.mem_of_head? hslash)

theorem dotdot_notMem_join (h : ∀ c ∈ cs, Component c) :
    [dot, dot] ∉ (join cs).splitOn slash := by
  intro hin
  rcases mem_splitOn_join h hin with hnil | hc
  · rw [hnil] at hin
    revert hin
    decide
  · exact hc.ne_dotdot rfl

theorem again_succeeds {n : Nat} (h : kind.Succeeds p n) :
    kind.again.Succeeds (kind.normalForm p) n := by
  obtain ⟨-, hdd, hlen, hleast⟩ := h
  have hcs : ∀ c ∈ Path.components p, Component c :=
    fun c hc => component_of_components hdd hc
  have hform := @again_normalForm kind p hdd
  have hsize : kind.again.leastSize ≤ n := by
    cases kind with
    | absolute => exact hleast
    | relative => exact hleast
    | internal => exact Nat.le_of_succ_le hleast
  refine ⟨?_, ?_, by rw [hform]; exact hlen, hsize⟩
  · cases kind with
    | absolute => exact rfl
    | relative => exact head?_join hcs
    | internal => exact head?_join hcs
  · cases kind with
    | relative => exact dotdot_notMem_join hcs
    | internal => exact dotdot_notMem_join hcs
    | absolute =>
      show [dot, dot] ∉ (slash :: join (Path.components p)).splitOn slash
      rw [List.splitOn_cons_eq_if_modifyHead, if_pos (beq_self_eq_true _),
        List.mem_cons, not_or]
      exact ⟨by decide, dotdot_notMem_join hcs⟩

theorem zero_notMem_normalForm (path : CString) :
    0 ∉ kind.normalForm path.val := by
  have hjoin : 0 ∉ join (Path.components path.val) := by
    intro hin
    rcases mem_of_mem_components hin with hslash | hin
    · revert hslash
      decide
    · exact path.property hin
  cases kind with
  | absolute =>
    show 0 ∉ slash :: join (Path.components path.val)
    rw [List.mem_cons, not_or]
    exact ⟨by decide, hjoin⟩
  | relative => exact hjoin
  | internal => exact hjoin

/-- The part of an output that its components are in. -/
def Kind.inner (kind : Kind) (text : List UInt8) : List UInt8 :=
  if kind.keepsSlash then text.tail else text

/-- When a normalizer succeeds, and what it leaves behind then. -/
theorem normalize_canonical (kind : Kind) (path : CString) (out : Out) :
    ∃ result, kind.normalize path out = .ok result ∧
      (result.isSome = true ↔
        kind.Accepts path.val ∧ [dot, dot] ∉ path.val.splitOn slash ∧
          (kind.normalForm path.val).length < out.size.toNat ∧
          kind.leastSize ≤ out.size.toNat) ∧
      ∀ buffer, result = some buffer →
        ∃ text : CString, text.val = kind.normalForm path.val ∧
          buffer = out.holding text.val ∧
          (kind.inner text.val ≠ [] →
            ∀ c ∈ (kind.inner text.val).splitOn slash, c ≠ [] ∧ c ≠ [dot]) ∧
          (text.val ≠ [slash] → text.val.getLast? ≠ some slash) ∧
          kind.again.normalize text out = .ok (some buffer) ∧
          (kind = .absolute → ∃ inner : List UInt8,
            Kind.internal.normalize path out
              = .ok (some (out.holding inner)) ∧ text.val = slash :: inner) := by
  refine ⟨_, normalize_eq kind path out, ?_, ?_⟩
  · show _ ↔ kind.Succeeds path.val out.size.toNat
    split_ifs with h
    · exact ⟨fun _ => h, fun _ => rfl⟩
    · exact ⟨fun hsome => (nomatch hsome), fun hs => absurd hs h⟩
  intro buffer hbuffer
  split_ifs at hbuffer with h
  obtain rfl := Option.some.inj hbuffer
  have hdd := h.2.1
  have hcs : ∀ c ∈ Path.components path.val, Component c :=
    fun c hc => component_of_components hdd hc
  have hinner : kind.inner (kind.normalForm path.val)
      = join (Path.components path.val) := by
    cases kind <;> rfl
  refine ⟨⟨kind.normalForm path.val, zero_notMem_normalForm path⟩, rfl, rfl,
    ?_, ?_, ?_, ?_⟩
  · intro hne c hc
    rw [hinner] at hne hc
    rcases mem_splitOn_join hcs hc with hnil | hcomponent
    · exact absurd hnil hne
    · exact ⟨hcomponent.ne_nil, hcomponent.ne_dot⟩
  · intro hroot
    cases kind with
    | relative => exact getLast?_join hcs
    | internal => exact getLast?_join hcs
    | absolute =>
      have hne : join (Path.components path.val) ≠ [] :=
        fun hnil => hroot (congrArg (slash :: ·) hnil)
      show (slash :: join (Path.components path.val)).getLast? ≠ _
      rw [List.getLast?_cons_of_ne_nil hne]
      exact getLast?_join hcs
  · rw [normalize_eq, if_pos (again_succeeds h), again_normalForm hdd]
  · rintro rfl
    refine ⟨join (Path.components path.val), ?_, rfl⟩
    have hroom : (join (Path.components path.val)).length
        < out.size.toNat := Nat.lt_of_succ_lt h.2.2.1
    rw [normalize_eq, if_pos ⟨h.1, hdd, hroom, h.2.2.2⟩]
    rfl

/-- The root is not turned into the empty path where there is room for its
terminator only, and as an absolute path it ends in a slash. -/
theorem root_outside :
    let root : CString := ⟨[slash], by decide⟩
    (Kind.internal.Accepts root.val ∧ [dot, dot] ∉ root.val.splitOn slash ∧
      (Kind.internal.normalForm root.val).length < 1 ∧
      Kind.internal.normalize root ⟨[0], 1, rfl⟩ = .ok none) ∧
    Kind.absolute.normalize root ⟨[0, 0], 2, rfl⟩ = .ok (some [slash, 0]) := by
  decide

end Clks.Path.Scan
