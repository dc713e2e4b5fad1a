/-
Which paths a user may read and write (runtime/user.c).

Both policies go by the flags that rust/src/path.rs has for the normal form of
a path. `pathAllowed_exact` says what they come to in terms of its components:
how a path is spelled makes no difference, and a directory is not taken for
another one whose name it begins with.
-/
import Clks.Path.Canonical
import Clks.User.Identity

namespace Clks

namespace Path

variable {path pfx : List UInt8} {cs hs : List (List UInt8)}

-- ==== at or under

theorem join_append (hcs : cs ≠ []) (hhs : hs ≠ []) :
    join (hs ++ cs) = join hs ++ slash :: join cs := by
  induction hs with
  | nil => exact absurd rfl hhs
  | cons h hs ih =>
    rw [List.cons_append, join_cons (List.append_ne_nil_of_right_ne_nil _ hcs)]
    by_cases hnil : hs = []
    · rw [hnil, List.nil_append, join_singleton]
    · rw [ih hnil, join_cons hnil, List.append_assoc, List.cons_append]

theorem atOrUnder_iff :
    atOrUnder path pfx = true ↔ path = pfx ∨ pfx ++ [slash] <+: path := by
  unfold atOrUnder startsWith
  rw [Bool.and_eq_true, List.isPrefixOf_iff_prefix, Bool.or_eq_true,
    decide_eq_true_iff, decide_eq_true_iff]
  constructor
  · rintro ⟨⟨rest, rfl⟩, hend⟩
    cases rest with
    | nil => exact .inl (List.append_nil _)
    | cons c rest =>
      right
      rcases hend with hlen | hslash
      · rw [List.length_append, List.length_cons] at hlen
        omega
      · rw [List.getElem?_append_right (Nat.le_refl _), Nat.sub_self] at hslash
        cases hslash
        exact ⟨rest, List.append_assoc ..⟩
  · rintro (rfl | ⟨rest, rfl⟩)
    · exact ⟨List.prefix_refl _, .inl rfl⟩
    · rw [List.append_assoc]
      refine ⟨List.prefix_append _ _, .inr ?_⟩
      rw [List.getElem?_append_right (Nat.le_refl _), Nat.sub_self]
      rfl

theorem atOrUnder_join (hcs : ∀ c ∈ cs, Component c)
    (hhs : ∀ c ∈ hs, Component c) (hne : hs ≠ []) :
    atOrUnder (slash :: join cs) (slash :: join hs) = true ↔ hs <+: cs := by
  rw [atOrUnder_iff]
  constructor
  · rintro (heq | ⟨rest, hrest⟩)
    · have hsame := congrArg components heq
      rw [components_slash_join hcs, components_slash_join hhs] at hsame
      exact hsame ▸ List.prefix_refl _
    · rw [List.append_assoc] at hrest
      have hcut : join hs ++ slash :: rest = join cs :=
        List.tail_eq_of_cons_eq hrest
      have hsplit := components_join hcs
      rw [components, ← hcut, List.splitOn_append_cons_self, kept,
        List.filter_append] at hsplit
      have hfirst := components_join hhs
      rw [components, kept] at hfirst
      rw [hfirst] at hsplit
      exact ⟨_, hsplit⟩
  · rintro ⟨ts, rfl⟩
    by_cases hts : ts = []
    · rw [hts, List.append_nil]
      exact .inl rfl
    · rw [join_append hts hne]
      exact .inr ⟨join ts, by rw [List.append_assoc]; rfl⟩

theorem slash_join_inj (hcs : ∀ c ∈ cs, Component c)
    (hhs : ∀ c ∈ hs, Component c) :
    slash :: join cs = slash :: join hs ↔ cs = hs := by
  refine ⟨fun heq => ?_, fun heq => heq ▸ rfl⟩
  have hsame := congrArg components heq
  rwa [components_slash_join hcs, components_slash_join hhs] at hsame

instance (c : List UInt8) : Decidable (Component c) :=
  decidable_of_iff (c ≠ [] ∧ slash ∉ c ∧ c ≠ [dot] ∧ c ≠ [dot, dot])
    ⟨fun ⟨h₁, h₂, h₃, h₄⟩ => ⟨h₁, h₂, h₃, h₄⟩,
      fun h => ⟨h.ne_nil, h.no_slash, h.ne_dot, h.ne_dotdot⟩⟩

end Path

namespace User

open Clks.Path

-- ==== the policies

/-- `CLKS_USER_UID_ROOT`. -/
abbrev uidRoot : UInt64 := 0

/-- What both policies ask before they look at the flags of a path; `policy`:
the configuration has users and this policy. -/
def pathAllowed (rule : PolicyFlags → Bool) (policy loginRequired : Bool)
    (info : PublicInfo) (path : List UInt8) : Bool :=
  if path.head? ≠ some slash then false
  else
    match normalizeAbsolute path (homeMax * 2) with
    | none => false
    | some normalized =>
      if !policy || !loginRequired then true
      else if !info.loggedIn then false
      else if info.role = .admin || info.uid = uidRoot then true
      else rule (policyFlags normalized info.home)

/-- What `clks_user_path_read_allowed` makes of the flags. -/
def readRule (flags : PolicyFlags) : Bool :=
  if flags.userDb then false
  else if flags.temp then true
  else if flags.home then true
  else if flags.underHomeRoot then flags.homeRoot
  else true

/-- `clks_user_path_read_allowed`, for what `clks_user_current_info` says. -/
def pathReadAllowed : Bool → Bool → PublicInfo → List UInt8 → Bool :=
  pathAllowed readRule

/-- `clks_user_path_write_allowed`. -/
def pathWriteAllowed : Bool → Bool → PublicInfo → List UInt8 → Bool :=
  pathAllowed fun flags => flags.temp || flags.home

/-- The components of `USER_DB_PATH`. -/
def usersDb : List (List UInt8) :=
  [txt "system", txt "databases", txt "users.db"]

section policies

variable {rule : PolicyFlags → Bool} {policy loginRequired : Bool}
  {info : PublicInfo} {path : List UInt8} {hs : List (List UInt8)}

theorem pathAllowed_iff :
    pathAllowed rule policy loginRequired info path = true ↔
      Scan.Kind.absolute.Succeeds path (homeMax * 2) ∧
        (policy = true → loginRequired = true → info.loggedIn = true ∧
          (info.role = .admin ∨ info.uid = uidRoot ∨
            rule (policyFlags (slash :: join (components path)) info.home)
              = true)) := by
  have hnormal := Scan.text_eq .absolute path (homeMax * 2)
  unfold pathAllowed
  rw [show normalizeAbsolute path (homeMax * 2) = _ from hnormal]
  by_cases hs : Scan.Kind.absolute.Succeeds path (homeMax * 2)
  · have hhead : path.head? = some slash := hs.1
    rw [if_pos hs, if_neg (not_not.mpr hhead), and_iff_right hs]
    show (if _ then _ else _) = true ↔ _
    cases policy <;> cases loginRequired <;> cases info.loggedIn <;>
      by_cases hadmin : info.role = .admin <;>
      by_cases hroot : info.uid = uidRoot <;> simp [hadmin, hroot]
    rfl
  · rw [if_neg hs]
    simp [hs]

theorem readRule_iff (flags : PolicyFlags) : readRule flags = true ↔
    flags.userDb = false ∧ (flags.temp = true ∨ flags.home = true ∨
      (flags.underHomeRoot = true → flags.homeRoot = true)) := by
  unfold readRule
  cases flags.userDb <;> cases flags.temp <;> cases flags.home <;>
    cases flags.underHomeRoot <;> simp

/-- Where the policies hold a user, all may be read but the database of the
users and the homes of others, and what is below his home or the directory
for temporary files may be written. -/
theorem pathAllowed_exact (hhome : info.home = slash :: join hs)
    (hhs : ∀ c ∈ hs, Component c) (hne : hs ≠ []) :
    (pathReadAllowed policy loginRequired info path = true ↔
      Scan.Kind.absolute.Succeeds path (homeMax * 2) ∧
        (policy = true → loginRequired = true → info.loggedIn = true ∧
          (info.role = .admin ∨ info.uid = uidRoot ∨
            components path ≠ usersDb ∧
              ([txt "temp"] <+: components path ∨ hs <+: components path ∨
                ([txt "home"] <+: components path →
                  components path = [txt "home"]))))) ∧
    (pathWriteAllowed policy loginRequired info path = true ↔
      Scan.Kind.absolute.Succeeds path (homeMax * 2) ∧
        (policy = true → loginRequired = true → info.loggedIn = true ∧
          (info.role = .admin ∨ info.uid = uidRoot ∨
            [txt "temp"] <+: components path ∨ hs <+: components path))) := by
  unfold pathReadAllowed pathWriteAllowed
  rw [pathAllowed_iff, pathAllowed_iff, hhome]
  refine ⟨and_congr_right fun hs' => ?_, and_congr_right fun hs' => ?_⟩
  all_goals
    have hcs : ∀ c ∈ components path, Component c :=
      fun c hc => component_of_components hs'.2.1 hc
    have htemp := @atOrUnder_join _ [txt "temp"] hcs (by decide) (by decide)
    have hunder := @atOrUnder_join _ [txt "home"] hcs (by decide) (by decide)
    have hroot := @slash_join_inj _ [txt "home"] hcs (by decide)
    have hdb := @slash_join_inj _ usersDb hcs (by decide)
    have hown := @atOrUnder_join _ hs hcs hhs hne
    refine forall_congr' fun _ => forall_congr' fun _ =>
      and_congr_right fun _ => or_congr_right (or_congr_right ?_)
  · rw [readRule_iff]
    refine and_congr ?_ (or_congr htemp (or_congr hown (imp_congr hunder ?_)))
    · exact decide_eq_false_iff_not.trans (not_congr hdb)
    · exact decide_eq_true_iff.trans hroot
  · exact (Bool.or_eq_true ..).to_iff.trans (or_congr htemp hown)

/-- A path in the home of a user, and one that only begins like it. -/
theorem pathAllowed_exact_guest :
    let guest : PublicInfo :=
      ⟨7, .user, true, true, txt "guest", txt "/home/guest"⟩
    pathReadAllowed true true guest (txt "/home//guest/./a") = true ∧
      pathWriteAllowed true true guest (txt "/home/guests") = false := by
  intro guest
  have h (path : List UInt8) := @pathAllowed_exact true true guest path
    [txt "home", txt "guest"] rfl (by decide) (by decide)
  exact ⟨(h _).1.mpr (by decide +kernel),
    Bool.eq_false_iff.mpr (mt (h _).2.mp (by decide +kernel))⟩

end policies

end User

end Clks
