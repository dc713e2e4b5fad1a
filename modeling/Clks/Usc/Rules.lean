/-
The permanent rules of the system call guard (rust/src/syscall/usc.rs):
the table of the applications that are allowed for good, and the rule file
on the mounted disk that it is read from and that it is written to.

The path of an application is the C string in a buffer of
`EXEC_PROC_PATH_MAX` bytes. The used slots of a table are its first ones,
since slots are taken in order and given back all at once, so a table is
the list of the paths in them. The mounted disk stays the same, reading
the rule file gives its content, and a missing file is an empty one.
-/
import Clks.Path

namespace Clks.Usc

-- ==== constants

/-- `EXEC_PROC_PATH_MAX`. -/
abbrev pathMax : Nat := 192

/-- `USC_MAX_ALLOWED_APPS`. -/
abbrev maxAllowedApps : Nat := 64

/-- `USC_PERM_RULE_FILE`. -/
def permRuleFile : List UInt8 := txt ".usc_permanent_allowlist"

/-- `b'\n'`. -/
abbrev newline : UInt8 := 0x0A

-- ==== paths

/-- A path in its buffer. -/
structure AppPath where
  bytes : List UInt8
  short : bytes.length < pathMax
  terminated : 0 ∉ bytes
  deriving DecidableEq

@[ext] theorem AppPath.ext {p q : AppPath} (h : p.bytes = q.bytes) :
    p = q := by
  cases p
  cases q
  cases h
  rfl

/-- The C string at the start of a buffer that holds `line`. -/
def cstr (line : List UInt8) : List UInt8 := line.takeWhile (· ≠ 0)

theorem zero_notMem_cstr (line : List UInt8) : 0 ∉ cstr line := by
  intro h
  have := List.mem_takeWhile_imp h
  simp at this

theorem length_cstr_le (line : List UInt8) :
    (cstr line).length ≤ line.length :=
  (List.takeWhile_prefix _).length_le

/-- A line that is copied to a buffer. -/
def inBuffer (line : List UInt8) (h : line.length < pathMax) : AppPath :=
  ⟨cstr line, lt_of_le_of_lt (length_cstr_le line) h, zero_notMem_cstr line⟩

-- ==== tables

/-- The slots in use of a table of allowed applications. -/
structure Table where
  apps : List AppPath
  fits : apps.length ≤ maxAllowedApps
  nodup : apps.Nodup

/-- The table without an application. -/
def Table.empty : Table := ⟨[], Nat.zero_le _, List.nodup_nil⟩

/-- `find_in_table`. -/
def Table.find (t : Table) (p : AppPath) : Bool :=
  p.bytes ≠ [] && t.apps.contains p

/-- `add_to_table`. -/
def Table.add (t : Table) (p : AppPath) : Bool × Table :=
  if p.bytes = [] then (false, t)
  else if hfind : p ∈ t.apps then (true, t)
  else if hroom : t.apps.length < maxAllowedApps then
    (true,
      { apps := t.apps ++ [p]
        fits := by
          rw [List.length_append, List.length_singleton]
          exact hroom
        nodup := by
          rw [← List.concat_eq_append]
          exact t.nodup.concat hfind })
  else (false, t)

-- ==== the rule file

/-- The disk: `clks_disk_mount_path`, if it is mounted, and the content
of the rule file. -/
structure Volume where
  mount : Option (List UInt8)
  ruleFile : List UInt8

/-- `build_perm_rule_path`. -/
def buildPermRulePath (v : Volume) : Option (List UInt8) :=
  match v.mount with
  | none => none
  | some mount =>
    if mount = [] then none
    else if pathMax ≤ mount.length then none
    else if mount.getLast? ≠ some slash ∧ pathMax ≤ mount.length + 1 then none
    else
      let out := if mount.getLast? ≠ some slash then mount ++ [slash] else mount
      if pathMax < out.length + permRuleFile.length + 1 then none
      else some (out ++ permRuleFile)

/-- How `clks_disk_append` ends, and the content that it leaves if it
fails. -/
structure Append where
  done : Bool
  left : List UInt8

/-- `clks_disk_append` to the rule file. -/
def diskAppend (a : Append) (data : List UInt8) (v : Volume) :
    Bool × Volume :=
  if a.done then (true, { v with ruleFile := v.ruleFile ++ data })
  else (false, { v with ruleFile := a.left })

/-- `append_permanent_rule`. -/
def appendPermanentRule (a : Append) (p : AppPath) (v : Volume) :
    Bool × Volume :=
  if p.bytes = [] then (false, v)
  else
    match buildPermRulePath v with
    | none => (false, v)
    | some _ => diskAppend a (p.bytes ++ [newline]) v

/-- The blanks that are cut off at the end of a line. -/
def isBlank (c : UInt8) : Bool :=
  c = 0x0D || c = newline || c = space || c = 0x09

/-- A line of the rule file is read. -/
def addLine (t : Table) (piece : List UInt8) : Table :=
  let line := piece.rdropWhile isBlank
  if h : line = [] ∨ pathMax ≤ line.length then t
  else if line.head? = some (chr '#') ∨ line.head? = some (chr ';') then t
  else (t.add (inBuffer line (by omega))).2

/-- The loop of `load_permanent_rules_if_needed`. -/
def readRules (t : Table) (data : List UInt8) : Table :=
  (data.splitOn newline).foldl addLine t

-- ==== the rules

/-- The permanent rules, in memory and on the disk. -/
structure Rules where
  loaded : Bool
  permanent : Table
  volume : Volume

/-- The tables as `clks_syscall_init` clears them. -/
def Rules.clear (s : Rules) : Rules :=
  { s with loaded := false, permanent := Table.empty }

/-- `load_permanent_rules_if_needed`. -/
def Rules.load (s : Rules) : Rules :=
  if s.loaded then s
  else
    match buildPermRulePath s.volume with
    | none => s
    | some _ =>
      { s with
        loaded := true
        permanent := readRules s.permanent s.volume.ruleFile }

/-- `remember_permanent_path`. -/
def Rules.remember (a : Append) (p : AppPath) (s : Rules) : Bool × Rules :=
  if p.bytes = [] then (false, s)
  else
    let s := s.load
    if s.permanent.find p then (true, s)
    else
      match appendPermanentRule a p s.volume with
      | (false, volume) => (false, { s with volume })
      | (true, volume) =>
        let (added, permanent) := s.permanent.add p
        (added, { s with permanent, volume })

/-- Decisions that are remembered, one after the other. -/
def Rules.rememberAll : List (Append × AppPath) → Rules → Option Rules
  | [], s => some s
  | (a, p) :: ds, s =>
    match s.remember a p with
    | (true, s) => s.rememberAll ds
    | (false, _) => none

/-- The guard with the rules of a disk. -/
def Rules.opened (v : Volume) : Rules :=
  Rules.load ⟨false, Table.empty, v⟩

/-- The tables are cleared, and the rule file is read again. -/
def Rules.reload (s : Rules) : Rules := s.clear.load

end Clks.Usc
