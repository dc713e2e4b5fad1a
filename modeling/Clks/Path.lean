/-
Path texts (rust/src/path.rs): normalisation and the rules that the
policies match paths against.

A path is the bytes of a C string, without the terminating zero. The
scanner of `normalize_impl` skips slashes and cuts out the components
between them; here the text is cut at every slash at once, and the empty
pieces are the skipped ones. The output position is the length of what
has been written.
-/
import Mathlib

namespace Clks

-- ==== characters

/-- The byte of an ASCII character. -/
abbrev chr (c : Char) : UInt8 := UInt8.ofNat c.toNat

/-- The bytes of an ASCII literal. -/
def txt (s : String) : List UInt8 := s.toList.map chr

/-- `'/'`. -/
abbrev slash : UInt8 := 0x2F

/-- `'.'`. -/
abbrev dot : UInt8 := 0x2E

/-- `' '`. -/
abbrev space : UInt8 := 0x20

namespace Path

-- ==== normalisation

/-- One component of `normalize_impl`: skipped, refused, or appended with a
separator if something is there already. -/
def addComponent (keepRootSlash : Bool) (outSize : Nat)
    (out component : List UInt8) : Option (List UInt8) :=
  if component = [] ∨ component = [dot] then
    some out
  else if component = [dot, dot] then
    none
  else
    let sep := (keepRootSlash && 1 < out.length)
      || (!keepRootSlash && out.length ≠ 0)
    if sep && outSize ≤ out.length + 1 then
      none
    else
      let out := if sep then out ++ [slash] else out
      if outSize ≤ out.length + component.length then
        none
      else
        some (out ++ component)

/-- `normalize_impl`. -/
def normalizeImpl (path : List UInt8) (absolute : Bool) (outSize : Nat)
    (keepRootSlash : Bool) : Option (List UInt8) :=
  if outSize = 0 then
    none
  else if absolute && (path.head? ≠ some slash || outSize < 2) then
    none
  else if !absolute && path.head? = some slash then
    none
  else
    (path.splitOn slash).foldlM (addComponent keepRootSlash outSize)
      (if keepRootSlash then [slash] else [])

/-- `clks_rust_path_normalize_absolute`. -/
def normalizeAbsolute (path : List UInt8) (outSize : Nat) :
    Option (List UInt8) :=
  normalizeImpl path true outSize true

/-- `clks_rust_path_normalize_relative`. -/
def normalizeRelative (path : List UInt8) (outSize : Nat) :
    Option (List UInt8) :=
  normalizeImpl path false outSize false

/-- `clks_rust_path_normalize_external_internal`. -/
def normalizeExternalInternal (path : List UInt8) (outSize : Nat) :
    Option (List UInt8) :=
  normalizeImpl path true outSize false

-- ==== rules

/-- `path_starts_with`. -/
def startsWith (path pfx : List UInt8) : Bool := pfx.isPrefixOf path

/-- `path_at_or_under`. -/
def atOrUnder (path pfx : List UInt8) : Bool :=
  startsWith path pfx &&
    (path.length = pfx.length || path[pfx.length]? = some slash)

/-- `path_has_suffix`. -/
def hasSuffix (path sfx : List UInt8) : Bool := sfx.isSuffixOf path

/-- `path_is_user_program_bytes`. -/
def isUserProgram (path : List UInt8) : Bool :=
  if path.head? ≠ some slash then
    false
  else if atOrUnder path (txt "/system")
      || atOrUnder path (txt "/system/drivers") then
    false
  else
    startsWith path (txt "/shell/") || hasSuffix path (txt ".elf")

/-- `USER_DB_PATH`. -/
def userDbPath : List UInt8 := txt "/system/databases/users.db"

/-- The flags of `clks_rust_path_policy_flags`. -/
structure PolicyFlags where
  userDb : Bool
  temp : Bool
  home : Bool
  homeRoot : Bool
  underHomeRoot : Bool
  system : Bool
  systemDrivers : Bool
  userProgram : Bool
  deriving DecidableEq, Repr

/-- `clks_rust_path_policy_flags`. -/
def policyFlags (path home : List UInt8) : PolicyFlags where
  userDb := path = userDbPath
  temp := atOrUnder path (txt "/temp")
  homeRoot := path = txt "/home"
  underHomeRoot := atOrUnder path (txt "/home")
  system := atOrUnder path (txt "/system")
  systemDrivers := atOrUnder path (txt "/system/drivers")
  userProgram := isUserProgram path
  home := home ≠ [] && atOrUnder path home

end Path

end Clks
