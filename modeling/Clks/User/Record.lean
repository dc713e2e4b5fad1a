/-
The records of the user database (user.c): a line of text for each user,
with its fields between colons.

A C string is the list of its bytes, without the terminating zero; a
buffer of `size` bytes holds `size - 1` of them, and what does not fit is
left out without an error (`copy`, `append`).
-/
import Clks.Path
import Clks.User.Hash

namespace Clks.User

-- ==== constants

/-- `CLKS_USER_NAME_MAX`. -/
abbrev nameMax : Nat := 32

/-- `CLKS_USER_HOME_MAX`. -/
abbrev homeMax : Nat := 96

/-- `CLKS_USER_HASH_HEX_LEN`. -/
abbrev hashHexLen : Nat := 64

/-- `CLKS_USER_RECORD_MAX`. -/
abbrev recordMax : Nat := 192

/-- `':'`. -/
abbrev colon : UInt8 := 0x3A

/-- `'\n'`. -/
abbrev newline : UInt8 := 0x0A

-- ==== strings

/-- The C string that begins a buffer. -/
def cstr (buf : List UInt8) : List UInt8 := buf.takeWhile (· ≠ 0)

/-- `clks_user_copy`. -/
def copy (size : Nat) (src : List UInt8) : List UInt8 := src.take (size - 1)

/-- `clks_user_append`. -/
def append (size : Nat) (dst src : List UInt8) : List UInt8 :=
  if size ≤ dst.length then dst.take (size - 1)
  else dst ++ copy (size - dst.length) src

/-- What `clks_user_trim` takes off. -/
def isBlank (c : UInt8) : Bool :=
  c = 0x20 || c = 0x09 || c = 0x0D || c = newline

/-- `clks_user_trim`. -/
def trim (text : List UInt8) : List UInt8 :=
  (text.dropWhile isBlank).rdropWhile isBlank

/-- A character of a name. -/
def isNameChar (c : UInt8) : Bool :=
  chr 'a' ≤ c && c ≤ chr 'z' || chr 'A' ≤ c && c ≤ chr 'Z' ||
    chr '0' ≤ c && c ≤ chr '9' || c = chr '_' || c = chr '-'

/-- `clks_user_name_valid`. -/
def nameValid (name : List UInt8) : Bool :=
  name ≠ [] && name.length < nameMax && name.all isNameChar

-- ==== numbers

/-- The loop of `clks_user_parse_u64_dec`. -/
def parseDecLoop : List UInt8 → Nat → Option Nat
  | [], value => some value
  | c :: text, value =>
    if c < chr '0' ∨ chr '9' < c then none
    else
      let digit := (c - chr '0').toNat
      if (2 ^ 64 - 1 - digit) / 10 < value then none
      else parseDecLoop text (value * 10 + digit)

/-- `clks_user_parse_u64_dec`. -/
def parseU64Dec (text : List UInt8) : Option UInt64 :=
  if text = [] then none else (parseDecLoop text 0).map UInt64.ofNat

/-- The first loop of `clks_user_append_u64_dec`: the digits from the last
one on, in a buffer of 32. -/
def digitLoop : Nat → Nat → List UInt8
  | 0, _ => []
  | room + 1, value =>
    if value = 0 then []
    else UInt8.ofNat (0x30 + value % 10) :: digitLoop room (value / 10)

/-- The digits that `clks_user_append_u64_dec` appends. -/
def decDigits (value : UInt64) : List UInt8 :=
  if value = 0 then txt "0" else (digitLoop 32 value.toNat).reverse

/-- `clks_user_append_u64_dec`: a digit at a time. -/
def appendU64Dec (size : Nat) (out : List UInt8) (value : UInt64) :
    List UInt8 :=
  (decDigits value).foldl (fun out c => append size out [c]) out

/-- `clks_user_uid_for_name`. -/
def uidForName (name : List UInt8) : UInt64 :=
  if name = txt "root" then 0
  else if name = [] then 65534
  else
    let hash := name.foldl
      (fun (hash : UInt64) (c : UInt8) => (hash <<< 5 + hash) ^^^ c.toUInt64)
      5381
    1000 + hash % 60000

-- ==== records

/-- `CLKS_USER_ROLE_USER` and `CLKS_USER_ROLE_ADMIN`. -/
inductive Role
  | user
  | admin
  deriving DecidableEq, Repr

/-- `struct clks_user_record`. -/
structure Record where
  uid : UInt64
  role : Role
  name : List UInt8
  hash : List UInt8
  home : List UInt8
  deriving DecidableEq, Repr

/-- `clks_user_next_field`: a field, and the text behind its colon. -/
def nextField : Option (List UInt8) →
    Option (List UInt8) × Option (List UInt8)
  | none => (none, none)
  | some text =>
    (some (text.takeWhile (· ≠ colon)),
      match text.dropWhile (· ≠ colon) with
      | [] => none
      | _ :: rest => some rest)

/-- The role that a field names. -/
def roleOf (roleText : List UInt8) : Role :=
  if roleText = txt "admin" ∨ roleText = txt "root" then .admin else .user

/-- The number of a user, by the last field if that is there. -/
def uidOf (name : List UInt8) : Option (List UInt8) → Option UInt64
  | none => some (uidForName name)
  | some uidText =>
    if trim uidText = [] then some (uidForName name)
    else parseU64Dec (trim uidText)

/-- `clks_user_parse_record`. -/
def parseRecord (line : List UInt8) : Option Record :=
  let tmp := trim (copy recordMax line)
  if tmp = [] ∨ tmp.head? = some (chr '#') then none
  else
    let (name, cursor) := nextField (some tmp)
    let (roleText, cursor) := nextField cursor
    let (hash, cursor) := nextField cursor
    let (home, uidText) := nextField cursor
    match name, roleText, hash, home with
    | some name, some roleText, some hash, some home =>
      let home := trim home
      if !nameValid name || hash.length ≠ hashHexLen ||
          home.head? ≠ some slash then none
      else
        (uidOf name uidText).map fun uid =>
          { uid
            role := roleOf roleText
            name := copy nameMax name
            hash := copy (hashHexLen + 1) hash
            home := copy homeMax home }
    | _, _, _, _ => none

/-- The word for a role. -/
def roleText : Role → List UInt8
  | .user => txt "user"
  | .admin => txt "admin"

/-- `clks_user_record_line`, into a buffer of `CLKS_USER_RECORD_MAX`. -/
def recordLine (r : Record) : List UInt8 :=
  let out := append recordMax [] r.name
  let out := append recordMax out [colon]
  let out := append recordMax out (roleText r.role)
  let out := append recordMax out [colon]
  let out := append recordMax out r.hash
  let out := append recordMax out [colon]
  let out := append recordMax out r.home
  let out := append recordMax out [colon]
  let out := appendU64Dec recordMax out r.uid
  append recordMax out [newline]

end Clks.User
