/-
The user database (user.c): the text file of the records, read in full by
every call, appended to by `clks_user_create`, and written anew by the
other changes.

A file operation that returns true has done what it is asked for; what one
leaves behind that returns false is not known, and its input
(`Outcome.left`). A missing new password is an empty one. The user system
is configured in.
-/
import Clks.User.Record

namespace Clks.User

-- ==== the file

/-- The size of the buffers `db` and `next_db`. -/
abbrev dbMax : Nat := 4096

/-- What `clks_fs_read_all` gives for `CLKS_USER_DB_PATH`. -/
structure Storage where
  db : Option (List UInt8)
  deriving DecidableEq

/-- How a file operation ends, and what it leaves if it fails. -/
structure Outcome where
  done : Bool
  left : Option (List UInt8)

/-- `clks_fs_write_all` of the database. -/
def fsWriteAll (o : Outcome) (data : List UInt8) : Bool × Storage :=
  if o.done then (true, ⟨some data⟩) else (false, ⟨o.left⟩)

/-- `clks_fs_append` to the database. -/
def fsAppend (o : Outcome) (data : List UInt8) (s : Storage) :
    Bool × Storage :=
  if o.done then (true, ⟨some (s.db.getD [] ++ data)⟩) else (false, ⟨o.left⟩)

/-- `clks_user_read_db`, into a buffer of 4096 bytes. -/
def readDb (s : Storage) : Option (List UInt8) :=
  match s.db with
  | none => none
  | some text => if dbMax < text.length + 1 then none else some text

/-- `clks_user_db_ensure`. -/
def dbEnsure (o : Outcome) (s : Storage) : Bool × Storage :=
  if s.db.isSome then (true, s) else fsWriteAll o []

-- ==== the records

/-- The line that the loops copy out of the text. -/
def cutLine (piece : List UInt8) : List UInt8 :=
  cstr (piece.take (recordMax - 1))

/-- The record in a line of the text. -/
def parseLine (piece : List UInt8) : Option Record :=
  parseRecord (cutLine piece)

/-- The records that the loop of `clks_user_count` counts, and
`clks_user_at` goes through. -/
def records (text : List UInt8) : List Record :=
  (text.splitOn newline).filterMap parseLine

/-- The loop of `clks_user_find`. -/
def findIn (name text : List UInt8) : Option Record :=
  (text.splitOn newline).findSome? fun piece =>
    match parseLine piece with
    | some r => if r.name = name then some r else none
    | none => none

/-- `clks_user_find`. -/
def find (name : List UInt8) (s : Storage) : Option Record :=
  if !nameValid name then none
  else
    match readDb s with
    | some text => findIn name text
    | none => none

/-- `clks_user_verify_password`. -/
def verifyPassword (name : List UInt8) (password : Option (List UInt8))
    (s : Storage) : Option Record :=
  match password, find name s with
  | some password, some r =>
    if r.hash = hashPassword password then some r else none
  | _, _ => none

-- ==== a new user

/-- What `clks_user_current_info` says of the caller. -/
structure Caller where
  loggedIn : Bool
  role : Role
  name : List UInt8

/-- `clks_user_current_is_admin`. -/
def Caller.isAdmin (c : Caller) : Bool := c.loggedIn && c.role = .admin

/-- `clks_user_home_for`. -/
def homeFor (name : List UInt8) : List UInt8 :=
  append homeMax (append homeMax [] (txt "/home/")) name

/-- The record that `clks_user_create` builds. -/
def newRecord (name password : List UInt8) (role : Role) : Record where
  uid := uidForName name
  role
  name := copy nameMax name
  hash := hashPassword password
  home := homeFor name

/-- The file operations of `clks_user_create`: the empty database if there
is none, the directory of the homes, the home, and the new line. -/
structure CreateEnv where
  ensured : Outcome
  homesReady : Bool
  homeMade : Bool
  appended : Outcome

/-- `clks_user_create`. -/
def create (e : CreateEnv) (c : Caller) (name password : List UInt8)
    (role : Role) (s : Storage) : Bool × Storage :=
  if !c.isAdmin || !nameValid name || password = [] then (false, s)
  else
    let (ensured, s) := dbEnsure e.ensured s
    if !ensured || (find name s).isSome then (false, s)
    else if !e.homesReady || !e.homeMade then (false, s)
    else fsAppend e.appended (recordLine (newRecord name password role)) s

-- ==== rewriting

/-- The text that `clks_user_db_rewrite_with` builds, how long it takes it
to be, and whether the target was there. -/
structure Rewriting where
  nextDb : List UInt8
  nextLen : Nat
  found : Bool

/-- A line is copied over, if there is room. -/
def emitOriginal (line : List UInt8) (lineLen : Nat) (w : Rewriting) :
    Option Rewriting :=
  if line = [] then some w
  else if dbMax ≤ w.nextLen + lineLen + 2 then none
  else
    some
      { w with
        nextDb := append dbMax (append dbMax w.nextDb line) [newline]
        nextLen := w.nextLen + lineLen + 1 }

/-- What is done with a line: its record is left out, replaced, or the
line stays. -/
def rewriteLine (replace : Option Record) (remove : Option (List UInt8))
    (w : Rewriting) (piece : List UInt8) : Option Rewriting :=
  let line := cutLine piece
  let lineLen := min piece.length (recordMax - 1)
  match parseRecord line with
  | none => emitOriginal line lineLen w
  | some r =>
    if remove = some r.name then some { w with found := true }
    else
      match replace with
      | none => emitOriginal line lineLen w
      | some new =>
        if r.name = new.name then
          let newLine := recordLine new
          if dbMax ≤ w.nextLen + newLine.length + 1 then none
          else
            some
              { nextDb := append dbMax w.nextDb newLine
                nextLen := w.nextLen + newLine.length
                found := true }
        else emitOriginal line lineLen w

/-- The text that `clks_user_db_rewrite_with` writes, if it gets there. -/
def rewriteText (replace : Option Record) (remove : Option (List UInt8))
    (text : List UInt8) : Option (List UInt8) :=
  match (text.splitOn newline).foldlM (rewriteLine replace remove)
      ⟨[], 0, false⟩ with
  | some w => if w.found then some w.nextDb else none
  | none => none

/-- `clks_user_db_rewrite_with`. -/
def dbRewriteWith (o : Outcome) (replace : Option Record)
    (remove : Option (List UInt8)) (s : Storage) : Bool × Storage :=
  match readDb s with
  | none => (false, s)
  | some text =>
    match rewriteText replace remove text with
    | none => (false, s)
    | some next => fsWriteAll o next

/-- `clks_user_change_password`. -/
def changePassword (o : Outcome) (c : Caller) (name : List UInt8)
    (oldPassword : Option (List UInt8)) (newPassword : List UInt8)
    (s : Storage) : Bool × Storage :=
  if !nameValid name || newPassword = [] then (false, s)
  else
    match find name s with
    | none => (false, s)
    | some r =>
      if !c.loggedIn then (false, s)
      else if (c.role ≠ .admin || c.name = name) &&
          (verifyPassword name oldPassword s).isNone then (false, s)
      else
        dbRewriteWith o (some { r with hash := hashPassword newPassword })
          none s

/-- `clks_user_set_role`. -/
def setRole (o : Outcome) (c : Caller) (name : List UInt8) (role : Role)
    (s : Storage) : Bool × Storage :=
  if !c.isAdmin then (false, s)
  else
    match find name s with
    | none => (false, s)
    | some r =>
      if name = txt "root" then (false, s)
      else dbRewriteWith o (some { r with role }) none s

/-- `clks_user_remove`. -/
def remove (o : Outcome) (c : Caller) (name : List UInt8) (s : Storage) :
    Bool × Storage :=
  if !c.isAdmin || !nameValid name || name = txt "root" then (false, s)
  else dbRewriteWith o none (some name) s

end Clks.User
