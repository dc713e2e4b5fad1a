/-
The arguments of a program (runtime/exec/argv_env.inc, path_util.inc,
runtime.inc, and the exec and spawn calls of syscall/handlers/process.rs).

A line of arguments is copied from the caller into a buffer of
`ARG_LINE_MAX` bytes, from there into the record of the new process, and
is then taken apart at its blanks, into as many items as the record has
behind the path, of `ITEM_MAX` bytes each. Every copy stops silently at
the end of its destination, and none of the calls looks at what is left,
so that the program reads the path and all tokens of the line exactly if
the four bounds are kept (`delivered_iff`).
-/
import Clks.Exec.Process
import Clks.Lib.Tokens
import Clks.Sys.FileCalls

namespace Clks.Exec

open Sys Tokens

-- ==== the constants

/-- `CLKS_EXEC_ARG_LINE_MAX`, `ARG_LINE_MAX`. -/
abbrev argLineMax : Nat := 256

/-- `CLKS_EXEC_ENV_LINE_MAX`, `ENV_LINE_MAX`. -/
abbrev envLineMax : Nat := 512

/-- `CLKS_EXEC_MAX_ARGS`. -/
abbrev maxArgs : Nat := 24

/-- `CLKS_EXEC_ITEM_MAX`, `ITEM_MAX`. -/
abbrev itemMax : Nat := 128

-- ==== the record

/-- `clks_exec_copy_path`, `clks_exec_copy_line`: what a field of so many
bytes holds of a string. -/
def copyLine (dstSize : Nat) (src : List UInt8) : List UInt8 :=
  src.take (dstSize - 1)

/-- The bytes that end an item. -/
def isBlank (b : UInt8) : Bool :=
  b == 0x20 || b == 0x09 || b == 0x0D || b == 0x0A

/-- `clks_exec_parse_whitespace_items`, with room for so many items. -/
def parseWhitespaceItems : Nat → List UInt8 → List (List UInt8)
  | 0, _ => []
  | room + 1, line =>
    let rest := line.dropWhile isBlank
    if rest = [] then []
    else
      copyLine itemMax (rest.takeWhile fun b => !isBlank b)
        :: parseWhitespaceItems room (rest.dropWhile fun b => !isBlank b)

/-- The fields of a process record that are about its arguments. -/
structure ArgRecord where
  path : List UInt8
  argvLine : List UInt8
  envLine : List UInt8
  argvItems : List (List UInt8)
  deriving DecidableEq, Repr

def ArgRecord.argc (proc : ArgRecord) : Nat := proc.argvItems.length

/-- `clks_exec_prepare_proc_record`; a line that is null is empty. -/
def prepareProcRecord (path : List UInt8)
    (argvLine envLine : Option (List UInt8)) : ArgRecord :=
  let line := copyLine argLineMax (argvLine.getD [])
  let items := [copyLine itemMax path]
  { path := copyLine pathMax path
    argvLine := line
    envLine := copyLine envLineMax (envLine.getD [])
    argvItems :=
      if line ≠ [] ∧ items.length < maxArgs then
        items ++ parseWhitespaceItems (maxArgs - items.length) line
      else items }

/-- `clks_exec_copy_current_argv`. -/
def copyCurrentArgv (proc : ArgRecord) (index : UInt64) (outSize : Nat) :
    Option (List UInt8) :=
  if outSize = 0 then none
  else if proc.argc ≤ index.toNat ∨ maxArgs ≤ index.toNat then none
  else proc.argvItems[index.toNat]?.map (copyLine outSize)

/-- `proc_argv`, into a buffer that can be written. -/
def procArgv (proc : ArgRecord) (index size : UInt64) :
    Option (List UInt8) :=
  copyCurrentArgv proc index (min size.toNat itemMax)

/-- What a program reads as its arguments, with buffers large enough. -/
structure ArgRecord.Reads (proc : ArgRecord) (args : List (List UInt8)) :
    Prop where
  argc : proc.argc = args.length
  argv : ∀ index size : UInt64, itemMax ≤ size.toNat →
    procArgv proc index size = args[index.toNat]?

-- ==== the calls

/-- What the rest of the kernel decides: whether the process table has a
slot, whether the standard descriptors can be redirected, the pid, and
how the program of a record ends, if it can be loaded and waited for. -/
structure Launcher where
  allocSlot : Bool
  applyStdioOverrides : UInt64 → UInt64 → UInt64 → Bool
  allocPid : UInt64
  runProcSlot : ArgRecord → Option UInt64

/-- What a call comes to: the record that is run or queued, if it gets so
far, and the value it returns. -/
abbrev Launched := Option ArgRecord × UInt64

/-- `(u64)-1`, `U64_MAX`. -/
abbrev u64Max : UInt64 := 0xFFFFFFFFFFFFFFFF

/-- `clks_exec_run_path_internal`. -/
def runPathInternal (k : Launcher) (path : List UInt8)
    (argvLine envLine : Option (List UInt8))
    (stdinFd stdoutFd stderrFd : UInt64) : Launched :=
  if path.head? ≠ some 0x2F then (none, u64Max)
  else if !k.allocSlot then (none, u64Max)
  else
    let proc := prepareProcRecord path argvLine envLine
    if !k.applyStdioOverrides stdinFd stdoutFd stderrFd then (none, u64Max)
    else (some proc, (k.runProcSlot proc).getD u64Max)

/-- `clks_exec_spawn_pathv`. -/
def spawnPathvInternal (k : Launcher) (path : List UInt8)
    (argvLine envLine : Option (List UInt8)) : Launched :=
  if path.head? ≠ some 0x2F then (none, u64Max)
  else if !k.allocSlot then (none, u64Max)
  else (some (prepareProcRecord path argvLine envLine), k.allocPid)

section handlers

variable (k : Launcher) (m : UserMemory)

/-- `copy_user_string`, into a new buffer of so many bytes. -/
def copyString (size : Nat) (src : UInt64) : Option (List UInt8) :=
  let copied := m.copyUserString src (List.replicate size 0)
  if copied.1 then some (cString copied.2) else none

/-- `copy_optional_user_string`, likewise. -/
def copyOptionalString (size : Nat) (src : UInt64) : Option (List UInt8) :=
  if src = 0 then some [] else copyString m size src

/-- A little-endian word of the caller's memory. -/
def word (addr : UInt64) : UInt64 :=
  (List.range 8).foldl (fun w i =>
    w ||| (m.byte (addr + UInt64.ofNat i)).toUInt64 <<< UInt64.ofNat (8 * i)) 0

/-- `ExecIoReq`. -/
structure ExecIoReq where
  envLinePtr : UInt64
  stdinFd : UInt64
  stdoutFd : UInt64
  stderrFd : UInt64
  deriving DecidableEq, Repr

/-- `copy_from_user_struct`, of an `ExecIoReq`. -/
def copyExecIoReq (addr : UInt64) : Option ExecIoReq :=
  if addr = 0 ∨ m.userPtrReadable addr 32 = false then none
  else some ⟨word m addr, word m (addr + 8), word m (addr + 16),
    word m (addr + 24)⟩

/-- `exec_path`. -/
def execPath (arg0 : UInt64) : Launched :=
  match copyString m pathMax arg0 with
  | none => (none, u64Max)
  | some path =>
    runPathInternal k path none none fdInherit fdInherit fdInherit

/-- `exec_pathv`. -/
def execPathv (arg0 arg1 arg2 : UInt64) : Launched :=
  match copyString m pathMax arg0, copyOptionalString m argLineMax arg1,
      copyOptionalString m envLineMax arg2 with
  | some path, some argvLine, some envLine =>
    runPathInternal k path (some argvLine) (some envLine) fdInherit fdInherit
      fdInherit
  | _, _, _ => (none, u64Max)

/-- `exec_pathv_io`. -/
def execPathvIo (arg0 arg1 arg2 : UInt64) : Launched :=
  if arg2 = 0 then (none, u64Max)
  else
    match copyString m pathMax arg0, copyOptionalString m argLineMax arg1,
        copyExecIoReq m arg2 with
    | some path, some argvLine, some req =>
      match copyOptionalString m envLineMax req.envLinePtr with
      | none => (none, u64Max)
      | some envLine =>
        runPathInternal k path (some argvLine) (some envLine) req.stdinFd
          req.stdoutFd req.stderrFd
    | _, _, _ => (none, u64Max)

/-- `spawn_path`. -/
def spawnPath (arg0 : UInt64) : Launched :=
  match copyString m pathMax arg0 with
  | none => (none, u64Max)
  | some path => spawnPathvInternal k path none none

/-- `spawn_pathv`. -/
def spawnPathv (arg0 arg1 arg2 : UInt64) : Launched :=
  match copyString m pathMax arg0, copyOptionalString m argLineMax arg1,
      copyOptionalString m envLineMax arg2 with
  | some path, some argvLine, some envLine =>
    spawnPathvInternal k path (some argvLine) (some envLine)
  | _, _, _ => (none, u64Max)

/-- The calls that start a program. -/
inductive StartCall
  | execPath (arg0 : UInt64)
  | execPathv (arg0 arg1 arg2 : UInt64)
  | execPathvIo (arg0 arg1 arg2 : UInt64)
  | spawnPath (arg0 : UInt64)
  | spawnPathv (arg0 arg1 arg2 : UInt64)
  deriving DecidableEq, Repr

def StartCall.run : StartCall → Launched
  | .execPath arg0 => Exec.execPath k m arg0
  | .execPathv arg0 arg1 arg2 => Exec.execPathv k m arg0 arg1 arg2
  | .execPathvIo arg0 arg1 arg2 => Exec.execPathvIo k m arg0 arg1 arg2
  | .spawnPath arg0 => Exec.spawnPath k m arg0
  | .spawnPathv arg0 arg1 arg2 => Exec.spawnPathv k m arg0 arg1 arg2

end handlers

-- ==== what is asked for

namespace StartCall

/-- Where the caller has the path. -/
def pathPtr : StartCall → UInt64
  | .execPath arg0 | .execPathv arg0 _ _ | .execPathvIo arg0 _ _
  | .spawnPath arg0 | .spawnPathv arg0 _ _ => arg0

/-- Where the caller has the line of arguments, or null. -/
def linePtr : StartCall → UInt64
  | .execPath _ | .spawnPath _ => 0
  | .execPathv _ arg1 _ | .execPathvIo _ arg1 _ | .spawnPathv _ arg1 _ => arg1

/-- The path and the line that the caller has in its memory. -/
structure Asks (call : StartCall) (m : UserMemory)
    (path line : List UInt8) : Prop where
  path : m.IsString call.pathPtr path
  line : if call.linePtr = 0 then line = [] else m.IsString call.linePtr line

/-- The program of a record reads the path and all tokens of the line. -/
def Delivered (call : StartCall) (m : UserMemory) (proc : ArgRecord) :
    Prop :=
  ∃ path line, call.Asks m path line ∧
    proc.Reads (path :: tokens isBlank line)

/-- The path and each token fit an item, there are items for all tokens,
and nothing but blanks is behind the end of the buffer for the line. -/
def Fits (call : StartCall) (m : UserMemory) : Prop :=
  ∃ path line, call.Asks m path line ∧ path.length < itemMax ∧
    (tokens isBlank line).length < maxArgs ∧
    (∀ t ∈ tokens isBlank line, t.length < itemMax) ∧
    ∀ b ∈ line.drop (argLineMax - 1), isBlank b = true

end StartCall

-- ==== the items

theorem parseWhitespaceItems_eq (room : Nat) (line : List UInt8) :
    parseWhitespaceItems room line
      = ((tokens isBlank line).take room).map (copyLine itemMax) := by
  induction room generalizing line with
  | zero => rfl
  | succ room ih =>
    rw [tokens_eq, parseWhitespaceItems]
    by_cases hrest : line.dropWhile isBlank = []
    · rw [if_pos hrest, if_pos hrest]
      rfl
    · rw [if_neg hrest, if_neg hrest, ih]
      rfl

theorem prepareProcRecord_argvItems (path : List UInt8)
    (argvLine envLine : Option (List UInt8)) :
    (prepareProcRecord path argvLine envLine).argvItems
      = copyLine itemMax path
        :: ((tokens isBlank (copyLine argLineMax (argvLine.getD []))).take
            (maxArgs - 1)).map (copyLine itemMax) := by
  rw [← parseWhitespaceItems_eq]
  show (if _ then _ else _) = _
  by_cases hline : copyLine argLineMax (argvLine.getD []) = []
  · rw [if_neg fun h => h.1 hline, hline]
    rfl
  · have hroom : [copyLine itemMax path].length < maxArgs :=
      show 1 < 24 by decide
    rw [if_pos ⟨hline, hroom⟩]
    rfl

theorem prepareProcRecord_argc_le (path : List UInt8)
    (argvLine envLine : Option (List UInt8)) :
    (prepareProcRecord path argvLine envLine).argc ≤ maxArgs := by
  have hle := List.length_take_le (maxArgs - 1)
    (tokens isBlank (copyLine argLineMax (argvLine.getD [])))
  unfold ArgRecord.argc
  rw [prepareProcRecord_argvItems, List.length_cons, List.length_map]
  exact Nat.succ_le_succ hle

theorem length_copyLine_lt {size : Nat} (h : 0 < size) (src : List UInt8) :
    (copyLine size src).length < size := by
  have hle := List.length_take_le (size - 1) src
  unfold copyLine
  omega

theorem copyLine_of_short {size : Nat} {src : List UInt8}
    (h : src.length < size) : copyLine size src = src :=
  List.take_of_length_le (by omega)

theorem reads_iff {proc : ArgRecord} {args : List (List UInt8)}
    (hargc : proc.argc ≤ maxArgs)
    (hshort : ∀ a ∈ proc.argvItems, a.length < itemMax) :
    proc.Reads args ↔ proc.argvItems = args := by
  have hread : ∀ index size : UInt64, itemMax ≤ size.toNat →
      procArgv proc index size = proc.argvItems[index.toNat]? := by
    intro index size hsize
    unfold procArgv copyCurrentArgv
    rw [Nat.min_eq_right hsize, if_neg (by decide)]
    by_cases hin : index.toNat < proc.argc
    · rw [if_neg (by omega), List.getElem?_eq_getElem hin, Option.map_some]
      exact congrArg some
        (copyLine_of_short (hshort _ (List.getElem_mem hin)))
    · rw [if_pos (by omega), List.getElem?_eq_none (by
        unfold ArgRecord.argc at hin
        omega)]
  constructor
  · intro ⟨hlen, hargv⟩
    refine List.ext_getElem hlen fun i hi hi' => ?_
    have hidx : (UInt64.ofNat i).toNat = i := by
      have hlt : i < 24 := Nat.lt_of_lt_of_le hi hargc
      exact UInt64.toNat_ofNat_of_lt' (Nat.lt_trans hlt (by decide))
    have hget := (hread (UInt64.ofNat i) 128 (by decide)).symm.trans
      (hargv (UInt64.ofNat i) 128 (by decide))
    rw [hidx, List.getElem?_eq_getElem hi, List.getElem?_eq_getElem hi'] at hget
    exact Option.some_inj.mp hget
  · intro hargs
    subst hargs
    exact ⟨rfl, hread⟩

theorem prepareProcRecord_reads_iff (path path' line line' : List UInt8)
    (envLine : Option (List UInt8)) :
    (prepareProcRecord path (some line) envLine).Reads
        (path' :: tokens isBlank line') ↔
      copyLine itemMax path = path' ∧
        ((tokens isBlank (copyLine argLineMax line)).take (maxArgs - 1)).map
            (copyLine itemMax) = tokens isBlank line' := by
  have hitems := prepareProcRecord_argvItems path (some line) envLine
  rw [reads_iff (prepareProcRecord_argc_le _ _ _), hitems, List.cons.injEq]
  · rfl
  · intro a ha
    rw [hitems] at ha
    cases List.mem_cons.mp ha with
    | inl hpath => exact hpath ▸ length_copyLine_lt (by decide) path
    | inr hmem =>
      obtain ⟨t, -, rfl⟩ := List.mem_map.mp hmem
      exact length_copyLine_lt (by decide) t

-- ==== the copies

section copies

variable {m : UserMemory} {src : UInt64} {s line path : List UInt8}
  {proc : ArgRecord}

theorem text_of_isString (h : m.IsString src s) (n : Nat) :
    m.text src n 0 = s.take n := by
  have hfrom : ∀ n i, i ≤ s.length → m.text src n i = (s.drop i).take n := by
    intro n
    induction n with
    | zero => exact fun _ _ => rfl
    | succ n ih =>
      intro i hi
      unfold UserMemory.text
      rcases Nat.lt_or_eq_of_le hi with hlt | heq
      · obtain ⟨hb, hbyte⟩ := h.bytes i hlt
        rw [hbyte, List.drop_eq_getElem_cons hlt, List.take_succ_cons,
          ← ih (i + 1) hlt]
        exact if_neg hb
      · rw [heq, h.nul, List.drop_length]
        rfl
  exact hfrom n 0 (Nat.zero_le _)

theorem copyString_text {size : Nat} {copied : List UInt8}
    (hmax : size ≤ 2 ^ 64) (h : copyString m size src = some copied) :
    copied = m.text src (size - 1) 0 := by
  have hlen : (List.replicate size (0 : UInt8)).length = size :=
    List.length_replicate
  unfold copyString at h
  simp only [] at h
  split at h
  · next hok =>
    obtain ⟨hsrc, hdst⟩ := UserMemory.copyUserString_args hok
    have htext := (UserMemory.copyUserString_text hsrc hdst
      (hlen.symm ▸ hmax)).2 hok
    rw [← Option.some_inj.mp h, UserMemory.cString_of_starts htext
      (UserMemory.text_ne_zero src _ 0), hlen]
  · cases h

theorem copyString_of_isString {size : Nat} {copied : List UInt8}
    (hs : m.IsString src s) (hmax : size ≤ 2 ^ 64)
    (h : copyString m size src = some copied) :
    copied = copyLine size s := by
  rw [copyString_text hmax h, text_of_isString hs]
  rfl

theorem copyString_length_le {size : Nat} {copied : List UInt8}
    (hmax : size ≤ 2 ^ 64) (h : copyString m size src = some copied) :
    copied.length ≤ size - 1 := by
  rw [copyString_text hmax h]
  exact UserMemory.text_length_le src _ 0

end copies

-- ==== what is started

section started

variable {k : Launcher} {m : UserMemory} {call : StartCall}
  {proc : ArgRecord} {path line : List UInt8}

theorem runPathInternal_started {argvLine envLine : Option (List UInt8)}
    {stdinFd stdoutFd stderrFd : UInt64}
    (h : (runPathInternal k path argvLine envLine stdinFd stdoutFd
      stderrFd).1 = some proc) :
    proc = prepareProcRecord path argvLine envLine := by
  unfold runPathInternal at h
  simp only [] at h
  split at h
  · cases h
  split at h
  · cases h
  split at h
  · cases h
  · exact (Option.some_inj.mp h).symm

theorem spawnPathvInternal_started {argvLine envLine : Option (List UInt8)}
    (h : (spawnPathvInternal k path argvLine envLine).1 = some proc) :
    proc = prepareProcRecord path argvLine envLine := by
  unfold spawnPathvInternal at h
  split at h
  · cases h
  split at h
  · cases h
  · exact (Option.some_inj.mp h).symm

/-- What the record of a call was prepared from. -/
def StartCall.Prepared (call : StartCall) (m : UserMemory)
    (proc : ArgRecord) : Prop :=
  ∃ path argvLine envLine,
    copyString m pathMax call.pathPtr = some path ∧
      copyOptionalString m argLineMax call.linePtr = some argvLine ∧
      proc = prepareProcRecord path (some argvLine) envLine

theorem StartCall.prepared (h : (call.run k m).1 = some proc) :
    call.Prepared m proc := by
  cases call with
  | execPath arg0 =>
    change (Exec.execPath k m arg0).1 = some proc at h
    unfold Exec.execPath at h
    split at h
    · cases h
    · next path hpath =>
      exact ⟨path, [], none, hpath, rfl, runPathInternal_started h⟩
  | execPathv arg0 arg1 arg2 =>
    change (Exec.execPathv k m arg0 arg1 arg2).1 = some proc at h
    unfold Exec.execPathv at h
    split at h
    · next path argvLine envLine hpath hargv _ =>
      exact ⟨path, argvLine, some envLine, hpath, hargv,
        runPathInternal_started h⟩
    · cases h
  | execPathvIo arg0 arg1 arg2 =>
    change (Exec.execPathvIo k m arg0 arg1 arg2).1 = some proc at h
    unfold Exec.execPathvIo at h
    split at h
    · cases h
    split at h
    · next path argvLine req hpath hargv _ =>
      split at h
      · cases h
      · next envLine _ =>
        exact ⟨path, argvLine, some envLine, hpath, hargv,
          runPathInternal_started h⟩
    · cases h
  | spawnPath arg0 =>
    change (Exec.spawnPath k m arg0).1 = some proc at h
    unfold Exec.spawnPath at h
    split at h
    · cases h
    · next path hpath =>
      exact ⟨path, [], none, hpath, rfl, spawnPathvInternal_started h⟩
  | spawnPathv arg0 arg1 arg2 =>
    change (Exec.spawnPathv k m arg0 arg1 arg2).1 = some proc at h
    unfold Exec.spawnPathv at h
    split at h
    · next path argvLine envLine hpath hargv _ =>
      exact ⟨path, argvLine, some envLine, hpath, hargv,
        spawnPathvInternal_started h⟩
    · cases h

theorem StartCall.Prepared.cut (hprep : call.Prepared m proc)
    (hasks : call.Asks m path line) :
    ∃ envLine, proc = prepareProcRecord (copyLine pathMax path)
      (some (copyLine argLineMax line)) envLine := by
  obtain ⟨path', argvLine, envLine, hpath, hargv, hproc⟩ := hprep
  obtain ⟨hpath', hline⟩ := hasks
  refine ⟨envLine, ?_⟩
  rw [hproc, copyString_of_isString hpath' (by decide) hpath]
  unfold copyOptionalString at hargv
  by_cases hnull : call.linePtr = 0
  · rw [if_pos hnull] at hline hargv
    rw [hline, ← Option.some_inj.mp hargv]
    rfl
  · rw [if_neg hnull] at hline hargv
    rw [copyString_of_isString hline (by decide) hargv]

theorem copyLine_copyLine (size size' : Nat) (src : List UInt8) :
    copyLine size (copyLine size' src) = copyLine (min size size') src := by
  unfold copyLine
  rw [List.take_take, Nat.sub_min_sub_right]

theorem StartCall.Prepared.reads_iff (hprep : call.Prepared m proc)
    (hasks : call.Asks m path line) :
    proc.Reads (path :: tokens isBlank line) ↔
      path.length < itemMax ∧ (tokens isBlank line).length < maxArgs ∧
        (∀ t ∈ tokens isBlank line, t.length < itemMax) ∧
        ∀ b ∈ line.drop (argLineMax - 1), isBlank b = true := by
  obtain ⟨envLine, hproc⟩ := hprep.cut hasks
  have hpath : copyLine itemMax (copyLine pathMax path) = path ↔
      path.length < itemMax := by
    rw [copyLine_copyLine]
    refine ⟨fun h => ?_, copyLine_of_short⟩
    rw [← h]
    exact length_copyLine_lt (by decide) path
  have hline := @cut_eq_iff _ isBlank (argLineMax - 1) (maxArgs - 1)
    (itemMax - 1) line
  rw [hproc, prepareProcRecord_reads_iff, hpath, copyLine_copyLine]
  refine and_congr_right fun _ => Iff.trans hline ?_
  constructor
  · intro ⟨hblank, hcount, hshort⟩
    exact ⟨Nat.lt_succ_of_le hcount,
      fun t ht => Nat.lt_succ_of_le (hshort t ht), hblank⟩
  · intro ⟨hcount, hshort, hblank⟩
    exact ⟨hblank, Nat.le_of_lt_succ hcount,
      fun t ht => Nat.le_of_lt_succ (hshort t ht)⟩

-- ==== the law

/-- Whatever program a call starts, it reads the path and all tokens of
the line of its caller, in order and as they are, exactly if the path and
each token fit an item, there is an item for each token, and the line fits
its buffer but for blanks. -/
theorem delivered_iff (k : Launcher) (m : UserMemory) (call : StartCall)
    (proc : ArgRecord) (h : (call.run k m).1 = some proc) :
    call.Delivered m proc ↔ call.Fits m := by
  have hprep := StartCall.prepared h
  constructor
  · intro ⟨path, line, hasks, hreads⟩
    exact ⟨path, line, hasks, (hprep.reads_iff hasks).mp hreads⟩
  · intro ⟨path, line, hasks, hfits⟩
    exact ⟨path, line, hasks, (hprep.reads_iff hasks).mpr hfits⟩

/-- A memory with a path at 4096 and a line at 8192. -/
def memoryWith (path line : List UInt8) : UserMemory where
  inUserExecContext := false
  readable _ _ := true
  byte addr :=
    if addr < 8192 then path.getD (addr.toNat - 4096) 0
    else line.getD (addr.toNat - 8192) 0

/-- A kernel in which every program runs. -/
def anyProgram : Launcher where
  allocSlot := true
  applyStdioOverrides _ _ _ := true
  allocPid := 7
  runProcSlot _ := some 0

/-- `/a` with the line `b c`. -/
theorem delivered_iff_two :
    (StartCall.execPathv 4096 8192 0).Delivered
        (memoryWith [0x2F, 0x61] [0x62, 0x20, 0x63])
        ⟨[0x2F, 0x61], [0x62, 0x20, 0x63], [], [[0x2F, 0x61], [0x62], [0x63]]⟩ ↔
      (StartCall.execPathv 4096 8192 0).Fits
        (memoryWith [0x2F, 0x61] [0x62, 0x20, 0x63]) :=
  delivered_iff anyProgram _ _ _ (by decide +kernel)

/-- One token more than there are items for. -/
def tokensTooMany : List UInt8 := (List.replicate 24 [0x61, 0x20]).flatten

/-- `/a` is started with 24 of the 25 arguments it was given. -/
theorem token_lost : ∃ (k : Launcher) (m : UserMemory) (call : StartCall)
    (proc : ArgRecord), (call.run k m).1 = some proc ∧
      ¬ call.Delivered m proc := by
  refine ⟨anyProgram, memoryWith [0x2F, 0x61] tokensTooMany,
    .spawnPathv 4096 8192 0,
    prepareProcRecord [0x2F, 0x61] (some tokensTooMany) (some []),
    by decide +kernel, ?_⟩
  intro ⟨path, line, hasks, hreads⟩
  have hline : (memoryWith [0x2F, 0x61] tokensTooMany).IsString 8192 line :=
    hasks.line
  have htext : (memoryWith [0x2F, 0x61] tokensTooMany).text 8192 100 0
      = tokensTooMany := by decide +kernel
  rw [text_of_isString hline] at htext
  have hlen := congrArg List.length htext
  rw [List.length_take, show tokensTooMany.length = 48 by decide] at hlen
  rw [List.take_of_length_le (by omega)] at htext
  subst htext
  have htokens : (tokens isBlank tokensTooMany).length = 24 := by
    decide +kernel
  have hargc := hreads.argc
  rw [List.length_cons, htokens] at hargc
  exact absurd hargc (by decide +kernel)

end started

end Clks.Exec
