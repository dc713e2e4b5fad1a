/-
Writing to a file through descriptors (exec/fd.inc, exec/fd_api.inc).
-/
import Clks.Exec.Descriptors
import Clks.Fs.Contents

namespace Clks.Exec

open Fs (FsState)
open Bytes (Mem blit)
open Disk (dataOf bufferBytes)

-- ==== the model

/-- What is answered to a write: `clks_user_path_write_allowed`, whether
there is memory to read the file into and to put the new contents
together, the allocator within the file system, and what
`clks_exec_dev_fb0_write` or `clks_pty_write` took. -/
structure WriteAnswers where
  writeAllowed : Bool
  readable : Bool
  merged : Nat → Bool
  kmalloc : Nat → Bool
  wrote : Option UInt64

/-- The size of the file behind a write: the end of the written bytes, or
the old size. -/
def newSize (old : List UInt8) (writePos size : UInt64) : Nat :=
  if writePos.toNat + size.toNat < old.length then old.length
  else writePos.toNat + size.toNat

/-- The block with the new contents: zeros, the old bytes over them, and
the written bytes over those. -/
def mergedBytes (old : List UInt8) (writePos size : UInt64) (data : Mem) :
    Mem :=
  blit (blit (fun _ => 0) 0 old.length fun i => old.getD i 0)
    writePos.toNat size.toNat data

/-- `clks_exec_fd_file_write`: the bytes written and the descriptor. -/
def fdFileWrite (a : WriteAnswers) (entry : FdEntry) (buffer : Option Mem)
    (size : UInt64) : Cmd FsState (UInt64 × FdEntry) := do
  Cmd.require a.writeAllowed
  if size = 0 then
    pure (0, entry)
  else
    match buffer with
    | none => Cmd.fail
    | some data =>
      if flagSet entry.flags oAppend then do
        Fs.append a.kmalloc entry.path (some data) size.toNat
        pure (size, { entry with offset := entry.offset + size })
      else do
        Cmd.require a.readable
        let old ← Fs.readAll entry.path
        Cmd.require (entry.offset ≤ 0xFFFFFFFFFFFFFFFF - size)
        let newSize := newSize old entry.offset size
        if newSize = 0 then
          pure (0, entry)
        else do
          Cmd.require (a.merged newSize)
          Fs.writeAll a.kmalloc entry.path
            (some (mergedBytes old entry.offset size data)) newSize
          pure (size, { entry with offset := entry.offset + size })

/-- The branches of `clks_exec_fd_write` over the kind of the
descriptor. -/
def entryWrite (a : WriteAnswers) (entry : FdEntry) (buffer : Option Mem)
    (size : UInt64) : Cmd FsState (UInt64 × FdEntry) :=
  match entry.kind with
  | .tty | .devTty0 => pure (size, entry)
  | .devFb0 | .pty =>
    match a.wrote with
    | none => Cmd.fail
    | some wrote =>
      pure (wrote, { entry with offset := entry.offset + wrote })
  | .devNet0 | .devNull | .devZero | .devRandom =>
    pure (size, { entry with offset := entry.offset + size })
  | .file => fdFileWrite a entry buffer size
  | .devKbd | .devMouse | .devDisk0 | .none => Cmd.fail

/-- `clks_exec_fd_write`, on the descriptors of the process that calls. -/
def fdWrite (a : WriteAnswers) (fds : Fin fdMax → FdEntry) (fd : UInt64)
    (buffer : Option Mem) (size : UInt64) :
    Cmd FsState (UInt64 × (Fin fdMax → FdEntry)) :=
  if size = 0 then pure (0, fds)
  else if buffer.isNone then Cmd.fail
  else
    match fdLookup fd fds with
    | none => Cmd.fail
    | some c =>
      if !canWrite (fds c).flags then Cmd.fail
      else do
        let (n, entry) ← entryWrite a (fds c) buffer size
        pure (n, Function.update fds c entry)

/-- The file system and the descriptors of all processes. -/
structure Files where
  fs : FsState
  fds : Fin maxProcs → Fin fdMax → FdEntry

/-- A write by a process. -/
structure WriteCall where
  proc : Fin maxProcs
  fd : UInt64
  buffer : Option Mem
  size : UInt64

/-- The call: what it returns, or `none` for -1, and what it leaves. -/
def Files.write (a : WriteAnswers) (call : WriteCall) (m : Files) :
    Option UInt64 × Files :=
  match fdWrite a (m.fds call.proc) call.fd call.buffer call.size m.fs with
  | (none, fs) => (none, { m with fs })
  | (some (n, fds), fs) =>
    (some n, ⟨fs, Function.update m.fds call.proc fds⟩)

-- ==== the properties

/-- Contents that are extended by zeros to an offset and overlaid with
bytes from there on. -/
def overlaid (old : List UInt8) (offset : Nat) (bytes : List UInt8) :
    List UInt8 :=
  (old ++ List.replicate (offset - old.length) 0).take offset ++ bytes
    ++ old.drop (offset + bytes.length)

/-- What a write of some bytes makes of a file with these contents and of
the descriptor: nothing if there are none; with O_APPEND the bytes are
at the end and the offset behind them; and else they are over the
contents at the offset, which moves on. -/
def WritesFile (entry entry' : FdEntry) (old bytes : List UInt8)
    (content : Option (List UInt8)) : Prop :=
  if bytes = [] then content = some old ∧ entry' = entry
  else if flagSet entry.flags oAppend then
    content = some (old ++ bytes) ∧
      entry' = { entry with offset := UInt64.ofNat (old ++ bytes).length }
  else
    content = some (overlaid old entry.offset.toNat bytes) ∧
      entry' =
        { entry with offset := entry.offset + UInt64.ofNat bytes.length }

/-- The descriptor of a call. -/
def WriteCall.entry (call : WriteCall) (c : Fin fdMax) (m : Files) :
    FdEntry :=
  m.fds call.proc c

/-- The bytes of a call. -/
def WriteCall.bytes (call : WriteCall) : List UInt8 :=
  bufferBytes (dataOf call.buffer) call.size.toNat

/-- A descriptor with O_APPEND is at the end of its file, which has these
contents, and the disk's image shows that end. -/
def WriteCall.AtEnd (call : WriteCall) (c : Fin fdMax) (m : Files)
    (old : List UInt8) : Prop :=
  call.size ≠ 0 → flagSet (call.entry c m).flags oAppend = true →
    (call.entry c m).offset = UInt64.ofNat old.length ∧
      m.fs.EndShownOf (call.entry c m).path

/-- A write to a file does not run out of clusters half way. -/
structure Suffices (s : FsState) (entry : FdEntry) (buffer : Option Mem)
    (size : UInt64) : Prop where
  append : flagSet entry.flags oAppend = true →
    ¬ s.AppendExhausts entry.path buffer size.toNat
  overlay : flagSet entry.flags oAppend = false → ∀ old,
    s.content entry.path = some old →
    ¬ s.WriteExhausts entry.path buffer (newSize old entry.offset size)

/-- There are clusters enough for a call, if it writes to a file. -/
def WriteCall.Suffices (call : WriteCall) (m : Files) : Prop :=
  ∀ c, fdLookup call.fd (m.fds call.proc) = some c →
    (call.entry c m).kind = .file →
    Exec.Suffices m.fs (call.entry c m) call.buffer call.size

/-- One call that does not run out of clusters half way. -/
def Files.Step (m m' : Files) : Prop :=
  ∃ a call, call.Suffices m ∧ m' = (m.write a call).2

/-- Any number of calls by any processes. -/
abbrev Files.Run : Files → Files → Prop := Relation.ReflTransGen Files.Step

-- ==== the contents

section contents

variable {old : List UInt8} {writePos size : UInt64} {data : Mem}

theorem length_overlaid (old : List UInt8) (offset : Nat)
    (bytes : List UInt8) :
    (overlaid old offset bytes).length
      = offset + bytes.length + (old.length - (offset + bytes.length)) := by
  unfold overlaid
  simp only [List.length_append, List.length_take, List.length_replicate,
    List.length_drop]
  omega

theorem overlaid_getD (old : List UInt8) (offset : Nat)
    (bytes : List UInt8) (i : Nat) :
    (overlaid old offset bytes).getD i 0
      = if offset ≤ i ∧ i < offset + bytes.length then
          bytes.getD (i - offset) 0
        else old.getD i 0 := by
  have htake : ((old ++ List.replicate (offset - old.length) 0).take
      offset).length = offset := by
    rw [List.length_take, List.length_append, List.length_replicate]
    omega
  unfold overlaid
  simp only [List.getD_eq_getElem?_getD]
  rcases Nat.lt_or_ge i offset with hlt | hge
  · rw [if_neg (by omega), List.append_assoc,
      List.getElem?_append_left (by omega), List.getElem?_take_of_lt hlt]
    rcases Nat.lt_or_ge i old.length with hin | hout
    · rw [List.getElem?_append_left hin]
    · rw [List.getElem?_append_right hout, List.getElem?_replicate,
        if_pos (by omega), List.getElem?_eq_none hout]
      rfl
  · rcases Nat.lt_or_ge i (offset + bytes.length) with hin | hout
    · rw [if_pos ⟨hge, hin⟩, List.append_assoc,
        List.getElem?_append_right (by omega), htake,
        List.getElem?_append_left (by omega)]
    · rw [if_neg (by omega), List.getElem?_append_right (by
        rw [List.length_append]
        omega), List.length_append, htake, List.getElem?_drop]
      congr 2
      omega

theorem mergedBytes_apply (i : Nat) : mergedBytes old writePos size data i
    = if writePos.toNat ≤ i ∧ i < writePos.toNat + size.toNat then
        data (i - writePos.toNat)
      else old.getD i 0 := by
  unfold mergedBytes blit
  split
  · rfl
  · rw [Nat.zero_add, Nat.sub_zero]
    split
    · rfl
    · next hout =>
      rw [List.getD_eq_getElem?_getD, List.getElem?_eq_none (by omega)]
      rfl

theorem mergedBytes_eq (old : List UInt8) (writePos size : UInt64)
    (data : Mem) :
    bufferBytes (mergedBytes old writePos size data)
        (newSize old writePos size)
      = overlaid old writePos.toNat (bufferBytes data size.toNat) := by
  have hbytes : (bufferBytes data size.toNat).length = size.toNat := by
    simp [bufferBytes]
  have hlen : newSize old writePos size
      = (overlaid old writePos.toNat (bufferBytes data size.toNat)).length :=
    by
    rw [length_overlaid, hbytes]
    unfold newSize
    split <;> omega
  refine List.ext_getElem (by rw [← hlen]; simp [bufferBytes])
    fun i h1 h2 => ?_
  have hget := overlaid_getD old writePos.toNat
    (bufferBytes data size.toNat) i
  rw [List.getD_eq_getElem?_getD, List.getElem?_eq_getElem h2,
    Option.getD_some, hbytes] at hget
  rw [hget]
  simp only [bufferBytes, List.getElem_map, List.getElem_range,
    mergedBytes_apply]
  split
  · next hin =>
    rw [List.getD_eq_getElem?_getD, List.getElem?_map,
      List.getElem?_range (by omega)]
    rfl
  · rfl

end contents

-- ==== one write

section write

variable {a : WriteAnswers} {entry entry' : FdEntry} {buffer : Option Mem}
  {size n : UInt64} {s s' : FsState} {old : List UInt8}

theorem fdFileWrite_append (hsize : size ≠ 0)
    (happ : flagSet entry.flags oAppend = true)
    (hrun : fdFileWrite a entry buffer size s = (some (n, entry'), s')) :
    Fs.append a.kmalloc entry.path buffer size.toNat s = (some (), s') ∧
      n = size ∧
      entry' = { entry with offset := entry.offset + size } := by
  unfold fdFileWrite at hrun
  obtain ⟨-, hrun⟩ := Cmd.require_ok_inv hrun
  rw [if_neg hsize] at hrun
  cases buffer with
  | none => cases hrun
  | some data =>
    dsimp only at hrun
    rw [if_pos happ] at hrun
    obtain ⟨_, s1, happend, hend⟩ := Cmd.bind_ok_inv hrun
    cases hend
    exact ⟨happend, rfl, rfl⟩

theorem room_of_le {writePos : UInt64}
    (h : writePos ≤ 0xFFFFFFFFFFFFFFFF - size) :
    writePos.toNat + size.toNat < 2 ^ 64 := by
  have hle := UInt64.le_iff_toNat_le.mp h
  have hsz := size.toNat_lt
  rw [UInt64.toNat_sub_of_le _ _ (by
    rw [UInt64.le_iff_toNat_le]
    exact Nat.le_of_lt_succ hsz)] at hle
  have hmax : (0xFFFFFFFFFFFFFFFF : UInt64).toNat = 2 ^ 64 - 1 := rfl
  omega

theorem newSize_lt {path : List UInt8} {writePos : UInt64} (h : s.Steady)
    (hold : s.content path = some old)
    (hroom : writePos.toNat + size.toNat < 2 ^ 64)
    (hin : Fs.pathInMount s path = true) :
    newSize old writePos size < 2 ^ 64 := by
  have hle := Fs.content_length h hold hin
  unfold newSize
  split <;> omega

theorem fdFileWrite_over (hsize : size ≠ 0)
    (happ : flagSet entry.flags oAppend = false)
    (hrun : fdFileWrite a entry buffer size s = (some (n, entry'), s')) :
    ∃ data old s1, buffer = some data ∧
      Fs.readAll entry.path s = (some old, s1) ∧
      Fs.writeAll a.kmalloc entry.path
        (some (mergedBytes old entry.offset size data))
        (newSize old entry.offset size) s1 = (some (), s') ∧
      entry.offset.toNat + size.toNat < 2 ^ 64 ∧ n = size ∧
      entry' = { entry with offset := entry.offset + size } := by
  unfold fdFileWrite at hrun
  obtain ⟨-, hrun⟩ := Cmd.require_ok_inv hrun
  rw [if_neg hsize] at hrun
  cases buffer with
  | none => cases hrun
  | some data =>
    dsimp only at hrun
    rw [if_neg (by rw [happ]; exact Bool.false_ne_true)] at hrun
    obtain ⟨-, hrun⟩ := Cmd.require_ok_inv hrun
    obtain ⟨old, s1, hread, hput⟩ := Cmd.bind_ok_inv hrun
    obtain ⟨hroom, hput⟩ := Cmd.require_ok_inv hput
    have hroom' := room_of_le (of_decide_eq_true hroom)
    have hpos : newSize old entry.offset size ≠ 0 := by
      have hne : size.toNat ≠ 0 := fun hz => hsize (UInt64.toNat_inj.mp hz)
      unfold newSize
      split <;> omega
    rw [if_neg hpos] at hput
    obtain ⟨-, hput⟩ := Cmd.require_ok_inv hput
    obtain ⟨_, s2, hwrite, hend⟩ := Cmd.bind_ok_inv hput
    cases hend
    exact ⟨data, old, s1, rfl, hread, hwrite, hroom', rfl, rfl⟩

theorem length_bytes (data : Mem) (size : UInt64) :
    (bufferBytes data size.toNat).length = size.toNat := by
  simp [bufferBytes]

theorem bytes_nil_iff (data : Mem) (size : UInt64) :
    bufferBytes data size.toNat = [] ↔ size = 0 := by
  rw [← List.length_eq_zero_iff, length_bytes]
  exact ⟨fun h => UInt64.toNat_inj.mp h, fun h => by rw [h]; rfl⟩

theorem over_writesFile (h : s.Steady) (hsize : size ≠ 0)
    (happ : flagSet entry.flags oAppend = false)
    (hold : s.content entry.path = some old)
    (hrun : fdFileWrite a entry buffer size s = (some (n, entry'), s')) :
    n = size ∧ WritesFile entry entry' old
      (bufferBytes (dataOf buffer) size.toNat) (s'.content entry.path) := by
  obtain ⟨data, old', s1, rfl, hread, hwrite, hroom, hn, hentry⟩ :=
    fdFileWrite_over hsize happ hrun
  have hold' : s.content entry.path = some old' := congrArg Prod.fst hread
  cases hold.symm.trans hold'
  have hs1 : (Fs.readAll entry.path s).2 = s1 := congrArg Prod.snd hread
  have hsteady := h.readAll entry.path
  obtain ⟨hsame, hmount⟩ := Fs.readAll_same h entry.path entry.path
  rw [hs1] at hsteady hsame hmount
  have hcontent := Fs.writeAll_content hsteady
    (newSize_lt hsteady (hsame.trans hold) hroom) (hsame.trans hold) hwrite
  refine ⟨hn, ?_⟩
  unfold WritesFile
  rw [if_neg (by rwa [bytes_nil_iff]),
    if_neg (by rw [happ]; exact Bool.false_ne_true), length_bytes,
    UInt64.ofNat_toNat]
  refine ⟨?_, hentry⟩
  rw [hcontent, dataOf, Option.getD_some, mergedBytes_eq]
  rfl

theorem append_writesFile_iff (h : s.Steady) (hsize : size ≠ 0)
    (happ : flagSet entry.flags oAppend = true)
    (hold : s.content entry.path = some old)
    (hrun : fdFileWrite a entry buffer size s = (some (n, entry'), s')) :
    n = size ∧ (WritesFile entry entry' old
        (bufferBytes (dataOf buffer) size.toNat) (s'.content entry.path) ↔
      entry.offset = UInt64.ofNat old.length ∧ s.EndShownOf entry.path) := by
  obtain ⟨happend, hn, hentry⟩ := fdFileWrite_append hsize happ hrun
  have hne : size.toNat ≠ 0 := fun hz => hsize (UInt64.toNat_inj.mp hz)
  have hcontent := Fs.append_content_iff h size.toNat_lt hold happend
  have hoffset : entry' =
        { entry with
          offset := UInt64.ofNat
            (old ++ bufferBytes (dataOf buffer) size.toNat).length } ↔
      entry.offset = UInt64.ofNat old.length := by
    rw [hentry, List.length_append, length_bytes, UInt64.ofNat_add,
      UInt64.ofNat_toNat, FdEntry.mk.injEq]
    simp only [true_and, and_true]
    exact UInt64.add_left_inj size
  refine ⟨hn, ?_⟩
  unfold WritesFile
  rw [if_neg (by rwa [bytes_nil_iff]), if_pos happ, hoffset, hcontent,
    or_iff_right hne]
  exact And.comm

theorem fdFileWrite_steady (h : s.Steady)
    (hne : Suffices s entry buffer size) :
    (fdFileWrite a entry buffer size s).2.Steady := by
  unfold fdFileWrite
  cases a.writeAllowed with
  | false => exact h
  | true =>
    rw [Cmd.require_true_bind]
    by_cases hsize : size = 0
    · rw [if_pos hsize]
      exact h
    rw [if_neg hsize]
    cases buffer with
    | none => exact h
    | some data =>
      dsimp only
      cases happ : flagSet entry.flags oAppend with
      | true =>
        rw [if_pos rfl, Cmd.bind_pure_state]
        exact h.append size.toNat_lt (hne.append happ)
      | false =>
        rw [if_neg Bool.false_ne_true]
        cases a.readable with
        | false => exact h
        | true =>
          rw [Cmd.require_true_bind]
          have hsteady := h.readAll entry.path
          cases hread : Fs.readAll entry.path s with
          | mk r s1 =>
            rw [hread] at hsteady
            cases r with
            | none =>
              rw [Cmd.bind_err hread]
              exact hsteady
            | some old =>
              rw [Cmd.bind_ok hread]
              cases hroom : decide
                  (entry.offset ≤ 0xFFFFFFFFFFFFFFFF - size) with
              | false => exact hsteady
              | true =>
                rw [Cmd.require_true_bind]
                split
                · exact hsteady
                cases a.merged (newSize old entry.offset size) with
                | false => exact hsteady
                | true =>
                  rw [Cmd.require_true_bind, Cmd.bind_pure_state]
                  have hold : s.content entry.path = some old :=
                    congrArg Prod.fst hread
                  obtain rfl : (Fs.readAll entry.path s).2 = s1 :=
                    congrArg Prod.snd hread
                  refine hsteady.writeAll ?_ ?_
                  · exact newSize_lt hsteady
                      ((Fs.readAll_same h _ _).1.trans hold)
                      (room_of_le (of_decide_eq_true hroom))
                  · intro hex
                    have hex' : (Fs.readAll entry.path s).2.WriteExhausts
                        entry.path
                        (some (mergedBytes old entry.offset size data))
                        (newSize old entry.offset size) := hex
                    have hboth : (some (mergedBytes old entry.offset size
                        data)).isSome = (some data).isSome := rfl
                    exact hne.overlay happ old hold (hex'.of_readAll h hboth)

end write

-- ==== the calls

section calls

variable {a : WriteAnswers} {call : WriteCall} {c : Fin fdMax} {n : UInt64}
  {m₀ m m' : Files} {old : List UInt8}

theorem fdWrite_state (fds : Fin fdMax → FdEntry) (fd : UInt64)
    (buffer : Option Mem) (size : UInt64) (s : FsState) :
    (fdWrite a fds fd buffer size s).2 = s ∨
      ∃ c, fdLookup fd fds = some c ∧ (fds c).kind = .file ∧
        (fdWrite a fds fd buffer size s).2
          = (fdFileWrite a (fds c) buffer size s).2 := by
  unfold fdWrite
  split
  · exact .inl rfl
  split
  · exact .inl rfl
  cases hlook : fdLookup fd fds with
  | none => exact .inl rfl
  | some c =>
    dsimp only
    split
    · exact .inl rfl
    rw [Cmd.bind_pure_state]
    unfold entryWrite
    cases hkind : (fds c).kind with
    | file => exact .inr ⟨c, rfl, hkind, rfl⟩
    | devFb0 =>
      left
      cases a.wrote <;> rfl
    | pty =>
      left
      cases a.wrote <;> rfl
    | _ => exact .inl rfl

theorem write_steady (h : m.fs.Steady) (hne : call.Suffices m) :
    (m.write a call).2.fs.Steady := by
  have hstate : (m.write a call).2.fs
      = (fdWrite a (m.fds call.proc) call.fd call.buffer call.size m.fs).2 :=
    by
    unfold Files.write
    split <;> next hrun => rw [hrun]
  rw [hstate]
  rcases @fdWrite_state a (m.fds call.proc) call.fd call.buffer call.size
    m.fs with hsame | ⟨c, hc, hfile, hwrite⟩
  · rw [hsame]
    exact h
  · rw [hwrite]
    exact fdFileWrite_steady h (hne c hc hfile)

theorem Files.Run.steady (h : m₀.fs.Steady) (hrun : Files.Run m₀ m) :
    m.fs.Steady := by
  induction hrun with
  | refl => exact h
  | tail _ hstep ih =>
    obtain ⟨a, call, hne, rfl⟩ := hstep
    exact write_steady ih hne

theorem write_file (hc : fdLookup call.fd (m.fds call.proc) = some c)
    (hfile : (call.entry c m).kind = .file)
    (hstep : m.write a call = (some n, m')) :
    call.size = 0 ∧ n = 0 ∧ m' = m ∨
      call.size ≠ 0 ∧ fdFileWrite a (call.entry c m) call.buffer call.size
        m.fs = (some (n, call.entry c m'), m'.fs) := by
  unfold Files.write at hstep
  split at hstep
  · cases hstep
  next n' fds fs hrun =>
    cases hstep
    unfold fdWrite at hrun
    by_cases hsize : call.size = 0
    · rw [if_pos hsize] at hrun
      cases hrun
      refine .inl ⟨hsize, rfl, ?_⟩
      rw [Function.update_eq_self]
    rw [if_neg hsize] at hrun
    refine .inr ⟨hsize, ?_⟩
    split at hrun
    · cases hrun
    rw [hc] at hrun
    dsimp only at hrun
    split at hrun
    · cases hrun
    obtain ⟨found, s1, hwrite, hend⟩ := Cmd.bind_ok_inv hrun
    cases hend
    unfold entryWrite at hwrite
    unfold WriteCall.entry at hfile
    rw [hfile] at hwrite
    unfold WriteCall.entry
    dsimp only
    rw [Function.update_self, Function.update_self]
    exact hwrite

/-- Behind any number of calls for which there were clusters enough, a
write to a file that succeeds returns the number of its bytes, and does
what a write should exactly if a descriptor with O_APPEND was at the end
of the file and the disk's image shows that end. -/
theorem write_writesFile_iff (h₀ : m₀.fs.Steady) (hrun : Files.Run m₀ m)
    (hc : fdLookup call.fd (m.fds call.proc) = some c)
    (hfile : (call.entry c m).kind = .file)
    (hold : m.fs.content (call.entry c m).path = some old)
    (hstep : m.write a call = (some n, m')) :
    n = call.size ∧
      (WritesFile (call.entry c m) (call.entry c m') old call.bytes
          (m'.fs.content (call.entry c m).path) ↔
        call.AtEnd c m old) := by
  have hsteady := hrun.steady h₀
  unfold WriteCall.AtEnd WriteCall.bytes
  rcases write_file hc hfile hstep with ⟨hsize, rfl, rfl⟩ | ⟨hsize, hwrite⟩
  · rw [hsize]
    refine ⟨rfl, iff_of_true ?_ fun hne => absurd rfl hne⟩
    unfold WritesFile
    rw [if_pos ((bytes_nil_iff _ 0).mpr rfl)]
    exact ⟨hold, rfl⟩
  · cases happ : flagSet (call.entry c m).flags oAppend with
    | false =>
      obtain ⟨hn, hover⟩ := over_writesFile hsteady hsize happ hold hwrite
      exact ⟨hn, iff_of_true hover fun _ h => nomatch h⟩
    | true =>
      obtain ⟨hn, hiff⟩ := append_writesFile_iff hsteady hsize happ hold hwrite
      exact ⟨hn, hiff.trans ⟨fun h _ _ => h, fun h => h hsize rfl⟩⟩

end calls

-- ==== two descriptors

/-- An empty file outside the mount, and in every process a descriptor on
it with O_APPEND. -/
def sharedLog : Files where
  fs :=
    { ready := true
      nodes :=
        [⟨true, .dir, 0, [], []⟩, ⟨true, .file, 0, [], txt "log"⟩]
      disk := Disk.freshDisk }
  fds _ _ :=
    { FdEntry.zero with
      used := true, kind := .file, flags := 0x401, path := txt "/log" }

/-- Whatever is asked for is granted. -/
def granting : WriteAnswers := ⟨true, true, fun _ => true, fun _ => true, none⟩

/-- One byte through the third descriptor of a process. -/
def oneByte (i : Fin maxProcs) (byte : UInt8) : WriteCall :=
  ⟨i, 3, some fun _ => byte, 1⟩

/-- There is a process 0. -/
local instance maxProcs_neZero : NeZero maxProcs := ⟨by decide⟩

/-- What one process has written. -/
def firstByte : Files := (sharedLog.write granting (oneByte 1 0x78)).2

theorem sharedLog_steady : sharedLog.fs.Steady := fun _ =>
  ⟨_, Disk.freshVol_holds⟩

/-- Two processes append a byte each to an empty file. The second byte is
at the end of the file, and the descriptor that wrote it is not. -/
theorem firstByte_not_writesFile :
    ∃ m', firstByte.write granting (oneByte 2 0x79) = (some 1, m') ∧
      firstByte.fs.content (txt "/log") = some [0x78] ∧
      m'.fs.content (txt "/log") = some [0x78, 0x79] ∧
      ((oneByte 2 0x79).entry 3 m').offset = 1 ∧
      ¬ WritesFile ((oneByte 2 0x79).entry 3 firstByte)
        ((oneByte 2 0x79).entry 3 m') [0x78] (oneByte 2 0x79).bytes
        (m'.fs.content (txt "/log")) := by
  have hoffset : ((oneByte 2 0x79).entry 3
      (firstByte.write granting (oneByte 2 0x79)).2).offset = 1 := by
    decide +kernel
  refine ⟨(firstByte.write granting (oneByte 2 0x79)).2,
    Prod.ext (by decide +kernel) rfl, by decide +kernel, by decide +kernel,
    hoffset, fun h => ?_⟩
  have happ : flagSet ((oneByte 2 0x79).entry 3 firstByte).flags oAppend
      = true := by decide +kernel
  unfold WritesFile at h
  rw [if_neg (by decide), if_pos happ] at h
  rw [h.2] at hoffset
  revert hoffset
  decide

/-- The first of the two bytes. -/
theorem write_writesFile_iff_first :
    (1 : UInt64) = (oneByte 1 0x78).size ∧
      (WritesFile ((oneByte 1 0x78).entry 3 sharedLog)
          ((oneByte 1 0x78).entry 3 firstByte) [] (oneByte 1 0x78).bytes
          (firstByte.fs.content (txt "/log")) ↔
        (oneByte 1 0x78).AtEnd 3 sharedLog []) :=
  write_writesFile_iff (a := granting) sharedLog_steady .refl
    (by decide +kernel) rfl (by decide +kernel)
    (Prod.ext (by decide +kernel) rfl)

end Clks.Exec
