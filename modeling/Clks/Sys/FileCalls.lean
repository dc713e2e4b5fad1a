/-
The file system calls of a program (syscall/handlers/fs.rs): write, append,
remove and mkdir.

Each of them copies the path into a buffer of `PATH_MAX` bytes first, and
then calls the kernel. What the kernel does is a parameter here
(`Kernel`), so that nothing but the handler decides which file is acted
on: the one at the path in its buffer, which is the one that the caller
named exactly if the buffer is not full before (`named_iff`).
-/
import Clks.Lib.Bytes
import Clks.Lib.Cmd
import Clks.Sys.UserCopy

namespace Clks.Sys

open Bytes

-- ==== the constants

/-- `PATH_MAX`. -/
abbrev pathMax : Nat := 192

/-- `FS_IO_CHUNK_LEN`. -/
abbrev fsIoChunkLen : Nat := 65536

/-- The length up to which a write is made at once. -/
abbrev wholeMax : Nat := 1024 * 1024

-- ==== the kernel

/-- What the handlers call: `clks_user_path_write_allowed`,
`clks_kmalloc`, `clks_kfree`, `clks_fs_write_all`, `clks_fs_append`,
`clks_fs_remove` and `clks_fs_mkdir`. -/
structure Kernel (σ : Type) where
  pathWriteAllowed : List UInt8 → σ → Bool
  kmalloc : Nat → Cmd σ Unit
  kfree : Cmd σ Unit
  writeAll : List UInt8 → Option Mem → Nat → Cmd σ Unit
  append : List UInt8 → Option Mem → Nat → Cmd σ Unit
  remove : List UInt8 → Cmd σ Unit
  mkdir : List UInt8 → Cmd σ Unit

-- ==== the handlers

/-- The pieces that a loop over `size` bytes goes through, from an offset
on: where they begin and how long they are. -/
def pieces (size : Nat) : Nat → Nat → List (Nat × Nat)
  | 0, _ => []
  | n + 1, offset =>
    if offset < size then
      let chunkLen := min (size - offset) fsIoChunkLen
      (offset, chunkLen) :: pieces size n (offset + chunkLen)
    else []

/-- All pieces. -/
def allPieces (size : Nat) : List (Nat × Nat) :=
  pieces size (size / fsIoChunkLen + 1) 0

/-- The check of a loop over the pieces of a buffer. -/
def UserMemory.bufferReadable (m : UserMemory) (buf : UInt64) (size : Nat) :
    Bool :=
  (allPieces size).all fun p =>
    let src := buf + UInt64.ofNat p.1
    !(src < buf) && m.userPtrReadable src (UInt64.ofNat p.2)

/-- The bytes of a buffer from an offset on. -/
def UserMemory.buffer (m : UserMemory) (buf : UInt64) (offset : Nat) : Mem :=
  fun i => m.byte (buf + UInt64.ofNat (offset + i))

section handlers

variable {σ : Type} (k : Kernel σ) (m : UserMemory)

/-- The start of a handler: the path in its buffer, and whether it may be
written. -/
def writablePath (arg0 : UInt64) : Cmd σ (List UInt8) := do
  let copied := m.copyUserString arg0 (List.replicate pathMax 0)
  Cmd.require copied.1
  let s ← Cmd.get
  Cmd.require (k.pathWriteAllowed (cString copied.2) s)
  return cString copied.2

/-- What the last loop of `write_common` does with a piece. -/
def writePiece (path : List UInt8) (buf : UInt64) (appendMode : Bool)
    (piece : Nat × Nat) : Cmd σ Unit :=
  if appendMode || 0 < piece.1 then
    k.append path (some (m.buffer buf piece.1)) piece.2
  else k.writeAll path (some (m.buffer buf piece.1)) piece.2

/-- The last loop of `write_common`. -/
def writePieces (path : List UInt8) (buf : UInt64) (appendMode : Bool) :
    List (Nat × Nat) → Cmd σ Unit
  | [] => pure ()
  | piece :: rest => do
    writePiece k m path buf appendMode piece
    writePieces path buf appendMode rest

/-- `write_common`, where it writes piece by piece. -/
def writeChunked (path : List UInt8) (buf size : UInt64)
    (appendMode : Bool) : Cmd σ UInt64 := do
  Cmd.require (m.bufferReadable buf size.toNat)
  writePieces k m path buf appendMode (allPieces size.toNat)
  return size

/-- `write_common`, where it has the memory to write at once. -/
def writeWhole (path : List UInt8) (buf size : UInt64) : Cmd σ UInt64 := do
  if m.bufferReadable buf size.toNat then
    let ok ← Cmd.attempt
      (k.writeAll path (some (m.buffer buf 0)) size.toNat)
    k.kfree
    Cmd.require ok.isSome
    return size
  else
    k.kfree
    Cmd.fail

/-- `write_common`, behind the path. -/
def writeTo (path : List UInt8) (buf size : UInt64) (appendMode : Bool) :
    Cmd σ UInt64 := do
  if size = 0 then
    (if appendMode then k.append path none 0 else k.writeAll path none 0)
    return 1
  else
    Cmd.require (buf ≠ 0)
    if !appendMode && size.toNat ≤ wholeMax then
      let whole ← Cmd.attempt (k.kmalloc size.toNat)
      if whole.isSome then writeWhole k m path buf size
      else writeChunked k m path buf size appendMode
    else writeChunked k m path buf size appendMode

/-- `write_common`. -/
def writeCommon (arg0 arg1 arg2 : UInt64) (appendMode : Bool) :
    Cmd σ UInt64 := do
  let path ← writablePath k m arg0
  writeTo k m path arg1 arg2 appendMode

/-- `remove`. -/
def remove (arg0 : UInt64) : Cmd σ UInt64 := do
  let path ← writablePath k m arg0
  k.remove path
  return 1

/-- `mkdir`. -/
def mkdir (arg0 : UInt64) : Cmd σ UInt64 := do
  let path ← writablePath k m arg0
  k.mkdir path
  return 1

theorem writablePath_bind {α : Type} (arg0 : UInt64)
    (f : List UInt8 → Cmd σ α) (s : σ) :
    (writablePath k m arg0 >>= f) s
      = if (m.copyUserString arg0 (List.replicate pathMax 0)).1 = true ∧
            k.pathWriteAllowed (cString (m.copyUserString arg0
              (List.replicate pathMax 0)).2) s = true then
          f (cString (m.copyUserString arg0 (List.replicate pathMax 0)).2) s
        else (none, s) := by
  unfold writablePath
  simp only []
  generalize m.copyUserString arg0 (List.replicate pathMax 0) = copied
  obtain ⟨ok, buf⟩ := copied
  cases ok with
  | false => rfl
  | true =>
    rw [Cmd.bind_assoc_apply, Cmd.require_true_bind, Cmd.bind_assoc_apply,
      Cmd.get_bind_apply, Cmd.bind_assoc_apply]
    cases k.pathWriteAllowed (cString buf) s <;> rfl

/-- The calls that act on a file. -/
inductive FileCall
  | write
  | append
  | remove
  | mkdir
  deriving DecidableEq, Repr

/-- A call with its arguments; where it fails, it returns 0. -/
def FileCall.run (arg0 arg1 arg2 : UInt64) : FileCall → Cmd σ UInt64
  | .write => writeCommon k m arg0 arg1 arg2 false
  | .append => writeCommon k m arg0 arg1 arg2 true
  | .remove => Sys.remove k m arg0
  | .mkdir => Sys.mkdir k m arg0

end handlers

-- ==== what is acted on

section logged

variable {σ α : Type}

/-- A command that is not about a file. -/
def aside (c : Cmd σ α) : Cmd (σ × List (List UInt8)) α := fun s =>
  ((c s.1).1, (c s.1).2, s.2)

/-- A command that acts on a file. -/
def acting (path : List UInt8) (c : Cmd σ α) :
    Cmd (σ × List (List UInt8)) α := fun s =>
  ((c s.1).1, (c s.1).2, s.2 ++ [path])

/-- The kernel, with the paths of the files that it was told to act on. -/
def Kernel.logged (k : Kernel σ) : Kernel (σ × List (List UInt8)) where
  pathWriteAllowed path s := k.pathWriteAllowed path s.1
  kmalloc size := aside (k.kmalloc size)
  kfree := aside k.kfree
  writeAll path data size := acting path (k.writeAll path data size)
  append path data size := acting path (k.append path data size)
  remove path := acting path (k.remove path)
  mkdir path := acting path (k.mkdir path)

/-- The files that a call acts on. -/
def FileCall.actsOn (call : FileCall) (k : Kernel σ) (m : UserMemory)
    (arg0 arg1 arg2 : UInt64) (s : σ) : List (List UInt8) :=
  (call.run k.logged m arg0 arg1 arg2 (s, [])).2.2

/-- A call acts on no file but the one that its caller named, whatever
the kernel answers. -/
def FileCall.Named (call : FileCall) (m : UserMemory) (arg0 : UInt64) :
    Prop :=
  ∀ (σ : Type) (k : Kernel σ) (arg1 arg2 : UInt64) (s : σ),
    ∀ path ∈ call.actsOn k m arg0 arg1 arg2 s, m.IsString arg0 path

/-- Nothing but `path` was acted on. -/
def OnlyOn (path : List UInt8) (s s' : σ × List (List UInt8)) : Prop :=
  ∀ p ∈ s'.2, p ∈ s.2 ∨ p = path

instance (path : List UInt8) :
    IsPreorder (σ × List (List UInt8)) (OnlyOn path) where
  refl _ _ hp := .inl hp
  trans _ _ _ h h' p hp := by
    cases h' p hp with
    | inl hmid => exact h p hmid
    | inr heq => exact .inr heq

variable {k : Kernel σ} {m : UserMemory} {path : List UInt8}
  {f : List UInt8 → Cmd (σ × List (List UInt8)) α}

theorem onlyOn_aside (c : Cmd σ α) : Cmd.Keeps (OnlyOn path) (aside c) :=
  fun _ _ hp => .inl hp

theorem onlyOn_acting (c : Cmd σ α) :
    Cmd.Keeps (OnlyOn path) (acting path c) := by
  intro s p hp
  cases List.mem_append.mp hp with
  | inl hold => exact .inl hold
  | inr hnew => exact .inr (List.mem_singleton.mp hnew)

theorem onlyOn_writePieces (buf : UInt64) (appendMode : Bool)
    (ps : List (Nat × Nat)) :
    Cmd.Keeps (OnlyOn path)
      (writePieces k.logged m path buf appendMode ps) := by
  induction ps with
  | nil => exact .pure ()
  | cons p ps ih =>
    refine .bind ?_ fun _ => ih
    exact .ite (onlyOn_acting _) (onlyOn_acting _)

theorem onlyOn_writeChunked (buf size : UInt64) (appendMode : Bool) :
    Cmd.Keeps (OnlyOn path)
      (writeChunked k.logged m path buf size appendMode) :=
  .bind (.require _) fun _ =>
    .bind (onlyOn_writePieces buf appendMode _) fun _ => .pure size

theorem onlyOn_writeWhole (buf size : UInt64) :
    Cmd.Keeps (OnlyOn path) (writeWhole k.logged m path buf size) := by
  refine .ite (.bind (.attempt (onlyOn_acting _)) fun ok => ?_) ?_
  · exact .bind (onlyOn_aside _) fun _ => .bind (.require _) fun _ =>
      .pure size
  · exact .bind (onlyOn_aside _) fun _ => .fail

theorem onlyOn_writeTo (buf size : UInt64) (appendMode : Bool) :
    Cmd.Keeps (OnlyOn path)
      (writeTo k.logged m path buf size appendMode) := by
  refine .ite ?_ (.bind (.require _) fun _ => .ite ?_ ?_)
  · exact .bind (.ite (onlyOn_acting _) (onlyOn_acting _)) fun _ => .pure 1
  · exact .bind (.attempt (onlyOn_aside _)) fun whole =>
      .ite (onlyOn_writeWhole buf size)
        (onlyOn_writeChunked buf size appendMode)
  · exact onlyOn_writeChunked buf size appendMode

theorem actsOn_writable (h : ∀ p, Cmd.Keeps (OnlyOn p) (f p)) (arg0 : UInt64)
    (s : σ) :
    ∀ p ∈ ((writablePath k.logged m arg0 >>= f) (s, [])).2.2,
      (m.copyUserString arg0 (List.replicate pathMax 0)).1 = true ∧
        p = cString (m.copyUserString arg0 (List.replicate pathMax 0)).2 := by
  intro p hp
  rw [writablePath_bind] at hp
  split at hp
  · next hok =>
    refine ⟨hok.1, ?_⟩
    cases h _ (s, []) p hp with
    | inl hnone => cases hnone
    | inr heq => exact heq
  · cases hp

theorem FileCall.actsOn_path (call : FileCall) (arg0 arg1 arg2 : UInt64)
    (s : σ) :
    ∀ p ∈ call.actsOn k m arg0 arg1 arg2 s,
      (m.copyUserString arg0 (List.replicate pathMax 0)).1 = true ∧
        p = cString (m.copyUserString arg0 (List.replicate pathMax 0)).2 := by
  cases call with
  | write => exact actsOn_writable (fun p => onlyOn_writeTo _ _ _) arg0 s
  | append => exact actsOn_writable (fun p => onlyOn_writeTo _ _ _) arg0 s
  | remove =>
    exact actsOn_writable
      (fun p => .bind (onlyOn_acting _) fun _ => .pure 1) arg0 s
  | mkdir =>
    exact actsOn_writable
      (fun p => .bind (onlyOn_acting _) fun _ => .pure 1) arg0 s

/-- A kernel that does whatever it is told. -/
def willing : Kernel Unit where
  pathWriteAllowed _ _ := true
  kmalloc _ := pure ()
  kfree := pure ()
  writeAll _ _ _ := pure ()
  append _ _ _ := pure ()
  remove _ := pure ()
  mkdir _ := pure ()

theorem FileCall.actsOn_willing (call : FileCall) {arg0 : UInt64}
    (h : (m.copyUserString arg0 (List.replicate pathMax 0)).1 = true) :
    call.actsOn willing m arg0 0 0 ()
      = [cString (m.copyUserString arg0 (List.replicate pathMax 0)).2] := by
  have hok : ∀ f : List UInt8 → Cmd (Unit × List (List UInt8)) UInt64,
      (writablePath willing.logged m arg0 >>= f) ((), [])
        = f (cString (m.copyUserString arg0 (List.replicate pathMax 0)).2)
            ((), []) :=
    fun f => (writablePath_bind _ m arg0 f _).trans (if_pos ⟨h, rfl⟩)
  cases call with
  | write => exact congrArg (·.2.2) (hok _)
  | append => exact congrArg (·.2.2) (hok _)
  | remove => exact congrArg (·.2.2) (hok _)
  | mkdir => exact congrArg (·.2.2) (hok _)

end logged

-- ==== both together

section exact

variable {m : UserMemory}

theorem FileCall.named_iff (call : FileCall) (arg0 : UInt64) :
    call.Named m arg0 ↔ ¬ m.Overruns arg0 pathMax := by
  have hlen : (List.replicate pathMax (0 : UInt8)).length = pathMax :=
    List.length_replicate
  have hcopied := @UserMemory.copied_iff m arg0 (List.replicate pathMax 0)
    (by rw [hlen]; decide)
  rw [hlen] at hcopied
  rw [← hcopied]
  constructor
  · intro hnamed hok
    have hs := hnamed Unit willing 0 0 () _
      (by rw [call.actsOn_willing hok]; exact List.mem_singleton_self _)
    refine ⟨_, hs, UserMemory.copyUserString_cString ?_ hok⟩
    rw [hlen]
    decide
  · intro hcopied σ k arg1 arg2 s p hp
    obtain ⟨hok, rfl⟩ := call.actsOn_path arg0 arg1 arg2 s p hp
    obtain ⟨t, ht, hpre⟩ := hcopied hok
    rw [UserMemory.cString_of_starts hpre ht.ne_zero]
    exact ht

/-- Paths are copied as they are exactly if they fit: into a buffer of any
size, and so that a call acts on the named file alone. -/
theorem pathsExact_iff (m : UserMemory) (src : UInt64) :
    (∀ dst : List UInt8, dst.length ≤ 2 ^ 64 →
        (m.Copied src dst ↔ ¬ m.Overruns src dst.length)) ∧
      ∀ call : FileCall, call.Named m src ↔ ¬ m.Overruns src pathMax :=
  ⟨fun _ => UserMemory.copied_iff, fun call => call.named_iff src⟩

end exact

-- ==== a long path

/-- A page at 4096 that is filled with the same letter up to a NUL at
4296. -/
def longPath : UserMemory where
  inUserExecContext := true
  readable addr size := 4096 ≤ addr && addr + size ≤ 8192
  byte addr := if addr = 4296 then 0 else 0x61

theorem longPath_copied :
    longPath.copyUserString 4096 (List.replicate pathMax 0)
      = (true, List.replicate 191 0x61 ++ [0]) := by
  decide +kernel

/-- The caller names a path of 200 bytes, and the call acts on its first
191. -/
theorem longPath_not_exact :
    longPath.IsString 4096 (List.replicate 200 0x61) ∧
      ¬ longPath.Copied 4096 (List.replicate pathMax 0) ∧
      ∀ call : FileCall,
        call.actsOn willing longPath 4096 0 0 ()
          = [List.replicate 191 0x61] ∧
        ¬ call.Named longPath 4096 := by
  have hcut : cString (List.replicate 191 0x61 ++ [0])
      = List.replicate 191 0x61 := by decide +kernel
  have hnot : ¬ longPath.IsString 4096 (List.replicate 191 0x61) := by
    intro hs
    have hnul := hs.nul
    rw [List.length_replicate] at hnul
    revert hnul
    decide +kernel
  refine ⟨⟨?_, by decide +kernel⟩, ?_, fun call => ?_⟩
  · have hbytes : ∀ i < 200, longPath.byteAt 4096 i = some 0x61 := by
      decide +kernel
    intro i hi
    rw [List.getElem_replicate]
    rw [List.length_replicate] at hi
    exact ⟨by decide, hbytes i hi⟩
  · intro hcopied
    unfold UserMemory.Copied at hcopied
    rw [longPath_copied] at hcopied
    obtain ⟨s, hs, hpre⟩ := hcopied rfl
    have hsame := UserMemory.cString_of_starts hpre hs.ne_zero
    rw [hcut] at hsame
    rw [hsame] at hnot
    exact hnot hs
  · have hacts := @FileCall.actsOn_willing longPath call 4096
      (by rw [longPath_copied])
    rw [longPath_copied, hcut] at hacts
    refine ⟨hacts, fun hnamed => hnot ?_⟩
    refine hnamed Unit willing 0 0 () _ ?_
    rw [hacts]
    exact List.mem_singleton_self _

/-- The copy of the last bytes of the same string. -/
theorem pathsExact_iff_tail :
    longPath.Copied 4290 (List.replicate pathMax 0) ↔
      ¬ longPath.Overruns 4290 (List.replicate pathMax (0 : UInt8)).length :=
  (pathsExact_iff longPath 4290).1 (List.replicate pathMax 0)
    (by decide +kernel)

end Clks.Sys
