/-
What goes through the pseudo terminals (pty.c).

Each slot has a ring of its own, and a terminal is found by its id, so that
what is done to one terminal does nothing to the others. A ring is the queue
of a channel that loses its oldest bytes.

# The theorem

- `channel_of_run`: a terminal behind any reads and writes, of this one and
  of others.
-/
import Clks.Exec.Process
import Clks.Lib.Fifo
import Clks.Lib.RingBuf

namespace Clks.Exec

/-- `CLKS_PTY_BUFFER_SIZE`. -/
abbrev ptyBufferSize : Nat := 8192

/-- `struct clks_pty_slot`. -/
structure PtySlot extends Pty where
  ring : RingBuf UInt8 ptyBufferSize

/-- A slot of zeros. -/
def PtySlot.zero : PtySlot := ⟨Pty.zero, .empty 0 (by decide)⟩

/-- `clks_pty_slots`, with `clks_pty_next_id`. -/
structure Ptys where
  slots : Fin ptyMax → PtySlot
  nextId : UInt64

namespace Ptys

/-- `clks_pty_init`. -/
def init : Ptys := ⟨fun _ => .zero, 1⟩

/-- `clks_pty_find_slot`. -/
def findSlot (ptyId : UInt64) (s : Ptys) : Option (Fin ptyMax) :=
  findPty ptyId fun i => (s.slots i).toPty

/-- The ring of a slot changes. -/
def setRing (i : Fin ptyMax) (ring : RingBuf UInt8 ptyBufferSize) (s : Ptys) :
    Ptys :=
  { s with slots := Function.update s.slots i ⟨(s.slots i).toPty, ring⟩ }

/-- `clks_pty_alloc`. -/
def alloc (s : Ptys) : UInt64 × Ptys :=
  match (List.finRange ptyMax).find? fun i => !(s.slots i).used with
  | none => (0, s)
  | some i =>
    let next := if s.nextId + 1 = 0 then 1 else s.nextId + 1
    let (id, next) := if s.nextId = 0 then (next, next + 1) else (s.nextId, next)
    (id,
      { slots := Function.update s.slots i ⟨⟨true, id, 1⟩, PtySlot.zero.ring⟩
        nextId := next })

/-- `clks_pty_read`; `buffer`: there is one. None is the answer -1. -/
def read (ptyId : UInt64) (buffer : Bool) (size : Nat) (s : Ptys) :
    Option (List UInt8) × Ptys :=
  if !buffer && size ≠ 0 then (none, s)
  else if size = 0 then (some [], s)
  else
    match s.findSlot ptyId with
    | none => (none, s)
    | some i =>
      let (bytes, ring) := (s.slots i).ring.popMany size
      (some bytes, s.setRing i ring)

/-- `clks_pty_write`; none is a null pointer with a size. -/
def write (ptyId : UInt64) (buffer : Option (List UInt8)) (s : Ptys) :
    Option Nat × Ptys :=
  match buffer with
  | none => (none, s)
  | some bytes =>
    if bytes = [] then (some 0, s)
    else
      match s.findSlot ptyId with
      | none => (none, s)
      | some i =>
        (some bytes.length, s.setRing i ((s.slots i).ring.pushAll bytes))

inductive Op
  | read (ptyId : UInt64) (buffer : Bool) (size : Nat)
  | write (ptyId : UInt64) (buffer : Option (List UInt8))

/-- The terminal that is read or written. -/
def Op.ptyId : Op → UInt64
  | .read ptyId _ _ | .write ptyId _ => ptyId

/-- The terminals behind an operation, and the bytes that it has returned. -/
def step (s : Ptys) : Op → Option (List UInt8) × Ptys
  | .read ptyId buffer size => s.read ptyId buffer size
  | .write ptyId buffer => (none, (s.write ptyId buffer).2)

/-- The terminals behind some operations, and the bytes that the reads of one
of them have returned, one list for each read. -/
def run (ptyId : UInt64) : List Op → Ptys → List (List UInt8) × Ptys
  | [], s => ([], s)
  | op :: ops, s =>
    let (bytes, s) := s.step op
    let (reads, s) := run ptyId ops s
    (if op.ptyId = ptyId then bytes.toList ++ reads else reads, s)

/-- What an operation does to the channel of a terminal. -/
def Op.transfer (ptyId : UInt64) (op : Op) : Option (Fifo.Op UInt8) :=
  if op.ptyId ≠ ptyId then none
  else
    match op with
    | .read _ buffer size =>
      if !buffer && size ≠ 0 then none else some (.read size)
    | .write _ buffer => buffer.map .write

/-- What waits in a slot. -/
def content (i : Fin ptyMax) (s : Ptys) : List UInt8 := (s.slots i).ring.toList

section channels

variable {s : Ptys} {ptyId : UInt64} {i j : Fin ptyMax} {op : Op}

theorem findSlot_setRing (ring : RingBuf UInt8 ptyBufferSize) :
    (s.setRing i ring).findSlot ptyId = s.findSlot ptyId := by
  unfold findSlot
  congr 1
  funext k
  unfold setRing
  by_cases hk : k = i
  · rw [hk]
    dsimp only
    rw [Function.update_self]
  · dsimp only
    rw [Function.update_of_ne hk]

theorem content_setRing (ring : RingBuf UInt8 ptyBufferSize) :
    (s.setRing i ring).content i = ring.toList := by
  unfold content setRing
  dsimp only
  rw [Function.update_self]

theorem findSlot_step : (s.step op).2.findSlot ptyId = s.findSlot ptyId := by
  cases op with
  | read ptyId' buffer size =>
    show (s.read ptyId' buffer size).2.findSlot ptyId = _
    unfold read
    split
    · rfl
    split
    · rfl
    split
    · rfl
    · exact findSlot_setRing _
  | write ptyId' buffer =>
    show (s.write ptyId' buffer).2.findSlot ptyId = _
    unfold write
    split
    · rfl
    split
    · rfl
    split
    · rfl
    · exact findSlot_setRing _

theorem step_other (hother : s.findSlot op.ptyId ≠ some j) :
    (s.step op).2.slots j = s.slots j := by
  have hupdate : ∀ i ring, s.findSlot op.ptyId = some i →
      (s.setRing i ring).slots j = s.slots j := by
    intro i ring hi
    refine Function.update_of_ne ?_ _ _
    rintro rfl
    exact hother hi
  cases op with
  | read ptyId buffer size =>
    show (s.read ptyId buffer size).2.slots j = _
    unfold read
    split
    · rfl
    split
    · rfl
    split
    · rfl
    · next i hi => exact hupdate i _ hi
  | write ptyId buffer =>
    show (s.write ptyId buffer).2.slots j = _
    unfold write
    split
    · rfl
    split
    · rfl
    split
    · rfl
    · next i hi => exact hupdate i _ hi

theorem findSlot_ne {ptyId' : UInt64} (hfound : s.findSlot ptyId = some i)
    (hne : ptyId' ≠ ptyId) : s.findSlot ptyId' ≠ some i := by
  have hid : ∀ {id : UInt64}, s.findSlot id = some i → (s.slots i).id = id := by
    intro id h
    unfold findSlot findPty at h
    split at h
    · cases h
    · have hcond := List.find?_some h
      rw [Bool.and_eq_true, decide_eq_true_iff] at hcond
      exact hcond.2
  exact fun h => hne ((hid h).symm.trans (hid hfound))

theorem step_none (htransfer : op.transfer ptyId = none)
    (hptyId : op.ptyId = ptyId) : s.step op = (none, s) := by
  unfold Op.transfer at htransfer
  rw [if_neg (not_not.mpr hptyId)] at htransfer
  cases op with
  | read ptyId' buffer size =>
    dsimp only at htransfer
    show s.read ptyId' buffer size = _
    unfold read
    split at htransfer
    · next hnull => rw [if_pos hnull]
    · cases htransfer
  | write ptyId' buffer =>
    obtain rfl := Option.map_eq_none_iff.mp htransfer
    rfl

theorem step_write {bytes : List UInt8} (hfound : s.findSlot ptyId = some i)
    (htransfer : op.transfer ptyId = some (.write bytes)) :
    (s.step op).1 = none ∧
      (s.step op).2.content i
        = (s.content i ++ bytes).drop
          ((s.content i).length + bytes.length - ptyBufferSize) := by
  unfold Op.transfer at htransfer
  split at htransfer
  · cases htransfer
  next hptyId =>
  rw [not_not] at hptyId
  cases op with
  | read ptyId' buffer size =>
    dsimp only at htransfer
    split at htransfer
    · cases htransfer
    · cases htransfer
  | write ptyId' buffer =>
    obtain ⟨bytes', rfl, hbytes⟩ := Option.map_eq_some_iff.mp htransfer
    obtain rfl := Fifo.Op.write.inj hbytes
    refine ⟨rfl, ?_⟩
    obtain rfl : ptyId' = ptyId := hptyId
    show (s.write ptyId' (some bytes')).2.content i = _
    have hcontent : (s.content i).length = (s.slots i).ring.count :=
      RingBuf.length_toList _
    unfold write
    dsimp only
    split
    · next hnil =>
      have hle := (s.slots i).ring.count_le
      rw [hnil, List.append_nil, List.length_nil, Nat.add_zero, hcontent,
        Nat.sub_eq_zero_of_le hle, List.drop_zero]
    · rw [hfound, hcontent]
      dsimp only
      rw [content_setRing, RingBuf.toList_pushAll]
      rfl

theorem step_read {n : Nat} (hfound : s.findSlot ptyId = some i)
    (htransfer : op.transfer ptyId = some (.read n)) :
    (s.step op).1 = some ((s.content i).take n) ∧
      (s.step op).2.content i = (s.content i).drop n := by
  unfold Op.transfer at htransfer
  split at htransfer
  · cases htransfer
  next hptyId =>
  rw [not_not] at hptyId
  cases op with
  | read ptyId' buffer size =>
    dsimp only at htransfer
    split at htransfer
    · cases htransfer
    next hbuffer =>
    obtain rfl := Fifo.Op.read.inj (Option.some.inj htransfer)
    obtain rfl : ptyId' = ptyId := hptyId
    show (s.read ptyId' buffer size).1 = _ ∧ (s.read ptyId' buffer size).2.content i = _
    unfold read
    rw [if_neg hbuffer]
    split
    · next hzero =>
      rw [hzero]
      exact ⟨rfl, rfl⟩
    · rw [hfound]
      dsimp only
      rw [content_setRing]
      obtain ⟨hbytes, hrest⟩ := RingBuf.popMany_take_drop size (s.slots i).ring
      exact ⟨congrArg some hbytes, hrest⟩
  | write ptyId' buffer =>
    obtain ⟨bytes, -, hbytes⟩ := Option.map_eq_some_iff.mp htransfer
    cases hbytes

theorem run_eq (ops : List Op) (hfound : s.findSlot ptyId = some i)
    (f : Fifo UInt8) (hf : s.content i = f.queue) :
    (s.run ptyId ops).2.findSlot ptyId = some i ∧
      (s.run ptyId ops).1
        = (Fifo.run ptyBufferSize (ops.filterMap (Op.transfer ptyId)) f).1 ∧
      (s.run ptyId ops).2.content i
        = (Fifo.run ptyBufferSize (ops.filterMap (Op.transfer ptyId)) f).2.queue := by
  induction ops generalizing s f with
  | nil => exact ⟨hfound, rfl, hf⟩
  | cons op ops ih =>
    have hfound' : (s.step op).2.findSlot ptyId = some i :=
      findSlot_step.trans hfound
    have hrun : s.run ptyId (op :: ops)
        = (if op.ptyId = ptyId then
            (s.step op).1.toList ++ ((s.step op).2.run ptyId ops).1
          else ((s.step op).2.run ptyId ops).1,
          ((s.step op).2.run ptyId ops).2) := rfl
    rw [hrun]
    cases htransfer : op.transfer ptyId with
    | none =>
      rw [List.filterMap_cons_none htransfer]
      by_cases hptyId : op.ptyId = ptyId
      · rw [if_pos hptyId, step_none htransfer hptyId]
        exact ih hfound f hf
      · rw [if_neg hptyId]
        have hslot : (s.step op).2.slots i = s.slots i :=
          step_other (findSlot_ne hfound hptyId)
        refine ih hfound' f (Eq.trans ?_ hf)
        unfold content
        rw [hslot]
    | some t =>
      have hptyId : op.ptyId = ptyId := by
        unfold Op.transfer at htransfer
        split at htransfer
        · cases htransfer
        · next h => exact not_not.mp h
      rw [List.filterMap_cons_some htransfer, if_pos hptyId]
      cases t with
      | write bytes =>
        obtain ⟨hnone, hcontent⟩ := step_write hfound htransfer
        rw [hnone]
        refine ih hfound' (f.write ptyBufferSize bytes) ?_
        rw [hcontent, hf, Fifo.write_queue]
      | read n =>
        obtain ⟨hsome, hcontent⟩ := step_read hfound htransfer
        obtain ⟨hstay, hreads, hrest⟩ := ih hfound' (f.read n) (by
          rw [hcontent, hf, Fifo.read_queue])
        refine ⟨hstay, ?_, hrest⟩
        rw [hsome, hreads, hf]
        rfl

theorem run_other (ops : List Op) (hother : ∀ op ∈ ops, s.findSlot op.ptyId ≠ some j) :
    (s.run ptyId ops).2.slots j = s.slots j := by
  induction ops generalizing s with
  | nil => rfl
  | cons op ops ih =>
    show ((s.step op).2.run ptyId ops).2.slots j = _
    rw [ih fun op' hop' => ?_]
    · exact step_other (hother op List.mem_cons_self)
    · rw [findSlot_step]
      exact hother op' (List.mem_cons_of_mem op hop')

/-- A terminal behind any reads and writes, of this one and of others. Its
reads return, and its slot holds, what the channel does: what it has lost are
the bytes in front when more than the capacity waited, everything else is in
order, and a read returns as much as there is. The slots of terminals that are
not read or written stay as they are. -/
theorem channel_of_run (hfound : s.findSlot ptyId = some i) (ops : List Op) :
    let ran := s.run ptyId ops
    let channel := Fifo.run ptyBufferSize (ops.filterMap (Op.transfer ptyId))
      ⟨[], s.content i⟩
    ran.2.findSlot ptyId = some i ∧ ran.1 = channel.1 ∧
      ran.2.content i = channel.2.queue ∧
      channel.2.past.map Prod.fst ++ ran.2.content i
        = s.content i ++ Fifo.written (ops.filterMap (Op.transfer ptyId)) ∧
      (channel.2.past.filter Prod.snd).map Prod.fst = ran.1.flatten ∧
      (ran.2.content i).length ≤ ptyBufferSize ∧
      ∀ j, (∀ op ∈ ops, s.findSlot op.ptyId ≠ some j) →
        ran.2.slots j = s.slots j := by
  obtain ⟨hstay, hreads, hcontent⟩ := run_eq ops hfound ⟨[], s.content i⟩ rfl
  dsimp only
  refine ⟨hstay, hreads, hcontent, ?_, ?_, ?_, fun j => run_other ops⟩
  · rw [hcontent]
    exact Fifo.stream_run (ops.filterMap (Op.transfer ptyId)) ⟨[], s.content i⟩
  · rw [hreads]
    exact Fifo.run_delivered (ops.filterMap (Op.transfer ptyId)) ⟨[], s.content i⟩
  · rw [hcontent]
    refine Fifo.queue_run_le _ ?_
    show (s.content i).length ≤ _
    unfold content
    rw [RingBuf.length_toList]
    exact (s.slots i).ring.count_le

end channels

/-- A new terminal, into which five bytes are written, and two are read. -/
theorem channel_of_run_new :
    (init.alloc.2.run 1 [.write 1 (some [1, 2, 3, 4, 5]), .read 1 true 2]).1
      = [[1, 2]] := by
  have hfound : init.alloc.2.findSlot 1 = some 0 := by decide
  have hchannel := channel_of_run hfound
    [.write 1 (some [1, 2, 3, 4, 5]), .read 1 true 2]
  exact hchannel.2.1

end Ptys

end Clks.Exec
