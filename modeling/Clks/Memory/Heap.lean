/-
The heap (heap.c).

Headers lie in the arena itself, each before the payload of its block; a
pointer to a header or to a payload is an offset in the arena. What is
written to payloads is left out, and so are the counters that only the
statistics read.
-/
import Mathlib

namespace Clks.Memory

-- ==== constants

/-- `CLKS_HEAP_ARENA_SIZE`. -/
abbrev heapArenaSize : Nat := 256 * 1024 * 1024

/-- `CLKS_HEAP_ALIGN`. -/
abbrev heapAlign : UInt64 := 16

/-- `CLKS_HEAP_MAGIC`. -/
abbrev heapMagic : UInt64 := 0x434C454F4E4F534F

/-- `sizeof(struct clks_heap_block)`. -/
abbrev headerSize : UInt64 := 40

-- ==== blocks

/-- `struct clks_heap_block`. -/
structure Block where
  size : UInt64
  isFree : Bool
  next : Option Nat
  prev : Option Nat
  magic : UInt64
  deriving DecidableEq, Repr

/-- A header of zeros. -/
def Block.zero : Block := ⟨0, false, none, none, 0⟩

/-- The state of the heap; `blocks` is what a header at an offset says. -/
structure Heap where
  blocks : Nat → Block
  head : Option Nat
  ready : Bool
  usedBytes : UInt64

/-- A change of one header. -/
def Heap.modify (b : Nat) (f : Block → Block) (h : Heap) : Heap :=
  { h with blocks := Function.update h.blocks b (f (h.blocks b)) }

/-- `clks_heap_align_up`. -/
def alignUp (value : UInt64) : UInt64 :=
  (value + (heapAlign - 1)) &&& ~~~(heapAlign - 1)

/-- `clks_heap_split_block`. -/
def Heap.splitBlock (b : Nat) (needSize : UInt64) (h : Heap) : Heap :=
  let minTailSize := headerSize + heapAlign
  let block := h.blocks b
  if block.size < needSize + minTailSize then h
  else
    let newBlock := b + headerSize.toNat + needSize.toNat
    let h := h.modify newBlock fun _ =>
      { size := block.size - needSize - headerSize, isFree := true
        next := block.next, prev := some b, magic := heapMagic }
    let h :=
      match block.next with
      | none => h
      | some next => h.modify next fun t => { t with prev := some newBlock }
    h.modify b fun block => { block with next := some newBlock, size := needSize }

/-- `clks_heap_merge_next`. -/
def Heap.mergeNext (b : Nat) (h : Heap) : Heap :=
  match (h.blocks b).next with
  | none => h
  | some n =>
    let next := h.blocks n
    if !next.isFree || next.magic ≠ heapMagic then h
    else
      let h := h.modify b fun block =>
        { block with
          size := block.size + (headerSize + next.size), next := next.next }
      match next.next with
      | none => h
      | some m => h.modify m fun t => { t with prev := some b }

/-- `clks_heap_init`. -/
def Heap.init : Heap where
  blocks := Function.update (fun _ => Block.zero) 0
    { size := UInt64.ofNat heapArenaSize - headerSize, isFree := true
      next := none, prev := none, magic := heapMagic }
  head := some 0
  ready := true
  usedBytes := 0

/-- The loop of `clks_kmalloc`; no two headers are at one offset, so that
it takes fewer rounds than the arena has bytes. -/
def Heap.findBlock (alignedSize : UInt64) (h : Heap) :
    Nat → Option Nat → Option Nat
  | 0, _ => none
  | _ + 1, none => none
  | fuel + 1, some current =>
    let block := h.blocks current
    if block.magic ≠ heapMagic then none
    else if block.isFree && alignedSize ≤ block.size then some current
    else h.findBlock alignedSize fuel block.next

/-- `clks_kmalloc`. -/
def Heap.kmalloc (size : UInt64) (h : Heap) : Option Nat × Heap :=
  if !h.ready || size = 0 then (none, h)
  else
    let alignedSize := alignUp size
    match h.findBlock alignedSize heapArenaSize h.head with
    | none => (none, h)
    | some current =>
      let h := h.splitBlock current alignedSize
      let h := h.modify current fun block => { block with isFree := false }
      (some (current + headerSize.toNat),
        { h with usedBytes := h.usedBytes + (h.blocks current).size })

/-- `clks_kfree`. -/
def Heap.kfree (ptr : Option Nat) (h : Heap) : Heap :=
  match ptr with
  | none => h
  | some ptr =>
    let b := ptr - headerSize.toNat
    let block := h.blocks b
    if !h.ready || block.magic ≠ heapMagic || block.isFree then h
    else
      let h := h.modify b fun block => { block with isFree := true }
      let h :=
        { h with
          usedBytes :=
            if block.size ≤ h.usedBytes then h.usedBytes - block.size else 0 }
      let h := h.mergeNext b
      match (h.blocks b).prev with
      | none => h
      | some p => if (h.blocks p).isFree then h.mergeNext p else h

-- ==== runs

/-- A call of the heap. -/
inductive HeapCall
  /-- `clks_kmalloc`. -/
  | malloc (size : UInt64)
  /-- `clks_kfree`. -/
  | free (ptr : Nat)
  deriving DecidableEq

/-- The heap and the pointers that it has given out and not got back. -/
structure Session where
  heap : Heap
  live : List Nat

/-- A call, with a live pointer if it is one to free. -/
def Session.step (s : Session) : HeapCall → Option Session
  | .malloc size =>
    match s.heap.kmalloc size with
    | (none, heap) => some { s with heap }
    | (some ptr, heap) => some ⟨heap, ptr :: s.live⟩
  | .free ptr =>
    if ptr ∈ s.live then some ⟨s.heap.kfree (some ptr), s.live.erase ptr⟩
    else none

/-- What calls can lead to, in any order. -/
inductive Session.Reached : Session → Prop
  | init : Reached ⟨Heap.init, []⟩
  | step {s s' : Session} {call : HeapCall} :
      Reached s → s.step call = some s' → Reached s'

/-- The session after these calls, if each of them can be made. -/
def Session.calls : List HeapCall → Session → Option Session
  | [], s => some s
  | call :: rest, s => (s.step call).bind (calls rest)

theorem Session.Reached.calls {calls : List HeapCall} {s s' : Session}
    (hs : s.Reached) (hcalls : Session.calls calls s = some s') :
    s'.Reached := by
  induction calls generalizing s with
  | nil =>
    obtain rfl := Option.some.inj hcalls
    exact hs
  | cons call rest ih =>
    obtain ⟨s1, hstep, hrest⟩ := Option.bind_eq_some_iff.mp hcalls
    exact ih (hs.step hstep) hrest

end Clks.Memory
