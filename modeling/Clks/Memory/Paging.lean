/-
The page tables and the pages that they are made of: an address space is a
radix tree of four levels, and tables are taken from the free pages when a
walk first needs them.
-/
import Clks.Lib.Radix

namespace Clks.Memory

-- ==== entries

def ptePresent : UInt64 := 0x1
def pteWrite : UInt64 := 0x2
def pteUser : UInt64 := 0x4
def ptePwt : UInt64 := 0x8
def ptePcd : UInt64 := 0x10
def ptePs : UInt64 := 0x80
def pteNx : UInt64 := 0x8000000000000000
def pteAddrMask : UInt64 := 0x000FFFFFFFFFF000

def vmFlagRead : UInt64 := 0x1
def vmFlagWrite : UInt64 := 0x2
def vmFlagExec : UInt64 := 0x4
def vmFlagUser : UInt64 := 0x8
def vmFlagMmio : UInt64 := 0x10

def vmPageSize : UInt64 := 4096
def pmmMaxTrackedPages : Nat := 262144

/-- The index of an address in a table: `(virt_addr >> shift) & 0x1FF`. -/
def slot (virtAddr : UInt64) (shift : Nat) : Fin 512 :=
  Fin.ofNat 512 (virtAddr.toNat / 2 ^ shift)

/-- The entry of a new table. -/
def tableEntry (phys tableFlags : UInt64) : UInt64 :=
  (phys &&& pteAddrMask) ||| ptePresent ||| pteWrite ||| tableFlags

/-- An entry that leads to a table on the way of the walks that change it. -/
def child (entry : UInt64) : Option UInt64 :=
  if entry &&& ptePresent = 0 ∨ entry &&& ptePs ≠ 0 then none
  else some (entry &&& pteAddrMask)

/-- The slots of the root that address spaces have in common. -/
def shared (i : Fin 512) : Bool := i.val = 0 || 256 ≤ i.val

-- ==== state

structure Vm where
  /-- The entries of a table, by the physical address of the table. -/
  tables : UInt64 → Fin 512 → UInt64
  /-- The free pages, the top of the stack first. -/
  freeStack : List UInt64
  currentCr3 : UInt64
  kernelCr3 : UInt64
  ready : Bool
  nxeReady : Bool

namespace Vm

-- ==== pages

/-- The page, or 0 where there is none. -/
def allocPage (vm : Vm) : UInt64 × Vm :=
  match vm.freeStack with
  | [] => (0, vm)
  | page :: rest => (page, { vm with freeStack := rest })

def freePage (physAddr : UInt64) (vm : Vm) : Vm :=
  if physAddr = 0 then vm
  else if physAddr &&& (vmPageSize - 1) ≠ 0 then vm
  else if pmmMaxTrackedPages ≤ vm.freeStack.length then vm
  else { vm with freeStack := physAddr :: vm.freeStack }

-- ==== tables

def currentPml4 (vm : Vm) : Option UInt64 :=
  if vm.currentCr3 = 0 then none else some (vm.currentCr3 &&& pteAddrMask)

def entryFlagsFromApi (vm : Vm) (flags : UInt64) : UInt64 :=
  ptePresent
    ||| (if flags &&& vmFlagWrite ≠ 0 then pteWrite else 0)
    ||| (if flags &&& vmFlagUser ≠ 0 then pteUser else 0)
    ||| (if vm.nxeReady ∧ flags &&& vmFlagExec = 0 then pteNx else 0)
    ||| (if flags &&& vmFlagMmio ≠ 0 then ptePwt ||| ptePcd else 0)

/-- A missing table is made on the way. -/
def nextTable (vm : Vm) (table : UInt64) (i : Fin 512) (tableFlags : UInt64) :
    Option UInt64 × Vm :=
  if vm.tables table i &&& ptePresent = 0 then
    match vm.allocPage with
    | (newPhys, vm) =>
      if newPhys = 0 then (none, vm)
      else
        follow table i { vm with
          tables := Radix.attach table i newPhys (tableEntry newPhys tableFlags) 0
            vm.tables }
  else follow table i vm
where
  follow (table : UInt64) (i : Fin 512) (vm : Vm) : Option UInt64 × Vm :=
    if vm.tables table i &&& ptePs ≠ 0 then (none, vm)
    else (some (vm.tables table i &&& pteAddrMask), vm)

-- ==== address spaces

/-- Anything but a page's address is not loaded. -/
def switchCr3 (cr3 : UInt64) (vm : Vm) : Vm :=
  if cr3 ≠ 0 ∧ cr3 &&& (vmPageSize - 1) = 0 then { vm with currentCr3 := cr3 }
  else vm

/-- The root of a new address space, or 0. -/
def createAddressSpace (vm : Vm) : UInt64 × Vm :=
  if !vm.ready || vm.kernelCr3 = 0 then (0, vm)
  else
    match vm.allocPage with
    | (phys, vm) =>
      if phys = 0 then (0, vm)
      else
        (phys &&& pteAddrMask, { vm with
          tables := Function.update vm.tables phys fun i =>
            if shared i then vm.tables vm.kernelCr3 i else 0 })

/-- The tables below an entry are destroyed, and the entry is cleared. -/
def destroyEntry (destroy : UInt64 → Vm → Vm) (table : UInt64) (vm : Vm)
    (i : Fin 512) : Vm :=
  match child (vm.tables table i) with
  | none => vm
  | some phys =>
    let vm := destroy phys vm
    { vm with tables := Radix.put table i 0 vm.tables }

def destroyTableRecursive : Nat → UInt64 → Vm → Vm
  | 0, tablePhys, vm => freePage tablePhys vm
  | level + 1, tablePhys, vm =>
    if tablePhys = 0 ∨ tablePhys &&& (vmPageSize - 1) ≠ 0 then vm
    else
      let vm :=
        if 1 < level + 1 then
          (List.finRange 512).foldl
            (destroyEntry (destroyTableRecursive level) tablePhys) vm
        else vm
      freePage tablePhys vm

/-- What is below slot 0 is not destroyed: the slot is only cleared. -/
def destroySlot (cr3 : UInt64) (vm : Vm) (i : Fin 512) : Vm :=
  if i.val = 0 then { vm with tables := Radix.put cr3 i 0 vm.tables }
  else destroyEntry (destroyTableRecursive 3) cr3 vm i

def destroyAddressSpace (cr3 : UInt64) (vm : Vm) : Vm :=
  if cr3 = 0 ∨ cr3 &&& (vmPageSize - 1) ≠ 0 ∨ cr3 = vm.kernelCr3 then vm
  else
    let vm :=
      if vm.currentCr3 = cr3 ∧ vm.kernelCr3 ≠ 0 then vm.switchCr3 vm.kernelCr3
      else vm
    freePage cr3
      (((List.finRange 512).filter (·.val < 256)).foldl (destroySlot cr3) vm)

-- ==== pages

def mapPageCurrent (vm : Vm) (virtAddr physAddr flags : UInt64) : Bool × Vm :=
  if !vm.ready || virtAddr &&& (vmPageSize - 1) ≠ 0
      || physAddr &&& (vmPageSize - 1) ≠ 0 then
    (false, vm)
  else
    match vm.currentPml4 with
    | none => (false, vm)
    | some pml4 =>
      let tableFlags := if flags &&& vmFlagUser ≠ 0 then pteUser else 0
      match vm.nextTable pml4 (slot virtAddr 39) tableFlags with
      | (none, vm) => (false, vm)
      | (some pdpt, vm) =>
        match vm.nextTable pdpt (slot virtAddr 30) tableFlags with
        | (none, vm) => (false, vm)
        | (some pd, vm) =>
          match vm.nextTable pd (slot virtAddr 21) tableFlags with
          | (none, vm) => (false, vm)
          | (some pt, vm) =>
            (true, { vm with
              tables := Radix.put pt (slot virtAddr 12)
                ((physAddr &&& pteAddrMask) ||| vm.entryFlagsFromApi flags)
                vm.tables })

/-- The table of the last level on the walk to an address. -/
def walk (vm : Vm) (virtAddr : UInt64) : Option UInt64 := do
  let pml4 ← vm.currentPml4
  let pdpt ← child (vm.tables pml4 (slot virtAddr 39))
  let pd ← child (vm.tables pdpt (slot virtAddr 30))
  child (vm.tables pd (slot virtAddr 21))

def protectPageCurrent (vm : Vm) (virtAddr flags : UInt64) : Bool × Vm :=
  if !vm.ready || virtAddr &&& (vmPageSize - 1) ≠ 0 then (false, vm)
  else
    match vm.walk virtAddr with
    | none => (false, vm)
    | some pt =>
      let oldEntry := vm.tables pt (slot virtAddr 12)
      if oldEntry &&& ptePresent = 0 then (false, vm)
      else
        (true, { vm with
          tables := Radix.put pt (slot virtAddr 12)
            ((oldEntry &&& pteAddrMask) ||| vm.entryFlagsFromApi flags)
            vm.tables })

/-- With the physical address that the page had. -/
def unmapPageCurrent (vm : Vm) (virtAddr : UInt64) : Option UInt64 × Vm :=
  if !vm.ready || virtAddr &&& (vmPageSize - 1) ≠ 0 then (none, vm)
  else
    match vm.walk virtAddr with
    | none => (none, vm)
    | some pt =>
      let entry := vm.tables pt (slot virtAddr 12)
      if entry &&& ptePresent = 0 then (none, vm)
      else
        (some (entry &&& pteAddrMask), { vm with
          tables := Radix.put pt (slot virtAddr 12) 0 vm.tables })

/-- The physical address and the entry; the root's entries are not asked for
a page of their own. -/
def translateCurrent (vm : Vm) (virtAddr : UInt64) : Option (UInt64 × UInt64) := do
  guard vm.ready
  let pml4 ← vm.currentPml4
  let pml4e := vm.tables pml4 (slot virtAddr 39)
  guard (pml4e &&& ptePresent ≠ 0)
  let pdpte := vm.tables (pml4e &&& pteAddrMask) (slot virtAddr 30)
  guard (pdpte &&& ptePresent ≠ 0)
  if pdpte &&& ptePs ≠ 0 then
    return ((pdpte &&& 0x000FFFFFC0000000) + (virtAddr &&& 0x3FFFFFFF), pdpte)
  let pde := vm.tables (pdpte &&& pteAddrMask) (slot virtAddr 21)
  guard (pde &&& ptePresent ≠ 0)
  if pde &&& ptePs ≠ 0 then
    return ((pde &&& 0x000FFFFFFFE00000) + (virtAddr &&& 0x1FFFFF), pde)
  let entry := vm.tables (pde &&& pteAddrMask) (slot virtAddr 12)
  guard (entry &&& ptePresent ≠ 0)
  return ((entry &&& pteAddrMask) + (virtAddr &&& (vmPageSize - 1)), entry)

-- ==== calls

inductive Call
  | map (virtAddr physAddr flags : UInt64)
  | unmap (virtAddr : UInt64)
  | protect (virtAddr flags : UInt64)

/-- Whether a call succeeds, and what it leaves. -/
def call (vm : Vm) : Call → Bool × Vm
  | .map virtAddr physAddr flags => vm.mapPageCurrent virtAddr physAddr flags
  | .unmap virtAddr =>
    match vm.unmapPageCurrent virtAddr with
    | (phys, vm) => (phys.isSome, vm)
  | .protect virtAddr flags => vm.protectPageCurrent virtAddr flags

def calls (vm : Vm) (cs : List Call) : Vm :=
  cs.foldl (fun vm c => (vm.call c).2) vm

end Vm

end Clks.Memory
