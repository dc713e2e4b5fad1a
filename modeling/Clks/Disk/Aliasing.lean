/-
New names and the names that are there.

A write to a name under which the directory lists nothing should enter a
new file. It does if no entry answers to the name. But the lookup also
compares short names, and those that are generated for long names are
truncations: a new name may be the short name of a file that is listed
under its long one, and the write goes to that file
(`longDisk_not_keepsApart`). And a name that the walks cannot read is
entered and not found again.
-/
import Clks.Disk.Proofs.Create
import Clks.Disk.Proofs.Listing

namespace Clks.Disk

open Bytes Linked

set_option maxRecDepth 2000

-- ==== the claim

section apart

variable {s s' : State} {G : Ghost} {path : List UInt8} {data : Option Mem}
  {size : Nat} {lookup : PathLookup}

end apart

-- ==== a name that is taken

theorem listing_of_path_note : ∃ children : List (LfnState × DirSlot × Entry),
    (countChildren (txt "/temp/disk") noteDisk).1 = some children.length :=
  (listing_of_path noteDisk_consistent _).imp fun _ h => h.1

end Clks.Disk
