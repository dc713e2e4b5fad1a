/-
Who keeps a pointer into file data (exec/dynlib_api.inc, kdbg.rs,
framebuffer.c).

Three parts of the kernel keep what `clks_fs_read_all` returned beyond the
call: an open library keeps its file image, the debugger the kernel's
symbol file, the console the font it draws with. None of them copies the
bytes, and the file system does not know of them. A view here is such a
pointer together with the bytes that the file had when it was read.
-/
import Clks.Fs.Reclaiming
import Clks.Fs.Routing

namespace Clks.Fs

open Disk Bytes

-- ==== the state

/-- `CLKS_EXEC_DYNLIB_MAX`. -/
abbrev dynlibMax : Nat := 32

/-- `KERNEL_SYMBOL_FILE`. -/
def kernelSymbolFile : List UInt8 := txt "/system/others/kernel.sym"

/-- A pointer that is kept, and the bytes the file had. -/
structure View where
  ptr : Ptr
  size : Nat
  bytes : List UInt8
  deriving DecidableEq, Repr

/-- `struct clks_exec_dynlib_slot`, with `file_image` and `file_size` as a
view. -/
structure DynlibSlot where
  handle : UInt64
  ownerPid : UInt64
  refCount : Nat
  path : List UInt8
  image : View

/-- The file system, and those who keep pointers into it: the table of
open libraries, `SYMBOLS_DATA`, and the blobs of the two fonts. -/
structure Machine extends Store where
  dynlibs : Fin dynlibMax → Option DynlibSlot
  nextHandle : UInt64
  symbolsChecked : Bool
  symbols : Option View
  font : Option View
  emojiFont : Option View

/-- What happens: the file operations of anybody, and what the keepers do. -/
inductive FileEvent
  | readAll (path : List UInt8)
  | writeAll (path : List UInt8) (data : Option Mem) (size : Nat)
  | append (path : List UInt8) (data : Option Mem) (size : Nat)
  | remove (path : List UInt8)
  | dlOpen (pid : UInt64) (path : List UInt8) (loads : Bool)
  | dlClose (pid handle : UInt64)
  | releaseOwner (pid : UInt64)
  | findSymbol
  | loadFont (path : List UInt8) (parses : Bool)
  | loadEmojiFont (path : List UInt8) (parses : Bool)

namespace Machine

variable (grants : Grants)

/-- Run a command of the file system. -/
def onStore {α : Type} (m : Cmd Store α) (k : Machine) : Machine :=
  { k with toStore := (m k.toStore).2 }

/-- `clks_fs_read_all`, for someone who keeps the pointer; a file without
bytes is not kept. -/
def view (path : List UInt8) (k : Machine) : Option View × Machine :=
  (((Store.readAll grants path k.toStore).1).bind fun found =>
    if found.2 = 0 then none
    else some ⟨found.1, found.2,
      ((Fs.readAll path k.toFsState).1).getD []⟩,
    k.onStore (Store.readAll grants path))

/-- `clks_exec_dynlib_find_by_owner_path`. -/
def findByOwnerPath (pid : UInt64) (path : List UInt8) (k : Machine) :
    Option (Fin dynlibMax) :=
  (List.finRange dynlibMax).find? fun d =>
    (k.dynlibs d).any fun slot => slot.ownerPid = pid && slot.path = path

/-- `clks_exec_dynlib_alloc_slot`. -/
def allocSlot (k : Machine) : Option (Fin dynlibMax) :=
  (List.finRange dynlibMax).find? fun d => (k.dynlibs d).isNone

/-- `clks_exec_dynlib_alloc_handle`. -/
def allocHandle (k : Machine) : UInt64 × Machine :=
  let after (h : UInt64) : UInt64 := if h + 1 = 0 then 1 else h + 1
  let next := after k.nextHandle
  if k.nextHandle = 0 then (next, { k with nextHandle := after next })
  else (k.nextHandle, { k with nextHandle := next })

/-- Replace a slot of the table of libraries. -/
def setDynlib (d : Fin dynlibMax) (slot : Option DynlibSlot)
    (k : Machine) : Machine :=
  { k with dynlibs := fun d' => if d' = d then slot else k.dynlibs d' }

/-- The slot that `clks_exec_dl_open` reads a file for: none when the path
is refused, when the library is open already or when there is no slot. -/
def dlSlot (pid : UInt64) (path : List UInt8) (k : Machine) :
    Option (Fin dynlibMax) :=
  if path.head? = some slash ∧ path.length < fsPathMax then
    match k.findByOwnerPath pid path with
    | some _ => none
    | none => k.allocSlot
  else none

/-- `clks_exec_dl_open`, where it reads no file: one more reference. -/
def dlAgain (pid : UInt64) (path : List UInt8) (k : Machine) : Machine :=
  if path.head? = some slash ∧ path.length < fsPathMax then
    match k.findByOwnerPath pid path with
    | none => k
    | some d =>
      k.setDynlib d ((k.dynlibs d).map fun slot =>
        { slot with refCount := slot.refCount + 1 })
  else k

/-- `clks_exec_dl_open`. -/
def dlOpen (pid : UInt64) (path : List UInt8) (loads : Bool) (k : Machine) :
    Machine :=
  match k.dlSlot pid path with
  | none => k.dlAgain pid path
  | some d =>
    match k.view grants path with
    | (none, k) => k
    | (some image, k) =>
      if loads then
        let (handle, k) := k.allocHandle
        k.setDynlib d (some ⟨handle, pid, 1, path, image⟩)
      else k

/-- `clks_exec_dl_close`. -/
def dlClose (pid handle : UInt64) (k : Machine) : Machine :=
  match (List.finRange dynlibMax).find? fun d =>
      (k.dynlibs d).any fun slot => slot.handle = handle with
  | none => k
  | some d =>
    match k.dynlibs d with
    | none => k
    | some slot =>
      if handle = 0 ∨ slot.ownerPid ≠ pid then k
      else if 1 < slot.refCount then
        k.setDynlib d (some { slot with refCount := slot.refCount - 1 })
      else k.setDynlib d none

/-- `clks_exec_dynlib_release_owner`. -/
def releaseOwner (pid : UInt64) (k : Machine) : Machine :=
  if pid = 0 then k
  else
    { k with
      dynlibs := fun d => (k.dynlibs d).filter fun slot =>
        slot.ownerPid ≠ pid }

/-- `symbols_ready` of the debugger. -/
def symbolsReady (k : Machine) : Machine :=
  if k.symbolsChecked then k
  else if !k.ready then { k with symbolsChecked := true }
  else
    match k.view grants kernelSymbolFile with
    | (none, k) => { k with symbolsChecked := true }
    | (some symbols, k) =>
      { k with symbolsChecked := true, symbols := some symbols }

/-- A font file is read, and kept when it parses: `clks_fb_load_ttf_font`
and `clks_fb_load_emoji_ttf_font`. -/
def loadBlob (path : List UInt8) (parses : Bool)
    (put : View → Machine → Machine) (k : Machine) : Machine :=
  match k.view grants path with
  | (none, k) => k
  | (some blob, k) => if parses then put blob k else k

/-- One event. -/
def step : FileEvent → Machine → Machine
  | .readAll path, k => k.onStore (Store.readAll grants path)
  | .writeAll path data size, k =>
    k.onStore (Store.writeAll grants path data size)
  | .append path data size, k =>
    k.onStore (Store.append grants path data size)
  | .remove path, k => k.onStore (Store.remove path)
  | .dlOpen pid path loads, k => k.dlOpen grants pid path loads
  | .dlClose pid handle, k => k.dlClose pid handle
  | .releaseOwner pid, k => k.releaseOwner pid
  | .findSymbol, k => k.symbolsReady grants
  | .loadFont path parses, k =>
    k.loadBlob grants path parses fun blob k => { k with font := some blob }
  | .loadEmojiFont path parses, k =>
    k.loadBlob grants path parses fun blob k =>
      { k with emojiFont := some blob }

-- ==== the views

/-- Someone keeps this view. -/
def Holds (k : Machine) (v : View) : Prop :=
  (∃ d slot, k.dynlibs d = some slot ∧ slot.image = v) ∨
    k.symbols = some v ∨ k.font = some v ∨ k.emojiFont = some v

/-- The file that an event reads. -/
def reads : FileEvent → Machine → Option (List UInt8)
  | .readAll path, _ | .loadFont path _, _ | .loadEmojiFont path _, _ =>
    some path
  | .dlOpen pid path _, k => (k.dlSlot pid path).map fun _ => path
  | .findSymbol, k =>
    if k.symbolsChecked || !k.ready then none else some kernelSymbolFile
  | _, _ => none

/-- The blocks that an event gives back. -/
def frees (e : FileEvent) (k : Machine) : List Nat :=
  match e with
  | .writeAll path data size => k.writeFrees grants path data size
  | .append path data size => k.appendFrees grants path data size
  | .remove path => k.removeFrees path
  | e => match reads e k with
    | none => []
    | some path => k.readFrees grants path

/-- The block that an event copies over, and the bytes. -/
def fills (e : FileEvent) (k : Machine) : Option (Nat × List UInt8) :=
  (reads e k).bind fun path => k.readFills path

/-- The event gives back no block that a view points to, and copies over
none, unless with the same bytes. -/
def Spares (e : FileEvent) (k : Machine) : Prop :=
  ∀ v b, k.Holds v → v.ptr = .block b →
    b ∉ k.frees grants e ∧
    ∀ bytes, k.fills e = some (b, bytes) →
      bytes.take v.bytes.length <+: v.bytes

/-- The view has its bytes behind it. -/
def Stands (k : Machine) (v : View) : Prop :=
  k.behind v.size v.ptr = some v.bytes

/-- Behind `clks_fs_init`: the nodes point into the RAM disk, the heap has
no file data, and nobody keeps anything. -/
structure Booted (k : Machine) : Prop where
  heap : ∀ b, k.heap b = none
  nodes : ∀ i, k.nodeData i = .still ((k.fileAt i).getD [])
  cache : k.cache = .empty
  readCache : k.readCache = none
  nobody : ∀ v, ¬ k.Holds v

/-- One step under a condition. -/
def StepIf (C : FileEvent → Machine → Prop) (k k' : Machine) : Prop :=
  ∃ e, C e k ∧ k' = k.step grants e

/-- A run whose steps all meet a condition. -/
abbrev RunIf (C : FileEvent → Machine → Prop) : Machine → Machine → Prop :=
  Relation.ReflTransGen (StepIf grants C)

-- ==== one step

section step

variable {k k' : Machine} {e : FileEvent} {v : View}

theorem take_overlay_same {bytes old l : List UInt8}
    (hold : old.take l.length = l) (h : bytes.take l.length <+: l) :
    (Store.overlay bytes old).take l.length = l := by
  have hlen : l.length ≤ old.length := by
    have := congrArg List.length hold
    rw [List.length_take] at this
    omega
  obtain ⟨rest, hrest⟩ := h
  unfold Store.overlay
  rw [List.take_append]
  rcases Nat.le_total l.length bytes.length with hle | hle
  · -- the copy reaches as far as the view
    have hnil : rest = [] := by
      have := congrArg List.length hrest
      rw [List.length_append, List.length_take, Nat.min_eq_left hle] at this
      exact List.eq_nil_of_length_eq_zero (by omega)
    rw [Nat.sub_eq_zero_of_le hle, List.take_zero, List.append_nil]
    rw [hnil, List.append_nil] at hrest
    exact hrest
  · rw [List.take_of_length_le hle] at hrest ⊢
    have hdrop : (old.drop bytes.length).take (l.length - bytes.length)
        = l.drop bytes.length := by
      rw [← List.drop_take, hold]
    rw [hdrop]
    conv_rhs => rw [← hrest]
    rw [← hrest, List.drop_left]

theorem Stands.keep {freed : List Nat} {filled : Option (Nat × List UInt8)}
    (hs : k.Sound) (hv : k.Stands v) (hlen : v.bytes.length = v.size)
    (hrec : Store.Reclaims freed filled k.toStore k'.toStore)
    (hspare : ∀ b, v.ptr = .block b → b ∉ freed ∧
      ∀ bytes, filled = some (b, bytes) →
        bytes.take v.bytes.length <+: v.bytes) : k'.Stands v := by
  unfold Stands at hv ⊢
  cases hptr : v.ptr with
  | still data =>
    rw [hptr] at hv
    exact hv
  | block b =>
    rw [hptr] at hv
    obtain ⟨hnot, hsame⟩ := hspare b hptr
    obtain ⟨old, hold, htake⟩ := Option.map_eq_some_iff.mp hv
    have hlt : b < k.requests := hs.fresh b (by rw [hold]; simp)
    have hheap := hrec.heap b hlt
    rw [if_neg hnot] at hheap
    show (k'.heap b).map (·.take v.size) = some v.bytes
    cases hf : filled with
    | none =>
      rw [hf] at hheap
      rw [hheap]
      exact hv
    | some copy =>
      obtain ⟨b', bytes⟩ := copy
      rw [hf] at hheap
      dsimp only at hheap
      by_cases hb : b = b'
      · subst hb
        rw [if_pos rfl, hold] at hheap
        rw [hheap]
        rw [← hlen] at htake ⊢
        exact congrArg some
          (take_overlay_same htake (hsame bytes hf))
      · rw [if_neg hb] at hheap
        rw [hheap]
        exact hv

theorem view_run (hs : k.Sound) (path : List UInt8) :
    (k.view grants path).2 = k.onStore (Store.readAll grants path) ∧
    ∀ v, (k.view grants path).1 = some v →
      (k.view grants path).2.Stands v ∧ v.bytes.length = v.size := by
  refine ⟨rfl, fun v hv => ?_⟩
  obtain ⟨-, -, hptr⟩ := Store.readAll_run grants hs path
  obtain ⟨found, hfound, hv⟩ := Option.bind_eq_some_iff.mp hv
  obtain ⟨bytes, hbytes, hlen, hbehind⟩ := hptr found.1 found.2 hfound
  split at hv
  · cases hv
  · cases hv
    rw [hbytes]
    exact ⟨hbehind, hlen⟩

theorem dlOpen_store (pid : UInt64) (path : List UInt8) (loads : Bool)
    (k : Machine) : (k.dlOpen grants pid path loads).toStore
      = match k.dlSlot pid path with
        | none => k.toStore
        | some _ => (Store.readAll grants path k.toStore).2 := by
  unfold dlOpen
  cases k.dlSlot pid path with
  | none =>
    unfold dlAgain
    dsimp only
    split
    · split <;> rfl
    · rfl
  | some d =>
    cases hv : k.view grants path with
    | mk r k1 =>
      have hk : k1 = k.onStore (Store.readAll grants path) :=
        (congrArg Prod.snd hv).symm
      subst hk
      cases r with
      | none => rfl
      | some image =>
        dsimp only
        split
        · unfold allocHandle
          dsimp only
          split <;> rfl
        · rfl

theorem loadBlob_store (path : List UInt8) (parses : Bool)
    {put : View → Machine → Machine}
    (hput : ∀ v k, (put v k).toStore = k.toStore) (k : Machine) :
    (k.loadBlob grants path parses put).toStore
      = (Store.readAll grants path k.toStore).2 := by
  unfold loadBlob
  cases hv : k.view grants path with
  | mk r k1 =>
    have hk : k1 = k.onStore (Store.readAll grants path) :=
      (congrArg Prod.snd hv).symm
    subst hk
    cases r with
    | none => rfl
    | some blob =>
      dsimp only
      split
      · exact hput _ _
      · rfl

theorem symbolsReady_store (k : Machine) : (k.symbolsReady grants).toStore
    = match reads .findSymbol k with
      | none => k.toStore
      | some path => (Store.readAll grants path k.toStore).2 := by
  by_cases hc : k.symbolsChecked = true
  · simp only [symbolsReady, reads, hc, if_true, Bool.true_or]
  · by_cases hr : k.ready = true
    · simp only [symbolsReady, reads, hc, hr, Bool.not_true, Bool.or_self,
        Bool.false_eq_true, if_false]
      cases hv : k.view grants kernelSymbolFile with
      | mk r k1 =>
        have hk : k1 = k.onStore (Store.readAll grants kernelSymbolFile) :=
          (congrArg Prod.snd hv).symm
        subst hk
        cases r <;> rfl
    · simp only [symbolsReady, reads, hc, hr, Bool.not_false, Bool.or_true,
        Bool.false_eq_true, if_false, if_true]

theorem dlClose_store (pid handle : UInt64) (k : Machine) :
    (k.dlClose pid handle).toStore = k.toStore := by
  unfold dlClose
  split
  · rfl
  · split
    · rfl
    · split
      · rfl
      · split <;> rfl

theorem releaseOwner_store (pid : UInt64) (k : Machine) :
    (k.releaseOwner pid).toStore = k.toStore := by
  unfold releaseOwner
  split <;> rfl

theorem step_store (hs : k.Sound) (e : FileEvent) :
    (k.step grants e).toStore.Sound ∧
    Store.Reclaims (k.frees grants e) (k.fills e) k.toStore
      (k.step grants e).toStore := by
  have hread : ∀ path, ((Store.readAll grants path k.toStore).2).Sound ∧
      Store.Reclaims (k.readFrees grants path) (k.readFills path) k.toStore
        (Store.readAll grants path k.toStore).2 := fun path =>
    ⟨(Store.readAll_run grants hs path).1,
      (Store.readAll_run grants hs path).2.1⟩
  have hstay : k.toStore.Sound ∧
      Store.Reclaims [] none k.toStore k.toStore :=
    ⟨hs, (Store.Gives.refl _).reclaims⟩
  cases e with
  | readAll path => exact hread path
  | writeAll path data size =>
    obtain ⟨hs', hg⟩ := Store.writeAll_run grants hs path data size
    exact ⟨hs', hg.reclaims⟩
  | append path data size =>
    obtain ⟨hs', hg⟩ := Store.append_run grants hs path data size
    exact ⟨hs', hg.reclaims⟩
  | remove path =>
    obtain ⟨hs', hg⟩ := Store.remove_run hs path
    exact ⟨hs', hg.reclaims⟩
  | dlOpen pid path loads =>
    show (k.dlOpen grants pid path loads).toStore.Sound ∧
      Store.Reclaims _ _ _ (k.dlOpen grants pid path loads).toStore
    rw [dlOpen_store]
    simp only [frees, fills, reads]
    cases k.dlSlot pid path with
    | none => exact hstay
    | some d => exact hread path
  | dlClose pid handle =>
    show (k.dlClose pid handle).toStore.Sound ∧
      Store.Reclaims _ _ _ (k.dlClose pid handle).toStore
    rw [dlClose_store]
    exact hstay
  | releaseOwner pid =>
    show (k.releaseOwner pid).toStore.Sound ∧
      Store.Reclaims _ _ _ (k.releaseOwner pid).toStore
    rw [releaseOwner_store]
    exact hstay
  | findSymbol =>
    show (k.symbolsReady grants).toStore.Sound ∧
      Store.Reclaims _ _ _ (k.symbolsReady grants).toStore
    rw [symbolsReady_store]
    simp only [frees, fills]
    cases reads .findSymbol k with
    | none => exact hstay
    | some path => exact hread path
  | loadFont path parses =>
    show (k.loadBlob grants path parses _).toStore.Sound ∧
      Store.Reclaims _ _ _ (k.loadBlob grants path parses _).toStore
    rw [loadBlob_store]
    · exact hread path
    · intro v k
      rfl
  | loadEmojiFont path parses =>
    show (k.loadBlob grants path parses _).toStore.Sound ∧
      Store.Reclaims _ _ _ (k.loadBlob grants path parses _).toStore
    rw [loadBlob_store]
    · exact hread path
    · intro v k
      rfl

theorem setDynlib_holds {d : Fin dynlibMax} {slot : Option DynlibSlot}
    (h : (k.setDynlib d slot).Holds v) :
    k.Holds v ∨ ∃ s, slot = some s ∧ s.image = v := by
  rcases h with ⟨d', s, hd, hi⟩ | h
  · by_cases heq : d' = d
    · exact .inr ⟨s, (if_pos heq).symm.trans hd, hi⟩
    · exact .inl (.inl ⟨d', s, (if_neg heq).symm.trans hd, hi⟩)
  · exact .inl (.inr h)

theorem allocHandle_holds :
    (k.allocHandle).2.Holds v ↔ k.Holds v := by
  unfold allocHandle
  dsimp only
  split <;> rfl

theorem allocHandle_stands :
    (k.allocHandle).2.Stands v ↔ k.Stands v := by
  unfold allocHandle
  dsimp only
  split <;> rfl

theorem dlOpen_holds (hs : k.Sound) {pid : UInt64} {path : List UInt8}
    {loads : Bool} (hv : (k.dlOpen grants pid path loads).Holds v) :
    k.Holds v ∨ ((k.dlOpen grants pid path loads).Stands v ∧
      v.bytes.length = v.size) := by
  unfold dlOpen at hv ⊢
  cases hslot : k.dlSlot pid path with
  | none =>
    rw [hslot] at hv
    dsimp only at hv
    unfold dlAgain at hv
    split at hv
    · split at hv
      · exact .inl hv
      · next d _ =>
        rcases setDynlib_holds hv with h | ⟨s, hs', hi⟩
        · exact .inl h
        · obtain ⟨s0, hs0, rfl⟩ := Option.map_eq_some_iff.mp hs'
          exact .inl (.inl ⟨d, s0, hs0, hi⟩)
    · exact .inl hv
  | some d =>
    rw [hslot] at hv
    obtain ⟨hk, hnew⟩ := view_run grants hs path
    cases hview : k.view grants path with
    | mk r k1 =>
      rw [hview] at hv hk hnew
      dsimp only at hv hk hnew
      cases r with
      | none =>
        subst hk
        exact .inl hv
      | some image =>
        obtain ⟨hst, hlen⟩ := hnew image rfl
        subst hk
        cases loads with
        | false => exact .inl hv
        | true =>
          rcases setDynlib_holds hv with h | ⟨s, hs', hi⟩
          · exact .inl (allocHandle_holds (k := k.onStore _).mp h)
          · cases hs'
            cases hi
            exact .inr ⟨allocHandle_stands.mpr hst, hlen⟩

theorem dlClose_holds {pid handle : UInt64}
    (hv : (k.dlClose pid handle).Holds v) : k.Holds v := by
  unfold dlClose at hv
  split at hv
  · exact hv
  · next d _ =>
    cases hd : k.dynlibs d with
    | none =>
      rw [hd] at hv
      exact hv
    | some slot =>
      rw [hd] at hv
      dsimp only at hv
      split at hv
      · exact hv
      · split at hv
        · rcases setDynlib_holds hv with h | ⟨s, hs, hi⟩
          · exact h
          · cases hs
            exact .inl ⟨d, slot, hd, hi⟩
        · rcases setDynlib_holds hv with h | ⟨s, hs, -⟩
          · exact h
          · cases hs

theorem releaseOwner_holds {pid : UInt64}
    (hv : (k.releaseOwner pid).Holds v) : k.Holds v := by
  unfold releaseOwner at hv
  split at hv
  · exact hv
  · rcases hv with ⟨d, s, hd, hi⟩ | h
    · exact .inl ⟨d, s, (Option.filter_eq_some_iff.mp hd).1, hi⟩
    · exact .inr h

theorem symbolsReady_holds (hs : k.Sound)
    (hv : (k.symbolsReady grants).Holds v) : k.Holds v ∨
      ((k.symbolsReady grants).Stands v ∧ v.bytes.length = v.size) := by
  unfold symbolsReady at hv ⊢
  split at hv
  · exact .inl hv
  · next hchecked =>
    split at hv
    · exact .inl hv
    · next hready =>
      rw [if_neg hchecked, if_neg hready]
      obtain ⟨hk, hnew⟩ := view_run grants hs kernelSymbolFile
      cases hview : k.view grants kernelSymbolFile with
      | mk r k1 =>
        rw [hview] at hv hk hnew
        dsimp only at hv hk hnew
        subst hk
        cases r with
        | none => exact .inl hv
        | some symbols =>
          obtain ⟨hst, hlen⟩ := hnew symbols rfl
          rcases hv with hd | hsym | hf
          · exact .inl (.inl hd)
          · cases hsym
            exact .inr ⟨hst, hlen⟩
          · exact .inl (.inr (.inr hf))

theorem loadBlob_holds (hs : k.Sound) {path : List UInt8} {parses : Bool}
    {put : View → Machine → Machine}
    (hput : ∀ v w k, (put w k).Holds v → k.Holds v ∨ v = w)
    (hstore : ∀ w k, (put w k).toStore = k.toStore)
    (hv : (k.loadBlob grants path parses put).Holds v) : k.Holds v ∨
      ((k.loadBlob grants path parses put).Stands v ∧
        v.bytes.length = v.size) := by
  unfold loadBlob at hv ⊢
  obtain ⟨hk, hnew⟩ := view_run grants hs path
  cases hview : k.view grants path with
  | mk r k1 =>
    rw [hview] at hv hk hnew
    dsimp only at hv hk hnew
    subst hk
    cases r with
    | none => exact .inl hv
    | some blob =>
      obtain ⟨hst, hlen⟩ := hnew blob rfl
      cases parses with
      | false => exact .inl hv
      | true =>
        rcases hput v blob _ hv with h | rfl
        · exact .inl h
        · refine .inr ⟨?_, hlen⟩
          show (put v _).toStore.behind v.size v.ptr = some v.bytes
          rw [hstore]
          exact hst

theorem step_holds (hs : k.Sound) (e : FileEvent) (v : View)
    (hv : (k.step grants e).Holds v) : k.Holds v ∨
      ((k.step grants e).Stands v ∧ v.bytes.length = v.size) := by
  cases e with
  | readAll path => exact .inl hv
  | writeAll path data size => exact .inl hv
  | append path data size => exact .inl hv
  | remove path => exact .inl hv
  | dlOpen pid path loads => exact dlOpen_holds grants hs hv
  | dlClose pid handle => exact .inl (dlClose_holds hv)
  | releaseOwner pid => exact .inl (releaseOwner_holds hv)
  | findSymbol => exact symbolsReady_holds grants hs hv
  | loadFont path parses =>
    refine loadBlob_holds grants hs (fun v w k hw => ?_)
      (fun v k => rfl) hv
    rcases hw with hd | hsym | hf | he
    · exact .inl (.inl hd)
    · exact .inl (.inr (.inl hsym))
    · exact .inr (Option.some.inj hf).symm
    · exact .inl (.inr (.inr (.inr he)))
  | loadEmojiFont path parses =>
    refine loadBlob_holds grants hs (fun v w k hw => ?_)
      (fun v k => rfl) hv
    rcases hw with hd | hsym | hf | he
    · exact .inl (.inl hd)
    · exact .inl (.inr (.inl hsym))
    · exact .inl (.inr (.inr (.inl hf)))
    · exact .inr (Option.some.inj he).symm

end step

-- ==== the runs

/-- What holds throughout: the memory is sound, and every view that is
held stands. -/
structure Safe (k : Machine) : Prop where
  sound : k.Sound
  stands : ∀ v, k.Holds v → k.Stands v ∧ v.bytes.length = v.size

theorem Booted.safe {k : Machine} (h : k.Booted) : k.Safe where
  sound :=
    { live := fun o b ho => by
        cases o with
        | node i =>
          rw [Store.owned, h.nodes i] at ho
          cases ho
        | entry i =>
          rw [Store.owned, h.cache] at ho
          cases ho
        | buffer =>
          rw [Store.owned, h.readCache] at ho
          cases ho
      apart := fun o o' b ho _ => by
        cases o with
        | node i =>
          rw [Store.owned, h.nodes i] at ho
          cases ho
        | entry i =>
          rw [Store.owned, h.cache] at ho
          cases ho
        | buffer =>
          rw [Store.owned, h.readCache] at ho
          cases ho
      fresh := fun b hb => absurd (h.heap b) hb
      files := fun i data hi => by
        rw [h.nodes i, hi]
        exact congrArg some (List.take_length)
      others := fun i _ => by rw [h.nodes i]; rfl
      clean := by
        rw [h.cache]
        exact fun _ _ => rfl
      cached := fun i b hb => by
        rw [h.cache] at hb
        cases hb }
  stands v hv := absurd hv (h.nobody v)

theorem Safe.step {k : Machine} {e : FileEvent} (h : k.Safe)
    (hspare : k.Spares grants e) : (k.step grants e).Safe := by
  obtain ⟨hs, hrec⟩ := step_store grants h.sound e
  refine ⟨hs, fun v hv => ?_⟩
  rcases step_holds grants h.sound e v hv with hbefore | hnew
  · obtain ⟨hst, hlen⟩ := h.stands v hbefore
    exact ⟨hst.keep h.sound hlen hrec
      (fun b hb => hspare v b hbefore hb), hlen⟩
  · exact hnew

theorem Safe.run {k k' : Machine} (h : k.Safe)
    (hr : RunIf grants (Spares grants) k k') : k'.Safe := by
  induction hr with
  | refl => exact h
  | tail _ hstep ih =>
    obtain ⟨e, hspare, rfl⟩ := hstep
    exact ih.step grants hspare

/-- In a run from boot in which no event gives back or copies over the
block of a view that is kept, every view that is kept has the bytes behind
it that its file had. -/
theorem stands_of_run {k k' : Machine} (hb : k.Booted)
    (hr : RunIf grants (Spares grants) k k') :
    ∀ v, k'.Holds v → k'.Stands v :=
  fun v hv => ((hb.safe.run grants hr).stands v hv).1

/-- The file system with nothing but the root node, behind boot; the disk
is not mounted. -/
def booted : Machine where
  ready := true
  nodes :=
    [{ used := true, type := .dir, parent := 0, data := [], path := [] }]
  disk := freshDisk
  heap := fun _ => none
  requests := 0
  nodeData := fun _ => .still []
  cache := .empty
  readCache := none
  readCacheSize := 0
  dynlibs := fun _ => none
  nextHandle := 1
  symbolsChecked := false
  symbols := none
  font := none
  emojiFont := none

theorem booted_booted : booted.Booted where
  heap _ := rfl
  nodes i := by
    refine congrArg Ptr.still ?_
    cases i with
    | zero => rfl
    | succ i => rfl
  cache := rfl
  readCache := rfl
  nobody v hv := by
    rcases hv with ⟨d, slot, hd, -⟩ | h | h | h
    · cases hd
    · cases h
    · cases h
    · cases h

/-- A library of four bytes is written. -/
def libPath : List UInt8 := txt "/temp/lib.so"

/-- Write the library, and open it. -/
def opened : Machine :=
  (booted.step (fun _ _ => true)
    (.writeAll libPath (some fun _ => 7) 4)).step (fun _ _ => true)
    (.dlOpen 5 libPath true)

/-- The library is open, and the file is written again: its image is
gone. -/
theorem opened_not_stands :
    ¬ ∀ (k k' : Machine), k.Booted →
      RunIf (fun _ _ => true) (fun _ _ => True) k k' →
      ∀ v, k'.Holds v → k'.Stands v := by
  intro h
  have hrun : RunIf (fun _ _ => true) (fun _ _ => True) booted
      (opened.step (fun _ _ => true)
        (.writeAll libPath (some fun _ => 8) 4)) :=
    ((Relation.ReflTransGen.refl.tail ⟨_, trivial, rfl⟩).tail
      ⟨_, trivial, rfl⟩).tail ⟨_, trivial, rfl⟩
  have hview : ((opened.step (fun _ _ => true)
      (.writeAll libPath (some fun _ => 8) 4)).dynlibs 0).map (·.image)
      = some ⟨.block 0, 4, [7, 7, 7, 7]⟩ := by decide +kernel
  obtain ⟨slot, hslot, himage⟩ := Option.map_eq_some_iff.mp hview
  have hstands := h _ _ booted_booted hrun _
    (.inl ⟨0, slot, hslot, himage⟩)
  have hgone : (opened.step (fun _ _ => true)
      (.writeAll libPath (some fun _ => 8) 4)).behind 4 (.block 0)
      = none := by decide +kernel
  rw [Stands, hgone] at hstands
  cases hstands

/-- Another file is written while the library is open. -/
theorem stands_of_run_opened :
    ((opened.step (fun _ _ => true)
        (.writeAll (txt "/temp/note") (some fun _ => 8) 4)).dynlibs 0).map
          (·.image) = some ⟨.block 0, 4, [7, 7, 7, 7]⟩ ∧
      (opened.step (fun _ _ => true)
        (.writeAll (txt "/temp/note") (some fun _ => 8) 4)).Stands
          ⟨.block 0, 4, [7, 7, 7, 7]⟩ := by
  have hview : ((opened.step (fun _ _ => true)
      (.writeAll (txt "/temp/note") (some fun _ => 8) 4)).dynlibs 0).map
        (·.image) = some ⟨.block 0, 4, [7, 7, 7, 7]⟩ := by decide +kernel
  obtain ⟨slot, hslot, himage⟩ := Option.map_eq_some_iff.mp hview
  have hfree : ∀ k : Machine, ∀ e, k.frees (fun _ _ => true) e = [] →
      k.fills e = none → k.Spares (fun _ _ => true) e :=
    fun k e hno hnone v b _ _ =>
      ⟨by simp [hno], fun _ h => by rw [hnone] at h; cases h⟩
  refine ⟨hview, stands_of_run (fun _ _ => true) booted_booted
    (((Relation.ReflTransGen.refl.tail ⟨_, hfree _ _ ?_ ?_, rfl⟩).tail
      ⟨_, hfree _ _ ?_ ?_, rfl⟩).tail ⟨_, hfree _ _ ?_ ?_, rfl⟩)
    _ (.inl ⟨0, slot, hslot, himage⟩)⟩
  all_goals decide +kernel

end Machine

end Clks.Fs
