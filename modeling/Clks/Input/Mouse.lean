/-
The mouse (input/mouse.c): the bytes of the device, three to a packet, and
the pointer that they move.

The device has nine bits for each of the two distances: eight in a byte of
their own and the sign in the status byte. The code reads the eight as a
signed number and leaves the sign bit alone. So the pointer goes where the
device went as long as the eighth bit says what the sign bit says
(`follows_iff`): a distance of 128 or more goes the other way.
-/
import Mathlib

namespace Clks.Input

-- ==== the constants

/-- `CLKS_MOUSE_SYNC_BIT`. -/
abbrev mouseSyncBit : UInt8 := 0x08

/-- `CLKS_MOUSE_OVERFLOW_MASK`. -/
abbrev mouseOverflowMask : UInt8 := 0xC0

/-- `CLKS_MOUSE_BUTTON_MASK`. -/
abbrev mouseButtonMask : UInt8 := 0x07

/-- The signs of the two distances, in the status byte. -/
abbrev mouseSignX : UInt8 := 0x10

abbrev mouseSignY : UInt8 := 0x20

-- ==== the mouse

/-- `struct clks_mouse_runtime`. The index is less than 3 between two
bytes. -/
structure Mouse where
  x : Int32
  y : Int32
  maxX : UInt32
  maxY : UInt32
  buttons : UInt8
  packet : Fin 3 → UInt8
  packetIndex : Fin 3
  packetCount : UInt64
  dropCount : UInt64
  ready : Bool

namespace Mouse

/-- `clks_mouse_reset_runtime`; `info`: the width and the height of the
framebuffer, if there is one. -/
def resetRuntime (info : Option (UInt32 × UInt32)) : Mouse :=
  let maxX := match info with
    | some (width, _) => if 0 < width then width - 1 else 0
    | none => 0
  let maxY := match info with
    | some (_, height) => if 0 < height then height - 1 else 0
    | none => 0
  { x := (maxX / 2).toInt32
    y := (maxY / 2).toInt32
    maxX
    maxY
    buttons := 0
    packet := fun _ => 0
    packetIndex := 0
    packetCount := 0
    dropCount := 0
    ready := false }

/-- `clks_mouse_init`; `answered`: the device took every command. -/
def init (info : Option (UInt32 × UInt32)) (answered : Bool) : Mouse :=
  { resetRuntime info with ready := answered }

/-- The pointer on one axis, for the place that a packet asks for. -/
def clampAxis (next : Int32) (max : UInt32) : Int32 :=
  if next < 0 then 0
  else if max < next.toUInt32 then max.toInt32
  else next

/-- What `clks_mouse_handle_byte` does with a packet that is complete. -/
def handlePacket (m : Mouse) : Mouse :=
  let status := m.packet 0
  let m := { m with
    packetIndex := 0
    packetCount := m.packetCount + 1
    buttons := status &&& mouseButtonMask }
  if status &&& mouseOverflowMask ≠ 0 then
    { m with dropCount := m.dropCount + 1 }
  else
    let dx := (m.packet 1).toInt8.toInt32
    let dy := (m.packet 2).toInt8.toInt32
    { m with
      x := clampAxis (m.x + dx) m.maxX
      y := clampAxis (m.y - dy) m.maxY }

/-- `clks_mouse_handle_byte`. -/
def handleByte (m : Mouse) (dataByte : UInt8) : Mouse :=
  if m.ready = false then m
  else if m.packetIndex = 0 ∧ dataByte &&& mouseSyncBit = 0 then
    { m with dropCount := m.dropCount + 1 }
  else
    let packet := Function.update m.packet m.packetIndex dataByte
    if m.packetIndex < 2 then
      { m with packet, packetIndex := m.packetIndex + 1 }
    else handlePacket { m with packet }

/-- One byte after another. -/
def handleBytes (m : Mouse) (bytes : List UInt8) : Mouse :=
  bytes.foldl handleByte m

/-- Where the pointer is. -/
def position (m : Mouse) : Int × Int := (m.x.toInt, m.y.toInt)

-- ==== on the screen

/-- The pointer is on the screen. -/
structure Within (m : Mouse) : Prop where
  x_nonneg : 0 ≤ m.x.toInt
  x_le : m.x.toInt ≤ m.maxX.toNat
  y_nonneg : 0 ≤ m.y.toInt
  y_le : m.y.toInt ≤ m.maxY.toNat

end Mouse

/-- The nearest place on an axis. -/
def clamp (max : Nat) (place : Int) : Int := Max.max 0 (min place max)

section axis

variable {max : UInt32} {x d : Int32}

theorem toInt_half (max : UInt32) : (max / 2).toInt32.toInt = max.toNat / 2 := by
  have hlt := max.toNat_lt
  have hhalf : (max / 2).toNat = max.toNat / 2 := UInt32.toNat_div max 2
  rw [UInt32.toInt32, ← Int32.toInt_toBitVec, BitVec.toInt_eq_toNat_cond]
  show (if 2 * (max / 2).toNat < 2 ^ 32 then ((max / 2).toNat : Int) else _) = _
  rw [hhalf, if_pos (by omega)]
  omega

theorem toInt_wrapped {place : Int} (hge : -2 ^ 31 ≤ place)
    (hlt : place < 2 ^ 32) :
    place.bmod (2 ^ 32) = if place < 2 ^ 31 then place else place - 2 ^ 32 := by
  rw [Int.bmod_def]
  split_ifs <;> omega

theorem clampAxis_toInt {next : Int32} {place : Int} (hge : -2 ^ 31 ≤ place)
    (hlt : place < 2 ^ 32) (hnext : next.toInt = place.bmod (2 ^ 32)) :
    (Mouse.clampAxis next max).toInt
      = if place < 2 ^ 31 then clamp max.toNat place else 0 := by
  have h0 : (0 : Int32).toInt = 0 := rfl
  have hmax : max.toInt32.toInt
      = if 2 * max.toNat < 2 ^ 32 then (max.toNat : Int)
        else max.toNat - (2 ^ 32 : Nat) := by
    rw [UInt32.toInt32, ← Int32.toInt_toBitVec, BitVec.toInt_eq_toNat_cond]
    rfl
  rw [toInt_wrapped hge hlt] at hnext
  have hnat : ¬ next.toInt < 0 → next.toUInt32.toNat = next.toInt.toNat := by
    intro hneg
    rw [Int32.toNat_toUInt32_of_le (Int32.le_iff_toInt_le.mpr (by omega))]
    rfl
  unfold Mouse.clampAxis clamp
  simp only [Int32.lt_iff_toInt_lt, apply_ite Int32.toInt, h0, hmax,
    UInt32.lt_iff_toNat_lt]
  by_cases hneg : next.toInt < 0
  · rw [if_pos hneg]
    split_ifs at hnext ⊢ <;> omega
  · rw [if_neg hneg, hnat hneg]
    split_ifs at hnext ⊢ <;> omega

theorem toInt_eight (b : UInt8) : b.toInt8.toInt32.toInt
    = if b.toNat < 0x80 then (b.toNat : Int) else b.toNat - 0x100 := by
  have hlt : b.toNat < 256 := b.toNat_lt
  rw [Int8.toInt_toInt32, UInt8.toInt8, ← Int8.toInt_toBitVec,
    BitVec.toInt_eq_toNat_cond]
  show (if 2 * b.toNat < 2 ^ 8 then (b.toNat : Int) else b.toNat - (2 ^ 8 : Nat)) = _
  split_ifs <;> omega

end axis

-- ==== packets

/-- A packet of the device, without overflow. -/
structure Packet where
  status : UInt8
  dx : UInt8
  dy : UInt8
  sync : status &&& mouseSyncBit ≠ 0
  exact : status &&& mouseOverflowMask = 0

/-- A distance of nine bits in two's complement. -/
def nineBits (negative : Prop) [Decidable negative] (byte : UInt8) : Int :=
  if negative then byte.toNat - 0x100 else byte.toNat

namespace Packet

def bytes (p : Packet) : List UInt8 := [p.status, p.dx, p.dy]

/-- The device went so far to the right. -/
def deltaX (p : Packet) : Int :=
  nineBits (p.status &&& mouseSignX ≠ 0) p.dx

/-- And so far up. -/
def deltaY (p : Packet) : Int :=
  nineBits (p.status &&& mouseSignY ≠ 0) p.dy

end Packet

/-- A pointer that follows the device. -/
def follow (maxX maxY : Nat) (place : Int × Int) (p : Packet) : Int × Int :=
  (clamp maxX (place.1 + p.deltaX), clamp maxY (place.2 - p.deltaY))

/-- A distance for which eight bits are enough: the eighth one says what the
sign says. -/
def EightBits (delta : Int) : Prop := -0x80 ≤ delta ∧ delta < 0x80

instance (delta : Int) : Decidable (EightBits delta) :=
  inferInstanceAs (Decidable (_ ∧ _))

/-- The code's pointer moves as the device did: eight bits are enough for the
distance, and 31 for the place; or the axis has one place; or the largest
distance goes back from the first place, and so nowhere. -/
def FollowsX (maxX : Nat) (x : Int) (p : Packet) : Prop :=
  maxX = 0 ∨ (EightBits p.deltaX ∧ x + p.deltaX < 2 ^ 31) ∨
    (p.deltaX = -0x100 ∧ x = 0)

/-- The same on the other axis, on which the device counts upwards. -/
def FollowsY (maxY : Nat) (y : Int) (p : Packet) : Prop :=
  maxY = 0 ∨ (EightBits p.deltaY ∧ y - p.deltaY < 2 ^ 31) ∨
    (p.deltaY = -0x100 ∧ y = maxY)

/-- Every packet moves the pointer as the device moved, from where the
packets before it have brought the device. -/
def Follows (maxX maxY : Nat) : Int × Int → List Packet → Prop
  | _, [] => True
  | place, p :: ps =>
    FollowsX maxX place.1 p ∧ FollowsY maxY place.2 p ∧
      Follows maxX maxY (follow maxX maxY place p) ps

-- ==== one step

section step

variable {max : UInt32} {x : Int32} {place : Int} {m : Mouse}

theorem eight_of_nine (negative : Prop) [Decidable negative] (byte : UInt8) :
    byte.toInt8.toInt32.toInt
        = (if EightBits (nineBits negative byte) then nineBits negative byte
          else if nineBits negative byte < 0 then nineBits negative byte + 0x100
          else nineBits negative byte - 0x100) ∧
      -0x100 ≤ nineBits negative byte ∧ nineBits negative byte < 0x100 := by
  have hlt : byte.toNat < 256 := byte.toNat_lt
  rw [toInt_eight]
  unfold EightBits nineBits
  split_ifs <;> omega

theorem clamp_bounds (max : Nat) (place : Int) :
    0 ≤ clamp max place ∧ clamp max place ≤ max := by
  unfold clamp
  omega

theorem clampAxis_add_iff (negative : Prop) [Decidable negative]
    (byte : UInt8) (hge : 0 ≤ x.toInt) (hle : x.toInt ≤ max.toNat) :
    (Mouse.clampAxis (x + byte.toInt8.toInt32) max).toInt
        = clamp max.toNat (x.toInt + nineBits negative byte) ↔
      max.toNat = 0 ∨ (EightBits (nineBits negative byte) ∧
          x.toInt + nineBits negative byte < 2 ^ 31) ∨
        (nineBits negative byte = -0x100 ∧ x.toInt = 0) := by
  have hx := x.toInt_lt
  obtain ⟨height, hlow, hhigh⟩ := eight_of_nine negative byte
  generalize nineBits negative byte = d at height hlow hhigh ⊢
  have hplace := Int32.toInt_add x byte.toInt8.toInt32
  rw [clampAxis_toInt (by split_ifs at height <;> omega)
    (by split_ifs at height <;> omega) hplace, height]
  unfold EightBits clamp
  split_ifs <;> omega

theorem clampAxis_sub_iff (negative : Prop) [Decidable negative]
    (byte : UInt8) (hge : 0 ≤ x.toInt) (hle : x.toInt ≤ max.toNat) :
    (Mouse.clampAxis (x - byte.toInt8.toInt32) max).toInt
        = clamp max.toNat (x.toInt - nineBits negative byte) ↔
      max.toNat = 0 ∨ (EightBits (nineBits negative byte) ∧
          x.toInt - nineBits negative byte < 2 ^ 31) ∨
        (nineBits negative byte = -0x100 ∧ x.toInt = max.toNat) := by
  have hx := x.toInt_lt
  obtain ⟨height, hlow, hhigh⟩ := eight_of_nine negative byte
  generalize nineBits negative byte = d at height hlow hhigh ⊢
  have hplace := Int32.toInt_sub x byte.toInt8.toInt32
  rw [clampAxis_toInt (by split_ifs at height <;> omega)
    (by split_ifs at height <;> omega) hplace, height]
  unfold EightBits clamp
  split_ifs <;> omega

theorem clampAxis_within (next : Int32) (max : UInt32) :
    0 ≤ (Mouse.clampAxis next max).toInt ∧
      (Mouse.clampAxis next max).toInt ≤ max.toNat := by
  have hlt := next.toInt_lt
  have hle := next.le_toInt
  have hplace : next.toInt = next.toInt.bmod (2 ^ 32) := by
    rw [toInt_wrapped (by omega) (by omega), if_pos (by omega)]
  rw [clampAxis_toInt (by omega) (by omega) hplace, if_pos (by omega)]
  exact clamp_bounds max.toNat next.toInt

namespace Mouse

theorem within_handleByte (hm : m.Within) (b : UInt8) :
    (m.handleByte b).Within := by
  unfold handleByte
  split
  · exact hm
  split
  · exact ⟨hm.x_nonneg, hm.x_le, hm.y_nonneg, hm.y_le⟩
  dsimp only
  split
  · exact ⟨hm.x_nonneg, hm.x_le, hm.y_nonneg, hm.y_le⟩
  unfold handlePacket
  dsimp only
  split
  · exact ⟨hm.x_nonneg, hm.x_le, hm.y_nonneg, hm.y_le⟩
  · obtain ⟨hx, hx'⟩ := clampAxis_within (m.x + _) m.maxX
    obtain ⟨hy, hy'⟩ := clampAxis_within (m.y - _) m.maxY
    exact ⟨hx, hx', hy, hy'⟩

theorem within_init (info : Option (UInt32 × UInt32)) (answered : Bool) :
    (init info answered).Within := by
  have hhalf : ∀ max : UInt32, 0 ≤ (max / 2).toInt32.toInt ∧
      (max / 2).toInt32.toInt ≤ max.toNat := by
    intro max
    rw [toInt_half]
    omega
  exact ⟨(hhalf _).1, (hhalf _).2, (hhalf _).1, (hhalf _).2⟩

theorem within_handleBytes (hm : m.Within) (bytes : List UInt8) :
    (m.handleBytes bytes).Within := by
  induction bytes generalizing m with
  | nil => exact hm
  | cons b bytes ih => exact ih (within_handleByte hm b)

theorem ready_handleBytes (hready : m.ready = true) (bytes : List UInt8) :
    (m.handleBytes bytes).ready = true := by
  induction bytes generalizing m with
  | nil => exact hready
  | cons b bytes ih =>
    refine ih ?_
    unfold handleByte handlePacket
    dsimp only
    split_ifs <;> exact hready

theorem handleBytes_packet (hready : m.ready = true) (hindex : m.packetIndex = 0)
    (p : Packet) :
    let after := m.handleBytes p.bytes
    after.x = clampAxis (m.x + p.dx.toInt8.toInt32) m.maxX ∧
      after.y = clampAxis (m.y - p.dy.toInt8.toInt32) m.maxY ∧
      after.maxX = m.maxX ∧ after.maxY = m.maxY ∧ after.ready = true ∧
      after.packetIndex = 0 := by
  have hfirst : m.handleByte p.status
      = { m with
          packet := Function.update m.packet 0 p.status
          packetIndex := 1 } := by
    unfold handleByte
    rw [hindex, if_neg (by rw [hready]; exact Bool.noConfusion),
      if_neg (fun h => p.sync h.2), if_pos (by decide)]
    rfl
  have hlast : ∀ (packet : Fin 3 → UInt8) (b : UInt8),
      ({ m with packet, packetIndex := 1 }.handleByte p.dx).handleByte b
        = handlePacket { m with
            packet := Function.update (Function.update packet 1 p.dx) 2 b
            packetIndex := 2 } := by
    intro packet b
    unfold handleByte
    simp only [hready]
    rfl
  have hrun : m.handleBytes p.bytes
      = ((m.handleByte p.status).handleByte p.dx).handleByte p.dy := rfl
  rw [hfirst, hlast] at hrun
  dsimp only
  rw [hrun]
  unfold handlePacket
  dsimp only
  have hstatus : Function.update (Function.update
      (Function.update m.packet 0 p.status) 1 p.dx) 2 p.dy 0 = p.status := rfl
  rw [hstatus, if_neg (not_not.mpr p.exact)]
  exact ⟨rfl, rfl, rfl, rfl, hready, rfl⟩

end Mouse

end step

-- ==== a run

section run

variable {m : Mouse}

theorem position_packet_iff (hm : m.Within) (hready : m.ready = true)
    (hindex : m.packetIndex = 0) (p : Packet) :
    (m.handleBytes p.bytes).position
        = follow m.maxX.toNat m.maxY.toNat m.position p ↔
      FollowsX m.maxX.toNat m.position.1 p ∧
        FollowsY m.maxY.toNat m.position.2 p := by
  obtain ⟨hx, hy, -, -, -, -⟩ := Mouse.handleBytes_packet hready hindex p
  unfold Mouse.position follow
  rw [hx, hy, Prod.mk.injEq]
  exact and_congr (clampAxis_add_iff _ p.dx hm.x_nonneg hm.x_le)
    (clampAxis_sub_iff _ p.dy hm.y_nonneg hm.y_le)

theorem follows_from_iff (hm : m.Within) (hready : m.ready = true)
    (hindex : m.packetIndex = 0) (packets : List Packet) :
    (∀ n, (m.handleBytes ((packets.take n).flatMap Packet.bytes)).position
        = (packets.take n).foldl (follow m.maxX.toNat m.maxY.toNat) m.position) ↔
      Follows m.maxX.toNat m.maxY.toNat m.position packets := by
  induction packets generalizing m with
  | nil => exact ⟨fun _ => trivial, fun _ n => by rw [List.take_nil]; rfl⟩
  | cons p ps ih =>
    obtain ⟨-, -, hmaxX, hmaxY, hready', hindex'⟩ :=
      Mouse.handleBytes_packet hready hindex p
    have hm' := Mouse.within_handleBytes hm p.bytes
    have hrest := ih hm' hready' hindex'
    rw [hmaxX, hmaxY] at hrest
    have hhandle : ∀ n, m.handleBytes (((p :: ps).take (n + 1)).flatMap Packet.bytes)
        = (m.handleBytes p.bytes).handleBytes ((ps.take n).flatMap Packet.bytes) :=
      fun n => List.foldl_append
    constructor
    · intro h
      have hfirst : (m.handleBytes p.bytes).position
          = follow m.maxX.toNat m.maxY.toNat m.position p := by
        have hone := h 1
        rw [hhandle, List.take_zero] at hone
        exact hone
      obtain ⟨hfollowsX, hfollowsY⟩ :=
        (position_packet_iff hm hready hindex p).mp hfirst
      refine ⟨hfollowsX, hfollowsY, ?_⟩
      rw [← hfirst]
      refine hrest.mp fun n => ?_
      have hnext := h (n + 1)
      rw [hhandle] at hnext
      rw [hnext, hfirst]
      rfl
    · intro ⟨hfollowsX, hfollowsY, hfollows⟩ n
      have hfirst := (position_packet_iff hm hready hindex p).mpr
        ⟨hfollowsX, hfollowsY⟩
      cases n with
      | zero => rfl
      | succ n =>
        rw [← hfirst] at hfollows
        rw [hhandle, hrest.mpr hfollows n, hfirst]
        rfl

/-- From any boundary between two packets on, whatever the device has sent
before, the pointer is behind every packet where the device is, if and only
if each distance is one of eight bits (and each place one of 31), but for
the edges where nothing moves. -/
theorem follows_iff (info : Option (UInt32 × UInt32)) (sent : List UInt8)
    (packets : List Packet)
    (hboundary : ((Mouse.init info true).handleBytes sent).packetIndex = 0) :
    let m := (Mouse.init info true).handleBytes sent
    (∀ n, (m.handleBytes ((packets.take n).flatMap Packet.bytes)).position
        = (packets.take n).foldl (follow m.maxX.toNat m.maxY.toNat) m.position) ↔
      Follows m.maxX.toNat m.maxY.toNat m.position packets :=
  follows_from_iff (Mouse.within_handleBytes (Mouse.within_init info true) sent)
    (Mouse.ready_handleBytes rfl sent) hboundary packets

end run

/-- 200 to the right, from the middle of a screen of 1024 by 768. -/
def fastRight : Packet := ⟨0x08, 200, 0, by decide, by decide⟩

/-- The pointer goes 56 to the left instead. -/
theorem fast_goes_back :
    let m := Mouse.init (some (1024, 768)) true
    m.packetIndex = 0 ∧ m.position = (511, 383) ∧
      (m.handleBytes fastRight.bytes).position = (455, 383) ∧
      [fastRight].foldl (follow m.maxX.toNat m.maxY.toNat) m.position
        = (711, 383) := by
  decide +kernel

/-- A slow movement, behind a button. -/
theorem follows_iff_slow :
    let m := (Mouse.init (some (1024, 768)) true).handleBytes [0x09, 0, 0]
    let slow : Packet := ⟨0x18, 0xFB, 7, by decide, by decide⟩
    (m.handleBytes (([slow].take 1).flatMap Packet.bytes)).position
      = ([slow].take 1).foldl (follow m.maxX.toNat m.maxY.toNat) m.position := by
  refine (follows_iff (some (1024, 768)) [0x09, 0, 0] [⟨0x18, 0xFB, 7, by decide, by decide⟩]
    (by decide)).mpr ⟨?_, ?_, trivial⟩ 1
  · exact .inr (.inl (by decide +kernel))
  · exact .inr (.inl (by decide +kernel))

end Clks.Input
