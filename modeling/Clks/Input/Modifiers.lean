/-
The modifier keys over whole sequences of scan codes.

A keyboard sends the codes of set 1: a key pressed or released, a Shift that
is none around keys of the second kind, and the Pause key. What is held is
counted from the codes alone (`Code.after`). The flags of `handleScancode`
stand for it after each code (`exact_iff`) as long as no Shift that is none
comes, which the code takes for the Shift key, and as long as no Alt is let
go while the other is held: there is one flag for both.
-/
import Clks.Input.Keyboard

namespace Clks.Input

-- ==== the codes

/-- A key by its code. A key of the second kind sends `E0` before it; there
the codes of Shift are no keys, and a key `60` would be read as the prefix
when it is let go. -/
structure Key where
  extended : Bool
  code : UInt8
  small : code < 0x80
  notPrefix : code ≠ 0x60
  notFake : extended = true → code ≠ scLshift ∧ code ≠ scRshift
  deriving DecidableEq

namespace Key

theorem ext {a b : Key} (hextended : a.extended = b.extended)
    (hcode : a.code = b.code) : a = b := by
  obtain ⟨_, _, _, _, _⟩ := a
  obtain ⟨_, _, _, _, _⟩ := b
  subst hextended hcode
  rfl

def leftShift : Key := ⟨false, scLshift, by decide, by decide, by decide⟩

def rightShift : Key := ⟨false, scRshift, by decide, by decide, by decide⟩

def leftCtrl : Key := ⟨false, scCtrl, by decide, by decide, by decide⟩

def rightCtrl : Key := ⟨true, scCtrl, by decide, by decide, by decide⟩

def leftAlt : Key := ⟨false, scAlt, by decide, by decide, by decide⟩

def rightAlt : Key := ⟨true, scAlt, by decide, by decide, by decide⟩

theorem ext_iff {a b : Key} :
    a = b ↔ a.extended = b.extended ∧ a.code = b.code :=
  ⟨fun h => by subst h; exact ⟨rfl, rfl⟩, fun h => ext h.1 h.2⟩

theorem distinct :
    [leftShift, rightShift, leftCtrl, rightCtrl, leftAlt, rightAlt].Nodup := by
  decide

def IsShift (key : Key) : Prop := key = leftShift ∨ key = rightShift

def IsCtrl (key : Key) : Prop := key = leftCtrl ∨ key = rightCtrl

def IsAlt (key : Key) : Prop := key = leftAlt ∨ key = rightAlt

instance : DecidablePred IsCtrl := fun _ => inferInstanceAs (Decidable (_ ∨ _))

instance : DecidablePred IsShift := fun _ => inferInstanceAs (Decidable (_ ∨ _))

instance : DecidablePred IsAlt := fun _ => inferInstanceAs (Decidable (_ ∨ _))

/-- What a key sends, without the bit of a release. -/
def bytes (key : Key) (last : UInt8) : List UInt8 :=
  if key.extended then [scExtPrefix, last] else [last]

end Key

/-- What a keyboard sends. -/
inductive Code where
  | press (key : Key)
  | release (key : Key)
  | fakeShift (right released : Bool)
  | pause

namespace Code

/-- The bytes of a code. With a Ctrl held, Pause is Break, a key of its
own. -/
def bytes (held : Finset Key) : Code → List UInt8
  | press key => key.bytes key.code
  | release key => key.bytes (key.code ||| 0x80)
  | fakeShift right released =>
    [scExtPrefix,
      (if right then scRshift else scLshift) ||| (if released then 0x80 else 0)]
  | pause =>
    if ∃ key ∈ held, key.IsCtrl then [scExtPrefix, 0x46, scExtPrefix, 0xC6]
    else [0xE1, 0x1D, 0x45, 0xE1, 0x9D, 0xC5]

/-- The keys that are held behind a code. -/
def after (held : Finset Key) : Code → Finset Key
  | press key => insert key held
  | release key => held.erase key
  | fakeShift _ _ => held
  | pause => held

/-- The codes that the flags follow. -/
def Followed (held : Finset Key) : Code → Prop
  | press _ => True
  | release key => key.IsAlt → ∀ other ∈ held, other.IsAlt → other = key
  | fakeShift _ _ => False
  | pause => True

end Code

/-- The flags say what is held, and no prefix waits for the next code. -/
structure Exact (held : Finset Key) (m : Modifiers) : Prop where
  shift : m.shiftActive = true ↔ ∃ key ∈ held, key.IsShift
  ctrl : m.ctrlActive = true ↔ ∃ key ∈ held, key.IsCtrl
  alt : m.altDown = true ↔ ∃ key ∈ held, key.IsAlt
  spent : m.e0Prefix = false

-- ==== the flags

namespace Modifiers

/-- The flags of keys and the prefix, without the latch. -/
def unlatched (m : Modifiers) : Modifiers := { m with forceStopLatch := false }

/-- What `handleScancode` does to them. -/
def scan (m : Modifiers) (scancode : UInt8) : Modifiers :=
  if scancode = scExtPrefix then { m with e0Prefix := true }
  else
    let down : Bool := !decide (scancode &&& 0x80 ≠ 0)
    let code := scancode &&& 0x7F
    if code = scCtrl then
      if m.e0Prefix then { m with rctrlDown := down, e0Prefix := false }
      else { m with lctrlDown := down }
    else if code = scAlt then { m with altDown := down, e0Prefix := false }
    else if code = scLshift then { m with lshiftDown := down }
    else if code = scRshift then { m with rshiftDown := down }
    else { m with e0Prefix := false }

/-- The flag of each key is the key's; the flag of Alt is both keys'. -/
structure Tracks (held : Finset Key) (m : Modifiers) : Prop where
  lshift : m.lshiftDown = true ↔ Key.leftShift ∈ held
  rshift : m.rshiftDown = true ↔ Key.rightShift ∈ held
  lctrl : m.lctrlDown = true ↔ Key.leftCtrl ∈ held
  rctrl : m.rctrlDown = true ↔ Key.rightCtrl ∈ held
  alt : m.altDown = true ↔ Key.leftAlt ∈ held ∨ Key.rightAlt ∈ held
  spent : m.e0Prefix = false

theorem reset_tracks : Tracks ∅ reset := by
  constructor <;> simp [reset]

private theorem held_or {held : Finset Key} {a b : Key} :
    (∃ key ∈ held, key = a ∨ key = b) ↔ a ∈ held ∨ b ∈ held := by
  constructor
  · intro ⟨key, hmem, hkey⟩
    rcases hkey with rfl | rfl
    · exact .inl hmem
    · exact .inr hmem
  · intro h
    rcases h with h | h
    · exact ⟨a, h, .inl rfl⟩
    · exact ⟨b, h, .inr rfl⟩

theorem Tracks.exact {held : Finset Key} {m : Modifiers} (h : Tracks held m) :
    Exact held m where
  shift := by
    simp only [shiftActive, Bool.or_eq_true, h.lshift, h.rshift, Key.IsShift,
      held_or]
  ctrl := by
    simp only [ctrlActive, Bool.or_eq_true, h.lctrl, h.rctrl, Key.IsCtrl, held_or]
  alt := by simp only [h.alt, Key.IsAlt, held_or]
  spent := h.spent

/-- The flag of a key that is pressed or let go. -/
def set (key : Key) (down : Bool) (m : Modifiers) : Modifiers :=
  if key = .leftShift then { m with lshiftDown := down }
  else if key = .rightShift then { m with rshiftDown := down }
  else if key = .leftCtrl then { m with lctrlDown := down }
  else if key = .rightCtrl then { m with rctrlDown := down }
  else if key.IsAlt then { m with altDown := down }
  else m

theorem Tracks.press {held : Finset Key} {m : Modifiers} (h : Tracks held m)
    (key : Key) : Tracks (insert key held) (m.set key true) := by
  obtain ⟨hlshift, hrshift, hlctrl, hrctrl, halt, hspent⟩ := h
  have hdistinct := Key.distinct
  simp only [List.nodup_cons, List.mem_cons, List.not_mem_nil, or_false, not_or,
    List.nodup_nil] at hdistinct
  unfold set Key.IsAlt
  split_ifs <;> constructor <;> grind

theorem Tracks.release {held : Finset Key} {m : Modifiers} (h : Tracks held m)
    {key : Key} (hother : key.IsAlt → ∀ other ∈ held, other.IsAlt → other = key) :
    Tracks (held.erase key) (m.set key false) := by
  obtain ⟨hlshift, hrshift, hlctrl, hrctrl, halt, hspent⟩ := h
  have hdistinct := Key.distinct
  simp only [List.nodup_cons, List.mem_cons, List.not_mem_nil, or_false, not_or,
    List.nodup_nil] at hdistinct
  unfold Key.IsAlt at hother
  unfold set Key.IsAlt
  split_ifs <;> constructor <;> grind

-- ==== the bytes of a code

private theorem byte_bits (c : UInt8) (hsmall : c < 0x80) (hnoext : c ≠ 0x60) :
    c ≠ scExtPrefix ∧ c &&& 0x80 = 0 ∧ c &&& 0x7F = c ∧
      c ||| 0x80 ≠ scExtPrefix ∧ (c ||| 0x80) &&& 0x80 ≠ 0 ∧
      (c ||| 0x80) &&& 0x7F = c := by
  have hall : ∀ n < 0x80, n ≠ 0x60 →
      UInt8.ofNat n ≠ scExtPrefix ∧ UInt8.ofNat n &&& 0x80 = 0 ∧
        UInt8.ofNat n &&& 0x7F = UInt8.ofNat n ∧
        UInt8.ofNat n ||| 0x80 ≠ scExtPrefix ∧
        (UInt8.ofNat n ||| 0x80) &&& 0x80 ≠ 0 ∧
        (UInt8.ofNat n ||| 0x80) &&& 0x7F = UInt8.ofNat n := by
    decide +kernel
  have hn := hall c.toNat (UInt8.lt_iff_toNat_lt.mp hsmall) fun h =>
    hnoext (UInt8.toNat_inj.mp h)
  rwa [UInt8.ofNat_toNat] at hn

theorem set_eq (key : Key) (down : Bool) (m : Modifiers) :
    m.set key down =
      if key.code = scCtrl then
        if key.extended then { m with rctrlDown := down }
        else { m with lctrlDown := down }
      else if key.code = scAlt then { m with altDown := down }
      else if key.code = scLshift then { m with lshiftDown := down }
      else if key.code = scRshift then { m with rshiftDown := down }
      else m := by
  have hfake := key.notFake
  simp only [set, Key.IsAlt, Key.ext_iff, Key.leftShift, Key.rightShift,
    Key.leftCtrl, Key.rightCtrl, Key.leftAlt, Key.rightAlt]
  cases hext : key.extended with
  | false =>
    by_cases hctrl : key.code = scCtrl
    · simp [hctrl, show scCtrl ≠ scLshift by decide, show scCtrl ≠ scRshift by decide]
    · grind
  | true =>
    obtain ⟨hleft, hright⟩ := hfake hext
    simp [hleft, hright]

theorem scan_key {m : Modifiers} (hspent : m.e0Prefix = false) (key : Key)
    {last : UInt8} (hlast : last ≠ scExtPrefix) (hcode : last &&& 0x7F = key.code) :
    (key.bytes last).foldl scan m =
      m.set key (!decide (last &&& 0x80 ≠ 0)) := by
  rw [set_eq]
  unfold Key.bytes
  obtain ⟨_, _, _, _, _, _, _⟩ := m
  simp only at hspent
  subst hspent
  cases hext : key.extended with
  | false =>
    simp only [Bool.false_eq_true, if_false, List.foldl_cons, List.foldl_nil, scan,
      if_neg hlast, hcode]
  | true =>
    obtain ⟨hleft, hright⟩ := key.notFake hext
    simp only [if_true, List.foldl_cons, List.foldl_nil, scan, if_neg hlast, hcode,
      if_neg hleft, if_neg hright]

theorem Tracks.code {held : Finset Key} {m : Modifiers} (h : Tracks held m)
    {c : Code} (hc : c.Followed held) :
    Tracks (c.after held) ((c.bytes held).foldl scan m) := by
  cases c with
  | press key =>
    obtain ⟨hlast, hup, hcode, -, -, -⟩ := byte_bits _ key.small key.notPrefix
    rw [Code.bytes, scan_key h.spent key hlast hcode, hup]
    exact h.press key
  | release key =>
    obtain ⟨-, -, -, hlast, hup, hcode⟩ := byte_bits _ key.small key.notPrefix
    rw [Code.bytes, scan_key h.spent key hlast hcode, decide_eq_true hup]
    exact h.release hc
  | fakeShift right released => exact hc.elim
  | pause =>
    by_cases hctrl : ∃ key ∈ held, key.IsCtrl
    · rw [Code.bytes, if_pos hctrl]
      exact ⟨h.lshift, h.rshift, h.lctrl, h.rctrl, h.alt, rfl⟩
    · -- Without a Ctrl held, the one that Pause lets go was up before.
      rw [Code.bytes, if_neg hctrl]
      have hup : Key.leftCtrl ∉ held := fun hmem => hctrl ⟨_, hmem, .inl rfl⟩
      exact ⟨h.lshift, h.rshift, iff_of_false Bool.false_ne_true hup, h.rctrl,
        h.alt, rfl⟩

theorem Tracks.not_exact {held : Finset Key} {m : Modifiers} (h : Tracks held m)
    {c : Code} (hc : ¬ c.Followed held) :
    ¬ Exact (c.after held) ((c.bytes held).foldl scan m) := by
  cases c with
  | press key => exact absurd trivial hc
  | release key =>
    simp only [Code.Followed, not_forall] at hc
    obtain ⟨halt, other, hmem, hother, hne⟩ := hc
    obtain ⟨-, -, -, hlast, hup, hcode⟩ := byte_bits _ key.small key.notPrefix
    rw [Code.bytes, scan_key h.spent key hlast hcode, decide_eq_true hup]
    intro hexact
    have hdown := hexact.alt.mpr ⟨other, Finset.mem_erase.mpr ⟨hne, hmem⟩, hother⟩
    rcases halt with rfl | rfl <;> exact nomatch hdown
  | fakeShift right released =>
    intro hexact
    have hspent := hexact.spent
    cases right <;> cases released <;> exact nomatch hspent
  | pause => exact absurd trivial hc

theorem exact_unlatched {held : Finset Key} {m : Modifiers} :
    Exact held m.unlatched ↔ Exact held m :=
  ⟨fun h => ⟨h.shift, h.ctrl, h.alt, h.spent⟩,
    fun h => ⟨h.shift, h.ctrl, h.alt, h.spent⟩⟩

end Modifiers

-- ==== the keyboard

namespace Keyboard

variable {σ : Type} {cfg : Config} {calls : Calls σ}

open Modifiers (scan unlatched Tracks)

/-- The flags without the latch, and whether input is ready. -/
def flags (k : Keyboard σ) : Modifiers × Bool :=
  (k.modifiers.unlatched, k.inputReady)

theorem handleExtended_flags (code : UInt8) (k : Keyboard σ) :
    (k.handleExtended calls code).flags =
      ({ k.modifiers.unlatched with e0Prefix := false }, k.inputReady) := by
  unfold handleExtended
  simp only
  split_ifs <;> rfl

theorem deliver_flags (tty : Nat) (ch : UInt8) (k : Keyboard σ) :
    (k.deliver calls tty ch).flags = k.flags := by
  unfold deliver
  split_ifs
  · rfl
  · simp only
    split_ifs <;> rfl

theorem tryForceStopHotkey_flags (code : UInt8) (k : Keyboard σ) :
    (k.tryForceStopHotkey cfg calls code).2.flags = k.flags := by
  unfold tryForceStopHotkey
  split_ifs <;> rfl

theorem tryEmitCtrlShortcut_flags (code : UInt8) (tty : Nat) (k : Keyboard σ) :
    (k.tryEmitCtrlShortcut cfg code tty).2.flags = k.flags := by
  unfold tryEmitCtrlShortcut
  split_ifs
  · rfl
  · split <;> rfl

theorem typeKey_flags (code : UInt8) (k : Keyboard σ) :
    (k.typeKey cfg calls code).flags = k.flags := by
  unfold typeKey
  simp only
  split_ifs
  · exact tryForceStopHotkey_flags code k
  · rw [tryEmitCtrlShortcut_flags, tryForceStopHotkey_flags]
  · rw [deliver_flags, tryEmitCtrlShortcut_flags, tryForceStopHotkey_flags]

theorem handlePress_flags (code : UInt8) (k : Keyboard σ) :
    (k.handlePress cfg calls code).flags = k.flags := by
  unfold handlePress
  split_ifs
  · rfl
  · rfl
  · unfold handleEsc
    simp only
    split_ifs
    · rfl
    · rfl
    · rw [typeKey_flags]
      rfl
  · exact typeKey_flags code k

theorem handleScancode_flags {k : Keyboard σ} (hready : k.inputReady = true)
    (scancode : UInt8) :
    (k.handleScancode cfg calls scancode).flags =
      (scan k.modifiers.unlatched scancode, true) := by
  unfold handleScancode scan
  simp only [hready, Bool.true_eq_false, if_false]
  split_ifs with hlead hctrl hext halt hlshift hrshift hup hext
  · rfl
  · simp [flags, handleCtrl, unlatched, show k.modifiers.e0Prefix = true from hext]
  · simp [flags, handleCtrl, unlatched, show ¬ k.modifiers.e0Prefix = true from hext]
  · simp [flags, handleAlt, unlatched]
  · rfl
  · rfl
  · simp [flags, handleRelease, unlatched]
  · rw [handleExtended_flags, hready]
  · simp only [Bool.not_eq_true] at hext
    rw [handlePress_flags]
    simp [flags, hready, unlatched, hext]

-- ==== the runs

variable (cfg calls) in
/-- One code is sent: the keyboard and the keys that are held. -/
def send (s : Keyboard σ × Finset Key) (c : Code) : Keyboard σ × Finset Key :=
  ((c.bytes s.2).foldl (handleScancode cfg calls) s.1, c.after s.2)

variable (cfg calls) in
/-- The codes since input is ready. -/
def typed (k : Keyboard σ) (codes : List Code) : Keyboard σ × Finset Key :=
  codes.foldl (send cfg calls) (k.setInputReady true, ∅)

theorem foldl_flags (bytes : List UInt8) {k : Keyboard σ}
    (hready : k.inputReady = true) :
    (bytes.foldl (handleScancode cfg calls) k).flags =
      (bytes.foldl scan k.modifiers.unlatched, true) := by
  induction bytes generalizing k with
  | nil => rw [List.foldl_nil, List.foldl_nil, flags, hready]
  | cons scancode bytes ih =>
    have hstep : (handleScancode cfg calls k scancode).flags =
        (scan k.modifiers.unlatched scancode, true) :=
      handleScancode_flags hready scancode
    obtain ⟨hflags, hready'⟩ := Prod.mk.inj hstep
    rw [List.foldl_cons, List.foldl_cons, ih hready', hflags]

theorem typed_concat (k : Keyboard σ) (sent : List Code) (c : Code) :
    typed cfg calls k (sent ++ [c]) = send cfg calls (typed cfg calls k sent) c :=
  List.foldl_concat ..

theorem typed_ready (k : Keyboard σ) (codes : List Code) :
    (typed cfg calls k codes).1.inputReady = true := by
  induction codes using List.reverseRecOn with
  | nil => rfl
  | append_singleton sent c ih =>
    rw [typed_concat]
    exact (Prod.mk.inj (foldl_flags _ ih)).2

theorem typed_modifiers (k : Keyboard σ) (sent : List Code) (c : Code) :
    (typed cfg calls k (sent ++ [c])).1.modifiers.unlatched =
      (c.bytes (typed cfg calls k sent).2).foldl scan
        (typed cfg calls k sent).1.modifiers.unlatched := by
  rw [typed_concat]
  exact (Prod.mk.inj (foldl_flags _ (typed_ready k sent))).1

theorem typed_held (k : Keyboard σ) (sent : List Code) (c : Code) :
    (typed cfg calls k (sent ++ [c])).2 = c.after (typed cfg calls k sent).2 := by
  rw [typed_concat]
  rfl

theorem typed_tracks (k : Keyboard σ) (codes : List Code)
    (h : ∀ sent c, sent ++ [c] <+: codes →
      c.Followed (typed cfg calls k sent).2) :
    Tracks (typed cfg calls k codes).2
      (typed cfg calls k codes).1.modifiers.unlatched := by
  induction codes using List.reverseRecOn with
  | nil => exact Modifiers.reset_tracks
  | append_singleton sent c ih =>
    rw [typed_modifiers, typed_held]
    have hsent := ih fun pre c hpre => h pre c (hpre.trans (List.prefix_append _ _))
    exact hsent.code (h sent c (List.prefix_refl _))

/-- The flags of the modifier keys say what is held after each code of a
sequence exactly if each of its codes is one that they follow. -/
theorem exact_iff (cfg : Config) (calls : Calls σ) (k : Keyboard σ)
    (codes : List Code) :
    (∀ sent, sent <+: codes →
      Exact (typed cfg calls k sent).2 (typed cfg calls k sent).1.modifiers) ↔
    ∀ sent c, sent ++ [c] <+: codes →
      c.Followed (typed cfg calls k sent).2 := by
  constructor
  · intro hexact sent
    -- By the length of what is sent before: all of it was followed.
    induction hlen : sent.length using Nat.strong_induction_on generalizing sent with
    | _ n ih =>
      intro c hc
      have htracks := @typed_tracks _ cfg calls k sent
        fun pre c' hpre =>
          ih pre.length
            (by
              have := hpre.length_le
              simp only [List.length_append, List.length_singleton] at this
              omega)
            pre rfl c' (hpre.trans ((List.prefix_append _ _).trans hc))
      by_contra hnot
      have hfail := htracks.not_exact hnot
      rw [← typed_modifiers, ← typed_held, Modifiers.exact_unlatched] at hfail
      exact hfail (hexact _ hc)
  · intro hfollowed sent hsent
    have htracks := @typed_tracks _ cfg calls k sent
      fun pre c hpre => hfollowed pre c (hpre.trans hsent)
    exact Modifiers.exact_unlatched.mp htracks.exact

-- ==== two sequences

/-- Calls that do nothing. -/
def still : Calls Unit where
  ttyActive := fun _ => 0
  ttySwitch := fun _ u => u
  scrollbackPageUp := id
  scrollbackPageDown := id
  scrollbackHandleKey := fun _ u => (false, u)
  inputmCycle := id
  inputmHandleChar := fun _ _ q u => (false, q, u)
  forceStopTtyRunningProcess := fun _ u => u

/-- The keyboard as it starts. -/
def initial : Keyboard Unit where
  modifiers := .reset
  inputReady := false
  hotkeySwitches := 0
  queues := ⟨fun _ => .empty 0 kbdInputCap_pos, 0, 0, 0⟩
  rest := ()

/-- The flags and the keys behind some codes. -/
def shown (codes : List Code) : Modifiers × Finset Key :=
  let s := typed ⟨true, true, true⟩ still initial codes
  (s.1.modifiers, s.2)

/-- Both Alts are held and one is let go: the flag is down. A Shift that is
none, as before an arrow key while Num Lock is on: the flag of Shift is up. -/
theorem one_alt_and_no_shift :
    ¬ Exact (shown [.press .leftAlt, .press .rightAlt, .release .rightAlt]).2
        (shown [.press .leftAlt, .press .rightAlt, .release .rightAlt]).1 ∧
      ¬ Exact (shown [.fakeShift false false]).2
        (shown [.fakeShift false false]).1 := by
  constructor
  · have halts : shown [.press .leftAlt, .press .rightAlt, .release .rightAlt] =
        (.reset, {.leftAlt}) := by decide +kernel
    rw [halts]
    intro hexact
    exact nomatch hexact.alt.mpr ⟨_, Finset.mem_singleton_self _, .inl rfl⟩
  · have hshift : shown [.fakeShift false false] =
        ({ Modifiers.reset with lshiftDown := true, e0Prefix := true }, ∅) := by
      decide +kernel
    rw [hshift]
    intro hexact
    obtain ⟨key, hkey, -⟩ := hexact.shift.mp rfl
    exact absurd hkey (Finset.notMem_empty _)

end Keyboard

end Clks.Input
