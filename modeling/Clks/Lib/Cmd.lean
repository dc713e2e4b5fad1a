/-
Commands that may fail and keep their state when they do.

A C function that returns a flag and works on static variables is a map
from the state before it to an optional result and the state after it.
The state is there on both outcomes: a function that gives up half way
has still done the first half, and what it left behind is exactly what a
statement about error handling is about. `StateT σ Option` would forget
it, so the monad here is the other way around.
-/
import Mathlib

/-- A command over a state: a result, or `none` for failure, and the
state it leaves in either case. -/
def Cmd (σ α : Type) := σ → Option α × σ

namespace Cmd

variable {σ α β : Type}

-- ==== the monad

/-- Succeed with a value and touch nothing. -/
protected def pure (a : α) : Cmd σ α := fun s => (some a, s)

/-- Run one command, and the next one only if the first succeeds. -/
protected def bind (m : Cmd σ α) (f : α → Cmd σ β) : Cmd σ β := fun s =>
  match m s with
  | (some a, s') => f a s'
  | (none, s') => (none, s')

instance : Monad (Cmd σ) where
  pure := Cmd.pure
  bind := Cmd.bind

/-- Give up, leaving the state as it is. -/
def fail : Cmd σ α := fun s => (none, s)

/-- Read the state. -/
def get : Cmd σ σ := fun s => (some s, s)

/-- Change the state. -/
def modify (f : σ → σ) : Cmd σ Unit := fun s => (some (), f s)

/-- Go on only under a condition. -/
def require (b : Bool) : Cmd σ Unit := fun s => (if b then some () else none, s)

/-- Run a command and hand its outcome on, failure included. -/
def attempt (m : Cmd σ α) : Cmd σ (Option α) := fun s =>
  (some (m s).1, (m s).2)

/-- Run a command for its effect, whatever its outcome. -/
def ignore (m : Cmd σ α) : Cmd σ Unit := fun s => (some (), (m s).2)

/-- Run a command, and clean up before giving up if it fails. -/
def orCleanup (m : Cmd σ α) (h : Cmd σ Unit) : Cmd σ α := fun s =>
  match m s with
  | (some a, s') => (some a, s')
  | (none, s') => (none, (h s').2)

-- ==== evaluation equations

variable {m : Cmd σ α} {f : α → Cmd σ β} {h : Cmd σ Unit} {s s' : σ}

@[simp] theorem pure_apply (a : α) (s : σ) :
    (pure a : Cmd σ α) s = (some a, s) := rfl

@[simp] theorem ignore_apply (m : Cmd σ α) (s : σ) :
    ignore m s = (some (), (m s).2) := rfl

@[simp] theorem fail_apply (s : σ) : (fail : Cmd σ α) s = (none, s) := rfl

@[simp] theorem get_apply (s : σ) : (get : Cmd σ σ) s = (some s, s) := rfl

@[simp] theorem modify_apply (g : σ → σ) (s : σ) :
    modify g s = (some (), g s) := rfl

@[simp] theorem require_true (s : σ) :
    (require true : Cmd σ Unit) s = (some (), s) := rfl

@[simp] theorem require_false (s : σ) :
    (require false : Cmd σ Unit) s = (none, s) := rfl

@[simp] theorem attempt_apply (m : Cmd σ α) (s : σ) :
    attempt m s = (some (m s).1, (m s).2) := rfl

@[simp] theorem pure_bind_apply (a : α) (f : α → Cmd σ β) (s : σ) :
    ((pure a : Cmd σ α) >>= f) s = f a s := rfl

@[simp] theorem fail_bind_apply (f : α → Cmd σ β) (s : σ) :
    ((fail : Cmd σ α) >>= f) s = (none, s) := rfl

@[simp] theorem ignore_bind_apply (m : Cmd σ α) (f : Unit → Cmd σ β)
    (s : σ) : (ignore m >>= f) s = f () (m s).2 := rfl

theorem bind_ok {a : α} (hm : m s = (some a, s')) :
    (m >>= f) s = f a s' := by
  show Cmd.bind m f s = _
  simp only [Cmd.bind, hm]

theorem bind_err (hm : m s = (none, s')) : (m >>= f) s = (none, s') := by
  show Cmd.bind m f s = _
  simp only [Cmd.bind, hm]

@[simp] theorem get_bind_apply (f : σ → Cmd σ β) (s : σ) :
    ((get : Cmd σ σ) >>= f) s = f s s := rfl

@[simp] theorem modify_bind_apply (g : σ → σ) (f : Unit → Cmd σ β)
    (s : σ) : (modify g >>= f) s = f () (g s) := rfl

@[simp] theorem attempt_bind_apply (m : Cmd σ α) (f : Option α → Cmd σ β)
    (s : σ) : (attempt m >>= f) s = f (m s).1 (m s).2 := rfl

theorem require_bind {b : Bool} {f : Unit → Cmd σ β} (hb : b = true) :
    (require b >>= f) s = f () s := by
  subst hb
  rfl

theorem require_bind_err {b : Bool} {f : Unit → Cmd σ β}
    (hb : b = false) : (require b >>= f) s = (none, s) := by
  subst hb
  rfl

theorem require_true_bind (f : Unit → Cmd σ β) (s : σ) :
    (require true >>= f) s = f () s := rfl

theorem require_false_bind (f : Unit → Cmd σ β) (s : σ) :
    (require false >>= f) s = (none, s) := rfl

theorem orCleanup_ok {a : α} (hm : m s = (some a, s')) :
    orCleanup m h s = (some a, s') := by
  simp only [orCleanup, hm]

theorem orCleanup_err (hm : m s = (none, s')) :
    orCleanup m h s = (none, (h s').2) := by
  simp only [orCleanup, hm]

theorem bind_pure_state (m : Cmd σ α) (g : α → β) (s : σ) :
    ((m >>= fun a => pure (g a)) s).2 = (m s).2 := by
  cases hm : m s with
  | mk r s1 =>
    cases r with
    | none => rw [bind_err hm]
    | some a => rw [bind_ok hm, pure_apply]

theorem bind_assoc_apply {γ : Type} (g : β → Cmd σ γ) :
    ((m >>= f) >>= g) s = (m >>= fun a => f a >>= g) s := by
  cases hm : m s with
  | mk r s1 =>
    cases r with
    | none => rw [bind_err (bind_err hm), bind_err hm]
    | some a =>
      rw [bind_ok hm]
      cases hf : f a s1 with
      | mk r' s2 =>
        have hboth : (m >>= f) s = (r', s2) := (bind_ok hm).trans hf
        cases r' with
        | none => rw [bind_err hboth, bind_err hf]
        | some b => rw [bind_ok hboth, bind_ok hf]

theorem bind_ok_inv {b : β} (hr : (m >>= f) s = (some b, s')) :
    ∃ a s1, m s = (some a, s1) ∧ f a s1 = (some b, s') := by
  cases hm : m s with
  | mk r s1 =>
    cases r with
    | none => rw [bind_err hm] at hr; cases hr
    | some a => exact ⟨a, s1, rfl, by rwa [bind_ok hm] at hr⟩

theorem bind_err_inv (hr : (m >>= f) s = (none, s')) :
    m s = (none, s') ∨
      ∃ a s1, m s = (some a, s1) ∧ f a s1 = (none, s') := by
  cases hm : m s with
  | mk r s1 =>
    cases r with
    | none => rw [bind_err hm] at hr; cases hr; exact .inl rfl
    | some a => exact .inr ⟨a, s1, rfl, by rwa [bind_ok hm] at hr⟩

theorem require_ok_inv {b : Bool} {f : Unit → Cmd σ β} {r : β}
    (hr : (require b >>= f) s = (some r, s')) :
    b = true ∧ f () s = (some r, s') := by
  cases b with
  | false => cases hr
  | true => exact ⟨rfl, hr⟩

-- ==== moving along a preorder

/-- Whatever its outcome, the command moves the state along `R`. -/
def Keeps (R : σ → σ → Prop) (m : Cmd σ α) : Prop := ∀ s, R s (m s).2

namespace Keeps

variable {R : σ → σ → Prop} [IsPreorder σ R]

theorem pure (a : α) : Keeps R (Pure.pure a : Cmd σ α) := fun s =>
  Std.Refl.refl s

theorem fail : Keeps R (Cmd.fail : Cmd σ α) := fun s => Std.Refl.refl s

theorem get : Keeps R (Cmd.get : Cmd σ σ) := fun s => Std.Refl.refl s

theorem require (b : Bool) : Keeps R (Cmd.require b : Cmd σ Unit) :=
  fun s => Std.Refl.refl s

theorem bind (hm : Keeps R m) (hf : ∀ a, Keeps R (f a)) :
    Keeps R (m >>= f) := by
  intro s
  have h1 := hm s
  show R s (Cmd.bind m f s).2
  unfold Cmd.bind
  split
  · next a s' he =>
    rw [he] at h1
    exact IsTrans.trans _ _ _ h1 (hf a s')
  · next s' he =>
    rw [he] at h1
    exact h1

theorem getBind {k : σ → Cmd σ β} (hf : ∀ s, Keeps R (k s)) :
    Keeps R (Cmd.get >>= k) := bind get hf

omit [IsPreorder σ R] in
theorem attempt (hm : Keeps R m) : Keeps R (Cmd.attempt m) := hm

omit [IsPreorder σ R] in
theorem ite {c : Prop} [Decidable c] {m1 m2 : Cmd σ α}
    (h1 : Keeps R m1) (h2 : Keeps R m2) :
    Keeps R (if c then m1 else m2) := by
  split <;> assumption

end Keeps

-- ==== failures

/-- Where the command fails, it has moved the state along `R`. -/
def FailsTo (R : σ → σ → Prop) (m : Cmd σ α) (s : σ) : Prop :=
  (m s).1 = none → R s (m s).2

namespace FailsTo

variable {R : σ → σ → Prop}

theorem of_some {a : α} (h : m s = (some a, s')) : FailsTo R m s :=
  fun hnone => by rw [h] at hnone; cases hnone

theorem of_keeps (h : R s (m s).2) : FailsTo R m s := fun _ => h

theorem getBind {k : σ → Cmd σ β} (h : FailsTo R (k s) s) :
    FailsTo R (Cmd.get >>= k) s := h

theorem ite {c : Prop} [Decidable c] {m1 m2 : Cmd σ α}
    (h1 : FailsTo R m1 s) (h2 : FailsTo R m2 s) :
    FailsTo R (if c then m1 else m2) s := by
  split <;> assumption

variable [IsPreorder σ R]

theorem fail : FailsTo R (Cmd.fail : Cmd σ α) s := fun _ => Std.Refl.refl s

theorem requireBind {b : Bool} {f : Unit → Cmd σ β}
    (h : b = true → FailsTo R (f ()) s) :
    FailsTo R (Cmd.require b >>= f) s := by
  cases b with
  | false => exact fun _ => Std.Refl.refl s
  | true => exact h rfl

theorem bind (hm : R s (m s).2)
    (hf : ∀ a s1, m s = (some a, s1) → FailsTo R (f a) s1) :
    FailsTo R (m >>= f) s := by
  intro hnone
  cases hrun : m s with
  | mk r s1 =>
    rw [hrun] at hm
    cases r with
    | none =>
      rw [bind_err hrun]
      exact hm
    | some a =>
      rw [bind_ok hrun] at hnone ⊢
      exact IsTrans.trans _ _ _ hm (hf a s1 hrun hnone)

omit [IsPreorder σ R] in
theorem bindTotal (hm : FailsTo R m s) (hf : ∀ a s, (f a s).1 ≠ none) :
    FailsTo R (m >>= f) s := by
  intro hnone
  cases hrun : m s with
  | mk r s1 =>
    cases r with
    | none =>
      have := hm (by rw [hrun])
      rw [hrun] at this
      rw [bind_err hrun]
      exact this
    | some a =>
      rw [bind_ok hrun] at hnone
      exact absurd hnone (hf a s1)

end FailsTo

-- ==== the same again

/-- The command moves the state along `R`, and run again in any state
that comes after the one it left, it gives the same result. -/
structure Repeats (R : σ → σ → Prop) (m : Cmd σ α) : Prop where
  keeps : Keeps R m
  again : ∀ s t, R (m s).2 t → (m t).1 = (m s).1

namespace Repeats

variable {R : σ → σ → Prop} [IsPreorder σ R]

theorem pure (a : α) : Repeats R (Pure.pure a : Cmd σ α) :=
  ⟨.pure a, fun _ _ _ => rfl⟩

theorem fail : Repeats R (Cmd.fail : Cmd σ α) := ⟨.fail, fun _ _ _ => rfl⟩

theorem require (b : Bool) : Repeats R (Cmd.require b : Cmd σ Unit) :=
  ⟨.require b, fun _ _ _ => rfl⟩

theorem bind (hm : Repeats R m) (hf : ∀ a, Repeats R (f a)) :
    Repeats R (m >>= f) where
  keeps := .bind hm.keeps fun a => (hf a).keeps
  again s t ht := by
    cases hs : m s with
    | mk r s' =>
      cases r with
      | none =>
        rw [bind_err hs] at ht ⊢
        have hagain := hm.again s t (by rw [hs]; exact ht)
        rw [hs] at hagain
        have hrun : m t = (none, (m t).2) := Prod.ext hagain rfl
        rw [bind_err hrun]
      | some a =>
        rw [bind_ok hs] at ht ⊢
        have hlater : R s' t := IsTrans.trans _ _ _ ((hf a).keeps s') ht
        have hagain := hm.again s t (by rw [hs]; exact hlater)
        rw [hs] at hagain
        have hrun : m t = (some a, (m t).2) := Prod.ext hagain rfl
        rw [bind_ok hrun]
        exact (hf a).again s' (m t).2 (IsTrans.trans _ _ _ ht (hm.keeps t))

theorem getBind {k : σ → Cmd σ β} (hk : ∀ s, Repeats R (k s))
    (hsame : ∀ s t, R s t → k t = k s) : Repeats R (Cmd.get >>= k) where
  keeps := .getBind fun s => (hk s).keeps
  again s t ht := by
    have hlater : R s t := IsTrans.trans _ _ _ ((hk s).keeps s) ht
    show (k t t).1 = (k s s).1
    rw [hsame s t hlater]
    exact (hk s).again s t ht

omit [IsPreorder σ R] in
theorem ite {c : Prop} [Decidable c] {m1 m2 : Cmd σ α}
    (h1 : Repeats R m1) (h2 : Repeats R m2) :
    Repeats R (if c then m1 else m2) := by
  split <;> assumption

end Repeats

end Cmd
