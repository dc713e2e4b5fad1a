/-
Commands on a state that may run into a fault.

A C function that indexes static arrays is a map from the state before it
to its result and the state after it, unless an index is outside of its
array or a loop does not end: then there is no state after it. `Ends`
says that a command has no fault and what is true behind it, from every
state that satisfies a condition; `Yields` says what is true behind it where
it has no fault; `Saves` says that a command that ends leaves a view of the
state as it is. All are closed under every way of building a command, so
that what is said of a large function is assembled along its syntax; what is
left at the leaves are the bounds of the indices and the single
assignments.
-/
import Mathlib

/-- A command: a result and the state behind it, or a fault. -/
abbrev Guarded (σ α : Type) := StateT σ Option α

namespace Guarded

variable {σ α β : Type}

-- ==== the commands

/-- A fault. -/
def fault : Guarded σ α := fun _ => none

/-- Change the state. -/
def update (f : σ → σ) : Guarded σ Unit := fun s => some ((), f s)

/-- Read from the state. -/
def view (f : σ → α) : Guarded σ α := fun s => some (f s, s)

/-- Read the state. -/
def state : Guarded σ σ := fun s => some (s, s)

/-- Go on only where an index is in bounds. -/
def check (c : Prop) [Decidable c] : Guarded σ Unit :=
  if c then pure () else fault

/-- A statement under a condition. -/
def «when» (c : Prop) [Decidable c] (m : Guarded σ Unit) : Guarded σ Unit :=
  if c then m else pure ()

/-- So many rounds of a loop that counts from `i` on. -/
def rounds (body : Nat → Guarded σ Unit) : Nat → Nat → Guarded σ Unit
  | _, 0 => pure ()
  | i, n + 1 => do
    body i
    rounds body (i + 1) n

/-- `for (i = start; i < stop; i++)`. -/
def forRange (start stop : Nat) (body : Nat → Guarded σ Unit) :
    Guarded σ Unit :=
  rounds body start (stop - start)

/-- So many rounds of a loop that stops at the first index that satisfies
a test, and the index. -/
def findRounds (test : Nat → Guarded σ Bool) :
    Nat → Nat → Guarded σ (Option Nat)
  | _, 0 => pure none
  | i, n + 1 => do
    if ← test i then pure (some i) else findRounds test (i + 1) n

/-- `for (i = start; i < stop; i++) if (test) break;`. -/
def findRange (start stop : Nat) (test : Nat → Guarded σ Bool) :
    Guarded σ (Option Nat) :=
  findRounds test start (stop - start)

-- ==== evaluation equations

variable {s s' : σ} {a : α} {m : Guarded σ α} {f : α → Guarded σ β}

theorem bind_some (h : m s = some (a, s')) : (m >>= f) s = f a s' := by
  show (m s).bind (fun r => f r.1 r.2) = _
  rw [h]
  rfl

theorem bind_some_inv {b : β} (h : (m >>= f) s = some (b, s')) :
    ∃ a s1, m s = some (a, s1) ∧ f a s1 = some (b, s') := by
  obtain ⟨⟨a, s1⟩, hfirst, hrest⟩ := Option.bind_eq_some_iff.mp h
  exact ⟨a, s1, hfirst, hrest⟩

theorem check_pos {c : Prop} [Decidable c] (hc : c) :
    (check c : Guarded σ Unit) = pure () := by
  unfold check
  rw [if_pos hc]

theorem check_bind_inv {c : Prop} [Decidable c] {k : Unit → Guarded σ β}
    {r : β × σ} (h : (check c >>= k) s = some r) : c ∧ k () s = some r := by
  by_cases hc : c
  · rw [check_pos hc] at h
    exact ⟨hc, h⟩
  · obtain ⟨a, s1, hfirst, _⟩ := bind_some_inv h
    unfold check at hfirst
    rw [if_neg hc] at hfirst
    cases hfirst

theorem when_pos {c : Prop} [Decidable c] {m : Guarded σ Unit} (hc : c) :
    «when» c m = m := by
  unfold «when»
  rw [if_pos hc]

theorem when_neg {c : Prop} [Decidable c] {m : Guarded σ Unit} (hc : ¬ c) :
    «when» c m = pure () := by
  unfold «when»
  rw [if_neg hc]

theorem findRounds_apply {test : Nat → Guarded σ Bool} {p : Nat → Bool} (i n : Nat)
    (h : ∀ j, i ≤ j → j < i + n → test j s = some (p j, s)) :
    findRounds test i n s = some ((List.range' i n).find? p, s) := by
  induction n generalizing i with
  | zero => rfl
  | succ n ih =>
    unfold findRounds
    rw [bind_some (h i (Nat.le_refl i) (by omega)), List.range'_succ]
    cases hp : p i with
    | true =>
      rw [if_pos rfl, List.find?_cons_of_pos hp]
      rfl
    | false =>
      rw [if_neg Bool.false_ne_true, List.find?_cons_of_neg (by rw [hp]; decide)]
      exact ih (i + 1) fun j hj hlt => h j (by omega) (by omega)

theorem findRange_apply {test : Nat → Guarded σ Bool} {p : Nat → Bool}
    {start stop : Nat} (h : ∀ j, start ≤ j → j < stop → test j s = some (p j, s)) :
    findRange start stop test s
      = some ((List.range' start (stop - start)).find? p, s) :=
  findRounds_apply start _ fun j hj hlt => h j hj (by omega)

-- ==== judgments

/-- From every state with `P` the command ends without a fault, with a
result and in a state with `Q`. -/
def Ends (P : σ → Prop) (m : Guarded σ α) (Q : α → σ → Prop) : Prop :=
  ∀ s, P s → ∃ a s', m s = some (a, s') ∧ Q a s'

/-- The command ends without a fault, and `P` is kept. -/
def Keeps (P : σ → Prop) (m : Guarded σ α) : Prop :=
  Ends P m fun _ => P

variable {P : σ → Prop} {Q : α → σ → Prop} {R : β → σ → Prop}

namespace Ends

theorem bind (hm : Ends P m Q) (hf : ∀ a, Ends (Q a) (f a) R) :
    Ends P (m >>= f) R := by
  intro s hs
  obtain ⟨a, s1, hrun, hq⟩ := hm s hs
  obtain ⟨b, s2, hrun', hr⟩ := hf a s1 hq
  exact ⟨b, s2, (bind_some hrun).trans hrun', hr⟩

end Ends

namespace Keeps

theorem pure (a : α) : Keeps P (Pure.pure a : Guarded σ α) :=
  fun s hs => ⟨a, s, rfl, hs⟩

theorem ite {c : Prop} [Decidable c] {m1 m2 : Guarded σ α}
    (h1 : c → Keeps P m1) (h2 : ¬ c → Keeps P m2) :
    Keeps P (if c then m1 else m2) := by
  split
  · next hc => exact h1 hc
  · next hc => exact h2 hc

theorem bind (hm : Keeps P m) (hf : ∀ a, Keeps P (f a)) :
    Keeps P (m >>= f) :=
  Ends.bind hm hf

theorem update {g : σ → σ} (hg : ∀ s, P s → P (g s)) :
    Keeps P (Guarded.update g) :=
  fun s hs => ⟨(), g s, rfl, hg s hs⟩

theorem viewBind {g : σ → α} (hf : ∀ s, P s → Keeps P (f (g s))) :
    Keeps P (view g >>= f) :=
  fun s hs => hf s hs s hs

theorem stateBind {k : σ → Guarded σ β} (hk : ∀ s, P s → Keeps P (k s)) :
    Keeps P (state >>= k) :=
  fun s hs => hk s hs s hs

theorem checkBind {c : Prop} [Decidable c] {k : Unit → Guarded σ β}
    (hc : c) (hk : Keeps P (k ())) : Keeps P (check c >>= k) := by
  rw [check_pos hc]
  exact hk

theorem «when» {c : Prop} [Decidable c] {m : Guarded σ Unit}
    (h : c → Keeps P m) : Keeps P (Guarded.when c m) :=
  .ite h fun _ => .pure ()

theorem rounds {body : Nat → Guarded σ Unit} (i n : Nat)
    (h : ∀ j, i ≤ j → j < i + n → Keeps P (body j)) :
    Keeps P (Guarded.rounds body i n) := by
  induction n generalizing i with
  | zero => exact .pure ()
  | succ n ih =>
    refine .bind (h i (Nat.le_refl i) (by omega)) fun _ => ?_
    exact ih (i + 1) fun j hj hlt => h j (by omega) (by omega)

theorem forRange {body : Nat → Guarded σ Unit} {start stop : Nat}
    (h : ∀ j, start ≤ j → j < stop → Keeps P (body j)) :
    Keeps P (Guarded.forRange start stop body) :=
  rounds start _ fun j hj hlt => h j hj (by omega)

theorem runs (hm : Keeps P m) (hs : P s) (hrun : m s = some (a, s')) : P s' := by
  obtain ⟨b, s1, hends, hp⟩ := hm s hs
  rw [hends] at hrun
  cases hrun
  exact hp

theorem findRounds {test : Nat → Guarded σ Bool} (i n : Nat)
    (h : ∀ j, i ≤ j → j < i + n → Keeps P (test j)) :
    Keeps P (Guarded.findRounds test i n) := by
  induction n generalizing i with
  | zero => exact .pure none
  | succ n ih =>
    refine .bind (h i (Nat.le_refl i) (by omega)) fun found => ?_
    refine .ite (fun _ => .pure _) fun _ => ?_
    exact ih (i + 1) fun j hj hlt => h j (by omega) (by omega)

theorem findRange {test : Nat → Guarded σ Bool} {start stop : Nat}
    (h : ∀ j, start ≤ j → j < stop → Keeps P (test j)) :
    Keeps P (Guarded.findRange start stop test) :=
  findRounds start _ fun j hj hlt => h j hj (by omega)

end Keeps

-- ==== partial judgments

/-- Where the command ends from a state with `P`, its result and the state
behind it have `Q`. -/
def Yields (P : σ → Prop) (m : Guarded σ α) (Q : α → σ → Prop) : Prop :=
  ∀ s a s', P s → m s = some (a, s') → Q a s'

namespace Yields

theorem bind (hm : Yields P m Q) (hf : ∀ a, Yields (Q a) (f a) R) :
    Yields P (m >>= f) R := by
  intro s b s' hs hrun
  obtain ⟨a, s1, hfirst, hrest⟩ := bind_some_inv hrun
  exact hf a s1 b s' (hm s a s1 hs hfirst) hrest

theorem rounds {I : Nat → σ → Prop} {body : Nat → Guarded σ Unit} (i n : Nat)
    (h : ∀ j, i ≤ j → j < i + n → Yields (I j) (body j) fun _ => I (j + 1)) :
    Yields (I i) (Guarded.rounds body i n) fun _ => I (i + n) := by
  induction n generalizing i with
  | zero =>
    intro s a s' hs hrun
    cases hrun
    exact hs
  | succ n ih =>
    refine .bind (h i (Nat.le_refl i) (by omega)) fun _ => ?_
    have hrest := ih (i + 1) fun j hj hlt => h j (by omega) (by omega)
    rwa [show i + 1 + n = i + (n + 1) by omega] at hrest

theorem forRange {I : Nat → σ → Prop} {body : Nat → Guarded σ Unit}
    {start stop : Nat} (hle : start ≤ stop)
    (h : ∀ j, start ≤ j → j < stop →
      Yields (I j) (body j) fun _ => I (j + 1)) :
    Yields (I start) (Guarded.forRange start stop body) fun _ => I stop := by
  have hrun := rounds start (stop - start) fun j hj hlt => h j hj (by omega)
  rwa [Nat.add_sub_cancel' hle] at hrun

end Yields

-- ==== closed properties

/-- A property of commands that sequences inherit. -/
structure Closed (P : ∀ α : Type, Guarded σ α → Prop) : Prop where
  pure : ∀ {α : Type} (a : α), P α (Pure.pure a)
  bind : ∀ {α β : Type} {m : Guarded σ α} {f : α → Guarded σ β},
    P α m → (∀ a, P β (f a)) → P β (m >>= f)

namespace Closed

variable {P : ∀ α : Type, Guarded σ α → Prop}

theorem ite {c : Prop} [Decidable c] {m1 m2 : Guarded σ α} (h1 : P α m1)
    (h2 : P α m2) : P α (if c then m1 else m2) := by
  split <;> assumption

theorem «when» (hP : Closed P) {c : Prop} [Decidable c] {m : Guarded σ Unit}
    (h : P Unit m) : P Unit (Guarded.when c m) :=
  ite h (hP.pure ())

end Closed

-- ==== frames

/-- Where the command ends, the view of the state is the same. -/
def Saves {γ : Type} (p : σ → γ) (m : Guarded σ α) : Prop :=
  ∀ s a s', m s = some (a, s') → p s' = p s

namespace Saves

variable {γ : Type} {p : σ → γ}

theorem pure (a : α) : Saves p (Pure.pure a : Guarded σ α) := by
  intro s b s' hrun
  cases hrun
  rfl

theorem bind (hm : Saves p m) (hf : ∀ a, Saves p (f a)) :
    Saves p (m >>= f) := by
  intro s b s' hrun
  obtain ⟨a, s1, hfirst, hrest⟩ := bind_some_inv hrun
  exact (hf a s1 b s' hrest).trans (hm s a s1 hfirst)

theorem view (g : σ → α) : Saves p (Guarded.view g) := by
  intro s a s' hrun
  cases hrun
  rfl

theorem state : Saves p (Guarded.state : Guarded σ σ) := view id

theorem update {g : σ → σ} (hg : ∀ s, p (g s) = p s) :
    Saves p (Guarded.update g) := by
  intro s a s' hrun
  cases hrun
  exact hg s

theorem check {c : Prop} [Decidable c] : Saves p (Guarded.check c : Guarded σ Unit) := by
  unfold Guarded.check
  split
  · exact .pure ()
  · intro s a s' hrun
    cases hrun

theorem ite {c : Prop} [Decidable c] {m1 m2 : Guarded σ α}
    (h1 : Saves p m1) (h2 : Saves p m2) : Saves p (if c then m1 else m2) := by
  split <;> assumption

theorem «when» {c : Prop} [Decidable c] {m : Guarded σ Unit}
    (h : Saves p m) : Saves p (Guarded.when c m) :=
  .ite h (.pure ())

theorem rounds {body : Nat → Guarded σ Unit} (h : ∀ j, Saves p (body j))
    (i n : Nat) : Saves p (Guarded.rounds body i n) := by
  induction n generalizing i with
  | zero => exact .pure ()
  | succ n ih => exact .bind (h i) fun _ => ih (i + 1)

theorem forRange {body : Nat → Guarded σ Unit} {start stop : Nat}
    (h : ∀ j, Saves p (body j)) :
    Saves p (Guarded.forRange start stop body) :=
  rounds h start _

theorem findRounds {test : Nat → Guarded σ Bool} (h : ∀ j, Saves p (test j))
    (i n : Nat) : Saves p (Guarded.findRounds test i n) := by
  induction n generalizing i with
  | zero => exact .pure none
  | succ n ih => exact .bind (h i) fun _ => .ite (.pure _) (ih (i + 1))

theorem findRange {test : Nat → Guarded σ Bool} {start stop : Nat}
    (h : ∀ j, Saves p (test j)) :
    Saves p (Guarded.findRange start stop test) :=
  findRounds h start _

theorem closed (p : σ → γ) : Closed fun _ m => Saves p m :=
  ⟨.pure, .bind⟩

theorem comp {δ : Type} (h : Saves p m) (f : γ → δ) :
    Saves (fun s => f (p s)) m :=
  fun s a s' hrun => congrArg f (h s a s' hrun)

end Saves

end Guarded
