/-
A bounded first-in first-out queue that merges.

An element that merges goes into the newest one that waits, if that one
merges too, and takes its place. Any other goes behind it, and where the
queue is full the oldest one is lost for it.
-/
import Mathlib

/-- The elements that have become one. -/
structure Merging.Run (α : Type) where
  earlier : List α
  latest : α

/-- What has left a queue, true if it was taken, and what waits in it. -/
structure Merging (α : Type) where
  past : List (Merging.Run α × Bool)
  queue : List (Merging.Run α)

namespace Merging

variable {α : Type}

namespace Run

/-- All elements of a run. -/
def all (r : Run α) : List α := r.earlier ++ [r.latest]

def single (a : α) : Run α := ⟨[], a⟩

/-- An element goes into the run. -/
def absorb (a : α) (r : Run α) : Run α := ⟨r.all, a⟩

/-- A run of more than one element is of elements that merge. -/
def Merged (merges : α → Bool) (r : Run α) : Prop :=
  r.earlier ≠ [] → ∀ a ∈ r.all, merges a = true

theorem all_absorb (a : α) (r : Run α) : (r.absorb a).all = r.all ++ [a] := rfl

theorem merged_single (merges : α → Bool) (a : α) : (single a).Merged merges :=
  fun h => absurd rfl h

theorem Merged.absorb {merges : α → Bool} {a : α} {r : Run α}
    (h : r.Merged merges) (ha : merges a = true)
    (hlatest : merges r.latest = true) : (r.absorb a).Merged merges := by
  intro _ b hb
  rw [all_absorb, List.mem_append, List.mem_singleton] at hb
  obtain hold | rfl := hb
  · by_cases hne : r.earlier = []
    · rw [all, hne, List.nil_append, List.mem_singleton] at hold
      rw [hold]
      exact hlatest
    · exact h hne b hold
  · exact ha

end Run

-- ==== the operations

section operations

variable (merges : α → Bool) (cap : Nat)

/-- An element meets one that it merges with. -/
def meets (a : α) (queue : List α) : Bool :=
  merges a && queue.getLast?.any merges

/-- A push, on what waits. -/
def pushList (a : α) (queue : List α) : List α :=
  if meets merges a queue then queue.dropLast ++ [a]
  else (if cap ≤ queue.length then queue.tail else queue) ++ [a]

/-- What waits. -/
def waiting (m : Merging α) : List α := m.queue.map Run.latest

def push (a : α) (m : Merging α) : Merging α :=
  if meets merges a m.waiting then
    { m with
      queue := m.queue.dropLast ++ (m.queue.getLast?.map (Run.absorb a)).toList }
  else if cap ≤ m.queue.length then
    { past := m.past ++ (m.queue.take 1).map (·, false)
      queue := m.queue.drop 1 ++ [.single a] }
  else { m with queue := m.queue ++ [.single a] }

def pop (m : Merging α) : Merging α where
  past := m.past ++ (m.queue.take 1).map (·, true)
  queue := m.queue.drop 1

inductive Op (α : Type)
  | push (a : α)
  | pop

/-- The queue after some operations, and what they have returned. -/
def run : List (Op α) → Merging α → List α × Merging α
  | [], m => ([], m)
  | .push a :: ops, m => run ops (m.push merges cap a)
  | .pop :: ops, m =>
    let (taken, rest) := run ops m.pop
    (m.waiting.head?.toList ++ taken, rest)

/-- What a push loses: the oldest that waits, where the queue is full and
nothing is met. -/
def loss (a : α) (queue : List α) : List α :=
  if meets merges a queue = false ∧ cap ≤ queue.length then
    queue.head?.toList
  else []

/-- What the pushes lose. -/
def losses : List (Op α) → Merging α → List α
  | [], _ => []
  | .push a :: ops, m =>
    loss merges cap a m.waiting ++ losses ops (m.push merges cap a)
  | .pop :: ops, m => losses ops m.pop

/-- Everything that is put in. -/
def pushed : List (Op α) → List α
  | [] => []
  | .push a :: ops => a :: pushed ops
  | .pop :: ops => pushed ops

end operations

/-- Every run that has left or waits, in order. -/
def runs (m : Merging α) : List (Run α) := m.past.map Prod.fst ++ m.queue

/-- Everything that was ever put in. -/
def all (m : Merging α) : List α := m.runs.flatMap Run.all

/-- Everything that was taken. -/
def taken (m : Merging α) : List α :=
  (m.past.filter Prod.snd).map fun r => r.1.latest

/-- Everything that was lost. -/
def lost (m : Merging α) : List α :=
  (m.past.filter fun r => !r.2).map fun r => r.1.latest

/-- The runs that were not lost, in order: the latest of each. -/
def kept (m : Merging α) : List α :=
  ((m.past ++ m.queue.map (·, true)).filter Prod.snd).map fun r => r.1.latest

-- ==== laws

section laws

variable {merges : α → Bool} {cap : Nat} {a : α}

theorem meets_inv {m : Merging α} (h : meets merges a m.waiting = true) :
    merges a = true ∧ ∃ init r, m.queue = init ++ [r] ∧
      merges r.latest = true := by
  unfold meets at h
  rw [Bool.and_eq_true] at h
  obtain ⟨ha, hlast⟩ := h
  refine ⟨ha, ?_⟩
  obtain hnil | ⟨init, r, hqueue⟩ := m.queue.eq_nil_or_concat
  · rw [waiting, hnil] at hlast
    cases hlast
  · rw [List.concat_eq_append] at hqueue
    refine ⟨init, r, hqueue, ?_⟩
    rw [waiting, hqueue, List.map_append, List.map_singleton,
      List.getLast?_concat] at hlast
    exact hlast

theorem push_meets {m : Merging α} {init : List (Run α)} {r : Run α}
    (h : meets merges a m.waiting = true) (hqueue : m.queue = init ++ [r]) :
    m.push merges cap a = ⟨m.past, init ++ [r.absorb a]⟩ := by
  unfold push
  rw [if_pos h, hqueue, List.dropLast_concat, List.getLast?_concat]
  rfl

theorem waiting_push (a : α) (m : Merging α) :
    (m.push merges cap a).waiting = pushList merges cap a m.waiting := by
  unfold pushList
  by_cases h : meets merges a m.waiting = true
  · obtain ⟨-, init, r, hqueue, -⟩ := meets_inv h
    rw [push_meets h hqueue, if_pos h, waiting, waiting, hqueue]
    simp only [List.map_append, List.map_singleton, List.dropLast_concat]
    rfl
  · have hlen : m.waiting.length = m.queue.length := List.length_map _
    unfold push
    rw [if_neg h, if_neg h, hlen]
    split
    · show (m.queue.drop 1 ++ [Run.single a]).map _ = (m.queue.map _).tail ++ [a]
      rw [List.map_append, ← List.drop_one, List.map_drop]
      rfl
    · exact List.map_append

theorem waiting_pop (m : Merging α) : m.pop.waiting = m.waiting.tail := by
  show (m.queue.drop 1).map _ = (m.queue.map _).tail
  rw [List.map_drop, List.drop_one]

theorem runs_leave (past : List (Run α × Bool)) (queue rest : List (Run α))
    (b : Bool) :
    (past ++ (queue.take 1).map (·, b)).map Prod.fst ++ (queue.drop 1 ++ rest)
      = past.map Prod.fst ++ queue ++ rest := by
  rw [List.map_append, List.map_map]
  show _ ++ (queue.take 1).map id ++ _ = _
  rw [List.map_id, List.append_assoc, ← List.append_assoc (queue.take 1),
    List.take_append_drop, List.append_assoc]

theorem runs_push {m : Merging α} (h : ¬ meets merges a m.waiting = true) :
    (m.push merges cap a).runs = m.runs ++ [.single a] := by
  unfold push
  rw [if_neg h]
  split
  · exact runs_leave m.past m.queue [.single a] false
  · exact (List.append_assoc _ _ _).symm

theorem all_push (a : α) (m : Merging α) :
    (m.push merges cap a).all = m.all ++ [a] := by
  unfold all
  by_cases h : meets merges a m.waiting = true
  · obtain ⟨-, init, r, hqueue, -⟩ := meets_inv h
    rw [push_meets h hqueue]
    unfold runs
    rw [hqueue]
    simp only [List.flatMap_append, List.flatMap_singleton, Run.all_absorb,
      List.append_assoc]
  · rw [runs_push h, List.flatMap_append]
    rfl

theorem runs_pop (m : Merging α) : m.pop.runs = m.runs := by
  have h := runs_leave m.past m.queue [] true
  rw [List.append_nil, List.append_nil] at h
  exact h

theorem filter_leave (p : Run α × Bool → Bool) (past : List (Run α × Bool))
    (queue : List (Run α)) (b : Bool) (hp : ∀ r, p (r, b) = true) :
    ((past ++ (queue.take 1).map (·, b)).filter p).map (fun r => r.1.latest)
      = (past.filter p).map (fun r => r.1.latest)
        ++ (queue.map Run.latest).head?.toList := by
  rw [List.filter_append, List.map_append]
  congr 1
  cases queue with
  | nil => rfl
  | cons r queue =>
    rw [List.take_succ_cons, List.take_zero, List.map_singleton,
      List.filter_singleton, hp]
    rfl

theorem filter_stay (p : Run α × Bool → Bool) (past : List (Run α × Bool))
    (queue : List (Run α)) (b : Bool) (hp : ∀ r, p (r, b) = false) :
    (past ++ (queue.take 1).map (·, b)).filter p = past.filter p := by
  have hnil : ((queue.take 1).map (·, b)).filter p = [] := by
    rw [List.filter_eq_nil_iff]
    intro e he
    obtain ⟨r, -, rfl⟩ := List.mem_map.mp he
    rw [hp]
    exact Bool.false_ne_true
  rw [List.filter_append, hnil, List.append_nil]

theorem taken_push (a : α) (m : Merging α) :
    (m.push merges cap a).taken = m.taken := by
  unfold push taken
  split
  · rfl
  split
  · dsimp only
    rw [filter_stay _ _ _ _ fun _ => rfl]
  · rfl

theorem taken_pop (m : Merging α) :
    m.pop.taken = m.taken ++ m.waiting.head?.toList :=
  filter_leave Prod.snd m.past m.queue true fun _ => rfl

theorem lost_push (a : α) (m : Merging α) :
    (m.push merges cap a).lost = m.lost ++ loss merges cap a m.waiting := by
  have hlen : m.waiting.length = m.queue.length := List.length_map _
  unfold push lost loss
  rw [hlen]
  cases meets merges a m.waiting with
  | true => exact (List.append_nil _).symm
  | false =>
    by_cases hfull : cap ≤ m.queue.length
    · rw [if_neg Bool.false_ne_true, if_pos hfull, if_pos ⟨rfl, hfull⟩]
      exact filter_leave _ m.past m.queue false fun _ => rfl
    · rw [if_neg Bool.false_ne_true, if_neg hfull, if_neg (fun h => hfull h.2)]
      exact (List.append_nil _).symm

theorem lost_pop (m : Merging α) : m.pop.lost = m.lost := by
  show ((m.past ++ _).filter _).map _ = _
  rw [filter_stay _ _ _ _ fun _ => rfl]
  rfl

theorem kept_eq (m : Merging α) : m.kept = m.taken ++ m.waiting := by
  have hall : (m.queue.map (·, true)).filter Prod.snd = m.queue.map (·, true) := by
    rw [List.filter_eq_self]
    intro e he
    obtain ⟨r, -, rfl⟩ := List.mem_map.mp he
    rfl
  unfold kept
  rw [List.filter_append, List.map_append, hall, List.map_map]
  rfl

/-- Every run is of one element or of elements that merge. -/
def Merged (merges : α → Bool) (m : Merging α) : Prop :=
  ∀ r ∈ m.runs, r.Merged merges

theorem Merged.push {m : Merging α} (hm : m.Merged merges) (a : α) :
    (m.push merges cap a).Merged merges := by
  by_cases h : meets merges a m.waiting = true
  · obtain ⟨ha, init, r, hqueue, hlatest⟩ := meets_inv h
    have hr : r.Merged merges := by
      refine hm r ?_
      unfold runs
      rw [hqueue]
      simp
    rw [push_meets h hqueue]
    intro s hs
    rw [runs, ← List.append_assoc, List.mem_append, List.mem_singleton] at hs
    obtain hold | rfl := hs
    · refine hm s ?_
      unfold runs
      rw [hqueue, ← List.append_assoc]
      exact List.mem_append_left _ hold
    · exact hr.absorb ha hlatest
  · intro s hs
    rw [runs_push h, List.mem_append, List.mem_singleton] at hs
    obtain hold | rfl := hs
    · exact hm s hold
    · exact Run.merged_single merges a

theorem Merged.pop {m : Merging α} (hm : m.Merged merges) :
    m.pop.Merged merges := by
  unfold Merged
  rw [runs_pop]
  exact hm

-- ==== a run

theorem all_run (ops : List (Op α)) (m : Merging α) :
    (run merges cap ops m).2.all = m.all ++ pushed ops := by
  induction ops generalizing m with
  | nil => exact (List.append_nil _).symm
  | cons op ops ih =>
    cases op with
    | push a =>
      show (run merges cap ops (m.push merges cap a)).2.all = _ ++ (a :: pushed ops)
      rw [ih, all_push, List.append_assoc]
      rfl
    | pop =>
      show (run merges cap ops m.pop).2.all = _ ++ pushed ops
      rw [ih, all, runs_pop, all]

theorem merged_run (ops : List (Op α)) {m : Merging α} (hm : m.Merged merges) :
    (run merges cap ops m).2.Merged merges := by
  induction ops generalizing m with
  | nil => exact hm
  | cons op ops ih =>
    cases op with
    | push a => exact ih (hm.push a)
    | pop => exact ih hm.pop

theorem taken_run (ops : List (Op α)) (m : Merging α) :
    (run merges cap ops m).2.taken = m.taken ++ (run merges cap ops m).1 := by
  induction ops generalizing m with
  | nil => exact (List.append_nil _).symm
  | cons op ops ih =>
    cases op with
    | push a =>
      show (run merges cap ops (m.push merges cap a)).2.taken
        = _ ++ (run merges cap ops (m.push merges cap a)).1
      rw [ih, taken_push]
    | pop =>
      show (run merges cap ops m.pop).2.taken
        = _ ++ (m.waiting.head?.toList ++ (run merges cap ops m.pop).1)
      rw [ih, taken_pop, List.append_assoc]

theorem lost_run (ops : List (Op α)) (m : Merging α) :
    (run merges cap ops m).2.lost = m.lost ++ losses merges cap ops m := by
  induction ops generalizing m with
  | nil => exact (List.append_nil _).symm
  | cons op ops ih =>
    cases op with
    | push a =>
      show (run merges cap ops (m.push merges cap a)).2.lost
        = _ ++ (loss merges cap a m.waiting ++ losses merges cap ops (m.push merges cap a))
      rw [ih, lost_push, List.append_assoc]
    | pop =>
      show (run merges cap ops m.pop).2.lost = _ ++ losses merges cap ops m.pop
      rw [ih, lost_pop]

end laws

end Merging
