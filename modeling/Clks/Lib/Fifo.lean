/-
A bounded first-in first-out channel that loses its oldest elements.

The channel is told by everything that has ever been written into it: what
has left it again, each element with whether it was read or lost, and what
waits (`Fifo`). A write loses from the front what is over the capacity, a
read takes from the front what there is.
-/
import Mathlib

/-- What has left a channel, true if it was read, and what waits in it. -/
structure Fifo (α : Type) where
  past : List (α × Bool)
  queue : List α

namespace Fifo

variable {α : Type} {cap : Nat}

inductive Op (α : Type)
  | write (as : List α)
  | read (n : Nat)

def write (cap : Nat) (as : List α) (f : Fifo α) : Fifo α where
  past := f.past ++
    ((f.queue ++ as).take (f.queue.length + as.length - cap)).map (·, false)
  queue := (f.queue ++ as).drop (f.queue.length + as.length - cap)

def read (n : Nat) (f : Fifo α) : Fifo α where
  past := f.past ++ (f.queue.take n).map (·, true)
  queue := f.queue.drop n

/-- The channel after some operations, and what each read has returned. -/
def run (cap : Nat) : List (Op α) → Fifo α → List (List α) × Fifo α
  | [], f => ([], f)
  | .write as :: ops, f => run cap ops (f.write cap as)
  | .read n :: ops, f =>
    let (reads, g) := run cap ops (f.read n)
    (f.queue.take n :: reads, g)

/-- Everything that is written. -/
def written : List (Op α) → List α
  | [] => []
  | .write as :: ops => as ++ written ops
  | .read _ :: ops => written ops

/-- Everything that was ever in the channel. -/
def stream (f : Fifo α) : List α := f.past.map Prod.fst ++ f.queue

/-- Everything that was read. -/
def delivered (f : Fifo α) : List α := (f.past.filter Prod.snd).map Prod.fst

theorem write_queue (as : List α) (f : Fifo α) :
    (f.write cap as).queue
      = (f.queue ++ as).drop (f.queue.length + as.length - cap) := rfl

theorem read_queue (n : Nat) (f : Fifo α) : (f.read n).queue = f.queue.drop n := rfl

theorem stream_write (as : List α) (f : Fifo α) :
    (f.write cap as).stream = f.stream ++ as := by
  unfold stream write
  dsimp only
  rw [List.map_append, List.map_map, List.append_assoc]
  show _ ++ (List.map id _ ++ _) = _
  rw [List.map_id, List.take_append_drop, List.append_assoc]

theorem stream_read (n : Nat) (f : Fifo α) : (f.read n).stream = f.stream := by
  unfold stream read
  dsimp only
  rw [List.map_append, List.map_map, List.append_assoc]
  show _ ++ (List.map id _ ++ _) = _
  rw [List.map_id, List.take_append_drop]

theorem delivered_write (as : List α) (f : Fifo α) :
    (f.write cap as).delivered = f.delivered := by
  have hlost : ∀ l : List α, (l.map fun a => (a, false)).filter Prod.snd = [] := by
    intro l
    rw [List.filter_eq_nil_iff]
    intro e he
    obtain ⟨a, -, rfl⟩ := List.mem_map.mp he
    exact Bool.false_ne_true
  unfold delivered write
  dsimp only
  rw [List.filter_append, hlost, List.append_nil]

theorem delivered_read (n : Nat) (f : Fifo α) :
    (f.read n).delivered = f.delivered ++ f.queue.take n := by
  have hread : ∀ l : List α,
      (l.map fun a => (a, true)).filter Prod.snd = l.map fun a => (a, true) := by
    intro l
    rw [List.filter_eq_self]
    intro e he
    obtain ⟨a, -, rfl⟩ := List.mem_map.mp he
    rfl
  unfold delivered read
  dsimp only
  rw [List.filter_append, hread, List.map_append, List.map_map]
  show _ ++ List.map id _ = _
  rw [List.map_id]

theorem stream_run (ops : List (Op α)) (f : Fifo α) :
    (run cap ops f).2.stream = f.stream ++ written ops := by
  induction ops generalizing f with
  | nil => exact (List.append_nil _).symm
  | cons op ops ih =>
    cases op with
    | write as =>
      show (run cap ops (f.write cap as)).2.stream = _ ++ (as ++ written ops)
      rw [ih, stream_write, List.append_assoc]
    | read n =>
      show (run cap ops (f.read n)).2.stream = _ ++ written ops
      rw [ih, stream_read]

theorem run_delivered (ops : List (Op α)) (f : Fifo α) :
    (run cap ops f).2.delivered = f.delivered ++ (run cap ops f).1.flatten := by
  induction ops generalizing f with
  | nil => exact (List.append_nil _).symm
  | cons op ops ih =>
    cases op with
    | write as =>
      show (run cap ops (f.write cap as)).2.delivered
        = _ ++ (run cap ops (f.write cap as)).1.flatten
      rw [ih, delivered_write]
    | read n =>
      show (run cap ops (f.read n)).2.delivered
        = _ ++ (f.queue.take n :: (run cap ops (f.read n)).1).flatten
      rw [ih, delivered_read, List.flatten_cons, List.append_assoc]

theorem queue_run_le (ops : List (Op α)) {f : Fifo α} (hf : f.queue.length ≤ cap) :
    (run cap ops f).2.queue.length ≤ cap := by
  induction ops generalizing f with
  | nil => exact hf
  | cons op ops ih =>
    cases op with
    | write as =>
      refine ih (f := f.write cap as) ?_
      unfold write
      rw [List.length_drop, List.length_append]
      omega
    | read n =>
      refine ih (f := f.read n) ?_
      unfold read
      rw [List.length_drop]
      omega

end Fifo
