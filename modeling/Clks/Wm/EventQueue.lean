/-
The event queues of the windows (wm/window_list.inc): rings in which a
movement of the mouse takes the place of a movement that is the newest
event, and from which a full ring loses the oldest.

A ring is a queue that merges (`Merging`), and the list of events that a
window has in the model of the window manager (`toList_push_raw`).
-/
import Clks.Lib.Merging
import Clks.Lib.RingBuf
import Clks.Wm.Windows

namespace Clks.Wm

-- ==== the rings

/-- `struct clks_wm_event`, with a type of any number. -/
structure QueuedEvent where
  type : UInt64
  arg0 : UInt64
  arg1 : UInt64
  arg2 : UInt64
  arg3 : UInt64
  deriving DecidableEq, Repr

/-- `CLKS_WM_EVENT_MOUSE_MOVE`. -/
abbrev eventMouseMove : UInt64 := 4

def QueuedEvent.moves (e : QueuedEvent) : Bool := e.type = eventMouseMove

/-- `struct clks_wm_event_queue`. -/
structure EventQueue where
  events : Nat → QueuedEvent
  head : Nat
  count : Nat
  head_lt : head < eventQueueCap
  count_le : count ≤ eventQueueCap

namespace EventQueue

/-- The queue of a window that is new. -/
def empty : EventQueue := ⟨fun _ => ⟨0, 0, 0, 0, 0⟩, 0, 0, by decide, by decide⟩

/-- The oldest event is dropped from a queue that is full. -/
def makeRoom (q : EventQueue) : EventQueue :=
  if eventQueueCap ≤ q.count then
    { q with
      head := (q.head + 1) % eventQueueCap
      count := q.count - 1
      head_lt := Nat.mod_lt _ (by decide)
      count_le := Nat.le_trans (Nat.sub_le _ _) q.count_le }
  else q

theorem makeRoom_lt (q : EventQueue) : q.makeRoom.count < eventQueueCap := by
  have hcap : 0 < eventQueueCap := by decide
  have hle := q.count_le
  unfold makeRoom
  split
  · show q.count - 1 < _
    omega
  · omega

/-- The event is written behind the newest one. -/
def write (q : EventQueue) (e : QueuedEvent) (h : q.count < eventQueueCap) :
    EventQueue where
  events := Function.update q.events ((q.head + q.count) % eventQueueCap) e
  head := q.head
  count := q.count + 1
  head_lt := q.head_lt
  count_le := h

/-- `clks_wm_event_push`, on the queue of a window. -/
def push (q : EventQueue) (e : QueuedEvent) : EventQueue :=
  let lastIndex := (q.head + q.count - 1) % eventQueueCap
  if e.type = eventMouseMove ∧ 0 < q.count ∧
      (q.events lastIndex).type = eventMouseMove then
    { q with
      events := Function.update q.events lastIndex
        { q.events lastIndex with
          arg0 := e.arg0
          arg1 := e.arg1
          arg2 := e.arg2
          arg3 := e.arg3 } }
  else q.makeRoom.write e q.makeRoom_lt

/-- `clks_wm_event_pop`, on the queue of a window. -/
def pop (q : EventQueue) : Option QueuedEvent × EventQueue :=
  if q.count = 0 then (none, q)
  else
    (some (q.events q.head),
      { q with
        head := (q.head + 1) % eventQueueCap
        count := q.count - 1
        head_lt := Nat.mod_lt _ (by decide)
        count_le := Nat.le_trans (Nat.sub_le _ _) q.count_le })

/-- The queue as a ring, of which the tail is not stored. -/
def ring (q : EventQueue) : RingBuf QueuedEvent eventQueueCap where
  buf := q.events
  head := q.head
  tail := (q.head + q.count) % eventQueueCap
  count := q.count
  head_lt := q.head_lt
  count_le := q.count_le
  tail_eq := rfl

/-- The events that wait, the oldest first. -/
def toList (q : EventQueue) : List QueuedEvent := q.ring.toList

variable (q : EventQueue) (e : QueuedEvent)

theorem length_toList : q.toList.length = q.count := q.ring.length_toList

theorem meets_iff :
    Merging.meets QueuedEvent.moves e q.toList = true ↔
      e.type = eventMouseMove ∧ 0 < q.count ∧
        (q.events ((q.head + q.count - 1) % eventQueueCap)).type
          = eventMouseMove := by
  unfold Merging.meets
  rw [Bool.and_eq_true]
  refine and_congr decide_eq_true_iff ?_
  obtain hzero | hpos := Nat.eq_zero_or_pos q.count
  · have hnil : q.toList = [] :=
      List.length_eq_zero_iff.mp (q.length_toList.trans hzero)
    rw [hnil]
    constructor
    · exact fun h => nomatch h
    · intro ⟨hpos, _⟩
      omega
  · have hlast : q.toList.getLast? = _ := q.ring.getLast?_toList hpos
    rw [hlast]
    exact ⟨fun h => ⟨hpos, of_decide_eq_true h⟩,
      fun h => decide_eq_true h.2⟩

theorem toList_write (h : q.count < eventQueueCap) :
    (q.write e h).toList = q.toList ++ [e] := by
  have hring : (q.write e h).ring = q.ring.put e h :=
    RingBuf.eq_of_fields rfl rfl (by
      show (q.head + (q.count + 1)) % _ = ((q.head + q.count) % _ + 1) % _
      rw [Nat.mod_add_mod, Nat.add_assoc]) rfl
  unfold toList
  rw [hring]
  exact q.ring.toList_put e h

theorem toList_makeRoom :
    q.makeRoom.toList
      = if eventQueueCap ≤ q.toList.length then q.toList.tail else q.toList := by
  rw [length_toList]
  unfold makeRoom
  split
  · next hfull =>
    have hne : q.ring.count ≠ 0 := by
      show q.count ≠ 0
      have : 0 < eventQueueCap := by decide
      omega
    unfold toList
    rw [← RingBuf.toList_dropHead]
    congr 1
    unfold RingBuf.dropHead
    rw [dif_neg hne]
    refine RingBuf.eq_of_fields rfl rfl ?_ rfl
    show ((q.head + 1) % _ + (q.count - 1)) % _ = (q.head + q.count) % _
    rw [Nat.mod_add_mod]
    congr 1
    have : q.count ≠ 0 := hne
    omega
  · rfl

theorem toList_push :
    (q.push e).toList
      = Merging.pushList QueuedEvent.moves eventQueueCap e q.toList := by
  unfold push Merging.pushList
  dsimp only
  by_cases hmeets : Merging.meets QueuedEvent.moves e q.toList = true
  · obtain ⟨htype, hpos, hlast⟩ := (q.meets_iff e).mp hmeets
    rw [if_pos hmeets, if_pos ⟨htype, hpos, hlast⟩]
    have hevent : { q.events ((q.head + q.count - 1) % eventQueueCap) with
        arg0 := e.arg0
        arg1 := e.arg1
        arg2 := e.arg2
        arg3 := e.arg3 } = e := by
      obtain ⟨type, arg0, arg1, arg2, arg3⟩ := e
      exact congrArg (QueuedEvent.mk · arg0 arg1 arg2 arg3)
        (hlast.trans htype.symm)
    rw [hevent]
    exact q.ring.toList_setLast e hpos
  · rw [if_neg hmeets, if_neg (fun h => hmeets ((q.meets_iff e).mpr h)),
      toList_write, toList_makeRoom]

theorem pop_eq :
    q.pop.1 = q.toList.head? ∧ q.pop.2.toList = q.toList.tail := by
  unfold pop
  split
  · next hzero =>
    have hnil : q.toList = [] :=
      List.length_eq_zero_iff.mp (q.length_toList.trans hzero)
    exact ⟨by rw [hnil]; rfl, by rw [hnil]; rfl⟩
  · next hne =>
    have hcons : q.toList = q.events q.head :: q.ring.dropHead.toList :=
      q.ring.toList_eq_cons hne
    rw [hcons]
    refine ⟨rfl, ?_⟩
    show RingBuf.toList _ = q.ring.dropHead.toList
    congr 1
    unfold RingBuf.dropHead
    rw [dif_neg (show q.ring.count ≠ 0 from hne)]
    refine RingBuf.eq_of_fields rfl rfl ?_ rfl
    show ((q.head + 1) % _ + (q.count - 1)) % _ = (q.head + q.count) % _
    rw [Nat.mod_add_mod]
    congr 1
    omega

end EventQueue

/-- `CLKS_WM_EVENT_*`. -/
def EventType.number : EventType → UInt64
  | .focusGained => 1
  | .focusLost => 2
  | .key => 3
  | .mouseMove => 4
  | .mouseButton => 5

/-- An event of the window manager, as it is queued. -/
def Event.raw (e : Event) : QueuedEvent :=
  ⟨e.type.number, e.arg0, e.arg1, e.arg2, e.arg3⟩

theorem Event.raw_moves (e : Event) :
    e.raw.moves = decide (e.type = .mouseMove) := by
  unfold Event.raw QueuedEvent.moves
  cases e.type <;> rfl

theorem toList_push_raw {q : EventQueue} {queue : List Event}
    (h : q.toList = queue.map Event.raw) (e : Event) :
    (q.push e.raw).toList = (pushEvent e queue).map Event.raw := by
  have hmeets : Merging.meets QueuedEvent.moves e.raw (queue.map Event.raw)
      = replaces e queue := by
    unfold Merging.meets replaces
    rw [Event.raw_moves, List.getLast?_map]
    cases queue.getLast? with
    | none => rfl
    | some last => simp [Event.raw_moves]
  rw [EventQueue.toList_push, h]
  unfold Merging.pushList pushEvent overflows
  rw [hmeets, List.length_map]
  cases replaces e queue with
  | true => simp [List.map_dropLast]
  | false => by_cases hfull : eventQueueCap ≤ queue.length <;> simp [hfull]

/-- A window's ring, behind any pushes and pops, holds the events that the
window has in the model of the window manager. -/
theorem toList_of_events (ops : List (Option Event)) :
    (ops.foldl (fun q op => (op.map fun e => q.push e.raw).getD q.pop.2)
        EventQueue.empty).toList
      = (ops.foldl (fun queue op =>
          (op.map fun e => pushEvent e queue).getD queue.tail) []).map
            Event.raw := by
  induction ops using List.reverseRecOn with
  | nil => rfl
  | append_singleton ops op ih =>
    rw [List.foldl_concat, List.foldl_concat]
    cases op with
    | some e => exact toList_push_raw ih e
    | none =>
      refine (EventQueue.pop_eq _).2.trans ?_
      rw [ih]
      exact List.map_tail.symm

-- ==== the windows

/-- The queues of the windows, of the slots in use. -/
abbrev EventQueues := Nat → Option EventQueue

namespace EventQueues

/-- The queue of a slot, as the code looks it up. -/
def find (slot : Nat) (s : EventQueues) : Option EventQueue :=
  if maxWindows ≤ slot then none else s slot

/-- `clks_wm_event_push`. -/
def eventPush (slot : Nat) (e : QueuedEvent) (s : EventQueues) : EventQueues :=
  match s.find slot with
  | none => s
  | some q => Function.update s slot (some (q.push e))

/-- `clks_wm_event_pop`; `out`: there is a place for the event. -/
def eventPop (slot : Nat) (out : Bool) (s : EventQueues) :
    Option QueuedEvent × EventQueues :=
  if !out then (none, s)
  else
    match s.find slot with
    | none => (none, s)
    | some q => (q.pop.1, Function.update s slot (some q.pop.2))

inductive Op
  | push (slot : Nat) (e : QueuedEvent)
  | pop (slot : Nat) (out : Bool)

/-- The queues behind some operations, and the events that were popped from
one of them. -/
def run (slot : Nat) : List Op → EventQueues → List QueuedEvent × EventQueues
  | [], s => ([], s)
  | .push slot' e :: ops, s => run slot ops (s.eventPush slot' e)
  | .pop slot' out :: ops, s =>
    let (popped, rest) := run slot ops (s.eventPop slot' out).2
    (if slot' = slot then (s.eventPop slot' out).1.toList ++ popped else popped,
      rest)

/-- What an operation does to the queue of a slot. -/
def Op.on (slot : Nat) : Op → Option (Merging.Op QueuedEvent)
  | .push slot' e => if slot' = slot then some (.push e) else none
  | .pop slot' out => if slot' = slot ∧ out then some .pop else none

/-- The events that wait for a window. -/
def queued (slot : Nat) (s : EventQueues) : List QueuedEvent :=
  match s.find slot with
  | none => []
  | some q => q.toList

section run

variable {s : EventQueues} {slot slot' : Nat} {q : EventQueue}

theorem find_update (q : EventQueue) (hne : slot' ≠ slot) :
    find slot (Function.update s slot' (some q)) = s.find slot := by
  unfold find
  rw [Function.update_of_ne (Ne.symm hne)]

theorem find_update_self (q : EventQueue) (hfound : (s.find slot).isSome) :
    find slot (Function.update s slot (some q)) = some q := by
  unfold find at hfound ⊢
  split at hfound
  · cases hfound
  · next hslot => rw [if_neg hslot, Function.update_self]

theorem find_eventPush_of_ne (hne : slot' ≠ slot) (e : QueuedEvent) :
    (s.eventPush slot' e).find slot = s.find slot := by
  unfold eventPush
  split
  · rfl
  · exact find_update _ hne

theorem find_eventPop_of_ne (hne : slot' ≠ slot) (out : Bool) :
    (s.eventPop slot' out).2.find slot = s.find slot := by
  unfold eventPop
  split
  · rfl
  split
  · rfl
  · exact find_update _ hne

theorem find_eventPush (hfound : s.find slot = some q) (e : QueuedEvent) :
    (s.eventPush slot e).find slot = some (q.push e) := by
  unfold eventPush
  rw [hfound]
  exact find_update_self _ (by rw [hfound]; rfl)

theorem eventPop_eq (hfound : s.find slot = some q) :
    (s.eventPop slot true).1 = q.pop.1 ∧
      (s.eventPop slot true).2.find slot = some q.pop.2 := by
  unfold eventPop
  rw [if_neg (by decide), hfound]
  exact ⟨rfl, find_update_self _ (by rw [hfound]; rfl)⟩

theorem run_eq (ops : List Op) (hfound : s.find slot = some q)
    (m : Merging QueuedEvent) (hm : q.toList = m.waiting) :
    ((s.run slot ops).2.find slot).isSome ∧
      (s.run slot ops).1
        = (Merging.run QueuedEvent.moves eventQueueCap
            (ops.filterMap (Op.on slot)) m).1 ∧
      (s.run slot ops).2.queued slot
        = (Merging.run QueuedEvent.moves eventQueueCap
            (ops.filterMap (Op.on slot)) m).2.waiting := by
  induction ops generalizing s q m with
  | nil =>
    refine ⟨by show (s.find slot).isSome; rw [hfound]; rfl, rfl, ?_⟩
    show queued slot s = m.waiting
    unfold queued
    rw [hfound]
    exact hm
  | cons op ops ih =>
    cases op with
    | push slot' e =>
      show ((run slot ops (s.eventPush slot' e)).2.find slot).isSome ∧
        (run slot ops (s.eventPush slot' e)).1 = _ ∧
        (run slot ops (s.eventPush slot' e)).2.queued slot = _
      by_cases hslot : slot' = slot
      · subst hslot
        have hon : Op.on slot' (.push slot' e) = some (.push e) := if_pos rfl
        rw [List.filterMap_cons_some hon]
        refine ih (find_eventPush hfound e) (m.push _ _ e) ?_
        rw [EventQueue.toList_push, hm, Merging.waiting_push]
      · have hon : Op.on slot (.push slot' e) = none := if_neg hslot
        rw [List.filterMap_cons_none hon]
        exact ih ((find_eventPush_of_ne hslot e).trans hfound) m hm
    | pop slot' out =>
      have hrun : s.run slot (.pop slot' out :: ops)
          = (if slot' = slot then
              (s.eventPop slot' out).1.toList
                ++ (run slot ops (s.eventPop slot' out).2).1
            else (run slot ops (s.eventPop slot' out).2).1,
            (run slot ops (s.eventPop slot' out).2).2) := rfl
      rw [hrun]
      by_cases hslot : slot' = slot
      · subst hslot
        rw [if_pos rfl]
        cases out with
        | false =>
          have hon : Op.on slot' (.pop slot' false) = none :=
            if_neg fun h => nomatch h.2
          rw [List.filterMap_cons_none hon]
          exact ih hfound m hm
        | true =>
          obtain ⟨hevent, hafter⟩ := eventPop_eq hfound
          obtain ⟨hhead, htail⟩ := q.pop_eq
          have hon : Op.on slot' (.pop slot' true) = some .pop :=
            if_pos ⟨rfl, rfl⟩
          rw [List.filterMap_cons_some hon]
          obtain ⟨hstay, hpopped, hqueued⟩ := ih hafter m.pop (by
            rw [htail, hm, Merging.waiting_pop])
          refine ⟨hstay, ?_, hqueued⟩
          rw [hpopped, hevent, hhead, hm]
          rfl
      · have hon : Op.on slot (.pop slot' out) = none := if_neg fun h => hslot h.1
        rw [if_neg hslot, List.filterMap_cons_none hon]
        exact ih ((find_eventPop_of_ne hslot out).trans hfound) m hm

/-- A window's queue behind any pushes and pops, of this window and of
others. What was popped and what is queued are, in order, the events that
were there and were pushed, where movements that met in the queue are one and
the latest of them; but the oldest one is lost where an event that meets no
movement comes into a queue that is full, and nothing else is. -/
theorem merged_of_run (hfound : s.find slot = some q) (ops : List Op) :
    let ran := s.run slot ops
    let m := Merging.run QueuedEvent.moves eventQueueCap
      (ops.filterMap (Op.on slot)) ⟨[], q.toList.map .single⟩
    ran.1 ++ ran.2.queued slot = m.2.kept ∧ ran.1 = m.1 ∧
      m.2.all = q.toList ++ Merging.pushed (ops.filterMap (Op.on slot)) ∧
      (∀ r ∈ m.2.runs, r.earlier ≠ [] → ∀ e ∈ r.all, e.type = eventMouseMove) ∧
      m.2.lost = Merging.losses QueuedEvent.moves eventQueueCap
        (ops.filterMap (Op.on slot)) ⟨[], q.toList.map .single⟩ := by
  have hwaiting : q.toList
      = (⟨[], q.toList.map .single⟩ : Merging QueuedEvent).waiting := by
    show _ = (q.toList.map _).map _
    rw [List.map_map]
    exact (List.map_id _).symm
  have hall : (⟨[], q.toList.map .single⟩ : Merging QueuedEvent).all
      = q.toList := by
    show (q.toList.map _).flatMap _ = _
    rw [List.flatMap_map]
    exact List.flatMap_singleton' _
  have hmerged : (⟨[], q.toList.map .single⟩ : Merging QueuedEvent).Merged
      QueuedEvent.moves := by
    intro r hr
    obtain ⟨e, -, rfl⟩ := List.mem_map.mp hr
    exact Merging.Run.merged_single _ e
  obtain ⟨-, hpopped, hqueued⟩ := run_eq ops hfound _ hwaiting
  dsimp only
  refine ⟨?_, hpopped, ?_, ?_, Merging.lost_run _ _⟩
  · rw [Merging.kept_eq, Merging.taken_run, hpopped, hqueued]
    rfl
  · rw [Merging.all_run, hall]
  · intro r hr hearlier e he
    exact of_decide_eq_true (Merging.merged_run _ hmerged r hr hearlier e he)

end run

/-- Two movements meet, a press comes behind them, and the first is popped. -/
theorem merged_of_run_press :
    let s : EventQueues := fun _ => some .empty
    let ops : List Op := [.push 3 ⟨4, 1, 1, 1, 1⟩, .push 3 ⟨4, 2, 2, 2, 2⟩,
      .push 3 ⟨5, 1, 1, 2, 2⟩, .pop 3 true]
    (s.run 3 ops).1 ++ (s.run 3 ops).2.queued 3
      = [⟨4, 2, 2, 2, 2⟩, ⟨5, 1, 1, 2, 2⟩] := by
  exact (@merged_of_run (fun _ => some .empty) 3 _ rfl
    [.push 3 ⟨4, 1, 1, 1, 1⟩, .push 3 ⟨4, 2, 2, 2, 2⟩,
      .push 3 ⟨5, 1, 1, 2, 2⟩, .pop 3 true]).1.trans (by decide)

end EventQueues

end Clks.Wm
