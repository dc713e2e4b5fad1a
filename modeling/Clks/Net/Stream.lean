/-
What a connection delivers of its peer's stream.

The peer numbers the bytes of its stream from its initial sequence
number on, modulo 2^32, and its segments are cut out of the stream in any
way and arrive in any order, any number of times. The receiver takes the
next one only, so what the receive calls return, with what is buffered,
is the front of the stream up to `rcv_nxt` (`Delivered`), as long as what
it takes has room in the buffer (`Event.Fits`): `recv_push` writes over
unread bytes in a full buffer, and the connection acknowledges the new
ones all the same.
-/
import Clks.Net.Admit

namespace Clks.Net

set_option maxRecDepth 2000

-- ==== what a segment does

namespace TcpConn

variable {c : TcpConn} {g : Segment} {iss : UInt32}

/-- A segment that the connection looks at behind the guards. -/
def Reaches (c : TcpConn) (g : Segment) : Prop :=
  tcpHeaderMinLen ≤ g.headerLen ∧ g.headerLen ≤ g.tcp.length ∧
    c.active = true ∧ c.fromPeer g = true ∧ g.has flagRst = false

/-- A connection behind the handshake. -/
def Open (c : TcpConn) : Prop :=
  c.state ≠ .listen ∧ c.state ≠ .synSent ∧ c.state ≠ .synReceived

theorem takeAck_recv :
    (c.takeAck g).recv = c.recv ∧ (c.takeAck g).rcvNxt = c.rcvNxt ∧
      (c.takeAck g).state = c.state := by
  unfold takeAck
  split_ifs <;> exact ⟨rfl, rfl, rfl⟩

theorem finish_recv :
    c.finish.recv = c.recv ∧ c.finish.rcvNxt = c.rcvNxt ∧
      (c.Open → c.finish.Open) := by
  unfold finish
  simp only []
  split_ifs
  all_goals
    refine ⟨rfl, rfl, fun h => ?_⟩
    first
      | exact h
      | simp [Open]

/-- The sequence number behind the payload, if that was taken. -/
def nextSeq (c : TcpConn) (g : Segment) : UInt32 :=
  if g.payload ≠ [] ∧ g.seq = c.rcvNxt then
    c.rcvNxt + UInt32.ofNat g.payload.length
  else c.rcvNxt

/-- The receive buffer with the payload, if it was taken. -/
def nextRecv (c : TcpConn) (g : Segment) : RingBuf UInt8 tcpRecvCap :=
  if g.payload ≠ [] ∧ g.seq = c.rcvNxt then c.recv.pushAll g.payload
  else c.recv

/-- The sequence number behind the end of the stream, if that was
taken. -/
def endSeq (c : TcpConn) (g : Segment) : UInt32 :=
  if g.has flagFin = true ∧
      g.seq + UInt32.ofNat g.payload.length = c.nextSeq g then
    c.nextSeq g + 1
  else c.nextSeq g

theorem takePayload_recv :
    (c.takePayload g).recv = c.nextRecv g ∧
      (c.takePayload g).rcvNxt = c.nextSeq g ∧
      (c.takePayload g).state = c.state := by
  unfold takePayload nextRecv nextSeq
  split_ifs <;> exact ⟨rfl, rfl, rfl⟩

theorem takeFin_recv :
    (c.takeFin g).recv = c.recv ∧
      (c.takeFin g).rcvNxt
        = (if g.has flagFin = true ∧
            g.seq + UInt32.ofNat g.payload.length = c.rcvNxt then
          c.rcvNxt + 1 else c.rcvNxt) ∧
      (c.Open → (c.takeFin g).Open) := by
  unfold takeFin
  by_cases hfin : g.has flagFin = true
  · rw [if_pos hfin]
    by_cases hseq : g.seq + UInt32.ofNat g.payload.length = c.rcvNxt
    · simp only [hfin, hseq, and_self, if_true]
      cases hst : c.state
      all_goals
        refine ⟨rfl, rfl, ?_⟩
        simp [Open, hst]
    · simp only [hfin, hseq, and_false, if_false]
      cases hst : c.state
      all_goals
        refine ⟨rfl, rfl, ?_⟩
        simp [Open, hst]
  · rw [if_neg hfin, if_neg fun h => hfin h.1]
    exact ⟨rfl, rfl, id⟩

/-- What a segment does to the receive side of an open connection:
nothing, or it is taken as far as it is the next one. -/
structure Handles (c : TcpConn) (g : Segment) (r : TcpConn × List Sent) :
    Prop where
  opened : r.1.Open
  acks : ∀ k ∈ r.2, k.ack = r.1.rcvNxt
  effect : r.1.recv = c.recv ∧ r.1.rcvNxt = c.rcvNxt ∨
    c.Reaches g ∧ r.1.recv = c.nextRecv g ∧ r.1.rcvNxt = c.endSeq g

theorem handles_nothing {c' : TcpConn} (h : c'.Open)
    (hr : c'.recv = c.recv) (hn : c'.rcvNxt = c.rcvNxt) :
    c.Handles g (c', []) where
  opened := h
  acks := by
    intro k hk
    cases hk
  effect := .inl ⟨hr, hn⟩

theorem sendAck_ack {k : Sent} (h : k ∈ c.sendAck) : k.ack = c.rcvNxt := by
  unfold sendAck sendRaw at h
  split_ifs at h
  · cases h
  · cases h
  · rw [List.mem_singleton.mp h]

theorem processData_handles {d : TcpConn} (h : d.Open)
    (hc : c.Reaches g) (hr : d.recv = c.recv) (hn : d.rcvNxt = c.rcvNxt) :
    c.Handles g (d.processData g) := by
  obtain ⟨ha1, ha2, ha3⟩ := takeAck_recv (c := d) (g := g)
  obtain ⟨hp1, hp2, hp3⟩ := takePayload_recv (c := d.takeAck g) (g := g)
  obtain ⟨hf1, hf2, hf3⟩ :=
    takeFin_recv (c := (d.takeAck g).takePayload g) (g := g)
  obtain ⟨he1, he2, he3⟩ :=
    finish_recv (c := ((d.takeAck g).takePayload g).takeFin g)
  have hrecv : (d.takeAck g).nextRecv g = c.nextRecv g := by
    unfold nextRecv
    rw [ha1, ha2, hr, hn]
  have hseq : (d.takeAck g).nextSeq g = c.nextSeq g := by
    unfold nextSeq
    rw [ha2, hn]
  refine ⟨?_, ?_, .inr ⟨hc, ?_, ?_⟩⟩
  · apply he3
    apply hf3
    unfold Open
    rw [hp3, ha3]
    exact h
  · intro k hk
    unfold processData at hk
    simp only [] at hk
    split_ifs at hk
    · exact sendAck_ack hk
    · cases hk
  · exact he1.trans (hf1.trans (hp1.trans hrecv))
  · refine he2.trans (hf2.trans ?_)
    unfold endSeq
    rw [hp2, hseq]

theorem admission_open {d : TcpConn} (h : c.Open) (hd : c.admission g = some d) :
    c.Reaches g ∧ d = { c with remoteMac := g.srcMac } := by
  unfold admission at hd
  split_ifs at hd with hguard hrecv hack
  · exact absurd hrecv h.2.2
  · cases hd
    exact ⟨⟨hguard.1, hguard.2.1, hguard.2.2.1, hguard.2.2.2.2.1,
      hguard.2.2.2.2.2.1⟩, rfl⟩

theorem processTcp_handles (h : c.Open) (iss : UInt32) (g : Segment) :
    c.Handles g (c.processTcp iss g) := by
  rcases processTcp_cases c g iss with hin | hout
  · obtain ⟨d, hd, hrun⟩ := hin
    obtain ⟨hguard, rfl⟩ := admission_open h hd
    rw [hrun]
    exact processData_handles h hguard rfl rfl
  · obtain ⟨-, hpass⟩ := hout
    generalize c.processTcp iss g = r at hpass ⊢
    cases hpass with
    | nothing => exact handles_nothing h rfl rfl
    | listen hs => exact absurd hs h.1
    | reset _ => exact handles_nothing (by simp [Open]) rfl rfl
    | synSent hs => exact absurd hs h.2.1
    | synReceived hs => exact absurd hs h.2.2

end TcpConn

-- ==== sessions

/-- A connection with what is known about it: how far it is in the
stream, what was returned to its user and what was sent to the peer. -/
structure Session where
  conn : TcpConn
  pos : Nat
  returned : List UInt8
  sent : List Sent

/-- What happens to a connection: a segment arrives that the peer cut out
of its stream at a position, or a receive call takes bytes out of the
buffer. -/
inductive Event
  | segment (g : Segment) (pos : Nat)
  | pop (capacity : Nat)

/-- One event. The position follows `rcv_nxt`. -/
def Session.step (iss : UInt32) (x : Session) : Event → Session
  | .segment g _ =>
    let r := x.conn.processTcp iss g
    { conn := r.1
      pos := x.pos + (r.1.rcvNxt - x.conn.rcvNxt).toNat
      returned := x.returned
      sent := x.sent ++ r.2 }
  | .pop capacity =>
    let r := x.conn.recvPop capacity
    { x with conn := r.2, returned := x.returned ++ r.1 }

/-- Some events in order. -/
def Session.run (iss : UInt32) (x : Session) (events : List Event) :
    Session :=
  events.foldl (Session.step iss) x

/-- The sequence number of a position in the stream. -/
def seqAt (irs : UInt32) (pos : Nat) : UInt32 := irs + 1 + UInt32.ofNat pos

/-- A segment is cut out of the stream at a position. -/
structure Segment.Carries (irs : UInt32) (stream : List UInt8)
    (g : Segment) (pos : Nat) : Prop where
  seq : g.seq = seqAt irs pos
  data : g.payload = (stream.drop pos).take g.payload.length
  inside : pos + g.payload.length ≤ stream.length
  fin : g.has flagFin = true → pos + g.payload.length = stream.length

/-- The segments of the peer are cut out of its stream; those without a
payload or an end mark, and those of others, may be anything. -/
def Event.Genuine (irs : UInt32) (stream : List UInt8) (x : Session) :
    Event → Prop
  | .segment g pos =>
    x.conn.Reaches g → (g.payload ≠ [] ∨ g.has flagFin = true) →
      g.Carries irs stream pos
  | .pop _ => True

/-- What is taken as the next bytes, or as the end, is at the receiver's
position and not a multiple of 2^32 away from it, and it has room. -/
def Event.Fits (x : Session) : Event → Prop
  | .segment g pos =>
    x.conn.Reaches g →
      (g.payload ≠ [] → g.seq = x.conn.rcvNxt →
        pos = x.pos ∧ g.payload.length ≤ tcpRecvCap - x.conn.recv.count) ∧
      (g.has flagFin = true →
        g.seq + UInt32.ofNat g.payload.length = x.conn.rcvNxt →
        pos + g.payload.length = x.pos)
  | .pop _ => True

/-- What was returned and what is buffered is the stream up to `rcv_nxt`,
and nothing behind that was acknowledged. -/
structure Delivered (irs : UInt32) (stream : List UInt8) (x : Session) :
    Prop where
  rcvNxt : x.conn.rcvNxt = seqAt irs x.pos
  bytes : x.returned ++ x.conn.recv.toList = stream.take x.pos
  acked : ∀ k ∈ x.sent, ∃ n ≤ x.pos, k.ack = seqAt irs n

/-- A connection that was just established. -/
structure Session.Fresh (irs : UInt32) (x : Session) : Prop where
  state : x.conn.state = .established
  rcvNxt : x.conn.rcvNxt = irs + 1
  buffer : x.conn.recv.count = 0
  pos : x.pos = 0
  returned : x.returned = []
  sent : x.sent = []

section stream

variable {irs iss : UInt32} {stream : List UInt8} {x : Session}

theorem seqAt_add (irs : UInt32) (a b : Nat) :
    seqAt irs a + UInt32.ofNat b = seqAt irs (a + b) := by
  unfold seqAt
  rw [UInt32.ofNat_add, UInt32.add_assoc]

/-- The invariant of a session. -/
structure Session.Sound (irs : UInt32) (stream : List UInt8) (x : Session) :
    Prop extends Delivered irs stream x where
  opened : x.conn.Open
  pos_le : x.pos ≤ stream.length + 1

theorem Session.Fresh.sound (h : x.Fresh irs) : x.Sound irs stream where
  rcvNxt := by
    rw [h.rcvNxt, h.pos]
    simp [seqAt]
  bytes := by
    have hnil : x.conn.recv.toList = [] := by
      rw [← List.length_eq_zero_iff, RingBuf.length_toList, h.buffer]
    rw [h.returned, h.pos, hnil]
    rfl
  acked := by
    rw [h.sent]
    intro k hk
    cases hk
  opened := by
    unfold TcpConn.Open
    rw [h.state]
    decide
  pos_le := by
    rw [h.pos]
    exact Nat.zero_le _

private theorem advance (c : UInt32) {n : Nat} (h : n < 2 ^ 32) :
    (c + UInt32.ofNat n - c).toNat = n := by
  rw [UInt32.add_comm, UInt32.add_sub_cancel, UInt32.toNat_ofNat']
  exact Nat.mod_eq_of_lt h

theorem Session.Sound.advances (h : x.Sound irs stream) {g : Segment}
    {pos : Nat} (hgen : (Event.segment g pos).Genuine irs stream x)
    (hfits : (Event.segment g pos).Fits x) (hr : x.conn.Reaches g) :
    ∃ m < 2 ^ 32, x.conn.endSeq g = x.conn.rcvNxt + UInt32.ofNat m ∧
      x.pos + m ≤ stream.length + 1 ∧
      x.returned ++ (x.conn.nextRecv g).toList = stream.take (x.pos + m) := by
  have hlen : g.payload.length < 2 ^ 16 := by
    have := g.len_lt
    unfold Segment.payload
    rw [List.length_drop]
    omega
  have hpos := h.pos_le
  have hbytes := h.bytes
  obtain ⟨hdata, hfin⟩ := hfits hr
  -- Behind the last byte there is nothing more to take.
  have hwhole : ∀ n, n = stream.length →
      stream.take (n + 1) = stream.take n := by
    rintro n rfl
    rw [List.take_of_length_le (Nat.le_succ _), List.take_length]
  unfold TcpConn.endSeq TcpConn.nextRecv
  by_cases htake : g.payload ≠ [] ∧ g.seq = x.conn.rcvNxt
  · -- The payload is taken.
    obtain ⟨hat, hroom⟩ := hdata htake.1 htake.2
    have hc := hgen hr (.inl htake.1)
    have hnext : x.conn.nextSeq g
        = x.conn.rcvNxt + UInt32.ofNat g.payload.length := if_pos htake
    have hin := hc.inside
    rw [hat] at hin
    have hnew : x.returned ++ (x.conn.recv.pushAll g.payload).toList
        = stream.take (x.pos + g.payload.length) := by
      have hcut := hc.data
      rw [hat] at hcut
      rw [RingBuf.toList_pushAll_of_fits _ _ hroom, ← List.append_assoc, hbytes,
        List.take_add, ← hcut]
    rw [if_pos htake, hnext]
    by_cases hf : g.has flagFin = true ∧
        g.seq + UInt32.ofNat g.payload.length
          = x.conn.rcvNxt + UInt32.ofNat g.payload.length
    · have hend := hc.fin hf.1
      rw [hat] at hend
      refine ⟨g.payload.length + 1, by omega, ?_, by omega, ?_⟩
      · rw [if_pos hf, UInt32.ofNat_add, UInt32.add_assoc]
        rfl
      · rw [hnew, ← Nat.add_assoc, hwhole _ hend]
    · exact ⟨g.payload.length, by omega, if_neg hf, by omega, hnew⟩
  · have hnext : x.conn.nextSeq g = x.conn.rcvNxt := if_neg htake
    rw [if_neg htake, hnext]
    by_cases hf : g.has flagFin = true ∧
        g.seq + UInt32.ofNat g.payload.length = x.conn.rcvNxt
    · have hend := (hgen hr (.inr hf.1)).fin hf.1
      rw [hfin hf.1 hf.2] at hend
      refine ⟨1, by omega, if_pos hf, by omega, ?_⟩
      rw [hbytes, hwhole _ hend]
    · refine ⟨0, by omega, ?_, hpos, hbytes⟩
      rw [if_neg hf]
      exact (UInt32.add_zero _).symm

theorem Session.Sound.step (h : x.Sound irs stream) {e : Event}
    (hgen : e.Genuine irs stream x) (hfits : e.Fits x) :
    (x.step iss e).Sound irs stream := by
  cases e with
  | segment g pos =>
    obtain ⟨hopen, hacks, heff⟩ :=
      TcpConn.processTcp_handles h.opened iss g
    obtain ⟨m, hm, hseq, hle, hbytes⟩ : ∃ m < 2 ^ 32,
        (x.conn.processTcp iss g).1.rcvNxt
          = x.conn.rcvNxt + UInt32.ofNat m ∧
        x.pos + m ≤ stream.length + 1 ∧
        x.returned ++ (x.conn.processTcp iss g).1.recv.toList
          = stream.take (x.pos + m) := by
      rcases heff with ⟨hr, hn⟩ | ⟨hreach, hr, hn⟩
      · refine ⟨0, by omega, ?_, h.pos_le, ?_⟩
        · rw [hn]
          exact (UInt32.add_zero _).symm
        · rw [hr]
          exact h.bytes
      · rw [hr, hn]
        exact h.advances hgen hfits hreach
    have hpos : (x.step iss (.segment g pos)).pos = x.pos + m := by
      show x.pos + ((x.conn.processTcp iss g).1.rcvNxt
        - x.conn.rcvNxt).toNat = _
      rw [hseq, advance _ hm]
    have hnext : (x.conn.processTcp iss g).1.rcvNxt
        = seqAt irs (x.pos + m) := by
      rw [hseq, h.rcvNxt, seqAt_add]
    refine ⟨⟨?_, ?_, ?_⟩, hopen, ?_⟩
    · rw [hpos]
      exact hnext
    · rw [hpos]
      exact hbytes
    · intro k hk
      rw [hpos]
      rcases List.mem_append.mp hk with hk | hk
      · obtain ⟨n, hn, hack⟩ := h.acked k hk
        exact ⟨n, by omega, hack⟩
      · exact ⟨x.pos + m, Nat.le_refl _, (hacks k hk).trans hnext⟩
    · rw [hpos]
      exact hle
  | pop capacity =>
    refine ⟨⟨h.rcvNxt, ?_, h.acked⟩, h.opened, h.pos_le⟩
    show x.returned ++ (x.conn.recv.popMany capacity).1
      ++ (x.conn.recv.popMany capacity).2.toList = _
    rw [List.append_assoc, RingBuf.popMany_eq]
    exact h.bytes

theorem Session.Sound.run (h : x.Sound irs stream) (events : List Event)
    (hmeets : ∀ pre e post, events = pre ++ e :: post →
      e.Genuine irs stream (x.run iss pre) ∧ e.Fits (x.run iss pre)) :
    (x.run iss events).Sound irs stream := by
  induction events generalizing x with
  | nil => exact h
  | cons e events ih =>
    obtain ⟨hgen, hfits⟩ := hmeets [] e events rfl
    refine ih (h.step hgen hfits) fun pre e' post he => ?_
    exact hmeets (e :: pre) e' post (by rw [he, List.cons_append])

end stream

-- ==== receive calls

section calls

variable {iss : UInt32}

/-- The segments of a poll, each with its position in the stream. -/
abbrev Poll := List (Segment × Nat)

/-- Events bring in segments of these polls only. -/
def From (polls : List Poll) (events : List Event) : Prop :=
  ∀ g pos, .segment g pos ∈ events → ∃ gs ∈ polls, (g, pos) ∈ gs

theorem poll_run (iss : UInt32) (gs : Poll) (x : Session) :
    ∃ events, (x.run iss events).conn = x.conn.poll iss (gs.map Prod.fst) ∧
      (x.run iss events).returned = x.returned ∧ From [gs] events := by
  induction gs generalizing x with
  | nil => exact ⟨[], rfl, rfl, fun g pos h => by cases h⟩
  | cons g gs ih =>
    obtain ⟨events, hc, hr, hin⟩ := ih (x.step iss (.segment g.1 g.2))
    refine ⟨.segment g.1 g.2 :: events, hc, hr, fun g' pos h => ?_⟩
    refine ⟨g :: gs, List.mem_cons_self, ?_⟩
    rcases List.mem_cons.mp h with h | h
    · cases h
      exact List.mem_cons_self
    · obtain ⟨gs', hgs', h⟩ := hin g' pos h
      rw [List.mem_singleton.mp hgs'] at h
      exact List.mem_cons_of_mem _ h

theorem run_append (x : Session) (events rest : List Event) :
    x.run iss (events ++ rest) = (x.run iss events).run iss rest :=
  List.foldl_append

private theorem recvLoop_run (iss : UInt32) (capacity : Nat)
    (polls : List Poll) (x : Session) :
    ∃ events, (x.run iss events).conn = (x.conn.recvLoop iss capacity
        (polls.map (List.map Prod.fst))).2 ∧
      (x.run iss events).returned = x.returned ++ (x.conn.recvLoop iss
        capacity (polls.map (List.map Prod.fst))).1 ∧
      From polls events := by
  induction polls generalizing x with
  | nil =>
    exact ⟨[], rfl, (List.append_nil _).symm, fun g pos h => by cases h⟩
  | cons gs polls ih =>
    obtain ⟨events, hc, hr, hin⟩ := poll_run iss gs x
    -- The poll and the look into the buffer behind it.
    have hc' : (x.run iss (events ++ [.pop capacity])).conn
        = ((x.conn.poll iss (gs.map Prod.fst)).recvPop capacity).2 := by
      rw [run_append, ← hc]
      rfl
    have hr' : (x.run iss (events ++ [.pop capacity])).returned
        = x.returned
          ++ ((x.conn.poll iss (gs.map Prod.fst)).recvPop capacity).1 := by
      rw [run_append, ← hc, ← hr]
      rfl
    have hin' : From (gs :: polls) (events ++ [.pop capacity]) := by
      intro g pos h
      rcases List.mem_append.mp h with h | h
      · obtain ⟨gs', hgs', h⟩ := hin g pos h
        rw [List.mem_singleton.mp hgs'] at h
        exact ⟨gs, List.mem_cons_self, h⟩
      · cases List.mem_singleton.mp h
    rw [List.map_cons]
    unfold TcpConn.recvLoop
    simp only []
    by_cases hgot :
        ((x.conn.poll iss (gs.map Prod.fst)).recvPop capacity).1 = []
    · rw [if_neg (fun hn => hn hgot)]
      split_ifs
      · exact ⟨_, hc', by rw [hr', hgot], hin'⟩
      · obtain ⟨rest, h1, h2, h3⟩ :=
          ih (x.run iss (events ++ [.pop capacity]))
        rw [hc'] at h1 h2
        refine ⟨events ++ [.pop capacity] ++ rest, ?_, ?_, ?_⟩
        · rw [run_append]
          exact h1
        · rw [run_append, h2, hr', hgot, List.append_nil]
        · intro g pos h
          rcases List.mem_append.mp h with h | h
          · exact hin' g pos h
          · obtain ⟨gs', hgs', h⟩ := h3 g pos h
            exact ⟨gs', List.mem_cons_of_mem _ hgs', h⟩
    · rw [if_pos hgot]
      exact ⟨_, hc', hr', hin'⟩

theorem tcpRecv_run (capacity : Nat) (polls : List Poll) (x : Session) :
    ∃ events, (x.run iss events).conn = (x.conn.tcpRecv iss capacity
        (polls.map (List.map Prod.fst))).2 ∧
      (x.run iss events).returned = x.returned ++ (x.conn.tcpRecv iss
        capacity (polls.map (List.map Prod.fst))).1 ∧
      From polls events := by
  unfold TcpConn.tcpRecv
  split_ifs with h0
  · exact ⟨[], rfl, (List.append_nil _).symm, fun g pos h => by cases h⟩
  simp only []
  by_cases hgot : (x.conn.recvPop capacity).1 = []
  · rw [if_neg (fun hn => hn hgot)]
    obtain ⟨events, hc, hr, hin⟩ := recvLoop_run iss capacity polls
      (x.step iss (.pop capacity))
    have hret : (x.step iss (.pop capacity)).returned = x.returned := by
      show x.returned ++ (x.conn.recvPop capacity).1 = _
      rw [hgot, List.append_nil]
    rw [hret] at hr
    refine ⟨.pop capacity :: events, hc, hr, fun g pos h => ?_⟩
    rcases List.mem_cons.mp h with h | h
    · cases h
    · exact hin g pos h
  · rw [if_pos hgot]
    refine ⟨[.pop capacity], rfl, rfl, fun g pos h => ?_⟩
    cases List.mem_singleton.mp h

end calls

-- ==== the result

theorem fresh_of_synSent {c : TcpConn} {g : Segment} {iss : UInt32}
    (hs : c.state = .synSent) (hb : c.recv.count = 0)
    (he : (c.processTcp iss g).1.state = .established) :
    Session.Fresh g.seq ⟨(c.processTcp iss g).1, 0, [], []⟩ := by
  have hne : c.state ≠ .established := by
    rw [hs]
    decide
  unfold TcpConn.processTcp at he ⊢
  simp only [hs, reduceCtorEq, if_false, if_true] at he ⊢
  split_ifs at he ⊢
  · exact absurd he hne
  · exact absurd he hne
  · exact absurd he hne
  · exact absurd he hne
  · unfold TcpConn.processSynSent at he ⊢
    split_ifs at he ⊢
    · exact ⟨rfl, rfl, hb, rfl, rfl, rfl⟩

/-- An established connection delivers the stream without a gap, in
every state of every run whose segments fit. -/
theorem delivered_run {irs iss : UInt32} {stream : List UInt8} {x : Session}
    (hx : x.Fresh irs) (events : List Event)
    (hmeets : ∀ pre e post, events = pre ++ e :: post →
      e.Genuine irs stream (x.run iss pre) ∧ e.Fits (x.run iss pre)) :
    Delivered irs stream (x.run iss events) :=
  (hx.sound.run events hmeets).toDelivered

-- ==== two streams

/-- The big-endian bytes of a word. -/
def be16 (v : UInt16) : List UInt8 := [(v >>> 8).toUInt8, v.toUInt8]

def be32 (v : UInt32) : List UInt8 :=
  [(v >>> 24).toUInt8, (v >>> 16).toUInt8, (v >>> 8).toUInt8, v.toUInt8]

/-- A segment from port 80 of 10.0.2.2 to port 43000. -/
def webSegment (seq : UInt32) (payload : List UInt8)
    (h : payload.length ≤ 1460) : Segment where
  srcIpv4 := 0x0A000202
  srcMac := List.replicate 6 0x52
  tcp := be16 80 ++ be16 43000 ++ be32 seq ++ be32 0
    ++ be16 (0x5000 ||| flagAck) ++ be16 65535 ++ be16 0 ++ be16 0 ++ payload
  len_lt := by
    simp only [List.length_append, be16, be32, List.length_cons,
      List.length_nil]
    omega

section web

variable {seq : UInt32} {payload : List UInt8} {h : payload.length ≤ 1460}

theorem webSegment_flags :
    readBe16 (webSegment seq payload h).tcp 12 = 0x5010 := by
  have h1 : (webSegment seq payload h).tcp.getD 12 0
      = ((0x5000 ||| flagAck : UInt16) >>> 8).toUInt8 := rfl
  have h2 : (webSegment seq payload h).tcp.getD 13 0
      = (0x5000 ||| flagAck : UInt16).toUInt8 := rfl
  unfold readBe16
  rw [h1, h2]
  decide

theorem webSegment_payload : (webSegment seq payload h).payload = payload := by
  have hlen : (webSegment seq payload h).headerLen = 20 := by
    unfold Segment.headerLen
    rw [webSegment_flags]
    decide
  unfold Segment.payload
  rw [hlen]
  rfl

theorem webSegment_fin :
    (webSegment seq payload h).has flagFin = false := by
  unfold Segment.has Segment.flags
  rw [webSegment_flags]
  decide

theorem webSegment_carries {n m pos : Nat}
    (hp : payload = List.replicate n 0)
    (hseq : (webSegment seq payload h).seq = seqAt 0 pos)
    (hin : pos + n ≤ m) :
    (webSegment seq payload h).Carries 0 (List.replicate m 0) pos where
  seq := hseq
  data := by
    rw [webSegment_payload, hp, List.length_replicate, List.drop_replicate,
      List.take_replicate, Nat.min_eq_left (by omega)]
  inside := by
    rw [webSegment_payload, hp, List.length_replicate, List.length_replicate]
    exact hin
  fin := by
    rw [webSegment_fin]
    intro hf
    cases hf

end web

/-- A connection to that port that was just established. -/
def webSession : Session where
  conn :=
    { TcpConn.reset with
      active := true, state := .established, remoteIpv4 := 0x0A000202
      remotePort := 80, localPort := 43000, rcvNxt := 1 }
  pos := 0
  returned := []
  sent := []

theorem webSession_fresh : webSession.Fresh 0 :=
  ⟨rfl, rfl, rfl, rfl, rfl, rfl⟩

/-- Segments of 1024 bytes fill the buffer, and a probe of one byte goes
behind them. -/
def fillAndProbe : List Event :=
  (List.range 64).map (fun k => .segment
      (webSegment (UInt32.ofNat (1024 * k + 1)) (List.replicate 1024 0)
        (by rw [List.length_replicate]; decide)) (1024 * k))
    ++ [.segment (webSegment 65537 [0] (by decide)) 65536]

theorem fillAndProbe_seq : ∀ k < 64, (webSegment
    (UInt32.ofNat (1024 * k + 1)) (List.replicate 1024 0)
      (by rw [List.length_replicate]; decide)).seq = seqAt 0 (1024 * k) := by
  decide +kernel

theorem fillAndProbe_genuine {e : Event} (he : e ∈ fillAndProbe)
    (x : Session) : e.Genuine 0 (List.replicate 65537 0) x := by
  rcases List.mem_append.mp he with he | he
  · obtain ⟨k, hk, rfl⟩ := List.mem_map.mp he
    rw [List.mem_range] at hk
    intro _ _
    refine webSegment_carries rfl ?_ (by omega)
    exact fillAndProbe_seq k hk
  · rw [List.mem_singleton.mp he]
    intro _ _
    exact webSegment_carries (n := 1) rfl (by decide +kernel) (by omega)

/-- The probe is acknowledged, and the first byte of the stream is
lost. -/
theorem fillAndProbe_not_delivered :
    webSession.Fresh 0 ∧
      (∀ pre e post, fillAndProbe = pre ++ e :: post →
        e.Genuine 0 (List.replicate 65537 0) (webSession.run 1 pre)) ∧
      ¬ Delivered 0 (List.replicate 65537 0)
        (webSession.run 1 fillAndProbe) := by
  refine ⟨webSession_fresh, ?_, fun hd => ?_⟩
  · rintro pre e post he
    refine fillAndProbe_genuine ?_ _
    rw [he]
    simp
  · have hpos : (webSession.run 1 fillAndProbe).pos = 65537 := by
      decide +kernel
    have hret : (webSession.run 1 fillAndProbe).returned = [] := by
      decide +kernel
    have hle := (webSession.run 1 fillAndProbe).conn.recv.count_le
    have hlen := congrArg List.length hd.bytes
    rw [hpos, hret, List.nil_append, RingBuf.length_toList,
      List.take_replicate, List.length_replicate] at hlen
    unfold tcpRecvCap at hle
    omega

/-- One segment and a look into the buffer. -/
theorem delivered_run_web :
    Delivered 0 [0] (webSession.run 1
      [.segment (webSegment 1 [0] (by decide)) 0, .pop 16]) := by
  refine delivered_run webSession_fresh _ fun pre e post he => ?_
  rcases pre with _ | ⟨e₁, _ | ⟨e₂, pre⟩⟩
  · cases he
    refine ⟨fun _ _ => webSegment_carries (n := 1) (m := 1) rfl
      (by decide) (by omega), fun _ => ⟨fun _ _ => ⟨rfl, by decide⟩, ?_⟩⟩
    intro hf
    rw [webSegment_fin] at hf
    cases hf
  · cases he
    exact ⟨trivial, trivial⟩
  · have hlen := congrArg List.length he
    simp at hlen

end Clks.Net
