/-
The end of the peer's stream.

A FIN stands behind the last byte of the stream, and a segment that
carries one may arrive before bytes that are in front of it.
`takeFin` moves `rcv_nxt` on only if the FIN is the next thing, but
marks the peer as closed and changes the state in any case
(`endsInOrder_iff`). The acknowledgement that a FIN asks for is sent only
by a connection that is still active behind it, and in the last steps of
a local close it is not (`acksFin_iff`).
-/
import Clks.Net.Stream

namespace Clks.Net.TcpConn

set_option maxRecDepth 2000

-- ==== the mark and the state

/-- The state behind a FIN. -/
def endState : TcpState → TcpState
  | .established => .closeWait
  | .finWait2 => .closed
  | st => st

/-- Everything that was sent is acknowledged. -/
def allAcked (c : TcpConn) : Bool := tcpSeqGe c.sndUna c.sndNxt

section data

variable {c d : TcpConn} {g : Segment} {iss : UInt32}

theorem takeData_same :
    ((c.takeAck g).takePayload g).state = c.state ∧
      ((c.takeAck g).takePayload g).peerFin = c.peerFin ∧
      ((c.takeAck g).takePayload g).active = c.active ∧
      ((c.takeAck g).takePayload g).localPort = c.localPort ∧
      ((c.takeAck g).takePayload g).remotePort = c.remotePort ∧
      ((c.takeAck g).takePayload g).allAcked = (c.takeAck g).allAcked := by
  unfold takePayload takeAck
  split_ifs <;> exact ⟨rfl, rfl, rfl, rfl, rfl, rfl⟩

theorem takeFin_same : (c.takeFin g).allAcked = c.allAcked ∧
    (c.takeFin g).localPort = c.localPort ∧
    (c.takeFin g).remotePort = c.remotePort := by
  unfold takeFin
  by_cases hfin : g.has flagFin = true
  · rw [if_pos hfin]
    by_cases hseq : g.seq + UInt32.ofNat g.payload.length = c.rcvNxt
    · simp only [hseq, if_true]
      cases c.state <;> exact ⟨rfl, rfl, rfl⟩
    · simp only [hseq, if_false]
      cases c.state <;> exact ⟨rfl, rfl, rfl⟩
  · rw [if_neg hfin]
    exact ⟨rfl, rfl, rfl⟩

theorem takeFin_noFin (h : g.has flagFin = false) : c.takeFin g = c := by
  unfold takeFin
  rw [if_neg (by simp [h])]

theorem takeFin_fin (h : g.has flagFin = true) :
    (c.takeFin g).peerFin = true ∧ (c.takeFin g).state = endState c.state ∧
      (c.takeFin g).active = (c.active && decide (c.state ≠ .finWait2)) := by
  unfold takeFin
  rw [if_pos h]
  by_cases hseq : g.seq + UInt32.ofNat g.payload.length = c.rcvNxt
  · simp only [hseq, if_true]
    cases hst : c.state <;> simp [endState]
  · simp only [hseq, if_false]
    cases hst : c.state <;> simp [endState]

theorem finish_eq : c.finish.peerFin = c.peerFin ∧
    c.finish.state =
      (if c.state = .finWait1 ∧ c.allAcked = true then
        if c.peerFin = true then .closed else .finWait2
      else if c.state = .lastAck ∧ c.allAcked = true then .closed
      else c.state) ∧
    c.finish.active = (c.active && !((c.state = .lastAck ||
      c.state = .finWait1 && c.peerFin) && c.allAcked)) := by
  unfold finish allAcked
  cases hst : c.state
  all_goals
    cases hfin : c.peerFin <;>
      cases hack : tcpSeqGe c.sndUna c.sndNxt <;>
        simp [hst, hfin, hack]

theorem processData_noFin (h : g.has flagFin = false) :
    (d.processData g).1.peerFin = d.peerFin ∧
      ((d.processData g).1.state = .closeWait → d.state = .closeWait) ∧
      (d.state = .finWait2 → (d.processData g).1.state = .finWait2) ∧
      (d.state = .finWait1 → d.peerFin = false →
        (d.processData g).1.state ≠ .closed) := by
  obtain ⟨hst, hpf, -⟩ := takeData_same (c := d) (g := g)
  obtain ⟨hf1, hf2, -⟩ :=
    finish_eq (c := ((d.takeAck g).takePayload g).takeFin g)
  rw [takeFin_noFin h] at hf1 hf2
  have hc : (d.processData g).1 = ((d.takeAck g).takePayload g).finish := by
    show (((d.takeAck g).takePayload g).takeFin g).finish = _
    rw [takeFin_noFin h]
  rw [hst, hpf] at hf2
  rw [hc, hf1, hf2, hpf]
  refine ⟨rfl, ?_, ?_, ?_⟩
  · split_ifs <;> simp
  · intro hs
    simp [hs]
  · intro hs hp
    cases hack : ((d.takeAck g).takePayload g).allAcked <;> simp [hs, hp]

theorem processData_fin (h : g.has flagFin = true) :
    (d.processData g).1.peerFin = true ∧
      ((d.processData g).1.state = .closeWait ↔
        d.state = .established ∨ d.state = .closeWait) ∧
      (d.state = .finWait2 → (d.processData g).1.state = .closed) := by
  obtain ⟨hst, -⟩ := takeData_same (c := d) (g := g)
  obtain ⟨ht1, ht2, -⟩ := takeFin_fin (c := (d.takeAck g).takePayload g) h
  obtain ⟨hf1, hf2, -⟩ :=
    finish_eq (c := ((d.takeAck g).takePayload g).takeFin g)
  rw [ht1] at hf1
  rw [ht2, hst] at hf2
  have hc : (d.processData g).1.state = _ := hf2
  rw [hc]
  refine ⟨hf1, ?_, fun hs => by simp [hs, endState]⟩
  cases hs : d.state
  all_goals
    cases hack : (((d.takeAck g).takePayload g).takeFin g).allAcked <;>
      simp [endState, ht1]

end data

-- ==== a FIN out of order

/-- The FIN of a segment is the next thing of the stream, once the
segment's payload is taken. -/
def FinInOrder (c : TcpConn) (g : Segment) : Prop :=
  g.has flagFin = true ∧
    g.seq + UInt32.ofNat g.payload.length = c.nextSeq g

/-- A segment ends the peer's stream: it marks the peer as closed, or it takes
the connection to CLOSE_WAIT, or out of a FIN_WAIT state without being a
reset. -/
def EndsStream (c : TcpConn) (g : Segment) (c' : TcpConn) : Prop :=
  c.peerFin = false ∧ c'.peerFin = true ∨
    c.state ≠ .closeWait ∧ c'.state = .closeWait ∨
    (c.state = .finWait2 ∨ c.state = .finWait1 ∧ c.peerFin = false) ∧
      c'.state = .closed ∧ g.has flagRst = false

/-- A segment with a FIN is admitted by a connection that does not know
the end of the stream, or that a FIN would still move. -/
def HeedsFin (c : TcpConn) (g : Segment) : Prop :=
  ∃ d, c.admission g = some d ∧ g.has flagFin = true ∧
    (d.peerFin = false ∨ d.state = .established ∨ d.state = .finWait2)

section order

variable {c d : TcpConn} {g : Segment} {iss : UInt32}

theorem Passes.state {r : TcpConn × List Sent} (h : c.Passes iss g r) :
    r.1.peerFin = c.peerFin ∧ (r.1.state = c.state ∨
      r.1.state = .closed ∧ g.has flagRst = true ∨
      c.state = .listen ∧ r.1.state = .synReceived ∨
      c.state = .synSent ∧ r.1.state = .established) := by
  cases h with
  | nothing => exact ⟨rfl, .inl rfl⟩
  | listen hs =>
    unfold processListen
    split_ifs
    · exact ⟨rfl, .inr (.inr (.inl ⟨hs, rfl⟩))⟩
    · exact ⟨rfl, .inl rfl⟩
  | reset hr => exact ⟨rfl, .inr (.inl ⟨rfl, hr⟩)⟩
  | synSent hs =>
    unfold processSynSent
    split_ifs
    · exact ⟨rfl, .inr (.inr (.inr ⟨hs, rfl⟩))⟩
    · exact ⟨rfl, .inl rfl⟩
    · exact ⟨rfl, .inl rfl⟩
  | synReceived _ => exact ⟨rfl, .inl rfl⟩

theorem Passes.not_endsStream {r : TcpConn × List Sent}
    (h : c.Passes iss g r) : ¬ c.EndsStream g r.1 := by
  obtain ⟨hfin, hstate⟩ := h.state
  intro h
  rcases h with h | h | ⟨h, hcl, hrst⟩
  · rw [hfin, h.1] at h
    cases h.2
  · rcases hstate with hs | hs | hs | hs
    · exact absurd (hs.symm.trans h.2) h.1
    · rw [hs.1] at h
      cases h.2
    · rw [hs.2] at h
      cases h.2
    · rw [hs.2] at h
      cases h.2
  · rcases hstate with hs | hs | hs | hs
    · rw [hs] at hcl
      rcases h with h | h
      · rw [h] at hcl
        cases hcl
      · rw [h.1] at hcl
        cases hcl
    · rw [hs.2] at hrst
      cases hrst
    · rw [hs.2] at hcl
      cases hcl
    · rw [hs.2] at hcl
      cases hcl

theorem endsStream_iff :
    c.EndsStream g (c.processTcp iss g).1 ↔ c.HeedsFin g := by
  rcases processTcp_cases c g iss with hin | hout
  · obtain ⟨d, hd, hrun⟩ := hin
    have hadm := admission_admits hd
    have hstate : c.state ≠ .synReceived → d.state = c.state := by
      intro hne
      rcases hadm.state with h | h
      · exact absurd h.1 hne
      · exact h.2.1
    have hheeds : c.HeedsFin g ↔ g.has flagFin = true ∧
        (d.peerFin = false ∨ d.state = .established ∨
          d.state = .finWait2) := by
      constructor
      · intro h
        obtain ⟨d', hd', hrest⟩ := h
        cases hd.symm.trans hd'
        exact hrest
      · intro h
        exact ⟨d, hd, h⟩
    rw [hheeds, hrun]
    unfold EndsStream
    rw [← hadm.peerFin]
    cases hfin : g.has flagFin with
    | false =>
      obtain ⟨h1, h2, h3, h4⟩ := processData_noFin (d := d) hfin
      refine ⟨fun h => ?_, fun h => nomatch h.1⟩
      rcases h with h | h | ⟨h | h, hcl, -⟩
      · rw [h1, h.1] at h
        cases h.2
      · have hcw := h2 h.2
        rcases hadm.state with hs | hs
        · rw [hs.2] at hcw
          cases hcw
        · rw [hs.2.1] at hcw
          exact absurd hcw h.1
      · have hs := hstate (by rw [h]; decide)
        rw [h3 (hs.trans h)] at hcl
        cases hcl
      · have hs := hstate (by rw [h.1]; decide)
        exact absurd hcl (h4 (hs.trans h.1) h.2)
    | true =>
      obtain ⟨h1, h2, h3⟩ := processData_fin (d := d) hfin
      constructor
      · intro h
        refine ⟨rfl, ?_⟩
        rcases h with h | h | ⟨h | h, -, -⟩
        · exact .inl h.1
        · rcases h2.mp h.2 with hs | hs
          · exact .inr (.inl hs)
          · rcases hadm.state with hs' | hs'
            · exact .inr (.inl hs'.2)
            · exact absurd (hs'.2.1.symm.trans hs) h.1
        · exact .inr (.inr ((hstate (by rw [h]; decide)).trans h))
        · exact .inl h.2
      · intro h
        rcases h.2 with hp | hs | hs
        · exact .inl ⟨hp, h1⟩
        · refine .inr (.inl ⟨fun hcw => ?_, h2.mpr (.inl hs)⟩)
          have := hstate (by rw [hcw]; decide)
          rw [hcw, hs] at this
          cases this
        · refine .inr (.inr ⟨.inl ?_, h3 hs, hadm.noReset⟩)
          rcases hadm.state with hs' | hs'
          · rw [hs] at hs'
            cases hs'.2
          · exact hs'.2.1.symm.trans hs
  · obtain ⟨hnone, hpass⟩ := hout
    refine ⟨fun h => absurd h hpass.not_endsStream, fun h => ?_⟩
    obtain ⟨d, hd, -⟩ := h
    rw [hnone] at hd
    cases hd

/-- In a run of segments, with the number that each of them draws for a
new connection, the stream ends where all of it was received. -/
def EndsInOrder : TcpConn → List (UInt32 × Segment) → Prop
  | _, [] => True
  | c, (iss, g) :: gs =>
    (c.EndsStream g (c.processTcp iss g).1 → c.FinInOrder g) ∧
      EndsInOrder (c.processTcp iss g).1 gs

/-- In a run of segments, every FIN that is heeded is in order. -/
def FinsInOrder : TcpConn → List (UInt32 × Segment) → Prop
  | _, [] => True
  | c, (iss, g) :: gs =>
    (c.HeedsFin g → c.FinInOrder g) ∧ FinsInOrder (c.processTcp iss g).1 gs

/-- From any state, the peer's stream ends in order exactly in the runs
where every FIN that is heeded arrives in order. -/
theorem endsInOrder_iff (c : TcpConn) (gs : List (UInt32 × Segment)) :
    EndsInOrder c gs ↔ FinsInOrder c gs := by
  induction gs generalizing c with
  | nil => exact Iff.rfl
  | cons e gs ih =>
    obtain ⟨iss, g⟩ := e
    unfold EndsInOrder FinsInOrder
    rw [endsStream_iff, ih]

end order

-- ==== a FIN and its acknowledgement

/-- A FIN is accepted: its segment is admitted, and it is the next thing
of the stream. -/
structure AcceptsFin (c : TcpConn) (g : Segment) : Prop where
  admitted : (c.admission g).isSome = true
  inOrder : c.FinInOrder g

/-- A FIN is answered with an acknowledgement of it. -/
def AcksFin (iss : UInt32) (c : TcpConn) (g : Segment) : Prop :=
  ∃ k ∈ (c.processTcp iss g).2, k.flags &&& flagAck ≠ 0 ∧
    k.ack = g.seq + UInt32.ofNat g.payload.length + 1

/-- A FIN is the last thing that the connection waits for: its own end is
acknowledged, before or by the segment. -/
def LastToCome (c : TcpConn) (g : Segment) : Prop :=
  c.state = .finWait2 ∨ (c.state = .finWait1 ∨ c.state = .lastAck) ∧
    (c.takeAck g).allAcked = true

section acks

variable {c d : TcpConn} {g : Segment} {iss : UInt32}

theorem processData_rcvNxt (h : d.FinInOrder g) :
    (d.processData g).1.rcvNxt
      = g.seq + UInt32.ofNat g.payload.length + 1 := by
  obtain ⟨-, hp, -⟩ := takePayload_recv (c := d.takeAck g) (g := g)
  obtain ⟨-, ha, -⟩ := takeAck_recv (c := d) (g := g)
  obtain ⟨-, hf, -⟩ := takeFin_recv (c := (d.takeAck g).takePayload g) (g := g)
  obtain ⟨-, he, -⟩ :=
    finish_recv (c := ((d.takeAck g).takePayload g).takeFin g)
  have hn : (d.takeAck g).nextSeq g = d.nextSeq g := by
    unfold nextSeq
    rw [ha]
  rw [hp, hn, if_pos (show _ ∧ _ from h), ← h.2] at hf
  exact he.trans hf

theorem processData_active (h : g.has flagFin = true)
    (ha : d.active = true) :
    (d.processData g).1.active = true ↔ ¬ d.LastToCome g := by
  obtain ⟨hst, -, hact, -, -, hack⟩ := takeData_same (c := d) (g := g)
  obtain ⟨ht1, ht2, ht3⟩ := takeFin_fin (c := (d.takeAck g).takePayload g) h
  obtain ⟨hk, -⟩ := takeFin_same (c := (d.takeAck g).takePayload g) (g := g)
  obtain ⟨-, -, hf3⟩ :=
    finish_eq (c := ((d.takeAck g).takePayload g).takeFin g)
  rw [ht1, ht2, ht3, hst, hact, ha, hk, hack] at hf3
  have hc : (d.processData g).1.active = _ := hf3
  rw [hc]
  unfold LastToCome
  cases hs : d.state
  all_goals
    cases hall : (d.takeAck g).allAcked <;> simp [endState]

theorem processData_sent (h : g.has flagFin = true) :
    (d.processData g).2
      = if (d.processData g).1.active = true then
          (d.processData g).1.sendAck else [] := by
  have hr : (d.processData g).2
      = if ((g.payload ≠ [] || g.has flagFin)
          && (d.processData g).1.active) = true then
          (d.processData g).1.sendAck else [] := rfl
  rw [hr, h, Bool.or_true, Bool.true_and]

theorem processData_ports :
    (d.processData g).1.localPort = d.localPort ∧
      (d.processData g).1.remotePort = d.remotePort := by
  obtain ⟨-, -, -, h1, h2, -⟩ := takeData_same (c := d) (g := g)
  obtain ⟨-, h3, h4⟩ := takeFin_same (c := (d.takeAck g).takePayload g) (g := g)
  have h5 : ∀ e : TcpConn, e.finish.localPort = e.localPort ∧
      e.finish.remotePort = e.remotePort := by
    intro e
    unfold finish
    simp only []
    split_ifs <;> exact ⟨rfl, rfl⟩
  exact ⟨(h5 _).1.trans (h3.trans h1), (h5 _).2.trans (h4.trans h2)⟩

theorem sendAck_eq (h : c.active = true) :
    c.sendAck = if c.localPort = 0 ∨ c.remotePort = 0 then []
      else [{ seq := c.sndNxt, ack := c.rcvNxt, flags := flagAck
              window := min tcpDefaultWindow (tcpRecvCap - c.recv.count) }] := by
  unfold sendAck sendRaw
  rw [h, if_neg (by decide)]

/-- From any state, a FIN that is accepted is acknowledged exactly if the
connection still waits for something behind it and has both its ports. -/
theorem acksFin_iff (h : c.AcceptsFin g) :
    c.AcksFin iss g
      ↔ ¬ c.LastToCome g ∧ c.localPort ≠ 0 ∧ c.remotePort ≠ 0 := by
  obtain ⟨d, hd⟩ := Option.isSome_iff_exists.mp h.admitted
  have hrun : c.processTcp iss g = d.processData g := by
    rcases processTcp_cases c g iss with hin | hout
    · obtain ⟨d', hd', hrun⟩ := hin
      cases hd.symm.trans hd'
      exact hrun
    · rw [hd] at hout
      cases hout.1
  have hadm := admission_admits hd
  have hord : d.FinInOrder g := by
    refine ⟨h.inOrder.1, h.inOrder.2.trans ?_⟩
    unfold nextSeq
    rw [hadm.rcvNxt]
  have hlast : d.LastToCome g ↔ c.LastToCome g := by
    unfold LastToCome
    rcases hadm.state with hs | hs
    · simp [hs.1, hs.2]
    · have hack : (d.takeAck g).allAcked = (c.takeAck g).allAcked := by
        unfold takeAck allAcked
        rw [hs.2.2.1, hs.2.2.2]
        split_ifs
        · rfl
        · rw [hs.2.2.1, hs.2.2.2]
      rw [hs.2.1, hack]
  obtain ⟨hp₁, hp₂⟩ := processData_ports (d := d) (g := g)
  have hact := processData_active h.inOrder.1 hadm.active
  unfold AcksFin
  rw [hrun, processData_sent h.inOrder.1, ← hlast, ← hact]
  by_cases ha : (d.processData g).1.active = true
  · rw [if_pos ha, sendAck_eq ha, hp₁, hp₂, hadm.localPort, hadm.remotePort,
      processData_rcvNxt hord]
    by_cases hports : c.localPort = 0 ∨ c.remotePort = 0
    · rw [if_pos hports]
      constructor
      · intro hk
        obtain ⟨k, hk, -⟩ := hk
        cases hk
      · intro hk
        rcases hports with h₀ | h₀
        · exact absurd h₀ hk.2.1
        · exact absurd h₀ hk.2.2
    · rw [if_neg hports]
      push Not at hports
      refine ⟨fun _ => ⟨ha, hports⟩, fun _ => ?_⟩
      refine ⟨_, List.mem_singleton_self _, ?_, rfl⟩
      show flagAck &&& flagAck ≠ 0
      decide
  · rw [if_neg ha]
    constructor
    · intro hk
      obtain ⟨k, hk, -⟩ := hk
      cases hk
    · intro hk
      exact absurd hk.1 ha

end acks

-- ==== two segments

/-- A segment from port 80 of 10.0.2.2 to port 43000, without a
payload. -/
def bareSegment (seq ack : UInt32) (flags : UInt16) : Segment where
  srcIpv4 := 0x0A000202
  srcMac := List.replicate 6 0x52
  tcp := be16 80 ++ be16 43000 ++ be32 seq ++ be32 ack
    ++ be16 (0x5000 ||| flags) ++ be16 65535 ++ be16 0 ++ be16 0
  len_lt := by
    simp only [List.length_append, be16, be32, List.length_cons,
      List.length_nil]
    decide

/-- A connection to that port in some state, with everything that it sent
acknowledged. -/
def webConn (state : TcpState) : TcpConn :=
  { reset with
    active := true, state, remoteIpv4 := 0x0A000202, remotePort := 80
    localPort := 43000, rcvNxt := 1 }

/-- A FIN a hundred bytes ahead closes the stream. -/
theorem gap_not_endsInOrder :
    ¬ EndsInOrder (webConn .established)
      [(1, bareSegment 101 0 (flagFin ||| flagAck))] := by
  intro h
  have hends : (webConn .established).EndsStream
      (bareSegment 101 0 (flagFin ||| flagAck))
      ((webConn .established).processTcp 1
        (bareSegment 101 0 (flagFin ||| flagAck))).1 := by
    refine .inl ⟨rfl, ?_⟩
    decide +kernel
  have hseq := (h.1 hends).2
  revert hseq
  decide +kernel

/-- The last FIN of a connection that was closed here first is not
acknowledged. -/
theorem finWait2_not_acksFin :
    (webConn .finWait2).AcceptsFin
        (bareSegment 1 0 (flagFin ||| flagAck)) ∧
      ¬ (webConn .finWait2).AcksFin 1
        (bareSegment 1 0 (flagFin ||| flagAck)) := by
  constructor
  · exact ⟨by decide +kernel, by decide +kernel, by decide +kernel⟩
  · intro h
    obtain ⟨k, hk, -⟩ := h
    have hnil : ((webConn .finWait2).processTcp 1
        (bareSegment 1 0 (flagFin ||| flagAck))).2 = [] := by decide +kernel
    rw [hnil] at hk
    cases hk

/-- A FIN on an established connection. -/
theorem acksFin_iff_established :
    (webConn .established).AcksFin 1 (bareSegment 1 0 (flagFin ||| flagAck))
      ↔ ¬ (webConn .established).LastToCome
          (bareSegment 1 0 (flagFin ||| flagAck)) ∧
        (43000 : UInt16) ≠ 0 ∧ (80 : UInt16) ≠ 0 :=
  acksFin_iff ⟨by decide +kernel, by decide +kernel, by decide +kernel⟩

end Clks.Net.TcpConn
