/-
The guards of `clks_net_process_tcp`.

A segment that passes all of them is taken over by `processData`, on the
connection that `admission` gives. What else it can do is listed by `Passes`:
a reset, or a step of the handshake.
-/
import Clks.Net.Tcp

namespace Clks.Net.TcpConn

-- ==== past the guards

/-- The connection that the data and the end of a segment are taken over
by, if the segment gets that far. -/
def admission (g : Segment) (c : TcpConn) : Option TcpConn :=
  if tcpHeaderMinLen ≤ g.headerLen ∧ g.headerLen ≤ g.tcp.length ∧
      c.active = true ∧ c.state ≠ .listen ∧ c.fromPeer g = true ∧
      g.has flagRst = false ∧ c.state ≠ .synSent then
    if c.state = .synReceived then
      if g.has flagAck = true ∧ g.ack = c.sndNxt then
        some { c with
          remoteMac := g.srcMac, sndUna := g.ack, state := .established }
      else none
    else some { c with remoteMac := g.srcMac }
  else none

/-- What a segment that is not admitted does. -/
inductive Passes (iss : UInt32) (c : TcpConn) (g : Segment) :
    TcpConn × List Sent → Prop
  | nothing : Passes iss c g (c, [])
  | listen : c.state = .listen → Passes iss c g (c.processListen iss g)
  | reset : g.has flagRst = true → Passes iss c g
      ({ c with
          remoteMac := g.srcMac, resetSeen := true, active := false
          state := .closed }, [])
  | synSent : c.state = .synSent → Passes iss c g
      ({ c with remoteMac := g.srcMac }.processSynSent g)
  | synReceived : c.state = .synReceived → Passes iss c g
      ({ c with remoteMac := g.srcMac }, [])

section guards

variable {c d : TcpConn} {g : Segment} {iss : UInt32}

theorem processTcp_cases (c : TcpConn) (g : Segment) (iss : UInt32) :
    (∃ d, c.admission g = some d ∧ c.processTcp iss g = d.processData g) ∨
      c.admission g = none ∧ c.Passes iss g (c.processTcp iss g) := by
  unfold processTcp
  by_cases hlen : g.tcp.length < tcpHeaderMinLen
  · rw [if_pos hlen]
    exact .inr ⟨if_neg (by omega), .nothing⟩
  rw [if_neg hlen]
  by_cases hhead : g.headerLen < tcpHeaderMinLen ∨
      g.tcp.length < g.headerLen
  · rw [if_pos hhead]
    exact .inr ⟨if_neg (by omega), .nothing⟩
  rw [if_neg hhead]
  by_cases hact : c.active = true
  swap
  · rw [if_pos (by simpa using hact)]
    exact .inr ⟨if_neg fun h => hact h.2.2.1, .nothing⟩
  rw [if_neg (by simpa using hact)]
  by_cases hlist : c.state = .listen
  · rw [if_pos hlist]
    exact .inr ⟨if_neg fun h => h.2.2.2.1 hlist, .listen hlist⟩
  rw [if_neg hlist]
  by_cases hpeer : c.fromPeer g = true
  swap
  · rw [if_pos (by simpa using hpeer)]
    exact .inr ⟨if_neg fun h => hpeer h.2.2.2.2.1, .nothing⟩
  rw [if_neg (by simpa using hpeer)]
  simp only []
  by_cases hrst : g.has flagRst = true
  · rw [if_pos hrst]
    refine .inr ⟨if_neg fun h => ?_, .reset hrst⟩
    rw [hrst] at h
    cases h.2.2.2.2.2.1
  rw [if_neg hrst]
  by_cases hsent : c.state = .synSent
  · rw [if_pos hsent]
    exact .inr ⟨if_neg fun h => h.2.2.2.2.2.2 hsent, .synSent hsent⟩
  have hguard : tcpHeaderMinLen ≤ g.headerLen ∧
      g.headerLen ≤ g.tcp.length ∧ c.active = true ∧ c.state ≠ .listen ∧
      c.fromPeer g = true ∧ g.has flagRst = false ∧ c.state ≠ .synSent :=
    ⟨by omega, by omega, hact, hlist, hpeer, by simpa using hrst, hsent⟩
  rw [if_neg hsent]
  by_cases hrecv : c.state = .synReceived
  · rw [if_pos hrecv]
    by_cases hack : g.has flagAck = true ∧ g.ack = c.sndNxt
    · rw [if_pos (by simpa using hack)]
      exact .inl ⟨_, (if_pos hguard).trans ((if_pos hrecv).trans
        (if_pos hack)), rfl⟩
    · rw [if_neg (by simpa using hack)]
      exact .inr ⟨(if_pos hguard).trans ((if_pos hrecv).trans
        (if_neg hack)), .synReceived hrecv⟩
  · rw [if_neg hrecv]
    exact .inl ⟨_, (if_pos hguard).trans (if_neg hrecv), rfl⟩

/-- What the connection that admits a segment has in common with the one
before. -/
structure Admits (c : TcpConn) (g : Segment) (d : TcpConn) : Prop where
  peerFin : d.peerFin = c.peerFin
  resetSeen : d.resetSeen = c.resetSeen
  rcvNxt : d.rcvNxt = c.rcvNxt
  localPort : d.localPort = c.localPort
  remotePort : d.remotePort = c.remotePort
  active : d.active = true
  noReset : g.has flagRst = false
  state : c.state = .synReceived ∧ d.state = .established ∨
    c.state ≠ .synReceived ∧ d.state = c.state ∧
      d.sndUna = c.sndUna ∧ d.sndNxt = c.sndNxt

theorem admission_admits (h : c.admission g = some d) : c.Admits g d := by
  unfold admission at h
  split_ifs at h with hguard hrecv hack
  · cases h
    exact ⟨rfl, rfl, rfl, rfl, rfl, hguard.2.2.1, hguard.2.2.2.2.2.1,
      .inl ⟨hrecv, rfl⟩⟩
  · cases h
    exact ⟨rfl, rfl, rfl, rfl, rfl, hguard.2.2.1, hguard.2.2.2.2.2.1,
      .inr ⟨hrecv, rfl, rfl, rfl⟩⟩

end guards

end Clks.Net.TcpConn
