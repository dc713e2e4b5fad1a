/-
Sending (`clks_net_tcp_send`).

A call cuts its bytes into chunks and waits for each to be acknowledged
before the next one. What the hardware and the network do meanwhile is
its input: for each chunk its tries, and for each try whether the frame
is taken and what the polls behind it bring in. As many polls as there
are is the budget.
-/
import Clks.Net.Closing

namespace Clks.Net

set_option maxRecDepth 2000

-- ==== constants

/-- `CLKS_NET_TCP_SEND_MAX_SEGMENT`. -/
abbrev tcpSendMaxSegment : Nat := 1200

/-- `CLKS_NET_TCP_RETRY_COUNT`. -/
abbrev tcpRetryCount : Nat := 4

/-- `CLKS_NET_TCP_FLAG_PSH`. -/
abbrev flagPsh : UInt16 := 0x008

/-- A segment that the connection sends with a payload. -/
structure SentData extends Sent where
  payload : List UInt8
  deriving DecidableEq, Repr

/-- One try to send a chunk: whether `clks_net_tx_frame` takes the frame,
and what the polls behind it bring in. -/
structure Try where
  taken : Bool
  polls : List (List Segment)

/-- How the tries to send a chunk end. -/
inductive Outcome
  | acked
  | lost
  | reset
  deriving DecidableEq, Repr

/-- A call of `clks_net_tcp_send`: what it returned, nothing while it
still runs, the connection behind it, and the segments that the hardware
took. -/
structure SendRun where
  returned : Option Nat
  conn : TcpConn
  sent : List SentData

namespace TcpConn

-- ==== the call

/-- The polls behind a try. -/
def waitAck (iss seqEnd : UInt32) :
    List (List Segment) → TcpConn → Outcome × TcpConn
  | [], c => (.lost, c)
  | gs :: polls, c =>
    let c := c.poll iss gs
    if c.resetSeen then (.reset, TcpConn.reset)
    else if tcpSeqGe c.sndUna seqEnd then (.acked, c)
    else waitAck iss seqEnd polls c

/-- `clks_net_send_tcp_segment_raw` with a payload. -/
def dataSegment (c : TcpConn) (seq : UInt32) (payload : List UInt8) :
    SentData where
  seq
  ack := c.rcvNxt
  flags := flagAck ||| flagPsh
  window := min tcpDefaultWindow (tcpRecvCap - c.recv.count)
  payload

/-- The tries to send a chunk. -/
def tryLoop (iss seqStart seqEnd : UInt32) (chunk : List UInt8) :
    List Try → TcpConn → Outcome × TcpConn × List SentData
  | [], c => (.lost, c, [])
  | t :: tries, c =>
    if c.localPort = 0 ∨ c.remotePort = 0 ∨ t.taken = false then
      tryLoop iss seqStart seqEnd chunk tries c
    else
      let d := c.dataSegment seqStart chunk
      match waitAck iss seqEnd t.polls c with
      | (.lost, c) =>
        let (o, c, ds) := tryLoop iss seqStart seqEnd chunk tries c
        (o, c, d :: ds)
      | (o, c) => (o, c, [d])

/-- `chunk_len`: what is left, as a 16-bit word, up to the maximum. -/
def chunkLen (left : Nat) : Nat := min (left % 2 ^ 16) tcpSendMaxSegment

/-- The body of the loop: the next chunk and its tries. -/
def sendChunk (iss : UInt32) (tries : List Try) (left : List UInt8)
    (c : TcpConn) : Outcome × TcpConn × List SentData :=
  let k := chunkLen left.length
  let seqEnd := c.sndNxt + UInt32.ofNat k
  tryLoop iss c.sndNxt seqEnd (left.take k) (tries.take tcpRetryCount)
    { c with sndNxt := seqEnd }

/-- The loop of `clks_net_tcp_send`, over the tries that its chunks
get. -/
def sendLoop (iss : UInt32) :
    List (List Try) → List UInt8 → Nat → TcpConn → SendRun
  | _, [], sentTotal, c => ⟨some sentTotal, c, []⟩
  | [], _ :: _, _, c => ⟨none, c, []⟩
  | tries :: chunks, b :: left, sentTotal, c =>
    let k := chunkLen (b :: left).length
    let r := c.sendChunk iss tries (b :: left)
    if r.1 = .acked then
      let rest := sendLoop iss chunks ((b :: left).drop k) (sentTotal + k)
        r.2.1
      { rest with sent := r.2.2 ++ rest.sent }
    else ⟨some sentTotal, r.2.1, r.2.2⟩

/-- The states in which bytes can be sent. -/
def usable (c : TcpConn) : Bool :=
  c.active && (c.state = .established || c.state = .closeWait)

/-- `clks_net_tcp_send`. -/
def tcpSend (iss : UInt32) (chunks : List (List Try))
    (payload : List UInt8) (c : TcpConn) : SendRun :=
  if !c.usable || payload = [] then ⟨some 0, c, []⟩
  else sendLoop iss chunks payload 0 c

-- ==== what the polls leave alone

section polls

variable {c d : TcpConn} {g : Segment} {iss e : UInt32} {ok : UInt32 → Prop}

/-- A connection on which bytes can be sent, with `snd_nxt` and a
condition on `snd_una`. -/
structure SendsAt (e : UInt32) (ok : UInt32 → Prop) (c : TcpConn) : Prop where
  usable : c.usable = true
  sndNxt : c.sndNxt = e
  sndUna : ok c.sndUna

/-- The peer has reset the connection. -/
def WasReset (c : TcpConn) : Prop := c.resetSeen = true ∧ c.active = false

theorem usable_iff : c.usable = true ↔
    c.active = true ∧ (c.state = .established ∨ c.state = .closeWait) := by
  unfold usable
  simp

/-- A condition that every acknowledgement of what was sent keeps. -/
def Acks (e : UInt32) (ok : UInt32 → Prop) : Prop :=
  ∀ una ack, ok una → tcpSeqGe ack una = true → tcpSeqLe ack e = true → ok ack

theorem SendsAt.takeAck (h : c.SendsAt e ok) (hok : Acks e ok)
    (g : Segment) : (c.takeAck g).SendsAt e ok := by
  unfold TcpConn.takeAck
  split_ifs with hack
  · obtain ⟨⟨-, hge⟩, hle⟩ : (g.has flagAck = true ∧
        tcpSeqGe g.ack c.sndUna = true) ∧ tcpSeqLe g.ack c.sndNxt = true := by
      simpa using hack
    refine ⟨h.usable, h.sndNxt, hok _ _ h.sndUna hge ?_⟩
    rw [← h.sndNxt]
    exact hle
  · exact h

theorem SendsAt.takePayload (h : c.SendsAt e ok) (g : Segment) :
    (c.takePayload g).SendsAt e ok := by
  unfold TcpConn.takePayload
  split_ifs
  · exact ⟨h.usable, h.sndNxt, h.sndUna⟩
  · exact h

theorem SendsAt.takeFin (h : c.SendsAt e ok) (g : Segment) :
    (c.takeFin g).SendsAt e ok := by
  obtain ⟨husable, hnxt, huna⟩ := h
  obtain ⟨hact, hst⟩ := usable_iff.mp husable
  have hend : ∀ n, SendsAt e ok
      { c with peerFin := true, rcvNxt := n, state := .closeWait } := fun n =>
    ⟨usable_iff.mpr ⟨hact, .inr rfl⟩, hnxt, huna⟩
  unfold TcpConn.takeFin
  by_cases hfin : g.has flagFin = true
  · rw [if_pos hfin]
    by_cases hseq : g.seq + UInt32.ofNat g.payload.length = c.rcvNxt
    · simp only [hseq, if_true]
      cases hst with
      | inl hst => simpa [hst] using hend (c.rcvNxt + 1)
      | inr hst => simpa [hst] using hend (c.rcvNxt + 1)
    · simp only [hseq, if_false]
      cases hst with
      | inl hst => simpa [hst] using hend c.rcvNxt
      | inr hst => simpa [hst] using hend c.rcvNxt
  · rw [if_neg hfin]
    exact ⟨husable, hnxt, huna⟩

theorem finish_usable (h : c.usable = true) : c.finish = c := by
  obtain ⟨-, hst⟩ := usable_iff.mp h
  unfold finish
  cases hst with
  | inl hst => simp [hst]
  | inr hst => simp [hst]

theorem SendsAt.processData (h : c.SendsAt e ok) (hok : Acks e ok)
    (g : Segment) : (c.processData g).1.SendsAt e ok := by
  have hend := ((h.takeAck hok g).takePayload g).takeFin g
  show (((c.takeAck g).takePayload g).takeFin g).finish.SendsAt e ok
  rw [finish_usable hend.usable]
  exact hend

theorem SendsAt.processTcp (h : c.SendsAt e ok) (hok : Acks e ok)
    (iss : UInt32) (g : Segment) :
    (c.processTcp iss g).1.SendsAt e ok ∨ (c.processTcp iss g).1.WasReset := by
  obtain ⟨-, hst⟩ := usable_iff.mp h.usable
  have hopen : c.Open := by
    unfold Open
    cases hst with
    | inl hst => simp [hst]
    | inr hst => simp [hst]
  cases processTcp_cases c g iss with
  | inl hin =>
    obtain ⟨d, hd, hrun⟩ := hin
    obtain ⟨-, rfl⟩ := admission_open hopen hd
    have hmac : SendsAt e ok { c with remoteMac := g.srcMac } :=
      ⟨h.usable, h.sndNxt, h.sndUna⟩
    rw [hrun]
    exact .inl (hmac.processData hok g)
  | inr hout =>
    obtain ⟨-, hpass⟩ := hout
    generalize c.processTcp iss g = r at hpass ⊢
    cases hpass with
    | nothing => exact .inl h
    | listen hs => exact absurd hs hopen.1
    | reset _ => exact .inr ⟨rfl, rfl⟩
    | synSent hs => exact absurd hs hopen.2.1
    | synReceived hs => exact absurd hs hopen.2.2

theorem processTcp_inactive (h : c.active = false) (iss : UInt32)
    (g : Segment) : c.processTcp iss g = (c, []) := by
  unfold TcpConn.processTcp
  simp only [h, Bool.not_false, if_true, ite_self]

theorem poll_inactive (h : c.active = false) (iss : UInt32)
    (gs : List Segment) : c.poll iss gs = c := by
  induction gs with
  | nil => rfl
  | cons g gs ih =>
    show poll iss gs (c.processTcp iss g).1 = c
    rw [processTcp_inactive h]
    exact ih

theorem SendsAt.poll (h : c.SendsAt e ok) (hok : Acks e ok) (iss : UInt32)
    (gs : List Segment) :
    (c.poll iss gs).SendsAt e ok ∨ (c.poll iss gs).WasReset := by
  induction gs generalizing c with
  | nil => exact .inl h
  | cons g gs ih =>
    show (TcpConn.poll iss gs (c.processTcp iss g).1).SendsAt e ok ∨
      (TcpConn.poll iss gs (c.processTcp iss g).1).WasReset
    cases h.processTcp hok iss g with
    | inl hsends => exact ih hsends
    | inr hreset =>
      rw [poll_inactive hreset.2]
      exact .inr hreset

end polls

-- ==== one chunk

section chunk

variable {c : TcpConn} {iss e : UInt32} {k : Nat}

theorem tcpSeq_antisymm {a b : UInt32} (hge : tcpSeqGe a b = true)
    (hle : tcpSeqLe a b = true) : a = b := by
  unfold tcpSeqGe at hge
  unfold tcpSeqLe at hle
  have hzero : (a - b).toInt32 = 0 := by grind
  have hsub : a - b = 0 := by
    rw [← UInt32.toUInt32_toInt32 (a - b), hzero]
    rfl
  grind

theorem tcpSeqLe_add (a : UInt32) {k : Nat} (hk : k < 2 ^ 31) :
    tcpSeqLe a (a + UInt32.ofNat k) = true := by
  unfold tcpSeqLe
  have hneg : a - (a + UInt32.ofNat k) = -UInt32.ofNat k := by grind
  rw [hneg, UInt32.toInt32_neg, UInt32.toInt32_ofNat', decide_eq_true_eq,
    Int32.le_iff_toInt_le, Int32.toInt_neg, Int32.toInt_ofNat_of_lt hk,
    Int.bmod_eq_of_le (by omega) (by omega)]
  show -(k : Int) ≤ 0
  omega

/-- Everything that was sent is acknowledged. -/
abbrev Settled (e : UInt32) (c : TcpConn) : Prop := c.SendsAt e (· = e)

/-- What was sent may be acknowledged in part, all but the last `k`
bytes are. -/
abbrev Sending (k : Nat) (e : UInt32) (c : TcpConn) : Prop :=
  c.SendsAt e fun una => tcpSeqLe una e = true ∧ (k = 0 → una = e)

theorem acks_eq (e : UInt32) : Acks e (· = e) := by
  intro una ack huna hge hle
  subst huna
  exact tcpSeq_antisymm hge hle

theorem acks_le (k : Nat) (e : UInt32) :
    Acks e fun una => tcpSeqLe una e = true ∧ (k = 0 → una = e) := by
  intro una ack huna hge hle
  exact ⟨hle, fun hk => acks_eq e una ack (huna.2 hk) hge hle⟩

/-- The connection that an outcome leaves. -/
def Leaves (k : Nat) (e : UInt32) : Outcome → TcpConn → Prop
  | .acked, c => c.Settled e
  | .lost, c => c.Sending k e
  | .reset, c => c = TcpConn.reset

theorem waitAck_leaves (h : c.Sending k e) (iss : UInt32)
    (polls : List (List Segment)) :
    Leaves k e (waitAck iss e polls c).1 (waitAck iss e polls c).2 := by
  induction polls generalizing c with
  | nil => exact h
  | cons gs polls ih =>
    unfold waitAck
    simp only []
    split_ifs with hreset hack
    · exact rfl
    · cases h.poll (acks_le k e) iss gs with
      | inl hsends =>
        exact ⟨hsends.usable, hsends.sndNxt,
          tcpSeq_antisymm hack hsends.sndUna.1⟩
      | inr hwas => exact absurd hwas.1 hreset
    · cases h.poll (acks_le k e) iss gs with
      | inl hsends => exact ih hsends
      | inr hwas => exact absurd hwas.1 hreset

/-- The tries of a chunk: all that they send is the chunk, and it was
sent unless it is given up. -/
structure Tried (k : Nat) (e start : UInt32) (chunk : List UInt8)
    (r : Outcome × TcpConn × List SentData) : Prop where
  leaves : Leaves k e r.1 r.2.1
  chunk : ∀ d ∈ r.2.2, d.seq = start ∧ d.payload = chunk
  sent : r.1 = .lost ∨ r.2.2 ≠ []

theorem tryLoop_tried (h : c.Sending k e) (iss start : UInt32)
    (chunk : List UInt8) (tries : List Try) :
    Tried k e start chunk (tryLoop iss start e chunk tries c) := by
  induction tries generalizing c with
  | nil => exact ⟨h, by simp [tryLoop], .inl rfl⟩
  | cons t tries ih =>
    unfold tryLoop
    split_ifs
    · exact ih h
    · have hwait := waitAck_leaves h iss t.polls
      simp only []
      generalize waitAck iss e t.polls c = r at hwait ⊢
      obtain ⟨o, c'⟩ := r
      have hone : ∀ d ∈ [c.dataSegment start chunk],
          d.seq = start ∧ d.payload = chunk := by
        intro d hd
        rw [List.mem_singleton.mp hd]
        exact ⟨rfl, rfl⟩
      cases o with
      | acked => exact ⟨hwait, hone, .inr (List.cons_ne_nil _ _)⟩
      | reset => exact ⟨hwait, hone, .inr (List.cons_ne_nil _ _)⟩
      | lost =>
        obtain ⟨hleaves, hchunk, -⟩ := ih hwait
        refine ⟨hleaves, ?_, .inr (List.cons_ne_nil _ _)⟩
        intro d hd
        cases hd with
        | head => exact ⟨rfl, rfl⟩
        | tail _ hd => exact hchunk d hd

theorem chunkLen_le (n : Nat) :
    chunkLen n ≤ n ∧ chunkLen n ≤ tcpSendMaxSegment := by
  unfold chunkLen
  exact ⟨Nat.le_trans (Nat.min_le_left _ _) (Nat.mod_le _ _),
    Nat.min_le_right _ _⟩

theorem sendChunk_tried (h : c.Settled e) (iss : UInt32)
    (tries : List Try) (left : List UInt8) :
    Tried (chunkLen left.length)
      (e + UInt32.ofNat (chunkLen left.length)) e (left.take (chunkLen left.length))
      (c.sendChunk iss tries left) := by
  obtain ⟨husable, hnxt, huna⟩ := h
  have hlen := (chunkLen_le left.length).2
  unfold sendChunk
  simp only [hnxt]
  apply tryLoop_tried
  refine ⟨husable, rfl, ?_, ?_⟩
  swap
  · intro hk
    show c.sndUna = e + UInt32.ofNat (chunkLen left.length)
    rw [hk, huna]
    simp
  show tcpSeqLe c.sndUna _ = true
  rw [huna]
  exact tcpSeqLe_add e (Nat.lt_of_le_of_lt hlen (by decide))

end chunk

-- ==== what is answered

/-- No chunk with a byte in it is given up: one of its tries is
acknowledged, or the connection is reset. -/
def Answered (iss : UInt32) :
    List (List Try) → List UInt8 → TcpConn → Prop
  | _, [], _ => True
  | [], _ :: _, _ => True
  | tries :: chunks, b :: left, c =>
    let k := chunkLen (b :: left).length
    let r := c.sendChunk iss tries (b :: left)
    (r.1 = .lost → k = 0) ∧
      (r.1 = .acked → Answered iss chunks ((b :: left).drop k) r.2.1)

end TcpConn

-- ==== sends in a row

/-- A connection with the bytes that the sends on it have counted, and
the segments that they have sent. -/
structure Sender where
  conn : TcpConn
  counted : List UInt8
  sent : List SentData

/-- What happens to a sender: a send, a poll of the network, or a receive
call that takes bytes out of the buffer. -/
inductive SendEvent
  | send (payload : List UInt8) (chunks : List (List Try))
  | poll (gs : List Segment)
  | pop (capacity : Nat)

namespace Sender

/-- One event; nothing while a send still runs. -/
def step (iss : UInt32) (x : Sender) : SendEvent → Option Sender
  | .send payload chunks =>
    let r := x.conn.tcpSend iss chunks payload
    r.returned.map fun n =>
      { conn := r.conn
        counted := x.counted ++ payload.take n
        sent := x.sent ++ r.sent }
  | .poll gs => some { x with conn := x.conn.poll iss gs }
  | .pop capacity => some { x with conn := (x.conn.recvPop capacity).2 }

end Sender

/-- A segment carries the bytes of a stream from a position on. -/
structure SentData.Carries (base : UInt32) (stream : List UInt8)
    (d : SentData) (pos : Nat) : Prop where
  seq : d.seq = base + UInt32.ofNat pos
  data : d.payload <+: stream.drop pos

/-- Segments carry the bytes of one stream, and every one of them. -/
structure OneStream (base : UInt32) (stream : List UInt8)
    (sent : List SentData) : Prop where
  carries : ∀ d ∈ sent, ∃ pos, d.Carries base stream pos
  covers : ∀ i < stream.length, ∃ d ∈ sent, ∃ pos ≤ i,
    d.Carries base stream pos ∧ i < pos + d.payload.length

/-- What was sent is one stream, and what was counted is the front of it. -/
structure Sender.Bound (base : UInt32) (x : Sender) : Prop where
  stream : ∃ stream, x.counted <+: stream ∧ OneStream base stream x.sent ∧
    (x.conn.usable = true → stream = x.counted)
  next : x.conn.usable = true →
    x.conn.Settled (base + UInt32.ofNat x.counted.length)

/-- A connection that was just established. -/
structure Sender.Fresh (base : UInt32) (x : Sender) : Prop where
  settled : x.conn.Settled base
  counted : x.counted = []
  sent : x.sent = []

/-- No send of an event gives up a chunk. -/
def SendEvent.Answered (iss : UInt32) (x : Sender) : SendEvent → Prop
  | .send payload chunks =>
    x.conn.usable = true → x.conn.Answered iss chunks payload
  | .poll _ => True
  | .pop _ => True

/-- The sequence space is consistent in every state of a run. -/
def Sender.StaysBound (base iss : UInt32) :
    List SendEvent → Sender → Prop
  | [], x => x.Bound base
  | e :: events, x =>
    x.Bound base ∧ ∀ y, x.step iss e = some y → y.StaysBound base iss events

/-- No send of a run gives up a chunk. -/
def Sender.AllAnswered (iss : UInt32) : List SendEvent → Sender → Prop
  | [], _ => True
  | e :: events, x =>
    e.Answered iss x ∧ ∀ y, x.step iss e = some y → y.AllAnswered iss events

section sends

variable {base iss : UInt32} {stream chunk : List UInt8}
  {sent ds : List SentData} {x y : Sender}

theorem SentData.Carries.append {d : SentData} {pos : Nat}
    (h : d.Carries base stream pos) (chunk : List UInt8) :
    d.Carries base (stream ++ chunk) pos where
  seq := h.seq
  data := by
    rw [List.drop_append]
    exact h.data.trans (List.prefix_append _ _)

theorem OneStream.append (h : OneStream base stream sent)
    (hds : ∀ d ∈ ds, d.seq = base + UInt32.ofNat stream.length ∧
      d.payload = chunk)
    (hsent : chunk = [] ∨ ds ≠ []) :
    OneStream base (stream ++ chunk) (sent ++ ds) := by
  have hcarries : ∀ d ∈ ds,
      d.Carries base (stream ++ chunk) stream.length := by
    intro d hd
    obtain ⟨hseq, hpay⟩ := hds d hd
    have hdrop : (stream ++ chunk).drop stream.length = d.payload := by
      rw [hpay, List.drop_left]
    refine ⟨hseq, [], ?_⟩
    rw [List.append_nil, hdrop]
  refine ⟨?_, ?_⟩
  · intro d hd
    cases List.mem_append.mp hd with
    | inl hold =>
      obtain ⟨pos, hpos⟩ := h.carries d hold
      exact ⟨pos, hpos.append chunk⟩
    | inr hnew => exact ⟨stream.length, hcarries d hnew⟩
  · intro i hi
    by_cases hold : i < stream.length
    · obtain ⟨d, hd, pos, hpos, hcar, hin⟩ := h.covers i hold
      exact ⟨d, List.mem_append_left _ hd, pos, hpos, hcar.append chunk,
        hin⟩
    · rw [List.length_append] at hi
      cases hsent with
      | inl hnil =>
        rw [hnil] at hi
        exact absurd hi hold
      | inr hne =>
        obtain ⟨d, hd⟩ := List.exists_mem_of_ne_nil ds hne
        refine ⟨d, List.mem_append_right _ hd, stream.length, by omega,
          hcarries d hd, ?_⟩
        rw [(hds d hd).2]
        exact hi

theorem OneStream.nil (base : UInt32) : OneStream base [] [] where
  carries := by simp
  covers := by simp

/-- The invariant of a sender. -/
def Sender.Sound (base : UInt32) (x : Sender) : Prop :=
  ∃ stream, x.counted <+: stream ∧ OneStream base stream x.sent ∧
    (stream = x.counted ∧
        x.conn.Settled (base + UInt32.ofNat x.counted.length) ∨
      x.conn.active = false)

theorem Sender.Sound.bound (h : x.Sound base) : x.Bound base := by
  obtain ⟨stream, hpre, hone, hst⟩ := h
  cases hst with
  | inl hst => exact ⟨⟨stream, hpre, hone, fun _ => hst.1⟩, fun _ => hst.2⟩
  | inr hst =>
    have hnot : x.conn.usable ≠ true := by
      unfold TcpConn.usable
      simp [hst]
    exact ⟨⟨stream, hpre, hone, fun hu => absurd hu hnot⟩,
      fun hu => absurd hu hnot⟩

theorem Sender.Fresh.sound (h : x.Fresh base) : x.Sound base := by
  obtain ⟨hset, hcounted, hsent⟩ := h
  refine ⟨[], ?_, ?_, .inl ⟨hcounted.symm, ?_⟩⟩
  · exact List.prefix_nil.mpr hcounted
  · rw [hsent]
    exact .nil base
  · rw [hcounted]
    simpa using hset

variable {c : TcpConn} {counted left : List UInt8}
  {chunks : List (List Try)} {total n : Nat}

theorem offset_add (base : UInt32) (a b : Nat) :
    base + UInt32.ofNat a + UInt32.ofNat b = base + UInt32.ofNat (a + b) := by
  rw [UInt32.ofNat_add, UInt32.add_assoc]

theorem Sender.Settled.sound
    (h : c.Settled (base + UInt32.ofNat counted.length))
    (hone : OneStream base counted sent) (left : List UInt8) :
    Sender.Sound base
      { conn := c, counted := counted ++ left.take 0, sent := sent ++ [] } := by
  rw [List.take_zero, List.append_nil, List.append_nil]
  exact ⟨counted, List.prefix_rfl, hone, .inl ⟨rfl, h⟩⟩

theorem offset_ne (base : UInt32) (a : Nat) {k : Nat} (hpos : 0 < k)
    (hk : k < 2 ^ 32) :
    base + UInt32.ofNat (a + k) ≠ base + UInt32.ofNat a := by
  intro h
  rw [← offset_add] at h
  have hzero : UInt32.ofNat k = 0 := by grind
  have hmod := congrArg UInt32.toNat hzero
  rw [UInt32.toNat_ofNat', Nat.mod_eq_of_lt hk] at hmod
  exact absurd hmod (Nat.ne_of_gt hpos)

theorem sendLoop_sound
    (h : c.Settled (base + UInt32.ofNat counted.length))
    (hone : OneStream base counted sent)
    (hans : c.Answered iss chunks left)
    (hret : (c.sendLoop iss chunks left total).returned = some n) :
    ∃ m, n = total + m ∧ Sender.Sound base
      { conn := (c.sendLoop iss chunks left total).conn
        counted := counted ++ left.take m
        sent := sent ++ (c.sendLoop iss chunks left total).sent } := by
  induction chunks generalizing c counted sent left total with
  | nil =>
    cases left with
    | nil =>
      cases hret
      exact ⟨0, rfl, Sender.Settled.sound h hone []⟩
    | cons b left => cases hret
  | cons tries chunks ih =>
    cases left with
    | nil =>
      cases hret
      exact ⟨0, rfl, Sender.Settled.sound h hone []⟩
    | cons b left =>
      obtain ⟨hgiven, hnext⟩ := hans
      have htried := TcpConn.sendChunk_tried h iss tries (b :: left)
      have hlen := (TcpConn.chunkLen_le (b :: left).length).1
      have htake := List.length_take_of_le hlen
      unfold TcpConn.sendLoop at hret ⊢
      simp only [] at hret ⊢
      generalize TcpConn.chunkLen (b :: left).length = k at *
      generalize c.sendChunk iss tries (b :: left) = r at *
      obtain ⟨o, c', ds⟩ := r
      obtain ⟨hleaves, hchunk, hsent⟩ := htried
      rw [offset_add] at hleaves
      cases o with
      | acked =>
        have hone' := hone.append hchunk (.inr (by simpa using hsent))
        have hset : c'.Settled (base + UInt32.ofNat
            (counted ++ (b :: left).take k).length) := by
          rw [List.length_append, htake]
          exact hleaves
        obtain ⟨m, hm, hsound⟩ := ih hset hone' (hnext rfl) hret
        refine ⟨k + m, by omega, ?_⟩
        rw [if_pos rfl, List.take_add, ← List.append_assoc,
          ← List.append_assoc]
        exact hsound
      | lost =>
        cases hret
        have hk : k = 0 := hgiven rfl
        subst hk
        have hone' := hone.append hchunk (.inl rfl)
        obtain ⟨husable, hnxt, huna⟩ := hleaves
        have hset : c'.Settled (base + UInt32.ofNat
            (counted ++ (b :: left).take 0).length) := by
          rw [List.length_append, htake]
          exact ⟨husable, hnxt, huna.2 rfl⟩
        rw [if_neg (by simp)]
        exact ⟨0, rfl, _, List.prefix_rfl, hone', .inl ⟨rfl, hset⟩⟩
      | reset =>
        cases hret
        have hone' := hone.append hchunk (.inr (by simpa using hsent))
        rw [if_neg (by simp)]
        refine ⟨0, rfl, _, ?_, hone', .inr ?_⟩
        · rw [List.take_zero, List.append_nil]
          exact List.prefix_append _ _
        · show c'.active = false
          rw [show c' = TcpConn.reset from hleaves]
          rfl

theorem sendLoop_gap {e : UInt32} (total : Nat) (h : c.Settled e)
    (hans : ¬c.Answered iss chunks left) :
    ∃ m ≤ left.length, ∃ k, 0 < k ∧ k ≤ tcpSendMaxSegment ∧
      (c.sendLoop iss chunks left total).returned = some (total + m) ∧
      (c.sendLoop iss chunks left total).conn.usable = true ∧
      (c.sendLoop iss chunks left total).conn.sndNxt
        = e + UInt32.ofNat (m + k) := by
  induction chunks generalizing c left total e with
  | nil => cases left <;> exact absurd trivial hans
  | cons tries chunks ih =>
    cases left with
    | nil => exact absurd trivial hans
    | cons b left =>
      have htried := TcpConn.sendChunk_tried h iss tries (b :: left)
      have hlen := TcpConn.chunkLen_le (b :: left).length
      unfold TcpConn.Answered at hans
      unfold TcpConn.sendLoop
      simp only [] at hans ⊢
      generalize TcpConn.chunkLen (b :: left).length = k at *
      generalize c.sendChunk iss tries (b :: left) = r at *
      obtain ⟨o, c', ds⟩ := r
      obtain ⟨hleaves, -, -⟩ := htried
      cases o with
      | acked =>
        have hnext : ¬c'.Answered iss chunks ((b :: left).drop k) :=
          fun hn => hans ⟨by simp, fun _ => hn⟩
        obtain ⟨m, hm, j, hj, hmax, hret, husable, hnxt⟩ :=
          ih (total + k) hleaves hnext
        rw [List.length_drop] at hm
        rw [if_pos rfl]
        refine ⟨k + m, by omega, j, hj, hmax, ?_, husable, ?_⟩
        · rw [← Nat.add_assoc]
          exact hret
        · rw [Nat.add_assoc, ← offset_add]
          exact hnxt
      | lost =>
        have hk : k ≠ 0 := fun hk => hans ⟨fun _ => hk, by simp⟩
        rw [if_neg (by simp)]
        refine ⟨0, by omega, k, by omega, hlen.2, rfl, hleaves.usable, ?_⟩
        rw [Nat.zero_add]
        exact hleaves.sndNxt
      | reset => exact absurd ⟨by simp, by simp⟩ hans

theorem Sender.Sound.step (h : x.Sound base) {e : SendEvent}
    (hans : e.Answered iss x) (hy : x.step iss e = some y) :
    y.Sound base := by
  obtain ⟨stream, hpre, hone, hst⟩ := h
  cases e with
  | send payload chunks =>
    unfold Sender.step at hy
    simp only [Option.map_eq_some_iff] at hy
    obtain ⟨n, hret, rfl⟩ := hy
    unfold TcpConn.tcpSend at hret ⊢
    by_cases hnone : (!x.conn.usable || decide (payload = [])) = true
    · rw [if_pos hnone] at hret ⊢
      cases hret
      rw [List.take_zero, List.append_nil, List.append_nil]
      exact ⟨stream, hpre, hone, hst⟩
    · rw [if_neg hnone] at hret ⊢
      have husable : x.conn.usable = true := by
        revert hnone
        cases x.conn.usable <;> simp
      cases hst with
      | inl hst =>
        obtain ⟨hstream, hset⟩ := hst
        subst hstream
        obtain ⟨m, hm, hsound⟩ :=
          sendLoop_sound hset hone (hans husable) hret
        rw [Nat.zero_add] at hm
        rw [hm]
        exact hsound
      | inr hst =>
        have hact := (TcpConn.usable_iff.mp husable).1
        rw [hst] at hact
        cases hact
  | poll gs =>
    cases hy
    refine ⟨stream, hpre, hone, ?_⟩
    cases hst with
    | inl hst =>
      cases hst.2.poll (TcpConn.acks_eq _) iss gs with
      | inl hset => exact .inl ⟨hst.1, hset⟩
      | inr hreset => exact .inr hreset.2
    | inr hst =>
      refine .inr ?_
      show (x.conn.poll iss gs).active = false
      rw [TcpConn.poll_inactive hst]
      exact hst
  | pop capacity =>
    cases hy
    refine ⟨stream, hpre, hone, ?_⟩
    cases hst with
    | inl hst =>
      exact .inl ⟨hst.1, hst.2.usable, hst.2.sndNxt, hst.2.sndUna⟩
    | inr hst => exact .inr hst


theorem Sender.Bound.gap (h : x.Bound base) {e : SendEvent}
    (hans : ¬e.Answered iss x) : ∃ y, x.step iss e = some y ∧ ¬y.Bound base := by
  cases e with
  | poll gs => exact absurd trivial hans
  | pop capacity => exact absurd trivial hans
  | send payload chunks =>
    unfold SendEvent.Answered at hans
    push Not at hans
    obtain ⟨husable, hans⟩ := hans
    obtain ⟨m, hm, k, hk, hmax, hret, hstill, hnxt⟩ :=
      sendLoop_gap 0 (h.next husable) hans
    have hsome : ¬(!x.conn.usable || decide (payload = [])) = true := by
      intro hnone
      have hnil : payload = [] := by simpa [husable] using hnone
      rw [hnil] at hans
      cases chunks <;> exact hans trivial
    have hrun : x.conn.tcpSend iss chunks payload
        = x.conn.sendLoop iss chunks payload 0 := if_neg hsome
    refine ⟨
      { conn := (x.conn.sendLoop iss chunks payload 0).conn
        counted := x.counted ++ payload.take m
        sent := x.sent ++ (x.conn.sendLoop iss chunks payload 0).sent },
      ?_, fun hbound => ?_⟩
    · unfold Sender.step
      simp only [hrun, hret, Nat.zero_add, Option.map_some]
    · have hsame := (hbound.next hstill).sndNxt
      rw [hnxt, offset_add, List.length_append, List.length_take_of_le hm,
        ← Nat.add_assoc] at hsame
      exact offset_ne base _ hk (Nat.lt_of_le_of_lt hmax (by decide)) hsame

/-- A run keeps the sequence space consistent exactly if no send on it
gives up a chunk. -/
theorem Sender.Fresh.staysBound_iff (h : x.Fresh base) (iss : UInt32)
    (events : List SendEvent) :
    x.StaysBound base iss events ↔ x.AllAnswered iss events := by
  have hsound := h.sound
  clear h
  induction events generalizing x with
  | nil => exact ⟨fun _ => trivial, fun _ => hsound.bound⟩
  | cons e events ih =>
    by_cases hans : e.Answered iss x
    · constructor
      · intro hstays
        exact ⟨hans, fun y hy =>
          (ih (hsound.step hans hy)).mp (hstays.2 y hy)⟩
      · intro hall
        exact ⟨hsound.bound, fun y hy =>
          (ih (hsound.step hans hy)).mpr (hall.2 y hy)⟩
    · constructor
      · intro hstays
        obtain ⟨y, hy, hgap⟩ := hsound.bound.gap hans
        have hafter := hstays.2 y hy
        cases events with
        | nil => exact absurd hafter hgap
        | cons e' events => exact absurd hafter.1 hgap
      · exact fun hall => absurd hall.1 hans

end sends

-- ==== two sends

/-- An established connection on which nothing was sent. -/
def webSender : Sender where
  conn := TcpConn.webConn .established
  counted := []
  sent := []

theorem webSender_fresh : webSender.Fresh 0 :=
  ⟨⟨by decide, rfl, rfl⟩, rfl, rfl⟩

/-- A send of a byte whose tries are all refused by the hardware, and one
of a byte that is acknowledged. -/
def lostThenAcked : List SendEvent :=
  [.send [1] [List.replicate 4 ⟨false, []⟩],
    .send [2] [[⟨true, [[TcpConn.bareSegment 1 2 flagAck]]⟩]]]

/-- The byte of the second send stands behind a byte that was never
sent. -/
theorem lostThenAcked_not_staysBound :
    webSender.Fresh 0 ∧ ¬ webSender.StaysBound 0 1 lostThenAcked := by
  refine ⟨webSender_fresh, fun h => ?_⟩
  obtain ⟨-, hafter⟩ := h
  obtain ⟨-, hafter⟩ := hafter _ rfl
  have hend : Sender.Bound 0 _ := hafter _ rfl
  have hnxt := (hend.next (by decide +kernel)).sndNxt
  revert hnxt
  decide +kernel

/-- A send of a byte that is acknowledged. -/
theorem staysBound_iff_acked :
    webSender.StaysBound 0 1
        [.send [1] [[⟨true, [[TcpConn.bareSegment 1 1 flagAck]]⟩]]] ↔
      webSender.AllAnswered 1
        [.send [1] [[⟨true, [[TcpConn.bareSegment 1 1 flagAck]]⟩]]] :=
  webSender_fresh.staysBound_iff 1 _

end Clks.Net
