/-
The TCP connection of the network stack (net.c): what an incoming segment
and a receive call do to it.

There is one connection. A segment is the bytes behind the IP header;
its fields are big-endian. Frames that are sent are the result of a
function, whether the hardware takes them is never looked at. Logging
and timing are left out.
-/
import Clks.Lib.RingBuf

namespace Clks.Net

-- ==== constants

/-- `CLKS_NET_TCP_RECV_CAP`. -/
abbrev tcpRecvCap : Nat := 65536

/-- `CLKS_NET_TCP_DEFAULT_WINDOW`. -/
abbrev tcpDefaultWindow : Nat := 16384

/-- `CLKS_NET_TCP_HEADER_MIN_LEN`. -/
abbrev tcpHeaderMinLen : Nat := 20

/-- `CLKS_NET_TCP_FLAG_FIN`. -/
abbrev flagFin : UInt16 := 0x001

/-- `CLKS_NET_TCP_FLAG_SYN`. -/
abbrev flagSyn : UInt16 := 0x002

/-- `CLKS_NET_TCP_FLAG_RST`. -/
abbrev flagRst : UInt16 := 0x004

/-- `CLKS_NET_TCP_FLAG_ACK`. -/
abbrev flagAck : UInt16 := 0x010

/-- `enum clks_net_tcp_state`. -/
inductive TcpState
  | closed
  | synSent
  | established
  | finWait1
  | finWait2
  | closeWait
  | lastAck
  | listen
  | synReceived
  deriving DecidableEq, Repr

-- ==== the wire

/-- `clks_net_read_be16`. -/
def readBe16 (b : List UInt8) (off : Nat) : UInt16 :=
  (b.getD off 0).toUInt16 <<< 8 ||| (b.getD (off + 1) 0).toUInt16

/-- `clks_net_read_be32`. -/
def readBe32 (b : List UInt8) (off : Nat) : UInt32 :=
  (b.getD off 0).toUInt32 <<< 24 ||| (b.getD (off + 1) 0).toUInt32 <<< 16
    ||| (b.getD (off + 2) 0).toUInt32 <<< 8 ||| (b.getD (off + 3) 0).toUInt32

/-- The arguments of `clks_net_process_tcp`: a segment as it arrives. -/
structure Segment where
  srcIpv4 : UInt32
  srcMac : List UInt8
  tcp : List UInt8
  len_lt : tcp.length < 2 ^ 16

namespace Segment

def srcPort (g : Segment) : UInt16 := readBe16 g.tcp 0

def dstPort (g : Segment) : UInt16 := readBe16 g.tcp 2

def seq (g : Segment) : UInt32 := readBe32 g.tcp 4

def ack (g : Segment) : UInt32 := readBe32 g.tcp 8

/-- `header_len`, from the upper bits of `data_offset_flags`. -/
def headerLen (g : Segment) : Nat :=
  (((readBe16 g.tcp 12) >>> 12 &&& 0x0F) * 4).toNat

/-- `flags`, the lower bits of `data_offset_flags`. -/
def flags (g : Segment) : UInt16 := readBe16 g.tcp 12 &&& 0x01FF

def payload (g : Segment) : List UInt8 := g.tcp.drop g.headerLen

/-- Is a flag set? -/
def has (g : Segment) (flag : UInt16) : Bool := g.flags &&& flag ≠ 0

end Segment

/-- A segment that the connection sends without a payload. -/
structure Sent where
  seq : UInt32
  ack : UInt32
  flags : UInt16
  window : Nat
  deriving DecidableEq, Repr

-- ==== the connection

/-- `struct clks_net_tcp_conn`. -/
structure TcpConn where
  active : Bool
  peerFin : Bool
  resetSeen : Bool
  state : TcpState
  remoteIpv4 : UInt32
  remoteAltIpv4 : UInt32
  remotePort : UInt16
  localPort : UInt16
  remoteMac : List UInt8
  sndIss : UInt32
  sndUna : UInt32
  sndNxt : UInt32
  rcvNxt : UInt32
  recv : RingBuf UInt8 tcpRecvCap
  staleAckSeen : Bool

/-- `clks_net_tcp_seq_ge`. -/
def tcpSeqGe (left right : UInt32) : Bool := 0 ≤ (left - right).toInt32

/-- `clks_net_tcp_seq_le`. -/
def tcpSeqLe (left right : UInt32) : Bool := (left - right).toInt32 ≤ 0

namespace TcpConn

/-- `clks_net_tcp_reset`: everything is zero. -/
def reset : TcpConn where
  active := false
  peerFin := false
  resetSeen := false
  state := .closed
  remoteIpv4 := 0
  remoteAltIpv4 := 0
  remotePort := 0
  localPort := 0
  remoteMac := List.replicate 6 0
  sndIss := 0
  sndUna := 0
  sndNxt := 0
  rcvNxt := 0
  recv := .empty 0 (by decide)
  staleAckSeen := false

/-- `clks_net_tcp_listen`, on a port that is not 0. -/
def listen (port : UInt16) : TcpConn :=
  { reset with active := true, state := .listen, localPort := port }

/-- `clks_net_send_tcp_segment_raw`, without a payload: the window is
what is free of the receive buffer. -/
def sendRaw (c : TcpConn) (seq ack : UInt32) (flags : UInt16) : List Sent :=
  if c.localPort = 0 ∨ c.remotePort = 0 then []
  else
    [{ seq, ack, flags
       window := min tcpDefaultWindow (tcpRecvCap - c.recv.count) }]

/-- `clks_net_send_tcp_ack`. -/
def sendAck (c : TcpConn) : List Sent :=
  if !c.active then [] else c.sendRaw c.sndNxt c.rcvNxt flagAck

/-- Is a segment from the peer of the connection? -/
def fromPeer (c : TcpConn) (g : Segment) : Bool :=
  (c.remoteIpv4 = g.srcIpv4 ||
      (c.remoteAltIpv4 ≠ 0 && c.remoteAltIpv4 = g.srcIpv4)) &&
    c.remotePort = g.srcPort && c.localPort = g.dstPort

/-- `clks_net_process_tcp` in the state `LISTEN`; `iss` is what
`clks_net_tcp_make_iss` draws. -/
def processListen (iss : UInt32) (g : Segment) (c : TcpConn) :
    TcpConn × List Sent :=
  if g.has flagSyn && g.dstPort = c.localPort then
    let c :=
      { c with
        remoteMac := g.srcMac
        remoteIpv4 := g.srcIpv4
        remoteAltIpv4 := 0
        remotePort := g.srcPort
        sndIss := iss
        sndUna := iss
        sndNxt := iss + 1
        rcvNxt := g.seq + 1
        state := .synReceived }
    (c, c.sendRaw c.sndIss c.rcvNxt (flagSyn ||| flagAck))
  else
    (c, [])

/-- `clks_net_process_tcp` in the state `SYN_SENT`. -/
def processSynSent (g : Segment) (c : TcpConn) : TcpConn × List Sent :=
  if g.has flagSyn && g.has flagAck && g.ack = c.sndNxt then
    let c :=
      { c with
        sndUna := g.ack, rcvNxt := g.seq + 1, state := .established }
    (c, c.sendAck)
  else if !g.has flagSyn && g.has flagAck then
    ({ c with staleAckSeen := true }, [])
  else
    (c, [])

/-- The acknowledgement of a segment is taken over. -/
def takeAck (g : Segment) (c : TcpConn) : TcpConn :=
  if g.has flagAck && tcpSeqGe g.ack c.sndUna && tcpSeqLe g.ack c.sndNxt then
    { c with sndUna := g.ack }
  else c

/-- The payload of a segment is taken if it is the next one. -/
def takePayload (g : Segment) (c : TcpConn) : TcpConn :=
  if g.payload ≠ [] ∧ g.seq = c.rcvNxt then
    { c with
      recv := c.recv.pushAll g.payload
      rcvNxt := c.rcvNxt + UInt32.ofNat g.payload.length }
  else c

/-- The end of the peer's stream is taken over. -/
def takeFin (g : Segment) (c : TcpConn) : TcpConn :=
  if g.has flagFin then
    let finSeq := g.seq + UInt32.ofNat g.payload.length
    let c :=
      if finSeq = c.rcvNxt then { c with rcvNxt := c.rcvNxt + 1 } else c
    let c := { c with peerFin := true }
    match c.state with
    | .established => { c with state := .closeWait }
    | .finWait2 => { c with state := .closed, active := false }
    | _ => c
  else c

/-- The closing states, once everything sent is acknowledged. -/
def finish (c : TcpConn) : TcpConn :=
  let c :=
    if c.state = .finWait1 ∧ tcpSeqGe c.sndUna c.sndNxt then
      if c.peerFin then { c with state := .closed, active := false }
      else { c with state := .finWait2 }
    else c
  if c.state = .lastAck ∧ tcpSeqGe c.sndUna c.sndNxt then
    { c with state := .closed, active := false }
  else c

/-- The end of `clks_net_process_tcp`, on a connection that is
established or closing. -/
def processData (g : Segment) (c : TcpConn) : TcpConn × List Sent :=
  let c := ((c.takeAck g).takePayload g).takeFin g |>.finish
  (c, if (g.payload ≠ [] || g.has flagFin) && c.active then c.sendAck else [])

/-- `clks_net_process_tcp`. -/
def processTcp (iss : UInt32) (g : Segment) (c : TcpConn) :
    TcpConn × List Sent :=
  if g.tcp.length < tcpHeaderMinLen then (c, [])
  else if g.headerLen < tcpHeaderMinLen ∨ g.tcp.length < g.headerLen then
    (c, [])
  else if !c.active then (c, [])
  else if c.state = .listen then c.processListen iss g
  else if !c.fromPeer g then (c, [])
  else
    let c := { c with remoteMac := g.srcMac }
    if g.has flagRst then
      ({ c with resetSeen := true, active := false, state := .closed }, [])
    else if c.state = .synSent then c.processSynSent g
    else if c.state = .synReceived then
      if g.has flagAck && g.ack = c.sndNxt then
        { c with sndUna := g.ack, state := .established }.processData g
      else (c, [])
    else c.processData g

-- ==== receiving

/-- `clks_net_tcp_recv_pop`. -/
def recvPop (capacity : Nat) (c : TcpConn) : List UInt8 × TcpConn :=
  let (got, recv) := c.recv.popMany capacity
  (got, { c with recv })

/-- The segments that one `clks_net_poll_internal` brings in. -/
def poll (iss : UInt32) (gs : List Segment) (c : TcpConn) : TcpConn :=
  gs.foldl (fun c g => (c.processTcp iss g).1) c

/-- The loop of `clks_net_tcp_recv`, over what its polls bring in. -/
def recvLoop (iss : UInt32) (capacity : Nat) :
    List (List Segment) → TcpConn → List UInt8 × TcpConn
  | [], c => ([], c)
  | gs :: polls, c =>
    let (got, c) := (c.poll iss gs).recvPop capacity
    if got ≠ [] then (got, c)
    else if !c.active then ([], c)
    else recvLoop iss capacity polls c

/-- `clks_net_tcp_recv`. -/
def tcpRecv (iss : UInt32) (capacity : Nat) (polls : List (List Segment))
    (c : TcpConn) : List UInt8 × TcpConn :=
  if capacity = 0 then ([], c)
  else
    let (got, c) := c.recvPop capacity
    if got ≠ [] then (got, c)
    else recvLoop iss capacity polls c

end TcpConn

end Clks.Net
