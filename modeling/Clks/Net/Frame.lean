/-
Received frames (`clks_net_process_frame` and what it calls).

The lengths in a frame (the frame itself, the header and the total length
of the IP packet, the length of the UDP datagram, the data offset of the
TCP segment, the options of a DHCP message) are chosen by the sender, and
each layer narrows the window for the next one. Every byte of the frame
is read through `Reads`, so a read outside of what was received is a
fault, and so is an option loop that does not end (`receive_safe`).
-/
import Clks.Lib.Reads
import Clks.Net.Tcp

namespace Clks.Net

open Reads

-- ==== constants

/-- `CLKS_NET_BUF_SIZE`. -/
abbrev bufSize : Nat := 2048

/-- `CLKS_NET_ETH_HEADER_LEN`. -/
abbrev ethHeaderLen : Nat := 14

/-- The size of `struct clks_net_arp_packet`. -/
abbrev arpPacketLen : Nat := 28

/-- `CLKS_NET_IP_HEADER_MIN_LEN`. -/
abbrev ipHeaderMinLen : Nat := 20

/-- `CLKS_NET_ICMP_HEADER_LEN`. -/
abbrev icmpHeaderLen : Nat := 8

/-- `CLKS_NET_UDP_HEADER_LEN`. -/
abbrev udpHeaderLen : Nat := 8

/-- `CLKS_NET_UDP_PAYLOAD_MAX`. -/
abbrev udpPayloadMax : Nat := 1472

/-- `CLKS_NET_UDP_QUEUE_CAP`. -/
abbrev udpQueueCap : Nat := 16

/-- The payload that `clks_net_send_icmp_echo` has room for. -/
abbrev echoPayloadMax : Nat := 64

/-- `CLKS_NET_DHCP_SERVER_PORT`. -/
abbrev dhcpServerPort : UInt16 := 67

/-- `CLKS_NET_DHCP_CLIENT_PORT`. -/
abbrev dhcpClientPort : UInt16 := 68

/-- `CLKS_NET_DHCP_MAGIC`. -/
abbrev dhcpMagic : UInt32 := 0x63825363

/-- `CLKS_NET_DHCP_OPT_SUBNET_MASK`. -/
abbrev dhcpOptSubnetMask : UInt8 := 1

/-- `CLKS_NET_DHCP_OPT_ROUTER`. -/
abbrev dhcpOptRouter : UInt8 := 3

/-- `CLKS_NET_DHCP_OPT_DNS`. -/
abbrev dhcpOptDns : UInt8 := 6

/-- `CLKS_NET_DHCP_OPT_MSG_TYPE`. -/
abbrev dhcpOptMsgType : UInt8 := 53

/-- `CLKS_NET_DHCP_OPT_SERVER_ID`. -/
abbrev dhcpOptServerId : UInt8 := 54

/-- `CLKS_NET_DHCP_OPT_END`. -/
abbrev dhcpOptEnd : UInt8 := 255

/-- `CLKS_NET_DHCP_MSG_OFFER`. -/
abbrev dhcpMsgOffer : UInt8 := 2

/-- `CLKS_NET_DHCP_MSG_ACK`. -/
abbrev dhcpMsgAck : UInt8 := 5

/-- `CLKS_NET_DHCP_MSG_NAK`. -/
abbrev dhcpMsgNak : UInt8 := 6

/-- Where the options of a DHCP message begin. -/
abbrev dhcpOptionsOff : Nat := 240

-- ==== the state

/-- A hardware address. -/
abbrev Mac := Block 6

/-- `clks_net_mac_broadcast`. -/
def macBroadcast : Mac := ⟨List.replicate 6 0xFF, rfl⟩

/-- `clks_net_mac_invalid`. -/
def macInvalid (mac : Mac) : Bool :=
  mac.val.all (· = 0) || mac.val.all (· = 0xFF)

/-- `struct clks_net_arp_entry`. -/
structure ArpEntry where
  valid : Bool
  ipv4 : UInt32
  mac : Mac
  stamp : Nat

/-- `clks_net_arp_table`, with `clks_net_arp_stamp`. -/
structure ArpTable where
  entries : List ArpEntry
  stamp : Nat

/-- The first one of the entries that were used longest ago. -/
def ArpTable.oldestIndex (t : ArpTable) : Nat :=
  (t.entries.zipIdx.foldl
    (fun best e => if e.1.stamp < best.1 then (e.1.stamp, e.2) else best)
    (2 ^ 64 - 1, 0)).2

/-- `clks_net_arp_upsert`: the entry of the address, else a free one, else
the oldest one. -/
def ArpTable.upsert (ipv4 : UInt32) (mac : Mac) (t : ArpTable) : ArpTable :=
  if macInvalid mac || ipv4 = 0 then t
  else
    let i :=
      (t.entries.findIdx? fun e => e.valid && e.ipv4 = ipv4).getD
        ((t.entries.findIdx? fun e => !e.valid).getD t.oldestIndex)
    { entries := t.entries.set i ⟨true, ipv4, mac, t.stamp⟩
      stamp := (t.stamp + 1) % 2 ^ 64 }

/-- `struct clks_net_udp_packet`. -/
structure UdpPacket where
  srcIpv4 : UInt32
  srcPort : UInt16
  dstPort : UInt16
  payload : List UInt8

/-- What the network knows of the address that it asks for. -/
structure Dhcp where
  active : Bool
  offerReady : Bool
  ackReady : Bool
  failed : Bool
  xid : UInt32
  offerIp : UInt32
  serverId : UInt32
  offerNetmask : UInt32
  offerGateway : UInt32
  offerDns : UInt32

/-- What the network knows of the ping that it waits for. -/
structure Ping where
  ident : UInt16
  waiting : Bool
  replyOk : Bool
  waitDst : UInt32
  waitAltSrc : UInt32
  waitSeq : UInt16

/-- The static variables of the network that a received frame looks at. -/
structure Stack where
  mac : Mac
  ipv4 : UInt32
  arp : ArpTable
  udp : RingBuf UdpPacket udpQueueCap
  tcp : TcpConn
  dhcp : Dhcp
  ping : Ping

/-- What is sent in answer to a frame. -/
inductive Reply
  | arp (dstMac : Mac) (targetIp : UInt32)
  | echo (dstIpv4 : UInt32) (dstMac : Mac) (seq : UInt16)
      (payload : List UInt8)
  | tcp (k : Sent)

/-- The state behind a frame, and what was sent. -/
abbrev Handled := Checked (Stack × List Reply)

-- ==== DHCP

/-- What the options of a DHCP message say. -/
structure DhcpOptions where
  msgType : UInt8
  subnet : UInt32
  router : UInt32
  dns : UInt32
  serverId : UInt32

section handlers

variable (frame : List UInt8)

/-- One option: `pos` is the place of its value in the payload at
`off`. -/
def dhcpOption (off : Nat) (pos : UInt16) (code len : UInt8)
    (o : DhcpOptions) : Checked DhcpOptions :=
  if code = dhcpOptMsgType ∧ 1 ≤ len then do
    return { o with msgType := ← byteAt frame (off + pos.toNat) }
  else if code = dhcpOptSubnetMask ∧ 4 ≤ len then do
    return { o with subnet := ← be32At frame (off + pos.toNat) }
  else if code = dhcpOptRouter ∧ 4 ≤ len then do
    return { o with router := ← be32At frame (off + pos.toNat) }
  else if code = dhcpOptDns ∧ 4 ≤ len then do
    return { o with dns := ← be32At frame (off + pos.toNat) }
  else if code = dhcpOptServerId ∧ 4 ≤ len then do
    return { o with serverId := ← be32At frame (off + pos.toNat) }
  else return o

/-- The option loop, for some rounds. -/
def dhcpLoop (off : Nat) (payloadLen : UInt16) :
    Nat → UInt16 → DhcpOptions → Checked DhcpOptions
  | 0, pos, o => if pos < payloadLen then throw .unfinished else return o
  | rounds + 1, pos, o =>
    if ¬ pos < payloadLen then return o
    else do
      let code ← byteAt frame (off + pos.toNat)
      let pos := pos + 1
      if code = 0 then dhcpLoop off payloadLen rounds pos o
      else if code = dhcpOptEnd then return o
      else if payloadLen ≤ pos then return o
      else do
        let len ← byteAt frame (off + pos.toNat)
        let pos := pos + 1
        if payloadLen.toNat < pos.toNat + len.toNat then return o
        else do
          let o ← dhcpOption frame off pos code len o
          dhcpLoop off payloadLen rounds (pos + len.toUInt16) o

/-- What a DHCP message does to the state. -/
def Dhcp.take (srcIpv4 yiaddr : UInt32) (o : DhcpOptions) (d : Dhcp) : Dhcp :=
  let serverId := if o.serverId = 0 then srcIpv4 else o.serverId
  if o.msgType = dhcpMsgOffer ∨ o.msgType = 0 ∧ d.offerReady = false then
    { d with
      offerIp := yiaddr, serverId, offerNetmask := o.subnet
      offerGateway := o.router, offerDns := o.dns, offerReady := true }
  else if o.msgType = dhcpMsgAck ∨
      o.msgType = 0 ∧ d.offerReady = true ∧ d.ackReady = false then
    { d with
      offerIp := if yiaddr ≠ 0 then yiaddr else d.offerIp
      serverId := if serverId ≠ 0 then serverId else d.serverId
      offerNetmask := if o.subnet ≠ 0 then o.subnet else d.offerNetmask
      offerGateway := if o.router ≠ 0 then o.router else d.offerGateway
      offerDns := if o.dns ≠ 0 then o.dns else d.offerDns
      ackReady := true }
  else if o.msgType = dhcpMsgNak then { d with failed := true }
  else d

/-- `clks_net_dhcp_process_payload`, on the payload at `off`. -/
def dhcpProcessPayload (srcIpv4 : UInt32) (off : Nat) (payloadLen : UInt16)
    (s : Stack) : Checked Stack :=
  if payloadLen.toNat < dhcpOptionsOff ∨ s.dhcp.active = false then return s
  else do
    let op ← byteAt frame off
    let htype ← byteAt frame (off + 1)
    let hlen ← byteAt frame (off + 2)
    if op ≠ 2 ∨ htype ≠ 1 ∨ hlen ≠ 6 then return s
    else do
      let xid ← be32At frame (off + 4)
      if xid ≠ s.dhcp.xid then return s
      else do
        let mine ← equalAt frame (off + 28) s.mac.val
        if !mine then return s
        else do
          let magic ← be32At frame (off + 236)
          if magic ≠ dhcpMagic then return s
          else do
            let yiaddr ← be32At frame (off + 16)
            let o ← dhcpLoop frame off payloadLen payloadLen.toNat
              (UInt16.ofNat dhcpOptionsOff) ⟨0, 0, 0, 0, 0⟩
            return { s with dhcp := s.dhcp.take srcIpv4 yiaddr o }

-- ==== the transports

/-- `clks_net_process_icmp`, on the message at `off`; `srcMac` is read
from the frame, too, where an answer goes. -/
def processIcmp (srcIpv4 : UInt32) (off : Nat) (icmpLen : UInt16)
    (s : Stack) : Handled :=
  if icmpLen.toNat < icmpHeaderLen then return (s, [])
  else do
    let ident ← be16At frame (off + 4)
    let seq ← be16At frame (off + 6)
    let type ← byteAt frame off
    let code ← byteAt frame (off + 1)
    let payloadLen := icmpLen.toNat - icmpHeaderLen
    if type = 8 ∧ code = 0 then
      if ident = s.ping.ident ∧ payloadLen ≤ echoPayloadMax then do
        let payload ← blockAt frame (off + icmpHeaderLen) payloadLen
        let srcMac ← blockAt frame 6 6
        return (s, [.echo srcIpv4 srcMac seq payload.val])
      else return (s, [])
    else if type = 0 ∧ code = 0 ∧ ident = s.ping.ident ∧
        s.ping.waiting = true ∧ seq = s.ping.waitSeq ∧
        (srcIpv4 = s.ping.waitDst ∨
          s.ping.waitAltSrc ≠ 0 ∧ srcIpv4 = s.ping.waitAltSrc) then
      return ({ s with
        ping := { s.ping with replyOk := true, waiting := false } }, [])
    else return (s, [])

/-- `clks_net_udp_queue_push`, with the payload at `off`. -/
def udpQueuePush (srcIpv4 : UInt32) (srcPort dstPort : UInt16) (off : Nat)
    (payloadLen : Nat) (s : Stack) : Checked Stack := do
  let payload ← blockAt frame off (min payloadLen udpPayloadMax)
  return { s with
    udp := s.udp.push ⟨srcIpv4, srcPort, dstPort, payload.val⟩ }

/-- `clks_net_process_udp`, on the datagram at `off`. -/
def processUdp (srcIpv4 : UInt32) (off : Nat) (udpLen : UInt16)
    (s : Stack) : Checked Stack :=
  if udpLen.toNat < udpHeaderLen then return s
  else do
    let srcPort ← be16At frame off
    let dstPort ← be16At frame (off + 2)
    let wireLen ← be16At frame (off + 4)
    if wireLen.toNat < udpHeaderLen ∨ udpLen < wireLen then return s
    else
      let payloadLen := wireLen - UInt16.ofNat udpHeaderLen
      if dstPort = dhcpClientPort ∧ srcPort = dhcpServerPort then
        dhcpProcessPayload frame srcIpv4 (off + udpHeaderLen) payloadLen s
      else
        udpQueuePush frame srcIpv4 srcPort dstPort (off + udpHeaderLen)
          payloadLen.toNat s

/-- The upper bits of `data_offset_flags`, in bytes. -/
def dataOffset (rawFlags : UInt16) : Nat :=
  ((rawFlags >>> 12 &&& 0x0F) * 4).toNat

/-- What `clks_net_process_tcp` sees of a segment: its header and its payload.
-/
def seenSegment (srcIpv4 : UInt32) (srcMac : Mac)
    (header : Block tcpHeaderMinLen) (options : Nat) {n : Nat}
    (payload : Block n) (h : tcpHeaderMinLen + options + n < 2 ^ 16) :
    Segment where
  srcIpv4
  srcMac := srcMac.val
  tcp := header.val ++ List.replicate options 0 ++ payload.val
  len_lt := by
    rw [List.length_append, List.length_append, List.length_replicate,
      header.property, payload.property]
    exact h

/-- `clks_net_process_tcp`, on the segment at `off`. -/
def processTcpAt (iss srcIpv4 : UInt32) (off : Nat) (tcpLen : UInt16)
    (s : Stack) : Handled :=
  if tcpLen.toNat < tcpHeaderMinLen then return (s, [])
  else do
    let header ← blockAt frame off tcpHeaderMinLen
    let headerLen := dataOffset (readBe16 header.val 12)
    if h : headerLen < tcpHeaderMinLen ∨ tcpLen.toNat < headerLen then
      return (s, [])
    else do
      let payload ← blockAt frame (off + headerLen)
        (tcpLen.toNat - headerLen)
      let srcMac ← blockAt frame 6 6
      let g := seenSegment srcIpv4 srcMac header (headerLen - tcpHeaderMinLen)
        payload (by have := tcpLen.toNat_lt; omega)
      let r := s.tcp.processTcp iss g
      return ({ s with tcp := r.1 }, r.2.map .tcp)

-- ==== the frame

/-- `clks_net_process_ipv4`. -/
def processIpv4 (iss : UInt32) (frameLen : UInt16) (s : Stack) : Handled :=
  if frameLen.toNat < ethHeaderLen + ipHeaderMinLen then return (s, [])
  else do
    let ipLen := frameLen - UInt16.ofNat ethHeaderLen
    let verIhl ← byteAt frame ethHeaderLen
    if verIhl >>> 4 ≠ 4 then return (s, [])
    else
      let ihlWords := verIhl &&& 0x0F
      if ihlWords < 5 then return (s, [])
      else
        let ihlBytes := ihlWords.toUInt16 * 4
        if ipLen < ihlBytes then return (s, [])
        else do
          let totalLen ← be16At frame (ethHeaderLen + 2)
          if totalLen < ihlBytes ∨ ipLen < totalLen then return (s, [])
          else do
            let frag ← be16At frame (ethHeaderLen + 6)
            if frag &&& 0x3FFF ≠ 0 then return (s, [])
            else do
              let dstIpv4 ← be32At frame (ethHeaderLen + 16)
              let proto ← byteAt frame (ethHeaderLen + 9)
              let l4 := ethHeaderLen + ihlBytes.toNat
              let l4Len := totalLen - ihlBytes
              let allow ← allowed dstIpv4 proto l4 l4Len
              if !allow then return (s, [])
              else do
                let srcIpv4 ← be32At frame (ethHeaderLen + 12)
                if srcIpv4 = 0 then return (s, [])
                else do
                  let srcMac ← blockAt frame 6 6
                  let s := { s with arp := s.arp.upsert srcIpv4 srcMac }
                  if proto = 1 then processIcmp frame srcIpv4 l4 l4Len s
                  else if proto = 17 then do
                    let s ← processUdp frame srcIpv4 l4 l4Len s
                    return (s, [])
                  else if proto = 6 then
                    processTcpAt frame iss srcIpv4 l4 l4Len s
                  else return (s, [])
where
  /-- Is the packet for this host, or an answer of a DHCP server? -/
  allowed (dstIpv4 : UInt32) (proto : UInt8) (l4 : Nat) (l4Len : UInt16) :
      Checked Bool :=
    if dstIpv4 ≠ s.ipv4 ∧ dstIpv4 ≠ 0xFFFFFFFF then
      if s.dhcp.active = true ∧ s.ipv4 = 0 ∧ proto = 17 ∧
          udpHeaderLen ≤ l4Len.toNat then do
        let udpSrc ← be16At frame l4
        let udpDst ← be16At frame (l4 + 2)
        return udpSrc = dhcpServerPort && udpDst = dhcpClientPort
      else return false
    else return true

/-- `clks_net_process_arp`. -/
def processArp (frameLen : UInt16) (s : Stack) : Handled :=
  if frameLen.toNat < ethHeaderLen + arpPacketLen then return (s, [])
  else do
    let htype ← be16At frame ethHeaderLen
    if htype ≠ 1 then return (s, [])
    else do
      let ptype ← be16At frame (ethHeaderLen + 2)
      if ptype ≠ 0x0800 then return (s, [])
      else do
        let hlen ← byteAt frame (ethHeaderLen + 4)
        let plen ← byteAt frame (ethHeaderLen + 5)
        if hlen ≠ 6 ∨ plen ≠ 4 then return (s, [])
        else do
          let op ← be16At frame (ethHeaderLen + 6)
          let senderIp ← be32At frame (ethHeaderLen + 14)
          let targetIp ← be32At frame (ethHeaderLen + 24)
          let sha ← blockAt frame (ethHeaderLen + 8) 6
          let s :=
            if senderIp ≠ 0 ∧ macInvalid sha = false then
              { s with arp := s.arp.upsert senderIp sha }
            else s
          if op = 1 ∧ targetIp = s.ipv4 then do
            let srcMac ← blockAt frame 6 6
            return (s, [.arp srcMac senderIp])
          else return (s, [])

/-- `clks_net_process_frame`. -/
def processFrame (iss : UInt32) (frameLen : UInt16) (s : Stack) : Handled :=
  if frameLen.toNat < ethHeaderLen then return (s, [])
  else do
    let mine ← equalAt frame 0 s.mac.val
    let all ← equalAt frame 0 macBroadcast.val
    if !mine && !all then return (s, [])
    else do
      let ethertype ← be16At frame 12
      if ethertype = 0x0806 then processArp frame frameLen s
      else if ethertype = 0x0800 then processIpv4 frame iss frameLen s
      else return (s, [])

/-- What `clks_net_poll_internal` does with a received frame: one that is
empty or longer than the buffer is dropped. -/
def receive (iss : UInt32) (s : Stack) : Handled :=
  if 0 < frame.length ∧ frame.length ≤ bufSize then
    processFrame frame iss (UInt16.ofNat frame.length) s
  else return (s, [])

end handlers

-- ==== safety

section safety

variable {frame : List UInt8} {off : Nat} {payloadLen pos : UInt16}
  {s : Stack} {srcIpv4 iss : UInt32}

theorem toNat_succ (h : pos < payloadLen) :
    (pos + 1).toNat = pos.toNat + 1 := by
  rw [UInt16.lt_iff_toNat_lt] at h
  have hlt := payloadLen.toNat_lt
  rw [UInt16.toNat_add]
  exact Nat.mod_eq_of_lt (by show pos.toNat + 1 < _; omega)

theorem toNat_add_len {len : UInt8}
    (h : pos.toNat + len.toNat ≤ payloadLen.toNat) :
    (pos + len.toUInt16).toNat = pos.toNat + len.toNat := by
  have hlt := payloadLen.toNat_lt
  rw [UInt16.toNat_add, UInt8.toNat_toUInt16]
  exact Nat.mod_eq_of_lt (by omega)

theorem dhcpOption_safe {code len : UInt8} (o : DhcpOptions)
    (h : off + pos.toNat + len.toNat ≤ frame.length) :
    Safe (dhcpOption frame off pos code len o) := by
  have hfour : 4 ≤ len → off + pos.toNat + 4 ≤ frame.length := by
    intro hlen
    have := UInt8.le_iff_toNat_le.mp hlen
    have : (4 : UInt8).toNat = 4 := rfl
    omega
  have hone : 1 ≤ len → off + pos.toNat < frame.length := by
    intro hlen
    have := UInt8.le_iff_toNat_le.mp hlen
    have : (1 : UInt8).toNat = 1 := rfl
    omega
  unfold dhcpOption
  split_ifs with htype hsubnet hrouter hdns hserver
  · exact .bind (byteAt_safe (hone htype.2)) fun _ => .pure _
  · exact .bind (be32At_safe (hfour hsubnet.2)) fun _ => .pure _
  · exact .bind (be32At_safe (hfour hrouter.2)) fun _ => .pure _
  · exact .bind (be32At_safe (hfour hdns.2)) fun _ => .pure _
  · exact .bind (be32At_safe (hfour hserver.2)) fun _ => .pure _
  · exact .pure _

theorem dhcpLoop_safe {rounds : Nat} (o : DhcpOptions)
    (h : off + payloadLen.toNat ≤ frame.length)
    (hrounds : payloadLen.toNat ≤ pos.toNat + rounds) :
    Safe (dhcpLoop frame off payloadLen rounds pos o) := by
  induction rounds generalizing pos o with
  | zero =>
    unfold dhcpLoop
    rw [if_neg (by rw [UInt16.lt_iff_toNat_lt]; omega)]
    exact .pure _
  | succ rounds ih =>
    unfold dhcpLoop
    by_cases hin : pos < payloadLen
    swap
    · rw [if_pos hin]
      exact .pure _
    rw [if_neg (not_not_intro hin)]
    have hlt := UInt16.lt_iff_toNat_lt.mp hin
    have hsucc := toNat_succ hin
    apply Safe.bind (byteAt_safe (by omega))
    intro code
    apply Safe.ite
    · exact fun _ => ih o (by omega)
    intro _
    apply Safe.early
    intro _
    apply Safe.early
    intro hmore
    have hin' : pos + 1 < payloadLen := by
      rw [UInt16.lt_iff_toNat_lt]
      rw [UInt16.le_iff_toNat_le] at hmore
      omega
    have hlt' := UInt16.lt_iff_toNat_lt.mp hin'
    have hsucc' := toNat_succ hin'
    apply Safe.bind (byteAt_safe (by omega))
    intro len
    apply Safe.early
    intro hfits
    have hnext := toNat_add_len (Nat.le_of_not_lt hfits)
    apply Safe.bind (dhcpOption_safe o (by omega))
    intro o'
    exact ih o' (by omega)

theorem dhcpProcessPayload_safe (srcIpv4 : UInt32) (s : Stack)
    (h : off + payloadLen.toNat ≤ frame.length) :
    Safe (dhcpProcessPayload frame srcIpv4 off payloadLen s) := by
  unfold dhcpProcessPayload
  apply Safe.early
  intro hlen
  have hmin : 240 ≤ payloadLen.toNat := Nat.le_of_not_lt (not_or.mp hlen).1
  have hmac : s.mac.val.length = 6 := s.mac.property
  apply Safe.bind (byteAt_safe (by omega))
  intro op
  apply Safe.bind (byteAt_safe (by omega))
  intro htype
  apply Safe.bind (byteAt_safe (by omega))
  intro hlen
  apply Safe.early
  intro _
  apply Safe.bind (be32At_safe (by omega))
  intro xid
  apply Safe.early
  intro _
  apply Safe.bind (equalAt_safe (by omega))
  intro mine
  apply Safe.early
  intro _
  apply Safe.bind (be32At_safe (by omega))
  intro magic
  apply Safe.early
  intro _
  apply Safe.bind (be32At_safe (by omega))
  intro yiaddr
  apply Safe.bind (dhcpLoop_safe _ h (by omega))
  exact fun o => .pure _

theorem processIcmp_safe {icmpLen : UInt16} (srcIpv4 : UInt32) (s : Stack)
    (heth : ethHeaderLen ≤ frame.length)
    (h : off + icmpLen.toNat ≤ frame.length) :
    Safe (processIcmp frame srcIpv4 off icmpLen s) := by
  unfold processIcmp
  apply Safe.early
  intro hlen
  have hmin : 8 ≤ icmpLen.toNat := Nat.le_of_not_lt hlen
  have hpay : off + icmpHeaderLen + (icmpLen.toNat - icmpHeaderLen)
      ≤ frame.length := by
    show off + 8 + (icmpLen.toNat - 8) ≤ frame.length
    omega
  apply Safe.bind (be16At_safe (by omega))
  intro ident
  apply Safe.bind (be16At_safe (by omega))
  intro seq
  apply Safe.bind (byteAt_safe (by omega))
  intro type
  apply Safe.bind (byteAt_safe (by omega))
  intro code
  apply Safe.ite
  · intro _
    apply Safe.ite
    · intro _
      apply Safe.bind (blockAt_safe hpay)
      intro payload
      apply Safe.bind (blockAt_safe (Nat.le_trans (by decide) heth))
      exact fun srcMac => .pure _
    · exact fun _ => .pure _
  · intro _
    exact .ite (fun _ => .pure _) fun _ => .pure _

theorem udpQueuePush_safe {srcPort dstPort : UInt16} {len : Nat}
    (srcIpv4 : UInt32) (s : Stack) (h : off + len ≤ frame.length) :
    Safe (udpQueuePush frame srcIpv4 srcPort dstPort off len s) := by
  have hmin : off + min len udpPayloadMax ≤ frame.length :=
    Nat.le_trans (Nat.add_le_add_left (Nat.min_le_left _ _) _) h
  exact .bind (blockAt_safe hmin) fun _ => .pure _

theorem processUdp_safe {udpLen : UInt16} (srcIpv4 : UInt32) (s : Stack)
    (h : off + udpLen.toNat ≤ frame.length) :
    Safe (processUdp frame srcIpv4 off udpLen s) := by
  unfold processUdp
  apply Safe.early
  intro hlen
  have hmin : 8 ≤ udpLen.toNat := Nat.le_of_not_lt hlen
  apply Safe.bind (be16At_safe (by omega))
  intro srcPort
  apply Safe.bind (be16At_safe (by omega))
  intro dstPort
  apply Safe.bind (be16At_safe (by omega))
  intro wireLen
  apply Safe.early
  intro hwire
  -- The datagram says its length, and the packet has room for it.
  have hfloor : 8 ≤ wireLen.toNat := Nat.le_of_not_lt (not_or.mp hwire).1
  have hroof : wireLen.toNat ≤ udpLen.toNat :=
    Nat.le_of_not_lt fun hlt =>
      (not_or.mp hwire).2 (UInt16.lt_iff_toNat_lt.mpr hlt)
  have hpay : (wireLen - UInt16.ofNat udpHeaderLen).toNat
      = wireLen.toNat - 8 :=
    UInt16.toNat_sub_of_le _ _ (UInt16.le_iff_toNat_le.mpr hfloor)
  have hend : off + udpHeaderLen
      + (wireLen - UInt16.ofNat udpHeaderLen).toNat ≤ frame.length := by
    rw [hpay]
    show off + 8 + (wireLen.toNat - 8) ≤ frame.length
    omega
  apply Safe.ite
  · exact fun _ => dhcpProcessPayload_safe srcIpv4 s hend
  · exact fun _ => udpQueuePush_safe srcIpv4 s hend

theorem processTcpAt_safe {tcpLen : UInt16} (iss srcIpv4 : UInt32)
    (s : Stack) (heth : ethHeaderLen ≤ frame.length)
    (h : off + tcpLen.toNat ≤ frame.length) :
    Safe (processTcpAt frame iss srcIpv4 off tcpLen s) := by
  unfold processTcpAt
  apply Safe.early
  intro hlen
  have hmin : 20 ≤ tcpLen.toNat := Nat.le_of_not_lt hlen
  apply Safe.bind (blockAt_safe (Nat.le_trans (Nat.add_le_add_left hmin _) h))
  intro header
  simp only []
  split_ifs with hoff
  · exact .pure _
  · have hwindow := not_or.mp hoff
    apply Safe.bind (blockAt_safe (by omega))
    intro payload
    apply Safe.bind (blockAt_safe (Nat.le_trans (by decide) heth))
    exact fun srcMac => .pure _

theorem processArp_safe (s : Stack) (hlen : frame.length < 2 ^ 16) :
    Safe (processArp frame (UInt16.ofNat frame.length) s) := by
  unfold processArp
  rw [UInt16.toNat_ofNat', Nat.mod_eq_of_lt hlen]
  apply Safe.early
  intro hshort
  have hmin : 42 ≤ frame.length := Nat.le_of_not_lt hshort
  have hat : ∀ n ≤ 28, ethHeaderLen + n ≤ frame.length := fun n hn =>
    Nat.le_trans (Nat.add_le_add_left hn 14) hmin
  apply Safe.bind (be16At_safe (hat 2 (by decide)))
  intro htype
  apply Safe.early
  intro _
  apply Safe.bind (be16At_safe (hat 4 (by decide)))
  intro ptype
  apply Safe.early
  intro _
  apply Safe.bind (byteAt_safe (hat 5 (by decide)))
  intro hlen
  apply Safe.bind (byteAt_safe (hat 6 (by decide)))
  intro plen
  apply Safe.early
  intro _
  apply Safe.bind (be16At_safe (hat 8 (by decide)))
  intro op
  apply Safe.bind (be32At_safe (hat 18 (by decide)))
  intro senderIp
  apply Safe.bind (be32At_safe (hat 28 (by decide)))
  intro targetIp
  apply Safe.bind (blockAt_safe
    (show ethHeaderLen + 8 + 6 ≤ frame.length from hat 14 (by decide)))
  intro sha
  apply Safe.ite
  · intro _
    apply Safe.bind (blockAt_safe (Nat.le_trans (by decide) hmin))
    exact fun srcMac => .pure _
  · exact fun _ => .pure _

theorem allowed_safe {dstIpv4 : UInt32} {proto : UInt8} {l4Len : UInt16}
    (s : Stack) (h : off + l4Len.toNat ≤ frame.length) :
    Safe (processIpv4.allowed frame s dstIpv4 proto off l4Len) := by
  unfold processIpv4.allowed
  apply Safe.ite
  · intro _
    apply Safe.ite
    · intro hudp
      have hmin : 8 ≤ l4Len.toNat := hudp.2.2.2
      apply Safe.bind (be16At_safe (by omega))
      intro udpSrc
      apply Safe.bind (be16At_safe (by omega))
      exact fun udpDst => .pure _
    · exact fun _ => .pure _
  · exact fun _ => .pure _

theorem processIpv4_safe (iss : UInt32) (s : Stack)
    (hlen : frame.length < 2 ^ 16) :
    Safe (processIpv4 frame iss (UInt16.ofNat frame.length) s) := by
  have hframe : (UInt16.ofNat frame.length).toNat = frame.length := by
    rw [UInt16.toNat_ofNat', Nat.mod_eq_of_lt hlen]
  unfold processIpv4
  rw [hframe]
  apply Safe.early
  intro hshort
  have hmin : 34 ≤ frame.length := Nat.le_of_not_lt hshort
  have hat : ∀ n ≤ 20, ethHeaderLen + n ≤ frame.length := fun n hn =>
    Nat.le_trans (Nat.add_le_add_left hn 14) hmin
  have heth : ethHeaderLen ≤ frame.length := hat 0 (by decide)
  have hip : (UInt16.ofNat frame.length - UInt16.ofNat ethHeaderLen).toNat
      = frame.length - 14 := by
    rw [UInt16.toNat_sub_of_le, hframe]
    · rfl
    · rw [UInt16.le_iff_toNat_le, hframe]
      exact heth
  simp only []
  generalize UInt16.ofNat frame.length - UInt16.ofNat ethHeaderLen = ipLen
    at hip ⊢
  apply Safe.bind (byteAt_safe (hat 1 (by decide)))
  intro verIhl
  apply Safe.early
  intro _
  apply Safe.early
  intro _
  generalize (verIhl &&& 0x0F).toUInt16 * 4 = ihlBytes
  apply Safe.early
  intro _
  apply Safe.bind (be16At_safe (hat 4 (by decide)))
  intro totalLen
  apply Safe.early
  intro htotal
  -- What is behind the IP header ends in the frame.
  have hhead : ihlBytes.toNat ≤ totalLen.toNat :=
    Nat.le_of_not_lt fun hlt =>
      (not_or.mp htotal).1 (UInt16.lt_iff_toNat_lt.mpr hlt)
  have htail : totalLen.toNat ≤ ipLen.toNat :=
    Nat.le_of_not_lt fun hlt =>
      (not_or.mp htotal).2 (UInt16.lt_iff_toNat_lt.mpr hlt)
  have hl4 : ethHeaderLen + ihlBytes.toNat + (totalLen - ihlBytes).toNat
      ≤ frame.length := by
    rw [UInt16.toNat_sub_of_le _ _ (UInt16.le_iff_toNat_le.mpr hhead)]
    show 14 + ihlBytes.toNat + (totalLen.toNat - ihlBytes.toNat)
      ≤ frame.length
    omega
  apply Safe.bind (be16At_safe (hat 8 (by decide)))
  intro frag
  apply Safe.early
  intro _
  apply Safe.bind (be32At_safe (hat 20 (by decide)))
  intro dstIpv4
  apply Safe.bind (byteAt_safe (hat 10 (by decide)))
  intro proto
  apply Safe.bind (allowed_safe s hl4)
  intro allow
  apply Safe.early
  intro _
  apply Safe.bind (be32At_safe (hat 16 (by decide)))
  intro src
  apply Safe.early
  intro _
  apply Safe.bind (blockAt_safe (Nat.le_trans (by decide) heth))
  intro srcMac
  apply Safe.ite
  · exact fun _ => processIcmp_safe src _ heth hl4
  intro _
  apply Safe.ite
  · intro _
    exact .bind (processUdp_safe src _ hl4) fun _ => .pure _
  intro _
  apply Safe.ite
  · exact fun _ => processTcpAt_safe iss src _ heth hl4
  · exact fun _ => .pure _

theorem processFrame_safe (iss : UInt32) (s : Stack)
    (hlen : frame.length < 2 ^ 16) :
    Safe (processFrame frame iss (UInt16.ofNat frame.length) s) := by
  have hmac : s.mac.val.length = 6 := s.mac.property
  have hall : macBroadcast.val.length = 6 := macBroadcast.property
  unfold processFrame
  rw [UInt16.toNat_ofNat', Nat.mod_eq_of_lt hlen]
  apply Safe.early
  intro hshort
  have hmin : 14 ≤ frame.length := Nat.le_of_not_lt hshort
  apply Safe.bind (equalAt_safe (by omega))
  intro mine
  apply Safe.bind (equalAt_safe (by omega))
  intro all
  apply Safe.early
  intro _
  apply Safe.bind (be16At_safe hmin)
  intro ethertype
  apply Safe.ite
  · exact fun _ => processArp_safe s hlen
  intro _
  apply Safe.ite
  · exact fun _ => processIpv4_safe iss s hlen
  · exact fun _ => .pure _

/-- No frame makes the code read outside of what was received, or run
without end, in any state of the network. -/
theorem receive_safe (frame : List UInt8) (iss : UInt32) (s : Stack) :
    Safe (receive frame iss s) := by
  unfold receive
  apply Safe.ite
  · intro hlen
    exact processFrame_safe iss s (Nat.lt_of_le_of_lt hlen.2 (by decide))
  · exact fun _ => .pure _


end safety

end Clks.Net
