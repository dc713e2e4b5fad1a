/-
The packets that are sent (`clks_net_send_ipv4_packet_from` and the
builders above it).

A header is filled in with a checksum of zero, the sum is taken over it,
and the complement goes into the field. The sums are kept in 32 bits,
which is enough for every length that a packet may have.
-/
import Clks.Lib.OnesComplement
import Clks.Net.Frame
import Clks.Net.Stream

namespace Clks.Net

-- ==== constants

/-- `CLKS_NET_IPV4_PROTO_ICMP`. -/
abbrev protoIcmp : UInt8 := 1

/-- `CLKS_NET_IPV4_PROTO_TCP`. -/
abbrev protoTcp : UInt8 := 6

/-- `CLKS_NET_IPV4_PROTO_UDP`. -/
abbrev protoUdp : UInt8 := 17

/-- `CLKS_NET_ETHERTYPE_IPV4`. -/
abbrev ethertypeIpv4 : UInt16 := 0x0800

/-- `CLKS_NET_MAX_IPV4_PAYLOAD`. -/
abbrev maxIpv4Payload : Nat := 1480

/-- `CLKS_NET_TCP_SYN_OPTION_LEN`. -/
abbrev tcpSynOptionLen : Nat := 4

/-- `CLKS_NET_TCP_OPT_MSS`. -/
abbrev tcpOptMss : UInt8 := 2

/-- `CLKS_NET_TCP_OPT_MSS_LEN`. -/
abbrev tcpOptMssLen : UInt8 := 4

/-- `CLKS_NET_TCP_MSS`. -/
abbrev tcpMss : UInt16 := 1460

-- ==== the checksum

/-- The loop over the words, with the odd byte at the end. -/
def sumWords : List UInt8 → UInt32 → UInt32
  | hi :: lo :: rest, sum =>
    sumWords rest (sum + (hi.toUInt16 <<< 8 ||| lo.toUInt16).toUInt32)
  | [hi], sum => sum + hi.toUInt32 <<< 8
  | [], sum => sum

theorem carries_toNat (sum : UInt32) :
    ((sum &&& (0xFFFF : UInt32)) + sum >>> 16).toNat
      = sum.toNat % 2 ^ 16 + sum.toNat / 2 ^ 16 := by
  have hlt := sum.toNat_lt
  have hand : (sum &&& (0xFFFF : UInt32)).toNat = sum.toNat % 2 ^ 16 := by
    rw [UInt32.toNat_and]
    exact Nat.and_two_pow_sub_one_eq_mod sum.toNat 16
  have hshift : (sum >>> 16).toNat = sum.toNat / 2 ^ 16 := by
    rw [UInt32.toNat_shiftRight]
    exact Nat.shiftRight_eq_div_pow ..
  rw [UInt32.toNat_add, hand, hshift]
  omega

theorem shiftRight_zero_iff (sum : UInt32) :
    sum >>> 16 = 0 ↔ sum.toNat < 2 ^ 16 := by
  rw [← UInt32.toNat_inj, UInt32.toNat_shiftRight]
  show sum.toNat >>> 16 = 0 ↔ _
  rw [Nat.shiftRight_eq_div_pow]
  omega

/-- The loop that adds the carries. -/
def foldCarries (sum : UInt32) : UInt32 :=
  if sum >>> 16 = 0 then sum
  else foldCarries ((sum &&& (0xFFFF : UInt32)) + sum >>> 16)
termination_by sum.toNat
decreasing_by
  next hcarry =>
    rw [shiftRight_zero_iff] at hcarry
    rw [carries_toNat]
    omega

/-- `clks_net_checksum16`. -/
def checksum16 (data : List UInt8) : UInt16 :=
  (~~~foldCarries (sumWords data 0) &&& (0xFFFF : UInt32)).toUInt16

/-- The words of the pseudo-header. -/
def pseudoSum (src dst : UInt32) (proto : UInt8) (len : UInt16) : UInt32 :=
  (src >>> 16 &&& (0xFFFF : UInt32)) + (src &&& (0xFFFF : UInt32))
    + (dst >>> 16 &&& (0xFFFF : UInt32)) + (dst &&& (0xFFFF : UInt32))
    + proto.toUInt32 + len.toUInt32

/-- The checksum of a datagram or a segment, which is never zero. -/
def transportChecksum (proto : UInt8) (src dst : UInt32)
    (data : List UInt8) : UInt16 :=
  let sum := sumWords data
    (pseudoSum src dst proto (UInt16.ofNat data.length))
  let out := (~~~foldCarries sum &&& (0xFFFF : UInt32)).toUInt16
  if out = 0 then 0xFFFF else out

/-- `clks_net_udp_checksum`. -/
def udpChecksum (src dst : UInt32) (udp : List UInt8) : UInt16 :=
  transportChecksum protoUdp src dst udp

/-- `clks_net_tcp_checksum`. -/
def tcpChecksum (src dst : UInt32) (tcp : List UInt8) : UInt16 :=
  if tcp = [] then 0 else transportChecksum protoTcp src dst tcp

-- ==== the frames

/-- What `clks_net_tx_frame` gives to the hardware. -/
def txFrame (frame : List UInt8) : List UInt8 :=
  frame ++ List.replicate (60 - frame.length) 0

/-- `struct clks_net_ipv4_hdr`. -/
def ipv4Header (ident totalLen : UInt16) (proto : UInt8) (checksum : UInt16)
    (src dst : UInt32) : List UInt8 :=
  [0x45, 0] ++ be16 totalLen ++ be16 ident ++ be16 0x4000 ++ [64, proto]
    ++ be16 checksum ++ be32 src ++ be32 dst

/-- `clks_net_send_ipv4_packet_from`, of which the frame is what the
hardware gets. -/
def sendIpv4PacketFrom (mac dstMac : Mac) (ident : UInt16)
    (src dst : UInt32) (proto : UInt8) (payload : List UInt8) :
    Option (List UInt8) :=
  if maxIpv4Payload < payload.length then none
  else
    let totalLen := UInt16.ofNat (ipHeaderMinLen + payload.length)
    let csum := checksum16 (ipv4Header ident totalLen proto 0 src dst)
    some (txFrame (dstMac.val ++ mac.val ++ be16 ethertypeIpv4
      ++ ipv4Header ident totalLen proto csum src dst ++ payload))

/-- `struct clks_net_udp_hdr`. -/
def udpHeader (srcPort dstPort len checksum : UInt16) : List UInt8 :=
  be16 srcPort ++ be16 dstPort ++ be16 len ++ be16 checksum

/-- `clks_net_send_udp_datagram`. -/
def sendUdpDatagram (mac dstMac : Mac) (ident : UInt16) (src dst : UInt32)
    (srcPort dstPort : UInt16) (payload : List UInt8) :
    Option (List UInt8) :=
  if srcPort = 0 ∨ dstPort = 0 ∨ udpPayloadMax < payload.length then none
  else
    let len := UInt16.ofNat (udpHeaderLen + payload.length)
    let checksum :=
      if srcPort = dhcpClientPort ∧ dstPort = dhcpServerPort then 0
      else udpChecksum src dst (udpHeader srcPort dstPort len 0 ++ payload)
    sendIpv4PacketFrom mac dstMac ident src dst protoUdp
      (udpHeader srcPort dstPort len checksum ++ payload)

/-- The option of a segment with SYN. -/
def synOption (flags : UInt16) : List UInt8 :=
  if flags &&& flagSyn ≠ 0 then [tcpOptMss, tcpOptMssLen] ++ be16 tcpMss
  else []

/-- `struct clks_net_tcp_hdr`, with the option behind it. -/
def tcpHeader (srcPort dstPort : UInt16) (seq ack : UInt32)
    (flags window checksum : UInt16) : List UInt8 :=
  let headerLen := tcpHeaderMinLen + (synOption flags).length
  be16 srcPort ++ be16 dstPort ++ be32 seq ++ be32 ack
    ++ be16 (UInt16.ofNat (headerLen / 4) <<< 12 ||| (flags &&& 0x01FF))
    ++ be16 window ++ be16 checksum ++ be16 0 ++ synOption flags

/-- `clks_net_send_tcp_segment_raw`, on a connection whose receive buffer
holds `recvCount` bytes. -/
def sendTcpSegmentRaw (mac dstMac : Mac) (ident : UInt16)
    (src dst : UInt32) (srcPort dstPort : UInt16) (seq ack : UInt32)
    (flags : UInt16) (recvCount : Nat) (payload : List UInt8) :
    Option (List UInt8) :=
  if srcPort = 0 ∨ dstPort = 0 ∨
      maxIpv4Payload - (tcpHeaderMinLen + (synOption flags).length)
        < payload.length then none
  else
    let window :=
      UInt16.ofNat (min tcpDefaultWindow (tcpRecvCap - recvCount))
    let header := tcpHeader srcPort dstPort seq ack flags window
    let checksum := tcpChecksum src dst (header 0 ++ payload)
    sendIpv4PacketFrom mac dstMac ident src dst protoTcp
      (header checksum ++ payload)

/-- `struct clks_net_icmp_echo_hdr`. -/
def icmpEchoHeader (type : UInt8) (checksum ident seq : UInt16) :
    List UInt8 :=
  [type, 0] ++ be16 checksum ++ be16 ident ++ be16 seq

/-- `clks_net_send_icmp_echo`. -/
def sendIcmpEcho (mac dstMac : Mac) (ident : UInt16) (src dst : UInt32)
    (type : UInt8) (pingIdent seq : UInt16) (payload : List UInt8) :
    Option (List UInt8) :=
  if echoPayloadMax < payload.length then none
  else
    let csum := checksum16 (icmpEchoHeader type 0 pingIdent seq ++ payload)
    sendIpv4PacketFrom mac dstMac ident src dst protoIcmp
      (icmpEchoHeader type csum pingIdent seq ++ payload)

-- ==== the receiver

/-- A frame carries an IPv4 packet with a header of 20 bytes that verifies
and says how long the packet is; behind the packet there are only zeros. -/
structure CarriesIpv4 (frame header payload : List UInt8) : Prop where
  layout : ∃ eth n, frame = eth ++ header ++ payload ++ List.replicate n 0 ∧
    eth.length = ethHeaderLen ∧ header.length = ipHeaderMinLen
  verifies : OnesComplement.Verifies header
  length : ∃ n, Reads.be16At header 2 = .ok n ∧
    n.toNat = header.length + payload.length

/-- The pseudo-header for what is behind an IPv4 header: its addresses, its
protocol and the length. -/
def pseudoHeader (header : List UInt8) (len : Nat) : List UInt8 :=
  header.drop 12 ++ [0, header.getD 9 0] ++ be16 (UInt16.ofNat len)

/-- A datagram or a segment verifies behind its header. -/
def VerifiesBehind (header data : List UInt8) : Prop :=
  OnesComplement.Verifies (pseudoHeader header data.length ++ data)

/-- A datagram behind its header: it verifies, says how long it is, and
has a checksum. -/
structure UdpVerifies (header udp payload : List UInt8) : Prop where
  data : udp.drop udpHeaderLen = payload
  verifies : VerifiesBehind header udp
  length : ∃ n, Reads.be16At udp 4 = .ok n ∧ n.toNat = udp.length
  checksum : ∃ c, Reads.be16At udp 6 = .ok c ∧ c ≠ 0

/-- A segment behind its header: it verifies, and says where its data
begin. -/
structure TcpVerifies (header tcp payload : List UInt8) : Prop where
  verifies : VerifiesBehind header tcp
  offset : ∃ n, Reads.be16At tcp 12 = .ok n ∧
    tcp.drop ((n >>> 12).toNat * 4) = payload

/-- An echo. -/
structure IcmpVerifies (icmp payload : List UInt8) : Prop where
  data : icmp.drop icmpHeaderLen = payload
  verifies : OnesComplement.Verifies icmp

-- ==== the sums

open OnesComplement

section sums

theorem word_toNat (hi lo : UInt8) :
    (hi.toUInt16 <<< 8 ||| lo.toUInt16).toUInt32.toNat
      = hi.toNat * 256 + lo.toNat := by
  have hhi := hi.toNat_lt
  have hlo := lo.toNat_lt
  have hshift : (hi.toUInt16 <<< 8).toNat = hi.toNat <<< 8 := by
    rw [UInt16.toNat_shiftLeft]
    show hi.toNat <<< 8 % 2 ^ 16 = _
    rw [Nat.shiftLeft_eq]
    omega
  rw [UInt16.toNat_toUInt32, UInt16.toNat_or, hshift]
  show hi.toNat <<< 8 ||| lo.toNat = _
  rw [← Nat.shiftLeft_add_eq_or_of_lt hlo, Nat.shiftLeft_eq]

theorem sumWords_toNat {data : List UInt8} {sum : UInt32}
    (h : sum.toNat + (words data).sum < 2 ^ 32) :
    (sumWords data sum).toNat = sum.toNat + (words data).sum := by
  induction data, sum using sumWords.induct with
  | case1 hi lo rest sum ih =>
    rw [words, List.sum_cons] at h ⊢
    have hsum : (sum + (hi.toUInt16 <<< 8 ||| lo.toUInt16).toUInt32).toNat
        = sum.toNat + (hi.toNat * 256 + lo.toNat) := by
      rw [UInt32.toNat_add, word_toNat]
      omega
    rw [sumWords, ih (by omega), hsum]
    omega
  | case2 hi sum =>
    have hhi := hi.toNat_lt
    have hshift : (hi.toUInt32 <<< 8).toNat = hi.toNat * 256 := by
      rw [UInt32.toNat_shiftLeft]
      show hi.toNat <<< 8 % 2 ^ 32 = _
      rw [Nat.shiftLeft_eq]
      omega
    rw [words, List.sum_singleton] at h ⊢
    rw [sumWords, UInt32.toNat_add, hshift]
    omega
  | case3 sum => rfl

theorem foldCarries_folds (sum : UInt32) :
    Folds sum.toNat (foldCarries sum).toNat := by
  induction sum using foldCarries.induct with
  | case1 sum hend =>
    rw [foldCarries, if_pos hend]
    exact .refl ((shiftRight_zero_iff sum).mp hend)
  | case2 sum hcarry ih =>
    rw [foldCarries, if_neg hcarry]
    rw [carries_toNat] at ih
    exact ih.carry

theorem complement_toNat {f : UInt32} (h : f.toNat < 2 ^ 16) :
    (~~~f &&& (0xFFFF : UInt32)).toUInt16.toNat = 0xFFFF - f.toNat := by
  have hand : (~~~f &&& (0xFFFF : UInt32)).toNat
      = (2 ^ 32 - 1 - f.toNat) % 2 ^ 16 := by
    rw [UInt32.toNat_and, UInt32.toNat_not]
    exact Nat.and_two_pow_sub_one_eq_mod _ 16
  rw [UInt32.toNat_toUInt16, hand]
  omega

theorem words_be16 (v : UInt16) : words (be16 v) = [v.toNat] := by
  have hlt := v.toNat_lt
  show [(v >>> 8).toUInt8.toNat * 256 + v.toUInt8.toNat] = [v.toNat]
  rw [UInt16.toNat_toUInt8, UInt16.toNat_toUInt8, UInt16.toNat_shiftRight]
  show [v.toNat >>> 8 % 256 * 256 + v.toNat % 256] = [v.toNat]
  rw [Nat.shiftRight_eq_div_pow]
  congr 1
  omega

theorem words_be32 (v : UInt32) :
    words (be32 v) = [v.toNat / 2 ^ 16, v.toNat % 2 ^ 16] := by
  have hlt := v.toNat_lt
  show [(v >>> 24).toUInt8.toNat * 256 + (v >>> 16).toUInt8.toNat,
    (v >>> 8).toUInt8.toNat * 256 + v.toUInt8.toNat] = _
  simp only [UInt32.toNat_toUInt8, UInt32.toNat_shiftRight]
  show [v.toNat >>> 24 % 256 * 256 + v.toNat >>> 16 % 256,
    v.toNat >>> 8 % 256 * 256 + v.toNat % 256] = _
  simp only [Nat.shiftRight_eq_div_pow]
  congr 1
  · omega
  · congr 1
    omega

theorem be16At_field {pre : List UInt8} {off : Nat} (h : pre.length = off)
    (v : UInt16) (post : List UInt8) :
    Reads.be16At (pre ++ (be16 v ++ post)) off = .ok v := by
  subst h
  have hword : (v >>> 8).toUInt8.toUInt16 <<< 8 ||| v.toUInt8.toUInt16 = v := by
    have hnat := word_toNat (v >>> 8).toUInt8 v.toUInt8
    rw [UInt16.toNat_toUInt32] at hnat
    exact UInt16.toNat_inj.mp (hnat.trans (List.singleton_inj.mp (words_be16 v)))
  have hhi : Reads.byteAt (pre ++ (be16 v ++ post)) pre.length
      = .ok (v >>> 8).toUInt8 := by
    simp [Reads.byteAt, be16]
  have hlo : Reads.byteAt (pre ++ (be16 v ++ post)) (pre.length + 1)
      = .ok v.toUInt8 := by
    simp [Reads.byteAt, be16]
  unfold Reads.be16At
  rw [hhi, hlo]
  exact congrArg _ hword

theorem words_field {pre : List UInt8} (h : pre.length % 2 = 0)
    (c : UInt16) (post : List UInt8) :
    (words (pre ++ be16 c ++ post)).sum
      = (words (pre ++ be16 0 ++ post)).sum + c.toNat := by
  have hsum : ∀ c : UInt16, (words (pre ++ be16 c ++ post)).sum
      = (words pre).sum + (c.toNat + (words post).sum) := by
    intro c
    have hlen : (be16 c).length % 2 = 0 := by simp [be16]
    rw [List.append_assoc, words_append h, words_append hlen, words_be16,
      List.sum_append, List.sum_append, List.sum_singleton]
  rw [hsum, hsum]
  show _ = (words pre).sum + (0 + (words post).sum) + c.toNat
  omega

theorem words_sum_lt {data : List UInt8} (h : data.length < 2 ^ 16) :
    (words data).sum < 2 ^ 31 := by
  have hle := words_sum_le data
  omega

theorem checksum16_isChecksum {data : List UInt8}
    (h : data.length < 2 ^ 16) :
    IsChecksum (words data).sum (checksum16 data).toNat := by
  have hsum := words_sum_lt h
  have hfolds := foldCarries_folds (sumWords data 0)
  rw [sumWords_toNat (by rw [UInt32.toNat_zero]; omega), UInt32.toNat_zero,
    Nat.zero_add] at hfolds
  exact ⟨UInt16.toNat_lt _, _, hfolds, .inl (complement_toNat hfolds.lt)⟩

theorem pseudoSum_toNat (src dst : UInt32) (proto : UInt8) (len : UInt16) :
    (pseudoSum src dst proto len).toNat
      = (words (be32 src ++ be32 dst ++ [0, proto] ++ be16 len)).sum := by
  have hlow : ∀ v : UInt32,
      (v &&& (0xFFFF : UInt32)).toNat = v.toNat % 2 ^ 16 := by
    intro v
    rw [UInt32.toNat_and]
    exact Nat.and_two_pow_sub_one_eq_mod v.toNat 16
  have hhigh : ∀ v : UInt32, (v >>> 16).toNat = v.toNat / 2 ^ 16 := by
    intro v
    rw [UInt32.toNat_shiftRight]
    exact Nat.shiftRight_eq_div_pow ..
  have hlen : ∀ v : UInt32, (be32 v).length % 2 = 0 := by
    intro v
    simp [be32]
  have hproto : words [0, proto] = [proto.toNat] := by simp [words]
  have hword : ∀ v : UInt32, v.toNat / 2 ^ 16 < 2 ^ 16 ∧
      v.toNat % 2 ^ 16 < 2 ^ 16 := by
    intro v
    have hv := v.toNat_lt
    omega
  have hsrc := hword src
  have hdst := hword dst
  have hprotoLt := proto.toNat_lt
  have hlenLt := len.toNat_lt
  rw [List.append_assoc, List.append_assoc, words_append (hlen src),
    words_append (hlen dst), words_append (by simp), words_be32, words_be32,
    hproto, words_be16]
  unfold pseudoSum
  simp only [UInt32.toNat_add, hlow, hhigh, UInt8.toNat_toUInt32,
    UInt16.toNat_toUInt32, List.sum_append, List.sum_cons, List.sum_nil]
  generalize src.toNat / 2 ^ 16 = s1 at *
  generalize src.toNat % 2 ^ 16 = s0 at *
  generalize dst.toNat / 2 ^ 16 = d1 at *
  generalize dst.toNat % 2 ^ 16 = d0 at *
  simp (disch := omega) only [Nat.mod_eq_of_lt]
  omega

theorem transportChecksum_isChecksum (proto : UInt8) (src dst : UInt32)
    {data : List UInt8} (h : data.length < 2 ^ 16) :
    IsChecksum
      (words (be32 src ++ be32 dst ++ [0, proto]
        ++ be16 (UInt16.ofNat data.length) ++ data)).sum
      (transportChecksum proto src dst data).toNat ∧
    transportChecksum proto src dst data ≠ 0 := by
  have hpseudo := pseudoSum_toNat src dst proto (UInt16.ofNat data.length)
  have hlen : (be32 src ++ be32 dst ++ [0, proto]
      ++ be16 (UInt16.ofNat data.length)).length = 12 := by
    simp [be32, be16]
  have hsmall := words_sum_le (be32 src ++ be32 dst ++ [0, proto]
      ++ be16 (UInt16.ofNat data.length))
  have hsum := words_sum_lt h
  rw [words_append (by rw [hlen]), List.sum_append, ← hpseudo]
  rw [hlen, ← hpseudo] at hsmall
  have hfolds := foldCarries_folds (sumWords data
    (pseudoSum src dst proto (UInt16.ofNat data.length)))
  rw [sumWords_toNat (by omega)] at hfolds
  have hout := complement_toNat hfolds.lt
  unfold transportChecksum
  simp only []
  split
  · next hzero =>
    rw [hzero] at hout
    refine ⟨⟨by decide, _, hfolds, .inr ⟨?_, rfl⟩⟩, by decide⟩
    have hlt := hfolds.lt
    have hz : (0 : UInt16).toNat = 0 := rfl
    omega
  · next hzero =>
    exact ⟨⟨UInt16.toNat_lt _, _, hfolds, .inl hout⟩, hzero⟩

end sums

-- ==== what is sent

section sent

variable {mac dstMac : Mac} {ident : UInt16} {src dst : UInt32}
  {proto : UInt8} {payload : List UInt8}

theorem ipv4Header_verifies (ident totalLen : UInt16) (proto : UInt8)
    (src dst : UInt32) :
    Verifies (ipv4Header ident totalLen proto
      (checksum16 (ipv4Header ident totalLen proto 0 src dst)) src dst) := by
  have hsum : ∀ c, (words (ipv4Header ident totalLen proto c src dst)).sum
      = (words (ipv4Header ident totalLen proto 0 src dst)).sum
        + c.toNat := by
    intro c
    unfold ipv4Header
    rw [List.append_assoc _ (be32 src), List.append_assoc _ (be32 src)]
    exact words_field (by simp [be16]) c _
  refine (checksum16_isChecksum ?_).verifies (hsum _)
  simp [ipv4Header, be16, be32]

theorem sendIpv4PacketFrom_carries (mac dstMac : Mac) (ident : UInt16)
    (src dst : UInt32) (proto : UInt8)
    (h : payload.length ≤ maxIpv4Payload) :
    ∃ frame header,
      sendIpv4PacketFrom mac dstMac ident src dst proto payload
        = some frame ∧
      CarriesIpv4 frame header payload ∧
      ∀ len, pseudoHeader header len
        = be32 src ++ be32 dst ++ [0, proto] ++ be16 (UInt16.ofNat len) := by
  unfold sendIpv4PacketFrom
  rw [if_neg (by omega)]
  refine ⟨_, _, rfl, ⟨⟨_, _, rfl, ?_, rfl⟩,
    ipv4Header_verifies ident _ proto src dst, _,
    @be16At_field [0x45, 0] 2 rfl _ _, ?_⟩, fun len => rfl⟩
  · rw [List.length_append, List.length_append, dstMac.property,
      mac.property]
    rfl
  · have hmax : payload.length ≤ 1480 := h
    show (UInt16.ofNat (20 + payload.length)).toNat = 20 + payload.length
    rw [UInt16.toNat_ofNat']
    exact Nat.mod_eq_of_lt (by omega)

theorem transport_verifies {proto : UInt8} {src dst : UInt32}
    {pre post header : List UInt8} (hpre : pre.length % 2 = 0)
    (hlen : (pre ++ be16 0 ++ post).length < 2 ^ 16)
    (hheader : ∀ len, pseudoHeader header len
      = be32 src ++ be32 dst ++ [0, proto] ++ be16 (UInt16.ofNat len)) :
    VerifiesBehind header (pre
      ++ be16 (transportChecksum proto src dst (pre ++ be16 0 ++ post))
      ++ post) := by
  have hsame : ∀ c, (pre ++ be16 c ++ post).length
      = (pre ++ be16 0 ++ post).length := by
    intro c
    simp [be16]
  have heven : (be32 src ++ be32 dst ++ [0, proto] ++ be16
      (UInt16.ofNat (pre ++ be16 0 ++ post).length)).length % 2 = 0 := by
    simp [be32, be16]
  obtain ⟨hcheck, -⟩ := transportChecksum_isChecksum proto src dst hlen
  unfold VerifiesBehind
  rw [hheader, hsame]
  refine hcheck.verifies ?_
  rw [words_append heven, words_append heven, List.sum_append,
    List.sum_append, words_field hpre]
  omega

theorem sendUdpDatagram_verifies {srcPort dstPort : UInt16}
    (hsrc : srcPort ≠ 0) (hdst : dstPort ≠ 0)
    (h : payload.length ≤ udpPayloadMax)
    (hdhcp : ¬(srcPort = dhcpClientPort ∧ dstPort = dhcpServerPort)) :
    ∃ frame header udp,
      sendUdpDatagram mac dstMac ident src dst srcPort dstPort payload
        = some frame ∧
      CarriesIpv4 frame header udp ∧ UdpVerifies header udp payload := by
  have hmax : payload.length ≤ 1472 := h
  generalize hlen : UInt16.ofNat (udpHeaderLen + payload.length) = len
  have hlenNat : len.toNat = 8 + payload.length := by
    rw [← hlen, UInt16.toNat_ofNat']
    exact Nat.mod_eq_of_lt (by show 8 + payload.length < 2 ^ 16; omega)
  let c := udpChecksum src dst (udpHeader srcPort dstPort len 0 ++ payload)
  have hsize : ∀ c, (udpHeader srcPort dstPort len c ++ payload).length
      = 8 + payload.length := by
    intro c
    simp [udpHeader, be16]
    omega
  obtain ⟨frame, header, hframe, hcarries, hheader⟩ :=
    @sendIpv4PacketFrom_carries (udpHeader srcPort dstPort len c ++ payload)
      mac dstMac ident src dst protoUdp
      (by rw [hsize]; show 8 + payload.length ≤ 1480; omega)
  have hverifies := @transport_verifies protoUdp src dst
    (be16 srcPort ++ be16 dstPort ++ be16 len) payload header
    (by simp [be16]) (hsize 0 ▸ by omega) hheader
  refine ⟨frame, header, udpHeader srcPort dstPort len c ++ payload, ?_,
    hcarries, rfl, hverifies, ⟨len, ?_, ?_⟩, c, ?_, ?_⟩
  · unfold sendUdpDatagram
    rw [if_neg (by simp [hsrc, hdst, h]), hlen]
    simp only []
    rw [if_neg hdhcp]
    exact hframe
  · exact @be16At_field (be16 srcPort ++ be16 dstPort) 4 rfl _ _
  · rw [hsize, hlenNat]
  · exact @be16At_field (be16 srcPort ++ be16 dstPort ++ be16 len) 6 rfl _ _
  · exact (transportChecksum_isChecksum protoUdp src dst
      (by rw [hsize]; omega)).2

theorem synOption_length (flags : UInt16) :
    (synOption flags).length = 0 ∨ (synOption flags).length = 4 := by
  unfold synOption
  split
  · exact .inr rfl
  · exact .inl rfl

theorem dataOffset_toNat {words : Nat} (h : words < 16) (flags : UInt16) :
    ((UInt16.ofNat words <<< 12 ||| (flags &&& 0x01FF)) >>> 12).toNat
      = words := by
  have hflags : (flags &&& 0x01FF).toNat < 2 ^ 12 := by
    have hand : (flags &&& 0x01FF).toNat = flags.toNat % 2 ^ 9 := by
      rw [UInt16.toNat_and]
      exact Nat.and_two_pow_sub_one_eq_mod flags.toNat 9
    omega
  have hshift : (UInt16.ofNat words <<< 12).toNat = words <<< 12 := by
    rw [UInt16.toNat_shiftLeft, UInt16.toNat_ofNat']
    show (words % 2 ^ 16) <<< 12 % 2 ^ 16 = _
    rw [Nat.shiftLeft_eq, Nat.shiftLeft_eq]
    omega
  rw [UInt16.toNat_shiftRight, UInt16.toNat_or, hshift]
  show (words <<< 12 ||| _) >>> 12 = words
  rw [← Nat.shiftLeft_add_eq_or_of_lt hflags, Nat.shiftRight_eq_div_pow,
    Nat.shiftLeft_eq]
  omega

theorem sendTcpSegmentRaw_verifies {srcPort dstPort flags : UInt16}
    {seq ack : UInt32} {recvCount : Nat} (hsrc : srcPort ≠ 0)
    (hdst : dstPort ≠ 0)
    (h : tcpHeaderMinLen + (synOption flags).length + payload.length
      ≤ maxIpv4Payload) :
    ∃ frame header tcp,
      sendTcpSegmentRaw mac dstMac ident src dst srcPort dstPort seq ack
          flags recvCount payload
        = some frame ∧
      CarriesIpv4 frame header tcp ∧ TcpVerifies header tcp payload := by
  have hmax : 20 + (synOption flags).length + payload.length ≤ 1480 := h
  have hmin : tcpHeaderMinLen = 20 := rfl
  have hopt := synOption_length flags
  let window :=
    UInt16.ofNat (min tcpDefaultWindow (tcpRecvCap - recvCount))
  let offset := UInt16.ofNat ((tcpHeaderMinLen + (synOption flags).length) / 4)
    <<< 12 ||| (flags &&& 0x01FF)
  let front := be16 srcPort ++ be16 dstPort ++ be32 seq ++ be32 ack
    ++ be16 offset ++ be16 window
  let rest := be16 0 ++ synOption flags ++ payload
  have hfield : ∀ c, tcpHeader srcPort dstPort seq ack flags window c ++ payload
      = front ++ be16 c ++ rest :=
    fun c => by
      unfold tcpHeader
      simp only [front, rest, offset, List.append_assoc]
  have hsize : ∀ c, (front ++ be16 c ++ rest).length
      = 20 + (synOption flags).length + payload.length := by
    intro c
    simp [front, rest, be16, be32]
    omega
  have hcheck : tcpChecksum src dst (front ++ be16 0 ++ rest)
      = transportChecksum protoTcp src dst (front ++ be16 0 ++ rest) := by
    unfold tcpChecksum
    rw [if_neg]
    intro hnil
    have hlen := hsize 0
    rw [hnil] at hlen
    have hz : ([] : List UInt8).length = 0 := rfl
    omega
  generalize hc : transportChecksum protoTcp src dst (front ++ be16 0 ++ rest)
    = c at hcheck
  obtain ⟨frame, header, hframe, hcarries, hheader⟩ :=
    @sendIpv4PacketFrom_carries (front ++ be16 c ++ rest)
      mac dstMac ident src dst protoTcp
      (by rw [hsize]; exact hmax)
  have hverifies := @transport_verifies protoTcp src dst front rest header
    (by simp [front, be16, be32]) (by rw [hsize]; omega) hheader
  rw [hc] at hverifies
  have hoffset : (offset >>> 12).toNat * 4
      = tcpHeaderMinLen + (synOption flags).length := by
    rw [dataOffset_toNat (by omega)]
    omega
  refine ⟨frame, header, front ++ be16 c ++ rest, ?_, hcarries, hverifies,
    offset, ?_, ?_⟩
  · unfold sendTcpSegmentRaw
    rw [if_neg (by simp [hsrc, hdst]; omega)]
    simp only []
    rw [hfield 0, hcheck, hfield]
    exact hframe
  · have hread := @be16At_field (be16 srcPort ++ be16 dstPort ++ be32 seq
      ++ be32 ack) 12 (by simp [be16, be32]) offset
      (be16 window ++ be16 c ++ rest)
    rw [← hread]
    simp only [front, List.append_assoc]
  · have hdrop : front ++ be16 c ++ rest
        = (front ++ be16 c ++ be16 0 ++ synOption flags) ++ payload := by
      simp only [rest, List.append_assoc]
    rw [hoffset, hdrop, List.drop_left']
    simp [front, be16, be32]
    omega

theorem sendIcmpEcho_verifies {type : UInt8} {pingIdent seq : UInt16}
    (h : payload.length ≤ echoPayloadMax) :
    ∃ frame header icmp,
      sendIcmpEcho mac dstMac ident src dst type pingIdent seq payload
        = some frame ∧
      CarriesIpv4 frame header icmp ∧ IcmpVerifies icmp payload := by
  have hmax : payload.length ≤ 64 := h
  let c := checksum16 (icmpEchoHeader type 0 pingIdent seq ++ payload)
  have hsize : ∀ c, (icmpEchoHeader type c pingIdent seq ++ payload).length
      = 8 + payload.length := by
    intro c
    simp [icmpEchoHeader, be16]
    omega
  obtain ⟨frame, header, hframe, hcarries, -⟩ :=
    @sendIpv4PacketFrom_carries
      (icmpEchoHeader type c pingIdent seq ++ payload)
      mac dstMac ident src dst protoIcmp
      (by rw [hsize]; show 8 + payload.length ≤ 1480; omega)
  refine ⟨frame, header, icmpEchoHeader type c pingIdent seq ++ payload, ?_,
    hcarries, rfl, ?_⟩
  · unfold sendIcmpEcho
    rw [if_neg (by omega)]
    exact hframe
  · have hfield : ∀ c, icmpEchoHeader type c pingIdent seq ++ payload
        = [type, 0] ++ be16 c ++ (be16 pingIdent ++ be16 seq ++ payload) :=
      fun c => rfl
    refine (checksum16_isChecksum (by rw [hsize 0]; omega)).verifies ?_
    rw [hfield, hfield]
    exact words_field (by simp) c _

/-- What is sent verifies, whatever its length, and says how long it is. -/
theorem sent_verifies (mac dstMac : Mac) (ident : UInt16)
    (src dst : UInt32) (payload : List UInt8) :
    (∀ proto, payload.length ≤ maxIpv4Payload → ∃ frame header,
      sendIpv4PacketFrom mac dstMac ident src dst proto payload
        = some frame ∧
      CarriesIpv4 frame header payload) ∧
    (∀ srcPort dstPort, srcPort ≠ 0 → dstPort ≠ 0 →
      payload.length ≤ udpPayloadMax →
      ¬(srcPort = dhcpClientPort ∧ dstPort = dhcpServerPort) →
      ∃ frame header udp,
        sendUdpDatagram mac dstMac ident src dst srcPort dstPort payload
          = some frame ∧
        CarriesIpv4 frame header udp ∧ UdpVerifies header udp payload) ∧
    (∀ srcPort dstPort seq ack flags recvCount, srcPort ≠ 0 → dstPort ≠ 0 →
      tcpHeaderMinLen + (synOption flags).length + payload.length
        ≤ maxIpv4Payload →
      ∃ frame header tcp,
        sendTcpSegmentRaw mac dstMac ident src dst srcPort dstPort seq ack
            flags recvCount payload
          = some frame ∧
        CarriesIpv4 frame header tcp ∧ TcpVerifies header tcp payload) ∧
    ∀ type pingIdent seq, payload.length ≤ echoPayloadMax →
      ∃ frame header icmp,
        sendIcmpEcho mac dstMac ident src dst type pingIdent seq payload
          = some frame ∧
        CarriesIpv4 frame header icmp ∧ IcmpVerifies icmp payload := by
  refine ⟨fun proto h => ?_, ?_, ?_, ?_⟩
  · obtain ⟨frame, header, hframe, hcarries, -⟩ :=
      sendIpv4PacketFrom_carries mac dstMac ident src dst proto h
    exact ⟨frame, header, hframe, hcarries⟩
  · exact fun srcPort dstPort hsrc hdst h hdhcp =>
      sendUdpDatagram_verifies hsrc hdst h hdhcp
  · exact fun srcPort dstPort seq ack flags recvCount hsrc hdst h =>
      sendTcpSegmentRaw_verifies hsrc hdst h
  · exact fun type pingIdent seq h => sendIcmpEcho_verifies h

/-- A datagram of an odd length. -/
theorem sent_verifies_odd : ∃ frame header udp,
    sendUdpDatagram macBroadcast macBroadcast 7 0x0A00020F 0x01010101 4096 53
        [1, 2, 3] = some frame ∧
      CarriesIpv4 frame header udp ∧ UdpVerifies header udp [1, 2, 3] :=
  (sent_verifies macBroadcast macBroadcast 7 0x0A00020F 0x01010101
    [1, 2, 3]).2.1 4096 53 (by decide) (by decide) (by decide) (by decide)

end sent

end Clks.Net
