import Lyr.Lib.Reader
import Lyr.Net.Resolve
import Lyr.Net.Stack

set_option autoImplicit false

namespace Lyr.Net

open Lyr.Lib Function

abbrev Frame := List UInt8
abbrev Rx (α : Type) := Except (ReadFault NetFault) α

-- What a receive uses of a netdev_t besides NetDev. rx_queue has the oldest frame first.
structure Link where
  mac : Mac
  loopback : Bool
  dnsServer : UInt32
  rxQueue : List Frame
  rxDropped : Nat
  rxPackets : Nat

structure Dhcp where
  xid : UInt32
  offeredIp : UInt32
  serverIp : UInt32
  netmask : UInt32
  gateway : UInt32
  dnsServer : UInt32
  seenType : UInt8
  ready : Bool

structure PingResult where
  srcIp : UInt32
  seq : UInt16
  bytes : UInt16
  ttl : UInt8
  timeMs : Nat

structure Ping where
  dev : Option Nat
  ident : UInt16
  seq : UInt16
  src : UInt32
  startedTick : Nat
  ready : Bool
  result : PingResult

-- The rx_len bytes of rx_buf, and where they came from.
structure Held where
  rxBuf : List UInt8
  rxHead : Nat
  packetSrcIp : UInt32
  packetSrcPort : UInt16
  readable : Bool

-- hz is the rate of the timer.
structure Inet where
  stack : Stack
  links : Nat → Link
  arp : Arp
  dns : Dns
  dhcp : Dhcp
  ping : Ping
  held : Nat → Held
  hz : Nat

def NET_ETH_FRAME_MAX : Nat := 1518
def NETDEV_RX_QUEUE_LEN : Nat := 16
def ETH_P_IP : UInt16 := 0x0800
def ETH_P_ARP : UInt16 := 0x0806
def IP_PROTO_ICMP : UInt8 := 1
def IP_PROTO_TCP : UInt8 := 6
def IP_PROTO_UDP : UInt8 := 17

def ETH_HDR : Nat := 14
def ARP_PKT : Nat := 28
def IPV4_HDR : Nat := 20
def ICMP_ECHO : Nat := 40
def UDP_HDR : Nat := 8
def TCP_HDR : Nat := 20

def macOf (bytes : List UInt8) : Mac := BitVec.ofNat 48 (bytes.foldl (fun mac byte => mac * 256 + byte.toNat) 0)

variable (s : Inet)

def Inet.setLink (dev : Nat) (link : Link) : Inet := { s with links := update s.links dev link }
def Inet.setHeld (sock : Nat) (held : Held) : Inet := { s with held := update s.held sock held }

def netdevEnqueueRx (dev : Nat) (frame : Frame) : Rx Inet :=
  let link := s.links dev
  if frame.length = 0 ∨ frame.length > NET_ETH_FRAME_MAX then .ok s
  else if link.rxQueue.length = NETDEV_RX_QUEUE_LEN then .ok (s.setLink dev { link with rxDropped := link.rxDropped + 1 })
  else do
    let copy ← bytesAt frame 0 frame.length
    .ok (s.setLink dev { link with rxQueue := link.rxQueue ++ [copy], rxPackets := link.rxPackets + 1 })

def arpReplied (sender : ArpKey) (mac : Mac) (now : Nat) : Inet := match arpStep s.arp (.reply sender mac now) with
  | .ok arp => { s with arp }

def netArpReceive (dev : Nat) (frame : Frame) (arp now : Nat) : Rx Inet := do
  let oper ← be16At frame (arp + 6)
  if oper ≠ 2 then .ok s
  else do
    let spa ← be32At frame (arp + 14)
    let sha ← bytesAt frame (arp + 8) 6
    .ok (arpReplied s ⟨dev, spa⟩ (macOf sha) now)

-- net_ipv4_rx_info_t; the IP header is at ETH_HDR.
structure Ipv4Rx where
  dev : Nat
  ihl : Nat
  ipLen : Nat
  deriving DecidableEq, Repr

-- net_udp_dgram_t; payload is a position in the frame.
structure UdpDgram where
  dev : Nat
  payload : Nat
  udpLen : Nat
  payloadLen : Nat
  srcIp : UInt32
  dstIp : UInt32
  srcPort : UInt16
  dstPort : UInt16
  deriving DecidableEq, Repr

-- DHCP. sizeof(dhcp_pkt_t) without its options is 240.

def DHCP_PKT : Nat := 240
def DHCP_MAGIC : UInt32 := 0x63825363

structure DhcpOptions where
  type : UInt8
  server : UInt32
  mask : UInt32
  gateway : UInt32
  dns : UInt32
  deriving DecidableEq, Repr

variable (frame : Frame)

def dhcpValue (v : Nat) (code : UInt8) (len : Nat) (options : DhcpOptions) : Rx DhcpOptions :=
  if code = 53 ∧ len ≥ 1 then do
    let type ← byteAt frame v
    .ok { options with type }
  else if (code = 54 ∨ code = 1 ∨ code = 3 ∨ code = 6) ∧ len ≥ 4 then do
    let value ← be32At frame v
    if code = 54 then .ok { options with server := value }
    else if code = 1 then .ok { options with mask := value }
    else if code = 3 then .ok { options with gateway := value }
    else .ok { options with dns := value }
  else .ok options

-- base is the position of pkt->options.
def dhcpOption (base optLen : Nat) (state : Nat × DhcpOptions) : Rx ((Nat × DhcpOptions) ⊕ DhcpOptions) :=
  let pos := state.1
  if pos ≥ optLen then .ok (.inr state.2)
  else do
    let code ← byteAt frame (base + pos)
    if code = 0 then .ok (.inl (pos + 1, state.2))
    else if code = 255 ∨ pos + 1 ≥ optLen then .ok (.inr state.2)
    else do
      let len ← byteAt frame (base + pos + 1)
      if pos + 2 + len.toNat > optLen then .ok (.inr state.2)
      else do
        let options ← dhcpValue frame (base + pos + 2) code len.toNat state.2
        .ok (.inl (pos + 2 + len.toNat, options))

variable (dgram : UdpDgram)

def dhcpOffered : Rx Inet := do
  let optLen := dgram.payloadLen - DHCP_PKT
  let options ← walk (dhcpOption frame (dgram.payload + DHCP_PKT) optLen) (optLen + 1) (0, ⟨0, 0, 0, 0, 0⟩)
  if options.type ≠ 2 ∧ options.type ≠ 5 then .ok s
  else do
    let yiaddr ← be32At frame (dgram.payload + 16)
    let dhcp := { s.dhcp with
      offeredIp := yiaddr, serverIp := options.server, netmask := options.mask, gateway := options.gateway
      dnsServer := options.dns, seenType := options.type, ready := true }
    .ok { s with dhcp }

-- Here and below compared fields are read before the condition, also where the source stops at the first that differs.
def dhcpUdpReceive : Rx Inet :=
  if dgram.udpLen < UDP_HDR + DHCP_PKT then .ok s
  else if dgram.srcPort ≠ 67 ∨ dgram.dstPort ≠ 68 then .ok s
  else if dgram.payloadLen < DHCP_PKT then .ok s
  else do
    let xid ← be32At frame (dgram.payload + 4)
    let magic ← be32At frame (dgram.payload + 236)
    let op ← byteAt frame dgram.payload
    let chaddr ← bytesAt frame (dgram.payload + 28) 6
    if xid ≠ s.dhcp.xid ∨ magic ≠ DHCP_MAGIC ∨ op ≠ 2 ∨ macOf chaddr ≠ (s.links dgram.dev).mac then .ok s
    else dhcpOffered s frame dgram

-- DNS

def DNS_PORT : UInt16 := 53
def DNS_HDR : Nat := 12

-- One turn of dns_skip_name; none is -EINVAL.
def dnsLabel (msg len p : Nat) : Rx (Nat ⊕ Option Nat) :=
  if p ≥ len then .ok (.inr none)
  else do
    let n ← byteAt frame (msg + p)
    if n = 0 then .ok (.inr (some (p + 1)))
    else if n &&& 0xc0 = 0xc0 then
      if p + 1 ≥ len then .ok (.inr none) else .ok (.inr (some (p + 2)))
    else if n &&& 0xc0 ≠ 0 ∨ p + 1 + n.toNat > len then .ok (.inr none)
    else .ok (.inl (p + 1 + n.toNat))

def dnsSkipName (msg len pos : Nat) : Rx (Option Nat) := walk (dnsLabel frame msg len) (len + 1) pos

def dnsQuestions (frame : Frame) (msg len : Nat) : Nat → Nat → Rx (Option Nat)
  | 0, pos => .ok (some pos)
  | count + 1, pos => do
    match ← dnsSkipName frame msg len pos with
    | none => .ok none
    | some p => if p + 4 > len then .ok none else dnsQuestions frame msg len count (p + 4)

def dnsAnswers (frame : Frame) (msg len : Nat) : Nat → Nat → Rx (Option UInt32)
  | 0, _ => .ok none
  | count + 1, pos => do
    match ← dnsSkipName frame msg len pos with
    | none => .ok none
    | some p =>
      if p + 10 > len then .ok none
      else do
        let type ← be16At frame (msg + p)
        let klass ← be16At frame (msg + p + 2)
        let rdlen ← be16At frame (msg + p + 8)
        if p + 10 + rdlen.toNat > len then .ok none
        else if type = 1 ∧ klass = 1 ∧ rdlen = 4 then do
          let ip ← be32At frame (msg + p + 10)
          .ok (some ip)
        else dnsAnswers frame msg len count (p + 10 + rdlen.toNat)

def dnsResponded (dev : Nat) (dstPort id : UInt16) (ip : UInt32) : Inet := match dnsStep s.dns (.response dev dstPort id ip) with
  | .ok dns => { s with dns }

def dnsRecords (id : UInt16) : Rx Inet := do
  let qd ← be16At frame (dgram.payload + 4)
  let an ← be16At frame (dgram.payload + 6)
  match ← dnsQuestions frame dgram.payload dgram.payloadLen qd.toNat DNS_HDR with
  | none => .ok s
  | some pos => do
    match ← dnsAnswers frame dgram.payload dgram.payloadLen an.toNat pos with
    | none => .ok s
    | some ip => .ok (dnsResponded s dgram.dev dgram.dstPort id ip)

def dnsUdpReceive : Rx Inet := match s.dns.desk.key with
  | none => .ok s
  | some key =>
    if dgram.dev ≠ key.dev ∨ dgram.srcPort ≠ DNS_PORT ∨ dgram.dstPort ≠ key.port then .ok s
    else if dgram.udpLen < UDP_HDR + DNS_HDR then .ok s
    else do
      let id ← be16At frame dgram.payload
      let flags ← be16At frame (dgram.payload + 2)
      if id ≠ key.id ∨ flags &&& 0x8000 = 0 then .ok s else dnsRecords s frame dgram id

-- Datagram and raw sockets

def netUdpPeerMatches (link : Link) (requestedIp : UInt32) (requestedPort : UInt16) (srcIp : UInt32) (srcPort : UInt16) : Bool :=
  (requestedPort == 53 && srcPort == 53 && (srcIp == requestedIp || (link.dnsServer != 0 && srcIp == link.dnsServer))) ||
    (requestedIp == srcIp && requestedPort == srcPort)

def takesDgram (sock : Socket) : Bool := sock.domain == .inet && sock.type == .dgram && sock.inet.any (fun is =>
  is.localPort == dgram.dstPort && (is.localIp == 0 || is.localIp == dgram.dstIp) &&
    (!sock.connected || netUdpPeerMatches (s.links dgram.dev) is.remoteIp is.remotePort dgram.srcIp dgram.srcPort))

-- The first match gets it, unless it still holds one.
def socketUdpReceive : Rx Inet :=
  match s.stack.socketList.find? (fun id => (s.stack.sockets id).any (takesDgram s dgram)) with
  | none => .ok s
  | some id =>
    if (s.held id).rxBuf.length ≠ 0 then .ok s
    else do
      let payload ← bytesAt frame dgram.payload (min dgram.payloadLen SOCKET_BUF_SIZE)
      .ok (s.setHeld id
        { rxBuf := payload, rxHead := 0, packetSrcIp := dgram.srcIp, packetSrcPort := dgram.srcPort, readable := true })

def takesRaw (srcIp dstIp : UInt32) (sock : Socket) : Bool := sock.domain == .inet && sock.type == .raw && sock.protocol == 1 &&
  sock.inet.any (fun is => (is.localIp == 0 || is.localIp == dstIp) && (!sock.connected || is.remoteIp == srcIp))

-- ip_len is cut to the size of the buffer once and stays so.
def rawDeliver (frame : Frame) (srcIp dstIp : UInt32) : Inet → Nat → List Nat → Rx Inet
  | s, _, [] => .ok s
  | s, ipLen, id :: rest =>
    if (s.stack.sockets id).any (takesRaw srcIp dstIp) then
      if (s.held id).rxBuf.length ≠ 0 then rawDeliver frame srcIp dstIp s (min ipLen SOCKET_BUF_SIZE) rest
      else do
        let packet ← bytesAt frame ETH_HDR (min ipLen SOCKET_BUF_SIZE)
        rawDeliver frame srcIp dstIp
          (s.setHeld id { rxBuf := packet, rxHead := 0, packetSrcIp := srcIp, packetSrcPort := 0, readable := true })
          (min ipLen SOCKET_BUF_SIZE) rest
    else rawDeliver frame srcIp dstIp s ipLen rest

variable (rx : Ipv4Rx)

-- Our own echo request coming back over loopback is not for the raw sockets.
def netSocketRawIcmpReceive : Rx Inet := do
  let srcIp ← be32At frame (ETH_HDR + 12)
  let dstIp ← be32At frame (ETH_HDR + 16)
  if rx.ipLen ≥ rx.ihl + ICMP_ECHO then do
    let type ← byteAt frame (ETH_HDR + rx.ihl)
    if (s.links rx.dev).loopback ∧ srcIp = dstIp ∧ type = 8 then .ok s
    else rawDeliver frame srcIp dstIp s rx.ipLen s.stack.socketList
  else rawDeliver frame srcIp dstIp s rx.ipLen s.stack.socketList

-- ICMP

-- send_icmp_echo_packet reads the request's payload.
def icmpEchoReply (icmp : Nat) : Rx Inet := do
  let _dst ← be32At frame (ETH_HDR + 16)
  let _src ← be32At frame (ETH_HDR + 12)
  let _ident ← be16At frame (icmp + 4)
  let _seq ← be16At frame (icmp + 6)
  let _payload ← bytesAt frame (icmp + 8) 32
  .ok s

def icmpPingReply (type : UInt8) (icmp now : Nat) : Rx Inet := do
  let ident ← be16At frame (icmp + 4)
  let seq ← be16At frame (icmp + 6)
  let src ← be32At frame (ETH_HDR + 12)
  if type = 0 ∧ ident = s.ping.ident ∧ seq = s.ping.seq ∧ src = s.ping.src then do
    let ttl ← byteAt frame (ETH_HDR + 8)
    let elapsed := now - s.ping.startedTick
    .ok { s with ping := { s.ping with ready := true
                                       result := { srcIp := src, seq, bytes := UInt16.ofNat (rx.ipLen - rx.ihl), ttl
                                                   timeMs := if s.hz = 0 then 0 else elapsed * 1000 / s.hz } } }
  else .ok s

def icmpIpv4Receive (now : Nat) : Rx Inet := do
  let dst ← be32At frame (ETH_HDR + 16)
  if dst ≠ (s.stack.devs rx.dev).ipv4Addr then .ok s
  else if rx.ipLen < rx.ihl + ICMP_ECHO then .ok s
  else do
    let s ← netSocketRawIcmpReceive s frame rx
    let type ← byteAt frame (ETH_HDR + rx.ihl)
    if type = 8 then icmpEchoReply s frame (ETH_HDR + rx.ihl)
    else if s.ping.dev ≠ some rx.dev then .ok s
    else icmpPingReply s frame rx type (ETH_HDR + rx.ihl) now

-- UDP

def netUdpDeliver : Rx Inet := do
  let s ← dhcpUdpReceive s frame dgram
  let s ← dnsUdpReceive s frame dgram
  socketUdpReceive s frame dgram

def udpIpv4Receive : Rx Inet :=
  let udp := ETH_HDR + rx.ihl
  if rx.ipLen < rx.ihl + UDP_HDR then .ok s
  else do
    let len ← be16At frame (udp + 4)
    if len.toNat < UDP_HDR ∨ rx.ihl + len.toNat > rx.ipLen then .ok s
    else do
      let srcIp ← be32At frame (ETH_HDR + 12)
      let dstIp ← be32At frame (ETH_HDR + 16)
      let srcPort ← be16At frame udp
      let dstPort ← be16At frame (udp + 2)
      netUdpDeliver s frame { dev := rx.dev, payload := udp + UDP_HDR, udpLen := len.toNat, payloadLen := len.toNat - UDP_HDR
                              srcIp, dstIp, srcPort, dstPort }

-- TCP

-- The position of opt, the bytes left, and what was found.
def tcpOption (state : Nat × Nat × SynOptions) : Rx ((Nat × Nat × SynOptions) ⊕ SynOptions) :=
  let opt := state.1
  let left := state.2.1
  let options := state.2.2
  if left = 0 then .ok (.inr options)
  else do
    let kind ← byteAt frame opt
    if kind = 0 then .ok (.inr options)
    else if kind = 1 then .ok (.inl (opt + 1, left - 1, options))
    else if left < 2 then .ok (.inr options)
    else do
      let len ← byteAt frame (opt + 1)
      if len < 2 ∨ len.toNat > left then .ok (.inr options)
      else if kind = 3 ∧ len = 3 then do
        let shift ← byteAt frame (opt + 2)
        .ok (.inl (opt + len.toNat, left - len.toNat, { options with wscale := some shift }))
      else if kind = 4 ∧ len = 2 then .ok (.inl (opt + len.toNat, left - len.toNat, { options with sack := true }))
      else .ok (.inl (opt + len.toNat, left - len.toNat, options))

def tcpParseSynOptions (tcp hlen : Nat) : Rx SynOptions :=
  if hlen ≤ TCP_HDR then .ok ⟨none, false⟩
  else walk (tcpOption frame) (hlen - TCP_HDR + 1) (tcp + TCP_HDR, hlen - TCP_HDR, ⟨none, false⟩)

def tcpDeliver (seg : TcpSegment) (env : RxEnv) : Rx Inet := match tcpReceive s.stack seg env with
  | .error fault => .error (.other fault)
  | .ok stack => .ok { s with stack }

def tcpSendReset (tcp : Nat) : Rx Inet := do
  let _seq ← be32At frame (tcp + 4)
  let _ack ← be32At frame (tcp + 8)
  let _srcMac ← bytesAt frame 6 6
  .ok s

-- The header length is taken as the segment gives it.
def tcpListenSyn (tcp : Nat) (key : TcpKey) (dst : UInt32) (flags : UInt8) (env : RxEnv) : Rx Inet := do
  let seq ← be32At frame (tcp + 4)
  let _srcMac ← bytesAt frame 6 6
  let dataOff ← byteAt frame (tcp + 12)
  let options ← tcpParseSynOptions frame tcp ((dataOff >>> 4).toNat * 4)
  tcpDeliver s { dev := key.dev, src := key.remoteIp, dst, srcPort := key.remotePort, dstPort := key.localPort, seq, ack := 0, flags
                 options, payload := [] } env

def tcpNoConn (tcp : Nat) (key : TcpKey) (env : RxEnv) : Rx Inet := do
  let dst ← be32At frame (ETH_HDR + 16)
  let flags ← byteAt frame (tcp + 13)
  match tcpListenerFind dst key.localPort s.stack.tcpListeners none with
  | none => tcpSendReset s frame tcp
  | some _ => if flags &&& 0x02 ≠ 0 then tcpListenSyn s frame tcp key dst flags env else .ok s

-- Read whether or not the connection takes them.
def tcpToConn (tcp : Nat) (key : TcpKey) (env : RxEnv) : Rx Inet := do
  let dataOff ← byteAt frame (tcp + 12)
  let hlen := (dataOff >>> 4).toNat * 4
  if hlen < TCP_HDR ∨ rx.ipLen < rx.ihl + hlen then .ok s
  else do
    let dst ← be32At frame (ETH_HDR + 16)
    let flags ← byteAt frame (tcp + 13)
    let seq ← be32At frame (tcp + 4)
    let ack ← be32At frame (tcp + 8)
    let options ← tcpParseSynOptions frame tcp hlen
    let payload ← bytesAt frame (tcp + hlen) (rx.ipLen - rx.ihl - hlen)
    tcpDeliver s { dev := key.dev, src := key.remoteIp, dst, srcPort := key.remotePort, dstPort := key.localPort, seq, ack, flags
                   options, payload } env

def netTcpReceive (env : RxEnv) : Rx Inet :=
  let tcp := ETH_HDR + rx.ihl
  if rx.ipLen < rx.ihl + TCP_HDR then .ok s
  else do
    let src ← be32At frame (ETH_HDR + 12)
    let srcPort ← be16At frame tcp
    let dstPort ← be16At frame (tcp + 2)
    match tcpConnFind s.stack ⟨rx.dev, src, srcPort, dstPort⟩ with
    | none => tcpNoConn s frame tcp ⟨rx.dev, src, srcPort, dstPort⟩ env
    | some _ => tcpToConn s frame rx tcp ⟨rx.dev, src, srcPort, dstPort⟩ env

def netIpv4Receive (env : RxEnv) : Rx Inet := do
  let proto ← byteAt frame (ETH_HDR + 9)
  if proto = IP_PROTO_UDP then udpIpv4Receive s frame rx
  else if proto = IP_PROTO_ICMP then icmpIpv4Receive s frame rx env.ticks
  else if proto = IP_PROTO_TCP then netTcpReceive s frame rx env
  else .ok s

def netReceiveIpv4 (dev : Nat) (frame : Frame) (env : RxEnv) : Rx Inet := do
  let verIhl ← byteAt frame ETH_HDR
  let ihl := (verIhl &&& 0x0f).toNat * 4
  if ihl < IPV4_HDR ∨ frame.length < ETH_HDR + ihl then .ok s
  else do
    let ipLen ← be16At frame (ETH_HDR + 2)
    if ipLen.toNat < ihl ∨ frame.length < ETH_HDR + ipLen.toNat then .ok s
    else netIpv4Receive s frame ⟨dev, ihl, ipLen.toNat⟩ env

def netReceiveFrame (dev : Nat) (frame : Frame) (env : RxEnv) : Rx Inet :=
  if frame.length < ETH_HDR then .ok s
  else do
    let s ← netdevEnqueueRx s dev frame
    let type ← be16At frame 12
    if type = ETH_P_ARP ∧ frame.length ≥ ETH_HDR + ARP_PKT then netArpReceive s dev frame ETH_HDR env.ticks
    else if type ≠ ETH_P_IP ∨ frame.length < ETH_HDR + IPV4_HDR then .ok s
    else netReceiveIpv4 s dev frame env

end Lyr.Net
