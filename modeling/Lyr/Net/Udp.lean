import Lyr.Net.Stack

set_option autoImplicit false

namespace Lyr.Net

open Lyr.Lib Function

def UDP_EPHEMERAL_MIN : UInt16 := 49152
def UDP_EPHEMERAL_MAX : UInt16 := 65535

structure UdpDev where
  ipv4Addr : UInt32
  ipv4Netmask : UInt32
  ipv4Gateway : UInt32
  dnsServer : UInt32
  loopback : Bool
  deriving DecidableEq, Repr

-- rx is the one datagram it holds, empty where rx_len is 0.
structure InetSocket where
  type : SockType
  protocol : Nat
  connected : Bool
  binded : Bool
  localIp : UInt32
  localPort : UInt16
  remoteIp : UInt32
  remotePort : UInt16
  rx : List UInt8
  packetSrcIp : UInt32
  packetSrcPort : UInt16
  refcount : Int
  deriving DecidableEq, Repr

-- A net_sendto waiting for the next hop's address.
structure UdpSend where
  sock : Nat
  dev : UdpDev
  dstIp : UInt32
  dstPort : UInt16
  payload : List UInt8
  deriving DecidableEq, Repr

-- binding is the last address and port a datagram socket was bound to.
structure UdpNet where
  devs : List UdpDev
  defaultDev : Option UdpDev
  sockets : Nat → Option InetSocket
  socketList : List Nat
  nextSocket : Nat
  udpNextEphemeral : UInt16
  pending : List UdpSend
  binding : Nat → Option (UInt32 × UInt16)

-- dnsServer is that of the incoming device.
structure Datagram where
  srcIp : UInt32
  dstIp : UInt32
  srcPort : UInt16
  dstPort : UInt16
  payload : List UInt8
  dnsServer : UInt32
  deriving DecidableEq, Repr

variable (w : UdpNet)

variable (id : Nat)

variable (sock : InetSocket)

def UdpNet.setSocket : UdpNet := { w with sockets := update w.sockets id (some sock) }

def UdpNet.setBinding (ip : UInt32) (port : UInt16) : UdpNet :=
  { w with binding := if sock.type = .dgram then update w.binding id (some (ip, port)) else w.binding }

-- net_route

def netmaskPrefixLen (mask : UInt32) : Nat := ((List.range 32).takeWhile (fun i => mask.toBitVec.getMsbD i)).length

variable (dstIp : UInt32)

def routeCovers (dev : UdpDev) : Bool :=
  dev.ipv4Addr != 0 && dev.ipv4Netmask != 0 && (dstIp &&& dev.ipv4Netmask) == (dev.ipv4Addr &&& dev.ipv4Netmask)

def routeBetter (best : Option UdpDev) (dev : UdpDev) : Option UdpDev := match best with
  | none => some dev
  | some other => if netmaskPrefixLen other.ipv4Netmask < netmaskPrefixLen dev.ipv4Netmask then some dev else some other

def netRoute : Option UdpDev :=
  match (w.devs.filter (routeCovers dstIp)).foldl routeBetter none with
  | some dev => some dev
  | none => w.defaultDev.or w.devs.head?

def netUdpResolveRemoteIp (dev : UdpDev) (ip : UInt32) (port : UInt16) : UInt32 :=
  if port = 53 ∧ dev.dnsServer ≠ 0 ∧ dev.dnsServer ≠ ip then dev.dnsServer else ip

def UdpNet.netUdpPeerMatches (dnsServer ip : UInt32) (port : UInt16) (srcIp : UInt32) (srcPort : UInt16) : Bool :=
  (port == 53 && srcPort == 53 && (srcIp == ip || (dnsServer != 0 && srcIp == dnsServer))) || (ip == srcIp && port == srcPort)

-- Sockets

def inetSocketFresh (type : SockType) (protocol : Nat) : InetSocket where
  type := type
  protocol := protocol
  connected := false
  binded := false
  localIp := 0
  localPort := 0
  remoteIp := 0
  remotePort := 0
  rx := []
  packetSrcIp := 0
  packetSrcPort := 0
  refcount := 1

def inetAdd : UdpNet :=
  { w with sockets := update w.sockets w.nextSocket (some sock), binding := update w.binding w.nextSocket none
           socketList := w.nextSocket :: w.socketList, nextSocket := w.nextSocket + 1 }

def udpAddrIsLocal (ip : UInt32) : Bool := ip == 0 || w.devs.any (fun dev => dev.ipv4Addr == ip)

-- Sockets of every type stand in the list.
def udpBindConflicts (sock : Nat) (localIp : UInt32) (port : UInt16) : Bool :=
  port != 0 && w.socketList.any (fun id => id != sock && (w.sockets id).any (fun other =>
    other.localPort == port && (other.localIp == 0 || localIp == 0 || other.localIp == localIp)))

def udpBind (localIp : UInt32) (port : UInt16) : UdpNet :=
  if !udpAddrIsLocal w localIp then w
  else if udpBindConflicts w id localIp port then w
  else (w.setSocket id { sock with localIp := localIp, localPort := port, binded := true }).setBinding id sock localIp port

def udpPortInUse (port : UInt16) : Bool :=
  w.socketList.any (fun id => (w.sockets id).any (fun sock => sock.type == .dgram && sock.localPort == port))

-- The tries of udp_auto_bind over udp_next_ephemeral.
def udpEphemeral (w : UdpNet) : Nat → UInt16 → UInt16 × Option UInt16
  | 0, next => (next, none)
  | tries + 1, port =>
    let next := if port + 1 < UDP_EPHEMERAL_MIN then UDP_EPHEMERAL_MIN else port + 1
    if udpPortInUse w port then udpEphemeral w tries next else (next, some port)

def udpAutoBind : UdpNet × Bool :=
  if sock.localPort ≠ 0 then (w, true)
  else match udpEphemeral w (UDP_EPHEMERAL_MAX.toNat + 1 - UDP_EPHEMERAL_MIN.toNat) w.udpNextEphemeral with
    | (next, none) => ({ w with udpNextEphemeral := next }, false)
    | (next, some port) => ((({ w with udpNextEphemeral := next }).setSocket id
        { sock with localPort := port, localIp := 0, binded := true }).setBinding id sock 0 port, true)

-- udp_send_packet and raw_icmp_send_packet up to the wait for the next hop.
def sendRouted (dstPort : UInt16) (payload : List UInt8) (dev : UdpDev) : UdpNet :=
  if dev.ipv4Addr = 0 then w else { w with pending := w.pending ++ [⟨id, dev, dstIp, dstPort, payload⟩] }

def udpSendPacket (dstPort : UInt16) (payload : List UInt8) : UdpNet :=
  if 1400 < payload.length then w
  else match udpAutoBind w id sock with
    | (w, false) => w
    | (w, true) => match netRoute w dstIp with
        | none => w
        | some dev =>
          if dev.ipv4Addr = 0 then w
          else match netRoute w (netUdpResolveRemoteIp dev dstIp dstPort) with
            | none => w
            | some dev' => sendRouted w id (netUdpResolveRemoteIp dev dstIp dstPort) dstPort payload dev'

def rawIcmpSendPacket (payload : List UInt8) : UdpNet :=
  if payload = [] ∨ 1400 < payload.length then w
  else match netRoute w dstIp with
    | none => w
    | some dev => sendRouted w id dstIp 0 payload dev

-- The socket keeps the local address the frame leaves with.
def sendTransmit (send : UdpSend) (resolved sent : Bool) : Except NetFault UdpNet := match w.sockets send.sock with
  | none => .error (.destroyedSocket send.sock)
  | some sock =>
    if !resolved && !send.dev.loopback && send.dstIp != send.dev.ipv4Addr then .ok w
    else if !sent then .ok w
    else .ok (w.setSocket send.sock
      { sock with localIp := if sock.localIp ≠ 0 then sock.localIp else send.dev.ipv4Addr, binded := true })

-- Protocol 1 is IPPROTO_ICMP. A stream socket sends by its connection.
def udpSendto (dest : Option (UInt32 × UInt16)) (payload : List UInt8) : UdpNet :=
  match dest.or (if sock.connected then some (sock.remoteIp, sock.remotePort) else none) with
  | none => w
  | some (dstIp, dstPort) =>
    if sock.type = .dgram then udpSendPacket w id sock dstIp dstPort payload
    else if sock.type = .raw ∧ sock.protocol = 1 then rawIcmpSendPacket w id dstIp payload
    else w

-- tcpPort is the local port net_tcp_connect_ip chose, if it succeeded.
def inetConnect (ip : UInt32) (port : UInt16) (tcpPort : Option UInt16) : UdpNet :=
  let named := { sock with remoteIp := ip, remotePort := port }
  match sock.type with
  | .dgram => match udpAutoBind (w.setSocket id named) id named with
      | (w, false) => w
      | (w, true) => match w.sockets id with
          | none => w
          | some bound => w.setSocket id { bound with connected := true }
  | .raw => w.setSocket id { named with connected := true }
  | _ => match netRoute w ip with
      | none => w.setSocket id named
      | some dev =>
        let placed := { named with localIp := if sock.localIp = 0 then dev.ipv4Addr else sock.localIp }
        match tcpPort with
        | none => w.setSocket id placed
        | some localPort => w.setSocket id { placed with localPort := localPort, binded := true, connected := true }

def inetClose : UdpNet :=
  if sock.refcount - 1 > 0 then w.setSocket id { sock with refcount := sock.refcount - 1 }
  else { w with socketList := w.socketList.erase id, sockets := update w.sockets id none }

def udpMatches (dgram : Datagram) : Bool :=
  sock.type == .dgram && sock.localPort == dgram.dstPort && (sock.localIp == 0 || sock.localIp == dgram.dstIp) &&
    (!sock.connected || UdpNet.netUdpPeerMatches dgram.dnsServer sock.remoteIp sock.remotePort dgram.srcIp dgram.srcPort)

-- The first socket of the list that passes the tests.
def udpOffered (dgram : Datagram) : Option Nat :=
  w.socketList.find? (fun id => (w.sockets id).any (fun sock => udpMatches sock dgram))

def UdpNet.socketUdpReceive (dgram : Datagram) : UdpNet := match udpOffered w dgram with
  | none => w
  | some id => match w.sockets id with
      | none => w
      | some sock =>
        if sock.rx ≠ [] then w
        else w.setSocket id
          { sock with rx := dgram.payload.take SOCKET_BUF_SIZE, packetSrcIp := dgram.srcIp, packetSrcPort := dgram.srcPort }

-- accepted is the accept of a connection, devices a change of the devices' addresses.
inductive UdpCall where
  | socket (type : SockType) (protocol : Nat)
  | bind (sock : Nat) (ip : UInt32) (port : UInt16)
  | connect (sock : Nat) (ip : UInt32) (port : UInt16) (tcpPort : Option UInt16)
  | sendto (sock : Nat) (dest : Option (UInt32 × UInt16)) (payload : List UInt8)
  | transmit (index : Nat) (resolved sent : Bool)
  | recvfrom (sock : Nat)
  | ref (sock : Nat)
  | close (sock : Nat)
  | datagram (dgram : Datagram)
  | accepted (localIp : UInt32) (localPort : UInt16) (remoteIp : UInt32) (remotePort : UInt16)
  | devices (devs : List UdpDev) (defaultDev : Option UdpDev)

def withInet (call : InetSocket → UdpNet) : UdpNet := match w.sockets id with
  | none => w
  | some sock => call sock

def udpStep : UdpCall → Except NetFault UdpNet
  | .socket type protocol => .ok (if inetSocketValidate type protocol then inetAdd w (inetSocketFresh type protocol) else w)
  | .bind id ip port => .ok (withInet w id (fun sock => udpBind w id sock ip port))
  | .connect id ip port tcpPort => .ok (withInet w id (fun sock => inetConnect w id sock ip port tcpPort))
  | .sendto id dest payload => .ok (withInet w id (fun sock => udpSendto w id sock dest payload))
  | .transmit index resolved sent => match w.pending[index]? with
      | none => .ok w
      | some send => sendTransmit { w with pending := w.pending.eraseIdx index } send resolved sent
  | .recvfrom id => .ok (withInet w id (fun sock => w.setSocket id { sock with rx := [] }))
  | .ref id => .ok (withInet w id (fun sock => w.setSocket id { sock with refcount := sock.refcount + 1 }))
  | .close id => .ok (withInet w id (inetClose w id))
  | .datagram dgram => .ok (w.socketUdpReceive dgram)
  | .accepted localIp localPort remoteIp remotePort =>
    .ok (inetAdd w { inetSocketFresh .stream 0 with localIp, localPort, remoteIp, remotePort, connected := true, binded := true })
  | .devices devs defaultDev => .ok { w with devs, defaultDev }

def bootUdp : UdpNet where
  devs := []
  defaultDev := none
  sockets := fun _ => none
  socketList := []
  nextSocket := 0
  udpNextEphemeral := UDP_EPHEMERAL_MIN
  pending := []
  binding := fun _ => none

end Lyr.Net
