import Lyr.Lib.Run
import Lyr.Net.TcpConn

set_option autoImplicit false

namespace Lyr.Net

open Lyr.Lib Function

structure NetDev where
  ipv4Addr : UInt32
  ipv4Netmask : UInt32
  ipv4Gateway : UInt32
  deriving DecidableEq, Repr

structure TcpListener where
  localIp : UInt32
  port : UInt16
  handler : Option Nat
  acceptHandler : Bool
  ctx : Nat
  deriving DecidableEq, Repr

def SOCKET_BUF_SIZE : Nat := 4096

inductive Domain where
  | unix | inet
  deriving DecidableEq, Repr

inductive SockType where
  | stream | dgram | raw | seqpacket
  deriving DecidableEq, Repr

structure InetSock where
  tcpConn : Option Nat
  localIp : UInt32
  localPort : UInt16
  remoteIp : UInt32
  remotePort : UInt16
  deriving DecidableEq, Repr

-- inet is the inet_data pointer, unixName the name in unix_data.
structure Socket where
  domain : Domain
  type : SockType
  protocol : Nat
  nonblock : Bool
  listening : Bool
  connected : Bool
  binded : Bool
  unixName : List UInt8
  inet : Option InetSock
  backlog : List Nat
  refcount : Int
  deriving DecidableEq, Repr

-- Resolving the next hop, or in tcp_conns and waiting for the SYN|ACK.
inductive ConnectPhase where
  | resolving | waiting
  deriving DecidableEq, Repr

-- Allocations are numbered and never used again.
structure Stack where
  devs : Nat → NetDev
  devList : List Nat
  conns : Nat → Option TcpConn
  tcpConns : List Nat
  nextConn : Nat
  connecting : Nat → Option ConnectPhase
  tcpListeners : List TcpListener
  sockets : Nat → Option Socket
  socketList : List Nat
  nextSocket : Nat

inductive NetFault where
  | destroyedSocket (sock : Nat)
  | destroyedConn (conn : Nat)
  deriving DecidableEq, Repr

inductive SocketError where
  | EINVAL | EEXIST | EAGAIN | EADDRINUSE | EADDRNOTAVAIL | EPROTONOSUPPORT
  deriving DecidableEq, Repr

def SOCKET_BACKLOG : Nat := 16
def SOCKET_NAME_MAX : Nat := 64

variable (w : Stack)

variable (id : Nat)

variable (conn : TcpConn)

def Stack.setConn : Stack := { w with conns := update w.conns id (some conn) }
variable (sock : Socket)

def Stack.setSocket : Stack := { w with sockets := update w.sockets id (some sock) }

def Stack.dropConn : Stack := { w with conns := update w.conns id none }
def Stack.setPhase (phase : Option ConnectPhase) : Stack :=
  { w with connecting := update w.connecting id phase }

-- tcp_conns and tcp_listeners

structure TcpKey where
  dev : Nat
  remoteIp : UInt32
  remotePort : UInt16
  localPort : UInt16
  deriving DecidableEq, Repr

def TcpConn.key : TcpKey := ⟨conn.dev, conn.remoteIp, conn.remotePort, conn.localPort⟩
variable (seg : TcpSegment)

def TcpSegment.key : TcpKey := ⟨seg.dev, seg.src, seg.srcPort, seg.dstPort⟩

def tcpConnAdd : Stack := { w with tcpConns := id :: w.tcpConns }
def tcpConnRemove : Stack := { w with tcpConns := w.tcpConns.erase id }

def tcpConnFind (key : TcpKey) : Option Nat :=
  w.tcpConns.find? (fun id => (w.conns id).any (fun conn => conn.key == key))

-- tcp_conn_remove, then connection and ring are freed.
def tcpConnFree : Stack := (tcpConnRemove w id).dropConn id

def tcpListenerFind (localIp : UInt32) (port : UInt16) : List TcpListener → Option TcpListener → Option TcpListener
  | [], wildcard => wildcard
  | listener :: rest, wildcard =>
    if listener.port != port then tcpListenerFind localIp port rest wildcard
    else if listener.localIp == localIp then some listener
    else if listener.localIp == 0 then tcpListenerFind localIp port rest (some listener)
    else tcpListenerFind localIp port rest wildcard

def tcpListenerConflicts (localIp : UInt32) (port : UInt16) : Bool :=
  w.tcpListeners.any (fun listener =>
    listener.port == port && (listener.localIp == 0 || localIp == 0 || listener.localIp == localIp))

def tcpListenerAdd (listener : TcpListener) : Except SocketError Stack :=
  if listener.port == 0 || (listener.handler.isNone && !listener.acceptHandler) then .error .EINVAL
  else if tcpListenerConflicts w listener.localIp listener.port then .error .EEXIST
  else .ok { w with tcpListeners := listener :: w.tcpListeners }

-- Sockets

def unixSocketValidate (type : SockType) : Bool := type == .stream || type == .dgram || type == .seqpacket

-- 1 is IPPROTO_ICMP.
def inetSocketValidate (type : SockType) (protocol : Nat) : Bool :=
  (type == .stream || type == .dgram || type == .raw) && !(type == .raw && protocol != 1)

def freshSocket (domain : Domain) (type : SockType) (protocol : Nat) (nonblock : Bool) : Socket :=
  { domain, type, protocol, nonblock, listening := false, connected := false, binded := false, unixName := []
    inet := match domain with
      | .unix => none
      | .inet => some { tcpConn := none, localIp := 0, localPort := 0, remoteIp := 0, remotePort := 0 }
    backlog := [], refcount := 1 }

def socketAdd : Stack :=
  { w with sockets := update w.sockets w.nextSocket (some sock)
           socketList := w.nextSocket :: w.socketList, nextSocket := w.nextSocket + 1 }

def Domain.validate (domain : Domain) (type : SockType) (protocol : Nat) : Bool := match domain with
  | .unix => unixSocketValidate type
  | .inet => inetSocketValidate type protocol

def netSocket (domain : Domain) (type : SockType) (protocol : Nat) (nonblock : Bool) : Except SocketError (Stack × Nat) :=
  if !domain.validate type protocol then .error .EPROTONOSUPPORT
  else .ok (socketAdd w (freshSocket domain type protocol nonblock), w.nextSocket)

-- net_socket of AF_INET, SOCK_STREAM, 0 and then its fields.
def acceptedSocket (listener : InetSock) (conn : TcpConn) (id : Nat) : Socket :=
  { freshSocket .inet .stream 0 false with
      inet := some { tcpConn := some id
                     localIp := if listener.localIp != 0 then listener.localIp else (w.devs conn.dev).ipv4Addr
                     localPort := listener.localPort, remoteIp := conn.remoteIp, remotePort := conn.remotePort }
      binded := true, connected := true }

def queueAccepted (listener : Socket) (inet : InetSock) (conn : TcpConn) (id : Nat) : Stack :=
  (socketAdd w (acceptedSocket w inet conn id)).setSocket conn.handlerCtx
    { listener with backlog := listener.backlog ++ [w.nextSocket] }

-- The flag says whether the handler returned NET_SOCK_OK.
def tcpSocketAccept (id : Nat) : Except NetFault (Stack × Bool) := match w.sockets conn.handlerCtx with
  | none => .error (.destroyedSocket conn.handlerCtx)
  | some listener => match listener.inet with
      | none => .ok (w, false)
      | some inet =>
        if listener.backlog.length ≥ SOCKET_BACKLOG then .ok (w, false)
        else .ok (queueAccepted w listener inet conn id, true)

-- Incoming segments

-- The clock, and how far a listen handler's answer and the FIN after it went out.
structure RxEnv where
  ticks : Nat
  responded : Nat
  finSent : Bool
  deriving DecidableEq, Repr

def listenConn (listener : TcpListener) (ticks : Nat) : TcpConn :=
  let conn : TcpConn :=
    { dev := seg.dev, remoteIp := seg.src, remotePort := seg.srcPort, localPort := seg.dstPort
      seq := 0x4c595300 + UInt32.ofNat (ticks % 65536), ack := seg.seq + 1
      rxBuf := if listener.acceptHandler then some (fun _ => 0) else none
      rxCap := if listener.acceptHandler then TCP_ACTIVE_RX_CAP else 0, rxLen := 0, rxHead := 0
      sndWscale := 0, peerWscaleSeen := false, sackPermitted := false
      handler := listener.handler, acceptHandler := listener.acceptHandler, handlerCtx := listener.ctx
      passive := true, connected := false, closed := false, error := false, readShutdown := false, writeShutdown := false }
  tcpApplyOptions conn seg.options

def newConn : Stack :=
  { w with conns := update w.conns w.nextConn (some conn), nextConn := w.nextConn + 1 }

def tcpHandleListenSyn (listener : TcpListener) (ticks : Nat) : Stack :=
  tcpConnAdd (newConn w (listenConn seg listener ticks)) w.nextConn

def tcpHandlePassivePayload (env : RxEnv) : TcpConn := match conn.handler with
  | none => conn
  | some _ =>
    let seq := conn.seq + UInt32.ofNat (min env.responded TCP_PASSIVE_RESPONSE_CAP)
    if env.finSent then { conn with seq := seq + 1, closed := true } else { conn with seq }

-- It stays with its listen handler.
def tcpReceivePassive (env : RxEnv) : Stack :=
  if !conn.connected || seg.seq != conn.ack then w.setConn id conn
  else if !seg.payload.isEmpty then
    w.setConn id (tcpHandlePassivePayload { conn with ack := conn.ack + UInt32.ofNat seg.payload.length } env)
  else if seg.fin then tcpConnFree w id
  else if conn.closed && seg.acks then tcpConnFree w id
  else w.setConn id conn

def established : TcpConn := { conn with seq := conn.seq + 1, connected := true }

-- The accept handler takes the connection over, and a refusal frees it.
def tcpReceiveHandshake (env : RxEnv) : Except NetFault Stack :=
  if conn.acceptHandler then
    match tcpSocketAccept (w.setConn id (established conn)) (established conn) id with
    | .error fault => .error fault
    | .ok (w, false) => .ok (tcpConnFree w id)
    | .ok (w, true) => .ok (w.setConn id (tcpReceiveActive { established conn with passive := false } seg))
  else .ok (tcpReceivePassive w id (established conn) seg env)

def reset : TcpConn := { conn with error := true, closed := true }

def tcpReceiveConn (env : RxEnv) : Except NetFault Stack :=
  if seg.rst then
    if conn.passive then .ok (tcpConnFree w id) else .ok (w.setConn id (reset conn))
  else if conn.passive then
    if !conn.connected && seg.acks && seg.ack == conn.seq + 1 then tcpReceiveHandshake w id conn seg env
    else .ok (tcpReceivePassive w id conn seg env)
  else .ok (w.setConn id (tcpReceiveActive conn seg))

def tcpReceive (env : RxEnv) : Except NetFault Stack := match tcpConnFind w seg.key with
  | none => match tcpListenerFind seg.dst seg.dstPort w.tcpListeners none with
      | none => .ok w
      | some listener => if seg.syn then .ok (tcpHandleListenSyn w seg listener env.ticks) else .ok w
  | some id => match w.conns id with
      | none => .error (.destroyedConn id)
      | some conn => tcpReceiveConn w id conn seg env

-- Calls on sockets

def ipv4AddrIsLocal (ip : UInt32) : Bool := ip == 0 || w.devList.any (fun dev => (w.devs dev).ipv4Addr == ip)

def inetBindConflicts (sock : Nat) (localIp : UInt32) (port : UInt16) : Bool :=
  port != 0 && w.socketList.any (fun id => id != sock && (w.sockets id).any (fun other => other.inet.any (fun inet =>
    inet.localPort == port && (inet.localIp == 0 || localIp == 0 || inet.localIp == localIp))))

-- The family of the address, and what net_bind reads of it.
inductive SockAddr where
  | sin (addr : UInt32) (port : UInt16)
  | sun (path : List UInt8)
  deriving DecidableEq, Repr

-- The socket is w.sockets id.
def netBind (addr : SockAddr) : Except SocketError Stack := match sock.domain, addr with
  | .unix, .sun path =>
    .ok (w.setSocket id { sock with unixName := (path.takeWhile (· != 0)).take (SOCKET_NAME_MAX + 1), binded := true })
  | .unix, .sin _ _ => .error .EINVAL
  | .inet, .sun _ => .error .EINVAL
  | .inet, .sin localIp port => match sock.inet with
      | none => .error .EINVAL
      | some inet =>
        if !ipv4AddrIsLocal w localIp then .error .EADDRNOTAVAIL
        else if inetBindConflicts w id localIp port then .error .EADDRINUSE
        else .ok (w.setSocket id { sock with inet := some { inet with localIp, localPort := port }, binded := true })

def netListen : Except SocketError Stack := match sock.domain with
  | .unix => .ok (w.setSocket id { sock with listening := true })
  | .inet => match sock.inet with
      | none => .error .EINVAL
      | some inet =>
        if sock.type != .stream || inet.localPort == 0 then .error .EINVAL
        else match tcpListenerAdd w
          { localIp := inet.localIp, port := inet.localPort, handler := none, acceptHandler := true, ctx := id } with
          | .error e => .error e
          | .ok w => .ok (w.setSocket id { sock with listening := true })

-- The wait lets segments in, which are steps of their own.
def netAccept : Except SocketError (Stack × Nat) :=
  if !sock.listening then .error .EINVAL
  else match sock.backlog with
    | [] => .error (if sock.domain == .unix then .EINVAL else .EAGAIN)
    | client :: rest => .ok (w.setSocket id { sock with backlog := rest }, client)

-- The FIN moves conn->seq, but the connection is freed in the same call.
def netTcpClose : Except NetFault Stack := match w.conns id with
  | none => .error (.destroyedConn id)
  | some _ => .ok (tcpConnFree w id)

def inetSocketDestroy : Except NetFault Stack := match sock.inet with
  | none => .ok w
  | some inet => match inet.tcpConn with
      | none => .ok w
      | some conn => netTcpClose w conn

def socketRemove : Stack :=
  { w with socketList := w.socketList.erase id, sockets := update w.sockets id none }

def netClose : Except NetFault Stack :=
  if sock.refcount - 1 > 0 then .ok (w.setSocket id { sock with refcount := sock.refcount - 1 })
  else do
    let w ← inetSocketDestroy w sock
    .ok (socketRemove w id)

def netSocketRef : Stack := w.setSocket id { sock with refcount := sock.refcount + 1 }

-- A system call holds the socket it names.
inductive SocketCall where
  | socket (domain : Domain) (type : SockType) (protocol : Nat) (nonblock : Bool)
  | bind (sock : Nat) (addr : SockAddr)
  | listen (sock : Nat)
  | accept (sock : Nat)
  | ref (sock : Nat)
  | close (sock : Nat)
  | segment (seg : TcpSegment) (env : RxEnv)
  deriving DecidableEq, Repr

def orElse {ε : Type} (w : Stack) (result : Except ε Stack) : Stack := match result with
  | .error _ => w
  | .ok next => next

def withSocket (call : Socket → Except NetFault Stack) : Except NetFault Stack := match w.sockets id with
  | none => .ok w
  | some sock => call sock

def socketStep : SocketCall → Except NetFault Stack
  | .socket domain type protocol nonblock => .ok (orElse w ((netSocket w domain type protocol nonblock).map (·.1)))
  | .bind id addr => withSocket w id (fun sock => .ok (orElse w (netBind w id sock addr)))
  | .listen id => withSocket w id (fun sock => .ok (orElse w (netListen w id sock)))
  | .accept id => withSocket w id (fun sock => .ok (orElse w ((netAccept w id sock).map (·.1))))
  | .ref id => withSocket w id (fun sock => .ok (netSocketRef w id sock))
  | .close id => withSocket w id (netClose w id)
  | .segment seg env => tcpReceive w seg env

-- net_tcp_connect_ip

def connectConn (dev : Nat) (ip : UInt32) (port : UInt16) (portTicks seqTicks : Nat) : TcpConn :=
  { dev, remoteIp := ip, remotePort := port
    localPort := UInt16.ofNat (40000 + portTicks % 16384), seq := 0x4c595200 + UInt32.ofNat (seqTicks % 65536), ack := 0
    rxBuf := some (fun _ => 0), rxCap := TCP_ACTIVE_RX_CAP, rxLen := 0, rxHead := 0
    sndWscale := 0, peerWscaleSeen := false, sackPermitted := false, handler := none, acceptHandler := false, handlerCtx := 0
    passive := false, connected := false, closed := false, error := false, readShutdown := false, writeShutdown := false }

-- Up to net_arp_resolve. The clock is read twice.
def connectStart (dev : Nat) (ip : UInt32) (port : UInt16) (portTicks seqTicks : Nat) : Stack :=
  let device := w.devs dev
  if ip == 0 || port == 0 then w
  else if ip &&& device.ipv4Netmask != device.ipv4Addr &&& device.ipv4Netmask && device.ipv4Gateway == 0 then w
  else (newConn w (connectConn dev ip port portTicks seqTicks)).setPhase w.nextConn (some .resolving)

-- A failure frees the connection, success enters it in tcp_conns, from where an unsent SYN takes it again.
def connectResolved (resolved sent : Bool) : Stack :=
  if w.connecting id != some .resolving then w
  else if !resolved then (w.setPhase id none).dropConn id
  else if sent then tcpConnAdd (w.setPhase id (some .waiting)) id
  else tcpConnFree (tcpConnAdd (w.setPhase id none) id) id

-- A signal, a reset, the connection, or the timeout.
def connectEnd (interrupted : Bool) : Except NetFault Stack :=
  if w.connecting id != some .waiting then .ok w
  else match w.conns id with
    | none => .error (.destroyedConn id)
    | some conn =>
      if interrupted || conn.error || !conn.connected then .ok (tcpConnFree (w.setPhase id none) id)
      else .ok (w.setPhase id none)

inductive TcpCall where
  | call (call : SocketCall)
  | listen (port : UInt16) (localIp : UInt32) (handler ctx : Nat)
  | connectStart (dev : Nat) (ip : UInt32) (port : UInt16) (portTicks seqTicks : Nat)
  | connectResolved (conn : Nat) (resolved sent : Bool)
  | connectEnd (conn : Nat) (interrupted : Bool)
  | tcpClose (conn : Nat)
  deriving DecidableEq, Repr

-- net_tcp_close follows a connect that returned.
def tcpStep : TcpCall → Except NetFault Stack
  | .call call => socketStep w call
  | .listen port localIp handler ctx =>
    .ok (orElse w (tcpListenerAdd w { localIp, port, handler := some handler, acceptHandler := false, ctx }))
  | .connectStart dev ip port portTicks seqTicks => .ok (connectStart w dev ip port portTicks seqTicks)
  | .connectResolved id resolved sent => .ok (connectResolved w id resolved sent)
  | .connectEnd id interrupted => connectEnd w id interrupted
  | .tcpClose id => if w.connecting id != none then .ok w else netTcpClose w id

def bootNet (devs : Nat → NetDev) (devList : List Nat) : Stack :=
  { devs, devList, conns := fun _ => none, tcpConns := [], nextConn := 0, connecting := fun _ => none
    tcpListeners := [], sockets := fun _ => none, socketList := [], nextSocket := 0 }

end Lyr.Net
