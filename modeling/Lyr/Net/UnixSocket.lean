import Lyr.Lib.Ring
import Lyr.Net.Stack

set_option autoImplicit false

namespace Lyr.Net

open Lyr.Lib Function

-- The transmit buffer is never used.
structure UnixSocket where
  type : SockType
  nonblock : Bool
  listening : Bool
  connected : Bool
  binded : Bool
  name : List UInt8
  peer : Option Nat
  rxBuf : Bytes
  rxCap : Nat
  rxLen : Nat
  rxHead : Nat
  backlog : List Nat
  refcount : Int

-- handed are the sockets a caller has got; connector is the socket whose net_connect made this one.
structure UnixNet where
  sockets : Nat → Option UnixSocket
  socketList : List Nat
  nextSocket : Nat
  handed : Nat → Bool
  connector : Nat → Option Nat

inductive UnixError where
  | EINVAL | ENOTCONN | ENOENT | ENOMEM | EPROTONOSUPPORT | EBADF
  deriving DecidableEq, Repr

inductive UnixReply where
  | failed (error : UnixError)
  | done
  | socket (id : Nat)
  | sent (count : Nat)
  | received (data : List UInt8)
  deriving DecidableEq, Repr

variable (w : UnixNet)

variable (id : Nat)

variable (sock : UnixSocket)

def UnixNet.setSocket : UnixNet := { w with sockets := update w.sockets id (some sock) }

def freshUnixSocket (type : SockType) (nonblock : Bool) : UnixSocket where
  type := type
  nonblock := nonblock
  listening := false
  connected := false
  binded := false
  name := []
  peer := none
  rxBuf := fun _ => 0
  rxCap := SOCKET_BUF_SIZE
  rxLen := 0
  rxHead := 0
  backlog := []
  refcount := 1

def unixSocketAdd : UnixNet :=
  { w with sockets := update w.sockets w.nextSocket (some sock)
           socketList := w.nextSocket :: w.socketList, nextSocket := w.nextSocket + 1 }

-- memory says whether the heap answers.
def unixSocket (type : SockType) (nonblock memory : Bool) : UnixNet × UnixReply :=
  if !unixSocketValidate type then (w, .failed .EPROTONOSUPPORT)
  else if !memory then (w, .failed .ENOMEM)
  else
    let next := unixSocketAdd w (freshUnixSocket type nonblock)
    ({ next with handed := update next.handed w.nextSocket true }, .socket w.nextSocket)

def unixBind (path : List UInt8) : UnixNet × UnixReply :=
  (w.setSocket id { sock with name := (path.takeWhile (· != 0)).take (SOCKET_NAME_MAX + 1), binded := true }, .done)

def unixListen : UnixNet × UnixReply := (w.setSocket id { sock with listening := true }, .done)

def unixAccept : UnixNet × UnixReply :=
  if !sock.listening then (w, .failed .EINVAL)
  else match sock.backlog with
    | [] => (w, .failed .EINVAL)
    | client :: rest =>
      let next := w.setSocket id { sock with backlog := rest }
      ({ next with handed := update next.handed client true }, .socket client)

def unixNamed (name path : List UInt8) : Bool := name.take SOCKET_NAME_MAX == (path.take SOCKET_NAME_MAX).takeWhile (· != 0)

def unixListener (path : List UInt8) : Option Nat :=
  w.socketList.find? (fun id => (w.sockets id).any (fun sock => sock.listening && unixNamed sock.name path))

-- The other end of a connection, and its place in the backlog.
def unixClient (listener : Nat) : UnixSocket :=
  { freshUnixSocket .stream false with peer := some listener, connected := true, binded := true }

def unixEnqueue (listener : Nat) (ls : UnixSocket) : UnixNet :=
  (unixSocketAdd w (unixClient listener)).setSocket listener { ls with backlog := ls.backlog ++ [w.nextSocket] }

-- Both sockets get the listener as their peer.
def unixConnect (path : List UInt8) (memory : Bool) : UnixNet × UnixReply :=
  match unixListener w path with
  | none => (w, .failed .ENOENT)
  | some listener =>
    if !memory then (w, .failed .ENOMEM)
    else match w.sockets listener with
      | none => (w, .failed .ENOENT)
      | some ls =>
        -- With a full backlog net_close takes it away again.
        if SOCKET_BACKLOG ≤ ls.backlog.length then (w, .failed .EINVAL)
        else match (unixEnqueue w listener ls).sockets id with
          | none => (w, .failed .EBADF)
          | some sock =>
            ({ (unixEnqueue w listener ls).setSocket id { sock with peer := some listener, connected := true, binded := true } with
              connector := update w.connector w.nextSocket (some id) }, .done)

def unixPut (byte : UInt8) : UnixSocket :=
  { sock with rxBuf := update sock.rxBuf ((sock.rxHead + sock.rxLen) % sock.rxCap) byte, rxLen := sock.rxLen + 1 }

def unixSendto (data : List UInt8) : Except NetFault (UnixNet × UnixReply) := match sock.peer with
  | none => .ok (w, .failed .ENOTCONN)
  | some peer =>
    if !sock.connected then .ok (w, .failed .ENOTCONN)
    else match w.sockets peer with
      | none => .error (.destroyedSocket peer)
      | some other =>
        let count := min data.length (other.rxCap - other.rxLen)
        if count = 0 then .ok (w, .failed .EINVAL)
        else .ok (w.setSocket peer ((data.take count).foldl unixPut other), .sent count)

def unixTake (sock : UnixSocket) : Nat → UnixSocket × List UInt8
  | 0 => (sock, [])
  | count + 1 =>
    let rest := unixTake { sock with rxHead := (sock.rxHead + 1) % sock.rxCap, rxLen := sock.rxLen - 1 } count
    (rest.1, sock.rxBuf sock.rxHead :: rest.2)

def unixRecvfrom (length : Nat) : UnixNet × UnixReply :=
  if sock.peer = none ∨ sock.connected = false then (w, .failed .ENOTCONN)
  else
    let taken := unixTake sock (min sock.rxLen length)
    (w.setSocket id taken.1, .received taken.2)

def unixSocketRef : UnixNet × UnixReply :=
  (w.setSocket id { sock with refcount := sock.refcount + 1 }, .done)

def unixClose : UnixNet × UnixReply :=
  if sock.refcount - 1 > 0 then (w.setSocket id { sock with refcount := sock.refcount - 1 }, .done)
  else ({ w with socketList := w.socketList.erase id, sockets := update w.sockets id none }, .done)

inductive UnixCall where
  | socket (type : SockType) (nonblock memory : Bool)
  | bind (sock : Nat) (path : List UInt8)
  | listen (sock : Nat)
  | connect (sock : Nat) (path : List UInt8) (memory : Bool)
  | accept (sock : Nat)
  | sendto (sock : Nat) (data : List UInt8)
  | recvfrom (sock length : Nat)
  | ref (sock : Nat)
  | close (sock : Nat)
  deriving DecidableEq, Repr

-- A caller names only sockets it was handed.
def UnixNet.callers : Option UnixSocket := if w.handed id then w.sockets id else none

def withUnix (call : UnixSocket → Except NetFault (UnixNet × UnixReply)) : Except NetFault (UnixNet × UnixReply) :=
  match w.callers id with
  | none => .ok (w, .failed .EBADF)
  | some sock => call sock

def unixAct : UnixCall → Except NetFault (UnixNet × UnixReply)
  | .socket type nonblock memory => .ok (unixSocket w type nonblock memory)
  | .bind id path => withUnix w id (fun sock => .ok (unixBind w id sock path))
  | .listen id => withUnix w id (fun sock => .ok (unixListen w id sock))
  | .connect id path memory => withUnix w id (fun _ => .ok (unixConnect w id path memory))
  | .accept id => withUnix w id (fun sock => .ok (unixAccept w id sock))
  | .sendto id data => withUnix w id (fun sock => unixSendto w sock data)
  | .recvfrom id length => withUnix w id (fun sock => .ok (unixRecvfrom w id sock length))
  | .ref id => withUnix w id (fun sock => .ok (unixSocketRef w id sock))
  | .close id => withUnix w id (fun sock => .ok (unixClose w id sock))

def unixStep (call : UnixCall) : Except NetFault UnixNet := (unixAct w call).map Prod.fst

def bootUnix : UnixNet where
  sockets := fun _ => none
  socketList := []
  nextSocket := 0
  handed := fun _ => false
  connector := fun _ => none

end Lyr.Net
