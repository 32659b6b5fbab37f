import Lyr.Net.Stack

set_option autoImplicit false

namespace Lyr.Net

open Lyr.Lib Function

-- One that waits for its accept handler is not touched.
structure StaysPassive (conn next : TcpConn) : Prop where
  key : next.key = conn.key
  passive : next.passive = true
  acceptHandler : next.acceptHandler = conn.acceptHandler
  handlerCtx : next.handlerCtx = conn.handlerCtx
  waits : conn.acceptHandler = true → conn.connected = false → next = conn

def acceptedConn (conn : TcpConn) (seg : TcpSegment) : TcpConn := tcpReceiveActive { established conn with passive := false } seg

def afterAccept (w : Stack) (id : Nat) (conn : TcpConn) (seg : TcpSegment) (listener : Socket) (inet : InetSock) : Stack :=
  (queueAccepted (w.setConn id (established conn)) listener inet (established conn) id).setConn id (acceptedConn conn seg)

def afterActive (conn : TcpConn) (seg : TcpSegment) : TcpConn :=
  if seg.rst then reset conn else tcpReceiveActive conn seg

structure KeepsOwner (conn next : TcpConn) : Prop where
  key : next.key = conn.key
  passive : next.passive = conn.passive
  acceptHandler : next.acceptHandler = conn.acceptHandler
  handlerCtx : next.handlerCtx = conn.handlerCtx

section

variable (conn : TcpConn)
include conn

theorem keeps_owner_refl : KeepsOwner conn conn := ⟨rfl, rfl, rfl, rfl⟩

theorem autotune_keeps (incoming : Nat) : KeepsOwner conn (tcpRxAutotune conn incoming) := by
  rw [tcpRxAutotune]
  split
  · exact keeps_owner_refl conn
  split
  · exact keeps_owner_refl conn
  split
  · exact keeps_owner_refl conn
  dsimp only
  generalize tcpGrowCap _ _ _ _ = cap
  split
  · exact keeps_owner_refl conn
  · exact ⟨rfl, rfl, rfl, rfl⟩

theorem receive_payload_keeps (payload : List UInt8) : KeepsOwner conn (tcpReceivePayload conn payload) := by
  have tuned := autotune_keeps conn payload.length
  rw [tcpReceivePayload]
  split
  · exact keeps_owner_refl conn
  dsimp only
  split
  · exact ⟨tuned.key, tuned.passive, tuned.acceptHandler, tuned.handlerCtx⟩
  · exact tuned

theorem receive_active_keeps (seg : TcpSegment) : KeepsOwner conn (tcpReceiveActive conn seg) := by
  have queued := receive_payload_keeps conn seg.payload
  rw [tcpReceiveActive]
  split
  · exact ⟨rfl, rfl, rfl, rfl⟩
  split
  · exact keeps_owner_refl conn
  split
  · exact ⟨queued.key, queued.passive, queued.acceptHandler, queued.handlerCtx⟩
  · exact queued

theorem after_active_keeps (seg : TcpSegment) : KeepsOwner conn (afterActive conn seg) := by
  rw [afterActive]
  split
  · exact ⟨rfl, rfl, rfl, rfl⟩
  · exact receive_active_keeps conn seg

theorem accepted_keeps (seg : TcpSegment) : KeepsOwner { established conn with passive := false } (acceptedConn conn seg) :=
  receive_active_keeps _ seg

end

-- Everything a segment can do to the stack.
inductive Received (w : Stack) (seg : TcpSegment) (env : RxEnv) : Stack → Prop where
  | ignored (unknown : tcpConnFind w seg.key = none) : Received w seg env w
  | opened (listener : TcpListener) (unknown : tcpConnFind w seg.key = none)
      (found : tcpListenerFind seg.dst seg.dstPort w.tcpListeners none = some listener) :
      Received w seg env (tcpHandleListenSyn w seg listener env.ticks)
  | freed (id : Nat) (conn : TcpConn) (found : tcpConnFind w seg.key = some id) (live : w.conns id = some conn)
      (passive : conn.passive = true) : Received w seg env (tcpConnFree w id)
  | kept (id : Nat) (conn next : TcpConn) (found : tcpConnFind w seg.key = some id) (live : w.conns id = some conn)
      (passive : conn.passive = true) (stays : StaysPassive conn next) : Received w seg env (w.setConn id next)
  | active (id : Nat) (conn : TcpConn) (found : tcpConnFind w seg.key = some id) (live : w.conns id = some conn)
      (active : conn.passive = false) : Received w seg env (w.setConn id (afterActive conn seg))
  | accepted (id : Nat) (conn : TcpConn) (listener : Socket) (inet : InetSock) (found : tcpConnFind w seg.key = some id)
      (live : w.conns id = some conn) (passive : conn.passive = true) (handler : conn.acceptHandler = true)
      (waits : conn.connected = false) (acknowledged : seg.ack = conn.seq + 1) (context : w.sockets conn.handlerCtx = some listener)
      (bound : listener.inet = some inet) : Received w seg env (afterAccept w id conn seg listener inet)

variable {w next : Stack} {id other : Nat} {conn : TcpConn} {seg : TcpSegment} {env : RxEnv} {call : SocketCall} {sock : Socket}

theorem new_conn_other (conn : TcpConn) (other : id ≠ w.nextConn) : (newConn w conn).conns id = w.conns id := update_of_ne other _ _

theorem new_conn_self (w : Stack) (conn : TcpConn) : (newConn w conn).conns w.nextConn = some conn := update_self ..

theorem set_conn_self (w : Stack) (id : Nat) (conn : TcpConn) : (w.setConn id conn).conns id = some conn := update_self ..

theorem set_conn_other (w : Stack) (conn : TcpConn) (apart : other ≠ id) : (w.setConn id conn).conns other = w.conns other :=
  update_of_ne apart _ _

theorem drop_conn_self (w : Stack) (id : Nat) : (w.dropConn id).conns id = none := update_self ..

theorem drop_conn_other (w : Stack) (apart : other ≠ id) : (w.dropConn id).conns other = w.conns other := update_of_ne apart _ _

theorem drop_conn_live (live : (w.dropConn id).conns other = some conn) : other ≠ id ∧ w.conns other = some conn := by
  by_cases same : other = id
  · rw [same, drop_conn_self] at live
    cases live
  · exact ⟨same, by rwa [drop_conn_other w same] at live⟩

theorem set_phase_self (w : Stack) (id : Nat) (phase : Option ConnectPhase) : (w.setPhase id phase).connecting id = phase :=
  update_self ..

theorem set_phase_other (w : Stack) (phase : Option ConnectPhase) (apart : other ≠ id) :
    (w.setPhase id phase).connecting other = w.connecting other := update_of_ne apart _ _

theorem set_conn_free (w : Stack) (id : Nat) (conn : TcpConn) : tcpConnFree (w.setConn id conn) id = tcpConnFree w id := by
  simp [tcpConnFree, tcpConnRemove, Stack.setConn, Stack.dropConn]

theorem socket_accept_effect {queued : Bool} (taken : tcpSocketAccept w conn id = .ok (next, queued)) :
    (queued = false ∧ next = w) ∨ (queued = true ∧ ∃ listener inet, w.sockets conn.handlerCtx = some listener ∧
      listener.inet = some inet ∧ next = queueAccepted w listener inet conn id) := by
  rw [tcpSocketAccept] at taken
  cases context : w.sockets conn.handlerCtx with
  | none => simp [context] at taken
  | some listener =>
    cases bound : listener.inet with
    | none =>
      simp only [context, bound, Except.ok.injEq, Prod.mk.injEq] at taken
      exact .inl ⟨taken.2.symm, taken.1.symm⟩
    | some inet =>
      simp only [context, bound] at taken
      split at taken
      · simp only [Except.ok.injEq, Prod.mk.injEq] at taken
        exact .inl ⟨taken.2.symm, taken.1.symm⟩
      · simp only [Except.ok.injEq, Prod.mk.injEq] at taken
        exact .inr ⟨taken.2.symm, listener, inet, rfl, bound, taken.1.symm⟩

theorem socket_accept_fault (w : Stack) (conn : TcpConn) (id : Nat) (fault : NetFault)
    (taken : tcpSocketAccept w conn id = .error fault) :
    w.sockets conn.handlerCtx = none := by
  rw [tcpSocketAccept] at taken
  split at taken
  next gone => exact gone
  split at taken
  · cases taken
  · split at taken <;> cases taken

theorem passive_payload_stays (env : RxEnv) (size : UInt32) (passive : conn.passive = true)
    (open_ : conn.connected = true) : StaysPassive conn (tcpHandlePassivePayload { conn with ack := conn.ack + size } env) := by
  have waits (P : Prop) (closed : conn.connected = false) : P := absurd (open_.symm.trans closed) (by decide)
  rw [tcpHandlePassivePayload]
  split
  · exact ⟨rfl, passive, rfl, rfl, fun _ => waits _⟩
  split
  · exact ⟨rfl, passive, rfl, rfl, fun _ => waits _⟩
  · exact ⟨rfl, passive, rfl, rfl, fun _ => waits _⟩

section

variable (found : tcpConnFind w seg.key = some id) (live : w.conns id = some conn) (passive : conn.passive = true)
include found live passive

theorem receive_passive_effect {now : TcpConn} (env : RxEnv) (stays : StaysPassive conn now) :
    Received w seg env (tcpReceivePassive w id now seg env) := by
  rw [tcpReceivePassive]
  split
  · exact .kept id conn now found live passive stays
  next ready =>
    have open_ : now.connected = true := by
      cases same : now.connected with
      | true => rfl
      | false => simp [same] at ready
    split
    · refine .kept id conn _ found live passive ?_
      have after := passive_payload_stays env (UInt32.ofNat seg.payload.length) stays.passive open_
      refine ⟨after.key.trans stays.key, after.passive, after.acceptHandler.trans stays.acceptHandler,
        after.handlerCtx.trans stays.handlerCtx, fun handler waits => ?_⟩
      rw [stays.waits handler waits, waits] at open_
      cases open_
    split
    · exact .freed id conn found live passive
    split
    · exact .freed id conn found live passive
    · exact .kept id conn now found live passive stays

theorem receive_handshake_effect (waits : conn.connected = false) (acknowledged : seg.ack = conn.seq + 1)
    (taken : tcpReceiveHandshake w id conn seg env = .ok next) : Received w seg env next := by
  rw [tcpReceiveHandshake] at taken
  split at taken
  next handler =>
    cases answer : tcpSocketAccept (w.setConn id (established conn)) (established conn) id with
    | error fault => simp [answer] at taken
    | ok result =>
      obtain ⟨after, queued⟩ := result
      simp only [answer] at taken
      rcases socket_accept_effect answer with ⟨rfl, rfl⟩ | ⟨rfl, listener, inet, context, bound, rfl⟩
      · rw [← Except.ok.inj taken, set_conn_free]
        exact .freed id conn found live passive
      · rw [← Except.ok.inj taken]
        exact .accepted id conn listener inet found live passive handler waits acknowledged context bound
  next noHandler =>
    rw [← Except.ok.inj taken]
    exact receive_passive_effect found live passive env ⟨rfl, passive, rfl, rfl, fun has => absurd has noHandler⟩

end

theorem receive_effect (taken : tcpReceive w seg env = .ok next) : Received w seg env next := by
  rw [tcpReceive] at taken
  cases found : tcpConnFind w seg.key with
  | none =>
    simp only [found] at taken
    cases heard : tcpListenerFind seg.dst seg.dstPort w.tcpListeners none with
    | none =>
      simp only [heard, Except.ok.injEq] at taken
      exact taken ▸ .ignored found
    | some listener =>
      simp only [heard] at taken
      split at taken
      · exact Except.ok.inj taken ▸ .opened listener found heard
      · exact Except.ok.inj taken ▸ .ignored found
  | some id =>
    simp only [found] at taken
    cases live : w.conns id with
    | none => simp [live] at taken
    | some conn =>
      simp only [live] at taken
      rw [tcpReceiveConn] at taken
      cases passive : conn.passive with
      | false =>
        simp only [passive, Bool.false_eq_true, if_false] at taken
        have after : next = w.setConn id (afterActive conn seg) := by
          rw [afterActive]
          split at taken
          next reset => rw [if_pos reset]; exact (Except.ok.inj taken).symm
          next alive => rw [if_neg alive]; exact (Except.ok.inj taken).symm
        exact after ▸ .active id conn found live passive
      | true =>
        simp only [passive, if_true] at taken
        split at taken
        · exact Except.ok.inj taken ▸ .freed id conn found live passive
        split at taken
        next shakes =>
          simp only [Bool.and_eq_true, Bool.not_eq_true', beq_iff_eq] at shakes
          exact receive_handshake_effect found live passive shakes.1.1 shakes.2 taken
        · exact Except.ok.inj taken ▸ receive_passive_effect found live passive env ⟨rfl, passive, rfl, rfl, fun _ _ => rfl⟩

-- A call that neither destroys the socket nor adds a listener.
structure KeepsSocket (sock next : Socket) : Prop where
  domain : next.domain = sock.domain
  inet : next.inet.map (·.tcpConn) = sock.inet.map (·.tcpConn)
  listening : sock.domain = .inet → next.listening = sock.listening

def addListener (w : Stack) (id : Nat) (inet : InetSock) : Stack :=
  { w with tcpListeners := ⟨inet.localIp, inet.localPort, none, true, id⟩ :: w.tcpListeners }

inductive Called (w : Stack) : SocketCall → Stack → Prop where
  | same (call : SocketCall) : Called w call w
  | added (call : SocketCall) (domain : Domain) (type : SockType) (protocol : Nat) (nonblock : Bool) :
      Called w call (socketAdd w (freshSocket domain type protocol nonblock))
  | changed (call : SocketCall) (id : Nat) (sock next : Socket) (live : w.sockets id = some sock) (keeps : KeepsSocket sock next) :
      Called w call (w.setSocket id next)
  | listens (id : Nat) (sock : Socket) (inet : InetSock) (live : w.sockets id = some sock) (domain : sock.domain = .inet)
      (bound : sock.inet = some inet) (free : tcpListenerConflicts w inet.localIp inet.localPort = false) :
      Called w (.listen id) ((addListener w id inet).setSocket id { sock with listening := true })
  | destroyed (id : Nat) (sock : Socket) (left : Stack) (live : w.sockets id = some sock) (last : sock.refcount ≤ 1)
      (gone : inetSocketDestroy w sock = .ok left) : Called w (.close id) (socketRemove left id)
  | received (seg : TcpSegment) (env : RxEnv) (next : Stack) (effect : Received w seg env next) : Called w (.segment seg env) next

theorem or_else_effect {ε : Type} {result : Except ε Stack}
    (effect : ∀ next, result = .ok next → Called w call next) : Called w call (orElse w result) := by
  cases result with
  | error failure => exact .same call
  | ok next => exact effect next rfl

theorem with_socket_effect {body : Socket → Except NetFault Stack} (taken : withSocket w id body = .ok next)
    (effect : ∀ sock, w.sockets id = some sock → body sock = .ok next → Called w call next) : Called w call next := by
  rw [withSocket] at taken
  cases live : w.sockets id with
  | none =>
    simp only [live, Except.ok.injEq] at taken
    exact taken ▸ .same call
  | some sock =>
    simp only [live] at taken
    exact effect sock live taken

theorem bind_effect {addr : SockAddr} (live : w.sockets id = some sock)
    (taken : netBind w id sock addr = .ok next) : Called w (.bind id addr) next := by
  unfold netBind at taken
  split at taken
  next domain => exact Except.ok.inj taken ▸ .changed _ id sock _ live ⟨rfl, rfl, fun _ => rfl⟩
  · cases taken
  · cases taken
  next localIp port domain =>
    split at taken
    · cases taken
    next inet bound =>
      split at taken
      · cases taken
      split at taken
      · cases taken
      · exact Except.ok.inj taken ▸ .changed _ id sock _ live ⟨rfl, by rw [bound]; rfl, fun _ => rfl⟩

theorem listen_effect (live : w.sockets id = some sock) (taken : netListen w id sock = .ok next) : Called w (.listen id) next := by
  rw [netListen] at taken
  split at taken
  next domain =>
    exact Except.ok.inj taken ▸ .changed _ id sock _ live ⟨rfl, rfl, fun inet => by rw [domain] at inet; cases inet⟩
  next domain =>
    split at taken
    · cases taken
    next inet bound =>
      split at taken
      · cases taken
      rw [tcpListenerAdd] at taken
      cases conflict : tcpListenerConflicts w inet.localIp inet.localPort with
      | true =>
        rw [conflict] at taken
        split at taken
        · cases taken
        next added =>
          split at added
          · cases added
          · cases added
      | false =>
        rw [conflict] at taken
        split at taken
        · cases taken
        next after added =>
          split at added
          · cases added
          rw [if_neg Bool.false_ne_true, Except.ok.injEq] at added
          rw [← Except.ok.inj taken, ← added]
          exact .listens id sock inet live domain bound conflict

theorem socket_step_effect (taken : socketStep w call = .ok next) : Called w call next := by
  cases call with
  | socket domain type protocol nonblock =>
    rw [← Except.ok.inj taken]
    refine or_else_effect (fun after done => ?_)
    obtain ⟨result, made, same⟩ := map_ok.mp done
    rw [netSocket] at made
    split at made
    · cases made
    · rw [← same, ← Except.ok.inj made]
      exact .added _ domain type protocol nonblock
  | bind id addr =>
    refine with_socket_effect taken (fun sock live done => ?_)
    exact Except.ok.inj done ▸ or_else_effect (fun after bound => bind_effect live bound)
  | listen id =>
    refine with_socket_effect taken (fun sock live done => ?_)
    exact Except.ok.inj done ▸ or_else_effect (fun after listens => listen_effect live listens)
  | accept id =>
    refine with_socket_effect taken (fun sock live done => ?_)
    rw [← Except.ok.inj done]
    refine or_else_effect (fun after done => ?_)
    obtain ⟨result, made, same⟩ := map_ok.mp done
    rw [netAccept] at made
    split at made
    · cases made
    split at made
    · cases made
    next client rest queue =>
      rw [← same, ← Except.ok.inj made]
      exact .changed _ id sock _ live ⟨rfl, rfl, fun _ => rfl⟩
  | ref id =>
    refine with_socket_effect taken (fun sock live done => ?_)
    exact Except.ok.inj done ▸ .changed _ id sock _ live ⟨rfl, rfl, fun _ => rfl⟩
  | close id =>
    refine with_socket_effect taken (fun sock live done => ?_)
    rw [netClose] at done
    split at done
    · exact Except.ok.inj done ▸ .changed _ id sock _ live ⟨rfl, rfl, fun _ => rfl⟩
    next last =>
      obtain ⟨left, gone, done⟩ := bind_ok.mp done
      exact Except.ok.inj done ▸ .destroyed id sock left live (by omega) gone
  | segment seg env => exact .received seg env next (receive_effect taken)

end Lyr.Net
