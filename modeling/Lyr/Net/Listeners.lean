import Lyr.Net.Effects

set_option autoImplicit false

namespace Lyr.Net

open Lyr.Lib Function

def Stack.connOf (w : Stack) (id : Nat) : Option Nat := (w.sockets id).bind (fun sock => (sock.inet.map (·.tcpConn)).join)

def Stack.isInet (w : Stack) (id : Nat) : Prop := ∃ sock, w.sockets id = some sock ∧ sock.inet.isSome = true

def ListenersLive (w : Stack) : Prop := ∀ listener ∈ w.tcpListeners, (w.sockets listener.ctx).isSome = true

-- Listeners and waiting connections lead to sockets, every socket owns its connection alone.
structure Owned (w : Stack) : Prop where
  listeners : ∀ listener ∈ w.tcpListeners, w.isInet listener.ctx
  waiting : ∀ id conn, w.conns id = some conn → conn.passive = true → conn.acceptHandler = true →
    ∃ listener ∈ w.tcpListeners, listener.ctx = conn.handlerCtx
  owner : ∀ s id, w.connOf s = some id → ∃ conn, w.conns id = some conn ∧ conn.passive = false
  single : ∀ s t id, w.connOf s = some id → w.connOf t = some id → s = t
  live : ∀ id ∈ w.tcpConns, (w.conns id).isSome = true
  nodup : w.tcpConns.Nodup
  freshConn : ∀ id, w.nextConn ≤ id → w.conns id = none
  freshSocket : ∀ id, w.nextSocket ≤ id → w.sockets id = none
  heard : ∀ s sock, w.sockets s = some sock → sock.domain = .inet → sock.listening = true →
    ∃ listener ∈ w.tcpListeners, listener.ctx = s

def Socket.address (sock : Socket) : SockAddr := match sock.domain, sock.inet with
  | .inet, some inet => .sin inet.localIp inet.localPort
  | _, _ => .sun sock.unixName

def CanListen (w : Stack) (domain : Domain) (addr : SockAddr) : Prop :=
  ∃ made id sock bound after, netSocket w domain .stream 0 false = .ok (made, id) ∧ netBind made id
    (freshSocket domain .stream 0 false) addr = .ok bound ∧
    bound.sockets id = some sock ∧ netListen bound id sock = .ok after

def ReusableAfter (w : Stack) (call : SocketCall) (next : Stack) : Prop := match call with
  | .close id => ∀ sock ∈ w.sockets id, sock.listening = true → sock.refcount ≤ 1 → CanListen next sock.domain sock.address
  | _ => True

-- The last reference dropped is not that of a socket in tcp_listeners.
def KeepsListeners (w : Stack) : SocketCall → Prop
  | .close id => ∀ sock ∈ w.sockets id, sock.refcount ≤ 1 → ∀ listener ∈ w.tcpListeners, listener.ctx ≠ id
  | _ => True

theorem listener_find_mem {localIp : UInt32} {port : UInt16} {listeners : List TcpListener} (wildcard : Option TcpListener)
    {found : TcpListener} (answer : tcpListenerFind localIp port listeners wildcard = some found) :
    found ∈ listeners ∨ wildcard = some found := by
  induction listeners generalizing wildcard with
  | nil => exact .inr answer
  | cons listener rest ih =>
    rw [tcpListenerFind] at answer
    split at answer
    · exact (ih wildcard answer).imp_left (List.mem_cons_of_mem listener)
    split at answer
    · exact .inl (Option.some.inj answer ▸ List.mem_cons_self)
    split at answer
    · rcases ih (some listener) answer with inside | same
      · exact .inl (List.mem_cons_of_mem listener inside)
      · exact .inl (Option.some.inj same ▸ List.mem_cons_self)
    · exact (ih wildcard answer).imp_left (List.mem_cons_of_mem listener)

theorem set_socket_self (w : Stack) (id : Nat) (sock : Socket) : (w.setSocket id sock).sockets id = some sock := update_self ..

variable {id other : Nat} {w left : Stack} {sock next : Socket} {seg : TcpSegment} {env : RxEnv}

theorem set_socket_other (w : Stack) (sock : Socket) (apart : other ≠ id) :
    (w.setSocket id sock).sockets other = w.sockets other := update_of_ne apart _ _

section

variable (live : w.sockets id = some sock) (inet : next.inet.map (·.tcpConn) = sock.inet.map (·.tcpConn))
include live inet

theorem set_socket_conn_of
    (s : Nat) : (w.setSocket id next).connOf s = w.connOf s := by
  by_cases same : s = id
  · rw [same, Stack.connOf, Stack.connOf, set_socket_self, live]
    exact congrArg Option.join inet
  · rw [Stack.connOf, Stack.connOf, set_socket_other w next same]

theorem set_socket_is_inet
    {s : Nat} (has : w.isInet s) : (w.setSocket id next).isInet s := by
  obtain ⟨other, there, has⟩ := has
  by_cases same : s = id
  · subst same
    rw [live, Option.some.injEq] at there
    have still := congrArg Option.isSome inet
    rw [Option.isSome_map, Option.isSome_map, there, has] at still
    exact ⟨next, set_socket_self w s next, still⟩
  · exact ⟨other, by rw [set_socket_other w next same, there], has⟩

theorem owned_set_socket
    (heard : next.domain = .inet → next.listening = true → ∃ listener ∈ w.tcpListeners, listener.ctx = id) (owned : Owned w) :
    Owned (w.setSocket id next) := by
  have conn := set_socket_conn_of live inet
  refine ⟨fun listener inside => set_socket_is_inet live inet (owned.listeners listener inside), owned.waiting,
    fun s cid holds => owned.owner s cid (conn s ▸ holds), fun s t cid first second =>
      owned.single s t cid (conn s ▸ first) (conn t ▸ second),
    owned.live, owned.nodup, owned.freshConn, fun other high => ?_, fun s other there domain listening => ?_⟩
  · have apart : other ≠ id := fun same => by
      rw [same] at high
      rw [owned.freshSocket id high] at live
      cases live
    rw [set_socket_other w next apart, owned.freshSocket other high]
  by_cases same : s = id
  · rw [same, set_socket_self, Option.some.injEq] at there
    rw [same]
    exact heard (there ▸ domain) (there ▸ listening)
  · rw [set_socket_other w next same] at there
    exact owned.heard s other there domain listening

end

theorem owned_change (w : Stack) (id : Nat) (sock next : Socket) (live : w.sockets id = some sock) (keeps : KeepsSocket sock next)
    (owned : Owned w) : Owned (w.setSocket id next) := by
  refine owned_set_socket live keeps.inet (fun domain listening => ?_) owned
  rw [keeps.domain] at domain
  exact owned.heard id sock live domain ((keeps.listening domain).symm.trans listening)

theorem socket_add_self (w : Stack) (sock : Socket) : (socketAdd w sock).sockets w.nextSocket = some sock := update_self ..

theorem socket_add_other {w : Stack} (sock : Socket) {id : Nat} (apart : id ≠ w.nextSocket) :
    (socketAdd w sock).sockets id = w.sockets id := update_of_ne apart _ _

section

variable (owned : Owned w)
include owned

theorem owned_socket_old (live : w.sockets id = some sock) : id ≠ w.nextSocket := fun same => by
  rw [same, owned.freshSocket w.nextSocket (Nat.le_refl _)] at live
  cases live

omit owned in
theorem owned_add_socket (w : Stack) (sock : Socket) (quiet : sock.listening = false)
    (free : ∀ cid, (sock.inet.map (·.tcpConn)).join = some cid →
      (∃ conn, w.conns cid = some conn ∧ conn.passive = false) ∧ ∀ s, w.connOf s ≠ some cid)
    (owned : Owned w) : Owned (socketAdd w sock) := by
  have self : (socketAdd w sock).connOf w.nextSocket = (sock.inet.map (·.tcpConn)).join := by
    rw [Stack.connOf, socket_add_self]
    rfl
  have others (s : Nat) (apart : s ≠ w.nextSocket) : (socketAdd w sock).connOf s = w.connOf s := by
    rw [Stack.connOf, Stack.connOf, socket_add_other sock apart]
  refine ⟨fun listener inside => ?_, owned.waiting, fun s cid holds => ?_, fun s t cid first second => ?_, owned.live, owned.nodup,
    owned.freshConn, fun id high => ?_, fun s other there domain listening => ?_⟩
  · obtain ⟨other, there, inet⟩ := owned.listeners listener inside
    exact ⟨other, by rw [socket_add_other sock (owned_socket_old owned there), there], inet⟩
  · by_cases same : s = w.nextSocket
    · rw [same, self] at holds
      exact (free cid holds).1
    · exact owned.owner s cid (others s same ▸ holds)
  · by_cases sNew : s = w.nextSocket
    · rw [sNew, self] at first
      by_cases tNew : t = w.nextSocket
      · rw [sNew, tNew]
      · exact absurd (others t tNew ▸ second) ((free cid first).2 t)
    rw [others s sNew] at first
    by_cases tNew : t = w.nextSocket
    · rw [tNew, self] at second
      exact absurd first ((free cid second).2 s)
    · exact owned.single s t cid first (others t tNew ▸ second)
  · have apart : id ≠ w.nextSocket := Nat.ne_of_gt (Nat.lt_of_succ_le high)
    rw [socket_add_other sock apart]
    exact owned.freshSocket id (Nat.le_of_succ_le high)
  by_cases same : s = w.nextSocket
  · rw [same, socket_add_self, Option.some.injEq] at there
    rw [← there, quiet] at listening
    cases listening
  · rw [socket_add_other sock same] at there
    exact owned.heard s other there domain listening

theorem owned_set_conn {conn next : TcpConn} (live : w.conns id = some conn) (active : conn.passive = false → next.passive = false)
    (waits : next.passive = true → next.acceptHandler = true → conn.passive = true ∧ conn.acceptHandler = true ∧
      next.handlerCtx = conn.handlerCtx) :
    Owned (w.setConn id next) := by
  refine ⟨owned.listeners, fun other here there passive handler => ?_, fun s cid holds => ?_, owned.single, fun other inside => ?_,
    owned.nodup, fun other high => ?_, owned.freshSocket, owned.heard⟩
  · by_cases same : other = id
    · rw [same, set_conn_self, Option.some.injEq] at there
      subst there
      obtain ⟨wasPassive, hadHandler, context⟩ := waits passive handler
      rw [context]
      exact owned.waiting id conn live wasPassive hadHandler
    · rw [set_conn_other w next same] at there
      exact owned.waiting other here there passive handler
  · obtain ⟨held, there, isActive⟩ := owned.owner s cid holds
    by_cases same : cid = id
    · rw [same, live, Option.some.injEq] at there
      exact ⟨next, by rw [same, set_conn_self], active (there ▸ isActive)⟩
    · exact ⟨held, by rw [set_conn_other w next same, there], isActive⟩
  · by_cases same : other = id
    · rw [same, set_conn_self]
      rfl
    · rw [set_conn_other w next same]
      exact owned.live other inside
  have apart : other ≠ id := fun same => by
    rw [same] at high
    rw [owned.freshConn id high] at live
    cases live
  rw [set_conn_other w next apart]
  exact owned.freshConn other high

theorem owned_free (unheld : ∀ s, w.connOf s ≠ some id) : Owned (tcpConnFree w id) := by
  refine ⟨owned.listeners, fun other conn there => ?_, fun s cid holds => ?_, owned.single, fun other inside => ?_,
    owned.nodup.erase id,
    fun other high => ?_, owned.freshSocket, owned.heard⟩
  · exact owned.waiting other conn (drop_conn_live there).2
  · obtain ⟨conn, there, active⟩ := owned.owner s cid holds
    have apart : cid ≠ id := fun same => unheld s (same ▸ holds)
    exact ⟨conn, (drop_conn_other _ apart).trans there, active⟩
  · obtain ⟨apart, inside⟩ := owned.nodup.mem_erase_iff.mp inside
    exact (congrArg Option.isSome (drop_conn_other _ apart)).trans (owned.live other inside)
  by_cases same : other = id
  · rw [same]
    exact drop_conn_self _ id
  · exact (drop_conn_other _ same).trans (owned.freshConn other high)

theorem owned_conn_old (live : (w.conns id).isSome = true) : id ≠ w.nextConn := fun same => by
  rw [same, owned.freshConn w.nextConn (Nat.le_refl _)] at live
  cases live

theorem owned_listen_syn (seg : TcpSegment) {listener : TcpListener} (ticks : Nat) (inside : listener ∈ w.tcpListeners) :
    Owned (tcpHandleListenSyn w seg listener ticks) := by
  refine ⟨owned.listeners, fun id conn there passive handler => ?_, fun s cid holds => ?_, owned.single, fun id there => ?_, ?_,
    fun id high => ?_, owned.freshSocket, owned.heard⟩
  · by_cases same : id = w.nextConn
    · have context : conn.handlerCtx = listener.ctx := by
        rw [same] at there
        rw [← Option.some.inj ((new_conn_self w (listenConn seg listener ticks)).symm.trans there)]
        rfl
      exact ⟨listener, inside, context.symm⟩
    · exact owned.waiting id conn ((new_conn_other _ same).symm.trans there) passive handler
  · obtain ⟨conn, there, active⟩ := owned.owner s cid holds
    exact ⟨conn, (new_conn_other _ (owned_conn_old owned (by rw [there]; rfl))).trans there, active⟩
  · rcases List.mem_cons.mp there with new | old
    · rw [new]
      exact congrArg Option.isSome (new_conn_self w (listenConn seg listener ticks))
    · have apart := owned_conn_old owned (owned.live id old)
      exact (congrArg Option.isSome (new_conn_other (listenConn seg listener ticks) apart)).trans (owned.live id old)
  · exact List.nodup_cons.mpr ⟨fun there => owned_conn_old owned (owned.live _ there) rfl, owned.nodup⟩
  · exact (new_conn_other _ (Nat.ne_of_gt (Nat.lt_of_succ_le high))).trans (owned.freshConn id (Nat.le_of_succ_le high))

omit owned in
theorem passive_unheld (w : Stack) (id : Nat) (conn : TcpConn) (live : w.conns id = some conn) (passive : conn.passive = true)
    (owned : Owned w) (s : Nat) : w.connOf s ≠ some id := by
  intro holds
  obtain ⟨held, there, active⟩ := owned.owner s id holds
  rw [live, Option.some.injEq] at there
  rw [← there, passive] at active
  cases active

theorem owned_received {next : Stack} (received : Received w seg env next) : Owned next := by
  cases received with
  | ignored unknown => exact owned
  | opened listener unknown found =>
    rcases listener_find_mem _ found with inside | none
    · exact owned_listen_syn owned seg env.ticks inside
    · cases none
  | freed id conn found live passive => exact owned_free owned (passive_unheld w id conn live passive owned)
  | kept id conn next found live passive stays =>
    refine owned_set_conn owned live (fun active => ?_) (fun _ handler => ?_)
    · rw [passive] at active
      cases active
    · exact ⟨passive, stays.acceptHandler ▸ handler, stays.handlerCtx⟩
  | active id conn found live active =>
    have keeps := after_active_keeps conn seg
    refine owned_set_conn owned live (fun _ => keeps.passive.trans active) (fun passive => ?_)
    rw [keeps.passive, active] at passive
    cases passive
  | accepted id conn listener inet found live passive handler waits acknowledged context bound =>
    -- The connection leaves the handshake, a socket takes it, and it goes on as an active one.
    have keeps := accepted_keeps conn seg
    have gone : (acceptedConn conn seg).passive = false := keeps.passive
    have handed := owned_set_conn owned live (fun _ => gone) (fun still => absurd (gone.symm.trans still) (by decide))
    have client := owned_add_socket (w.setConn id (acceptedConn conn seg)) (acceptedSocket w inet (established conn) id) rfl
      (fun cid holds => by
        cases holds
        exact ⟨⟨_, set_conn_self w id _, gone⟩, passive_unheld w id conn live passive owned⟩) handed
    have old := owned_socket_old owned context
    have queued := owned_change _ conn.handlerCtx listener { listener with backlog := listener.backlog ++ [w.nextSocket] }
      ((@socket_add_other (w.setConn id (acceptedConn conn seg)) _ _ old).trans context) ⟨rfl, rfl, fun _ => rfl⟩ client
    have same : afterAccept w id conn seg listener inet =
        (socketAdd (w.setConn id (acceptedConn conn seg)) (acceptedSocket w inet (established conn) id)).setSocket conn.handlerCtx
          { listener with backlog := listener.backlog ++ [w.nextSocket] } := by
      simp [afterAccept, queueAccepted, socketAdd, Stack.setSocket, Stack.setConn, acceptedSocket, established]
    rw [same]
    exact queued

end

theorem socket_remove_self (w : Stack) (id : Nat) : (socketRemove w id).sockets id = none := update_self ..

theorem socket_remove_other (w : Stack) (apart : other ≠ id) : (socketRemove w id).sockets other = w.sockets other :=
  update_of_ne apart _ _

theorem socket_remove_conn_of (w : Stack) (id s : Nat) : (socketRemove w id).connOf s = if s = id then none else w.connOf s := by
  split
  next same =>
    rw [same, Stack.connOf, socket_remove_self]
    rfl
  next apart => rw [Stack.connOf, Stack.connOf, socket_remove_other w apart]

theorem owned_remove (unheard : ∀ listener ∈ w.tcpListeners, listener.ctx ≠ id) (owned : Owned w) : Owned (socketRemove w id) := by
  have held (s cid : Nat) (holds : (socketRemove w id).connOf s = some cid) : w.connOf s = some cid := by
    rw [socket_remove_conn_of] at holds
    split at holds
    · cases holds
    · exact holds
  refine ⟨fun listener inside => ?_, owned.waiting, fun s cid holds => owned.owner s cid (held s cid holds),
    fun s t cid first second => owned.single s t cid (held s cid first) (held t cid second), owned.live, owned.nodup, owned.freshConn,
    fun other high => ?_, fun s sock there domain listening => ?_⟩
  · obtain ⟨sock, there, inet⟩ := owned.listeners listener inside
    exact ⟨sock, (socket_remove_other w (unheard listener inside)).trans there, inet⟩
  · by_cases same : other = id
    · rw [same, socket_remove_self]
    · rw [socket_remove_other w same, owned.freshSocket other high]
  by_cases same : s = id
  · rw [same, socket_remove_self] at there
    cases there
  · rw [socket_remove_other w same] at there
    exact owned.heard s sock there domain listening

section

variable (live : w.sockets id = some sock)
include live

theorem destroy_effect (gone : inetSocketDestroy w sock = .ok left) :
    left = w ∨ ∃ cid, w.connOf id = some cid ∧ left = tcpConnFree w cid := by
  rw [inetSocketDestroy] at gone
  split at gone
  · exact .inl (Except.ok.inj gone).symm
  next inet has =>
    split at gone
    · exact .inl (Except.ok.inj gone).symm
    next cid holds =>
      rw [netTcpClose] at gone
      split at gone
      · cases gone
      refine .inr ⟨cid, ?_, (Except.ok.inj gone).symm⟩
      rw [Stack.connOf, live]
      simp [has, holds]

theorem owned_destroy
    (unheard : ∀ listener ∈ w.tcpListeners, listener.ctx ≠ id) (gone : inetSocketDestroy w sock = .ok left) (owned : Owned w) :
    Owned (socketRemove left id) := by
  have removed := owned_remove unheard owned
  rcases destroy_effect live gone with rfl | ⟨cid, holds, rfl⟩
  · exact removed
  refine owned_free removed (fun s again => ?_)
  rw [socket_remove_conn_of] at again
  split at again
  · cases again
  next apart => exact apart (owned.single s id cid again holds)

theorem owned_listens {inet : InetSock} (bound : sock.inet = some inet)
    (owned : Owned w) : Owned ((addListener w id inet).setSocket id { sock with listening := true }) := by
  refine owned_set_socket live rfl (fun _ _ => ⟨_, List.mem_cons_self, rfl⟩) ?_
  refine ⟨fun listener inside => ?_, fun cid conn there passive handler => ?_, owned.owner, owned.single, owned.live, owned.nodup,
    owned.freshConn, owned.freshSocket, fun s other there domain listening => ?_⟩
  · rcases List.mem_cons.mp inside with rfl | inside
    · exact ⟨sock, live, by rw [bound]; rfl⟩
    · exact owned.listeners listener inside
  · obtain ⟨listener, inside, context⟩ := owned.waiting cid conn there passive handler
    exact ⟨listener, List.mem_cons_of_mem _ inside, context⟩
  · obtain ⟨listener, inside, context⟩ := owned.heard s other there domain listening
    exact ⟨listener, List.mem_cons_of_mem _ inside, context⟩

end

theorem fresh_socket_free (domain : Domain) (type : SockType) (protocol : Nat) (nonblock : Bool) :
    ((freshSocket domain type protocol nonblock).inet.map (·.tcpConn)).join = none := by
  cases domain with
  | unix => rfl
  | inet => rfl

theorem owned_step (w : Stack) (call : SocketCall) (next : Stack) (owned : Owned w) (keeps : KeepsListeners w call)
    (taken : socketStep w call = .ok next) : Owned next := by
  cases socket_step_effect taken with
  | same => exact owned
  | added call domain type protocol nonblock =>
    refine owned_add_socket w _ rfl (fun cid holds => ?_) owned
    rw [fresh_socket_free] at holds
    cases holds
  | changed call id sock after live keeps => exact owned_change w id sock after live keeps owned
  | listens id sock inet live domain bound free => exact owned_listens live bound owned
  | destroyed id sock left live last gone => exact owned_destroy live (keeps sock live last) gone owned
  | received seg env after effect => exact owned_received owned effect

theorem receive_fault {fault : NetFault} (taken : tcpReceive w seg env = .error fault) : (∃ id ∈ w.tcpConns, w.conns id = none) ∨
      ∃ id conn, w.conns id = some conn ∧ conn.passive = true ∧ conn.acceptHandler = true ∧ w.sockets conn.handlerCtx = none := by
  rw [tcpReceive] at taken
  split at taken
  · split at taken
    · cases taken
    · split at taken <;> cases taken
  next id found =>
    split at taken
    next dead => exact .inl ⟨id, List.mem_of_find?_eq_some found, dead⟩
    next conn live =>
      refine .inr ⟨id, conn, live, ?_⟩
      rw [tcpReceiveConn] at taken
      split at taken
      · split at taken <;> cases taken
      split at taken
      next passive =>
        split at taken
        · rw [tcpReceiveHandshake] at taken
          split at taken
          next handler =>
            refine ⟨passive, handler, ?_⟩
            split at taken
            next refused =>
              exact socket_accept_fault (w.setConn id (established conn)) (established conn) id _ refused
            · cases taken
            · cases taken
          · cases taken
        · cases taken
      · cases taken

theorem owned_receives (seg : TcpSegment) (env : RxEnv) (owned : Owned w) : ∃ next, tcpReceive w seg env = .ok next := by
  cases taken : tcpReceive w seg env with
  | ok next => exact ⟨next, rfl⟩
  | error fault =>
    rcases receive_fault taken with ⟨id, inside, dead⟩ | ⟨id, conn, live, passive, handler, gone⟩
    · have live := owned.live id inside
      rw [dead] at live
      cases live
    obtain ⟨listener, inside, context⟩ := owned.waiting id conn live passive handler
    obtain ⟨sock, there, _⟩ := owned.listeners listener inside
    rw [context, gone] at there
    cases there

theorem owned_closes (live : w.sockets id = some sock) (owned : Owned w) : ∃ next, netClose w id sock = .ok next := by
  rw [netClose]
  split
  · exact ⟨_, rfl⟩
  suffices ends : ∃ left, inetSocketDestroy w sock = .ok left by
    obtain ⟨left, gone⟩ := ends
    exact ⟨socketRemove left id, by rw [gone]; rfl⟩
  rw [inetSocketDestroy]
  split
  · exact ⟨w, rfl⟩
  next inet has =>
    split
    · exact ⟨w, rfl⟩
    next cid holds =>
      have held : w.connOf id = some cid := by
        rw [Stack.connOf, live]
        simp [has, holds]
      obtain ⟨conn, there, _⟩ := owned.owner id cid held
      exact ⟨tcpConnFree w cid, by rw [netTcpClose, there]⟩

theorem with_socket_moves {body : Socket → Except NetFault Stack}
    (moves : ∀ sock, w.sockets id = some sock → ∃ next, body sock = .ok next) : ∃ next, withSocket w id body = .ok next := by
  rw [withSocket]
  split
  · exact ⟨w, rfl⟩
  next sock live => exact moves sock live

theorem owned_moves (call : SocketCall) (owned : Owned w) : ∃ next, socketStep w call = .ok next := by
  cases call with
  | socket domain type protocol nonblock => exact ⟨_, rfl⟩
  | bind | listen | accept | ref => exact with_socket_moves (fun _ _ => ⟨_, rfl⟩)
  | close id => exact with_socket_moves (fun sock live => owned_closes live owned)
  | segment seg env => exact owned_receives seg env owned

theorem owned_listeners_live (w : Stack) (owned : Owned w) : ListenersLive w := by
  intro listener inside
  obtain ⟨sock, there, _⟩ := owned.listeners listener inside
  rw [there]
  rfl

theorem live_needs_listeners_kept (w : Stack) (call : SocketCall) (next : Stack) (_owned : Owned w)
    (taken : socketStep w call = .ok next)
    (after : ListenersLive next) : KeepsListeners w call := by
  cases call with
  | close id =>
    intro sock live last listener inside context
    have closes : netClose w id sock = .ok next := by
      rw [← taken]
      simp [socketStep, withSocket, show w.sockets id = some sock from live]
    rw [netClose, if_neg (by omega)] at closes
    obtain ⟨left, gone, closes⟩ := bind_ok.mp closes
    have kept : left.tcpListeners = w.tcpListeners := by
      rcases destroy_effect live gone with rfl | ⟨cid, _, rfl⟩
      · rfl
      · rfl
    have still := after listener (by rw [← Except.ok.inj closes]; exact kept ▸ inside)
    rw [← Except.ok.inj closes, context, socket_remove_self] at still
    cases still
  | socket | bind | listen | accept | ref | segment => trivial

theorem unix_can_listen (w : Stack) (path : List UInt8) : CanListen w .unix (.sun path) :=
  ⟨_, _, _, _, _, rfl, rfl, set_socket_self _ _ _, rfl⟩

theorem owned_reusable (w : Stack) (call : SocketCall) (next : Stack) (owned : Owned w) (keeps : KeepsListeners w call)
    (_taken : socketStep w call = .ok next) : ReusableAfter w call next := by
  cases call with
  | close id =>
    intro sock live listening last
    cases domain : sock.domain with
    | unix =>
      have address : sock.address = .sun sock.unixName := by simp only [Socket.address, domain]
      exact address ▸ unix_can_listen next sock.unixName
    | inet =>
      obtain ⟨listener, inside, context⟩ := owned.heard id sock live domain listening
      exact absurd context (keeps sock live last listener inside)
  | socket | bind | listen | accept | ref | segment => trivial

theorem boot_owned (devs : Nat → NetDev) (devList : List Nat) : Owned (bootNet devs devList) :=
  ⟨fun _ inside => absurd inside List.not_mem_nil, nofun, nofun,
    nofun, fun _ inside => absurd inside List.not_mem_nil, List.nodup_nil, fun _ _ => rfl, fun _ _ =>
      rfl,
    nofun⟩

theorem listeners_lead_to_sockets (devs : Nat → NetDev) (devList : List Nat) (calls : List SocketCall) :
    Permitted socketStep KeepsListeners (bootNet devs devList) calls ↔
      (∃ final, run socketStep (bootNet devs devList) calls = .ok final) ∧
        Always socketStep ListenersLive (bootNet devs devList) calls ∧
        EachStep socketStep ReusableAfter (bootNet devs devList) calls := by
  have start := boot_owned devs devList
  constructor
  · intro permitted
    refine permitted_steps (fun w call owned allowed => ?_) start owned_listeners_live permitted
    obtain ⟨next, taken⟩ := owned_moves call owned
    exact ⟨next, taken, owned_step w call next owned allowed taken, owned_reusable w call next owned allowed taken⟩
  · rintro ⟨⟨final, ended⟩, always, _⟩
    exact (permitted_iff_always owned_step start owned_listeners_live live_needs_listeners_kept ended).mpr always

-- The entry of a closed listener keeps the address, and the next handshake runs the accept handler on the freed socket.
def listenAndClose : List SocketCall := [.socket .inet .stream 0 false, .bind 0 (.sin 0 80), .listen 0, .close 0]

def clientSegment (seq ack : UInt32) (flags : UInt8) : SocketCall :=
  .segment { dev := 0, src := 0x0a000202, dst := 0x0a00020f, srcPort := 5000, dstPort := 80, seq, ack, flags, options := ⟨none, false⟩
             payload := [] } ⟨7, 0, false⟩

theorem closed_listener_stays :
    ∃ closed, run socketStep (bootNet (fun _ => ⟨0x0a00020f, 0xffffff00, 0⟩) [0]) listenAndClose = .ok closed ∧
    ¬ ListenersLive closed ∧ ¬ CanListen closed .inet (.sin 0 80) ∧
    run socketStep closed [clientSegment 1000 0 0x02, clientSegment 1001 0x4c595308 0x10] = .error (.destroyedSocket 0) := by
  refine ⟨_, rfl, fun live => ?_, ?_, rfl⟩
  · have still := live ⟨0, 80, none, true, 0⟩ (by decide)
    exact absurd still (by decide)
  rintro ⟨made, id, sock, bound, after, created, binds, there, listens⟩
  cases created
  cases binds
  cases there
  cases listens

def ConnsOwned (w : Stack) : Prop :=
  w.tcpConns.Nodup ∧ ∀ s id, w.connOf s = some id → (∃ conn, w.conns id = some conn) ∧ ∀ t, w.connOf t = some id → t = s

theorem conns_have_one_owner {devs : Nat → NetDev} {devList : List Nat} {calls : List SocketCall}
    (kept : Permitted socketStep KeepsListeners (bootNet devs devList) calls) :
    Always socketStep ConnsOwned (bootNet devs devList) calls := by
  refine permitted_always owned_step (boot_owned devs devList)
    (fun w owned => ⟨owned.nodup, fun s id holds => ⟨?_, fun t too => ?_⟩⟩) kept
  · exact (owned.owner s id holds).imp (fun _ => And.left)
  · exact owned.single t s id too holds

theorem accepted_conn_owned : Always socketStep ConnsOwned (bootNet (fun _ => ⟨0x0a00020f, 0xffffff00, 0⟩) [0])
    (listenAndClose.take 3 ++ [clientSegment 1000 0 0x02, clientSegment 1001 0x4c595308 0x10, .accept 0]) :=
  conns_have_one_owner (by repeat first | trivial | refine ⟨trivial, fun _ _ => ?_⟩)

end Lyr.Net
