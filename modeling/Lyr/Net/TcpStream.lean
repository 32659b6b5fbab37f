import Lyr.Net.Effects

set_option autoImplicit false

namespace Lyr.Net

open Lyr.Lib

-- The bytes from the initial sequence number on, and whether the FIN has come.
structure Stream where
  bytes : List UInt8
  fin : Bool
  deriving DecidableEq, Repr

-- At the next position only, and nothing follows a FIN.
def Stream.next (isn : UInt32) (stream : Stream) (seg : TcpSegment) : Option Stream :=
  if stream.fin = false ∧ seg.seq = isn + 1 + UInt32.ofNat stream.bytes.length then some ⟨stream.bytes ++ seg.payload, seg.fin⟩
    else none

def streamOf (isn : UInt32) (segs : List TcpSegment) : Option Stream := segs.foldlM (Stream.next isn) ⟨[], false⟩

def Stream.position (isn : UInt32) (stream : Stream) : UInt32 :=
  isn + 1 + UInt32.ofNat stream.bytes.length + (if stream.fin then 1 else 0)

structure Reading where
  net : Stack
  got : List UInt8
  seen : List TcpSegment

inductive StreamEvent where
  | segment (seg : TcpSegment) (env : RxEnv)
  | recv (cap : Nat)
  deriving DecidableEq, Repr

def streamStep (id : Nat) (s : Reading) : StreamEvent → Except NetFault Reading
  | .segment seg env => (tcpReceive s.net seg env).map (fun net =>
    { s with net, seen := if tcpConnFind s.net seg.key = some id then s.seen ++ [seg] else s.seen })
  | .recv cap => match s.net.conns id with
      | none => .ok s
      | some conn => .ok { s with net := s.net.setConn id (netTcpRecv conn cap).1
                                  got := s.got ++ (netTcpRecv conn cap).2.toOption.getD [] }

-- The reader has the front of the stream, the ring the rest, and conn->ack is its end.
def StreamIntact (id : Nat) (isn : UInt32) (s : Reading) : Prop :=
  ∃ accepted stream, accepted.Sublist s.seen ∧ streamOf isn accepted = some stream ∧ s.got <+: stream.bytes ∧
    ∀ conn, s.net.conns id = some conn →
      s.got ++ conn.queued = stream.bytes ∧ conn.ack = stream.position isn ∧ conn.closed = stream.fin

-- No reset, no SYN|ACK again, no FIN behind data that does not fit, and nothing after the FIN.
def Orderly (conn : TcpConn) (seg : TcpSegment) : Prop :=
  seg.rst = false ∧ ¬ (conn.passive = false ∧ seg.syn = true ∧ seg.acks = true ∧ seg.ack = conn.seq + 1) ∧
    (seg.seq = conn.ack → seg.fin = true → conn.rxLen + seg.payload.length ≤ max conn.rxCap TCP_RCVBUF_MAX) ∧
    (seg.seq = conn.ack → conn.closed = true → seg.payload = [] ∧ seg.fin = false)

instance orderlyDecidable (conn : TcpConn) (seg : TcpSegment) : Decidable (Orderly conn seg) :=
  inferInstanceAs (Decidable (_ ∧ ¬ (_ ∧ _ ∧ _ ∧ _) ∧ (_ → _ → _) ∧ (_ → _ → _)))

def OrderlyEvent (id : Nat) (s : Reading) : StreamEvent → Prop
  | .segment seg _ => tcpConnFind s.net seg.key = some id → ∀ conn ∈ s.net.conns id, Orderly conn seg
  | .recv _ => True

instance orderlyEventDecidable (id : Nat) (s : Reading) : (event : StreamEvent) → Decidable (OrderlyEvent id s event)
  | .segment seg _ => inferInstanceAs (Decidable (_ = _ → ∀ conn ∈ s.net.conns id, Orderly conn seg))
  | .recv _ => .isTrue trivial

def Ready (conn : TcpConn) : Prop :=
  (conn.passive = false ∧ conn.connected = true) ∨ (conn.passive = true ∧ conn.acceptHandler = true ∧ conn.connected = false)

structure Opening (isn : UInt32) (conn : TcpConn) : Prop where
  ringed : Ringed conn
  ready : Ready conn
  empty : conn.rxLen = 0
  ack : conn.ack = isn + 1
  opened : conn.closed = false

structure Tracks (isn : UInt32) (got : List UInt8) (stream : Stream) (conn : TcpConn) : Prop where
  ringed : Ringed conn
  bytes : got ++ conn.queued = stream.bytes
  ack : conn.ack = stream.position isn
  closed : conn.closed = stream.fin

variable {isn : UInt32} {seg : TcpSegment} {stream : Stream} {got bytes : List UInt8} {conn : TcpConn} {id : Nat} {s : Reading}
  {net : Stack}

theorem stream_snoc {accepted : List TcpSegment} {after : Stream}
    (so : streamOf isn accepted = some stream) (continues : stream.next isn seg = some after) :
    streamOf isn (accepted ++ [seg]) = some after := by
  rw [streamOf] at so ⊢
  rw [List.foldlM_append, so]
  simp [continues]

theorem position_open (isn : UInt32) (bytes : List UInt8) :
    Stream.position isn ⟨bytes, false⟩ = isn + 1 + UInt32.ofNat bytes.length := by
  simp [Stream.position]

theorem position_append (isn : UInt32) (bytes payload : List UInt8) :
    Stream.position isn ⟨bytes ++ payload, false⟩ = Stream.position isn ⟨bytes, false⟩ + UInt32.ofNat payload.length := by
  rw [position_open, position_open, List.length_append, UInt32.ofNat_add]
  exact (UInt32.add_assoc _ _ _).symm

theorem payload_tracks (payload : List UInt8) (tracks : Tracks isn got ⟨bytes, false⟩ conn) :
    (tcpReceivePayload conn payload).connected = conn.connected ∧
      ((conn.rxLen + payload.length ≤ max conn.rxCap TCP_RCVBUF_MAX ∧ Tracks isn got ⟨bytes ++ payload, false⟩
        (tcpReceivePayload conn payload)) ∨
        (¬ conn.rxLen + payload.length ≤ max conn.rxCap TCP_RCVBUF_MAX ∧ Tracks isn got ⟨bytes, false⟩
          (tcpReceivePayload conn payload))) := by
  by_cases empty : payload = []
  · subst empty
    rw [List.append_nil]
    exact ⟨rfl, .inl ⟨Nat.le_trans tracks.ringed.fits (Nat.le_max_left _ _), tracks⟩⟩
  obtain ⟨ring, cap, head, inside, ⟨room, fits, result, queue⟩ | ⟨full, fits, result, queue⟩⟩ :=
    receive_payload_ring tracks.ringed empty
  · rw [result]
    refine ⟨rfl, .inl ⟨room, ⟨rfl, inside, fits⟩, ?_, ?_, tracks.closed⟩⟩
    · have held : got ++ ringBytes ring cap head (conn.rxLen + payload.length) = bytes ++ payload := by
        rw [queue, ← List.append_assoc, tracks.bytes]
      exact held
    · rw [position_append, ← tracks.ack]
  rw [result]
  refine ⟨rfl, .inr ⟨full, ⟨rfl, inside, fits⟩, ?_, tracks.ack, tracks.closed⟩⟩
  rw [with_ring_queued, queue]
  exact tracks.bytes

theorem fin_tracks (tracks : Tracks isn got ⟨bytes, false⟩ conn) :
    Tracks isn got ⟨bytes, true⟩ (tcpReceiveFin conn) := by
  refine ⟨⟨tracks.ringed.buffered, tracks.ringed.head, tracks.ringed.fits⟩, tracks.bytes, ?_, rfl⟩
  have ack := tracks.ack
  rw [position_open] at ack
  simp only [tcpReceiveFin, Stream.position, ack, if_true]

theorem active_tracks
    (tracks : Tracks isn got stream conn) (connected : conn.connected = true) (active : conn.passive = false)
    (orderly : Orderly conn seg) :
    ∃ after, (after = stream ∨ stream.next isn seg = some after) ∧ Tracks isn got after (tcpReceiveActive conn seg) ∧
      (tcpReceiveActive conn seg).connected = true := by
  obtain ⟨alive, noShake, room, noMore⟩ := orderly
  have noSyn : (seg.syn && seg.acks && seg.ack == conn.seq + 1) = false := by
    by_contra shakes
    simp only [Bool.not_eq_false, Bool.and_eq_true, beq_iff_eq] at shakes
    exact noShake ⟨active, shakes.1.1, shakes.1.2, shakes.2⟩
  rw [tcpReceiveActive, noSyn, if_neg Bool.false_ne_true]
  by_cases inOrder : seg.seq = conn.ack
  · have taken : (!conn.connected || seg.seq != conn.ack) = false := by simp [inOrder, connected]
    rw [taken, if_neg Bool.false_ne_true]
    obtain ⟨bytes, fin⟩ := stream
    cases fin with
    | true =>
      -- After the FIN there is nothing to add.
      obtain ⟨nothing, noFin⟩ := noMore inOrder tracks.closed
      rw [nothing, noFin, if_neg Bool.false_ne_true]
      exact ⟨_, .inl rfl, tracks, connected⟩
    | false =>
      have continues : Stream.next isn ⟨bytes, false⟩ seg = some ⟨bytes ++ seg.payload, seg.fin⟩ := by
        rw [Stream.next, if_pos ⟨rfl, by rw [inOrder, tracks.ack, position_open]⟩]
      obtain ⟨same, ⟨_, queued⟩ | ⟨full, dropped⟩⟩ := payload_tracks seg.payload tracks
      · refine ⟨_, .inr continues, ?_⟩
        cases last : seg.fin with
        | true => exact ⟨fin_tracks queued, same.trans connected⟩
        | false => exact ⟨queued, same.trans connected⟩
      have noFin : seg.fin = false := by
        by_contra last
        exact full (room inOrder (by simpa using last))
      rw [noFin, if_neg Bool.false_ne_true]
      exact ⟨_, .inl rfl, dropped, same.trans connected⟩
  have skipped : (!conn.connected || seg.seq != conn.ack) = true := by simp [inOrder]
  rw [if_pos skipped]
  exact ⟨stream, .inl rfl, tracks, connected⟩

theorem recv_tracks (cap : Nat) (tracks : Tracks isn got stream conn) :
    Tracks isn (got ++ (netTcpRecv conn cap).2.toOption.getD []) stream (netTcpRecv conn cap).1 := by
  have nothing : Tracks isn (got ++ []) stream conn := by rwa [List.append_nil]
  rw [netTcpRecv]
  split
  · exact nothing
  split
  · exact nothing
  split
  · exact nothing
  split
  · obtain ⟨popped, rest, ringed⟩ := rx_pop_ring tracks.ringed (Nat.min_le_left _ _)
    refine ⟨ringed, ?_, tracks.ack, tracks.closed⟩
    simp only [Except.toOption, Option.getD_some]
    rw [popped, rest, List.append_assoc, List.take_append_drop, tracks.bytes]
  split
  · exact nothing
  split
  · exact nothing
  · exact nothing

theorem recv_ready (cap : Nat) (ready : Ready conn) : Ready (netTcpRecv conn cap).1 := by
  rw [netTcpRecv]
  repeat' split
  all_goals exact ready

structure Follows (id : Nat) (isn : UInt32) (s : Reading) : Prop where
  numbered : id < s.net.nextConn
  stream : ∃ accepted stream, accepted.Sublist s.seen ∧ streamOf isn accepted = some stream ∧ s.got <+: stream.bytes ∧
    ∀ conn, s.net.conns id = some conn → Tracks isn s.got stream conn ∧ Ready conn

theorem follows_intact (s : Reading) (follows : Follows id isn s) : StreamIntact id isn s := by
  obtain ⟨accepted, stream, sublist, so, front, tracks⟩ := follows.stream
  exact ⟨accepted, stream, sublist, so, front, fun conn live =>
    ⟨(tracks conn live).1.bytes, (tracks conn live).1.ack, (tracks conn live).1.closed⟩⟩

theorem follows_frame {seen : List TcpSegment} (follows : Follows id isn s)
    (count : s.net.nextConn ≤ net.nextConn) (more : s.seen.Sublist seen)
    (same : ∀ conn, net.conns id = some conn → s.net.conns id = some conn) : Follows id isn { s with net, seen } := by
  obtain ⟨accepted, stream, sublist, so, front, tracks⟩ := follows.stream
  exact ⟨Nat.lt_of_lt_of_le follows.numbered count, accepted, stream, sublist.trans more, so, front,
    fun conn live => tracks conn (same conn live)⟩

theorem follows_taken {next : TcpConn}
    (follows : Follows id isn s) (count : s.net.nextConn ≤ net.nextConn) (live : s.net.conns id = some conn)
    (now : net.conns id = some next) (ready : Ready next)
    (tracks : ∀ stream, Tracks isn s.got stream conn →
      ∃ after, (after = stream ∨ stream.next isn seg = some after) ∧ Tracks isn s.got after next) :
    Follows id isn { s with net, seen := s.seen ++ [seg] } := by
  obtain ⟨accepted, stream, sublist, so, front, before⟩ := follows.stream
  obtain ⟨after, step, kept⟩ := tracks stream (before conn live).1
  have front : s.got <+: after.bytes := kept.bytes ▸ List.prefix_append _ _
  have later (other : TcpConn) (there : net.conns id = some other) : Tracks isn s.got after other ∧ Ready other := by
    rw [now, Option.some.injEq] at there
    exact there ▸ ⟨kept, ready⟩
  refine ⟨Nat.lt_of_lt_of_le follows.numbered count, ?_⟩
  rcases step with rfl | continues
  · exact ⟨accepted, after, sublist.trans (List.sublist_append_left _ _), so, front, later⟩
  · exact ⟨accepted ++ [seg], after, sublist.append_right [seg], stream_snoc so continues, front, later⟩

theorem ready_active (ready : Ready conn) (active : conn.passive = false) : conn.connected = true := by
  rcases ready with ⟨_, connected⟩ | ⟨passive, _, _⟩
  · exact connected
  · rw [active] at passive
    cases passive

theorem ready_passive (ready : Ready conn) (passive : conn.passive = true) :
    conn.acceptHandler = true ∧ conn.connected = false := by
  rcases ready with ⟨active, _⟩ | ⟨_, waits⟩
  · rw [passive] at active
    cases active
  · exact waits

theorem active_connected
    (tracks : Tracks isn got stream conn) (connected : conn.connected = true) (active : conn.passive = false)
    (orderly : Orderly conn seg) :
    Ready (tcpReceiveActive conn seg) := by
  obtain ⟨_, _, _, still⟩ := active_tracks tracks connected active orderly
  exact .inl ⟨(receive_active_keeps conn seg).passive.trans active, still⟩

theorem accepted_orderly (acknowledged : seg.ack = conn.seq + 1) (orderly : Orderly conn seg) :
    Orderly { established conn with passive := false } seg := by
  obtain ⟨alive, _, room, noMore⟩ := orderly
  refine ⟨alive, fun again => ?_, room, noMore⟩
  have next : seg.ack = conn.seq + 1 + 1 := again.2.2.2
  rw [acknowledged] at next
  exact absurd (UInt32.add_eq_left.mp next.symm) (by decide)

theorem follows_segment {env : RxEnv}
    (follows : Follows id isn s) (orderly : OrderlyEvent id s (.segment seg env)) (received : Received s.net seg env net) :
    Follows id isn { s with net, seen := if tcpConnFind s.net seg.key = some id then s.seen ++ [seg] else s.seen } := by
  have more : s.seen.Sublist (if tcpConnFind s.net seg.key = some id then s.seen ++ [seg] else s.seen) := by
    split
    · exact List.sublist_append_left _ _
    · exact List.Sublist.refl _
  cases received with
  | ignored unknown => exact follows_frame follows (Nat.le_refl _) more (fun conn live => live)
  | opened listener unknown found =>
    refine follows_frame follows (Nat.le_succ _) more (fun conn live => ?_)
    rwa [← new_conn_other (listenConn seg listener env.ticks) (Nat.ne_of_lt follows.numbered)]
  | freed other conn found live passive =>
    exact follows_frame follows (Nat.le_refl _) more (fun conn live => (drop_conn_live live).2)
  | kept other conn next found live passive stays =>
    refine follows_frame follows (Nat.le_refl _) more (fun here now => ?_)
    by_cases same : id = other
    · subst same
      obtain ⟨_, _, _, _, _, tracks⟩ := follows.stream
      obtain ⟨handler, waits⟩ := ready_passive (tracks conn live).2 passive
      rw [set_conn_self, stays.waits handler waits] at now
      rw [live, now]
    · rwa [set_conn_other s.net next same] at now
  | active other conn found live active =>
    by_cases same : id = other
    · subst same
      have orderly := orderly found conn live
      obtain ⟨_, stream, _, _, _, tracks⟩ := follows.stream
      obtain ⟨tracks, ready⟩ := tracks conn live
      have connected := ready_active ready active
      have plain : afterActive conn seg = tcpReceiveActive conn seg := by rw [afterActive, orderly.1, if_neg Bool.false_ne_true]
      rw [if_pos found, plain]
      refine follows_taken follows (Nat.le_refl _) live (set_conn_self _ _ _)
        (active_connected tracks connected active orderly) (fun stream tracks => ?_)
      obtain ⟨after, step, kept, _⟩ := active_tracks tracks connected active orderly
      exact ⟨after, step, kept⟩
    · refine follows_frame follows (Nat.le_refl _) more (fun here now => ?_)
      rwa [set_conn_other s.net _ same] at now
  | accepted other conn listener inet found live passive handler waits acknowledged context bound =>
    by_cases same : id = other
    · subst same
      have orderly := accepted_orderly acknowledged (orderly found conn live)
      have handed (stream : Stream) (tracks : Tracks isn s.got stream conn) :
          Tracks isn s.got stream { established conn with passive := false } :=
        ⟨⟨tracks.ringed.buffered, tracks.ringed.head, tracks.ringed.fits⟩, tracks.bytes, tracks.ack, tracks.closed⟩
      obtain ⟨_, stream, _, _, _, tracks⟩ := follows.stream
      rw [if_pos found]
      refine follows_taken follows (Nat.le_refl _) live (set_conn_self _ _ _)
        (active_connected (handed stream (tracks conn live).1) rfl rfl orderly) (fun stream tracks => ?_)
      obtain ⟨after, step, kept, _⟩ := active_tracks (handed stream tracks) rfl rfl orderly
      exact ⟨after, step, kept⟩
    refine follows_frame follows (Nat.le_refl _) more (fun here now => ?_)
    rw [afterAccept, set_conn_other _ _ same] at now
    exact (set_conn_other s.net _ same).symm.trans now

theorem follows_step (s : Reading) (event : StreamEvent) (next : Reading) (follows : Follows id isn s)
    (orderly : OrderlyEvent id s event) (taken : streamStep id s event = .ok next) : Follows id isn next := by
  cases event with
  | segment seg env =>
    obtain ⟨net, received, rfl⟩ := map_ok.mp taken
    exact follows_segment follows orderly (receive_effect received)
  | recv cap =>
    rw [streamStep] at taken
    cases live : s.net.conns id with
    | none =>
      simp only [live, Except.ok.injEq] at taken
      exact taken ▸ follows
    | some conn =>
      simp only [live, Except.ok.injEq] at taken
      obtain ⟨accepted, stream, sublist, so, front, tracks⟩ := follows.stream
      have popped := recv_tracks cap (tracks conn live).1
      rw [← taken]
      refine ⟨follows.numbered, accepted, stream, sublist, so, popped.bytes ▸ List.prefix_append _ _, fun other now => ?_⟩
      rw [set_conn_self, Option.some.injEq] at now
      exact now ▸ ⟨popped, recv_ready cap (tracks conn live).2⟩

theorem connect_opening (dev : Nat) (ip : UInt32) (port : UInt16) (portTicks seqTicks : Nat) (seg : TcpSegment)
    (syn : seg.syn = true) (acks : seg.acks = true) (acknowledged : seg.ack = (connectConn dev ip port portTicks seqTicks).seq + 1) :
    Opening seg.seq (tcpReceiveActive (connectConn dev ip port portTicks seqTicks) seg) := by
  have shakes : (seg.syn && seg.acks && seg.ack == (connectConn dev ip port portTicks seqTicks).seq + 1) = true := by
    simp [syn, acks, acknowledged]
  have room : 0 < TCP_ACTIVE_RX_CAP := by decide
  rw [tcpReceiveActive, if_pos shakes]
  exact ⟨⟨rfl, room, Nat.zero_le _⟩, .inl ⟨rfl, rfl⟩, rfl, rfl, rfl⟩

theorem opening_follows (numbered : id < net.nextConn)
    (live : net.conns id = some conn) (opening : Opening isn conn) : Follows id isn ⟨net, [], []⟩ := by
  refine ⟨numbered, [], ⟨[], false⟩, List.Sublist.refl _, rfl, List.prefix_rfl, fun other now => ?_⟩
  cases live.symm.trans now
  refine ⟨⟨opening.ringed, ?_, ?_, opening.opened⟩, opening.ready⟩
  · rw [TcpConn.queued, opening.empty]
    split
    · rfl
    · rfl
  · rw [opening.ack, position_open]
    simp

theorem received_stream_intact (id : Nat) (isn : UInt32) (net : Stack) (conn : TcpConn) (numbered : id < net.nextConn)
    (live : net.conns id = some conn) (opening : Opening isn conn) (events : List StreamEvent)
    (orderly : Permitted (streamStep id) (OrderlyEvent id) ⟨net, [], []⟩ events) :
    Always (streamStep id) (StreamIntact id isn) ⟨net, [], []⟩ events :=
  permitted_always follows_step (opening_follows numbered live opening) follows_intact orderly

def peerSegment (seq ack : UInt32) (flags : UInt8) (payload : List UInt8) : TcpSegment :=
  { dev := 0, src := 0x0a000202, dst := 0x0a00020f, srcPort := 80, dstPort := 40007, seq, ack, flags, options := ⟨none,
    false⟩, payload }

def peerConn : TcpConn := tcpReceiveActive (connectConn 0 0x0a000202 80 7 7) (peerSegment 1000 0x4c595208 0x12 [])

def peerNet : Stack :=
  { bootNet (fun _ => ⟨0x0a00020f, 0xffffff00, 0⟩) [0] with
      conns := fun id => if id = 0 then some peerConn else none, tcpConns := [0], nextConn := 1 }

def peerEvents : List StreamEvent :=
  [.segment (peerSegment 1004 0x4c595208 0x10 [68]) ⟨9, 0, false⟩, .segment (peerSegment 1001 0x4c595208 0x10 [65, 66, 67])
    ⟨9, 0, false⟩,
    .segment (peerSegment 1001 0x4c595208 0x10 [65, 66, 67]) ⟨9, 0, false⟩, .recv 2,
    .segment (peerSegment 1004 0x4c595208 0x11 [68]) ⟨10, 0, false⟩, .recv 9, .recv 9]

theorem peer_stream_intact : (∃ final, run (streamStep 0) ⟨peerNet, [], []⟩ peerEvents = .ok final ∧ final.got = [65, 66, 67, 68]) ∧
    Always (streamStep 0) (StreamIntact 0 1000) ⟨peerNet, [], []⟩ peerEvents :=
  ⟨⟨_, rfl, by decide⟩, received_stream_intact 0 1000 peerNet peerConn (by decide) rfl
    (connect_opening 0 0x0a000202 80 7 7 (peerSegment 1000 0x4c595208 0x12 []) (by decide) (by decide) (by decide)) peerEvents
      (by decide)⟩

-- A second SYN|ACK starts the connection over at another sequence number.
def repeatedSynAck : List StreamEvent :=
  [.segment (peerSegment 1001 0x4c595208 0x10 [65]) ⟨9, 0, false⟩, .segment (peerSegment 5000 0x4c595209 0x12 []) ⟨9, 0, false⟩]

theorem repeated_syn_ack_moves_stream : Opening 1000 peerConn ∧
    ∃ final, run (streamStep 0) ⟨peerNet, [], []⟩ repeatedSynAck = .ok final ∧ ¬ StreamIntact 0 1000 final := by
  refine ⟨connect_opening 0 0x0a000202 80 7 7 (peerSegment 1000 0x4c595208 0x12 []) (by decide) (by decide) (by decide), _, rfl, ?_⟩
  rintro ⟨accepted, ⟨bytes, fin⟩, _, _, _, holds⟩
  obtain ⟨queued, ack, _⟩ := holds _ rfl
  have one : [65] = bytes := queued
  have moved : (5001 : UInt32) = Stream.position 1000 ⟨bytes, fin⟩ := ack
  rw [← one] at moved
  cases fin with
  | false | true => exact absurd moved (by decide)

end Lyr.Net
