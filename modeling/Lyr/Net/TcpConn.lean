import Lyr.Lib.Ring

set_option autoImplicit false

namespace Lyr.Net

open Lyr.Lib

-- What tcp_parse_syn_options keeps of a SYN.
structure SynOptions where
  wscale : Option UInt8
  sack : Bool
  deriving DecidableEq, Repr

-- As net_tcp_receive sees it after the header checks.
structure TcpSegment where
  dev : Nat
  src : UInt32
  dst : UInt32
  srcPort : UInt16
  dstPort : UInt16
  seq : UInt32
  ack : UInt32
  flags : UInt8
  options : SynOptions
  payload : List UInt8
  deriving DecidableEq, Repr

def TcpSegment.fin (seg : TcpSegment) : Bool := seg.flags &&& 0x01 != 0
def TcpSegment.syn (seg : TcpSegment) : Bool := seg.flags &&& 0x02 != 0
def TcpSegment.rst (seg : TcpSegment) : Bool := seg.flags &&& 0x04 != 0
def TcpSegment.acks (seg : TcpSegment) : Bool := seg.flags &&& 0x10 != 0

-- rxBuf is NULL under a listen handler; the only accept handler is that of the socket layer.
structure TcpConn where
  dev : Nat
  remoteIp : UInt32
  remotePort : UInt16
  localPort : UInt16
  seq : UInt32
  ack : UInt32
  rxBuf : Option Bytes
  rxCap : Nat
  rxLen : Nat
  rxHead : Nat
  sndWscale : UInt8
  peerWscaleSeen : Bool
  sackPermitted : Bool
  handler : Option Nat
  acceptHandler : Bool
  handlerCtx : Nat
  passive : Bool
  connected : Bool
  closed : Bool
  error : Bool
  readShutdown : Bool
  writeShutdown : Bool

def TCP_ACTIVE_RX_CAP : Nat := 4 * 1024 * 1024
def TCP_RCVBUF_MIN : Nat := 64 * 1024
def TCP_RCVBUF_MAX : Nat := 4 * 1024 * 1024
def TCP_PASSIVE_RESPONSE_CAP : Nat := 32768

def tcpRecvWindowFull (conn : TcpConn) : Nat := match conn.rxBuf with
  | none => 0
  | some _ => if conn.rxLen ≥ conn.rxCap then 0 else conn.rxCap - conn.rxLen

def tcpRxTail (conn : TcpConn) : Nat := (conn.rxHead + conn.rxLen) % conn.rxCap

def tcpRxPush (conn : TcpConn) (payload : List UInt8) : TcpConn :=
  { conn with rxBuf := conn.rxBuf.map (fun ring => ringPush ring conn.rxCap (tcpRxTail conn) payload)
              rxLen := conn.rxLen + payload.length }

def tcpRxPop (conn : TcpConn) (length : Nat) : TcpConn × List UInt8 :=
  ({ conn with rxHead := (conn.rxHead + length) % conn.rxCap, rxLen := conn.rxLen - length },
    match conn.rxBuf with
    | none => []
    | some ring => ringPop ring conn.rxCap conn.rxHead length)

def tcpApplyOptions (conn : TcpConn) (options : SynOptions) : TcpConn :=
  { conn with sndWscale := match options.wscale with
                | none => conn.sndWscale
                | some shift => if shift > 14 then 14 else shift
              peerWscaleSeen := conn.peerWscaleSeen || options.wscale.isSome
              sackPermitted := conn.sackPermitted || options.sack }

-- From one byte on, 22 turns reach TCP_RCVBUF_MAX.
def tcpGrowCap (incoming queued : Nat) : Nat → Nat → Nat
  | 0, cap => cap
  | turns + 1, cap =>
    if cap < TCP_RCVBUF_MAX ∧ incoming > cap - queued then tcpGrowCap incoming queued turns (min (cap * 2) TCP_RCVBUF_MAX)
    else cap

def tcpRxAutotune (conn : TcpConn) (incoming : Nat) : TcpConn := match conn.rxBuf with
  | none => conn
  | some ring =>
    if incoming ≤ tcpRecvWindowFull conn then conn
    else if conn.rxCap ≥ TCP_RCVBUF_MAX then conn
    else
      let cap := tcpGrowCap incoming conn.rxLen 22 (if conn.rxCap = 0 then TCP_RCVBUF_MIN else conn.rxCap)
      if cap ≤ conn.rxCap then conn
      else { conn with rxBuf := some (storeBytes (fun _ => 0) 0 (ringPop ring conn.rxCap conn.rxHead conn.rxLen))
                       rxCap := cap, rxHead := 0 }

def tcpReceivePayload (conn : TcpConn) (payload : List UInt8) : TcpConn :=
  if payload.isEmpty then conn
  else
    let conn := tcpRxAutotune conn payload.length
    if payload.length ≤ tcpRecvWindowFull conn then
      let conn := tcpRxPush conn payload
      { conn with ack := conn.ack + UInt32.ofNat payload.length }
    else conn

def tcpReceiveFin (conn : TcpConn) : TcpConn := { conn with ack := conn.ack + 1, closed := true }

-- net_tcp_receive from the SYN|ACK test on.
def tcpReceiveActive (conn : TcpConn) (seg : TcpSegment) : TcpConn :=
  if seg.syn && seg.acks && seg.ack == conn.seq + 1 then
    { tcpApplyOptions conn seg.options with ack := seg.seq + 1, seq := conn.seq + 1, connected := true }
  else if !conn.connected || seg.seq != conn.ack then conn
  else
    let conn := tcpReceivePayload conn seg.payload
    if seg.fin then tcpReceiveFin conn else conn

inductive RecvError where
  | EINVAL | ENOENT | ETIMEDOUT
  deriving DecidableEq, Repr

-- net_tcp_recv after its wait, which only lets segments in.
def netTcpRecv (conn : TcpConn) (cap : Nat) : TcpConn × Except RecvError (List UInt8) :=
  if cap = 0 then (conn, .error .EINVAL)
  else if !conn.connected then (conn, .error .ENOENT)
  else if conn.readShutdown then (conn, .ok [])
  else if conn.rxLen ≠ 0 then
    let popped := tcpRxPop conn (min conn.rxLen cap)
    (popped.1, .ok popped.2)
  else if conn.error then (conn, .error .ENOENT)
  else if conn.closed then (conn, .ok [])
  else (conn, .error .ETIMEDOUT)

def TcpConn.queued (conn : TcpConn) : List UInt8 := match conn.rxBuf with
  | none => []
  | some ring => ringBytes ring conn.rxCap conn.rxHead conn.rxLen

structure Ringed (conn : TcpConn) : Prop where
  buffered : conn.rxBuf.isSome
  head : conn.rxHead < conn.rxCap
  fits : conn.rxLen ≤ conn.rxCap

theorem grow_cap_le (incoming queued turns cap : Nat) (low : cap ≤ TCP_RCVBUF_MAX) : cap ≤ tcpGrowCap incoming queued turns cap := by
  induction turns generalizing cap with
  | zero => exact Nat.le_refl cap
  | succ turns ih =>
    rw [tcpGrowCap]
    split
    · exact Nat.le_trans (by omega) (ih (min (cap * 2) TCP_RCVBUF_MAX) (Nat.min_le_right _ _))
    · exact Nat.le_refl cap

theorem grow_cap_bound (incoming queued turns cap : Nat) (low : cap ≤ TCP_RCVBUF_MAX) :
    tcpGrowCap incoming queued turns cap ≤ TCP_RCVBUF_MAX := by
  induction turns generalizing cap with
  | zero => exact low
  | succ turns ih =>
    rw [tcpGrowCap]
    split
    · exact ih _ (Nat.min_le_right _ _)
    · exact low

theorem grow_cap_room (incoming queued : Nat) {turns : Nat} (cap : Nat) (enough : TCP_RCVBUF_MAX ≤ cap * 2 ^ turns) :
    TCP_RCVBUF_MAX ≤ tcpGrowCap incoming queued turns cap ∨ incoming ≤ tcpGrowCap incoming queued turns cap - queued := by
  induction turns generalizing cap with
  | zero => exact .inl (by simpa [tcpGrowCap] using enough)
  | succ turns ih =>
    rw [tcpGrowCap]
    split
    next more =>
      apply ih
      rcases Nat.le_total (cap * 2) TCP_RCVBUF_MAX with le | ge
      · rw [Nat.min_eq_left le, Nat.mul_assoc, ← Nat.pow_succ']
        exact enough
      · rw [Nat.min_eq_right ge]
        exact Nat.le_mul_of_pos_right _ (Nat.two_pow_pos turns)
    next stop => omega

-- What the receive path does to the buffer has this form.
def TcpConn.withRing (conn : TcpConn) (ring : Bytes) (cap head length : Nat) : TcpConn :=
  { conn with rxBuf := some ring, rxCap := cap, rxHead := head, rxLen := length }

variable {conn : TcpConn} {length : Nat}

theorem with_ring_self {ring : Bytes} (same : conn.rxBuf = some ring) :
    conn.withRing ring conn.rxCap conn.rxHead conn.rxLen = conn := by
  cases conn
  simp only at same
  simp [TcpConn.withRing, same]

theorem with_ring_queued (conn : TcpConn) (ring : Bytes) (cap head length : Nat) :
    (conn.withRing ring cap head length).queued = ringBytes ring cap head length := rfl

theorem window_ring (conn : TcpConn) (ring : Bytes) {cap : Nat} (head : Nat) (fits : length ≤ cap) :
    tcpRecvWindowFull (conn.withRing ring cap head length) = cap - length := by
  have window : tcpRecvWindowFull (conn.withRing ring cap head length) = if length ≥ cap then 0 else cap - length := rfl
  rw [window]
  split <;> omega

theorem autotune_ring (incoming : Nat) (ringed : Ringed conn) :
    ∃ ring cap head, tcpRxAutotune conn incoming = conn.withRing ring cap head conn.rxLen ∧ head < cap ∧ conn.rxLen ≤ cap ∧
      ringBytes ring cap head conn.rxLen = conn.queued ∧
      (conn.rxLen + incoming ≤ cap ↔ conn.rxLen + incoming ≤ max conn.rxCap TCP_RCVBUF_MAX) := by
  obtain ⟨ring, buffer⟩ := Option.isSome_iff_exists.mp ringed.buffered
  have head := ringed.head
  have fits := ringed.fits
  have window : tcpRecvWindowFull conn = conn.rxCap - conn.rxLen := by
    rw [← with_ring_self buffer, window_ring _ _ _ fits]
    rfl
  have queued : conn.queued = ringBytes ring conn.rxCap conn.rxHead conn.rxLen := by rw [TcpConn.queued, buffer]
  by_cases roomy : conn.rxLen + incoming ≤ conn.rxCap ∨ TCP_RCVBUF_MAX ≤ conn.rxCap
  · refine ⟨ring, conn.rxCap, conn.rxHead, ?_, head, fits, queued.symm, by omega⟩
    rw [with_ring_self buffer, tcpRxAutotune, buffer]
    dsimp only
    by_cases free : incoming ≤ tcpRecvWindowFull conn
    · rw [if_pos free]
    · rw [if_neg free, if_pos (by omega)]
  -- The bytes of the old ring move to the front of the new one.
  obtain ⟨cap, grown⟩ : ∃ cap, cap = tcpGrowCap incoming conn.rxLen 22 conn.rxCap := ⟨_, rfl⟩
  have wider := grow_cap_le incoming conn.rxLen 22 conn.rxCap (by omega)
  have bound := grow_cap_bound incoming conn.rxLen 22 conn.rxCap (by omega)
  have room := grow_cap_room incoming conn.rxLen conn.rxCap (by
    rw [show TCP_RCVBUF_MAX = 1 * 2 ^ 22 by decide]
    exact Nat.mul_le_mul_right _ (by omega))
  rw [← grown] at wider bound room
  refine ⟨storeBytes (fun _ => 0) 0 (ringPop ring conn.rxCap conn.rxHead conn.rxLen), cap, 0, ?_, by omega, by omega, ?_, by omega⟩
  · rw [tcpRxAutotune, buffer]
    dsimp only
    rw [if_neg (by omega), if_neg (by omega), if_neg (show conn.rxCap ≠ 0 by omega), ← grown, if_neg (by omega)]
    rfl
  rw [queued, ring_pop_bytes ring head fits]
  apply List.ext_getElem (by simp only [ring_bytes_length])
  intro i low high
  rw [ring_bytes_length] at low
  simp only [ringBytes, List.getElem_map, List.getElem_range, Nat.zero_add]
  rw [Nat.mod_eq_of_lt (by omega), store_bytes_at (Nat.zero_le i) (by simp; omega)]
  simp [low]

theorem receive_payload_ring {payload : List UInt8} (ringed : Ringed conn) (some : payload ≠ []) :
    ∃ ring cap head, head < cap ∧
      ((conn.rxLen + payload.length ≤ max conn.rxCap TCP_RCVBUF_MAX ∧ conn.rxLen + payload.length ≤ cap ∧
          tcpReceivePayload conn payload =
            { conn.withRing ring cap head (conn.rxLen + payload.length) with ack := conn.ack + UInt32.ofNat payload.length } ∧
          ringBytes ring cap head (conn.rxLen + payload.length) = conn.queued ++ payload) ∨
        (¬ conn.rxLen + payload.length ≤ max conn.rxCap TCP_RCVBUF_MAX ∧ conn.rxLen ≤ cap ∧
          tcpReceivePayload conn payload = conn.withRing ring cap head conn.rxLen ∧
          ringBytes ring cap head conn.rxLen = conn.queued)) := by
  obtain ⟨ring, cap, head, tuned, inside, fits, kept, room⟩ := autotune_ring payload.length ringed
  have window := window_ring conn ring head fits
  have notEmpty : payload.isEmpty = false := by simpa using some
  by_cases free : conn.rxLen + payload.length ≤ cap
  · refine ⟨ringPush ring cap ((head + conn.rxLen) % cap) payload, cap, head, inside, .inl ⟨room.mp free, free, ?_, ?_⟩⟩
    · rw [tcpReceivePayload, notEmpty, tuned, if_neg Bool.false_ne_true]
      dsimp only
      rw [window, if_pos (by omega)]
      rfl
    · rw [ring_push_bytes ring inside free, kept]
  refine ⟨ring, cap, head, inside, .inr ⟨fun large => free (room.mpr large), fits, ?_, kept⟩⟩
  rw [tcpReceivePayload, notEmpty, tuned, if_neg Bool.false_ne_true]
  dsimp only
  rw [window, if_neg (by omega)]

theorem rx_pop_ring (ringed : Ringed conn) (short : length ≤ conn.rxLen) :
    (tcpRxPop conn length).2 = conn.queued.take length ∧ (tcpRxPop conn length).1.queued = conn.queued.drop length ∧
      Ringed (tcpRxPop conn length).1 := by
  obtain ⟨ring, buffer⟩ := Option.isSome_iff_exists.mp ringed.buffered
  have head := ringed.head
  have fits := ringed.fits
  refine ⟨?_, ?_, ?_⟩
  · simp only [tcpRxPop, TcpConn.queued, buffer]
    rw [ring_pop_bytes ring head (by omega), ring_take_bytes ring conn.rxCap conn.rxHead short]
  · simp only [tcpRxPop, TcpConn.queued, buffer]
    exact ring_drop_bytes ring conn.rxCap conn.rxHead short
  · exact ⟨ringed.buffered, Nat.mod_lt _ (by omega), by simp only [tcpRxPop]; omega⟩

end Lyr.Net
