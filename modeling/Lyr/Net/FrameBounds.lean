import Lyr.Net.Frame

set_option autoImplicit false

namespace Lyr.Net

open Lyr.Lib

def Inside {α : Type} (reading : Rx α) : Prop := Yields reading (fun _ => True)

variable {α β : Type} {frame sibling : Frame} {i count now len msg dev : Nat} {dgram : UdpDgram} {rx : Ipv4Rx} {s : Inet} {value : α}
    {reading : Rx α} {next : α → Rx β}

theorem inside_ok : Inside (.ok value) := yields_ok trivial

theorem inside_bind (first : Inside reading) (then_ : ∀ value, Inside (next value)) :
    Inside (reading >>= next) := yields_bind reading next _ _ first (fun value _ => then_ value)

theorem inside_read (read : reading = .ok value) (then_ : Inside (next value)) :
    Inside (reading >>= next) := by
  rw [read]
  exact then_

theorem inside_byte {next : UInt8 → Rx β} (inside : i < frame.length) (then_ : ∀ value, Inside (next value)) :
    Inside (byteAt frame i >>= next) :=
  inside_read (byte_at inside) (then_ _)

theorem inside_be16 {next : UInt16 → Rx β} (inside : i + 2 ≤ frame.length) (then_ : ∀ value, Inside (next value)) :
    Inside (be16At frame i >>= next) := inside_read (be16_at frame i inside) (then_ _)

theorem inside_be32 {next : UInt32 → Rx β} (inside : i + 4 ≤ frame.length) (then_ : ∀ value, Inside (next value)) :
    Inside (be32At frame i >>= next) := inside_read (be32_at inside) (then_ _)

theorem inside_bytes {start : Nat} {next : List UInt8 → Rx β} (inside : start + count ≤ frame.length)
    (then_ : ∀ value, Inside (next value)) :
    Inside (bytesAt frame start count >>= next) := inside_read (bytes_at inside) (then_ _)

theorem inside_ite {p : Prop} [Decidable p] {yes no : Rx α} (first : p → Inside yes) (second : ¬ p → Inside no) :
    Inside (if p then yes else no) := by
  split
  next holds => exact first holds
  next fails => exact second fails

theorem inside_unless {p : Prop} [Decidable p] {no : Rx α} (second : ¬ p → Inside no) : Inside (if p then .ok value else no) :=
  inside_ite (fun _ => inside_ok) second

theorem arp_inside (s : Inet) (dev : Nat) {arp : Nat} (room : arp + ARP_PKT ≤ frame.length) :
    Inside (netArpReceive s dev frame arp now) := by
  rw [ARP_PKT] at room
  refine inside_be16 (by omega) (fun oper => inside_unless (fun _ => ?_))
  refine inside_be32 (by omega) (fun spa => ?_)
  exact inside_bytes (by omega) (fun sha => inside_ok)

theorem dhcp_value_inside {v : Nat} (code : UInt8) (options : DhcpOptions) (room : v + len ≤ frame.length) :
    Inside (dhcpValue frame v code len options) := by
  refine inside_ite (fun one => ?_) (fun _ => inside_ite (fun four => ?_) (fun _ => inside_ok))
  · exact inside_byte (by omega) (fun _ => inside_ok)
  refine inside_be32 (by omega) (fun value => ?_)
  exact inside_unless (fun _ => inside_ite (fun _ => inside_ok)
    (fun _ => inside_unless (fun _ => inside_ok)))

theorem dhcp_option_turn {base optLen : Nat} (room : base + optLen ≤ frame.length) (state : Nat × DhcpOptions) :
    Yields (dhcpOption frame base optLen state) (Sum.elim (fun next => True ∧ optLen - next.1 < optLen - state.1) (fun _ => True)) :=
  by
  obtain ⟨pos, options⟩ := state
  simp only [dhcpOption]
  split
  · exact yields_ok trivial
  next more =>
    rw [byte_at (by omega)]
    refine yields_bind _ _ (fun _ => True) _ (yields_ok trivial) (fun code _ => ?_)
    split
    · exact yields_ok ⟨trivial, by simp only; omega⟩
    split
    · exact yields_ok trivial
    next goes =>
      rw [byte_at (by omega)]
      refine yields_bind _ _ (fun _ => True) _ (yields_ok trivial) (fun len _ => ?_)
      split
      · exact yields_ok trivial
      next fits =>
        refine yields_bind _ _ _ _ (dhcp_value_inside code options (by omega)) (fun options _ => ?_)
        exact yields_ok ⟨trivial, by simp only; omega⟩

theorem dhcp_options_inside (frame : Frame) (base optLen : Nat) (options : DhcpOptions) (room : base + optLen ≤ frame.length) :
    Inside (walk (dhcpOption frame base optLen) (optLen + 1) (0, options)) :=
  yields_walk _ (fun _ => True) (fun state => optLen - state.1) _ (fun state _ => dhcp_option_turn room state) _ _ trivial
    (Nat.lt_succ_self _)

section

variable (room : dgram.payload + dgram.payloadLen ≤ frame.length)
include room

theorem dhcp_offered_inside (s : Inet) (enough : DHCP_PKT ≤ dgram.payloadLen) :
    Inside (dhcpOffered s frame dgram) := by
  have size : DHCP_PKT = 240 := rfl
  have options := dhcp_options_inside frame (dgram.payload + DHCP_PKT) (dgram.payloadLen - DHCP_PKT) ⟨0, 0, 0, 0, 0⟩ (by omega)
  rw [dhcpOffered]
  refine inside_bind options (fun found => inside_unless (fun _ => ?_))
  exact inside_be32 (by omega) (fun _ => inside_ok)

theorem dhcp_inside (s : Inet) :
    Inside (dhcpUdpReceive s frame dgram) := by
  refine inside_unless (fun _ => inside_unless (fun _ => inside_ite (fun _ => inside_ok)
    (fun enough => ?_)))
  have size : DHCP_PKT = 240 := rfl
  refine inside_be32 (by omega) (fun xid => ?_)
  refine inside_be32 (by omega) (fun magic => ?_)
  refine inside_byte (by omega) (fun op => ?_)
  refine inside_bytes (by omega) (fun chaddr => ?_)
  exact inside_unless (fun _ => dhcp_offered_inside room s (by omega))

end

section

variable (pos : Nat) (room : msg + len ≤ frame.length)
include pos room

theorem dns_skip_name_yields :
    Yields (dnsSkipName frame msg len pos) (fun result => ∀ p ∈ result, p ≤ len) := by
  refine yields_walk (dnsLabel frame msg len) (fun _ => True) (fun p => len - p) _ (fun p _ => ?_) _ _ trivial
    (by omega)
  rw [dnsLabel]
  split
  · exact yields_ok nofun
  next more =>
    rw [byte_at (by omega)]
    refine yields_bind _ _ (fun _ => True) _ (yields_ok trivial) (fun n _ => ?_)
    split
    · refine yields_ok (fun q same => ?_)
      cases same
      omega
    split
    · split
      · exact yields_ok nofun
      next pointer =>
        refine yields_ok (fun q same => ?_)
        cases same
        omega
    split
    · exact yields_ok nofun
    next goes => exact yields_ok ⟨trivial, by omega⟩

theorem dns_questions_inside : Inside (dnsQuestions frame msg len count pos) := by
  induction count generalizing pos with
  | zero => exact inside_ok
  | succ count ih =>
    refine yields_bind _ _ _ _ (dns_skip_name_yields pos room) (fun skipped within => ?_)
    cases skipped with
    | none => exact inside_ok
    | some p => exact inside_unless (fun _ => ih (p + 4))

theorem dns_answers_inside : Inside (dnsAnswers frame msg len count pos) := by
  induction count generalizing pos with
  | zero => exact inside_ok
  | succ count ih =>
    refine yields_bind _ _ _ _ (dns_skip_name_yields pos room) (fun skipped within => ?_)
    cases skipped with
    | none => exact inside_ok
    | some p =>
      refine inside_unless (fun header => ?_)
      refine inside_be16 (by omega) (fun type => ?_)
      refine inside_be16 (by omega) (fun klass => ?_)
      refine inside_be16 (by omega) (fun rdlen => ?_)
      refine inside_unless (fun data => inside_ite (fun address => ?_) (fun _ => ih _))
      rw [address.2.2] at data
      exact inside_be32 (by simp only [UInt16.reduceToNat] at data; omega) (fun _ => inside_ok)

end

section

variable (room : dgram.payload + dgram.payloadLen ≤ frame.length)
include room

theorem dns_inside (s : Inet) (udp : dgram.udpLen = dgram.payloadLen + UDP_HDR) :
    Inside (dnsUdpReceive s frame dgram) := by
  rw [dnsUdpReceive]
  split
  · exact inside_ok
  next key _ =>
    refine inside_unless (fun _ => inside_unless (fun header => ?_))
    rw [udp, UDP_HDR, DNS_HDR] at header
    refine inside_be16 (by omega) (fun id => ?_)
    refine inside_be16 (by omega) (fun flags => inside_unless (fun _ => ?_))
    refine inside_be16 (by omega) (fun qd => ?_)
    refine inside_be16 (by omega) (fun an => ?_)
    refine inside_bind (dns_questions_inside _ room) (fun asked => ?_)
    cases asked with
    | none => exact inside_ok
    | some pos =>
      refine inside_bind (dns_answers_inside _ room) (fun answer => ?_)
      cases answer with
      | none => exact inside_ok
      | some ip => exact inside_ok

theorem socket_udp_inside (s : Inet) :
    Inside (socketUdpReceive s frame dgram) := by
  rw [socketUdpReceive]
  split
  · exact inside_ok
  next id _ =>
    refine inside_unless (fun _ => ?_)
    exact inside_bytes (by omega) (fun _ => inside_ok)

end

theorem raw_deliver_inside (srcIp dstIp : UInt32) (s : Inet) (ipLen : Nat) {socks : List Nat}
    (room : ETH_HDR + ipLen ≤ frame.length) : Inside (rawDeliver frame srcIp dstIp s ipLen socks) := by
  induction socks generalizing s ipLen with
  | nil => exact inside_ok
  | cons id rest ih =>
    have cut : ETH_HDR + min ipLen SOCKET_BUF_SIZE ≤ frame.length := Nat.le_trans (Nat.add_le_add_left (Nat.min_le_left _ _) _) room
    refine inside_ite (fun _ => inside_ite (fun _ => ih s _ cut) (fun _ => ?_)) (fun _ => ih s _ room)
    exact inside_bytes cut (fun packet => ih _ _ cut)

-- As net_receive_frame checks before it calls a protocol.
structure RxFits (frame : Frame) (rx : Ipv4Rx) : Prop where
  header : IPV4_HDR ≤ rx.ihl
  total : rx.ihl ≤ rx.ipLen
  frame : ETH_HDR + rx.ipLen ≤ frame.length

theorem raw_icmp_inside (s : Inet) (fits : RxFits frame rx) : Inside (netSocketRawIcmpReceive s frame rx) := by
  obtain ⟨header, total, room⟩ := fits
  have ip : IPV4_HDR = 20 := rfl
  have icmp : ICMP_ECHO = 40 := rfl
  refine inside_be32 (by omega) (fun srcIp => ?_)
  refine inside_be32 (by omega) (fun dstIp => ?_)
  refine inside_ite (fun echo => ?_) (fun _ => raw_deliver_inside srcIp dstIp s _ room)
  refine inside_byte (by omega) (fun type => ?_)
  exact inside_unless (fun _ => raw_deliver_inside srcIp dstIp s _ room)

theorem icmp_inside (s : Inet) (fits : RxFits frame rx) : Inside (icmpIpv4Receive s frame rx now) := by
  obtain ⟨header, total, room⟩ := fits
  have ip : IPV4_HDR = 20 := rfl
  have icmp : ICMP_ECHO = 40 := rfl
  refine inside_be32 (by omega) (fun dst => inside_unless (fun _ => ?_))
  refine inside_unless (fun echo => ?_)
  refine inside_bind (raw_icmp_inside s ⟨header, total, room⟩) (fun s => ?_)
  refine inside_byte (by omega) (fun type => ?_)
  refine inside_ite (fun _ => ?_) (fun _ => inside_unless (fun _ => ?_))
  · refine inside_be32 (by omega) (fun _ => ?_)
    refine inside_be32 (by omega) (fun _ => ?_)
    refine inside_be16 (by omega) (fun _ => ?_)
    refine inside_be16 (by omega) (fun _ => ?_)
    exact inside_bytes (by omega) (fun _ => inside_ok)
  refine inside_be16 (by omega) (fun ident => ?_)
  refine inside_be16 (by omega) (fun seq => ?_)
  refine inside_be32 (by omega) (fun src => inside_ite (fun _ => ?_) (fun _ => inside_ok))
  exact inside_byte (by omega) (fun _ => inside_ok)

theorem udp_inside (s : Inet) (fits : RxFits frame rx) : Inside (udpIpv4Receive s frame rx) := by
  obtain ⟨header, total, room⟩ := fits
  have ip : IPV4_HDR = 20 := rfl
  have udp : UDP_HDR = 8 := rfl
  refine inside_unless (fun enough => ?_)
  refine inside_be16 (by omega) (fun len => inside_unless (fun within => ?_))
  refine inside_be32 (by omega) (fun srcIp => ?_)
  refine inside_be32 (by omega) (fun dstIp => ?_)
  refine inside_be16 (by omega) (fun srcPort => ?_)
  refine inside_be16 (by omega) (fun dstPort => ?_)
  have payload : ETH_HDR + rx.ihl + UDP_HDR + (len.toNat - UDP_HDR) ≤ frame.length := by omega
  refine inside_bind (dhcp_inside payload s) (fun s => ?_)
  refine inside_bind (dns_inside payload s ?_) (fun s => socket_udp_inside payload s)
  simp only
  omega

theorem tcp_option_turn (state : Nat × Nat × SynOptions) (room : state.1 + state.2.1 ≤ frame.length) :
    Yields (tcpOption frame state) (Sum.elim (fun next => next.1 + next.2.1 ≤ frame.length ∧ next.2.1 < state.2.1) (fun _ => True)) :=
  by
  obtain ⟨opt, left, options⟩ := state
  simp only at room
  simp only [tcpOption]
  split
  · exact yields_ok trivial
  next more =>
    rw [byte_at (by omega)]
    refine yields_bind _ _ (fun _ => True) _ (yields_ok trivial) (fun kind _ => ?_)
    split
    · exact yields_ok trivial
    split
    · exact yields_ok ⟨by simp only; omega, by simp only; omega⟩
    split
    · exact yields_ok trivial
    next two =>
      rw [byte_at (by omega)]
      refine yields_bind _ _ (fun _ => True) _ (yields_ok trivial) (fun len _ => ?_)
      split
      · exact yields_ok trivial
      next fits =>
        rw [not_or, UInt8.not_lt, UInt8.le_iff_toNat_le, not_lt] at fits
        have least : 2 ≤ len.toNat := fits.1
        have goes (found : SynOptions) : Yields (.ok (.inl (opt + len.toNat, left - len.toNat, found)) : Rx _)
            (Sum.elim (fun next => next.1 + next.2.1 ≤ frame.length ∧ next.2.1 < left) (fun _ : SynOptions => True)) :=
          yields_ok ⟨by simp only; omega, by simp only; omega⟩
        split
        next scale =>
          have three : len.toNat = 3 := congrArg UInt8.toNat scale.2
          rw [byte_at (by omega)]
          exact yields_bind _ _ (fun _ => True) _ (yields_ok trivial) (fun shift _ => goes _)
        split
        · exact goes _
        · exact goes _

theorem tcp_options_inside {tcp hlen : Nat} (room : tcp + hlen ≤ frame.length) : Inside (tcpParseSynOptions frame tcp hlen) := by
  refine inside_unless (fun more => ?_)
  exact yields_walk (tcpOption frame) (fun state => state.1 + state.2.1 ≤ frame.length) (fun state => state.2.1) _ tcp_option_turn _ _
    (by simp only; omega) (Nat.lt_succ_self _)

theorem deliver_inside (s : Inet) {seg : TcpSegment} (env : RxEnv) : Inside (tcpDeliver s seg env) := by
  rw [tcpDeliver]
  split
  next fault _ => exact ⟨nofun, fun other same => ⟨fault, (Except.error.inj same).symm⟩⟩
  · exact inside_ok

-- A SYN that net_tcp_receive hands to tcp_handle_listen_syn, and the end of the header it claims.

def frameIhl (frame : Frame) : Nat := (byteOf frame ETH_HDR &&& 0x0f).toNat * 4
def frameTcp (frame : Frame) : Nat := ETH_HDR + frameIhl frame
def frameTcpEnd (frame : Frame) : Nat := frameTcp frame + (byteOf frame (frameTcp frame + 12) >>> 4).toNat * 4
def frameIpLen (frame : Frame) : Nat := (be16Of frame (ETH_HDR + 2)).toNat

def frameKey (dev : Nat) (frame : Frame) : TcpKey :=
  ⟨dev, be32Of frame (ETH_HDR + 12), be16Of frame (frameTcp frame), be16Of frame (frameTcp frame + 2)⟩

structure IsTcp (frame : Frame) : Prop where
  ethernet : be16Of frame 12 = ETH_P_IP
  header : IPV4_HDR ≤ frameIhl frame
  total : frameIhl frame + TCP_HDR ≤ frameIpLen frame
  inside : ETH_HDR + frameIpLen frame ≤ frame.length
  protocol : byteOf frame (ETH_HDR + 9) = IP_PROTO_TCP

structure IsListenSyn (s : Inet) (dev : Nat) (frame : Frame) : Prop where
  tcp : IsTcp frame
  stranger : tcpConnFind s.stack (frameKey dev frame) = none
  listener : tcpListenerFind (be32Of frame (ETH_HDR + 16)) (frameKey dev frame).localPort s.stack.tcpListeners none ≠ none
  syn : byteOf frame (frameTcp frame + 13) &&& 0x02 ≠ 0

def SynFits (s : Inet) (dev : Nat) (frame : Frame) : Prop := IsListenSyn s dev frame → frameTcpEnd frame ≤ frame.length

section

variable (fits : SynFits s dev frame)
include fits

theorem no_conn_inside (env : RxEnv) (tcp : IsTcp frame)
    (stranger : tcpConnFind s.stack (frameKey dev frame) = none) :
    Inside (tcpNoConn s frame (frameTcp frame) (frameKey dev frame) env) := by
  obtain ⟨_, header, total, room, _⟩ := id tcp
  have eth : ETH_HDR = 14 := rfl
  have size : TCP_HDR = 20 := rfl
  have start : frameTcp frame = 14 + frameIhl frame := rfl
  refine inside_read (be32_at (by omega)) (inside_read (byte_at (by omega)) ?_)
  split
  · refine inside_be32 (by omega) (fun _ => ?_)
    refine inside_be32 (by omega) (fun _ => ?_)
    exact inside_bytes (by omega) (fun _ => inside_ok)
  next listener found =>
    refine inside_ite (fun syn => ?_) (fun _ => inside_ok)
    have room : frameTcpEnd frame ≤ frame.length := fits ⟨tcp, stranger, by rw [found]; exact Option.some_ne_none _, syn⟩
    refine inside_be32 (by omega) (fun seq => ?_)
    refine inside_bytes (by omega) (fun _ => ?_)
    refine inside_read (byte_at (by omega)) ?_
    exact inside_bind (tcp_options_inside room) (fun options => deliver_inside s env)

omit fits in
theorem to_conn_inside (s : Inet) {key : TcpKey} (env : RxEnv) (fits : RxFits frame rx)
    (enough : rx.ihl + TCP_HDR ≤ rx.ipLen) : Inside (tcpToConn s frame rx (ETH_HDR + rx.ihl) key env) := by
  obtain ⟨header, total, room⟩ := fits
  have size : TCP_HDR = 20 := rfl
  refine inside_byte (by omega) (fun dataOff => inside_unless (fun within => ?_))
  refine inside_be32 (by omega) (fun dst => ?_)
  refine inside_byte (by omega) (fun flags => ?_)
  refine inside_be32 (by omega) (fun seq => ?_)
  refine inside_be32 (by omega) (fun ack => ?_)
  refine inside_bind (tcp_options_inside (by omega)) (fun options => ?_)
  exact inside_bytes (by omega) (fun payload => deliver_inside s env)

theorem tcp_inside (env : RxEnv) (ethernet : be16Of frame 12 = ETH_P_IP)
    (protocol : byteOf frame (ETH_HDR + 9) = IP_PROTO_TCP) (rx : RxFits frame ⟨dev, frameIhl frame, frameIpLen frame⟩) :
    Inside (netTcpReceive s frame ⟨dev, frameIhl frame, frameIpLen frame⟩ env) := by
  obtain ⟨header, total, room⟩ := id rx
  have size : TCP_HDR = 20 := rfl
  simp only at header total room
  refine inside_unless (fun enough => ?_)
  simp only [not_lt] at enough
  refine inside_read (be32_at (by omega)) (inside_read (be16_at frame (ETH_HDR + frameIhl frame) (by omega))
    (inside_read (be16_at frame (ETH_HDR + frameIhl frame + 2) (by omega)) ?_))
  split
  next stranger => exact no_conn_inside fits env ⟨ethernet, header, enough, room, protocol⟩ stranger
  · exact to_conn_inside s env rx enough

theorem receive_ipv4_inside (env : RxEnv) (ethernet : be16Of frame 12 = ETH_P_IP)
    (room : ETH_HDR + IPV4_HDR ≤ frame.length) : Inside (netReceiveIpv4 s dev frame env) := by
  have ip : IPV4_HDR = 20 := rfl
  refine inside_read (byte_at (by omega)) (inside_unless (fun header => ?_))
  refine inside_read (be16_at frame (ETH_HDR + 2) (by omega)) (inside_unless (fun total => ?_))
  rw [not_or, not_lt, not_lt] at header total
  have rx : RxFits frame ⟨dev, frameIhl frame, frameIpLen frame⟩ := ⟨header.1, total.1, total.2⟩
  refine inside_read (byte_at (by omega)) ?_
  refine inside_ite (fun _ => udp_inside s rx) (fun _ => inside_ite (fun _ => icmp_inside s rx) (fun _ => ?_))
  exact inside_ite (fun protocol => tcp_inside fits env ethernet protocol rx) (fun _ => inside_ok)

omit fits in
theorem enqueue_stack (s : Inet) (dev : Nat) (frame : Frame) :
    ∃ after, netdevEnqueueRx s dev frame = .ok after ∧ after.stack = s.stack := by
  simp only [netdevEnqueueRx]
  split
  · exact ⟨s, rfl, rfl⟩
  split
  · exact ⟨_, rfl, rfl⟩
  · rw [bytes_at (by omega)]
    exact ⟨_, rfl, rfl⟩

theorem fitting_frame_inside (env : RxEnv) :
    Inside (netReceiveFrame s dev frame env) := by
  have eth : ETH_HDR = 14 := rfl
  obtain ⟨queued, enqueued, stack⟩ := enqueue_stack s dev frame
  have still : SynFits queued dev frame := fun syn => fits ⟨syn.tcp, stack ▸ syn.stranger, stack ▸ syn.listener, syn.syn⟩
  refine inside_unless (fun header => inside_read enqueued ?_)
  refine inside_read (be16_at frame 12 (by omega)) ?_
  refine inside_ite (fun arp => arp_inside queued dev arp.2) (fun _ => inside_unless (fun ip => ?_))
  rw [not_or, not_ne_iff, not_lt] at ip
  exact receive_ipv4_inside still env ip.1 ip.2

end

structure SameHeaders (frame sibling : Frame) : Prop where
  length : sibling.length = frame.length
  bytes : ∀ i, i < frameTcp frame + TCP_HDR → byteOf sibling i = byteOf frame i

section

variable (same : SameHeaders frame sibling)
include same

theorem same_headers_tcp : frameTcp sibling = frameTcp frame := by
  have version : byteOf sibling ETH_HDR = byteOf frame ETH_HDR := same.bytes ETH_HDR (by simp only [frameTcp, TCP_HDR]; omega)
  rw [frameTcp, frameTcp, frameIhl, frameIhl, version]

theorem same_headers_symm : SameHeaders sibling frame :=
  ⟨same.length.symm, fun i low => (same.bytes i (same_headers_tcp same ▸ low)).symm⟩

theorem same_headers_syn (syn : IsListenSyn s dev frame) :
    IsListenSyn s dev sibling ∧ frameTcpEnd sibling = frameTcpEnd frame := by
  have eth : ETH_HDR = 14 := rfl
  have size : TCP_HDR = 20 := rfl
  have start : frameTcp frame = 14 + frameIhl frame := rfl
  have tcp := same_headers_tcp same
  have ihl : frameIhl sibling = frameIhl frame := Nat.add_left_cancel tcp
  have half (i : Nat) (low : i + 2 ≤ frameTcp frame + TCP_HDR) : be16Of sibling i = be16Of frame i :=
    be16_of_congr (fun a _ high => same.bytes a (by omega))
  have word (i : Nat) (low : i + 4 ≤ frameTcp frame + TCP_HDR) : be32Of sibling i = be32Of frame i :=
    be32_of_congr (fun a _ high => same.bytes a (by omega))
  have key : frameKey dev sibling = frameKey dev frame := by
    rw [frameKey, frameKey, tcp, word (ETH_HDR + 12) (by omega), half _ (by omega), half _ (by omega)]
  have total : frameIpLen sibling = frameIpLen frame := by rw [frameIpLen, frameIpLen, half (ETH_HDR + 2) (by omega)]
  refine ⟨⟨⟨?_, ?_, ?_, ?_, ?_⟩, ?_, ?_, ?_⟩, ?_⟩
  · rw [half 12 (by omega), syn.tcp.ethernet]
  · rw [ihl]
    exact syn.tcp.header
  · rw [ihl, total]
    exact syn.tcp.total
  · rw [total, same.length]
    exact syn.tcp.inside
  · rw [same.bytes (ETH_HDR + 9) (by omega), syn.tcp.protocol]
  · rw [key, syn.stranger]
  · rw [key, word (ETH_HDR + 16) (by omega)]
    exact syn.listener
  · rw [tcp, same.bytes _ (by omega)]
    exact syn.syn
  · rw [frameTcpEnd, frameTcpEnd, tcp, same.bytes _ (by omega)]

theorem same_headers_fit (fits : SynFits s dev frame) :
    SynFits s dev sibling := by
  intro syn
  obtain ⟨original, ends⟩ := same_headers_syn (same_headers_symm same) syn
  rw [← ends, same.length]
  exact fits original

end

-- The same headers with NOP options up to the end of the frame.
def nopSibling (frame : Frame) : Frame :=
  frame.take (frameTcp frame + TCP_HDR) ++ List.replicate (frame.length - (frameTcp frame + TCP_HDR)) 1

theorem nop_sibling_headers (room : frameTcp frame + TCP_HDR ≤ frame.length) : SameHeaders frame (nopSibling frame) := by
  have cut : (frame.take (frameTcp frame + TCP_HDR)).length = frameTcp frame + TCP_HDR := List.length_take_of_le room
  refine ⟨?_, fun i low => ?_⟩
  · rw [nopSibling, List.length_append, cut, List.length_replicate]
    omega
  · rw [byteOf, byteOf, nopSibling, List.getD_append _ _ _ _ (by omega)]
    simp only [List.getD_eq_getElem?_getD, List.getElem?_take, low, if_true]

theorem nop_sibling_nops (low : frameTcp frame + TCP_HDR ≤ i) (high : i < frame.length) : byteOf (nopSibling frame) i = 1 := by
  have cut : (frame.take (frameTcp frame + TCP_HDR)).length = frameTcp frame + TCP_HDR := List.length_take_of_le (by omega)
  rw [byteOf, nopSibling, List.getD_append_right _ _ _ _ (by omega), cut]
  exact List.getD_replicate _ (by omega)

-- NOPs lead the option loop past the frame while bytes of the header are left.
theorem nops_read_outside {turns : Nat} (opt left : Nat) {options : SynOptions} (within : opt ≤ frame.length)
    (nops : ∀ i, opt ≤ i → i < frame.length → byteOf frame i = 1) (long : frame.length < opt + left) (enough : left < turns) :
    walk (tcpOption frame) turns (opt, left, options) = .error (.outside frame.length) := by
  induction turns generalizing opt left with
  | zero => omega
  | succ turns ih =>
    by_cases more : opt < frame.length
    · have turn : tcpOption frame (opt, left, options) = .ok (.inl (opt + 1, left - 1, options)) := by
        simp only [tcpOption]
        rw [if_neg (by omega), byte_at more, nops opt (Nat.le_refl opt) more]
        rfl
      rw [walk, turn]
      exact ih (opt + 1) (left - 1) more (fun i low => nops i (by omega)) (by omega) (by omega)
    have last : opt = frame.length := by omega
    have turn : tcpOption frame (opt, left, options) = .error (.outside frame.length) := by
      simp only [tcpOption]
      rw [if_neg (by omega), byteAt, if_neg more, last]
      rfl
    rw [walk, turn]
    rfl

theorem read_bind {result : Rx β} (read : reading = .ok value) (then_ : next value = result) :
    (reading >>= next) = result := by
  rw [read]
  exact then_

theorem listen_syn_options (env : RxEnv) (syn : IsListenSyn s dev frame) {fault : ReadFault NetFault}
    (parse : tcpParseSynOptions frame (frameTcp frame) ((byteOf frame (frameTcp frame + 12) >>> 4).toNat * 4) = .error fault) :
    netTcpReceive s frame ⟨dev, frameIhl frame, frameIpLen frame⟩ env = .error fault := by
  obtain ⟨⟨_, header, total, room, _⟩, stranger, listener, flag⟩ := syn
  have eth : ETH_HDR = 14 := rfl
  have ip : IPV4_HDR = 20 := rfl
  have size : TCP_HDR = 20 := rfl
  have start : frameTcp frame = 14 + frameIhl frame := rfl
  obtain ⟨found, isFound⟩ := Option.ne_none_iff_exists'.mp listener
  have handled : tcpListenSyn s frame (frameTcp frame) (frameKey dev frame) (be32Of frame (ETH_HDR + 16))
      (byteOf frame (frameTcp frame + 13)) env = .error fault := by
    refine read_bind (be32_at (by omega)) (read_bind (bytes_at (by omega)) ?_)
    refine read_bind (byte_at (by omega)) ?_
    rw [parse]
    rfl
  have unknown : tcpNoConn s frame (frameTcp frame) (frameKey dev frame) env = .error fault := by
    refine read_bind (be32_at (by omega)) (read_bind (byte_at (by omega)) ?_)
    simp only [isFound, if_pos flag]
    exact handled
  rw [netTcpReceive, if_neg (not_lt.mpr total)]
  refine read_bind (be32_at (by omega)) (read_bind (be16_at frame (frameTcp frame) (by omega)) ?_)
  refine read_bind (be16_at frame (frameTcp frame + 2) (by omega)) ?_
  rw [frameKey] at stranger
  simp only [stranger]
  exact unknown

theorem listen_syn_outside (env : RxEnv) (syn : IsListenSyn s dev frame) (long : frame.length < frameTcpEnd frame)
    (nops : ∀ i, frameTcp frame + TCP_HDR ≤ i → i < frame.length → byteOf frame i = 1) :
    netReceiveFrame s dev frame env = .error (.outside frame.length) := by
  obtain ⟨ethernet, header, total, room, protocol⟩ := syn.tcp
  have eth : ETH_HDR = 14 := rfl
  have ip : IPV4_HDR = 20 := rfl
  have start : frameTcp frame = 14 + frameIhl frame := rfl
  have parse : tcpParseSynOptions frame (frameTcp frame) ((byteOf frame (frameTcp frame + 12) >>> 4).toNat * 4) = .error
    (.outside frame.length) := by
    rw [frameTcpEnd] at long
    rw [tcpParseSynOptions, if_neg (by omega)]
    exact nops_read_outside _ _ (by omega) nops (by omega) (Nat.lt_succ_self _)
  obtain ⟨queued, enqueued, stack⟩ := enqueue_stack s dev frame
  have still : IsListenSyn queued dev frame := ⟨syn.tcp, stack ▸ syn.stranger, stack ▸ syn.listener, syn.syn⟩
  have shortIhl : ¬ (frameIhl frame < IPV4_HDR ∨ frame.length < ETH_HDR + frameIhl frame) := by omega
  have shortTotal : ¬ (frameIpLen frame < frameIhl frame ∨ frame.length < ETH_HDR + frameIpLen frame) := by omega
  have received : netReceiveIpv4 queued dev frame env = .error (.outside frame.length) := by
    refine read_bind (byte_at (by omega)) ((if_neg shortIhl).trans ?_)
    refine read_bind (be16_at frame (ETH_HDR + 2) (by omega)) ((if_neg shortTotal).trans ?_)
    refine read_bind (byte_at (by omega)) ?_
    rw [protocol, if_neg (by decide), if_neg (by decide), if_pos rfl]
    exact listen_syn_options env still parse
  rw [netReceiveFrame, if_neg (by omega)]
  refine read_bind enqueued (read_bind (be16_at frame 12 (by omega)) ?_)
  rw [ethernet, if_neg (fun arp => absurd arp.1 (by decide)), if_neg (fun other => other.elim (fun no => no rfl) (by omega))]
  exact received

theorem frame_read_inside (s : Inet) (dev : Nat) (frame : Frame) (env : RxEnv) :
    (∀ sibling, SameHeaders frame sibling → Inside (netReceiveFrame s dev sibling env)) ↔ SynFits s dev frame := by
  constructor
  · intro all syn
    by_contra long
    have eth : ETH_HDR = 14 := rfl
    have start : frameTcp frame = 14 + frameIhl frame := rfl
    have room : frameTcp frame + TCP_HDR ≤ frame.length := by
      have inside := syn.tcp.inside
      have total := syn.tcp.total
      omega
    have same := nop_sibling_headers room
    obtain ⟨sibling, ends⟩ := same_headers_syn same syn
    have outside := listen_syn_outside env sibling (by rw [ends, same.length]; omega) (fun i low high =>
      nop_sibling_nops (same_headers_tcp same ▸ low) (same.length ▸ high))
    obtain ⟨own, other⟩ := (all (nopSibling frame) same).fault _ outside
    cases other
  · intro fits sibling same
    exact fitting_frame_inside (same_headers_fit same fits) env

-- A SYN of 54 bytes claims a header of 60.
def bootInet (stack : Stack) : Inet :=
  { stack, links := fun _ => ⟨0, false, 0, [], 0, 0⟩, arp := freshArp 0 6000, dns := freshDns 0 0, dhcp := ⟨0, 0, 0, 0, 0, 0,
    0, false⟩
    ping := ⟨none, 0, 0, 0, 0, false, ⟨0, 0, 0, 0, 0⟩⟩, held := fun _ => ⟨[], 0, 0, 0, false⟩, hz := 100 }

def longSyn : Frame :=
  [0x52, 0x54, 0, 0x12, 0x34, 0x56, 0x52, 0x55, 0x0a, 0, 2, 2, 0x08, 0x00,
    0x45, 0, 0, 40, 0, 0, 0, 0, 64, 6, 0, 0, 10, 0, 2, 2, 10, 0, 2, 15,
    0x13, 0x88, 0, 80, 0, 0, 0x03, 0xe8, 0, 0, 0, 0, 0xf0, 0x02, 0x20, 0, 0, 0, 0, 0]

theorem syn_options_outside : ∃ stack,
    run socketStep (bootNet (fun _ => ⟨0x0a00020f, 0xffffff00, 0⟩) [0]) [.socket .inet .stream 0 false, .bind 0 (.sin 0 80),
      .listen 0] = .ok stack ∧
      longSyn.length = 54 ∧ netReceiveFrame (bootInet stack) 0 longSyn ⟨7, 0, false⟩ = .error (.outside 54) :=
  ⟨_, rfl, rfl, rfl⟩

end Lyr.Net
