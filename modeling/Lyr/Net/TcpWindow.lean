import Lyr.Lib.Run
import Lyr.Net.TcpConn

set_option autoImplicit false

namespace Lyr.Net

open Lyr.Lib

def wscaleLoop (cap : Nat) : Nat → Nat → Nat
  | 0, shift => shift
  | turns + 1, shift => if cap >>> shift > 65535 then wscaleLoop cap turns (shift + 1) else shift

def tcpWscaleForCap (cap : Nat) : Nat := wscaleLoop cap 14 0

variable (conn : TcpConn)

def tcpRecvWindow (rcvWscale : Nat) : Nat :=
  min (if conn.peerWscaleSeen = true ∧ rcvWscale ≠ 0 then tcpRecvWindowFull conn >>> rcvWscale else tcpRecvWindowFull conn) 65535

-- With its rcv_wscale, the shift its SYN announced, and the bytes that went in and came out.
structure RxState where
  conn : TcpConn
  rcvWscale : Nat
  announced : Nat
  pushed : List UInt8
  popped : List UInt8

-- granted is false where kzalloc fails; options are those of a SYN from the peer.
inductive RxCall where
  | push (payload : List UInt8)
  | pop (length : Nat)
  | autotune (incoming : Nat) (granted : Bool)
  | options (options : SynOptions)

-- tcp_rx_autotune computes the shift where it changes the capacity.
def rxStep (s : RxState) : RxCall → Except Empty RxState
  | .push payload => .ok { s with conn := tcpRxPush s.conn payload, pushed := s.pushed ++ payload }
  | .pop length => .ok { s with conn := (tcpRxPop s.conn length).1, popped := s.popped ++ (tcpRxPop s.conn length).2 }
  | .autotune incoming granted =>
    let next := if granted then tcpRxAutotune s.conn incoming else s.conn
    .ok { s with conn := next, rcvWscale := if next.rxCap = s.conn.rxCap then s.rcvWscale else tcpWscaleForCap next.rxCap }
  | .options options => .ok { s with conn := tcpApplyOptions s.conn options }

def RxCall.Fits (s : RxState) : RxCall → Prop
  | .push payload => payload.length ≤ tcpRecvWindowFull s.conn
  | .pop length => length ≤ s.conn.rxLen
  | _ => True

instance (s : RxState) (call : RxCall) : Decidable (call.Fits s) :=
  match call with
  | .push _ | .pop _ => Nat.decLe _ _
  | .autotune .. | .options _ => instDecidableTrue

def opened (ring : Bytes) (cap : Nat) : RxState where
  conn := conn.withRing ring cap 0 0
  rcvWscale := tcpWscaleForCap cap
  announced := tcpWscaleForCap cap
  pushed := []
  popped := []

structure WindowSound (s : RxState) : Prop where
  queue : s.popped ++ s.conn.queued = s.pushed
  inside : s.conn.rxHead < s.conn.rxCap ∧ tcpRxTail s.conn < s.conn.rxCap ∧ s.conn.rxLen ≤ s.conn.rxCap
  window : (if s.conn.peerWscaleSeen then tcpRecvWindow s.conn s.rcvWscale <<< s.announced else tcpRecvWindow s.conn s.rcvWscale) ≤
    s.conn.rxCap - s.conn.rxLen

-- The announced shift is that of an earlier, smaller capacity.
structure Tuned (s : RxState) : Prop where
  ringed : Ringed s.conn
  queue : s.popped ++ s.conn.queued = s.pushed
  scale : s.rcvWscale = tcpWscaleForCap s.conn.rxCap
  announced : s.announced ≤ s.rcvWscale

theorem wscale_loop_le (cap turns shift : Nat) : shift ≤ wscaleLoop cap turns shift := by
  induction turns generalizing shift with
  | zero => exact Nat.le_refl shift
  | succ turns ih =>
    rw [wscaleLoop]
    split
    · exact Nat.le_trans (Nat.le_succ shift) (ih (shift + 1))
    · exact Nat.le_refl shift

theorem wscale_loop_mono {small large : Nat} (le : small ≤ large) (turns shift : Nat) :
    wscaleLoop small turns shift ≤ wscaleLoop large turns shift := by
  induction turns generalizing shift with
  | zero => exact Nat.le_refl shift
  | succ turns ih =>
    have shifted : small >>> shift ≤ large >>> shift := by
      rw [Nat.shiftRight_eq_div_pow, Nat.shiftRight_eq_div_pow]
      exact Nat.div_le_div_right le
    rw [wscaleLoop, wscaleLoop]
    by_cases more : small >>> shift > 65535
    · rw [if_pos more, if_pos (by omega)]
      exact ih (shift + 1)
    · rw [if_neg more]
      exact wscale_loop_le large (turns + 1) shift

theorem autotune_cap_le (incoming : Nat) : conn.rxCap ≤ (tcpRxAutotune conn incoming).rxCap := by
  rw [tcpRxAutotune]
  cases conn.rxBuf with
  | none => exact Nat.le_refl _
  | some ring =>
    dsimp only
    generalize tcpGrowCap incoming conn.rxLen 22 (if conn.rxCap = 0 then TCP_RCVBUF_MIN else conn.rxCap) = cap
    split_ifs with free largest kept
    · exact Nat.le_refl _
    · exact Nat.le_refl _
    · exact Nat.le_refl _
    · exact Nat.le_of_not_le kept

theorem window_full_le : tcpRecvWindowFull conn ≤ conn.rxCap - conn.rxLen := by
  rw [tcpRecvWindowFull]
  split
  · exact Nat.zero_le _
  · split
    · exact Nat.zero_le _
    · exact Nat.le_refl _

-- The peer shifts back by the announced shift, never the larger one.
theorem tuned_sound (s : RxState) (tuned : Tuned s) : WindowSound s := by
  have ringed := tuned.ringed
  refine ⟨tuned.queue, ⟨ringed.head, Nat.mod_lt _ (Nat.zero_lt_of_lt ringed.head), ringed.fits⟩, ?_⟩
  refine Nat.le_trans ?_ (window_full_le s.conn)
  have announced := tuned.announced
  rw [tcpRecvWindow]
  cases seen : s.conn.peerWscaleSeen with
  | false => simp
  | true =>
    by_cases unscaled : s.rcvWscale = 0
    · rw [show s.announced = 0 by omega]
      simp [unscaled]
    rw [if_pos rfl, if_pos ⟨rfl, unscaled⟩, Nat.shiftLeft_eq, Nat.shiftRight_eq_div_pow]
    calc _ ≤ tcpRecvWindowFull s.conn / 2 ^ s.rcvWscale * 2 ^ s.rcvWscale :=
          Nat.mul_le_mul (Nat.min_le_left _ _) (Nat.pow_le_pow_right (by omega) announced)
      _ ≤ tcpRecvWindowFull s.conn := Nat.div_mul_le_self _ _

theorem push_ring {conn : TcpConn} {payload : List UInt8} (ringed : Ringed conn) (fits : payload.length ≤ tcpRecvWindowFull conn) :
    Ringed (tcpRxPush conn payload) ∧ (tcpRxPush conn payload).queued = conn.queued ++ payload := by
  obtain ⟨ring, buffer⟩ := Option.isSome_iff_exists.mp ringed.buffered
  have room := window_full_le conn
  have small := ringed.fits
  have total : conn.rxLen + payload.length ≤ conn.rxCap := by omega
  refine ⟨⟨by simp [tcpRxPush, buffer], ringed.head, total⟩, ?_⟩
  simp only [tcpRxPush, TcpConn.queued, buffer, Option.map_some]
  exact ring_push_bytes ring ringed.head total

theorem rx_step_tuned (s : RxState) (call : RxCall) (next : RxState) (tuned : Tuned s) (fits : call.Fits s)
    (taken : rxStep s call = .ok next) :
    Tuned next := by
  obtain ⟨ringed, queue, scale, announced⟩ := tuned
  cases call with
  | push payload =>
    cases taken
    obtain ⟨still, bytes⟩ := push_ring ringed fits
    exact ⟨still, by rw [bytes, ← List.append_assoc, queue], scale, announced⟩
  | pop length =>
    cases taken
    obtain ⟨out, rest, still⟩ := rx_pop_ring ringed fits
    exact ⟨still, by rw [out, rest, List.append_assoc, List.take_append_drop, queue], scale, announced⟩
  | options options =>
    cases taken
    exact ⟨⟨ringed.buffered, ringed.head, ringed.fits⟩, queue, scale, announced⟩
  | autotune incoming granted =>
    cases taken
    cases granted with
    | false => exact ⟨ringed, queue, by simpa using scale, by simpa using announced⟩
    | true =>
      have wider := wscale_loop_mono (autotune_cap_le s.conn incoming) 14 0
      obtain ⟨ring, cap, head, tuned, inside, length, kept, _⟩ := autotune_ring incoming ringed
      refine ⟨?_, ?_, ?_, ?_⟩
      all_goals simp only [if_true]
      · rw [tuned]
        exact ⟨rfl, inside, length⟩
      · rw [tuned, with_ring_queued, kept, queue]
      · split
        · rename_i same
          rw [scale, same]
        · rfl
      · split
        · exact announced
        · exact Nat.le_trans (announced.trans_eq scale) wider

def PopsAsked (s : RxState) (call : RxCall) (next : RxState) : Prop :=
  ∀ length, call = .pop length → next.popped.length = s.popped.length + length

theorem pops_asked (s : RxState) (call : RxCall) (next : RxState) (tuned : Tuned s) (fits : call.Fits s)
    (taken : rxStep s call = .ok next) :
    PopsAsked s call next := by
  rintro length rfl
  cases taken
  obtain ⟨ring, buffer⟩ := Option.isSome_iff_exists.mp tuned.ringed.buffered
  have held : s.conn.queued.length = s.conn.rxLen := by rw [TcpConn.queued, buffer, ring_bytes_length]
  have fits : length ≤ s.conn.rxLen := fits
  rw [List.length_append, (rx_pop_ring tuned.ringed fits).1, List.length_take, held, Nat.min_eq_left fits]

theorem window_never_exceeds_room (ring : Bytes) (cap : Nat) (room : 0 < cap) (calls : List RxCall)
    (permitted : Permitted rxStep (fun s call => call.Fits s) (opened conn ring cap) calls) :
    Always rxStep WindowSound (opened conn ring cap) calls ∧ EachStep rxStep PopsAsked (opened conn ring cap) calls :=
  have start : Tuned (opened conn ring cap) := ⟨⟨rfl, room, Nat.zero_le _⟩, rfl, rfl, Nat.le_refl _⟩
  ⟨permitted_always rx_step_tuned start tuned_sound permitted, permitted_each_step rx_step_tuned start pops_asked permitted⟩

theorem window_after_growth : 0 < 2 ∧ Always rxStep WindowSound
    (opened ⟨0, 0, 0, 0, 0, 0, none, 0, 0, 0, 0, false, false, none, false, 0, false, false, false, false, false, false⟩
      (fun _ => 0) 2)
    [.push [7], .options ⟨some 2, false⟩, .autotune 70000 true, .pop 1] :=
  ⟨by decide, (window_never_exceeds_room _ _ 2 (by decide) _ (by decide)).1⟩

end Lyr.Net
