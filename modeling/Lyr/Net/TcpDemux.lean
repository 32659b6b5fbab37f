import Lyr.Net.Effects

set_option autoImplicit false

namespace Lyr.Net

open Lyr.Lib

-- No two share a key, so tcp_conn_find has one answer.
structure Demultiplexes (w : Stack) : Prop where
  keys : ∀ a ∈ w.tcpConns, ∀ b ∈ w.tcpConns, ∀ x y, w.conns a = some x → w.conns b = some y → x.key = y.key → a = b
  delivers : ∀ id ∈ w.tcpConns, ∀ conn, w.conns id = some conn → ∀ seg : TcpSegment, seg.key = conn.key →
    tcpConnFind w seg.key = some id

structure KeysApart (w : Stack) : Prop where
  nodup : w.tcpConns.Nodup
  listed : ∀ id ∈ w.tcpConns, id < w.nextConn
  resolving : ∀ id, w.connecting id = some .resolving → id < w.nextConn ∧ id ∉ w.tcpConns
  keys : ∀ a ∈ w.tcpConns, ∀ b ∈ w.tcpConns, ∀ x y, w.conns a = some x → w.conns b = some y → x.key = y.key → a = b

def KeyFree (w : Stack) : TcpCall → Prop
  | .connectResolved id true true => w.connecting id = some .resolving → ∀ conn ∈ w.conns id, tcpConnFind w conn.key = none
  | _ => True

instance keyFreeDecidable (w : Stack) : (call : TcpCall) → Decidable (KeyFree w call)
  | .connectResolved id true true =>
    inferInstanceAs (Decidable (w.connecting id = some .resolving → ∀ conn ∈ w.conns id, _ = _))
  | .connectResolved _ true false | .connectResolved _ false .. | .call .. | .listen .. | .connectStart .. | .connectEnd ..
    | .tcpClose .. => .isTrue trivial

variable {w next : Stack} {id : Nat}

theorem conn_find_some {key : TcpKey} (found : tcpConnFind w key = some id) :
    id ∈ w.tcpConns ∧ ∃ conn, w.conns id = some conn ∧ conn.key = key := by
  have matches_ := List.find?_some found
  rw [Option.any_eq_true] at matches_
  obtain ⟨conn, live, same⟩ := matches_
  exact ⟨List.mem_of_find?_eq_some found, conn, live, by simpa using same⟩

theorem conn_find_none (w : Stack) (key : TcpKey) :
    tcpConnFind w key = none ↔ ∀ id ∈ w.tcpConns, ∀ conn, w.conns id = some conn → conn.key ≠ key := by
  rw [tcpConnFind, List.find?_eq_none]
  refine forall_congr' fun id => imp_congr_right fun _ => ?_
  cases w.conns id with
  | none => simp
  | some conn => simp

theorem apart_demultiplexes (w : Stack) (apart : KeysApart w) : Demultiplexes w := by
  refine ⟨apart.keys, fun id inside conn live seg same => ?_⟩
  cases found : tcpConnFind w seg.key with
  | none => exact absurd same.symm ((conn_find_none w seg.key).mp found id inside conn live)
  | some other =>
    obtain ⟨there, second, alive, key⟩ := conn_find_some found
    rw [apart.keys other there id inside second conn alive live (key.trans same)]

theorem apart_congr (w next : Stack) (list : next.tcpConns = w.tcpConns) (heap : next.conns = w.conns)
    (count : next.nextConn = w.nextConn) (calls : next.connecting = w.connecting) (apart : KeysApart w) : KeysApart next := by
  refine ⟨?_, ?_, ?_, ?_⟩
  · rw [list]; exact apart.nodup
  · rw [list, count]; exact apart.listed
  · rw [list, count, calls]; exact apart.resolving
  · rw [list, heap]; exact apart.keys

section

variable (apart : KeysApart w)
include apart

theorem apart_set_conn {conn next : TcpConn} (live : w.conns id = some conn) (key : next.key = conn.key) :
    KeysApart (w.setConn id next) := by
  have before (a : Nat) (x : TcpConn) (now : (w.setConn id next).conns a = some x) : ∃ old, w.conns a = some old ∧
    old.key = x.key := by
    by_cases same : a = id
    · rw [same, set_conn_self, Option.some.injEq] at now
      exact ⟨conn, same ▸ live, by rw [← now, key]⟩
    · rw [set_conn_other w next same] at now
      exact ⟨x, now, rfl⟩
  refine ⟨apart.nodup, apart.listed, apart.resolving, fun a insideA b insideB x y liveX liveY same => ?_⟩
  obtain ⟨oldX, wasX, keyX⟩ := before a x liveX
  obtain ⟨oldY, wasY, keyY⟩ := before b y liveY
  exact apart.keys a insideA b insideB oldX oldY wasX wasY (by rw [keyX, keyY, same])

theorem apart_drop (id : Nat) : KeysApart (w.dropConn id) :=
  ⟨apart.nodup, apart.listed, apart.resolving, fun a insideA b insideB x y liveX liveY =>
    apart.keys a insideA b insideB x y (drop_conn_live liveX).2 (drop_conn_live liveY).2⟩

theorem apart_remove (id : Nat) : KeysApart (tcpConnRemove w id) := by
  have still (a : Nat) (inside : a ∈ w.tcpConns.erase id) : a ∈ w.tcpConns := List.mem_of_mem_erase inside
  exact ⟨apart.nodup.erase id, fun a inside => apart.listed a (still a inside),
    fun a resolving => ⟨(apart.resolving a resolving).1, fun inside => (apart.resolving a resolving).2 (still a inside)⟩,
    fun a insideA b insideB => apart.keys a (still a insideA) b (still b insideB)⟩

theorem apart_free (id : Nat) : KeysApart (tcpConnFree w id) := apart_drop (apart_remove apart id) id

theorem apart_new (conn : TcpConn) : KeysApart (newConn w conn) := by
  have heap (a : Nat) (inside : a ∈ w.tcpConns) : (newConn w conn).conns a = w.conns a := new_conn_other conn
    (Nat.ne_of_lt (apart.listed a inside))
  refine ⟨apart.nodup, fun a inside => Nat.lt_succ_of_lt (apart.listed a inside),
    fun a resolving => ⟨Nat.lt_succ_of_lt (apart.resolving a resolving).1, (apart.resolving a resolving).2⟩,
    fun a insideA b insideB x y liveX liveY => ?_⟩
  rw [heap a insideA] at liveX
  rw [heap b insideB] at liveY
  exact apart.keys a insideA b insideB x y liveX liveY

theorem apart_add (bound : id < w.nextConn) (absent : id ∉ w.tcpConns)
    (ended : w.connecting id ≠ some .resolving) (free : ∀ conn, w.conns id = some conn → tcpConnFind w conn.key = none) :
    KeysApart (tcpConnAdd w id) := by
  have others (a : Nat) (inside : a ∈ w.tcpConns) (x conn : TcpConn) (liveX : w.conns a = some x) (live : w.conns id = some conn) :
      x.key ≠ conn.key := (conn_find_none w conn.key).mp (free conn live) a inside x liveX
  refine ⟨List.nodup_cons.mpr ⟨absent, apart.nodup⟩, fun a inside => ?_, fun a resolving => ?_,
    fun a insideA b insideB x y liveX liveY same => ?_⟩
  · rcases List.mem_cons.mp inside with rfl | inside
    · exact bound
    · exact apart.listed a inside
  · refine ⟨(apart.resolving a resolving).1, fun inside => ?_⟩
    rcases List.mem_cons.mp inside with rfl | inside
    · exact ended resolving
    · exact (apart.resolving a resolving).2 inside
  rcases List.mem_cons.mp insideA with newA | oldA
  · rcases List.mem_cons.mp insideB with newB | oldB
    · rw [newA, newB]
    · exact absurd same.symm (others b oldB y x liveY (newA ▸ liveX))
  rcases List.mem_cons.mp insideB with newB | oldB
  · exact absurd same (others a oldA x y liveX (newB ▸ liveY))
  · exact apart.keys a oldA b oldB x y liveX liveY same

end

section

variable (apart : KeysApart w)
include apart

theorem apart_received {seg : TcpSegment} {env : RxEnv} (received : Received w seg env next) : KeysApart next := by
  cases received with
  | ignored unknown => exact apart
  | opened listener unknown found =>
    have fresh : w.nextConn ∉ w.tcpConns := fun inside => Nat.lt_irrefl _ (apart.listed _ inside)
    have ended : w.connecting w.nextConn ≠ some .resolving := fun resolving => Nat.lt_irrefl _ (apart.resolving _ resolving).1
    refine apart_add (apart_new apart _) (Nat.lt_succ_self _) fresh ended (fun conn live => ?_)
    rw [new_conn_self, Option.some.injEq] at live
    have key : conn.key = seg.key := by rw [← live]; rfl
    rw [conn_find_none] at unknown ⊢
    intro id inside other alive
    rw [new_conn_other _ (Nat.ne_of_lt (apart.listed id inside))] at alive
    rw [key]
    exact unknown id inside other alive
  | freed id conn found live passive => exact apart_free apart id
  | kept id conn next found live passive stays => exact apart_set_conn apart live stays.key
  | active id conn found live active => exact apart_set_conn apart live (after_active_keeps conn seg).key
  | accepted id conn listener inet found live passive handler waits acknowledged context bound =>
    have shaken : KeysApart (w.setConn id (established conn)) := apart_set_conn apart live rfl
    have queued : KeysApart (queueAccepted (w.setConn id (established conn)) listener inet (established conn) id) :=
      apart_congr (w.setConn id (established conn)) _ rfl rfl rfl rfl shaken
    exact apart_set_conn queued (set_conn_self w id _) (accepted_keeps conn seg).key

theorem apart_close (taken : netTcpClose w id = .ok next) : KeysApart next := by
  rw [netTcpClose] at taken
  split at taken
  · cases taken
  · exact Except.ok.inj taken ▸ apart_free apart id

theorem apart_destroy {sock : Socket} (taken : inetSocketDestroy w sock = .ok next) : KeysApart next := by
  rw [inetSocketDestroy] at taken
  split at taken
  · exact Except.ok.inj taken ▸ apart
  split at taken
  · exact Except.ok.inj taken ▸ apart
  next conn _ => exact apart_close apart taken

theorem apart_called {call : SocketCall} (called : Called w call next) : KeysApart next := by
  cases called with
  | same => exact apart
  | added | changed | listens => exact apart_congr w _ rfl rfl rfl rfl apart
  | destroyed id sock left live last gone => exact apart_congr left _ rfl rfl rfl rfl (apart_destroy apart gone)
  | received seg env next effect => exact apart_received apart effect

end

theorem apart_phase (w : Stack) (id : Nat) (phase : Option ConnectPhase) (ended : phase ≠ some .resolving) (apart : KeysApart w) :
    KeysApart (w.setPhase id phase) := by
  refine ⟨apart.nodup, apart.listed, fun other resolving => ?_, apart.keys⟩
  by_cases same : other = id
  · rw [same, set_phase_self] at resolving
    exact absurd resolving ended
  · rw [set_phase_other w phase same] at resolving
    exact apart.resolving other resolving

theorem apart_connect_start (dev : Nat) (ip : UInt32) (port : UInt16) (portTicks seqTicks : Nat) (apart : KeysApart w) :
    KeysApart (connectStart w dev ip port portTicks seqTicks) := by
  simp only [connectStart]
  split
  · exact apart
  split
  · exact apart
  have grown := apart_new apart (connectConn dev ip port portTicks seqTicks)
  refine ⟨grown.nodup, grown.listed, fun id resolving => ?_, grown.keys⟩
  by_cases same : id = w.nextConn
  · rw [same]
    exact ⟨Nat.lt_succ_self _, fun inside => Nat.lt_irrefl _ (apart.listed _ inside)⟩
  · rw [set_phase_other _ _ same] at resolving
    exact grown.resolving id resolving

theorem apart_connect_resolved {resolved sent : Bool} (free : KeyFree w (.connectResolved id resolved sent))
    (apart : KeysApart w) : KeysApart (connectResolved w id resolved sent) := by
  rw [connectResolved]
  split
  · exact apart
  next phase =>
    have resolving : w.connecting id = some .resolving := by simpa using phase
    obtain ⟨bound, absent⟩ := apart.resolving id resolving
    cases resolved with
    | false => exact apart_drop (apart_phase w id none (by decide) apart) id
    | true =>
      cases sent with
      | false =>
        have gone : tcpConnFree (tcpConnAdd (w.setPhase id none) id) id = (w.setPhase id none).dropConn id := by
          simp [tcpConnFree, tcpConnAdd, tcpConnRemove, Stack.dropConn, Stack.setPhase]
        simp only [Bool.not_true, Bool.false_eq_true, if_false, gone]
        exact apart_drop (apart_phase w id none (by decide) apart) id
      | true =>
        have waiting := apart_phase w id (some .waiting) (by decide) apart
        refine apart_add waiting bound absent ?_ (free resolving)
        rw [set_phase_self]
        decide

theorem apart_connect_end {interrupted : Bool} (apart : KeysApart w) (taken : connectEnd w id interrupted = .ok next) :
    KeysApart next := by
  have ended := apart_phase w id none (by decide) apart
  rw [connectEnd] at taken
  split at taken
  · exact Except.ok.inj taken ▸ apart
  split at taken
  · cases taken
  split at taken
  · exact Except.ok.inj taken ▸ apart_free ended id
  · exact Except.ok.inj taken ▸ ended

theorem apart_step (w : Stack) (call : TcpCall) (next : Stack) (apart : KeysApart w) (free : KeyFree w call)
    (taken : tcpStep w call = .ok next) : KeysApart next := by
  cases call with
  | call call => exact apart_called apart (socket_step_effect taken)
  | listen port localIp handler ctx =>
    rw [← Except.ok.inj taken, tcpListenerAdd]
    split
    · exact apart
    split
    · exact apart
    · exact apart_congr w _ rfl rfl rfl rfl apart
  | connectStart dev ip port portTicks seqTicks =>
    exact Except.ok.inj taken ▸ apart_connect_start dev ip port portTicks seqTicks apart
  | connectResolved id resolved sent => exact Except.ok.inj taken ▸ apart_connect_resolved free apart
  | connectEnd id interrupted => exact apart_connect_end apart taken
  | tcpClose id =>
    simp only [tcpStep] at taken
    split at taken
    · exact Except.ok.inj taken ▸ apart
    · exact apart_close apart taken

theorem demultiplexes_needs_free (w : Stack) (call : TcpCall) (next : Stack) (apart : KeysApart w)
    (taken : tcpStep w call = .ok next) (after : Demultiplexes next) : KeyFree w call := by
  cases call with
  | connectResolved id resolved sent =>
    cases resolved with
    | false => trivial
    | true =>
      cases sent with
      | false => trivial
      | true =>
        intro resolving conn live
        by_contra taken_
        obtain ⟨other, found⟩ := Option.ne_none_iff_exists'.mp taken_
        obtain ⟨inside, second, alive, key⟩ := conn_find_some found
        have state : next = tcpConnAdd (w.setPhase id (some .waiting)) id := by
          rw [← Except.ok.inj taken, connectResolved]
          simp [resolving]
        rw [state] at after
        have same := after.keys other (List.mem_cons_of_mem id inside) id List.mem_cons_self second conn alive live key
        exact (apart.resolving id resolving).2 (same ▸ inside)
  | call | listen | connectStart | connectEnd | tcpClose => trivial

theorem boot_apart (devs : Nat → NetDev) (devList : List Nat) : KeysApart (bootNet devs devList) :=
  ⟨List.nodup_nil, fun _ inside => absurd inside List.not_mem_nil, nofun,
    fun _ inside => absurd inside List.not_mem_nil⟩

theorem segments_have_one_connection (devs : Nat → NetDev) (devList : List Nat) (calls : List TcpCall) (final : Stack)
    (ended : run tcpStep (bootNet devs devList) calls = .ok final) :
    Permitted tcpStep KeyFree (bootNet devs devList) calls ↔ Always tcpStep Demultiplexes (bootNet devs devList) calls :=
  permitted_iff_always apart_step (boot_apart devs devList) apart_demultiplexes demultiplexes_needs_free ended

def hostDev : NetDev := { ipv4Addr := 0x0a00020f, ipv4Netmask := 0xffffff00, ipv4Gateway := 0 }

def synAck (ticks : Nat) : TcpSegment :=
  { dev := 0, src := 0x0a000202, dst := 0x0a00020f, srcPort := 80, dstPort := UInt16.ofNat (40000 + ticks % 16384), seq := 1000
    ack := 0x4c595200 + UInt32.ofNat (ticks % 65536) + 1, flags := 0x12, options := ⟨none, false⟩, payload := [] }

def connectAt (ticks id : Nat) : List TcpCall := [.connectStart 0 0x0a000202 80 ticks ticks, .connectResolved id true true,
    .call (.segment (synAck ticks) ⟨ticks, 0, false⟩), .connectEnd id false]

theorem connects_apart_in_ticks : ∃ final, run tcpStep (bootNet (fun _ => hostDev) [0]) (connectAt 7 0 ++ connectAt 8 1) = .ok final ∧
      Always tcpStep Demultiplexes (bootNet (fun _ => hostDev) [0]) (connectAt 7 0 ++ connectAt 8 1) :=
  ⟨_, rfl, (segments_have_one_connection (fun _ => hostDev) [0] (connectAt 7 0 ++ connectAt 8 1) _ rfl).mp (by decide)⟩

-- 16384 ticks later the same local port comes again.
theorem connects_share_a_key :
    ∃ final, run tcpStep (bootNet (fun _ => hostDev) [0]) (connectAt 7 0 ++ connectAt 16391 1) = .ok final ∧
    final.tcpConns = [1, 0] ∧ (final.conns 0).map TcpConn.key = (final.conns 1).map TcpConn.key ∧
      (final.conns 0).any (·.connected) ∧ (final.conns 1).isSome ∧ ¬ Demultiplexes final := by
  refine ⟨_, rfl, rfl, rfl, rfl, rfl, fun apart => ?_⟩
  exact absurd (apart.keys 0 (by decide) 1 (by decide) _ _ rfl rfl rfl) (by decide)

end Lyr.Net
