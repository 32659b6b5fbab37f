import Lyr.Lib.Table
import Lyr.Net.Udp

set_option autoImplicit false

namespace Lyr.Net

open Lyr.Lib Function

-- One datagram could go to both.
def PlacesMeet (x y : InetSocket) : Prop := x.localPort = y.localPort ∧ (x.localIp = 0 ∨ y.localIp = 0 ∨ x.localIp = y.localIp)

-- Each has the address and port it was last bound to, and no two of them meet.
structure UdpSound (w : UdpNet) : Prop where
  listed : ∀ id sock, w.sockets id = some sock → id ∈ w.socketList
  ephemeral : UDP_EPHEMERAL_MIN ≤ w.udpNextEphemeral
  fresh : ∀ id, w.nextSocket ≤ id → w.sockets id = none
  bound : ∀ id sock, w.sockets id = some sock → sock.type = .dgram →
    w.binding id = if sock.localPort = 0 then none else some (sock.localIp, sock.localPort)
  apart : ∀ x y first second, w.sockets x = some first → w.sockets y = some second → first.type = .dgram →
    second.type = .dgram → x ≠ y →
    first.localPort ≠ 0 → ¬PlacesMeet first second

variable {x y sock : InetSocket} {w : UdpNet} {id : Nat} {port : UInt16} {ip : UInt32} {dgram : Datagram}

theorem places_meet_symm (meet : PlacesMeet x y) : PlacesMeet y x := by
  obtain ⟨port, ip⟩ := meet
  refine ⟨port.symm, ?_⟩
  rcases ip with zero | zero | same
  · exact .inr (.inl zero)
  · exact .inl zero
  · exact .inr (.inr same.symm)

section

variable (sound : UdpSound w)
include sound

theorem inet_set_sound {next : InetSocket} {binding : Nat → Option (UInt32 × UInt16)}
    (here : w.sockets id = some sock) (same : ∀ other, other ≠ id → binding other = w.binding other)
    (bound : next.type = .dgram → binding id = if next.localPort = 0 then none else some (next.localIp, next.localPort))
    (apart : next.type = .dgram → next.localPort ≠ 0 → ∀ other found,
      w.sockets other = some found → found.type = .dgram → other ≠ id →
      ¬PlacesMeet next found) : UdpSound { w.setSocket id next with binding := binding } := by
  have each : ∀ other found, (w.setSocket id next).sockets other = some found →
      (other = id ∧ found = next) ∨ (other ≠ id ∧ w.sockets other = some found) :=
    fun other found stands => update_some stands
  refine ⟨update_forall (sound.listed id sock here) (fun other found _ => sound.listed other found), sound.ephemeral,
    fun other high => ?_,
    update_forall bound (fun other found elsewhere stands dgram => (same other elsewhere).trans
      (sound.bound other found stands dgram)),
    fun x y first second atX atY firstDgram secondDgram distinct port meet => ?_⟩
  · exact update_none (sound.fresh other high) (fun same => by rw [← same, sound.fresh other high] at here; cases here)
  rcases each x first atX with ⟨rfl, rfl⟩ | ⟨elsewhere, placed⟩
  · rcases each y second atY with ⟨rfl, _⟩ | ⟨elsewhere, atY⟩
    · exact distinct rfl
    · exact apart firstDgram port y second atY secondDgram elsewhere meet
  rcases each y second atY with ⟨rfl, rfl⟩ | ⟨_, atY⟩
  · exact apart secondDgram (meet.1 ▸ port) x first placed firstDgram elsewhere (places_meet_symm meet)
  · exact sound.apart x y first second placed atY firstDgram secondDgram distinct port meet

def KeepsPlace (sock next : InetSocket) : Prop :=
  next.type = sock.type ∧ (sock.type = .dgram → next.localIp = sock.localIp ∧ next.localPort = sock.localPort)

omit sound in
theorem inet_keep_sound {w : UdpNet} {id : Nat} {sock next : InetSocket} (sound : UdpSound w) (here : w.sockets id = some sock)
    (keeps : KeepsPlace sock next) : UdpSound (w.setSocket id next) := by
  refine inet_set_sound sound here (fun _ _ => rfl) (fun dgram => ?_) (fun dgram port other found there type elsewhere meet => ?_)
  all_goals
    rw [keeps.1] at dgram
    obtain ⟨ip, samePort⟩ := keeps.2 dgram
  · rw [sound.bound id sock here dgram, ip, samePort]
  · refine sound.apart id other sock found here there dgram type (Ne.symm elsewhere) (samePort ▸ port) ?_
    simpa only [PlacesMeet, ip, samePort] using meet

theorem inet_add_sound (unbound : sock.type = .dgram → sock.localPort = 0) : UdpSound (inetAdd w sock) := by
  have each : ∀ id found, (inetAdd w sock).sockets id = some found →
      (id = w.nextSocket ∧ found = sock) ∨ (id ≠ w.nextSocket ∧ w.sockets id = some found) :=
    fun id found stands => update_some stands
  refine ⟨update_forall List.mem_cons_self (fun id found _ stands => List.mem_cons_of_mem _ (sound.listed id found stands)),
    sound.ephemeral,
    fun id high => ?_, update_forall (fun dgram => ?_) (fun id found elsewhere stands dgram => ?_),
    fun x y first second atX atY firstDgram secondDgram distinct port meet => ?_⟩
  · have low : w.nextSocket + 1 ≤ id := high
    exact update_none (sound.fresh id (by omega)) (fun same => by omega)
  · rw [if_pos (unbound dgram)]
    simp only [inetAdd, update_self]
  · simp only [inetAdd, update_of_ne elsewhere]
    exact sound.bound id found stands dgram
  rcases each x first atX with ⟨rfl, rfl⟩ | ⟨_, atX⟩
  · exact port (unbound firstDgram)
  rcases each y second atY with ⟨rfl, rfl⟩ | ⟨_, atY⟩
  · exact port (meet.1.trans (unbound secondDgram))
  · exact sound.apart x y first second atX atY firstDgram secondDgram distinct port meet

theorem inet_remove_sound (id : Nat) :
    UdpSound { w with socketList := w.socketList.erase id, sockets := update w.sockets id none } := by
  have each : ∀ other found, update w.sockets id none other = some found → other ≠ id ∧ w.sockets other = some found :=
    fun other found stands => update_clear stands
  refine ⟨fun other found stands => ?_, sound.ephemeral, fun other high => ?_,
    fun other found stands => sound.bound other found (each other found stands).2,
    fun x y first second atX atY => sound.apart x y first second (each x first atX).2 (each y second atY).2⟩
  · obtain ⟨elsewhere, stands⟩ := each other found stands
    exact (List.mem_erase_of_ne elsewhere).mpr (sound.listed other found stands)
  · exact update_none (sound.fresh other high) (fun _ => rfl)

theorem udp_bind_sound (ip : UInt32)
    (here : w.sockets id = some sock) (numbered : sock.type = .dgram → port ≠ 0) : UdpSound (udpBind w id sock ip port) := by
  rw [udpBind]
  split
  · exact sound
  split
  · exact sound
  next free =>
    refine inet_set_sound sound here (fun other elsewhere => ?_) (fun dgram => ?_)
      (fun dgram _ other found there type elsewhere meet => ?_)
    · by_cases dgram : sock.type = .dgram
      · simp only [UdpNet.setSocket, if_pos dgram, update_of_ne elsewhere]
      · simp only [UdpNet.setSocket, if_neg dgram]
    · simp only [if_pos dgram, if_neg (numbered dgram), update_self]
    have nonzero : port ≠ 0 := numbered dgram
    obtain ⟨same, ips⟩ := meet
    refine free ?_
    simp only [udpBindConflicts, Bool.and_eq_true, bne_iff_ne, ne_eq, nonzero, not_false_eq_true, true_and, List.any_eq_true]
    refine ⟨other, sound.listed other found there, elsewhere, ?_⟩
    rw [there]
    simp only [Option.any_some, Bool.and_eq_true, beq_iff_eq, Bool.or_eq_true]
    exact ⟨same.symm, by rcases ips with zero | zero | equal; exacts [.inl (.inr zero), .inl (.inl zero), .inr equal.symm]⟩

omit sound in
theorem udp_ephemeral_free {tries : Nat} (port : UInt16) {next : UInt16} {found : Option UInt16} (low : UDP_EPHEMERAL_MIN ≤ port)
    (chosen : udpEphemeral w tries port = (next, found)) :
    UDP_EPHEMERAL_MIN ≤ next ∧ ∀ free, found = some free → free ≠ 0 ∧ udpPortInUse w free = false := by
  induction tries generalizing port with
  | zero =>
    cases chosen
    exact ⟨low, fun _ none => by cases none⟩
  | succ tries ih =>
    have after : UDP_EPHEMERAL_MIN ≤ if port + 1 < UDP_EPHEMERAL_MIN then UDP_EPHEMERAL_MIN else port + 1 := by
      split
      · exact UInt16.le_refl _
      · exact UInt16.not_lt.mp (by assumption)
    rw [udpEphemeral] at chosen
    by_cases used : udpPortInUse w port
    · rw [if_pos used] at chosen
      exact ih _ after chosen
    rw [if_neg used] at chosen
    cases chosen
    refine ⟨after, fun free same => ?_⟩
    cases same
    refine ⟨fun zero => ?_, by simpa using used⟩
    rw [zero] at low
    exact absurd low (by decide)

theorem udp_auto_bind_sound (here : w.sockets id = some sock)
    (dgram : sock.type = .dgram) : UdpSound (udpAutoBind w id sock).1 := by
  rw [udpAutoBind]
  split
  · exact sound
  cases chosen : udpEphemeral w (UDP_EPHEMERAL_MAX.toNat + 1 - UDP_EPHEMERAL_MIN.toNat) w.udpNextEphemeral with
  | mk next found =>
    obtain ⟨low, free⟩ := udp_ephemeral_free _ sound.ephemeral chosen
    have moved : UdpSound { w with udpNextEphemeral := next } := ⟨sound.listed, low, sound.fresh, sound.bound, sound.apart⟩
    cases found with
    | none => exact moved
    | some port =>
      obtain ⟨nonzero, unused⟩ := free port rfl
      refine inet_set_sound moved here (fun other elsewhere => ?_) (fun _ => ?_) (fun _ _ other found there type _ meet => ?_)
      · simp only [UdpNet.setSocket, if_pos dgram, update_of_ne elsewhere]
      · simp only [if_pos dgram, if_neg nonzero, update_self]
      have same : port = found.localPort := meet.1
      rw [udpPortInUse, List.any_eq_false] at unused
      refine absurd (unused other (sound.listed other found there)) ?_
      have there : w.sockets other = some found := there
      simp [there, type, same]

theorem pending_sound (pending : List UdpSend) : UdpSound { w with pending := pending } :=
  ⟨sound.listed, sound.ephemeral, sound.fresh, sound.bound, sound.apart⟩

theorem send_routed_sound (id : Nat) (payload : List UInt8) {dev : UdpDev} : UdpSound (sendRouted w id ip port payload dev) := by
  rw [sendRouted]
  split
  · exact sound
  · exact pending_sound sound _

theorem udp_sendto_sound (dest : Option (UInt32 × UInt16)) (payload : List UInt8)
    (here : w.sockets id = some sock) : UdpSound (udpSendto w id sock dest payload) := by
  rw [udpSendto]
  split
  · exact sound
  split
  next dgram =>
    have bound := udp_auto_bind_sound sound here dgram
    rw [udpSendPacket]
    split
    · exact sound
    cases taken : udpAutoBind w id sock with
    | mk next ok =>
      rw [taken] at bound
      cases ok with
      | false => exact bound
      | true =>
        simp only
        split
        · exact bound
        split
        · exact bound
        split
        · exact bound
        · exact send_routed_sound bound id payload
  split
  · rw [rawIcmpSendPacket]
    split
    · exact sound
    split
    · exact sound
    · exact send_routed_sound sound id payload
  · exact sound

theorem inet_connect_sound (ip : UInt32) (port : UInt16) (tcpPort : Option UInt16)
    (here : w.sockets id = some sock) : UdpSound (inetConnect w id sock ip port tcpPort) := by
  have named := @inet_keep_sound w id sock { sock with remoteIp := ip, remotePort := port } sound here ⟨rfl, fun _ => ⟨rfl, rfl⟩⟩
  have there : (w.setSocket id { sock with remoteIp := ip, remotePort := port }).sockets id = some
    { sock with remoteIp := ip, remotePort := port } :=
    update_self _ _ _
  rw [inetConnect]
  split
  next dgram =>
    have bound := udp_auto_bind_sound named there dgram
    cases taken : udpAutoBind (w.setSocket id { sock with remoteIp := ip, remotePort := port }) id
      { sock with remoteIp := ip, remotePort := port } with
    | mk next ok =>
      rw [taken] at bound
      cases ok with
      | false => exact bound
      | true =>
        simp only
        split
        · exact bound
        next found there => exact inet_keep_sound bound there ⟨rfl, fun _ => ⟨rfl, rfl⟩⟩
  · exact inet_keep_sound sound here ⟨rfl, fun _ => ⟨rfl, rfl⟩⟩
  next notDgram _ =>
    split
    · exact named
    cases tcpPort with
    | none | some => exact inet_keep_sound sound here ⟨rfl, fun dgram => absurd dgram notDgram⟩

def SendLeaves (send : UdpSend) (resolved sent : Bool) : Prop :=
  sent = true ∧ (resolved = true ∨ send.dev.loopback = true ∨ send.dstIp = send.dev.ipv4Addr)

-- Port 0 is neither bound nor addressed, and a socket sends only with a local address.
def UdpPlain (w : UdpNet) : UdpCall → Prop
  | .bind id _ port => ∀ sock ∈ w.sockets id, sock.type = .dgram → port ≠ 0
  | .transmit index resolved sent => ∀ send ∈ w.pending[index]?, ∀ sock ∈ w.sockets send.sock, sock.type = .dgram →
      SendLeaves send resolved sent → sock.localIp ≠ 0
  | .datagram dgram => dgram.dstPort ≠ 0
  | _ => True

instance udpPlainDecidable (w : UdpNet) (call : UdpCall) : Decidable (UdpPlain w call) := by
  cases call <;> unfold UdpPlain <;> try unfold SendLeaves
  all_goals infer_instance

theorem send_transmit_sound {next : UdpNet} {send : UdpSend} {resolved sent : Bool}
    (addressed : ∀ sock, w.sockets send.sock = some sock → sock.type = .dgram → SendLeaves send resolved sent → sock.localIp ≠ 0)
    (taken : sendTransmit w send resolved sent = .ok next) : UdpSound next := by
  rw [sendTransmit] at taken
  split at taken
  · cases taken
  next sock here =>
    split at taken
    · cases taken; exact sound
    next reached =>
      split at taken
      · cases taken; exact sound
      next went =>
        cases taken
        refine inet_keep_sound sound here ⟨rfl, fun dgram => ⟨?_, rfl⟩⟩
        have leaves : SendLeaves send resolved sent := by
          refine ⟨by simpa using went, ?_⟩
          by_contra not
          simp only [not_or, Bool.not_eq_true] at not
          exact reached (by simp [not])
        exact if_pos (addressed sock here dgram leaves)

omit sound in
theorem udp_step_sound (w next : UdpNet) (call : UdpCall) (sound : UdpSound w) (plain : UdpPlain w call)
    (taken : udpStep w call = .ok next) :
    UdpSound next := by
  have keep : ∀ id (call : InetSocket → UdpNet), (∀ sock, w.sockets id = some sock → UdpSound (call sock)) → UdpSound
    (withInet w id call) := by
    intro id call each
    rw [withInet]
    split
    · exact sound
    next sock here => exact each sock here
  cases call with
  | socket type protocol =>
    cases taken
    split
    · exact inet_add_sound sound (fun _ => rfl)
    · exact sound
  | bind id ip port =>
    cases taken
    exact keep id _ (fun sock here => udp_bind_sound sound ip here (plain sock here))
  | connect id ip port tcpPort =>
    cases taken
    exact keep id _ (fun sock here => inet_connect_sound sound ip port tcpPort here)
  | sendto id dest payload =>
    cases taken
    exact keep id _ (fun sock here => udp_sendto_sound sound dest payload here)
  | transmit index resolved sent =>
    rw [udpStep] at taken
    split at taken
    · cases taken; exact sound
    next send queued =>
      exact send_transmit_sound (pending_sound sound (w.pending.eraseIdx index)) (fun sock here => plain send queued sock here) taken
  | recvfrom id | ref id =>
    cases taken
    exact keep id _ (fun sock here => inet_keep_sound sound here ⟨rfl, fun _ => ⟨rfl, rfl⟩⟩)
  | close id =>
    cases taken
    refine keep id _ (fun sock here => ?_)
    rw [inetClose]
    split
    · exact inet_keep_sound sound here ⟨rfl, fun _ => ⟨rfl, rfl⟩⟩
    · exact inet_remove_sound sound id
  | datagram dgram =>
    cases taken
    rw [UdpNet.socketUdpReceive]
    split
    · exact sound
    split
    · exact sound
    next sock here =>
      split
      · exact sound
      · exact inet_keep_sound sound here ⟨rfl, fun _ => ⟨rfl, rfl⟩⟩
  | accepted localIp localPort remoteIp remotePort =>
    cases taken
    exact inet_add_sound sound (fun dgram => by cases dgram)
  | devices devs defaultDev =>
    cases taken
    exact ⟨sound.listed, sound.ephemeral, sound.fresh, sound.bound, sound.apart⟩

def BoundTo (w : UdpNet) (id : Nat) (ip : UInt32) (port : UInt16) : Prop :=
  ∃ sock address, w.sockets id = some sock ∧ sock.type = .dgram ∧ w.binding id = some (address, port) ∧ (address = 0 ∨ address = ip)

def AtMostOneBound (w : UdpNet) : Prop := ∀ ip port x y, BoundTo w x ip port → BoundTo w y ip port → x = y

def FollowsBinding (w : UdpNet) : UdpCall → Prop
  | .datagram dgram => ∀ id sock, w.sockets id = some sock → sock.type = .dgram → sock.connected = false →
      (udpOffered w dgram = some id ↔ BoundTo w id dgram.dstIp dgram.dstPort)
  | _ => True

theorem bound_place (bound : BoundTo w id ip port) :
    ∃ sock, w.sockets id = some sock ∧ sock.type = .dgram ∧ sock.localPort = port ∧ port ≠ 0 ∧
      (sock.localIp = 0 ∨ sock.localIp = ip) := by
  obtain ⟨sock, address, here, dgram, binding, covers⟩ := bound
  rw [sound.bound id sock here dgram] at binding
  split at binding
  · cases binding
  next nonzero =>
    cases binding
    exact ⟨sock, here, dgram, rfl, nonzero, covers⟩

end

theorem cover_meet (port : x.localPort = y.localPort) (first : x.localIp = 0 ∨ x.localIp = ip)
    (second : y.localIp = 0 ∨ y.localIp = ip) : PlacesMeet x y := by
  refine ⟨port, ?_⟩
  rcases first with zero | same
  · exact .inl zero
  rcases second with zero | equal
  · exact .inr (.inl zero)
  · exact .inr (.inr (same.trans equal.symm))

theorem sound_at_most_one (w : UdpNet) (sound : UdpSound w) : AtMostOneBound w := by
  intro ip port x y boundX boundY
  obtain ⟨first, atX, firstDgram, firstPort, nonzero, firstIp⟩ := bound_place sound boundX
  obtain ⟨second, atY, secondDgram, secondPort, _, secondIp⟩ := bound_place sound boundY
  by_contra distinct
  exact sound.apart x y first second atX atY firstDgram secondDgram distinct (firstPort ▸ nonzero)
    (cover_meet (firstPort.trans secondPort.symm) firstIp secondIp)

theorem matches_place (fits : udpMatches sock dgram = true) :
    sock.type = .dgram ∧ sock.localPort = dgram.dstPort ∧ (sock.localIp = 0 ∨ sock.localIp = dgram.dstIp) := by
  simp only [udpMatches, Bool.and_eq_true, beq_iff_eq, Bool.or_eq_true] at fits
  exact ⟨fits.1.1.1, fits.1.1.2, fits.1.2⟩

theorem offered_fits (offered : udpOffered w dgram = some id) : ∃ sock, w.sockets id = some sock ∧ udpMatches sock dgram = true := by
  have found := List.find?_some offered
  cases here : w.sockets id with
  | none => rw [here] at found; cases found
  | some sock => exact ⟨sock, rfl, by rw [here] at found; exact found⟩

theorem datagram_follows_binding (sound : UdpSound w) (port : dgram.dstPort ≠ 0) : FollowsBinding w (.datagram dgram) := by
  intro id sock here type loose
  constructor
  · intro offered
    obtain ⟨other, there, fits⟩ := offered_fits offered
    rw [here] at there
    cases there
    obtain ⟨_, samePort, covers⟩ := matches_place fits
    have binding := sound.bound id sock here type
    rw [if_neg (samePort ▸ port), samePort] at binding
    exact ⟨sock, sock.localIp, here, type, binding, covers⟩
  intro bound
  obtain ⟨other, there, _, samePort, nonzero, covers⟩ := bound_place sound bound
  rw [here] at there
  cases there
  have fits : udpMatches sock dgram = true := by simp [udpMatches, type, samePort, covers, loose]
  cases offered : udpOffered w dgram with
  | none =>
    have nowhere := List.find?_eq_none.mp offered id (sound.listed id sock here)
    rw [here] at nowhere
    exact absurd fits nowhere
  | some first =>
    obtain ⟨other, there, firstFits⟩ := offered_fits offered
    obtain ⟨otherDgram, otherPort, otherCovers⟩ := matches_place firstFits
    by_contra distinct
    exact sound.apart first id other sock there here otherDgram type (fun same => distinct (by rw [same])) (otherPort ▸ nonzero)
      (cover_meet (otherPort.trans samePort.symm) otherCovers covers)

theorem boot_udp_sound : UdpSound bootUdp := by
  have none : ∀ id sock, bootUdp.sockets id ≠ some sock := fun _ _ stands => Option.some_ne_none _ stands.symm
  exact ⟨fun id sock stands => absurd stands (none id sock), UInt16.le_refl _, fun _ _ => rfl,
    fun id sock stands => absurd stands (none id sock),
    fun id _ sock _ stands => absurd stands (none id sock)⟩

theorem udp_delivery_follows_binding (calls : List UdpCall) (plain : Permitted udpStep UdpPlain bootUdp calls) :
    Always udpStep AtMostOneBound bootUdp calls ∧ EachStep udpStep (fun w call _ => FollowsBinding w call) bootUdp calls := by
  have keeps := fun w call next sound plain taken => udp_step_sound w next call sound plain taken
  refine ⟨permitted_always keeps boot_udp_sound sound_at_most_one plain,
    permitted_each_step keeps boot_udp_sound (fun w call _ sound plain _ => ?_) plain⟩
  cases call with
  | datagram dgram => exact datagram_follows_binding sound plain
  | _ => trivial

def twoDevices : UdpCall := .devices [⟨0x0A000001, 0xFFFFFF00, 0, 0, false⟩, ⟨0x7F000001, 0xFF000000, 0, 0, true⟩] none

def addressedTalk : List UdpCall :=
  [twoDevices, .socket .dgram 0, .bind 0 0x0A000001 5000, .sendto 0 (some (0x0A000002, 7)) [1], .transmit 0 true true,
    .datagram ⟨0x0A000002, 0x0A000001, 7, 5000, [2], 0⟩]

theorem addressed_talk_follows_binding : Permitted udpStep UdpPlain bootUdp addressedTalk ∧
    Always udpStep AtMostOneBound bootUdp addressedTalk ∧ EachStep udpStep
      (fun w call _ => FollowsBinding w call) bootUdp addressedTalk := by
  have plain : Permitted udpStep UdpPlain bootUdp addressedTalk := by decide +kernel
  exact ⟨plain, udp_delivery_follows_binding addressedTalk plain⟩

-- A send binds the wildcard socket to one address, and another socket takes its port.
def wildcardTalk : List UdpCall :=
  [twoDevices, .socket .dgram 0, .bind 0 0 5000, .sendto 0 (some (0x0A000002, 7)) [1], .transmit 0 true true, .socket .dgram 0,
    .bind 1 0x7F000001 5000]

theorem wildcard_lost_by_sending : ∃ w, run udpStep bootUdp wildcardTalk = .ok w ∧ BoundTo w 0 0x7F000001 5000 ∧
      BoundTo w 1 0x7F000001 5000 ∧
    udpOffered w ⟨0x7F000001, 0x7F000001, 9, 5000, [2], 0⟩ = some 1 ∧ (w.sockets 0).map (·.connected) = some false := by
  refine ⟨_, rfl, ⟨_, 0, rfl, rfl, rfl, .inl rfl⟩, ⟨_, 0x7F000001, rfl, rfl, rfl, .inr rfl⟩, ?_, ?_⟩
  · decide +kernel
  · decide +kernel

end Lyr.Net
