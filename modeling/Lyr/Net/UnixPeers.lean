import Lyr.Lib.Table
import Lyr.Net.UnixSocket

set_option autoImplicit false

namespace Lyr.Net

open Lyr.Lib Function

def UnixSocket.queue (sock : UnixSocket) : List UInt8 := ringBytes sock.rxBuf sock.rxCap sock.rxHead sock.rxLen

def UnixNet.queue (w : UnixNet) (id : Nat) : List UInt8 := match w.sockets id with
  | none => []
  | some sock => sock.queue

structure UnixRing (sock : UnixSocket) : Prop where
  head : sock.rxHead < sock.rxCap
  room : sock.rxLen ≤ sock.rxCap

variable {sock ls : UnixSocket} {id other listener client : Nat} {w next : UnixNet} {path : List UInt8} {reply : UnixReply}
  {call : UnixCall} {rest : List Nat}

theorem unix_put_queue (byte : UInt8) (ring : UnixRing sock) (room : sock.rxLen < sock.rxCap) :
    UnixRing (unixPut sock byte) ∧ (unixPut sock byte).queue = sock.queue ++ [byte] := by
  refine ⟨⟨ring.head, room⟩, ?_⟩
  have head := ring.head
  simp only [UnixSocket.queue, unixPut]
  rw [ring_bytes_add]
  congr 1
  · refine ring_bytes_congr (fun i queued => update_of_ne (fun same => ?_) _ _)
    rw [slot_at _ _ (by omega), slot_at _ _ (by omega)] at same
    split at same <;> split at same <;> omega
  · simp [ringBytes, update_self]

def UnixSocket.SameButRing (x y : UnixSocket) : Prop := x = { y with rxBuf := x.rxBuf, rxLen := x.rxLen, rxHead := x.rxHead }

theorem unix_puts_queue (data : List UInt8) (sock : UnixSocket) (ring : UnixRing sock)
    (room : sock.rxLen + data.length ≤ sock.rxCap) :
    UnixRing (data.foldl unixPut sock) ∧ (data.foldl unixPut sock).queue = sock.queue ++ data ∧
      (data.foldl unixPut sock).SameButRing sock := by
  induction data generalizing sock with
  | nil => exact ⟨ring, (List.append_nil _).symm, rfl⟩
  | cons byte rest ih =>
    rw [List.length_cons] at room
    obtain ⟨ringNext, queueNext⟩ := unix_put_queue byte ring (by omega)
    obtain ⟨ringLast, queueLast, same⟩ := ih (unixPut sock byte) ringNext (by simp only [unixPut]; omega)
    refine ⟨ringLast, ?_, same⟩
    rw [List.foldl_cons, queueLast, queueNext, List.append_assoc]
    rfl

theorem unix_take_queue {count : Nat} (sock : UnixSocket) (ring : UnixRing sock) (enough : count ≤ sock.rxLen) :
    UnixRing (unixTake sock count).1 ∧ sock.queue = (unixTake sock count).2 ++ (unixTake sock count).1.queue ∧
      (unixTake sock count).1.SameButRing sock := by
  induction count generalizing sock with
  | zero => exact ⟨ring, rfl, rfl⟩
  | succ count ih =>
    have head := ring.head
    have room := ring.room
    obtain ⟨ringNext, queueNext, same⟩ := ih { sock with rxHead := (sock.rxHead + 1) % sock.rxCap, rxLen := sock.rxLen - 1 }
      ⟨Nat.mod_lt _ (by omega), by change sock.rxLen - 1 ≤ sock.rxCap; omega⟩ (by change count ≤ sock.rxLen - 1; omega)
    refine ⟨ringNext, ?_, same⟩
    rw [unixTake, List.cons_append, ← queueNext]
    simp only [UnixSocket.queue]
    rw [ring_drop_bytes _ _ _ (by omega), ← List.take_append_drop 1 (ringBytes _ _ _ _), ← ring_take_bytes _ _ _ (by omega)]
    simp [ringBytes, Nat.mod_eq_of_lt head]

-- No caller knows a waiting socket, whose peer is the listener.
def Waits (w : UnixNet) (id client : Nat) : Prop := w.handed client = false ∧
  (∃ child, w.sockets client = some child ∧ child.peer = some id) ∧ ∃ connector, w.connector client = some connector

-- Only sockets that callers know listen or are peers.
structure UnixSound (w : UnixNet) : Prop where
  ring : ∀ id sock, w.sockets id = some sock → UnixRing sock
  fresh : ∀ id, w.nextSocket ≤ id → w.sockets id = none ∧ w.handed id = false
  listening : ∀ id sock, w.sockets id = some sock → sock.listening = true → w.handed id = true
  peers : ∀ id sock peer, w.sockets id = some sock → sock.peer = some peer → w.handed peer = true
  once : ∀ id sock, w.sockets id = some sock → sock.backlog.Nodup
  waiting : ∀ id sock client, w.sockets id = some sock → client ∈ sock.backlog → Waits w id client

theorem unix_set_self (w : UnixNet) (id : Nat) (sock : UnixSocket) : (w.setSocket id sock).sockets id = some sock := update_self _ _ _

theorem unix_set_other (w : UnixNet) (sock : UnixSocket) (apart : other ≠ id) :
    (w.setSocket id sock).sockets other = w.sockets other := update_of_ne apart _ _

theorem unix_add_self (w : UnixNet) (sock : UnixSocket) : (unixSocketAdd w sock).sockets w.nextSocket = some sock := update_self _ _ _

theorem unix_add_other (sock : UnixSocket) (apart : other ≠ w.nextSocket) :
    (unixSocketAdd w sock).sockets other = w.sockets other := update_of_ne apart _ _

theorem callers_known (known : w.callers id = some sock) : w.handed id = true ∧ w.sockets id = some sock := by
  unfold UnixNet.callers at known
  split at known
  · exact ⟨by assumption, known⟩
  · cases known

section

variable (sound : UnixSound w)
include sound

theorem set_sound {next : UnixSocket} (known : w.handed id = true) (old : id < w.nextSocket)
    (ring : UnixRing next) (peer : ∀ target, next.peer = some target → w.handed target = true) (once : next.backlog.Nodup)
    (waits : ∀ client ∈ next.backlog, Waits w id client) : UnixSound (w.setSocket id next) := by
  have still : ∀ other client, Waits w other client → Waits (w.setSocket id next) other client := by
    rintro other client ⟨hidden, child, made⟩
    have apart : client ≠ id := fun same => by rw [same, known] at hidden; cases hidden
    exact ⟨hidden, by rw [unix_set_other w next apart]; exact child, made⟩
  refine ⟨update_forall ring (fun other found _ => sound.ring other found), fun other high => ?_,
    update_forall (fun _ => known) (fun other found _ => sound.listening other found),
    fun other found target => update_forall (peer target) (fun other found _ => sound.peers other found target) other found,
    update_forall once (fun other found _ => sound.once other found),
    fun other found client => update_forall (fun member => still id client (waits client member))
      (fun other found _ stands member => still other client (sound.waiting other found client stands member)) other found⟩
  have apart : other ≠ id := by rintro rfl; exact absurd high (by change ¬w.nextSocket ≤ other; omega)
  exact ⟨by rw [unix_set_other w next apart]; exact (sound.fresh other high).1, (sound.fresh other high).2⟩

omit sound in
theorem add_sound (w : UnixNet) (client : UnixSocket) (sound : UnixSound w) (ring : UnixRing client)
    (quiet : client.listening = false)
    (peer : ∀ target, client.peer = some target → w.handed target = true) (empty : client.backlog = []) :
    UnixSound (unixSocketAdd w client) := by
  have gone := (sound.fresh w.nextSocket (le_refl _)).1
  have keeps : ∀ id sock, w.sockets id = some sock → (unixSocketAdd w client).sockets id = some sock := by
    intro id sock stands
    have apart : id ≠ w.nextSocket := fun same => by rw [same, gone] at stands; cases stands
    exact (unix_add_other client apart).trans stands
  refine ⟨update_forall ring (fun id sock _ => sound.ring id sock), fun id high => ?_,
    update_forall (fun listens => nomatch quiet.symm.trans listens) (fun id sock _ => sound.listening id sock),
    fun id sock target => update_forall (peer target) (fun id sock _ => sound.peers id sock target) id sock,
    update_forall (by rw [empty]; exact List.nodup_nil) (fun id sock _ => sound.once id sock),
    fun id sock waiting stands member => ?_⟩
  · have apart : id ≠ w.nextSocket := by rintro rfl; exact absurd high (by simp [unixSocketAdd])
    have low : w.nextSocket ≤ id := Nat.le_of_succ_le high
    exact ⟨(unix_add_other client apart).trans (sound.fresh id low).1, (sound.fresh id low).2⟩
  rcases update_some stands with ⟨_, rfl⟩ | ⟨_, stands⟩
  · rw [empty] at member; cases member
  · obtain ⟨hidden, ⟨child, there, points⟩, made⟩ := sound.waiting id sock waiting stands member
    exact ⟨hidden, ⟨child, keeps waiting child there, points⟩, made⟩

theorem handed_sound (old : id < w.nextSocket)
    (free : ∀ other sock, w.sockets other = some sock → id ∉ sock.backlog) :
    UnixSound { w with handed := update w.handed id true } := by
  have more : ∀ other, w.handed other = true → update w.handed id true other = true := by
    intro other known
    by_cases same : other = id
    · rw [same, update_self]
    · rw [update_of_ne same, known]
  refine ⟨sound.ring, fun other high => ?_, fun other sock stands listens => more other (sound.listening other sock stands listens),
    fun other sock peer stands points =>
      more peer (sound.peers other sock peer stands points), sound.once, fun other sock client stands member => ?_⟩
  · have apart : other ≠ id := by rintro rfl; exact absurd high (by change ¬w.nextSocket ≤ other; omega)
    exact ⟨(sound.fresh other high).1, (update_of_ne apart _ _).trans (sound.fresh other high).2⟩
  have apart : client ≠ id := by rintro rfl; exact free other sock stands member
  obtain ⟨hidden, rest⟩ := sound.waiting other sock client stands member
  exact ⟨(update_of_ne apart _ _).trans hidden, rest⟩

theorem remove_sound {list : List Nat} (known : w.handed id = true) :
    UnixSound { w with socketList := list, sockets := update w.sockets id none } := by
  have each : ∀ other sock, update w.sockets id none other = some sock → w.sockets other = some sock :=
    fun other sock stands => (update_clear stands).2
  refine ⟨fun other sock stands => sound.ring other sock (each other sock stands), fun other high => ⟨?_, (sound.fresh other high).2⟩,
    fun other sock stands => sound.listening other sock (each other sock stands), fun other sock peer stands =>
      sound.peers other sock peer (each other sock stands),
    fun other sock stands => sound.once other sock (each other sock stands), fun other sock client stands member => ?_⟩
  · exact update_none (sound.fresh other high).1 (fun _ => rfl)
  obtain ⟨hidden, child, made⟩ := sound.waiting other sock client (each other sock stands) member
  have apart : client ≠ id := by rintro rfl; rw [known] at hidden; cases hidden
  exact ⟨hidden, by simp only [update_of_ne apart]; exact child, made⟩

theorem connector_sound (client id : Nat) :
    UnixSound { w with connector := update w.connector client (some id) } := by
  refine ⟨sound.ring, sound.fresh, sound.listening, sound.peers, sound.once, fun other sock waiting stands member => ?_⟩
  obtain ⟨hidden, child, made⟩ := sound.waiting other sock waiting stands member
  refine ⟨hidden, child, ?_⟩
  by_cases same : waiting = client
  · exact ⟨id, by simp only [same, update_self]⟩
  · simp only [update_of_ne same]
    exact made

theorem known_old (known : w.handed id = true) : id < w.nextSocket := by
  by_contra high
  rw [(sound.fresh id (by omega)).2] at known
  cases known

theorem set_same_sound {next : UnixSocket} (known : w.handed id = true)
    (here : w.sockets id = some sock) (ring : UnixRing next) (peer : next.peer = sock.peer) (backlog : next.backlog = sock.backlog) :
    UnixSound (w.setSocket id next) :=
  set_sound sound known (known_old sound known) ring
    (fun target points => sound.peers id sock target here (peer ▸ points)) (backlog ▸ sound.once id sock here)
    (fun client member => sound.waiting id sock client here (backlog ▸ member))

end

theorem set_queue_self (w : UnixNet) (id : Nat) (next : UnixSocket) : (w.setSocket id next).queue id = next.queue := by
  rw [UnixNet.queue, unix_set_self]

theorem set_queue_other (w : UnixNet) (next : UnixSocket) (apart : other ≠ id) :
    (w.setSocket id next).queue other = w.queue other := by
  rw [UnixNet.queue, UnixNet.queue, unix_set_other w next apart]

theorem here_queue (here : w.sockets id = some sock) : w.queue id = sock.queue := by
  rw [UnixNet.queue, here]

theorem set_queue_same (w : UnixNet) (id other : Nat) (sock next : UnixSocket) (here : w.sockets id = some sock)
    (same : next.queue = sock.queue) :
    (w.setSocket id next).queue other = w.queue other := by
  by_cases self : other = id
  · rw [self, set_queue_self, same, here_queue here]
  · exact set_queue_other w next self

theorem add_queue_same (other : Nat) {client : UnixSocket} (sound : UnixSound w) (empty : client.rxLen = 0) :
    (unixSocketAdd w client).queue other = w.queue other := by
  by_cases self : other = w.nextSocket
  · rw [self, UnixNet.queue, unix_add_self, UnixNet.queue, (sound.fresh w.nextSocket (le_refl _)).1]
    simp [UnixSocket.queue, empty, ringBytes]
  · rw [UnixNet.queue, unix_add_other client self, UnixNet.queue]

-- A send appends its bytes to the peer's queue, a receive takes them from the front of its own, and all else stays.
def UnixDelivery (w : UnixNet) (call : UnixCall) (next : UnixNet) (reply : UnixReply) : Prop := match call with
  | .sendto id data =>
    ((∃ error, reply = .failed error) ∧ next = w) ∨ ∃ sock peer count, w.sockets id = some sock ∧ sock.peer = some peer ∧
      reply = .sent count ∧ next.queue peer = w.queue peer ++ data.take count ∧ ∀ other, other ≠ peer →
        next.queue other = w.queue other
  | .recvfrom id _ => ((∃ error, reply = .failed error) ∧ next = w) ∨ ∃ data, reply = .received data ∧
      w.queue id = data ++ next.queue id ∧ ∀ other, other ≠ id → next.queue other = w.queue other
  | .close id => ∀ other, other ≠ id → next.queue other = w.queue other
  | _ => ∀ other, next.queue other = w.queue other

section Calls

variable {w : UnixNet} (sound : UnixSound w)

include sound

theorem unix_socket_sound (type : SockType) (nonblock memory : Bool) : UnixSound (unixSocket w type nonblock memory).1 ∧
    ∀ other, (unixSocket w type nonblock memory).1.queue other = w.queue other := by
  rw [unixSocket]
  split
  · exact ⟨sound, fun _ => rfl⟩
  split
  · exact ⟨sound, fun _ => rfl⟩
  have added := add_sound w (freshUnixSocket type nonblock) sound ⟨Nat.succ_pos 4095, Nat.zero_le _⟩ rfl
    (fun _ points => by cases points) rfl
  refine ⟨handed_sound added (Nat.lt_succ_self _) (fun other sock stands member => ?_), fun other => ?_⟩
  · obtain ⟨_, ⟨child, there, points⟩, _⟩ := added.waiting other sock w.nextSocket stands member
    rw [unix_add_self] at there
    rw [← Option.some.inj there] at points
    cases points
  · exact add_queue_same other sound rfl

theorem unix_accept_sound (known : w.handed id = true) (here : w.sockets id = some sock) :
    UnixSound (unixAccept w id sock).1 ∧ ∀ other, (unixAccept w id sock).1.queue other = w.queue other := by
  rw [unixAccept]
  split
  · exact ⟨sound, fun _ => rfl⟩
  split
  · exact ⟨sound, fun _ => rfl⟩
  next client rest queued =>
    have once := sound.once id sock here
    rw [queued] at once
    have first : client ∈ sock.backlog := by rw [queued]; exact List.mem_cons_self
    obtain ⟨hidden, ⟨child, there, points⟩, made⟩ := sound.waiting id sock client here first
    have apart : client ≠ id := by rintro rfl; rw [known] at hidden; cases hidden
    have shorter : UnixSound (w.setSocket id { sock with backlog := rest }) :=
      set_sound sound known (known_old sound known) ⟨(sound.ring id sock here).head, (sound.ring id sock here).room⟩
        (fun target => sound.peers id sock target here)
        (List.nodup_cons.mp once).2 (fun waiting member => sound.waiting id sock waiting here
          (by rw [queued]; exact List.mem_cons_of_mem _ member))
    have old : client < w.nextSocket := by
      by_contra high
      rw [(sound.fresh client (by omega)).1] at there
      cases there
    refine ⟨handed_sound shorter old (fun other found stands member => ?_), fun other => set_queue_same w id other sock _ here rfl⟩
    -- It stood once in one backlog.
    obtain ⟨_, ⟨_, again, target⟩, _⟩ := shorter.waiting other found client stands member
    rw [unix_set_other w _ apart, there] at again
    rw [← Option.some.inj again, points] at target
    cases target
    rw [unix_set_self] at stands
    cases stands
    exact (List.nodup_cons.mp once).1 member

section

variable (here : w.sockets listener = some ls)
include here

theorem enqueue_sound (id : Nat) (heard : w.handed listener = true) :
    UnixSound { unixEnqueue w listener ls with connector := update w.connector w.nextSocket (some id) } := by
  have empty := sound.fresh w.nextSocket (le_refl _)
  have ring := sound.ring listener ls here
  have older : ∀ client ∈ ls.backlog, client ≠ w.nextSocket := by
    rintro client member rfl
    obtain ⟨_, ⟨child, there, _⟩, _⟩ := sound.waiting listener ls _ here member
    rw [empty.1] at there
    cases there
  have added := connector_sound (add_sound w (unixClient listener) sound ⟨Nat.succ_pos 4095, Nat.zero_le _⟩ rfl
    (fun target points => by cases points; exact heard) rfl) w.nextSocket id
  refine set_sound added heard
    (Nat.lt_succ_of_lt (known_old sound heard)) ⟨ring.head, ring.room⟩ (fun target => sound.peers listener ls target here) ?_ ?_
  · refine List.nodup_append.mpr ⟨sound.once listener ls here, List.nodup_singleton _, fun client member other last same => ?_⟩
    exact older client member (same.trans (List.mem_singleton.mp last))
  intro client member
  rcases List.mem_append.mp member with member | member
  · obtain ⟨hidden, ⟨child, there, points⟩, made⟩ := sound.waiting listener ls client here member
    exact ⟨hidden, ⟨child, (unix_add_other _ (older client member)).trans there, points⟩,
      by simp only [update_of_ne (older client member)]; exact made⟩
  · rw [List.mem_singleton.mp member]
    exact ⟨empty.2, ⟨_, unix_add_self w _, rfl⟩, id, update_self _ _ _⟩

theorem enqueue_queue (other : Nat) : (unixEnqueue w listener ls).queue other = w.queue other := by
  have apart : listener ≠ w.nextSocket := by
    rintro rfl
    rw [(sound.fresh _ (le_refl _)).1] at here
    cases here
  have there : (unixSocketAdd w (unixClient listener)).sockets listener = some ls := (unix_add_other _ apart).trans here
  exact (set_queue_same _ listener other ls { ls with backlog := ls.backlog ++ [w.nextSocket] } there rfl).trans
    (add_queue_same other sound rfl)

theorem listener_listens (named : unixListener w path = some listener) : w.handed listener = true := by
  have found := List.find?_some named
  rw [here] at found
  simp only [Option.any_some, Bool.and_eq_true] at found
  exact sound.listening listener ls here found.1

end

theorem unix_connect_sound {memory : Bool} (known : w.handed id = true) :
    UnixSound (unixConnect w id path memory).1 ∧ ∀ other, (unixConnect w id path memory).1.queue other = w.queue other := by
  have refused : UnixSound w ∧ ∀ other, w.queue other = w.queue other := ⟨sound, fun _ => rfl⟩
  rw [unixConnect]
  split
  · exact refused
  next listener named =>
    split
    · exact refused
    split
    · exact refused
    next ls here =>
      split
      · exact refused
      split
      · exact refused
      next sock mine =>
        have heard := listener_listens sound here named
        have queued := enqueue_sound sound here id heard
        have ring := queued.ring id sock mine
        refine ⟨set_sound queued known
          (Nat.lt_succ_of_lt (known_old sound known)) ⟨ring.head, ring.room⟩ (fun target points => by cases points; exact heard)
          (queued.once id sock mine) (fun client member => queued.waiting id sock client mine member), fun other => ?_⟩
        exact (set_queue_same _ id other sock { sock with peer := some listener, connected := true, binded := true } mine rfl).trans
          (enqueue_queue sound here other)

section

variable (here : w.sockets id = some sock)
include here

theorem unix_sendto_sound {data : List UInt8}
    (sent : unixSendto w sock data = .ok (next, reply)) : UnixSound next ∧ UnixDelivery w (.sendto id data) next reply := by
  have refused : ∀ error, next = w → reply = .failed error → UnixSound next ∧ UnixDelivery w (.sendto id data) next reply :=
    fun error same failed => ⟨same ▸ sound, .inl ⟨⟨error, failed⟩, same⟩⟩
  rw [unixSendto] at sent
  split at sent
  · cases sent; exact refused _ rfl rfl
  next peer points =>
    split at sent
    · cases sent; exact refused _ rfl rfl
    split at sent
    · cases sent
    next other there =>
      by_cases none : min data.length (other.rxCap - other.rxLen) = 0
      · rw [if_pos none] at sent
        cases sent
        exact refused _ rfl rfl
      rw [if_neg none] at sent
      cases sent
      have ring := sound.ring peer other there
      obtain ⟨ringNext, queueNext, same⟩ := unix_puts_queue (data.take (min data.length (other.rxCap - other.rxLen))) other ring
        (by rw [List.length_take]; omega)
      refine ⟨set_same_sound sound (sound.peers id sock peer here points) there ringNext (by rw [same]) (by rw [same]),
        .inr ⟨sock, peer, _, here, points, rfl, ?_, fun third apart => set_queue_other w _ apart⟩⟩
      rw [set_queue_self, queueNext, here_queue there]

theorem unix_recvfrom_sound (length : Nat) (known : w.handed id = true) :
    UnixSound (unixRecvfrom w id sock length).1 ∧
      UnixDelivery w (.recvfrom id length) (unixRecvfrom w id sock length).1 (unixRecvfrom w id sock length).2 := by
  rw [unixRecvfrom]
  split
  · exact ⟨sound, .inl ⟨⟨_, rfl⟩, rfl⟩⟩
  obtain ⟨ringNext, queueNext, same⟩ := unix_take_queue sock (sound.ring id sock here) (Nat.min_le_left _ _)
  refine ⟨set_same_sound sound known here ringNext (by rw [same]) (by rw [same]),
    .inr ⟨_, rfl, ?_, fun other apart => set_queue_other w _ apart⟩⟩
  rw [set_queue_self, here_queue here]
  exact queueNext

theorem unix_close_sound (known : w.handed id = true) :
    UnixSound (unixClose w id sock).1 ∧ ∀ other, other ≠ id → (unixClose w id sock).1.queue other = w.queue other := by
  rw [unixClose]
  have ring := sound.ring id sock here
  split
  · exact ⟨set_same_sound sound known here ⟨ring.head, ring.room⟩ rfl rfl, fun other apart => set_queue_other w _ apart⟩
  · refine ⟨remove_sound sound known, fun other apart => ?_⟩
    simp only [UnixNet.queue, update_of_ne apart]

end

theorem unix_act_sound (acts : unixAct w call = .ok (next, reply)) : UnixSound next ∧ UnixDelivery w call next reply := by
  have pair : ∀ {result : UnixNet × UnixReply}, Except.ok (ε := NetFault) result = .ok (next, reply) → result.1 = next ∧
    result.2 = reply := by
    rintro _ ⟨⟩
    exact ⟨rfl, rfl⟩
  cases call with
  | socket type nonblock memory =>
    obtain ⟨rfl, rfl⟩ := pair acts
    exact unix_socket_sound sound type nonblock memory
  | sendto id data =>
    rw [unixAct, withUnix] at acts
    split at acts
    · cases acts; exact ⟨sound, .inl ⟨⟨_, rfl⟩, rfl⟩⟩
    next sock found => exact unix_sendto_sound sound (callers_known found).2 acts
  | recvfrom id length =>
    rw [unixAct, withUnix] at acts
    split at acts
    · cases acts; exact ⟨sound, .inl ⟨⟨_, rfl⟩, rfl⟩⟩
    next sock found =>
      obtain ⟨rfl, rfl⟩ := pair acts
      exact unix_recvfrom_sound sound (callers_known found).2 length (callers_known found).1
  | close id =>
    rw [unixAct, withUnix] at acts
    split at acts
    · cases acts; exact ⟨sound, fun _ _ => rfl⟩
    next sock found =>
      obtain ⟨rfl, rfl⟩ := pair acts
      exact unix_close_sound sound (callers_known found).2 (callers_known found).1
  | _ id =>
    rw [unixAct, withUnix] at acts
    split at acts
    · cases acts; exact ⟨sound, fun _ => rfl⟩
    next sock found =>
      obtain ⟨known, here⟩ := callers_known found
      have ring := sound.ring id sock here
      obtain ⟨rfl, rfl⟩ := pair acts
      first
        | exact unix_accept_sound sound known here
        | exact unix_connect_sound sound known
        | exact ⟨set_same_sound sound known here ⟨ring.head, ring.room⟩ rfl rfl,
          fun other => set_queue_same w id other sock _ here rfl⟩

end Calls

-- Accepted and connected socket are each other's peers.
def EachOthersPeers (w : UnixNet) (client connector : Nat) : Prop :=
  (∀ sock, w.sockets client = some sock → sock.peer = some connector) ∧ ∀ sock, w.sockets connector = some sock →
    sock.peer = some client

def PeersJoined (w : UnixNet) (call : UnixCall) (next : UnixNet) : Prop := ∀ id client connector, call = .accept id →
  unixAct w call = .ok (next, .socket client) → w.connector client = some connector → EachOthersPeers next client connector

def NoPending (w : UnixNet) : UnixCall → Prop
  | .accept id => ∀ sock, w.callers id = some sock → sock.listening = true → sock.backlog = []
  | _ => True

theorem accept_takes (found : w.callers id = some sock) (listens : sock.listening = true) (queued : sock.backlog = client :: rest) :
    ∃ next, unixAct w (.accept id) = .ok (next, .socket client) ∧ next.sockets = (w.setSocket id
      { sock with backlog := rest }).sockets :=
  ⟨{ w.setSocket id { sock with backlog := rest } with handed := update w.handed client true },
    by simp [unixAct, withUnix, found, unixAccept, listens, queued, UnixNet.setSocket], rfl⟩

-- No socket has a waiting one as its peer; a listener that connects to itself has another peer.
theorem accepted_not_joined (sound : UnixSound w) (connector : Nat)
    (known : w.handed id = true) (here : w.sockets id = some sock) (queued : sock.backlog = client :: rest)
    (after : next.sockets = (w.setSocket id { sock with backlog := rest }).sockets) : ¬EachOthersPeers next client connector := by
  rintro ⟨forth, back⟩
  obtain ⟨hidden, ⟨child, there, points⟩, _⟩ := sound.waiting id sock client here (by rw [queued]; exact List.mem_cons_self)
  have apart : client ≠ id := by rintro rfl; rw [known] at hidden; cases hidden
  have target := forth child (by rw [after, unix_set_other w _ apart]; exact there)
  rw [points] at target
  cases target
  have peer := back { sock with backlog := rest } (by rw [after, unix_set_self])
  rw [sound.peers id sock client here peer] at hidden
  cases hidden

theorem no_pending_iff_joined (call : UnixCall) (sound : UnixSound w) :
    NoPending w call ↔ ∀ next, unixStep w call = .ok next → PeersJoined w call next := by
  constructor
  · rintro quiet next _ id client connector rfl acts _
    rw [unixAct, withUnix] at acts
    split at acts
    · cases acts
    next sock found =>
      have empty := quiet sock found
      rw [unixAccept] at acts
      split at acts
      · cases acts
      next listens =>
        rw [empty (by simpa using listens)] at acts
        cases acts
  intro joined
  cases call with
  | accept id =>
    intro sock found listens
    obtain ⟨known, here⟩ := callers_known found
    cases queued : sock.backlog with
    | nil => rfl
    | cons client rest =>
      obtain ⟨next, acts, after⟩ := accept_takes found listens queued
      obtain ⟨_, _, connector, made⟩ := sound.waiting id sock client here (by rw [queued]; exact List.mem_cons_self)
      have taken : unixStep w (.accept id) = .ok next := by rw [unixStep, acts]; rfl
      exact absurd (joined next taken id client connector rfl acts made) (accepted_not_joined sound connector known here queued after)
  | _ => trivial

theorem boot_unix_sound : UnixSound bootUnix := by
  have none : ∀ id sock, bootUnix.sockets id ≠ some sock := fun _ _ stands => Option.some_ne_none _ stands.symm
  exact ⟨fun id sock stands => absurd stands (none id sock), fun _ _ => ⟨rfl, rfl⟩,
    fun id sock stands => absurd stands (none id sock),
    fun id sock _ stands => absurd stands (none id sock), fun id sock stands => absurd stands (none id sock),
    fun id sock _ stands => absurd stands (none id sock)⟩

theorem unix_step_sound (sound : UnixSound w) (taken : unixStep w call = .ok next) : UnixSound next := by
  obtain ⟨⟨other, reply⟩, acts, rfl⟩ := map_ok.mp taken
  exact (unix_act_sound sound acts).1

theorem unix_peers_joined_iff (calls : List UnixCall) :
    EachStep unixStep (fun w call next => ∃ reply, unixAct w call = .ok (next, reply) ∧
      UnixDelivery w call next reply) bootUnix calls ∧
    (Permitted unixStep NoPending bootUnix calls ↔ EachStep unixStep PeersJoined bootUnix calls) := by
  refine ⟨?_, permitted_iff_each_step (fun w call next sound taken => unix_step_sound sound taken)
    (fun w call sound => no_pending_iff_joined call sound) boot_unix_sound⟩
  have free : Permitted unixStep (fun _ _ => True) bootUnix calls := permitted_all _ (fun _ _ => trivial)
  refine permitted_each_step (fun w call next sound _ taken => unix_step_sound sound taken) boot_unix_sound
    (fun w call next sound _ taken => ?_) free
  obtain ⟨⟨other, reply⟩, acts, rfl⟩ := map_ok.mp taken
  exact ⟨reply, acts, (unix_act_sound sound acts).2⟩

-- The listener gets the bytes that socket 1 sends before socket 2 is accepted.
theorem unix_listener_gets_the_bytes : ∃ w next, run unixStep bootUnix [.socket .stream false true, .bind 0 [47], .listen 0,
      .socket .stream false true, .connect 1 [47] true, .sendto 1 [104, 105]] = .ok w ∧
    unixAct w (.accept 0) = .ok (next, .socket 2) ∧ w.connector 2 = some 1 ∧ (next.sockets 1).map (·.peer) = some (some 0) ∧
    (next.sockets 2).map (·.peer) = some (some 0) ∧ next.queue 2 = [] ∧ next.queue 0 = [104, 105] :=
  ⟨_, _, rfl, rfl, rfl, rfl, rfl, by decide +kernel, by decide +kernel⟩

theorem unix_backlogs_apart (calls : List UnixCall) : Always unixStep (fun w => ∀ id sock, w.sockets id = some sock →
    UnixRing sock ∧ sock.backlog.Nodup ∧ ∀ client ∈ sock.backlog, Waits w id client ∧
      ∀ other ls, w.sockets other = some ls → client ∈ ls.backlog → other = id) bootUnix calls := by
  refine permitted_always (fun _ _ _ sound _ => unix_step_sound sound) boot_unix_sound (fun w sound id sock here => ?_)
    (@permitted_all _ _ _ _ _ (fun _ => True) _ (fun _ _ => trivial))
  refine ⟨sound.ring id sock here, sound.once id sock here, fun client queued => ?_⟩
  have waits := sound.waiting id sock client here queued
  refine ⟨waits, fun other ls there too => ?_⟩
  obtain ⟨-, ⟨child, stands, peer⟩, -⟩ := waits
  obtain ⟨-, ⟨again, same, second⟩, -⟩ := sound.waiting other ls client there too
  cases stands.symm.trans same
  exact Option.some.inj (second.symm.trans peer)

end Lyr.Net
