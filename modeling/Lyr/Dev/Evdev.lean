import Lyr.Lib.Run

set_option autoImplicit false

namespace Lyr.Dev

open Lyr.Lib Function

def EVDEV_RING_SIZE : Nat := 256
def LYR_KEY_MAX : UInt16 := 128
def LYR_INPUT_REL_X : UInt16 := 0
def LYR_INPUT_REL_Y : UInt16 := 1
def LYR_INPUT_REL_WHEEL : UInt16 := 8
def LYR_INPUT_BTN_LEFT : UInt16 := 0x110
def LYR_INPUT_BTN_RIGHT : UInt16 := 0x111
def LYR_INPUT_BTN_MIDDLE : UInt16 := 0x112

inductive InputError where
  | einval
  | eagain
  | eoverflow
  | eintr
  deriving DecidableEq, Repr

inductive EventType where
  | syn
  | key
  | rel
  deriving DecidableEq, Repr

-- The time of an event is always zero and left out.
structure InputEvent where
  type : EventType
  code : UInt16
  value : Int
  deriving DecidableEq, Repr

def INPUT_EVENT_BYTES : Nat := 24

def synReport : InputEvent := ⟨.syn, 0, 0⟩

inductive EvdevKind where
  | keyboard
  | mouse
  deriving DecidableEq, Repr

structure KeyEvent where
  keycode : UInt16
  down : Bool

structure MouseEvent where
  dx : Int
  dy : Int
  dz : Int
  buttons : UInt32

structure EvdevRecord where
  key : KeyEvent
  mouse : MouseEvent

abbrev Bitset := Nat → BitVec 8

def bitMask (bit : UInt16) : BitVec 8 := BitVec.twoPow 8 (bit.toNat % 8)

variable (bits : Bitset)

def evdevBitSet (bit : UInt16) : Bitset := fun byte => if byte = bit.toNat / 8 then bits byte ||| bitMask bit else bits byte

def evdevBitClear (bit : UInt16) : Bitset := fun byte => if byte = bit.toNat / 8 then bits byte &&& ~~~ bitMask bit else bits byte

def evdevBitTest (bit : UInt16) : Bool := bits (bit.toNat / 8) &&& bitMask bit != 0

structure Evdev where
  ring : Nat → InputEvent
  head : UInt32
  tail : UInt32
  kind : EvdevKind
  currentKeys : Bitset
  mouseButtons : UInt32

def evdevCreate (kind : EvdevKind) : Evdev := ⟨fun _ => synReport, 0, 0, kind, fun _ => 0, 0⟩

def ringSlot (position : UInt32) : Nat := position.toNat % EVDEV_RING_SIZE

def evdevFreeSlots (dev : Evdev) : Nat := EVDEV_RING_SIZE - (dev.head - dev.tail).toNat

def queueOne (dev : Evdev) (event : InputEvent) : Evdev :=
  { dev with ring := update dev.ring (ringSlot dev.head) event, head := dev.head + 1 }

def evdevQueueMany (dev : Evdev) (events : List InputEvent) : Except InputError Evdev :=
  if events.length = 0 then .ok dev
  else if evdevFreeSlots dev < events.length then .error .eagain
  else .ok (events.foldl queueOne dev)

def evdevEmitKeyboard (dev : Evdev) (ev : KeyEvent) : Except InputError Evdev :=
  if ev.keycode = 0 ∨ ev.keycode ≥ LYR_KEY_MAX then .ok dev
  else do
    let dev ← evdevQueueMany dev [⟨.key, ev.keycode, if ev.down then 1 else 0⟩, synReport]
    .ok { dev with
      currentKeys := if ev.down then evdevBitSet dev.currentKeys ev.keycode else evdevBitClear dev.currentKeys ev.keycode }

inductive Button where
  | left
  | right
  | middle
  deriving DecidableEq, Repr

def Button.all : List Button := [.left, .right, .middle]

def Button.place : Button → Nat
  | .left => 0
  | .right => 1
  | .middle => 2

def Button.code : Button → UInt16
  | .left => LYR_INPUT_BTN_LEFT
  | .right => LYR_INPUT_BTN_RIGHT
  | .middle => LYR_INPUT_BTN_MIDDLE

variable (button : Button)

variable (buttons : UInt32)

def Button.held : Bool := buttons.toBitVec &&& BitVec.twoPow 32 button.place != 0

-- out[count++] in an array of eight.
def outPut (out : List InputEvent) (event : InputEvent) : Except InputError (List InputEvent) :=
  if out.length ≥ 8 then .error .eoverflow else .ok (out ++ [event])

def buttonEvent (pressed : UInt32) (button : Button) : InputEvent := ⟨.key, button.code, if button.held pressed then 1 else 0⟩

def outButton (changed pressed : UInt32) (out : List InputEvent) (button : Button) : Except InputError (List InputEvent) :=
  if button.held changed then outPut out (buttonEvent pressed button) else .ok out

def outRel (code : UInt16) (value : Int) (out : List InputEvent) : Except InputError (List InputEvent) :=
  if value ≠ 0 then outPut out ⟨.rel, code, value⟩ else .ok out

def storeButton (keys : Bitset) (button : Button) : Bitset :=
  if button.held buttons then evdevBitSet keys button.code else keys

def storeButtons (keys : Bitset) : Bitset :=
  Button.all.foldl (storeButton buttons) (Button.all.foldl (fun keys button => evdevBitClear keys button.code) keys)

def evdevEmitMouse (dev : Evdev) (ev : MouseEvent) : Except InputError Evdev := do
  let out ← Button.all.foldlM (outButton (dev.mouseButtons ^^^ ev.buttons) ev.buttons) []
  let out ← outRel LYR_INPUT_REL_X ev.dx out
  let out ← outRel LYR_INPUT_REL_Y ev.dy out
  let out ← outRel LYR_INPUT_REL_WHEEL ev.dz out
  let out ← outPut out synReport
  let dev ← evdevQueueMany dev out
  .ok { dev with mouseButtons := ev.buttons, currentKeys := storeButtons ev.buttons dev.currentKeys }

def evdevPush (dev : Evdev) (record : EvdevRecord) : Except InputError Evdev :=
  match dev.kind with
  | .keyboard => evdevEmitKeyboard dev record.key
  | .mouse => evdevEmitMouse dev record.mouse

-- The copying loop of a read.
def takeEvents : Nat → Evdev → List InputEvent × Evdev
  | 0, dev => ([], dev)
  | room + 1, dev =>
    if dev.head = dev.tail then ([], dev)
    else
      let rest := takeEvents room { dev with tail := dev.tail + 1 }
      (dev.ring (ringSlot dev.tail) :: rest.1, rest.2)

-- With an empty ring it sleeps and looks again, and returns only for a signal.
def evdevReadRecord (dev : Evdev) : Except InputError (List InputEvent × Evdev) :=
  if dev.head = dev.tail then .error .eintr else .ok (takeEvents 1 dev)

def evdevReadBytes (dev : Evdev) (len : Nat) : Except InputError (List InputEvent × Evdev) :=
  if len = 0 then .ok ([], dev)
  else if len < INPUT_EVENT_BYTES then .error .einval
  else if dev.head = dev.tail then .error .eintr
  else .ok (takeEvents (len / INPUT_EVENT_BYTES) dev)

inductive EvdevCall where
  | push (record : EvdevRecord)
  | readRecord
  | readBytes (len : Nat)

structure Stream where
  dev : Evdev
  delivered : List InputEvent
  accepted : List EvdevRecord

def Stream.taken (stream : Stream) : Except InputError (List InputEvent × Evdev) → Stream
  | .ok (events, dev) => { stream with dev := dev, delivered := stream.delivered ++ events }
  | .error _ => stream

def streamStep (stream : Stream) : EvdevCall → Stream
  | .push record =>
    match evdevPush stream.dev record with
    | .ok dev => { stream with dev := dev, accepted := stream.accepted ++ [record] }
    | .error _ => stream
  | .readRecord => stream.taken (evdevReadRecord stream.dev)
  | .readBytes len => stream.taken (evdevReadBytes stream.dev len)

def eventsFrom (ring : Nat → InputEvent) : Nat → UInt32 → List InputEvent
  | 0, _ => []
  | count + 1, position => ring (ringSlot position) :: eventsFrom ring count (position + 1)

def Evdev.queued (dev : Evdev) : List InputEvent := eventsFrom dev.ring (dev.head - dev.tail).toNat dev.tail

-- A key, or the changed buttons and the movements, and a report.
def moved (code : UInt16) (value : Int) : List InputEvent := if value ≠ 0 then [⟨.rel, code, value⟩] else []

def recordGroup (before : UInt32) : EvdevKind → EvdevRecord → List InputEvent
  | .keyboard, record =>
    if record.key.keycode = 0 ∨ record.key.keycode ≥ LYR_KEY_MAX then []
    else [⟨.key, record.key.keycode, if record.key.down then 1 else 0⟩] ++ [synReport]
  | .mouse, record =>
    (Button.all.filter (fun button => button.held before != button.held record.mouse.buttons)).map
      (buttonEvent record.mouse.buttons) ++
    (moved LYR_INPUT_REL_X record.mouse.dx ++ moved LYR_INPUT_REL_Y record.mouse.dy ++ moved LYR_INPUT_REL_WHEEL record.mouse.dz) ++
      [synReport]

def groups (kind : EvdevKind) : UInt32 → List EvdevRecord → List (List InputEvent)
  | _, [] => []
  | before, record :: rest => recordGroup before kind record :: groups kind record.mouse.buttons rest

def hold (code : UInt16) (held : Bool) (event : InputEvent) : Bool :=
  if event.type = .key ∧ event.code = code then event.value != 0 else held

def replay (events : List InputEvent) (code : UInt16) : Bool := events.foldl (hold code) false

theorem and_power_ne_zero {width : Nat} {bits : BitVec width} {place : Nat} (inside : place < width) :
    (bits &&& BitVec.twoPow width place != 0) = bits.getLsbD place := by
  rw [BitVec.and_twoPow]
  cases bits.getLsbD place with
  | false => simp
  | true =>
    have set : (BitVec.twoPow width place).getLsbD place = true := by simp [inside]
    have nonzero : BitVec.twoPow width place ≠ 0 := fun zero => by simp [zero] at set
    simpa using nonzero

theorem bit_test_at (bit : UInt16) : evdevBitTest bits bit = (bits (bit.toNat / 8)).getLsbD (bit.toNat % 8) :=
  and_power_ne_zero (Nat.mod_lt _ (by decide))

theorem same_bit (a b : UInt16) : decide (a = b) = decide (b.toNat / 8 = a.toNat / 8 ∧ b.toNat % 8 = a.toNat % 8) := by
  rw [decide_eq_decide, ← UInt16.toNat_inj]
  omega

theorem bit_test_set (a b : UInt16) : evdevBitTest (evdevBitSet bits a) b = (decide (a = b) || evdevBitTest bits b) := by
  have small : a.toNat % 8 < 8 := Nat.mod_lt _ (by decide)
  rw [bit_test_at, bit_test_at, evdevBitSet, same_bit]
  split
  next byte => simp [bitMask, byte, BitVec.getLsbD_twoPow, small, Bool.or_comm, eq_comm]
  next byte => simp [byte]

theorem bit_test_clear (a b : UInt16) : evdevBitTest (evdevBitClear bits a) b = (!decide (a = b) && evdevBitTest bits b) := by
  have other : b.toNat % 8 < 8 := Nat.mod_lt _ (by decide)
  rw [bit_test_at, bit_test_at, evdevBitClear, same_bit]
  split
  next byte => simp [bitMask, byte, other, Bool.and_comm, eq_comm]
  next byte => simp [byte]

theorem bit_test_store (button : Button) (code : UInt16) :
    evdevBitTest (storeButton buttons bits button) code = (button.held buttons && decide
      (button.code = code) || evdevBitTest bits code) := by
  rw [storeButton]
  cases button.held buttons <;> simp [bit_test_set]

theorem held_at : button.held buttons = buttons.toBitVec.getLsbD button.place :=
  and_power_ne_zero (by cases button <;> decide)

theorem held_changed (before after : UInt32) : button.held (before ^^^ after) = (button.held before != button.held after) := by
  simp [held_at]

variable {ring : Nat → InputEvent} {count : Nat} {position : UInt32} {dev after : Evdev} {event : InputEvent}
    {events : List InputEvent} {out : List InputEvent} {code : UInt16} {value : Int}

theorem events_push (small : count < EVDEV_RING_SIZE) :
    eventsFrom (update ring (ringSlot (position + .ofNat count)) event) (count + 1) position = eventsFrom ring count position ++
      [event] := by
  induction count generalizing position with
  | zero => simp [eventsFrom]
  | succ more ih =>
    have next : position + UInt32.ofNat (more + 1) = position + 1 + UInt32.ofNat more := by
      rw [UInt32.ofNat_add, UInt32.add_comm (UInt32.ofNat more), ← UInt32.add_assoc]
      rfl
    have apart : ringSlot position ≠ ringSlot (position + UInt32.ofNat (more + 1)) := by
      simp only [ringSlot, EVDEV_RING_SIZE, UInt32.toNat_add, UInt32.toNat_ofNat'] at small ⊢
      omega
    rw [eventsFrom, update_of_ne apart, next, ih (Nat.lt_of_succ_lt small)]
    rfl

theorem queue_one_queued (room : (dev.head - dev.tail).toNat < EVDEV_RING_SIZE) :
    (queueOne dev event).queued = dev.queued ++ [event] ∧ ((queueOne dev event).head - dev.tail).toNat =
      (dev.head - dev.tail).toNat + 1 := by
  have more : (dev.head + 1 - dev.tail).toNat = (dev.head - dev.tail).toNat + 1 := by
    simp only [EVDEV_RING_SIZE, UInt32.toNat_sub, UInt32.toNat_add] at room ⊢
    simp only [UInt32.toNat_one]
    omega
  have place : dev.head = dev.tail + .ofNat (dev.head - dev.tail).toNat := by
    rw [UInt32.ofNat_toNat, UInt32.add_comm, UInt32.sub_add_cancel]
  refine ⟨?_, more⟩
  have pushed : eventsFrom (update dev.ring (ringSlot (dev.tail + .ofNat (dev.head - dev.tail).toNat)) event) _ dev.tail = _ :=
    events_push room
  rw [← place, ← more] at pushed
  exact pushed

theorem empty_queued (none : dev.head = dev.tail) : dev.queued = [] := by
  rw [Evdev.queued, none, UInt32.sub_self]
  rfl

structure Appended (dev : Evdev) (events : List InputEvent) (after : Evdev) : Prop where
  queued : after.queued = dev.queued ++ events
  count : (after.head - after.tail).toNat = (dev.head - dev.tail).toNat + events.length
  kind : after.kind = dev.kind
  keys : after.currentKeys = dev.currentKeys
  buttons : after.mouseButtons = dev.mouseButtons

theorem queue_all_appended (room : (dev.head - dev.tail).toNat + events.length ≤ EVDEV_RING_SIZE) :
    Appended dev events (events.foldl queueOne dev) := by
  induction events generalizing dev with
  | nil => exact ⟨(List.append_nil _).symm, rfl, rfl, rfl, rfl⟩
  | cons event rest ih =>
    rw [List.length_cons] at room
    obtain ⟨queued, count⟩ := @queue_one_queued dev event (by omega)
    obtain ⟨later, total, kind, keys, buttons⟩ := @ih (queueOne dev event)
      (by rw [show (queueOne dev event).tail = dev.tail from rfl]; omega)
    refine ⟨?_, ?_, kind, keys, buttons⟩
    · rw [List.foldl_cons, later, queued, List.append_assoc, List.singleton_append]
    · rw [List.foldl_cons, total, show (queueOne dev event).tail = dev.tail from rfl, count, List.length_cons]
      omega

section

variable (bounded : (dev.head - dev.tail).toNat ≤ EVDEV_RING_SIZE)
include bounded

theorem queue_many_appended (done : evdevQueueMany dev events = .ok after) :
    Appended dev events after ∧ (after.head - after.tail).toNat ≤ EVDEV_RING_SIZE := by
  rw [evdevQueueMany] at done
  split at done
  next none =>
    cases done
    rw [List.length_eq_zero_iff] at none
    subst none
    exact ⟨⟨(List.append_nil _).symm, rfl, rfl, rfl, rfl⟩, bounded⟩
  split at done
  · cases done
  next fits =>
    cases done
    rw [evdevFreeSlots] at fits
    have appended := @queue_all_appended dev events (by omega)
    exact ⟨appended, by rw [appended.count]; omega⟩

theorem take_events_queue (room : Nat) :
    (takeEvents room dev).1 = dev.queued.take room ∧ (takeEvents room dev).2.queued = dev.queued.drop room ∧
      ((takeEvents room dev).2.head - (takeEvents room dev).2.tail).toNat ≤ EVDEV_RING_SIZE ∧
      ∃ tail, (takeEvents room dev).2 = { dev with tail := tail } := by
  induction room generalizing dev with
  | zero => exact ⟨rfl, rfl, bounded, dev.tail, rfl⟩
  | succ room ih =>
    rw [takeEvents]
    split
    next none => exact ⟨by rw [empty_queued none]; rfl, by rw [empty_queued none]; rfl, bounded, dev.tail, rfl⟩
    next some =>
      have fewer : (dev.head - dev.tail).toNat = (dev.head - (dev.tail + 1)).toNat + 1 := by
        have differ : dev.head.toNat ≠ dev.tail.toNat := fun same => some (UInt32.toNat_inj.mp same)
        have head := dev.head.toNat_lt
        have tail := dev.tail.toNat_lt
        simp only [UInt32.toNat_sub, UInt32.toNat_add, UInt32.toNat_one]
        omega
      have first : dev.queued = dev.ring (ringSlot dev.tail) :: { dev with tail := dev.tail + 1 }.queued := by
        rw [Evdev.queued, fewer]
        rfl
      obtain ⟨taken, rest, count, tail, same⟩ := @ih { dev with tail := dev.tail + 1 }
        (by show (dev.head - (dev.tail + 1)).toNat ≤ _; omega)
      exact ⟨by rw [first, List.take_succ_cons, ← taken], by rw [first, List.drop_succ_cons, ← rest], count, tail, same⟩

end

-- The oldest events, as many as fit.
def ReadsNext (dev : Evdev) (room : Nat) (result : Except InputError (List InputEvent × Evdev)) : Prop :=
  ∃ rest, result = .ok (dev.queued.take room, rest) ∧ rest.queued = dev.queued.drop room

theorem reads_next (bounded : (dev.head - dev.tail).toNat ≤ EVDEV_RING_SIZE) (some : dev.queued ≠ []) :
    ReadsNext dev 1 (evdevReadRecord dev) ∧
    ∀ len, INPUT_EVENT_BYTES ≤ len → ReadsNext dev (len / INPUT_EVENT_BYTES) (evdevReadBytes dev len) := by
  have differ : dev.head ≠ dev.tail := fun same => some (empty_queued same)
  have takes (room : Nat) : ReadsNext dev room (.ok (takeEvents room dev)) := by
    obtain ⟨taken, rest, _⟩ := take_events_queue bounded room
    exact ⟨_, by rw [← taken], rest⟩
  refine ⟨?_, fun len fits => ?_⟩
  · rw [evdevReadRecord, if_neg differ]
    exact takes 1
  · rw [evdevReadBytes, if_neg (by rintro rfl; cases fits), if_neg (Nat.not_lt.mpr fits), if_neg differ]
    exact takes _

theorem ok_bind {α β : Type} (value : α) (next : α → Except InputError β) : (Except.ok value >>= next) = next value := rfl

theorem out_put_ok (short : out.length < 8) : outPut out event = .ok (out ++ [event]) := if_neg (Nat.not_le.mpr short)

theorem out_buttons {changed pressed : UInt32} {buttons : List Button} (out : List InputEvent)
    (short : out.length + buttons.length ≤ 8) :
    buttons.foldlM (outButton changed pressed) out = .ok (out ++ (buttons.filter (·.held changed)).map (buttonEvent pressed)) := by
  induction buttons generalizing out with
  | nil => simp [pure, Except.pure]
  | cons button rest ih =>
    rw [List.length_cons] at short
    rw [List.foldlM_cons, outButton]
    cases held : button.held changed with
    | false =>
      rw [List.filter_cons_of_neg (by simp [held])]
      exact ih out (by omega)
    | true =>
      rw [List.filter_cons_of_pos (by exact held), if_pos rfl, out_put_ok (by omega), List.map_cons]
      exact (ih _ (by simp; omega)).trans (by simp)

theorem moved_few (code : UInt16) (value : Int) : (moved code value).length ≤ 1 := by
  rw [moved]
  split <;> simp

theorem out_rel (short : out.length < 8) :
    outRel code value out = .ok (out ++ moved code value) := by
  rw [outRel, moved]
  split
  · exact out_put_ok short
  · rw [List.append_nil]

structure Pushed (dev : Evdev) (record : EvdevRecord) (after : Evdev) : Prop where
  queued : after.queued = dev.queued ++ recordGroup dev.mouseButtons dev.kind record
  count : (after.head - after.tail).toNat ≤ EVDEV_RING_SIZE
  kind : after.kind = dev.kind
  keys : ∀ code, evdevBitTest after.currentKeys code = (recordGroup dev.mouseButtons dev.kind record).foldl (hold code)
    (evdevBitTest dev.currentKeys code)
  buttons : dev.kind = .mouse → after.mouseButtons = record.mouse.buttons
  stored : dev.kind = .mouse → ∀ button : Button, evdevBitTest after.currentKeys button.code = button.held after.mouseButtons

variable {record : EvdevRecord}

theorem emit_keyboard_pushed (bounded : (dev.head - dev.tail).toNat ≤ EVDEV_RING_SIZE) (kind : dev.kind = .keyboard)
    (done : evdevEmitKeyboard dev record.key = .ok after) : Pushed dev record after := by
  have keyboard : dev.kind ≠ .mouse := fun mouse => nomatch kind.symm.trans mouse
  rw [evdevEmitKeyboard] at done
  split at done
  next ignored =>
    cases done
    have nothing : recordGroup dev.mouseButtons dev.kind record = [] := by rw [kind, recordGroup, if_pos ignored]
    refine ⟨?_, bounded, rfl, fun code => ?_, (absurd · keyboard), (absurd · keyboard)⟩
    · rw [nothing, List.append_nil]
    · rw [nothing]
      rfl
  next known =>
    rw [bind_ok] at done
    obtain ⟨middle, queued, done⟩ := done
    cases done
    have group : recordGroup dev.mouseButtons dev.kind record = [⟨.key, record.key.keycode, if record.key.down then 1 else 0⟩,
      synReport] := by
      rw [kind, recordGroup, if_neg known]
      rfl
    obtain ⟨⟨events, -, same, keys, -⟩, count⟩ := queue_many_appended bounded queued
    refine ⟨group ▸ events, count, same, fun code => ?_, (absurd · keyboard), (absurd · keyboard)⟩
    rw [group]
    cases record.key.down <;> by_cases here : record.key.keycode = code <;>
      simp [hold, synReport, here, keys, bit_test_set, bit_test_clear]

theorem hold_still (held : Bool) (still : ∀ event ∈ events, event.type = .key → event.code ≠ code) :
    events.foldl (hold code) held = held := by
  induction events with
  | nil => rfl
  | cons event rest ih =>
    have first : hold code held event = held := if_neg (fun key => still event (List.mem_cons_self ..) key.1 key.2)
    rw [List.foldl_cons, first]
    exact ih (fun later inside => still later (List.mem_cons_of_mem _ inside))

theorem moved_still (inside : event ∈ moved code value) : event.type ≠ .key := by
  rw [moved] at inside
  split at inside
  · rw [List.mem_singleton.mp inside]
    exact nofun
  · cases inside

theorem stored_buttons (keys : Bitset) (after : UInt32) : evdevBitTest (storeButtons after keys) button.code = button.held after := by
  have code (a b : Button) : decide (a.code = b.code) = decide (a = b) := by cases a <;> cases b <;> rfl
  simp only [storeButtons, Button.all, List.foldl_cons, List.foldl_nil, bit_test_store, bit_test_clear, code]
  cases button <;> simp

theorem changed_hold (before after : UInt32) :
    ((Button.all.filter (fun button => button.held before != button.held after)).map (buttonEvent after)).foldl (hold button.code)
      (button.held before) = button.held after := by
  have code (a b : Button) : (a.code = b.code) = (a = b) := by cases a <;> cases b <;> simp [Button.code] <;> decide
  rw [List.foldl_map, List.foldl_filter]
  simp only [Button.all, List.foldl_cons, List.foldl_nil, hold, buttonEvent, code]
  cases button <;> simp <;> cases Button.held _ before <;> cases Button.held _ after <;> rfl

theorem mouse_keys (code : UInt16) (keys : Bitset) (before : UInt32) (record : EvdevRecord)
    (known : ∀ button : Button, evdevBitTest keys button.code = button.held before) :
    evdevBitTest (storeButtons record.mouse.buttons keys) code = (recordGroup before .mouse record).foldl (hold code)
      (evdevBitTest keys code) := by
  have rels : ∀ event ∈ moved LYR_INPUT_REL_X record.mouse.dx ++ moved LYR_INPUT_REL_Y record.mouse.dy ++
    moved LYR_INPUT_REL_WHEEL record.mouse.dz ++ [synReport],
      event.type = .key → event.code ≠ code := by
    intro event inside key
    simp only [List.mem_append, List.mem_singleton] at inside
    obtain ((inside | inside) | inside) | rfl := inside
    · exact absurd key (moved_still inside)
    · exact absurd key (moved_still inside)
    · exact absurd key (moved_still inside)
    · cases key
  rw [recordGroup, List.append_assoc, List.foldl_append, hold_still _ rels]
  by_cases one : ∃ button : Button, button.code = code
  · obtain ⟨button, rfl⟩ := one
    rw [stored_buttons, known, changed_hold]
  rw [hold_still]
  · simp [storeButtons, Button.all, bit_test_store, bit_test_clear, fun button => not_exists.mp one button]
  intro event inside _ same
  obtain ⟨button, -, rfl⟩ := List.mem_map.mp inside
  exact one ⟨button, same⟩

theorem emit_mouse_pushed (bounded : (dev.head - dev.tail).toNat ≤ EVDEV_RING_SIZE) (kind : dev.kind = .mouse)
    (known : ∀ button : Button, evdevBitTest dev.currentKeys button.code = button.held dev.mouseButtons)
    (done : evdevEmitMouse dev record.mouse = .ok after) : Pushed dev record after := by
  have pressed := List.length_filter_le
    (fun button : Button => button.held dev.mouseButtons != button.held record.mouse.buttons) Button.all
  have x := moved_few LYR_INPUT_REL_X record.mouse.dx
  have y := moved_few LYR_INPUT_REL_Y record.mouse.dy
  have z := moved_few LYR_INPUT_REL_WHEEL record.mouse.dz
  rw [show Button.all.length = 3 from rfl] at pressed
  -- At most three buttons and three movements come before the report.
  rw [evdevEmitMouse, out_buttons _ (by decide), ok_bind, List.nil_append,
    out_rel (by simp only [held_changed, List.length_map]; omega), ok_bind,
    out_rel (by simp only [held_changed, List.length_append, List.length_map]; omega), ok_bind,
    out_rel (by simp only [held_changed, List.length_append, List.length_map]; omega), ok_bind,
    out_put_ok (by simp only [held_changed, List.length_append, List.length_map]; omega), ok_bind, bind_ok] at done
  obtain ⟨middle, queued, done⟩ := done
  cases done
  obtain ⟨⟨events, -, same, keys, -⟩, count⟩ := queue_many_appended bounded queued
  refine ⟨?_, count, same, fun code => ?_, fun _ => rfl, fun _ button => stored_buttons button _ _⟩
  · rw [kind, recordGroup]
    refine events.trans ?_
    simp only [held_changed, List.append_assoc]
  · rw [kind]
    exact keys ▸ mouse_keys code dev.currentKeys _ record known

theorem groups_snoc (kind : EvdevKind) (before : UInt32) (records : List EvdevRecord) (record : EvdevRecord) :
    groups kind before (records ++ [record]) =
      groups kind before records ++ [recordGroup (records.foldl (fun _ last => last.mouse.buttons) before) kind record] := by
  induction records generalizing before with
  | nil => rfl
  | cons first rest ih => rw [List.cons_append, groups, ih, groups, List.foldl_cons, List.cons_append]

structure Faithful (kind : EvdevKind) (stream : Stream) : Prop where
  same : stream.dev.kind = kind
  count : (stream.dev.head - stream.dev.tail).toNat ≤ EVDEV_RING_SIZE
  events : stream.delivered ++ stream.dev.queued = (groups kind 0 stream.accepted).flatten
  keys : ∀ code, evdevBitTest stream.dev.currentKeys code = replay (stream.delivered ++ stream.dev.queued) code
  buttons : kind = .mouse → ∀ button : Button, evdevBitTest stream.dev.currentKeys button.code = button.held stream.dev.mouseButtons
  last : kind = .mouse → stream.dev.mouseButtons = stream.accepted.foldl (fun _ last => last.mouse.buttons) 0

variable {kind : EvdevKind} {stream : Stream}

section

variable (faithful : Faithful kind stream)
include faithful

theorem push_faithful (done : evdevPush stream.dev record = .ok after) :
    Faithful kind { stream with dev := after, accepted := stream.accepted ++ [record] } := by
  obtain ⟨same, count, events, keys, buttons, last⟩ := faithful
  have pushed : Pushed stream.dev record after := by
    rw [evdevPush] at done
    split at done
    next keyboard => exact emit_keyboard_pushed count keyboard done
    next mouse => exact emit_mouse_pushed count mouse (buttons (same ▸ mouse)) done
  have group : recordGroup stream.dev.mouseButtons kind record =
      recordGroup (stream.accepted.foldl (fun _ last => last.mouse.buttons) 0) kind record := by
    cases kind with
    | keyboard => rfl
    | mouse => rw [last rfl]
  obtain ⟨queued, bounded, kept, replayed, record', stored⟩ := pushed
  rw [same] at queued replayed kept
  refine ⟨kept, bounded, ?_, fun code => ?_, fun mouse => stored (same.trans mouse), fun mouse => ?_⟩
  · rw [queued, ← List.append_assoc, events, groups_snoc, List.flatten_append, group]
    simp
  · rw [replayed, keys, queued, ← List.append_assoc]
    exact (List.foldl_append ..).symm
  · rw [record' (same.trans mouse), List.foldl_append]
    rfl

theorem taken_faithful (room : Nat) : Faithful kind (stream.taken (.ok (takeEvents room stream.dev))) := by
  obtain ⟨same, count, events, keys, buttons, last⟩ := faithful
  obtain ⟨taken, rest, bounded, tail, after⟩ := take_events_queue count room
  have whole : stream.delivered ++ (takeEvents room stream.dev).1 ++ (takeEvents room stream.dev).2.queued = stream.delivered ++
    stream.dev.queued := by
    rw [List.append_assoc, taken, rest, List.take_append_drop]
  refine ⟨?_, bounded, whole.trans events, fun code => ?_, fun mouse => ?_, fun mouse => ?_⟩
  · exact (congrArg Evdev.kind after).trans same
  · exact (congrArg (evdevBitTest ·.currentKeys code) after).trans ((keys code).trans (congrArg (replay · code) whole.symm))
  · intro button
    exact (congrArg (evdevBitTest ·.currentKeys button.code) after).trans
      ((buttons mouse button).trans (congrArg (button.held ·.mouseButtons) after.symm))
  · exact (congrArg Evdev.mouseButtons after).trans (last mouse)

theorem stream_step_faithful (call : EvdevCall) : Faithful kind (streamStep stream call) := by
  cases call with
  | push record =>
    rw [streamStep]
    split
    next done => exact push_faithful faithful done
    · exact faithful
  | readRecord =>
    rw [streamStep, evdevReadRecord]
    split
    · exact faithful
    · exact taken_faithful faithful 1
  | readBytes len =>
    rw [streamStep, evdevReadBytes]
    split
    · exact taken_faithful faithful 0
    split
    · exact faithful
    split
    · exact faithful
    · exact taken_faithful faithful _

end

theorem group_report (before : UInt32) (kind : EvdevKind) (record : EvdevRecord) :
    recordGroup before kind record = [] ∧ kind = .keyboard ∧ (record.key.keycode = 0 ∨ record.key.keycode ≥ LYR_KEY_MAX) ∨
      ∃ body, recordGroup before kind record = body ++ [synReport] ∧ synReport ∉ body := by
  cases kind with
  | keyboard =>
    rw [recordGroup]
    split
    next ignored => exact .inl ⟨rfl, rfl, ignored⟩
    · exact .inr ⟨_, rfl, by simp [synReport]⟩
  | mouse =>
    refine .inr ⟨_, rfl, fun inside => ?_⟩
    simp only [List.mem_append, List.mem_map, moved, synReport] at inside
    obtain ⟨button, -, same⟩ | inside := inside
    · cases same
    · split at inside <;> split at inside <;> split at inside <;> simp at inside

theorem streams_deliver (kind : EvdevKind) (calls : List EvdevCall) :
    let stream := calls.foldl streamStep ⟨evdevCreate kind, [], []⟩
    stream.delivered ++ stream.dev.queued = (groups kind 0 stream.accepted).flatten ∧
      (∀ before record, recordGroup before kind record = [] ∧ kind = .keyboard ∧
        (record.key.keycode = 0 ∨ record.key.keycode ≥ LYR_KEY_MAX) ∨
        ∃ body, recordGroup before kind record = body ++ [synReport] ∧ synReport ∉ body) ∧
      (∀ code, evdevBitTest stream.dev.currentKeys code = replay (stream.delivered ++ stream.dev.queued) code) ∧
      (kind = .mouse → ∀ button : Button, button.held stream.dev.mouseButtons = replay
        (stream.delivered ++ stream.dev.queued) button.code) ∧
      (stream.dev.queued ≠ [] → ReadsNext stream.dev 1 (evdevReadRecord stream.dev) ∧
        ∀ len, INPUT_EVENT_BYTES ≤ len → ReadsNext stream.dev (len / INPUT_EVENT_BYTES) (evdevReadBytes stream.dev len)) := by
  have start : Faithful kind ⟨evdevCreate kind, [], []⟩ := by
    refine ⟨rfl, by simp [evdevCreate], ?_, fun code => ?_, fun _ button => ?_, fun _ => rfl⟩
    · simp [Evdev.queued, evdevCreate, eventsFrom, groups]
    · simp [bit_test_at, evdevCreate, replay, Evdev.queued, eventsFrom]
    · simp [bit_test_at, held_at, evdevCreate]
  obtain ⟨-, count, events, keys, buttons, -⟩ :=
    List.foldlRecOn calls streamStep start (fun _ faithful call _ => stream_step_faithful faithful call)
  exact ⟨events, fun before record => group_report before kind record, keys,
    fun mouse button => (buttons mouse button).symm.trans (keys _),
    reads_next count⟩

end Lyr.Dev
