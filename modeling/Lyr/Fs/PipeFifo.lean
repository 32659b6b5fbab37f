import Lyr.Fs.Pipe

set_option autoImplicit false

namespace Lyr.Fs

open Lyr.Lib Function

def pipeContents (pipe : Pipe) : List UInt8 := loadBytes pipe.shared.buffer 0 pipe.shared.writeOffset

structure BufferSound (shared : PipeShared) : Prop where
  sized : shared.allocated = shared.capacity + 1
  initial : 0 < shared.capacity
  small : shared.capacity + 1 < 2 ^ 64
  room : shared.writeOffset ≤ shared.capacity

-- Without data it saw an empty pipe; without writers it saw the last write mark.
def Remembers (pipe : Pipe) : Reading → Prop
  | .out => True
  | .head length | .asleep length => length ≠ 0
  | .taken length data writers mark => length ≠ 0 ∧ (data = [] → mark ≤ pipe.readOffset) ∧
      (writers = 0 → pipe.shared.writers = 0 ∧ mark = pipe.shared.writeOffset)

structure PipeSound (world : PipeWorld) : Prop where
  buffer : BufferSound world.pipe.shared
  mark : world.pipe.fileOffset = world.pipe.shared.writeOffset
  traffic : world.pipe.shared.writeOffset < 2 ^ 63
  sent : pipeContents world.pipe = world.sent
  behind : world.pipe.readOffset ≤ world.pipe.shared.writeOffset
  received : world.received = world.sent.take world.pipe.readOffset
  threads : ∀ thread, Remembers world.pipe (world.threads thread)

variable {world : PipeWorld} {need length thread writers : Nat} {pipe : Pipe} {data : List UInt8}

theorem pipe_sent_length (sound : PipeSound world) : world.sent.length = world.pipe.shared.writeOffset := by
  rw [← sound.sent, pipeContents, load_bytes_length]

theorem grow_cap_enough {fuel : Nat} (cap : Nat) (some : 0 < cap) (bounded : need < 2 ^ 63) (enough : need ≤ cap * 2 ^ fuel) :
    ∃ newCap, growCap need (fuel + 1) cap = .ok newCap ∧ need ≤ newCap ∧ cap ≤ newCap ∧ (newCap = cap ∨ newCap < 2 * need) := by
  induction fuel generalizing cap with
  | zero => exact ⟨cap, by rw [growCap, if_neg (by omega)], by omega, le_refl cap, .inl rfl⟩
  | succ fuel ih =>
    by_cases less : cap < need
    · have plain : cap * 2 % 2 ^ 64 = cap * 2 := Nat.mod_eq_of_lt (by omega)
      have doubled : need ≤ cap * 2 * 2 ^ fuel := by rw [Nat.mul_assoc, ← Nat.pow_succ']; exact enough
      obtain ⟨newCap, grown, least, more, size⟩ := ih (cap * 2) (by omega) doubled
      exact ⟨newCap, by rw [growCap, if_pos less, plain]; exact grown, least, by omega, .inr (by omega)⟩
    · exact ⟨cap, by rw [growCap, if_neg less], by omega, le_refl cap, .inl rfl⟩

structure Grown (shared : PipeShared) (need : Nat) (grown : PipeShared) : Prop where
  sound : BufferSound grown
  enough : need ≤ grown.capacity
  agree : ∀ i, i < shared.writeOffset → grown.buffer i = shared.buffer i
  mark : grown.writeOffset = shared.writeOffset
  readers : grown.readers = shared.readers
  writers : grown.writers = shared.writers

theorem pipe_grow_grown {shared : PipeShared} (fresh : Option Bytes) (sound : BufferSound shared) (bounded : need < 2 ^ 63) :
    pipeGrow shared need fresh = .ok none ∨ ∃ grown, pipeGrow shared need fresh = .ok (some grown) ∧ Grown shared need grown := by
  by_cases less : shared.capacity < need
  · have nonzero : shared.capacity ≠ 0 := by have := sound.initial; omega
    have reach : need ≤ shared.capacity * 2 ^ 65 := by omega
    obtain ⟨newCap, grows, least, _, size⟩ := grow_cap_enough shared.capacity sound.initial bounded reach
    have more : shared.capacity < newCap := by omega
    have whole : (newCap + 1) % 2 ^ 64 = newCap + 1 := Nat.mod_eq_of_lt (by omega)
    cases fresh with
    | none =>
      left
      rw [pipeGrow, if_pos less, if_neg nonzero, grows]
      rfl
    | some rest =>
      have fits : shared.capacity + (List.replicate (newCap + 1 - shared.capacity) (0 : UInt8)).length ≤ newCap + 1 := by
        rw [List.length_replicate]
        omega
      right
      refine ⟨_, by
        rw [pipeGrow, if_pos less, if_neg nonzero, grows]
        simp only [bind, Except.bind, kreallocBuffer, Option.map_some, whole, if_pos more, PipeShared.store, if_pos fits]
        rfl, ?_⟩
      refine ⟨⟨rfl, by change 0 < newCap; omega, by change newCap + 1 < 2 ^ 64; omega,
        le_of_lt (lt_of_le_of_lt sound.room more)⟩, least, fun i inside => ?_, rfl, rfl, rfl⟩
      have low : i < shared.capacity := lt_of_lt_of_le inside sound.room
      have old := overlay_inside rest shared.buffer 0 (min shared.allocated (newCap + 1)) i (by rw [sound.sized]; omega)
      rw [Nat.zero_add] at old
      change storeBytes _ shared.capacity _ i = shared.buffer i
      rw [store_bytes_outside _ (.inl low), old]
  · right
    exact ⟨shared, by rw [pipeGrow, if_neg less], sound, by omega, fun _ _ => rfl, rfl, rfl, rfl⟩

theorem store_fits (shared : PipeShared) (offset : Nat) (data : List UInt8) (fits : offset + data.length ≤ shared.allocated) :
    shared.store offset data = .ok { shared with buffer := storeBytes shared.buffer offset data } := by
  rw [PipeShared.store, if_pos fits]

structure Appended (pipe : Pipe) (data : List UInt8) (next : Pipe) : Prop where
  buffer : BufferSound next.shared
  contents : pipeContents next = pipeContents pipe ++ data
  mark : next.shared.writeOffset = pipe.shared.writeOffset + data.length
  file : next.fileOffset = next.shared.writeOffset
  readers : next.shared.readers = pipe.shared.readers
  writers : next.shared.writers = pipe.shared.writers
  offset : next.readOffset = pipe.readOffset

theorem pipe_write_appends (fresh : Option Bytes) (sound : BufferSound pipe.shared)
    (mark : pipe.fileOffset = pipe.shared.writeOffset) (traffic : pipe.shared.writeOffset + data.length < 2 ^ 63)
    (some : data ≠ []) (heard : pipe.shared.readers ≠ 0) :
    vfsPipeWrite pipe data fresh = .ok (pipe, .error .enomem) ∨
      ∃ next, vfsPipeWrite pipe data fresh = .ok (next, .ok data.length) ∧ Appended pipe data next := by
  have plain : (pipe.fileOffset + data.length) % 2 ^ 64 = pipe.shared.writeOffset + data.length := by
    rw [mark]
    exact Nat.mod_eq_of_lt (by omega)
  have positive : 0 < data.length := List.length_pos_iff.mpr some
  rcases pipe_grow_grown fresh sound traffic with short | ⟨grown, grows, holds⟩
  · left
    simp only [vfsPipeWrite, if_neg some, if_neg heard, plain, short, bind, Except.bind]
  have even : ¬grown.writeOffset < pipe.fileOffset := by rw [holds.mark, mark]; exact lt_irrefl _
  have sized := holds.sound.sized
  have enough := holds.enough
  have moves : grown.writeOffset < pipe.shared.writeOffset + data.length := by rw [holds.mark]; omega
  have first := store_fits grown pipe.fileOffset data (by rw [mark]; omega)
  have last := store_fits { grown with buffer := storeBytes grown.buffer pipe.fileOffset data }
    (pipe.shared.writeOffset + data.length) [0]
    (by change _ + 1 ≤ grown.allocated; omega)
  right
  refine ⟨_, by
    simp only [vfsPipeWrite, if_neg some, if_neg heard, plain, grows, bind, Except.bind, if_neg even, first, if_pos moves, last]
    rfl, ?_⟩
  refine ⟨⟨sized, holds.sound.initial, holds.sound.small, enough⟩, ?_, rfl, rfl, holds.readers, holds.writers, rfl⟩
  change loadBytes (storeBytes (storeBytes grown.buffer pipe.fileOffset data) _ [0]) 0 (pipe.shared.writeOffset + data.length) = _
  rw [load_bytes_add, pipeContents, mark]
  congr 1
  · refine load_bytes_congr (fun i inside => ?_)
    rw [Nat.zero_add, store_bytes_outside _ (.inl (by omega)), store_bytes_outside _ (.inl inside)]
    exact holds.agree i inside
  refine List.ext_getElem (by simp [load_bytes_length]) (fun i low high => ?_)
  have below : i < data.length := high
  rw [← List.getD_eq_getElem _ 0 low, load_bytes_getD below, store_bytes_outside _ (.inl (by omega)),
    Nat.zero_add, store_bytes_inside below, List.getD_eq_getElem _ 0 high]

theorem pipe_take_next (sound : PipeSound world) (asked : length ≠ 0) :
    ∃ offset data, pipeTake world.pipe length = .ok ({ world.pipe with readOffset := offset }, data) ∧
      world.pipe.readOffset ≤ offset ∧
      offset ≤ world.pipe.shared.writeOffset ∧ world.received ++ data = world.sent.take offset ∧
      (data = [] → world.pipe.shared.writeOffset ≤ offset) := by
  by_cases more : world.pipe.readOffset < world.pipe.shared.writeOffset
  · have nonzero : world.pipe.shared.writeOffset - world.pipe.readOffset ≠ 0 := by omega
    have room := sound.buffer.room
    have sized := sound.buffer.sized
    have traffic := sound.traffic
    have fits : world.pipe.readOffset + min length (world.pipe.shared.writeOffset - world.pipe.readOffset) ≤
      world.pipe.shared.allocated := by omega
    have plain : (world.pipe.readOffset + min length (world.pipe.shared.writeOffset - world.pipe.readOffset)) % 2 ^ 64 =
        world.pipe.readOffset + min length (world.pipe.shared.writeOffset - world.pipe.readOffset) := Nat.mod_eq_of_lt (by omega)
    refine ⟨world.pipe.readOffset + min length (world.pipe.shared.writeOffset - world.pipe.readOffset), _, by
      simp only [pipeTake, if_pos more, if_neg nonzero, if_pos fits, plain]
      rfl, by omega, by omega, ?_, fun empty => ?_⟩
    · rw [sound.received, List.take_add, ← sound.sent, pipeContents, load_bytes_slice (by omega), Nat.zero_add]
    have := congrArg List.length empty
    rw [load_bytes_length, List.length_nil] at this
    omega
  refine ⟨world.pipe.readOffset, [], by simp only [pipeTake, if_neg more, if_true], le_refl _, sound.behind, ?_, fun _ => by omega⟩
  rw [List.append_nil]
  exact sound.received

theorem remembers_later {next : Pipe} {place : Reading} (holds : Remembers pipe place) (offset : pipe.readOffset ≤ next.readOffset)
    (writers : pipe.shared.writers = 0 → next.shared.writers = 0 ∧ next.shared.writeOffset = pipe.shared.writeOffset) :
    Remembers next place := by
  cases place with
  | out => trivial
  | head length => exact holds
  | asleep length => exact holds
  | taken length data count mark =>
    obtain ⟨asked, empty, closed⟩ := holds
    refine ⟨asked, fun none => le_trans (empty none) offset, fun zero => ?_⟩
    obtain ⟨gone, last⟩ := closed zero
    exact ⟨(writers gone).1, last.trans (writers gone).2.symm⟩

theorem move_to_sound {world : PipeWorld} (thread : Nat) {place : Reading} (sound : PipeSound world)
    (holds : Remembers world.pipe place) :
    PipeSound (world.moveTo thread place) := by
  refine ⟨sound.buffer, sound.mark, sound.traffic, sound.sent, sound.behind, sound.received, fun other => ?_⟩
  by_cases same : other = thread
  · simp only [PipeWorld.moveTo, same, update_self]
    exact holds
  · simp only [PipeWorld.moveTo, update_of_ne same]
    exact sound.threads other

-- Ends are used while open, and the traffic stays below 2^63 bytes.
def PipeUse (world : PipeWorld) : PipeStep → Prop
  | .write data _ => world.pipe.shared.writers ≠ 0 ∧ world.sent.length + data.length < 2 ^ 63
  | .read _ _ | .closeReader => world.pipe.shared.readers ≠ 0
  | .closeWriter => world.pipe.shared.writers ≠ 0
  | .readLocked _ | .readCheck _ | .wake _ _ | .setNonblock _ => True

instance pipeUseDecidable (world : PipeWorld) (step : PipeStep) : Decidable (PipeUse world step) := by
  cases step <;> unfold PipeUse <;> infer_instance

-- Accepted whole or not at all, with EPIPE exactly when there is data and the read end is closed.
def WriteLaw (world : PipeWorld) (data : List UInt8) (next : PipeWorld) (reply : Option PipeReply) : Prop :=
  ((reply = some (.wrote (.ok data.length)) ∧ pipeContents next.pipe = pipeContents world.pipe ++ data ∧
    next.sent = world.sent ++ data) ∨
    ((∃ errno, reply = some (.wrote (.error errno))) ∧ next = world)) ∧
  (data ≠ [] → (reply = some (.wrote (.error .epipe)) ↔ world.pipe.shared.readers = 0)) ∧ (data = [] → reply = some (.wrote (.ok 0)))

def TakeLaw (world : PipeWorld) (thread : Nat) (next : PipeWorld) (reply : Option PipeReply) : Prop :=
  reply = none ∧ ∀ length, world.threads thread = .head length →
    ∃ data writers mark, next.threads thread = .taken length data writers mark ∧ next.received = world.received ++ data

-- No byte only when no writer is left and everything written has been read.
def CheckLaw (world : PipeWorld) (thread : Nat) (reply : Option PipeReply) : Prop :=
  (∀ length data writers mark, world.threads thread = .taken length data writers mark → data ≠ [] → reply = some (.read (.ok data))) ∧
  ∀ data, reply = some (.read (.ok data)) → (∃ length writers mark, world.threads thread = .taken length data writers mark) ∧
    (data = [] → world.pipe.shared.writers = 0 ∧ world.received = world.sent)

-- A read of length 0 returns 0 bytes at once, and nothing has changed.
def PipeLaw (world : PipeWorld) (step : PipeStep) (next : PipeWorld) (reply : Option PipeReply) : Prop := match step with
  | .write data _ => WriteLaw world data next reply
  | .readLocked thread => TakeLaw world thread next reply
  | .readCheck thread => CheckLaw world thread reply
  | .read thread length =>
    reply = (if length = 0 ∧ world.threads thread = .out then some (.read (.ok [])) else none) ∧ (length = 0 → next = world)
  | .wake _ _ => ∀ data, reply ≠ some (.read (.ok data))
  | .closeReader | .closeWriter | .setNonblock _ => reply = none

section Step

variable {world : PipeWorld} (sound : PipeSound world)

include sound

theorem write_step_sound (fresh : Option Bytes) (opened : world.pipe.shared.writers ≠ 0)
    (traffic : world.sent.length + data.length < 2 ^ 63) :
    ∃ next reply, pipeWriteStep world data fresh = .ok (next, reply) ∧ PipeSound next ∧ WriteLaw world data next reply := by
  rw [pipe_sent_length sound] at traffic
  by_cases empty : data = []
  · refine ⟨{ world with sent := world.sent ++ data }, some (.wrote (.ok 0)),
      by simp [pipeWriteStep, vfsPipeWrite, empty, bind, Except.bind], ?_,
      .inl ⟨by rw [empty]; rfl, by rw [empty]; exact (List.append_nil _).symm, rfl⟩,
      fun some => absurd empty some, fun _ => rfl⟩
    simpa only [empty, List.append_nil] using sound
  by_cases deaf : world.pipe.shared.readers = 0
  · refine ⟨world, some (.wrote (.error .epipe)), by simp [pipeWriteStep, vfsPipeWrite, empty, deaf, bind, Except.bind], sound,
      .inr ⟨⟨_, rfl⟩, rfl⟩, fun _ => by simp [deaf], fun none => absurd none empty⟩
  rcases pipe_write_appends fresh sound.buffer sound.mark traffic empty deaf with short | ⟨next, wrote, holds⟩
  · exact ⟨world, some (.wrote (.error .enomem)), by simp [pipeWriteStep, short, bind, Except.bind], sound,
      .inr ⟨⟨_, rfl⟩, rfl⟩, fun _ => by simp [deaf], fun none => absurd none empty⟩
  refine ⟨{ world with pipe := next, sent := world.sent ++ data }, some (.wrote (.ok data.length)),
    by simp [pipeWriteStep, wrote, bind, Except.bind], ?_, .inl ⟨rfl, holds.contents, rfl⟩, fun _ => by simp [deaf],
    fun none => absurd none empty⟩
  have behind := sound.behind
  refine ⟨holds.buffer, holds.file, by rw [holds.mark]; exact traffic, by rw [holds.contents, sound.sent],
    by rw [holds.offset, holds.mark]; omega, ?_, fun thread => ?_⟩
  · rw [holds.offset, List.take_append_of_le_length (by rw [pipe_sent_length sound]; exact behind)]
    exact sound.received
  · exact remembers_later (sound.threads thread) (le_of_eq holds.offset.symm) (fun closed => absurd closed opened)

theorem take_step_sound (here : world.threads thread = .head length) :
    ∃ next reply, pipeTakeStep world thread length = .ok (next, reply) ∧ PipeSound next ∧ TakeLaw world thread next reply := by
  have asked : length ≠ 0 := by
    have := sound.threads thread
    rw [here] at this
    exact this
  obtain ⟨offset, data, took, later, inside, received, empty⟩ := pipe_take_next sound asked
  have moved : PipeSound { world with pipe := { world.pipe with readOffset := offset }, received := world.received ++ data } :=
    ⟨sound.buffer, sound.mark, sound.traffic, sound.sent, inside, received,
      fun other => remembers_later (sound.threads other) later (fun closed => ⟨closed, rfl⟩)⟩
  have remembers : Remembers { world.pipe with readOffset := offset }
    (.taken length data world.pipe.shared.writers world.pipe.shared.writeOffset) :=
    ⟨asked, empty, fun closed => ⟨closed, rfl⟩⟩
  refine ⟨_, none, by rw [pipeTakeStep, took]; rfl, move_to_sound thread moved remembers, rfl, fun other same => ?_⟩
  rw [here] at same
  cases same
  exact ⟨data, _, _, by simp only [PipeWorld.moveTo, update_self]; rfl, rfl⟩

theorem check_step_sound {mark : Nat} (here : world.threads thread = .taken length data writers mark) :
    PipeSound (pipeCheckStep world thread length data writers mark).1 ∧
      CheckLaw world thread (pipeCheckStep world thread length data writers mark).2 := by
  have holds := sound.threads thread
  rw [here] at holds
  obtain ⟨asked, _, closed⟩ := holds
  by_cases ends : data ≠ [] ∨ (writers = 0 ∧ mark ≤ world.pipe.readOffset)
  · rw [pipeCheckStep, if_pos ends]
    refine ⟨move_to_sound thread sound trivial, fun _ _ _ _ same _ => ?_, fun other same => ?_⟩
    · rw [here] at same
      cases same
      rfl
    cases same
    refine ⟨⟨length, writers, mark, here⟩, fun empty => ?_⟩
    obtain ⟨gone, reached⟩ := ends.resolve_left (fun some => some empty)
    obtain ⟨zero, last⟩ := closed gone
    refine ⟨zero, ?_⟩
    rw [sound.received, List.take_of_length_le]
    rw [pipe_sent_length sound, ← last]
    exact reached
  have quiet : ∀ reply, (∀ data, reply ≠ some (PipeReply.read (.ok data))) → CheckLaw world thread reply := by
    refine fun reply none => ⟨fun _ _ _ _ same some => ?_, fun data same => absurd same (none data)⟩
    rw [here] at same
    cases same
    exact absurd (.inl some) ends
  rw [pipeCheckStep, if_neg ends]
  cases world.pipe.nonblock with
  | true => exact ⟨move_to_sound thread sound trivial, quiet _ (by simp)⟩
  | false => exact ⟨move_to_sound thread sound asked, quiet _ (by simp)⟩

theorem counts_sound {readers : Nat} (closed : world.pipe.shared.writers = 0 → writers = 0) :
    PipeSound { world with
      pipe := { world.pipe with shared := { world.pipe.shared with readers := readers, writers := writers } } } :=
  ⟨⟨sound.buffer.sized, sound.buffer.initial, sound.buffer.small, sound.buffer.room⟩, sound.mark, sound.traffic, sound.sent,
    sound.behind,
    sound.received, fun thread => remembers_later (sound.threads thread) (le_refl _) (fun none => ⟨closed none, rfl⟩)⟩

variable (world) in
theorem pipe_act_sound {step : PipeStep} (used : PipeUse world step) :
    ∃ next reply, pipeAct world step = .ok (next, reply) ∧ PipeSound next ∧ PipeLaw world step next reply := by
  cases step with
  | write data fresh =>
    rw [pipeAct, if_neg used.1]
    exact write_step_sound sound fresh used.1 used.2
  | read thread length =>
    rw [pipeAct, if_neg used]
    by_cases busy : world.threads thread ≠ .out
    · exact ⟨world, none, by rw [if_pos busy], sound, by rw [if_neg (fun both => busy both.2)], fun _ => rfl⟩
    rw [if_neg busy]
    by_cases zero : length = 0
    · exact ⟨world, _, by rw [if_pos zero], sound, by rw [if_pos ⟨zero, not_not.mp busy⟩], fun _ => rfl⟩
    · exact ⟨_, none, by rw [if_neg zero], @move_to_sound world thread (.head length) sound zero,
        by rw [if_neg (fun both => zero both.1)], fun none => absurd none zero⟩
  | readLocked thread =>
    cases here : world.threads thread with
    | head length =>
      simp only [pipeAct, here]
      exact take_step_sound sound here
    | _ => exact ⟨world, none, by simp only [pipeAct, here], sound, rfl, fun length same => by rw [here] at same; cases same⟩
  | readCheck thread =>
    cases here : world.threads thread with
    | taken length data writers mark =>
      simp only [pipeAct, here]
      exact ⟨_, _, rfl, check_step_sound sound here⟩
    | _ => exact ⟨world, none, by simp only [pipeAct, here], sound, fun _ _ _ _ same => (by rw [here] at same; cases same),
        fun _ same => (by cases same)⟩
  | wake thread interrupted =>
    have holds := sound.threads thread
    cases here : world.threads thread with
    | asleep length =>
      rw [here] at holds
      cases interrupted with
      | true =>
        exact ⟨_, _, by simp only [pipeAct, here, if_true]; rfl, @move_to_sound world thread .out sound trivial,
          fun _ same => (by cases same)⟩
      | false => exact ⟨world.moveTo thread (.head length), none, by simp [pipeAct, here],
          move_to_sound thread sound holds, fun _ same => (by cases same)⟩
    | _ => exact ⟨world, none, by simp only [pipeAct, here], sound, fun _ same => (by cases same)⟩
  | closeReader =>
    exact ⟨{ world with pipe := pipeCloseReader world.pipe }, none, by rw [pipeAct, if_neg used], counts_sound sound id, rfl⟩
  | closeWriter =>
    exact ⟨{ world with pipe := pipeCloseWriter world.pipe }, none, by rw [pipeAct, if_neg used],
      counts_sound sound (fun closed => absurd closed used), rfl⟩
  | setNonblock flag =>
    exact ⟨_, none, rfl, ⟨sound.buffer, sound.mark, sound.traffic, sound.sent, sound.behind, sound.received,
      fun thread => remembers_later (sound.threads thread) (le_refl _) (fun closed => ⟨closed, rfl⟩)⟩, rfl⟩

end Step

theorem pipe_created_sound : PipeSound pipeCreated :=
  ⟨⟨rfl, by decide, by decide, by decide⟩, rfl, by decide, rfl, le_refl _, rfl, fun _ => trivial⟩

theorem pipe_is_fifo (steps : List PipeStep) (used : Permitted pipeStep PipeUse pipeCreated steps) :
    (∃ final, run pipeStep pipeCreated steps = .ok final) ∧
    Always pipeStep (fun world => world.received <+: world.sent ∧ world.sent = pipeContents world.pipe) pipeCreated steps ∧
    EachStep pipeStep (fun world step next => ∃ reply, pipeAct world step = .ok (next, reply) ∧
      PipeLaw world step next reply) pipeCreated steps := by
  refine permitted_steps (fun world step sound used => ?_) pipe_created_sound (fun world sound => ?_) used
  · obtain ⟨next, reply, acts, holds, law⟩ := pipe_act_sound world sound used
    exact ⟨next, by rw [pipeStep, acts]; rfl, holds, reply, acts, law⟩
  · exact ⟨by rw [sound.received]; exact List.take_prefix _ _, sound.sent.symm⟩

def pipeTraffic : List PipeStep :=
  [.read 0 0, .write [] none, .write [1, 2] none, .read 0 3, .write [3, 4] none, .readLocked 0, .readCheck 0, .closeWriter, .read 1 9,
    .readLocked 1, .readCheck 1,
    .read 1 9, .readLocked 1, .readCheck 1]

theorem pipe_traffic_fifo : Permitted pipeStep PipeUse pipeCreated pipeTraffic ∧
    Always pipeStep (fun world => world.received <+: world.sent ∧ world.sent = pipeContents world.pipe) pipeCreated pipeTraffic := by
  have used : Permitted pipeStep PipeUse pipeCreated pipeTraffic := by decide +kernel
  exact ⟨used, (pipe_is_fifo pipeTraffic used).2.1⟩

-- The read end is closed, or the write end open.
theorem pipe_empty_calls_succeed : (∃ world, run pipeStep pipeCreated [.closeReader] = .ok world ∧ world.pipe.shared.readers = 0 ∧
      (pipeAct world (.write [] none)).map Prod.snd = .ok (some (.wrote (.ok 0)))) ∧
    pipeCreated.pipe.shared.writers = 1 ∧ pipeCreated.pipe.nonblock = false ∧
    (pipeAct pipeCreated (.read 0 0)).map Prod.snd = .ok (some (.read (.ok []))) :=
  ⟨⟨_, rfl, rfl, rfl⟩, rfl, rfl, rfl⟩

end Lyr.Fs
