import Lyr.Sched.SignalReturn

set_option autoImplicit false

namespace Lyr.Sched

open Lyr.Lib

structure Live where
  sp : Nat
  frame : InterruptFrame
  mask : UInt64

structure UserState where
  memory : UserMemory
  task : Task
  frame : InterruptFrame
  live : List Live

inductive Stop where
  | fault (fault : Fault)
  | finished
deriving DecidableEq, Repr

-- All but deliver and sigreturn change memory, registers and signal state at will.
inductive Event where
  | user (memory : UserMemory → UserMemory) (task : Task → Task) (frame : InterruptFrame → InterruptFrame)
  | deliver
  | sigreturn (i : Nat)

variable (s : UserState)

def deliverStep : Except Stop UserState :=
  match schedSignalDeliver (some s.task) s.memory s.frame with
  | .error fault => .error (.fault fault)
  | .ok (.finished _) => .error .finished
  | .ok (.resume frame task memory) => .ok { s with frame, memory, task := task.getD s.task }
  | .ok (.handler sp frame task memory) => .ok ⟨memory, task, frame, ⟨sp, s.frame, s.task.signalMask⟩ :: s.live⟩

def returnStep (i : Nat) : Except Stop UserState :=
  match schedSignalReturn (some s.task) s.memory s.frame with
  | .error fault => .error (.fault fault)
  | .ok (frame, task) => .ok { s with frame, task := task.getD s.task, live := s.live.eraseIdx i }

def Event.step : Event → Except Stop UserState
  | .user memory task frame => .ok { s with memory := memory s.memory, task := task s.task, frame := frame s.frame }
  | .deliver => deliverStep s
  | .sigreturn i => returnStep s i

def Blockable (mask : UInt64) : Prop := mask &&& schedUnblockableMask = 0

def Untouched (before after : UserMemory) (live : Live) : Prop :=
  ∀ i < sizeofUserSignalFrame, after.bytes (live.sp + i) = before.bytes (live.sp + i) ∧ after.readable (live.sp + i) = true

-- Live signal frames stay, and a handler returns by RET to the restorer, which pops one word.
def Event.Disciplined : Event → Prop
  | .user memory task _ => Blockable (task s.task).signalMask ∧ ∀ live ∈ s.live, Untouched s.memory (memory s.memory) live
  | .deliver => True
  | .sigreturn i => match s.live[i]? with
      | none => False
      | some live => s.frame.rsp.toNat = live.sp + 8

instance (s : UserState) (event : Event) : Decidable (event.Disciplined s) :=
  match event with
  | .user .. => inferInstanceAs (Decidable (_ = _ ∧ ∀ live ∈ s.live, ∀ i < sizeofUserSignalFrame, _ ∧ _))
  | .deliver => .isTrue trivial
  | .sigreturn i => match listed : s.live[i]? with
      | none => .isFalse (by simp only [Event.Disciplined, listed, not_false_eq_true])
      | some live => decidable_of_iff (s.frame.rsp.toNat = live.sp + 8) (by simp only [Event.Disciplined, listed])

-- Outside every live signal frame, up to the room of the next below it.
def Event.Outside : Event → Prop
  | .deliver => ∀ live ∈ s.live, s.frame.rsp.toNat < live.sp + 8 ∨ live.sp + 504 ≤ s.frame.rsp.toNat
  | _ => True

instance (s : UserState) (event : Event) : Decidable (event.Outside s) :=
  match event with
  | .deliver => inferInstanceAs (Decidable (∀ live ∈ s.live, _ ∨ _))
  | .user .. | .sigreturn .. => .isTrue trivial

structure Live.Held (memory : UserMemory) (live : Live) : Prop where
  aligned : live.sp % 16 = 8
  below : live.sp + sizeofUserSignalFrame ≤ vasUserEnd
  blockable : Blockable live.mask
  words : ∃ retaddr signal, 1 ≤ signal ∧ signal ≤ schedNsig ∧ loadWords memory.bytes 32 live.sp =
    UserSignalFrame.words ⟨retaddr, schedSigframeMagic, UInt64.ofNat signal, live.mask, live.frame⟩
  readable : ∀ a, live.sp ≤ a → a < live.sp + sizeofUserSignalFrame → memory.readable a = true

variable {mask : UInt64} {signal : Nat} {memory after before : UserMemory} {task : Task} {frame : InterruptFrame}
    {delivery : Delivery}
  {live : Live}

theorem blockable_valid (blockable : Blockable mask) : signalMaskValid mask = mask := by
  have ones : mask &&& 0xFFFFFFFFFFFFFFFF = mask := UInt64.and_neg_one
  have split : mask &&& schedUnblockableMask ||| mask &&& ~~~schedUnblockableMask = mask := by
    apply UInt64.toBitVec_inj.mp
    simp only [UInt64.toBitVec_or, UInt64.toBitVec_and, UInt64.toBitVec_not, ← BitVec.and_or_distrib_left, BitVec.or_not_self,
      BitVec.and_allOnes]
  rw [blockable, UInt64.zero_or] at split
  simp only [signalMaskValid, schedNsig, if_true, ones, split]

theorem masked_blockable : Blockable (mask &&& ~~~schedUnblockableMask) := by
  rw [Blockable, UInt64.and_assoc, UInt64.not_and_self, UInt64.and_zero]

theorem range_ok_iff (sp : Nat) : signalFrameRangeOk sp = true ↔ sp + sizeofUserSignalFrame ≤ vasUserEnd := by
  rw [signalFrameRangeOk, decide_eq_true_eq, sizeofUserSignalFrame, vasUserEnd]
  omega

theorem signal_word_not_magic (bound : signal ≤ schedNsig) : UInt64.ofNat signal ≠ schedSigframeMagic := by
  intro same
  have value := congrArg UInt64.toNat same
  rw [schedNsig] at bound
  rw [UInt64.toNat_ofNat_of_lt' (by rw [show UInt64.size = 2 ^ 64 from rfl]; omega)] at value
  rw [value] at bound
  exact absurd bound (by decide)

theorem next_signal_bounds {deliverable : UInt64} (next : nextSignal deliverable = some signal) :
    1 ≤ signal ∧ signal ≤ schedNsig := by
  have listed := List.mem_of_find?_eq_some next
  rw [List.mem_range'_1] at listed
  omega

theorem write_ok {address : Nat} {words : List UInt64} (done : memory.write address words = .ok after) :
    after = { memory with bytes := storeWords memory.bytes address words } ∧
      ∀ a, address ≤ a → a < address + 8 * words.length → memory.readable a = true := by
  rw [UserMemory.write] at done
  split at done
  · rename_i writable
    refine ⟨(Except.ok.inj done).symm, fun a low high => memory.present a ?_⟩
    have inside := List.all_eq_true.mp writable (a - address) (List.mem_range.mpr (by omega))
    rwa [show address + (a - address) = a by omega] at inside
  · cases done

theorem signal_frame_words_length (sf : UserSignalFrame) : sf.words.length = 32 := rfl

def UserMemory.holding (memory : UserMemory) (sp : Nat) (sf : UserSignalFrame) : UserMemory :=
  { memory with bytes := storeWords memory.bytes sp sf.words }

-- Frame and memory untouched, or a signal frame below the user's end with the frame and the old mask.
inductive Delivered (task : Task) (memory : UserMemory) (frame : InterruptFrame) : Delivery → Prop where
  | resume (after : Task) (blockable : Blockable task.signalMask → Blockable after.signalMask) :
      Delivered task memory frame (.resume frame (some after) memory)
  | finished (after : Task) : Delivered task memory frame (.finished after)
  | handler (next : InterruptFrame) (after : Task) (retaddr : UInt64) (signal : Nat) (low : 1 ≤ signal) (high : signal ≤ schedNsig)
      (blockable : Blockable after.signalMask) (below : signalStack frame.rsp + sizeofUserSignalFrame ≤ vasUserEnd)
      (readable : ∀ a, signalStack frame.rsp ≤ a → a < signalStack frame.rsp + sizeofUserSignalFrame → memory.readable a = true) :
      Delivered task memory frame (.handler (signalStack frame.rsp) next after (memory.holding (signalStack frame.rsp)
        ⟨retaddr, schedSigframeMagic, UInt64.ofNat signal, task.signalMask, frame⟩))

theorem enter_handler_ok {after : Task} {action : Sigaction} (low : 1 ≤ signal) (high : signal ≤ schedNsig)
    (blockable : Blockable after.signalMask)
    (done : enterHandler after memory frame signal action task.signalMask = .ok delivery) : Delivered task memory frame delivery := by
  rw [enterHandler] at done
  split at done
  · cases done
    exact .resume after (fun _ => blockable)
  split at done
  · cases done
    exact .resume after (fun _ => blockable)
  obtain ⟨written, wrote, done⟩ := bind_ok.mp done
  obtain ⟨rfl, readable⟩ := write_ok wrote
  cases done
  exact .handler _ after action.restorer signal low high blockable (by omega) (fun a above under => readable a above under)

theorem signal_deliver_ok (done : schedSignalDeliver (some task) memory frame = .ok delivery) :
    Delivered task memory frame delivery := by
  rw [schedSignalDeliver] at done
  split at done
  · cases done
    exact .resume task id
  simp only at done
  split at done
  · cases done
    exact .finished task
  split at done
  · cases done
    exact .resume task id
  rename_i signal chosen
  obtain ⟨low, high⟩ := next_signal_bounds chosen
  split at done
  · cases done
    exact .resume _ id
  split at done
  · cases done
    exact .finished _
  · exact enter_handler_ok low high masked_blockable done

section

variable (held : live.Held memory)
include held

theorem held_words :
    ∃ signal, 1 ≤ signal ∧ signal ≤ schedNsig ∧ loadWords memory.bytes 1 (live.sp + 8) = [schedSigframeMagic] ∧
      loadWords memory.bytes 1 (live.sp + 16) = [UInt64.ofNat signal] ∧ loadWords memory.bytes 1 (live.sp + 24) = [live.mask] ∧
      loadWords memory.bytes 28 (live.sp + 32) = live.frame.words := by
  obtain ⟨retaddr, signal, low, high, words⟩ := held.words
  obtain ⟨_, words⟩ := List.cons.inj words
  obtain ⟨magic, words⟩ := List.cons.inj words
  obtain ⟨number, words⟩ := List.cons.inj words
  obtain ⟨mask, words⟩ := List.cons.inj words
  exact ⟨signal, low, high, congrArg (fun w => [w]) magic, congrArg (fun w => [w]) number, congrArg (fun w => [w]) mask, words⟩

theorem held_matches :
    signalFrameMatches memory live.sp = .ok true := by
  obtain ⟨signal, low, high, magic, _⟩ := held_words held
  rw [signalFrameMatches, if_pos ((range_ok_iff live.sp).mpr held.below),
    read_readable memory (live.sp + 8) 1 (fun a above under => held.readable a (by omega)
      (by rw [sizeofUserSignalFrame]; omega)), magic]
  rfl

theorem held_skips :
    signalFrameMatches memory (live.sp + 8) = .ok false := by
  obtain ⟨signal, low, high, _, number, _⟩ := held_words held
  rw [signalFrameMatches]
  split
  · rw [read_readable memory (live.sp + 8 + 8) 1
      (fun a above under => held.readable a (by omega) (by rw [sizeofUserSignalFrame]; omega)), number]
    have differs : [UInt64.ofNat signal] ≠ [schedSigframeMagic] := by
      intro same
      exact signal_word_not_magic high (List.cons.inj same).1
    exact congrArg Except.ok (decide_eq_false differs)
  · rfl

theorem held_returns (task : Task)
    (popped : frame.rsp.toNat = live.sp + 8) :
    schedSignalReturn (some task) memory frame = .ok (live.frame, some { task with signalMask := live.mask }) := by
  obtain ⟨signal, low, high, _, _, mask, saved⟩ := held_words held
  have second : (frame.rsp - 8).toNat = live.sp := by
    rw [UInt64.toNat_sub_of_le _ _ (UInt64.le_iff_toNat_le.mpr (by rw [popped]; exact Nat.le_add_left 8 _)), popped]
    rfl
  have found : findSignalFrame memory (signalCandidates frame.rsp) = .ok (some live.sp) := by
    rw [signalCandidates, popped, second, findSignalFrame, held_skips held]
    show findSignalFrame memory [live.sp] = _
    rw [findSignalFrame, held_matches held]
    rfl
  have readSaved := read_readable memory (live.sp + 32) 28
    (fun a above under => held.readable a (by omega) (by rw [sizeofUserSignalFrame]; omega))
  have readMask := read_readable memory (live.sp + 24) 1
    (fun a above under => held.readable a (by omega) (by rw [sizeofUserSignalFrame]; omega))
  rw [schedSignalReturn, found]
  show (memory.read (live.sp + 32) 28 >>= fun saved => memory.read (live.sp + 24) 1 >>= fun oldMask => _) = _
  rw [readSaved, readMask, saved, mask]
  show Except.ok (live.frame, some { task with signalMask := signalMaskValid live.mask }) = _
  rw [blockable_valid held.blockable]

end

structure UserState.Sound (s : UserState) : Prop where
  blockable : Blockable s.task.signalMask
  held : ∀ live ∈ s.live, live.Held s.memory

theorem untouched_at (untouched : Untouched before after live) {a : Nat} (low : live.sp ≤ a)
    (high : a < live.sp + sizeofUserSignalFrame) : after.bytes a = before.bytes a ∧ after.readable a = true := by
  have same := untouched (a - live.sp) (by omega)
  rwa [show live.sp + (a - live.sp) = a by omega] at same

theorem held_untouched (held : live.Held before) (untouched : Untouched before after live) :
    live.Held after := by
  obtain ⟨retaddr, signal, low, high, words⟩ := held.words
  refine ⟨held.aligned, held.below, held.blockable, ⟨retaddr, signal, low, high, ?_⟩,
    fun a above under => (untouched_at untouched above under).2⟩
  rw [← words]
  exact load_words_congr live.sp (fun a above under => (untouched_at untouched above under).1)

theorem signal_stack_apart {rsp : UInt64} {sp : Nat} (aligned : sp % 16 = 8)
    (below : signalStack rsp + sizeofUserSignalFrame ≤ vasUserEnd) (outside : rsp.toNat < sp + 8 ∨ sp + 504 ≤ rsp.toNat) :
    signalStack rsp + sizeofUserSignalFrame ≤ sp ∨ sp + sizeofUserSignalFrame ≤ signalStack rsp := by
  have bound := rsp.toNat_lt
  simp only [signalStack, sizeofUserSignalFrame, vasUserEnd] at below ⊢
  omega

theorem signal_stack_aligned (rsp : UInt64) : signalStack rsp % 16 = 8 := by
  rw [signalStack]
  omega

theorem deliver_sound {s next : UserState} (sound : s.Sound)
    (outside : ∀ live ∈ s.live, s.frame.rsp.toNat < live.sp + 8 ∨ live.sp + 504 ≤ s.frame.rsp.toNat)
    (done : deliverStep s = .ok next) : next.Sound := by
  rw [deliverStep] at done
  cases called : schedSignalDeliver (some s.task) s.memory s.frame with
  | error fault =>
    rw [called] at done
    cases done
  | ok delivery =>
    rw [called] at done
    cases signal_deliver_ok called with
    | finished after => cases done
    | resume after blockable =>
      cases done
      exact ⟨blockable sound.blockable, sound.held⟩
    | handler frame after retaddr signal low high blockable below readable =>
      cases done
      refine ⟨blockable, fun live member => ?_⟩
      rcases List.mem_cons.mp member with rfl | old
      · exact ⟨signal_stack_aligned s.frame.rsp, below, sound.blockable, ⟨retaddr, signal, low, high, load_store_words _ _⟩, readable⟩
      have held := sound.held live old
      refine held_untouched held (fun i inside => ⟨?_, held.readable _ (by omega) (by omega)⟩)
      have apart := signal_stack_apart held.aligned below (outside live old)
      apply store_words_outside
      rw [signal_frame_words_length]
      rw [sizeofUserSignalFrame] at apart inside
      omega

theorem event_sound (event : Event) (next : UserState) (sound : s.Sound)
    (allowed : event.Disciplined s ∧ event.Outside s) (done : event.step s = .ok next) : next.Sound := by
  cases event with
  | user memory task frame =>
    cases done
    exact ⟨allowed.1.1, fun live member => held_untouched (sound.held live member) (allowed.1.2 live member)⟩
  | deliver => exact deliver_sound sound allowed.2 done
  | sigreturn i =>
    have popped := allowed.1
    rw [Event.Disciplined] at popped
    split at popped
    · exact popped.elim
    rename_i live listed
    have held := sound.held live (List.mem_of_getElem? listed)
    rw [Event.step, returnStep, held_returns held s.task popped] at done
    cases done
    exact ⟨held.blockable, fun other member => sound.held other (List.mem_of_mem_eraseIdx member)⟩

def UserState.Restores : Prop :=
  ∀ live ∈ s.live, s.frame.rsp.toNat = live.sp + 8 →
    schedSignalReturn (some s.task) s.memory s.frame = .ok (live.frame, some { s.task with signalMask := live.mask })

theorem signal_round_trip (events : List Event) (started : s.live = []) (blockable : Blockable s.task.signalMask)
    (permitted : Permitted Event.step (fun state event => event.Disciplined state ∧ event.Outside state) s events) :
    Always Event.step UserState.Restores s events := by
  have start : s.Sound := ⟨blockable, fun live member => by rw [started] at member; cases member⟩
  refine permitted_always event_sound start (fun state sound live member popped => ?_) permitted
  exact held_returns (sound.held live member) state.task popped

def nestedStart : UserState :=
  { memory :=
      { bytes := fun _ => 0
        readable := fun a => 0x7000 ≤ a ∧ a < 0x8000
        writable := fun a => 0x7000 ≤ a ∧ a < 0x8000
        present := fun _ inside => inside }
    task := { plainTask with pendingSignals := 0x3 }
    frame := plainFrame 0x400500 userCs userDs 0x7F00
    live := [] }

def handlerRet : Event := .user id id (fun f => { f with rip := 0x402000, rsp := f.rsp + 8 })

theorem nested_signals_round_trip :
    Always Event.step UserState.Restores nestedStart [.deliver, .deliver, handlerRet, .sigreturn 0, handlerRet, .sigreturn 0] :=
  signal_round_trip nestedStart _ rfl rfl (by decide +kernel)

-- Between the first handler's RET and its sigreturn the second frame overwrites the first's magic word.
def restorerInterrupted : List Event := [.deliver, handlerRet, .deliver, handlerRet, .sigreturn 0]

theorem restorer_interrupted_loses_frame :
    Permitted Event.step (fun state event => event.Disciplined state) nestedStart restorerInterrupted ∧
      ∃ s, run Event.step nestedStart restorerInterrupted = .ok s ∧ ¬ s.Restores := by
  refine ⟨by decide +kernel, ?_⟩
  have ends : (run Event.step nestedStart restorerInterrupted).map (fun s => (s.live.map (fun live => (live.sp, live.frame.rax)),
      s.frame.rsp, (schedSignalReturn (some s.task) s.memory s.frame).map (fun back => back.1.rax))) =
      .ok ([(0x7E08, 0)], 0x7E10, .ok minusEinval) := by decide +kernel
  obtain ⟨s, ran, facts⟩ := map_ok.mp ends
  simp only [Prod.mk.injEq] at facts
  obtain ⟨live, rsp, back⟩ := facts
  refine ⟨s, ran, fun restores => ?_⟩
  obtain ⟨outer, rest, listed, here, _⟩ := List.map_eq_cons_iff.mp live
  obtain ⟨sp, rax⟩ := Prod.mk.inj here
  rw [restores outer (by simp [listed]) (by rw [rsp, sp]; rfl)] at back
  have same : outer.frame.rax = minusEinval := Except.ok.inj back
  rw [rax] at same
  exact absurd same (by decide)

end Lyr.Sched
