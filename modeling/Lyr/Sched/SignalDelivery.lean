import Lyr.Sched.SignalSend

set_option autoImplicit false

namespace Lyr.Sched

def Task.Ignores (task : Task) (signal : Nat) : Prop :=
  (task.sigactions signal).handler = schedSigIgn ∨ (task.sigactions signal).handler = schedSigDfl ∧ signalDefaultIgnored signal

instance (task : Task) (signal : Nat) : Decidable (task.Ignores signal) := inferInstanceAs (Decidable (_ ∨ _ ∧ _))

def Task.Pending (task : Task) (signal : Nat) : Prop := processPendingForThread task &&& schedSignalBit signal ≠ 0

instance (task : Task) (signal : Nat) : Decidable (task.Pending signal) := inferInstanceAs (Decidable (_ ≠ _))

-- process_has_interrupting_signal_locked, behind sched_signal_is_pending.
def schedSignalIsPending (task : Task) : Bool :=
  (List.range' 1 schedNsig).any (fun signal => task.Pending signal ∧ ¬ task.Ignores signal)

-- The signal leaves the pending set and blocks what its handler asks for.
def Diverts (task : Task) (frame : InterruptFrame) (result : Except Fault Delivery) : Prop :=
  ∃ signal sp memory, task.Pending signal ∧ result = .ok (.handler sp
    { frame with
      rip := (task.sigactions signal).handler, rdi := UInt64.ofNat signal, rsp := UInt64.ofNat sp,
        rflags := frame.rflags ||| rflagsIf }
    { task.taken signal with
      signalMask := (task.signalMask ||| signalMaskValid (task.sigactions signal).mask ||| schedSignalBit signal) &&&
        ~~~schedUnblockableMask }
    memory)

def Terminates (result : Except Fault Delivery) : Prop := ∃ task, result = .ok (.finished task)

def LeavesAlone (task : Task) (memory : UserMemory) (frame : InterruptFrame) (result : Except Fault Delivery) : Prop :=
  ∃ after : Task, result = .ok (.resume frame (some after) memory) ∧ after.signalMask = task.signalMask ∧
    ∀ signal ∈ List.range' 1 schedNsig, ¬ task.Ignores signal →
      after.pendingSignals &&& schedSignalBit signal = task.pendingSignals &&& schedSignalBit signal

def AllOrNothing (task : Task) (memory : UserMemory) (frame : InterruptFrame) (result : Except Fault Delivery) : Prop :=
  (Diverts task frame result ∨ Terminates result ∨ LeavesAlone task memory frame result) ∧
    (schedSignalIsPending task = true → Diverts task frame result ∨ Terminates result)

-- No ignored signal comes before another, and a handler has a restorer and a writable stack in user space.
def ReadyToDeliver (task : Task) (memory : UserMemory) (frame : InterruptFrame) : Prop :=
  task.dying = true ∨ ∀ signal, nextSignal (processPendingForThread task) = some signal →
    if task.Ignores signal then ∀ other ∈ List.range' 1 schedNsig, task.Pending other → task.Ignores other
    else (task.sigactions signal).handler = schedSigDfl ∨ (task.sigactions signal).restorer ≠ 0 ∧
      signalStack frame.rsp + sizeofUserSignalFrame ≤ vasUserEnd ∧ ∀ i < sizeofUserSignalFrame, memory.writable
        (signalStack frame.rsp + i) = true

variable {task : Task} {memory : UserMemory} {frame : InterruptFrame} {signal other : Nat}

theorem not_interrupted : schedSignalIsPending task = false ↔ ∀ signal ∈ List.range' 1 schedNsig, task.Pending signal →
      task.Ignores signal := by
  simp [schedSignalIsPending]

theorem terminated_all_or_nothing (after : Task) : AllOrNothing task memory frame (.ok (.finished after)) :=
  ⟨.inr (.inl ⟨after, rfl⟩), fun _ => .inr ⟨after, rfl⟩⟩

theorem resumed_all_or_nothing {after : Task} : AllOrNothing task memory frame (.ok (.resume frame (some after) memory)) ↔
    LeavesAlone task memory frame (.ok (.resume frame (some after) memory)) ∧ schedSignalIsPending task = false := by
  have stays : ¬ (Diverts task frame (.ok (.resume frame (some after) memory)) ∨ Terminates
    (.ok (.resume frame (some after) memory))) := by
    rintro (⟨_, _, _, _, same⟩ | ⟨_, same⟩) <;> cases same
  constructor
  · rintro ⟨way, interrupts⟩
    exact ⟨(or_assoc.mpr way).resolve_left stays, by simpa using fun pending => stays (interrupts pending)⟩
  · rintro ⟨alone, quiet⟩
    exact ⟨.inr (.inr alone), fun pending => by simp [quiet] at pending⟩

section

variable (inside : signal ∈ List.range' 1 schedNsig)
include inside

theorem bits_apart (there : other ∈ List.range' 1 schedNsig) (different : signal ≠ other) :
    ~~~schedSignalBit signal &&& schedSignalBit other = schedSignalBit other := by
  have all : ∀ a ∈ List.range' 1 schedNsig, ∀ b ∈ List.range' 1 schedNsig, a ≠ b →
    ~~~schedSignalBit a &&& schedSignalBit b = schedSignalBit b := by
    decide +kernel
  exact all signal inside other there different

theorem dropped_all_or_nothing (ignored : task.Ignores signal) :
    AllOrNothing task memory frame (.ok (.resume frame (some (task.taken signal)) memory)) ↔
      ∀ other ∈ List.range' 1 schedNsig, task.Pending other → task.Ignores other := by
  rw [resumed_all_or_nothing, not_interrupted, and_iff_right]
  refine ⟨task.taken signal, rfl, rfl, fun other there heeded => ?_⟩
  have different : signal ≠ other := fun same => heeded (same ▸ ignored)
  rw [Task.taken, UInt64.and_assoc, bits_apart inside there different]

theorem handler_all_or_nothing (pending : task.Pending signal) (heeded : ¬ task.Ignores signal) :
    AllOrNothing task memory frame (enterHandler { task.taken signal with
      signalMask :=
        (task.signalMask ||| signalMaskValid (task.sigactions signal).mask ||| schedSignalBit signal) &&& ~~~schedUnblockableMask }
      memory frame signal (task.sigactions signal) task.signalMask) ↔ (task.sigactions signal).restorer ≠ 0 ∧
      signalStack frame.rsp + sizeofUserSignalFrame ≤ vasUserEnd ∧ ∀ i < sizeofUserSignalFrame, memory.writable
        (signalStack frame.rsp + i) = true := by
  have lost (after : Task) : ¬ AllOrNothing task memory frame (.ok (.resume frame (some after) memory)) := by
    rw [resumed_all_or_nothing, not_interrupted]
    exact fun ⟨_, quiet⟩ => heeded (quiet signal inside pending)
  unfold enterHandler
  dsimp only
  by_cases none : (task.sigactions signal).restorer = 0
  · rw [if_pos none]
    exact iff_of_false (lost _) (fun ready => ready.1 none)
  rw [if_neg none]
  by_cases outside : signalStack frame.rsp ≥ vasUserEnd ∨ signalStack frame.rsp + sizeofUserSignalFrame > vasUserEnd
  · rw [if_pos outside]
    exact iff_of_false (lost _) (fun ready => by simp only [sizeofUserSignalFrame] at *; omega)
  rw [if_neg outside, UserMemory.write]
  split
  next all =>
    have writable : ∀ i < sizeofUserSignalFrame, memory.writable (signalStack frame.rsp + i) = true :=
      fun i inside => List.all_eq_true.mp all i (List.mem_range.mpr inside)
    exact iff_of_true ⟨.inl ⟨signal, _, _, pending, rfl⟩, fun _ => .inl ⟨signal, _, _, pending, rfl⟩⟩ ⟨none, by omega, writable⟩
  next blocked =>
    refine iff_of_false ?_ (fun ready => blocked (List.all_eq_true.mpr (fun i inside => ready.2.2 i (List.mem_range.mp inside))))
    rintro ⟨⟨_, _, _, _, same⟩ | ⟨_, same⟩ | ⟨_, same, _⟩, _⟩ <;> cases same

end

theorem signal_delivery_iff (user : frame.cs &&& 3 = 3) :
    AllOrNothing task memory frame (schedSignalDeliver (some task) memory frame) ↔ ReadyToDeliver task memory frame := by
  unfold ReadyToDeliver
  by_cases dying : task.dying = true
  · rw [schedSignalDeliver, if_neg (not_not.mpr user)]
    rw [if_pos dying]
    exact iff_of_true (terminated_all_or_nothing task) (.inl dying)
  rw [deliver_by_verdict task memory frame user (by simpa using dying), or_iff_right dying, verdict]
  cases found : nextSignal (processPendingForThread task) with
  | none =>
    refine iff_of_true (resumed_all_or_nothing.mpr ⟨⟨task, rfl, rfl, fun _ _ _ => rfl⟩, ?_⟩) nofun
    rw [not_interrupted]
    intro signal inside pending
    have none := List.find?_eq_none.mp found signal inside
    exact absurd pending (by simpa [Task.Pending] using none)
  | some signal =>
    have inside := List.mem_of_find?_eq_some found
    have pending : task.Pending signal := by simpa [Task.Pending] using List.find?_some found
    simp only [Option.some.injEq, forall_eq']
    by_cases ignored : task.Ignores signal
    · rw [if_pos ignored, if_pos (show (task.sigactions signal).handler = schedSigIgn ∨ _ from ignored)]
      exact dropped_all_or_nothing inside ignored
    rw [if_neg ignored, if_neg (show ¬ ((task.sigactions signal).handler = schedSigIgn ∨ _) from ignored)]
    by_cases byDefault : (task.sigactions signal).handler = schedSigDfl
    · rw [if_pos byDefault]
      exact iff_of_true (terminated_all_or_nothing _) (.inl byDefault)
    · rw [if_neg byDefault, or_iff_right byDefault]
      exact handler_all_or_nothing inside pending ignored

def openMemory : UserMemory := ⟨fun _ => 0, fun _ => true, fun _ => true, fun _ _ => rfl⟩

def userFrame : InterruptFrame := { InterruptFrame.ofWords [] with cs := userCs, rsp := 0x8000 }

theorem handler_entered : AllOrNothing ⟨0, schedSignalBit 15, fun _ => ⟨0x1000, 0x2000, 0⟩, false, false, 0⟩ openMemory userFrame
    (schedSignalDeliver (some ⟨0, schedSignalBit 15, fun _ => ⟨0x1000, 0x2000, 0⟩, false, false, 0⟩) openMemory userFrame) := by
  refine (signal_delivery_iff rfl).mpr (.inr (fun signal found => ?_))
  cases (show some 15 = some signal from found)
  exact .inr ⟨by decide, by decide, fun _ _ => rfl⟩

theorem handler_without_restorer :
    ¬ AllOrNothing ⟨0, schedSignalBit 15, fun _ => ⟨0x1000, 0, 0⟩, false, false, 0⟩ openMemory userFrame
    (schedSignalDeliver (some ⟨0, schedSignalBit 15, fun _ => ⟨0x1000, 0, 0⟩, false, false, 0⟩) openMemory userFrame) := by
  intro whole
  obtain ⟨⟨_, _, _, _, same⟩ | ⟨_, same⟩ | ⟨_, same, mask, _⟩, _⟩ := whole
  · cases same
  · cases same
  cases same
  revert mask
  decide

end Lyr.Sched
