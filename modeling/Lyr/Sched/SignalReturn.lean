import Lyr.Lib.Run
import Lyr.Sched.Signal

set_option autoImplicit false

namespace Lyr.Sched

open Lyr.Lib

variable {memory : UserMemory}

theorem read_ok {address count : Nat} {words : List UInt64} (done : memory.read address count = .ok words) :
    words = loadWords memory.bytes count address := by
  rw [UserMemory.read] at done
  split at done
  · exact (Except.ok.inj done).symm
  · cases done

theorem read_readable (memory : UserMemory) (address count : Nat)
    (readable : ∀ a, address ≤ a → a < address + 8 * count → memory.readable a = true) :
    memory.read address count = .ok (loadWords memory.bytes count address) := by
  rw [UserMemory.read, if_pos]
  rw [List.all_eq_true]
  intro i inside
  exact readable (address + i) (by omega) (by have := List.mem_range.mp inside; omega)

def SignalFrameAt (memory : UserMemory) (sp : Nat) : Prop :=
  signalFrameRangeOk sp = true ∧ loadWords memory.bytes 1 (sp + 8) = [schedSigframeMagic]

instance (memory : UserMemory) (sp : Nat) : Decidable (SignalFrameAt memory sp) :=
  inferInstanceAs (Decidable (_ ∧ _))

theorem matches_ok {sp : Nat} {found : Bool} (done : signalFrameMatches memory sp = .ok found) :
    found = decide (SignalFrameAt memory sp) := by
  rw [signalFrameMatches] at done
  by_cases range : signalFrameRangeOk sp = true
  · rw [if_pos range] at done
    obtain ⟨magic, read, same⟩ := bind_ok.mp done
    rw [read_ok read] at same
    simpa [SignalFrameAt, range] using (Except.ok.inj same).symm
  · rw [if_neg range] at done
    simpa [SignalFrameAt, range] using (Except.ok.inj done).symm

theorem find_ok {candidates : List Nat} {found : Option Nat}
    (done : findSignalFrame memory candidates = .ok found) :
    found = candidates.find? (fun sp => decide (SignalFrameAt memory sp)) := by
  induction candidates with
  | nil => exact (Except.ok.inj done).symm
  | cons sp rest ih =>
    rw [findSignalFrame] at done
    obtain ⟨taken, matched, found⟩ := bind_ok.mp done
    have marked := matches_ok matched
    cases taken with
    | true =>
      rw [List.find?_cons, ← marked]
      exact (Except.ok.inj found).symm
    | false =>
      rw [List.find?_cons, ← marked]
      exact ih found

def savedFrame (memory : UserMemory) (sp : Nat) : InterruptFrame := InterruptFrame.ofWords (loadWords memory.bytes 28 (sp + 32))

def savedMask (memory : UserMemory) (sp : Nat) : UInt64 := (loadWords memory.bytes 1 (sp + 24)).getD 0 0

theorem signal_return_ok {task : Task} {frame next : InterruptFrame} {after : Option Task}
    (returned : schedSignalReturn (some task) memory frame = .ok (next, after)) :
    match (signalCandidates frame.rsp).find? (fun sp => decide (SignalFrameAt memory sp)) with
    | none => next = { frame with rax := minusEinval } ∧ after = some task
    | some sp => next = savedFrame memory sp ∧ after = some { task with signalMask := signalMaskValid (savedMask memory sp) } := by
  rw [schedSignalReturn] at returned
  obtain ⟨found, searched, returned⟩ := bind_ok.mp returned
  rw [← find_ok searched]
  cases found with
  | none =>
    obtain ⟨rfl, rfl⟩ := Prod.mk.inj (Except.ok.inj returned)
    exact ⟨rfl, rfl⟩
  | some sp =>
    obtain ⟨saved, readSaved, returned⟩ := bind_ok.mp returned
    obtain ⟨mask, readMask, returned⟩ := bind_ok.mp returned
    obtain ⟨rfl, rfl⟩ := Prod.mk.inj (Except.ok.inj returned)
    rw [read_ok readSaved, read_ok readMask]
    exact ⟨rfl, rfl⟩

def rflagsIopl : UInt64 := 0x3000

structure InterruptFrame.UserMode (f : InterruptFrame) : Prop where
  code : f.cs = userCs
  stack : f.ss = userDs
  lower : f.rip.toNat < 2 ^ 47
  interrupts : f.rflags &&& rflagsIf ≠ 0
  iopl : f.rflags &&& rflagsIopl = 0

-- The frame in the signal frame that the stack pointer selects, if any, is a user-mode frame.
def SavedUserMode (current : Option Task) (memory : UserMemory) (rsp : UInt64) : Prop :=
  ∀ task sp, current = some task → (signalCandidates rsp).find? (fun sp => decide (SignalFrameAt memory sp)) = some sp →
    (savedFrame memory sp).UserMode

theorem signal_return_user_mode_iff (current after : Option Task) (memory : UserMemory) (frame next : InterruptFrame)
    (user : frame.UserMode) (returned : schedSignalReturn current memory frame = .ok (next, after)) :
    next.UserMode ↔ SavedUserMode current memory frame.rsp := by
  cases current with
  | none =>
    obtain ⟨rfl, _⟩ := Prod.mk.inj (Except.ok.inj returned)
    exact iff_of_true user (fun task sp present => by cases present)
  | some task =>
    have effect := signal_return_ok returned
    cases found : (signalCandidates frame.rsp).find? (fun sp => decide (SignalFrameAt memory sp)) with
    | none =>
      simp only [found] at effect
      obtain ⟨rfl, _⟩ := effect
      refine iff_of_true ⟨user.code, user.stack, user.lower, user.interrupts, user.iopl⟩ ?_
      intro _ sp _ selected
      rw [found] at selected
      cases selected
    | some sp =>
      simp only [found] at effect
      obtain ⟨rfl, _⟩ := effect
      constructor
      · intro mode _ other _ selected
        rw [found] at selected
        cases selected
        exact mode
      · intro saved
        exact saved task sp rfl found

def plainFrame (rip cs ss rsp : UInt64) : InterruptFrame :=
  { es := 0x23, ds := 0x23, cr0 := 0, cr2 := 0, cr3 := 0, cr4 := 0, rax := 0, rbx := 0, rcx := 0, rdx := 0, rbp := 0, rdi := 0,
    rsi := 0, r8 := 0, r9 := 0, r10 := 0, r11 := 0, r12 := 0, r13 := 0, r14 := 0, r15 := 0, vector := 0x80, err := 0, rip,
    cs, rflags := 0x202, rsp, ss }

def plainTask : Task :=
  { signalMask := 0, pendingSignals := 0, sigactions := fun _ => ⟨0x401000, 0x402000, 0⟩, dying := false, kernelOwned := false,
    exitStatus := 0 }

def forgedStack (saved : InterruptFrame) : UserMemory :=
  { bytes := storeWords (fun _ => 0) 0x7000 (UserSignalFrame.words ⟨0, schedSigframeMagic, 1, 0, saved⟩)
    readable := fun a => 0x7000 ≤ a ∧ a < 0x8000
    writable := fun a => 0x7000 ≤ a ∧ a < 0x8000
    present := fun _ inside => inside }

instance (f : InterruptFrame) : Decidable f.UserMode :=
  decidable_of_iff (f.cs = userCs ∧ f.ss = userDs ∧ f.rip.toNat < 2 ^ 47 ∧ f.rflags &&& rflagsIf ≠ 0 ∧ f.rflags &&& rflagsIopl = 0)
    ⟨fun ⟨a, b, c, d, e⟩ => ⟨a, b, c, d, e⟩, fun h => ⟨h.code, h.stack, h.lower, h.interrupts, h.iopl⟩⟩

theorem returned_to_user_mode :
    (plainFrame 0x403000 userCs userDs 0x6000).UserMode ↔
      SavedUserMode (some plainTask) (forgedStack (plainFrame 0x403000 userCs userDs 0x6000)) 0x7008 :=
  signal_return_user_mode_iff (some plainTask) (some { plainTask with signalMask := 0 })
    (forgedStack (plainFrame 0x403000 userCs userDs 0x6000)) (plainFrame 0x402007 userCs userDs 0x7008)
    (plainFrame 0x403000 userCs userDs 0x6000) (by decide +kernel) rfl

theorem forged_frame_returns_to_ring_zero :
    (plainFrame 0x402007 userCs userDs 0x7008).UserMode ∧
      ∃ next after, schedSignalReturn (some plainTask) (forgedStack (plainFrame 0x403000 0x08 0x10 0x6000))
        (plainFrame 0x402007 userCs userDs 0x7008) = .ok (next, after) ∧ ¬ next.UserMode := by
  refine ⟨by decide +kernel, plainFrame 0x403000 0x08 0x10 0x6000, some { plainTask with signalMask := 0 }, ?_, by decide +kernel⟩
  rfl

end Lyr.Sched
