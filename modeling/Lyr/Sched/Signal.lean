import Lyr.Lib.Words

set_option autoImplicit false

namespace Lyr.Sched

open Lyr.Lib

structure InterruptFrame where
  es : UInt64
  ds : UInt64
  cr0 : UInt64
  cr2 : UInt64
  cr3 : UInt64
  cr4 : UInt64
  rax : UInt64
  rbx : UInt64
  rcx : UInt64
  rdx : UInt64
  rbp : UInt64
  rdi : UInt64
  rsi : UInt64
  r8 : UInt64
  r9 : UInt64
  r10 : UInt64
  r11 : UInt64
  r12 : UInt64
  r13 : UInt64
  r14 : UInt64
  r15 : UInt64
  vector : UInt64
  err : UInt64
  rip : UInt64
  cs : UInt64
  rflags : UInt64
  rsp : UInt64
  ss : UInt64
deriving DecidableEq, Repr

def InterruptFrame.words (f : InterruptFrame) : List UInt64 :=
  [f.es, f.ds, f.cr0, f.cr2, f.cr3, f.cr4, f.rax, f.rbx, f.rcx, f.rdx, f.rbp, f.rdi, f.rsi, f.r8, f.r9, f.r10, f.r11,
    f.r12, f.r13, f.r14, f.r15, f.vector, f.err, f.rip, f.cs, f.rflags, f.rsp, f.ss]

def InterruptFrame.ofWords (words : List UInt64) : InterruptFrame :=
  let word := fun i => words.getD i 0
  ⟨word 0, word 1, word 2, word 3, word 4, word 5, word 6, word 7, word 8, word 9, word 10, word 11, word 12, word 13,
    word 14, word 15, word 16, word 17, word 18, word 19, word 20, word 21, word 22, word 23, word 24, word 25, word 26,
    word 27⟩

structure UserSignalFrame where
  retaddr : UInt64
  magic : UInt64
  signal : UInt64
  oldMask : UInt64
  saved : InterruptFrame

def UserSignalFrame.words (sf : UserSignalFrame) : List UInt64 := [sf.retaddr, sf.magic, sf.signal, sf.oldMask] ++ sf.saved.words

def sizeofUserSignalFrame : Nat := 256

def schedNsig : Nat := 64
def schedSigkill : Nat := 9
def schedSigchld : Nat := 17
def schedSigcont : Nat := 18
def schedSigstop : Nat := 19
def schedSigDfl : UInt64 := 0
def schedSigIgn : UInt64 := 1
def schedSigframeMagic : UInt64 := 0x5349474652414d45
def userCs : UInt64 := 0x1B
def userDs : UInt64 := 0x23
def rflagsIf : UInt64 := 0x200
def vasUserEnd : Nat := 0x00007FFFFFFFFFFF

-- (uint64_t)(int64_t)-EINVAL
def minusEinval : UInt64 := 0xFFFFFFFFFFFFFFEA

def schedSignalBit (signal : Nat) : UInt64 := 1 <<< UInt64.ofNat (signal - 1)

def schedUnblockableMask : UInt64 := schedSignalBit schedSigkill ||| schedSignalBit schedSigstop

def signalMaskValid (mask : UInt64) : UInt64 :=
  let valid : UInt64 := if schedNsig = 64 then 0xFFFFFFFFFFFFFFFF else 1 <<< UInt64.ofNat schedNsig - 1
  mask &&& valid &&& ~~~schedUnblockableMask

def signalDefaultIgnored (signal : Nat) : Bool := signal = schedSigchld ∨ signal = schedSigcont

structure Sigaction where
  handler : UInt64
  restorer : UInt64
  mask : UInt64
deriving DecidableEq, Repr

-- The current thread with what signals use of its process.
structure Task where
  signalMask : UInt64
  pendingSignals : UInt64
  sigactions : Nat → Sigaction
  dying : Bool
  kernelOwned : Bool
  exitStatus : Nat

-- As ring 0 reaches it, copy-on-write faults resolved.
structure UserMemory where
  bytes : Bytes
  readable : Nat → Bool
  writable : Nat → Bool
  present : ∀ a, writable a = true → readable a = true

-- Ring 0 does not survive an unmapped user page.
inductive Fault where
  | kernelPageFault
deriving DecidableEq, Repr

def UserMemory.read (memory : UserMemory) (address count : Nat) : Except Fault (List UInt64) :=
  if (List.range (8 * count)).all (fun i => memory.readable (address + i)) then .ok (loadWords memory.bytes count address)
  else .error .kernelPageFault

def UserMemory.write (memory : UserMemory) (address : Nat) (words : List UInt64) : Except Fault UserMemory :=
  if (List.range (8 * words.length)).all (fun i => memory.writable (address + i)) then
    .ok { memory with bytes := storeWords memory.bytes address words }
  else .error .kernelPageFault

def processTerminateBySignal (task : Task) (signal : Nat) : Task :=
  if task.kernelOwned then task else { task with exitStatus := 128 + signal, dying := true }

def processPendingForThread (task : Task) : UInt64 := task.pendingSignals &&& ~~~task.signalMask &&& ~~~schedUnblockableMask

def nextSignal (deliverable : UInt64) : Option Nat := (List.range' 1 schedNsig).find? (fun i => deliverable &&& schedSignalBit i != 0)

-- sp -= sizeof(user_signal_frame_t); sp &= ~0xF; sp += 8, on 64 bits.
def signalStack (rsp : UInt64) : Nat := (16 * ((rsp.toNat + 2 ^ 64 - sizeofUserSignalFrame) % 2 ^ 64 / 16) + 8) % 2 ^ 64

-- The frame it was given, that frame diverted to a handler with its signal frame at sp, or another thread.
inductive Delivery where
  | resume (frame : InterruptFrame) (task : Option Task) (memory : UserMemory)
  | handler (sp : Nat) (frame : InterruptFrame) (task : Task) (memory : UserMemory)
  | finished (task : Task)

def enterHandler (task : Task) (memory : UserMemory) (frame : InterruptFrame) (signal : Nat) (action : Sigaction) (oldMask : UInt64) :
    Except Fault Delivery :=
  let sp := signalStack frame.rsp
  if action.restorer = 0 then .ok (.resume frame (some task) memory)
  else if sp ≥ vasUserEnd ∨ sp + sizeofUserSignalFrame > vasUserEnd then .ok (.resume frame (some task) memory)
  else do
    let sf : UserSignalFrame := ⟨action.restorer, schedSigframeMagic, UInt64.ofNat signal, oldMask, frame⟩
    let memory ← memory.write sp sf.words
    .ok (.handler sp
      { frame with
        rip := action.handler, rdi := UInt64.ofNat signal, rsp := UInt64.ofNat sp, rflags := frame.rflags ||| rflagsIf } task memory)

def schedSignalDeliver (current : Option Task) (memory : UserMemory) (frame : InterruptFrame) : Except Fault Delivery :=
  if frame.cs &&& 3 ≠ 3 then .ok (.resume frame current memory)
  else match current with
  | none => .ok (.resume frame none memory)
  | some task =>
    if task.dying then .ok (.finished task)
    else match nextSignal (processPendingForThread task) with
    | none => .ok (.resume frame (some task) memory)
    | some signal =>
      let action := task.sigactions signal
      let task := { task with pendingSignals := task.pendingSignals &&& ~~~schedSignalBit signal }
      if action.handler = schedSigIgn ∨ (action.handler = schedSigDfl ∧ signalDefaultIgnored signal) then
        .ok (.resume frame (some task) memory)
      else if action.handler = schedSigDfl then .ok (.finished (processTerminateBySignal task signal))
      else
        let oldMask := task.signalMask
        let signalMask := (task.signalMask ||| signalMaskValid action.mask ||| schedSignalBit signal) &&& ~~~schedUnblockableMask
        enterHandler { task with signalMask } memory frame signal action oldMask

def signalFrameRangeOk (sp : Nat) : Bool := sp < vasUserEnd ∧ sizeofUserSignalFrame ≤ vasUserEnd - sp

-- The candidate is taken when its magic word matches.
def signalFrameMatches (memory : UserMemory) (sp : Nat) : Except Fault Bool :=
  if signalFrameRangeOk sp then do
    let magic ← memory.read (sp + 8) 1
    .ok (magic = [schedSigframeMagic])
  else .ok false

def findSignalFrame (memory : UserMemory) : List Nat → Except Fault (Option Nat)
  | [] => .ok none
  | sp :: rest => do
    if ← signalFrameMatches memory sp then .ok (some sp) else findSignalFrame memory rest

def signalCandidates (rsp : UInt64) : List Nat := [rsp.toNat, (rsp - 8).toNat]

def schedSignalReturn (current : Option Task) (memory : UserMemory) (frame : InterruptFrame) :
    Except Fault (InterruptFrame × Option Task) :=
  match current with
  | none => .ok (frame, none)
  | some task => do
    match ← findSignalFrame memory (signalCandidates frame.rsp) with
    | none => .ok ({ frame with rax := minusEinval }, some task)
    | some sp =>
      let saved ← memory.read (sp + 32) 28
      let oldMask ← memory.read (sp + 24) 1
      .ok (InterruptFrame.ofWords saved, some { task with signalMask := signalMaskValid (oldMask.getD 0 0) })

end Lyr.Sched
