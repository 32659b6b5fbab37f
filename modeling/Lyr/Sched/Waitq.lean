import Lyr.Lib.EventCount
import Lyr.Sched.SignalSend

set_option autoImplicit false

namespace Lyr.Sched

open Lyr.Lib Lyr.Lib.EventCount Function

-- A 32-bit counter that starts at 1. A wait looks at it on entry and after every interrupt.
def waitqModulus : Nat := 2 ^ 32
def waitqStart : Nat := 1

section

variable {σ : Type}

def schedWaitqPrepare : Instr σ := .snapshot
def schedWaitqWait : Instr σ := .await
def schedWaitqWakeAll : Plain σ := .advance
def acquire : Plain σ := .lock
def release : Plain σ := .unlock

end

-- With the offsets of the files open on either end.
structure PipeShared where
  writeOffset : Nat
  readers : Nat
  writers : Nat
  readAt : Nat → Nat
  writeAt : Nat → Nat

def PipeShared.readable (pipe : PipeShared) (file : Nat) : Bool := pipe.readAt file < pipe.writeOffset || pipe.writers = 0

def PipeShared.consume (file length : Nat) (pipe : PipeShared) : PipeShared :=
  { pipe with readAt := update pipe.readAt file (pipe.readAt file + min length (pipe.writeOffset - pipe.readAt file)) }

def PipeShared.append (file length : Nat) (pipe : PipeShared) : PipeShared := { pipe with
    writeAt := update pipe.writeAt file (pipe.writeAt file + length)
    writeOffset := max pipe.writeOffset (pipe.writeAt file + length) }

def PipeShared.ref (reader : Bool) (pipe : PipeShared) : PipeShared :=
  if reader then { pipe with readers := pipe.readers + 1 } else { pipe with writers := pipe.writers + 1 }

def PipeShared.drop (reader : Bool) (pipe : PipeShared) : PipeShared :=
  if reader then { pipe with readers := pipe.readers - 1 } else { pipe with writers := pipe.writers - 1 }

def PipeShared.seek (reader : Bool) (file offset : Nat) (pipe : PipeShared) : PipeShared :=
  if reader then { pipe with readAt := update pipe.readAt file offset }
  else { pipe with writeAt := update pipe.writeAt file offset }

inductive PipeCall where
  | read (file length : Nat) (nonblock : Bool)
  | write (file length : Nat) (memory : Bool)
  | ref (reader : Bool)
  | close (reader : Bool)
  | seek (reader : Bool) (file offset : Nat)

-- The next turn of vfs_pipe_read is the call made again.
def vfsPipeRead (file length : Nat) (nonblock : Bool) : List (Instr PipeShared) := [schedWaitqPrepare, .plain acquire,
    .test (fun pipe => pipe.readable file) [.act (PipeShared.consume file length), release], .plain release] ++
  (if nonblock then [] else [schedWaitqWait])

def vfsPipeWrite (file length : Nat) (memory : Bool) : List (Instr PipeShared) :=
  [.plain acquire, .branch (fun pipe => pipe.readers = 0) [release]] ++
  tail (if memory then [.act (PipeShared.append file length), release, schedWaitqWakeAll] else [release])

def pipeProgram : PipeCall → List (Instr PipeShared)
  | .read file length nonblock => if length = 0 then [] else vfsPipeRead file length nonblock
  | .write file length memory => if length = 0 then [] else vfsPipeWrite file length memory
  | .ref reader => tail [acquire, .act (PipeShared.ref reader), release]
  | .close reader => tail [acquire, .act (PipeShared.drop reader), release, schedWaitqWakeAll]
  | .seek reader file offset => tail [acquire, .act (PipeShared.seek reader file offset), release]

-- One futex bucket; user code stores without the lock.
abbrev FutexWords := Nat → Int

inductive FutexCall where
  | wait (addr : Nat) (expected : Int) (mapped : Bool)
  | wake
  | store (addr : Nat) (value : Int)

def futexProgram : FutexCall → List (Instr FutexWords)
  | .wait addr expected mapped =>
    if mapped then
      [.plain acquire, .test (fun words => words addr ≠ expected) [release], schedWaitqPrepare, .plain release, schedWaitqWait]
    else tail [acquire, release]
  | .wake => tail [acquire, schedWaitqWakeAll, release]
  | .store addr value => tail [.act (fun words => update words addr value)]

def waitReady (parent : Nat) (pid : Int) (options : Nat) (t : ProcessTable) : Bool := match t.find parent with
  | none => true
  | some process => match schedProcessWait t process pid options with
      | .ok (_, .again) => false
      | _ => true

def waitCollect (parent : Nat) (pid : Int) (options : Nat) (t : ProcessTable) : ProcessTable := match t.find parent with
  | none => t
  | some process => match schedProcessWait t process pid options with
      | .ok (after, _) => after
      | .error _ => t

def leavesZombie (parent child : Nat) (t : ProcessTable) : Bool :=
  (t.find child).any (fun process => process.threadCount = 1 && process.pid ≠ 0 && process.ppid = parent && 0 < process.ppid)

def removeThread (child : Nat) (status : Int) (t : ProcessTable) : ProcessTable := match t.find child with
  | none => t
  | some process => t.modify child (fun _ => (processRemoveThreadOf process status).1)

def finishChild (child : Nat) (status : Int) (t : ProcessTable) : ProcessTable := match t.find child with
  | none => t
  | some process => threadFinishProcess t process status

def signalTable (sender : Process) (pid signal : Int) (t : ProcessTable) : ProcessTable :=
  { t with list := (schedProcessSignal t.list sender pid signal).1 }

inductive WaitpidCall where
  | waitpid (pid : Int) (options : Nat)
  | exit (child : Nat) (status : Int)
  | signal (sender : Process) (pid signal : Int) (notifies : Bool)
  | other (change : ProcessTable → ProcessTable)

-- A signal that stops or continues a child wakes its parent under sched_lock; other changes of the list wake nobody.
def waitpidProgram (parent : Nat) : WaitpidCall → List (Instr ProcessTable)
  | .waitpid pid options =>
    [schedWaitqPrepare, .plain acquire,
      .test (waitReady parent pid options) [.act (waitCollect parent pid options), release], .plain release, schedWaitqWait]
  | .exit child status =>
    .branch (fun t => !leavesZombie parent child t) [.act (finishChild child status)] ::
    tail [.act (removeThread child status), acquire, .act (fun t => processReparentChildren t child (if child > 1 then 1 else 0)),
      release, acquire,
      .act (fun t => processNotifyParentSignal t parent schedSigchld), schedWaitqWakeAll, release]
  | .signal sender pid signal notifies =>
    tail ([acquire, .act (signalTable sender pid signal)] ++ (if notifies then [schedWaitqWakeAll, release] else [release]))
  | .other change => tail [.act change]

theorem pipe_disciplined (call : PipeCall) : Disciplined false false false false (pipeProgram call) := by
  cases call with
  | read file length nonblock =>
    dsimp only [pipeProgram]
    split
    · exact rfl
    · cases nonblock <;> simp [vfsPipeRead, schedWaitqPrepare, schedWaitqWait, acquire, release, Disciplined, PlainDisciplined]
  | write file length memory =>
    dsimp only [pipeProgram]
    split
    · exact rfl
    · cases memory <;> simp [vfsPipeWrite, tail, schedWaitqWakeAll, acquire, release, Disciplined, PlainDisciplined]
  | ref reader => simp [pipeProgram, tail, acquire, release, Disciplined]
  | close reader => simp [pipeProgram, tail, schedWaitqWakeAll, acquire, release, Disciplined]
  | seek reader file offset => simp [pipeProgram, tail, acquire, release, Disciplined]

theorem futex_disciplined (call : FutexCall) : Disciplined true false false false (futexProgram call) := by
  cases call with
  | wait addr expected mapped =>
    cases mapped <;>
      simp [futexProgram, tail, schedWaitqPrepare, schedWaitqWait, acquire, release, Disciplined, PlainDisciplined]
  | wake => simp [futexProgram, tail, schedWaitqWakeAll, acquire, release, Disciplined]
  | store addr value => simp [futexProgram, tail, Disciplined]

theorem waitpid_disciplined (parent : Nat) (call : WaitpidCall) :
    Disciplined false false false false (waitpidProgram parent call) := by
  cases call with
  | waitpid pid options => simp [waitpidProgram, schedWaitqPrepare, schedWaitqWait, acquire, release, Disciplined, PlainDisciplined]
  | exit child status => simp [waitpidProgram, tail, schedWaitqWakeAll, acquire, release, Disciplined, PlainDisciplined]
  | signal sender pid signal notifies =>
    cases notifies <;> simp [waitpidProgram, tail, schedWaitqWakeAll, acquire, release, Disciplined]
  | other change => simp [waitpidProgram, tail, Disciplined]

def waitqRun {σ C : Type} (program : C → List (Instr σ)) (data : σ) (schedule : List (Move C)) : System σ :=
  moves waitqModulus program (initial waitqStart data) schedule

-- In sched_waitq_wait, a wake_all after its condition became true, fewer than 2^32 wake-ups since its sched_waitq_prepare.
structure Overdue {σ : Type} (s : System σ) (t : Nat) : Prop where
  waits : ∃ rest, (s.party t).code = schedWaitqWait :: rest
  owed : (s.party t).owed = true
  fewer : s.ticks - (s.party t).since < 2 ^ 32

def Returns {σ C : Type} (program : C → List (Instr σ)) (s : System σ) (t : Nat) : Prop :=
  ((move waitqModulus program s (.exec t)).party t).code = ((s.party t).code).tail

theorem overdue_returns {σ C : Type} {lockedWakes : Bool} {program : C → List (Instr σ)}
    (disciplined : ∀ call, Disciplined lockedWakes false false false (program call)) (data : σ) (schedule : List (Move C)) (t : Nat)
    (overdue : Overdue (waitqRun program data schedule) t) : Returns program (waitqRun program data schedule) t := by
  obtain ⟨rest, waits⟩ := overdue.waits
  unfold Returns
  rw [waits]
  exact owed_wait_ends disciplined (by decide) waits overdue.owed overdue.fewer

theorem no_wakeup_lost :
    (∀ (pipe : PipeShared) (schedule : List (Move PipeCall)) (t : Nat), Overdue (waitqRun pipeProgram pipe schedule) t →
      Returns pipeProgram (waitqRun pipeProgram pipe schedule) t) ∧
    (∀ (words : FutexWords) (schedule : List (Move FutexCall)) (t : Nat), Overdue (waitqRun futexProgram words schedule) t →
      Returns futexProgram (waitqRun futexProgram words schedule) t) ∧
    (∀ (parent : Nat) (table : ProcessTable) (schedule : List (Move WaitpidCall)) (t : Nat),
      Overdue (waitqRun (waitpidProgram parent) table schedule) t →
      Returns (waitpidProgram parent) (waitqRun (waitpidProgram parent) table schedule) t) :=
  ⟨overdue_returns pipe_disciplined, overdue_returns futex_disciplined, fun parent => overdue_returns (waitpid_disciplined parent)⟩

def emptyPipe : PipeShared := { writeOffset := 0, readers := 1, writers := 1, readAt := fun _ => 0, writeAt := fun _ => 0 }

-- The lock is free at every turn.
def readThenWrite : List (Move PipeCall) :=
  [.start 0 (.read 0 8 false), .exec 0, .exec 0, .exec 0, .exec 0, .exec 0, .start 1 (.write 1 3 true), .exec 1, .exec 1, .exec 1,
    .exec 1, .exec 1]

def waitThenWake : List (Move FutexCall) :=
  [.start 0 (.wait 64 0 true), .exec 0, .exec 0, .start 1 (.store 64 1), .exec 1, .start 1 .wake, .exec 1, .exec 0, .exec 0,
    .exec 1, .exec 1]

-- Process 2 waits for its child 3, which exits.
def parentAndChild : ProcessTable :=
  { list := [{ processAllocId 3 true true with ppid := 2, threadCount := 1 },
    { processAllocId 2 true true with threadCount := 1 }], pool := ⟨4, []⟩ }

def waitThenExit : List (Move WaitpidCall) :=
  [.start 0 (.waitpid (-1) 0), .exec 0, .exec 0, .exec 0, .exec 0, .start 1 (.exit 3 7)] ++ List.replicate 9 (.exec 1)

theorem waiters_return :
    (Overdue (waitqRun pipeProgram emptyPipe readThenWrite) 0 ∧ Returns pipeProgram
      (waitqRun pipeProgram emptyPipe readThenWrite) 0) ∧
    (Overdue (waitqRun futexProgram (fun _ => 0) waitThenWake) 0 ∧ Returns futexProgram
      (waitqRun futexProgram (fun _ => 0) waitThenWake) 0) ∧
    (Overdue (waitqRun (waitpidProgram 2) parentAndChild waitThenExit) 0 ∧
      Returns (waitpidProgram 2) (waitqRun (waitpidProgram 2) parentAndChild waitThenExit) 0) := by
  have reader : Overdue (waitqRun pipeProgram emptyPipe readThenWrite) 0 := ⟨⟨[], rfl⟩, rfl, by decide +kernel⟩
  have waiter : Overdue (waitqRun futexProgram (fun _ => 0) waitThenWake) 0 := ⟨⟨[], rfl⟩, rfl, by decide +kernel⟩
  have parent : Overdue (waitqRun (waitpidProgram 2) parentAndChild waitThenExit) 0 := ⟨⟨[], rfl⟩, rfl, by decide +kernel⟩
  exact ⟨⟨reader, no_wakeup_lost.1 emptyPipe readThenWrite 0 reader⟩, ⟨waiter, no_wakeup_lost.2.1 _ waitThenWake 0 waiter⟩,
    ⟨parent, no_wakeup_lost.2.2 2 parentAndChild waitThenExit 0 parent⟩⟩

end Lyr.Sched
