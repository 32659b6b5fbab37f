import Lyr.Lib.Chain
import Lyr.Lib.Run

set_option autoImplicit false

namespace Lyr.Sched

open Lyr.Lib Function

inductive TcbState where
  | ready | running | blocked | zombie
  deriving DecidableEq, Repr

-- Threads are numbered from 1; 0 is the null pointer.
structure Tcb where
  state : TcbState
  cpu : Option Nat
  isIdle : Bool
  process : Nat
  runqNext : Nat
  deriving DecidableEq, Repr

def Tcb.enter (thread : Tcb) (state : TcbState) : Tcb := { thread with state }
def Tcb.link (thread : Tcb) (next : Nat) : Tcb := { thread with runqNext := next }
def Tcb.place (thread : Tcb) (c : Nat) : Tcb := { thread with runqNext := 0, cpu := some c }

structure Pcb where
  dying : Bool
  threads : List Nat
  threadCount : Nat
  deriving DecidableEq, Repr

-- What entered the run queue, left it and was switched to, the oldest first, is in pushed, popped and dispatched.
structure Cpu where
  runqHead : Nat
  runqTail : Nat
  currentThread : Nat
  idleThread : Nat
  reap : List Nat
  schedLoad : Nat
  pushed : List Nat
  popped : List Nat
  dispatched : List Nat
  deriving DecidableEq, Repr

structure Machine where
  threads : Nat → Option Tcb
  processes : Nat → Pcb
  cpus : Nat → Cpu
  cpuCount : Nat
  nextThread : Nat

inductive SchedFault where
  | freedThread (thread : Nat)
  | idleExit
  | endlessQueue
  deriving DecidableEq, Repr

def Machine.thread (s : Machine) (id : Nat) : Except SchedFault Tcb := match s.threads id with
  | none => .error (.freedThread id)
  | some thread => .ok thread

variable (s : Machine)

def Machine.setThread (id : Nat) (thread : Tcb) : Machine := { s with threads := update s.threads id (some thread) }
def Machine.setCpu (c : Nat) (cpu : Cpu) : Machine := { s with cpus := update s.cpus c cpu }
def Machine.setProcess (pid : Nat) (process : Pcb) : Machine := { s with processes := update s.processes pid process }

def runqLink (c id : Nat) : Except SchedFault Machine :=
  let cpu := s.cpus c
  if cpu.runqTail = 0 then .ok (s.setCpu c { cpu with runqHead := id, runqTail := id, pushed := cpu.pushed ++ [id] })
  else do
    let last ← s.thread cpu.runqTail
    .ok ((s.setThread cpu.runqTail (last.link id)).setCpu c { cpu with runqTail := id, pushed := cpu.pushed ++ [id] })

def runqPush (c id : Nat) : Except SchedFault Machine := do
  let thread ← s.thread id
  runqLink (s.setThread id (thread.place c)) c id

def runqPop (c : Nat) : Except SchedFault (Machine × Nat) :=
  let cpu := s.cpus c
  if cpu.runqHead = 0 then .ok (s, 0)
  else do
    let thread ← s.thread cpu.runqHead
    .ok ((s.setThread cpu.runqHead (thread.link 0)).setCpu c
      { cpu with runqHead := thread.runqNext, runqTail := if thread.runqNext = 0 then 0 else cpu.runqTail
                 popped := cpu.popped ++ [cpu.runqHead] }, cpu.runqHead)

-- The last thread takes the process with it.
def processRemoveThread (pid id : Nat) : Machine :=
  let process := s.processes pid
  if id ∈ process.threads then
    let left := process.threadCount - 1
    s.setProcess pid { dying := process.dying || (left == 0 && pid != 0), threads := process.threads.erase id, threadCount := left }
  else s

def threadFinish (c id : Nat) : Except SchedFault Machine := do
  let thread ← s.thread id
  if thread.state = .zombie then .ok s
  else if thread.isIdle then .error .idleExit
  else
    let s := processRemoveThread (s.setThread id (thread.enter .zombie)) thread.process id
    let cpu := s.cpus c
    .ok (s.setCpu c { cpu with schedLoad := cpu.schedLoad - 1, reap := id :: cpu.reap })

-- The current thread of a dying process ends, a running one goes to the end.
def finishDying (c : Nat) : Except SchedFault Machine := do
  let prev := (s.cpus c).currentThread
  let thread ← s.thread prev
  if thread.isIdle = false ∧ thread.state = .running ∧ (s.processes thread.process).dying = true then threadFinish s c prev else .ok s

def enqueueCurrent (c : Nat) (enqueue : Bool) : Except SchedFault Machine := do
  let prev := (s.cpus c).currentThread
  let thread ← s.thread prev
  if enqueue = true ∧ thread.isIdle = false ∧ thread.state = .running then runqPush (s.setThread prev (thread.enter .ready)) c prev
  else .ok s

-- The queue never holds more threads than there are numbers.
def popReady (c : Nat) : Nat → Machine → Except SchedFault (Machine × Nat)
  | 0, s => if (s.cpus c).runqHead = 0 then .ok (s, 0) else .error .endlessQueue
  | turns + 1, s => do
    let popped ← runqPop s c
    if popped.2 = 0 then .ok (popped.1, 0)
    else
      let thread ← popped.1.thread popped.2
      if thread.state ≠ .ready then popReady c turns popped.1
      else if (popped.1.processes thread.process).dying then do
        let s ← threadFinish popped.1 c popped.2
        popReady c turns s
      else .ok popped

def switchToThread (c next : Nat) : Except SchedFault Machine := do
  let thread ← s.thread next
  let cpu := s.cpus c
  .ok ((s.setThread next (thread.enter .running)).setCpu c
    { cpu with currentThread := next, dispatched := if thread.isIdle then cpu.dispatched else cpu.dispatched ++ [next] })

def takeNext (c prev next : Nat) : Except SchedFault Machine := do
  let thread ← s.thread next
  if next = prev ∧ thread.state = .running then .ok s else switchToThread s c next

-- Every CPU has an idle thread, so the branch without one is not reached.
def scheduleLocked (c : Nat) (enqueue : Bool) : Except SchedFault Machine := do
  let prev := (s.cpus c).currentThread
  let s ← finishDying s c
  let s ← enqueueCurrent s c enqueue
  let popped ← popReady c s.nextThread s
  takeNext popped.1 c prev (if popped.2 = 0 then (popped.1.cpus c).idleThread else popped.2)

-- All of the list except the current one.
def schedReapCurrentCpu (c : Nat) : Machine :=
  let cpu := s.cpus c
  let gone := cpu.reap.filter (· ≠ cpu.currentThread)
  { s with threads := fun id => if id ∈ gone then none else s.threads id
           cpus := update s.cpus c { cpu with reap := cpu.reap.filter (· = cpu.currentThread) } }

-- A dying process takes no more threads.
def threadAlloc (pid : Nat) : Option Machine :=
  let process := s.processes pid
  if process.dying then none
  else
    let s := { s with threads := update s.threads s.nextThread (some ⟨.ready, none, false, pid, 0⟩), nextThread := s.nextThread + 1 }
    some (s.setProcess pid { process with threads := (s.nextThread - 1) :: process.threads, threadCount := process.threadCount + 1 })

def schedCreateThreadOnCpu (pid c : Nat) : Except SchedFault Machine := match threadAlloc s pid with
  | none => .ok s
  | some made => do
    let s ← runqPush made c s.nextThread
    let cpu := s.cpus c
    .ok (s.setCpu c { cpu with schedLoad := cpu.schedLoad + 1 })

-- exit is sched_syscall_exit or a fatal signal; threadExit leaves the zombie current until the next tick. A tick without the lock
-- only reaps.
inductive SchedEvent where
  | create (process cpu : Nat)
  | tick (cpu : Nat) (locked : Bool)
  | exit (cpu : Nat)
  | threadExit (cpu : Nat)
  | kill (process : Nat)
  | reap (cpu : Nat)
  deriving DecidableEq, Repr

-- The idle loop does not exit.
def currentExits (c : Nat) (leave : Machine → Except SchedFault Machine) : Except SchedFault Machine := do
  let thread ← s.thread (s.cpus c).currentThread
  if thread.isIdle then .ok s
  else do
    let s ← threadFinish s c (s.cpus c).currentThread
    leave s

def schedStep : SchedEvent → Except SchedFault Machine
  | .create pid c => if c < s.cpuCount then schedCreateThreadOnCpu s pid c else .ok s
  | .tick c locked =>
    if c < s.cpuCount then
      if locked then scheduleLocked (schedReapCurrentCpu s c) c true else .ok (schedReapCurrentCpu s c)
    else .ok s
  | .exit c => if c < s.cpuCount then currentExits s c (fun s => scheduleLocked s c false) else .ok s
  | .threadExit c => if c < s.cpuCount then currentExits s c .ok else .ok s
  | .kill pid => .ok (s.setProcess pid { s.processes pid with dying := true })
  | .reap c => if c < s.cpuCount then .ok (schedReapCurrentCpu s c) else .ok s

-- Thread 1 is the bootstrap thread on CPU 0, thread c + 2 the idle thread of CPU c.
def schedInit (cpuCount : Nat) : Machine :=
  { threads := fun id =>
      if id = 1 then some ⟨.running, some 0, false, 1, 0⟩
      else if 2 ≤ id ∧ id < cpuCount + 2 then some ⟨.ready, some (id - 2), true, 0, 0⟩
      else none
    processes := fun pid =>
      if pid = 0 then ⟨false, (List.range cpuCount).map (· + 2), cpuCount⟩
      else if pid = 1 then ⟨false, [1], 1⟩
      else ⟨false, [], 0⟩
    cpus := fun c => { runqHead := 0, runqTail := 0, currentThread := if c = 0 then 1 else c + 2, idleThread := c + 2, reap := []
                       schedLoad := if c = 0 then 1 else 0, pushed := [], popped := [], dispatched := [] }
    cpuCount, nextThread := cpuCount + 2 }

end Lyr.Sched
