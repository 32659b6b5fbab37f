import Lyr.Sched.SignalSend

set_option autoImplicit false

namespace Lyr.Sched

open Lyr.Lib Lyr.Fs Function

-- With each thread's signal mask, and whether it goes on in user mode.
structure JobWorld where
  machine : Machine
  jobs : List Process
  masks : Nat → UInt64
  inUser : Nat → Bool

variable (w : JobWorld)

-- The dying flag is kept in both parts.
def JobWorld.withJobs (jobs : List Process) : JobWorld := { w with
    jobs
    machine := { w.machine with
      processes := fun pid =>
        { w.machine.processes pid with
          dying := (w.machine.processes pid).dying || jobs.any (fun job => job.pid = pid && job.dying) } } }

def JobWorld.withMachine (machine : Machine) : JobWorld :=
  { w with machine, jobs := w.jobs.map (fun job => { job with dying := job.dying || (machine.processes job.pid).dying }) }

def JobWorld.current (c : Nat) : Nat := (w.machine.cpus c).currentThread

def JobWorld.job (w : JobWorld) (pid : Nat) : Option Process := w.jobs.find? (fun job => job.pid = pid)

def Process.take (process : Process) (signal : Nat) : Process :=
  { process with pendingSignals := process.pendingSignals &&& ~~~schedSignalBit signal }

def deliverOn (c : Nat) : Except SchedFault JobWorld :=
  if w.inUser (w.current c) = false then .ok w
  else do
    let thread ← w.machine.thread (w.current c)
    match w.job thread.process with
    | none => .ok w
    | some job =>
      if job.dying then do
        let machine ← schedStep w.machine (.exit c)
        .ok (w.withMachine machine)
      else match verdict (job.task (w.masks (w.current c))) with
        | .quiet => .ok w
        | .dropped signal => .ok (w.withJobs (modifyPid w.jobs job.pid (fun job => job.take signal)))
        | .fatal signal => do
          let w := w.withJobs (modifyPid w.jobs job.pid (fun job => (job.take signal).terminate signal))
          let machine ← schedStep w.machine (.exit c)
          .ok (w.withMachine machine)
        | .handled signal =>
          let mask := (w.masks (w.current c) ||| signalMaskValid (job.sigactions signal).mask ||| schedSignalBit signal) &&&
            ~~~schedUnblockableMask
          .ok { w.withJobs (modifyPid w.jobs job.pid (fun job => job.take signal)) with
            masks := update w.masks (w.current c) mask }

inductive JobEvent where
  | spawn (pid : Nat) (opened : Bool)
  | fork (parent pid : Nat) (opened : Bool)
  | thread (pid c : Nat) (user : Bool)
  | collect (pid : Nat)
  | sched (event : SchedEvent)
  | trap (c : Nat)
  | sigaction (pid signal : Nat) (action : Sigaction) (flags : UInt64)
  | procmask (thread : Nat) (mask : UInt64)
  | send (sender : Nat) (pid signal : Int)
  | sendGroup (pgid signal : Int)
  | timer (c : Nat) (locked : Bool)
  | userReturn (c : Nat)

def enlist (job : Process) : JobWorld :=
  if w.jobs.any (fun other => other.pid = job.pid) then w
  else { w with jobs := job :: w.jobs, machine := w.machine.setProcess job.pid ⟨job.dying, [], 0⟩ }

def jobStep : JobEvent → Except SchedFault JobWorld
  | .spawn pid opened => .ok (enlist w (processAllocId pid true opened))
  | .fork parent pid opened => match w.job parent with
      | none => .ok w
      | some job => .ok (enlist w (schedProcessCopyIds (processAllocId pid true opened) job))
  | .thread pid c user => do
    let machine ← schedStep w.machine (.create pid c)
    .ok { w.withMachine machine with inUser := update w.inUser w.machine.nextThread user }
  | .collect pid => .ok { w with jobs := w.jobs.filter (fun job => job.pid ≠ pid) }
  | .sched event => do
    let machine ← schedStep w.machine event
    .ok (w.withMachine machine)
  | .trap c => .ok { w with inUser := update w.inUser (w.current c) false }
  | .sigaction pid signal action flags =>
    .ok { w with jobs := modifyPid w.jobs pid (fun job => schedSignalAction job signal action flags) }
  | .procmask thread mask => .ok { w with masks := update w.masks thread (signalMaskValid mask) }
  | .send sender pid signal => match w.job sender with
      | none => .ok w
      | some job => .ok (w.withJobs (schedProcessSignal w.jobs job pid signal).1)
  | .sendGroup pgid signal => .ok (w.withJobs (schedProcessSignalGroup w.jobs pgid signal).1)
  | .timer c locked => do
    let w ← deliverOn w c
    let machine ← schedStep w.machine (.tick c locked)
    .ok (w.withMachine machine)
  | .userReturn c => deliverOn { w with inUser := update w.inUser (w.current c) true } c

def jobInit (cpuCount : Nat) : JobWorld :=
  { machine := schedInit cpuCount, jobs := (bootTable cpuCount).list, masks := fun _ => 0, inUser := fun _ => false }

end Lyr.Sched
