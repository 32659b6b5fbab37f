import Lyr.Sched.ProcessTable
import Lyr.Sched.RunQueue

set_option autoImplicit false

namespace Lyr.Sched

open Lyr.Lib Lyr.Fs Function

def schedSigtstp : Nat := 20
def schedSigttin : Nat := 21
def schedSigttou : Nat := 22

def stopSignals : List Nat := [schedSigstop, schedSigtstp, schedSigttin, schedSigttou]

def processSignalAllowed (sender target : Process) : Bool :=
  sender.euid = 0 || sender.euid = target.ruid || sender.euid = target.euid || sender.euid = target.suid

def Process.pend (process : Process) (signal : Nat) : Process :=
  { process with pendingSignals := process.pendingSignals ||| schedSignalBit signal }

def Process.terminate (process : Process) (signal : Nat) : Process :=
  if processIsKernelOwned process then process else { process with exitStatus := 128 + signal, dying := true }

-- A process, everyone but itself, or a group; no group is numbered 0.
def signalMatches (sender target : Process) (pid : Int) : Bool :=
  if pid > 0 then (target.pid : Int) = pid
  else if pid = -1 then target.pid ≠ sender.pid
  else if pid < -1 then (target.pgid : Int) = -pid
  else false

def signalTarget (signal : Nat) (target : Process) : Process :=
  if signal = 0 then target
  else if signal = schedSigkill then target.terminate signal
  else if signal ∈ stopSignals then
    Process.pend { target with stopped := true, stopSignal := signal, stopReported := false, continued := false } signal
  else if signal = schedSigcont ∧ target.stopped then
    Process.pend { target with stopped := false, continued := true, stopReported := false } signal
  else target.pend signal

-- SIGCHLD for a stop, or for going on after one.
def signalNotifies (signal : Nat) (target : Process) : Bool := signal ∈ stopSignals || (signal = schedSigcont && target.stopped)

variable (list : List Process)

def modifyPid (pid : Nat) (change : Process → Process) : List Process :=
  list.map (fun process => if process.pid = pid then change process else process)

def signalOne (target : Process) (signal : Nat) : List Process :=
  match list.find? (fun process => process.pid = target.pid) with
  | none => list
  | some current =>
    let list := modifyPid list current.pid (signalTarget signal)
    if signalNotifies signal current then modifyPid list current.ppid (fun parent => parent.pend schedSigchld) else list

-- As the loop of sched_process_signal; a pid is signalled once.
def signalTargets (sender : Process) (pid : Int) : List Process :=
  let targets := list.filter
    (fun target => signalMatches sender target pid && processSignalAllowed sender target && !processIsKernelOwned target)
  if pid > 0 then targets.take 1 else targets

def schedProcessSignal (sender : Process) (pid signal : Int) : List Process × Except SchedErrno Unit :=
  if signal < 0 ∨ signal > schedNsig then (list, .error .einval)
  else
    let pid := if pid = 0 then -(sender.pgid : Int) else pid
    let targets := signalTargets list sender pid
    let after := targets.foldl (fun list target => signalOne list target signal.toNat) list
    (after, if !targets.isEmpty then .ok ()
      else if list.any (fun target => signalMatches sender target pid) then .error .eperm
      else .error .esrch)

def groupMember (pgid : Int) (target : Process) : Bool := (target.pgid : Int) = pgid && !processIsKernelOwned target

def schedProcessSignalGroup (pgid signal : Int) : List Process × Except SchedErrno Unit :=
  if pgid ≤ 0 ∨ signal ≤ 0 ∨ signal > schedNsig then (list, .error .einval)
  else
    let change := fun target : Process =>
      if signal.toNat = schedSigkill then target.terminate signal.toNat else target.pend signal.toNat
    (list.map (fun target => if groupMember pgid target then change target else target),
      if list.any (groupMember pgid) then .ok () else .error .esrch)

def schedSignalAction (process : Process) (signal : Nat) (action : Sigaction) (flags : UInt64) : Process :=
  if signal = 0 ∨ schedNsig < signal ∨ signal = schedSigkill ∨ signal = schedSigstop then process
  else
    { process with
      sigactions := update process.sigactions signal { action with mask := signalMaskValid action.mask }
      sigflags := update process.sigflags signal flags }

-- Nothing pending, dropped, the end of the process, or a handler.
inductive Verdict where
  | quiet
  | dropped (signal : Nat)
  | fatal (signal : Nat)
  | handled (signal : Nat)
  deriving DecidableEq, Repr

def verdict (task : Task) : Verdict := match nextSignal (processPendingForThread task) with
  | none => .quiet
  | some signal =>
    let action := task.sigactions signal
    if action.handler = schedSigIgn ∨ (action.handler = schedSigDfl ∧ signalDefaultIgnored signal) then .dropped signal
    else if action.handler = schedSigDfl then .fatal signal
    else .handled signal

def Process.task (process : Process) (mask : UInt64) : Task :=
  { signalMask := mask, pendingSignals := process.pendingSignals, sigactions := process.sigactions, dying := process.dying
    kernelOwned := processIsKernelOwned process, exitStatus := process.exitStatus.toNat }

def Task.taken (task : Task) (signal : Nat) : Task := { task with pendingSignals := task.pendingSignals &&& ~~~schedSignalBit signal }

theorem deliver_by_verdict (task : Task) (memory : UserMemory) (frame : InterruptFrame) (user : frame.cs &&& 3 = 3)
    (living : task.dying = false) :
    schedSignalDeliver (some task) memory frame = match verdict task with
      | .quiet => .ok (.resume frame (some task) memory)
      | .dropped signal => .ok (.resume frame (some (task.taken signal)) memory)
      | .fatal signal => .ok (.finished (processTerminateBySignal (task.taken signal) signal))
      | .handled signal =>
        enterHandler { task.taken signal with
          signalMask := (task.signalMask ||| signalMaskValid (task.sigactions signal).mask ||| schedSignalBit signal) &&&
            ~~~schedUnblockableMask } memory frame signal (task.sigactions signal) task.signalMask := by
  have alive : ¬task.dying = true := by simp [living]
  unfold schedSignalDeliver verdict
  rw [if_neg (not_not.mpr user)]
  dsimp only
  rw [if_neg alive]
  cases nextSignal (processPendingForThread task) with
  | none => rfl
  | some signal =>
    dsimp only
    split
    · rfl
    · split <;> rfl

end Lyr.Sched
