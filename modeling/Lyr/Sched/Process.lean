import Lyr.Fs.Path
import Lyr.Lib.Run
import Lyr.Sched.Signal

set_option autoImplicit false

namespace Lyr.Sched

open Lyr.Lib Lyr.Fs

inductive SchedErrno where
  | eperm
  | esrch
  | einval
  | echild
  | ebadf
  deriving DecidableEq, Repr

-- pcb_t without address space and files. ownsVas is false in the kernel's address space.
structure Process where
  pid : Nat
  ppid : Nat
  ownsVas : Bool
  dying : Bool
  zombie : Bool
  exitStatus : Int
  threadCount : Nat
  cred : VfsCred
  ruid : Nat
  rgid : Nat
  suid : Nat
  sgid : Nat
  euid : Nat
  egid : Nat
  umask : Nat
  pgid : Nat
  sid : Nat
  controllingTty : Int
  cwd : Path
  sigactions : Nat → Sigaction
  sigflags : Nat → UInt64
  pendingSignals : UInt64
  stopped : Bool
  stopSignal : Nat
  stopReported : Bool
  continued : Bool

variable (process : Process)

def processRefreshCred : Process :=
  { process with cred := { uid := process.euid, gid := process.egid, groups := [], umask := 0o022 } }

-- Dying where one of the three opens of process_setup_fds fails.
def processAllocId (pid : Nat) (ownsVas opened : Bool) : Process := processRefreshCred
    { pid, ppid := 0, ownsVas, dying := !opened, zombie := false, exitStatus := 0, threadCount := 0
      cred := { uid := 0, gid := 0, groups := [], umask := 0 }
      ruid := 0, rgid := 0, suid := 0, sgid := 0, euid := 0, egid := 0, umask := 0o022, pgid := pid, sid := pid
      controllingTty := -1, cwd := [slash], sigactions := fun _ => ⟨0, 0, 0⟩, sigflags := fun _ => 0, pendingSignals := 0
      stopped := false, stopSignal := 0, stopReported := false, continued := false }

def schedProcessCopyIds (dst src : Process) : Process := { dst with
    ppid := src.pid, ruid := src.ruid, rgid := src.rgid, suid := src.suid, sgid := src.sgid, euid := src.euid
    egid := src.egid, pgid := src.pgid, sid := src.sid, controllingTty := src.controllingTty, cred := src.cred }

def schedProcessSetuid (uid : Nat) : Except SchedErrno Process :=
  if process.euid ≠ 0 ∧ uid ≠ process.ruid ∧ uid ≠ process.euid ∧ uid ≠ process.suid then .error .eperm
  else
    let process := if process.euid = 0 then { process with ruid := uid, suid := uid } else process
    .ok (processRefreshCred { process with euid := uid })

def schedProcessSetgid (gid : Nat) : Except SchedErrno Process :=
  if process.euid ≠ 0 ∧ gid ≠ process.rgid ∧ gid ≠ process.egid ∧ gid ≠ process.sgid then .error .eperm
  else
    let process := if process.euid = 0 then { process with rgid := gid, sgid := gid } else process
    .ok (processRefreshCred { process with egid := gid })

def schedProcessSeteuid (uid : Nat) : Except SchedErrno Process :=
  if process.euid ≠ 0 ∧ uid ≠ process.ruid ∧ uid ≠ process.suid then .error .eperm
  else .ok (processRefreshCred { process with euid := uid })

def schedProcessSetegid (gid : Nat) : Except SchedErrno Process :=
  if process.euid ≠ 0 ∧ gid ≠ process.rgid ∧ gid ≠ process.sgid then .error .eperm
  else .ok (processRefreshCred { process with egid := gid })

end Lyr.Sched
