import Lyr.Fs.Descriptor
import Lyr.Mm.World
import Lyr.Sched.ProcessTable

set_option autoImplicit false

namespace Lyr.Sys

open Lyr.Lib Lyr.Fs Lyr.Sched Lyr.Mm

-- What its program observes of a tcb_t.
structure UserThread where
  frame : InterruptFrame
  fsBase : UInt64
  userEntryRsp : UInt64
  signalMask : UInt64
  deriving DecidableEq, Repr

-- Memory, process list and all descriptors.
structure ForkState where
  world : World
  table : ProcessTable
  files : FileTables

structure Caller where
  process : Process
  vas : Vas
  thread : UserThread

-- Nodes of /dev/stdin, /dev/stdout and /dev/stderr, which files could be duplicated, and whether thread_alloc found memory.
structure ForkAnswers where
  stdin : Nat
  stdout : Nat
  stderr : Nat
  granted : Nat → Bool
  threaded : Bool

-- process_setup_fds when all three files open.
def processSetupFds (t : FileTables) (pid : Nat) (answers : ForkAnswers) : FileTables :=
  newFile (newFile (newFile t pid 0 answers.stdin vfsORdonly false) pid 1 answers.stdout vfsOWronly false) pid 2 answers.stderr
    vfsOWronly false

def closeAll (t : FileTables) (pid : Nat) : FileTables := (List.range schedFileMax).foldl (fun t fd => closeFileSlot t pid fd) t

def forkFiles (t : FileTables) (parent child : Nat) (granted : Nat → Bool) : List Nat → Option FileTables
  | [] => some t
  | fd :: rest => match forkFile t parent child fd (granted fd) with
      | (_, .error _) => none
      | (t, .ok _) => forkFiles t parent child granted rest

-- sched_fork_thread: the tcb is zeroed, the frame copied.
def schedForkThread (parent : UserThread) (pml4 : Nat) : UserThread :=
  { frame := { parent.frame with rax := 0, cr3 := UInt64.ofNat (4096 * pml4) }
    fsBase := parent.fsBase, userEntryRsp := parent.frame.rsp, signalMask := 0 }

-- process_alloc_id, sched_process_copy_ids and sched_process_copy_cwd.
def forkedProcess (pid : Nat) (parent : Process) : Process :=
  { schedProcessCopyIds (processAllocId pid true true) parent with cwd := parent.cwd, threadCount := 1 }

-- A failure is none.
def sysForkHandler (s : ForkState) (caller : Caller) (answers : ForkAnswers) : Option (ForkState × Caller) :=
  match vasClone s.world.machine caller.vas with
  | .error _ => none
  | .ok (machine, vas) =>
    let (pid, pool) := idAlloc s.table.pool
    let child := forkedProcess pid caller.process
    match forkFiles (closeAll (processSetupFds s.files pid answers) pid) caller.process.pid pid answers.granted
      (List.range schedFileMax) with
    | none => none
    | some files =>
      if answers.threaded then
        some ({ world := ⟨machine, vas :: s.world.spaces⟩, table := ⟨child :: s.table.list, pool⟩, files },
          ⟨child, vas, schedForkThread caller.thread vas.pml4⟩)
      else none

-- Address space, entry point and stack.
structure ExecImage where
  vas : Vas
  entry : UInt64
  userRsp : UInt64

def closeOnExec (t : FileTables) (pid : Nat) : FileTables :=
  (List.range schedFileMax).foldl (fun t fd => match t.slotAt pid fd with
    | none => t
    | some slot => if slot.fdFlags &&& sysFdCloexec ≠ 0 then closeFileSlot t pid fd else t) t

def execFrame (image : ExecImage) : InterruptFrame :=
  { es := userDs, ds := userDs, cr0 := 0, cr2 := 0, cr3 := 0, cr4 := 0, rax := 0, rbx := 0, rcx := 0, rdx := 0, rbp := 0, rdi := 0
    rsi := 0, r8 := 0, r9 := 0, r10 := 0, r11 := 0, r12 := 0, r13 := 0, r14 := 0, r15 := 0, vector := 0, err := 0, rip := image.entry
    cs := userCs, rflags := 0x202, rsp := image.userRsp, ss := userDs }

-- From where the new image is complete: address space and name change.
def sysExecveHandler (files : FileTables) (caller : Caller) (image : Option ExecImage) : Option (FileTables × Caller) :=
  image.map (fun image => (closeOnExec files caller.process.pid,
    { caller with
      vas := image.vas
      thread := { caller.thread with frame := execFrame image, fsBase := 0, userEntryRsp := image.userRsp } }))

end Lyr.Sys
