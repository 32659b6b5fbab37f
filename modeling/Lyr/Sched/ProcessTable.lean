import Lyr.Sched.Process

set_option autoImplicit false

namespace Lyr.Sched

open Lyr.Lib Lyr.Fs

-- Free ids in ascending order.
structure IdPool where
  next : Nat
  free : List Nat
  deriving DecidableEq, Repr

def IdPool.peek (pool : IdPool) : Nat := match pool.free with
  | id :: _ => id
  | [] => pool.next

def idAlloc (pool : IdPool) : Nat × IdPool := match pool.free with
  | id :: rest => (id, { pool with free := rest })
  | [] => (pool.next, { pool with next := pool.next + 1 })

inductive SchedPanic where
  | doubleFree (id : Nat)
  deriving DecidableEq, Repr

def idInsert (id : Nat) : List Nat → Except SchedPanic (List Nat)
  | [] => .ok [id]
  | head :: rest =>
    if head < id then (idInsert id rest).map (fun later => head :: later)
    else if head = id then .error (.doubleFree id)
    else .ok (id :: head :: rest)

def idFree (pool : IdPool) (id : Nat) : Except SchedPanic IdPool :=
  if id = 0 then .ok pool else (idInsert id pool.free).map (fun free => { pool with free })

-- From its head on.
structure ProcessTable where
  list : List Process
  pool : IdPool

def processIsKernelOwned (process : Process) : Bool := process.pid = 0 || !process.ownsVas

variable (t : ProcessTable)

def ProcessTable.find (pid : Nat) : Option Process := t.list.find? (fun process => process.pid = pid)

def ProcessTable.modify (pid : Nat) (change : Process → Process) : ProcessTable :=
  { t with list := t.list.map (fun process => if process.pid = pid then change process else process) }

-- process_alloc and process_link_locked.
def schedProcessCreate (ownsVas opened : Bool) : ProcessTable :=
  let (pid, pool) := idAlloc t.pool
  { list := processAllocId pid ownsVas opened :: t.list, pool }

-- process_destroy and sched_process_discard: the pid goes back.
def processDestroy (pid : Nat) : Except SchedPanic ProcessTable :=
  if pid = 0 then .ok t
  else (idFree t.pool pid).map (fun pool => { list := t.list.filter (fun process => process.pid ≠ pid), pool })

-- The child gets its thread, unless its descriptors failed.
def sysFork (parent : Process) (opened : Bool) : Except SchedPanic ProcessTable :=
  let pid := t.pool.peek
  let created := schedProcessCreate t true opened
  let forked := created.modify pid (fun child => schedProcessCopyIds child parent)
  if opened then .ok (forked.modify pid (fun child => { child with threadCount := child.threadCount + 1 }))
  else processDestroy forked pid

def processAddThread (pid : Nat) : ProcessTable :=
  t.modify pid (fun process => if process.dying then process else { process with threadCount := process.threadCount + 1 })

def setpgidAllowed (caller target : Process) (pgid : Nat) : Except SchedErrno Unit :=
  if target.pid ≠ caller.pid ∧ target.ppid ≠ caller.pid then .error .esrch
  else if caller.sid ≠ target.sid then .error .eperm
  else if target.pid = target.sid then .error .eperm
  else if pgid ≠ target.pid ∧ ¬t.list.any (fun process => process.pgid = pgid ∧ process.sid = target.sid) then .error .eperm
  else .ok ()

def schedProcessSetpgid (caller : Process) (pid pgid : Int) : Except SchedErrno ProcessTable :=
  let pid := if pid = 0 then (caller.pid : Int) else pid
  let pgid := if pgid = 0 then pid else pgid
  if pid < 0 ∨ pgid < 0 then .error .einval
  else match t.find pid.toNat with
    | none => .error .esrch
    | some target => match setpgidAllowed t caller target pgid.toNat with
        | .error errno => .error errno
        | .ok _ => .ok (t.modify target.pid (fun process => { process with pgid := pgid.toNat }))

def schedProcessSetsid (caller : Process) : Except SchedErrno ProcessTable :=
  if t.list.any (fun process => process.pid ≠ caller.pid ∧ process.pgid = caller.pid) then .error .eperm
  else .ok (t.modify caller.pid (fun process =>
    { process with sid := caller.pid, pgid := caller.pid, controllingTty := -1 }))

inductive ProcessExitAction where
  | none
  | zombie
  | reap
  deriving DecidableEq, Repr

def processRemoveThreadOf (process : Process) (status : Int) : Process × ProcessExitAction :=
  if process.threadCount = 0 then (process, .none)
  else
    let process := { process with threadCount := process.threadCount - 1 }
    if process.threadCount = 0 ∧ process.pid ≠ 0 then
      let process := { process with exitStatus := status, dying := true }
      if 0 < process.ppid then ({ process with zombie := true }, .zombie) else (process, .reap)
    else (process, .none)

def processReparentChildren (oldParent newParent : Nat) : ProcessTable :=
  if oldParent = 0 then t
  else { t with list := t.list.map (fun child => if child.ppid = oldParent then { child with ppid := newParent } else child) }

def processNotifyParentSignal (parentPid signal : Nat) : ProcessTable :=
  if parentPid = 0 then t
  else t.modify parentPid (fun parent =>
    if processIsKernelOwned parent then parent
    else { parent with pendingSignals := parent.pendingSignals ||| schedSignalBit signal })

-- thread_finish_locked as far as the process list goes.
def threadFinishProcess (process : Process) (status : Int) : ProcessTable :=
  let newParent := if process.pid > 1 then 1 else 0
  let (left, action) := processRemoveThreadOf process status
  let t := t.modify process.pid (fun _ => left)
  match action with
  | .none => t
  | .reap => processReparentChildren t process.pid newParent
  | .zombie => processNotifyParentSignal (processReparentChildren t process.pid newParent) process.ppid schedSigchld

def schedWnohang : Nat := 1
def schedWuntraced : Nat := 2
def schedWcontinued : Nat := 8

def waitMatches (parent child : Process) (pid : Int) : Bool := (if pid > 0 then (child.pid : Int) = pid
   else if pid = -1 then true
   else (child.pgid : Int) = if pid = 0 then (parent.pgid : Int) else -pid) && child.ppid = parent.pid

def waitStatus (raw : Int) : Int := if raw ≥ 128 then (raw - 128) % 128 else (raw % 256) * 256

inductive WaitOutcome where
  | collected (pid : Nat) (status : Int)
  | nothing
  | again
  | failed (errno : SchedErrno)
  deriving DecidableEq, Repr

def waitReport (children : List Process) (options : Nat) : ProcessTable × WaitOutcome :=
  match children.find? (fun child => options &&& schedWuntraced ≠ 0 ∧ child.stopped ∧ !child.stopReported) with
  | some stopped => (t.modify stopped.pid (fun process => { process with stopReported := true }),
      .collected stopped.pid ((stopped.stopSignal % 256 * 256 + 127 : Nat) : Int))
  | none => match children.find? (fun child => options &&& schedWcontinued ≠ 0 ∧ child.continued) with
      | some continued =>
        (t.modify continued.pid (fun process => { process with continued := false }), .collected continued.pid 0xffff)
      | none => (t, if options &&& schedWnohang ≠ 0 then .nothing else .again)

def schedProcessWait (parent : Process) (pid : Int) (options : Nat) : Except SchedPanic (ProcessTable × WaitOutcome) :=
  let children := t.list.filter (fun child => waitMatches parent child pid)
  if options / 16 ≠ 0 ∨ options &&& 4 ≠ 0 then .ok (t, .failed .einval)
  else match children.find? (fun child => child.zombie) with
    | some zombie =>
      (processDestroy t zombie.pid).map (fun t => (t, .collected zombie.pid (waitStatus zombie.exitStatus)))
    | none => .ok (if children.isEmpty then (t, .failed .echild) else waitReport t children options)

-- As sched_init links them, idle with a thread for each CPU, lyr-kernel with the bootstrap thread.
def bootTable (cpuCount : Nat) : ProcessTable where
  list := [{ processAllocId 1 false true with threadCount := 1 }, { processAllocId 0 false true with threadCount := cpuCount }]
  pool := ⟨2, []⟩

inductive ProcessCall where
  | create (ownsVas opened : Bool)
  | addThread (pid : Nat)
  | fork (parent : Nat) (opened : Bool)
  | setpgid (caller : Nat) (pid pgid : Int)
  | setsid (caller : Nat)
  | exitThread (pid : Nat) (status : Int)
  | wait (parent : Nat) (pid : Int) (options : Nat)
  | destroy (pid : Nat)
  deriving DecidableEq, Repr

-- A call that fails or has no caller changes nothing. Reaper and discard only destroy a process without threads that is no zombie.
def processStep : ProcessCall → Except SchedPanic ProcessTable
  | .create ownsVas opened => .ok (schedProcessCreate t ownsVas opened)
  | .addThread pid => .ok (processAddThread t pid)
  | .fork parent opened => match t.find parent with
      | none => .ok t
      | some process => sysFork t process opened
  | .setpgid caller pid pgid => match t.find caller with
      | none => .ok t
      | some process => .ok ((schedProcessSetpgid t process pid pgid).toOption.getD t)
  | .setsid caller => match t.find caller with
      | none => .ok t
      | some process => .ok ((schedProcessSetsid t process).toOption.getD t)
  | .exitThread pid status => match t.find pid with
      | none => .ok t
      | some process => .ok (threadFinishProcess t process status)
  | .wait parent pid options => match t.find parent with
      | none => .ok t
      | some process => (schedProcessWait t process pid options).map Prod.fst
  | .destroy pid => match t.find pid with
      | none => .ok t
      | some process => if process.threadCount = 0 ∧ !process.zombie then processDestroy t pid else .ok t

end Lyr.Sched
