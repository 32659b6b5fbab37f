import Lyr.Lib.Run

set_option autoImplicit false

namespace Lyr.Sched

open Lyr.Lib Function

structure MortalThread where
  process : Nat
  isIdle : Bool
  zombie : Bool
  reapProcess : Bool
  deriving DecidableEq, Repr

-- threads have not finished, waitable is ppid > 0, destroyed: pcb and address space are gone.
structure MortalProcess where
  threads : List Nat
  waitable : Bool
  dying : Bool
  zombie : Bool
  linked : Bool
  destroyed : Bool
  deriving DecidableEq, Repr

-- Numbers follow creation. leaving is between process_remove_thread and thread_queue_reap, reaping being freed, doomed about to be
-- destroyed by a reaper, collecting unlinked by sched_process_wait. pidsFreed and tidsFreed count how often an id went back.
structure ReapWorld where
  cpuCount : Nat
  threads : Nat → Option MortalThread
  processes : Nat → Option MortalProcess
  current : Nat → Nat
  leaving : Nat → Option Nat
  reapList : Nat → List Nat
  reaping : Nat → Option Nat
  collecting : Nat → Option Nat
  doomed : Nat → Option Nat
  nextThread : Nat
  nextProcess : Nat
  pidsFreed : Nat → Nat
  tidsFreed : Nat → Nat

variable (w : ReapWorld)

def ReapWorld.setThread (t : Nat) (thread : MortalThread) : ReapWorld :=
  { w with threads := update w.threads t (some thread) }

def ReapWorld.setProcess (p : Nat) (process : MortalProcess) : ReapWorld :=
  { w with processes := update w.processes p (some process) }

inductive ReapEvent where
  | spawn (waitable : Bool)
  | reparent (p : Nat) (waitable : Bool)
  | kill (p : Nat)
  | create (p : Nat)
  | switch (c t : Nat)
  | finish (c t : Nat)
  | queueReap (c : Nat)
  | collect (waiter p : Nat)
  | destroyCollected (waiter : Nat)
  | takeReap (c : Nat)
  | reapThread (c : Nat)
  | destroyReaped (c : Nat)
  deriving DecidableEq, Repr

def spawnProcess (waitable : Bool) : ReapWorld :=
  { w.setProcess w.nextProcess ⟨[], waitable, false, false, true, false⟩ with nextProcess := w.nextProcess + 1 }

-- thread_alloc: process_add_thread refuses a dying process.
def createThread (p : Nat) : ReapWorld := match w.processes p with
  | none => w
  | some process =>
    if process.dying then w
    else
      { (w.setProcess p { process with threads := w.nextThread :: process.threads }).setThread w.nextThread ⟨p, false, false,
        false⟩ with
        nextThread := w.nextThread + 1 }

-- The last thread makes the process a zombie, or takes it along where nobody can wait.
def removeFrom (p : Nat) (process : MortalProcess) (t : Nat) : MortalProcess × Bool :=
  if t ∈ process.threads then
    let process := { process with threads := process.threads.erase t }
    if process.threads = [] ∧ p ≠ 0 then
      if process.waitable then ({ process with dying := true, zombie := true }, false) else ({ process with dying := true }, true)
    else (process, false)
  else (process, false)

-- thread_finish_locked up to thread_queue_reap, for a current or popped thread, without the lock of sched_process_wait.
def finishThread (c t : Nat) : ReapWorld := match w.threads t with
  | none => w
  | some thread =>
    if thread.zombie ∨ thread.isIdle then w
    else match w.processes thread.process with
      | none => w
      | some process =>
        let (process, reapProcess) := removeFrom thread.process process t
        { (w.setThread t { thread with zombie := true, reapProcess }).setProcess thread.process process with
          leaving := update w.leaving c (some t) }

def threadQueueReap (c : Nat) : ReapWorld := match w.leaving c with
  | none => w
  | some t =>
    { w with leaving := update w.leaving c none, reapList := update w.reapList c (t :: w.reapList c) }

-- The zombie leaves the list under sched_lock; process_destroy comes after.
def collectZombie (waiter p : Nat) : ReapWorld := match w.processes p with
  | none => w
  | some process =>
    if process.linked ∧ process.zombie ∧ w.collecting waiter = none then
      { w.setProcess p { process with linked := false } with collecting := update w.collecting waiter (some p) }
    else w

def processDestroyed (p : Nat) : ReapWorld := match w.processes p with
  | none => w
  | some process =>
    if p = 0 then w
    else
      { w.setProcess p { process with linked := false, destroyed := true } with
        pidsFreed := update w.pidsFreed p (w.pidsFreed p + 1) }

def destroyCollected (waiter : Nat) : ReapWorld := match w.collecting waiter with
  | none => w
  | some p => processDestroyed { w with collecting := update w.collecting waiter none } p

-- The first of the list that is not current.
def takeReap (c : Nat) : ReapWorld :=
  if w.leaving c ≠ none ∨ w.reaping c ≠ none ∨ w.doomed c ≠ none then w
  else match (w.reapList c).find? (fun t => t ≠ w.current c) with
    | none => w
    | some t =>
      { w with reapList := update w.reapList c ((w.reapList c).erase t), reaping := update w.reaping c (some t) }

-- thread_reap up to the freeing of the tcb.
def reapThread (c : Nat) : ReapWorld := match w.reaping c with
  | none => w
  | some t => match w.threads t with
      | none => w
      | some thread =>
        { w with
          threads := update w.threads t none
          reaping := update w.reaping c none
          tidsFreed := update w.tidsFreed t (w.tidsFreed t + 1)
          doomed := if thread.reapProcess then update w.doomed c (some thread.process) else w.doomed }

def destroyReaped (c : Nat) : ReapWorld := match w.doomed c with
  | none => w
  | some p => processDestroyed { w with doomed := update w.doomed c none } p

-- A CPU finishes its current thread or one that no CPU runs, and switches to one no other CPU runs.
def reapStep : ReapEvent → ReapWorld
  | .spawn waitable => spawnProcess w waitable
  | .reparent p waitable => match w.processes p with
      | none => w
      | some process => w.setProcess p { process with waitable }
  | .kill p => match w.processes p with
      | none => w
      | some process => w.setProcess p { process with dying := true }
  | .create p => createThread w p
  | .switch c t =>
    if c < w.cpuCount ∧ w.leaving c = none ∧ (w.threads t).any (fun thread => !thread.zombie) ∧
        ∀ other < w.cpuCount, other ≠ c → w.current other ≠ t then
      { w with current := update w.current c t }
    else w
  | .finish c t =>
    if c < w.cpuCount ∧ w.leaving c = none ∧ ∀ other < w.cpuCount, other ≠ c → w.current other ≠ t then finishThread w c t else w
  | .queueReap c => if c < w.cpuCount then threadQueueReap w c else w
  | .collect waiter p => collectZombie w waiter p
  | .destroyCollected waiter => destroyCollected w waiter
  | .takeReap c => if c < w.cpuCount then takeReap w c else w
  | .reapThread c => if c < w.cpuCount then reapThread w c else w
  | .destroyReaped c => if c < w.cpuCount then destroyReaped w c else w

def reapRunStep (event : ReapEvent) : Except Empty ReapWorld := .ok (reapStep w event)

-- Process 0 holds the idle thread c of each CPU c.
def reapInit (cpuCount : Nat) : ReapWorld :=
  { cpuCount
    threads := fun t => if t < cpuCount then some ⟨0, true, false, false⟩ else none
    processes := fun p => if p = 0 then some ⟨List.range cpuCount, false, false, false, true, false⟩ else none
    current := fun c => c, leaving := fun _ => none, reapList := fun _ => [], reaping := fun _ => none
    collecting := fun _ => none, doomed := fun _ => none
    nextThread := cpuCount, nextProcess := 1, pidsFreed := fun _ => 0, tidsFreed := fun _ => 0 }

end Lyr.Sched
