import Lyr.Lib.Run
import Lyr.Lib.Span

set_option autoImplicit false

namespace Lyr.Fs

open Lyr.Lib

def pipeInitialCapacity : Nat := 4096

-- allocated is the size of the heap block buffer points to.
structure PipeShared where
  buffer : Bytes
  allocated : Nat
  capacity : Nat
  writeOffset : Nat
  readers : Nat
  writers : Nat

-- Both ends' offsets, and the O_NONBLOCK flag of the read end.
structure Pipe where
  shared : PipeShared
  readOffset : Nat
  fileOffset : Nat
  nonblock : Bool

inductive PipeErrno where
  | enomem
  | epipe
  | eagain
  | eintr
deriving DecidableEq, Repr

-- An access outside the heap block, an endless loop, a use after close.
inductive PipeFault where
  | overrun
  | hangs
  | closedEnd
deriving DecidableEq, Repr

def PipeShared.store (shared : PipeShared) (offset : Nat) (data : List UInt8) : Except PipeFault PipeShared :=
  if offset + data.length ≤ shared.allocated then .ok { shared with buffer := storeBytes shared.buffer offset data } else
    .error .overrun

-- while (new_cap < need) new_cap *= 2; after 64 rounds new_cap stays 0.
def growCap (need : Nat) : Nat → Nat → Except PipeFault Nat
  | 0, _ => .error .hangs
  | fuel + 1, cap => if cap < need then growCap need fuel (cap * 2 % 2 ^ 64) else .ok cap

-- krealloc keeps the bytes both blocks have, or answers NULL.
def kreallocBuffer (shared : PipeShared) (size : Nat) (fresh : Option Bytes) : Option PipeShared :=
  fresh.map (fun rest => { shared with buffer := overlay rest 0 (min shared.allocated size) shared.buffer, allocated := size })

def pipeGrow (shared : PipeShared) (need : Nat) (fresh : Option Bytes) : Except PipeFault (Option PipeShared) :=
  if shared.capacity < need then do
    let newCap ← growCap need 66 (if shared.capacity = 0 then pipeInitialCapacity else shared.capacity)
    match kreallocBuffer shared ((newCap + 1) % 2 ^ 64) fresh with
    | none => .ok none
    | some moved => do
      let cleared ← if shared.capacity < newCap then moved.store shared.capacity (List.replicate (newCap + 1 - shared.capacity) 0)
        else .ok moved
      .ok (some { cleared with capacity := newCap })
  else .ok (some shared)

-- All under the lock. The loop of the source returns in its first round.
def vfsPipeWrite (pipe : Pipe) (data : List UInt8) (fresh : Option Bytes) : Except PipeFault (Pipe × Except PipeErrno Nat) :=
  if data = [] then .ok (pipe, .ok 0)
  else if pipe.shared.readers = 0 then .ok (pipe, .error .epipe)
  else do
    let start := pipe.fileOffset
    match ← pipeGrow pipe.shared ((start + data.length) % 2 ^ 64) fresh with
    | none => .ok (pipe, .error .enomem)
    | some grown => do
      let padded ← if grown.writeOffset < start then grown.store grown.writeOffset (List.replicate (start - grown.writeOffset) 0) else
        .ok grown
      let filled ← padded.store start data
      let offset := (start + data.length) % 2 ^ 64
      let mark := if filled.writeOffset < offset then offset else filled.writeOffset
      let ended ← filled.store mark [0]
      .ok ({ pipe with shared := { ended with writeOffset := mark }, fileOffset := offset }, .ok data.length)

-- The part of vfs_pipe_read under the lock.
def pipeTake (pipe : Pipe) (length : Nat) : Except PipeFault (Pipe × List UInt8) :=
  let available := if pipe.readOffset < pipe.shared.writeOffset then pipe.shared.writeOffset - pipe.readOffset else 0
  let count := min length available
  if available = 0 then .ok (pipe, [])
  else if pipe.readOffset + count ≤ pipe.shared.allocated then
    .ok ({ pipe with readOffset := (pipe.readOffset + count) % 2 ^ 64 }, loadBytes pipe.shared.buffer pipe.readOffset count)
  else .error .overrun

-- At the head of the loop, after the lock with what it read there, or asleep.
inductive Reading where
  | out
  | head (length : Nat)
  | taken (length : Nat) (data : List UInt8) (writers writeOffset : Nat)
  | asleep (length : Nat)
deriving DecidableEq, Repr

-- Data of the successful writes and of the reads, in the order of the lock, beside the pipe and its readers.
structure PipeWorld where
  pipe : Pipe
  threads : Nat → Reading
  sent : List UInt8
  received : List UInt8

inductive PipeStep where
  | write (data : List UInt8) (fresh : Option Bytes)
  | read (thread length : Nat)
  | readLocked (thread : Nat)
  | readCheck (thread : Nat)
  | wake (thread : Nat) (interrupted : Bool)
  | closeReader
  | closeWriter
  | setNonblock (flag : Bool)

inductive PipeReply where
  | wrote (result : Except PipeErrno Nat)
  | read (result : Except PipeErrno (List UInt8))

def pipeCreated : PipeWorld where
  pipe := {
    shared := {
      buffer := fun _ => 0
      allocated := pipeInitialCapacity + 1
      capacity := pipeInitialCapacity
      writeOffset := 0
      readers := 1
      writers := 1 }
    readOffset := 0
    fileOffset := 0
    nonblock := false }
  threads := fun _ => .out
  sent := []
  received := []

variable (world : PipeWorld)

def PipeWorld.moveTo (thread : Nat) (place : Reading) : PipeWorld :=
  { world with threads := Function.update world.threads thread place }

def pipeCloseReader (pipe : Pipe) : Pipe :=
  { pipe with
    shared := { pipe.shared with readers := if 0 < pipe.shared.readers then pipe.shared.readers - 1 else pipe.shared.readers } }

def pipeCloseWriter (pipe : Pipe) : Pipe :=
  { pipe with
    shared := { pipe.shared with writers := if 0 < pipe.shared.writers then pipe.shared.writers - 1 else pipe.shared.writers } }

def pipeWriteStep (data : List UInt8) (fresh : Option Bytes) : Except PipeFault (PipeWorld × Option PipeReply) := do
  let (pipe, result) ← vfsPipeWrite world.pipe data fresh
  let sent := match result with
    | .ok _ => world.sent ++ data
    | .error _ => world.sent
  .ok ({ world with pipe := pipe, sent := sent }, some (.wrote result))

def pipeTakeStep (thread length : Nat) : Except PipeFault (PipeWorld × Option PipeReply) := do
  let (pipe, data) ← pipeTake world.pipe length
  .ok ({ world with pipe := pipe, received := world.received ++ data }.moveTo thread
    (.taken length data world.pipe.shared.writers world.pipe.shared.writeOffset), none)

-- The test reads file->offset without the lock.
def pipeCheckStep (thread length : Nat) (data : List UInt8) (writers writeOffset : Nat) : PipeWorld × Option PipeReply :=
  if data ≠ [] ∨ (writers = 0 ∧ writeOffset ≤ world.pipe.readOffset) then (world.moveTo thread .out, some (.read (.ok data)))
  else if world.pipe.nonblock then (world.moveTo thread .out, some (.read (.error .eagain)))
  else (world.moveTo thread (.asleep length), none)

-- With what the call returns, if it does. A step of a thread that is elsewhere does nothing.
def pipeAct : PipeStep → Except PipeFault (PipeWorld × Option PipeReply)
  | .write data fresh => if world.pipe.shared.writers = 0 then .error .closedEnd else pipeWriteStep world data fresh
  | .read thread length =>
    if world.pipe.shared.readers = 0 then .error .closedEnd
    else if world.threads thread ≠ .out then .ok (world, none)
    else if length = 0 then .ok (world, some (.read (.ok [])))
    else .ok (world.moveTo thread (.head length), none)
  | .readLocked thread => match world.threads thread with
      | .head length => pipeTakeStep world thread length
      | _ => .ok (world, none)
  | .readCheck thread => match world.threads thread with
      | .taken length data writers writeOffset => .ok (pipeCheckStep world thread length data writers writeOffset)
      | _ => .ok (world, none)
  | .wake thread interrupted => match world.threads thread with
      | .asleep length =>
        if interrupted then .ok (world.moveTo thread .out, some (.read (.error .eintr)))
        else .ok (world.moveTo thread (.head length), none)
      | _ => .ok (world, none)
  | .closeReader =>
    if world.pipe.shared.readers = 0 then .error .closedEnd else .ok ({ world with pipe := pipeCloseReader world.pipe }, none)
  | .closeWriter =>
    if world.pipe.shared.writers = 0 then .error .closedEnd else .ok ({ world with pipe := pipeCloseWriter world.pipe }, none)
  | .setNonblock flag => .ok ({ world with pipe := { world.pipe with nonblock := flag } }, none)

def pipeStep (step : PipeStep) : Except PipeFault PipeWorld := (pipeAct world step).map Prod.fst

end Lyr.Fs
