import Lyr.Fs.Vfs
import Lyr.Lib.Run

set_option autoImplicit false

namespace Lyr.Fs

open Lyr.Lib Function

def vfsORdonly : UInt32 := 0
def vfsOWronly : UInt32 := 1
def vfsOAccmode : UInt32 := 3
def vfsOTrunc : UInt32 := 0x400
def vfsOAppend : UInt32 := 0x800

-- SYS_O_NONBLOCK is SOCK_NONBLOCK, which is the bit of VFS_O_APPEND.
def sysONonblock : UInt32 := 0x800

def sysOCloexec : UInt32 := 0o2000000
def sysFdCloexec : UInt32 := 1
def schedFileMax : Nat := 128

-- What a program observes of an open file; opening is the number of its vfs_open.
structure OpenFile where
  opening : Nat
  node : Nat
  flags : UInt32
  offset : Nat
  deriving DecidableEq, Repr

-- pipe is the answer of vfs_pipe_is.
structure VfsFile extends OpenFile where
  refs : Nat
  pipe : Bool
  deriving DecidableEq, Repr

structure FdSlot where
  process : Nat
  fd : Nat
  file : Nat
  fdFlags : UInt32
  deriving DecidableEq, Repr

structure Stroke where
  opening : Nat
  node : Nat
  start : Nat
  stop : Nat
  deriving DecidableEq, Repr

-- The ranges written since the last seek of the opening and truncation of the node.
structure FileTables where
  slots : List FdSlot
  heap : Nat → Option VfsFile
  nextFile : Nat
  nextOpening : Nat
  size : Nat → Nat
  strokes : List Stroke

inductive FdErrno where
  | ebadf
  | einval
  | enomem
  | fs (errno : Errno)
  deriving DecidableEq, Repr

-- A tmpfs out of pages reports the bytes it wrote and leaves the size.
inductive WriteAnswer where
  | failed (errno : Errno)
  | took (count : Nat)
  | cut (count : Nat)
  deriving DecidableEq, Repr

variable (t : FileTables)

variable (process fd : Nat)

def FileTables.slotAt : Option FdSlot := t.slots.find? (fun slot => slot.process = process ∧ slot.fd = fd)

def FileTables.fileAt : Option (Nat × VfsFile) := match t.slotAt process fd with
  | none => none
  | some slot => (t.heap slot.file).map (fun file => (slot.file, file))

def FileTables.setFile (id : Nat) (file : VfsFile) : FileTables := { t with heap := update t.heap id (some file) }

def FileTables.withoutSlot : FileTables :=
  { t with slots := t.slots.filter (fun slot => ¬(slot.process = process ∧ slot.fd = fd)) }

def FileTables.withSlot (slot : FdSlot) : FileTables :=
  { t.withoutSlot slot.process slot.fd with slots := slot :: (t.withoutSlot slot.process slot.fd).slots }

def vfsClose (id : Nat) : FileTables := match t.heap id with
  | none => t
  | some file =>
    if file.refs > 1 then t.setFile id { file with refs := file.refs - 1 }
    else { t with heap := update t.heap id none }

def closeFileSlot : FileTables := match t.slotAt process fd with
  | none => t
  | some slot => (vfsClose t slot.file).withoutSlot process fd

-- granted is false where kzalloc or net_socket_ref fails.
def syscallDupFile (id : Nat) (granted : Bool) : Option (FileTables × Nat) := match t.heap id with
  | none => none
  | some file =>
    if file.pipe then some (t.setFile id { file with refs := file.refs + 1 }, id)
    else if granted then some ({ t.setFile t.nextFile { file with refs := 1 } with nextFile := t.nextFile + 1 }, t.nextFile)
    else none

def syscallAllocFd (process minfd : Nat) : Option Nat :=
  (List.range schedFileMax).find? (fun fd => minfd ≤ fd ∧ (t.slotAt process fd).isNone)

def dupInto (source : FdSlot) (process fd : Nat) (fdFlags : UInt32) (granted : Bool) :
    FileTables × Except FdErrno Nat := match syscallDupFile t source.file granted with
  | none => (t, .error .enomem)
  | some (t, id) => (t.withSlot ⟨process, fd, id, fdFlags⟩, .ok fd)

def sysDup2 (process oldfd newfd : Nat) (flags : UInt32) (granted : Bool) : FileTables × Except FdErrno Nat :=
  if schedFileMax ≤ oldfd ∨ schedFileMax ≤ newfd then (t, .error .ebadf)
  else match t.slotAt process oldfd with
    | none => (t, .error .ebadf)
    | some source =>
      if flags &&& ~~~sysOCloexec ≠ 0 then (t, .error .einval)
      else if oldfd = newfd then (t, .ok newfd)
      else
        dupInto (closeFileSlot t process newfd) source process newfd (if flags &&& sysOCloexec ≠ 0 then sysFdCloexec else 0) granted

def sysFcntlDupfd (minfd : Int) (cloexec granted : Bool) : FileTables × Except FdErrno Nat :=
  match t.slotAt process fd with
  | none => (t, .error .ebadf)
  | some source =>
    if minfd < 0 then (t, .error .einval)
    else if schedFileMax ≤ minfd.toNat then (t, .error .ebadf)
    else match syscallAllocFd t process minfd.toNat with
      | none => (t, .error .enomem)
      | some newfd => dupInto t source process newfd (if cloexec then sysFdCloexec else 0) granted

-- One round of the loop of sys_fork.
def forkFile (parent child fd : Nat) (granted : Bool) : FileTables × Except FdErrno Nat :=
  match t.slotAt parent fd with
  | none => (t, .ok fd)
  | some source => dupInto t source child fd source.fdFlags granted

def sysFcntlSetfl (flags : UInt32) : FileTables × Except FdErrno Nat :=
  match t.fileAt process fd with
  | none => (t, .error .ebadf)
  | some (id, file) =>
    let flags := if flags &&& sysONonblock ≠ 0 then file.flags ||| sysONonblock else file.flags &&& ~~~sysONonblock
    (t.setFile id { file with flags }, .ok 0)

def newFile (process fd node : Nat) (flags : UInt32) (pipe : Bool) : FileTables :=
  let offset := if flags &&& vfsOAppend ≠ 0 then t.size node else 0
  let file : VfsFile := { opening := t.nextOpening, node, flags, offset, refs := 1, pipe }
  { t.setFile t.nextFile file with nextFile := t.nextFile + 1, nextOpening := t.nextOpening + 1 }.withSlot
    ⟨process, fd, t.nextFile, 0⟩

def truncateNode (node : Nat) : FileTables :=
  { t with size := update t.size node 0, strokes := t.strokes.filter (fun stroke => stroke.node ≠ node) }

-- vfs_open of a regular file after lookup and access check.
def sysOpen (process node : Nat) (flags : UInt32) (granted : Bool) : FileTables × Except FdErrno Nat :=
  match syscallAllocFd t process 0 with
  | none => (t, .error .enomem)
  | some fd =>
    if flags &&& vfsOAccmode = 3 then (t, .error .einval)
    else
      let t := if flags &&& vfsOTrunc ≠ 0 ∧ flags &&& vfsOAccmode ≠ vfsORdonly then truncateNode t node else t
      if granted then (newFile t process fd node flags false, .ok fd) else (t, .error .enomem)

-- Two lowest free descriptors. The size of a pipe is its write_offset.
def sysPipe (process node : Nat) (granted : Bool) : FileTables × Except FdErrno Nat :=
  match syscallAllocFd t process 0 with
  | none => (t, .error .enomem)
  | some readFd => match syscallAllocFd t process (readFd + 1) with
      | none => (t, .error .enomem)
      | some writeFd =>
        if granted then
          (newFile (newFile (truncateNode t node) process readFd node vfsORdonly true) process writeFd node vfsOWronly true, .ok 0)
        else (t, .error .enomem)

def sysClose : FileTables × Except FdErrno Nat := match t.slotAt process fd with
  | none => (t, .error .ebadf)
  | some _ => (closeFileSlot t process fd, .ok 0)

-- No more than asked for and than the file holds.
def vfsRead (process fd length : Nat) (answer : Except Errno Nat) : FileTables × Except FdErrno Nat :=
  match t.fileAt process fd with
  | none => (t, .error .ebadf)
  | some (id, file) =>
    if file.flags &&& vfsOAccmode = vfsOWronly then (t, .error .ebadf)
    else match answer with
      | .error errno => (t, .error (.fs errno))
      | .ok count =>
        let count := min count (min length (t.size file.node - file.offset))
        (t.setFile id { file with offset := (file.offset + count) % 2 ^ 64 }, .ok count)

def written (id : Nat) (file : VfsFile) (start count size : Nat) : FileTables :=
  { t.setFile id { file with offset := (start + count) % 2 ^ 64 } with
    size := update t.size file.node size
    strokes := ⟨file.opening, file.node, start, start + count⟩ :: t.strokes }

def writeStart (file : VfsFile) : Nat :=
  if file.flags &&& vfsOAppend ≠ 0 then t.size file.node else file.offset

def vfsWrite (process fd length : Nat) (answer : WriteAnswer) : FileTables × Except FdErrno Nat :=
  match t.fileAt process fd with
  | none => (t, .error .ebadf)
  | some (id, file) =>
    if file.flags &&& vfsOAccmode = vfsORdonly then (t, .error .ebadf)
    else
      -- A pipe is written at the offset of the file whatever its flags.
      let start := if file.pipe then file.offset else writeStart t file
      match answer with
      | .failed errno => (t, .error (.fs errno))
      | .took count =>
        let count := min count length
        (written t id file start count (max (t.size file.node) ((start + count) % 2 ^ 64)), .ok count)
      | .cut count =>
        let count := min count length
        (written t id file start count (t.size file.node), .ok count)

def seekBase (file : VfsFile) : Nat → Option Nat
  | 0 => some 0
  | 1 => some file.offset
  | 2 => some (t.size file.node)
  | _ => none

def moved (id : Nat) (file : VfsFile) (offset : Nat) : FileTables :=
  { t.setFile id { file with offset } with strokes := t.strokes.filter (fun stroke => stroke.opening ≠ file.opening) }

def vfsSeek (process fd whence : Nat) (off : Int) : FileTables × Except FdErrno Nat :=
  match t.fileAt process fd with
  | none => (t, .error .ebadf)
  | some (id, file) =>
    match seekBase t file whence with
    | none => (t, .error .einval)
    | some base =>
      if off < 0 ∧ base < off.natAbs then (t, .error .einval)
      else
        let offset := if off < 0 then base - off.natAbs else (base + off.natAbs) % 2 ^ 64
        (moved t id file offset, .ok offset)

inductive FdCall where
  | openFile (process node : Nat) (flags : UInt32) (granted : Bool)
  | pipe (process node : Nat) (granted : Bool)
  | close (process fd : Nat)
  | dup2 (process oldfd newfd : Nat) (flags : UInt32) (granted : Bool)
  | dupfd (process fd : Nat) (minfd : Int) (cloexec granted : Bool)
  | forkFile (parent child fd : Nat) (granted : Bool)
  | setfl (process fd : Nat) (flags : UInt32)
  | read (process fd length : Nat) (answer : Except Errno Nat)
  | write (process fd length : Nat) (answer : WriteAnswer)
  | lseek (process fd whence : Nat) (off : Int)

def fdCall : FdCall → FileTables × Except FdErrno Nat
  | .openFile process node flags granted => sysOpen t process node flags granted
  | .pipe process node granted => sysPipe t process node granted
  | .close process fd => sysClose t process fd
  | .dup2 process oldfd newfd flags granted => sysDup2 t process oldfd newfd flags granted
  | .dupfd process fd minfd cloexec granted => sysFcntlDupfd t process fd minfd cloexec granted
  | .forkFile parent child fd granted => forkFile t parent child fd granted
  | .setfl process fd flags => sysFcntlSetfl t process fd flags
  | .read process fd length answer => vfsRead t process fd length answer
  | .write process fd length answer => vfsWrite t process fd length answer
  | .lseek process fd whence off => vfsSeek t process fd whence off

def fdStep (call : FdCall) : Except Empty FileTables := .ok (fdCall t call).1

def bootTables (size : Nat → Fin (2 ^ 64)) : FileTables :=
  { slots := [], heap := fun _ => none, nextFile := 0, nextOpening := 0, size := fun node => (size node).val, strokes := [] }

end Lyr.Fs
