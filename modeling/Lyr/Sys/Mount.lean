import Lyr.Fs.Namespace
import Lyr.Sched.ProcessTable

set_option autoImplicit false

namespace Lyr.Sys

open Lyr.Lib Lyr.Fs Lyr.Sched

def vfsRootCred : VfsCred := ⟨⟨0, 0⟩, [], 0o022⟩

-- A status of the VFS, or another, as -ENOMEM or a block device's.
inductive MountError where
  | vfs (error : VfsError)
  | other (status : Int)
  deriving DecidableEq, Repr

def enomem : Int := -12

def MountError.status : MountError → Int
  | .other status => status
  | .vfs .eperm => -1
  | .vfs (.fs .enoent) => -2
  | .vfs .eacces => -13
  | .vfs .nullNode => -14
  | .vfs (.fs .eexist) => -17
  | .vfs (.fs .exdev) => -18
  | .vfs (.fs .enotdir) => -20
  | .vfs (.fs .eisdir) => -21
  | .vfs (.fs .einval) => -22
  | .vfs (.fs .enametoolong) => -36
  | .vfs (.fs .enosys) => -38
  | .vfs (.fs .enotempty) => -39

-- The status of each change, the file systems after one, the roots of tmpfs, procfs and of ext2 volumes, where a volume without a
-- place goes, and whether there is memory for a vfs_mount_t.
structure MountAnswers where
  fs : FsCalls
  files : VfsTree
  devfsRoot : Option Nat
  freshRoot : Option Nat
  volume : Path → Except MountError Nat
  volumePath : Path
  memory : Bool

def VfsTree.withFiles (t files : VfsTree) : VfsTree := { files with root := t.root, mounts := t.mounts }

def vfsMkdir (answers : MountAnswers) (t : VfsTree) (path : Path) (mode : Nat) (cred : VfsCred) : VfsTree × Except MountError Unit :=
  if path.head? ≠ some slash then (t, .error (.vfs (.fs .einval)))
  else match (vfsMkdirAt t answers.fs none path mode cred).result with
    | .error e => (t, .error (.vfs e))
    | .ok _ => (VfsTree.withFiles t answers.files, .ok ())

-- For vfs_chroot, vfs_change_root and vfs_mount.
def directoryAt (t : VfsTree) (path : Path) (cred : VfsCred) : Except VfsError Nat := match (vfsResolve t path cred).result with
  | .error e => .error e
  | .ok none => .error .nullNode
  | .ok (some node) => if t.isDir node then .ok node else .error (.fs .enotdir)

def vfsChroot (t : VfsTree) (path : Path) (cred : VfsCred) : Except VfsError VfsTree :=
  (directoryAt t path cred).map (fun node => { t with root := some node })

def vfsChangeRoot (t : VfsTree) (path : Path) (cred : VfsCred) : Except VfsError VfsTree :=
  (directoryAt t path cred).map (fun node => { t with root := some node, mounts := [] })

def vfsMount (answers : MountAnswers) (t : VfsTree) (path : Path) (root : Nat) (cred : VfsCred) : VfsTree × Except MountError Unit :=
  match directoryAt t path cred with
  | .error e => (t, .error (.vfs e))
  | .ok covered =>
    if !t.isDir root then (t, .error (.vfs (.fs .enotdir)))
    else if t.mounts.any (fun mount => mount.covered == covered) then (t, .error (.vfs (.fs .eexist)))
    else if !answers.memory then (t, .error (.other enomem))
    else if path.length ≥ PATH_CAP then (t, .error (.vfs (.fs .enametoolong)))
    else ({ t with mounts := ⟨covered, root, path⟩ :: t.mounts }, .ok ())

def ensureMountpoint (answers : MountAnswers) (t : VfsTree) (target : Path) : VfsTree × Except MountError Unit :=
  match directoryAt t target vfsRootCred with
  | .ok _ => (t, .ok ())
  | .error (.fs .enoent) => vfsMkdir answers t target 0o755 vfsRootCred
  | .error e => (t, .error (.vfs e))

inductive FsType where
  | devfs
  | tmpfs
  | procfs
  | ext2
  deriving DecidableEq, Repr

def devfsName : Name := [100, 101, 118, 102, 115]

-- "devfs", "tmpfs", "procfs" or "proc", and "ext2".
def fsTypes : List (Name × FsType) :=
  [(devfsName, .devfs), ([116, 109, 112, 102, 115], .tmpfs), ([112, 114, 111, 99, 102, 115], .procfs),
    ([112, 114, 111, 99], .procfs), ([101, 120, 116, 50], .ext2)]

def fsType (name : Name) : Option FsType := fsTypes.lookup name

def devDir : Path := [47, 100, 101, 118]
def newrootDir : Path := [47, 110, 101, 119, 114, 111, 111, 116]

def blockNameFromSource (source : Path) : Path := if (devDir ++ [slash]).isPrefixOf source then source.drop 5 else source

def EXT2_MOUNT_PATH : Nat := 64

def ext2Mount (answers : MountAnswers) (t : VfsTree) (root : Nat) (target : Path) : VfsTree × Except MountError Unit :=
  if target.length ≥ EXT2_MOUNT_PATH then (t, .error (.vfs (.fs .enametoolong)))
  else
    let path := if target = [] then answers.volumePath else target
    match vfsMkdir answers t path 0o755 vfsRootCred with
    | (t, .ok _) | (t, .error (.vfs (.fs .eexist))) => vfsMount answers t path root vfsRootCred
    | (t, .error e) => (t, .error e)

-- With the credentials of root, whoever calls.
def mountOn (answers : MountAnswers) (t : VfsTree) (target : Path) (root : Option Nat) (missing : MountError) :
    VfsTree × Except MountError Unit :=
  match ensureMountpoint answers t target with
  | (t, .error e) => (t, .error e)
  | (t, .ok _) => match root with
      | none => (t, .error missing)
      | some root => vfsMount answers (VfsTree.withFiles t answers.files) target root vfsRootCred

def fsMountSpec (answers : MountAnswers) (t : VfsTree) (source target : Path) (fstype : Name) : VfsTree × Except MountError Unit :=
  match fsType fstype with
  | none => (t, .error (.vfs (.fs .enosys)))
  | some .devfs => mountOn answers t target answers.devfsRoot (.vfs (.fs .einval))
  | some .tmpfs | some .procfs => mountOn answers t target answers.freshRoot (.other enomem)
  | some .ext2 => match answers.volume (blockNameFromSource source) with
      | .error e => (t, .error e)
      | .ok root => ext2Mount answers t root target

structure SystemState where
  tree : VfsTree
  table : ProcessTable

-- A null node, a panic of sys_change_root after the root has changed, or one of the scheduler.
inductive SystemPanic where
  | nullNode
  | changeRoot
  | sched (panic : SchedPanic)
  deriving DecidableEq, Repr

-- Strings are none where they could not be copied. spawned says that init_spawn loads the new init.
inductive SystemCall where
  | chroot (path : Option Path)
  | mount (arguments : Option (Path × Path × Name)) (answers : MountAnswers)
  | changeRoot (arguments : Option (Path × Name × Path)) (newroot dev : MountAnswers) (spawned : Bool)
  | fork (opened : Bool)
  | setpgid (pid pgid : Int)
  | setsid
  | setuid (uid : Nat)
  | seteuid (uid : Nat)
  | setgid (gid : Nat)
  | setegid (gid : Nat)
  | exit (status : Int)
  | waitpid (pid : Int) (options : Nat)
  | other (files : VfsTree) (change : Process → Process)

variable (s : SystemState)

def sysChroot (cred : VfsCred) : Option Path → Except SystemPanic SystemState
  | none => .ok s
  | some path => match vfsChroot s.tree path cred with
      | .error .nullNode => .error .nullNode
      | .error _ => .ok s
      | .ok tree => .ok { s with tree }

def sysMount (answers : MountAnswers) : Option (Path × Path × Name) → Except SystemPanic SystemState
  | none => .ok s
  | some (source, target, fstype) => match fsMountSpec answers s.tree source target fstype with
      | (_, .error (.vfs .nullNode)) => .error .nullNode
      | (tree, _) => .ok { s with tree }

variable (caller : Process)

def exitCaller (status : Int) : SystemState := { s with table := threadFinishProcess s.table caller status }

-- init_spawn, with the thread of the new process.
def initSpawn (t : ProcessTable) : ProcessTable := processAddThread (schedProcessCreate t true true) t.pool.peek

-- From here on a failure is a panic.
def enterNewRoot (dev : MountAnswers) (spawned : Bool) : Except SystemPanic SystemState :=
  match vfsMkdir dev s.tree devDir 0o755 caller.cred with
  | (tree, .ok _) | (tree, .error (.vfs (.fs .eexist))) =>
    match fsMountSpec dev tree devfsName devDir devfsName with
    | (_, .error _) => .error .changeRoot
    | (tree, .ok _) => if spawned then .ok (exitCaller { tree, table := initSpawn s.table } caller 0) else .error .changeRoot
  | (_, .error _) => .error .changeRoot

def changeRootTo (source : Path) (fstype : Name) (newroot dev : MountAnswers) (spawned : Bool) :
    Except SystemPanic SystemState :=
  match fsMountSpec newroot s.tree source newrootDir fstype with
  | (_, .error (.vfs .nullNode)) => .error .nullNode
  | (tree, .error e) => .ok (exitCaller { s with tree } caller e.status)
  | (tree, .ok _) => match vfsChangeRoot tree newrootDir caller.cred with
      | .error .nullNode => .error .nullNode
      | .error e => .ok (exitCaller { s with tree } caller (MountError.vfs e).status)
      | .ok tree => enterNewRoot { s with tree } caller dev spawned

-- Failures before the root changes end the caller. Why strings were not copied shows in its exit status only.
def sysChangeRoot (newroot dev : MountAnswers) (spawned : Bool) :
    Option (Path × Name × Path) → Except SystemPanic SystemState
  | none => .ok (exitCaller s caller (MountError.vfs .nullNode).status)
  | some (source, fstype, init) =>
    if source = [] ∨ fstype = [] ∨ init = [] then .ok (exitCaller s caller (MountError.vfs (.fs .einval)).status)
    else match vfsMkdir newroot s.tree newrootDir 0o755 caller.cred with
      | (_, .error (.vfs .nullNode)) => .error .nullNode
      | (tree, .ok _) | (tree, .error (.vfs (.fs .eexist))) =>
        changeRootTo { s with tree } caller source fstype newroot dev spawned
      | (tree, .error e) => .ok (exitCaller { s with tree } caller e.status)

def schedOutcome (outcome : Except SchedPanic ProcessTable) : Except SystemPanic SystemState := match outcome with
  | .error panic => .error (.sched panic)
  | .ok table => .ok { s with table }

def setIds (outcome : Except SchedErrno Process) : SystemState := match outcome with
  | .error _ => s
  | .ok process => { s with table := s.table.modify caller.pid (fun _ => process) }

-- The handlers under other reach none of vfs_chroot, vfs_change_root, vfs_mount, sched_process_create and the functions that set ids.
-- They change the file systems and, as kill, chdir, umask, sigaction and thread_create do, other fields of processes.
def systemCall : SystemCall → Except SystemPanic SystemState
  | .chroot path => sysChroot s caller.cred path
  | .mount arguments answers => sysMount s answers arguments
  | .changeRoot arguments newroot dev spawned => sysChangeRoot s caller newroot dev spawned arguments
  | .fork opened => schedOutcome s (sysFork s.table caller opened)
  | .setpgid pid pgid => .ok { s with table := (schedProcessSetpgid s.table caller pid pgid).toOption.getD s.table }
  | .setsid => .ok { s with table := (schedProcessSetsid s.table caller).toOption.getD s.table }
  | .setuid uid => .ok (setIds s caller (schedProcessSetuid caller uid))
  | .seteuid uid => .ok (setIds s caller (schedProcessSeteuid caller uid))
  | .setgid gid => .ok (setIds s caller (schedProcessSetgid caller gid))
  | .setegid gid => .ok (setIds s caller (schedProcessSetegid caller gid))
  | .exit status => .ok (exitCaller s caller status)
  | .waitpid pid options => schedOutcome s ((schedProcessWait s.table caller pid options).map Prod.fst)
  | .other files change => .ok
      { tree := VfsTree.withFiles s.tree files
        table := { s.table with
          list := s.table.list.map (fun process => { change process with pid := process.pid, euid := process.euid }) } }

-- System calls by the pid of their process, and what the kernel does to processes on its own.
inductive SystemEvent where
  | call (pid : Nat) (call : SystemCall)
  | kernel (call : ProcessCall)

def systemStep : SystemEvent → Except SystemPanic SystemState
  | .call pid call => match s.table.find pid with
      | none => .ok s
      | some caller => systemCall s caller call
  | .kernel call => schedOutcome s (processStep s.table call)

end Lyr.Sys
