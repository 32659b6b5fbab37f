import Lyr.Fs.Vfs
import Lyr.Lib.Trace

set_option autoImplicit false

namespace Lyr.Fs

open Lyr.Lib

-- The bytes of a C string.
abbrev Path := List UInt8

def slash : UInt8 := 47

structure VfsCred extends Cred where
  groups : List Nat
  umask : Nat
  deriving DecidableEq, Repr

-- nullNode is the access through a null node pointer.
inductive VfsError where
  | fs (errno : Errno)
  | eacces
  | eperm
  | nullNode
  deriving DecidableEq, Repr

structure Vnode where
  mode : Nat
  uid : Nat
  gid : Nat
  size : Nat
  ops : Option Nat
  deriving DecidableEq, Repr

structure VfsOps where
  lookup : Bool
  create : Bool
  mkdir : Bool
  unlink : Bool
  rmdir : Bool
  symlink : Bool
  link : Bool
  rename : Bool
  read : Bool
  deriving DecidableEq, Repr

structure Mount where
  covered : Nat
  root : Nat
  path : Path
  deriving DecidableEq, Repr

-- lookup and read are what the file systems answer, a lookup possibly with a null node; mounts is the list from its head on.
structure VfsTree where
  node : Nat → Vnode
  ops : Nat → VfsOps
  lookup : Nat → Name → Except Errno (Option Nat)
  read : Nat → Nat → Except Errno (List UInt8)
  root : Option Nat
  mounts : List Mount

variable (t : VfsTree)

def VfsTree.has (node : Nat) (op : VfsOps → Bool) : Bool := (t.node node).ops.any (fun ops => op (t.ops ops))

def VfsTree.isDir (node : Nat) : Bool := vfsSIsdir (t.node node).mode

inductive Change where
  | create (dir : Nat) (name : Name) (mode : Nat)
  | mkdir (dir : Nat) (name : Name) (mode : Nat)
  | unlink (dir : Nat) (name : Name)
  | rmdir (dir : Nat) (name : Name)
  | rename (oldDir : Nat) (oldName : Name) (newDir : Nat) (newName : Name)
  | symlink (dir : Nat) (target : Path) (name : Name)
  | link (dir : Nat) (name : Name) (target : Nat)
  deriving DecidableEq, Repr

-- A lookup in a directory, or a change of entries.
inductive VfsEvent where
  | looked (dir : Nat)
  | changed (change : Change)
  deriving DecidableEq, Repr

abbrev Walk (α : Type) := Traced VfsEvent VfsError α

def errno {α : Type} (e : Errno) : Walk α := fail (.fs e)

def status {α : Type} : Except Errno α → Walk α
  | .error e => errno e
  | .ok value => pure value

def VFS_R_OK : Nat := 4
def VFS_W_OK : Nat := 2
def VFS_X_OK : Nat := 1
def VFS_SUPP_GROUP_MAX : Nat := 8
def PATH_CAP : Nat := 512

def isGroupMember (cred : VfsCred) (gid : Nat) : Bool := cred.gid == gid || (cred.groups.take VFS_SUPP_GROUP_MAX).contains gid

def accessBits (node : Vnode) (cred : VfsCred) : Nat :=
  if cred.uid = node.uid then node.mode / 64 % 8
  else if isGroupMember cred node.gid then node.mode / 8 % 8
  else node.mode % 8

def vfsAccess (cred : VfsCred) (node : Option Nat) (mask : Nat) : Except VfsError Unit := match node with
  | none => .error (.fs .enoent)
  | some id =>
    let node := t.node id
    if mask ≥ 8 then .error (.fs .einval)
    else if cred.uid = 0 then
      if mask &&& VFS_X_OK ≠ 0 ∧ ¬ (vfsSIsdir node.mode ∨ node.mode &&& 0o111 ≠ 0) then .error .eacces else .ok ()
    else if mask &&& VFS_R_OK ≠ 0 ∧ accessBits node cred &&& 4 = 0 then .error .eacces
    else if mask &&& VFS_W_OK ≠ 0 ∧ accessBits node cred &&& 2 = 0 then .error .eacces
    else if mask &&& VFS_X_OK ≠ 0 ∧ accessBits node cred &&& 1 = 0 then .error .eacces
    else .ok ()

def mountedRoot (node : Option Nat) (path : Path) : Option Nat :=
  match t.mounts.find? (fun mount => mount.path == path) with
  | some mount => some mount.root
  | none => (t.mounts.find? (fun mount => some mount.covered == node)).map (·.root)

def followMountAt (node : Option Nat) (path : Path) : Option Nat := match mountedRoot t node path with
  | none => node
  | some mounted => some mounted

-- cur_path never is empty.
def joined (path : Path) (name : Name) : Path := if path = [slash] then path ++ name else path ++ slash :: name

def appendComponent (path : Path) (name : Name) : Except VfsError Path :=
  if (joined path name).length ≥ PATH_CAP then .error (.fs .enametoolong) else .ok (joined path name)

def components (path : Path) : List Name := (path.splitOnP (· == slash)).filter (fun name => !name.isEmpty)

-- A turn of the loop of vfs_resolve_at up to the lookup, and the whole turn.
def walkLookup (cred : VfsCred) (cur : Option Nat) (name : Name) : Walk (Option Nat) := match cur with
  | none => fail .nullNode
  | some cur =>
    if !t.isDir cur then errno .enotdir
    else do
      outcome (vfsAccess t cred (some cur) VFS_X_OK)
      if !t.has cur (·.lookup) then errno .enotdir
      else do
        emit (.looked cur)
        status (t.lookup cur name)

def walkTurn (cred : VfsCred) (cur : Option Nat) (path : Path) (name : Name) : Walk (Option Nat × Path) := do
  let next ← walkLookup t cred cur name
  let path ← outcome (appendComponent path name)
  pure (followMountAt t next path, path)

def walkPath (t : VfsTree) (cred : VfsCred) : Option Nat → Path → List Name → Walk (Option Nat × Path)
  | cur, path, [] => pure (cur, path)
  | cur, path, name :: rest => do
    let next ← walkTurn t cred cur path name
    walkPath t cred next.1 next.2 rest

def vfsResolveAt (base : Option Nat) (path : Path) (cred : VfsCred) : Walk (Option Nat) :=
  if t.root = none ∨ path = [] then errno .einval
  else match (if path.head? = some slash then none else base) with
    | none => do
      let found ← walkPath t cred (followMountAt t t.root [slash]) [slash] (components path)
      pure found.1
    | some base =>
      if !t.isDir base then errno .enotdir
      else do
        let found ← walkPath t cred (followMountAt t (some base) [slash]) [slash] (components path)
        pure found.1

def vfsResolve (path : Path) (cred : VfsCred) : Walk (Option Nat) :=
  if path.head? ≠ some slash then errno .einval else vfsResolveAt t none path cred

end Lyr.Fs
