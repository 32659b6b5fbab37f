import Lyr.Fs.Path

set_option autoImplicit false

namespace Lyr.Fs

open Lyr.Lib

-- The file system's functions that change directories, by their status.
abbrev FsCalls := Change → Except Errno Unit

def apply (fs : FsCalls) (change : Change) : Walk Unit := do
  status (fs change)
  emit (.changed change)

def VFS_O_CREAT : Nat := 0x0100
def VFS_O_EXCL : Nat := 0x0200
def VFS_S_ISVTX : Nat := 0o1000
def LINK_BUF : Nat := 256

def deref (node : Option Nat) : Walk Nat := match node with
  | none => fail .nullNode
  | some id => pure id

def copyName (name : Name) : Walk Name :=
  if name.length = 0 then errno .einval else if name.length > vfsNameMax then errno .enametoolong else pure name

def lastName (path : Path) : Name := (path.reverse.takeWhile (· != slash)).reverse
def dirPart (path : Path) : Path := path.take (path.length - (lastName path).length)

def trimSlashes (path : Path) : Path := match path with
  | [] => []
  | first :: rest => first :: (rest.reverse.dropWhile (· == slash)).reverse

variable (t : VfsTree)

-- Right below the root root_node is taken as it is, without the mount at "/".
def resolveParent (path : Path) (cred : VfsCred) : Walk (Option Nat × Name) :=
  if path.head? ≠ some slash then errno .einval
  else do
    let path := trimSlashes path
    let name ← copyName (lastName path)
    if (dirPart path).length = 1 then pure (t.root, name)
    else do
      let parent ← vfsResolve t (dirPart path) cred
      pure (parent, name)

variable (base : Option Nat)

def resolveParentAt (path : Path) (cred : VfsCred) : Walk (Option Nat × Name) :=
  if path = [] then errno .einval
  else if path.head? = some slash then resolveParent t path cred
  else do
    let path := trimSlashes path
    let name ← copyName (lastName path)
    if dirPart path = [] then
      match base with
      | none => errno .einval
      | some base => if !t.isDir base then errno .enotdir else pure (some base, name)
    else do
      let parent ← vfsResolveAt t base ((dirPart path).dropLast) cred
      pure (parent, name)

def mayChange (cred : VfsCred) (dir : Option Nat) : Walk Unit := outcome (vfsAccess t cred dir (VFS_W_OK + VFS_X_OK))

-- vfs_open

-- Made absolute by the directory of the path.
def linkTarget (path target : Path) : Walk Path :=
  if target.head? = some slash then pure target
  else if (dirPart path).isEmpty then pure target
  else if (dirPart path).length + target.length < PATH_CAP then pure (dirPart path ++ target)
  else errno .enametoolong

def vfsReadlinkNode (node size : Nat) : Walk (List UInt8) :=
  if !vfsSIslnk (t.node node).mode then errno .einval
  else if !t.has node (·.read) then errno .enosys
  else status (t.read node (min (t.node node).size size))

def openLink (path : Path) (cred : VfsCred) (node : Nat) : Walk (Option Nat) := do
  let target ← vfsReadlinkNode t node 255
  let target ← linkTarget path (target.takeWhile (· != 0))
  vfsResolveAt t base target cred

-- A created file is none here.
def openCreate (fs : FsCalls) (base : Option Nat) (path : Path) (mode : Nat) (cred : VfsCred) : Walk (Option Nat) := do
  let (parent, name) ← resolveParentAt t base path cred
  let parent ← deref parent
  if !t.isDir parent then errno .enotdir
  else do
    mayChange t cred (some parent)
    if !t.has parent (·.create) then errno .enosys
    else do
      apply fs (.create parent name (((mode &&& vfsSPerm) &&& (vfsSPerm - (cred.umask &&& vfsSPerm))) ||| vfsSIfreg))
      pure none

def openResolve (path : Path) (cred : VfsCred) : Walk (Except VfsError (Option Nat)) :=
  ⟨(vfsResolveAt t base path cred).events, .ok (vfsResolveAt t base path cred).result⟩

def openFound (path : Path) (cred : VfsCred) (node : Nat) : Walk (Option Nat) :=
  if vfsSIslnk (t.node node).mode then openLink t base path cred node else pure (some node)

def openNode (fs : FsCalls) (base : Option Nat) (path : Path) (flags mode : Nat) (cred : VfsCred) : Walk (Option Nat) := do
  match ← openResolve t base path cred with
  | .error e =>
    if flags &&& VFS_O_CREAT ≠ 0 ∧ e = .fs .enoent then openCreate t fs base path mode cred else fail e
  | .ok node => do
    let node ← deref node
    let found ← openFound t base path cred node
    if flags &&& (VFS_O_CREAT + VFS_O_EXCL) = VFS_O_CREAT + VFS_O_EXCL then errno .eexist else pure found

def vfsOpen (fs : FsCalls) (path : Path) (flags mode : Nat) (cred : VfsCred) : Walk (Option Nat) :=
  if path.head? ≠ some slash then errno .einval else openNode t fs none path flags mode cred

-- mkdir, unlink, rmdir and rename

def vfsMkdirAt (fs : FsCalls) (base : Option Nat) (path : Path) (mode : Nat) (cred : VfsCred) : Walk Unit := do
  let (parent, name) ← resolveParentAt t base path cred
  mayChange t cred parent
  let parent ← deref parent
  if !t.has parent (·.mkdir) then errno .enosys
  else apply fs (.mkdir parent name (vfsSIfdir ||| ((mode &&& vfsSPerm) &&& (vfsSPerm - (cred.umask &&& vfsSPerm)))))

-- Only the owners of directory and entry remove from a sticky directory.
def sticks (cred : VfsCred) (dir : Nat) (victim : Option Nat) : Walk Bool :=
  if (t.node dir).mode &&& VFS_S_ISVTX ≠ 0 ∧ cred.uid ≠ 0 ∧ cred.uid ≠ (t.node dir).uid then do
    let victim ← deref victim
    pure (cred.uid ≠ (t.node victim).uid)
  else pure false

def lookupIn (dir : Nat) (name : Name) : Walk (Option Nat) := do
  emit (.looked dir)
  status (t.lookup dir name)

def unlinkLookup (dir : Nat) (name : Name) : Walk (Option Nat) := if t.has dir (·.lookup) then lookupIn t dir name else pure none

def unlinkVictim (fs : FsCalls) (parent : Nat) (name : Name) (victim : Option Nat) (dir : Bool) : Walk Unit := do
  let victim ← deref victim
  if dir ≠ t.isDir victim then errno (if dir then .enotdir else .eisdir)
  else if dir ∧ t.has parent (·.rmdir) then apply fs (.rmdir parent name)
  else if !dir ∧ t.has parent (·.unlink) then apply fs (.unlink parent name)
  else errno .enosys

def unlinkCommonAt (fs : FsCalls) (base : Option Nat) (path : Path) (cred : VfsCred) (dir : Bool) : Walk Unit := do
  let (parent, name) ← resolveParentAt t base path cred
  mayChange t cred parent
  let parent ← deref parent
  let victim ← unlinkLookup t parent name
  if ← sticks t cred parent victim then fail .eperm
  else unlinkVictim t fs parent name victim dir

def vfsUnlinkAt (fs : FsCalls) (base : Option Nat) (path : Path) (cred : VfsCred) : Walk Unit :=
  unlinkCommonAt t fs base path cred false
def vfsRmdirAt (fs : FsCalls) (base : Option Nat) (path : Path) (cred : VfsCred) : Walk Unit :=
  unlinkCommonAt t fs base path cred true

-- -ENOENT is none.
def renameTarget (dir : Nat) (name : Name) : Walk (Option (Option Nat)) :=
  if !t.has dir (·.lookup) then pure none
  else ⟨[.looked dir], match t.lookup dir name with
    | .error .enoent => .ok none
    | .error e => .error (.fs e)
    | .ok target => .ok (some target)⟩

def renameApply (fs : FsCalls) (cred : VfsCred) (change : Change) (newParent : Nat) (source : Option Nat)
    (target : Option (Option Nat)) :
    Walk Unit := match target with
  | none => apply fs change
  | some target =>
    if target = source then pure ()
    else do
      if ← sticks t cred newParent target then fail .eperm else apply fs change

def renameEntry (fs : FsCalls) (cred : VfsCred) (oldParent : Nat) (oldName : Name) (newParent : Nat) (newName : Name) : Walk Unit :=
  if !t.has oldParent (·.lookup) then errno .enosys
  else do
    let source ← lookupIn t oldParent oldName
    if ← sticks t cred oldParent source then fail .eperm
    else if (t.node oldParent).ops ≠ (t.node newParent).ops then errno .exdev
    else if !t.has oldParent (·.rename) then errno .enosys
    else do
      let target ← renameTarget t newParent newName
      renameApply t fs cred (.rename oldParent oldName newParent newName) newParent source target

def vfsRenameAt (fs : FsCalls) (oldBase : Option Nat) (oldPath : Path) (newBase : Option Nat) (newPath : Path) (cred : VfsCred) :
    Walk Unit :=
  if oldBase = newBase ∧ oldPath = newPath then pure ()
  else do
    let (oldParent, oldName) ← resolveParentAt t oldBase oldPath cred
    let (newParent, newName) ← resolveParentAt t newBase newPath cred
    mayChange t cred oldParent
    mayChange t cred newParent
    let oldParent ← deref oldParent
    let newParent ← deref newParent
    renameEntry t fs cred oldParent oldName newParent newName

-- symlink and link

def resolveFrom (path : Path) (cred : VfsCred) : Walk (Option Nat) := match base with
  | none => vfsResolve t path cred
  | some base => vfsResolveAt t (some base) path cred

-- A path without a slash is one of the root.
def linkPath (path : Path) : Path × Name := (if (dirPart path).length > 1 then (dirPart path).dropLast else [slash], lastName path)

def linkDir (path : Path) (cred : VfsCred) : Walk Nat := do
  let dir ← resolveFrom t base (linkPath path).1 cred
  let dir ← deref dir
  if !t.isDir dir then errno .enotdir else pure dir

def vfsSymlink (fs : FsCalls) (target linkpath : Path) (cred : VfsCred) : Walk Unit :=
  if linkpath.length ≥ LINK_BUF then errno .enametoolong
  else if (linkPath linkpath).2 = [] then errno .einval
  else do
    let dir ← linkDir t none linkpath cred
    if !t.has dir (·.symlink) then errno .enosys else apply fs (.symlink dir target (linkPath linkpath).2)

def linkSource (path : Path) (cred : VfsCred) : Walk Nat := do
  let target ← resolveFrom t base path cred
  let target ← deref target
  if t.isDir target then errno .eisdir else pure target

def vfsLinkAt (fs : FsCalls) (oldBase : Option Nat) (oldPath : Path) (newBase : Option Nat) (newPath : Path) (cred : VfsCred) :
    Walk Unit :=
  if oldPath.length ≥ LINK_BUF ∨ newPath.length ≥ LINK_BUF then errno .enametoolong
  else do
    let target ← linkSource t oldBase oldPath cred
    if (linkPath newPath).2 = [] then errno .einval
    else do
      let dir ← linkDir t newBase newPath cred
      if !t.has dir (·.link) then errno .enosys else apply fs (.link dir (linkPath newPath).2 target)

inductive NamespaceCall where
  | openCreat (path : Path) (flags mode : Nat)
  | mkdirAt (base : Option Nat) (path : Path) (mode : Nat)
  | unlinkAt (base : Option Nat) (path : Path)
  | rmdirAt (base : Option Nat) (path : Path)
  | renameAt (oldBase : Option Nat) (oldPath : Path) (newBase : Option Nat) (newPath : Path)
  | symlink (target linkpath : Path)
  | linkAt (oldBase : Option Nat) (oldPath : Path) (newBase : Option Nat) (newPath : Path)
  deriving DecidableEq, Repr

def namespaceCall (fs : FsCalls) (cred : VfsCred) : NamespaceCall → Walk Unit
  | .openCreat path flags mode => do
    let _ ← vfsOpen t fs path (flags ||| VFS_O_CREAT) mode cred
    pure ()
  | .mkdirAt base path mode => vfsMkdirAt t fs base path mode cred
  | .unlinkAt base path => vfsUnlinkAt t fs base path cred
  | .rmdirAt base path => vfsRmdirAt t fs base path cred
  | .renameAt oldBase oldPath newBase newPath => vfsRenameAt t fs oldBase oldPath newBase newPath cred
  | .symlink target linkpath => vfsSymlink t fs target linkpath cred
  | .linkAt oldBase oldPath newBase newPath => vfsLinkAt t fs oldBase oldPath newBase newPath cred

end Lyr.Fs
