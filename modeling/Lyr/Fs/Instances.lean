import Lyr.Fs.Namespace

set_option autoImplicit false

namespace Lyr.Fs

open Lyr.Lib Function

inductive FsKind where
  | tmpfs
  | ext2
  | devfs
  deriving DecidableEq, Repr

-- The node a lookup of the name answers, if any, and the instance whose node or inode number was given for the entry.
structure FsEntry where
  name : Name
  node : Option Nat
  origin : Nat
  deriving DecidableEq, Repr

-- kind is that of a node's operation table, inst its instance, parent the pointer of a tmpfs or devfs node.
structure Instances where
  node : Nat → Vnode
  kind : Nat → FsKind
  inst : Nat → Nat
  parent : Nat → Option Nat
  entries : Nat → List FsEntry
  root : Option Nat
  mounts : List Mount
  nextNode : Nat

-- Disk operations of ext2_rename.
inductive RenameIo where
  | source | ancestor | target | empty | targetInode | parentInode | dropTarget | add | drop | undo | dotDot | oldInode | newInode
  deriving DecidableEq, Repr

-- Lookups and operations that fail, where a record goes, what a foreign inode number leads to, and whether there is memory.
structure FsAnswers where
  lookup : Nat → Name → Option Errno
  rename : RenameIo → Option Errno
  link : Option Errno
  slot : Nat
  stranger : Option Nat
  memory : Bool

inductive InstanceError where
  | vfs (error : VfsError)
  | enomem
  deriving DecidableEq, Repr

def refused (e : Errno) : Except InstanceError Unit := .error (.vfs (.fs e))

def FsKind.ops : FsKind → VfsOps
  | .tmpfs => ⟨true, true, true, true, true, true, true, true, true⟩
  | .ext2 => ⟨true, true, true, true, true, true, true, true, true⟩
  | .devfs => ⟨true, false, true, true, true, false, false, false, true⟩

def FsKind.number : FsKind → Nat
  | .tmpfs => 0
  | .ext2 => 1
  | .devfs => 2

def kindOfOps (ops : Nat) : FsKind := if ops = 0 then .tmpfs else if ops = 1 then .ext2 else .devfs

def findEntry (entries : List FsEntry) (name : Name) : Option FsEntry := entries.find? (fun entry => entry.name == name)

def entryNode (entry : Option FsEntry) : Except Errno (Option Nat) := match entry with
  | none => .error .enoent
  | some entry => match entry.node with
      | none => .error .einval
      | some node => .ok (some node)

variable (w : Instances)

-- tmpfs_lookup, devfs_lookup and ext2_lookup, which reads ".." from the disk.
def fsLookup (answers : FsAnswers) (dir : Nat) (name : Name) : Except Errno (Option Nat) :=
  if !vfsSIsdir (w.node dir).mode then .error .enotdir
  else if name = dot then .ok (some dir)
  else match w.kind dir with
    | .ext2 => match answers.lookup dir name with
        | some e => .error e
        | none => entryNode (findEntry (w.entries dir) name)
    | _ => if name = dotDot then .ok (w.parent dir) else entryNode (findEntry (w.entries dir) name)

def Instances.tree (answers : FsAnswers) : VfsTree where
  node := fun n => { w.node n with ops := some (w.kind n).number }
  ops := fun ops => (kindOfOps ops).ops
  lookup := fsLookup w answers
  read := fun _ _ => .error .enosys
  root := w.root
  mounts := w.mounts

-- A removed directory has no parent pointer. The fuel is the number of nodes.
def tmpfsRootOf (w : Instances) : Nat → Nat → Option Nat
  | 0, _ => none
  | fuel + 1, node => match w.parent node with
      | none => none
      | some parent => if parent = node then some node else tmpfsRootOf w fuel parent

def tmpfsInside (w : Instances) (child : Nat) : Nat → Nat → Bool
  | 0, _ => false
  | fuel + 1, node => node == child || match w.parent node with
      | none => false
      | some parent => if parent = node then false else tmpfsInside w child fuel parent

def Instances.setEntries (dir : Nat) (entries : List FsEntry) : Instances := { w with entries := update w.entries dir entries }

-- _unlink_child
def tmpfsDrop (dir : Nat) (entry : FsEntry) : Instances := { w.setEntries dir ((w.entries dir).erase entry) with
    parent := match entry.node with
      | none => w.parent
      | some node => update w.parent node none }

-- _insert_child.
def tmpfsInsert (dir : Nat) (entry : FsEntry) : Instances := { w.setEntries dir (entry :: w.entries dir) with
    parent := match entry.node with
      | none => w.parent
      | some node => update w.parent node (some dir) }

def entryIsDir (entry : FsEntry) : Bool := entry.node.any (fun node => vfsSIsdir (w.node node).mode)

def tmpfsMove (oldDir : Nat) (child : FsEntry) (newDir : Nat) (newName : Name) : Instances :=
  tmpfsInsert (tmpfsDrop w oldDir child) newDir { child with name := newName }

-- A null pointer stops the machine; the state is kept.
def Instances.tmpfsRename (oldDir : Nat) (oldName : Name) (newDir : Nat) (newName : Name) : Instances × Except InstanceError Unit :=
  if !vfsSIsdir (w.node oldDir).mode || !vfsSIsdir (w.node newDir).mode then (w, refused .enotdir)
  else if newName.length = 0 then (w, refused .einval)
  else if newName.length > vfsNameMax then (w, refused .enametoolong)
  else match tmpfsRootOf w w.nextNode oldDir, tmpfsRootOf w w.nextNode newDir with
    | some oldRoot, some newRoot =>
      if oldRoot ≠ newRoot then (w, refused .exdev)
      else match findEntry (w.entries oldDir) oldName with
        | none => (w, refused .enoent)
        | some child =>
          if oldDir = newDir ∧ child.name = newName then (w, .ok ())
          else if entryIsDir w child && child.node.any (fun node => tmpfsInside w node w.nextNode newDir) then (w, refused .einval)
          else match findEntry (w.entries newDir) newName with
            | none => (tmpfsMove w oldDir child newDir newName, .ok ())
            | some target =>
              if target.node = child.node then (w, .ok ())
              else if entryIsDir w child ≠ entryIsDir w target then (w, refused (if entryIsDir w child then .enotdir else .eisdir))
              else if entryIsDir w target && target.node.any (fun node => !(w.entries node).isEmpty) then (w, refused .enotempty)
              else (tmpfsMove (tmpfsDrop w newDir target) oldDir child newDir newName, .ok ())
    | _, _ => (w, .error (.vfs .nullNode))

-- Nothing tells whose pages the target has.
def Instances.tmpfsLink (answers : FsAnswers) (dir : Nat) (name : Name) (target : Nat) : Instances × Except InstanceError Unit :=
  if (findEntry (w.entries dir) name).isSome then (w, refused .eexist)
  else if name.length = 0 then (w, refused .einval)
  else if name.length > vfsNameMax then (w, refused .enametoolong)
  else if !vfsSIsdir (w.node dir).mode then (w, refused .enotdir)
  else if !answers.memory then (w, .error .enomem)
  else
    let made := { w with
      node := update w.node w.nextNode (w.node target)
      kind := update w.kind w.nextNode .tmpfs
      inst := update w.inst w.nextNode (w.inst dir)
      nextNode := w.nextNode + 1 }
    (tmpfsInsert made dir ⟨name, some w.nextNode, w.inst target⟩, .ok ())

-- add_dirent and remove_dirent
def addRecord (answers : FsAnswers) (dir : Nat) (entry : FsEntry) : Instances :=
  w.setEntries dir ((w.entries dir).insertIdx (min answers.slot (w.entries dir).length) entry)

def dropRecord (dir : Nat) (name : Name) : Instances := w.setEntries dir ((w.entries dir).eraseP (fun entry => entry.name == name))

-- replace_dirent_ino of "..".
def setDotDot (dir newDir : Nat) : Instances :=
  w.setEntries dir ((w.entries dir).map (fun entry => if entry.name = dotDot then ⟨dotDot, some newDir, w.inst newDir⟩ else entry))

-- ext2_rename after the target is gone: the new record, the old one, and "..".
def ext2Finish (answers : FsAnswers) (oldDir : Nat) (oldName : Name) (newDir : Nat) (newName : Name) (source : FsEntry) :
    Instances × Except InstanceError Unit :=
  match answers.rename .add with
  | some e => (w, refused e)
  | none =>
    let added := addRecord w answers newDir { source with name := newName }
    match answers.rename .drop with
    | some e => (if answers.rename .undo = none then dropRecord added newDir newName else added, refused e)
    | none =>
      let moved := dropRecord added oldDir oldName
      if entryIsDir w source && oldDir != newDir then
        match answers.rename .dotDot, source.node with
        | none, some node =>
          let settled := setDotDot moved node newDir
          match answers.rename .oldInode, answers.rename .newInode with
          | none, none => (settled, .ok ())
          | some e, _ => (settled, refused e)
          | none, some e => (settled, refused e)
        | some e, _ => (moved, refused e)
        | none, none => (moved, .ok ())
      else (moved, .ok ())

-- Its inode is written and its record removed.
def ext2Replace (answers : FsAnswers) (oldDir : Nat) (oldName : Name) (newDir : Nat) (newName : Name) (source target : FsEntry) :
    Instances × Except InstanceError Unit :=
  if target.node = source.node then (w, .ok ())
  else if entryIsDir w source ≠ entryIsDir w target then (w, refused (if entryIsDir w source then .enotdir else .eisdir))
  else match (if entryIsDir w target then answers.rename .empty else none) with
    | some e => (w, refused e)
    | none =>
      if entryIsDir w target && target.node.any (fun node => (w.entries node).any
        (fun entry => entry.name != dot && entry.name != dotDot)) then
        (w, refused .enotempty)
      else match answers.rename .targetInode, (if entryIsDir w target && newDir != oldDir then answers.rename .parentInode else none),
          answers.rename .dropTarget with
        | none, none, none => ext2Finish (dropRecord w newDir newName) answers oldDir oldName newDir newName source
        | some e, _, _ => (w, refused e)
        | none, some e, _ => (w, refused e)
        | none, none, some e => (w, refused e)

def Instances.ext2Rename (answers : FsAnswers) (oldDir : Nat) (oldName : Name) (newDir : Nat) (newName : Name) :
    Instances × Except InstanceError Unit :=
  if !vfsSIsdir (w.node oldDir).mode || !vfsSIsdir (w.node newDir).mode then (w, refused .enotdir)
  else if oldName.length = 0 ∨ oldName.length > vfsNameMax ∨ newName.length = 0 ∨ newName.length > vfsNameMax then
    (w, refused .enametoolong)
  else if oldName = dot ∨ oldName = dotDot ∨ newName = dot ∨ newName = dotDot then (w, refused .einval)
  else if w.inst oldDir ≠ w.inst newDir then (w, refused .exdev)
  else match answers.rename .source, findEntry (w.entries oldDir) oldName with
    | some e, _ => (w, refused e)
    | none, none => (w, refused .enoent)
    | none, some source =>
      if oldDir = newDir ∧ oldName = newName then (w, .ok ())
      else match answers.rename .ancestor with
        | some e => (w, refused e)
        | none => match answers.rename .target, findEntry (w.entries newDir) newName with
            | some e, _ => (w, refused e)
            | none, none => ext2Finish w answers oldDir oldName newDir newName source
            | none, some target => ext2Replace w answers oldDir oldName newDir newName source target

-- Whatever instance the inode is of; a name that exists is not refused.
def Instances.ext2Link (answers : FsAnswers) (dir : Nat) (name : Name) (target : Nat) : Instances × Except InstanceError Unit :=
  if !vfsSIsdir (w.node dir).mode then (w, refused .enotdir)
  else match answers.link with
    | some e => (w, refused e)
    | none =>
      let node := if w.inst target = w.inst dir then some target else answers.stranger.filter
        (fun node => w.inst node == w.inst dir && node < w.nextNode)
      (addRecord w answers dir ⟨name, node, w.inst target⟩, .ok ())

-- devfs has neither function.
def applyChange (answers : FsAnswers) : Change → Instances × Except InstanceError Unit
  | .rename oldDir oldName newDir newName => match w.kind oldDir with
      | .tmpfs => w.tmpfsRename oldDir oldName newDir newName
      | .ext2 => w.ext2Rename answers oldDir oldName newDir newName
      | .devfs => (w, refused .enosys)
  | .link dir name target => match w.kind dir with
      | .tmpfs => w.tmpfsLink answers dir name target
      | .ext2 => w.ext2Link answers dir name target
      | .devfs => (w, refused .enosys)
  | _ => (w, refused .enosys)

inductive InstanceCall where
  | rename (oldBase : Option Nat) (oldPath : Path) (newBase : Option Nat) (newPath : Path) (cred : VfsCred) (answers : FsAnswers)
  | link (oldBase : Option Nat) (oldPath : Path) (newBase : Option Nat) (newPath : Path) (cred : VfsCred) (answers : FsAnswers)

def InstanceCall.answers : InstanceCall → FsAnswers
  | .rename _ _ _ _ _ answers => answers
  | .link _ _ _ _ _ answers => answers

def InstanceCall.bases : InstanceCall → List (Option Nat)
  | .rename oldBase _ newBase _ _ _ => [oldBase, newBase]
  | .link oldBase _ newBase _ _ _ => [oldBase, newBase]

-- The change is the last thing a call does.
def InstanceCall.walk : InstanceCall → Walk Unit
  | .rename oldBase oldPath newBase newPath cred answers =>
    vfsRenameAt (w.tree answers) (fun _ => .ok ()) oldBase oldPath newBase newPath cred
  | .link oldBase oldPath newBase newPath cred answers =>
    vfsLinkAt (w.tree answers) (fun _ => .ok ()) oldBase oldPath newBase newPath cred

def VfsEvent.change? : VfsEvent → Option Change
  | .changed change => some change
  | .looked _ => none

def instanceAct (call : InstanceCall) : Instances × Except InstanceError Unit :=
  if ∃ base ∈ call.bases, ∃ node ∈ base, w.nextNode ≤ node then (w, .error (.vfs .nullNode))
  else match (call.walk w).result, (call.walk w).events.findSome? VfsEvent.change? with
    | .ok _, some change => applyChange w call.answers change
    | .ok _, none => (w, .ok ())
    | .error e, _ => (w, .error (.vfs e))

def instanceStep (call : InstanceCall) : Except Empty Instances := .ok (instanceAct w call).1

end Lyr.Fs
