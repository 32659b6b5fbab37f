import Lyr.Fs.Tmpfs
import Lyr.Lib.ByteFile

set_option autoImplicit false

namespace Lyr.Fs

open Lyr.Lib Lyr.Mm

def nameEq (node : TmpfsNode) (name : Name) : Bool := cString node.name = name

def searchChildren (s : Tmpfs) (name : Name) : List Nat → Result (Option Nat)
  | [] => .ok none
  | child :: rest => do
    let node ← s.node child
    if nameEq node name then .ok (some child) else searchChildren s name rest

variable (s : Tmpfs)

def findChild (dir : Nat) (name : Name) : Result (Option Nat) := do
  let node ← s.node dir
  searchChildren s name node.children

-- kzalloc and vfs_node_init.
def newNode (name : Name) (mode uid gid : Nat) : TmpfsNode :=
  { mode, uid, gid, size := 0, nlink := if vfsSIsdir mode then 2 else 1, refs := 1, parent := none, children := [], name,
    pages := none, pageCount := 0, pageCap := 0, doubled := page_cap_zero }

def allocNode (name : Name) (mode uid gid : Nat) : Tmpfs × Nat :=
  ({ s.setNode s.nextNode (newNode name mode uid gid) with nextNode := s.nextNode + 1 }, s.nextNode)

def tmpfsCreateRoot (mode uid gid : Nat) : Tmpfs × Nat :=
  let node := newNode [] (vfsSIfdir ||| (mode &&& vfsSPerm)) uid gid
  ({ s.setNode s.nextNode { node with parent := some s.nextNode } with nextNode := s.nextNode + 1 }, s.nextNode)

def insertChild (dir child : Nat) : Result Tmpfs := do
  let node ← s.node child
  let s := s.setNode child { node with parent := some dir }
  let parent ← s.node dir
  let nlink := if vfsSIsdir node.mode then (parent.nlink + 1) % 2 ^ 32 else parent.nlink
  .ok (s.setNode dir { parent with children := child :: parent.children, nlink })

def unlinkChild (dir child : Nat) : Result Tmpfs := do
  let parent ← s.node dir
  if child ∈ parent.children then do
    let node ← s.node child
    let nlink := if vfsSIsdir node.mode ∧ parent.nlink > 0 then parent.nlink - 1 else parent.nlink
    let s := s.setNode dir { parent with children := parent.children.erase child, nlink }
    let node ← s.node child
    .ok (s.setNode child { node with parent := none })
  else .ok s

def vfsNodeRef (id : Nat) : Result Tmpfs := do
  let node ← s.node id
  .ok (s.setNode id { node with refs := (node.refs + 1) % 2 ^ 32 })

-- _unlink_child, and nlink becomes 0.
def dropName (dir child : Nat) : Result Tmpfs := do
  let s ← unlinkChild s dir child
  let node ← s.node child
  .ok (s.setNode child { node with nlink := 0 })

-- Bounds the nodes a release visits.
def Tmpfs.edges : Nat := ∑ id ∈ Finset.range s.nextNode, ((s.nodes id).elim 0 (fun node => node.children.length))

mutual

def vfsNodeRelease : Nat → Tmpfs → Nat → Result Tmpfs
  | 0, _, _ => .error .outOfFuel
  | fuel + 1, s, id => do
    let node ← s.node id
    if node.refs = 0 then .ok s
    else
      let s := s.setNode id { node with refs := node.refs - 1 }
      if node.refs - 1 = 0 then tmpfsRelease fuel s id else .ok s

-- One turn of the loop over the children, or the end.
def tmpfsRelease : Nat → Tmpfs → Nat → Result Tmpfs
  | 0, _, _ => .error .outOfFuel
  | fuel + 1, s, id => do
    let node ← s.node id
    match node.children with
    | child :: _ => do
      let s ← dropName s id child
      let s ← vfsNodeRelease fuel s child
      tmpfsRelease fuel s id
    | [] => do
      let s ← freePagesFrom s id 0
      let node ← s.node id
      let s ← s.kfree node.pages
      .ok { s with nodes := Function.update s.nodes id none }

end

def release (s : Tmpfs) (id : Nat) : Result Tmpfs := vfsNodeRelease (2 * s.edges + 2) s id

def createChild (s : Tmpfs) (dir : Nat) (name : Name) (mode : Nat) (cred : Cred) : Result (Tmpfs × Except Errno Nat) := do
  let parent ← s.node dir
  if !vfsSIsdir parent.mode then .ok (s, .error .enotdir)
  else if name.length = 0 then .ok (s, .error .einval)
  else if name.length > vfsNameMax then .ok (s, .error .enametoolong)
  else do
    match ← findChild s dir name with
    | some _ => .ok (s, .error .eexist)
    | none => do
      let (s, child) := allocNode s name mode cred.uid cred.gid
      let s ← insertChild s dir child
      let s ← vfsNodeRef s child
      .ok (s, .ok child)

def tmpfsCreate (s : Tmpfs) (dir : Nat) (name : Name) (mode : Nat) (cred : Cred) : Result (Tmpfs × Except Errno Nat) :=
  createChild s dir name (vfsSIfreg ||| (mode &&& vfsSPerm)) cred

def tmpfsMkdir (s : Tmpfs) (dir : Nat) (name : Name) (mode : Nat) (cred : Cred) : Result (Tmpfs × Except Errno Nat) :=
  createChild s dir name (vfsSIfdir ||| (mode &&& vfsSPerm)) cred

-- The parent of a removed directory is NULL.
def tmpfsLookup (s : Tmpfs) (dir : Nat) (name : Name) : Result (Tmpfs × Except Errno (Option Nat)) := do
  let node ← s.node dir
  if !vfsSIsdir node.mode then .ok (s, .error .enotdir)
  else if name = dot then do
    let s ← vfsNodeRef s dir
    .ok (s, .ok (some dir))
  else if name = dotDot then
    match node.parent with
    | none => .ok (s, .ok none)
    | some parent => do
      let s ← vfsNodeRef s parent
      .ok (s, .ok (some parent))
  else do
    match ← findChild s dir name with
    | none => .ok (s, .error .enoent)
    | some child => do
      let s ← vfsNodeRef s child
      .ok (s, .ok (some child))

def tmpfsUnlink (s : Tmpfs) (dir : Nat) (name : Name) : Result (Tmpfs × Except Errno Unit) := do
  match ← findChild s dir name with
  | none => .ok (s, .error .enoent)
  | some child => do
    let node ← s.node child
    if vfsSIsdir node.mode then .ok (s, .error .eisdir)
    else do
      let s ← dropName s dir child
      let s ← release s child
      .ok (s, .ok ())

def tmpfsRmdir (s : Tmpfs) (dir : Nat) (name : Name) : Result (Tmpfs × Except Errno Unit) := do
  match ← findChild s dir name with
  | none => .ok (s, .error .enoent)
  | some child => do
    let node ← s.node child
    if !vfsSIsdir node.mode then .ok (s, .error .enotdir)
    else if node.children ≠ [] then .ok (s, .error .enotempty)
    else do
      let s ← dropName s dir child
      let s ← release s child
      .ok (s, .ok ())

def tmpfsSymlink (s : Tmpfs) (dir : Nat) (target name : Name) (cred : Cred) : Result (Tmpfs × Except Errno Unit) := do
  match ← createChild s dir name (vfsSIflnk ||| 0o777) cred with
  | (s, .error errno) => .ok (s, .error errno)
  | (s, .ok child) => do
    let node ← s.node child
    let s := s.setNode child { node with size := (cString target).length }
    let s ← release s child
    .ok (s, .ok ())

-- A second node that shares the page array.
def linkNode (name : Name) (target : TmpfsNode) : TmpfsNode := { newNode name target.mode target.uid target.gid with
    nlink := 1, pages := target.pages, pageCount := target.pageCount, pageCap := target.pageCap, doubled := target.doubled,
    size := target.size }

def tmpfsLink (s : Tmpfs) (dir : Nat) (name : Name) (target : Nat) : Result (Tmpfs × Except Errno Unit) := do
  match ← findChild s dir name with
  | some _ => .ok (s, .error .eexist)
  | none =>
    if name.length = 0 then .ok (s, .error .einval)
    else if name.length > vfsNameMax then .ok (s, .error .enametoolong)
    else do
      let parent ← s.node dir
      if !vfsSIsdir parent.mode then .ok (s, .error .enotdir)
      else do
        let node ← s.node target
        let child := s.nextNode
        let s := { s.setNode child (linkNode name node) with nextNode := s.nextNode + 1 }
        let s ← insertChild s dir child
        let node ← s.node target
        .ok (s.setNode target { node with nlink := (node.nlink + 1) % 2 ^ 32 }, .ok ())

-- while (root->parent != root) root = root->parent
def rootOf (s : Tmpfs) : Nat → Nat → Result Nat
  | 0, _ => .error .outOfFuel
  | fuel + 1, id => do
    let node ← s.node id
    match node.parent with
    | none => .error .fault
    | some parent => if parent = id then .ok id else rootOf s fuel parent

def isBelow (s : Tmpfs) (child : Nat) : Nat → Nat → Result Bool
  | 0, _ => .error .outOfFuel
  | fuel + 1, id =>
    if id = child then .ok true
    else do
      let node ← s.node id
      match node.parent with
      | none => .ok false
      | some parent => if parent = id then .ok false else isBelow s child fuel parent

-- Only a directory can be moved below itself.
def movesBelowItself (s : Tmpfs) (child newDir : Nat) (node : TmpfsNode) : Result Bool :=
  if vfsSIsdir node.mode then isBelow s child (s.nextNode + 1) newDir else .ok false

def moveChild (s : Tmpfs) (oldDir newDir child : Nat) (name : Name) : Result Tmpfs := do
  let s ← unlinkChild s oldDir child
  let node ← s.node child
  insertChild (s.setNode child { node with name }) newDir child

def replaceTarget (s : Tmpfs) (oldDir newDir child target : Nat) (name : Name) : Result (Tmpfs × Except Errno Unit) := do
  let node ← s.node child
  let other ← s.node target
  if target = child then .ok (s, .ok ())
  else if vfsSIsdir node.mode ≠ vfsSIsdir other.mode then
    .ok (s, .error (if vfsSIsdir node.mode then .enotdir else .eisdir))
  else if vfsSIsdir other.mode ∧ other.children ≠ [] then .ok (s, .error .enotempty)
  else do
    let s ← dropName s newDir target
    let s ← release s target
    let s ← moveChild s oldDir newDir child name
    .ok (s, .ok ())

def renameChild (s : Tmpfs) (oldDir newDir child : Nat) (newName : Name) : Result (Tmpfs × Except Errno Unit) := do
  let node ← s.node child
  if oldDir = newDir ∧ nameEq node newName then .ok (s, .ok ())
  else do
    let below ← movesBelowItself s child newDir node
    if below then .ok (s, .error .einval)
    else do
      match ← findChild s newDir newName with
      | some target => replaceTarget s oldDir newDir child target newName
      | none => do
        let s ← moveChild s oldDir newDir child newName
        .ok (s, .ok ())

def tmpfsRename (s : Tmpfs) (oldDir : Nat) (oldName : Name) (newDir : Nat) (newName : Name) : Result (Tmpfs × Except Errno Unit) := do
  let old ← s.node oldDir
  let new ← s.node newDir
  if !vfsSIsdir old.mode ∨ !vfsSIsdir new.mode then .ok (s, .error .enotdir)
  else if newName.length = 0 then .ok (s, .error .einval)
  else if newName.length > vfsNameMax then .ok (s, .error .enametoolong)
  else do
    let oldRoot ← rootOf s (s.nextNode + 1) oldDir
    let newRoot ← rootOf s (s.nextNode + 1) newDir
    if oldRoot ≠ newRoot then .ok (s, .error .exdev)
    else do
      match ← findChild s oldDir oldName with
      | none => .ok (s, .error .enoent)
      | some child => renameChild s oldDir newDir child newName

end Lyr.Fs
