import Lyr.Fs.Vfs
import Lyr.Mm.Frames

set_option autoImplicit false

namespace Lyr.Fs

open Lyr.Lib Lyr.Mm Function

-- A page array starts with 4 entries and doubles.
def PageCap (cap : Nat) : Prop := cap = 0 ∨ ∃ k, cap = 4 * 2 ^ k

theorem page_cap_zero : PageCap 0 := .inl rfl

-- tmpfs_node_t with its vnode. Children in the order of their next pointers; pages is the address of the page array.
structure TmpfsNode where
  mode : Nat
  uid : Nat
  gid : Nat
  size : Nat
  nlink : Nat
  refs : Nat
  parent : Option Nat
  children : List Nat
  name : Name
  pages : Option Nat
  pageCount : Nat
  pageCap : Nat
  doubled : PageCap pageCap

abbrev PageArray := Nat → Option Nat

-- Nodes and page arrays by address.
structure Tmpfs where
  machine : Machine
  nodes : Nat → Option TmpfsNode
  arrays : Nat → Option PageArray
  nextNode : Nat
  nextArray : Nat

-- A NULL or dangling pointer faults.
def Tmpfs.node (s : Tmpfs) (id : Nat) : Result TmpfsNode :=
  match s.nodes id with
  | none => .error .fault
  | some node => .ok node

variable (s : Tmpfs)

def Tmpfs.setNode (id : Nat) (node : TmpfsNode) : Tmpfs := { s with nodes := update s.nodes id (some node) }

def Tmpfs.array (pages : Option Nat) : Result PageArray :=
  match pages.bind s.arrays with
  | none => .error .fault
  | some entries => .ok entries

def Tmpfs.setArray (a : Nat) (entries : PageArray) : Tmpfs := { s with arrays := update s.arrays a (some entries) }

def Tmpfs.kfree (pages : Option Nat) : Result Tmpfs :=
  match pages with
  | none => .ok s
  | some a => match s.arrays a with
      | none => .error .fault
      | some _ => .ok { s with arrays := update s.arrays a none }

-- while (new_cap < count) new_cap *= 2. Counts below 2^53 need no more than 64 doublings.
def doubleUntil (count : Nat) : Nat → Nat → Nat
  | 0, cap => cap
  | fuel + 1, cap => if cap < count then doubleUntil count fuel (cap * 2) else cap

def grownCap (node : TmpfsNode) (count : Nat) : Nat := doubleUntil count 64 (if node.pageCap = 0 then 4 else node.pageCap)

theorem double_until_doubled (count fuel k : Nat) : PageCap (doubleUntil count fuel (4 * 2 ^ k)) := by
  induction fuel generalizing k with
  | zero => exact .inr ⟨k, rfl⟩
  | succ fuel ih =>
    rw [doubleUntil]
    split
    · rw [Nat.mul_assoc, ← Nat.pow_succ]
      exact ih (k + 1)
    · exact .inr ⟨k, rfl⟩

theorem grown_cap_doubled (node : TmpfsNode) (count : Nat) : PageCap (grownCap node count) := by
  rw [grownCap]
  obtain none | ⟨k, some⟩ := node.doubled
  · rw [if_pos none]
    exact double_until_doubled count 64 0
  · rw [if_neg (by rw [some]; exact Nat.mul_ne_zero (by decide) (Nat.two_pow_pos k).ne'), some]
    exact double_until_doubled count 64 k

def NUM_CACHES : Nat := 9

def cacheIdx (size : Nat) : Nat := ((List.range NUM_CACHES).find? (fun i => size ≤ 8 * 2 ^ i)).getD NUM_CACHES

-- Whether krealloc answers with the old block. heap.c compares caches, one for all sizes above the largest; by its contract it moves.
abbrev InPlace := Nat → Nat → Bool

def heapInPlace : InPlace := fun old new => cacheIdx new = cacheIdx old

def contractInPlace : InPlace := fun _ _ => false

variable (inPlace : InPlace)

-- memset clears the new entries, in the old block past its end.
def kreallocPages (pages : Option Nat) (cap newCap : Nat) : Result (Tmpfs × Nat) :=
  match pages with
  | none => .ok ({ s.setArray s.nextArray (fun _ => none) with nextArray := s.nextArray + 1 }, s.nextArray)
  | some a => if inPlace (8 * cap) (8 * newCap) then .error .fault else do
    let old ← s.array (some a)
    let s ← s.kfree (some a)
    .ok ({ s.setArray s.nextArray (fun i => if i < cap then old i else none) with nextArray := s.nextArray + 1 }, s.nextArray)

def ensurePages (id count : Nat) : Result Tmpfs := do
  let node ← s.node id
  if count ≤ node.pageCap then .ok s
  else do
    let (s, pages) ← kreallocPages s inPlace node.pages node.pageCap (grownCap node count)
    .ok (s.setNode id { node with pages := some pages, pageCap := grownCap node count, doubled := grown_cap_doubled node count })

-- An entry that is NULL gets a page of zeros.
def fillEntry (pages : Option Nat) (index : Nat) : Result (Tmpfs × Nat) := do
  let entries ← s.array pages
  match entries index with
  | some page => .ok (s, page)
  | none => do
    let (machine, page) ← pallocPage s.machine
    let s := { s with machine := { machine with mem := scrub machine.mem page } }
    .ok (s.setArray (pages.getD 0) (update entries index (some page)), page)

def ensurePage (id index : Nat) : Result (Tmpfs × Nat) := do
  let s ← ensurePages s inPlace id (index + 1)
  let node ← s.node id
  let (s, page) ← fillEntry s node.pages index
  .ok (s.setNode id { node with pageCount := max node.pageCount (index + 1) }, page)

def freeEntry (a index : Nat) : Result Tmpfs := do
  let entries ← s.array (some a)
  match entries index with
  | none => .ok s
  | some page => do
    let machine ← pageUnref s.machine page
    .ok ({ s with machine }.setArray a (update entries index none))

def freePagesFrom (id first : Nat) : Result Tmpfs := do
  let node ← s.node id
  match node.pages with
  | none => .ok s
  | some a => do
    let s ← (List.range (node.pageCount - first)).foldlM (fun s i => freeEntry s a (first + i)) s
    .ok (s.setNode id { node with pageCount := min node.pageCount first })

-- A page that was never written reads as zeros.
def readPage (node : TmpfsNode) (index offset length : Nat) : Result (List UInt8) :=
  if index < node.pageCount then do
    let entries ← s.array node.pages
    match entries index with
    | some page => .ok (loadBytes s.machine.mem (4096 * page + offset) length)
    | none => .ok (List.replicate length 0)
  else .ok (List.replicate length 0)

def readLoop (s : Tmpfs) (node : TmpfsNode) : Nat → Nat → Nat → Result (List UInt8)
  | 0, _, _ => .ok []
  | fuel + 1, pos, todo =>
    if todo = 0 then .ok []
    else do
      let n := chunk 4096 pos todo
      let here ← readPage s node (pos / 4096) (pos % 4096) n
      let rest ← readLoop s node fuel ((pos + n) % 2 ^ 64) (todo - n)
      .ok (here ++ rest)

def tmpfsRead (id off len : Nat) : Result (Except Errno (List UInt8)) := do
  let node ← s.node id
  if !vfsSIsreg node.mode then .ok (.error .eisdir)
  else if off ≥ node.size ∨ len = 0 then .ok (.ok [])
  else do
    let todo := min len (node.size - off)
    let bytes ← readLoop s node todo off todo
    .ok (.ok bytes)

def writeLoop (inPlace : InPlace) (s : Tmpfs) (id : Nat) : Nat → Nat → List UInt8 → Result Tmpfs
  | 0, _, _ => .ok s
  | fuel + 1, pos, data =>
    if data = [] then .ok s
    else do
      let n := chunk 4096 pos data.length
      let (s, page) ← ensurePage s inPlace id (pos / 4096)
      let s := { s with machine := { s.machine with mem := storeBytes s.machine.mem (4096 * page + pos % 4096) (data.take n) } }
      writeLoop inPlace s id fuel ((pos + n) % 2 ^ 64) (data.drop n)

def tmpfsWrite (id off : Nat) (data : List UInt8) : Result (Tmpfs × Except Errno Nat) := do
  let node ← s.node id
  if !vfsSIsreg node.mode then .ok (s, .error .eisdir)
  else do
    let s ← writeLoop inPlace s id data.length off data
    let node ← s.node id
    let finish := (off + data.length) % 2 ^ 64
    .ok (s.setNode id { node with size := max node.size finish }, .ok data.length)

-- memset of the last page from the new size on.
def clearTail (id size keepPages : Nat) : Result Tmpfs := do
  let node ← s.node id
  if size % 4096 ≠ 0 ∧ keepPages > 0 ∧ keepPages - 1 < node.pageCount then do
    let entries ← s.array node.pages
    match entries (keepPages - 1) with
    | none => .ok s
    | some page =>
      let mem := fill s.machine.mem (4096 * page + size % 4096) (4096 - size % 4096) 0
      .ok { s with machine := { s.machine with mem } }
  else .ok s

def dropPages (id keepPages : Nat) (node : TmpfsNode) : Result Tmpfs :=
  if keepPages < node.pageCount then freePagesFrom s id keepPages else .ok s

def addLastPage (id size keepPages : Nat) (node : TmpfsNode) : Result Tmpfs :=
  if size > node.size ∧ keepPages > 0 then (ensurePage s inPlace id (keepPages - 1)).map Prod.fst else .ok s

def tmpfsTruncate (id size : Nat) : Result (Tmpfs × Except Errno Unit) := do
  let node ← s.node id
  if !vfsSIsreg node.mode then .ok (s, .error .eisdir)
  else do
    let keepPages := (size + 4095) % 2 ^ 64 / 4096
    let s ← dropPages s id keepPages node
    let s ← addLastPage s inPlace id size keepPages node
    let node ← s.node id
    let s ← clearTail (s.setNode id { node with size }) id size keepPages
    .ok (s, .ok ())

end Lyr.Fs
