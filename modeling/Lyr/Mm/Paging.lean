import Lyr.Mm.FrameCounts

set_option autoImplicit false

namespace Lyr.Mm

open Lyr.Lib

def vmmPresent : Nat := 0x1
def vmmWritable : Nat := 0x2
def vmmUser : Nat := 0x4
def vmmHuge : Nat := 0x80

-- VMM_PRESENT | VMM_WRITABLE | VMM_PCD | VMM_PWT | VMM_NX
def vmmFlagsMmio : Nat := 0x800000000000001B

def pageFrameMask : Nat := 0x000FFFFFFFFFF000

-- ~PAGE_FRAME_MASK on 64 bits
def pageFlagsMask : Nat := 0xFFF0000000000FFF

def pml1Idx (v : Nat) : Nat := (v >>> 12) &&& 0x1ff
def pml2Idx (v : Nat) : Nat := (v >>> 21) &&& 0x1ff
def pml3Idx (v : Nat) : Nat := (v >>> 30) &&& 0x1ff
def pml4Idx (v : Nat) : Nat := (v >>> 39) &&& 0x1ff

def alignDown (x : Nat) : Nat := 4096 * (x / 4096)

-- A table is named by its frame; its 512 entries are 64-bit words.
def entry (mem : Bytes) (table index : Nat) : Nat := load mem 8 (4096 * table + 8 * index)

def writeEntry (mem : Bytes) (table index value : Nat) : Bytes := store mem 8 (4096 * table + 8 * index) value

variable (m : Machine)

def setEntry (table index value : Nat) : Machine := { m with mem := writeEntry m.mem table index value }

def isPresent (e : Nat) : Bool := e &&& vmmPresent != 0

def frameOf (e : Nat) : Nat := (e &&& pageFrameMask) / 4096

def allocPt : Result (Machine × Nat) := do
  let (m, page) ← pallocPage m
  .ok ({ m with mem := scrub m.mem page }, page)

def freePt (table : Nat) : Result Machine :=
  match pfndbPhysToPage m (4096 * table) with
  | none => .error .untrackedTable
  | some page => pageUnref m page

def tableNext (tbl idx createFlags : Nat) : Result (Machine × Option Nat) :=
  let e := entry m.mem tbl idx
  if isPresent e then .ok (m, some (frameOf e))
  else if createFlags = 0 then .ok (m, none)
  else do
    let (m, page) ← allocPt m
    if 4096 * page = 0 then .ok (m, none)
    else .ok (setEntry m tbl idx (4096 * page ||| createFlags), some page)

def leafEntry (pml4 virt createFlags : Nat) : Result (Machine × Option (Nat × Nat)) := do
  let (m, pml3) ← tableNext m pml4 (pml4Idx virt) createFlags
  match pml3 with
  | none => .ok (m, none)
  | some pml3 =>
    let (m, pml2) ← tableNext m pml3 (pml3Idx virt) createFlags
    match pml2 with
    | none => .ok (m, none)
    | some pml2 =>
      let (m, pml1) ← tableNext m pml2 (pml2Idx virt) createFlags
      match pml1 with
      | none => .ok (m, none)
      | some pml1 => .ok (m, some (pml1, pml1Idx virt))

-- _leaf_entry with create_flags 0 allocates nothing.
def tableFind (mem : Bytes) (tbl idx : Nat) : Option Nat :=
  if isPresent (entry mem tbl idx) then some (frameOf (entry mem tbl idx)) else none

def leafFind (mem : Bytes) (pml4 virt : Nat) : Option (Nat × Nat) := do
  let pml3 ← tableFind mem pml4 (pml4Idx virt)
  let pml2 ← tableFind mem pml3 (pml3Idx virt)
  let pml1 ← tableFind mem pml2 (pml2Idx virt)
  some (pml1, pml1Idx virt)

-- page_unshare and page_unref of a mapped frame, if it is tracked.
def releaseFrame (frame : Nat) : Result Machine :=
  match pfndbPhysToPage m (4096 * frame) with
  | none => .ok m
  | some page => do
    let m ← pageUnshare m page
    pageUnref m page

def releaseEntry (e : Nat) : Result Machine :=
  if isPresent e then releaseFrame m (frameOf e) else .ok m

-- page_share and page_ref of a frame, if it is tracked and in use.
def shareFrame (phys : Nat) : Result Machine :=
  match pfndbPhysToPage m phys with
  | none => .ok m
  | some page => if pageIsUsed m page then do
        let m ← pageShare m page
        pageRef m page
      else .ok m

def tableFlags (flags : Nat) : Nat :=
  if flags &&& vmmUser ≠ 0 then vmmPresent ||| vmmWritable ||| vmmUser else vmmPresent ||| vmmWritable

def leafValue (phys flags : Nat) : Nat := phys ||| (flags &&& pageFlagsMask) ||| vmmPresent

def mapPage (pt virt page flags : Nat) : Result Machine := do
  let (m, pte) ← leafEntry m pt (alignDown virt) (tableFlags flags)
  match pte with
  | none => .error .noTable
  | some (table, index) =>
    let m ← releaseEntry m (entry m.mem table index)
    let m := setEntry m table index (leafValue (4096 * page) flags)
    let m ← pageShare m page
    pageRef m page

def mapPagePhys (pt virt phys flags : Nat) : Result Machine := do
  let phys := alignDown phys
  let (m, pte) ← leafEntry m pt (alignDown virt) (tableFlags flags)
  match pte with
  | none => .error .noTable
  | some (table, index) =>
    if isPresent (entry m.mem table index) then .ok m
    else do
      let m ← shareFrame m phys
      .ok (setEntry m table index (leafValue phys flags))

def tableEmpty (mem : Bytes) (tbl : Nat) : Bool := (List.range 512).all (fun i => !isPresent (entry mem tbl i))

def pruneEntry (parent index : Nat) : Result Machine := do
  let m ← freePt m (frameOf (entry m.mem parent index))
  .ok (setEntry m parent index 0)

def ptableFreeEmpty (pt virt : Nat) : Result Machine :=
  if isPresent (entry m.mem pt (pml4Idx virt)) then
    let pml3 := frameOf (entry m.mem pt (pml4Idx virt))
    if isPresent (entry m.mem pml3 (pml3Idx virt)) then
      let pml2 := frameOf (entry m.mem pml3 (pml3Idx virt))
      if isPresent (entry m.mem pml2 (pml2Idx virt)) then
        let pml1 := frameOf (entry m.mem pml2 (pml2Idx virt))
        if tableEmpty m.mem pml1 then do
          let m ← pruneEntry m pml2 (pml2Idx virt)
          if tableEmpty m.mem pml2 then do
            let m ← pruneEntry m pml3 (pml3Idx virt)
            if tableEmpty m.mem pml3 then pruneEntry m pt (pml4Idx virt) else .ok m
          else .ok m
        else .ok m
      else .ok m
    else .ok m
  else .ok m

def unmapPage (pt virt : Nat) : Result Machine :=
  match leafFind m.mem pt (alignDown virt) with
  | none => .ok m
  | some (table, index) =>
    let e := entry m.mem table index
    if isPresent e then do
      let m ← releaseFrame (setEntry m table index 0) (frameOf e)
      ptableFreeEmpty m pt (alignDown virt)
    else .ok m

def getPhys (pt virt : Nat) : Nat :=
  match leafFind m.mem pt (alignDown virt) with
  | none => 0
  | some (table, index) =>
    let e := entry m.mem table index
    if isPresent e then (e &&& pageFrameMask) + virt % 4096 else 0

def getMappingFlags (pt virt : Nat) : Nat :=
  match leafFind m.mem pt (alignDown virt) with
  | none => 0
  | some (table, index) =>
    let e := entry m.mem table index
    if isPresent e then e &&& pageFlagsMask else 0

-- Depth 1 is a leaf table; a huge entry above it is left to its owner.
def ptableFreeLevel : Nat → Machine → Nat → Result Machine
  | 0, m, _ => .ok m
  | 1, m, tbl => do
    let m ← (List.range 512).foldlM (fun m i => releaseEntry m (entry m.mem tbl i)) m
    freePt m tbl
  | depth + 2, m, tbl => do
    let m ← (List.range 512).foldlM (fun m i =>
      let e := entry m.mem tbl i
      if isPresent e ∧ e &&& vmmHuge = 0 then ptableFreeLevel (depth + 1) m (frameOf e) else .ok m) m
    freePt m tbl

def ptableDestroy (pt : Nat) : Result Machine :=
  if pt = m.kernelPtable then ptableFreeLevel 4 m pt
  else do
    let m ← (List.range 256).foldlM (fun m i =>
      let e := entry m.mem pt i
      if isPresent e ∧ e &&& vmmHuge = 0 then ptableFreeLevel 3 m (frameOf e) else .ok m) m
    freePt m pt

def mapMmio (pt virt phys npages : Nat) : Result Machine := (List.range npages).foldlM (fun m i => do
    let (m, pte) ← leafEntry m pt (alignDown virt + 4096 * i) (vmmPresent ||| vmmWritable)
    match pte with
    | none => .error .noTable
    | some (table, index) => .ok (setEntry m table index ((alignDown phys + 4096 * i) ||| vmmFlagsMmio))) m

-- The upper half is the kernel's.
def copyKernelHalf (pt : Nat) : Machine :=
  (List.range 256).foldl (fun m i => setEntry m pt (256 + i) (entry m.mem m.kernelPtable (256 + i))) m

def ptableCreate : Result (Machine × Nat) := do
  let (m, page) ← pallocPage m
  let m := { m with mem := scrub m.mem page }
  let m := if m.kernelPtable ≠ 0 then copyKernelHalf m page else m
  let m ← m.mmioRegions.foldlM (fun m region => mapMmio m page region.virt region.phys region.npages) m
  .ok (m, page)

end Lyr.Mm
