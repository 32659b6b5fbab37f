import Lyr.Mm.FrameCounts
import Lyr.Lib.Chain

set_option autoImplicit false

namespace Lyr.Mm.Pmm

open Lyr.Lib Function

def pageFree : Nat := 1
def pageUsed : Nat := 2
def pageReserved : Nat := 4
def pageShared : Nat := 8
def pageCow : Nat := 16
def pagePoison : Nat := 32

-- ~flag, where the flag is an unsigned 32-bit constant
def maskOut (flag : Nat) : Nat := 0xFFFFFFFF - flag

-- u2 is the back pointer of a free page, the sharecount of a used one.
structure PageT where
  next : Nat
  u2 : Nat
  flags : Nat
  refcount : Nat
deriving DecidableEq, Repr

-- Records of 64 bytes from address memMap on; the null pointer is 0.
structure State where
  memMap : Nat
  maxPfn : Nat
  db : Nat → PageT
  freelist : Nat
  freePages : Nat
  totalPages : Nat
  mem : Bytes

structure MemmapEntry where
  base : Nat
  length : Nat
  usable : Bool
deriving DecidableEq, Repr

variable (s : State)

def pagePtr (pfn : Nat) : Nat := s.memMap + 64 * pfn

variable (page : Nat)

def pfnOf : Nat := (page - s.memMap) / 64

def deref : PageT := s.db (pfnOf s page)

def setPage (record : PageT) : State := { s with db := update s.db (pfnOf s page) record }

def pfndbGetptr (pfn : Nat) : Nat := if pfn > s.maxPfn then 0 else pagePtr s pfn

def pfndbPageToPhys : Nat :=
  if page = 0 ∨ s.memMap = 0 then 0
  else if page < s.memMap ∨ page > pagePtr s s.maxPfn then 0
  else pfnOf s page * 4096

def calcMaxPfn (entries : List MemmapEntry) : Nat := entries.foldl (fun maxPfn e =>
    if e.usable then
      let last := (e.base + e.length + 4095) % 2 ^ 64 / 4096
      if last > maxPfn then last else maxPfn
    else maxPfn) 0

-- In the first usable entry that holds the database.
def reserve (size : Nat) : List MemmapEntry → Result (Nat × List MemmapEntry)
  | [] => .error .outOfMemory
  | e :: rest =>
    if e.usable = true ∧ size ≤ e.length then
      .ok (e.base, { e with base := (e.base + size) % 2 ^ 64, length := e.length - size } :: rest)
    else do
      let (phys, rest) ← reserve size rest
      .ok (phys, e :: rest)

def initPages (memMap maxPfn : Nat) (db : Nat → PageT) (i : Nat) : PageT :=
  if i ≤ maxPfn then
    { db i with flags := pageReserved, refcount := 0, next := if i < maxPfn then memMap + 64 * (i + 1) else 0 }
  else db i

def markFree (db : Nat → PageT) (pfn : Nat) : Nat → PageT := update db pfn
    { db pfn with flags := ((db pfn).flags &&& maskOut (pageReserved ||| pageUsed)) ||| pageFree }

def markEntry (maxPfn : Nat) (db : Nat → PageT) (e : MemmapEntry) : Nat → PageT :=
  if e.usable then
    let start := e.base / 4096
    let stop := (e.base + e.length) % 2 ^ 64 / 4096
    (List.range' start (min stop (maxPfn + 1) - start)).foldl markFree db
  else db

-- hhdm is the start of the direct map, db what the array held before.
def pfndbInit (hhdm : Nat) (db : Nat → PageT) (mem : Bytes) (entries : List MemmapEntry) : Result State := do
  let maxPfn := calcMaxPfn entries
  let size := ((maxPfn + 1) * 64 + 4095) / 4096 * 4096
  let (phys, entries) ← reserve size entries
  let memMap := phys + hhdm
  if memMap = 0 then .error .assertion
  else
    let db := entries.foldl (markEntry maxPfn) (initPages memMap maxPfn db)
    let db := update db 0 { db 0 with flags := pageReserved, refcount := 0 }
    .ok ⟨memMap, maxPfn, db, 0, 0, 0, mem⟩

def assertThat (condition : Prop) [Decidable condition] : Result Unit := if condition then .ok () else .error .assertion

def pageValidateFree (record : PageT) : Result Unit :=
  if page = 0 then .error .assertion
  else if record.flags &&& pagePoison ≠ 0 then .ok ()
  else if record.flags &&& pageFree = 0 then .error .assertion
  else if record.refcount ≠ 0 then .error .assertion
  else if record.u2 ≠ 0 then .error .assertion
  else .ok ()

def pageValidateUsed (record : PageT) : Result Unit :=
  if page = 0 then .error .assertion
  else if record.flags &&& pagePoison ≠ 0 then .error .assertion
  else if record.flags &&& pageUsed = 0 then .error .pageNotUsed
  else if record.refcount = 0 then .error .zeroRefcount
  else .ok ()

def pushChecks (record : PageT) : Result Unit :=
  assertThat (page ≠ 0 ∧ record.refcount = 0 ∧ record.u2 = 0 ∧ record.flags &&& pageFree = 0 ∧
    record.flags &&& pageReserved = 0 ∧ record.flags &&& pagePoison = 0)

-- freelist->u2.prev = page, if the list is not empty
def linkBack : State :=
  if s.freelist = 0 then s else setPage s s.freelist { deref s s.freelist with u2 := page }

def insertHead : State :=
  let s := setPage s page { deref s page with flags := pageFree, next := s.freelist, u2 := 0 }
  let s := linkBack s page
  { s with freelist := page, freePages := s.freePages + 1 }

def pmmPushNoscrub : Result State := do
  pushChecks page (deref s page)
  .ok (insertHead s page)

def pmmPush : Result State := do
  pushChecks page (deref s page)
  let s := { s with mem := fill s.mem (pfndbPageToPhys s page) 4096 0 }
  .ok (insertHead s page)

def pmmPop : Result (State × Nat) :=
  if s.freelist = 0 then .ok (s, 0)
  else do
    let page := s.freelist
    pageValidateFree page (deref s page)
    let s := { s with freelist := (deref s page).next }
    let s := linkBack s 0
    let record := deref s page
    let s := setPage s page { record with next := 0, u2 := 0, flags := (record.flags &&& maskOut pageFree) ||| pageUsed }
    .ok ({ s with freePages := s.freePages - 1 }, page)

def pmmInitPage (i : Nat) : Result State :=
  let page := pfndbGetptr s i
  let record := deref s page
  if record.flags &&& pageFree = 0 then .ok s
  else if record.flags &&& pageReserved ≠ 0 then .ok s
  else pmmPushNoscrub
    (setPage s page { record with refcount := 0, u2 := 0, next := 0, flags := record.flags &&& maskOut pageFree }) page

def pmmInit : Result State :=
  (List.range (s.maxPfn + 1)).reverse.foldlM pmmInitPage { s with freelist := 0, freePages := 0, totalPages := s.maxPfn + 1 }

def pallocPage : Result (State × Nat) := do
  let (s, page) ← pmmPop s
  if page = 0 then .error .outOfMemory
  else .ok (setPage s page { deref s page with refcount := 1 }, page)

-- Returns the page's address instead of its record.
def pallocSingle : Result (State × Nat) := do
  let (s, page) ← pallocPage s
  .ok (s, pfndbPageToPhys s page)

def pageRef : Result State := do
  let record := deref s page
  pageValidateUsed page record
  .ok (setPage s page { record with refcount := (record.refcount + 1) % 2 ^ 32 })

def pageUnref : Result State :=
  if page = 0 then .ok s
  else do
    let record := deref s page
    if record.flags &&& pageUsed = 0 then .error .pageNotUsed
    else do
      pageValidateUsed page record
      let s := setPage s page { record with refcount := record.refcount - 1 }
      if record.refcount - 1 = 0 then
        if record.u2 ≠ 0 then .error .stillShared else pmmPush s page
      else .ok s

def pageShare : Result State := do
  let record := deref s page
  pageValidateUsed page record
  let sharecount := (record.u2 + 1) % 2 ^ 64
  .ok (setPage s page { record with u2 := sharecount, flags := if sharecount > 1 then record.flags ||| pageShared else record.flags })

def pageUnshare : Result State := do
  let record := deref s page
  pageValidateUsed page record
  if record.u2 = 0 then .ok s
  else
    let sharecount := record.u2 - 1
    .ok (setPage s page { record with
        u2 := sharecount
        flags := if sharecount ≤ 1 then record.flags &&& maskOut pageShared else record.flags })

def pageMarkCow : Result State :=
  if page = 0 then .ok s
  else do
    let record := deref s page
    pageValidateUsed page record
    .ok (setPage s page { record with flags := record.flags ||| pageCow })

def pageClearCow : Result State :=
  if page = 0 then .ok s
  else do
    let record := deref s page
    pageValidateUsed page record
    .ok (setPage s page { record with flags := record.flags &&& maskOut pageCow })

end Lyr.Mm.Pmm
