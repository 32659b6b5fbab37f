import Lyr.Mm.Paging

set_option autoImplicit false

namespace Lyr.Mm

open Lyr.Lib

-- VAD_PROT_MASK is 0xFFF | VMM_NX
def vadProtMask : Nat := 0x8000000000000FFF
def vadAnonymous : Nat := 0x1000
def vadFixed : Nat := 0x2000
def vadFile : Nat := 0x8000
def vadShared : Nat := 0x10000

def vasUserStart : Nat := 0x1000
def vasUserEnd : Nat := 0x00007FFFFFFFFFFF

-- ~mask on 64 bits
def clearBits (value mask : Nat) : Nat := value &&& (2 ^ 64 - 1 - mask)

-- ALIGN_UP, with the wrap of its 64-bit sum
def alignUp (x : Nat) : Nat := 4096 * ((x + 4095) % 2 ^ 64 / 4096)

structure Vad where
  start : Nat
  stop : Nat
  flags : Nat
  file : Option Nat
  fileOffset : Nat
deriving DecidableEq, Repr

structure Vas where
  pml4 : Nat
  list : List Vad
  userStart : Nat
deriving DecidableEq, Repr

def vadAlloc (start stop flags : Nat) : Vad := ⟨start, stop, flags, none, 0⟩

def vadAllocFile (start stop flags : Nat) (file : Option Nat) (fileOffset : Nat) : Vad :=
  ⟨start, stop, flags ||| vadFile, file, fileOffset⟩

def vadCloneSegment (src : Vad) (start stop : Nat) : Vad :=
  if src.flags &&& vadFile ≠ 0 then
    vadAllocFile start stop src.flags src.file ((src.fileOffset + (start - src.start)) % 2 ^ 64)
  else vadAlloc start stop src.flags

def vadInsert (v : Vad) : List Vad → List Vad
  | [] => [v]
  | head :: rest => if head.start < v.start then head :: vadInsert v rest else v :: head :: rest

-- The right part starts at stop, so the loop leaves it alone.
def vadRemoveRange (start stop : Nat) : List Vad → List Vad
  | [] => []
  | v :: rest =>
    if v.stop ≤ start ∨ stop ≤ v.start then v :: vadRemoveRange start stop rest
    else
      (if v.start < start then [vadCloneSegment v v.start start] else []) ++
        (if stop < v.stop then [vadCloneSegment v stop v.stop] else []) ++ vadRemoveRange start stop rest

-- The search loop of _vas_find_free.
def searchFree (length : Nat) : Nat → Nat → List Vad → Nat × Nat
  | base, stop, [] => (base, stop)
  | base, stop, v :: rest =>
    if stop ≤ v.start then (base, stop)
    else if base < v.stop then searchFree length (alignUp v.stop) ((alignUp v.stop + length) % 2 ^ 64) rest
    else searchFree length base stop rest

def vasFindFree (list : List Vad) (hint length : Nat) : Nat :=
  let (base, stop) := searchFree length (alignUp hint) ((alignUp hint + length) % 2 ^ 64) list
  if stop > vasUserEnd ∨ stop < base then 0 else base

def vasOverlaps (start stop : Nat) : List Vad → Bool
  | [] => false
  | v :: rest => if stop ≤ v.start then false else if start < v.stop then true else vasOverlaps start stop rest

variable (m : Machine) (vas : Vas)

-- For vas_map_anon, vas_map_phys and vas_map_file, of a rounded length.
def vasPlace (hint length flags : Nat) : Option Nat :=
  if flags &&& vadFixed ≠ 0 then
    let base := alignDown hint
    let stop := (base + length) % 2 ^ 64
    if stop > vasUserEnd ∨ stop < base then none
    else if vasOverlaps base stop vas.list then none
    else some base
  else
    let base := vasFindFree vas.list (if hint ≠ 0 then hint else vas.userStart) length
    if base = 0 then none else some base

-- The addresses start, start + PAGE_SIZE, ... below stop.
def pagesOf (start stop : Nat) : List Nat := (List.range ((stop - start + 4095) / 4096)).map (fun i => start + 4096 * i)

-- palloc_page, map_page, page_unref: only the mapping holds the page.
def commitPage (pml4 va prot : Nat) : Result Machine := do
  let (m, page) ← pallocPage m
  let m ← mapPage m pml4 va page prot
  pageUnref m page

def commitAnon (pml4 : Nat) (vad : Vad) : Result Machine :=
  (pagesOf vad.start vad.stop).foldlM (fun m va => commitPage m pml4 va (vad.flags &&& vadProtMask)) m

def uncommitRange (pml4 start stop : Nat) : Result Machine := (pagesOf start stop).foldlM (fun m va => unmapPage m pml4 va) m

-- vfs_node_get_page, or none where the file system refuses.
abbrev GetPage := Machine → Nat → Nat → Bool → Result (Machine × Option Nat)

def commitFilePages (getPage : GetPage) (pml4 prot file : Nat) : Machine → Nat → List Nat → Result (Machine × Bool)
  | m, _, [] => .ok (m, true)
  | m, fileOffset, va :: rest => do
    let (m, page) ← getPage m file (fileOffset / 4096) (prot &&& vmmWritable != 0)
    match page with
    | none => .ok (m, false)
    | some page => do
      let m ← mapPage m pml4 va page prot
      commitFilePages getPage pml4 prot file m ((fileOffset + 4096) % 2 ^ 64) rest

def vasMapAnon (hint length flags : Nat) : Result (Machine × Vas × Nat) :=
  if length = 0 then .ok (m, vas, 0)
  else
    let length := alignUp length
    match vasPlace vas hint length flags with
    | none => .ok (m, vas, 0)
    | some base => do
      let vad := vadAlloc base (base + length) (flags ||| vadAnonymous)
      let m ← commitAnon m vas.pml4 vad
      .ok (m, { vas with list := vadInsert vad vas.list, userStart := base + length }, base)

def mapPhysPage (pml4 va phys prot : Nat) : Result Machine :=
  match pfndbPhysToPage m phys with
  | some page => mapPage m pml4 va page prot
  | none => mapPagePhys m pml4 va phys prot

def vasMapPhys (hint phys length flags : Nat) : Result (Machine × Vas × Nat) :=
  if length = 0 then .ok (m, vas, 0)
  else
    let length := alignUp length
    let phys := alignDown phys
    match vasPlace vas hint length flags with
    | none => .ok (m, vas, 0)
    | some base => do
      let prot := flags &&& vadProtMask
      let m ← (pagesOf 0 length).foldlM (fun m off => mapPhysPage m vas.pml4 (base + off) ((phys + off) % 2 ^ 64) prot) m
      let vad := vadAlloc base (base + length) (clearBits flags vadAnonymous)
      .ok (m, { vas with list := vadInsert vad vas.list }, base)

def vasMapFile (getPage : GetPage) (m : Machine) (vas : Vas) (hint : Nat) (file : Option Nat) (fileOffset length flags : Nat) :
    Result (Machine × Vas × Nat) :=
  match file with
  | none => .ok (m, vas, 0)
  | some file =>
    if length = 0 then .ok (m, vas, 0)
    else if fileOffset % 4096 ≠ 0 then .ok (m, vas, 0)
    else
      let length := alignUp length
      match vasPlace vas hint length flags with
      | none => .ok (m, vas, 0)
      | some base => do
        let vad := vadAllocFile base (base + length) flags (some file) fileOffset
        let (m, committed) ← commitFilePages getPage vas.pml4 (vad.flags &&& vadProtMask) file m fileOffset
          (pagesOf vad.start vad.stop)
        if committed then
          .ok (m, { vas with list := vadInsert vad vas.list, userStart := base + length }, base)
        else do
          let m ← uncommitRange m vas.pml4 base (base + length)
          .ok (m, vas, 0)

def vasUnmapPages (m : Machine) (pml4 start stop : Nat) : List Vad → Result Machine
  | [] => .ok m
  | v :: rest =>
    if v.start < stop then
      if v.stop ≤ start then vasUnmapPages m pml4 start stop rest
      else do
        let m ← uncommitRange m pml4 (max v.start start) (min v.stop stop)
        vasUnmapPages m pml4 start stop rest
    else .ok m

def vasUnmap (start length : Nat) : Result (Machine × Vas) :=
  if length = 0 then .ok (m, vas)
  else do
    let start := alignDown start
    let stop := (start + alignUp length) % 2 ^ 64
    let m ← vasUnmapPages m vas.pml4 start stop vas.list
    .ok (m, { vas with list := vadRemoveRange start stop vas.list })

-- page_ref, unmap_page, map_page, page_unref: the page is not freed on the way.
def remapPage (pml4 va page prot : Nat) : Result Machine := do
  let m ← pageRef m page
  let m ← unmapPage m pml4 va
  let m ← mapPage m pml4 va page prot
  pageUnref m page

def protectPage (pml4 va prot : Nat) : Result Machine :=
  let phys := getPhys m pml4 va
  if phys = 0 then .ok m
  else
    match pfndbPhysToPage m phys with
    | some page => remapPage m pml4 va page prot
    | none => do
      let m ← unmapPage m pml4 va
      mapPagePhys m pml4 va phys prot

def setProt (v : Vad) (prot : Nat) : Vad := { v with flags := clearBits v.flags vadProtMask ||| prot }

def vasProtectVads (m : Machine) (pml4 start stop prot : Nat) : List Vad → Result (Machine × List Vad)
  | [] => .ok (m, [])
  | v :: rest =>
    if v.start < stop then
      if v.stop ≤ start then do
        let (m, rest) ← vasProtectVads m pml4 start stop prot rest
        .ok (m, v :: rest)
      else do
        let m ← (pagesOf (max v.start start) (min v.stop stop)).foldlM (fun m va => protectPage m pml4 va prot) m
        let (m, rest) ← vasProtectVads m pml4 start stop prot rest
        .ok (m, setProt v prot :: rest)
    else .ok (m, v :: rest)

def vasProtect (start length newProt : Nat) : Result (Machine × Vas) :=
  if length = 0 then .ok (m, vas)
  else do
    let start := alignDown start
    let stop := (start + alignUp length) % 2 ^ 64
    let (m, list) ← vasProtectVads m vas.pml4 start stop (newProt &&& vadProtMask) vas.list
    .ok (m, { vas with list := list })

def vasFind (addr : Nat) : Option Vad := vas.list.find? (fun v => decide (v.start ≤ addr ∧ addr < v.stop))

def coveredUpTo (stop : Nat) : Nat → List Vad → Bool
  | pos, [] => decide (stop ≤ pos)
  | pos, v :: rest =>
    if pos < stop then
      if v.stop ≤ pos then coveredUpTo stop pos rest
      else if pos < v.start then false
      else coveredUpTo stop v.stop rest
    else true

def vasRangeMapped (start length : Nat) : Bool :=
  if length = 0 then false
  else
    let start := alignDown start
    let stop := (start + alignUp length) % 2 ^ 64
    if stop < start then false else coveredUpTo stop start vas.list

def vasCreate : Result (Machine × Vas) := do
  let (m, pml4) ← ptableCreate m
  .ok (m, ⟨pml4, [], vasUserStart⟩)

def vasDestroy : Result Machine := do
  let m ← vas.list.foldlM (fun m v => uncommitRange m vas.pml4 v.start v.stop) m
  ptableDestroy m vas.pml4

def vasHandlePageFault (addr err : Nat) : Result (Machine × Bool) :=
  let va := alignDown addr
  match vasFind vas va with
  | none => .ok (m, false)
  | some vad =>
    if err &&& 0x2 = 0 ∨ err &&& 0x1 = 0 then .ok (m, false)
    else if vad.flags &&& vmmWritable = 0 ∨ vad.flags &&& vadShared ≠ 0 then .ok (m, false)
    else
      let phys := getPhys m vas.pml4 va
      if phys = 0 then .ok (m, false)
      else
        match pfndbPhysToPage m (alignDown phys) with
        | none => .ok (m, false)
        | some oldPage =>
          let prot := vad.flags &&& vadProtMask
          if pageIsCow m oldPage = false then .ok (m, false)
          else if pageIsShared m oldPage = false then do
            let m ← pageRef m oldPage
            let m ← unmapPage m vas.pml4 va
            let m ← pageClearCow m oldPage
            let m ← mapPage m vas.pml4 va oldPage prot
            let m ← pageUnref m oldPage
            .ok (m, true)
          else do
            let (m, newPage) ← pallocPage m
            let m := { m with mem := copy m.mem (4096 * newPage) (alignDown phys) 4096 }
            let m ← unmapPage m vas.pml4 va
            let m ← mapPage m vas.pml4 va newPage prot
            let m ← pageUnref m newPage
            .ok (m, true)

def cloneVad (v : Vad) : Vad :=
  if v.flags &&& vadFile ≠ 0 then vadAllocFile v.start v.stop v.flags v.file v.fileOffset
  else vadAlloc v.start v.stop v.flags

-- A private writable page becomes read-only on both sides.
def clonePage (src dst flags va : Nat) : Result Machine :=
  let phys := getPhys m src va
  let prot := flags &&& vadProtMask
  if phys = 0 then .ok m
  else
    match pfndbPhysToPage m (alignDown phys) with
    | some page =>
      if prot &&& vmmWritable ≠ 0 ∧ flags &&& vadShared = 0 then do
        let m ← remapPage m src va page (clearBits prot vmmWritable)
        let m ← pageMarkCow m page
        mapPage m dst va page (clearBits prot vmmWritable)
      else mapPage m dst va page prot
    | none => mapPagePhys m dst va (alignDown phys) prot

def cloneVads (src dst : Nat) : Machine → List Vad → List Vad → Result (Machine × List Vad)
  | m, copied, [] => .ok (m, copied)
  | m, copied, v :: rest => do
    let m ← (pagesOf v.start v.stop).foldlM (fun m va => clonePage m src dst v.flags va) m
    cloneVads src dst m (vadInsert (cloneVad v) copied) rest

def vasClone (src : Vas) : Result (Machine × Vas) := do
  let (m, dst) ← vasCreate m
  let (m, list) ← cloneVads src.pml4 dst.pml4 m [] src.list
  .ok (m, { dst with list := list, userStart := src.userStart })

end Lyr.Mm
