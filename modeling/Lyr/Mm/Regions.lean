import Lyr.Mm.Vmm

set_option autoImplicit false

namespace Lyr.Mm

open Lyr.Lib

def kstackRegionBase : Nat := 0xffffffff90000000
def moduleRegionBase : Nat := 0xffffffffa0000000
def largeRegionBase : Nat := 0xffffffffb0000000
def nvmeMmioBase : Nat := 0xffffffffb0000000
def e1000MmioBase : Nat := 0xffffffffc0000000

def kstackGuardSize : Nat := 4096
def schedKernelStackSize : Nat := 64 * 1024
def slabMax : Nat := 2048
def nvmeMmioStride : Nat := 0x20000
def nvmeWindow : Nat := 8 * 4096
def e1000MmioStride : Nat := 0x20000

inductive RegionKind where
  | kstack
  | moduleSection
  | large
  | nvme
  | e1000
  deriving DecidableEq, Repr

structure Region where
  kind : RegionKind
  start : Nat
  stop : Nat
  deriving DecidableEq, Repr

structure KernelSpace where
  live : List Region
  nextKstackBase : Nat
  nextModuleBase : Nat
  nextLargeBase : Nat
  nextNvme : Nat
  nextE1000 : Nat
  deriving DecidableEq, Repr

inductive RegionPanic where
  | outOfMemory
  deriving DecidableEq, Repr

def wrap (x : Nat) : Nat := x % 2 ^ 64

def alignUpU64 (value align : Nat) : Nat := if align ≤ 1 then value else clearBits (wrap (value + align - 1)) (align - 1)

variable (k : KernelSpace)

-- granted is false where palloc_page fails on the way.
def kstackAlloc (granted : Bool) : Except RegionPanic KernelSpace :=
  if !granted then .error .outOfMemory
  else
    let base := wrap (k.nextKstackBase + kstackGuardSize)
    let top := wrap (base + schedKernelStackSize)
    .ok { k with live := ⟨.kstack, base, top⟩ :: k.live, nextKstackBase := top }

-- Only the topmost stack gives its addresses back.
def kstackFree (base : Nat) : KernelSpace :=
  match k.live.find? (fun region => region.kind = .kstack ∧ region.start = base) with
  | none => k
  | some region =>
    { k with
      live := k.live.erase region
      nextKstackBase := if region.stop = k.nextKstackBase then region.start - kstackGuardSize else k.nextKstackBase }

def sectionBase (align : UInt64) : Nat := alignUpU64 k.nextModuleBase (max align.toNat 4096)

def moduleAllocSection (size align : UInt64) (granted : Bool) : KernelSpace :=
  if size = 0 ∨ !granted then k
  else
    let base := sectionBase k align
    let stop := alignUpU64 (wrap (base + size.toNat)) 4096
    { k with live := ⟨.moduleSection, base, stop⟩ :: k.live, nextModuleBase := stop }

def largePages (size : UInt64) : Nat := wrap (wrap (size.toNat + 4096) + 4095) / 4096

-- Without pages the block keeps its addresses.
def largeAlloc (size : UInt64) (granted : Bool) : KernelSpace :=
  let base := k.nextLargeBase
  let stop := wrap (base + 4096 * largePages size)
  { k with live := if granted then ⟨.large, base, stop⟩ :: k.live else k.live, nextLargeBase := stop }

def kmalloc (size : UInt64) (granted : Bool) : KernelSpace :=
  if size.toNat ≤ slabMax then k else largeAlloc k size granted

def largeFree (base : Nat) : KernelSpace :=
  { k with live := k.live.filter (fun region => ¬(region.kind = .large ∧ region.start = base)) }

def nvmeProbe : KernelSpace :=
  { k with live := ⟨.nvme, k.nextNvme, wrap (k.nextNvme + nvmeWindow)⟩ :: k.live, nextNvme := wrap (k.nextNvme + nvmeMmioStride) }

def e1000Probe : KernelSpace :=
  { k with live := ⟨.e1000, k.nextE1000, wrap (k.nextE1000 + e1000MmioStride)⟩ :: k.live, nextE1000 := wrap (k.nextE1000 +
    e1000MmioStride) }

inductive RegionCall where
  | createThread (granted : Bool)
  | exitThread (base : Nat)
  | loadSection (size align : UInt64) (granted : Bool)
  | kmalloc (size : UInt64) (granted : Bool)
  | kfree (base : Nat)
  | probeNvme
  | probeE1000
  deriving DecidableEq, Repr

def regionStep : RegionCall → Except RegionPanic KernelSpace
  | .createThread granted => kstackAlloc k granted
  | .exitThread base => .ok (kstackFree k base)
  | .loadSection size align granted => .ok (moduleAllocSection k size align granted)
  | .kmalloc size granted => .ok (Mm.kmalloc k size granted)
  | .kfree base => .ok (largeFree k base)
  | .probeNvme => .ok (nvmeProbe k)
  | .probeE1000 => .ok (e1000Probe k)

def bootSpace : KernelSpace :=
  { live := [], nextKstackBase := kstackRegionBase, nextModuleBase := moduleRegionBase, nextLargeBase := largeRegionBase
    nextNvme := nvmeMmioBase, nextE1000 := e1000MmioBase }

end Lyr.Mm
