import Lyr.Lib.Prog
import Lyr.Lib.Span

set_option autoImplicit false

namespace Lyr.Dev

open Lyr.Lib

abbrev Name := List UInt8

inductive BlockErrno where
  | eio
  | enoent
  | enomem
  | eexist
  | einval
  | enosys
  deriving DecidableEq, Repr

-- Calls of the heap and of a disk's driver.
inductive DiskOp where
  | kzalloc (size : Nat)
  | readBlocks (lba count : Nat)
  | writeBlocks (lba count : Nat) (data : List UInt8)

def DiskAns : DiskOp → Type
  | .kzalloc _ => Bool
  | .readBlocks _ _ => Except BlockErrno (List UInt8)
  | .writeBlocks _ _ _ => Except BlockErrno Unit

abbrev DiskProg := Prog DiskOp DiskAns

def kzalloc (size : Nat) : DiskProg Bool := Prog.perform (DiskOp.kzalloc size)

def BLOCK_NAME_MAX : Nat := 31
def SIZEOF_BLOCK_DEVICE : Nat := 104

-- writable tells whether write_blocks is set.
structure BlockInfo where
  name : Name
  blockSize : Nat
  blockCount : Nat
  writable : Bool
  deriving DecidableEq, Repr

-- A driver's device, or a part of its parent from lba_offset on.
inductive BlockDev where
  | disk (info : BlockInfo)
  | part (info : BlockInfo) (lbaOffset : Nat) (parent : BlockDev)
  deriving DecidableEq, Repr

namespace BlockDev

def info : BlockDev → BlockInfo
  | disk info => info
  | part info _ _ => info

def hasParent : BlockDev → Bool
  | disk _ => false
  | part _ _ _ => true

def size (dev : BlockDev) : Nat := dev.info.blockCount * dev.info.blockSize % 2 ^ 64

-- part_read_blocks and part_write_blocks, down to the driver.
def readBlocks : BlockDev → Nat → Nat → DiskProg (Except BlockErrno (List UInt8))
  | disk _, lba, count => Prog.perform (DiskOp.readBlocks lba count)
  | part info lbaOffset parent, lba, count =>
    if count = 0 then pure (.ok [])
    else if lba ≥ info.blockCount ∨ count > info.blockCount - lba then pure (.error .einval)
    else parent.readBlocks ((lbaOffset + lba) % 2 ^ 64) count

def writeBlocks : BlockDev → Nat → Nat → List UInt8 → DiskProg (Except BlockErrno Unit)
  | disk _, lba, count, data => Prog.perform (DiskOp.writeBlocks lba count data)
  | part info lbaOffset parent, lba, count, data =>
    if !parent.info.writable then pure (.error .enosys)
    else if count = 0 then pure (.ok ())
    else if lba ≥ info.blockCount ∨ count > info.blockCount - lba then pure (.error .einval)
    else parent.writeBlocks ((lbaOffset + lba) % 2 ^ 64) count data

end BlockDev

-- Each round of the bounce loops moves at least one byte.
def readBounce (dev : BlockDev) : Nat → Nat → Nat → DiskProg (Except BlockErrno (List UInt8))
  | 0, _, _ => pure (.ok [])
  | fuel + 1, pos, rest =>
    if rest = 0 then pure (.ok [])
    else do
      let n := chunk dev.info.blockSize pos rest
      match ← dev.readBlocks (pos / dev.info.blockSize) 1 with
      | .error e => pure (.error e)
      | .ok bounce =>
        match ← readBounce dev fuel (pos + n) (rest - n) with
        | .error e => pure (.error e)
        | .ok more => pure (.ok ((bounce.drop (pos % dev.info.blockSize)).take n ++ more))

def blockRead (dev : BlockDev) (off len : Nat) : DiskProg (Except BlockErrno (List UInt8)) :=
  let bs := dev.info.blockSize
  if len = 0 then pure (.ok [])
  else if bs = 0 ∨ off ≥ dev.size ∨ len > dev.size - off then pure (.error .einval)
  else if off % bs = 0 ∧ len % bs = 0 then dev.readBlocks (off / bs) (len / bs % 2 ^ 32)
  else do
    if !(← kzalloc bs) then pure (.error .enomem) else readBounce dev len off len

def patch (bounce : List UInt8) (boff : Nat) (data : List UInt8) : List UInt8 :=
  bounce.take boff ++ data ++ bounce.drop (boff + data.length)

def writeBounce (dev : BlockDev) : Nat → Nat → List UInt8 → DiskProg (Except BlockErrno Unit)
  | 0, _, _ => pure (.ok ())
  | fuel + 1, pos, data =>
    if data = [] then pure (.ok ())
    else do
      let n := chunk dev.info.blockSize pos data.length
      match ← dev.readBlocks (pos / dev.info.blockSize) 1 with
      | .error e => pure (.error e)
      | .ok bounce =>
        match ← dev.writeBlocks (pos / dev.info.blockSize) 1 (patch bounce (pos % dev.info.blockSize) (data.take n)) with
        | .error e => pure (.error e)
        | .ok () => writeBounce dev fuel (pos + n) (data.drop n)

def blockWrite (dev : BlockDev) (off : Nat) (data : List UInt8) : DiskProg (Except BlockErrno Unit) :=
  let bs := dev.info.blockSize
  if !dev.info.writable then pure (.error .enosys)
  else if data.length = 0 then pure (.ok ())
  else if bs = 0 ∨ off ≥ dev.size ∨ data.length > dev.size - off then pure (.error .einval)
  else if off % bs = 0 ∧ data.length % bs = 0 then dev.writeBlocks (off / bs) (data.length / bs % 2 ^ 32) data
  else do
    if !(← kzalloc bs) then pure (.error .enomem) else writeBounce dev data.length off data

-- Registration and probing

def rd32 (bytes : List UInt8) (at_ : Nat) : Nat := ((List.range 4).map (fun i => (bytes.getD (at_ + i) 0).toNat * 256 ^ i)).sum

def rd64 (bytes : List UInt8) (at_ : Nat) : Nat := ((List.range 8).map (fun i => (bytes.getD (at_ + i) 0).toNat * 256 ^ i)).sum

def guidIsZero (entry : List UInt8) : Bool := (List.range 16).all (fun i => entry.getD i 0 == 0)

-- "EFI PART"
def gptMagic : List UInt8 := [69, 70, 73, 32, 80, 65, 82, 84]

-- The disk's name, p and the number, cut to the buffer.
def partName (name : Name) (number : Nat) : Name :=
  (name ++ 112 :: (Nat.toDigits 10 number).map (fun digit => UInt8.ofNat digit.toNat)).take BLOCK_NAME_MAX

variable (devices : List BlockDev)

-- block_register up to the probe, which skips a device with a parent.
def blockInsert (dev : BlockDev) : DiskProg (List BlockDev × Except BlockErrno Unit) :=
  if dev.info.name = [] ∨ dev.info.blockSize = 0 then pure (devices, .error .einval)
  else do
    if !(← kzalloc SIZEOF_BLOCK_DEVICE) then pure (devices, .error .enomem)
    else if devices.any (fun cur => cur.info.name == dev.info.name) then pure (devices, .error .eexist)
    else pure (dev :: devices, .ok ())

def blockRegisterPartition (dev : BlockDev) (number start count : Nat) : DiskProg (List BlockDev) :=
  if number = 0 ∨ count = 0 then pure devices
  else if start ≥ dev.info.blockCount ∨ count > dev.info.blockCount - start then pure devices
  else do
    let info := { dev.info with name := partName dev.info.name number, blockCount := count }
    let (devices, _) ← blockInsert devices (.part info start dev)
    pure devices

-- last - first + 1
def gptCount (entry : List UInt8) : Nat := (rd64 entry 40 - rd64 entry 32 + 1) % 2 ^ 64

def gptEntries (dev : BlockDev) (entriesLba entrySize : Nat) : Nat → Nat → List BlockDev → DiskProg (List BlockDev)
  | 0, _, devices => pure devices
  | rounds + 1, i, devices => do
    let off := (entriesLba * dev.info.blockSize + i * entrySize) % 2 ^ 64
    if (off + entrySize) % 2 ^ 64 > dev.size then pure devices
    else
      match ← blockRead dev off entrySize with
      | .error _ => pure devices
      | .ok entry =>
        if guidIsZero entry ∨ rd64 entry 40 < rd64 entry 32 then gptEntries dev entriesLba entrySize rounds (i + 1) devices
        else do
          let devices ← blockRegisterPartition devices dev (i + 1) (rd64 entry 32) (gptCount entry)
          gptEntries dev entriesLba entrySize rounds (i + 1) devices

def blockProbeGpt (dev : BlockDev) : DiskProg (List BlockDev × Except BlockErrno Unit) :=
  if dev.info.blockSize < 512 ∨ dev.info.blockCount < 2 then pure (devices, .error .einval)
  else do
    if !(← kzalloc dev.info.blockSize) then pure (devices, .error .enomem)
    else
      match ← blockRead dev dev.info.blockSize dev.info.blockSize with
      | .error e => pure (devices, .error e)
      | .ok hdr =>
        if hdr.take 8 ≠ gptMagic then pure (devices, .error .enoent)
        else if rd32 hdr 84 < 128 ∨ rd32 hdr 84 > 4096 ∨ rd32 hdr 80 = 0 then pure (devices, .error .einval)
        else if rd64 hdr 72 ≥ dev.info.blockCount then pure (devices, .error .einval)
        else do
          if !(← kzalloc (rd32 hdr 84)) then pure (devices, .error .enomem)
          else do
            let devices ← gptEntries dev (rd64 hdr 72) (rd32 hdr 84) (rd32 hdr 80) 0 devices
            pure (devices, .ok ())

-- From byte 446 of the first block on.
def mbrEntries (dev : BlockDev) (mbr : List UInt8) : List Nat → List BlockDev → DiskProg (List BlockDev)
  | [], devices => pure devices
  | i :: rest, devices =>
    let e := 446 + i * 16
    if mbr.getD (e + 4) 0 = 0 ∨ rd32 mbr (e + 12) = 0 then mbrEntries dev mbr rest devices
    else do
      let devices ← blockRegisterPartition devices dev (i + 1) (rd32 mbr (e + 8)) (rd32 mbr (e + 12))
      mbrEntries dev mbr rest devices

def blockProbeMbr (dev : BlockDev) : DiskProg (List BlockDev) :=
  if dev.hasParent ∨ dev.info.blockSize < 512 ∨ dev.info.blockCount = 0 then pure devices
  else do
    if !(← kzalloc dev.info.blockSize) then pure devices
    else
      match ← blockRead dev 0 512 with
      | .error _ => pure devices
      | .ok mbr =>
        if mbr.getD 510 0 ≠ 0x55 ∨ mbr.getD 511 0 ≠ 0xAA then pure devices
        else if (List.range 4).any (fun i => mbr.getD (446 + i * 16 + 4) 0 == 0xEE) then do
          let (devices, _) ← blockProbeGpt devices dev
          pure devices
        else mbrEntries dev mbr (List.range 4) devices

def blockRegister (src : BlockDev) : DiskProg (List BlockDev × Except BlockErrno Unit) := do
  match ← blockInsert devices src with
  | (devices, .error e) => pure (devices, .error e)
  | (devices, .ok ()) => do
    let devices ← blockProbeMbr devices src
    pure (devices, .ok ())

end Lyr.Dev
