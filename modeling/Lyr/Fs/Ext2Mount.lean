import Lyr.Fs.Descriptor
import Lyr.Lib.Bytes
import Lyr.Lib.Ends

set_option autoImplicit false

namespace Lyr.Fs

open Lyr.Lib

-- The first division by zero, shift or result past the width, or the error the source returns.
inductive MountEnd where
  | divideByZero
  | shiftRange
  | wraps
  | refused (errno : FdErrno)
  deriving DecidableEq, Repr

def MountEnd.Refused : MountEnd → Prop
  | .refused _ => True
  | .divideByZero | .shiftRange | .wraps => False

def insist (holds : Prop) [Decidable holds] (stop : MountEnd) : Except MountEnd Unit := if holds then .ok () else .error stop

-- Answers of mount table, block layer, heap and VFS, in the order of the calls.
abbrev Answers := Nat → Option FdErrno

def Answers.ask (answers : Answers) (call : Nat) : Except MountEnd Unit :=
  insist (answers call = none) (.refused ((answers call).getD .einval))

structure Ext2Super where
  inodesCount : Nat
  blocksCount : Nat
  firstDataBlock : Nat
  logBlockSize : Nat
  blocksPerGroup : Nat
  inodesPerGroup : Nat
  magic : Nat
  inodeSize : Nat
  featureIncompat : Nat

def EXT2_SUPER_OFFSET : Nat := 1024
def EXT2_SUPER_MAGIC : Nat := 0xEF53
def EXT2_ROOT_INO : Nat := 2

variable (image : Bytes)

def superAt : Ext2Super :=
  let field width offset := load image width (EXT2_SUPER_OFFSET + offset)
  ⟨field 4 0, field 4 4, field 4 20, field 4 24, field 4 32, field 4 40, field 2 56, field 2 88, field 4 96⟩

structure Ext2Fs where
  sb : Ext2Super
  blockSize : Nat
  groupCount : Nat
  gdOff : Nat

def inodeAddress (fs : Ext2Fs) (ino : Nat) : Nat :=
  let group := (ino - 1) / fs.sb.inodesPerGroup
  let index := (ino - 1) % fs.sb.inodesPerGroup
  let inodeSize := if fs.sb.inodeSize = 0 then 128 else fs.sb.inodeSize
  load image 4 (fs.gdOff + 32 * group + 8) * fs.blockSize + index * inodeSize

-- read_inode and write_inode before the device.
def inodeOffset (fs : Ext2Fs) (ino : Nat) : Except MountEnd Nat := do
  insist (ino ≠ 0 ∧ ino ≤ fs.sb.inodesCount) (.refused (.fs .enoent))
  insist (fs.sb.inodesPerGroup ≠ 0) .divideByZero
  insist ((ino - 1) / fs.sb.inodesPerGroup < fs.groupCount) (.refused (.fs .enoent))
  insist (inodeAddress image fs ino < 2 ^ 64) .wraps
  pure (inodeAddress image fs ino)

-- read_block and write_block before the device.
def blockOffset (fs : Ext2Fs) (block : Nat) : Except MountEnd Nat := do
  insist (block * fs.blockSize < 2 ^ 64) .wraps
  pure (block * fs.blockSize)

-- What alloc_block and alloc_inode number a free bit of a group.
def blockNumber (fs : Ext2Fs) (group bit : Nat) : Nat := (group * fs.sb.blocksPerGroup + bit + fs.sb.firstDataBlock) % 2 ^ 32

def inodeNumber (fs : Ext2Fs) (group bit : Nat) : Nat := (group * fs.sb.inodesPerGroup + bit + 1) % 2 ^ 32

def ext2Mount (answers : Answers) : Except MountEnd Ext2Fs := do
  answers.ask 0
  answers.ask 1
  let sb := superAt image
  insist (sb.magic = EXT2_SUPER_MAGIC) (.refused (.fs .enoent))
  insist (sb.featureIncompat &&& 0xFFFFFFFD = 0) (.refused (.fs .enosys))
  answers.ask 2
  insist (sb.logBlockSize < 32) .shiftRange
  let blockSize := 1024 * 2 ^ sb.logBlockSize
  insist (blockSize < 2 ^ 32) .wraps
  insist (sb.blocksCount + sb.blocksPerGroup < 2 ^ 32) .wraps
  insist (sb.blocksPerGroup ≠ 0) .divideByZero
  let groupCount := (sb.blocksCount + sb.blocksPerGroup - 1) / sb.blocksPerGroup
  insist (¬(blockSize < 1024 ∨ 4096 < blockSize ∨ groupCount = 0)) (.refused .einval)
  answers.ask 3
  answers.ask 4
  answers.ask 5
  let fs : Ext2Fs := ⟨sb, blockSize, groupCount, if blockSize = 1024 then 2048 else blockSize⟩
  let _ ← inodeOffset image fs EXT2_ROOT_INO
  answers.ask 6
  answers.ask 7
  pure fs

structure MountSound (image : Bytes) (fs : Ext2Fs) : Prop where
  size : fs.blockSize = 1024 ∨ fs.blockSize = 2048 ∨ fs.blockSize = 4096
  blocks : fs.sb.blocksPerGroup ≠ 0
  inodes : fs.sb.inodesPerGroup ≠ 0
  covered : ∀ block, block < fs.sb.blocksCount → block / fs.sb.blocksPerGroup < fs.groupCount
  inode : ∀ ino, ino ≤ fs.sb.inodesCount → Ends (inodeOffset image fs ino) (fun _ => True) MountEnd.Refused
  block : ∀ block, block < 2 ^ 32 → Ends (blockOffset fs block) (fun _ => True) MountEnd.Refused
  -- A number that passes the range test is no wrapped sum.
  blockBit : ∀ group bit, group < fs.groupCount → bit < fs.sb.blocksPerGroup → blockNumber fs group bit < fs.sb.blocksCount →
    blockNumber fs group bit = group * fs.sb.blocksPerGroup + bit + fs.sb.firstDataBlock
  inodeBit : ∀ group bit, group < fs.groupCount → bit < fs.sb.inodesPerGroup → inodeNumber fs group bit ≠ 0 →
    inodeNumber fs group bit ≤ fs.sb.inodesCount → inodeNumber fs group bit = group * fs.sb.inodesPerGroup + bit + 1

def MountSafe : Prop := ∀ answers, Ends (ext2Mount image answers) (MountSound image) MountEnd.Refused

def Ext2Super.groups (sb : Ext2Super) : Nat := (sb.blocksCount + sb.blocksPerGroup - 1) / sb.blocksPerGroup

def Ext2Super.Fits (sb : Ext2Super) : Prop :=
  sb.magic = EXT2_SUPER_MAGIC → sb.featureIncompat &&& 0xFFFFFFFD = 0 →
    sb.logBlockSize < 22 ∧ sb.blocksCount + sb.blocksPerGroup < 2 ^ 32 ∧ sb.blocksPerGroup ≠ 0 ∧
    (sb.logBlockSize ≤ 2 → sb.blocksCount ≠ 0 → EXT2_ROOT_INO ≤ sb.inodesCount → sb.inodesPerGroup ≠ 0 ∧
      (1 / sb.inodesPerGroup < sb.groups →
        sb.groups * sb.blocksPerGroup + sb.firstDataBlock ≤ 2 ^ 32 ∧ sb.groups * sb.inodesPerGroup ≤ 2 ^ 32))

section
variable {α : Type} {post : α → Prop} {holds : Prop} [Decidable holds] {rest : Unit → Except MountEnd α}

theorem ends_refusing {errno : FdErrno} :
    Ends (insist holds (.refused errno) >>= rest) post MountEnd.Refused ↔ (holds → Ends (rest ()) post MountEnd.Refused) := by
  by_cases met : holds <;> simp [insist, met, Ends, MountEnd.Refused, bind, Except.bind]

theorem ends_faulting (stop : MountEnd) (fault : ¬stop.Refused) :
    Ends (insist holds stop >>= rest) post MountEnd.Refused ↔ holds ∧ Ends (rest ()) post MountEnd.Refused := by
  by_cases met : holds <;> simp [insist, met, Ends, fault, bind, Except.bind]

end

theorem inode_address_fits {image : Bytes} {fs : Ext2Fs} {ino : Nat} (read : fs.sb = superAt image) (small : fs.blockSize ≤ 4096)
    (some : fs.sb.inodesPerGroup ≠ 0) : inodeAddress image fs ino < 2 ^ 64 := by
  have index : (ino - 1) % fs.sb.inodesPerGroup < 256 ^ 4 := (Nat.mod_lt _ (Nat.pos_of_ne_zero some)).trans (read ▸ load_lt image 4 _)
  have size : (if fs.sb.inodeSize = 0 then 128 else fs.sb.inodeSize) ≤ 256 ^ 2 := by
    have : fs.sb.inodeSize < 256 ^ 2 := read ▸ load_lt image 2 _
    split_ifs <;> omega
  have table := Nat.mul_le_mul (load_lt image 4 (fs.gdOff + 32 * ((ino - 1) / fs.sb.inodesPerGroup) + 8)).le small
  have row := Nat.mul_le_mul index.le size
  simp only [inodeAddress]
  omega

theorem bit_below {count width group bit : Nat} (known : group < count) (inside : bit < width) :
    group * width + bit < count * width := by
  have := Nat.mul_le_mul_right width known
  rw [Nat.succ_mul] at this
  omega

theorem bit_reached {count width target : Nat} (below : target < count * width) :
    ∃ group bit, group < count ∧ bit < width ∧ group * width + bit = target := by
  have some : 0 < width := Nat.pos_of_ne_zero (by rintro rfl; simp at below)
  exact ⟨target / width, target % width, (Nat.div_lt_iff_lt_mul some).mpr below, Nat.mod_lt _ some, Nat.div_add_mod' target width⟩

theorem sound_iff {image : Bytes} (fs : Ext2Fs) (read : fs.sb = superAt image)
    (size : fs.blockSize = 1024 ∨ fs.blockSize = 2048 ∨ fs.blockSize = 4096) (groups : fs.groupCount = fs.sb.groups)
    (blocks : fs.sb.blocksPerGroup ≠ 0) (used : fs.sb.blocksCount ≠ 0) (inodes : fs.sb.inodesPerGroup ≠ 0)
    (listed : 2 ≤ fs.sb.inodesCount) :
    MountSound image fs ↔ fs.sb.groups * fs.sb.blocksPerGroup + fs.sb.firstDataBlock ≤ 2 ^ 32 ∧
      fs.sb.groups * fs.sb.inodesPerGroup ≤ 2 ^ 32 := by
  constructor
  · intro sound
    have start : fs.sb.firstDataBlock < 256 ^ 4 := read ▸ load_lt image 4 _
    refine ⟨Nat.not_lt.mp fun past => ?_, Nat.not_lt.mp fun past => ?_⟩
    · obtain ⟨group, bit, known, inside, sum⟩ := bit_reached (Nat.sub_lt_right_of_lt_add start.le past)
      have := sound.blockBit group bit (groups ▸ known) inside
      simp only [blockNumber] at this
      omega
    · obtain ⟨group, bit, known, inside, sum⟩ := bit_reached past
      have := sound.inodeBit group bit (groups ▸ known) inside
      simp only [inodeNumber] at this
      omega
  · rintro ⟨low, high⟩
    refine ⟨size, blocks, inodes, fun block inside => ?_, fun ino _ => ?_, fun block narrow => ?_, fun group bit known inside _ => ?_,
      fun group bit known inside positive _ => ?_⟩
    · have wide := Nat.pos_of_ne_zero blocks
      refine (Nat.div_lt_iff_lt_mul wide).mpr (inside.trans_le ?_)
      have := Nat.div_add_mod' (fs.sb.blocksCount + fs.sb.blocksPerGroup - 1) fs.sb.blocksPerGroup
      have := Nat.mod_lt (fs.sb.blocksCount + fs.sb.blocksPerGroup - 1) wide
      simp only [groups, Ext2Super.groups]
      omega
    · have fits : inodeAddress image fs ino < 2 ^ 64 := inode_address_fits read (by omega) inodes
      simp only [inodeOffset, ends_refusing, ends_faulting .divideByZero id, ends_faulting .wraps id]
      exact fun _ => ⟨inodes, fun _ => ⟨fits, trivial⟩⟩
    · have := Nat.mul_le_mul narrow.le (show fs.blockSize ≤ 4096 by omega)
      exact (ends_faulting .wraps id).mpr ⟨by omega, trivial⟩
    · have := bit_below (groups ▸ known) inside
      exact Nat.mod_eq_of_lt (by omega)
    · have := bit_below (groups ▸ known) inside
      simp only [inodeNumber] at positive ⊢
      omega

theorem geometry_iff {sb : Ext2Super} (some : sb.blocksPerGroup ≠ 0) :
    ¬(1024 * 2 ^ sb.logBlockSize < 1024 ∨ 4096 < 1024 * 2 ^ sb.logBlockSize ∨ sb.groups = 0) ↔ sb.logBlockSize ≤ 2 ∧
      sb.blocksCount ≠ 0 := by
  have used : sb.groups = 0 ↔ sb.blocksCount = 0 := by
    rw [Ext2Super.groups, Nat.div_eq_zero_iff]
    omega
  rw [used, not_or, not_or]
  by_cases small : sb.logBlockSize ≤ 2
  · interval_cases sb.logBlockSize <;> simp
  · have := Nat.pow_le_pow_right (n := 2) (by decide) (Nat.lt_of_not_le small)
    omega

end Lyr.Fs
