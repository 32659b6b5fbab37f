import Lyr.Dev.BlockArray

set_option autoImplicit false

namespace Lyr.Dev

open Lyr.Lib

variable {σ : Type} {info : BlockInfo} {hi lo : Nat} {machine : DiskMachine σ} {contents : σ → Bytes}

def DiskOp.Within (lo hi : Nat) : DiskOp → Prop
  | .kzalloc _ => True
  | .readBlocks lba count => lo ≤ lba ∧ lba + count ≤ hi
  | .writeBlocks lba count _ => lo ≤ lba ∧ lba + count ≤ hi

abbrev Stays (lo hi : Nat) {α : Type} (prog : DiskProg α) : Prop := prog.Holds (DiskOp.Within lo hi) (fun _ => True)

structure Spans (dev : BlockDev) (lo hi : Nat) : Prop where
  reads : ∀ lba count, lba + count ≤ dev.info.blockCount → Stays lo hi (dev.readBlocks lba count)
  writes : ∀ lba count data, lba + count ≤ dev.info.blockCount → Stays lo hi (dev.writeBlocks lba count data)

theorem disk_spans (info : BlockInfo) : Spans (.disk info) 0 info.blockCount where
  reads _ _ inside := .ask _ _ ⟨Nat.zero_le _, inside⟩ (fun _ => .done _ trivial)
  writes _ _ _ inside := .ask _ _ ⟨Nat.zero_le _, inside⟩ (fun _ => .done _ trivial)

variable {disk : BlockInfo} {start off len : Nat} {dev : BlockDev} {α : Type} {before : List BlockDev}

theorem part_spans (inside : start + info.blockCount ≤ disk.blockCount) (physical : disk.blockCount ≤ 2 ^ 64) :
    Spans (.part info start (.disk disk)) start (start + info.blockCount) where
  reads lba count _ := by
    rw [BlockDev.readBlocks]
    split
    · exact .done _ trivial
    split
    · exact .done _ trivial
    next some refused =>
    rw [Nat.mod_eq_of_lt (by omega)]
    exact .ask _ _ ⟨by omega, by omega⟩ (fun _ => .done _ trivial)
  writes lba count data _ := by
    rw [BlockDev.writeBlocks]
    split
    · exact .done _ trivial
    split
    · exact .done _ trivial
    split
    · exact .done _ trivial
    next some refused =>
    rw [Nat.mod_eq_of_lt (by omega)]
    exact .ask _ _ ⟨by omega, by omega⟩ (fun _ => .done _ trivial)

theorem aligned_within (fits : dev.info.blockCount * dev.info.blockSize < 2 ^ 64)
    (aligned : off % dev.info.blockSize = 0 ∧ len % dev.info.blockSize = 0) (whole : 0 < dev.info.blockSize)
    (inside : off + len ≤ dev.size) :
    off / dev.info.blockSize + len / dev.info.blockSize % 2 ^ 32 ≤ dev.info.blockCount := by
  have place := aligned_inside fits whole aligned.1 aligned.2 inside
  have cut := Nat.mod_le (len / dev.info.blockSize) (2 ^ 32)
  omega

theorem alloc_holds {n : Nat} {post : α → Prop} {rest : Bool → DiskProg α}
    (goes : ∀ granted, (rest granted).Holds (DiskOp.Within lo hi) post) : (kzalloc n >>= rest).Holds (DiskOp.Within lo hi) post :=
  .ask _ _ trivial goes

section

variable {dev : BlockDev} {lo hi : Nat} (spans : Spans dev lo hi)

include spans

theorem read_bounce_stays (fuel pos rest : Nat) (inside : pos + rest ≤ dev.info.blockCount * dev.info.blockSize) :
    Stays lo hi (readBounce dev fuel pos rest) := by
  induction fuel generalizing pos rest with
  | zero => exact .done _ trivial
  | succ fuel ih =>
    rw [readBounce]
    split
    · exact .done _ trivial
    have short := chunk_le dev.info.blockSize pos rest
    refine Prog.holds_bind (spans.reads _ _ (block_inside _ _ pos (by omega))) (fun bounce _ => ?_)
    cases bounce with
    | error e => exact .done _ trivial
    | ok bounce =>
      refine Prog.holds_bind (ih (pos + chunk dev.info.blockSize pos rest) (rest - chunk dev.info.blockSize pos rest) (by omega))
        (fun more _ => ?_)
      cases more <;> exact .done _ trivial

theorem write_bounce_stays {fuel : Nat} (pos : Nat) (data : List UInt8)
    (inside : pos + data.length ≤ dev.info.blockCount * dev.info.blockSize) :
    Stays lo hi (writeBounce dev fuel pos data) := by
  induction fuel generalizing pos data with
  | zero => exact .done _ trivial
  | succ fuel ih =>
    rw [writeBounce]
    split
    · exact .done _ trivial
    next some =>
    have more : 0 < data.length := List.length_pos_iff.mpr some
    have short := chunk_le dev.info.blockSize pos data.length
    have place := block_inside dev.info.blockSize dev.info.blockCount pos (by omega)
    refine Prog.holds_bind (spans.reads _ _ place) (fun bounce _ => ?_)
    cases bounce with
    | error e => exact .done _ trivial
    | ok bounce =>
      refine Prog.holds_bind (spans.writes _ _ _ place) (fun wrote _ => ?_)
      cases wrote with
      | error e => exact .done _ trivial
      | ok _ => exact ih _ _ (by rw [List.length_drop]; omega)

section

variable (fits : dev.info.blockCount * dev.info.blockSize < 2 ^ 64)
include fits

theorem block_read_stays (off len : Nat) : Stays lo hi (blockRead dev off len) := by
  have size : dev.size = dev.info.blockCount * dev.info.blockSize := Nat.mod_eq_of_lt fits
  rw [blockRead]
  split
  · exact .done _ trivial
  split
  · exact .done _ trivial
  next some refused =>
  split
  · next aligned => exact spans.reads _ _ (aligned_within fits aligned (by omega) (by omega))
  refine alloc_holds (fun granted => ?_)
  split
  · exact .done _ trivial
  · exact read_bounce_stays spans len off len (by omega)

theorem block_write_stays (off : Nat) (data : List UInt8) :
    Stays lo hi (blockWrite dev off data) := by
  have size : dev.size = dev.info.blockCount * dev.info.blockSize := Nat.mod_eq_of_lt fits
  rw [blockWrite]
  split
  · exact .done _ trivial
  split
  · exact .done _ trivial
  split
  · exact .done _ trivial
  next some refused =>
  split
  · next aligned => exact spans.writes _ _ _ (aligned_within fits aligned (by omega) (by omega))
  refine alloc_holds (fun granted => ?_)
  split
  · exact .done _ trivial
  · exact write_bounce_stays spans off data (by omega)

end

end

def IsPartition (disk : BlockInfo) (dev : BlockDev) (start : Nat) : Prop :=
  ∃ info, dev = .part info start (.disk disk) ∧ info.blockSize = disk.blockSize ∧ 0 < info.blockCount ∧
    start + info.blockCount ≤ disk.blockCount

def Adds (disk : BlockInfo) (before after : List BlockDev) : Prop :=
  ∀ dev ∈ after, dev ∈ before ∨ dev = .disk disk ∨ ∃ start, IsPartition disk dev start

theorem adds_trans {first second third : List BlockDev} (begins : Adds disk first second) (ends : Adds disk second third) :
    Adds disk first third := by
  intro dev inside
  obtain old | new := ends dev inside
  · exact begins dev old
  · exact .inr new

theorem adds_refl {devices : List BlockDev} : Adds disk devices devices := fun _ inside => .inl inside

section

variable {disk : BlockInfo}

theorem block_insert_adds (devices : List BlockDev) (known : dev = .disk disk ∨ ∃ start, IsPartition disk dev start) :
    (blockInsert devices dev).Holds (DiskOp.Within 0 disk.blockCount) (fun after => Adds disk devices after.1) := by
  rw [blockInsert]
  split
  · exact .done _ adds_refl
  refine alloc_holds (fun granted => ?_)
  split
  · exact .done _ adds_refl
  split
  · exact .done _ adds_refl
  refine .done _ (fun other inside => ?_)
  obtain rfl | old := List.mem_cons.mp inside
  · exact .inr known
  · exact .inl old

variable (disk) in
theorem register_partition_adds (devices : List BlockDev) {number count : Nat} :
    (blockRegisterPartition devices (.disk disk) number start count).Holds (DiskOp.Within 0 disk.blockCount) (Adds disk devices) := by
  rw [blockRegisterPartition]
  split
  · exact .done _ adds_refl
  split
  · exact .done _ adds_refl
  next some refused =>
  dsimp only [BlockDev.info] at some refused
  refine Prog.holds_bind (block_insert_adds devices (.inr ⟨start, _, rfl, rfl, ?_, ?_⟩)) (fun after adds => .done _ adds)
  · show 0 < count
    omega
  · show start + count ≤ disk.blockCount
    omega

variable (fits : disk.blockCount * disk.blockSize < 2 ^ 64)

include fits

theorem disk_read_stays : Stays 0 disk.blockCount (blockRead (.disk disk) off len) := block_read_stays (disk_spans disk) fits off len

theorem gpt_entries_add {entriesLba entrySize rounds : Nat} (i : Nat) (devices : List BlockDev) (adds : Adds disk before devices) :
    (gptEntries (.disk disk) entriesLba entrySize rounds i devices).Holds (DiskOp.Within 0 disk.blockCount) (Adds disk before) := by
  induction rounds generalizing i devices with
  | zero => exact .done _ adds
  | succ rounds ih =>
    rw [gptEntries]
    split
    · exact .done _ adds
    refine Prog.holds_bind (disk_read_stays fits) (fun entry _ => ?_)
    cases entry with
    | error e => exact .done _ adds
    | ok entry =>
      dsimp only
      split
      · exact ih (i + 1) devices adds
      · exact Prog.holds_bind (register_partition_adds disk devices) (fun after more => ih (i + 1) after (adds_trans adds more))

theorem probe_gpt_adds (devices : List BlockDev) :
    (blockProbeGpt devices (.disk disk)).Holds (DiskOp.Within 0 disk.blockCount) (fun after => Adds disk devices after.1) := by
  rw [blockProbeGpt]
  split
  · exact .done _ adds_refl
  refine alloc_holds (fun granted => ?_)
  split
  · exact .done _ adds_refl
  refine Prog.holds_bind (disk_read_stays fits) (fun hdr _ => ?_)
  cases hdr with
  | error e => exact .done _ adds_refl
  | ok hdr =>
    dsimp only
    split
    · exact .done _ adds_refl
    split
    · exact .done _ adds_refl
    split
    · exact .done _ adds_refl
    refine alloc_holds (fun granted => ?_)
    split
    · exact .done _ adds_refl
    · exact Prog.holds_bind (gpt_entries_add fits _ devices adds_refl) (fun after adds => .done _ adds)

omit fits in
theorem mbr_entries_add (mbr : List UInt8) {entries : List Nat} (devices : List BlockDev) (adds : Adds disk before devices) :
    (mbrEntries (.disk disk) mbr entries devices).Holds (DiskOp.Within 0 disk.blockCount) (Adds disk before) := by
  induction entries generalizing devices with
  | nil => exact .done _ adds
  | cons i rest ih =>
    rw [mbrEntries]
    split
    · exact ih devices adds
    · exact Prog.holds_bind (register_partition_adds disk devices) (fun after more => ih after (adds_trans adds more))

theorem probe_mbr_adds (devices : List BlockDev) :
    (blockProbeMbr devices (.disk disk)).Holds (DiskOp.Within 0 disk.blockCount) (Adds disk devices) := by
  rw [blockProbeMbr]
  split
  · exact .done _ adds_refl
  refine alloc_holds (fun granted => ?_)
  split
  · exact .done _ adds_refl
  refine Prog.holds_bind (disk_read_stays fits) (fun mbr _ => ?_)
  cases mbr with
  | error e => exact .done _ adds_refl
  | ok mbr =>
    dsimp only
    split
    · exact .done _ adds_refl
    split
    · exact Prog.holds_bind (probe_gpt_adds fits devices) (fun after adds => .done _ adds)
    · exact mbr_entries_add mbr devices adds_refl

theorem register_adds (devices : List BlockDev) :
    (blockRegister devices (.disk disk)).Holds (DiskOp.Within 0 disk.blockCount) (fun after => Adds disk devices after.1) := by
  refine Prog.holds_bind (block_insert_adds devices (.inl rfl)) (fun inserted adds => ?_)
  obtain ⟨after, result⟩ := inserted
  cases result with
  | error e => exact .done _ adds
  | ok _ => exact Prog.holds_bind (probe_mbr_adds fits after) (fun last more => .done _ (adds_trans adds more))

end

theorem store_shifted (bytes : Bytes) (base address : Nat) (data : List UInt8) :
    (fun a => storeBytes bytes (base + address) data (base + a)) = storeBytes (fun a => bytes (base + a)) address data := by
  funext a
  by_cases inside : address ≤ a ∧ a < address + data.length
  · rw [store_bytes_at (by omega) (by omega), store_bytes_at inside.1 inside.2, Nat.add_sub_add_left]
  · rw [store_bytes_outside _ (by omega), store_bytes_outside _ (by omega)]

-- Block b of a part is block lba_offset + b of its disk.
theorem partition_acts_as_array (array : ActsAsArray machine contents (.disk disk)) (same : info.blockSize = disk.blockSize)
    (inside : start + info.blockCount ≤ disk.blockCount) (physical : disk.blockCount ≤ 2 ^ 64) :
    ActsAsArray machine (fun s a => contents s (disk.blockSize * start + a)) (.part info start (.disk disk)) where
  alloc s n := by rw [array.alloc]
  quiet s lba count fit := by
    dsimp only [BlockDev.info] at fit ⊢
    rw [BlockDev.readBlocks]
    split
    · rfl
    next some =>
    rw [if_neg (by omega), Nat.mod_eq_of_lt (by omega), array.quiet s (start + lba) count (by show _ ≤ disk.blockCount; omega)]
  reads s lba count data fit done := by
    dsimp only [BlockDev.info] at fit ⊢
    rw [BlockDev.readBlocks] at done
    split at done
    · next none =>
        subst none
        exact (Except.ok.inj done).symm
    next some =>
    rw [if_neg (by omega), Nat.mod_eq_of_lt (by omega)] at done
    rw [array.reads s (start + lba) count data (by show _ ≤ disk.blockCount; omega) done]
    dsimp only [BlockDev.info]
    rw [same]
    exact load_bytes_congr (fun i _ => by rw [Nat.mul_add, Nat.add_assoc])
  writes s lba count data fit length done := by
    dsimp only [BlockDev.info] at fit length ⊢
    rw [BlockDev.writeBlocks] at done ⊢
    split at done
    · cases done
    next writable =>
    rw [if_neg writable]
    split at done
    · next none =>
        subst none
        rw [List.eq_nil_of_length_eq_zero length, store_bytes_nil]
        rfl
    next some =>
    rw [if_neg (by omega), Nat.mod_eq_of_lt (by omega)] at done
    rw [if_neg some, if_neg (by omega), Nat.mod_eq_of_lt (by omega)]
    rw [array.writes s (start + lba) count data (by show _ ≤ disk.blockCount; omega) (by rw [length, same]; rfl) done]
    rw [same, Nat.mul_add]
    exact store_shifted (contents s) (disk.blockSize * start) (disk.blockSize * lba) data

-- A write changes no bytes but those of its blocks, even where it fails.
structure Local (machine : DiskMachine σ) (contents : σ → Bytes) (disk : BlockInfo) : Prop where
  alloc : ∀ s n, contents (machine (.kzalloc n) s).2 = contents s
  reads : ∀ s lba count, contents (machine (.readBlocks lba count) s).2 = contents s
  writes : ∀ s lba count data a, a < disk.blockSize * lba ∨ disk.blockSize * (lba + count) ≤ a →
    contents (machine (.writeBlocks lba count data) s).2 a = contents s a

theorem stays_frame (inPlace : Local machine contents disk)
    {prog : DiskProg α} (stays : Stays lo hi prog) (s : σ) {a : Nat} (outside : a < disk.blockSize * lo ∨ disk.blockSize * hi ≤ a) :
    contents (prog.run machine s).2 a = contents s a := by
  refine (Prog.holds_run machine (DiskOp.Within lo hi) (fun _ => True) (fun t => contents t a = contents s a) ?_ prog s stays rfl).2
  intro op t within kept
  cases op with
  | kzalloc n => rw [inPlace.alloc, kept]
  | readBlocks lba count => rw [inPlace.reads, kept]
  | writeBlocks lba count data =>
    refine (inPlace.writes t lba count data a ?_).trans kept
    have low := Nat.mul_le_mul_left disk.blockSize within.1
    have high := Nat.mul_le_mul_left disk.blockSize within.2
    omega

structure Confined (disk : BlockInfo) (dev : BlockDev) (start : Nat) : Prop where
  some : 0 < dev.info.blockCount
  inside : start + dev.info.blockCount ≤ disk.blockCount
  reads : ∀ off len, Stays start (start + dev.info.blockCount) (blockRead dev off len)
  writes : ∀ off data, Stays start (start + dev.info.blockCount) (blockWrite dev off data)
  blocks : ∀ {σ : Type} (machine : DiskMachine σ) (contents : σ → Bytes), ActsAsArray machine contents (.disk disk) →
    ActsAsArray machine (fun s a => contents s (disk.blockSize * start + a)) dev
  frame : ∀ {σ : Type} (machine : DiskMachine σ) (contents : σ → Bytes), Local machine contents disk → ∀ s off data a,
    a < disk.blockSize * start ∨ disk.blockSize * (start + dev.info.blockCount) ≤ a →
    contents ((blockWrite dev off data).run machine s).2 a = contents s a

theorem partition_confined (large : 512 ≤ disk.blockSize)
    (fits : disk.blockCount * disk.blockSize < 2 ^ 64) (part : IsPartition disk dev start) : Confined disk dev start := by
  obtain ⟨info, rfl, same, some, inside⟩ := part
  have physical : disk.blockCount ≤ 2 ^ 64 := by
    have := Nat.le_mul_of_pos_right disk.blockCount (show 0 < disk.blockSize by omega)
    omega
  have spans := part_spans inside physical
  have small : info.blockCount * info.blockSize < 2 ^ 64 := by
    have := Nat.mul_le_mul_right disk.blockSize (show info.blockCount ≤ disk.blockCount by omega)
    rw [same]
    omega
  have writes := fun off data => block_write_stays spans small off data
  exact ⟨some, inside, fun off len => block_read_stays spans small off len, writes,
    fun machine contents array => partition_acts_as_array array same inside physical,
    fun machine contents inPlace s off data a outside => stays_frame inPlace (writes off data) s outside⟩

theorem registered_partitions_confined (disk : BlockInfo) (large : 512 ≤ disk.blockSize)
    (fits : disk.blockCount * disk.blockSize < 2 ^ 64)
    (devices : List BlockDev) :
    (blockRegister devices (.disk disk)).Holds (DiskOp.Within 0 disk.blockCount) (fun (after, _) =>
      ∀ dev ∈ after, dev ∉ devices → dev = .disk disk ∨ ∃ start, IsPartition disk dev start ∧ Confined disk dev start) := by
  refine Prog.holds_mono (register_adds fits devices) (fun _ within => within) (fun after adds dev inside new => ?_)
  obtain old | itself | ⟨start, part⟩ := adds dev inside
  · exact absurd old new
  · exact .inl itself
  · exact .inr ⟨start, part, partition_confined large fits part⟩

def mbrDisk : BlockInfo := ⟨[115], 512, 100, true⟩

def mbrBytes : Bytes := fun a =>
  if a = 450 then 0x83 else if a = 454 then 10 else if a = 458 then 20 else if a = 510 then 0x55 else if a = 511 then 0xAA else 0

theorem mbr_partition_confined : ((blockRegister [] (.disk mbrDisk)).run (ramMachine 512) mbrBytes).1.1 =
      [.part ⟨[115, 112, 49], 512, 20, true⟩ 10 (.disk mbrDisk), .disk mbrDisk] ∧
    (blockRegister [] (.disk mbrDisk)).Holds (DiskOp.Within 0 100) (fun (after, _) =>
      ∀ dev ∈ after, dev ∉ [] → dev = .disk mbrDisk ∨ ∃ start, IsPartition mbrDisk dev start ∧ Confined mbrDisk dev start) :=
  ⟨by decide +kernel, registered_partitions_confined mbrDisk (by decide) (by decide) []⟩

end Lyr.Dev
