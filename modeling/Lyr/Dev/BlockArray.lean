import Lyr.Dev.Block
import Lyr.Lib.Run

set_option autoImplicit false

namespace Lyr.Dev

open Lyr.Lib

variable {σ : Type} {dev : BlockDev} {fuel len off : Nat}

abbrev DiskMachine (σ : Type) := (op : DiskOp) → σ → DiskAns op × σ

variable {machine : DiskMachine σ} {contents : σ → Bytes}

structure ActsAsArray (machine : DiskMachine σ) (contents : σ → Bytes) (dev : BlockDev) : Prop where
  alloc : ∀ s n, contents (machine (.kzalloc n) s).2 = contents s
  quiet : ∀ s lba count, lba + count ≤ dev.info.blockCount → contents ((dev.readBlocks lba count).run machine s).2 = contents s
  reads : ∀ s lba count data, lba + count ≤ dev.info.blockCount → ((dev.readBlocks lba count).run machine s).1 = .ok data →
    data = loadBytes (contents s) (dev.info.blockSize * lba) (dev.info.blockSize * count)
  writes : ∀ s lba count data, lba + count ≤ dev.info.blockCount → data.length = dev.info.blockSize * count →
    ((dev.writeBlocks lba count data).run machine s).1 = .ok () →
    contents ((dev.writeBlocks lba count data).run machine s).2 = storeBytes (contents s) (dev.info.blockSize * lba) data

-- Neither the heap nor the functions of the device fail inside the array.
structure NeverFails (machine : DiskMachine σ) (dev : BlockDev) : Prop where
  alloc : ∀ s n, (machine (.kzalloc n) s).1 = true
  reads : ∀ s lba count, lba + count ≤ dev.info.blockCount → ∃ data, ((dev.readBlocks lba count).run machine s).1 = .ok data
  writes : ∀ s lba count data, lba + count ≤ dev.info.blockCount → data.length = dev.info.blockSize * count →
    ((dev.writeBlocks lba count data).run machine s).1 = .ok ()

theorem run_kzalloc (machine : DiskMachine σ) (n : Nat) (s : σ) : (kzalloc n).run machine s = machine (.kzalloc n) s := rfl

theorem block_inside (unit count pos : Nat) (inside : pos < count * unit) : pos / unit + 1 ≤ count := by
  have := Nat.div_lt_of_lt_mul (by rwa [Nat.mul_comm] at inside)
  omega

theorem block_start (unit pos : Nat) : unit * (pos / unit) + pos % unit = pos := Nat.div_add_mod pos unit

theorem patch_length (dev : BlockDev) (pos : Nat) (bounce data : List UInt8)
    (block : bounce.length = dev.info.blockSize) :
    (patch bounce (pos % dev.info.blockSize) (data.take (chunk dev.info.blockSize pos data.length))).length =
      dev.info.blockSize * 1 := by
  rw [patch, List.length_append, List.length_append, List.length_take, List.length_drop, block, List.length_take, chunk]
  omega

theorem aligned_inside (fits : dev.info.blockCount * dev.info.blockSize < 2 ^ 64) (whole : 0 < dev.info.blockSize)
    (start : off % dev.info.blockSize = 0) (count : len % dev.info.blockSize = 0) (inside : off + len ≤ dev.size) :
    off / dev.info.blockSize + len / dev.info.blockSize ≤ dev.info.blockCount := by
  refine Nat.le_of_mul_le_mul_left ?_ whole
  rw [Nat.mul_add, Nat.mul_div_cancel' (Nat.dvd_of_mod_eq_zero start), Nat.mul_div_cancel' (Nat.dvd_of_mod_eq_zero count),
    Nat.mul_comm]
  rwa [BlockDev.size, Nat.mod_eq_of_lt fits] at inside

theorem inside_accepted (size : dev.size = dev.info.blockCount * dev.info.blockSize) (some : len ≠ 0)
    (inside : ∀ i < len, off + i < dev.size) :
    ¬(dev.info.blockSize = 0 ∨ off ≥ dev.size ∨ len > dev.size - off) := by
  have last := inside (len - 1) (by omega)
  rintro (zero | outside)
  · rw [size, zero] at last
    omega
  · omega

section

variable (array : ActsAsArray machine contents dev)

include array

theorem read_bounce_spec (pos rest : Nat) (s : σ) (whole : 0 < dev.info.blockSize) (enough : rest ≤ fuel)
    (inside : pos + rest ≤ dev.info.blockCount * dev.info.blockSize) :
    contents ((readBounce dev fuel pos rest).run machine s).2 = contents s ∧
    (∀ data, ((readBounce dev fuel pos rest).run machine s).1 = .ok data → data = loadBytes (contents s) pos rest) ∧
    (NeverFails machine dev → ∃ data, ((readBounce dev fuel pos rest).run machine s).1 = .ok data) := by
  induction fuel generalizing pos rest s with
  | zero =>
    obtain rfl : rest = 0 := by omega
    exact ⟨rfl, fun data same => (Except.ok.inj same).symm, fun _ => ⟨[], rfl⟩⟩
  | succ fuel ih =>
    rw [readBounce]
    by_cases ended : rest = 0
    · subst ended
      exact ⟨rfl, fun data same => (Except.ok.inj same).symm, fun _ => ⟨[], rfl⟩⟩
    have positive := chunk_pos dev.info.blockSize pos rest whole (by omega)
    have short := chunk_le dev.info.blockSize pos rest
    have within : pos % dev.info.blockSize + chunk dev.info.blockSize pos rest ≤ dev.info.blockSize := by
      have := Nat.mod_lt pos whole
      rw [chunk]
      omega
    have place := block_inside dev.info.blockSize dev.info.blockCount pos (by omega)
    rw [if_neg ended, Prog.run_bind]
    have quiet := array.quiet s _ _ place
    have reads := fun data => array.reads s _ _ data place
    have total := fun never : NeverFails machine dev => never.reads s _ _ place
    generalize (dev.readBlocks (pos / dev.info.blockSize) 1).run machine s = answer at quiet reads total ⊢
    obtain ⟨bounce, next⟩ := answer
    cases bounce with
    | error e => exact ⟨quiet, by rintro data ⟨⟩, fun never => by obtain ⟨_, ⟨⟩⟩ := total never⟩
    | ok bounce =>
      have block := reads bounce rfl
      obtain ⟨kept, more, total⟩ := ih (pos + chunk dev.info.blockSize pos rest) (rest - chunk dev.info.blockSize pos rest) next
        (by omega) (by omega)
      rw [Prog.run_bind]
      generalize (readBounce dev fuel (pos + chunk dev.info.blockSize pos rest)
        (rest - chunk dev.info.blockSize pos rest)).run machine next =
        answer at kept more total ⊢
      obtain ⟨later, last⟩ := answer
      cases later with
      | error e => exact ⟨kept.trans quiet, by rintro data ⟨⟩, fun never => by obtain ⟨_, ⟨⟩⟩ := total never⟩
      | ok later =>
        refine ⟨kept.trans quiet, fun data same => ?_, fun _ => ⟨_, rfl⟩⟩
        have parts : loadBytes (contents s) pos rest = loadBytes (contents s) pos (chunk dev.info.blockSize pos rest) ++
            loadBytes (contents s) (pos + chunk dev.info.blockSize pos rest) (rest - chunk dev.info.blockSize pos rest) := by
          rw [← load_bytes_add, Nat.add_sub_cancel' short]
        rw [← Except.ok.inj same, parts, block, Nat.mul_one, load_bytes_slice within, block_start, more later rfl, quiet]

theorem block_read_spec (off : Nat) (s : σ) (fits : dev.info.blockCount * dev.info.blockSize < 2 ^ 64)
    (short : len / dev.info.blockSize < 2 ^ 32) :
    contents ((blockRead dev off len).run machine s).2 = contents s ∧
    (∀ data, ((blockRead dev off len).run machine s).1 = .ok data → (len ≠ 0 → off + len ≤ dev.size) ∧ data = loadBytes
      (contents s) off len) ∧
    (NeverFails machine dev → (∀ i < len, off + i < dev.size) → ∃ data, ((blockRead dev off len).run machine s).1 = .ok data) := by
  have size : dev.size = dev.info.blockCount * dev.info.blockSize := Nat.mod_eq_of_lt fits
  rw [blockRead]
  split
  · next empty =>
      refine ⟨rfl, fun data same => ⟨absurd empty, ?_⟩, fun _ _ => ⟨[], rfl⟩⟩
      rw [← Except.ok.inj same, empty, load_bytes_zero]
  next some =>
  split
  next refused => exact ⟨rfl, nofun, fun _ inside => absurd refused (inside_accepted size some inside)⟩
  next refused =>
  have inside : off + len ≤ dev.size := by omega
  have whole : 0 < dev.info.blockSize := by omega
  split
  · next aligned =>
      have start := Nat.mul_div_cancel' (Nat.dvd_of_mod_eq_zero aligned.1)
      have count := Nat.mul_div_cancel' (Nat.dvd_of_mod_eq_zero aligned.2)
      have place := aligned_inside fits whole aligned.1 aligned.2 inside
      rw [Nat.mod_eq_of_lt short]
      refine ⟨array.quiet s _ _ place, fun data same => ⟨fun _ => inside, ?_⟩, fun never _ => never.reads s _ _ place⟩
      rw [array.reads s _ _ data place same, start, count]
  rw [Prog.run_bind, run_kzalloc]
  split
  next failed => exact ⟨array.alloc s _, nofun, fun never => by simp [never.alloc] at failed⟩
  obtain ⟨kept, bytes, total⟩ := read_bounce_spec array off len (machine (.kzalloc dev.info.blockSize) s).2 whole (Nat.le_refl _)
    (size ▸ inside)
  rw [array.alloc] at kept bytes
  exact ⟨kept, fun data same => ⟨fun _ => inside, bytes data same⟩, fun never _ => total never⟩

theorem write_bounce_spec (pos : Nat) (data : List UInt8) (s : σ) (whole : 0 < dev.info.blockSize) (enough : data.length ≤ fuel)
    (inside : pos + data.length ≤ dev.info.blockCount * dev.info.blockSize) :
    (((writeBounce dev fuel pos data).run machine s).1 = .ok () →
      contents ((writeBounce dev fuel pos data).run machine s).2 = storeBytes (contents s) pos data) ∧
    (NeverFails machine dev → ((writeBounce dev fuel pos data).run machine s).1 = .ok ()) := by
  induction fuel generalizing pos data s with
  | zero =>
    obtain rfl : data = [] := List.eq_nil_of_length_eq_zero (by omega)
    exact ⟨fun _ => (store_bytes_nil _ _).symm, fun _ => rfl⟩
  | succ fuel ih =>
    rw [writeBounce]
    by_cases ended : data = []
    · subst ended
      exact ⟨fun _ => (store_bytes_nil _ _).symm, fun _ => rfl⟩
    have some : 0 < data.length := List.length_pos_iff.mpr ended
    have positive := chunk_pos dev.info.blockSize pos data.length whole some
    have short := chunk_le dev.info.blockSize pos data.length
    have within : pos % dev.info.blockSize + (data.take (chunk dev.info.blockSize pos data.length)).length ≤ dev.info.blockSize := by
      have := Nat.mod_lt pos whole
      rw [List.length_take, chunk]
      omega
    have place := block_inside dev.info.blockSize dev.info.blockCount pos (by omega)
    rw [if_neg ended, Prog.run_bind]
    have quiet := array.quiet s _ _ place
    have reads := fun data => array.reads s _ _ data place
    have total := fun never : NeverFails machine dev => never.reads s _ _ place
    generalize (dev.readBlocks (pos / dev.info.blockSize) 1).run machine s = answer at quiet reads total ⊢
    obtain ⟨bounce, next⟩ := answer
    cases bounce with
    | error e => exact ⟨by rintro ⟨⟩, fun never => by obtain ⟨_, ⟨⟩⟩ := total never⟩
    | ok bounce =>
      have block := reads bounce rfl
      rw [Nat.mul_one] at block
      rw [Prog.run_bind]
      have length := patch_length dev pos bounce data (by rw [block, load_bytes_length])
      have writes := array.writes next _ _ _ place length
      have total := fun never : NeverFails machine dev => never.writes next _ _ _ place length
      generalize (dev.writeBlocks (pos / dev.info.blockSize) 1
        (patch bounce (pos % dev.info.blockSize) (data.take (chunk dev.info.blockSize pos data.length)))).run machine next =
          answer at writes total ⊢
      obtain ⟨wrote, last⟩ := answer
      cases wrote with
      | error e => exact ⟨by rintro ⟨⟩, fun never => by cases total never⟩
      | ok _ =>
        have stored := writes rfl
        rw [patch, block, quiet, store_patched within, block_start] at stored
        obtain ⟨rest, total⟩ := ih (pos + chunk dev.info.blockSize pos data.length)
          (data.drop (chunk dev.info.blockSize pos data.length)) last
          (by rw [List.length_drop]; omega) (by rw [List.length_drop]; omega)
        refine ⟨fun done => ?_, total⟩
        rw [rest done, stored, store_bytes_split short]

theorem block_write_spec (off : Nat) (data : List UInt8) (s : σ) (fits : dev.info.blockCount * dev.info.blockSize < 2 ^ 64)
    (short : data.length / dev.info.blockSize < 2 ^ 32) :
    (((blockWrite dev off data).run machine s).1 = .ok () → (data.length ≠ 0 → off + data.length ≤ dev.size) ∧
      contents ((blockWrite dev off data).run machine s).2 = storeBytes (contents s) off data) ∧
    (NeverFails machine dev → dev.info.writable = true → (∀ i < data.length, off + i < dev.size) →
      ((blockWrite dev off data).run machine s).1 = .ok ()) := by
  have size : dev.size = dev.info.blockCount * dev.info.blockSize := Nat.mod_eq_of_lt fits
  rw [blockWrite]
  split
  next readonly => exact ⟨nofun, fun _ writable => by simp [writable] at readonly⟩
  split
  · next empty =>
      rw [List.eq_nil_of_length_eq_zero empty, store_bytes_nil]
      exact ⟨fun _ => ⟨fun some => absurd rfl some, rfl⟩, fun _ _ _ => rfl⟩
  next some =>
  split
  next refused => exact ⟨nofun, fun _ _ inside => absurd refused (inside_accepted size some inside)⟩
  next refused =>
  have inside : off + data.length ≤ dev.size := by omega
  have whole : 0 < dev.info.blockSize := by omega
  split
  · next aligned =>
      have start := Nat.mul_div_cancel' (Nat.dvd_of_mod_eq_zero aligned.1)
      have count := Nat.mul_div_cancel' (Nat.dvd_of_mod_eq_zero aligned.2)
      have place := aligned_inside fits whole aligned.1 aligned.2 inside
      rw [Nat.mod_eq_of_lt short]
      refine ⟨fun done => ⟨fun _ => inside, ?_⟩, fun never _ _ => never.writes s _ _ data place count.symm⟩
      rw [array.writes s _ _ data place count.symm done, start]
  rw [Prog.run_bind, run_kzalloc]
  split
  next failed => exact ⟨nofun, fun never => by simp [never.alloc] at failed⟩
  obtain ⟨stored, total⟩ := write_bounce_spec array off data (machine (.kzalloc dev.info.blockSize) s).2 whole (Nat.le_refl _)
    (size ▸ inside)
  rw [array.alloc] at stored
  exact ⟨fun done => ⟨fun _ => inside, stored done⟩, fun never _ _ => total never⟩

end

inductive BlockCall where
  | read (off len : Nat)
  | write (off : Nat) (data : List UInt8)

namespace BlockCall

def start : BlockCall → Nat
  | read off _ => off
  | write off _ => off

def length : BlockCall → Nat
  | read _ len => len
  | write _ data => data.length

def Inside (size : Nat) (call : BlockCall) : Prop := ∀ i < call.length, call.start + i < size

end BlockCall

theorem range_inside {size : Nat} (inside : len ≠ 0 → off + len ≤ size) : ∀ i < len, off + i < size := by
  intro i below
  omega

def flatCall (bytes : Bytes) : BlockCall → List UInt8 × Bytes
  | .read off len => (loadBytes bytes off len, bytes)
  | .write off data => ([], storeBytes bytes off data)

def blockCall (dev : BlockDev) : BlockCall → DiskProg (Except BlockErrno (List UInt8))
  | .read off len => blockRead dev off len
  | .write off data => do
    match ← blockWrite dev off data with
    | .error e => pure (.error e)
    | .ok () => pure (.ok [])

def blockReply (dev : BlockDev) (machine : DiskMachine σ) (s : σ) (call : BlockCall) : Except BlockErrno (List UInt8) :=
  ((blockCall dev call).run machine s).1

def blockStep (dev : BlockDev) (machine : DiskMachine σ) (s : σ) (call : BlockCall) : Except Empty σ :=
  .ok ((blockCall dev call).run machine s).2

structure Conforms (dev : BlockDev) (machine : DiskMachine σ) (contents : σ → Bytes) (s : σ) (call : BlockCall) (next : σ) :
    Prop where
  effect : ∀ data, blockReply dev machine s call = .ok data → call.Inside dev.size ∧ (data, contents next) = flatCall
    (contents s) call
  refused : ¬call.Inside dev.size → (∃ e, blockReply dev machine s call = .error e) ∧ next = s

theorem block_read_refused (machine : DiskMachine σ) (dev : BlockDev) (off len : Nat) (s : σ)
    (outside : ¬∀ i < len, off + i < dev.size) :
    (blockRead dev off len).run machine s = (.error .einval, s) := by
  have some : len ≠ 0 := fun zero => outside (fun i below => by omega)
  rw [blockRead, if_neg some, if_pos]
  · rfl
  · by_contra inside
    exact outside (fun i below => by omega)

theorem block_write_refused (machine : DiskMachine σ) (dev : BlockDev) (off : Nat) (data : List UInt8) (s : σ)
    (outside : ¬∀ i < data.length, off + i < dev.size) :
    ∃ e, (blockWrite dev off data).run machine s = (.error e, s) := by
  have some : data.length ≠ 0 := fun zero => outside (fun i below => by omega)
  rw [blockWrite]
  by_cases writable : (!dev.info.writable) = true
  · rw [if_pos writable]
    exact ⟨.enosys, rfl⟩
  rw [if_neg writable, if_neg some, if_pos]
  · exact ⟨.einval, rfl⟩
  · by_contra inside
    exact outside (fun i below => by omega)

theorem run_write_call (dev : BlockDev) (machine : DiskMachine σ) (off : Nat) (data : List UInt8) (s : σ) :
    (blockCall dev (.write off data)).run machine s =
      (((blockWrite dev off data).run machine s).1.map (fun _ => []), ((blockWrite dev off data).run machine s).2) := by
  rw [blockCall, Prog.run_bind]
  generalize (blockWrite dev off data).run machine s = answer
  obtain ⟨result, next⟩ := answer
  cases result <;> rfl

section

variable (fits : dev.info.blockCount * dev.info.blockSize < 2 ^ 64)
include fits

theorem call_conforms (array : ActsAsArray machine contents dev)
    (s : σ) {call : BlockCall} (short : call.length / dev.info.blockSize < 2 ^ 32) :
    Conforms dev machine contents s call ((blockCall dev call).run machine s).2 := by
  cases call with
  | read off len =>
    obtain ⟨kept, bytes, _⟩ := block_read_spec array off s fits short
    refine ⟨fun data same => ?_, fun outside => ?_⟩
    · obtain ⟨inside, loaded⟩ := bytes data same
      exact ⟨range_inside inside, Prod.ext loaded kept⟩
    · rw [blockReply, blockCall, block_read_refused machine dev off len s outside]
      exact ⟨⟨_, rfl⟩, rfl⟩
  | write off data =>
    refine ⟨fun reply same => ?_, fun outside => ?_⟩
    · rw [blockReply, run_write_call] at same
      rw [run_write_call]
      cases wrote : ((blockWrite dev off data).run machine s).1 with
      | error e =>
        rw [wrote] at same
        cases same
      | ok value =>
        rw [wrote] at same
        obtain ⟨inside, stored⟩ := (block_write_spec array off data s fits short).1 wrote
        exact ⟨range_inside inside, Prod.ext (Except.ok.inj same).symm stored⟩
    obtain ⟨e, refused⟩ := block_write_refused machine dev off data s outside
    rw [blockReply, run_write_call, refused]
    exact ⟨⟨e, rfl⟩, rfl⟩

theorem call_succeeds (array : ActsAsArray machine contents dev)
    (never : NeverFails machine dev) (writable : dev.info.writable = true) (s : σ)
    {call : BlockCall} (short : call.length / dev.info.blockSize < 2 ^ 32) (inside : call.Inside dev.size) :
    ∃ data, blockReply dev machine s call = .ok data := by
  cases call with
  | read off len => exact (block_read_spec array off s fits short).2.2 never inside
  | write off data =>
    rw [blockReply, run_write_call, (block_write_spec array off data s fits short).2 never writable inside]
    exact ⟨[], rfl⟩

end

theorem each_block_call {rel : σ → BlockCall → σ → Prop} {calls : List BlockCall} (s : σ)
    (holds : ∀ s, ∀ call ∈ calls, rel s call ((blockCall dev call).run machine s).2) :
    EachStep (blockStep dev machine) rel s calls := by
  induction calls generalizing s with
  | nil => trivial
  | cons call rest ih =>
    intro next taken
    cases taken
    exact ⟨holds s call (by simp), ih _ (fun s later inside => holds s later (by simp [inside]))⟩

theorem block_calls_refine_flat_array (machine : DiskMachine σ) (contents : σ → Bytes) (dev : BlockDev)
    (array : ActsAsArray machine contents dev) (fits : dev.info.blockCount * dev.info.blockSize < 2 ^ 64) (calls : List BlockCall)
    (short : ∀ call ∈ calls, call.length / dev.info.blockSize < 2 ^ 32) (s : σ) :
    EachStep (blockStep dev machine) (Conforms dev machine contents) s calls ∧
    (NeverFails machine dev → dev.info.writable = true →
      EachStep (blockStep dev machine) (fun s call _ => call.Inside dev.size → ∃ data,
        blockReply dev machine s call = .ok data) s calls) :=
  ⟨each_block_call s (fun s call inside => call_conforms fits array s (short call inside)),
    fun never writable => each_block_call s (fun s call inside within =>
      call_succeeds fits array never writable s (short call inside) within)⟩

def ramMachine (blockSize : Nat) : DiskMachine Bytes
  | .kzalloc _, disk => (true, disk)
  | .readBlocks lba count, disk => (.ok (loadBytes disk (blockSize * lba) (blockSize * count)), disk)
  | .writeBlocks lba _ data, disk => (.ok (), storeBytes disk (blockSize * lba) data)

theorem ram_acts_as_array (info : BlockInfo) : ActsAsArray (ramMachine info.blockSize) id (.disk info) where
  alloc _ _ := rfl
  quiet _ _ _ _ := rfl
  reads _ _ _ _ _ same := (Except.ok.inj same).symm
  writes _ _ _ _ _ _ _ := rfl

theorem ram_never_fails (info : BlockInfo) : NeverFails (ramMachine info.blockSize) (.disk info) where
  alloc _ _ := rfl
  reads _ _ _ _ := ⟨_, rfl⟩
  writes _ _ _ _ _ _ := rfl

def ramDisk : BlockDev := .disk ⟨[114], 512, 4, true⟩

theorem ram_disk_calls_refine : EachStep (blockStep ramDisk (ramMachine 512)) (Conforms ramDisk (ramMachine 512) id) (fun _ => 0)
      [.write 511 [1, 2, 3], .read 0 1024] ∧
    EachStep (blockStep ramDisk (ramMachine 512))
      (fun s call _ => call.Inside ramDisk.size → ∃ data, blockReply ramDisk (ramMachine 512) s call = .ok data) (fun _ => 0)
      [.write 511 [1, 2, 3], .read 0 1024] := by
  have refines := block_calls_refine_flat_array (ramMachine 512) id ramDisk (ram_acts_as_array ⟨[114], 512, 4, true⟩) (by decide)
    [.write 511 [1, 2, 3], .read 0 1024] (by decide) (fun _ => 0)
  exact ⟨refines.1, refines.2 (ram_never_fails ⟨[114], 512, 4, true⟩) rfl⟩

end Lyr.Dev
