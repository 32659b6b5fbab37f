import Lyr.Fs.Descriptor

set_option autoImplicit false

namespace Lyr.Fs

open Lyr.Lib Function

inductive FileOp where
  | setfl (flags : UInt32)
  | read (length : Nat) (answer : Except Errno Nat)
  | write (length : Nat) (answer : WriteAnswer)
  | lseek (whence : Nat) (off : Int)

def FileOp.call (process fd : Nat) : FileOp → FdCall
  | .setfl flags => .setfl process fd flags
  | .read length answer => .read process fd length answer
  | .write length answer => .write process fd length answer
  | .lseek whence off => .lseek process fd whence off

def fileStep (process fd : Nat) (t : FileTables) (op : FileOp) : Except Empty FileTables := fdStep t (op.call process fd)

-- At the end of a file opened for append, else at the offset.
def WritesAsOpened (process fd : Nat) (flags : UInt32) (t : FileTables) : Prop :=
  ∃ id file, t.fileAt process fd = some (id, file) ∧ file.pipe = false ∧
    ∀ size, writeStart { t with size } file = if flags &&& vfsOAppend ≠ 0 then size file.node else file.offset

def FileOp.Agrees (flags : UInt32) : FileOp → Prop
  | .setfl arg => arg &&& sysONonblock ≠ 0 ↔ flags &&& vfsOAppend ≠ 0
  | _ => True

instance (flags : UInt32) : (op : FileOp) → Decidable (op.Agrees flags)
  | .setfl _ => inferInstanceAs (Decidable (_ ≠ _ ↔ _ ≠ _))
  | .read .. | .write .. | .lseek .. => .isTrue trivial

variable {t : FileTables} {process fd id : Nat} {file changed : VfsFile} {flags : UInt32} {op : FileOp} {answer : Except FdErrno Nat}

theorem file_at_set {after : FileTables} (found : t.fileAt process fd = some (id, file)) (slots : after.slots = t.slots)
    (heap : after.heap = update t.heap id (some changed)) : after.fileAt process fd = some (id, changed) := by
  simp only [FileTables.fileAt, FileTables.slotAt, slots] at found ⊢
  split at found
  · cases found
  next slot _ =>
    obtain ⟨held, _, same⟩ := Option.map_eq_some_iff.mp found
    cases same
    rw [heap, update_self]
    rfl

theorem write_start_flag (t : FileTables) :
    (∀ size, writeStart { t with size } file = if flags &&& vfsOAppend ≠ 0 then size file.node else file.offset) ↔
    (file.flags &&& vfsOAppend ≠ 0 ↔ flags &&& vfsOAppend ≠ 0) := by
  constructor
  · intro starts
    have here := starts (fun _ => file.offset + 1)
    unfold writeStart at here
    by_cases held : file.flags &&& vfsOAppend ≠ 0 <;> by_cases asked : flags &&& vfsOAppend ≠ 0 <;> simp_all
  intro same size
  unfold writeStart
  simp only [same]

theorem append_set (flags : UInt32) : (flags ||| sysONonblock) &&& vfsOAppend ≠ 0 := by
  intro none
  have bit := congrArg (·.toBitVec.getLsbD 11) none
  simp [vfsOAppend, sysONonblock] at bit

theorem append_cleared (flags : UInt32) : flags &&& ~~~sysONonblock &&& vfsOAppend = 0 := by
  rw [UInt32.and_assoc, show ~~~sysONonblock &&& vfsOAppend = 0 from rfl, UInt32.and_zero]

inductive FileStep (t : FileTables) (file : VfsFile) : FileOp → VfsFile → Except FdErrno Nat → Prop where
  | flags (arg : UInt32) : FileStep t file (.setfl arg)
      { file with flags := if arg &&& sysONonblock ≠ 0 then file.flags ||| sysONonblock else file.flags &&& ~~~sysONonblock } (.ok 0)
  | refused (op : FileOp) (errno : FdErrno) (plain : ∀ arg, op ≠ .setfl arg)
      (below : ∀ whence off base, op = .lseek whence off → seekBase t file whence = some base → (base : Int) + off < 0) :
      FileStep t file op file (.error errno)
  | read (length count taken : Nat) (readable : file.flags &&& vfsOAccmode ≠ vfsOWronly)
      (bytes : taken = min count (min length (t.size file.node - file.offset))) :
      FileStep t file (.read length (.ok count)) { file with offset := (file.offset + taken) % 2 ^ 64 } (.ok taken)
  | write (length count : Nat) (answer : WriteAnswer) (writable : file.flags &&& vfsOAccmode ≠ vfsORdonly)
      (accepted : answer = .took count ∨ answer = .cut count) : FileStep t file (.write length answer)
      { file with offset := (writeStart t file + min count length) % 2 ^ 64 } (.ok (min count length))
  | seek (whence base offset : Nat) (off : Int) (from_ : seekBase t file whence = some base) (reaches : 0 ≤ (base : Int) + off)
      (at_ : offset = if off < 0 then base - off.natAbs else (base + off.natAbs) % 2 ^ 64) :
      FileStep t file (.lseek whence off) { file with offset } (.ok offset)

theorem file_step (op : FileOp) (found : t.fileAt process fd = some (id, file)) (regular : file.pipe = false) :
    ∃ changed, (fdCall t (op.call process fd)).1.fileAt process fd = some (id, changed) ∧
      FileStep t file op changed (fdCall t (op.call process fd)).2 := by
  have notPipe : ¬ file.pipe = true := by simp [regular]
  cases op with
  | setfl arg =>
    simp only [FileOp.call, fdCall, sysFcntlSetfl, found]
    exact ⟨_, file_at_set found rfl rfl, .flags arg⟩
  | read length answer =>
    simp only [FileOp.call, fdCall, vfsRead, found]
    by_cases writeOnly : file.flags &&& vfsOAccmode = vfsOWronly
    · rw [if_pos writeOnly]
      exact ⟨file, found, .refused _ _ nofun nofun⟩
    rw [if_neg writeOnly]
    cases answer with
    | error errno => exact ⟨file, found, .refused _ _ nofun nofun⟩
    | ok count => exact ⟨_, file_at_set found rfl rfl, .read length count _ writeOnly rfl⟩
  | write length answer =>
    simp only [FileOp.call, fdCall, vfsWrite, found, if_neg notPipe]
    by_cases readOnly : file.flags &&& vfsOAccmode = vfsORdonly
    · rw [if_pos readOnly]
      exact ⟨file, found, .refused _ _ nofun nofun⟩
    rw [if_neg readOnly]
    cases answer with
    | failed errno => exact ⟨file, found, .refused _ _ nofun nofun⟩
    | took count => exact ⟨_, file_at_set found rfl rfl, .write length count _ readOnly (.inl rfl)⟩
    | cut count => exact ⟨_, file_at_set found rfl rfl, .write length count _ readOnly (.inr rfl)⟩
  | lseek whence off =>
    simp only [FileOp.call, fdCall, vfsSeek, found]
    cases from_ : seekBase t file whence with
    | none => exact ⟨file, found, .refused _ _ nofun (fun _ _ _ same base => by cases same; rw [from_] at base; cases base)⟩
    | some base =>
      by_cases below : off < 0 ∧ base < off.natAbs
      · simp only [if_pos below]
        refine ⟨file, found, .refused _ _ nofun (fun _ _ _ same there => ?_)⟩
        cases same
        rw [from_, Option.some.injEq] at there
        omega
      · simp only [if_neg below]
        exact ⟨_, file_at_set found rfl rfl, .seek whence base _ off from_ (by omega) rfl⟩

theorem file_step_regular (step : FileStep t file op changed answer) (regular : file.pipe = false) :
    changed.pipe = false := by
  cases step <;> exact regular

theorem step_writes_as_opened {next : FileTables} (writes : WritesAsOpened process fd flags t)
    (taken : fileStep process fd t op = .ok next) : WritesAsOpened process fd flags next ↔ op.Agrees flags := by
  obtain ⟨id, file, found, regular, starts⟩ := writes
  obtain ⟨changed, there, step⟩ := file_step op found regular
  cases taken
  have flag : WritesAsOpened process fd flags (fdCall t (op.call process fd)).1 ↔
    (changed.flags &&& vfsOAppend ≠ 0 ↔ flags &&& vfsOAppend ≠ 0) := by
    constructor
    · rintro ⟨_, _, known, _, starts⟩
      rw [there] at known
      cases known
      exact (write_start_flag _).mp starts
    · exact fun same => ⟨id, changed, there, file_step_regular step regular, (write_start_flag _).mpr same⟩
  rw [flag]
  have before := (write_start_flag t).mp starts
  generalize (fdCall t (op.call process fd)).2 = answer at step
  cases step with
  | flags arg =>
    simp only [FileOp.Agrees]
    split
    next asked => simp [asked, append_set]
    next asked => simp [asked, append_cleared]
  | refused _ _ plain =>
    cases op with
    | setfl arg => exact absurd rfl (plain arg)
    | read | write | lseek => exact iff_of_true before trivial
  | read | write | seek => exact iff_of_true before trivial

theorem new_file_at (t : FileTables) (process fd node : Nat) (flags : UInt32) (pipe : Bool) :
    ∃ file, (newFile t process fd node flags pipe).fileAt process fd = some (t.nextFile, file) ∧ file.pipe = pipe ∧
      file.flags = flags := by
  simp [FileTables.fileAt, FileTables.slotAt, newFile, FileTables.withSlot, FileTables.withoutSlot, FileTables.setFile]

theorem open_writes_as_opened {opened : FileTables} {node : Nat} {granted : Bool}
    (opens : sysOpen t process node flags granted = (opened, .ok fd)) :
    WritesAsOpened process fd flags opened := by
  unfold sysOpen at opens
  split at opens
  · cases opens
  next free _ =>
    split at opens
    · cases opens
    dsimp only at opens
    split at opens
    · cases opens
      obtain ⟨file, found, regular, same⟩ := new_file_at _ process fd node flags false
      exact ⟨_, file, found, regular, (write_start_flag _).mpr (by rw [same])⟩
    · cases opens

-- Without bounds: where the last successful seek aims, and the bytes moved since.
def exactNext (base : Option Nat) (exact : Int) : FileOp → Except FdErrno Nat → Int
  | .lseek _ off, .ok _ => base.getD 0 + off
  | .read _ _, .ok count => exact + count
  | .write _ _, .ok count => exact + count
  | _, _ => exact

def FileOp.base (t : FileTables) (file : VfsFile) : FileOp → Option Nat
  | .lseek whence _ => seekBase t file whence
  | _ => none

def countStep (process fd : Nat) (counted : FileTables × Int) (op : FileOp) : Except Empty (FileTables × Int) :=
  let base := (counted.1.fileAt process fd).bind (fun found => op.base counted.1 found.2)
  let (next, answer) := fdCall counted.1 (op.call process fd)
  .ok (next, exactNext base counted.2 op answer)

def OffsetExact (process fd : Nat) (counted : FileTables × Int) : Prop :=
  ∃ id file, counted.1.fileAt process fd = some (id, file) ∧ file.pipe = false ∧ (file.offset : Int) = counted.2 ∧
    file.offset < 2 ^ 63

-- And a seek that aims outside of the range fails and moves nothing.
def OffsetLaw (process fd : Nat) (counted : FileTables × Int) (op : FileOp) (next : FileTables × Int) : Prop :=
  OffsetExact process fd next ∧ ∀ id file whence off base, counted.1.fileAt process fd = some (id, file) → op = .lseek whence off →
    seekBase counted.1 file whence = some base → ¬ (0 ≤ base + off ∧ base + off < 2 ^ 63) →
    (∃ errno, (fdCall counted.1 (op.call process fd)).2 = .error errno) ∧ next.1.fileAt process fd = some (id, file)

-- Seeks and transfers stay below 2^63, and a file in append mode is written at its end.
def FileOp.InRange (t : FileTables) (file : VfsFile) : FileOp → Prop
  | .setfl _ => True
  | .read length answer => ∀ count, answer = .ok count → file.flags &&& vfsOAccmode ≠ vfsOWronly →
      file.offset + min count (min length (t.size file.node - file.offset)) < 2 ^ 63
  | .write length answer => ∀ count, answer = .took count ∨ answer = .cut count → file.flags &&& vfsOAccmode ≠ vfsORdonly →
      file.offset + min count length < 2 ^ 63 ∧ (file.flags &&& vfsOAppend ≠ 0 → t.size file.node = file.offset)
  | .lseek whence off => ∀ base, seekBase t file whence = some base → base + off < 2 ^ 63

def StaysInRange (process fd : Nat) (counted : FileTables × Int) (op : FileOp) : Prop :=
  ∀ id file, counted.1.fileAt process fd = some (id, file) → op.InRange counted.1 file

theorem file_step_offset (step : FileStep t file op changed answer) (low : file.offset < 2 ^ 63)
    (inRange : op.InRange t file) :
    (changed.offset : Int) = exactNext (op.base t file) file.offset op answer ∧ changed.offset < 2 ^ 63 := by
  cases step with
  | flags arg => exact ⟨rfl, low⟩
  | refused _ errno => cases op <;> exact ⟨rfl, low⟩
  | read length count taken readable bytes =>
    have fits := inRange count rfl readable
    simp only [exactNext]
    omega
  | write length count answer writable accepted =>
    obtain ⟨fits, atEnd⟩ := inRange count accepted writable
    have start : writeStart t file = file.offset := by
      unfold writeStart
      split
      next append => exact atEnd append
      · rfl
    simp only [exactNext, start]
    omega
  | seek whence base offset off from_ reaches at_ =>
    have fits := inRange base from_
    simp only [exactNext, FileOp.base, from_, Option.getD_some]
    split at at_ <;> omega

theorem file_step_aims_low {whence base : Nat} {off : Int} (step : FileStep t file (.lseek whence off) changed answer)
    (from_ : seekBase t file whence = some base) (below : (base : Int) + off < 0) :
    (∃ errno, answer = .error errno) ∧ changed = file := by
  cases step with
  | refused _ errno => exact ⟨⟨errno, rfl⟩, rfl⟩
  | seek _ _ _ _ there reaches =>
    rw [from_, Option.some.injEq] at there
    omega

theorem in_range_offset (counted : FileTables × Int) (op : FileOp) (next : FileTables × Int)
    (tracked : OffsetExact process fd counted)
    (inRange : StaysInRange process fd counted op) (taken : countStep process fd counted op = .ok next) :
    OffsetLaw process fd counted op next := by
  obtain ⟨id, file, found, regular, same, low⟩ := tracked
  obtain ⟨changed, there, step⟩ := file_step op found regular
  have inside := inRange id file found
  simp only [countStep, found, Option.bind_some, Except.ok.injEq] at taken
  subst taken
  obtain ⟨counts, high⟩ := file_step_offset step low inside
  refine ⟨⟨id, changed, there, file_step_regular step regular, by rw [counts, same], high⟩,
    fun i other whence off base known seeks from_ aims => ?_⟩
  rw [found] at known
  cases known
  subst seeks
  obtain ⟨failed, still⟩ := file_step_aims_low step from_ (by have := inside base from_; omega)
  exact ⟨failed, still ▸ there⟩

theorem offsets_exact (found : t.fileAt process fd = some (id, file)) (regular : file.pipe = false) (low : file.offset < 2 ^ 63)
    (ops : List FileOp)
    (inRange : Permitted (countStep process fd) (StaysInRange process fd) (t, file.offset) ops) :
    EachStep (countStep process fd) (OffsetLaw process fd) (t, file.offset) ops :=
  permitted_each_step (fun c op next tracked inRange taken => (in_range_offset c op next tracked inRange taken).1)
    ⟨id, file, found, regular, rfl, low⟩ in_range_offset inRange

theorem seek_back_and_write : EachStep (countStep 1 0) (OffsetLaw 1 0) ((sysOpen (bootTables (fun _ => 9)) 1 7 2 true).1, 0)
    [.lseek 2 (-9), .write 4 (.took 4)] := by
  have found : (sysOpen (bootTables (fun _ => 9)) 1 7 2 true).1.fileAt 1 0 = some (0, ⟨⟨0, 7, 2, 0⟩, 1, false⟩) := rfl
  refine offsets_exact found rfl (by decide) _ ⟨fun _ _ here base from_ => ?_, fun _ taken => ?_⟩
  · cases here
    cases from_
    decide
  cases taken
  refine ⟨fun _ _ here count accepted _ => ?_, fun _ _ => trivial⟩
  cases here
  obtain same | same := accepted
  · cases same
    decide
  · cases same

theorem seek_out_of_range : ¬ EachStep (countStep 1 0) (OffsetLaw 1 0) ((sysOpen (bootTables (fun _ => 9)) 1 7 2 true).1, 0)
    [.lseek 0 (2 ^ 63 - 1), .lseek 1 1] := by
  intro each
  obtain ⟨_, later⟩ := each _ rfl
  obtain ⟨⟨⟨_, _, found, _, _, low⟩, _⟩, _⟩ := later _ rfl
  cases found
  revert low
  decide

end Lyr.Fs
