import Lyr.Fs.Descriptor

set_option autoImplicit false

namespace Lyr.Fs

open Lyr.Lib Function

def FileTables.Open (t : FileTables) (id : Nat) (file : OpenFile) : Prop :=
  ∃ slot ∈ t.slots, slot.file = id ∧ ∃ held : VfsFile, t.heap id = some held ∧ held.toOpenFile = file

structure OneOpenFile (t : FileTables) : Prop where
  common : ∀ i j a b, t.Open i a → t.Open j b → a.opening = b.opening → a.offset = b.offset ∧ a.flags = b.flags
  apart : t.strokes.Pairwise (fun a b => a.opening = b.opening → a.stop ≤ b.start ∨ b.stop ≤ a.start)

structure Shares (t : FileTables) : Prop extends OneOpenFile t where
  reached : ∀ stroke ∈ t.strokes, ∀ i file, t.Open i file → file.opening = stroke.opening →
    file.node = stroke.node ∧ stroke.stop ≤ file.offset
  sized : ∀ stroke ∈ t.strokes, stroke.stop ≤ t.size stroke.node
  known : ∀ i file, t.Open i file → file.opening < t.nextOpening ∧ i < t.nextFile ∧ file.offset < 2 ^ 64
  struck : ∀ stroke ∈ t.strokes, stroke.opening < t.nextOpening
  bounded : ∀ node, t.size node < 2 ^ 64

variable {t after : FileTables} {id process fd : Nat} {file : VfsFile} {slot : FdSlot}

theorem shares_inherit (shares : Shares t) (seen : ∀ i file, after.Open i file → ∃ j, t.Open j file)
    (ids : ∀ i file, after.Open i file → i < after.nextFile) (strokes : after.strokes.Sublist t.strokes)
    (openings : after.nextOpening = t.nextOpening) (sized : ∀ stroke ∈ after.strokes, stroke.stop ≤ after.size stroke.node)
    (bounded : ∀ node, after.size node < 2 ^ 64) : Shares after where
  common i j a b openA openB same := by
    obtain ⟨i, openA⟩ := seen i a openA
    obtain ⟨j, openB⟩ := seen j b openB
    exact shares.common i j a b openA openB same
  apart := shares.apart.sublist strokes
  reached stroke inside i file opened same := by
    obtain ⟨j, opened⟩ := seen i file opened
    exact shares.reached stroke (strokes.subset inside) j file opened same
  sized := sized
  known i file opened := by
    obtain ⟨j, before⟩ := seen i file opened
    have known := shares.known j file before
    exact ⟨openings ▸ known.1, ids i file opened, known.2.2⟩
  struck stroke inside := openings ▸ shares.struck stroke (strokes.subset inside)
  bounded := bounded

theorem vfs_close_heap {closed : Nat} {held : VfsFile} (found : (vfsClose t closed).heap id = some held) :
    ∃ before : VfsFile, t.heap id = some before ∧ before.toOpenFile = held.toOpenFile := by
  unfold vfsClose at found
  cases present : t.heap closed with
  | none => exact ⟨held, by simpa [present] using found, rfl⟩
  | some file =>
    simp only [present] at found
    by_cases same : id = closed
    · subst same
      refine ⟨file, present, ?_⟩
      split at found
      · simp only [FileTables.setFile, update_self, Option.some.injEq] at found
        exact found ▸ rfl
      · simp at found
    split at found
    · exact ⟨held, by simpa [FileTables.setFile, update_of_ne same] using found, rfl⟩
    · exact ⟨held, by simpa [update_of_ne same] using found, rfl⟩

theorem vfs_close_rest (t : FileTables) (closed : Nat) :
    (vfsClose t closed).slots = t.slots ∧ (vfsClose t closed).strokes = t.strokes ∧ (vfsClose t closed).size = t.size ∧
      (vfsClose t closed).nextOpening = t.nextOpening ∧ (vfsClose t closed).nextFile = t.nextFile := by
  unfold vfsClose
  cases t.heap closed with
  | none => exact ⟨rfl, rfl, rfl, rfl, rfl⟩
  | some file =>
    dsimp only
    split <;> exact ⟨rfl, rfl, rfl, rfl, rfl⟩

theorem close_slot_shares (process fd : Nat) (shares : Shares t) : Shares (closeFileSlot t process fd) := by
  unfold closeFileSlot
  cases t.slotAt process fd with
  | none => exact shares
  | some slot =>
    obtain ⟨slots, strokes, size, openings, files⟩ := vfs_close_rest t slot.file
    have seen : ∀ i file, ((vfsClose t slot.file).withoutSlot process fd).Open i file → t.Open i file := by
      rintro i file ⟨other, inside, rfl, held, found, rfl⟩
      obtain ⟨before, present, same⟩ := vfs_close_heap found
      have kept : other ∈ (vfsClose t slot.file).slots := List.mem_of_mem_filter inside
      exact ⟨other, slots ▸ kept, rfl, before, present, same⟩
    refine shares_inherit shares (fun i file opened => ⟨i, seen i file opened⟩) (fun i file opened => ?_) ?_ openings ?_ ?_
    · exact files.symm ▸ (shares.known i file (seen i file opened)).2.1
    · exact strokes ▸ List.Sublist.refl _
    · intro stroke inside
      have before : stroke ∈ t.strokes := strokes ▸ inside
      exact size ▸ shares.sized stroke before
    · exact size ▸ shares.bounded

theorem open_with_slot {i : Nat} {file : OpenFile} (opened : (t.withSlot slot).Open i file) :
    (i = slot.file ∧ ∃ held : VfsFile, t.heap i = some held ∧ held.toOpenFile = file) ∨ t.Open i file := by
  obtain ⟨other, inside, rfl, held, found, rfl⟩ := opened
  obtain rfl | older := List.mem_cons.mp inside
  · exact Or.inl ⟨rfl, held, found, rfl⟩
  · exact Or.inr ⟨other, List.mem_of_mem_filter older, rfl, held, found, rfl⟩

theorem syscall_dup_file_spec {dup : Nat} {granted : Bool} (present : t.heap id = some file)
    (done : syscallDupFile t id granted = some (after, dup)) :
    after.slots = t.slots ∧ after.strokes = t.strokes ∧ after.size = t.size ∧ after.nextOpening = t.nextOpening ∧
      ((dup = id ∧ after.nextFile = t.nextFile) ∨ (dup = t.nextFile ∧ after.nextFile = t.nextFile + 1)) ∧
      ∃ copy : VfsFile, copy.toOpenFile = file.toOpenFile ∧ after.heap = update t.heap dup (some copy) := by
  unfold syscallDupFile at done
  simp only [present] at done
  split at done
  · simp only [Option.some.injEq, Prod.mk.injEq] at done
    obtain ⟨rfl, rfl⟩ := done
    exact ⟨rfl, rfl, rfl, rfl, Or.inl ⟨rfl, rfl⟩, { file with refs := file.refs + 1 }, rfl, rfl⟩
  split at done
  · simp only [Option.some.injEq, Prod.mk.injEq] at done
    obtain ⟨rfl, rfl⟩ := done
    exact ⟨rfl, rfl, rfl, rfl, Or.inr ⟨rfl, rfl⟩, { file with refs := 1 }, rfl, rfl⟩
  · cases done

theorem dup_into_shares {source : FdSlot} (process fd : Nat) {fdFlags : UInt32} (granted : Bool)
    (inside : source ∈ t.slots) (shares : Shares t) : Shares (dupInto t source process fd fdFlags granted).1 := by
  unfold dupInto
  cases done : syscallDupFile t source.file granted with
  | none => exact shares
  | some result =>
    obtain ⟨after, dup⟩ := result
    cases present : t.heap source.file with
    | none => simp [syscallDupFile, present] at done
    | some file =>
      obtain ⟨slots, strokes, size, openings, place, copy, core, heap⟩ := syscall_dup_file_spec present done
      have original : t.Open source.file file.toOpenFile := ⟨source, inside, rfl, file, present, rfl⟩
      have bound := (shares.known source.file _ original).2.1
      -- A descriptor has the duplicated one's file or one that stood before.
      have seen : ∀ i g, (after.withSlot ⟨process, fd, dup, fdFlags⟩).Open i g →
          (i = dup ∧ g = file.toOpenFile) ∨ t.Open i g := by
        intro i g opened
        obtain ⟨rfl, held, found, rfl⟩ | ⟨other, older, rfl, held, found, rfl⟩ := open_with_slot opened
        · rw [heap, update_self, Option.some.injEq] at found
          exact Or.inl ⟨rfl, found ▸ core⟩
        by_cases here : other.file = dup
        · rw [here, heap, update_self, Option.some.injEq] at found
          exact Or.inl ⟨here, found ▸ core⟩
        · rw [heap, update_of_ne here] at found
          exact Or.inr ⟨other, slots ▸ older, rfl, held, found, rfl⟩
      refine shares_inherit shares (fun i g opened => ?_) (fun i g opened => ?_) (strokes ▸ List.Sublist.refl _) openings ?_ ?_
      · obtain ⟨_, rfl⟩ | before := seen i g opened
        · exact ⟨source.file, original⟩
        · exact ⟨i, before⟩
      · have later : i < after.nextFile := by
          obtain ⟨rfl, _⟩ | before := seen i g opened
          · omega
          · have := (shares.known i g before).2.1
            omega
        exact later
      · intro stroke struck
        have before : stroke ∈ t.strokes := strokes ▸ struck
        exact size ▸ shares.sized stroke before
      · exact size ▸ shares.bounded

theorem slot_at_mem (found : t.slotAt process fd = some slot) :
    slot ∈ t.slots ∧ slot.process = process ∧ slot.fd = fd := by
  have holds := List.find?_some found
  simp only [decide_eq_true_eq] at holds
  exact ⟨List.mem_of_find?_eq_some found, holds⟩

theorem close_slot_keeps (t : FileTables) (process fd : Nat) (slot : FdSlot) (inside : slot ∈ t.slots)
    (other : ¬(slot.process = process ∧ slot.fd = fd)) : slot ∈ (closeFileSlot t process fd).slots := by
  unfold closeFileSlot
  cases t.slotAt process fd with
  | none => exact inside
  | some closed =>
    exact List.mem_filter.mpr ⟨(vfs_close_rest t closed.file).1 ▸ inside, decide_eq_true other⟩

section

variable (shares : Shares t)
include shares

theorem dup2_shares (process oldfd newfd : Nat) (flags : UInt32) (granted : Bool) :
    Shares (sysDup2 t process oldfd newfd flags granted).1 := by
  unfold sysDup2
  split
  · exact shares
  cases found : t.slotAt process oldfd with
  | none => exact shares
  | some source =>
    dsimp only
    obtain ⟨inside, owner, place⟩ := slot_at_mem found
    split
    · exact shares
    split
    · exact shares
    rename_i different
    have kept := close_slot_keeps t process newfd source inside (fun same => different (place.symm.trans same.2))
    exact dup_into_shares process newfd granted kept (close_slot_shares process newfd shares)

theorem dupfd_shares (process fd : Nat) (minfd : Int) (cloexec granted : Bool) :
    Shares (sysFcntlDupfd t process fd minfd cloexec granted).1 := by
  unfold sysFcntlDupfd
  cases found : t.slotAt process fd with
  | none => exact shares
  | some source =>
    dsimp only
    split
    · exact shares
    split
    · exact shares
    cases syscallAllocFd t process minfd.toNat with
    | none => exact shares
    | some newfd => exact dup_into_shares process newfd granted (slot_at_mem found).1 shares

theorem fork_file_shares (parent child fd : Nat) (granted : Bool) : Shares (forkFile t parent child fd granted).1 := by
  unfold forkFile
  cases found : t.slotAt parent fd with
  | none => exact shares
  | some source => exact dup_into_shares child fd granted (slot_at_mem found).1 shares

theorem new_file_shares (process fd node : Nat) (flags : UInt32) (pipe : Bool) :
    Shares (newFile t process fd node flags pipe) := by
  have seen : ∀ i g, (newFile t process fd node flags pipe).Open i g →
      (i = t.nextFile ∧ g.opening = t.nextOpening ∧ g.offset < 2 ^ 64) ∨
        (t.Open i g ∧ g.opening < t.nextOpening ∧ i < t.nextFile ∧ g.offset < 2 ^ 64) := by
    have starts : (if flags &&& vfsOAppend ≠ 0 then t.size node else 0) < 2 ^ 64 := by
      split
      · exact shares.bounded node
      · omega
    intro i g opened
    obtain ⟨rfl, held, found, rfl⟩ | ⟨other, older, rfl, held, found, rfl⟩ := open_with_slot opened
    · simp only [FileTables.setFile, update_self, Option.some.injEq] at found
      exact Or.inl ⟨rfl, found ▸ rfl, found ▸ starts⟩
    by_cases here : other.file = t.nextFile
    · simp only [FileTables.setFile, here, update_self, Option.some.injEq] at found
      exact Or.inl ⟨here, found ▸ rfl, found ▸ starts⟩
    simp only [FileTables.setFile, update_of_ne here] at found
    have before : t.Open other.file held.toOpenFile := ⟨other, older, rfl, held, found, rfl⟩
    exact Or.inr ⟨before, shares.known _ _ before⟩
  -- All descriptors of the new opening have the new object.
  have single : ∀ i g h, (newFile t process fd node flags pipe).Open i g → (newFile t process fd node flags pipe).Open i h →
      g = h := by
    rintro i g h ⟨_, _, _, a, foundA, rfl⟩ ⟨_, _, _, b, foundB, rfl⟩
    rw [foundA, Option.some.injEq] at foundB
    rw [foundB]
  refine ⟨⟨?_, shares.apart⟩, ?_, shares.sized, ?_, ?_, shares.bounded⟩
  · intro i j a b openA openB same
    obtain ⟨placeA, newA, _⟩ | ⟨beforeA, olderA, _⟩ := seen i a openA
    · obtain ⟨placeB, newB, _⟩ | ⟨_, olderB, _⟩ := seen j b openB
      · have equal := single i a b openA (placeA.trans placeB.symm ▸ openB)
        exact ⟨congrArg OpenFile.offset equal, congrArg OpenFile.flags equal⟩
      · omega
    obtain ⟨_, newB, _⟩ | ⟨beforeB, _, _⟩ := seen j b openB
    · omega
    · exact shares.common i j a b beforeA beforeB same
  · intro stroke inside i file opened same
    obtain ⟨_, new, _⟩ | ⟨before, _, _⟩ := seen i file opened
    · have := shares.struck stroke inside
      omega
    · exact shares.reached stroke inside i file before same
  · intro i file opened
    have known : file.opening < t.nextOpening + 1 ∧ i < t.nextFile + 1 ∧ file.offset < 2 ^ 64 := by
      obtain ⟨_, _, _⟩ | ⟨_, _, _, _⟩ := seen i file opened <;> omega
    exact known
  intro stroke inside
  have older : stroke.opening < t.nextOpening + 1 := Nat.lt_succ_of_lt (shares.struck stroke inside)
  exact older

theorem truncate_node_shares (node : Nat) : Shares (truncateNode t node) := by
  refine shares_inherit shares (fun i file opened => ⟨i, opened⟩) (fun i file opened => (shares.known i file opened).2.1)
    List.filter_sublist rfl (fun stroke inside => ?_) (fun other => ?_)
  · obtain ⟨before, elsewhere⟩ := List.mem_filter.mp inside
    have apart : stroke.node ≠ node := of_decide_eq_true elsewhere
    simp only [truncateNode, update_of_ne apart]
    exact shares.sized stroke before
  by_cases same : other = node
  · simp [truncateNode, same]
  · simp only [truncateNode, update_of_ne same]
    exact shares.bounded other

theorem open_shares (process node : Nat) (flags : UInt32) (granted : Bool) : Shares (sysOpen t process node flags granted).1 := by
  unfold sysOpen
  cases syscallAllocFd t process 0 with
  | none => exact shares
  | some fd =>
    dsimp only
    split
    · exact shares
    have cleared : Shares (if flags &&& vfsOTrunc ≠ 0 ∧ flags &&& vfsOAccmode ≠ vfsORdonly then truncateNode t node else t) := by
      split
      · exact truncate_node_shares shares node
      · exact shares
    split
    · exact new_file_shares cleared process fd node flags false
    · exact cleared

theorem pipe_shares (process node : Nat) (granted : Bool) : Shares (sysPipe t process node granted).1 := by
  unfold sysPipe
  cases syscallAllocFd t process 0 with
  | none => exact shares
  | some readFd =>
    dsimp only
    cases syscallAllocFd t process (readFd + 1) with
    | none => exact shares
    | some writeFd =>
      dsimp only
      split
      · exact new_file_shares
          (new_file_shares (truncate_node_shares shares node) process readFd node _ true) process writeFd node _ true
      · exact shares

end

def FileTables.Common (t : FileTables) (process fd : Nat) : Prop := ∀ entry ∈ t.fileAt process fd, ∀ slot ∈ t.slots,
    (t.heap slot.file).map (fun other => other.opening) = some entry.2.opening → slot.file = entry.1

instance (t : FileTables) (process fd : Nat) : Decidable (t.Common process fd) :=
  inferInstanceAs (Decidable (∀ entry ∈ t.fileAt process fd, ∀ slot ∈ t.slots, _ → slot.file = entry.1))

section

variable (found : t.fileAt process fd = some (id, file))
include found

theorem file_at_open : t.Open id file.toOpenFile ∧ t.heap id = some file := by
  unfold FileTables.fileAt at found
  cases placed : t.slotAt process fd with
  | none => simp [placed] at found
  | some slot =>
    simp only [placed, Option.map_eq_some_iff, Prod.mk.injEq] at found
    obtain ⟨held, present, rfl, rfl⟩ := found
    exact ⟨⟨slot, (slot_at_mem placed).1, rfl, held, present, rfl⟩, present⟩

-- One object serves the opening, so all its descriptors and no others see a change.
theorem moved_shares {file' : VfsFile} (shares : Shares t)
    (common : t.Common process fd) (slots : after.slots = t.slots)
    (heap : after.heap = update t.heap id (some file')) (opening : file'.opening = file.opening)
    (node : file'.node = file.node) (small : file'.offset < 2 ^ 64) (nextFile : after.nextFile = t.nextFile)
    (nextOpening : after.nextOpening = t.nextOpening)
    (strokes : ∀ stroke ∈ after.strokes, stroke.opening ≠ file.opening → stroke ∈ t.strokes)
    (own : ∀ stroke ∈ after.strokes, stroke.opening = file.opening → stroke.node = file.node ∧ stroke.stop ≤ file'.offset)
    (apart : after.strokes.Pairwise (fun a b => a.opening = b.opening → a.stop ≤ b.start ∨ b.stop ≤ a.start))
    (sized : ∀ stroke ∈ after.strokes, stroke.stop ≤ after.size stroke.node) (bounded : ∀ node, after.size node < 2 ^ 64) :
    Shares after := by
  obtain ⟨opened, present⟩ := file_at_open found
  have known := shares.known id _ opened
  have seen : ∀ i g, after.Open i g →
      (i = id ∧ g = file'.toOpenFile) ∨ (t.Open i g ∧ g.opening ≠ file.opening) := by
    rintro i g ⟨slot, inside, rfl, held, holds, rfl⟩
    by_cases here : slot.file = id
    · rw [heap, here, update_self, Option.some.injEq] at holds
      exact Or.inl ⟨here, by rw [holds]⟩
    rw [heap, update_of_ne here] at holds
    refine Or.inr ⟨⟨slot, slots ▸ inside, rfl, held, holds, rfl⟩, fun same => here ?_⟩
    exact common (id, file) found slot (slots ▸ inside) (by rw [holds, Option.map_some, same])
  refine ⟨⟨?_, apart⟩, ?_, sized, ?_, ?_, bounded⟩
  · intro i j a b openA openB same
    obtain ⟨_, rfl⟩ | ⟨beforeA, otherA⟩ := seen i a openA
    · obtain ⟨_, rfl⟩ | ⟨_, otherB⟩ := seen j b openB
      · exact ⟨rfl, rfl⟩
      · exact absurd (same.symm.trans opening) otherB
    obtain ⟨_, rfl⟩ | ⟨beforeB, _⟩ := seen j b openB
    · exact absurd (same.trans opening) otherA
    · exact shares.common i j a b beforeA beforeB same
  · intro stroke inside i g openG same
    obtain ⟨_, rfl⟩ | ⟨before, other⟩ := seen i g openG
    · obtain ⟨place, below⟩ := own stroke inside (same.symm.trans opening)
      exact ⟨node.trans place.symm, below⟩
    · exact shares.reached stroke (strokes stroke inside (fun here => other (same.trans here))) i g before same
  · intro i g openG
    rw [nextFile, nextOpening]
    obtain ⟨rfl, rfl⟩ | ⟨before, _⟩ := seen i g openG
    · exact ⟨opening ▸ known.1, known.2.1, small⟩
    · exact shares.known i g before
  intro stroke inside
  rw [nextOpening]
  by_cases here : stroke.opening = file.opening
  · exact here ▸ known.1
  · exact shares.struck stroke (strokes stroke inside here)

omit found in
theorem setfl_shares (flags : UInt32) (common : t.Common process fd) (shares : Shares t) :
    Shares (sysFcntlSetfl t process fd flags).1 := by
  unfold sysFcntlSetfl
  cases found : t.fileAt process fd with
  | none => exact shares
  | some entry =>
    obtain ⟨id, file⟩ := entry
    obtain ⟨opened, _⟩ := file_at_open found
    refine moved_shares found shares common rfl rfl rfl rfl (shares.known id _ opened).2.2 rfl rfl
      (fun stroke inside _ => inside) (fun stroke inside same => ?_) shares.apart shares.sized shares.bounded
    obtain ⟨node, below⟩ := shares.reached stroke inside id _ opened same.symm
    exact ⟨node.symm, below⟩

omit found in
theorem read_shares (length : Nat) (answer : Except Errno Nat) (common : t.Common process fd)
    (shares : Shares t) : Shares (vfsRead t process fd length answer).1 := by
  unfold vfsRead
  cases found : t.fileAt process fd with
  | none => exact shares
  | some entry =>
    obtain ⟨id, file⟩ := entry
    dsimp only
    obtain ⟨opened, _⟩ := file_at_open found
    split
    · exact shares
    cases answer with
    | error errno => exact shares
    | ok count =>
      -- A read ends inside the file, so the sum does not wrap.
      have held := shares.bounded file.node
      have small : file.offset < 2 ^ 64 := (shares.known id _ opened).2.2
      refine moved_shares found shares common rfl rfl rfl rfl (Nat.mod_lt _ (by decide)) rfl rfl
        (fun stroke inside _ => inside) (fun stroke inside same => ?_) shares.apart shares.sized shares.bounded
      obtain ⟨node, below⟩ := shares.reached stroke inside id _ opened same.symm
      refine ⟨node.symm, ?_⟩
      have fits : file.offset + min count (min length (t.size file.node - file.offset)) < 2 ^ 64 := by omega
      exact below.trans ((Nat.le_add_right _ _).trans (Nat.mod_eq_of_lt fits).ge)

theorem seek_base_lt {whence base : Nat} (shares : Shares t)
    (based : seekBase t file whence = some base) : base < 2 ^ 64 := by
  unfold seekBase at based
  split at based
  · cases based
    decide
  · cases based
    exact (shares.known id _ (file_at_open found).1).2.2
  · cases based
    exact shares.bounded file.node
  · cases based

omit found in
theorem seek_shares (whence : Nat) (off : Int) (common : t.Common process fd) (shares : Shares t) :
    Shares (vfsSeek t process fd whence off).1 := by
  unfold vfsSeek
  cases found : t.fileAt process fd with
  | none => exact shares
  | some entry =>
    obtain ⟨id, file⟩ := entry
    dsimp only
    cases based : seekBase t file whence with
    | none => exact shares
    | some base =>
      dsimp only
      split
      · exact shares
      have inRange : base < 2 ^ 64 := seek_base_lt found shares based
      have kept : ∀ stroke ∈ t.strokes.filter (fun stroke => stroke.opening ≠ file.opening),
          stroke ∈ t.strokes ∧ stroke.opening ≠ file.opening := by
        intro stroke inside
        obtain ⟨before, other⟩ := List.mem_filter.mp inside
        exact ⟨before, of_decide_eq_true other⟩
      have small : (if off < 0 then base - off.natAbs else (base + off.natAbs) % 2 ^ 64) < 2 ^ 64 := by
        split
        · omega
        · exact Nat.mod_lt _ (by decide)
      exact moved_shares found shares common rfl rfl rfl rfl small rfl rfl
        (fun stroke inside _ => (kept stroke inside).1) (fun stroke inside same => absurd same (kept stroke inside).2)
        (shares.apart.sublist List.filter_sublist) (fun stroke inside => shares.sized stroke (kept stroke inside).1)
        shares.bounded

theorem write_start_le (shares : Shares t) (stroke : Stroke) (inside : stroke ∈ t.strokes) (same : stroke.opening = file.opening) :
    stroke.node = file.node ∧ stroke.stop ≤ if file.pipe then file.offset else writeStart t file := by
  obtain ⟨opened, _⟩ := file_at_open found
  obtain ⟨node, below⟩ := shares.reached stroke inside id _ opened same.symm
  refine ⟨node.symm, ?_⟩
  unfold writeStart
  split
  · exact below
  split
  · have stops := shares.sized stroke inside
    rw [← node] at stops
    exact stops
  · exact below

theorem written_shares {start count : Nat} (common : t.Common process fd) (fits : start + count < 2 ^ 64)
    (behind : ∀ stroke ∈ t.strokes, stroke.opening = file.opening → stroke.node = file.node ∧ stroke.stop ≤ start)
    (shares : Shares t) :
    Shares (written t id file start count (max (t.size file.node) ((start + count) % 2 ^ 64))) := by
  have unwrapped : (start + count) % 2 ^ 64 = start + count := Nat.mod_eq_of_lt fits
  rw [unwrapped]
  have grows : ∀ node, t.size node ≤
      update t.size file.node (max (t.size file.node) (start + count)) node := by
    intro node
    by_cases here : node = file.node
    · rw [here, update_self]
      exact le_max_left _ _
    · rw [update_of_ne here]
  refine moved_shares found shares common
    rfl rfl rfl rfl (Nat.mod_lt _ (by decide)) rfl rfl ?_ ?_ ?_ ?_ ?_
  · intro stroke inside other
    obtain rfl | older := List.mem_cons.mp inside
    · exact absurd rfl other
    · exact older
  · intro stroke inside same
    rw [unwrapped]
    obtain rfl | older := List.mem_cons.mp inside
    · exact ⟨rfl, le_rfl⟩
    · obtain ⟨node, below⟩ := behind stroke older same
      exact ⟨node, below.trans (Nat.le_add_right _ _)⟩
  · refine List.pairwise_cons.mpr ⟨fun stroke older same => Or.inr ?_, shares.apart⟩
    exact (behind stroke older same.symm).2
  · intro stroke inside
    obtain rfl | older := List.mem_cons.mp inside
    · simp only [written, update_self]
      exact le_max_right _ _
    · exact (shares.sized stroke older).trans (grows stroke.node)
  intro node
  by_cases here : node = file.node
  · simp only [written, here, update_self]
    exact max_lt (shares.bounded file.node) fits
  · simp only [written, update_of_ne here]
    exact shares.bounded node

end

-- The write stays inside the 64-bit offsets, and the file system notes the new size.
def FileTables.Fits (t : FileTables) (process fd length : Nat) : Prop :=
  ∀ entry ∈ t.fileAt process fd, entry.2.offset + length < 2 ^ 64 ∧ t.size entry.2.node + length < 2 ^ 64

instance (t : FileTables) (process fd length : Nat) : Decidable (t.Fits process fd length) :=
  inferInstanceAs (Decidable (∀ entry ∈ t.fileAt process fd, _ ∧ _))

def WriteAnswer.whole : WriteAnswer → Bool
  | .cut _ => false
  | _ => true

theorem write_shares {length : Nat} {answer : WriteAnswer} (common : t.Common process fd)
    (whole : answer.whole = true) (fits : t.Fits process fd length) (shares : Shares t) :
    Shares (vfsWrite t process fd length answer).1 := by
  unfold vfsWrite
  cases found : t.fileAt process fd with
  | none => exact shares
  | some entry =>
    obtain ⟨id, file⟩ := entry
    dsimp only
    split
    · exact shares
    cases answer with
    | failed errno => exact shares
    | cut count => cases whole
    | took count =>
      obtain ⟨atOffset, atSize⟩ := fits (id, file) found
      dsimp only at atOffset atSize
      refine written_shares found common ?_ (write_start_le found shares) shares
      unfold writeStart
      split
      · omega
      · split <;> omega

def SharedUse (t : FileTables) : FdCall → Prop
  | .setfl process fd _ => t.Common process fd
  | .read process fd _ _ => t.Common process fd
  | .lseek process fd _ _ => t.Common process fd
  | .write process fd length answer => t.Common process fd ∧ answer.whole = true ∧ t.Fits process fd length
  | _ => True

instance (t : FileTables) : (call : FdCall) → Decidable (SharedUse t call)
  | .setfl process fd _ | .read process fd _ _ | .lseek process fd _ _ => inferInstanceAs (Decidable (t.Common process fd))
  | .write process fd length _ => inferInstanceAs (Decidable (t.Common process fd ∧ _ ∧ t.Fits process fd length))
  | .openFile .. | .pipe .. | .close .. | .dup2 .. | .dupfd .. | .forkFile .. => .isTrue trivial

theorem fd_step_shares (t : FileTables) (call : FdCall) (next : FileTables) (shares : Shares t) (use : SharedUse t call)
    (taken : fdStep t call = .ok next) : Shares next := by
  cases taken
  cases call with
  | openFile process node flags granted => exact open_shares shares process node flags granted
  | pipe process node granted => exact pipe_shares shares process node granted
  | close process fd =>
    simp only [fdCall, sysClose]
    cases t.slotAt process fd with
    | none => exact shares
    | some slot => exact close_slot_shares process fd shares
  | dup2 process oldfd newfd flags granted => exact dup2_shares shares process oldfd newfd flags granted
  | dupfd process fd minfd cloexec granted => exact dupfd_shares shares process fd minfd cloexec granted
  | forkFile parent child fd granted => exact fork_file_shares shares parent child fd granted
  | setfl process fd flags => exact setfl_shares flags use shares
  | read process fd length answer => exact read_shares length answer use shares
  | write process fd length answer => exact write_shares use.1 use.2.1 use.2.2 shares
  | lseek process fd whence off => exact seek_shares whence off use shares

theorem boot_tables_share (size : Nat → Fin (2 ^ 64)) : Shares (bootTables size) := by
  refine ⟨⟨?_, List.Pairwise.nil⟩, ?_, ?_, ?_, ?_, fun node => (size node).isLt⟩
  · rintro i j a b ⟨slot, inside, _⟩
    cases inside
  · intro stroke inside
    cases inside
  · intro stroke inside
    cases inside
  · rintro i file ⟨slot, inside, _⟩
    cases inside
  · intro stroke inside
    cases inside

-- As long as a file is moved only through an object that all descriptors of its opening share.
theorem duplicates_share_one_file (size : Nat → Fin (2 ^ 64)) (calls : List FdCall)
    (use : Permitted fdStep SharedUse (bootTables size) calls) : Always fdStep OneOpenFile (bootTables size) calls :=
  permitted_always fd_step_shares (boot_tables_share size) (fun _ shares => shares.toOneOpenFile) use

theorem lone_descriptor_shares : Always fdStep OneOpenFile (bootTables (fun _ => 0))
    [.openFile 1 7 1 true, .write 1 0 3 (.took 3), .forkFile 1 2 0 true, .close 1 0, .write 2 0 4 (.took 4)] :=
  duplicates_share_one_file _ _ (by decide +kernel)

-- The child's copy of the descriptor has an offset of its own.
theorem forked_descriptors_overwrite : ¬ ∀ (size : Nat → Fin (2 ^ 64)) (calls : List FdCall),
      Always fdStep OneOpenFile (bootTables size) calls := by
  intro all
  obtain ⟨_, second⟩ := all (fun _ => 0) [.openFile 1 7 1 true, .forkFile 1 2 0 true, .write 1 0 5 (.took 5), .write 2 0 5 (.took 5)]
  obtain ⟨_, third⟩ := second _ rfl
  obtain ⟨_, fourth⟩ := third _ rfl
  obtain ⟨_, last⟩ := fourth _ rfl
  have apart := (last _ rfl).apart
  revert apart
  decide +kernel

end Lyr.Fs
