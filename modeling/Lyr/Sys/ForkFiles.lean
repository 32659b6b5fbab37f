import Lyr.Fs.DescriptorShare
import Lyr.Sys.Fork

set_option autoImplicit false

namespace Lyr.Sys

open Lyr.Lib Lyr.Fs Function

-- The open file and the descriptor's flags.
def descriptor (t : FileTables) (process fd : Nat) : Option (OpenFile × UInt32) :=
  (t.slotAt process fd).bind (fun slot => (t.heap slot.file).map (fun file => (file.toOpenFile, slot.fdFlags)))

theorem slot_at_without (t : FileTables) (process fd p f : Nat) :
    (t.withoutSlot process fd).slotAt p f = if p = process ∧ f = fd then none else t.slotAt p f := by
  simp only [FileTables.slotAt, FileTables.withoutSlot, List.find?_filter]
  split
  · rw [List.find?_eq_none]
    intro slot _
    grind
  congr 1
  funext slot
  grind

theorem slot_at_with (t : FileTables) (slot : FdSlot) (p f : Nat) :
    (t.withSlot slot).slotAt p f = if p = slot.process ∧ f = slot.fd then some slot else t.slotAt p f := by
  by_cases here : p = slot.process ∧ f = slot.fd
  · simp [FileTables.slotAt, FileTables.withSlot, here.1, here.2]
  have missed : ¬(slot.process = p ∧ slot.fd = f) := fun same => here ⟨same.1.symm, same.2.symm⟩
  have rest := slot_at_without t slot.process slot.fd p f
  rw [if_neg here] at rest ⊢
  rw [← rest]
  simp [FileTables.slotAt, FileTables.withSlot, missed]

def Known (t : FileTables) : Prop := ∀ slot ∈ t.slots, slot.file < t.nextFile

variable {t after next : FileTables} {child fd parent : Nat} {fds : List Nat}

theorem known_with {slot : FdSlot} (known : Known t) (own : slot.file < t.nextFile) : Known (t.withSlot slot) := by
  intro other inside
  obtain same | old := List.mem_cons.mp inside
  · exact same ▸ own
  · exact known other (List.mem_filter.mp old).1

structure Started (t after : FileTables) (child : Nat) : Prop where
  others : ∀ p fd, p ≠ child → after.slotAt p fd = t.slotAt p fd
  old : ∀ id, id < t.nextFile → after.heap id = t.heap id
  own : ∀ slot ∈ after.slots, slot.process = child → t.nextFile ≤ slot.file
  known : Known after
  grown : t.nextFile ≤ after.nextFile

theorem new_file_started (fd : Nat) {node : Nat} {flags : UInt32} {pipe : Bool} (started : Started t after child) :
    Started t (newFile after child fd node flags pipe) child := by
  obtain ⟨others, old, own, known, grown⟩ := started
  unfold newFile
  refine ⟨fun p f different => ?_, fun id small => ?_, fun slot inside mine => ?_, ?_, ?_⟩
  · rw [slot_at_with, if_neg (fun here => different here.1)]
    exact others p f different
  · have different : id ≠ after.nextFile := by omega
    exact (update_of_ne different _ _).trans (old id small)
  · obtain new | kept := List.mem_cons.mp inside
    · rw [new]
      exact grown
    · exact own slot (List.mem_filter.mp kept).1 mine
  · exact known_with (fun slot inside => Nat.lt_succ_of_lt (known slot inside)) (Nat.lt_succ_self _)
  · exact Nat.le_succ_of_le grown

theorem close_slot_started (fd : Nat) (started : Started t after child) : Started t (closeFileSlot after child fd) child := by
  unfold closeFileSlot
  cases found : after.slotAt child fd with
  | none => exact started
  | some slot =>
    obtain ⟨inside, mine, _⟩ := slot_at_mem found
    obtain ⟨others, old, own, known, grown⟩ := started
    have far := own slot inside mine
    obtain ⟨slots, _, _, _, nextFile⟩ := vfs_close_rest after slot.file
    refine ⟨fun p f different => ?_, fun id small => ?_, fun other kept => ?_, fun other kept => ?_, ?_⟩
    · rw [slot_at_without, if_neg (fun here => different here.1)]
      rw [FileTables.slotAt, slots]
      exact others p f different
    · rw [← old id small]
      have different : id ≠ slot.file := by omega
      simp only [FileTables.withoutSlot, vfsClose]
      cases after.heap slot.file with
      | none => rfl
      | some file =>
        dsimp only
        split
        · exact update_of_ne different _ _
        · exact update_of_ne different _ _
    · exact own other (slots ▸ (List.mem_filter.mp kept).1)
    · exact lt_of_lt_of_eq (known other (slots ▸ (List.mem_filter.mp kept).1)) nextFile.symm
    · exact le_of_le_of_eq grown nextFile.symm

theorem close_all_started (after : FileTables) (started : Started t after child) :
    Started t (fds.foldl (fun t fd => closeFileSlot t child fd) after) child := by
  induction fds generalizing after with
  | nil => exact started
  | cons fd rest ih => exact ih (closeFileSlot after child fd) (close_slot_started fd started)

theorem close_slot_at (t : FileTables) (process fd p f : Nat) :
    (closeFileSlot t process fd).slotAt p f = if p = process ∧ f = fd then none else t.slotAt p f := by
  unfold closeFileSlot
  cases found : t.slotAt process fd with
  | none =>
    dsimp only
    split
    · rename_i here
      rw [here.1, here.2]
      exact found
    · rfl
  | some slot =>
    rw [slot_at_without]
    simp only [FileTables.slotAt, (vfs_close_rest t slot.file).1]

theorem close_all_slots (process : Nat) (t : FileTables) (inside : fd ∈ fds) :
    (fds.foldl (fun t fd => closeFileSlot t process fd) t).slotAt process fd = none := by
  have stays : ∀ (rest : List Nat) (t : FileTables), t.slotAt process fd = none →
      (rest.foldl (fun t fd => closeFileSlot t process fd) t).slotAt process fd = none := by
    intro rest
    induction rest with
    | nil => exact fun t gone => gone
    | cons f rest ih =>
      intro t gone
      refine ih _ ?_
      rw [close_slot_at, gone, ite_self]
  induction fds generalizing t with
  | nil => cases inside
  | cons f rest ih =>
    obtain same | later := List.mem_cons.mp inside
    · subst same
      exact stays rest _ (by rw [close_slot_at, if_pos ⟨rfl, rfl⟩])
    · exact ih _ later

-- The parent's files stay, and the descriptors passed so far are in the child.
structure Copying (t after : FileTables) (parent child : Nat) (done : Nat → Prop) : Prop where
  slots : ∀ fd, after.slotAt parent fd = t.slotAt parent fd
  files : ∀ id, id < t.nextFile → (after.heap id).map VfsFile.toOpenFile = (t.heap id).map VfsFile.toOpenFile
  copied : ∀ fd, done fd → descriptor after child fd = descriptor t parent fd
  ahead : ∀ fd, fd < schedFileMax → ¬done fd → after.slotAt child fd = none
  known : Known after
  grown : t.nextFile ≤ after.nextFile

theorem descriptor_congr {process : Nat} (slots : after.slotAt process fd = t.slotAt process fd)
    (files : ∀ slot, t.slotAt process fd = some slot →
      (after.heap slot.file).map VfsFile.toOpenFile = (t.heap slot.file).map VfsFile.toOpenFile) :
    descriptor after process fd = descriptor t process fd := by
  unfold descriptor
  rw [slots]
  cases found : t.slotAt process fd with
  | none => rfl
  | some slot =>
    simp only [Option.bind_some]
    cases now : after.heap slot.file <;> cases before : t.heap slot.file <;> simp_all

section

variable (different : parent ≠ child)
include different

theorem fork_file_copying {granted : Bool} {result : Nat} {done : Nat → Prop}
    (inRange : fd < schedFileMax) (todo : ¬done fd) (known : Known t) (copying : Copying t after parent child done)
    (forked : forkFile after parent child fd granted = (next, .ok result)) :
    Copying t next parent child (fun f => done f ∨ f = fd) := by
  unfold forkFile at forked
  cases found : after.slotAt parent fd with
  | none =>
    rw [found] at forked
    cases forked
    refine ⟨copying.slots, copying.files, fun f passed => ?_,
      fun f small left => copying.ahead f small (fun before => left (Or.inl before)), copying.known, copying.grown⟩
    obtain before | same := passed
    · exact copying.copied f before
    subst same
    have missing := (copying.slots f).symm.trans found
    simp [descriptor, copying.ahead f inRange todo, missing]
  | some source =>
    rw [found] at forked
    dsimp only [dupInto] at forked
    have original := (copying.slots fd).symm.trans found
    obtain ⟨listed, _, _⟩ := slot_at_mem original
    have small := known source listed
    cases duplicated : syscallDupFile after source.file granted with
    | none =>
      rw [duplicated] at forked
      cases forked
    | some pair =>
      obtain ⟨mid, dup⟩ := pair
      rw [duplicated] at forked
      cases present : after.heap source.file with
      | none => simp [syscallDupFile, present] at duplicated
      | some file =>
        obtain ⟨slots, _, _, _, place, copy, core, heap⟩ := syscall_dup_file_spec present duplicated
        cases forked
        have grown := copying.grown
        have seen : ∀ id, id < after.nextFile →
            (mid.heap id).map VfsFile.toOpenFile = (after.heap id).map VfsFile.toOpenFile := by
          intro id before
          by_cases here : id = dup
          · obtain ⟨same, _⟩ | ⟨same, _⟩ := place
            · rw [heap, here, update_self, same, present, Option.map_some, Option.map_some, core]
            · omega
          · rw [heap, update_of_ne here]
        have later : after.nextFile ≤ mid.nextFile ∧ dup < mid.nextFile := by omega
        have slotAt : ∀ p f, (mid.withSlot ⟨child, fd, dup, source.fdFlags⟩).slotAt p f =
            if p = child ∧ f = fd then some ⟨child, fd, dup, source.fdFlags⟩ else after.slotAt p f := by
          intro p f
          rw [slot_at_with]
          simp only [FileTables.slotAt, slots]
        refine ⟨fun f => ?_, fun id before => ?_, fun f passed => ?_, fun f inside left => ?_, ?_, le_trans grown later.1⟩
        · rw [slotAt, if_neg (fun here => different here.1)]
          exact copying.slots f
        · exact (seen id (by omega)).trans (copying.files id before)
        · by_cases same : f = fd
          · subst same
            have before := copying.files source.file small
            rw [present] at before
            have shown : descriptor t parent f = some (file.toOpenFile, source.fdFlags) := by
              unfold descriptor
              rw [original]
              cases held : t.heap source.file with
              | none => rw [held] at before; cases before
              | some first =>
                rw [held] at before
                simp only [Option.map_some, Option.some.injEq] at before
                simp [held, before]
            have copied : (mid.withSlot ⟨child, f, dup, source.fdFlags⟩).heap dup = some copy :=
              (congrFun heap dup).trans (update_self dup (some copy) after.heap)
            rw [shown]
            simp only [descriptor, slotAt, and_self, if_true, Option.bind_some, copied, Option.map_some, core]
          have before := passed.resolve_right same
          rw [← copying.copied f before]
          refine descriptor_congr (by rw [slotAt, if_neg (fun here => same here.2)]) (fun slot there => ?_)
          exact seen slot.file (copying.known slot (slot_at_mem there).1)
        · rw [slotAt, if_neg (fun here => left (Or.inr here.2))]
          exact copying.ahead f inside (fun before => left (Or.inl before))
        · refine known_with (fun slot inside => ?_) later.2
          exact lt_of_lt_of_le (copying.known slot (slots ▸ inside)) later.1

theorem fork_files_copying {granted : Nat → Bool} (after : FileTables)
    (done : Nat → Prop) (nodup : fds.Nodup) (inRange : ∀ fd ∈ fds, fd < schedFileMax) (todo : ∀ fd ∈ fds, ¬done fd) (known : Known t)
    (copying : Copying t after parent child done) (forked : forkFiles after parent child granted fds = some next) :
    Copying t next parent child (fun f => done f ∨ f ∈ fds) := by
  induction fds generalizing after done with
  | nil =>
    cases forked
    simpa using copying
  | cons fd rest ih =>
    obtain ⟨fresh, nodup⟩ := List.nodup_cons.mp nodup
    unfold forkFiles at forked
    split at forked
    · cases forked
    rename_i mid result copied
    have step := fork_file_copying different (inRange fd (by simp)) (todo fd (by simp)) known copying copied
    have rest := ih mid (fun f => done f ∨ f = fd) nodup (fun f inside => inRange f (by simp [inside]))
      (fun f inside passed => ?_) step forked
    · simpa [or_assoc] using rest
    obtain before | same := passed
    · exact todo f (by simp [inside]) before
    · exact fresh (same ▸ inside)

theorem forked_descriptors {answers : ForkAnswers} (known : Known t) (fresh : ∀ slot ∈ t.slots, slot.process ≠ child)
    (forked : forkFiles (closeAll (processSetupFds t child answers) child) parent child answers.granted
      (List.range schedFileMax) = some next) (inRange : fd < schedFileMax) : descriptor next child fd = descriptor t parent fd := by
  have start : Started t t child :=
    ⟨fun _ _ _ => rfl, fun _ _ => rfl, fun slot inside mine => absurd mine (fresh slot inside), known, le_rfl⟩
  have opened : Started t (processSetupFds t child answers) child :=
    new_file_started 2 (new_file_started 1 (new_file_started 0 start))
  have closed : Started t (closeAll (processSetupFds t child answers) child) child := close_all_started _ opened
  have copying : Copying t (closeAll (processSetupFds t child answers) child) parent child (fun _ => False) :=
    ⟨fun f => closed.others parent f different, fun id small => by rw [closed.old id small], fun _ none => none.elim,
      fun f small _ => close_all_slots child _ (List.mem_range.mpr small), closed.known, closed.grown⟩
  have copied := fork_files_copying different _ _ List.nodup_range
    (fun f inside => List.mem_range.mp inside) (fun _ _ none => none) known copying forked
  exact copied.copied fd (Or.inr (List.mem_range.mpr inRange))

end

end Lyr.Sys
