import Lyr.Mm.WorldCounts
import Lyr.Sys.ForkFiles

set_option autoImplicit false

namespace Lyr.Sys

open Lyr.Lib Lyr.Fs Lyr.Sched Lyr.Mm

def userByte (mem : Bytes) (vas : Vas) (v offset : Nat) : Option UInt8 :=
  (leaf mem vas.pml4 v).map (fun e => mem (4096 * frameOf e + offset))

def userRegisters (frame : InterruptFrame) : InterruptFrame :=
  { frame with rax := 0, cr0 := 0, cr2 := 0, cr3 := 0, cr4 := 0, vector := 0, err := 0 }

variable {held : Nat → Nat} {vas : Vas} {v : Nat} {base : List Space} {s next : ForkState} {caller child : Caller}
    {answers : ForkAnswers}

theorem cloned_bytes {w : World} {dst : Vas} {n : Mm.Machine} (sane : w.Sane base held)
    (inside : vas ∈ w.spaces) (hidden : TablesHidden base w vas) (done : vasClone w.machine vas = .ok (n, dst)) {offset : Nat}
    (small : v < 2 ^ 35) (within : offset < 4096) : userByte n.mem dst v offset = userByte w.machine.mem vas v offset := by
  have free : ∀ p, Steady w.machine base (w.all base) held p → p ∉ w.machine.free := fun p =>
    steady_not_free sane.sound (base_in_all base w)
  have listed := user_in_all base inside
  obtain ⟨_, a, created, different, cloned⟩ := ends_value (clone_op sane.sound listed
    (sane.vads vas inside) sane.windows free) _ done
  have before : leaf a.mem vas.pml4 v = leaf w.machine.mem vas.pml4 v :=
    created_leaf sane.sound created listed (Nat.zero_le v) small
  unfold userByte
  cases mapped : leaf w.machine.mem vas.pml4 v with
  | none =>
    rw [mapped] at before
    have gone : leaf n.mem dst.pml4 v = none := by
      by_cases covered : InVads vas.list v
      · exact (cloned.absent v covered before).2
      · have same := cloned.op.leaf (userSpace dst.pml4) (by simp) v (Nat.zero_le v) small (fun touched => covered touched.2)
        exact same.trans (lower_empty_leaf created.empty small)
    rw [gone, Option.map_none, Option.map_none]
  | some e =>
    rw [mapped] at before
    have covered := sane.covered vas inside v small (by rw [mapped]; exact Option.some_ne_none e)
    have notTable := hidden v e small mapped
    have fresh : frameOf e ≠ dst.pml4 := fun same =>
      user_page_not_free sane.sound listed small notTable mapped (same ▸ created.taken.1)
    have stillNot : ¬ AnyTable a.mem (userSpace dst.pml4 :: w.all base) (frameOf e) := fun table =>
      notTable (created_any_table sane.sound created fresh table)
    have kept := (cloned.bytes v e covered before stillNot).1
    have first := created.bytes (frameOf e) fresh
    have copied : leaf n.mem dst.pml4 v = some _ := cloned.copy v e covered before
    rw [copied, Option.map_some, Option.map_some, frame_leaf_value, kept _ (by omega) (by omega), first _ (by omega) (by omega)]

-- The memory is in order, the caller's address space part of it, and the child's pid nobody's.
structure ForkSane (base : List Space) (held : Nat → Nat) (s : ForkState) (caller : Caller) : Prop where
  memory : s.world.Sane base held
  own : caller.vas ∈ s.world.spaces
  hidden : TablesHidden base s.world caller.vas
  known : Known s.files
  fresh : ∀ slot ∈ s.files.slots, slot.process ≠ s.table.pool.peek
  new : caller.process.pid ≠ s.table.pool.peek

def userIds (process : Process) : List Nat := [process.ruid, process.euid, process.suid, process.rgid, process.egid, process.sgid]

structure ForkCopies (s next : ForkState) (caller child : Caller) : Prop where
  returned : child.thread.frame.rax = 0
  registers : userRegisters child.thread.frame = userRegisters caller.thread.frame
  fsBase : child.thread.fsBase = caller.thread.fsBase
  memory : ∀ v offset, v < 2 ^ 35 → offset < 4096 →
    userByte next.world.machine.mem child.vas v offset = userByte s.world.machine.mem caller.vas v offset
  ids : userIds child.process = userIds caller.process
  umask : child.process.umask = caller.process.umask
  actions : ∀ signal, 1 ≤ signal → signal ≤ schedNsig → child.process.sigactions signal = caller.process.sigactions signal ∧
    child.process.sigflags signal = caller.process.sigflags signal
  mask : child.thread.signalMask = caller.thread.signalMask
  cwd : child.process.cwd = caller.process.cwd
  descriptors : ∀ fd, fd < schedFileMax → descriptor next.files child.process.pid fd = descriptor s.files caller.process.pid fd
  pending : child.process.pendingSignals = 0

def FreshlyMade (caller : Caller) : Prop := caller.process.umask = 0o022 ∧ caller.thread.signalMask = 0 ∧
    ∀ signal, 1 ≤ signal → signal ≤ schedNsig → caller.process.sigactions signal = ⟨schedSigDfl, 0, 0⟩ ∧
      caller.process.sigflags signal = 0

-- What execve has to make of the signal actions.
def ActionsReset (before after : Process) : Prop := ∀ signal, 1 ≤ signal → signal ≤ schedNsig → (after.sigactions signal).handler =
    if (before.sigactions signal).handler = schedSigIgn then schedSigIgn else schedSigDfl

def NoHandlers (process : Process) : Prop :=
  ∀ signal, 1 ≤ signal → signal ≤ schedNsig → (process.sigactions signal).handler = schedSigDfl ∨
    (process.sigactions signal).handler = schedSigIgn

theorem peek_alloc (pool : IdPool) : (idAlloc pool).1 = pool.peek := by
  unfold idAlloc IdPool.peek
  cases pool.free <;> rfl

section

variable (forked : sysForkHandler s caller answers = some (next, child))
include forked

theorem fork_outcome :
    ∃ machine, vasClone s.world.machine caller.vas = .ok (machine, child.vas) ∧ next.world.machine = machine ∧
      child.process = forkedProcess s.table.pool.peek caller.process ∧ child.thread = schedForkThread caller.thread child.vas.pml4 ∧
      forkFiles (closeAll (processSetupFds s.files s.table.pool.peek answers) s.table.pool.peek) caller.process.pid s.table.pool.peek
        answers.granted (List.range schedFileMax) = some next.files := by
  unfold sysForkHandler at forked
  split at forked
  · cases forked
  rename_i machine vas cloned
  dsimp only at forked
  rw [peek_alloc] at forked
  split at forked
  · cases forked
  rename_i files copied
  split at forked
  · cases forked
    exact ⟨machine, cloned, rfl, rfl, rfl, copied⟩
  · cases forked

theorem fork_copies_iff (sane : ForkSane base held s caller) :
    ForkCopies s next caller child ↔ FreshlyMade caller := by
  obtain ⟨machine, cloned, memory, process, thread, files⟩ := fork_outcome forked
  constructor
  · intro copies
    have umask := copies.umask
    have mask := copies.mask
    rw [process] at umask
    rw [thread] at mask
    refine ⟨umask.symm, mask.symm, fun signal low high => ?_⟩
    have action := copies.actions signal low high
    rw [process] at action
    exact ⟨action.1.symm, action.2.symm⟩
  rintro ⟨umask, mask, actions⟩
  refine ⟨?_, ?_, ?_, fun v offset small within => ?_, ?_, ?_, fun signal low high => ?_, ?_, ?_, fun fd inRange => ?_, ?_⟩
  · rw [thread]
    rfl
  · rw [thread]
    rfl
  · rw [thread]
    rfl
  · rw [memory]
    exact cloned_bytes sane.memory sane.own sane.hidden cloned small within
  · rw [process]
    rfl
  · rw [process, umask]
    rfl
  · rw [process, (actions signal low high).1, (actions signal low high).2]
    exact ⟨rfl, rfl⟩
  · rw [thread, mask]
    rfl
  · rw [process]
    rfl
  · rw [process]
    exact forked_descriptors sane.new sane.known sane.fresh files inRange
  · rw [process]
    rfl

end

theorem exec_resets_iff {files filesAfter : FileTables} {after : Caller} {image : Option ExecImage}
    (execed : sysExecveHandler files caller image = some (filesAfter, after)) :
    ActionsReset caller.process after.process ↔ NoHandlers caller.process := by
  have same : after.process = caller.process := by
    cases image with
    | none => cases execed
    | some image =>
      simp only [sysExecveHandler, Option.map_some, Option.some.injEq, Prod.mk.injEq] at execed
      rw [← execed.2]
  rw [same]
  refine forall_congr' (fun signal => forall_congr' (fun _ => forall_congr' (fun _ => ?_)))
  split
  · rename_i ignored
    simp [ignored]
  · rename_i different
    simp [different]

theorem fork_and_exec_keep_the_process (base : List Space) (held : Nat → Nat) (s next : ForkState) (caller child : Caller)
    (answers : ForkAnswers) (sane : ForkSane base held s caller) (forked : sysForkHandler s caller answers = some (next, child))
    (files filesAfter : FileTables) (running after : Caller) (image : Option ExecImage)
    (execed : sysExecveHandler files running image = some (filesAfter, after)) :
    (ForkCopies s next caller child ↔ FreshlyMade caller) ∧ (ActionsReset running.process after.process ↔
      NoHandlers running.process) :=
  ⟨fork_copies_iff forked sane, exec_resets_iff execed⟩

def plainImage : ExecImage := ⟨⟨1, [], vasUserStart⟩, 0x400000, 0x7000⟩

def youngState : ForkState where
  world := mappedWorld
  table := ⟨[], ⟨3, []⟩⟩
  files := newFile (newFile (newFile (bootTables (fun _ => 0)) 2 0 7 vfsORdonly false) 2 1 8 vfsOWronly false) 2 5 9 vfsOWronly false

def youngCaller : Caller where
  process := { processAllocId 2 true true with
    ruid := 1000, euid := 1000, suid := 1000, rgid := 100, egid := 100, sgid := 100, cwd := [47, 97] }
  vas := mappedVas
  thread := ⟨{ execFrame plainImage with rax := 57, rbx := 2, rdi := 3, rip := 0x5010 }, 0x6000, 0, 0⟩

def willingKernel : ForkAnswers := ⟨1, 2, 3, fun _ => true, true⟩

theorem young_fork_sane : ForkSane [] (fun _ => 0) youngState youngCaller := by
  obtain ⟨sane, hidden⟩ := mapped_world_sane
  have known : ∀ slot ∈ youngState.files.slots, slot.file < youngState.files.nextFile := by decide +kernel
  exact ⟨sane, mapped_vas_inside, hidden mappedVas mapped_vas_inside, known, by decide +kernel, by decide +kernel⟩

def ignoringCaller : Caller := { youngCaller with
    process := { youngCaller.process with sigactions := fun signal => if signal = 10 then ⟨schedSigIgn, 0, 0⟩ else ⟨schedSigDfl,
      0, 0⟩ } }

theorem young_process_copied : (∃ next child, sysForkHandler youngState youngCaller willingKernel = some (next, child) ∧
      ForkCopies youngState next youngCaller child) ∧ userByte mappedWorld.machine.mem mappedVas 6 3 = some 0xCC ∧
    ∃ files after, sysExecveHandler youngState.files ignoringCaller (some plainImage) = some (files, after) ∧
      ActionsReset ignoringCaller.process after.process ∧ (after.process.sigactions 10).handler = schedSigIgn := by
  have succeeds : (sysForkHandler youngState youngCaller willingKernel).isSome = true := by decide +kernel
  obtain ⟨⟨next, child⟩, forked⟩ := Option.isSome_iff_exists.mp succeeds
  have both := fork_and_exec_keep_the_process [] (fun _ => 0) youngState next youngCaller child willingKernel young_fork_sane forked
    youngState.files _ ignoringCaller _ (some plainImage) rfl
  refine ⟨⟨next, child, forked, both.1.mpr ⟨rfl, rfl, fun _ _ _ => ⟨rfl, rfl⟩⟩⟩, by decide +kernel, _, _, rfl, both.2.mpr ?_, rfl⟩
  intro signal _ _
  by_cases ignored : signal = 10
  · exact .inr (by simp [ignoringCaller, ignored])
  · exact .inl (by simp [ignoringCaller, ignored])

def settledCaller : Caller := { youngCaller with
    process := { youngCaller.process with umask := 0o077, sigactions := fun signal => if signal = 10 then ⟨0x401000, 0x402000,
      0⟩ else ⟨0, 0, 0⟩ }
    thread := { youngCaller.thread with signalMask := 2 } }

theorem settled_process_changes : (sysForkHandler youngState settledCaller willingKernel).map (fun result =>
      (result.2.process.umask, result.2.thread.signalMask, (result.2.process.sigactions 10).handler)) = some (0o022, 0, schedSigDfl) ∧
    (settledCaller.process.umask, settledCaller.thread.signalMask, (settledCaller.process.sigactions 10).handler) = (0o077, 2,
      0x401000) ∧
    (sysExecveHandler youngState.files settledCaller (some plainImage)).map (fun result => (result.2.process.sigactions 10).handler) =
      some 0x401000 := by
  decide +kernel

end Lyr.Sys
