import Lyr.Sched.Session
import Lyr.Sched.SignalTargets

set_option autoImplicit false

namespace Lyr.Sched

open Lyr.Lib

inductive Ending where
  | exited (code : Nat)
  | signaled (signal : Nat)
  deriving DecidableEq, Repr

-- WIFEXITED with WEXITSTATUS, and WIFSIGNALED with WTERMSIG.
def decodeStatus (status : Int) : Option Ending :=
  if status % 128 = 0 then some (.exited (status / 256 % 256).toNat)
  else if status % 128 = 127 then none
  else some (.signaled (status % 128).toNat)

-- NULL, failing the check, taking the status, or failing in the copy after the check.
inductive StatusBuffer where
  | null
  | unwritable
  | writable
  | lost
  deriving DecidableEq, Repr

inductive WaitReturn where
  | returned (pid : Nat) (stored : Option Int)
  | efault
  | failed (errno : SchedErrno)
  | sleeps
  deriving DecidableEq, Repr

-- One turn of sys_waitpid_handler, with the options sched_process_wait rejects.
def sysWaitpid (t : ProcessTable) (process : Process) (pid : Int) (options : Nat) (buffer : StatusBuffer) :
    Except SchedPanic (ProcessTable × WaitReturn) :=
  if buffer = .unwritable then .ok (t, .efault)
  else (schedProcessWait t process pid options).map (fun waited => (waited.1, match waited.2 with
    | .collected child status => if buffer = .lost then .efault else .returned child (if buffer = .null then none else some status)
    | .nothing => .returned 0 none
    | .again => .sleeps
    | .failed errno => .failed errno))

-- exit is sys_exit, leave sys_thread_exit, signalled a fatal mark, and finish the end of a thread in a process so marked.
inductive EndEvent where
  | exit (pid : Nat) (n : Int)
  | leave (pid : Nat)
  | signalled (pid signal : Nat)
  | finish (pid : Nat)
  | waitpid (parent : Nat) (pid : Int) (options : Nat) (buffer : StatusBuffer)
  | other (call : ProcessCall)
  deriving DecidableEq

def endStep (t : ProcessTable) : EndEvent → Except SchedPanic ProcessTable
  | .exit pid n => processStep t (.exitThread pid n)
  | .leave pid => processStep t (.exitThread pid 0)
  | .signalled pid signal => .ok (t.modify pid (fun process => process.terminate signal))
  | .finish pid => match t.find pid with
      | none => .ok t
      | some process => if process.dying then .ok (threadFinishProcess t process process.exitStatus) else .ok t
  | .waitpid parent pid options buffer => match t.find parent with
      | none => .ok t
      | some process => (sysWaitpid t process pid options buffer).map Prod.fst
  | .other call => processStep t call

-- Ending, until it has been collected.
def StillEnding (next : ProcessTable) (p : Process) : Prop :=
  ∃ q ∈ next.list, q.pid = p.pid ∧ q.dying = true ∧ q.exitStatus = p.exitStatus ∧ (p.zombie = true → q.zombie = true)

-- What a wait that collects a process returns and stores.
def Told (buffer : StatusBuffer) (p : Process) : WaitReturn :=
  .returned p.pid (if buffer = .null then none else some (waitStatus p.exitStatus))

def CollectedBy (t : ProcessTable) (event : EndEvent) (next : ProcessTable) (p : Process) : Prop :=
  p.zombie = true ∧ (∀ q ∈ next.list, q.pid ≠ p.pid) ∧ ∃ parent pid options buffer process,
    event = .waitpid parent pid options buffer ∧
    t.find parent = some process ∧ p.ppid = process.pid ∧ sysWaitpid t process pid options buffer = .ok (next, Told buffer p)

-- With valid arguments and a matching zombie.
def Collects (t : ProcessTable) (event : EndEvent) (next : ProcessTable) : Prop := ∀ parent pid options buffer process p,
  event = .waitpid parent pid options buffer → t.find parent = some process → buffer ≠ .unwritable → options / 16 = 0 ∧
    options &&& 4 = 0 →
    p ∈ t.list → p.zombie = true → waitMatches process p pid = true → ∃ q ∈ t.list, q.zombie = true ∧
      waitMatches process q pid = true ∧
      sysWaitpid t process pid options buffer = .ok (next, Told buffer q)

structure StatusLaw (t : ProcessTable) (event : EndEvent) (next : ProcessTable) : Prop where
  exits : ∀ pid n process, event = .exit pid n → t.find pid = some process → 0 < process.ppid → 0 < process.threadCount → 0 < pid →
    ∃ q ∈ next.list, q.pid = pid ∧ q.zombie = true ∧ decodeStatus (waitStatus q.exitStatus) = some (.exited (n % 256).toNat)
  signals : ∀ pid signal process, event = .signalled pid signal → signal ∈ List.range' 1 schedNsig → t.find pid = some process →
    processIsKernelOwned process = false →
    ∃ q ∈ next.list, q.pid = pid ∧ q.dying = true ∧ decodeStatus (waitStatus q.exitStatus) = some (.signaled signal)
  kept : ∀ p ∈ t.list, p.dying = true → p.zombie = true ∨ 0 < p.threadCount → StillEnding next p ∨ CollectedBy t event next p
  collects : Collects t event next

-- Only a last thread exits, with a status not taken for a signal; nothing ends twice, and no collected status is lost on its way.
def EndsOnce (t : ProcessTable) : EndEvent → Prop
  | .exit pid n => ∀ process ∈ t.find pid, process.threadCount = 1 ∧ process.dying = false ∧ (n < 128 ∨ n % 256 = 0)
  | .leave pid => ∀ process ∈ t.find pid, process.threadCount = 1 → process.dying = false
  | .signalled pid _ => ∀ process ∈ t.find pid, process.dying = false
  | .finish _ => True
  | .waitpid _ _ _ buffer => buffer ≠ .lost
  | .other (.exitThread ..) | .other (.wait ..) => False
  | .other _ => True

instance (t : ProcessTable) : (event : EndEvent) → Decidable (EndsOnce t event)
  | .exit pid _ => inferInstanceAs (Decidable (∀ process ∈ t.find pid, _ ∧ _))
  | .leave pid => inferInstanceAs (Decidable (∀ process ∈ t.find pid, _ → _))
  | .signalled pid _ => inferInstanceAs (Decidable (∀ process ∈ t.find pid, process.dying = false))
  | .waitpid _ _ _ buffer => inferInstanceAs (Decidable (buffer ≠ .lost))
  | .finish .. | .other (.create ..) | .other (.addThread ..) | .other (.fork ..) | .other (.setpgid ..) | .other (.setsid ..)
    | .other (.destroy ..) => .isTrue trivial
  | .other (.exitThread ..) | .other (.wait ..) => .isFalse id

variable {t next : ProcessTable} {p q process : Process} {status : Int} {event : EndEvent}

theorem wait_status_exit (n : Int) (plain : n < 128 ∨ n % 256 = 0) :
    decodeStatus (waitStatus n) = some (.exited (n % 256).toNat) := by
  unfold decodeStatus waitStatus
  grind

theorem wait_status_signal (signal : Nat) (valid : signal ∈ List.range' 1 schedNsig) :
    decodeStatus (waitStatus (128 + signal)) = some (.signaled signal) := by
  revert signal
  decide +kernel

def Process.fate (p : Process) : Nat × Bool × Int × Bool := (p.pid, p.dying, p.exitStatus, p.zombie)

theorem still_ending {z : Bool} (inside : (p.pid, true, p.exitStatus, z) ∈ next.list.map Process.fate)
    (dead : p.zombie = true → z = true) :
    StillEnding next p := by
  obtain ⟨q, there, same⟩ := List.mem_map.mp inside
  simp only [Process.fate, Prod.mk.injEq] at same
  exact ⟨q, there, same.1, same.2.1, same.2.2.1, fun zombie => same.2.2.2.trans (dead zombie)⟩

theorem fates_apart {list : List Process} (same : list.map Process.fate = t.list.map Process.fate) (pids : PidsApart t) :
    PidsApart { t with list } := by
  refine pids_apart_list ?_ pids
  simpa [Process.fate, Function.comp_def] using congrArg (List.map Prod.fst) same

theorem same_fates (same : next.list.map Process.fate = t.list.map Process.fate) (inside : p ∈ t.list) (dying : p.dying = true) :
    StillEnding next p := by
  refine still_ending (z := p.zombie) ?_ id
  rw [same]
  exact dying ▸ List.mem_map_of_mem inside

theorem modify_fates (pid : Nat) {change : Process → Process} (same : ∀ p, (change p).fate = p.fate) :
    (t.modify pid change).list.map Process.fate = t.list.map Process.fate := by
  rw [ProcessTable.modify, List.map_map]
  refine List.map_congr_left (fun p _ => ?_)
  simp only [Function.comp_apply]
  split
  · exact same p
  · rfl

theorem thread_finish_fates (t : ProcessTable) (process : Process) (status : Int) :
    (threadFinishProcess t process status).pool = t.pool ∧ (threadFinishProcess t process status).list.map Process.fate =
      t.list.map (fun p => if p.pid = process.pid then (processRemoveThreadOf process status).1.fate else p.fate) := by
  have first : ∀ left : Process, (t.modify process.pid (fun _ => left)).list.map Process.fate =
      t.list.map (fun p => if p.pid = process.pid then left.fate else p.fate) := by
    intro left
    rw [ProcessTable.modify, List.map_map]
    exact List.map_congr_left (fun p _ => apply_ite Process.fate _ _ _)
  have adopted : ∀ (t : ProcessTable) (old new : Nat), (processReparentChildren t old new).pool = t.pool ∧
      (processReparentChildren t old new).list.map Process.fate = t.list.map Process.fate := by
    intro t old new
    unfold processReparentChildren
    split
    · exact ⟨rfl, rfl⟩
    · rw [List.map_map]
      exact ⟨rfl, List.map_congr_left (fun p _ => by simp only [Function.comp_apply]; split <;> rfl)⟩
  unfold threadFinishProcess
  cases removed : processRemoveThreadOf process status with | mk left action =>
  cases action with
  | none => exact ⟨rfl, first left⟩
  | reap =>
    obtain ⟨pool, fates⟩ := adopted (t.modify process.pid (fun _ => left)) process.pid (if process.pid > 1 then 1 else 0)
    exact ⟨pool, fates.trans (first left)⟩
  | zombie =>
    obtain ⟨pool, fates⟩ := adopted (t.modify process.pid (fun _ => left)) process.pid (if process.pid > 1 then 1 else 0)
    dsimp only
    unfold processNotifyParentSignal
    split
    · exact ⟨pool, fates.trans (first left)⟩
    · refine ⟨pool, (modify_fates _ (fun p => ?_)).trans (fates.trans (first left))⟩
      split <;> rfl

theorem removed_pid (process : Process) (status : Int) : (processRemoveThreadOf process status).1.pid = process.pid := by
  unfold processRemoveThreadOf
  grind

section

variable (inside : process ∈ t.list)
include inside

theorem finish_law (status : Int) (pids : PidsApart t) : PidsApart (threadFinishProcess t process status) ∧
    (∀ p ∈ t.list, p.dying = true → p.pid ≠ process.pid → StillEnding (threadFinishProcess t process status) p) ∧
    (processRemoveThreadOf process status).1.fate ∈ (threadFinishProcess t process status).list.map Process.fate := by
  obtain ⟨pool, fates⟩ := thread_finish_fates t process status
  refine ⟨?_, fun p old dying other => still_ending (z := p.zombie) ?_ id, ?_⟩
  · have numbers : (threadFinishProcess t process status).list.map Process.pid = t.list.map Process.pid := by
      have firsts := congrArg (List.map Prod.fst) fates
      rw [List.map_map, List.map_map] at firsts
      refine firsts.trans (List.map_congr_left (fun p _ => ?_))
      simp only [Function.comp_apply]
      split
      next here => exact (removed_pid process status).trans here.symm
      next => rfl
    have kept := pids_apart_list numbers pids
    rw [← pool] at kept
    exact kept
  · rw [fates]
    refine List.mem_map.mpr ⟨p, old, ?_⟩
    rw [if_neg other, Process.fate, dying]
  · rw [fates]
    exact List.mem_map.mpr ⟨process, inside, if_pos rfl⟩

-- It takes the process along with its status.
theorem last_thread_law (status : Int) (pids : PidsApart t) (living : process.dying = false) :
    ∀ p ∈ t.list, p.dying = true → StillEnding (threadFinishProcess t process status) p := fun p old dying =>
  (finish_law inside status pids).2.1 p old dying (fun same => by rw [pid_unique pids old inside same, living] at dying; cases dying)

theorem exit_law (n : Int) (pids : PidsApart t) (last : process.threadCount = 1) (child : 0 < process.ppid) (user : 0 < process.pid)
    (plain : n < 128 ∨ n % 256 = 0) : ∃ q ∈ (threadFinishProcess t process n).list, q.pid = process.pid ∧ q.zombie = true ∧
      decodeStatus (waitStatus q.exitStatus) = some (.exited (n % 256).toNat) := by
  obtain ⟨q, there, same⟩ := List.mem_map.mp (finish_law inside n pids).2.2
  have left : (processRemoveThreadOf process n).1.fate = (process.pid, true, n, true) := by
    simp [processRemoveThreadOf, Process.fate, last, child, user.ne']
  rw [left] at same
  simp only [Process.fate, Prod.mk.injEq] at same
  exact ⟨q, there, same.1, same.2.2.2, by rw [same.2.2.1]; exact wait_status_exit n plain⟩

theorem marked_finish_law (pids : PidsApart t) (dying : process.dying = true) :
    ∀ p ∈ t.list, p.dying = true → StillEnding (threadFinishProcess t process process.exitStatus) p := by
  intro p old ending
  obtain ⟨_, others, own⟩ := finish_law inside process.exitStatus pids
  by_cases same : p.pid = process.pid
  · obtain rfl := pid_unique pids old inside same
    have left : (processRemoveThreadOf p p.exitStatus).1.fate = (p.pid, true, p.exitStatus,
      (processRemoveThreadOf p p.exitStatus).1.zombie) := by
      unfold processRemoveThreadOf Process.fate
      grind
    rw [left] at own
    refine still_ending own (fun dead => ?_)
    unfold processRemoveThreadOf
    grind
  · exact others p old ending same

end

def Keeps (t : ProcessTable) (event : EndEvent) (next : ProcessTable) : Prop := PidsApart next ∧
  ∀ p ∈ t.list, p.dying = true → p.zombie = true ∨ 0 < p.threadCount → StillEnding next p ∨ CollectedBy t event next p

section

variable (pids : PidsApart t)
include pids

theorem keeps_same (pool : next.pool = t.pool) (same : next.list.map Process.fate = t.list.map Process.fate) :
    Keeps t event next := by
  have apart := fates_apart same pids
  rw [← pool] at apart
  exact ⟨apart, fun _ inside dying _ => .inl (same_fates same inside dying)⟩

theorem waitpid_keeps (parent : Nat) (pid : Int) (options : Nat) {buffer : StatusBuffer} (arrives : buffer ≠ .lost)
    (found : t.find parent = some process) : ∃ result, sysWaitpid t process pid options buffer = .ok result ∧
      Keeps t (.waitpid parent pid options buffer) result.1 ∧ Collects t (.waitpid parent pid options buffer) result.1 := by
  by_cases refused : buffer = .unwritable
  · refine ⟨_, if_pos refused, keeps_same pids rfl rfl, fun _ _ _ _ _ _ same _ checked => ?_⟩
    cases same
    exact absurd refused checked
  rw [sysWaitpid, if_neg refused]
  by_cases invalid : options / 16 ≠ 0 ∨ options &&& 4 ≠ 0
  · refine ⟨_, congrArg _ (if_pos invalid), keeps_same pids rfl rfl, fun _ _ _ _ _ _ same _ _ valid => ?_⟩
    cases same
    exact absurd invalid (not_or.mpr ⟨not_not.mpr valid.1, not_not.mpr valid.2⟩)
  cases collected : (t.list.filter (fun child => waitMatches process child pid)).find? (fun child => child.zombie) with
  | some zombie =>
    have dead : zombie.zombie = true := List.find?_some collected
    obtain ⟨inside, fits⟩ := List.mem_filter.mp (List.mem_of_find?_eq_some collected)
    have child : zombie.ppid = process.pid := of_decide_eq_true (Bool.and_eq_true_iff.mp fits).2
    obtain ⟨after, destroyed, apart, _, kept, gone⟩ := destroy_apart inside pids
    have answer : sysWaitpid t process pid options buffer = .ok (after, Told buffer zombie) := by
      rw [sysWaitpid, if_neg refused]
      simp only [schedProcessWait, if_neg invalid, collected, destroyed, Except.map, if_neg arrives, Told]
    rw [sysWaitpid, if_neg refused] at answer
    refine ⟨_, answer, ⟨apart, fun p old dying _ => ?_⟩, fun _ _ _ _ _ _ same there _ _ _ _ _ => ?_⟩
    by_cases same : p = zombie
    · subst same
      by_cases kernel : p.pid = 0
      · have unchanged : processDestroy t p.pid = .ok t := if_pos kernel
        rw [unchanged, Except.ok.injEq] at destroyed
        exact .inl ⟨p, destroyed ▸ old, rfl, dying, rfl, id⟩
      · exact .inr ⟨dead, gone kernel, parent, pid, options, buffer, process, rfl, found, child,
          by rw [sysWaitpid, if_neg refused, answer]⟩
    · exact .inl ⟨p, kept p old same, rfl, dying, rfl, id⟩
    · cases same
      cases found.symm.trans there
      exact ⟨zombie, inside, dead, fits, by rw [sysWaitpid, if_neg refused, answer]⟩
  | none =>
    refine ⟨_, by simp only [schedProcessWait, if_neg invalid, collected]; rfl, ?_,
      fun _ _ _ _ _ p same there _ _ inside dead fits => ?_⟩
    rotate_left
    · cases same
      cases found.symm.trans there
      exact absurd dead (List.find?_eq_none.mp collected p (List.mem_filter.mpr ⟨inside, fits⟩))
    unfold waitReport
    split
    · exact keeps_same pids rfl rfl
    split
    · exact keeps_same pids rfl (modify_fates _ (fun _ => rfl))
    split
    · exact keeps_same pids rfl (modify_fates _ (fun _ => rfl))
    · exact keeps_same pids rfl rfl

theorem newcomer_keeps (number : q.pid = t.pool.peek) :
    Keeps t event { list := q :: t.list, pool := (idAlloc t.pool).2 } :=
  ⟨id_alloc_apart number pids, fun p inside dying _ => .inl ⟨p, List.mem_cons_of_mem q inside, rfl, dying, rfl, id⟩⟩

theorem process_step_keeps (call : ProcessCall) (once : EndsOnce t (.other call)) :
    ∃ next, processStep t call = .ok next ∧ Keeps t (.other call) next := by
  cases call with
  | exitThread | wait => exact once.elim
  | create ownsVas opened => exact ⟨_, rfl, newcomer_keeps pids (id_alloc_peek t.pool)⟩
  | addThread pid =>
    refine ⟨_, rfl, keeps_same pids rfl (modify_fates pid (fun p => ?_))⟩
    split <;> rfl
  | fork parent opened =>
    simp only [processStep]
    cases found : t.find parent with
    | none => exact ⟨t, rfl, keeps_same pids rfl rfl⟩
    | some process =>
      dsimp only
      rw [fork_eq process opened pids]
      cases opened with
      | true => exact ⟨_, rfl, newcomer_keeps pids rfl⟩
      | false =>
        have fresh := id_alloc_apart (p := schedProcessCopyIds (processAllocId t.pool.peek true false) process) rfl pids
        obtain ⟨after, done, apart, _, kept, _⟩ := destroy_apart List.mem_cons_self fresh
        refine ⟨after, done, apart, fun p inside dying _ => .inl ⟨p, kept p (List.mem_cons_of_mem _ inside) (fun same => ?_), rfl,
          dying, rfl, id⟩⟩
        exact (peek_fresh pids).2 p inside (same ▸ rfl)
  | setpgid caller pid pgid =>
    simp only [processStep]
    cases found : t.find caller with
    | none => exact ⟨t, rfl, keeps_same pids rfl rfl⟩
    | some process =>
      refine ⟨_, rfl, ?_⟩
      unfold schedProcessSetpgid
      dsimp only
      generalize (if pid = 0 then (process.pid : Int) else pid) = number
      generalize (if pgid = 0 then number else pgid) = group
      split
      · exact keeps_same pids rfl rfl
      split
      · exact keeps_same pids rfl rfl
      split
      · exact keeps_same pids rfl rfl
      · exact keeps_same pids rfl (modify_fates _ (fun _ => rfl))
  | setsid caller =>
    simp only [processStep]
    cases found : t.find caller with
    | none => exact ⟨t, rfl, keeps_same pids rfl rfl⟩
    | some process =>
      refine ⟨_, rfl, ?_⟩
      unfold schedProcessSetsid
      split
      · exact keeps_same pids rfl rfl
      · exact keeps_same pids rfl (modify_fates _ (fun _ => rfl))
  | destroy pid =>
    simp only [processStep]
    cases found : t.find pid with
    | none => exact ⟨t, rfl, keeps_same pids rfl rfl⟩
    | some process =>
      obtain ⟨inside, number⟩ := find_mem found
      dsimp only
      split
      next idle =>
        obtain ⟨after, done, apart, _, kept, _⟩ := destroy_apart inside pids
        refine ⟨after, number ▸ done, apart, fun p old dying busy => .inl ⟨p, kept p old (fun same => ?_), rfl, dying, rfl, id⟩⟩
        simp_all
      · exact ⟨t, rfl, keeps_same pids rfl rfl⟩

omit pids in
theorem law_of_keeps (notExit : ∀ pid n, event ≠ .exit pid n) (notMark : ∀ pid signal, event ≠ .signalled pid signal)
    (keeps : Keeps t event next) (collects : Collects t event next) : PidsApart next ∧ StatusLaw t event next :=
  ⟨keeps.1, fun pid n _ same => absurd same (notExit pid n), fun pid signal _ same => absurd same (notMark pid signal), keeps.2,
    collects⟩

omit pids in
theorem no_wait (notWait : ∀ parent pid options buffer, event ≠ .waitpid parent pid options buffer) : Collects t event next :=
  fun parent pid options buffer _ _ same => absurd same (notWait parent pid options buffer)

theorem leave_keeps (inside : process ∈ t.list) (living : process.threadCount = 1 → process.dying = false) :
    Keeps t (.leave process.pid) (threadFinishProcess t process 0) := by
  refine ⟨(finish_law inside 0 pids).1, fun p old dying _ => .inl ?_⟩
  by_cases last : process.threadCount = 1
  · exact last_thread_law inside 0 pids (living last) p old dying
  obtain ⟨_, others, own⟩ := finish_law inside 0 pids
  by_cases same : p.pid = process.pid
  · obtain rfl := pid_unique pids old inside same
    have left : (processRemoveThreadOf p 0).1.fate = (p.pid, true, p.exitStatus, p.zombie) := by
      unfold processRemoveThreadOf Process.fate
      grind
    exact still_ending (left ▸ own) id
  · exact others p old dying same

theorem signalled_law (pid signal : Nat) (living : ∀ process ∈ t.find pid, process.dying = false) :
    PidsApart (t.modify pid (fun process => process.terminate signal)) ∧
      StatusLaw t (.signalled pid signal) (t.modify pid (fun process => process.terminate signal)) := by
  have number (p : Process) : (p.terminate signal).pid = p.pid := by
    unfold Process.terminate
    split <;> rfl
  refine ⟨pids_apart_list ?_ pids, nofun, fun _ _ process same valid found user => ?_, fun p old dying _ => .inl ?_,
    no_wait (by simp)⟩
  · rw [List.map_map]
    exact List.map_congr_left (fun p _ => by simp only [Function.comp_apply]; split <;> simp [number])
  · cases same
    obtain ⟨inside, here⟩ := find_mem found
    refine ⟨process.terminate signal, List.mem_map.mpr ⟨process, inside, if_pos here⟩, (number process).trans here, ?_⟩
    rw [Process.terminate, if_neg (by simp [user])]
    exact ⟨rfl, wait_status_signal signal valid⟩
  have other : p.pid ≠ pid := by
    intro same
    have found : t.find pid = some p := same ▸ pid_at pids.unique old
    rw [living p found] at dying
    cases dying
  exact ⟨p, List.mem_map.mpr ⟨p, old, if_neg other⟩, rfl, dying, rfl, id⟩

theorem end_step_law (event : EndEvent) (once : EndsOnce t event) :
    ∃ next, endStep t event = .ok next ∧ PidsApart next ∧ StatusLaw t event next := by
  cases event with
  | exit pid n =>
    simp only [endStep, processStep]
    cases found : t.find pid with
    | none => exact ⟨t, rfl, pids, fun _ _ _ same => by cases same; simp [found], by simp,
        fun p old dying _ => .inl ⟨p, old, rfl, dying, rfl, id⟩, no_wait (by simp)⟩
    | some process =>
      obtain ⟨inside, rfl⟩ := find_mem found
      obtain ⟨last, living, plain⟩ := once process found
      refine ⟨_, rfl, (finish_law inside n pids).1, fun _ _ other same there child _ user => ?_, by simp,
        fun p old dying _ => .inl (last_thread_law inside n pids living p old dying), no_wait (by simp)⟩
      cases same
      cases found.symm.trans there
      exact exit_law inside n pids last child user plain
  | leave pid =>
    simp only [endStep, processStep]
    cases found : t.find pid with
    | none => exact ⟨t, rfl, law_of_keeps (by simp) (by simp) (keeps_same pids rfl rfl) (no_wait (by simp))⟩
    | some process =>
      obtain ⟨inside, rfl⟩ := find_mem found
      exact ⟨_, rfl, law_of_keeps (by simp) (by simp) (leave_keeps pids inside (once process found)) (no_wait (by simp))⟩
  | signalled pid signal => exact ⟨_, rfl, signalled_law pids pid signal once⟩
  | waitpid parent pid options buffer =>
    simp only [endStep]
    cases found : t.find parent with
    | none =>
      exact ⟨t, rfl, law_of_keeps (by simp) (by simp) (keeps_same pids rfl rfl) (fun _ _ _ _ _ _ same => by cases same; simp [found])⟩
    | some process =>
      obtain ⟨result, answer, keeps, collects⟩ := waitpid_keeps pids parent pid options once found
      exact ⟨result.1, by simp only [answer]; rfl, law_of_keeps (by simp) (by simp) keeps collects⟩
  | finish pid =>
    simp only [endStep]
    cases found : t.find pid with
    | none => exact ⟨t, rfl, law_of_keeps (by simp) (by simp) (keeps_same pids rfl rfl) (no_wait (by simp))⟩
    | some process =>
      obtain ⟨inside, rfl⟩ := find_mem found
      dsimp only
      split
      next dying =>
        exact ⟨_, rfl, law_of_keeps (by simp) (by simp) ⟨(finish_law inside _ pids).1,
          fun p old ending _ => .inl (marked_finish_law inside pids dying p old ending)⟩ (no_wait (by simp))⟩
      next => exact ⟨t, rfl, law_of_keeps (by simp) (by simp) (keeps_same pids rfl rfl) (no_wait (by simp))⟩
  | other call =>
    obtain ⟨next, taken, keeps⟩ := process_step_keeps pids call once
    exact ⟨next, taken, law_of_keeps (by simp) (by simp) keeps (no_wait (by simp))⟩

end

theorem wait_tells_the_truth (pids : PidsApart t) (events : List EndEvent) (once : Permitted endStep EndsOnce t events) :
    (∃ final, run endStep t events = .ok final) ∧ EachStep endStep StatusLaw t events := by
  obtain ⟨ends, _, each⟩ := permitted_steps (fun t event pids once => end_step_law pids event once) pids (fun _ pids => pids) once
  exact ⟨ends, each⟩

theorem two_endings_told :
    EachStep endStep StatusLaw (bootTable 1) [.other (.create true true), .other (.addThread 2), .other (.fork 2 true),
      .other (.fork 2 true),
    .exit 3 7, .signalled 4 9, .finish 4, .waitpid 2 (-1) 0 .writable, .waitpid 2 3 0 .null] :=
  (wait_tells_the_truth (boot_table_sound 1).pids _ (by decide +kernel)).2

-- exit(129) is reported as SIGHUP.
theorem exit_taken_for_signal :
    ¬ EachStep endStep StatusLaw (bootTable 1) [.other (.create true true), .other (.addThread 2), .other (.fork 2 true),
      .exit 3 129] := by
  intro each
  obtain ⟨_, second⟩ := each _ rfl
  obtain ⟨_, third⟩ := second _ rfl
  obtain ⟨_, fourth⟩ := third _ rfl
  have told := (fourth _ rfl).1.exits 3 129 _ rfl rfl (by decide) (by decide) (by decide)
  revert told
  decide +kernel

end Lyr.Sched
