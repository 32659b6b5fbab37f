import Lyr.Sched.JobControl
import Lyr.Sched.SignalTargets

set_option autoImplicit false

namespace Lyr.Sched

open Lyr.Lib Lyr.Fs

def NoStop (pending : UInt64) : Prop := ∀ signal ∈ stopSignals, pending &&& schedSignalBit signal = 0

instance (pending : UInt64) : Decidable (NoStop pending) := inferInstanceAs (Decidable (∀ signal ∈ stopSignals, _))

theorem or_and_words (a b c : UInt64) : (a ||| b) &&& c = (a &&& c) ||| (b &&& c) := by
  apply UInt64.toBitVec_inj.mp
  simp only [UInt64.toBitVec_and, UInt64.toBitVec_or]
  exact BitVec.and_or_distrib_right

theorem and_swap_words (a b c : UInt64) : a &&& b &&& c = a &&& c &&& b := by
  rw [UInt64.and_assoc, UInt64.and_comm b c, ← UInt64.and_assoc]

theorem signal_bits_apart : ∀ signal ∈ List.range' 1 schedNsig, signal ∉ stopSignals →
    ∀ stop ∈ stopSignals, schedSignalBit signal &&& schedSignalBit stop = 0 := by
  decide +kernel

variable {pending mask : UInt64} {signal : Nat} {process job : Process} {jobs targets : List Process} {change : Process → Process}
  {pgid : Int} {w : JobWorld}

theorem no_stop_or (valid : signal ∈ List.range' 1 schedNsig) (other : signal ∉ stopSignals)
    (none : NoStop pending) : NoStop (pending ||| schedSignalBit signal) := by
  intro stop inside
  rw [or_and_words, none stop inside, signal_bits_apart signal valid other stop inside, UInt64.or_zero]

theorem no_stop_and (none : NoStop pending) : NoStop (pending &&& mask) := by
  intro stop inside
  rw [and_swap_words, none stop inside, UInt64.zero_and]

theorem next_signal_pending {task : Task} (next : nextSignal (processPendingForThread task) = some signal) :
    task.pendingSignals &&& schedSignalBit signal ≠ 0 := by
  have set := List.find?_some next
  intro clear
  rw [processPendingForThread, and_swap_words, and_swap_words task.pendingSignals, clear, UInt64.zero_and, UInt64.zero_and] at set
  simp at set

def Process.Going (process : Process) : Prop := process.stopped = false ∧ NoStop process.pendingSignals

instance (process : Process) : Decidable process.Going := inferInstanceAs (Decidable (_ ∧ _))

section

variable (going : process.Going)
include going

theorem verdict_not_stop (stops : signal ∈ stopSignals) : verdict (process.task mask) ≠ .fatal signal := by
  intro fatal
  unfold verdict at fatal
  cases next : nextSignal (processPendingForThread (process.task mask)) with
  | none => simp [next] at fatal
  | some chosen =>
    have pending := next_signal_pending next
    simp only [next] at fatal
    split at fatal
    · cases fatal
    split at fatal
    · cases fatal
      exact pending (going.2 signal stops)
    · cases fatal

theorem going_take (signal : Nat) : (process.take signal).Going := ⟨going.1, no_stop_and going.2⟩

theorem going_terminate (signal : Nat) : (process.terminate signal).Going := by
  unfold Process.terminate
  split <;> exact going

section

variable (other : signal ∉ stopSignals)
include other

theorem going_pend (valid : signal ∈ List.range' 1 schedNsig) : (process.pend signal).Going :=
  ⟨going.1, no_stop_or valid other going.2⟩

theorem signal_target_going : signalTarget signal process =
      if signal = 0 then process else if signal = schedSigkill then process.terminate signal else process.pend signal := by
  simp only [signalTarget, if_neg other, going.1, Bool.false_eq_true, and_false, if_false]

theorem going_target (small : signal ≤ schedNsig) : (signalTarget signal process).Going := by
  rw [signal_target_going going other]
  split
  · exact going
  split
  · exact going_terminate going signal
  rename_i positive _
  refine going_pend going other (List.mem_range'_1.mpr ⟨Nat.pos_of_ne_zero positive, ?_⟩)
  rw [Nat.add_comm]
  exact Nat.lt_succ_of_le small

end

end

structure JobsGo (jobs : List Process) : Prop where
  unique : (jobs.map Process.pid).Nodup
  going : ∀ job ∈ jobs, job.Going

section

variable (go : JobsGo jobs)
include go

theorem map_jobs_go (pid : ∀ job, (change job).pid = job.pid)
    (going : ∀ job ∈ jobs, job.Going → (change job).Going) : JobsGo (jobs.map change) := by
  refine ⟨?_, fun job inside => ?_⟩
  · rw [List.map_map]
    have same : jobs.map (Process.pid ∘ change) = jobs.map Process.pid := List.map_congr_left (fun job _ => pid job)
    exact same ▸ go.unique
  · obtain ⟨old, there, rfl⟩ := List.mem_map.mp inside
    exact going old there (go.going old there)

theorem modify_pid_go (pid : Nat) (number : ∀ job, (change job).pid = job.pid)
    (going : ∀ job, job.Going → (change job).Going) : JobsGo (modifyPid jobs pid change) := by
  refine map_jobs_go go (fun job => ?_) (fun job _ goes => ?_)
  · split
    · exact number job
    · rfl
  split
  · exact going job goes
  · exact goes

omit go in
theorem terminate_pid (process : Process) (signal : Nat) : (process.terminate signal).pid = process.pid := by
  unfold Process.terminate
  split <;> rfl

theorem signal_all_map (other : signal ∉ stopSignals) (there : ∀ target ∈ targets, target ∈ jobs)
    (distinct : (targets.map Process.pid).Nodup) :
    targets.foldl (fun list target => signalOne list target signal) jobs =
      jobs.map (fun job => if job.pid ∈ targets.map Process.pid then signalTarget signal job else job) := by
  rw [signal_all_effect go.unique there distinct]
  refine List.map_congr_left (fun job _ => ?_)
  have silent : targets.any (fun child => signalNotifies signal child && child.ppid = job.pid) = false := by
    rw [List.any_eq_false]
    intro child inside
    have running := (go.going child (there child inside)).1
    simp [signalNotifies, other, running]
  simp only [signalEffect, silent, Bool.false_eq_true, if_false]

theorem signal_all_go (small : signal ≤ schedNsig) (other : signal ∉ stopSignals) (there : ∀ target ∈ targets, target ∈ jobs)
    (distinct : (targets.map Process.pid).Nodup) :
    JobsGo (targets.foldl (fun list target => signalOne list target signal) jobs) := by
  rw [signal_all_map go other there distinct]
  refine map_jobs_go go (fun job => ?_) (fun job _ goes => ?_)
  · split
    · exact signal_target_ids.1
    · rfl
  split
  · exact going_target goes other small
  · exact goes

def StopsNobody (targets : List Process) (signal : Int) : Prop := signal.toNat ∈ stopSignals → targets = []

omit go in
theorem no_targets_fold (jobs : List Process) (signal : Nat) (nobody : targets = []) :
    targets.foldl (fun list target => signalOne list target signal) jobs = jobs := by
  rw [nobody]
  rfl

theorem signal_go {sender : Process} {pid signal : Int}
    (nobody : StopsNobody (signalTargets jobs sender (if pid = 0 then -(sender.pgid : Int) else pid)) signal) :
    JobsGo (schedProcessSignal jobs sender pid signal).1 := by
  unfold schedProcessSignal
  split
  · exact go
  dsimp only
  by_cases stops : signal.toNat ∈ stopSignals
  · rw [no_targets_fold jobs signal.toNat (nobody stops)]
    exact go
  have small : signal.toNat ≤ schedNsig := by omega
  rw [signal_targets_filter go.unique]
  exact signal_all_go go small stops (fun target chosen => (List.mem_filter.mp chosen).1)
    (go.unique.sublist (List.filter_sublist.map _))

theorem signal_group_go {signal : Int} (nobody : StopsNobody (jobs.filter (groupMember pgid)) signal) :
    JobsGo (schedProcessSignalGroup jobs pgid signal).1 := by
  unfold schedProcessSignalGroup
  split
  · exact go
  refine map_jobs_go go (fun job => ?_) (fun job inside goes => ?_)
  · split
    · split
      · exact terminate_pid job _
      · rfl
    · rfl
  split
  · rename_i member
    have other : signal.toNat ∉ stopSignals := by
      intro stops
      have gone : job ∈ jobs.filter (groupMember pgid) := List.mem_filter.mpr ⟨inside, member⟩
      rw [nobody stops] at gone
      cases gone
    split
    · exact going_terminate goes _
    refine going_pend goes other (List.mem_range'_1.mpr ⟨by omega, ?_⟩)
    omega
  · exact goes

theorem group_as_root {root : Process} {signal : Int} (powerful : root.euid = 0) (group : 1 < pgid)
    (nobody : StopsNobody (jobs.filter (groupMember pgid)) signal) :
    (schedProcessSignalGroup jobs pgid signal).1 = (schedProcessSignal jobs root (-pgid) signal).1 := by
  have targets : signalTargets jobs root (-pgid) = jobs.filter (groupMember pgid) := by
    unfold signalTargets
    rw [if_neg (by omega)]
    refine List.filter_congr (fun job _ => ?_)
    have matched : signalMatches root job (-pgid) = decide ((job.pgid : Int) = pgid) := by
      unfold signalMatches
      rw [if_neg (by omega), if_neg (by omega), if_pos (by omega), Int.neg_neg]
    have allowed : processSignalAllowed root job = true := by simp [processSignalAllowed, powerful]
    rw [matched, allowed, Bool.and_true, groupMember]
  unfold schedProcessSignalGroup schedProcessSignal
  dsimp only
  rw [if_neg (show ¬(-pgid = 0) by omega), targets]
  by_cases invalid : signal < 0 ∨ signal > schedNsig
  · rw [if_pos invalid, if_pos (by omega)]
  rw [if_neg invalid]
  by_cases stops : signal.toNat ∈ stopSignals
  · have none := nobody stops
    rw [none]
    split
    · rfl
    have outside : ∀ job ∈ jobs, groupMember pgid job = false := by
      intro job inside
      by_contra member
      have listed : job ∈ jobs.filter (groupMember pgid) := List.mem_filter.mpr ⟨inside, by simpa using member⟩
      rw [none] at listed
      cases listed
    refine (List.map_congr_left (fun job inside => ?_)).trans (List.map_id' jobs)
    rw [outside job inside]
    rfl
  have distinct : ((jobs.filter (groupMember pgid)).map Process.pid).Nodup := go.unique.sublist (List.filter_sublist.map _)
  rw [signal_all_map go stops (fun target chosen => (List.mem_filter.mp chosen).1) distinct]
  by_cases zero : signal = 0
  · rw [if_pos (by omega)]
    have still : ∀ job ∈ jobs, (if job.pid ∈ (jobs.filter (groupMember pgid)).map Process.pid then
        signalTarget signal.toNat job else job) = job := by
      intro job _
      subst zero
      simp [signalTarget]
    exact ((List.map_congr_left still).trans (List.map_id' jobs)).symm
  rw [if_neg (by omega)]
  refine List.map_congr_left (fun job inside => ?_)
  have positive : signal.toNat ≠ 0 := by omega
  rw [signal_target_going (go.going job inside) stops, if_neg positive]
  simp only [filtered_pid go.unique (groupMember pgid) inside]

end

theorem with_machine_go (machine : Machine) (go : JobsGo w.jobs) : JobsGo (w.withMachine machine).jobs :=
  map_jobs_go go (fun _ => rfl) (fun _ _ goes => goes)

theorem deliver_go {next : JobWorld} {c : Nat} (done : deliverOn w c = .ok next) (go : JobsGo w.jobs) : JobsGo next.jobs := by
  unfold deliverOn at done
  split at done
  · cases done
    exact go
  obtain ⟨thread, _, done⟩ := bind_ok.mp done
  split at done
  · cases done
    exact go
  rename_i job _
  split at done
  · obtain ⟨machine, _, done⟩ := bind_ok.mp done
    cases done
    exact with_machine_go machine go
  split at done
  · cases done
    exact go
  · cases done
    exact modify_pid_go go job.pid (fun _ => rfl) (fun job goes => going_take goes _)
  · rename_i signal _
    obtain ⟨machine, _, done⟩ := bind_ok.mp done
    cases done
    refine with_machine_go machine (modify_pid_go go job.pid (fun job => ?_) (fun job goes => ?_))
    · exact terminate_pid (job.take signal) signal
    · exact going_terminate (going_take goes signal) signal
  · cases done
    exact modify_pid_go go job.pid (fun _ => rfl) (fun job goes => going_take goes _)

theorem enlist_go (going : job.Going) (go : JobsGo w.jobs) : JobsGo (enlist w job).jobs := by
  unfold enlist
  split
  · exact go
  rename_i absent
  refine ⟨List.nodup_cons.mpr ⟨fun inside => ?_, go.unique⟩, fun other inside => ?_⟩
  · obtain ⟨other, there, same⟩ := List.mem_map.mp inside
    exact absent (List.any_eq_true.mpr ⟨other, there, decide_eq_true same⟩)
  obtain rfl | old := List.mem_cons.mp inside
  · exact going
  · exact go.going other old

-- No stop signal goes to a process that could take it, or to group 1.
def StopFree (w : JobWorld) : JobEvent → Prop
  | .send sender pid signal =>
    ∀ job ∈ w.job sender, StopsNobody (signalTargets w.jobs job (if pid = 0 then -(job.pgid : Int) else pid)) signal
  | .sendGroup pgid signal => pgid ≠ 1 ∧ StopsNobody (w.jobs.filter (groupMember pgid)) signal
  | _ => True

theorem action_going (signal : Nat) (action : Sigaction) (flags : UInt64) (going : job.Going) :
    (schedSignalAction job signal action flags).Going ∧ (schedSignalAction job signal action flags).pid = job.pid := by
  unfold schedSignalAction
  split <;> exact ⟨going, rfl⟩

theorem job_step_go (w : JobWorld) (event : JobEvent) (next : JobWorld) (go : JobsGo w.jobs) (free : StopFree w event)
    (taken : jobStep w event = .ok next) : JobsGo next.jobs := by
  have fresh : NoStop 0 := by decide
  cases event with
  | spawn pid opened =>
    cases taken
    exact enlist_go ⟨rfl, fresh⟩ go
  | fork parent pid opened =>
    simp only [jobStep] at taken
    split at taken
    · cases taken
      exact go
    · cases taken
      exact enlist_go ⟨rfl, fresh⟩ go
  | thread | sched =>
    obtain ⟨machine, _, taken⟩ := bind_ok.mp taken
    cases taken
    exact with_machine_go machine go
  | collect pid =>
    cases taken
    exact ⟨go.unique.sublist (List.filter_sublist.map _), fun job inside => go.going job (List.mem_of_mem_filter inside)⟩
  | trap c =>
    cases taken
    exact go
  | sigaction pid signal action flags =>
    cases taken
    refine map_jobs_go go (fun job => ?_) (fun job _ goes => ?_)
    · split
      · unfold schedSignalAction
        split <;> rfl
      · rfl
    split
    · exact (action_going signal action flags goes).1
    · exact goes
  | procmask thread mask =>
    cases taken
    exact go
  | send sender pid signal =>
    simp only [jobStep] at taken
    cases found : w.job sender with
    | none =>
      simp only [found] at taken
      cases taken
      exact go
    | some job =>
      simp only [found] at taken
      cases taken
      exact signal_go go (free job found)
  | sendGroup pgid signal =>
    cases taken
    exact signal_group_go go free.2
  | timer c locked =>
    obtain ⟨middle, delivered, taken⟩ := bind_ok.mp taken
    obtain ⟨machine, _, taken⟩ := bind_ok.mp taken
    cases taken
    exact with_machine_go machine (deliver_go delivered go)
  | userReturn c => exact deliver_go taken go

def JobWorld.RunsInUser (w : JobWorld) (c pid : Nat) : Prop :=
  (w.machine.threads (w.current c)).map Tcb.process = some pid ∧ w.inUser (w.current c) = true

instance (w : JobWorld) (c pid : Nat) : Decidable (w.RunsInUser c pid) := inferInstanceAs (Decidable (_ ∧ _))

def JobEvent.schedules : JobEvent → Option Nat
  | .timer c _ => some c
  | .userReturn c => some c
  | _ => none

def terminalStops : List Nat := [schedSigtstp, schedSigttin, schedSigttou]

def Process.DefaultFor (process : Process) (signal : Nat) : Prop := (process.sigactions signal).handler = schedSigDfl

instance (process : Process) (signal : Nat) : Decidable (process.DefaultFor signal) := inferInstanceAs (Decidable (_ = _))

def Stopped (jobs targets : List Process) (signal : Int) : Prop :=
  ∀ target ∈ targets, signal.toNat ∈ terminalStops → target.DefaultFor signal.toNat →
    ∃ job ∈ jobs, job.pid = target.pid ∧ job.stopped = true

-- It schedules no stopped process in user mode; the terminal's stop signals stop and do not kill; a group is signalled as root
-- signals it.
structure StopLaw (w : JobWorld) (event : JobEvent) (next : JobWorld) : Prop where
  scheduled : ∀ c ∈ event.schedules, ∀ job ∈ next.jobs, next.RunsInUser c job.pid → job.dying = false → job.stopped = false
  spared : ∀ c ∈ event.schedules, ∀ job ∈ w.jobs, (w.machine.threads (w.current c)).map Tcb.process = some job.pid →
    ∀ signal ∈ terminalStops, verdict (job.task (w.masks (w.current c))) ≠ .fatal signal
  sent : ∀ sender pid signal, event = .send sender pid signal → ∀ job ∈ w.job sender,
    Stopped next.jobs (signalTargets w.jobs job (if pid = 0 then -(job.pgid : Int) else pid)) signal
  sentGroup : ∀ pgid signal, event = .sendGroup pgid signal → 0 < pgid →
    Stopped next.jobs (w.jobs.filter (groupMember pgid)) signal ∧
      ∀ root : Process, root.euid = 0 → next.jobs = (schedProcessSignal w.jobs root (-pgid) signal).1

theorem nobody_stopped {signal : Int} (nobody : StopsNobody targets signal) : Stopped jobs targets signal := by
  intro target inside stops _
  have listed : signal.toNat ∈ stopSignals := List.mem_cons_of_mem _ stops
  rw [nobody listed] at inside
  cases inside

theorem stop_law_holds (w : JobWorld) (event : JobEvent) (next : JobWorld) (go : JobsGo w.jobs) (free : StopFree w event)
    (taken : jobStep w event = .ok next) : StopLaw w event next := by
  have after := job_step_go w event next go free taken
  refine ⟨?_, ?_, ?_, ?_⟩
  · exact fun c _ job inside _ _ => (after.going job inside).1
  · exact fun c _ job inside _ signal stops =>
      verdict_not_stop (go.going job inside) (List.mem_cons_of_mem _ stops)
  · rintro sender pid signal rfl job found
    exact nobody_stopped (free job found)
  rintro pgid signal rfl positive
  refine ⟨nobody_stopped free.2, fun root powerful => ?_⟩
  cases taken
  have different := free.1
  exact group_as_root go powerful (by omega) free.2

theorem boot_jobs_go (cpuCount : Nat) : JobsGo (bootTable cpuCount).list := by
  have fresh : ∀ pid < 2, (processAllocId pid false true).Going := by decide +kernel
  refine ⟨of_decide_eq_true rfl, List.forall_mem_cons.mpr ⟨fresh 1 (by decide), List.forall_mem_singleton.mpr ?_⟩⟩
  exact fresh 0 (by decide)

theorem stop_laws_without_stops (cpuCount : Nat) (events : List JobEvent)
    (free : Permitted jobStep StopFree (jobInit cpuCount) events) :
    EachStep jobStep StopLaw (jobInit cpuCount) events :=
  permitted_each_step job_step_go (boot_jobs_go cpuCount) stop_law_holds free

def twoProcesses : List JobEvent := [.spawn 2 true, .fork 2 3 true, .thread 3 0 true]

theorem stop_laws_for_sigterm :
    EachStep jobStep StopLaw (jobInit 1) [.spawn 2 true, .fork 2 3 true, .thread 3 0 true, .sendGroup 2 15, .timer 0 true] := by
  refine stop_laws_without_stops 1 _ ⟨trivial, fun _ _ => ⟨trivial, fun _ _ => ⟨trivial, fun _ _ => ⟨⟨by decide, ?_⟩, fun _ _ =>
    ⟨trivial, fun _ _ => trivial⟩⟩⟩⟩⟩
  exact fun stops => absurd stops (by decide)

-- Stopped, it is scheduled; SIGTSTP kills; the terminal's SIGTSTP does not stop a group, root's does.
theorem stopped_process_runs :
    (∃ w next, run jobStep (jobInit 1) (twoProcesses ++ [.send 2 3 19]) = .ok w ∧ jobStep w (.timer 0 true) = .ok next ∧
      ∃ job ∈ next.jobs, next.RunsInUser 0 job.pid ∧ job.dying = false ∧ job.stopped = true) ∧
    (∃ w, run jobStep (jobInit 1) (twoProcesses ++ [.send 2 3 20, .timer 0 true]) = .ok w ∧
      ∃ job ∈ w.jobs, (w.machine.threads (w.current 0)).map Tcb.process = some job.pid ∧ job.DefaultFor 20 ∧
        verdict (job.task (w.masks (w.current 0))) = .fatal 20) ∧
    (∃ w, run jobStep (jobInit 1) twoProcesses = .ok w ∧ ∃ root ∈ w.jobs, root.euid = 0 ∧
      (schedProcessSignalGroup w.jobs 2 20).1.map Process.stopped ≠ (schedProcessSignal w.jobs root
        (-2) 20).1.map Process.stopped) := by
  refine ⟨⟨_, _, rfl, rfl, ?_⟩, ⟨_, rfl, ?_⟩, ⟨_, rfl, ?_⟩⟩
  · decide +kernel
  · decide +kernel
  · decide +kernel

end Lyr.Sched
