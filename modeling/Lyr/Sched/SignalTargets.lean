import Lyr.Sched.SignalSend

set_option autoImplicit false

namespace Lyr.Sched

-- A target is marked, and the parents of those that stop or go on get SIGCHLD.
def signalEffect (targets : List Process) (signal : Nat) (process : Process) : Process :=
  let own := if process.pid ∈ targets.map Process.pid then signalTarget signal process else process
  if targets.any (fun child => signalNotifies signal child && child.ppid = process.pid) then own.pend schedSigchld else own

variable {list targets : List Process} {sender target process : Process} {pid : Int} {signal : Nat}

theorem signal_target_pend (bit : Nat) : signalTarget signal (process.pend bit) = (signalTarget signal process).pend bit := by
  unfold signalTarget Process.terminate Process.pend processIsKernelOwned
  grind

theorem pend_twice (bit : Nat) : (process.pend bit).pend bit = process.pend bit := by
  simp [Process.pend, UInt64.or_assoc]

theorem signal_target_ids : (signalTarget signal process).pid = process.pid ∧ (signalTarget signal process).ppid = process.ppid := by
  unfold signalTarget Process.terminate Process.pend
  grind

theorem effect_pid (targets : List Process) (signal : Nat) (process : Process) :
    (signalEffect targets signal process).pid = process.pid := by
  unfold signalEffect
  grind [Process.pend, signal_target_ids]

section

variable (unique : (list.map Process.pid).Nodup)
include unique

theorem pid_at (inside : target ∈ list) : list.find? (fun process => process.pid = target.pid) = some target := by
  have present : (list.find? (fun process => process.pid = target.pid)).isSome = true := List.find?_isSome.mpr
    ⟨target, inside, by simp⟩
  obtain ⟨found, known⟩ := Option.isSome_iff_exists.mp present
  have same : found.pid = target.pid := by simpa using List.find?_some known
  rw [known, List.inj_on_of_nodup_map unique (List.mem_of_find?_eq_some known) inside same]

theorem signal_one_effect (inside : target ∈ list) (fresh : target.pid ∉ targets.map Process.pid) :
    signalOne (list.map (signalEffect targets signal)) target signal = list.map (signalEffect (targets ++ [target]) signal) := by
  have found : (list.map (signalEffect targets signal)).find? (fun process => process.pid = target.pid) = some
    (signalEffect targets signal target) := by
    simp only [List.find?_map, Function.comp_def, effect_pid, pid_at unique inside, Option.map_some]
  have current : signalEffect targets signal target = target ∨ signalEffect targets signal target = target.pend schedSigchld := by
    unfold signalEffect
    grind
  have notifies : signalNotifies signal (signalEffect targets signal target) = signalNotifies signal target := by
    rcases current with same | same <;> simp only [same, Process.pend, signalNotifies]
  have parent : (signalEffect targets signal target).ppid = target.ppid := by
    rcases current with same | same <;> simp only [same, Process.pend]
  simp only [signalOne, found, notifies, modifyPid, effect_pid, parent]
  -- Target, parent that has its SIGCHLD already, or both.
  have each (process : Process) : signalEffect (targets ++ [target]) signal process =
      let own := if process.pid = target.pid then signalTarget signal (signalEffect targets signal process) else
        signalEffect targets signal process
      if signalNotifies signal target = true ∧ process.pid = target.ppid then own.pend schedSigchld else own := by
    unfold signalEffect
    grind [signal_target_pend, pend_twice]
  split
  next tells =>
    rw [List.map_map, List.map_map]
    refine List.map_congr_left (fun process _ => ?_)
    have number : (signalTarget signal (signalEffect targets signal process)).pid = process.pid := signal_target_ids.1.trans
      (effect_pid ..)
    simp only [each, tells, true_and, Function.comp_apply]
    grind [effect_pid]
  next silent =>
    rw [List.map_map]
    exact List.map_congr_left (fun process _ => by simp [each, silent, effect_pid])

theorem signal_all_effect (there : ∀ target ∈ targets, target ∈ list)
    (distinct : (targets.map Process.pid).Nodup) :
    targets.foldl (fun list target => signalOne list target signal) list = list.map (signalEffect targets signal) := by
  induction targets using List.reverseRecOn with
  | nil => exact (List.map_id' list).symm
  | append_singleton targets target ih =>
    rw [List.map_append, List.nodup_append] at distinct
    rw [List.foldl_append, ih (fun other inside => there other (by simp [inside])) distinct.1]
    exact signal_one_effect unique (there target (by simp)) (fun inside => distinct.2.2 _ inside _ (by simp) rfl)

end

def signalable (sender target : Process) : Bool := processSignalAllowed sender target && !processIsKernelOwned target

-- Its own group with 0, a group by its negated number, a process by its number.
def addressed (sender : Process) (pid : Int) (target : Process) : Bool :=
  if pid = 0 then target.pgid = sender.pgid else if pid < 0 then (target.pgid : Int) = -pid else (target.pid : Int) = pid

-- The named, signalable processes that are no zombies.
def ReachesTargets (list : List Process) (sender : Process) (pid : Int) : Prop := ∀ signal : Nat, signal ≤ schedNsig →
  (schedProcessSignal list sender pid signal).1 =
    list.map (signalEffect
      (list.filter (fun target => addressed sender pid target && signalable sender target && !target.zombie)) signal)

-- No zombie is named. Group 1 is taken for everyone but the sender, and group 0 cannot be named.
def ClearTargets (list : List Process) (sender : Process) (pid : Int) : Prop := ∀ target ∈ list, signalable sender target = true →
  if pid = -1 ∨ pid = 0 ∧ sender.pgid = 1 then (target.pid ≠ sender.pid ↔ target.pgid = 1 ∧ target.zombie = false)
  else addressed sender pid target = true → (target.zombie = true ↔ pid = 0 ∧ sender.pgid = 0)

section

variable (unique : (list.map Process.pid).Nodup)
include unique

theorem filtered_pid (chosen : Process → Bool) (inside : process ∈ list) :
    process.pid ∈ (list.filter chosen).map Process.pid ↔ chosen process = true := by
  constructor
  · intro there
    obtain ⟨other, found, same⟩ := List.mem_map.mp there
    obtain ⟨old, holds⟩ := List.mem_filter.mp found
    exact List.inj_on_of_nodup_map unique old inside same ▸ holds
  · exact fun holds => List.mem_map_of_mem (List.mem_filter.mpr ⟨inside, holds⟩)

theorem signal_targets_filter : signalTargets list sender pid =
    list.filter (fun target => signalMatches sender target pid && signalable sender target) := by
  have same : list.filter
    (fun target => signalMatches sender target pid && processSignalAllowed sender target && !processIsKernelOwned target) =
      list.filter (fun target => signalMatches sender target pid && signalable sender target) := by
        simp only [signalable, Bool.and_assoc]
  rw [signalTargets, same]
  split
  next single =>
    refine List.take_of_length_le ?_
    have one : (list.filter (fun target => signalMatches sender target pid && signalable sender target)).map Process.pid ⊆
      [pid.toNat] := by
      intro number inside
      obtain ⟨target, chosen, rfl⟩ := List.mem_map.mp inside
      have named := (List.mem_filter.mp chosen).2
      simp only [signalMatches, if_pos single, Bool.and_eq_true, decide_eq_true_eq] at named
      rw [List.mem_singleton]
      omega
    simpa using ((unique.sublist (List.filter_sublist.map _)).subperm one).length_le
  next => rfl

omit unique in
theorem effect_stop_signal (stops : signal ∈ stopSignals) : (signalEffect targets signal process).stopSignal =
    if process.pid ∈ targets.map Process.pid then signal else process.stopSignal := by
  have positive : signal ≠ 0 ∧ signal ≠ schedSigkill := by
    revert signal
    decide
  unfold signalEffect signalTarget Process.pend
  grind

-- Different targets show in what some stop signal leaves.
theorem same_targets (code intended : Process → Bool)
    (same : ∀ signal ≤ schedNsig, list.map (signalEffect (list.filter code) signal) = list.map
      (signalEffect (list.filter intended) signal)) :
    ∀ target ∈ list, code target = intended target := by
  intro target inside
  have stop := congrArg Process.stopSignal (List.map_inj_left.mp (same schedSigstop (by decide)) target inside)
  have tstp := congrArg Process.stopSignal (List.map_inj_left.mp (same schedSigtstp (by decide)) target inside)
  rw [effect_stop_signal (by decide), effect_stop_signal (by decide)] at stop tstp
  simp only [filtered_pid unique _ inside, schedSigstop, schedSigtstp] at stop tstp
  grind

end

theorem matches_addressed (target : Process) : signalMatches sender target (if pid = 0 then -(sender.pgid : Int) else pid) =
    if pid = -1 ∨ pid = 0 ∧ sender.pgid = 1 then decide (target.pid ≠ sender.pid)
    else addressed sender pid target && !decide (pid = 0 ∧ sender.pgid = 0) := by
  unfold signalMatches addressed
  by_cases own : pid = 0
  · simp only [own, if_true, true_and]
    rcases Nat.lt_trichotomy sender.pgid 1 with zero | one | more
    · simp [show sender.pgid = 0 by omega]
    · simp [one]
    · rw [if_neg (by omega), if_neg (by omega), if_pos (by omega), if_neg (by omega)]
      simp [show sender.pgid ≠ 0 by omega]
  simp only [own, if_false, false_and, or_false, decide_false, Bool.not_false, Bool.and_true]
  rcases Int.lt_trichotomy pid (-1) with below | one | above
  · rw [if_neg (by omega), if_neg (by omega), if_pos below, if_neg (by omega), if_pos (by omega)]
  · simp [one]
  · rw [if_pos (by omega), if_neg (by omega), if_neg (by omega)]

theorem clear_target_iff (target : Process) :
    ((signalMatches sender target (if pid = 0 then -(sender.pgid : Int) else pid) && signalable sender target) =
      (addressed sender pid target && signalable sender target && !target.zombie)) ↔ (signalable sender target = true →
    if pid = -1 ∨ pid = 0 ∧ sender.pgid = 1 then (target.pid ≠ sender.pid ↔ target.pgid = 1 ∧ target.zombie = false)
    else addressed sender pid target = true → (target.zombie = true ↔ pid = 0 ∧ sender.pgid = 0)) := by
  rw [matches_addressed]
  split
  next one =>
    have group : addressed sender pid target = decide (target.pgid = 1) := by
      unfold addressed
      rcases one with rfl | ⟨rfl, group⟩
      · simp
      · simp [group]
    rw [group]
    grind
  next => grind

theorem signal_targets_iff (unique : (list.map Process.pid).Nodup) :
    ReachesTargets list sender pid ↔ ClearTargets list sender pid := by
  have after (signal : Nat) (valid : signal ≤ schedNsig) : (schedProcessSignal list sender pid signal).1 =
      list.map (signalEffect (list.filter (fun target =>
        signalMatches sender target (if pid = 0 then -(sender.pgid : Int) else pid) && signalable sender target)) signal) := by
    rw [schedProcessSignal, if_neg (by omega)]
    dsimp only
    rw [signal_targets_filter unique]
    exact signal_all_effect unique (fun target chosen => (List.mem_filter.mp chosen).1) (unique.sublist (List.filter_sublist.map _))
  constructor
  · intro reaches target inside
    exact (clear_target_iff target).mp
      (same_targets unique _ _ (fun signal valid => (after signal valid).symm.trans (reaches signal valid)) target inside)
  · intro clear signal valid
    rw [after signal valid, List.filter_congr (fun target inside => (clear_target_iff target).mpr (clear target inside))]

def jobOf (pid pgid : Nat) : Process := { processAllocId pid true true with pgid, ppid := 1 }

theorem group_signalled : ReachesTargets [jobOf 5 3, jobOf 4 3, jobOf 3 3, jobOf 2 2] (jobOf 2 2) (-3) :=
  (signal_targets_iff (by decide)).mpr (by unfold ClearTargets; decide)

-- kill(0, s) in group 1 goes to every other process, and kill(3, s) to the zombie 3.
theorem group_one_is_everyone : ¬ ReachesTargets [jobOf 3 3, jobOf 2 1] (jobOf 2 1) 0 ∧
    ¬ ReachesTargets [{ jobOf 3 3 with zombie := true }, jobOf 2 2] (jobOf 2 2) 3 := by
  refine ⟨fun reaches => ?_, fun reaches => ?_⟩ <;>
    · have pending := congrArg (List.map Process.pendingSignals) (reaches 15 (by decide))
      revert pending
      decide

end Lyr.Sched
