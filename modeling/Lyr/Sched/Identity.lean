import Lyr.Sched.Process

set_option autoImplicit false

namespace Lyr.Sched

open Lyr.Lib Lyr.Fs

-- line has the places of the process and its forebears.
structure Member where
  process : Process
  line : List Nat

abbrev Family := List Member

inductive IdCall where
  | create (pid : Nat) (ownsVas opened : Bool)
  | fork (parent : Nat) (pid : Nat) (opened : Bool)
  | setuid (i : Nat) (uid : Nat)
  | setgid (i : Nat) (gid : Nat)
  | seteuid (i : Nat) (uid : Nat)
  | setegid (i : Nat) (gid : Nat)
  deriving DecidableEq, Repr

def setId (set : Process → Nat → Except SchedErrno Process) (id : Nat) (member : Member) : Member :=
  match set member.process id with
  | .error _ => member
  | .ok process => { member with process }

def idStep (family : Family) : IdCall → Family
  | .create pid ownsVas opened => family ++ [⟨processAllocId pid ownsVas opened, [family.length]⟩]
  | .fork parent pid opened => match family[parent]? with
      | none => family
      | some src =>
        family ++ [⟨schedProcessCopyIds (processAllocId pid true opened) src.process, family.length :: src.line⟩]
  | .setuid i uid => family.modify i (setId schedProcessSetuid uid)
  | .setgid i gid => family.modify i (setId schedProcessSetgid gid)
  | .seteuid i uid => family.modify i (setId schedProcessSeteuid uid)
  | .setegid i gid => family.modify i (setId schedProcessSetegid gid)

def idRunStep (family : Family) (call : IdCall) : Except Empty Family := .ok (idStep family call)

def Process.uids (process : Process) : Finset Nat := {process.ruid, process.euid, process.suid}
def Process.gids (process : Process) : Finset Nat := {process.rgid, process.egid, process.sgid}

structure Process.CredAgrees (process : Process) : Prop where
  uid : process.cred.uid = process.euid
  gid : process.cred.gid = process.egid

-- Ids only shrink to members of the sets they were, unless it acts as root.
structure Narrows (before after : Process) : Prop where
  uids : before.euid ≠ 0 → after.uids ⊆ before.uids
  gids : before.euid ≠ 0 → after.gids ⊆ before.gids
  cred : before.CredAgrees → after.CredAgrees

variable {process after : Process} {uid gid id i : Nat} {set : Process → Nat → Except SchedErrno Process} {family : Family}
    {call : IdCall}
  {uids gids : Finset Nat}

theorem narrows_refl : Narrows process process := ⟨fun _ => Finset.Subset.refl _, fun _ => Finset.Subset.refl _, id⟩

theorem refreshed_agrees : (processRefreshCred process).CredAgrees := ⟨rfl, rfl⟩

theorem euid_mem_uids (process : Process) : process.euid ∈ process.uids := by simp [Process.uids]

theorem egid_mem_gids (process : Process) : process.egid ∈ process.gids := by simp [Process.gids]

theorem with_euid_uids (member : uid ∈ process.uids) : (processRefreshCred { process with euid := uid }).uids ⊆ process.uids := by
  intro id inside
  simp only [Process.uids, processRefreshCred, Finset.mem_insert, Finset.mem_singleton] at inside member ⊢
  obtain rfl | rfl | rfl := inside <;> simp_all

theorem with_egid_gids (member : gid ∈ process.gids) : (processRefreshCred { process with egid := gid }).gids ⊆ process.gids := by
  intro id inside
  simp only [Process.gids, processRefreshCred, Finset.mem_insert, Finset.mem_singleton] at inside member ⊢
  obtain rfl | rfl | rfl := inside <;> simp_all

theorem setuid_narrows (done : schedProcessSetuid process uid = .ok after) : Narrows process after := by
  unfold schedProcessSetuid at done
  split at done
  · cases done
  cases done
  refine ⟨fun dropped => ?_, fun dropped => ?_, fun _ => refreshed_agrees⟩
  · rw [if_neg dropped]
    refine with_euid_uids ?_
    simp only [Process.uids, Finset.mem_insert, Finset.mem_singleton]
    tauto
  · rw [if_neg dropped]
    exact Finset.Subset.refl _

theorem setgid_narrows (done : schedProcessSetgid process gid = .ok after) : Narrows process after := by
  unfold schedProcessSetgid at done
  split at done
  · cases done
  cases done
  refine ⟨fun dropped => ?_, fun dropped => ?_, fun _ => refreshed_agrees⟩
  · rw [if_neg dropped]
    exact Finset.Subset.refl _
  rw [if_neg dropped]
  refine with_egid_gids ?_
  simp only [Process.gids, Finset.mem_insert, Finset.mem_singleton]
  tauto

theorem seteuid_narrows (done : schedProcessSeteuid process uid = .ok after) : Narrows process after := by
  unfold schedProcessSeteuid at done
  split at done
  · cases done
  cases done
  refine ⟨fun dropped => with_euid_uids ?_, fun _ => Finset.Subset.refl _, fun _ => refreshed_agrees⟩
  simp only [Process.uids, Finset.mem_insert, Finset.mem_singleton]
  tauto

theorem setegid_narrows (done : schedProcessSetegid process gid = .ok after) : Narrows process after := by
  unfold schedProcessSetegid at done
  split at done
  · cases done
  cases done
  refine ⟨fun _ => Finset.Subset.refl _, fun dropped => with_egid_gids ?_, fun _ => refreshed_agrees⟩
  simp only [Process.gids, Finset.mem_insert, Finset.mem_singleton]
  tauto

theorem set_id_narrows (narrows : ∀ process after, set process id = .ok after → Narrows process after) (member : Member) :
    Narrows member.process (setId set id member).process ∧ (setId set id member).line = member.line := by
  unfold setId
  cases done : set member.process id with
  | error errno => exact ⟨narrows_refl, rfl⟩
  | ok process => exact ⟨narrows member.process process done, rfl⟩

-- From the kernel, or with the ids of its parent.
inductive Born (family : Family) : Member → Prop where
  | created (pid : Nat) (ownsVas opened : Bool) : Born family ⟨processAllocId pid ownsVas opened, [family.length]⟩
  | forked (src : Member) (pid : Nat) (opened : Bool) (inside : src ∈ family) :
      Born family ⟨schedProcessCopyIds (processAllocId pid true opened) src.process, family.length :: src.line⟩

-- Everyone was there before with wider ids, or is born by the call.
def Follows (family : Family) (i : Nat) (after : Member) : Prop :=
  (∃ before, family[i]? = some before ∧ Narrows before.process after.process ∧ after.line = before.line) ∨
    (i = family.length ∧ Born family after)

theorem appended_follows {newcomer : Member} (born : Born family newcomer) {after : Member}
    (found : (family ++ [newcomer])[i]? = some after) : Follows family i after := by
  by_cases old : i < family.length
  · rw [List.getElem?_append_left old] at found
    exact Or.inl ⟨after, found, narrows_refl, rfl⟩
  rw [List.getElem?_append_right (by omega)] at found
  have last : i - family.length = 0 := by
    by_contra later
    rw [List.getElem?_eq_none (by simp only [List.length_singleton]; omega)] at found
    cases found
  rw [last, List.getElem?_cons_zero, Option.some.injEq] at found
  exact Or.inr ⟨by omega, found ▸ born⟩

theorem modified_follows {j : Nat} (narrows : ∀ process after, set process id = .ok after → Narrows process after) {after : Member}
    (found : (family.modify j (setId set id))[i]? = some after) : Follows family i after := by
  rw [List.getElem?_modify] at found
  cases held : family[i]? with
  | none => simp [held] at found
  | some before =>
    refine Or.inl ⟨before, held, ?_⟩
    by_cases same : j = i
    · simp only [held, same, if_true, Option.map_eq_map, Option.map_some, Option.some.injEq] at found
      exact found ▸ set_id_narrows narrows before
    · simp only [held, same, if_false, Option.map_eq_map, Option.map_some, Option.some.injEq] at found
      exact found ▸ ⟨narrows_refl, rfl⟩

theorem id_step_follows {after : Member} (found : (idStep family call)[i]? = some after) : Follows family i after := by
  cases call with
  | create pid ownsVas opened => exact appended_follows (.created pid ownsVas opened) found
  | fork parent pid opened =>
    cases held : family[parent]? with
    | none =>
      simp only [idStep, held] at found
      exact Or.inl ⟨after, found, narrows_refl, rfl⟩
    | some src =>
      simp only [idStep, held] at found
      exact appended_follows (.forked src pid opened (List.mem_of_getElem? held)) found
  | setuid j uid => exact modified_follows (fun process after => setuid_narrows) found
  | setgid j gid => exact modified_follows (fun process after => setgid_narrows) found
  | seteuid j uid => exact modified_follows (fun process after => seteuid_narrows) found
  | setegid j gid => exact modified_follows (fun process after => setegid_narrows) found

theorem id_step_length (family : Family) (call : IdCall) : family.length ≤ (idStep family call).length := by
  cases call with
  | create | setuid | setgid | seteuid | setegid => simp [idStep]
  | fork parent pid opened => cases held : family[parent]? <;> simp [idStep, held]

def Family.Dropped (family : Family) (i : Nat) : Prop := ∀ member, family[i]? = some member → member.process.euid ≠ 0

def Family.Within (family : Family) (uids gids : Finset Nat) (i : Nat) : Prop :=
  i < family.length ∧ ∀ member, family[i]? = some member → member.process.uids ⊆ uids ∧ member.process.gids ⊆ gids

theorem id_step_within (family : Family) (call : IdCall) (next : Family)
    (within : family.Within uids gids i) (dropped : family.Dropped i) (taken : idRunStep family call = .ok next) :
    next.Within uids gids i := by
  cases taken
  refine ⟨lt_of_lt_of_le within.1 (id_step_length family call), fun after found => ?_⟩
  obtain ⟨before, held, narrows, _⟩ | ⟨last, _⟩ := id_step_follows found
  · have inside := within.2 before held
    have acts := dropped before held
    exact ⟨(narrows.uids acts).trans inside.1, (narrows.gids acts).trans inside.2⟩
  · exact absurd last within.1.ne

def Family.afresh (family : Family) : Family := family.mapIdx (fun i member => { member with line := [i] })

theorem afresh_getElem (family : Family) (i : Nat) :
    family.afresh[i]? = family[i]?.map (fun member => { member with line := [i] }) := by
  rw [Family.afresh, List.getElem?_mapIdx]

def Family.HeirsWithin (family : Family) (uids gids : Finset Nat) (i : Nat) : Prop := i < family.length ∧
    ∀ (j : Nat) (member : Member), family[j]? = some member → i ∈ member.line → member.process.uids ⊆ uids ∧
      member.process.gids ⊆ gids

theorem copied_ids (dst src : Process) : (schedProcessCopyIds dst src).uids = src.uids ∧
      (schedProcessCopyIds dst src).gids = src.gids := ⟨rfl, rfl⟩

-- Without a root id it narrows, and hands its own ids to a fork.
theorem id_step_heirs (noRoot : 0 ∉ uids) {next : Family}
    (heirs : family.HeirsWithin uids gids i) (taken : idRunStep family call = .ok next) : next.HeirsWithin uids gids i := by
  cases taken
  refine ⟨lt_of_lt_of_le heirs.1 (id_step_length family call), fun j after found heir => ?_⟩
  obtain ⟨before, held, narrows, sameLine⟩ | ⟨last, born⟩ := id_step_follows found
  · have inside := heirs.2 j before held (sameLine ▸ heir)
    have acts : before.process.euid ≠ 0 := fun root => noRoot (root ▸ inside.1 (euid_mem_uids before.process))
    exact ⟨(narrows.uids acts).trans inside.1, (narrows.gids acts).trans inside.2⟩
  have older := heirs.1.ne
  cases born with
  | created pid ownsVas opened => simp [older] at heir
  | forked src pid opened inside =>
    obtain ⟨k, held⟩ := List.mem_iff_getElem?.mp inside
    have within := heirs.2 k src held (by simpa [older] using heir)
    have copied := copied_ids (processAllocId pid true opened) src.process
    exact ⟨copied.1 ▸ within.1, copied.2 ▸ within.2⟩

def Family.CredsAgree (family : Family) : Prop := ∀ member ∈ family, member.process.CredAgrees

theorem id_step_creds (call : IdCall) (agree : family.CredsAgree) : (idStep family call).CredsAgree := by
  intro after inside
  obtain ⟨j, found⟩ := List.mem_iff_getElem?.mp inside
  obtain ⟨before, held, narrows, _⟩ | ⟨_, born⟩ := id_step_follows found
  · exact narrows.cred (agree before (List.mem_of_getElem? held))
  cases born with
  | created pid ownsVas opened => exact refreshed_agrees
  | forked src pid opened known => exact ⟨(agree src known).uid, (agree src known).gid⟩

-- Nor does a process forked from it.
theorem dropped_identity_stays_dropped (family : Family) (calls : List IdCall) (final : Family)
    (ended : run idRunStep family.afresh calls = .ok final) :
    (∀ (i : Nat) (before after : Member), family[i]? = some before → final[i]? = some after →
      Permitted idRunStep (fun family _ => family.Dropped i) family.afresh calls →
      after.process.uids ⊆ before.process.uids ∧ (after.process.euid = 0 → 0 ∈ before.process.uids) ∧
        after.process.gids ⊆ before.process.gids ∧ after.process.egid ∈ before.process.gids) ∧
    (∀ (i j : Nat) (before after : Member), family[i]? = some before → 0 ∉ before.process.uids → final[j]? = some after →
      i ∈ after.line →
      after.process.euid ≠ 0 ∧ after.process.uids ⊆ before.process.uids ∧ after.process.gids ⊆ before.process.gids) ∧
    Always idRunStep Family.CredsAgree [] calls := by
  refine ⟨fun i before after held found dropped => ?_, fun i j before after held noRoot found heir => ?_, ?_⟩
  · have start : family.afresh.Within before.process.uids before.process.gids i := by
      have inside : i < family.length := (List.getElem?_eq_some_iff.mp held).1
      refine ⟨by simpa [Family.afresh] using inside, fun member same => ?_⟩
      rw [afresh_getElem, held, Option.map_some, Option.some.injEq] at same
      exact same ▸ ⟨Finset.Subset.refl _, Finset.Subset.refl _⟩
    have within := permitted_run_invariant id_step_within start dropped ended
    obtain ⟨uids, gids⟩ := within.2 after found
    exact ⟨uids, fun root => root ▸ uids (euid_mem_uids after.process), gids, gids (egid_mem_gids after.process)⟩
  · have start : family.afresh.HeirsWithin before.process.uids before.process.gids i := by
      have inside : i < family.length := (List.getElem?_eq_some_iff.mp held).1
      refine ⟨by simpa [Family.afresh] using inside, fun k member same heir => ?_⟩
      rw [afresh_getElem] at same
      obtain ⟨older, heldHere, rfl⟩ := Option.map_eq_some_iff.mp same
      have here : i = k := by simpa using heir
      rw [← here, held, Option.some.injEq] at heldHere
      exact heldHere ▸ ⟨Finset.Subset.refl _, Finset.Subset.refl _⟩
    have heirs := permitted_run_invariant (fun family call next heirs _ => id_step_heirs noRoot heirs)
      start (permitted_all family.afresh (fun _ _ => trivial)) ended
    obtain ⟨uids, gids⟩ := heirs.2 j after found heir
    exact ⟨fun root => noRoot (root ▸ uids (euid_mem_uids after.process)), uids, gids⟩
  · exact (run_always (fun family call agree => ⟨idStep family call, rfl, id_step_creds call agree⟩) (fun _ agree => agree)
      (fun member inside => by cases inside)).2

def demotedFamily : Family := [setId schedProcessSetuid 1000 ⟨processAllocId 2 true true, [0]⟩]

theorem demoted_child_stays_demoted :
    ∃ child : Member, (idStep (idStep demotedFamily (.fork 0 3 true)) (.seteuid 1 0))[1]? = some child ∧ child.process.euid ≠ 0 :=
  ⟨_, rfl, ((dropped_identity_stays_dropped demotedFamily [.fork 0 3 true, .seteuid 1 0] _ rfl).2.1 0 1 _ _ rfl (by decide) rfl
    (by decide)).1⟩

end Lyr.Sched
