import Lyr.Sched.IdPool

set_option autoImplicit false

namespace Lyr.Sched

open Lyr.Lib Lyr.Fs

def Process.Collects (process : Process) : Prop :=
  process.zombie = false ∧ processIsKernelOwned process = false ∧ 0 < process.threadCount

instance (process : Process) : Decidable process.Collects := inferInstanceAs (Decidable (_ ∧ _ ∧ _))

-- Every zombie has someone to collect it.
structure JobsOrderly (list : List Process) : Prop where
  groups : ∀ p ∈ list, ∀ q ∈ list, p.pgid = q.pgid → p.sid = q.sid
  leaders : ∀ p ∈ list, p.pid = p.sid → p.pgid = p.pid
  zombies : ∀ p ∈ list, p.zombie = true → ∃ parent ∈ list, parent.pid = p.ppid ∧ parent.Collects

structure Sessions (list : List Process) : Prop where
  groups : ∀ p ∈ list, ∀ q ∈ list, p.pgid = q.pgid → p.sid = q.sid
  leaders : ∀ p ∈ list, p.pid = p.sid → p.pgid = p.pid
  founders : ∀ p ∈ list, ∀ q ∈ list, q.pgid = p.pid → q.sid = p.sid

def Collected (list : List Process) : Prop := ∀ p ∈ list, p.zombie = true → ∃ parent ∈ list, parent.pid = p.ppid ∧ parent.Collects

instance (list : List Process) : Decidable (Collected list) := inferInstanceAs (Decidable (∀ p ∈ list, _ → ∃ parent ∈ list, _))

structure PidsApart (t : ProcessTable) : Prop where
  unique : (t.list.map Process.pid).Nodup
  live : ∀ p ∈ t.list, p.pid ∉ t.pool.free ∧ p.pid < t.pool.next
  free : ∀ id ∈ t.pool.free, id < t.pool.next
  single : t.pool.free.Nodup
  positive : 0 < t.pool.next ∧ 0 ∉ t.pool.free

structure JobsSound (t : ProcessTable) : Prop where
  sessions : Sessions t.list
  collected : Collected t.list
  pids : PidsApart t

theorem jobs_sound_orderly (t : ProcessTable) (sound : JobsSound t) : JobsOrderly t.list :=
  ⟨sound.sessions.groups, sound.sessions.leaders, sound.collected⟩

variable {list : List Process} {p process target caller : Process} {change : Process → Process} {t after : ProcessTable}
    {pid pgid : Nat}

theorem sessions_of (session : Nat → Nat) (named : ∀ p ∈ list, session p.pgid = p.sid ∧ session p.pid = p.sid)
    (leaders : ∀ p ∈ list, p.pid = p.sid → p.pgid = p.pid) : Sessions list := by
  refine ⟨?_, leaders, ?_⟩
  · intro p insideP q insideQ same
    rw [← (named p insideP).1, same, (named q insideQ).1]
  · intro p insideP q insideQ same
    rw [← (named q insideQ).1, same, (named p insideP).2]

theorem sessions_named (unique : (list.map Process.pid).Nodup) (sessions : Sessions list) :
    ∃ session : Nat → Nat, ∀ p ∈ list, session p.pgid = p.sid ∧ session p.pid = p.sid := by
  have single : ∀ number, ∃ sid, ∀ p ∈ list, p.pgid = number ∨ p.pid = number → p.sid = sid := by
    intro number
    by_cases used : ∃ q ∈ list, q.pgid = number ∨ q.pid = number
    · obtain ⟨q, insideQ, sameQ⟩ := used
      refine ⟨q.sid, fun p insideP sameP => ?_⟩
      obtain rfl | rfl := sameQ
      · obtain group | founder := sameP
        · exact sessions.groups p insideP q insideQ group
        · exact (sessions.founders p insideP q insideQ founder.symm).symm
      obtain group | own := sameP
      · exact sessions.founders q insideQ p insideP group
      · rw [List.inj_on_of_nodup_map unique insideP insideQ own]
    · exact ⟨0, fun p inside same => absurd ⟨p, inside, same⟩ used⟩
  choose session holds using single
  exact ⟨session, fun p inside => ⟨(holds _ p inside (.inl rfl)).symm, (holds _ p inside (.inr rfl)).symm⟩⟩

theorem sessions_inherit {after : List Process} (seen : ∀ p ∈ after, ∃ q ∈ t.list, q.pid = p.pid ∧ q.pgid = p.pgid ∧ q.sid = p.sid)
    (pids : PidsApart t) (sessions : Sessions t.list) : Sessions after := by
  obtain ⟨session, named⟩ := sessions_named pids.unique sessions
  refine sessions_of session (fun p inside => ?_) (fun p inside => ?_)
  · obtain ⟨q, old, pid, pgid, sid⟩ := seen p inside
    rw [← pid, ← pgid, ← sid]
    exact named q old
  · obtain ⟨q, old, pid, pgid, sid⟩ := seen p inside
    rw [← pid, ← pgid, ← sid]
    exact sessions.leaders q old

theorem sessions_cons (pids : PidsApart t) (sessions : Sessions t.list)
    (fresh : ∀ q ∈ t.list, q.pid ≠ p.pid ∧ q.pgid ≠ p.pid ∧ q.sid ≠ p.pid)
    (joins : (p.pgid = p.pid ∧ p.sid = p.pid) ∨ ∃ q ∈ t.list, p.pgid = q.pgid ∧ p.sid = q.sid) : Sessions (p :: t.list) := by
  obtain ⟨session, named⟩ := sessions_named pids.unique sessions
  refine sessions_of (Function.update session p.pid p.sid) ?_ ?_
  · refine List.forall_mem_cons.mpr ⟨⟨?_, Function.update_self ..⟩, fun q old => ?_⟩
    · obtain ⟨own, _⟩ | ⟨q, old, pgid, sid⟩ := joins
      · rw [own, Function.update_self]
      · rw [pgid, sid, Function.update_of_ne (fresh q old).2.1, (named q old).1]
    · rw [Function.update_of_ne (fresh q old).1, Function.update_of_ne (fresh q old).2.1]
      exact named q old
  · refine List.forall_mem_cons.mpr ⟨fun leads => ?_, sessions.leaders⟩
    obtain ⟨own, _⟩ | ⟨q, old, _, sid⟩ := joins
    · exact own
    · exact absurd (sid.symm.trans leads.symm) (fresh q old).2.2

structure Alike (before after : Process) : Prop where
  pid : after.pid = before.pid
  ppid : after.ppid = before.ppid
  zombie : after.zombie = before.zombie
  collects : before.Collects → after.Collects

theorem alike_refl (p : Process) : Alike p p := ⟨rfl, rfl, rfl, id⟩

theorem collected_map (alike : ∀ p ∈ list, Alike p (change p)) (collected : Collected list) : Collected (list.map change) := by
  intro p' inside dead
  obtain ⟨p, old, rfl⟩ := List.mem_map.mp inside
  obtain ⟨parent, there, number, able⟩ := collected p old ((alike p old).zombie.symm.trans dead)
  exact ⟨change parent, List.mem_map_of_mem there, (alike parent there).pid.trans (number.trans (alike p old).ppid.symm),
    (alike parent there).collects able⟩

theorem collected_cons (living : p.zombie = false) (collected : Collected list) : Collected (p :: list) := by
  intro q inside dead
  obtain rfl | old := List.mem_cons.mp inside
  · rw [living] at dead
    cases dead
  · obtain ⟨parent, there, rest⟩ := collected q old dead
    exact ⟨parent, List.mem_cons_of_mem p there, rest⟩

theorem pids_apart_list (same : list.map Process.pid = t.list.map Process.pid) (pids : PidsApart t) : PidsApart { t with list } := by
  refine ⟨same ▸ pids.unique, fun p inside => ?_, pids.free, pids.single, pids.positive⟩
  have number : p.pid ∈ t.list.map Process.pid := same ▸ List.mem_map_of_mem inside
  obtain ⟨q, old, equal⟩ := List.mem_map.mp number
  exact equal ▸ pids.live q old

theorem pid_unique (pids : PidsApart t) {q : Process} (insideP : p ∈ t.list) (insideQ : q ∈ t.list)
    (same : p.pid = q.pid) : p = q :=
  List.inj_on_of_nodup_map pids.unique insideP insideQ same

theorem find_mem (found : t.find pid = some process) : process ∈ t.list ∧ process.pid = pid := by
  have holds := List.find?_some found
  exact ⟨List.mem_of_find?_eq_some found, of_decide_eq_true holds⟩

theorem map_sound (alike : ∀ p ∈ t.list, Alike p (change p))
    (sessions : Sessions (t.list.map change)) (sound : JobsSound t) : JobsSound { t with list := t.list.map change } := by
  refine ⟨sessions, collected_map alike sound.collected, pids_apart_list ?_ sound.pids⟩
  rw [List.map_map]
  exact List.map_congr_left (fun p old => (alike p old).pid)

theorem modify_alike (pid : Nat) (alike : ∀ p, Alike p (change p)) (p : Process) : Alike p (if p.pid = pid then change p else p) := by
  split
  · exact alike p
  · exact alike_refl p

theorem regroup_sound (alike : ∀ p, Alike p (change p))
    (sessions : Sessions (t.modify pid change).list) (sound : JobsSound t) : JobsSound (t.modify pid change) :=
  map_sound (fun p _ => modify_alike pid alike p) sessions sound

theorem modify_sound (pid : Nat) (alike : ∀ p, Alike p (change p))
    (groups : ∀ p, (change p).pgid = p.pgid ∧ (change p).sid = p.sid) (sound : JobsSound t) : JobsSound (t.modify pid change) := by
  refine regroup_sound alike (sessions_inherit (fun p inside => ?_) sound.pids sound.sessions) sound
  obtain ⟨q, old, rfl⟩ := List.mem_map.mp inside
  refine ⟨q, old, (modify_alike pid alike q).pid.symm, ?_⟩
  split
  · exact ⟨(groups q).1.symm, (groups q).2.symm⟩
  · exact ⟨rfl, rfl⟩

theorem peek_fresh (pids : PidsApart t) : 0 < t.pool.peek ∧ ∀ p ∈ t.list, p.pid ≠ t.pool.peek := by
  unfold IdPool.peek
  cases free : t.pool.free with
  | nil =>
    exact ⟨pids.positive.1, fun p inside same => (pids.live p inside).2.ne same⟩
  | cons id rest =>
    refine ⟨Nat.pos_of_ne_zero (fun zero => pids.positive.2 (by simp [free, zero])), fun p inside same => ?_⟩
    exact (pids.live p inside).1 (by simp [free, same])

theorem id_alloc_peek (pool : IdPool) : (idAlloc pool).1 = pool.peek := by
  unfold idAlloc IdPool.peek
  cases pool.free with
  | nil => rfl
  | cons id rest => rfl

theorem id_alloc_apart (number : p.pid = t.pool.peek) (pids : PidsApart t) :
    PidsApart { list := p :: t.list, pool := (idAlloc t.pool).2 } := by
  have fresh := (peek_fresh pids).2
  have unique : ((p :: t.list).map Process.pid).Nodup := by
    refine List.nodup_cons.mpr ⟨fun inside => ?_, pids.unique⟩
    obtain ⟨q, old, same⟩ := List.mem_map.mp inside
    exact fresh q old (same.trans number)
  unfold idAlloc
  cases free : t.pool.free with
  | nil =>
    have next : t.pool.peek = t.pool.next := by simp [IdPool.peek, free]
    refine ⟨unique, fun q inside => ?_, by simp, by simp, by simp⟩
    obtain rfl | old := List.mem_cons.mp inside
    · exact ⟨by simp, by rw [number, next]; exact Nat.lt_succ_self _⟩
    · exact ⟨by simp, Nat.lt_succ_of_lt (pids.live q old).2⟩
  | cons id rest =>
    have head : t.pool.peek = id := by simp [IdPool.peek, free]
    have single := free ▸ pids.single
    obtain ⟨absent, later⟩ := List.nodup_cons.mp single
    refine ⟨unique, fun q inside => ?_, fun other inside => pids.free other (by simp [free, inside]), later,
      pids.positive.1, fun zero => pids.positive.2 (by simp [free, zero])⟩
    obtain rfl | old := List.mem_cons.mp inside
    · exact ⟨by rw [number, head]; exact absent, by rw [number, head]; exact pids.free id (by simp [free])⟩
    · have live := pids.live q old
      exact ⟨fun inside => live.1 (by simp [free, inside]), live.2⟩

def ProcessTable.FreshPid (t : ProcessTable) : Prop := ∀ p ∈ t.list, p.pgid ≠ t.pool.peek ∧ p.sid ≠ t.pool.peek

instance (t : ProcessTable) : Decidable t.FreshPid := inferInstanceAs (Decidable (∀ p ∈ t.list, _ ∧ _))

theorem newcomer_sound (t : ProcessTable) (p : Process) (number : p.pid = t.pool.peek) (living : p.zombie = false)
    (joins : (p.pgid = p.pid ∧ p.sid = p.pid) ∨ ∃ q ∈ t.list, p.pgid = q.pgid ∧ p.sid = q.sid) (fresh : t.FreshPid)
    (sound : JobsSound t) : JobsSound { list := p :: t.list, pool := (idAlloc t.pool).2 } := by
  refine ⟨sessions_cons sound.pids sound.sessions (fun q inside => ?_) joins, collected_cons living sound.collected,
    id_alloc_apart number sound.pids⟩
  rw [number]
  exact ⟨(peek_fresh sound.pids).2 q inside, fresh q inside⟩

theorem create_sound (ownsVas opened : Bool) (fresh : t.FreshPid) (sound : JobsSound t) :
    JobsSound (schedProcessCreate t ownsVas opened) := by
  have number := id_alloc_peek t.pool
  exact newcomer_sound t (processAllocId (idAlloc t.pool).1 ownsVas opened) number rfl (Or.inl ⟨rfl, rfl⟩) fresh sound

theorem destroy_apart (inside : p ∈ t.list) (pids : PidsApart t) : ∃ after, processDestroy t p.pid = .ok after ∧ PidsApart after ∧
    (∀ q ∈ after.list, q ∈ t.list) ∧ (∀ q ∈ t.list, q ≠ p → q ∈ after.list) ∧ (p.pid ≠ 0 → ∀ q ∈ after.list, q.pid ≠ p.pid) := by
  unfold processDestroy
  by_cases kernel : p.pid = 0
  · exact ⟨t, if_pos kernel, pids, fun _ => id, fun _ old _ => old, fun user => absurd kernel user⟩
  obtain ⟨absent, below⟩ := pids.live p inside
  obtain ⟨free, inserted, perm, _⟩ := id_insert_perm absent
  rw [if_neg kernel, idFree, if_neg kernel, inserted]
  have member : ∀ id, id ∈ free ↔ id = p.pid ∨ id ∈ t.pool.free := fun id => perm.mem_iff.trans List.mem_cons
  refine ⟨_, rfl, ⟨pids.unique.sublist (List.filter_sublist.map _), fun q kept => ?_, fun id there => ?_, ?_, pids.positive.1,
    fun zero => ?_⟩,
    fun q => List.mem_of_mem_filter, fun q old other =>
      List.mem_filter.mpr ⟨old, decide_eq_true (fun same => other (pid_unique pids old inside same))⟩,
    fun _ q kept => of_decide_eq_true (List.mem_filter.mp kept).2⟩
  · obtain ⟨old, other⟩ := List.mem_filter.mp kept
    have live := pids.live q old
    refine ⟨fun there => ?_, live.2⟩
    obtain same | older := (member q.pid).mp there
    · exact of_decide_eq_true other same
    · exact live.1 older
  · obtain rfl | older := (member id).mp there
    · exact below
    · exact pids.free id older
  · exact perm.nodup_iff.mpr (List.nodup_cons.mpr ⟨absent, pids.single⟩)
  obtain same | older := (member 0).mp zero
  · exact kernel same.symm
  · exact pids.positive.2 older

theorem destroy_sound (inside : p ∈ t.list) (idle : ¬p.Collects) (sound : JobsSound t) :
    ∃ after, processDestroy t p.pid = .ok after ∧ JobsSound after := by
  obtain ⟨after, done, pids, old, kept, _⟩ := destroy_apart inside sound.pids
  refine ⟨after, done, sessions_inherit (fun q there => ⟨q, old q there, rfl, rfl, rfl⟩) sound.pids sound.sessions,
    fun q there dead => ?_, pids⟩
  obtain ⟨parent, here, number, able⟩ := sound.collected q (old q there) dead
  exact ⟨parent, kept parent here (fun same => idle (same ▸ able)), number, able⟩

theorem modify_newcomer (list : List Process) (pool : IdPool) (p : Process) (change : Process → Process)
    (fresh : ∀ q ∈ list, q.pid ≠ p.pid) :
    ProcessTable.modify { list := p :: list, pool } p.pid change = { list := change p :: list, pool } := by
  have rest : list.map (fun q => if q.pid = p.pid then change q else q) = list := by
    refine (List.map_congr_left (fun q inside => if_neg (fresh q inside))).trans ?_
    exact List.map_id' list
  simp only [ProcessTable.modify, List.map_cons, if_true, rest]

theorem fork_eq (parent : Process) (opened : Bool) (pids : PidsApart t) :
    let child := schedProcessCopyIds (processAllocId t.pool.peek true opened) parent
    sysFork t parent opened = if opened then .ok
      { list := { child with threadCount := child.threadCount + 1 } :: t.list, pool := (idAlloc t.pool).2 }
      else processDestroy { list := child :: t.list, pool := (idAlloc t.pool).2 } child.pid := by
  have unused := (peek_fresh pids).2
  have created : schedProcessCreate t true opened =
      { list := processAllocId t.pool.peek true opened :: t.list, pool := (idAlloc t.pool).2 } := by
    rw [← id_alloc_peek t.pool]
    rfl
  have copied : ProcessTable.modify { list := processAllocId t.pool.peek true opened :: t.list, pool := (idAlloc t.pool).2 }
      t.pool.peek (fun child => schedProcessCopyIds child parent) =
      { list := schedProcessCopyIds (processAllocId t.pool.peek true opened) parent :: t.list, pool := (idAlloc t.pool).2 } :=
    modify_newcomer t.list (idAlloc t.pool).2 (processAllocId t.pool.peek true opened) _ unused
  have threaded := modify_newcomer t.list (idAlloc t.pool).2 (schedProcessCopyIds (processAllocId t.pool.peek true opened) parent)
    (fun child => { child with threadCount := child.threadCount + 1 }) unused
  simp only [sysFork, created, copied]
  cases opened with
  | true => exact congrArg Except.ok threaded
  | false => rfl

theorem fork_sound {parent : Process} (opened : Bool) (inside : parent ∈ t.list) (fresh : t.FreshPid)
    (sound : JobsSound t) : ∃ after, sysFork t parent opened = .ok after ∧ JobsSound after := by
  rw [fork_eq parent opened sound.pids]
  cases opened with
  | true => exact ⟨_, rfl, newcomer_sound t _ rfl rfl (Or.inr ⟨parent, inside, rfl, rfl⟩) fresh sound⟩
  | false =>
    have forked := newcomer_sound t (schedProcessCopyIds (processAllocId t.pool.peek true false) parent) rfl rfl
      (Or.inr ⟨parent, inside, rfl, rfl⟩) fresh sound
    exact destroy_sound (List.mem_cons_self ..) (fun able => Nat.lt_irrefl 0 able.2.2) forked

theorem setpgid_sessions (inside : target ∈ t.list) (follower : target.pid ≠ target.sid)
    (joins : pgid = target.pid ∨ ∃ q ∈ t.list, q.pgid = pgid ∧ q.sid = target.sid) (pids : PidsApart t) (sessions : Sessions t.list) :
    Sessions (t.modify target.pid (fun process => { process with pgid })).list := by
  obtain ⟨session, named⟩ := sessions_named pids.unique sessions
  have joined : session pgid = target.sid := by
    obtain rfl | ⟨q, old, rfl, sid⟩ := joins
    · exact (named target inside).2
    · exact (named q old).1.trans sid
  refine sessions_of session (List.forall_mem_map.mpr fun q old => ?_) (List.forall_mem_map.mpr fun q old => ?_)
  · split
    next same =>
      cases pid_unique pids old inside same
      exact ⟨joined, (named _ old).2⟩
    · exact named q old
  · split
    next same =>
      cases pid_unique pids old inside same
      exact fun leads => absurd leads follower
    · exact sessions.leaders q old

theorem setpgid_allowed_ok (allowed : setpgidAllowed t caller target pgid = .ok ()) :
    target.pid ≠ target.sid ∧ (pgid = target.pid ∨ ∃ q ∈ t.list, q.pgid = pgid ∧ q.sid = target.sid) := by
  unfold setpgidAllowed at allowed
  split at allowed
  · cases allowed
  split at allowed
  · cases allowed
  split at allowed
  · cases allowed
  rename_i follower
  split at allowed
  · cases allowed
  rename_i found
  refine ⟨follower, ?_⟩
  by_cases own : pgid = target.pid
  · exact Or.inl own
  · obtain ⟨q, inside, joined⟩ := List.any_eq_true.mp (not_not.mp (fun missing => found ⟨own, missing⟩))
    exact Or.inr ⟨q, inside, of_decide_eq_true joined⟩

section

variable (sound : JobsSound t)
include sound

theorem setpgid_sound {pid pgid : Int} (done : schedProcessSetpgid t caller pid pgid = .ok after) : JobsSound after := by
  simp only [schedProcessSetpgid] at done
  generalize (if pid = 0 then (caller.pid : Int) else pid) = pid at done
  generalize (if pgid = 0 then pid else pgid) = pgid at done
  split at done
  · cases done
  cases found : t.find pid.toNat with
  | none => simp [found] at done
  | some target =>
    simp only [found] at done
    cases allowed : setpgidAllowed t caller target pgid.toNat with
    | error errno => simp [allowed] at done
    | ok _ =>
      simp only [allowed, Except.ok.injEq] at done
      obtain ⟨follower, joins⟩ := setpgid_allowed_ok allowed
      have inside := (find_mem found).1
      rw [← done]
      exact regroup_sound (fun p => ⟨rfl, rfl, rfl, id⟩) (setpgid_sessions inside follower joins sound.pids sound.sessions) sound

theorem setsid_sound (done : schedProcessSetsid t caller = .ok after) : JobsSound after := by
  unfold schedProcessSetsid at done
  split at done
  · cases done
  rename_i alone
  cases done
  have alone : ∀ q ∈ t.list, q.pid ≠ caller.pid → q.pgid ≠ caller.pid := fun q there different same =>
    alone (List.any_eq_true.mpr ⟨q, there, decide_eq_true ⟨different, same⟩⟩)
  refine regroup_sound (fun p => ⟨rfl, rfl, rfl, id⟩) ?_ sound
  obtain ⟨session, named⟩ := sessions_named sound.pids.unique sound.sessions
  refine sessions_of (Function.update session caller.pid caller.pid) (List.forall_mem_map.mpr fun q old => ?_)
    (List.forall_mem_map.mpr fun q old => ?_)
  · split
    next same =>
      rw [same]
      exact ⟨Function.update_self .., Function.update_self ..⟩
    next other =>
      rw [Function.update_of_ne (alone q old other), Function.update_of_ne other]
      exact named q old
  · split
    next same => exact fun _ => same.symm
    · exact sound.sessions.leaders q old

def ProcessTable.HasCollector (t : ProcessTable) (pid : Nat) : Prop := ∃ p ∈ t.list, p.pid = pid ∧ p.Collects

instance (t : ProcessTable) (pid : Nat) : Decidable (t.HasCollector pid) :=
  inferInstanceAs (Decidable (∃ p ∈ t.list, p.pid = pid ∧ p.Collects))

structure MayExit (t : ProcessTable) (process : Process) : Prop where
  parent : 0 < process.ppid → process.ppid ≠ process.pid ∧ t.HasCollector process.ppid
  children : (∀ p ∈ t.list, p.zombie = true → p.ppid ≠ process.pid) ∨ (1 < process.pid ∧ t.HasCollector 1)

instance (t : ProcessTable) (process : Process) : Decidable (MayExit t process) :=
  decidable_of_iff ((0 < process.ppid → process.ppid ≠ process.pid ∧ t.HasCollector process.ppid) ∧
    ((∀ p ∈ t.list, p.zombie = true → p.ppid ≠ process.pid) ∨ (1 < process.pid ∧ t.HasCollector 1)))
    ⟨fun both => ⟨both.1, both.2⟩, fun may => ⟨may.parent, may.children⟩⟩

def ended (process left : Process) (newParent : Nat) (p : Process) : Process :=
  let p := if p.pid = process.pid then left else p
  if p.ppid = process.pid then { p with ppid := newParent } else p

omit sound in
theorem ended_keeps {left : Process} (newParent : Nat)
    (same : left.pid = process.pid ∧ left.pgid = process.pgid ∧ left.sid = process.sid) (unique : p.pid = process.pid → p = process) :
    (ended process left newParent p).pid = p.pid ∧ (ended process left newParent p).pgid = p.pgid ∧
      (ended process left newParent p).sid = p.sid := by
  unfold ended
  by_cases here : p.pid = process.pid
  · obtain rfl := unique here
    rw [if_pos rfl]
    dsimp only
    split <;> exact same
  rw [if_neg here]
  dsimp only
  split <;> exact ⟨rfl, rfl, rfl⟩

omit sound in
theorem ended_other (left : Process) (newParent : Nat) (other : p.pid ≠ process.pid) (able : p.Collects) :
    (ended process left newParent p).Collects := by
  unfold ended
  rw [if_neg other]
  dsimp only
  split <;> exact able

omit sound in
theorem ended_sound {t : ProcessTable} {process left : Process} {newParent : Nat} (inside : process ∈ t.list)
    (same : left.pid = process.pid ∧ left.pgid = process.pgid ∧ left.sid = process.sid) (ppid : left.ppid = process.ppid)
    (dead : left.zombie = true → 0 < process.ppid) (adopts : newParent = if process.pid > 1 then 1 else 0)
    (may : MayExit t process) (sound : JobsSound t) :
    JobsSound { t with list := t.list.map (ended process left newParent) } := by
  have only : ∀ p ∈ t.list, p.pid = process.pid → p = process := fun p there => pid_unique sound.pids there inside
  have keeps := fun p there => ended_keeps newParent same (only p there)
  refine ⟨sessions_inherit (fun p there => ?_) sound.pids sound.sessions, ?_, pids_apart_list ?_ sound.pids⟩
  · obtain ⟨q, old, rfl⟩ := List.mem_map.mp there
    obtain ⟨pid, pgid, sid⟩ := keeps q old
    exact ⟨q, old, pid.symm, pgid.symm, sid.symm⟩
  · -- A collector other than the process that ends is still one.
    have stays : ∀ pid, pid ≠ process.pid → t.HasCollector pid →
        ∃ parent ∈ t.list.map (ended process left newParent), parent.pid = pid ∧ parent.Collects := by
      rintro pid other ⟨parent, there, rfl, able⟩
      exact ⟨_, List.mem_map_of_mem there, (keeps parent there).1, ended_other left newParent other able⟩
    intro p' there zombie
    obtain ⟨p, old, rfl⟩ := List.mem_map.mp there
    by_cases here : p.pid = process.pid
    · obtain rfl := only p old here
      have value : ended p left newParent p = if left.ppid = p.pid then { left with ppid := newParent } else left := by
        simp only [ended, if_true]
      have gone : left.zombie = true := by
        rw [value] at zombie
        split at zombie <;> exact zombie
      obtain ⟨different, collector⟩ := may.parent (dead gone)
      rw [value, if_neg (by rw [ppid]; exact different), ppid]
      exact stays p.ppid different collector
    have value : ended process left newParent p = if p.ppid = process.pid then { p with ppid := newParent } else p := by
      simp only [ended, if_neg here]
    by_cases child : p.ppid = process.pid
    · rw [value, if_pos child] at zombie ⊢
      obtain none | ⟨above, collector⟩ := may.children
      · exact absurd child (none p old zombie)
      · have first : newParent = 1 := by rw [adopts, if_pos above]
        exact stays newParent (first ▸ above.ne) (first ▸ collector)
    · rw [value, if_neg child] at zombie ⊢
      exact stays p.ppid child (sound.collected p old zombie)
  · rw [List.map_map]
    exact List.map_congr_left (fun p old => (keeps p old).1)

theorem zombie_parent_positive (inside : p ∈ t.list) (dead : p.zombie = true) : 0 < p.ppid := by
  obtain ⟨parent, _, number, _, user, _⟩ := sound.collected p inside dead
  refine Nat.pos_of_ne_zero (fun zero => ?_)
  simp [processIsKernelOwned, number, zero] at user

theorem thread_finish_sound (status : Int) (inside : process ∈ t.list)
    (may : process.threadCount = 1 → process.pid ≠ 0 → MayExit t process) :
    JobsSound (threadFinishProcess t process status) := by
  have only : ∀ p ∈ t.list, p.pid = process.pid → p = process := fun p there => pid_unique sound.pids there inside
  -- Only counted anew.
  have recounted : ∀ left : Process, Alike process left → left.pgid = process.pgid ∧ left.sid = process.sid →
      JobsSound (t.modify process.pid (fun _ => left)) := by
    intro left alike groups
    refine map_sound (fun p there => ?_) (sessions_inherit (fun p there => ?_) sound.pids sound.sessions) sound
    · split
      · rename_i here
        exact only p there here ▸ alike
      · exact alike_refl p
    obtain ⟨q, old, rfl⟩ := List.mem_map.mp there
    refine ⟨q, old, ?_⟩
    split
    · rename_i here
      exact only q old here ▸ ⟨alike.pid.symm, groups.1.symm, groups.2.symm⟩
    · exact ⟨rfl, rfl, rfl⟩
  unfold threadFinishProcess processRemoveThreadOf
  by_cases none : process.threadCount = 0
  · rw [if_pos none]
    exact recounted process (alike_refl process) ⟨rfl, rfl⟩
  rw [if_neg none]
  dsimp only
  by_cases last : process.threadCount - 1 = 0 ∧ process.pid ≠ 0
  · rw [if_pos last]
    have exits := may (by omega) last.2
    -- Both are one map over the list.
    have listed : ∀ (left : Process) (newParent : Nat),
        processReparentChildren (t.modify process.pid (fun _ => left)) process.pid newParent =
          { t with list := t.list.map (ended process left newParent) } := by
      intro left newParent
      simp only [processReparentChildren, if_neg last.2, ProcessTable.modify, List.map_map]
      rfl
    by_cases waitable : 0 < process.ppid
    · rw [if_pos waitable]
      rw [listed]
      have after := @ended_sound t process
        { process with threadCount := process.threadCount - 1, exitStatus := status, dying := true, zombie := true }
        (if process.pid > 1 then 1 else 0) inside ⟨rfl, rfl, rfl⟩ rfl (fun _ => waitable) rfl exits sound
      unfold processNotifyParentSignal
      rw [if_neg waitable.ne']
      refine modify_sound process.ppid (fun p => ?_) (fun p => ?_) after
      · split
        · exact alike_refl p
        · exact ⟨rfl, rfl, rfl, id⟩
      · split <;> exact ⟨rfl, rfl⟩
    rw [if_neg waitable]
    rw [listed]
    exact ended_sound inside ⟨rfl, rfl, rfl⟩ rfl (fun dead => zombie_parent_positive sound inside dead) rfl exits sound
  rw [if_neg last]
  refine recounted _ ⟨rfl, rfl, rfl, fun able => ?_⟩ ⟨rfl, rfl⟩
  have user : process.pid ≠ 0 := fun zero => by simpa [processIsKernelOwned, zero] using able.2.1
  exact ⟨able.1, able.2.1, Nat.pos_of_ne_zero (fun zero => last ⟨zero, user⟩)⟩

theorem wait_sound (parent : Process) (pid : Int) (options : Nat) :
    ∃ result, schedProcessWait t parent pid options = .ok result ∧ JobsSound result.1 := by
  unfold schedProcessWait
  dsimp only
  split
  · exact ⟨_, rfl, sound⟩
  cases found : (t.list.filter (fun child => waitMatches parent child pid)).find? (fun child => child.zombie) with
  | some zombie =>
    have dead : zombie.zombie = true := List.find?_some found
    have inside := List.mem_of_mem_filter (List.mem_of_find?_eq_some found)
    obtain ⟨after, destroyed, safe⟩ := destroy_sound inside (fun able => by simpa [dead] using able.1) sound
    dsimp only
    rw [destroyed]
    exact ⟨_, rfl, safe⟩
  | none =>
    refine ⟨_, rfl, ?_⟩
    split
    · exact sound
    unfold waitReport
    split
    · exact modify_sound _ (fun p => ⟨rfl, rfl, rfl, id⟩) (fun p => ⟨rfl, rfl⟩) sound
    split
    · exact modify_sound _ (fun p => ⟨rfl, rfl, rfl, id⟩) (fun p => ⟨rfl, rfl⟩) sound
    · exact sound

-- A new number names no group or session, and a last thread leaves only if the zombies it makes have someone to collect them.
def JobsPermit (t : ProcessTable) : ProcessCall → Prop
  | .create _ _ => t.FreshPid
  | .fork _ _ => t.FreshPid
  | .exitThread pid _ => ∀ process ∈ t.find pid, process.threadCount = 1 → process.pid ≠ 0 → MayExit t process
  | _ => True

instance (t : ProcessTable) : (call : ProcessCall) → Decidable (JobsPermit t call)
  | .create .. | .fork .. => inferInstanceAs (Decidable t.FreshPid)
  | .exitThread pid _ => inferInstanceAs (Decidable (∀ process ∈ t.find pid, _ → _ → MayExit t process))
  | .addThread .. | .setpgid .. | .setsid .. | .wait .. | .destroy .. => .isTrue trivial

theorem process_step_sound {call : ProcessCall} (permit : JobsPermit t call) :
    ∃ next, processStep t call = .ok next ∧ JobsSound next := by
  cases call with
  | create ownsVas opened => exact ⟨_, rfl, create_sound ownsVas opened permit sound⟩
  | addThread pid =>
    refine ⟨_, rfl, modify_sound pid (fun p => ?_) (fun p => ?_) sound⟩
    · split
      · exact alike_refl p
      · exact ⟨rfl, rfl, rfl, fun able => ⟨able.1, able.2.1, Nat.succ_pos _⟩⟩
    · split <;> exact ⟨rfl, rfl⟩
  | fork parent opened =>
    simp only [processStep]
    cases found : t.find parent with
    | none => exact ⟨t, rfl, sound⟩
    | some process => exact fork_sound opened (find_mem found).1 permit sound
  | setpgid caller pid pgid =>
    simp only [processStep]
    cases found : t.find caller with
    | none => exact ⟨t, rfl, sound⟩
    | some process =>
      refine ⟨_, rfl, ?_⟩
      cases done : schedProcessSetpgid t process pid pgid with
      | error errno => exact sound
      | ok after => exact setpgid_sound sound done
  | setsid caller =>
    simp only [processStep]
    cases found : t.find caller with
    | none => exact ⟨t, rfl, sound⟩
    | some process =>
      refine ⟨_, rfl, ?_⟩
      cases done : schedProcessSetsid t process with
      | error errno => exact sound
      | ok after => exact setsid_sound sound done
  | exitThread pid status =>
    simp only [processStep]
    cases found : t.find pid with
    | none => exact ⟨t, rfl, sound⟩
    | some process =>
      exact ⟨_, rfl, thread_finish_sound sound status (find_mem found).1 (permit process found)⟩
  | wait parent pid options =>
    simp only [processStep]
    cases found : t.find parent with
    | none => exact ⟨t, rfl, sound⟩
    | some process =>
      obtain ⟨result, done, safe⟩ := wait_sound sound process pid options
      dsimp only
      rw [done]
      exact ⟨result.1, rfl, safe⟩
  | destroy pid =>
    simp only [processStep]
    cases found : t.find pid with
    | none => exact ⟨t, rfl, sound⟩
    | some process =>
      dsimp only
      split
      · rename_i idle
        obtain ⟨inside, number⟩ := find_mem found
        exact number ▸ destroy_sound inside (fun able => by simpa [idle.1] using able.2.2) sound
      · exact ⟨t, rfl, sound⟩

end

theorem boot_table_sound (cpuCount : Nat) : JobsSound (bootTable cpuCount) := by
  refine ⟨⟨?_, ?_, ?_⟩, ?_, ⟨?_, ?_, ?_, ?_, ?_⟩⟩ <;> exact of_decide_eq_true rfl

theorem jobs_stay_orderly (cpuCount : Nat) (calls : List ProcessCall)
    (permit : Permitted processStep JobsPermit (bootTable cpuCount) calls) :
    (∃ final, run processStep (bootTable cpuCount) calls = .ok final) ∧
      Always processStep (fun t => JobsOrderly t.list) (bootTable cpuCount) calls := by
  have each : ∀ t call, JobsSound t → JobsPermit t call → ∃ next, processStep t call = .ok next ∧ JobsSound next ∧ True := by
    intro t call sound permit
    obtain ⟨next, done, safe⟩ := process_step_sound sound permit
    exact ⟨next, done, safe, trivial⟩
  obtain ⟨ends, always, _⟩ := permitted_steps each (boot_table_sound cpuCount) jobs_sound_orderly permit
  exact ⟨ends, always⟩

theorem shell_jobs_stay_orderly : Always processStep (fun t => JobsOrderly t.list) (bootTable 1)
    [.create true true, .addThread 2, .fork 2 true, .setsid 3, .fork 3 true, .setpgid 3 4 0, .exitThread 4 0, .wait 3 (-1) 0] :=
  (jobs_stay_orderly 1 _ (by decide +kernel)).2

def orphanRun : List ProcessCall :=
  [.create true true, .addThread 2, .fork 2 true, .fork 3 true, .exitThread 3 0, .wait 2 (-1) 0, .exitThread 4 0]

def reusedLeaderRun : List ProcessCall :=
  [.create true true, .addThread 2, .fork 2 true, .setsid 3, .fork 3 true, .setpgid 4 0 0, .exitThread 3 0, .wait 2 (-1) 0,
    .fork 4 true]

def reusedGroupRun : List ProcessCall :=
  [.create true true, .addThread 2, .fork 2 true, .setpgid 3 0 0, .fork 3 true, .exitThread 3 0, .wait 2 (-1) 0, .create true true]

-- A zombie left to lyr-kernel, a reused session number, and a session with the number of a living group.
theorem jobs_get_out_of_order : (∃ t, run processStep (bootTable 1) orphanRun = .ok t ∧ ¬Collected t.list) ∧
    (∃ t, run processStep (bootTable 1) reusedLeaderRun = .ok t ∧ ∃ p ∈ t.list, p.pid = p.sid ∧ p.pgid ≠ p.pid) ∧
    (∃ t, run processStep (bootTable 1) reusedGroupRun = .ok t ∧ ∃ p ∈ t.list, ∃ q ∈ t.list, p.pgid = q.pgid ∧ p.sid ≠ q.sid) := by
  refine ⟨⟨_, rfl, ?_⟩, ⟨_, rfl, ?_⟩, ⟨_, rfl, ?_⟩⟩
  · decide +kernel
  · decide +kernel
  · decide +kernel

end Lyr.Sched
