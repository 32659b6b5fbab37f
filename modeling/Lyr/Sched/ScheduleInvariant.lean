import Lyr.Sched.RunQueueInvariant

set_option autoImplicit false

namespace Lyr.Sched

open Lyr.Lib

variable {s after : Machine} {c next id cpuCount : Nat} {queue loose dispatched : List Nat} {enqueue : Bool} {t : Tcb}

theorem queue_bound (numbered : Numbered s) (sound : CpuQueue s c queue loose) : queue.length ≤ s.nextThread := by
  have inside : queue ⊆ List.range s.nextThread := by
    intro id queued
    obtain ⟨t, live, _⟩ := sound.ready id queued
    by_contra high
    rw [List.mem_range, not_lt] at high
    rw [numbered.fresh id high] at live
    cases live
  have shorter := ((List.nodup_append.mp sound.nodup).1.subperm inside).length_le
  rwa [List.length_range] at shorter

theorem running_cases (sound : CpuQueue s c queue loose) :
    ∃ t, s.threads (s.cpus c).currentThread = some t ∧ t.cpu = some c ∧
      ((t.isIdle = false ∧ t.state = .running ∧ runningOf s c = [(s.cpus c).currentThread]) ∨
        (¬ (t.isIdle = false ∧ t.state = .running) ∧ runningOf s c = [])) := by
  obtain ⟨t, live, on⟩ := sound.current
  refine ⟨t, live, on, ?_⟩
  by_cases runs : t.isIdle = false ∧ t.state = .running
  · exact .inl ⟨runs.1, runs.2, by simp only [runningOf, live, if_pos runs]⟩
  · exact .inr ⟨runs, by simp only [runningOf, live, if_neg runs]⟩

theorem running_nil {s : Machine} {c : Nat} {queue : List Nat} (sound : CpuQueue s c queue []) : runningOf s c = [] := by
  obtain ⟨t, live, on, ⟨busy, state, _⟩ | ⟨_, none⟩⟩ := running_cases sound
  · rcases sound.covers _ t live on busy (by rw [state]; decide) with queued | free
    · obtain ⟨t', live', ready, _⟩ := sound.ready _ queued
      rw [live, Option.some.injEq] at live'
      rw [← live', state] at ready
      cases ready
    · cases free
  · exact none

structure Steps (c : Nat) (s after : Machine) : Prop where
  leaves : Leaves c s after
  numbered : Numbered after
  settled : Settled after c
  count : after.cpuCount = s.cpuCount

theorem works_steps (works : Works s after c queue [] queue.length)
    (apart : (s.cpus c).currentThread ∉ queue) : Steps c s after := by
  refine ⟨works.leaves, works.numbered, ⟨queue, ?_⟩, works.count⟩
  rw [running_nil works.sound, works.current]
  exact ⟨works.sound, works.load, apart⟩

theorem steps_trans {middle : Machine} (first : Leaves c s middle) (count : middle.cpuCount = s.cpuCount)
    (second : Steps c middle after) : Steps c s after :=
  ⟨leaves_trans c s middle after first second.leaves, second.numbered, second.settled, second.count.trans count⟩

theorem finish_dying_works (numbered : Numbered s) (settled : Settled s c) :
    ∃ after, finishDying s c = .ok after ∧ Steps c s after ∧ (runningOf s c = [] → runningOf after c = []) := by
  obtain ⟨queue, sound, load, apart⟩ := settled
  obtain ⟨t, live, on, runs⟩ := running_cases sound
  have turn : finishDying s c = if t.isIdle = false ∧ t.state = .running ∧ (s.processes t.process).dying = true
      then threadFinish s c (s.cpus c).currentThread else .ok s := by
    rw [finishDying, thread_ok live]
    rfl
  rw [turn]
  split
  next ends =>
    obtain ⟨_, _, running⟩ | ⟨idle, _⟩ := runs
    · rw [running] at sound load
      obtain ⟨after, finished, works⟩ := finish_works sound numbered List.mem_cons_self
      rw [List.erase_cons_head, load] at works
      exact ⟨after, finished, works_steps works apart, fun _ => running_nil works.sound⟩
    · exact absurd ⟨ends.1, ends.2.1⟩ idle
  · exact ⟨s, rfl, ⟨leaves_refl c s, numbered, ⟨queue, sound, load, apart⟩, rfl⟩, fun none => none⟩

theorem enqueue_works (numbered : Numbered s) (settled : Settled s c) (complete : enqueue = true ∨ runningOf s c = []) :
    ∃ after queue, enqueueCurrent s c enqueue = .ok after ∧ Works s after c queue [] queue.length := by
  obtain ⟨queue, sound, load, apart⟩ := settled
  obtain ⟨t, live, on, runs⟩ := running_cases sound
  have turn : enqueueCurrent s c enqueue = if enqueue = true ∧ t.isIdle = false ∧ t.state = .running
      then runqPush (s.setThread (s.cpus c).currentThread (t.enter .ready)) c (s.cpus c).currentThread else .ok s := by
    rw [enqueueCurrent, thread_ok live]
    rfl
  obtain ⟨busy, state, running⟩ | ⟨idle, running⟩ := runs
  · have wanted : enqueue = true := by
      rcases complete with wanted | none
      · exact wanted
      · rw [running] at none
        cases none
    rw [running] at sound load
    have readied : CpuQueue (s.setThread (s.cpus c).currentThread (t.enter .ready)) c queue [(s.cpus c).currentThread] :=
      loose_kept sound List.mem_cons_self on busy TcbState.noConfusion
    obtain ⟨after, pushed, works⟩ := push_works (numbered_set_thread _ live numbered) readied List.mem_cons_self
      (set_thread_self s _ _) rfl
    have left := leaves_set_thread c s (s.cpus c).currentThread (t.enter .ready) on
      (fun old there => .inl (by rw [live, Option.some.injEq] at there; exact there ▸ on))
    rw [List.erase_cons_head] at works
    refine ⟨after, _, by rw [turn, if_pos ⟨wanted, busy, state⟩]; exact pushed, leaves_trans c s _ after left works.leaves,
      works.numbered,
      works.sound, ?_, works.current, works.idle, works.count⟩
    rw [works.load, List.length_append]
    exact load
  · rw [running] at sound load
    exact ⟨s, queue, by rw [turn, if_neg (fun all => idle all.2)], leaves_refl c s, numbered, sound, load, rfl, rfl, rfl⟩

def Cpu.dispatch (cpu : Cpu) (next : Nat) (dispatched : List Nat) : Cpu :=
  { cpu with currentThread := next, dispatched := dispatched }

theorem dispatch_sound (s : Machine) (c next : Nat) (queue loose dispatched : List Nat) (t : Tcb) (sound : CpuQueue s c queue loose)
    (live : s.threads next = some t) (on : t.cpu = some c) (order : dispatched.Sublist (s.cpus c).popped) :
    CpuQueue (s.setCpu c ((s.cpus c).dispatch next dispatched)) c queue loose := by
  exact requeue_sound sound (fun _ => rfl) ⟨t, live, on⟩ rfl sound.reap sound.chain sound.tail (.refl _)
    (queued_ready sound) sound.fifo order

def Machine.switched (s : Machine) (c next : Nat) (t : Tcb) (dispatched : List Nat) : Machine :=
  (s.setThread next (t.enter .running)).setCpu c ((s.cpus c).dispatch next dispatched)

section

variable (live : s.threads next = some t)
include live

theorem take_next_eq (c prev : Nat) :
    takeNext s c prev next = if next = prev ∧ t.state = .running then .ok s
      else .ok (s.switched c next t (if t.isIdle then (s.cpus c).dispatched else (s.cpus c).dispatched ++ [next])) := by
  rw [takeNext, switchToThread, thread_ok live]
  rfl

theorem switched_leaves (on : t.cpu = some c) : Leaves c s (s.switched c next t dispatched) := by
  refine leaves_trans c s _ _ (leaves_set_thread c s next (t.enter .running) on (fun old there => .inl ?_)) (leaves_set_cpu c _ _)
  rw [live, Option.some.injEq] at there
  exact there ▸ on

theorem switched_numbered (c : Nat) (numbered : Numbered s) : Numbered (s.switched c next t dispatched) := by
  have kept := numbered_set_thread (t.enter .running) live numbered
  exact ⟨kept.null, kept.fresh⟩

theorem take_queued_steps (prev : Nat) {rest front : List Nat} (numbered : Numbered s)
    (sound : CpuQueue s c rest [next]) (load : (s.cpus c).schedLoad = rest.length + 1) (state : t.state = .ready)
    (busy : t.isIdle = false) (history : (s.cpus c).popped = front ++ [next]) (order : (s.cpus c).dispatched.Sublist front) :
    ∃ after, takeNext s c prev next = .ok after ∧ Steps c s after := by
  obtain ⟨t', live', _, on, _⟩ := sound.moving next List.mem_cons_self
  obtain rfl : t = t' := Option.some.inj (live.symm.trans live')
  have entered : CpuQueue (s.setThread next (t.enter .running)) c rest
    [next] := loose_kept sound List.mem_cons_self on busy TcbState.noConfusion
  have there := set_thread_self s next (t.enter .running)
  have runs (dispatched : List Nat) : runningOf (s.switched c next t dispatched) c = [next] := by
    have current : ((s.switched c next t dispatched).cpus c).currentThread = next := by
      rw [Machine.switched, set_cpu_self]
      rfl
    have same : (s.switched c next t dispatched).threads next = some (t.enter .running) := there
    rw [runningOf, current]
    simp only [same, Tcb.enter, busy, and_self, if_true]
  refine ⟨s.switched c next t ((s.cpus c).dispatched ++ [next]), ?_, switched_leaves live on, switched_numbered live c numbered,
    ⟨rest, ?_⟩, rfl⟩
  · rw [take_next_eq live c prev, if_neg (fun both => by rw [state] at both; cases both.2), busy]
    rfl
  rw [runs, Machine.switched, set_cpu_self]
  refine ⟨dispatch_sound (s.setThread next (t.enter .running)) c next rest [next] _ (t.enter .running) entered there on ?_, load,
    loose_absent sound List.mem_cons_self⟩
  have popped : ((s.setThread next (t.enter .running)).cpus c).popped = front ++ [next] := history
  rw [popped]
  exact order.append (List.Sublist.refl [next])

end

theorem idle_set_thread {old : Tcb} (thread : Tcb) (sound : CpuQueue s c queue loose) (live : s.threads id = some old)
    (was : old.isIdle = true)
    (on : thread.cpu = some c) (idle : thread.isIdle = true) : CpuQueue (s.setThread id thread) c queue loose := by
  have absent (inside : ∃ t, s.threads id = some t ∧ t.isIdle = false) : False := by
    obtain ⟨t, there, busy⟩ := inside
    rw [live, Option.some.injEq] at there
    rw [← there, was] at busy
    cases busy
  refine set_thread_sound loose sound (fun queued => absent ?_) (fun t there => .inr ?_) on (fun _ => idle) sound.nodup
    (fun _ _ => Iff.rfl)
    ⟨fun free => (absent ?_).elim, fun now => by rw [idle] at now; cases now.2⟩
  · obtain ⟨t, there, _, _, busy⟩ := sound.ready id queued
    exact ⟨t, there, busy⟩
  · rw [live, Option.some.injEq] at there
    exact there ▸ was
  · obtain ⟨t, there, _, _, busy⟩ := sound.moving id free
    exact ⟨t, there, busy⟩

theorem take_idle_steps (prev : Nat) (numbered : Numbered s) (sound : CpuQueue s c [] [])
    (load : (s.cpus c).schedLoad = 0) : ∃ after, takeNext s c prev (s.cpus c).idleThread = .ok after ∧ Steps c s after := by
  obtain ⟨t, live, on, idle⟩ := sound.idle
  rw [take_next_eq live c prev]
  split
  · exact ⟨s, rfl, works_steps ⟨leaves_refl c s, numbered, sound, load, rfl, rfl, rfl⟩ List.not_mem_nil⟩
  have entered := idle_set_thread (t.enter .running) sound live idle on idle
  have there := set_thread_self s (s.cpus c).idleThread (t.enter .running)
  have after := dispatch_sound (s.setThread (s.cpus c).idleThread (t.enter .running)) c _ [] [] (s.cpus c).dispatched
    (t.enter .running)
    entered there on sound.order
  refine ⟨_, rfl, switched_leaves live on, switched_numbered live c numbered, ⟨[], ?_⟩, rfl⟩
  rw [@running_nil (s.switched c _ t _) c [] after, Machine.switched, set_cpu_self]
  exact ⟨after, load, List.not_mem_nil⟩

theorem schedule_steps (numbered : Numbered s) (settled : Settled s c)
    (complete : enqueue = true ∨ runningOf s c = []) : ∃ after, scheduleLocked s c enqueue = .ok after ∧ Steps c s after := by
  obtain ⟨ended, finished, first, stays⟩ := finish_dying_works numbered settled
  obtain ⟨whole, queue, enqueued, second⟩ := enqueue_works first.numbered first.settled (complete.imp_right stays)
  obtain ⟨popped, next, looped, result⟩ := pop_ready_works queue whole second.numbered second.sound second.load
    (queue_bound second.numbered second.sound)
  have turn : scheduleLocked s c enqueue = takeNext popped c (s.cpus c).currentThread
    (if next = 0 then (popped.cpus c).idleThread else next) := by
    simp only [scheduleLocked, finished, enqueued, looped, bind, Except.bind]
  have left := leaves_trans c s ended whole first.leaves second.leaves
  have count := second.count.trans first.count
  rw [turn]
  rcases result with ⟨none, works⟩ | ⟨rest, front, t, works, nonzero, live, state, busy, history, order⟩
  · obtain ⟨after, taken, steps⟩ := take_idle_steps (s.cpus c).currentThread works.numbered works.sound works.load
    rw [if_pos none]
    exact ⟨after, taken, steps_trans (leaves_trans c s whole popped left works.leaves) (works.count.trans count) steps⟩
  obtain ⟨after, taken, steps⟩ := take_queued_steps live
    (s.cpus c).currentThread works.numbered works.sound works.load state busy history order
  rw [if_neg nonzero]
  exact ⟨after, taken, steps_trans (leaves_trans c s whole popped left works.leaves) (works.count.trans count) steps⟩

theorem current_running {same : Machine} (current : (same.cpus c).currentThread = (s.cpus c).currentThread)
    (thread : same.threads (s.cpus c).currentThread = s.threads (s.cpus c).currentThread) : runningOf same c = runningOf s c := by
  rw [runningOf, runningOf, current, thread]

theorem reap_steps (numbered : Numbered s) (settled : Settled s c) : Steps c s (schedReapCurrentCpu s c) := by
  obtain ⟨queue, sound, load, apart⟩ := settled
  have cpu : (schedReapCurrentCpu s c).cpus c =
      { s.cpus c with reap := (s.cpus c).reap.filter (· = (s.cpus c).currentThread) } := Function.update_self ..
  have kept (id : Nat) (stays : id ∉ (s.cpus c).reap ∨ id = (s.cpus c).currentThread) :
    (schedReapCurrentCpu s c).threads id = s.threads id := by
    refine if_neg (fun gone => ?_)
    obtain ⟨listed, apart⟩ := List.mem_filter.mp gone
    rcases stays with absent | same
    · exact absent listed
    · simp [same] at apart
  have freed (id : Nat) (t : Tcb) (live : (schedReapCurrentCpu s c).threads id = some t) : s.threads id = some t := by
    simp only [schedReapCurrentCpu] at live
    split at live
    · cases live
    · exact live
  have alive (id : Nat) (t : Tcb) (live : s.threads id = some t) (other : t.state ≠ .zombie ∨ t.cpu ≠ some c ∨ t.isIdle = true) :
      (schedReapCurrentCpu s c).threads id = some t := by
    refine (kept id (.inl (fun listed => ?_))).trans live
    obtain ⟨z, there, state, on, busy⟩ := sound.reap id listed
    rw [live, Option.some.injEq] at there
    rw [← there] at state on busy
    rcases other with alive | away | idle
    · exact alive state
    · exact away on
    · rw [idle] at busy
      cases busy
  have current := kept _ (.inr rfl)
  refine ⟨⟨fun d other => Function.update_of_ne other _ _, fun id t d on other => ⟨freed id t,
    fun live => alive id t live (.inr (.inl ?_))⟩⟩,
    ⟨?_, fun id high => ?_⟩, ⟨queue, ?_⟩, rfl⟩
  · rw [on, ne_eq, Option.some.injEq]
    exact other
  · exact Option.eq_none_iff_forall_ne_some.mpr (fun t live => by cases (numbered.null.symm.trans (freed 0 t live)))
  · exact Option.eq_none_iff_forall_ne_some.mpr (fun t live => by cases ((numbered.fresh id high).symm.trans (freed id t live)))
  rw [current_running (by rw [cpu]) current, cpu]
  refine ⟨⟨?_, by rw [cpu]; exact sound.tail, sound.nodup, fun id inside => ?_, fun id inside => ?_, fun id t live => ?_, ?_, ?_,
    fun id inside => ?_, by rw [cpu]; exact sound.fifo, by rw [cpu]; exact sound.order⟩, load, apart⟩
  · rw [cpu]
    refine chain_congr _ (fun id inside => ?_) sound.chain
    obtain ⟨t, live, state, _⟩ := sound.ready id inside
    rw [next_of live, next_of (alive id t live (.inl (by rw [state]; decide)))]
  · obtain ⟨t, live, state, rest⟩ := sound.ready id inside
    exact ⟨t, alive id t live (.inl (by rw [state]; decide)), state, rest⟩
  · obtain ⟨t, live, state, rest⟩ := sound.moving id inside
    exact ⟨t, alive id t live (.inl state), state, rest⟩
  · exact sound.covers id t (freed id t live)
  · rw [cpu]
    obtain ⟨t, live, on, idle⟩ := sound.idle
    exact ⟨t, alive _ t live (.inr (.inr idle)), on, idle⟩
  · rw [cpu]
    obtain ⟨t, live, on⟩ := sound.current
    exact ⟨t, current.trans live, on⟩
  rw [cpu] at inside
  obtain ⟨listed, same⟩ := List.mem_filter.mp inside
  obtain ⟨t, live, rest⟩ := sound.reap id listed
  exact ⟨t, (kept id (.inr (of_decide_eq_true same))).trans live, rest⟩

theorem place_fresh {thread : Tcb} (sound : CpuQueue s c queue loose)
    (fresh : s.threads id = none) (on : thread.cpu = some c) (busy : thread.isIdle = false) (state : thread.state ≠ .zombie) :
    CpuQueue (s.setThread id thread) c queue (id :: loose) := by
  have dead (t : Tcb) (there : s.threads id = some t) : False := by
    rw [fresh] at there
    cases there
  have absent : id ∉ queue := fun queued => by
    obtain ⟨t, there, _⟩ := sound.ready id queued
    exact dead t there
  have new : id ∉ loose := fun free => by
    obtain ⟨t, there, _⟩ := sound.moving id free
    exact dead t there
  refine set_thread_sound _ sound absent (fun t there => (dead t there).elim) on (fun same => ?_) ?_ (fun other apart => ?_)
    ⟨fun _ => ⟨state, busy⟩, fun _ => List.mem_cons_self⟩
  · obtain ⟨t, there, _⟩ := sound.idle
    exact (dead t (same ▸ there)).elim
  · exact List.perm_middle.nodup_iff.mpr (List.nodup_cons.mpr ⟨by simp [absent, new], sound.nodup⟩)
  · simp [apart]

theorem alloc_frame {made : Machine} {pid : Nat} (allocated : threadAlloc s pid = some made) :
    made.threads = Function.update s.threads s.nextThread (some ⟨.ready, none, false, pid, 0⟩) ∧ made.cpus = s.cpus ∧
      made.nextThread = s.nextThread + 1 ∧ made.cpuCount = s.cpuCount := by
  simp only [threadAlloc] at allocated
  split at allocated
  · cases allocated
  · cases allocated
    exact ⟨rfl, rfl, rfl, rfl⟩

theorem relinked_running (relinked : Relinked s after) (live : s.threads (s.cpus c).currentThread = some t)
    (current : (after.cpus c).currentThread = (s.cpus c).currentThread) : runningOf after c = runningOf s c := by
  obtain ⟨now, there, state, idle⟩ : ∃ now, after.threads (s.cpus c).currentThread = some now ∧ now.state = t.state ∧
    now.isIdle = t.isIdle :=
    relinked_has relinked (fun _ => Iff.rfl) ⟨t, live, rfl, rfl⟩
  rw [runningOf, runningOf, current, live, there]
  simp only [state, idle]

theorem create_steps (pid : Nat) (numbered : Numbered s) (settled : Settled s c) :
    ∃ after, schedCreateThreadOnCpu s pid c = .ok after ∧ Steps c s after := by
  obtain ⟨queue, sound, load, apart⟩ := settled
  cases allocated : threadAlloc s pid with
  | none => exact ⟨s, by rw [schedCreateThreadOnCpu, allocated], leaves_refl c s, numbered, ⟨queue, sound, load, apart⟩, rfl⟩
  | some made =>
    obtain ⟨threads, cpus, number, count⟩ := alloc_frame allocated
    obtain ⟨thread, isNew⟩ : ∃ thread : Tcb, thread = ⟨.ready, some c, false, pid, 0⟩ := ⟨_, rfl⟩
    obtain ⟨placed, isPlaced⟩ : ∃ placed, placed = made.setThread s.nextThread thread := ⟨_, rfl⟩
    have placedThreads : placed.threads = (s.setThread s.nextThread thread).threads := by
      rw [isPlaced, Machine.setThread, Machine.setThread, threads, Function.update_idem]
    have placedCpus : placed.cpus = (s.setThread s.nextThread thread).cpus := by
      rw [isPlaced]
      exact cpus
    have fresh := numbered.fresh s.nextThread (Nat.le_refl _)
    obtain ⟨running, runs, _⟩ := sound.current
    have older : (s.cpus c).currentThread < s.nextThread := by
      by_contra high
      rw [numbered.fresh _ (not_lt.mp high)] at runs
      cases runs
    have left : Leaves c s placed := by
      have set := leaves_set_thread c s s.nextThread thread (by rw [isNew]) (fun old there => by rw [fresh] at there; cases there)
      exact ⟨by rw [placedCpus]; exact set.cpus, by rw [placedThreads]; exact set.threads⟩
    have placedNumbered : Numbered placed := by
      have high : placed.nextThread = s.nextThread + 1 := by rw [isPlaced]; exact number
      refine ⟨?_, fun id above => ?_⟩
      · rw [placedThreads, set_thread_other s thread (by omega), numbered.null]
      · rw [placedThreads, set_thread_other s thread (by omega), numbered.fresh id (by omega)]
    have placedSound : CpuQueue placed c queue (s.nextThread :: runningOf s c) :=
      cpu_queue_congr _ placed c queue _ placedThreads placedCpus
      (place_fresh sound fresh (by rw [isNew]) (by rw [isNew]) (by rw [isNew]; exact TcbState.noConfusion))
    have placedLive : placed.threads s.nextThread = some thread := by rw [placedThreads, set_thread_self]
    have placedCurrent : (placed.cpus c).currentThread = (s.cpus c).currentThread := by rw [placedCpus]; rfl
    have currentLive : placed.threads (s.cpus c).currentThread = some running := by
      rw [placedThreads, set_thread_other s thread (by omega), runs]
    obtain ⟨after, linked, works, relinked⟩ := link_works placedNumbered placedSound List.mem_cons_self placedLive (by rw [isNew])
      (by rw [isNew])
    rw [List.erase_cons_head] at works
    have same : runningOf (after.setCpu c { after.cpus c with schedLoad := (after.cpus c).schedLoad + 1 }) c = runningOf s c := by
      rw [← current_running placedCurrent (currentLive.trans runs.symm)]
      refine relinked_running relinked (placedCurrent ▸ currentLive) ?_
      rw [set_cpu_self]
      exact works.current
    refine ⟨after.setCpu c { after.cpus c with schedLoad := (after.cpus c).schedLoad + 1 }, ?_,
      leaves_trans c s after _ (leaves_trans c s placed after left works.leaves) (leaves_set_cpu c after _),
      ⟨works.numbered.null, works.numbered.fresh⟩, ⟨queue ++ [s.nextThread], ?_⟩, works.count.trans ?_⟩
    · have pushed : runqPush made c s.nextThread = runqLink placed c s.nextThread := by
        rw [runqPush, thread_ok (by rw [threads, Function.update_self]), isPlaced, isNew]
        rfl
      simp only [schedCreateThreadOnCpu, allocated, pushed, linked, bind, Except.bind]
    · rw [same, set_cpu_self]
      refine ⟨cpu_queue_reap works.sound works.sound.reap, ?_, ?_⟩
      · have before : (placed.cpus c).schedLoad = queue.length + (runningOf s c).length := by
          rw [placedCpus]
          exact load
        simp only [works.load, before, List.length_append, List.length_singleton]
        omega
      · rw [works.current, placedCurrent, List.mem_append, List.mem_singleton]
        exact fun inside => inside.elim apart (fun new => by omega)
    · rw [isPlaced]
      exact count

theorem exit_steps {leave : Machine → Except SchedFault Machine} (numbered : Numbered s) (settled : Settled s c)
    (left : ∀ ended, Numbered ended → Settled ended c → runningOf ended c = [] → ∃ after,
      leave ended = .ok after ∧ Steps c ended after) :
    ∃ after, currentExits s c leave = .ok after ∧ Steps c s after := by
  obtain ⟨queue, sound, load, apart⟩ := settled
  obtain ⟨t, live, on, runs⟩ := running_cases sound
  have turn : currentExits s c leave = if t.isIdle then .ok s else threadFinish s c (s.cpus c).currentThread >>= leave := by
    rw [currentExits, thread_ok live]
    rfl
  rw [turn]
  split
  · exact ⟨s, rfl, leaves_refl c s, numbered, ⟨queue, sound, load, apart⟩, rfl⟩
  next busy =>
    rw [Bool.not_eq_true] at busy
    obtain ⟨_, _, running⟩ | ⟨idle, running⟩ := runs
    · rw [running] at sound load
      obtain ⟨ended, finished, works⟩ := finish_works sound numbered List.mem_cons_self
      rw [List.erase_cons_head, load] at works
      have steps := works_steps works apart
      obtain ⟨after, done, later⟩ := left ended works.numbered steps.settled (running_nil works.sound)
      exact ⟨after, by rw [finished]; exact done, steps_trans works.leaves works.count later⟩
    -- It has ended before, and its second end changes nothing.
    have zombie : t.state = .zombie := by
      by_contra alive
      rw [running] at sound
      exact (sound.covers _ t live on busy alive).elim apart List.not_mem_nil
    obtain ⟨after, done, later⟩ := left s numbered ⟨queue, sound, load, apart⟩ running
    refine ⟨after, ?_, later⟩
    rw [threadFinish, thread_ok live]
    simp only [bind, Except.bind, zombie, if_true]
    exact done

structure Sound (cpuCount : Nat) (s : Machine) : Prop where
  count : s.cpuCount = cpuCount
  numbered : Numbered s
  settled : ∀ c, c < cpuCount → Settled s c

theorem steps_sound (sound : Sound cpuCount s) (steps : Steps c s after) : Sound cpuCount after := by
  refine ⟨steps.count.trans sound.count, steps.numbered, fun d inside => ?_⟩
  by_cases same : d = c
  · exact same ▸ steps.settled
  · exact settled_leaves same steps.leaves (sound.settled d inside)

theorem kill_sound (pid : Nat) {process : Pcb} (sound : Sound cpuCount s) : Sound cpuCount (s.setProcess pid process) := by
  refine ⟨sound.count, ⟨sound.numbered.null, sound.numbered.fresh⟩, fun c inside => ?_⟩
  obtain ⟨queue, queued, rest⟩ := sound.settled c inside
  exact ⟨queue, cpu_queue_congr s (s.setProcess pid process) c queue _ rfl rfl queued, rest⟩

theorem sched_step_sound (s : Machine) (event : SchedEvent) (sound : Sound cpuCount s) :
    ∃ after, schedStep s event = .ok after ∧ Sound cpuCount after := by
  -- An event of a CPU that there is not changes nothing.
  have onCpu (c : Nat) (body : Except SchedFault Machine) (works : Settled s c → ∃ after, body = .ok after ∧ Steps c s after) :
      ∃ after, (if c < s.cpuCount then body else .ok s) = .ok after ∧ Sound cpuCount after := by
    split
    next inside =>
      obtain ⟨after, done, steps⟩ := works (sound.settled c (sound.count ▸ inside))
      exact ⟨after, done, steps_sound sound steps⟩
    · exact ⟨s, rfl, sound⟩
  cases event with
  | create pid c => exact onCpu c _ (create_steps pid sound.numbered)
  | tick c locked =>
    refine onCpu c _ (fun settled => ?_)
    have reaped := reap_steps sound.numbered settled
    cases locked with
    | false => exact ⟨_, rfl, reaped⟩
    | true =>
      obtain ⟨after, done, steps⟩ := schedule_steps reaped.numbered reaped.settled (.inl rfl)
      exact ⟨after, done, steps_trans reaped.leaves reaped.count steps⟩
  | exit c =>
    exact onCpu c _ (fun settled => exit_steps sound.numbered settled
      (fun ended numbered settled none => schedule_steps numbered settled (.inr none)))
  | threadExit c =>
    exact onCpu c _ (fun settled => exit_steps sound.numbered settled
      (fun ended numbered settled _ => ⟨ended, rfl, leaves_refl c ended, numbered, settled, rfl⟩))
  | kill pid => exact ⟨_, rfl, kill_sound pid sound⟩
  | reap c => exact onCpu c _ (fun settled => ⟨_, rfl, reap_steps sound.numbered settled⟩)

theorem init_threads (live : (schedInit cpuCount).threads id = some t) :
    (id = 1 ∧ t = ⟨.running, some 0, false, 1, 0⟩) ∨ (2 ≤ id ∧ id < cpuCount + 2 ∧ t = ⟨.ready, some (id - 2), true, 0, 0⟩) := by
  simp only [schedInit] at live
  split at live
  next first => exact .inl ⟨first, (Option.some.inj live).symm⟩
  split at live
  next idle => exact .inr ⟨idle.1, idle.2, (Option.some.inj live).symm⟩
  · cases live

theorem init_idle (inside : c < cpuCount) : (schedInit cpuCount).threads (c + 2) = some ⟨.ready, some c, true, 0, 0⟩ := by
  simp only [schedInit]
  rw [if_neg (by omega), if_pos (by omega), Nat.add_sub_cancel]

theorem init_running (inside : c < cpuCount) : runningOf (schedInit cpuCount) c = if c = 0 then [1] else [] := by
  by_cases boot : c = 0
  · subst boot
    rfl
  have current : ((schedInit cpuCount).cpus c).currentThread = c + 2 := if_neg boot
  rw [runningOf, current, init_idle inside, if_neg boot]
  rfl

theorem sched_init_sound (cpuCount : Nat) : Sound cpuCount (schedInit cpuCount) := by
  refine ⟨rfl, ⟨rfl, fun id high => ?_⟩, fun c inside => ⟨[], ?_, ?_, List.not_mem_nil⟩⟩
  · refine Option.eq_none_iff_forall_ne_some.mpr (fun t live => ?_)
    have above : cpuCount + 2 ≤ id := high
    rcases init_threads live with ⟨first, _⟩ | ⟨_, below, _⟩ <;> omega
  · rw [init_running inside]
    refine ⟨rfl, rfl, ?_, nofun, fun id running => ?_, fun id t live on busy _ => .inr ?_,
      ⟨_, init_idle inside, rfl, rfl⟩, ?_,
      nofun, rfl, List.Sublist.refl []⟩
    · split
      · exact List.nodup_singleton 1
      · exact List.nodup_nil
    · split at running
      next boot =>
        subst boot
        rw [List.mem_singleton.mp running]
        exact ⟨_, rfl, TcbState.noConfusion, rfl, rfl⟩
      · cases running
    · rcases init_threads live with ⟨rfl, rfl⟩ | ⟨_, _, rfl⟩
      · cases on
        exact List.mem_cons_self
      · cases busy
    by_cases boot : c = 0
    · subst boot
      exact ⟨_, rfl, rfl⟩
    have current : ((schedInit cpuCount).cpus c).currentThread = c + 2 := if_neg boot
    rw [current]
    exact ⟨_, init_idle inside, rfl⟩
  rw [init_running inside]
  have load : ((schedInit cpuCount).cpus c).schedLoad = if c = 0 then 1 else 0 := rfl
  rw [load]
  split
  · rfl
  · rfl

def Machine.assigned (s : Machine) (c id : Nat) : Prop :=
  ∃ t, s.threads id = some t ∧ t.cpu = some c ∧ t.isIdle = false ∧ t.state ≠ .zombie

structure RunQueue (s : Machine) (c : Nat) (queue : List Nat) : Prop where
  chain : Chain s.next (s.cpus c).runqHead queue
  tail : (s.cpus c).runqTail = queue.getLast?.getD 0
  members : ∀ id ∈ queue, s.assigned c id
  placed : ∀ id t, s.threads id = some t → s.assigned c id →
    (id = (s.cpus c).currentThread ∧ t.state = .running ∧ queue.count id = 0) ∨ (t.state = .ready ∧ queue.count id = 1)
  fifo : (s.cpus c).pushed = (s.cpus c).popped ++ queue
  order : (s.cpus c).dispatched.Sublist (s.cpus c).popped
  load : (s.cpus c).schedLoad = {id | s.assigned c id}.ncard

theorem settled_run_queue (settled : Settled s c) : ∃ queue, RunQueue s c queue := by
  obtain ⟨queue, sound, load, apart⟩ := settled
  have queueNodup : queue.Nodup := (List.nodup_append.mp sound.nodup).1
  have assigned : {id | s.assigned c id} = ↑(queue ++ runningOf s c).toFinset := by
    ext id
    simp only [Set.mem_ofPred_eq, List.coe_toFinset, List.mem_append]
    constructor
    · rintro ⟨t, live, on, busy, state⟩
      exact sound.covers id t live on busy state
    rintro (queued | free)
    · obtain ⟨t, live, state, on, busy⟩ := sound.ready id queued
      exact ⟨t, live, on, busy, by rw [state]; decide⟩
    · obtain ⟨t, live, state, on, busy⟩ := sound.moving id free
      exact ⟨t, live, on, busy, state⟩
  refine ⟨queue, sound.chain, sound.tail, fun id queued => ?_, fun id t live isAssigned => ?_, sound.fifo, sound.order, ?_⟩
  · obtain ⟨t, live, state, on, busy⟩ := sound.ready id queued
    exact ⟨t, live, on, busy, by rw [state]; decide⟩
  · have inside : id ∈ (↑(queue ++ runningOf s c).toFinset : Set Nat) := assigned ▸ isAssigned
    rw [List.coe_toFinset, Set.mem_ofPred_eq, List.mem_append] at inside
    rcases inside with queued | free
    · obtain ⟨t', live', state, _⟩ := sound.ready id queued
      obtain rfl : t = t' := Option.some.inj (live.symm.trans live')
      exact .inr ⟨state, List.count_eq_one_of_mem queueNodup queued⟩
    obtain ⟨t', live', _, ⟨_, state, running⟩ | ⟨_, none⟩⟩ := running_cases sound
    · rw [running, List.mem_singleton] at free
      rw [← free] at live' apart
      obtain rfl : t = t' := Option.some.inj (live.symm.trans live')
      exact .inl ⟨free, state, List.count_eq_zero.mpr apart⟩
    · rw [none] at free
      cases free
  · rw [assigned, Set.ncard_coe_finset, List.toFinset_card_of_nodup sound.nodup, List.length_append, load]

theorem run_queue_kept (cpuCount : Nat) (events : List SchedEvent) :
    (∃ final, run schedStep (schedInit cpuCount) events = .ok final) ∧
      Always schedStep (fun s => ∀ c, c < cpuCount → ∃ queue, RunQueue s c queue) (schedInit cpuCount) events := by
  exact run_always sched_step_sound (fun s sound c inside => settled_run_queue (sound.settled c inside)) (sched_init_sound cpuCount)

end Lyr.Sched
