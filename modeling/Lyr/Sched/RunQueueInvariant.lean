import Lyr.Sched.RunQueue

set_option autoImplicit false

namespace Lyr.Sched

open Lyr.Lib

def Machine.next (s : Machine) (id : Nat) : Nat := match s.threads id with
  | none => 0
  | some thread => thread.runqNext

-- Those of the queue, and the loose ones being moved or run.
structure CpuQueue (s : Machine) (c : Nat) (queue loose : List Nat) : Prop where
  chain : Chain s.next (s.cpus c).runqHead queue
  tail : (s.cpus c).runqTail = queue.getLast?.getD 0
  nodup : (queue ++ loose).Nodup
  ready : ∀ id ∈ queue, ∃ t, s.threads id = some t ∧ t.state = .ready ∧ t.cpu = some c ∧ t.isIdle = false
  moving : ∀ id ∈ loose, ∃ t, s.threads id = some t ∧ t.state ≠ .zombie ∧ t.cpu = some c ∧ t.isIdle = false
  covers : ∀ id t, s.threads id = some t → t.cpu = some c → t.isIdle = false → t.state ≠ .zombie → id ∈ queue ∨ id ∈ loose
  idle : ∃ t, s.threads (s.cpus c).idleThread = some t ∧ t.cpu = some c ∧ t.isIdle = true
  current : ∃ t, s.threads (s.cpus c).currentThread = some t ∧ t.cpu = some c
  reap : ∀ id ∈ (s.cpus c).reap, ∃ t, s.threads id = some t ∧ t.state = .zombie ∧ t.cpu = some c ∧ t.isIdle = false
  fifo : (s.cpus c).pushed = (s.cpus c).popped ++ queue
  order : (s.cpus c).dispatched.Sublist (s.cpus c).popped

def runningOf (s : Machine) (c : Nat) : List Nat := match s.threads (s.cpus c).currentThread with
  | none => []
  | some thread => if thread.isIdle = false ∧ thread.state = .running then [(s.cpus c).currentThread] else []

def Settled (s : Machine) (c : Nat) : Prop :=
  ∃ queue, CpuQueue s c queue (runningOf s c) ∧ (s.cpus c).schedLoad = queue.length + (runningOf s c).length ∧
    (s.cpus c).currentThread ∉ queue

structure Numbered (s : Machine) : Prop where
  null : s.threads 0 = none
  fresh : ∀ id, s.nextThread ≤ id → s.threads id = none

structure Leaves (c : Nat) (s after : Machine) : Prop where
  cpus : ∀ d, d ≠ c → after.cpus d = s.cpus d
  threads : ∀ id t d, t.cpu = some d → d ≠ c → (after.threads id = some t ↔ s.threads id = some t)

theorem leaves_refl (c : Nat) (s : Machine) : Leaves c s s := ⟨fun _ _ => rfl, fun _ _ _ _ _ => Iff.rfl⟩

theorem leaves_trans (c : Nat) (s middle after : Machine) (first : Leaves c s middle) (second : Leaves c middle after) :
    Leaves c s after :=
  ⟨fun d other => (second.cpus d other).trans (first.cpus d other),
    fun id t d on other => (second.threads id t d on other).trans (first.threads id t d on other)⟩

theorem leaves_set_cpu (c : Nat) (s : Machine) (cpu : Cpu) : Leaves c s (s.setCpu c cpu) :=
  ⟨fun _ other => Function.update_of_ne other _ _, fun _ _ _ _ _ => Iff.rfl⟩

theorem leaves_set_thread (c : Nat) (s : Machine) (id : Nat) (thread : Tcb) (here : thread.cpu = some c)
    (before : ∀ t, s.threads id = some t → t.cpu = some c ∨ t.cpu = none) : Leaves c s (s.setThread id thread) := by
  refine ⟨fun _ _ => rfl, fun other t d on apart => ?_⟩
  by_cases same : other = id
  · subst same
    simp only [Machine.setThread, Function.update_self, Option.some.injEq]
    constructor
    · intro now
      rw [now, on, Option.some.injEq] at here
      exact absurd here apart
    intro old
    rcases before t old with was | was
    · rw [on, Option.some.injEq] at was
      exact absurd was apart
    · rw [on] at was
      cases was
  · simp only [Machine.setThread, Function.update_of_ne same]

variable {c d id other load : Nat} {s after : Machine} {queue loose queue' loose' : List Nat} {t : Tcb} {cpu : Cpu} {thread : Tcb}

theorem cpu_queue_leaves (other : d ≠ c) (leaves : Leaves c s after) (sound : CpuQueue s d queue loose) :
    CpuQueue after d queue loose := by
  have cpu := leaves.cpus d other
  have there (id : Nat) (t : Tcb) (on : t.cpu = some d) (live : s.threads id = some t) : after.threads id = some t :=
    (leaves.threads id t d on other).mpr live
  refine ⟨?_, by rw [cpu]; exact sound.tail, sound.nodup, fun id inside => ?_, fun id inside => ?_, fun id t live on => ?_,
    ?_, ?_, fun id inside => ?_, by rw [cpu]; exact sound.fifo, by rw [cpu]; exact sound.order⟩
  · rw [cpu]
    refine chain_congr _ (fun id inside => ?_) sound.chain
    obtain ⟨t, live, _, on, _⟩ := sound.ready id inside
    rw [Machine.next, Machine.next, live, there id t on live]
  · obtain ⟨t, live, state, on, busy⟩ := sound.ready id inside
    exact ⟨t, there id t on live, state, on, busy⟩
  · obtain ⟨t, live, state, on, busy⟩ := sound.moving id inside
    exact ⟨t, there id t on live, state, on, busy⟩
  · exact sound.covers id t ((leaves.threads id t d on other).mp live) on
  · rw [cpu]
    obtain ⟨t, live, on, idle⟩ := sound.idle
    exact ⟨t, there _ t on live, on, idle⟩
  · rw [cpu]
    obtain ⟨t, live, on⟩ := sound.current
    exact ⟨t, there _ t on live, on⟩
  rw [cpu] at inside
  obtain ⟨t, live, state, on, busy⟩ := sound.reap id inside
  exact ⟨t, there id t on live, state, on, busy⟩

theorem settled_leaves (other : d ≠ c) (leaves : Leaves c s after) (settled : Settled s d) : Settled after d := by
  obtain ⟨queue, sound, rest⟩ := settled
  have same : runningOf after d = runningOf s d := by
    obtain ⟨t, live, on⟩ := sound.current
    rw [runningOf, runningOf, leaves.cpus d other, live, (leaves.threads _ t d on other).mpr live]
  rw [Settled, same, leaves.cpus d other]
  exact ⟨queue, cpu_queue_leaves other leaves sound, rest⟩

structure Works (s after : Machine) (c : Nat) (queue loose : List Nat) (load : Nat) : Prop where
  leaves : Leaves c s after
  numbered : Numbered after
  sound : CpuQueue after c queue loose
  load : (after.cpus c).schedLoad = load
  current : (after.cpus c).currentThread = (s.cpus c).currentThread
  idle : (after.cpus c).idleThread = (s.cpus c).idleThread
  count : after.cpuCount = s.cpuCount

theorem set_thread_self (s : Machine) (id : Nat) (thread : Tcb) : (s.setThread id thread).threads id = some thread :=
  Function.update_self ..

theorem set_thread_other (s : Machine) (thread : Tcb) (apart : other ≠ id) :
    (s.setThread id thread).threads other = s.threads other := Function.update_of_ne apart _ _

theorem set_cpu_self (s : Machine) (c : Nat) (cpu : Cpu) : (s.setCpu c cpu).cpus c = cpu := Function.update_self ..

theorem thread_ok (live : s.threads id = some thread) : s.thread id = .ok thread := by
  rw [Machine.thread, live]

theorem next_of (live : s.threads id = some thread) : s.next id = thread.runqNext := by
  rw [Machine.next, live]

theorem next_set_thread (s : Machine) (thread : Tcb) (apart : other ≠ id) : (s.setThread id thread).next other = s.next other := by
  rw [Machine.next, Machine.next, set_thread_other s thread apart]

theorem numbered_set_thread {old : Tcb} (thread : Tcb) (live : s.threads id = some old) (numbered : Numbered s) :
    Numbered (s.setThread id thread) := by
  have apart (other : Nat) (none : s.threads other = none) : other ≠ id := fun same => by
    rw [same, live] at none
    cases none
  refine ⟨?_, fun other high => ?_⟩
  · rw [set_thread_other s thread (apart 0 numbered.null), numbered.null]
  · rw [set_thread_other s thread (apart other (numbered.fresh other high)), numbered.fresh other high]

-- It is loose afterwards exactly if it can run.
theorem set_thread_sound (rest : List Nat) (sound : CpuQueue s c queue loose) (absent : id ∉ queue)
    (was : ∀ old, s.threads id = some old → old.state ≠ .zombie ∨ old.isIdle = true) (on : thread.cpu = some c)
    (idle : (s.cpus c).idleThread = id → thread.isIdle = true) (nodup : (queue ++ rest).Nodup)
    (stays : ∀ other, other ≠ id → (other ∈ rest ↔ other ∈ loose))
    (counted : id ∈ rest ↔ thread.state ≠ .zombie ∧ thread.isIdle = false) :
    CpuQueue (s.setThread id thread) c queue rest := by
  have queued (other : Nat) (inside : other ∈ queue) : other ≠ id := fun same => absent (same ▸ inside)
  refine ⟨?_, sound.tail, nodup, fun other inside => ?_, fun other inside => ?_, fun other t there on busy state => ?_, ?_, ?_,
    fun other inside => ?_, sound.fifo, sound.order⟩
  · exact chain_congr _ (fun other inside => next_set_thread s thread (queued other inside)) sound.chain
  · rw [set_thread_other s thread (queued other inside)]
    exact sound.ready other inside
  · by_cases same : other = id
    · rw [same, set_thread_self]
      obtain ⟨state, busy⟩ := counted.mp (same ▸ inside)
      exact ⟨thread, rfl, state, on, busy⟩
    · rw [set_thread_other s thread same]
      exact sound.moving other ((stays other same).mp inside)
  · by_cases same : other = id
    · rw [same, set_thread_self, Option.some.injEq] at there
      exact .inr (same ▸ counted.mpr (there ▸ ⟨state, busy⟩))
    · rw [set_thread_other s thread same] at there
      exact (sound.covers other t there on busy state).imp_right (stays other same).mpr
  · by_cases same : (s.cpus c).idleThread = id
    · exact ⟨thread, (congrArg _ same).trans (set_thread_self s id thread), on, idle same⟩
    · obtain ⟨t, there, rest⟩ := sound.idle
      exact ⟨t, (set_thread_other s thread same).trans there, rest⟩
  · by_cases same : (s.cpus c).currentThread = id
    · exact ⟨thread, (congrArg _ same).trans (set_thread_self s id thread), on⟩
    · obtain ⟨t, there, on⟩ := sound.current
      exact ⟨t, (set_thread_other s thread same).trans there, on⟩
  obtain ⟨t, there, state, on, busy⟩ := sound.reap other inside
  have apart : other ≠ id := fun same => by
    rcases was t (same ▸ there) with alive | idle
    · exact alive state
    · rw [idle] at busy
      cases busy
  exact ⟨t, (set_thread_other s thread apart).trans there, state, on, busy⟩

theorem remove_thread_frame (s : Machine) (pid id : Nat) :
    (processRemoveThread s pid id).threads = s.threads ∧ (processRemoveThread s pid id).cpus = s.cpus ∧
      (processRemoveThread s pid id).nextThread = s.nextThread ∧ (processRemoveThread s pid id).cpuCount = s.cpuCount := by
  simp only [processRemoveThread]
  split
  · exact ⟨rfl, rfl, rfl, rfl⟩
  · exact ⟨rfl, rfl, rfl, rfl⟩

theorem cpu_queue_congr (s same : Machine) (c : Nat) (queue loose : List Nat) (threads : same.threads = s.threads)
    (cpus : same.cpus = s.cpus)
    (sound : CpuQueue s c queue loose) : CpuQueue same c queue loose := by
  have link : same.next = s.next := by
    funext id
    rw [Machine.next, Machine.next, threads]
  exact ⟨by rw [link, cpus]; exact sound.chain, by rw [cpus]; exact sound.tail, sound.nodup, by rw [threads]; exact sound.ready,
    by rw [threads]; exact sound.moving, by rw [threads]; exact sound.covers, by rw [threads, cpus]; exact sound.idle,
    by rw [threads, cpus]; exact sound.current, by rw [threads, cpus]; exact sound.reap, by rw [cpus]; exact sound.fifo,
    by rw [cpus]; exact sound.order⟩

section

variable (sound : CpuQueue s c queue loose)
include sound

theorem loose_absent (inside : id ∈ loose) : id ∉ queue :=
  fun queued => (List.nodup_append.mp sound.nodup).2.2 id queued id inside rfl

theorem loose_idle (inside : id ∈ loose) : (s.cpus c).idleThread ≠ id := by
  obtain ⟨t, live, _, _, busy⟩ := sound.moving id inside
  obtain ⟨t', live', _, idle⟩ := sound.idle
  rintro rfl
  rw [live, Option.some.injEq] at live'
  rw [live', idle] at busy
  cases busy

theorem loose_alive (inside : id ∈ loose) (old : Tcb) (there : s.threads id = some old) :
    old.state ≠ .zombie ∨ old.isIdle = true := by
  obtain ⟨t, live, state, _⟩ := sound.moving id inside
  rw [live, Option.some.injEq] at there
  exact .inl (there ▸ state)

theorem loose_kept (inside : id ∈ loose) (on : thread.cpu = some c) (busy : thread.isIdle = false) (state : thread.state ≠ .zombie) :
    CpuQueue (s.setThread id thread) c queue loose :=
  set_thread_sound loose sound (loose_absent sound inside) (loose_alive sound inside) on
    (fun same => absurd same (loose_idle sound inside))
    sound.nodup (fun _ _ => Iff.rfl) ⟨fun _ => ⟨state, busy⟩, fun _ => inside⟩

theorem queued_ready : ∀ id ∈ queue, ∃ t, s.threads id = some t ∧ t.state = .ready := fun id inside =>
  (sound.ready id inside).imp fun _ own => ⟨own.1, own.2.1⟩

theorem queue_last :
    (queue = [] ∧ (s.cpus c).runqTail = 0) ∨ ∃ front last, queue = front ++ [last] ∧ (s.cpus c).runqTail = last ∧ last ≠ 0 := by
  have tail := sound.tail
  rcases List.eq_nil_or_concat queue with empty | ⟨front, last, split⟩
  · rw [empty] at tail
    exact .inl ⟨empty, tail⟩
  rw [List.concat_eq_append] at split
  rw [split, List.getLast?_append] at tail
  refine .inr ⟨front, last, split, tail, fun zero => chain_nonzero _ sound.chain ?_⟩
  rw [split, ← zero]
  simp

def Tcb.unlinked (thread : Tcb) : Tcb := { thread with runqNext := 0 }

def Relinked (s after : Machine) : Prop := ∀ id, (after.threads id).map Tcb.unlinked = (s.threads id).map Tcb.unlinked

-- What is said of a thread apart from its link still holds.
omit sound in
theorem relinked_has {P : Tcb → Prop} (relinked : Relinked s after) (plain : ∀ t, P t ↔ P t.unlinked)
    (has : ∃ t, s.threads id = some t ∧ P t) : ∃ t, after.threads id = some t ∧ P t := by
  obtain ⟨t, live, own⟩ := has
  have same := relinked id
  rw [live, Option.map_some, Option.map_eq_some_iff] at same
  obtain ⟨now, there, unlinked⟩ := same
  exact ⟨now, there, (plain now).mpr (unlinked ▸ (plain t).mp own)⟩

omit sound in
theorem relinked_set_thread (link : Nat) (live : s.threads id = some t) : Relinked s (s.setThread id (t.link link)) := by
  intro other
  by_cases same : other = id
  · rw [same, set_thread_self, live]
    rfl
  · rw [set_thread_other s _ same]

theorem requeue_sound {linked : Machine}
    (relinked : Relinked s linked) (current : ∃ t, s.threads cpu.currentThread = some t ∧ t.cpu = some c)
    (idle : cpu.idleThread = (s.cpus c).idleThread)
    (reap : ∀ id ∈ cpu.reap, ∃ t, s.threads id = some t ∧ t.state = .zombie ∧ t.cpu = some c ∧ t.isIdle = false)
    (chain : Chain linked.next cpu.runqHead queue') (tail : cpu.runqTail = queue'.getLast?.getD 0)
    (perm : (queue' ++ loose').Perm (queue ++ loose)) (ready : ∀ id ∈ queue', ∃ t, s.threads id = some t ∧ t.state = .ready)
    (fifo : cpu.pushed = cpu.popped ++ queue') (order : cpu.dispatched.Sublist cpu.popped) :
    CpuQueue (linked.setCpu c cpu) c queue' loose' := by
  have self := set_cpu_self linked c cpu
  have known (id : Nat) (inside : id ∈ queue' ++ loose') : ∃ t, s.threads id = some t ∧ t.state ≠ .zombie ∧ t.cpu = some c ∧
    t.isIdle = false := by
    rcases List.mem_append.mp (perm.mem_iff.mp inside) with queued | free
    · obtain ⟨t, live, state, rest⟩ := sound.ready id queued
      exact ⟨t, live, by rw [state]; decide, rest⟩
    · exact sound.moving id free
  refine ⟨by rw [self]; exact chain, by rw [self]; exact tail, perm.nodup_iff.mpr sound.nodup, fun id inside => ?_,
    fun id inside => ?_,
    fun id t live on busy state => ?_, ?_, ?_, fun id inside => ?_, by rw [self]; exact fifo, by rw [self]; exact order⟩
  · refine relinked_has relinked (fun _ => Iff.rfl) ?_
    obtain ⟨t, live, _, rest⟩ := known id (List.mem_append_left _ inside)
    obtain ⟨t', live', state⟩ := ready id inside
    rw [live, Option.some.injEq] at live'
    exact ⟨t, live, by rw [live', state], rest⟩
  · exact relinked_has relinked (fun _ => Iff.rfl) (known id (List.mem_append_right _ inside))
  · obtain ⟨was, there, on, busy, state⟩ : ∃ t, s.threads id = some t ∧ t.cpu = some c ∧ t.isIdle = false ∧ t.state ≠ .zombie :=
      relinked_has (fun id => (relinked id).symm) (fun _ => Iff.rfl) ⟨t, live, on, busy, state⟩
    exact List.mem_append.mp (perm.mem_iff.mpr (List.mem_append.mpr (sound.covers id was there on busy state)))
  · rw [self, idle]
    exact relinked_has relinked (fun _ => Iff.rfl) sound.idle
  · rw [self]
    exact relinked_has relinked (fun _ => Iff.rfl) current
  rw [self] at inside
  exact relinked_has relinked (fun _ => Iff.rfl) (reap id inside)

theorem cpu_queue_reap {reap : List Nat}
    (ended : ∀ id ∈ reap, ∃ t, s.threads id = some t ∧ t.state = .zombie ∧ t.cpu = some c ∧ t.isIdle = false) :
    CpuQueue (s.setCpu c { s.cpus c with schedLoad := load, reap := reap }) c queue loose :=
  requeue_sound sound (fun _ => rfl) sound.current rfl ended sound.chain sound.tail (.refl _)
    (queued_ready sound) sound.fifo sound.order

theorem finish_works (numbered : Numbered s) (inside : id ∈ loose) :
    ∃ after, threadFinish s c id = .ok after ∧ Works s after c queue (loose.erase id) ((s.cpus c).schedLoad - 1) := by
  obtain ⟨t, live, state, on, busy⟩ := sound.moving id inside
  have looseNodup : loose.Nodup := (List.nodup_append.mp sound.nodup).2.1
  have ended : CpuQueue (s.setThread id (t.enter .zombie)) c queue (loose.erase id) := by
    refine set_thread_sound _ sound (loose_absent sound inside) (loose_alive sound inside) on
      (fun same => absurd same (loose_idle sound inside))
      (sound.nodup.sublist (List.erase_sublist.append_left queue)) (fun other apart => List.mem_erase_of_ne apart) ?_
    simp [looseNodup.mem_erase_iff, Tcb.enter]
  obtain ⟨threads, cpus, number, count⟩ := remove_thread_frame (s.setThread id (t.enter .zombie)) t.process id
  have left := leaves_set_thread c s id (t.enter .zombie) on (fun old there => .inl
    (by rw [live, Option.some.injEq] at there; exact there ▸ on))
  obtain ⟨removed, same⟩ : ∃ removed, removed = processRemoveThread (s.setThread id (t.enter .zombie)) t.process id := ⟨_, rfl⟩
  rw [← same] at threads cpus number count
  refine ⟨removed.setCpu c { removed.cpus c with schedLoad := (removed.cpus c).schedLoad - 1, reap := id :: (removed.cpus c).reap },
    ?_, ?_, ?_, ?_, ?_, ?_, ?_, count⟩
  · rw [threadFinish, thread_ok live]
    simp only [bind, Except.bind, state, busy, if_false, same, Bool.false_eq_true]
  · refine leaves_trans c s removed _ ⟨fun d other => by rw [cpus]; exact left.cpus d other, ?_⟩ (leaves_set_cpu c removed _)
    intro other t d on apart
    rw [threads]
    exact left.threads other t d on apart
  · have kept := numbered_set_thread (t.enter .zombie) live numbered
    exact ⟨by rw [← kept.null, ← threads]; rfl, fun other high => by rw [← kept.fresh other (number ▸ high), ← threads]; rfl⟩
  · refine cpu_queue_reap (cpu_queue_congr _ removed c queue _ threads cpus ended) (fun other there => ?_)
    rcases List.mem_cons.mp there with rfl | old
    · exact ⟨t.enter .zombie, by rw [threads, set_thread_self], rfl, on, busy⟩
    rw [threads]
    rw [cpus] at old
    exact ended.reap other old
  · rw [set_cpu_self, cpus]
    rfl
  · rw [set_cpu_self, cpus]
    rfl
  · rw [set_cpu_self, cpus]
    rfl

end

theorem leaves_relink (link : Nat) (live : s.threads id = some t) (on : t.cpu = some c) :
    Leaves c s ((s.setThread id (t.link link)).setCpu c cpu) := by
  refine leaves_trans c s _ _ (leaves_set_thread c s id (t.link link) on (fun old there => .inl ?_)) (leaves_set_cpu c _ cpu)
  rw [live, Option.some.injEq] at there
  exact there ▸ on

section

variable (numbered : Numbered s) (sound : CpuQueue s c queue loose)
include numbered sound

theorem link_works
    (inside : id ∈ loose) (live : s.threads id = some t) (state : t.state = .ready) (ends : t.runqNext = 0) :
    ∃ after, runqLink s c id = .ok after ∧ Works s after c (queue ++ [id]) (loose.erase id) (s.cpus c).schedLoad ∧
      Relinked s after := by
  have nonzero : id ≠ 0 := fun zero => by
    rw [zero, numbered.null] at live
    cases live
  have absent := loose_absent sound inside
  have perm : (queue ++ [id] ++ loose.erase id).Perm (queue ++ loose) := by
    rw [List.append_assoc]
    exact (List.perm_cons_erase inside).symm.append_left queue
  have ready : ∀ other ∈ queue ++ [id], ∃ t, s.threads other = some t ∧ t.state = .ready := by
    intro other there
    rcases List.mem_append.mp there with old | new
    · exact queued_ready sound other old
    · rw [List.mem_singleton.mp new]
      exact ⟨t, live, state⟩
  have fifo : (s.cpus c).pushed ++ [id] = (s.cpus c).popped ++ (queue ++ [id]) := by rw [sound.fifo, List.append_assoc]
  have tail : id = (queue ++ [id]).getLast?.getD 0 := by simp
  rcases queue_last sound with ⟨empty, noTail⟩ | ⟨front, last, split, isTail, tailNonzero⟩
  · refine ⟨s.setCpu c { s.cpus c with runqHead := id, runqTail := id, pushed := (s.cpus c).pushed ++ [id] }, ?_,
      ⟨leaves_set_cpu c s _,
      ⟨numbered.null, numbered.fresh⟩, ?_, by rw [set_cpu_self], by rw [set_cpu_self], by rw [set_cpu_self], rfl⟩, fun _ => rfl⟩
    · rw [runqLink]
      simp only [noTail, if_true]
    refine requeue_sound sound (fun _ => rfl) sound.current rfl sound.reap ?_ tail perm ready fifo sound.order
    rw [empty]
    exact ⟨rfl, nonzero, (next_of live).trans ends⟩
  have inQueue : last ∈ queue := by rw [split]; simp
  obtain ⟨lastThread, lastLive, _, lastOn, _⟩ := sound.ready last inQueue
  have apart : id ≠ last := fun same => absent (same ▸ inQueue)
  have frontNodup : last ∉ front := by
    have nodup := (List.nodup_append.mp sound.nodup).1
    rw [split] at nodup
    exact fun there => (List.nodup_append.mp nodup).2.2 last there last (List.mem_singleton_self last) rfl
  refine ⟨(s.setThread last (lastThread.link id)).setCpu c { s.cpus c with runqTail := id, pushed := (s.cpus c).pushed ++ [id] },
    ?_, ⟨leaves_relink id lastLive lastOn, ?_, ?_, by rw [set_cpu_self], by rw [set_cpu_self],
      by rw [set_cpu_self], rfl⟩, relinked_set_thread id lastLive⟩
  · rw [runqLink]
    simp only [isTail, tailNonzero, if_false, thread_ok lastLive, bind, Except.bind]
  · have kept := numbered_set_thread (lastThread.link id) lastLive numbered
    exact ⟨kept.null, kept.fresh⟩
  refine requeue_sound sound (relinked_set_thread id lastLive) sound.current rfl sound.reap ?_ tail perm ready fifo sound.order
  rw [split]
  refine chain_snoc _ nonzero ?_ ?_ frontNodup (fun other there => ?_) (split ▸ sound.chain)
  · rw [next_set_thread s _ apart, next_of live, ends]
  · exact next_of (set_thread_self s last _)
  · exact next_set_thread s _ (fun same => frontNodup (same ▸ there))

theorem push_works
    (inside : id ∈ loose) (live : s.threads id = some t) (state : t.state = .ready) :
    ∃ after, runqPush s c id = .ok after ∧ Works s after c (queue ++ [id]) (loose.erase id) (s.cpus c).schedLoad := by
  obtain ⟨t', there, notZombie, on, busy⟩ := sound.moving id inside
  obtain rfl : t' = t := Option.some.inj (there.symm.trans live)
  have placed : CpuQueue (s.setThread id (t'.place c)) c queue loose := loose_kept sound inside rfl busy notZombie
  have left := leaves_set_thread c s id (t'.place c) rfl (fun old there => .inl
    (by rw [live, Option.some.injEq] at there; exact there ▸ on))
  obtain ⟨after, linked, works, _⟩ := link_works (numbered_set_thread (t'.place c) live numbered) placed inside
    (set_thread_self s id _) state rfl
  refine ⟨after, ?_, leaves_trans c s _ after left works.leaves, works.numbered, works.sound, works.load, works.current, works.idle,
    works.count⟩
  rw [runqPush, thread_ok live]
  exact linked

theorem pop_works : (queue = [] ∧ runqPop s c = .ok (s, 0)) ∨
      ∃ id rest after, queue = id :: rest ∧ id ≠ 0 ∧ runqPop s c = .ok (after, id) ∧
        Works s after c rest (id :: loose) (s.cpus c).schedLoad ∧
        (∃ t, after.threads id = some t ∧ t.state = .ready ∧ t.isIdle = false) ∧
        (after.cpus c).dispatched = (s.cpus c).dispatched ∧ (after.cpus c).popped = (s.cpus c).popped ++ [id] := by
  have chain := sound.chain
  cases split : queue with
  | nil =>
    rw [split] at chain
    have empty : (s.cpus c).runqHead = 0 := chain
    refine .inl ⟨rfl, ?_⟩
    rw [runqPop]
    simp only [empty, if_true]
  | cons id rest =>
    rw [split] at chain
    obtain ⟨head, nonzero, later⟩ := chain
    obtain ⟨t, live, state, on, busy⟩ := sound.ready id (split ▸ List.mem_cons_self)
    have queueNodup : (id :: rest).Nodup := split ▸ (List.nodup_append.mp sound.nodup).1
    have absent : id ∉ rest := (List.nodup_cons.mp queueNodup).1
    have link : s.next id = t.runqNext := next_of live
    rw [link] at later
    refine .inr ⟨id, rest, (s.setThread id (t.link 0)).setCpu c
      { s.cpus c with runqHead := t.runqNext, runqTail := if t.runqNext = 0 then 0 else (s.cpus c).runqTail
                      popped := (s.cpus c).popped ++ [id] }, rfl, nonzero, ?_, ⟨leaves_relink 0 live on, ?_, ?_, by rw [set_cpu_self],
        by rw [set_cpu_self], by
          rw [set_cpu_self], rfl⟩, ⟨t.link 0, set_thread_self s id _, state, busy⟩, by rw [set_cpu_self], by rw [set_cpu_self]⟩
    · rw [runqPop]
      simp only [head, nonzero, if_false, thread_ok live, bind, Except.bind]
    · have kept := numbered_set_thread (t.link 0) live numbered
      exact ⟨kept.null, kept.fresh⟩
    refine requeue_sound sound (relinked_set_thread 0 live) sound.current rfl sound.reap ?_ ?_ ?_ (fun other inside => ?_) ?_ ?_
    · exact chain_congr _ (fun other inside => next_set_thread s _ (fun same => absent (same ▸ inside))) later
    · -- The tail is cleared exactly when this was the last thread.
      have tail := sound.tail
      rw [split] at tail
      cases rest with
      | nil =>
        have ended : t.runqNext = 0 := later
        simp only [ended, if_true, List.getLast?_nil, Option.getD_none]
      | cons second more =>
        have going : t.runqNext ≠ 0 := later.1 ▸ later.2.1
        simp only [going, if_false, tail, List.getLast?_cons_cons]
    · rw [split]
      exact List.perm_middle
    · exact queued_ready sound other (split ▸ List.mem_cons_of_mem id inside)
    · simp only [sound.fifo, split, List.append_assoc, List.singleton_append]
    · exact sound.order.trans (List.sublist_append_left _ _)

end

theorem works_trans {middle : Machine} {load' : Nat}
    (first : Works s middle c queue loose load) (second : Works middle after c queue' loose' load') :
    Works s after c queue' loose' load' :=
  ⟨leaves_trans c s middle after first.leaves second.leaves, second.numbered, second.sound, second.load,
    second.current.trans first.current, second.idle.trans first.idle, second.count.trans first.count⟩

theorem pop_ready_works {turns : Nat} (queue : List Nat) (s : Machine) (numbered : Numbered s) (sound : CpuQueue s c queue [])
    (load : (s.cpus c).schedLoad = queue.length) (enough : queue.length ≤ turns) :
    ∃ after next, popReady c turns s = .ok (after, next) ∧ ((next = 0 ∧ Works s after c [] [] 0) ∨
        ∃ rest front t, Works s after c rest [next] (rest.length + 1) ∧ next ≠ 0 ∧ after.threads next = some t ∧ t.state = .ready ∧
          t.isIdle = false ∧
          (after.cpus c).popped = front ++ [next] ∧ (after.cpus c).dispatched.Sublist front) := by
  induction turns generalizing s queue with
  | zero =>
    obtain rfl : queue = [] := List.length_eq_zero_iff.mp (Nat.le_zero.mp enough)
    have empty : (s.cpus c).runqHead = 0 := sound.chain
    exact ⟨s, 0, by rw [popReady, if_pos empty], .inl ⟨rfl, leaves_refl c s, numbered, sound, load, rfl, rfl, rfl⟩⟩
  | succ turns ih =>
    rcases pop_works numbered sound with
      ⟨rfl, popped⟩ | ⟨id, rest, mid, rfl, nonzero, popped, works, ⟨t, live, state, busy⟩, dispatched, history⟩
    · refine ⟨s, 0, ?_, .inl ⟨rfl, leaves_refl c s, numbered, sound, load, rfl, rfl, rfl⟩⟩
      rw [popReady, popped]
      rfl
    have turn : popReady c (turns + 1) s = if (mid.processes t.process).dying then threadFinish mid c id >>= popReady c turns else .ok
      (mid, id) := by
      rw [popReady, popped]
      simp only [bind, Except.bind, nonzero, if_false, thread_ok live, state, ne_eq, not_true_eq_false]
    rw [turn]
    split
    next dying =>
      obtain ⟨ended, finished, after⟩ := finish_works works.sound works.numbered List.mem_cons_self
      rw [List.erase_cons_head] at after
      have left : (ended.cpus c).schedLoad = rest.length := by
        rw [after.load, works.load, load]
        rfl
      obtain ⟨final, next, looped, result⟩ := ih rest ended after.numbered after.sound left (by simpa using enough)
      refine ⟨final, next, by rw [finished]; exact looped, ?_⟩
      have toEnded := works_trans works after
      rcases result with ⟨none, done⟩ | ⟨more, front, thread, done, some⟩
      · exact .inl ⟨none, works_trans toEnded done⟩
      · exact .inr ⟨more, front, thread, works_trans toEnded done, some⟩
    next alive =>
      have counted : Works s mid c rest [id] (rest.length + 1) := ⟨works.leaves, works.numbered, works.sound,
        by rw [works.load, load]; rfl, works.current, works.idle, works.count⟩
      exact ⟨mid, id, rfl, .inr ⟨rest, (s.cpus c).popped, t, counted, nonzero, live, state, busy, history, dispatched ▸ sound.order⟩⟩

end Lyr.Sched
