import Lyr.Lib.Run

set_option autoImplicit false

namespace Lyr.Dev

open Lyr.Lib

def ASYNC_IO_QUEUE_SIZE : Nat := 512

-- result tells whether the pointer is set.
structure AsyncRequest where
  target : Nat
  op : Nat
  width : Nat
  port : Nat
  result : Bool
  deriving DecidableEq, Repr

def asyncIoValidate (request : AsyncRequest) : Bool :=
  (request.width = 1 ∨ request.width = 2 ∨ request.width = 4) ∧ (request.op = 0 ∨ request.op = 1) ∧
    (request.target = 0 ∨ request.target = 1) ∧ ¬ (request.op = 0 ∧ request.result = false)

structure Submitted where
  id : Nat
  cpu : Bool
  request : AsyncRequest
  deriving DecidableEq, Repr

-- A *_sync operation, with what its CPU had submitted before.
structure SyncOp where
  request : AsyncRequest
  owed : List Submitted
  deriving DecidableEq, Repr

-- A drain belongs to the flush of a sync operation or to none; submit, locked and testing hold async_io_lock.
inductive Place where
  | idle
  | submit (request : AsyncRequest)
  | loop (budget done : Nat) (sync : Option SyncOp)
  | locked (budget done : Nat) (sync : Option SyncOp)
  | execute (budget done : Nat) (sync : Option SyncOp) (entry : Submitted)
  | hooks (budget done : Nat) (sync : Option SyncOp)
  | flushed (drained : Nat) (sync : SyncOp)
  | testing (drained : Nat) (sync : SyncOp)
  | last (sync : SyncOp)
  deriving DecidableEq, Repr

inductive Executed where
  | queued (entry : Submitted)
  | sync (op : SyncOp)
  deriving DecidableEq, Repr

-- What the CPU was in when a tick or a drain hook began its present operation is in outer, the last first.
structure AsyncIo where
  lock : Option Bool
  queue : List Submitted
  drainDepth : Nat
  cpus : Bool → Place
  outer : Bool → List Place
  accepted : List Submitted
  log : List Executed

-- hooks is what the drain hooks return.
inductive AsyncEvent where
  | submit (cpu : Bool) (request : AsyncRequest)
  | drain (cpu : Bool) (budget : Nat)
  | sync (cpu : Bool) (request : AsyncRequest)
  | next (cpu : Bool) (hooks : Nat)
  deriving DecidableEq, Repr

def AsyncIo.at (s : AsyncIo) (cpu : Bool) (place : Place) : AsyncIo := { s with cpus := Function.update s.cpus cpu place }

def AsyncIo.interrupt (s : AsyncIo) (cpu : Bool) : AsyncIo :=
  if s.cpus cpu = .idle then s else { s with outer := Function.update s.outer cpu (s.cpus cpu :: s.outer cpu) }

def AsyncIo.leave (s : AsyncIo) (cpu : Bool) : AsyncIo := match s.outer cpu with
  | [] => s.at cpu .idle
  | place :: rest => { s with outer := Function.update s.outer cpu rest }.at cpu place

def asyncIoDrain (s : AsyncIo) (cpu : Bool) (budget : Nat) (sync : Option SyncOp) : AsyncIo :=
  { s with drainDepth := s.drainDepth + 1 }.at cpu (.loop budget 0 sync)

-- Its look at the queue decides nothing.
def flushAgain (s : AsyncIo) (cpu : Bool) (drained : Nat) (sync : SyncOp) : AsyncIo :=
  if drained = 0 then s.at cpu (.last sync) else asyncIoDrain s cpu 64 (some sync)

def asyncIoNext (s : AsyncIo) (cpu : Bool) (hooks : Nat) : AsyncIo :=
  match s.cpus cpu with
  | .idle => s
  | .submit request =>
    let entry : Submitted := ⟨s.accepted.length, cpu, request⟩
    if s.queue.length + 1 = ASYNC_IO_QUEUE_SIZE then { s with lock := none }.leave cpu
    else { s with lock := none, queue := s.queue ++ [entry], accepted := s.accepted ++ [entry] }.leave cpu
  | .loop budget done sync =>
    if (budget = 0 ∨ done < budget) ∧ s.lock = none then { s with lock := some cpu }.at cpu (.locked budget done sync)
    else s.at cpu (.hooks budget done sync)
  | .locked budget done sync =>
    match s.queue with
    | [] => { s with lock := none }.at cpu (.hooks budget done sync)
    | entry :: rest => { s with lock := none, queue := rest }.at cpu (.execute budget done sync entry)
  | .execute budget done sync entry => { s with log := s.log ++ [Executed.queued entry] }.at cpu (.loop budget (done + 1) sync)
  | .hooks budget done sync =>
    let drained := if budget ≠ 0 ∧ budget ≤ done then done else done + hooks
    let left := { s with drainDepth := s.drainDepth - 1 }
    match sync with
    | none => left.leave cpu
    | some op => left.at cpu (.flushed drained op)
  | .flushed drained op =>
    if s.lock = none then { s with lock := some cpu }.at cpu (.testing drained op) else flushAgain s cpu drained op
  | .testing drained op => flushAgain { s with lock := none } cpu drained op
  | .last op => { s with log := s.log ++ [Executed.sync op] }.leave cpu

def asyncStep (s : AsyncIo) : AsyncEvent → Except Empty AsyncIo
  | .submit cpu request =>
    .ok (if asyncIoValidate request ∧ s.lock = none then { s.interrupt cpu with lock := some cpu }.at cpu (.submit request) else s)
  | .drain cpu budget => .ok (asyncIoDrain (s.interrupt cpu) cpu budget none)
  | .sync cpu request =>
    let op : SyncOp := ⟨request, s.accepted.filter (·.cpu = cpu)⟩
    .ok (if s.drainDepth ≠ 0 then (s.interrupt cpu).at cpu (.last op) else asyncIoDrain (s.interrupt cpu) cpu 64 (some op))
  | .next cpu hooks => .ok (asyncIoNext s cpu hooks)

def asyncIoInit : AsyncIo := ⟨none, [], 0, fun _ => .idle, fun _ => [], [], []⟩

def executions (log : List Executed) : List Submitted := log.filterMap (fun | .queued entry => some entry | .sync _ => none)

def Place.hand : Place → List Submitted
  | .execute _ _ _ entry => [entry]
  | _ => []

def AsyncIo.hands (s : AsyncIo) (cpu : Bool) : List Submitted := (s.cpus cpu :: s.outer cpu).flatMap Place.hand

-- A sync operation comes after what its CPU had submitted before.
def SyncsLate (log : List Executed) : Prop :=
  ∀ before op after, log = before ++ .sync op :: after → ∀ entry ∈ op.owed, .queued entry ∈ before

-- Executed in the order of acceptance, none twice and none lost.
structure InOrder (s : AsyncIo) : Prop where
  order : ∃ pending, s.accepted = executions s.log ++ pending ∧
    pending.Perm (s.hands true ++ s.hands false ++ s.queue)
  syncs : SyncsLate s.log

def Place.locks : Place → Bool
  | .submit _ | .locked _ _ _ | .testing _ _ => true
  | _ => false

def Place.depth : Place → Nat
  | .loop _ _ _ | .locked _ _ _ | .execute _ _ _ _ | .hooks _ _ _ => 1
  | _ => 0

def Place.sync : Place → Option SyncOp
  | .loop _ _ sync | .locked _ _ sync | .execute _ _ sync _ | .hooks _ _ sync => sync
  | .flushed _ sync | .testing _ sync | .last sync => some sync
  | _ => none

def Place.drains (place : Place) : Bool := place.depth = 1 ∨ place.sync ≠ none

-- No two drains overlap, no operation of the other CPU overlaps a sync operation, and neither a tick nor a drain hook starts an
-- operation inside another.
def Undisturbed (s : AsyncIo) : AsyncEvent → Prop
  | .submit cpu _ => s.cpus cpu = .idle ∧ (s.cpus (!cpu)).sync = none
  | .drain cpu _ => s.cpus cpu = .idle ∧ (s.cpus (!cpu)).drains = false
  | .sync cpu _ => s.cpus cpu = .idle ∧ s.cpus (!cpu) = .idle
  | .next _ _ => True

instance (s : AsyncIo) : (event : AsyncEvent) → Decidable (Undisturbed s event)
  | .submit _ _ | .drain _ _ | .sync _ _ => inferInstanceAs (Decidable (_ ∧ _))
  | .next _ _ => .isTrue trivial

def Place.Emptied (queue : List Submitted) : Place → Prop
  | .hooks budget done (some _) => budget ≠ 0 ∧ budget ≤ done ∨ queue = []
  | .flushed drained _ | .testing drained _ => drained = 0 → queue = []
  | .last _ => queue = []
  | _ => True

structure Tidy (s : AsyncIo) (cpu : Bool) (own other : Place) : Prop where
  flat : s.outer = fun _ => []
  lock : s.lock = if own.locks then some cpu else if other.locks then some (!cpu) else none
  locks : own.locks = false ∨ other.locks = false
  alone : own.drains = false ∨ other.drains = false
  quiet : (own.sync = none ∨ other = .idle) ∧ (other.sync = none ∨ own = .idle)
  depth : s.drainDepth = own.depth + other.depth
  order : s.accepted = executions s.log ++ (own.hand ++ other.hand ++ s.queue)
  owed : ∀ op, own.sync = some op ∨ other.sync = some op → ∀ entry ∈ op.owed, entry ∈ s.accepted
  emptied : own.Emptied s.queue ∧ other.Emptied s.queue
  syncs : SyncsLate s.log

variable {s : AsyncIo} {cpu : Bool} {own other : Place} {log : List Executed} {op : SyncOp}

theorem hand_drains (still : own.drains = false) : own.hand = [] := by
  cases own <;> first | rfl | cases still

theorem tidy_swap (tidy : Tidy s cpu own other) : Tidy s (!cpu) other own := by
  obtain ⟨flat, lock, locks, alone, quiet, depth, order, owed, emptied, syncs⟩ := tidy
  refine ⟨flat, ?_, locks.symm, alone.symm, quiet.symm, depth.trans (Nat.add_comm ..), ?_, fun op => owed op ∘ Or.symm,
    emptied.symm, syncs⟩
  · obtain off | off := locks <;> cases on : own.locks <;> cases on' : other.locks <;> simp_all
  · obtain off | off := alone <;> simp [order, hand_drains off]

theorem tidy_move {place : Place} {lock : Option Bool} {depth : Nat} (tidy : Tidy s cpu own other)
    (locked : lock = if place.locks then some cpu else if other.locks then some (!cpu) else none)
    (locks : place.locks = false ∨ other.locks = false)
    (alone : place.drains = false ∨ other.drains = false) (busy : own ≠ .idle) (quiet : place.sync = none ∨ other = .idle)
    (count : depth = place.depth + other.depth) (hand : place.hand = own.hand)
    (owed : ∀ op, place.sync = some op → own.sync = some op)
    (emptied : place.Emptied s.queue) :
    Tidy { s with lock := lock, drainDepth := depth } cpu place other :=
  ⟨tidy.flat, locked, locks, alone, ⟨quiet, .inl (tidy.quiet.2.resolve_right busy)⟩, count, hand ▸ tidy.order,
    fun op both => tidy.owed op (both.imp (owed op) id), ⟨emptied, tidy.emptied.2⟩, tidy.syncs⟩

def Seen (s : AsyncIo) (cpu : Bool) : Prop := Tidy s cpu (s.cpus cpu) (s.cpus (!cpu))

theorem seen_at {place : Place} (tidy : Tidy s cpu place (s.cpus (!cpu))) : Seen (s.at cpu place) cpu := by
  rw [Seen, AsyncIo.at]
  simp only [Function.update_self, Function.update_of_ne (Bool.not_ne_self cpu)]
  exact ⟨tidy.flat, tidy.lock, tidy.locks, tidy.alone, tidy.quiet, tidy.depth, tidy.order, tidy.owed, tidy.emptied, tidy.syncs⟩

theorem seen_leave (tidy : Tidy s cpu .idle (s.cpus (!cpu))) : Seen (s.leave cpu) cpu := by
  rw [AsyncIo.leave, tidy.flat]
  exact seen_at tidy

theorem sync_drains (still : own.drains = false) : own.sync = none := by
  cases same : own.sync with
  | none => rfl
  | some op => simp [Place.drains, same] at still

theorem emptied_none (queue : List Submitted) (none : own.sync = none) : own.Emptied queue := by
  cases own with
  | hooks budget done sync =>
    cases none
    trivial
  | flushed | testing | last => cases none
  | _ => trivial

theorem executions_snoc (log : List Executed) (entry : Submitted) :
    executions (log ++ [.queued entry]) = executions log ++ [entry] := by
  simp [executions]

theorem mem_executions {entry : Submitted} (member : entry ∈ executions log) : .queued entry ∈ log := by
  obtain ⟨executed, inside, same⟩ := List.mem_filterMap.mp member
  cases executed with
  | queued other =>
    cases same
    exact inside
  | sync => cases same

theorem syncs_snoc {last : Executed} (syncs : SyncsLate log) (new : ∀ op, last = .sync op → ∀ entry ∈ op.owed, .queued entry ∈ log) :
    SyncsLate (log ++ [last]) := by
  intro before op after same entry owed
  induction after using List.reverseRecOn with
  | nil =>
    obtain ⟨rfl, ends⟩ := List.append_inj' same rfl
    exact new op (List.cons.inj ends).1 entry owed
  | append_singleton rest final _ =>
    rw [← List.cons_append, ← List.append_assoc] at same
    exact syncs before op rest (List.append_inj' same rfl).1 entry owed

theorem drain_seen (budget : Nat) {sync : Option SyncOp} (tidy : Tidy s cpu own (s.cpus (!cpu))) (still : own.depth = 0)
    (free : own.locks = false)
    (hand : own.hand = []) (alone : (s.cpus (!cpu)).drains = false) (quiet : sync = none ∨ s.cpus (!cpu) = .idle)
    (owed : ∀ op, sync = some op → ∀ entry ∈ op.owed, entry ∈ s.accepted) : Seen (asyncIoDrain s cpu budget sync) cpu := by
  refine seen_at ⟨tidy.flat, ?_, .inl rfl, .inr alone, ⟨quiet, .inl (sync_drains alone)⟩, ?_, ?_, ?_, ⟨trivial, tidy.emptied.2⟩,
    tidy.syncs⟩
  · exact (free ▸ tidy.lock :)
  · have depth := tidy.depth
    rw [still] at depth
    show s.drainDepth + 1 = 1 + (s.cpus (!cpu)).depth
    omega
  · exact (hand ▸ tidy.order :)
  rintro op (mine | theirs)
  · exact owed op mine
  · exact tidy.owed op (.inr theirs)

theorem idle_elsewhere (tidy : Tidy s cpu own other) (sync : own.sync = some op) : other = .idle :=
  tidy.quiet.1.resolve_left (fun none => nomatch sync.symm.trans none)

theorem flush_again_seen {drained : Nat} (tidy : Tidy s cpu own (s.cpus (!cpu))) (still : own.depth = 0) (free : own.locks = false)
    (hand : own.hand = []) (sync : own.sync = some op) (emptied : drained = 0 → s.queue = []) :
    Seen (flushAgain s cpu drained op) cpu := by
  have idle := idle_elsewhere tidy sync
  rw [flushAgain]
  split
  next none =>
    refine seen_at ⟨tidy.flat, (free ▸ tidy.lock :), .inl rfl, ?_, ⟨.inr idle, ?_⟩, (still ▸ tidy.depth :), (hand ▸ tidy.order :), ?_,
      ⟨emptied none, tidy.emptied.2⟩, tidy.syncs⟩
    · rw [idle]
      exact .inr rfl
    · rw [idle]
      exact .inl rfl
    · exact fun other both => tidy.owed other (both.imp (fun same => sync.trans same) id)
  refine drain_seen 64 tidy still free hand ?_ (.inr idle) (fun other same => tidy.owed other (.inl (sync.trans same)))
  rw [idle]
  rfl

theorem free_elsewhere (tidy : Tidy s cpu own other) (unlocked : own.locks = false) (free : s.lock = none) : other.locks = false := by
  have lock := tidy.lock
  rw [free, unlocked] at lock
  cases on : other.locks with
  | false => rfl
  | true =>
    rw [on] at lock
    cases lock

section Next

variable {request : AsyncRequest} {hooks drained budget done : Nat} {sync : Option SyncOp} {entry : Submitted} (tidy : Seen s cpu)

include tidy

theorem submit_begins (free : s.lock = none) (idle : s.cpus cpu = .idle) (theirs : (s.cpus (!cpu)).sync = none) :
    Seen ({ s with lock := some cpu }.at cpu (.submit request)) cpu := by
  rw [Seen, idle] at tidy
  refine @seen_at { s with lock := some cpu } cpu _
    ⟨tidy.flat, rfl, .inr (free_elsewhere tidy rfl free), .inl rfl, ⟨.inl rfl, .inl theirs⟩, tidy.depth, tidy.order, ?_,
      ⟨trivial, tidy.emptied.2⟩, tidy.syncs⟩
  exact fun op both => tidy.owed op (both.imp nofun id)

theorem submit_seen (here : s.cpus cpu = .submit request) : Seen (asyncIoNext s cpu hooks) cpu := by
  rw [Seen, here] at tidy
  rw [asyncIoNext, here]
  have theirs : (s.cpus (!cpu)).sync = none := tidy.quiet.2.resolve_right nofun
  have free : (s.cpus (!cpu)).locks = false := tidy.locks.resolve_left nofun
  have left : Tidy { s with lock := none } cpu .idle (s.cpus (!cpu)) :=
    tidy_move tidy (by rw [free]; rfl) (.inl rfl) (.inl rfl) nofun (.inl rfl) tidy.depth rfl nofun trivial
  dsimp only
  split
  · exact seen_leave left
  have added := @seen_leave
    { s with lock := none, queue := s.queue ++ [⟨s.accepted.length, cpu, request⟩], accepted := s.accepted ++ [⟨s.accepted.length,
      cpu, request⟩] } cpu
  refine added ⟨left.flat, left.lock, left.locks, left.alone, left.quiet, left.depth, ?_, ?_, ⟨trivial, emptied_none _ theirs⟩,
    left.syncs⟩
  · show s.accepted ++ _ = _
    rw [tidy.order]
    simp [Place.hand]
  · exact fun op both entry inside => List.mem_append_left _ (left.owed op both entry inside)

theorem loop_seen (here : s.cpus cpu = .loop budget done sync) : Seen (asyncIoNext s cpu hooks) cpu := by
  rw [Seen, here] at tidy
  rw [asyncIoNext, here]
  dsimp only
  split
  next taken =>
    exact seen_at (tidy_move tidy rfl (.inr (free_elsewhere tidy rfl taken.2)) tidy.alone nofun tidy.quiet.1 tidy.depth rfl
      (fun _ => id) trivial)
  next stays =>
    refine seen_at (tidy_move tidy tidy.lock (.inl rfl) tidy.alone nofun tidy.quiet.1 tidy.depth rfl (fun _ => id) ?_)
    cases sync with
    | none => trivial
    | some op =>
      have free : s.lock = none := by
        rw [tidy.lock, idle_elsewhere tidy rfl]
        rfl
      obtain ⟨some, done⟩ := not_or.mp (fun going => stays ⟨going, free⟩)
      exact .inl ⟨some, Nat.not_lt.mp done⟩

theorem locked_seen (here : s.cpus cpu = .locked budget done sync) : Seen (asyncIoNext s cpu hooks) cpu := by
  rw [Seen, here] at tidy
  rw [asyncIoNext, here]
  have free : (s.cpus (!cpu)).locks = false := tidy.locks.resolve_left nofun
  have theirs : (s.cpus (!cpu)).drains = false := tidy.alone.resolve_left (by simp [Place.drains, Place.depth])
  dsimp only
  split
  next none =>
    refine seen_at (tidy_move tidy (by rw [free]; rfl) (.inl rfl) tidy.alone nofun tidy.quiet.1 tidy.depth rfl (fun _ => id) ?_)
    cases sync with
    | none => trivial
    | some op => exact .inr none
  next entry rest taken =>
    have order := tidy.order
    rw [taken, hand_drains theirs] at order
    have emptied := emptied_none rest (sync_drains theirs)
    refine @seen_at { s with lock := none, queue := rest } cpu _ ⟨tidy.flat, by rw [free]; rfl, .inl rfl, tidy.alone,
      ⟨tidy.quiet.1, .inl (sync_drains theirs)⟩, tidy.depth, ?_, tidy.owed, ⟨trivial, emptied⟩, tidy.syncs⟩
    show s.accepted = _
    rw [order, hand_drains theirs]
    rfl

theorem execute_seen (here : s.cpus cpu = .execute budget done sync entry) : Seen (asyncIoNext s cpu hooks) cpu := by
  rw [Seen, here] at tidy
  rw [asyncIoNext, here]
  have theirs : (s.cpus (!cpu)).drains = false := tidy.alone.resolve_left (by simp [Place.drains, Place.depth])
  refine @seen_at { s with log := s.log ++ [.queued entry] } cpu _
    ⟨tidy.flat, tidy.lock, .inl rfl, tidy.alone, ⟨tidy.quiet.1, .inl (sync_drains theirs)⟩, tidy.depth, ?_, tidy.owed,
      ⟨trivial, tidy.emptied.2⟩, syncs_snoc tidy.syncs nofun⟩
  show s.accepted = executions (s.log ++ [.queued entry]) ++ _
  rw [executions_snoc, tidy.order]
  simp [Place.hand]

theorem hooks_seen (here : s.cpus cpu = .hooks budget done sync) : Seen (asyncIoNext s cpu hooks) cpu := by
  rw [Seen, here] at tidy
  rw [asyncIoNext, here]
  have depth : s.drainDepth - 1 = (s.cpus (!cpu)).depth := by
    rw [tidy.depth]
    exact Nat.add_sub_cancel_left ..
  dsimp only
  split
  · exact seen_leave (tidy_move tidy tidy.lock (.inl rfl) (.inl rfl) nofun (.inl rfl) (depth.trans (Nat.zero_add _).symm) rfl nofun
      trivial)
  next op =>
    refine seen_at (tidy_move tidy tidy.lock (.inl rfl) ?_ nofun tidy.quiet.1 (depth.trans (Nat.zero_add _).symm) rfl (fun _ => id)
      (fun none => ?_))
    · rw [idle_elsewhere tidy rfl]
      exact .inr rfl
    obtain full | empty := tidy.emptied.1
    · rw [if_pos full] at none
      omega
    · exact empty

theorem flushed_seen (here : s.cpus cpu = .flushed drained op) : Seen (asyncIoNext s cpu hooks) cpu := by
  rw [Seen, here] at tidy
  rw [asyncIoNext, here]
  dsimp only
  split
  next free =>
    exact seen_at (tidy_move tidy rfl (.inr (free_elsewhere tidy rfl free)) tidy.alone nofun tidy.quiet.1 tidy.depth rfl
      (fun _ => id) tidy.emptied.1)
  · exact flush_again_seen tidy rfl rfl rfl rfl tidy.emptied.1

theorem testing_seen (here : s.cpus cpu = .testing drained op) : Seen (asyncIoNext s cpu hooks) cpu := by
  rw [Seen, here] at tidy
  rw [asyncIoNext, here]
  have free : (s.cpus (!cpu)).locks = false := tidy.locks.resolve_left nofun
  have opened : Tidy { s with lock := none } cpu (.flushed drained op) (s.cpus (!cpu)) :=
    tidy_move tidy (by rw [free]; rfl) (.inl rfl) tidy.alone nofun tidy.quiet.1 tidy.depth rfl (fun _ => id) tidy.emptied.1
  exact flush_again_seen opened rfl rfl rfl rfl tidy.emptied.1

theorem last_seen (here : s.cpus cpu = .last op) : Seen (asyncIoNext s cpu hooks) cpu := by
  rw [Seen, here] at tidy
  rw [asyncIoNext, here]
  have all : s.accepted = executions s.log := by
    rw [tidy.order, idle_elsewhere tidy rfl, show s.queue = [] from tidy.emptied.1]
    simp [Place.hand]
  refine @seen_leave { s with log := s.log ++ [.sync op] } cpu ⟨tidy.flat, tidy.lock, .inl rfl, .inl rfl, ⟨.inl rfl, .inr rfl⟩,
    tidy.depth, ?_, ?_, ⟨trivial, tidy.emptied.2⟩, syncs_snoc tidy.syncs ?_⟩
  · show s.accepted = _
    rw [tidy.order]
    simp [Place.hand, executions]
  · rintro other (none | theirs)
    · cases none
    · exact tidy.owed other (.inr theirs)
  rintro other same entry inside
  cases same
  exact mem_executions (all ▸ tidy.owed op (.inl rfl) entry inside)

theorem next_seen : Seen (asyncIoNext s cpu hooks) cpu := by
  cases here : s.cpus cpu with
  | idle =>
    rw [asyncIoNext, here]
    exact tidy
  | submit => exact submit_seen tidy here
  | loop => exact loop_seen tidy here
  | locked => exact locked_seen tidy here
  | execute => exact execute_seen tidy here
  | hooks => exact hooks_seen tidy here
  | flushed => exact flushed_seen tidy here
  | testing => exact testing_seen tidy here
  | last => exact last_seen tidy here

end Next

theorem async_step_seen {event : AsyncEvent} {next : AsyncIo} (undisturbed : Undisturbed s event)
    (done : asyncStep s event = .ok next)
    (both : ∀ cpu, Seen s cpu) : ∃ cpu, Seen next cpu := by
  cases event with
  | submit cpu request =>
    rw [asyncStep, AsyncIo.interrupt, if_pos undisturbed.1] at done
    rw [← Except.ok.inj done]
    split
    next begins => exact ⟨cpu, submit_begins (both cpu) begins.2 undisturbed.1 undisturbed.2⟩
    · exact ⟨cpu, both cpu⟩
  | drain cpu budget =>
    have tidy := both cpu
    rw [Seen, undisturbed.1] at tidy
    rw [asyncStep, AsyncIo.interrupt, if_pos undisturbed.1] at done
    rw [← Except.ok.inj done]
    exact ⟨cpu, drain_seen budget tidy rfl rfl rfl undisturbed.2 (.inl rfl) nofun⟩
  | sync cpu request =>
    have tidy := both cpu
    obtain ⟨idle, other⟩ := undisturbed
    rw [Seen, idle] at tidy
    have depth : s.drainDepth = 0 := by
      rw [tidy.depth, other]
      rfl
    rw [asyncStep, if_neg (not_not.mpr depth), AsyncIo.interrupt, if_pos idle] at done
    rw [← Except.ok.inj done]
    refine ⟨cpu, drain_seen 64 tidy rfl rfl rfl (by rw [other]; rfl) (.inr other) (fun op same entry inside => ?_)⟩
    cases same
    exact (List.mem_filter.mp inside).1
  | next cpu hooks =>
    rw [asyncStep] at done
    rw [← Except.ok.inj done]
    exact ⟨cpu, next_seen (both cpu)⟩

theorem async_io_in_order (events : List AsyncEvent) (undisturbed : Permitted asyncStep Undisturbed asyncIoInit events) :
    Always asyncStep InOrder asyncIoInit events := by
  have all {s : AsyncIo} {cpu : Bool} (seen : Seen s cpu) : ∀ cpu, Seen s cpu := by
    have swapped := tidy_swap seen
    intro other
    cases cpu <;> cases other <;> first | exact seen | exact swapped
  have start : ∀ cpu, Seen asyncIoInit cpu := fun _ =>
    ⟨rfl, rfl, .inl rfl, .inl rfl, ⟨.inl rfl, .inl rfl⟩, rfl, rfl, nofun, ⟨trivial, trivial⟩,
      fun _ _ _ same => by simp [asyncIoInit] at same⟩
  refine permitted_always (fun s event next (both : ∀ cpu, Seen s cpu) allowed done => ?_) start
    (fun s seen => ⟨⟨_, (seen true).order, ?_⟩, (seen true).syncs⟩) undisturbed
  · obtain ⟨cpu, seen⟩ := async_step_seen allowed done both
    exact all seen
  · simp [AsyncIo.hands, (seen true).flat]

def outByte (port : Nat) : AsyncRequest := ⟨0, 1, 1, port, false⟩

def nexts (cpu : Bool) (count : Nat) : List AsyncEvent := List.replicate count (.next cpu 0)

theorem request_before_sync : Always asyncStep InOrder asyncIoInit
    ([.submit true (outByte 0x80)] ++ nexts true 1 ++ [.drain true 16] ++ nexts true 1 ++ [.submit false (outByte 0x81)] ++
      nexts true 6 ++ [.sync true (outByte 0x82)] ++ nexts true 9) :=
  async_io_in_order _ (by decide)

def firstTaken : List AsyncEvent :=
  [.submit true (outByte 0x80)] ++ nexts true 1 ++ [.submit true (outByte 0x81)] ++ nexts true 1 ++ [.drain true 0] ++ nexts true 2

-- CPU true holds the first request while CPU false, or its own tick, executes the second. CPU false does not wait for its request.
theorem requests_out_of_order :
    (∃ s, run asyncStep asyncIoInit (firstTaken ++ [.drain false 0] ++ nexts false 3) = .ok s ∧ ¬ InOrder s) ∧
    (∃ s, run asyncStep asyncIoInit (firstTaken ++ [.drain true 16] ++ nexts true 3) = .ok s ∧ ¬ InOrder s) ∧
    (∃ s, run asyncStep asyncIoInit
      ([.submit false (outByte 0x80)] ++ nexts false 1 ++ [.drain true 0] ++ nexts true 2 ++ [.sync false (outByte 0x81)] ++
      nexts false 1) = .ok s ∧ ¬ InOrder s) := by
  refine ⟨⟨_, rfl, fun inOrder => ?_⟩, ⟨_, rfl, fun inOrder => ?_⟩, ⟨_, rfl, fun inOrder => ?_⟩⟩
  · obtain ⟨pending, same, -⟩ := inOrder.order
    cases (List.cons.inj same).1
  · obtain ⟨pending, same, -⟩ := inOrder.order
    cases (List.cons.inj same).1
  · have := inOrder.syncs [] ⟨outByte 0x81, [⟨0, false, outByte 0x80⟩]⟩ [] rfl _ (List.mem_singleton_self _)
    cases this

end Lyr.Dev
