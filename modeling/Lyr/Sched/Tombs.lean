import Lyr.Sched.Reap

set_option autoImplicit false

namespace Lyr.Sched

open Lyr.Lib Function

def Sole {α β : Type} (holds : α → β → Prop) : Prop := ∀ x a b, holds x a → holds x b → a = b

theorem sole_handed {α β : Type} (holds after : α → β → Prop) (thing : α) (new : β) (alone : Sole holds)
    (kept : ∀ x holder, x ≠ thing → after x holder → holds x holder) (taken : ∀ holder, after thing holder → holder = new) :
    Sole after := by
  intro x a b first second
  by_cases same : x = thing
  · subst same
    rw [taken a first, taken b second]
  · exact alone x a b (kept x a same first) (kept x b same second)

-- With the CPU that finishes it, on a reap list, or with a reaper.
inductive Tomb where
  | leaving (c : Nat)
  | listed (c : Nat)
  | held (c : Nat)
  deriving DecidableEq, Repr

def Lies (w : ReapWorld) (t : Nat) : Tomb → Prop
  | .leaving c => w.leaving c = some t
  | .listed c => t ∈ w.reapList c
  | .held c => w.reaping c = some t

structure TombsSound (w : ReapWorld) : Prop where
  alive : ∀ c, c < w.cpuCount → ∃ thread, w.threads (w.current c) = some thread
  dead : ∀ t tomb, Lies w t tomb → ∃ thread, w.threads t = some thread ∧ thread.zombie = true
  buried : ∀ t thread, w.threads t = some thread → thread.zombie = true → ∃ tomb, Lies w t tomb
  sole : Sole (Lies w)
  single : ∀ c, (w.reapList c).Nodup
  near : ∀ t tomb, Lies w t tomb → ∀ d, d < w.cpuCount → w.current d = t → tomb = .leaving d ∨ tomb = .listed d
  unborn : ∀ t, w.nextThread ≤ t → w.threads t = none
  tids : ∀ t, w.tidsFreed t = if t < w.nextThread ∧ w.threads t = none then 1 else 0

def SameTombs (w after : ReapWorld) : Prop :=
  after.cpuCount = w.cpuCount ∧ after.threads = w.threads ∧ after.current = w.current ∧ after.leaving = w.leaving ∧
    after.reapList = w.reapList ∧ after.reaping = w.reaping ∧ after.nextThread = w.nextThread ∧ after.tidsFreed = w.tidsFreed

theorem tombs_same (w after : ReapWorld) (same : SameTombs w after) (sound : TombsSound w) : TombsSound after := by
  obtain ⟨cpus, threads, current, leaving, listed, reaping, next, tids⟩ := same
  have lies : Lies after = Lies w := by
    funext t tomb
    cases tomb <;> simp only [Lies, leaving, listed, reaping]
  constructor
  all_goals simp only [lies, cpus, threads, current, listed, next, tids]
  · exact sound.alive
  · exact sound.dead
  · exact sound.buried
  · exact sound.sole
  · exact sound.single
  · exact sound.near
  · exact sound.unborn
  · exact sound.tids

variable {w after : ReapWorld} {c t : Nat} {event : ReapEvent} {thread : MortalThread} {process : MortalProcess}

def ReapWorld.finish (w : ReapWorld) (c t : Nat) (thread : MortalThread) (process : MortalProcess) (reapProcess : Bool) : ReapWorld :=
  { (w.setThread t { thread with zombie := true, reapProcess }).setProcess thread.process process with
    leaving := update w.leaving c (some t) }

inductive ReapEffect (w : ReapWorld) : ReapEvent → ReapWorld → Prop where
  | refused {event : ReapEvent} : ReapEffect w event w
  | spawned {waitable : Bool} : ReapEffect w (.spawn waitable) (spawnProcess w waitable)
  | flagged {event : ReapEvent} {p : Nat} {process changed : MortalProcess} (present : w.processes p = some process)
    (members : changed.threads = process.threads) (linked : changed.linked = process.linked)
      (zombie : changed.zombie = process.zombie)
    (destroyed : changed.destroyed = process.destroyed) (dying : process.dying = true → changed.dying = true) :
    ReapEffect w event (w.setProcess p changed)
  | created {p : Nat} {process : MortalProcess} (present : w.processes p = some process) (living : ¬process.dying = true) :
    ReapEffect w (.create p) { (w.setProcess p { process with threads := w.nextThread :: process.threads }).setThread w.nextThread
      ⟨p, false, false, false⟩ with nextThread := w.nextThread + 1 }
  | switched {c t : Nat} {thread : MortalThread} (present : w.threads t = some thread) (awake : thread.zombie = false) :
    ReapEffect w (.switch c t) { w with current := update w.current c t }
  | finished {c t : Nat} {thread : MortalThread} {process : MortalProcess} (present : w.threads t = some thread)
    (awake : thread.zombie = false)
    (found : w.processes thread.process = some process) (free : w.leaving c = none)
    (alone : ∀ other, other < w.cpuCount → other ≠ c → w.current other ≠ t) : ReapEffect w (.finish c t)
      (w.finish c t thread (removeFrom thread.process process t).1 (removeFrom thread.process process t).2)
  | queued {c t : Nat} (inRange : c < w.cpuCount) (left : w.leaving c = some t) : ReapEffect w (.queueReap c)
      { w with leaving := update w.leaving c none, reapList := update w.reapList c (t :: w.reapList c) }
  | collected {waiter p : Nat} {process : MortalProcess} (present : w.processes p = some process) (linked : process.linked = true)
    (zombie : process.zombie = true) : ReapEffect w (.collect waiter p)
      { w.setProcess p { process with linked := false } with collecting := update w.collecting waiter (some p) }
  | waited {waiter p : Nat} (collected : w.collecting waiter = some p) : ReapEffect w (.destroyCollected waiter)
      (processDestroyed { w with collecting := update w.collecting waiter none } p)
  | taken {c t : Nat} (free : w.reaping c = none) (inside : t ∈ w.reapList c) (other : t ≠ w.current c) : ReapEffect w (.takeReap c)
      { w with reapList := update w.reapList c ((w.reapList c).erase t), reaping := update w.reaping c (some t) }
  | freed {c t : Nat} {thread : MortalThread} (took : w.reaping c = some t) (present : w.threads t = some thread) : ReapEffect w
    (.reapThread c)
      { w with
        threads := update w.threads t none, reaping := update w.reaping c none, tidsFreed := update w.tidsFreed t (w.tidsFreed t + 1)
        doomed := if thread.reapProcess then update w.doomed c (some thread.process) else w.doomed }
  | reaped {c p : Nat} (doomed : w.doomed c = some p) : ReapEffect w (.destroyReaped c)
      (processDestroyed { w with doomed := update w.doomed c none } p)

theorem reap_step_effect (w : ReapWorld) (event : ReapEvent) : ReapEffect w event (reapStep w event) := by
  cases event with
  | spawn waitable => exact .spawned
  | reparent p waitable =>
    simp only [reapStep]
    split
    · exact .refused
    next present => exact .flagged present rfl rfl rfl rfl id
  | kill p =>
    simp only [reapStep]
    split
    · exact .refused
    next present => exact .flagged present rfl rfl rfl rfl (fun _ => rfl)
  | create p =>
    simp only [reapStep, createThread]
    split
    · exact .refused
    split
    · exact .refused
    next present living => exact .created present living
  | switch c t =>
    simp only [reapStep]
    split
    next can =>
      obtain ⟨thread, present, awake⟩ := (Option.any_eq_true _ _).mp can.2.2.1
      exact .switched present (by simpa using awake)
    · exact .refused
  | finish c t =>
    simp only [reapStep, finishThread]
    split
    next can =>
      split
      · exact .refused
      next present =>
      split
      · exact .refused
      next running =>
      split
      · exact .refused
      next found => exact .finished present (by simpa using fun zombie => running (Or.inl zombie)) found can.2.1 can.2.2
    · exact .refused
  | queueReap c =>
    simp only [reapStep, threadQueueReap]
    split
    next inRange =>
      split
      · exact .refused
      next left => exact .queued inRange left
    · exact .refused
  | collect waiter p =>
    simp only [reapStep, collectZombie]
    split
    · exact .refused
    split
    next present can => exact .collected present can.1 can.2.1
    · exact .refused
  | destroyCollected waiter =>
    simp only [reapStep, destroyCollected]
    split
    · exact .refused
    next collected => exact .waited collected
  | takeReap c =>
    simp only [reapStep, takeReap]
    split
    · split
      · exact .refused
      next free =>
      split
      · exact .refused
      next found =>
        have matched := List.find?_some found
        exact .taken (by grind) (List.mem_of_find?_eq_some found) (of_decide_eq_true matched)
    · exact .refused
  | reapThread c =>
    simp only [reapStep, reapThread]
    split
    · split
      · exact .refused
      split
      · exact .refused
      next took _ _ present => exact .freed took present
    · exact .refused
  | destroyReaped c =>
    simp only [reapStep, destroyReaped]
    split
    · split
      · exact .refused
      next doomed => exact .reaped doomed
    · exact .refused

section

variable (sound : TombsSound w)
include sound

theorem destroyed_tombs {collecting doomed : Nat → Option Nat} (p : Nat) :
    TombsSound (processDestroyed { w with collecting, doomed } p) := by
  refine tombs_same w _ ?_ sound
  unfold processDestroyed
  cases w.processes p with
  | none => exact ⟨rfl, rfl, rfl, rfl, rfl, rfl, rfl, rfl⟩
  | some process =>
    dsimp only
    split <;> exact ⟨rfl, rfl, rfl, rfl, rfl, rfl, rfl, rfl⟩

-- The other threads stay where they are.
theorem moved_tombs (t : Nat) (place : Tomb) (lies : ∀ u tomb, Lies after u tomb ↔ if u = t then tomb = place else Lies w u tomb)
    (frame : after.cpuCount = w.cpuCount ∧ after.current = w.current ∧ after.nextThread = w.nextThread ∧
      after.tidsFreed = w.tidsFreed)
    (others : ∀ u, u ≠ t → after.threads u = w.threads u) (was : w.threads t ≠ none)
    (dead : ∃ thread, after.threads t = some thread ∧ thread.zombie = true) (single : ∀ d, (after.reapList d).Nodup)
    (near : ∀ d, d < w.cpuCount → w.current d = t → place = .leaving d ∨ place = .listed d) : TombsSound after := by
  obtain ⟨alive, _, buried, sole, _, _, unborn, tids⟩ := sound
  obtain ⟨cpus, current, next, freed⟩ := frame
  have alone : Sole (Lies after) := by
    refine sole_handed (Lies w) _ t place sole (fun u tomb different lying => ?_) (fun tomb lying => ?_)
    · rwa [lies, if_neg different] at lying
    · rwa [lies, if_pos rfl] at lying
  refine ⟨?_, ?_, ?_, alone, single, ?_, ?_, ?_⟩
  all_goals simp only [cpus, current, next, freed, lies]
  · grind
  · grind
  · intro u other found zombie
    by_cases same : u = t
    · exact ⟨place, by rw [if_pos same]⟩
    rw [others u same] at found
    obtain ⟨tomb, old⟩ := buried u other found zombie
    exact ⟨tomb, by rwa [if_neg same]⟩
  · grind
  · grind
  · grind

theorem finish_tombs {changed : MortalProcess} {reapProcess : Bool} (present : w.threads t = some thread)
    (awake : thread.zombie = false)
    (free : w.leaving c = none) (alone : ∀ other, other < w.cpuCount → other ≠ c → w.current other ≠ t) :
    TombsSound (w.finish c t thread changed reapProcess) := by
  have nowhere (tomb : Tomb) (lying : Lies w t tomb) : False := by
    obtain ⟨other, found, zombie⟩ := sound.dead t tomb lying
    grind
  refine moved_tombs sound t (.leaving c) (fun u tomb => ?_) ⟨rfl, rfl, rfl, rfl⟩ (fun u different => update_of_ne different _ _)
    (by rw [present]; exact Option.some_ne_none thread) ⟨_, update_self .., rfl⟩ sound.single (fun d inRange current => .inl ?_)
  · have before := nowhere tomb
    cases tomb
    all_goals simp only [Lies, ReapWorld.finish, ReapWorld.setThread, ReapWorld.setProcess, update_apply] at before ⊢
    all_goals grind
  · by_contra different
    exact alone d inRange (fun same => different (by rw [same])) current

theorem queue_tombs (left : w.leaving c = some t) :
    TombsSound { w with leaving := update w.leaving c none, reapList := update w.reapList c (t :: w.reapList c) } := by
  have here (tomb : Tomb) (lying : Lies w t tomb) : tomb = .leaving c := sound.sole t tomb (.leaving c) lying left
  have dead := sound.dead t (.leaving c) left
  refine moved_tombs sound t (.listed c) (fun u tomb => ?_) ⟨rfl, rfl, rfl, rfl⟩ (fun _ _ => rfl) (by grind) dead
    ((forall_update_iff _ (fun _ => List.Nodup)).mpr ⟨List.nodup_cons.mpr ⟨?_, sound.single c⟩, fun d _ => sound.single d⟩)
    (fun d inRange current => ?_)
  · have before := here tomb
    cases tomb
    all_goals simp only [Lies, update_apply] at before ⊢
    all_goals grind
  · exact fun inside => nomatch here (.listed c) inside
  · obtain place | place := sound.near t (.leaving c) left d inRange current
    · cases place
      exact .inr rfl
    · cases place

theorem take_tombs (free : w.reaping c = none) (inside : t ∈ w.reapList c) (other : t ≠ w.current c) :
    TombsSound { w with reapList := update w.reapList c ((w.reapList c).erase t), reaping := update w.reaping c (some t) } := by
  have here (tomb : Tomb) (lying : Lies w t tomb) : tomb = .listed c := sound.sole t tomb (.listed c) lying inside
  have dead := sound.dead t (.listed c) inside
  have erased (u : Nat) := (sound.single c).mem_erase_iff (a := u) (b := t)
  refine moved_tombs sound t (.held c) (fun u tomb => ?_) ⟨rfl, rfl, rfl, rfl⟩ (fun _ _ => rfl) (by grind) dead
    ((forall_update_iff _ (fun _ => List.Nodup)).mpr ⟨(sound.single c).erase t, fun d _ => sound.single d⟩)
    (fun d inRange current => ?_)
  · have before := here tomb
    cases tomb
    all_goals simp only [Lies, update_apply] at before ⊢
    all_goals grind
  · obtain place | place := sound.near t (.listed c) inside d inRange current
    · cases place
    · cases place
      exact absurd current.symm other

theorem reap_thread_tombs {doomed : Nat → Option Nat} (took : w.reaping c = some t) (present : w.threads t = some thread) :
    TombsSound { w with
      threads := update w.threads t none, reaping := update w.reaping c none, tidsFreed :=
        update w.tidsFreed t (w.tidsFreed t + 1), doomed } := by
  obtain ⟨alive, dead, buried, sole, single, near, unborn, tids⟩ := sound
  have lies (u : Nat) (tomb : Tomb) : Lies { w with
      threads := update w.threads t none, reaping := update w.reaping c none, tidsFreed := update w.tidsFreed t (w.tidsFreed t + 1),
        doomed } u tomb ↔
      Lies w u tomb ∧ u ≠ t := by
    have here := fun lying => sole t tomb (.held c) lying took
    cases tomb
    all_goals simp only [Lies, update_apply] at here ⊢
    all_goals grind
  have stopped (d : Nat) (inRange : d < w.cpuCount) : w.current d ≠ t := fun current => by
    obtain place | place := near t (.held c) took d inRange current
    · cases place
    · cases place
  refine ⟨?_, ?_, ?_, fun u a b first second => sole u a b ((lies u a).mp first).1 ((lies u b).mp second).1, single, ?_, ?_, ?_⟩
  all_goals simp only [lies, update_apply]
  · intro d inRange
    rw [if_neg (stopped d inRange)]
    exact alive d inRange
  · intro u tomb lying
    rw [if_neg lying.2]
    exact dead u tomb lying.1
  · intro u other found zombie
    have different : u ≠ t := by grind
    rw [if_neg different] at found
    obtain ⟨tomb, old⟩ := buried u other found zombie
    exact ⟨tomb, old, different⟩
  · intro u tomb lying d inRange current
    exact near u tomb lying.1 d inRange current
  · grind
  · grind

theorem effect_tombs (effect : ReapEffect w event after) : TombsSound after := by
  cases effect with
  | refused => exact sound
  | spawned | flagged | collected => exact tombs_same w _ ⟨rfl, rfl, rfl, rfl, rfl, rfl, rfl, rfl⟩ sound
  | created present living =>
    obtain ⟨alive, dead, buried, sole, single, near, unborn, tids⟩ := sound
    refine ⟨?_, ?_, ?_, sole, single, near, ?_, ?_⟩
    all_goals simp only [ReapWorld.setThread, ReapWorld.setProcess, update_apply]
    · grind
    · intro t tomb lies
      obtain ⟨thread, found, zombie⟩ := dead t tomb lies
      grind
    · intro t thread found zombie
      obtain ⟨tomb, lies⟩ := buried t thread (by grind) zombie
      exact ⟨tomb, lies⟩
    · grind
    · grind
  | switched present awake =>
    obtain ⟨alive, dead, buried, sole, single, near, unborn, tids⟩ := sound
    refine ⟨?_, dead, buried, sole, single, ?_, unborn, tids⟩
    all_goals simp only [update_apply]
    · grind
    intro u tomb lies d inRange running
    obtain ⟨other, found, zombie⟩ := dead u tomb lies
    exact near u tomb lies d inRange (by grind)
  | finished present awake found free alone => exact finish_tombs sound present awake free alone
  | queued inRange left => exact queue_tombs sound left
  | waited | reaped => exact destroyed_tombs sound _
  | taken free inside other => exact take_tombs sound free inside other
  | freed took present => exact reap_thread_tombs sound took present

end

end Lyr.Sched
