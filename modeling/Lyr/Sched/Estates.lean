import Lyr.Sched.Tombs

set_option autoImplicit false

namespace Lyr.Sched

open Lyr.Lib Function

-- Who destroys an ended process: whoever waits while it is listed, the waiter that unlinked it, the reaper of its last thread, or it
-- is done.
inductive Heir where
  | list
  | waiter (waiter : Nat)
  | thread (t : Nat)
  | reaper (c : Nat)
  | gone
  deriving DecidableEq, Repr

def Holds (w : ReapWorld) (p : Nat) : Heir → Prop
  | .list => (w.processes p).any (fun process => process.linked && process.zombie) = true
  | .waiter waiter => w.collecting waiter = some p
  | .thread t => (w.threads t).any (fun thread => thread.reapProcess && thread.process == p) = true
  | .reaper c => w.doomed c = some p
  | .gone => (w.processes p).any MortalProcess.destroyed = true

structure EstatesSound (w : ReapWorld) : Prop where
  homes : ∀ t thread, w.threads t = some thread → ∃ process, w.processes thread.process = some process
  members : ∀ p process, w.processes p = some process → ∀ t, t ∈ process.threads ↔
    ∃ thread, w.threads t = some thread ∧ thread.process = p ∧ thread.zombie = false
  nodup : ∀ p process, w.processes p = some process → process.threads.Nodup
  ended : ∀ p heir, Holds w p heir → p ≠ 0 ∧ ∃ process, w.processes p = some process ∧ process.dying = true ∧ process.threads = []
  sole : Sole (Holds w)
  pids : ∀ p, w.pidsFreed p = if (w.processes p).any MortalProcess.destroyed = true then 1 else 0
  unborn : ∀ t, w.nextThread ≤ t → w.threads t = none
  unmade : ∀ p, w.nextProcess ≤ p → w.processes p = none

def SameEstates (w after : ReapWorld) : Prop :=
  after.threads = w.threads ∧ after.processes = w.processes ∧ after.collecting = w.collecting ∧ after.doomed = w.doomed ∧
    after.nextThread = w.nextThread ∧ after.nextProcess = w.nextProcess ∧ after.pidsFreed = w.pidsFreed

theorem estates_same (w after : ReapWorld) (same : SameEstates w after) (sound : EstatesSound w) : EstatesSound after := by
  obtain ⟨threads, processes, collecting, doomed, nextThread, nextProcess, pids⟩ := same
  have holds : Holds after = Holds w := by
    funext p heir
    cases heir <;> simp only [Holds, threads, processes, collecting, doomed]
  constructor
  all_goals simp only [holds, threads, processes, nextThread, nextProcess, pids]
  · exact sound.homes
  · exact sound.members
  · exact sound.nodup
  · exact sound.ended
  · exact sound.sole
  · exact sound.pids
  · exact sound.unborn
  · exact sound.unmade

theorem live_unclaimed {w : ReapWorld} (sound : EstatesSound w) {t : Nat} {thread : MortalThread}
    (present : w.threads t = some thread)
    (awake : thread.zombie = false) (heir : Heir) : ¬Holds w thread.process heir := by
  intro holds
  obtain ⟨_, process, found, _, empty⟩ := sound.ended _ heir holds
  have inside := (sound.members _ process found t).mpr ⟨thread, present, rfl, awake⟩
  rw [empty] at inside
  cases inside

theorem touched_estates (w after : ReapWorld) (p : Nat) (process changed : MortalProcess) (present : w.processes p = some process)
    (members : changed.threads = process.threads) (dying : process.dying = true → changed.dying = true)
    (frame : after.threads = w.threads ∧ after.nextThread = w.nextThread ∧ after.nextProcess = w.nextProcess)
    (processes : after.processes = update w.processes p (some changed)) (sole : Sole (Holds after))
    (owed : ∀ q heir, Holds after q heir → ∃ old, Holds w q old)
    (pids : ∀ q, after.pidsFreed q = if (after.processes q).any MortalProcess.destroyed = true then 1 else 0)
    (sound : EstatesSound w) :
    EstatesSound after := by
  obtain ⟨threads, nextThread, nextProcess⟩ := frame
  refine ⟨?_, ?_, ?_, fun q heir held => ?_, sole, pids, ?_, ?_⟩
  all_goals simp only [threads, processes, nextThread, nextProcess, update_apply]
  · intro t thread found
    obtain ⟨other, there⟩ := sound.homes t thread found
    grind
  · intro q other found t
    by_cases same : q = p
    · subst same
      rw [if_pos rfl] at found
      cases found
      rw [members]
      exact sound.members q process present t
    · rw [if_neg same] at found
      exact sound.members q other found t
  · intro q other found
    by_cases same : q = p
    · rw [if_pos same] at found
      cases found
      rw [members]
      exact sound.nodup p process present
    · rw [if_neg same] at found
      exact sound.nodup q other found
  · obtain ⟨old, before⟩ := owed q heir held
    obtain ⟨nonzero, other, found, dead, empty⟩ := sound.ended q old before
    refine ⟨nonzero, ?_⟩
    grind
  · exact sound.unborn
  intro q late
  have missing := sound.unmade q late
  grind

variable {w after : ReapWorld} {c t p : Nat} {event : ReapEvent} {thread : MortalThread} {process changed : MortalProcess}

-- Nothing else changes hands.
theorem handed_estates (changed : MortalProcess) {old : Heir} (new : Heir) (present : w.processes p = some process)
    (members : changed.threads = process.threads)
    (dying : changed.dying = process.dying)
    (frame : after.threads = w.threads ∧ after.nextThread = w.nextThread ∧ after.nextProcess = w.nextProcess)
    (processes : after.processes = update w.processes p (some changed)) (held : Holds w p old)
    (kept : ∀ q heir, q ≠ p → Holds after q heir → Holds w q heir) (taken : ∀ heir, Holds after p heir → heir = new)
    (pids : ∀ q, after.pidsFreed q = if (after.processes q).any MortalProcess.destroyed = true then 1 else 0)
    (sound : EstatesSound w) :
    EstatesSound after := by
  refine touched_estates w after p process changed present members dying.trans frame processes
    (sole_handed (Holds w) _ p new sound.sole kept taken) (fun q heir found => ?_) pids sound
  by_cases same : q = p
  · exact ⟨old, same ▸ held⟩
  · exact ⟨heir, kept q heir same found⟩

section

variable (sound : EstatesSound w)
include sound

theorem flagged_estates (present : w.processes p = some process)
    (members : changed.threads = process.threads) (linked : changed.linked = process.linked)
    (zombie : changed.zombie = process.zombie)
    (destroyed : changed.destroyed = process.destroyed) (dying : process.dying = true → changed.dying = true) :
    EstatesSound (w.setProcess p changed) := by
  have holds : Holds (w.setProcess p changed) = Holds w := by
    funext q heir
    cases heir
    all_goals simp only [Holds, ReapWorld.setProcess, update_apply]
    · by_cases same : q = p <;> simp [same, present, linked, zombie]
    · by_cases same : q = p <;> simp [same, present, destroyed]
  refine touched_estates w _ p process changed present members dying ⟨rfl, rfl, rfl⟩ rfl (holds ▸ sound.sole)
    (fun q heir held => ⟨heir, holds ▸ held⟩) (fun q => ?_) sound
  simp only [ReapWorld.setProcess, update_apply, sound.pids q]
  by_cases same : q = p <;> simp [same, present, destroyed]

theorem spawn_estates (waitable : Bool) : EstatesSound (spawnProcess w waitable) := by
  have fresh := sound.unmade w.nextProcess le_rfl
  have holds : Holds (spawnProcess w waitable) = Holds w := by
    funext q heir
    cases heir
    all_goals simp only [Holds, spawnProcess, ReapWorld.setProcess, update_apply]
    · by_cases same : q = w.nextProcess <;> simp [same, fresh]
    · by_cases same : q = w.nextProcess <;> simp [same, fresh]
  obtain ⟨homes, members, nodup, ended, sole, pids, unborn, unmade⟩ := sound
  refine ⟨?_, ?_, ?_, fun q heir held => ?_, holds ▸ sole, ?_, unborn, ?_⟩
  all_goals simp only [spawnProcess, ReapWorld.setProcess, update_apply]
  · grind
  · intro q other found t
    by_cases same : q = w.nextProcess
    · subst same
      rw [if_pos rfl] at found
      cases found
      simp only [List.not_mem_nil, false_iff, not_exists]
      intro thread inside
      obtain ⟨process, present⟩ := homes t thread inside.1
      rw [inside.2.1, fresh] at present
      cases present
    · rw [if_neg same] at found
      exact members q other found t
  · grind
  · rw [holds] at held
    obtain ⟨nonzero, other, found, dead, empty⟩ := ended q heir held
    refine ⟨nonzero, other, ?_, dead, empty⟩
    grind
  · intro q
    rw [pids q]
    by_cases same : q = w.nextProcess <;> simp [same, fresh]
  · grind

theorem create_estates (present : w.processes p = some process) (living : ¬process.dying = true) :
    EstatesSound { (w.setProcess p { process with threads := w.nextThread :: process.threads }).setThread w.nextThread
      ⟨p, false, false, false⟩ with nextThread := w.nextThread + 1 } := by
  have fresh := sound.unborn w.nextThread le_rfl
  have unclaimed : ∀ heir, ¬Holds w p heir := by
    intro heir held
    obtain ⟨_, other, found, dead, _⟩ := sound.ended p heir held
    rw [present] at found
    cases found
    exact living dead
  have holds : ∀ q heir, Holds { (w.setProcess p { process with threads := w.nextThread :: process.threads }).setThread w.nextThread
      ⟨p, false, false, false⟩ with nextThread := w.nextThread + 1 } q heir ↔ Holds w q heir := by
    intro q heir
    cases heir
    all_goals simp only [Holds, ReapWorld.setProcess, ReapWorld.setThread, update_apply]
    · by_cases same : q = p <;> simp [same, present]
    · rename_i t
      by_cases same : t = w.nextThread <;> simp [same, fresh]
    · by_cases same : q = p <;> simp [same, present]
  obtain ⟨homes, members, nodup, ended, sole, pids, unborn, unmade⟩ := sound
  refine ⟨?_, ?_, ?_, fun q heir held => ?_, fun q a b first second => sole q a b ((holds q a).mp first) ((holds q b).mp second),
    ?_, ?_, ?_⟩
  all_goals simp only [ReapWorld.setProcess, ReapWorld.setThread, update_apply]
  · grind
  · intro q other found t
    by_cases same : q = p
    · subst same
      rw [if_pos rfl] at found
      cases found
      rw [List.mem_cons, members q process present t]
      by_cases new : t = w.nextThread <;> simp [new, fresh]
    rw [if_neg same] at found
    rw [members q other found t]
    by_cases new : t = w.nextThread
    · simp [new, fresh, Ne.symm same]
    · simp [new]
  · intro q other found
    by_cases same : q = p
    · subst same
      rw [if_pos rfl] at found
      cases found
      refine List.nodup_cons.mpr ⟨fun inside => ?_, nodup q process present⟩
      obtain ⟨thread, there, _⟩ := (members q process present w.nextThread).mp inside
      rw [fresh] at there
      cases there
    · rw [if_neg same] at found
      exact nodup q other found
  · rw [holds] at held
    have different : q ≠ p := fun same => unclaimed heir (same ▸ held)
    rw [if_neg different]
    exact ended q heir held
  · intro q
    rw [pids q]
    by_cases same : q = p <;> simp [same, present]
  · grind
  · grind

omit sound in
theorem remove_from_frame (p : Nat) (inside : t ∈ process.threads) :
    (removeFrom p process t).1.threads = process.threads.erase t ∧ (removeFrom p process t).1.linked = process.linked ∧
      (removeFrom p process t).1.destroyed = process.destroyed := by
  unfold removeFrom
  rw [if_pos inside]
  dsimp only
  split
  · split <;> exact ⟨rfl, rfl, rfl⟩
  · exact ⟨rfl, rfl, rfl⟩

omit sound in
theorem remove_from_heir (p : Nat) (process : MortalProcess) (t : Nat) (inside : t ∈ process.threads)
    (heir : (removeFrom p process t).2 = true ∨ (removeFrom p process t).1.zombie ≠ process.zombie) :
    p ≠ 0 ∧ process.threads.erase t = [] ∧ (removeFrom p process t).1.dying = true ∧
      ((removeFrom p process t).2 = true → (removeFrom p process t).1.zombie = process.zombie) := by
  unfold removeFrom at heir ⊢
  rw [if_pos inside] at heir ⊢
  dsimp only at heir ⊢
  split at heir
  · rename_i last
    rw [if_pos last]
    split <;> simp [last.1, last.2]
  · simp at heir

theorem finish_estates (c : Nat) (present : w.threads t = some thread) (awake : thread.zombie = false)
    (found : w.processes thread.process = some process) :
    EstatesSound (w.finish c t thread (removeFrom thread.process process t).1 (removeFrom thread.process process t).2) := by
  have unclaimed := live_unclaimed sound present awake
  have inside : t ∈ process.threads := (sound.members _ process found t).mpr ⟨thread, present, rfl, awake⟩
  have frame := remove_from_frame thread.process inside
  have becomes := remove_from_heir thread.process process t inside
  generalize removeFrom thread.process process t = removed at frame becomes ⊢
  obtain ⟨changed, reapProcess⟩ := removed
  obtain ⟨threads, linked, destroyed⟩ := frame
  dsimp only at threads linked destroyed becomes ⊢
  obtain ⟨homes, members, nodup, ended, sole, pids, unborn, unmade⟩ := sound
  have kept : ∀ q heir, q ≠ thread.process → Holds (w.finish c t thread changed reapProcess) q heir → Holds w q heir := by
    intro q heir different held
    cases heir
    all_goals simp only [Holds, ReapWorld.finish, ReapWorld.setThread, ReapWorld.setProcess, update_apply] at held ⊢
    · rwa [if_neg different] at held
    · exact held
    · rename_i u
      by_cases same : u = t
      · simp [same, Ne.symm different] at held
      · rwa [if_neg same] at held
    · exact held
    · rwa [if_neg different] at held
  have taken : ∀ heir, Holds (w.finish c t thread changed reapProcess) thread.process heir →
      heir = (if reapProcess then .thread t else .list) ∧ (reapProcess = true ∨ changed.zombie ≠ process.zombie) := by
    intro heir held
    have before := unclaimed heir
    cases heir
    all_goals simp only [Holds, ReapWorld.finish, ReapWorld.setThread, ReapWorld.setProcess, update_apply] at held before
    · grind
    · exact absurd held before
    · grind
    · exact absurd held before
    · grind
  refine ⟨?_, ?_, ?_, fun q heir held => ?_, sole_handed (Holds w) _ thread.process _ sole kept
    (fun heir held => (taken heir held).1),
    ?_, ?_, ?_⟩
  all_goals simp only [ReapWorld.finish, ReapWorld.setThread, ReapWorld.setProcess, update_apply]
  · grind
  · intro q other there u
    by_cases same : q = thread.process
    · subst same
      rw [if_pos rfl] at there
      cases there
      rw [threads, (nodup _ process found).mem_erase_iff, members _ process found u]
      by_cases self : u = t <;> simp [self]
    rw [if_neg same] at there
    rw [members q other there u]
    by_cases self : u = t
    · subst self
      simp [present, Ne.symm same]
    · simp [self]
  · intro q other there
    by_cases same : q = thread.process
    · rw [if_pos same] at there
      cases there
      rw [threads]
      exact (nodup _ process found).erase t
    · rw [if_neg same] at there
      exact nodup q other there
  · by_cases same : q = thread.process
    · rw [same] at held
      obtain ⟨nonzero, last, dying, _⟩ := becomes (taken heir held).2
      exact ⟨same ▸ nonzero, changed, by rw [if_pos same], dying, threads.trans last⟩
    · rw [if_neg same]
      exact ended q heir (kept q heir same held)
  · intro q
    rw [pids q]
    by_cases same : q = thread.process <;> simp [same, found, destroyed]
  · grind
  · grind

theorem collect_estates {waiter : Nat} (present : w.processes p = some process) (linked : process.linked = true)
    (zombie : process.zombie = true) :
    EstatesSound { w.setProcess p { process with linked := false } with collecting := update w.collecting waiter (some p) } := by
  have listed : Holds w p .list := by simp [Holds, present, linked, zombie]
  refine handed_estates { process with linked := false } (.waiter waiter) present rfl rfl ⟨rfl, rfl, rfl⟩ rfl listed
    (fun q heir different held => ?_) (fun heir held => ?_) (fun q => ?_) sound
  · cases heir
    all_goals simp only [Holds, ReapWorld.setProcess, update_apply] at held ⊢
    all_goals grind
  · have before := sound.sole p heir .list
    cases heir
    all_goals simp only [Holds, ReapWorld.setProcess, update_apply] at held before listed
    all_goals grind
  · simp only [ReapWorld.setProcess, update_apply, sound.pids q]
    by_cases same : q = p <;> simp [same, present]

omit sound in
theorem destroyed_estates (w : ReapWorld) (p : Nat) (collecting doomed : Nat → Option Nat) (heir : Heir) (ungone : heir ≠ .gone)
    (held : Holds w p heir) (released : ∀ q other, Holds { w with collecting, doomed } q other → Holds w q other ∧ other ≠ heir)
    (sound : EstatesSound w) : EstatesSound (processDestroyed { w with collecting, doomed } p) := by
  obtain ⟨nonzero, process, present, dying, empty⟩ := sound.ended p heir held
  have alive : ¬Holds w p .gone := fun gone => ungone (sound.sole p heir .gone held gone)
  have free : ∀ other, ¬Holds { w with collecting, doomed } p other := fun other found =>
    (released p other found).2 (sound.sole p other heir (released p other found).1 held)
  have changed : processDestroyed { w with collecting, doomed } p =
      { w.setProcess p { process with linked := false, destroyed := true } with
        collecting, doomed, pidsFreed := update w.pidsFreed p (w.pidsFreed p + 1) } := by
    simp only [processDestroyed, present, if_neg nonzero, ReapWorld.setProcess]
  rw [changed]
  refine handed_estates { process with linked := false, destroyed := true } .gone present rfl rfl ⟨rfl, rfl, rfl⟩ rfl held
    (fun q other different found => ?_) (fun other found => ?_) (fun q => ?_) sound
  · refine (released q other ?_).1
    cases other
    all_goals simp only [Holds, ReapWorld.setProcess, update_apply] at found ⊢
    all_goals grind
  · have before := free other
    cases other
    all_goals simp only [Holds, ReapWorld.setProcess, update_apply] at found before
    all_goals grind
  simp only [Holds, present] at alive
  simp only [ReapWorld.setProcess, update_apply, sound.pids]
  by_cases same : q = p <;> simp_all

theorem reap_thread_estates (tombs : TombsSound w) (took : w.reaping c = some t) (present : w.threads t = some thread) :
    EstatesSound { w with
      threads := update w.threads t none, reaping := update w.reaping c none, tidsFreed := update w.tidsFreed t (w.tidsFreed t + 1)
      doomed := if thread.reapProcess then update w.doomed c (some thread.process) else w.doomed } := by
  have zombie : thread.zombie = true := by
    obtain ⟨other, found, zombie⟩ := tombs.dead t (.held c) took
    rw [present] at found
    cases found
    exact zombie
  have becomes : ∀ d, (if thread.reapProcess = true then update w.doomed c (some thread.process) else w.doomed) d =
      if thread.reapProcess = true ∧ d = c then some thread.process else w.doomed d := by
    intro d
    by_cases flag : thread.reapProcess = true <;> simp [flag, update_apply]
  generalize (if thread.reapProcess = true then update w.doomed c (some thread.process) else w.doomed) = doomed at becomes ⊢
  have kept : ∀ q heir, Holds { w with
      threads := update w.threads t none, reaping := update w.reaping c none
      tidsFreed := update w.tidsFreed t (w.tidsFreed t + 1), doomed } q heir →
      Holds w q heir ∧ heir ≠ .thread t ∨ q = thread.process ∧ thread.reapProcess = true ∧ heir = .reaper c := by
    intro q heir held
    cases heir
    all_goals simp only [Holds, update_apply] at held ⊢
    all_goals grind
  have flagged : thread.reapProcess = true → Holds w thread.process (.thread t) := by
    intro flag
    simp [Holds, present, flag]
  refine ⟨fun u other found => ?_, fun q process found u => ?_, sound.nodup, fun q heir held => ?_, ?_, sound.pids, fun u late => ?_,
    sound.unmade⟩
  · exact sound.homes u other (by grind)
  · rw [sound.members q process found u]
    by_cases same : u = t
    · simp [same, present, zombie]
    · simp [same]
  · obtain ⟨old, _⟩ | ⟨same, flag, _⟩ := kept q heir held
    · exact sound.ended q heir old
    · exact same ▸ sound.ended _ _ (flagged flag)
  · intro q a b first second
    obtain ⟨oldA, notA⟩ | ⟨sameA, flagA, isA⟩ := kept q a first
    · obtain ⟨oldB, _⟩ | ⟨sameB, flagB, isB⟩ := kept q b second
      · exact sound.sole q a b oldA oldB
      · exact absurd (sound.sole q a _ oldA (sameB ▸ flagged flagB)) notA
    obtain ⟨oldB, notB⟩ | ⟨_, _, isB⟩ := kept q b second
    · exact absurd (sound.sole q b _ oldB (sameA ▸ flagged flagA)) notB
    · rw [isA, isB]
  · have missing := sound.unborn u late
    grind

theorem effect_estates (tombs : TombsSound w) (effect : ReapEffect w event after) : EstatesSound after := by
  cases effect with
  | refused => exact sound
  | spawned => exact spawn_estates sound _
  | flagged present members linked zombie destroyed dying => exact flagged_estates sound present members linked zombie destroyed dying
  | created present living => exact create_estates sound present living
  | finished present awake found => exact finish_estates sound _ present awake found
  | switched | queued | taken => exact estates_same w _ ⟨rfl, rfl, rfl, rfl, rfl, rfl, rfl⟩ sound
  | collected present linked zombie => exact collect_estates sound present linked zombie
  | @waited waiter p collected =>
    refine destroyed_estates w p _ w.doomed (.waiter waiter) (by simp) collected (fun q other => ?_) sound
    cases other
    all_goals simp only [Holds, update_apply]
    all_goals grind
  | freed took present => exact reap_thread_estates sound tombs took present
  | @reaped c p doomed =>
    refine destroyed_estates w p w.collecting _ (.reaper c) (by simp) doomed (fun q other => ?_) sound
    cases other
    all_goals simp only [Holds, update_apply]
    all_goals grind

end

end Lyr.Sched
