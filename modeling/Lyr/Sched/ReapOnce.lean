import Lyr.Sched.Estates

set_option autoImplicit false

namespace Lyr.Sched

open Lyr.Lib Function

def Gone (w : ReapWorld) (p : Nat) : Prop := (w.processes p).any MortalProcess.destroyed = true

def Clean (w : ReapWorld) (t : Nat) : Prop := ∃ thread, w.threads t = some thread ∧ ¬Gone w thread.process

def InUse (w : ReapWorld) (t : Nat) : Prop := ∃ c, c < w.cpuCount ∧ (w.current c = t ∨ t ∈ w.reapList c ∨ w.leaving c = some t)

def AllClean (w : ReapWorld) : Prop := ∀ t, InUse w t → Clean w t

theorem live_clean (w : ReapWorld) (sound : EstatesSound w) (t : Nat) (thread : MortalThread) (present : w.threads t = some thread)
    (awake : thread.zombie = false) : Clean w t :=
  ⟨thread, present, live_unclaimed sound present awake .gone⟩

theorem settled_step (w after : ReapWorld) (used : ∀ t, InUse after t → InUse w t ∨ Clean w t)
    (threads : ∀ t, InUse after t → ∀ thread, w.threads t = some thread → ∃ next,
      after.threads t = some next ∧ next.process = thread.process)
    (processes : ∀ t, InUse after t → ∀ thread, w.threads t = some thread → Gone after thread.process → Gone w thread.process)
    (settled : AllClean w) : AllClean after := by
  intro t inUse
  have clean : Clean w t := by
    obtain old | clean := used t inUse
    · exact settled t old
    · exact clean
  obtain ⟨thread, present, there⟩ := clean
  obtain ⟨next, found, same⟩ := threads t inUse thread present
  exact ⟨next, found, fun gone => there (processes t inUse thread present (same ▸ gone))⟩

def Unused (w : ReapWorld) (p : Nat) : Prop :=
  ∀ c < w.cpuCount, (w.threads (w.current c)).all (fun thread => thread.process != p) = true ∧
    (∀ t ∈ w.reapList c, (w.threads t).all (fun thread => thread.process != p) = true) ∧
    ∀ t ∈ w.leaving c, (w.threads t).all (fun thread => thread.process != p) = true

instance unusedDecidable (w : ReapWorld) (p : Nat) : Decidable (Unused w p) := inferInstanceAs (Decidable (∀ c < w.cpuCount, _))

variable {w after : ReapWorld} {c t p : Nat} {event : ReapEvent} {collecting doomed : Nat → Option Nat}

theorem unused_in_use (unused : Unused w p) (inUse : InUse w t) {thread : MortalThread}
    (present : w.threads t = some thread) : thread.process ≠ p := by
  obtain ⟨c, inRange, current | listed | leaving⟩ := inUse
  · have other := (unused c inRange).1
    simpa [current, present] using other
  · have other := (unused c inRange).2.1 t listed
    simpa [present] using other
  · have other := (unused c inRange).2.2 t leaving
    simpa [present] using other

def DestroyedLate (w : ReapWorld) : ReapEvent → Prop
  | .destroyCollected waiter => ∀ p ∈ w.collecting waiter, Unused w p
  | .destroyReaped c => ∀ p ∈ w.doomed c, Unused w p
  | _ => True

instance destroyedLateDecidable (w : ReapWorld) (event : ReapEvent) : Decidable (DestroyedLate w event) :=
  match event with
  | .destroyCollected waiter => inferInstanceAs (Decidable (∀ p ∈ w.collecting waiter, Unused w p))
  | .destroyReaped c => inferInstanceAs (Decidable (∀ p ∈ w.doomed c, Unused w p))
  | .spawn _ | .reparent _ _ | .kill _ | .create _ | .switch _ _ | .finish _ _ | .queueReap _ | .collect _ _
  | .takeReap _ | .reapThread _ =>
    isTrue trivial

section

variable (settled : AllClean w)
include settled

theorem touched_settled {process changed : MortalProcess} (present : w.processes p = some process)
    (destroyed : changed.destroyed = process.destroyed) : AllClean (w.setProcess p changed) := by
  refine settled_step w _ (fun t inUse => Or.inl inUse) (fun t _ thread found => ⟨thread, found, rfl⟩)
    (fun t _ thread _ gone => ?_) settled
  simp only [Gone, ReapWorld.setProcess, update_apply] at gone ⊢
  grind

theorem destroyed_settled (unused : Unused w p) :
    AllClean (processDestroyed { w with collecting, doomed } p) := by
  unfold processDestroyed
  cases present : w.processes p with
  | none => exact settled
  | some process =>
    dsimp only
    split
    · exact settled
    refine settled_step w _ (fun t inUse => Or.inl inUse) (fun t _ thread found => ⟨thread, found, rfl⟩)
      (fun t inUse thread found gone => ?_) settled
    have different := unused_in_use unused inUse found
    simpa [Gone, ReapWorld.setProcess, different] using gone

theorem finish_settled {thread : MortalThread} {process : MortalProcess} (estates : EstatesSound w)
    (present : w.threads t = some thread)
    (awake : thread.zombie = false) (found : w.processes thread.process = some process) :
    AllClean (w.finish c t thread (removeFrom thread.process process t).1 (removeFrom thread.process process t).2) := by
  have inside : t ∈ process.threads := (estates.members _ process found t).mpr ⟨thread, present, rfl, awake⟩
  have frame := remove_from_frame thread.process inside
  generalize removeFrom thread.process process t = removed at frame ⊢
  refine settled_step w _ ?_ (fun u _ other there => ?_) (fun u _ other there gone => ?_) settled
  · rintro u ⟨d, inRange, current | listed | leaving⟩
    · exact Or.inl ⟨d, inRange, Or.inl current⟩
    · exact Or.inl ⟨d, inRange, Or.inr (Or.inl listed)⟩
    simp only [ReapWorld.finish, update_apply] at leaving
    split at leaving
    · cases leaving
      exact Or.inr (live_clean w estates t thread present awake)
    · exact Or.inl ⟨d, inRange, Or.inr (Or.inr leaving)⟩
  · simp only [ReapWorld.finish, ReapWorld.setThread, ReapWorld.setProcess, update_apply]
    grind
  · simp only [Gone, ReapWorld.finish, ReapWorld.setThread, ReapWorld.setProcess, update_apply] at gone ⊢
    grind

omit settled in
theorem held_idle (tombs : TombsSound w) (took : w.reaping c = some t) : ¬InUse w t := by
  rintro ⟨d, inRange, current | listed | leaving⟩
  · obtain place | place := tombs.near t (.held c) took d inRange current
    · cases place
    · cases place
  · cases tombs.sole t (.held c) (.listed d) took listed
  · cases tombs.sole t (.held c) (.leaving d) took leaving

theorem effect_settled (tombs : TombsSound w) (estates : EstatesSound w) (effect : ReapEffect w event after)
    (late : DestroyedLate w event) :
    AllClean after := by
  cases effect with
  | refused => exact settled
  | spawned =>
    refine settled_step w _ (fun t inUse => Or.inl inUse) (fun t _ thread found => ⟨thread, found, rfl⟩)
      (fun t _ thread _ gone => ?_) settled
    simp only [Gone, spawnProcess, ReapWorld.setProcess, update_apply] at gone ⊢
    split at gone
    · cases gone
    · exact gone
  | flagged present _ _ _ destroyed => exact touched_settled settled present destroyed
  | created present living =>
    have fresh := estates.unborn w.nextThread le_rfl
    refine settled_step w _ (fun t inUse => Or.inl inUse) (fun t _ thread found => ⟨thread, ?_, rfl⟩)
      (fun t _ thread _ gone => ?_) settled
    · have different : t ≠ w.nextThread := by
        rintro rfl
        rw [fresh] at found
        cases found
      exact (update_of_ne different _ _).trans found
    · simp only [Gone, ReapWorld.setThread, ReapWorld.setProcess, update_apply] at gone ⊢
      grind
  | switched present awake =>
    refine settled_step w _ ?_ (fun u _ other found => ⟨other, found, rfl⟩) (fun u _ other _ gone => gone) settled
    rintro u ⟨d, inRange, current | others⟩
    · simp only [update_apply] at current
      split at current
      · exact Or.inr (current ▸ live_clean w estates _ _ present awake)
      · exact Or.inl ⟨d, inRange, Or.inl current⟩
    · exact Or.inl ⟨d, inRange, Or.inr others⟩
  | finished present awake found => exact finish_settled settled estates present awake found
  | @queued c t inRange left =>
    refine settled_step w _ ?_ (fun u _ other found => ⟨other, found, rfl⟩) (fun u _ other _ gone => gone) settled
    rintro u ⟨d, running, current | listed | leaving⟩
    · exact Or.inl ⟨d, running, Or.inl current⟩
    · simp only [update_apply] at listed
      split at listed
      · obtain rfl | inside := List.mem_cons.mp listed
        · exact Or.inl ⟨c, inRange, Or.inr (Or.inr left)⟩
        · exact Or.inl ⟨c, inRange, Or.inr (Or.inl inside)⟩
      · exact Or.inl ⟨d, running, Or.inr (Or.inl listed)⟩
    simp only [update_apply] at leaving
    split at leaving
    · cases leaving
    · exact Or.inl ⟨d, running, Or.inr (Or.inr leaving)⟩
  | collected present => exact touched_settled settled present rfl
  | waited collected => exact destroyed_settled settled (late _ collected)
  | taken =>
    refine settled_step w _ ?_ (fun u _ other found => ⟨other, found, rfl⟩) (fun u _ other _ gone => gone) settled
    rintro u ⟨d, running, current | listed | leaving⟩
    · exact Or.inl ⟨d, running, Or.inl current⟩
    · simp only [update_apply] at listed
      split at listed
      next same => exact Or.inl ⟨d, running, Or.inr (Or.inl (same ▸ List.mem_of_mem_erase listed))⟩
      · exact Or.inl ⟨d, running, Or.inr (Or.inl listed)⟩
    · exact Or.inl ⟨d, running, Or.inr (Or.inr leaving)⟩
  | @freed c t thread took present =>
    refine settled_step w _ (fun u inUse => Or.inl inUse) (fun u inUse other there => ?_) (fun u _ other _ gone => gone) settled
    have different : u ≠ t := fun same => held_idle tombs took (same ▸ inUse)
    exact ⟨other, (update_of_ne different _ _).trans there, rfl⟩
  | reaped doomed => exact destroyed_settled settled (late _ doomed)

end

theorem init_tombs (cpuCount : Nat) : TombsSound (reapInit cpuCount) := by
  have nowhere : ∀ t tomb, ¬Lies (reapInit cpuCount) t tomb := by
    intro t tomb lies
    cases tomb <;> simp [Lies, reapInit] at lies
  refine ⟨fun c inRange => ⟨_, if_pos inRange⟩, fun t tomb lies => absurd lies (nowhere t tomb), ?_,
    fun t a _ lies _ => absurd lies (nowhere t a), ?_,
    fun t tomb lies => absurd lies (nowhere t tomb), ?_, ?_⟩
  all_goals simp only [reapInit]
  all_goals grind

theorem init_estates (cpuCount : Nat) : EstatesSound (reapInit cpuCount) := by
  have nobody : ∀ p heir, ¬Holds (reapInit cpuCount) p heir := by
    intro p heir held
    cases heir
    all_goals simp only [Holds, reapInit] at held
    all_goals grind
  refine ⟨fun t thread found => ?_, fun p process found t => ?_, ?_, fun p heir held => absurd held (nobody p heir),
    fun p a _ held _ => absurd held (nobody p a), ?_, ?_, ?_⟩
  all_goals simp only [reapInit] at *
  · split at found
    · cases found
      exact ⟨_, rfl⟩
    · cases found
  · split at found
    · rename_i first
      cases found
      by_cases inRange : t < cpuCount <;> simp [inRange, first]
    · cases found
  all_goals grind

theorem init_settled (cpuCount : Nat) : AllClean (reapInit cpuCount) := by
  rintro t ⟨c, inRange, current | listed | leaving⟩
  · refine live_clean _ (init_estates cpuCount) t ⟨0, true, false, false⟩ ?_ rfl
    have same : c = t := current
    exact if_pos (same ▸ inRange)
  · cases listed
  · cases leaving

-- Every tid once its tcb is gone, every pid once its process is destroyed, none twice; a finished thread with a tid is in one place.
def ReturnedOnce (w : ReapWorld) : Prop := (∀ t, w.tidsFreed t = if t < w.nextThread ∧ w.threads t = none then 1 else 0) ∧
    (∀ p, w.pidsFreed p = if (w.processes p).any MortalProcess.destroyed = true then 1 else 0) ∧
    ∀ t thread, w.threads t = some thread → thread.zombie = true → ∃! tomb, Lies w t tomb

def NothingDangles (w : ReapWorld) : Prop := ∀ c, c < w.cpuCount → ∀ t, w.current c = t ∨ t ∈ w.reapList c → Clean w t

theorem returned_once (tombs : TombsSound w) (estates : EstatesSound w) : ReturnedOnce w := by
  refine ⟨tombs.tids, estates.pids, fun t thread present zombie => ?_⟩
  obtain ⟨tomb, lies⟩ := tombs.buried t thread present zombie
  exact ⟨tomb, lies, fun other found => tombs.sole t other tomb found lies⟩

theorem nothing_dangles (settled : AllClean w) : NothingDangles w := by
  rintro c inRange t (current | listed)
  · exact settled t ⟨c, inRange, Or.inl current⟩
  · exact settled t ⟨c, inRange, Or.inr (Or.inl listed)⟩

theorem no_destroyed_process_used (cpuCount : Nat) (events : List ReapEvent)
    (late : Permitted reapRunStep DestroyedLate (reapInit cpuCount) events) :
    Always reapRunStep (fun w => NothingDangles w ∧ ReturnedOnce w) (reapInit cpuCount) events := by
  refine permitted_always (fun w event next (sound : (TombsSound w ∧ EstatesSound w) ∧ AllClean w) allowed taken => ?_)
    ⟨⟨init_tombs cpuCount, init_estates cpuCount⟩, init_settled cpuCount⟩
      (fun w sound => ⟨nothing_dangles sound.2, returned_once sound.1.1 sound.1.2⟩) late
  cases taken
  have effect := reap_step_effect w event
  exact ⟨⟨effect_tombs sound.1.1 effect, effect_estates sound.1.2 sound.1.1 effect⟩,
    effect_settled sound.2 sound.1.1 sound.1.2 effect allowed⟩

theorem reaped_child_collected : Always reapRunStep (fun w => NothingDangles w ∧ ReturnedOnce w) (reapInit 2)
    [.spawn true, .create 1, .switch 0 2, .finish 0 2, .queueReap 0, .switch 0 0, .takeReap 0, .reapThread 0, .collect 7 1,
      .destroyCollected 7] :=
  no_destroyed_process_used 2 _ (by decide +kernel)

-- CPU 0 still runs on the child's last thread.
theorem collected_child_still_current :
    ∃ w, run reapRunStep (reapInit 2) [.spawn true, .create 1, .switch 0 2, .finish 0 2, .collect 7 1,
    .destroyCollected 7, .queueReap 0] = .ok w ∧ w.current 0 = 2 ∧ 2 ∈ w.reapList 0 ∧ ∃ thread,
      w.threads 2 = some thread ∧ Gone w thread.process :=
  ⟨_, rfl, by decide +kernel, by decide +kernel, ⟨1, false, true, false⟩, by decide +kernel, rfl⟩

theorem ids_returned_once (cpuCount : Nat) (events : List ReapEvent) : Always reapRunStep
    (fun w => ReturnedOnce w ∧ ∀ c < w.cpuCount, ∃ thread, w.threads (w.current c) = some thread) (reapInit cpuCount) events := by
  refine (run_always (fun w event (sound : TombsSound w ∧ EstatesSound w) => ⟨_, rfl, ?_⟩)
    (fun w sound => ⟨returned_once sound.1 sound.2, sound.1.alive⟩) ⟨init_tombs cpuCount, init_estates cpuCount⟩).2
  have effect := reap_step_effect w event
  exact ⟨effect_tombs sound.1 effect, effect_estates sound.2 sound.1 effect⟩

end Lyr.Sched
