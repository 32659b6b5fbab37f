import Lyr.Fs.WalkEvents

set_option autoImplicit false

namespace Lyr.Fs

open Lyr.Lib

variable (t : VfsTree) (cred : VfsCred) (fs : FsCalls) (oldBase : Option Nat) (oldPath : Path) (newBase : Option Nat) (newPath : Path)

def RenameAsked (event : VfsEvent) : Prop :=
  ∀ change, event = .changed change → ∃ oldDir oldName newDir newName, change = .rename oldDir oldName newDir newName ∧
    (resolveParentAt t oldBase oldPath cred).result = .ok (some oldDir, oldName) ∧
    (resolveParentAt t newBase newPath cred).result = .ok (some newDir, newName)

theorem looked_no_change (dir : Nat) (change : Change) : VfsEvent.looked dir ≠ .changed change := fun same => by cases same

theorem deref_ok {node : Option Nat} {id : Nat} (read : (deref node).result = .ok id) : node = some id := by
  cases node with
  | none => cases read
  | some other =>
    cases read
    rfl

theorem status_ok {α : Type} {result : Except Errno α} {value : α} (done : (status result).result = .ok value) :
    result = .ok value := by
  cases result with
  | error e => cases done
  | ok other =>
    cases done
    rfl

variable {property : VfsEvent → Prop} {oldDir newDir : Nat} {oldName newName : Name} {change : Change}

theorem sticks_quiet (dir : Nat) (victim : Option Nat) : Every property (sticks t cred dir victim) :=
  every_ite (fun _ => every_bind.2 ⟨deref_events _ victim, fun _ _ => every_pure⟩) (fun _ => every_pure)

theorem rename_entry_asked (looked : ∀ dir, property (.looked dir))
    (asked : property (.changed (.rename oldDir oldName newDir newName))) :
    Every property (renameEntry t fs cred oldDir oldName newDir newName) := by
  have applied : Every property (apply fs (.rename oldDir oldName newDir newName)) :=
    every_bind.2 ⟨status_events _, fun _ _ => every_emit.2 asked⟩
  refine every_guard (fun _ => every_bind.2 ⟨?_, fun source _ => ?_⟩)
  · exact every_bind.2 ⟨every_emit.2 (looked oldDir), fun _ _ => status_events _⟩
  refine every_bind.2 ⟨sticks_quiet t cred oldDir source, fun _ _ => every_ite (fun _ => every_fail) (fun _ => ?_)⟩
  refine every_guard (fun _ => every_guard (fun _ => ?_))
  refine every_bind.2 ⟨?_, fun target _ => ?_⟩
  · refine every_ite (fun _ => every_pure) (fun _ event inside => ?_)
    cases List.mem_singleton.1 inside
    exact looked newDir
  cases target with
  | none => exact applied
  | some target =>
    refine every_ite (fun _ => every_pure) (fun _ => ?_)
    refine every_bind.2 ⟨sticks_quiet t cred newDir target, fun _ _ => ?_⟩
    exact every_ite (fun _ => every_fail) (fun _ => applied)

theorem vfs_rename_asked :
    Every (RenameAsked t cred oldBase oldPath newBase newPath) (vfsRenameAt t fs oldBase oldPath newBase newPath cred) := by
  have looked : ∀ dir, RenameAsked t cred oldBase oldPath newBase newPath (.looked dir) :=
    fun dir change same => absurd same (looked_no_change dir change)
  refine every_ite (fun _ => every_pure) (fun _ => ?_)
  refine every_bind.2 ⟨resolve_parent_at_events (fun dir _ => looked dir) oldBase oldPath, fun old atOld => ?_⟩
  refine every_bind.2 ⟨resolve_parent_at_events (fun dir _ => looked dir) newBase newPath, fun new atNew => ?_⟩
  obtain ⟨oldDir, oldName⟩ := old
  obtain ⟨newDir, newName⟩ := new
  refine every_bind.2 ⟨every_outcome, fun _ _ => every_bind.2 ⟨every_outcome, fun _ _ => ?_⟩⟩
  refine every_bind.2 ⟨deref_events _ oldDir, fun oldParent oldFound => ?_⟩
  refine every_bind.2 ⟨deref_events _ newDir, fun newParent newFound => ?_⟩
  rw [@deref_ok oldDir oldParent oldFound] at atOld
  rw [deref_ok newFound] at atNew
  refine rename_entry_asked t cred fs looked ?_
  rintro change ⟨⟩
  exact ⟨oldParent, oldName, newParent, newName, rfl, atOld, atNew⟩

def LinkAsked (event : VfsEvent) : Prop :=
  ∀ change, event = .changed change → ∃ dir name target, change = .link dir name target ∧
    (linkSource t oldBase oldPath cred).result = .ok target ∧ (linkDir t newBase newPath cred).result = .ok dir

theorem vfs_link_asked :
    Every (LinkAsked t cred oldBase oldPath newBase newPath) (vfsLinkAt t fs oldBase oldPath newBase newPath cred) := by
  have looked : ∀ dir, vfsAccess t cred (some dir) VFS_X_OK = .ok () → LinkAsked t cred oldBase oldPath newBase newPath
    (.looked dir) :=
    fun dir _ change same => absurd same (looked_no_change dir change)
  refine every_guard (fun _ => ?_)
  refine every_bind.2 ⟨link_source_events looked oldBase oldPath, fun target source => ?_⟩
  refine every_guard (fun _ => ?_)
  refine every_bind.2 ⟨link_dir_events looked newBase newPath, fun dir found => ?_⟩
  refine every_guard (fun _ => ?_)
  refine every_bind.2 ⟨status_events _, fun _ _ => every_emit.2 ?_⟩
  rintro change ⟨⟩
  exact ⟨dir, _, target, rfl, source, found⟩

variable {fs oldBase oldPath newBase newPath}

theorem apply_done (done : (apply fs change).result = .ok ()) : .changed change ∈ (apply fs change).events := by
  rw [apply, result_bind, bind_ok] at done
  obtain ⟨value, ran, _⟩ := done
  rw [apply, events_bind]
  exact .inr ⟨value, ran, List.mem_singleton_self _⟩

theorem rename_target_ok {dir : Nat} {name : Name} {target : Option Nat}
    (found : (renameTarget t dir name).result = .ok (some target)) :
    t.lookup dir name = .ok target := by
  rw [renameTarget] at found
  split at found
  · cases found
  cases answer : t.lookup dir name with
  | ok other =>
    rw [answer] at found
    exact congrArg Except.ok (Option.some.inj (Except.ok.inj found))
  | error e =>
    rw [answer] at found
    cases e <;> cases found

theorem rename_apply_done {source : Option Nat} {target : Option (Option Nat)}
    (done : (renameApply t fs cred change newDir source target).result = .ok ()) :
    .changed change ∈ (renameApply t fs cred change newDir source target).events ∨ target = some source := by
  cases target with
  | none => exact .inl (apply_done done)
  | some target =>
    rw [renameApply] at done ⊢
    by_cases same : target = source
    · exact .inr (congrArg some same)
    rw [if_neg same] at done ⊢
    rw [result_bind, bind_ok] at done
    obtain ⟨stuck, checked, done⟩ := done
    cases stuck with
    | true => cases done
    | false => exact .inl (events_bind.mpr (.inr ⟨false, checked, apply_done done⟩))

theorem rename_entry_done (done : (renameEntry t fs cred oldDir oldName newDir newName).result = .ok ()) :
    .changed (.rename oldDir oldName newDir newName) ∈ (renameEntry t fs cred oldDir oldName newDir newName).events ∨
      ∃ source, t.lookup oldDir oldName = .ok source ∧ t.lookup newDir newName = .ok source := by
  rw [renameEntry] at done ⊢
  split at done
  · cases done
  next has =>
    rw [if_neg has]
    rw [result_bind, bind_ok] at done
    obtain ⟨source, looked, done⟩ := done
    rw [result_bind, bind_ok] at done
    obtain ⟨stuck, checked, done⟩ := done
    cases stuck with
    | true => cases done
    | false =>
      rw [if_neg Bool.false_ne_true] at done
      split at done
      · cases done
      next ops =>
        split at done
        · cases done
        next renames =>
          rw [result_bind, bind_ok] at done
          obtain ⟨target, answered, done⟩ := done
          obtain asked | same := rename_apply_done t cred done
          · refine .inl (events_bind.mpr (.inr ⟨source, looked, events_bind.mpr (.inr ⟨false, checked, ?_⟩)⟩))
            rw [if_neg Bool.false_ne_true, if_neg ops, if_neg renames]
            exact events_bind.mpr (.inr ⟨target, answered, asked⟩)
          rw [same] at answered
          refine .inr ⟨source, ?_, rename_target_ok t answered⟩
          rw [lookupIn, result_bind, bind_ok] at looked
          obtain ⟨_, _, looked⟩ := looked
          exact status_ok looked

theorem vfs_rename_done (old : (resolveParentAt t oldBase oldPath cred).result = .ok (some oldDir, oldName))
    (new : (resolveParentAt t newBase newPath cred).result = .ok (some newDir, newName))
    (done : (vfsRenameAt t fs oldBase oldPath newBase newPath cred).result = .ok ()) :
    oldDir = newDir ∨ .changed (.rename oldDir oldName newDir newName) ∈
      (vfsRenameAt t fs oldBase oldPath newBase newPath cred).events ∨
      ∃ source, t.lookup oldDir oldName = .ok source ∧ t.lookup newDir newName = .ok source := by
  rw [vfsRenameAt] at done ⊢
  by_cases same : oldBase = newBase ∧ oldPath = newPath
  · rw [same.1, same.2, new] at old
    exact .inl (Option.some.inj (congrArg Prod.fst (Except.ok.inj old))).symm
  rw [if_neg same] at done ⊢
  simp only [result_bind, bind_ok, old, new, Except.ok.injEq] at done
  obtain ⟨_, rfl, _, rfl, first, mayOld, second, mayNew, _, derefOld, _, derefNew, done⟩ := done
  cases derefOld
  cases derefNew
  obtain asked | both := rename_entry_done t cred done
  · refine .inr (.inl ?_)
    refine events_bind.mpr (.inr ⟨_, old, events_bind.mpr (.inr ⟨_, new, ?_⟩)⟩)
    refine events_bind.mpr (.inr ⟨first, mayOld, events_bind.mpr (.inr ⟨second, mayNew, ?_⟩)⟩)
    exact events_bind.mpr (.inr ⟨oldDir, rfl, events_bind.mpr (.inr ⟨newDir, rfl, asked⟩)⟩)
  · exact .inr (.inr both)

theorem vfs_link_done (done : (vfsLinkAt t fs oldBase oldPath newBase newPath cred).result = .ok ()) :
    ∃ change, .changed change ∈ (vfsLinkAt t fs oldBase oldPath newBase newPath cred).events := by
  rw [vfsLinkAt] at done ⊢
  split at done
  · cases done
  next short =>
    rw [if_neg short]
    rw [result_bind, bind_ok] at done
    obtain ⟨target, source, done⟩ := done
    split at done
    · cases done
    next named =>
      rw [result_bind, bind_ok] at done
      obtain ⟨dir, found, done⟩ := done
      split at done
      · cases done
      next has =>
        refine ⟨.link dir (linkPath newPath).2 target, events_bind.mpr (.inr ⟨target, source, ?_⟩)⟩
        rw [if_neg named]
        refine events_bind.mpr (.inr ⟨dir, found, ?_⟩)
        rw [if_neg has]
        exact apply_done done

end Lyr.Fs
