import Lyr.Fs.Namespace

set_option autoImplicit false

namespace Lyr.Fs

open Lyr.Lib

-- A resolution only looks into directories the caller may search.

section

variable (property : VfsEvent → Prop)

variable {α : Type}

theorem status_events {result : Except Errno α} : Every property (status result) := by
  cases result with
  | error e => exact every_fail
  | ok value => exact every_pure

theorem errno_events {e : Errno} : Every property (errno e : Walk α) := every_fail

theorem every_guard {property : VfsEvent → Prop} {condition : Prop} [Decidable condition] {e : Errno} {rest : Walk α}
    (go : ¬ condition → Every property rest) : Every property (if condition then errno e else rest) :=
  every_ite (fun _ => errno_events property) go

theorem copy_name_events {name : Name} : Every property (copyName name) := every_guard (fun _ => every_guard (fun _ => every_pure))

theorem deref_events (node : Option Nat) : Every property (deref node) := by
  cases node with
  | none => exact every_fail
  | some id => exact every_pure

end

section

variable {t : VfsTree} {cred : VfsCred} {property : VfsEvent → Prop}
  (looked : ∀ dir, vfsAccess t cred (some dir) VFS_X_OK = .ok () → property (.looked dir))

include looked

theorem walk_lookup_events (cur : Option Nat) (name : Name) : Every property (walkLookup t cred cur name) := by
  cases cur with
  | none => exact every_fail
  | some cur =>
    refine every_guard (fun _ => ?_)
    refine every_bind.2 ⟨every_outcome, fun _ search => ?_⟩
    refine every_guard (fun _ => ?_)
    exact every_bind.2 ⟨every_emit.2 (looked cur search), fun _ _ => status_events property⟩

theorem walk_path_events {names : List Name} (cur : Option Nat) (path : Path) : Every property (walkPath t cred cur path names) := by
  induction names generalizing cur path with
  | nil => exact every_pure
  | cons name rest ih =>
    refine every_bind.2 ⟨?_, fun next _ => ih next.1 next.2⟩
    refine every_bind.2 ⟨walk_lookup_events looked cur name, fun _ _ => ?_⟩
    exact every_bind.2 ⟨every_outcome, fun _ _ => every_pure⟩

theorem vfs_resolve_at_events (base : Option Nat) (path : Path) : Every property (vfsResolveAt t base path cred) := by
  refine every_guard (fun _ => ?_)
  split
  · exact every_bind.2 ⟨walk_path_events looked _ _, fun _ _ => every_pure⟩
  · refine every_guard (fun _ => ?_)
    exact every_bind.2 ⟨walk_path_events looked _ _, fun _ _ => every_pure⟩

theorem vfs_resolve_events (path : Path) : Every property (vfsResolve t path cred) :=
  every_guard (fun _ => vfs_resolve_at_events looked none path)

theorem resolve_from_events (base : Option Nat) {path : Path} : Every property (resolveFrom t base path cred) := by
  cases base with
  | none => exact vfs_resolve_events looked path
  | some base => exact vfs_resolve_at_events looked (some base) path

theorem resolve_parent_events (path : Path) : Every property (resolveParent t path cred) := by
  refine every_guard (fun _ => ?_)
  refine every_bind.2 ⟨copy_name_events property, fun _ _ => ?_⟩
  refine every_ite (fun _ => every_pure) (fun _ => ?_)
  exact every_bind.2 ⟨vfs_resolve_events looked _, fun _ _ => every_pure⟩

section

variable (base : Option Nat) (path : Path)
include base path

theorem resolve_parent_at_events : Every property (resolveParentAt t base path cred) := by
  refine every_guard (fun _ => ?_)
  refine every_ite (fun _ => resolve_parent_events looked path) (fun _ => ?_)
  refine every_bind.2 ⟨copy_name_events property, fun _ _ => ?_⟩
  refine every_ite (fun _ => ?_) (fun _ => ?_)
  · cases base with
    | none => exact errno_events property
    | some base => exact every_guard (fun _ => every_pure)
  · exact every_bind.2 ⟨vfs_resolve_at_events looked base _, fun _ _ => every_pure⟩

theorem link_dir_events : Every property (linkDir t base path cred) := by
  refine every_bind.2 ⟨resolve_from_events looked base, fun _ _ => every_bind.2 ⟨deref_events property _, fun _ _ => ?_⟩⟩
  exact every_guard (fun _ => every_pure)

theorem link_source_events : Every property (linkSource t base path cred) := by
  refine every_bind.2 ⟨resolve_from_events looked base, fun _ _ => every_bind.2 ⟨deref_events property _, fun _ _ => ?_⟩⟩
  exact every_guard (fun _ => every_pure)

end

end

end Lyr.Fs
