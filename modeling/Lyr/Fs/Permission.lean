import Lyr.Fs.WalkEvents

set_option autoImplicit false

namespace Lyr.Fs

open Lyr.Lib

def Change.dirs : Change → List Nat
  | .create dir _ _ => [dir]
  | .mkdir dir _ _ => [dir]
  | .unlink dir _ => [dir]
  | .rmdir dir _ => [dir]
  | .rename oldDir _ newDir _ => [oldDir, newDir]
  | .symlink dir _ _ => [dir]
  | .link dir _ _ => [dir]

def MaySearch (t : VfsTree) (cred : VfsCred) (dir : Nat) : Prop := vfsAccess t cred (some dir) VFS_X_OK = .ok ()

def MayChange (t : VfsTree) (cred : VfsCred) (dir : Nat) : Prop := vfsAccess t cred (some dir) (VFS_W_OK + VFS_X_OK) = .ok ()

instance mayChangeDecidable (t : VfsTree) (cred : VfsCred) (dir : Nat) : Decidable (MayChange t cred dir) :=
  match access : vfsAccess t cred (some dir) (VFS_W_OK + VFS_X_OK) with
  | .ok () => isTrue access
  | .error _ => isFalse (fun same => by rw [MayChange, access] at same; cases same)

def Allowed (t : VfsTree) (cred : VfsCred) : VfsEvent → Prop
  | .looked dir => MaySearch t cred dir
  | .changed change => ∀ dir ∈ change.dirs, MayChange t cred dir

def LinkPermitted (t : VfsTree) (cred : VfsCred) : NamespaceCall → Prop
  | .symlink _ linkpath =>
    linkpath.length < LINK_BUF → (linkPath linkpath).2 ≠ [] →
      ∀ dir, (linkDir t none linkpath cred).result = .ok dir → t.has dir (·.symlink) → MayChange t cred dir
  | .linkAt oldBase oldPath newBase newPath =>
    oldPath.length < LINK_BUF → newPath.length < LINK_BUF → (linkPath newPath).2 ≠ [] →
      ∀ target, (linkSource t oldBase oldPath cred).result = .ok target →
        ∀ dir, (linkDir t newBase newPath cred).result = .ok dir → t.has dir (·.link) → MayChange t cred dir
  | _ => True

variable {dir : Nat} {name : Name}

theorem may_search_of_change {t : VfsTree} {cred : VfsCred} (change : MayChange t cred dir) : MaySearch t cred dir := by
  unfold MayChange MaySearch vfsAccess at *
  by_cases super : cred.uid = 0
  · simpa [super, VFS_X_OK, VFS_W_OK] using change
  · simp only [super, VFS_X_OK, VFS_W_OK, VFS_R_OK] at change ⊢
    grind

section
variable (t : VfsTree) (cred : VfsCred)

theorem searched (dir : Nat) (may : MaySearch t cred dir) : Allowed t cred (.looked dir) := may

theorem apply_every (fs : FsCalls) {change : Change} (may : ∀ dir ∈ change.dirs, MayChange t cred dir) :
    Every (Allowed t cred) (apply fs change) :=
  every_bind.2 ⟨status_events _, fun _ _ => every_emit.2 may⟩

theorem checked_every {α : Type} {dir : Option Nat} {next : Nat → Walk α}
    (after : ∀ dir, MayChange t cred dir → Every (Allowed t cred) (next dir)) :
    Every (Allowed t cred) (do
      mayChange t cred dir
      let dir ← deref dir
      next dir) := by
  refine every_bind.2 ⟨every_outcome, fun _ may => ?_⟩
  refine every_bind.2 ⟨deref_events _ dir, fun found same => ?_⟩
  cases dir with
  | none => cases same
  | some dir =>
    cases same
    exact after found may

theorem look_up_every (may : MayChange t cred dir) : Every (Allowed t cred) (lookupIn t dir name) :=
  every_bind.2 ⟨every_emit.2 (may_search_of_change may), fun _ _ => status_events _⟩

theorem sticks_every (dir : Nat) (victim : Option Nat) : Every (Allowed t cred) (sticks t cred dir victim) :=
  every_ite (fun _ => every_bind.2 ⟨deref_events _ victim, fun _ _ => every_pure⟩) (fun _ => every_pure)

section

variable (fs : FsCalls)
include fs

theorem vfs_mkdir_at_every (base : Option Nat) (path : Path) (mode : Nat) :
    Every (Allowed t cred) (vfsMkdirAt t fs base path mode cred) := by
  refine every_bind.2 ⟨resolve_parent_at_events (searched t cred) base path, fun _ _ => checked_every t cred (fun dir may => ?_)⟩
  refine every_guard (fun _ => apply_every t cred fs ?_)
  simpa [Change.dirs] using may

theorem unlink_victim_every {parent : Nat} (victim : Option Nat) (dir : Bool) (may : MayChange t cred parent) :
    Every (Allowed t cred) (unlinkVictim t fs parent name victim dir) := by
  have changes (change : Change) (same : change.dirs = [parent]) : Every (Allowed t cred) (apply fs change) := by
    apply apply_every
    simpa [same] using may
  refine every_bind.2 ⟨deref_events _ victim, fun _ _ => ?_⟩
  refine every_guard (fun _ => ?_)
  refine every_ite (fun _ => changes _ rfl) (fun _ => ?_)
  exact every_ite (fun _ => changes _ rfl) (fun _ => errno_events _)

theorem unlink_common_at_every (base : Option Nat) (path : Path) (dir : Bool) :
    Every (Allowed t cred) (unlinkCommonAt t fs base path cred dir) := by
  refine every_bind.2 ⟨resolve_parent_at_events (searched t cred) base path, fun _ _ => checked_every t cred (fun parent may => ?_)⟩
  refine every_bind.2 ⟨?_, fun victim _ => every_bind.2 ⟨sticks_every t cred parent victim, fun _ _ => ?_⟩⟩
  · exact every_ite (fun _ => look_up_every t cred may) (fun _ => every_pure)
  · exact every_ite (fun _ => every_fail) (fun _ => unlink_victim_every t cred fs victim dir may)

omit fs in
theorem rename_target_every (name : Name) (may : MayChange t cred dir) : Every (Allowed t cred) (renameTarget t dir name) := by
  refine every_ite (fun _ => every_pure) (fun _ event inside => ?_)
  cases List.mem_singleton.1 inside
  exact may_search_of_change may

theorem rename_entry_every {oldParent : Nat} (oldName : Name) {newParent : Nat} (newName : Name)
    (mayOld : MayChange t cred oldParent) (mayNew : MayChange t cred newParent) :
    Every (Allowed t cred) (renameEntry t fs cred oldParent oldName newParent newName) := by
  have changes : Every (Allowed t cred) (apply fs (.rename oldParent oldName newParent newName)) := by
    apply apply_every
    simpa [Change.dirs] using ⟨mayOld, mayNew⟩
  refine every_guard (fun _ => ?_)
  refine every_bind.2 ⟨look_up_every t cred mayOld, fun source _ => ?_⟩
  refine every_bind.2 ⟨sticks_every t cred oldParent source, fun _ _ => ?_⟩
  refine every_ite (fun _ => every_fail) (fun _ => every_guard (fun _ => ?_))
  refine every_guard (fun _ => ?_)
  refine every_bind.2 ⟨rename_target_every t cred newName mayNew, fun target _ => ?_⟩
  cases target with
  | none => exact changes
  | some target =>
    refine every_ite (fun _ => every_pure) (fun _ => ?_)
    refine every_bind.2 ⟨sticks_every t cred newParent target, fun _ _ => ?_⟩
    exact every_ite (fun _ => every_fail) (fun _ => changes)

theorem vfs_rename_at_every (oldBase : Option Nat) (oldPath : Path) (newBase : Option Nat) (newPath : Path) :
    Every (Allowed t cred) (vfsRenameAt t fs oldBase oldPath newBase newPath cred) := by
  refine every_ite (fun _ => every_pure) (fun _ => ?_)
  refine every_bind.2 ⟨resolve_parent_at_events (searched t cred) oldBase oldPath, fun old _ => ?_⟩
  refine every_bind.2 ⟨resolve_parent_at_events (searched t cred) newBase newPath, fun new _ => ?_⟩
  obtain ⟨oldDir, oldName⟩ := old
  obtain ⟨newDir, newName⟩ := new
  refine every_bind.2 ⟨every_outcome, fun _ mayOld => every_bind.2 ⟨every_outcome, fun _ mayNew => ?_⟩⟩
  refine every_bind.2 ⟨deref_events _ oldDir, fun oldParent oldFound => ?_⟩
  refine every_bind.2 ⟨deref_events _ newDir, fun newParent newFound => ?_⟩
  cases oldDir with
  | none => cases oldFound
  | some oldDir =>
    cases newDir with
    | none => cases newFound
    | some newDir =>
      cases oldFound
      cases newFound
      exact rename_entry_every t cred fs oldName newName mayOld mayNew

theorem open_create_every (base : Option Nat) (path : Path) (mode : Nat) :
    Every (Allowed t cred) (openCreate t fs base path mode cred) := by
  refine every_bind.2 ⟨resolve_parent_at_events (searched t cred) base path, fun _ _ => ?_⟩
  refine every_bind.2 ⟨deref_events _ _, fun parent _ => ?_⟩
  refine every_guard (fun _ => ?_)
  refine every_bind.2 ⟨every_outcome, fun _ may => ?_⟩
  refine every_guard (fun _ => ?_)
  have mayParent : MayChange t cred parent := may
  refine every_bind.2 ⟨apply_every t cred fs ?_, fun _ _ => every_pure⟩
  simpa [Change.dirs] using mayParent

omit fs in
theorem open_link_every (base : Option Nat) (path : Path) (node : Nat) : Every (Allowed t cred) (openLink t base path cred node) := by
  refine every_bind.2 ⟨?_, fun _ _ => every_bind.2 ⟨?_, fun _ _ => vfs_resolve_at_events (searched t cred) base _⟩⟩
  · exact every_guard (fun _ => every_guard (fun _ => status_events _))
  · refine every_ite (fun _ => every_pure) (fun _ => every_ite (fun _ => every_pure) (fun _ => ?_))
    exact every_ite (fun _ => every_pure) (fun _ => errno_events _)

theorem vfs_open_every (path : Path) {flags : Nat} (mode : Nat) : Every (Allowed t cred) (vfsOpen t fs path flags mode cred) := by
  refine every_guard (fun _ => ?_)
  refine every_bind.2 ⟨fun event inside => vfs_resolve_at_events (searched t cred) none path event inside, fun found _ => ?_⟩
  cases found with
  | error e => exact every_ite (fun _ => open_create_every t cred fs none path mode) (fun _ => every_fail)
  | ok node =>
    refine every_bind.2 ⟨deref_events _ node, fun node _ => every_bind.2 ⟨?_, fun _ _ => ?_⟩⟩
    · exact every_ite (fun _ => open_link_every t cred none path node) (fun _ => every_pure)
    · exact every_guard (fun _ => every_pure)

end

theorem apply_every_iff (change : Change) :
    (∀ fs, Every (Allowed t cred) (apply fs change)) ↔ ∀ dir ∈ change.dirs, MayChange t cred dir := by
  constructor
  · intro every
    exact every_emit.1 ((every_bind.1 (every (fun _ => .ok ()))).2 () rfl)
  · exact fun may fs => apply_every t cred fs may

theorem vfs_symlink_every_iff (target linkpath : Path) :
    (∀ fs, Every (Allowed t cred) (vfsSymlink t fs target linkpath cred)) ↔ LinkPermitted t cred (.symlink target linkpath) := by
  constructor
  · intro every length named dir found has
    refine (apply_every_iff t cred (.symlink dir target (linkPath linkpath).2)).1 (fun fs => ?_) dir (List.mem_singleton_self dir)
    have body := every fs
    rw [vfsSymlink, if_neg (Nat.not_le.2 length), if_neg named] at body
    have applied := (every_bind.1 body).2 dir found
    rwa [has] at applied
  intro permitted fs
  refine every_guard (fun length => ?_)
  refine every_guard (fun named => ?_)
  refine every_bind.2 ⟨link_dir_events (searched t cred) none linkpath, fun dir found => ?_⟩
  refine every_guard (fun has => apply_every t cred fs ?_)
  simpa [Change.dirs] using permitted (Nat.not_le.1 length) named dir found (by simpa using has)

theorem vfs_link_at_every_iff (oldBase : Option Nat) (oldPath : Path) (newBase : Option Nat) (newPath : Path) :
    (∀ fs, Every (Allowed t cred) (vfsLinkAt t fs oldBase oldPath newBase newPath cred)) ↔
      LinkPermitted t cred (.linkAt oldBase oldPath newBase newPath) := by
  constructor
  · intro every oldLength newLength named target source dir found has
    refine (apply_every_iff t cred (.link dir (linkPath newPath).2 target)).1 (fun fs => ?_) dir (List.mem_singleton_self dir)
    have body := every fs
    rw [vfsLinkAt, if_neg (not_or.2 ⟨Nat.not_le.2 oldLength, Nat.not_le.2 newLength⟩)] at body
    have linked := (every_bind.1 body).2 target source
    rw [if_neg named] at linked
    have applied := (every_bind.1 linked).2 dir found
    rwa [has] at applied
  intro permitted fs
  refine every_guard (fun lengths => ?_)
  obtain ⟨oldLength, newLength⟩ := not_or.1 lengths
  refine every_bind.2 ⟨link_source_events (searched t cred) oldBase oldPath, fun target source => ?_⟩
  refine every_guard (fun named => ?_)
  refine every_bind.2 ⟨link_dir_events (searched t cred) newBase newPath, fun dir found => ?_⟩
  refine every_guard (fun has => apply_every t cred fs ?_)
  simpa [Change.dirs] using permitted (Nat.not_le.1 oldLength) (Nat.not_le.1 newLength) named target source dir found
    (by simpa using has)

-- Links do not check the directories they go to.
theorem namespace_change_permitted (call : NamespaceCall) :
    (∀ fs, Every (Allowed t cred) (namespaceCall t fs cred call)) ↔ LinkPermitted t cred call := by
  cases call with
  | openCreat path flags mode =>
    refine iff_of_true (fun fs => ?_) trivial
    exact every_bind.2 ⟨vfs_open_every t cred fs path mode, fun _ _ => every_pure⟩
  | mkdirAt base path mode => exact iff_of_true (fun fs => vfs_mkdir_at_every t cred fs base path mode) trivial
  | unlinkAt base path => exact iff_of_true (fun fs => unlink_common_at_every t cred fs base path false) trivial
  | rmdirAt base path => exact iff_of_true (fun fs => unlink_common_at_every t cred fs base path true) trivial
  | renameAt oldBase oldPath newBase newPath =>
    exact iff_of_true (fun fs => vfs_rename_at_every t cred fs oldBase oldPath newBase newPath) trivial
  | symlink target linkpath => exact vfs_symlink_every_iff t cred target linkpath
  | linkAt oldBase oldPath newBase newPath => exact vfs_link_at_every_iff t cred oldBase oldPath newBase newPath

end

def guardedTree : VfsTree where
  node n := if n = 0 then ⟨vfsSIfdir ||| 0o755, 0, 0, 0, some 0⟩ else ⟨vfsSIfreg ||| 0o644, 0, 0, 0, some 0⟩
  ops _ := ⟨true, true, true, true, true, true, true, true, true⟩
  lookup dir name := if dir = 0 ∧ name = [102] then .ok (some 1) else .error .enoent
  read _ _ := .ok []
  root := some 0
  mounts := []

def plainUser : VfsCred := ⟨⟨1000, 1000⟩, [], 0o022⟩

-- The user may not write to the root directory.
theorem links_unchecked : ¬ MayChange guardedTree plainUser 0 ∧
    (namespaceCall guardedTree (fun _ => .ok ()) plainUser (.symlink [slash, 102] [slash, 108])).result = .ok () ∧
    .changed (.symlink 0 [slash, 102] [108]) ∈ (namespaceCall guardedTree (fun _ => .ok ()) plainUser
      (.symlink [slash, 102] [slash, 108])).events ∧
    (namespaceCall guardedTree (fun _ => .ok ()) plainUser (.linkAt none [slash, 102] none [slash, 108])).result = .ok () ∧
    .changed (.link 0 [108] 1) ∈ (namespaceCall guardedTree (fun _ => .ok ()) plainUser
      (.linkAt none [slash, 102] none [slash, 108])).events := by
  decide +kernel

end Lyr.Fs
