import Lyr.Sys.Mount

set_option autoImplicit false

namespace Lyr.Sys

open Lyr.Lib Lyr.Fs Lyr.Sched

def SameNames (t after : VfsTree) : Prop := after.root = t.root ∧ after.mounts = t.mounts

def NoRootBorn (t after : ProcessTable) : Prop := ∀ process ∈ after.list, process.euid = 0 → ∃ old ∈ t.list, old.pid = process.pid

def Confined (s : SystemState) (event : SystemEvent) (next : SystemState) : Prop := match event with
  | .kernel _ => True
  | .call pid _ =>
    ∀ caller, s.table.find pid = some caller → caller.euid ≠ 0 → SameNames s.tree next.tree ∧ NoRootBorn s.table next.table

-- A chroot to another directory, and a mount or change_root of a known file system, are not.
def Harmless (s : SystemState) (caller : Process) : SystemCall → Prop
  | .chroot (some path) => ∀ node, directoryAt s.tree path caller.cred = .ok node → s.tree.root = some node
  | .mount (some (_, _, fstype)) _ => fsType fstype = none
  | .changeRoot (some (source, fstype, init)) _ _ _ => source = [] ∨ init = [] ∨ fsType fstype = none
  | _ => True

def Warranted (s : SystemState) : SystemEvent → Prop
  | .kernel _ => True
  | .call pid call => ∀ caller, s.table.find pid = some caller → caller.euid = 0 ∨ Harmless s caller call

theorem same_names_refl (t : VfsTree) : SameNames t t := ⟨rfl, rfl⟩

def NoneBorn (t after : ProcessTable) : Prop := ∀ process ∈ after.list, ∃ old ∈ t.list, old.pid = process.pid

theorem none_born_refl (t : ProcessTable) : NoneBorn t t := fun process inside => ⟨process, inside, rfl⟩

theorem none_born_trans {a b c : ProcessTable} (first : NoneBorn a b) (second : NoneBorn b c) : NoneBorn a c := by
  intro process inside
  obtain ⟨middle, there, same⟩ := second process inside
  obtain ⟨old, present, equal⟩ := first middle there
  exact ⟨old, present, equal.trans same⟩

variable {t : ProcessTable} {pid uid gid : Nat} {parent caller after process : Process} {outcome : Except SchedErrno Process}
  {source : Path} {fstype : Name} {s next : SystemState}

theorem none_born_no_root {after : ProcessTable} (none : NoneBorn t after) : NoRootBorn t after :=
  fun process inside _ => none process inside

theorem modify_none_born {change : Process → Process}
    (keeps : ∀ process ∈ t.list, process.pid = pid → (change process).pid = pid) : NoneBorn t (t.modify pid change) := by
  intro process inside
  obtain ⟨old, present, becomes⟩ := List.mem_map.mp inside
  refine ⟨old, present, ?_⟩
  split at becomes
  · rename_i same
    rw [← becomes, keeps old present same, same]
  · rw [becomes]

theorem destroy_none_born {after : ProcessTable} (done : processDestroy t pid = .ok after) : NoneBorn t after := by
  unfold processDestroy at done
  split at done
  · cases done
    exact none_born_refl t
  obtain ⟨pool, _, same⟩ := map_ok.mp done
  intro process inside
  rw [← same] at inside
  exact ⟨process, (List.mem_filter.mp inside).1, rfl⟩

theorem reparent_none_born {oldParent newParent : Nat} : NoneBorn t (processReparentChildren t oldParent newParent) := by
  unfold processReparentChildren
  split
  · exact none_born_refl t
  intro process inside
  obtain ⟨old, present, becomes⟩ := List.mem_map.mp inside
  refine ⟨old, present, ?_⟩
  split at becomes <;> rw [← becomes]

theorem notify_none_born {parentPid signal : Nat} : NoneBorn t (processNotifyParentSignal t parentPid signal) := by
  unfold processNotifyParentSignal
  split
  · exact none_born_refl t
  · refine modify_none_born (fun process _ same => ?_)
    split <;> exact same

theorem remove_thread_pid (process : Process) (status : Int) : (processRemoveThreadOf process status).1.pid = process.pid := by
  unfold processRemoveThreadOf
  split
  · rfl
  dsimp only
  split
  · split <;> rfl
  · rfl

theorem finish_none_born (t : ProcessTable) (process : Process) (status : Int) :
    NoneBorn t (threadFinishProcess t process status) := by
  have left : NoneBorn t (t.modify process.pid (fun _ => (processRemoveThreadOf process status).1)) :=
    modify_none_born (fun _ _ _ => remove_thread_pid process status)
  unfold threadFinishProcess
  dsimp only
  cases (processRemoveThreadOf process status).2 with
  | none => exact left
  | reap => exact none_born_trans left reparent_none_born
  | zombie => exact none_born_trans (none_born_trans left reparent_none_born) notify_none_born

theorem wait_none_born {pid : Int} {options : Nat} {after : ProcessTable × WaitOutcome}
    (done : schedProcessWait t parent pid options = .ok after) : NoneBorn t after.1 := by
  unfold schedProcessWait at done
  dsimp only at done
  split at done
  · cases done
    exact none_born_refl t
  split at done
  · obtain ⟨table, destroyed, same⟩ := map_ok.mp done
    rw [← same]
    exact destroy_none_born destroyed
  cases done
  split
  · exact none_born_refl t
  unfold waitReport
  split
  · exact modify_none_born (fun _ _ same => same)
  split
  · exact modify_none_born (fun _ _ same => same)
  · exact none_born_refl t

-- The child takes its parent's euid before the call returns.
theorem fork_no_root_born {after : ProcessTable} {opened : Bool} (unprivileged : parent.euid ≠ 0)
    (done : sysFork t parent opened = .ok after) : NoRootBorn t after := by
  have forked : NoRootBorn t ((schedProcessCreate t true opened).modify t.pool.peek
    (fun child => schedProcessCopyIds child parent)) := by
    intro process inside isRoot
    obtain ⟨old, present, becomes⟩ := List.mem_map.mp inside
    split at becomes
    · rw [← becomes] at isRoot
      exact absurd isRoot unprivileged
    rename_i different
    obtain new | known := List.mem_cons.mp present
    · refine absurd ?_ different
      rw [new]
      cases free : t.pool.free <;> simp [processAllocId, processRefreshCred, IdPool.peek, free]
    · exact ⟨old, known, by rw [becomes]⟩
  unfold sysFork at done
  dsimp only at done
  split at done
  · cases done
    intro process inside isRoot
    obtain ⟨old, present, becomes⟩ := List.mem_map.mp inside
    split at becomes
    · rw [← becomes] at isRoot ⊢
      exact forked old present isRoot
    · exact forked process (becomes ▸ present) isRoot
  intro process inside isRoot
  unfold processDestroy at done
  split at done
  · cases done
    exact forked process inside isRoot
  obtain ⟨pool, _, same⟩ := map_ok.mp done
  rw [← same] at inside
  exact forked process (List.mem_filter.mp inside).1 isRoot

theorem set_ids_none_born (s : SystemState)
    (same : ∀ process, outcome = .ok process → process.pid = caller.pid) : NoneBorn s.table (setIds s caller outcome).table := by
  cases outcome with
  | error errno => exact none_born_refl s.table
  | ok process => exact modify_none_born (fun _ _ _ => same process rfl)

theorem set_ids_tree (s : SystemState) (caller : Process) : (setIds s caller outcome).tree = s.tree := by
  cases outcome <;> rfl

theorem setuid_pid (done : schedProcessSetuid process uid = .ok after) : after.pid = process.pid := by
  unfold schedProcessSetuid at done
  split at done
  · cases done
  cases done
  split <;> rfl

theorem setgid_pid (done : schedProcessSetgid process gid = .ok after) : after.pid = process.pid := by
  unfold schedProcessSetgid at done
  split at done
  · cases done
  cases done
  split <;> rfl

theorem seteuid_pid (done : schedProcessSeteuid process uid = .ok after) : after.pid = process.pid := by
  unfold schedProcessSeteuid at done
  split at done <;> cases done
  rfl

theorem setegid_pid (done : schedProcessSetegid process gid = .ok after) : after.pid = process.pid := by
  unfold schedProcessSetegid at done
  split at done <;> cases done
  rfl

theorem setpgid_none_born (t : ProcessTable) (caller : Process) (pid pgid : Int) :
    NoneBorn t ((schedProcessSetpgid t caller pid pgid).toOption.getD t) := by
  cases done : schedProcessSetpgid t caller pid pgid with
  | error errno => exact none_born_refl t
  | ok after =>
    unfold schedProcessSetpgid at done
    dsimp only at done
    generalize (if pid = 0 then (caller.pid : Int) else pid) = target at done
    generalize (if pgid = 0 then target else pgid) = group at done
    split at done
    · cases done
    split at done
    · cases done
    split at done
    · cases done
    · cases done
      exact modify_none_born (fun _ _ same => same)

theorem setsid_none_born (t : ProcessTable) (caller : Process) : NoneBorn t ((schedProcessSetsid t caller).toOption.getD t) := by
  cases done : schedProcessSetsid t caller with
  | error errno => exact none_born_refl t
  | ok after =>
    unfold schedProcessSetsid at done
    split at done
    · cases done
    · cases done
      exact modify_none_born (fun _ _ same => same)

theorem mkdir_same_names (answers : MountAnswers) (t : VfsTree) (path : Path) (mode : Nat) (cred : VfsCred) :
    SameNames t (vfsMkdir answers t path mode cred).1 := by
  unfold vfsMkdir
  split
  · exact same_names_refl t
  · split <;> exact ⟨rfl, rfl⟩

theorem mount_unknown {answers : MountAnswers} {t : VfsTree} {target : Path} (unknown : fsType fstype = none) :
    fsMountSpec answers t source target fstype = (t, .error (.vfs (.fs .enosys))) := by
  unfold fsMountSpec
  rw [unknown]

def Leaves (s next : SystemState) : Prop := SameNames s.tree next.tree ∧ NoRootBorn s.table next.table

theorem leaves_tables (tree : next.tree = s.tree) (none : NoneBorn s.table next.table) : Leaves s next :=
  ⟨tree ▸ same_names_refl s.tree, none_born_no_root none⟩

theorem exit_leaves {tree : VfsTree} (caller : Process) (status : Int) (same : SameNames s.tree tree) :
    Leaves s (exitCaller { s with tree } caller status) :=
  ⟨same, none_born_no_root (finish_none_born s.table caller status)⟩

theorem chroot_leaves {cred : VfsCred} {path : Path} (harmless : ∀ node,
      directoryAt s.tree path cred = .ok node → s.tree.root = some node)
    (done : sysChroot s cred (some path) = .ok next) : Leaves s next := by
  simp only [sysChroot, vfsChroot] at done
  cases leads : directoryAt s.tree path cred with
  | error e =>
    rw [leads] at done
    cases e <;> cases done
    all_goals exact leaves_tables rfl (none_born_refl s.table)
  | ok node =>
    rw [leads] at done
    cases done
    exact ⟨⟨(harmless node leads).symm, rfl⟩, none_born_no_root (none_born_refl s.table)⟩

theorem change_root_leaves {init : Path} {newroot dev : MountAnswers} {spawned : Bool}
    (harmless : source = [] ∨ init = [] ∨ fsType fstype = none)
    (done : sysChangeRoot s caller newroot dev spawned (some (source, fstype, init)) = .ok next) : Leaves s next := by
  simp only [sysChangeRoot] at done
  split at done
  · cases done
    exact exit_leaves caller _ (same_names_refl s.tree)
  rename_i complete
  have unknown : fsType fstype = none := by
    obtain empty | empty | unknown := harmless
    · exact absurd (Or.inl empty) complete
    · exact absurd (Or.inr (Or.inr empty)) complete
    · exact unknown
  have kept := mkdir_same_names newroot s.tree newrootDir 0o755 caller.cred
  have fails : ∀ tree, changeRootTo { s with tree } caller source fstype newroot dev spawned =
      .ok (exitCaller { s with tree } caller (MountError.vfs (.fs .enosys)).status) := by
    intro tree
    unfold changeRootTo
    rw [mount_unknown unknown]
  split at done
  · cases done
  · rename_i made
    rw [fails] at done
    cases done
    rw [made] at kept
    exact exit_leaves caller _ kept
  · rename_i made
    rw [fails] at done
    cases done
    rw [made] at kept
    exact exit_leaves caller _ kept
  rename_i made
  cases done
  rw [made] at kept
  exact exit_leaves caller _ kept

theorem sched_leaves {outcome : Except SchedPanic ProcessTable}
    (born : ∀ table, outcome = .ok table → NoRootBorn s.table table) (done : schedOutcome s outcome = .ok next) : Leaves s next := by
  cases outcome with
  | error panic => cases done
  | ok table =>
    cases done
    exact ⟨same_names_refl s.tree, born table rfl⟩

theorem harmless_leaves {call : SystemCall} (unprivileged : caller.euid ≠ 0)
    (harmless : Harmless s caller call) (done : systemCall s caller call = .ok next) : Leaves s next := by
  cases call with
  | chroot path =>
    cases path with
    | none =>
      cases done
      exact leaves_tables rfl (none_born_refl s.table)
    | some path => exact chroot_leaves harmless done
  | mount arguments answers =>
    cases arguments with
    | none =>
      cases done
      exact leaves_tables rfl (none_born_refl s.table)
    | some strings =>
      simp only [systemCall, sysMount, mount_unknown harmless] at done
      cases done
      exact leaves_tables rfl (none_born_refl s.table)
  | changeRoot arguments newroot dev spawned =>
    cases arguments with
    | none =>
      cases done
      exact exit_leaves caller _ (same_names_refl s.tree)
    | some strings =>
      exact change_root_leaves harmless done
  | fork opened => exact sched_leaves (fun table forked => fork_no_root_born unprivileged forked) done
  | setpgid pid pgid =>
    cases done
    exact leaves_tables rfl (setpgid_none_born s.table caller pid pgid)
  | setsid =>
    cases done
    exact leaves_tables rfl (setsid_none_born s.table caller)
  | setuid uid =>
    cases done
    exact leaves_tables (set_ids_tree s caller) (set_ids_none_born s (fun process => setuid_pid))
  | seteuid uid =>
    cases done
    exact leaves_tables (set_ids_tree s caller) (set_ids_none_born s (fun process => seteuid_pid))
  | setgid gid =>
    cases done
    exact leaves_tables (set_ids_tree s caller) (set_ids_none_born s (fun process => setgid_pid))
  | setegid gid =>
    cases done
    exact leaves_tables (set_ids_tree s caller) (set_ids_none_born s (fun process => setegid_pid))
  | exit status =>
    cases done
    exact exit_leaves caller status (same_names_refl s.tree)
  | waitpid pid options =>
    refine sched_leaves (fun table waited => ?_) done
    obtain ⟨after, reported, same⟩ := map_ok.mp waited
    exact same ▸ none_born_no_root (wait_none_born reported)
  | other files change =>
    cases done
    refine ⟨⟨rfl, rfl⟩, none_born_no_root (fun process inside => ?_)⟩
    obtain ⟨old, there, rfl⟩ := List.mem_map.mp inside
    exact ⟨old, there, rfl⟩

theorem unprivileged_calls_confined (s : SystemState) (events : List SystemEvent)
    (warranted : Permitted systemStep Warranted s events) :
    EachStep systemStep Confined s events := by
  refine permitted_each_step (fun _ _ _ _ _ _ => trivial) trivial ?_ warranted
  intro state event next _ allowed taken
  cases event with
  | kernel call => trivial
  | call pid call =>
    intro caller found unprivileged
    simp only [systemStep, found] at taken
    obtain isRoot | harmless := allowed caller found
    · exact absurd isRoot unprivileged
    · exact harmless_leaves unprivileged harmless taken

-- fs_mount_spec gives a tmpfs root 20; anyone may write the ext2 root 40.
def deepTree : VfsTree where
  node n := ⟨vfsSIfdir ||| if n = 20 then 0o755 else 0o777, 0, 0, 0, some 0⟩
  ops _ := ⟨true, true, true, true, true, true, true, true, true⟩
  lookup dir _ := .ok (some (dir + 1))
  read _ _ := .ok []
  root := some 0
  mounts := []

def willing : MountAnswers where
  fs _ := .ok ()
  files := deepTree
  devfsRoot := some 30
  freshRoot := some 20
  volume _ := .ok 40
  volumePath := []
  memory := true

def userState : SystemState where
  tree := deepTree
  table :=
    { list := { processAllocId 2 true true with threadCount := 1, ruid := 1000, euid := 1000, suid := 1000, cred := ⟨⟨1000, 1000⟩, [],
      0o022⟩ } ::
        (bootTable 1).list
      pool := ⟨3, []⟩ }

theorem user_fork_confined : EachStep systemStep Confined userState
    [.call 2 (.mount (some ([], [47, 97], [120])) willing), .call 2 (.fork true), .call 3 (.setuid 0)] :=
  unprivileged_calls_confined userState _
    ⟨fun _ _ => Or.inr (rfl : fsType [120] = none), fun _ _ => ⟨fun _ _ => Or.inr trivial,
      fun _ _ => ⟨fun _ _ => Or.inr trivial, fun _ _ => trivial⟩⟩⟩

-- From a volume of its own it starts an init of its choice as root.
theorem user_takes_over :
    (∃ next, systemStep userState (.call 2 (.chroot (some [47, 97]))) = .ok next ∧ next.tree.root ≠ userState.tree.root) ∧
    (∃ next, systemStep userState (.call 2 (.mount (some ([], [47, 97], [116, 109, 112, 102, 115])) willing)) = .ok next ∧
      next.tree.mounts ≠ userState.tree.mounts) ∧
    ∃ next, systemStep userState (.call 2 (.changeRoot (some ([97], [101, 120, 116, 50], [47, 97])) willing willing true)) =
      .ok next ∧
      ∃ process ∈ next.table.list, process.euid = 0 ∧ ∀ old ∈ userState.table.list, old.pid ≠ process.pid :=
  ⟨⟨_, rfl, by decide +kernel⟩, ⟨_, rfl, by decide +kernel⟩, ⟨_, rfl, by decide +kernel⟩⟩

end Lyr.Sys
