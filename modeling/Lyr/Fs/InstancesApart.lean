import Lyr.Fs.Instances
import Lyr.Fs.PathWithin
import Lyr.Fs.Requests

set_option autoImplicit false

namespace Lyr.Fs

open Lyr.Lib Function

def Separate (w : Instances) : Prop := ∀ dir, ∀ entry ∈ w.entries dir, entry.origin = w.inst dir

def Placed (w : Instances) (dir : Nat) (entry : FsEntry) : Prop :=
  entry.origin = w.inst dir ∧ dir < w.nextNode ∧ ∀ node ∈ entry.node, w.inst node = w.inst dir ∧ node < w.nextNode

structure WellPlaced (w : Instances) : Prop where
  entries : ∀ dir, ∀ entry ∈ w.entries dir, Placed w dir entry
  parents : ∀ node parent, w.parent node = some parent → w.inst parent = w.inst node ∧ node < w.nextNode ∧ parent < w.nextNode
  root : ∀ node ∈ w.root, node < w.nextNode
  mounts : ∀ mount ∈ w.mounts, mount.root < w.nextNode

theorem well_placed_separate (w : Instances) (placed : WellPlaced w) : Separate w :=
  fun dir entry inside => (placed.entries dir entry inside).1

variable {name : Name} {entry source : FsEntry} {w : Instances} {answers : FsAnswers} {dir oldDir newDir target : Nat} {t : VfsTree}
  {cred : VfsCred} {inside : Nat → Prop} {base : Option Nat} {path : Path} {events : List VfsEvent}

theorem find_entry_mem {entries : List FsEntry} (found : findEntry entries name = some entry) : entry ∈ entries :=
  List.mem_of_find?_eq_some found

section

variable (placed : WellPlaced w)
include placed

theorem lookup_same_instance {next : Nat}
    (looked : fsLookup w answers dir name = .ok (some next)) : w.inst next = w.inst dir ∧ (dir < w.nextNode → next < w.nextNode) := by
  have listed : entryNode (findEntry (w.entries dir) name) = .ok (some next) → w.inst next = w.inst dir ∧
    (dir < w.nextNode → next < w.nextNode) := by
    intro found
    cases entryOf : findEntry (w.entries dir) name with
    | none => rw [entryOf] at found; cases found
    | some entry =>
      rw [entryOf, entryNode] at found
      cases nodeOf : entry.node with
      | none => rw [nodeOf] at found; cases found
      | some node =>
        rw [nodeOf] at found
        cases found
        have there := (placed.entries dir entry (find_entry_mem entryOf)).2.2 next nodeOf
        exact ⟨there.1, fun _ => there.2⟩
  have upward : w.parent dir = some next → w.inst next = w.inst dir ∧ (dir < w.nextNode → next < w.nextNode) := fun up =>
    ⟨(placed.parents dir next up).1, fun _ => (placed.parents dir next up).2.2⟩
  rw [fsLookup] at looked
  split at looked
  · cases looked
  split at looked
  · cases looked
    exact ⟨rfl, id⟩
  split at looked
  · split at looked
    · cases looked
    · exact listed looked
  split at looked
  · exact upward (Except.ok.inj looked)
  · exact listed looked

theorem tree_stays (answers : FsAnswers) : StaysIn (w.tree answers) (· < w.nextNode) :=
  ⟨fun _ _ _ inside _ looked => (lookup_same_instance placed looked).2 inside, placed.mounts⟩

omit placed in
theorem set_entries_placed (w : Instances) (dir : Nat) (entries : List FsEntry) (placed : WellPlaced w)
    (all : ∀ entry ∈ entries, Placed w dir entry) :
    WellPlaced (w.setEntries dir entries) := by
  refine ⟨fun other entry inside => ?_, placed.parents, placed.root, placed.mounts⟩
  change entry ∈ update w.entries dir entries other at inside
  rw [update_apply] at inside
  split at inside
  next same => exact same ▸ all entry inside
  · exact placed.entries other entry inside

theorem tmpfs_drop_placed (dir : Nat) (entry : FsEntry) : WellPlaced (tmpfsDrop w dir entry) := by
  have fewer := set_entries_placed w dir ((w.entries dir).erase entry) placed
    (fun other inside => placed.entries dir other (List.mem_of_mem_erase inside))
  refine ⟨fewer.entries, fun node parent up => ?_, placed.root, placed.mounts⟩
  cases named : entry.node with
  | none =>
    simp only [tmpfsDrop, named] at up
    exact placed.parents node parent up
  | some gone =>
    simp only [tmpfsDrop, named, update_apply] at up
    split at up
    · cases up
    · exact placed.parents node parent up

theorem tmpfs_insert_placed (there : Placed w dir entry) : WellPlaced (tmpfsInsert w dir entry) := by
  have more := set_entries_placed w dir (entry :: w.entries dir) placed (List.forall_mem_cons.mpr ⟨there, placed.entries dir⟩)
  refine ⟨more.entries, fun node parent up => ?_, placed.root, placed.mounts⟩
  cases named : entry.node with
  | none =>
    simp only [tmpfsInsert, named] at up
    exact placed.parents node parent up
  | some child =>
    simp only [tmpfsInsert, named, update_apply] at up
    split at up
    next same =>
      cases up
      have inside := there.2.2 child named
      exact ⟨same ▸ inside.1.symm, same ▸ inside.2, there.2.1⟩
    · exact placed.parents node parent up

theorem tmpfs_move_placed {child : FsEntry} (newName : Name)
    (inside : Placed w oldDir child) (same : w.inst oldDir = w.inst newDir) (exists_ : newDir < w.nextNode) :
    WellPlaced (tmpfsMove w oldDir child newDir newName) := by
  refine tmpfs_insert_placed (tmpfs_drop_placed placed oldDir child) ⟨inside.1.trans same, exists_, fun node named => ?_⟩
  have there := inside.2.2 node named
  exact ⟨there.1.trans same, there.2⟩

theorem root_of_instance {fuel : Nat} (node : Nat) {root : Nat} (found : tmpfsRootOf w fuel node = some root) :
    w.inst root = w.inst node := by
  induction fuel generalizing node with
  | zero => cases found
  | succ fuel ih =>
    rw [tmpfsRootOf] at found
    split at found
    · cases found
    next parent up =>
      split at found
      · cases found
        rfl
      · exact (ih parent found).trans (placed.parents node parent up).1

theorem tmpfs_rename_cases (oldDir : Nat) (oldName : Name) (newName : Name)
    (exists_ : newDir < w.nextNode) : (∃ e, w.tmpfsRename oldDir oldName newDir newName = (w, .error e)) ∨
      w.inst oldDir = w.inst newDir ∧ WellPlaced (w.tmpfsRename oldDir oldName newDir newName).1 := by
  rw [Instances.tmpfsRename]
  split
  · exact .inl ⟨_, rfl⟩
  split
  · exact .inl ⟨_, rfl⟩
  split
  · exact .inl ⟨_, rfl⟩
  split
  next oldRoot newRoot atOld atNew =>
    split
    · exact .inl ⟨_, rfl⟩
    next roots =>
    have same : w.inst oldDir = w.inst newDir := by
      rw [← root_of_instance placed oldDir atOld, ← root_of_instance placed newDir atNew, not_not.mp roots]
    split
    · exact .inl ⟨_, rfl⟩
    next child found =>
    have inside := placed.entries oldDir child (find_entry_mem found)
    split
    · exact .inr ⟨same, placed⟩
    split
    · exact .inl ⟨_, rfl⟩
    split
    · exact .inr ⟨same, tmpfs_move_placed placed newName inside same exists_⟩
    next target _ =>
    split
    · exact .inr ⟨same, placed⟩
    split
    · exact .inl ⟨_, rfl⟩
    split
    · exact .inl ⟨_, rfl⟩
    · exact .inr ⟨same, tmpfs_move_placed (tmpfs_drop_placed placed newDir target) newName inside same exists_⟩
  · exact .inl ⟨_, rfl⟩

theorem made_placed {node : Nat → Vnode} {kind : Nat → FsKind} (instance_ : Nat) :
    WellPlaced { w with node := node, kind := kind, inst := update w.inst w.nextNode instance_, nextNode := w.nextNode + 1 } := by
  have kept : ∀ node, node < w.nextNode → update w.inst w.nextNode instance_ node = w.inst node := fun node below =>
    update_of_ne (Nat.ne_of_lt below) _ _
  refine ⟨fun dir entry inside => ?_, fun node parent up => ?_, fun node root => Nat.lt_succ_of_lt (placed.root node root),
    fun mount inside => Nat.lt_succ_of_lt (placed.mounts mount inside)⟩
  · obtain ⟨origin, below, nodes⟩ := placed.entries dir entry inside
    refine ⟨origin.trans (kept dir below).symm, Nat.lt_succ_of_lt below, fun node named => ?_⟩
    obtain ⟨same, exists_⟩ := nodes node named
    refine ⟨?_, Nat.lt_succ_of_lt exists_⟩
    change update w.inst w.nextNode instance_ node = update w.inst w.nextNode instance_ dir
    rw [kept node exists_, kept dir below, same]
  obtain ⟨same, below, above⟩ := placed.parents node parent up
  refine ⟨?_, Nat.lt_succ_of_lt below, Nat.lt_succ_of_lt above⟩
  change update w.inst w.nextNode instance_ parent = update w.inst w.nextNode instance_ node
  rw [kept parent above, kept node below, same]

theorem tmpfs_link_placed (answers : FsAnswers) (name : Name)
    (exists_ : dir < w.nextNode) (same : w.inst target = w.inst dir) : WellPlaced (w.tmpfsLink answers dir name target).1 := by
  have kept : update w.inst w.nextNode (w.inst dir) dir = w.inst dir := update_of_ne (Nat.ne_of_lt exists_) _ _
  rw [Instances.tmpfsLink]
  split
  · exact placed
  split
  · exact placed
  split
  · exact placed
  split
  · exact placed
  split
  · exact placed
  refine tmpfs_insert_placed (made_placed placed (w.inst dir)) ⟨same.trans kept.symm, Nat.lt_succ_of_lt exists_, fun node named => ?_⟩
  cases named
  refine ⟨?_, Nat.lt_succ_self _⟩
  change update w.inst w.nextNode (w.inst dir) w.nextNode = update w.inst w.nextNode (w.inst dir) dir
  rw [kept, update_self]

theorem add_record_placed (answers : FsAnswers) (there : Placed w dir entry) :
    WellPlaced (addRecord w answers dir entry) := by
  refine set_entries_placed w dir _ placed (fun other inside => ?_)
  obtain rfl | listed := List.eq_or_mem_of_mem_insertIdx inside
  · exact there
  · exact placed.entries dir other listed

theorem drop_record_placed (dir : Nat) (name : Name) : WellPlaced (dropRecord w dir name) :=
  set_entries_placed w dir _ placed (fun entry inside => placed.entries dir entry (List.mem_of_mem_eraseP inside))

section

variable (exists_ : newDir < w.nextNode)
include exists_

theorem set_dot_dot_placed (below : dir < w.nextNode)
    (same : w.inst newDir = w.inst dir) : WellPlaced (setDotDot w dir newDir) := by
  refine set_entries_placed w dir _ placed (fun entry inside => ?_)
  obtain ⟨old, listed, rfl⟩ := List.mem_map.mp inside
  split
  · refine ⟨same, below, fun node named => ?_⟩
    cases named
    exact ⟨same, exists_⟩
  · exact placed.entries dir old listed

theorem ext2_finish_placed (answers : FsAnswers) (oldName : Name) (newName : Name)
    (inside : Placed w oldDir source) (same : w.inst oldDir = w.inst newDir) :
    WellPlaced (ext2Finish w answers oldDir oldName newDir newName source).1 := by
  have added : WellPlaced (addRecord w answers newDir { source with name := newName }) :=
    add_record_placed placed answers ⟨inside.1.trans same, exists_, fun node named =>
      ⟨(inside.2.2 node named).1.trans same, (inside.2.2 node named).2⟩⟩
  have moved := drop_record_placed added oldDir oldName
  rw [ext2Finish]
  split
  · exact placed
  split
  · split
    · exact drop_record_placed added newDir newName
    · exact added
  split
  · split
    next node _ named =>
      have there := inside.2.2 node named
      have settled := set_dot_dot_placed moved exists_ there.2 (there.1.trans same).symm
      split
      · exact settled
      · exact settled
      · exact settled
    · exact moved
    · exact moved
  · exact moved

theorem ext2_replace_placed (answers : FsAnswers) (oldName : Name) (newName : Name)
    {target : FsEntry} (inside : Placed w oldDir source) (same : w.inst oldDir = w.inst newDir) :
    WellPlaced (ext2Replace w answers oldDir oldName newDir newName source target).1 := by
  rw [ext2Replace]
  split
  · exact placed
  split
  · exact placed
  split
  · exact placed
  split
  · exact placed
  split
  · exact ext2_finish_placed (drop_record_placed placed newDir newName) exists_ answers oldName newName inside same
  · exact placed
  · exact placed
  · exact placed

theorem ext2_rename_cases (answers : FsAnswers) (oldDir : Nat) (oldName : Name) (newName : Name) :
    (∃ e, w.ext2Rename answers oldDir oldName newDir newName = (w, .error e)) ∨
      w.inst oldDir = w.inst newDir ∧ WellPlaced (w.ext2Rename answers oldDir oldName newDir newName).1 := by
  rw [Instances.ext2Rename]
  split
  · exact .inl ⟨_, rfl⟩
  split
  · exact .inl ⟨_, rfl⟩
  split
  · exact .inl ⟨_, rfl⟩
  split
  · exact .inl ⟨_, rfl⟩
  next instances =>
    have same := not_not.mp instances
    split
    · exact .inl ⟨_, rfl⟩
    · exact .inl ⟨_, rfl⟩
    next source _ found =>
      have inside := placed.entries oldDir source (find_entry_mem found)
      split
      · exact .inr ⟨same, placed⟩
      split
      · exact .inl ⟨_, rfl⟩
      split
      · exact .inl ⟨_, rfl⟩
      · exact .inr ⟨same, ext2_finish_placed placed exists_ answers oldName newName inside same⟩
      · exact .inr ⟨same, ext2_replace_placed placed exists_ answers oldName newName inside same⟩

omit exists_ in
theorem ext2_link_placed (answers : FsAnswers) (name : Name)
    (below : target < w.nextNode) (exists_ : dir < w.nextNode) (same : w.inst target = w.inst dir) :
    WellPlaced (w.ext2Link answers dir name target).1 := by
  rw [Instances.ext2Link]
  split
  · exact placed
  split
  · exact placed
  refine add_record_placed placed answers ⟨same, exists_, fun node named => ?_⟩
  cases named
  exact ⟨same, below⟩

theorem rename_change_cases (answers : FsAnswers) (oldDir : Nat) (oldName : Name) (newName : Name) :
    (∃ e, applyChange w answers (.rename oldDir oldName newDir newName) = (w, .error e)) ∨
      w.inst oldDir = w.inst newDir ∧ WellPlaced (applyChange w answers (.rename oldDir oldName newDir newName)).1 := by
  rw [applyChange]
  split
  · exact tmpfs_rename_cases placed oldDir oldName newName exists_
  · exact ext2_rename_cases placed exists_ answers oldDir oldName newName
  · exact .inl ⟨_, rfl⟩

end

theorem link_change_cases (answers : FsAnswers) (name : Name)
    (below : target < w.nextNode) (exists_ : dir < w.nextNode) (within : w.inst target = w.inst dir ∨ w.kind dir = .devfs) :
    (∃ e, applyChange w answers (.link dir name target) = (w, .error e)) ∨
      w.inst target = w.inst dir ∧ WellPlaced (applyChange w answers (.link dir name target)).1 := by
  rw [applyChange]
  obtain same | kind := within
  · refine .inr ⟨same, ?_⟩
    split
    · exact tmpfs_link_placed placed answers name exists_ same
    · exact ext2_link_placed placed answers name below exists_ same
    · exact placed
  · rw [kind]
    exact .inl ⟨_, rfl⟩

end

-- A link leads to a node of its directory's instance, or asks a devfs, which has no links.
def InstanceCall.Within (w : Instances) : InstanceCall → Prop
  | .rename _ _ _ _ _ _ => True
  | .link oldBase oldPath newBase newPath cred answers =>
    match (linkSource (w.tree answers) oldBase oldPath cred).result, (linkDir (w.tree answers) newBase newPath cred).result with
    | .ok target, .ok dir => w.inst target = w.inst dir ∨ w.kind dir = .devfs
    | _, _ => True

-- An entry for another instance's node is asked for.
def InstanceCall.Foreign (w : Instances) : InstanceCall → Prop
  | .rename oldBase oldPath newBase newPath cred answers => ∃ oldDir oldName newDir newName source,
      (resolveParentAt (w.tree answers) oldBase oldPath cred).result = .ok (some oldDir, oldName) ∧
      (resolveParentAt (w.tree answers) newBase newPath cred).result = .ok (some newDir, newName) ∧
      fsLookup w answers oldDir oldName = .ok (some source) ∧ w.inst source ≠ w.inst newDir
  | .link oldBase oldPath newBase newPath cred answers =>
    ∃ target dir, (linkSource (w.tree answers) oldBase oldPath cred).result = .ok target ∧
      (linkDir (w.tree answers) newBase newPath cred).result = .ok dir ∧ w.inst target ≠ w.inst dir

theorem resolved_inside {refused : Nat → Bool} {e : Errno} {id : Nat} (stays : StaysIn t inside)
    (root : ∀ n, t.root = some n → inside n) (start : ∀ n, base = some n → inside n)
    (found : (resolveFrom t base path cred >>= fun node => deref node >>= fun id =>
      if refused id then errno e else pure id).result = .ok id) : inside id := by
  rw [result_bind, bind_ok] at found
  obtain ⟨node, resolved, found⟩ := found
  rw [result_bind, bind_ok] at found
  obtain ⟨id, read, found⟩ := found
  rw [deref_ok read] at resolved
  split at found
  · cases found
  · cases found
    exact resolve_from_within stays root start resolved

theorem change_mem {change : Change} (found : events.findSome? VfsEvent.change? = some change) : .changed change ∈ events := by
  obtain ⟨event, inside, is⟩ := List.exists_of_findSome?_eq_some found
  cases event with
  | looked dir => cases is
  | changed other =>
    cases is
    exact inside

theorem no_change_mem (change : Change) (none_ : events.findSome? VfsEvent.change? = none) : .changed change ∉ events :=
  fun inside => nomatch List.findSome?_eq_none_iff.mp none_ _ inside

def Judged (w : Instances) (foreign : Prop) (ended : Instances × Except InstanceError Unit) : Prop :=
  WellPlaced ended.1 ∧ (foreign → ∃ e, ended = (w, .error e))

section

variable (placed : WellPlaced w)
include placed

theorem judged_of_cases {foreign same : Prop} {ended : Instances × Except InstanceError Unit}
    (apart : foreign → ¬ same) (either : (∃ e, ended = (w, .error e)) ∨ same ∧ WellPlaced ended.1) : Judged w foreign ended := by
  obtain ⟨e, rfl⟩ | ⟨holds, kept⟩ := either
  · exact ⟨placed, fun _ => ⟨e, rfl⟩⟩
  · exact ⟨kept, fun differs => absurd holds (apart differs)⟩

theorem rename_judged (oldBase : Option Nat) (oldPath : Path) (newBase : Option Nat) (newPath : Path)
    (cred : VfsCred) (answers : FsAnswers) : Judged w ((InstanceCall.rename oldBase oldPath newBase newPath cred answers).Foreign w)
      (instanceAct w (.rename oldBase oldPath newBase newPath cred answers)) := by
  rw [instanceAct]
  split
  · exact ⟨placed, fun _ => ⟨_, rfl⟩⟩
  next bases =>
    have start : ∀ n, newBase = some n → n < w.nextNode := fun n same =>
      Nat.lt_of_not_le (fun beyond => bases ⟨newBase, by simp [InstanceCall.bases], n, same, beyond⟩)
    have asked := vfs_rename_asked (w.tree answers) cred (fun _ => .ok ()) oldBase oldPath newBase newPath
    split
    next change _ found =>
      obtain ⟨oldDir, oldName, newDir, newName, rfl, atOld, atNew⟩ := asked _ (change_mem found) change rfl
      have exists_ := resolve_parent_within (tree_stays placed answers) placed.root start atNew
      refine judged_of_cases placed (fun foreign => ?_) (rename_change_cases placed exists_ answers oldDir oldName newName)
      obtain ⟨_, _, _, _, source, atOther, atLast, looked, differ⟩ := foreign
      cases atOld.symm.trans atOther
      cases atNew.symm.trans atLast
      rwa [(lookup_same_instance placed looked).1] at differ
    next done none_ =>
      refine ⟨placed, fun foreign => ?_⟩
      obtain ⟨oldDir, oldName, newDir, newName, source, atOld, atNew, looked, differ⟩ := foreign
      exfalso
      have first := (lookup_same_instance placed looked).1
      obtain same | inside | ⟨both, lookedOld, lookedNew⟩ := vfs_rename_done (w.tree answers) cred atOld atNew done
      · exact differ (first.trans (congrArg w.inst same))
      · exact no_change_mem _ none_ inside
      · cases lookedOld.symm.trans looked
        exact differ (lookup_same_instance placed lookedNew).1
    · exact ⟨placed, fun _ => ⟨_, rfl⟩⟩

theorem link_judged {oldBase : Option Nat} {oldPath : Path} {newBase : Option Nat} {newPath : Path}
    (within : (InstanceCall.link oldBase oldPath newBase newPath cred answers).Within w) :
    Judged w ((InstanceCall.link oldBase oldPath newBase newPath cred answers).Foreign w)
      (instanceAct w (.link oldBase oldPath newBase newPath cred answers)) := by
  rw [instanceAct]
  split
  · exact ⟨placed, fun _ => ⟨_, rfl⟩⟩
  next bases =>
    have start : ∀ base ∈ [oldBase, newBase], ∀ n, base = some n → n < w.nextNode := fun base given n same =>
      Nat.lt_of_not_le (fun beyond => bases ⟨base, given, n, same, beyond⟩)
    have asked := vfs_link_asked (w.tree answers) cred (fun _ => .ok ()) oldBase oldPath newBase newPath
    split
    next change _ found =>
      obtain ⟨dir, name, target, rfl, source, atDir⟩ := asked _ (change_mem found) change rfl
      have exists_ := resolved_inside (tree_stays placed answers) placed.root (start newBase (by simp)) atDir
      have below := resolved_inside (tree_stays placed answers) placed.root (start oldBase (by simp)) source
      rw [InstanceCall.Within, source, atDir] at within
      refine judged_of_cases placed (fun foreign => ?_) (link_change_cases placed answers name below exists_ within)
      obtain ⟨_, _, other, last, differ⟩ := foreign
      cases source.symm.trans other
      cases atDir.symm.trans last
      exact differ
    next done none_ =>
      obtain ⟨change, inside⟩ := vfs_link_done (w.tree answers) cred done
      exact absurd inside (no_change_mem change none_)
    · exact ⟨placed, fun _ => ⟨_, rfl⟩⟩

theorem call_judged {call : InstanceCall} (within : call.Within w) : Judged w (call.Foreign w) (instanceAct w call) := by
  cases call with
  | rename oldBase oldPath newBase newPath cred answers => exact rename_judged placed oldBase oldPath newBase newPath cred answers
  | link oldBase oldPath newBase newPath cred answers => exact link_judged placed within

end

def ForeignRefused (w : Instances) (call : InstanceCall) (next : Instances) : Prop :=
  call.Foreign w → next = w ∧ ∃ e, (instanceAct w call).2 = .error e

def dirNode : Vnode := ⟨vfsSIfdir ||| 0o755, 0, 0, 0, none⟩
def fileNode : Vnode := ⟨vfsSIfreg ||| 0o644, 0, 0, 0, none⟩

def twoInstances (kind : FsKind) : Instances where
  node := fun n => if n = 1 then fileNode else dirNode
  kind := fun _ => kind
  inst := fun n => if n = 3 then 1 else 0
  parent := fun n => if n = 0 then some 0 else if n = 1 then some 0 else if n = 2 then some 0 else if n = 3 then some 3 else none
  entries := fun n => if n = 0 then [⟨[97], some 1, 0⟩, ⟨[109], some 2, 0⟩] else []
  root := some 0
  mounts := [⟨2, 3, [slash, 109]⟩]
  nextNode := 4

theorem two_instances_placed (kind : FsKind) : WellPlaced (twoInstances kind) := by
  refine ⟨fun dir entry inside => ?_, fun node parent up => ?_, by simp [twoInstances], by simp [twoInstances]⟩
  · by_cases top : dir = 0
    · subst top
      simp only [twoInstances, if_pos, List.mem_cons, List.not_mem_nil, or_false] at inside
      obtain rfl | rfl := inside
      · simp [Placed, twoInstances]
      · simp [Placed, twoInstances]
    · simp [twoInstances, top] at inside
  · simp only [twoInstances] at up ⊢
    grind

def noTrouble : FsAnswers := ⟨fun _ _ => none, fun _ => none, none, 0, none, true⟩

def rootCaller : VfsCred := ⟨⟨0, 0⟩, [], 0⟩

-- link("/a", "/m/b")
def foreignLink : InstanceCall := .link none [slash, 97] none [slash, 109, slash, 98] rootCaller noTrouble

def Crosses (w : Instances) (call : InstanceCall) : Prop :=
  WellPlaced w ∧ call.Foreign w ∧ (instanceAct w call).2 = .ok () ∧ ¬ Separate (instanceAct w call).1

def refusedRename : InstanceCall := .rename none [slash, 97] none [slash, 109, slash, 98] rootCaller noTrouble
def localLink : InstanceCall := .link none [slash, 97] none [slash, 99] rootCaller noTrouble

end Lyr.Fs
