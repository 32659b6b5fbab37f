import Lyr.Fs.TmpfsRename
import Lyr.Lib.Run

set_option autoImplicit false

namespace Lyr.Fs

open Lyr.Lib Lyr.Mm Function

-- The references held on each node, the file a node is a name of, and the bytes last written to each file.
structure TmpfsWorld where
  fs : Tmpfs
  root : Nat
  opens : Nat → Nat
  file : Nat → Nat
  contents : Nat → ByteFile

inductive TmpfsCall where
  | lookup (dir : Nat) (name : Name)
  | create (dir : Nat) (name : Name) (mode : Nat) (cred : Cred)
  | mkdir (dir : Nat) (name : Name) (mode : Nat) (cred : Cred)
  | symlink (dir : Nat) (target name : Name) (cred : Cred)
  | link (dir : Nat) (name : Name) (target : Nat)
  | write (id off : Nat) (data : List UInt8)
  | truncate (id size : Nat)
  | unlink (dir : Nat) (name : Name)
  | rmdir (dir : Nat) (name : Name)
  | rename (oldDir : Nat) (oldName : Name) (newDir : Nat) (newName : Name)
  | release (id : Nat)
deriving DecidableEq, Repr

namespace TmpfsWorld

variable (w : TmpfsWorld)

def give (fs : Tmpfs) : Except Errno (Option Nat) → TmpfsWorld
  | .ok (some id) => { w with fs, opens := update w.opens id (w.opens id + 1) }
  | _ => { w with fs }

def add (fs : Tmpfs) (id holders : Nat) : TmpfsWorld :=
  { w with fs, opens := update w.opens id holders, file := update w.file id id,
           contents := update w.contents id ByteFile.empty }

def created (fs : Tmpfs) : Except Errno Nat → TmpfsWorld
  | .ok id => w.add fs id 1
  | .error _ => { w with fs }

def symlinked (fs : Tmpfs) : Except Errno Unit → TmpfsWorld
  | .ok _ => w.add fs w.fs.nextNode 0
  | .error _ => { w with fs }

def linked (fs : Tmpfs) (target : Nat) : Except Errno Unit → TmpfsWorld
  | .ok _ => { w with fs, opens := update w.opens w.fs.nextNode 0, file := update w.file w.fs.nextNode (w.file target) }
  | .error _ => { w with fs }

def rewritten {α : Type} (fs : Tmpfs) (id : Nat) (change : ByteFile → ByteFile) : Except Errno α → TmpfsWorld
  | .ok _ => { w with fs, contents := update w.contents (w.file id) (change (w.contents (w.file id))) }
  | .error _ => { w with fs }

def names (f : Nat) : Nat :=
  ∑ d ∈ Finset.range w.fs.nextNode, ((w.fs.nodes d).elim [] (fun dir => dir.children)).countP (fun c => w.file c = f)

end TmpfsWorld

def TmpfsCall.step (w : TmpfsWorld) : TmpfsCall → Result TmpfsWorld
  | .lookup dir name => do
    let (fs, reply) ← tmpfsLookup w.fs dir name
    .ok (w.give fs reply)
  | .create dir name mode cred => do
    let (fs, reply) ← tmpfsCreate w.fs dir name mode cred
    .ok (w.created fs reply)
  | .mkdir dir name mode cred => do
    let (fs, reply) ← tmpfsMkdir w.fs dir name mode cred
    .ok (w.created fs reply)
  | .symlink dir target name cred => do
    let (fs, reply) ← tmpfsSymlink w.fs dir target name cred
    .ok (w.symlinked fs reply)
  | .link dir name target => do
    let (fs, reply) ← tmpfsLink w.fs dir name target
    .ok (w.linked fs target reply)
  | .write id off data => do
    let (fs, reply) ← tmpfsWrite w.fs heapInPlace id off data
    .ok (w.rewritten fs id (fun f => f.write off data) reply)
  | .truncate id size => do
    let (fs, reply) ← tmpfsTruncate w.fs heapInPlace id size
    .ok (w.rewritten fs id (fun f => f.truncate size) reply)
  | .unlink dir name => do
    let (fs, _) ← tmpfsUnlink w.fs dir name
    .ok { w with fs }
  | .rmdir dir name => do
    let (fs, _) ← tmpfsRmdir w.fs dir name
    .ok { w with fs }
  | .rename oldDir oldName newDir newName => do
    let (fs, _) ← tmpfsRename w.fs oldDir oldName newDir newName
    .ok { w with fs }
  | .release id => do
    let fs ← Lyr.Fs.release w.fs id
    .ok { w with fs, opens := update w.opens id (w.opens id - 1) }

def linkRefused (s : Tmpfs) (dir : Nat) (name : Name) : Bool :=
  name.length = 0 ∨ name.length > vfsNameMax ∨ (s.nodes dir).elim true (fun node => !vfsSIsdir node.mode) = true ∨
    (findChild s dir name).toOption.join ≠ none

-- The caller holds a reference on what it names, the mount its own on the root; counts do not wrap, no file exceeds 512 pages, no
-- hard link is made and nothing is renamed in or into a removed directory.
def TmpfsCall.Allowed (w : TmpfsWorld) : TmpfsCall → Prop
  | .lookup dir _ => 0 < w.opens dir ∧ ∀ id, id < w.fs.nextNode → (w.fs.nodes id).elim 0 (fun node => node.refs) + 1 < 2 ^ 32
  | .create dir _ _ _ => 0 < w.opens dir
  | .mkdir dir _ _ _ => 0 < w.opens dir
  | .symlink dir _ _ _ => 0 < w.opens dir
  | .link dir name _ => 0 < w.opens dir ∧ linkRefused w.fs dir name = true
  | .write id off data => 0 < w.opens id ∧ off + data.length ≤ 4096 * 512
  | .truncate id size => 0 < w.opens id ∧ size ≤ 4096 * 512
  | .unlink dir _ => 0 < w.opens dir
  | .rmdir dir _ => 0 < w.opens dir
  | .rename oldDir _ newDir _ => 0 < w.opens oldDir ∧ 0 < w.opens newDir ∧
      attached w.fs w.root w.fs.nextNode oldDir = true ∧ attached w.fs w.root w.fs.nextNode newDir = true
  | .release id => 0 < w.opens id ∧ (id = w.root → 1 < w.opens id)

instance (w : TmpfsWorld) (call : TmpfsCall) : Decidable (call.Allowed w) :=
  match call with
  | .lookup .. | .link .. | .write .. | .truncate .. | .rename .. | .release .. => instDecidableAnd
  | .create .. | .mkdir .. | .symlink .. | .unlink .. | .rmdir .. => Nat.decLt _ _

-- Every name reads what was last written, nlink counts the names, and arrays and pages live as long as a node needs them.
structure LinksSound (outside : Nat → Prop) (w : TmpfsWorld) : Prop where
  reads : ∀ id node, w.fs.nodes id = some node → vfsSIsreg node.mode = true → ∀ off len,
    tmpfsRead w.fs id off len = .ok (.ok ((w.contents (w.file id)).read off len))
  nlink : ∀ id node, w.fs.nodes id = some node → vfsSIsreg node.mode = true → node.nlink = w.names (w.file id)
  live : ∀ id, w.fs.nodes id ≠ none ↔ 0 < w.opens id ∨ ∃ d dir, w.fs.nodes d = some dir ∧ id ∈ dir.children
  arrays : ∀ a, w.fs.arrays a ≠ none ↔ ∃ id node, w.fs.nodes id = some node ∧ node.pages = some a
  pages : ∀ p, w.fs.machine.used p ≠ none ↔ outside p ∨ ∃ id i, w.fs.pageAt id i = some p

structure OneName (outside : Nat → Prop) (w : TmpfsWorld) : Prop where
  settled : Settled outside w.root w.contents w.opens w.fs
  file : w.file = fun id => id

section OneName

variable {outside : Nat → Prop} (w : TmpfsWorld) (one : OneName outside w)
include one

variable {id : Nat}

theorem names_count {node : TmpfsNode} (found : w.fs.nodes id = some node) (notRoot : id ≠ w.root) :
    w.names id = if node.parent ≠ none then 1 else 0 := by
  have listed : ∀ d dir, w.fs.nodes d = some dir → id ∈ dir.children → node.parent = some d := by
    intro d dir there member
    obtain ⟨_, child, known, up⟩ := one.settled.tree.down d dir id there member
    rw [found, Option.some.injEq] at known
    exact known ▸ up
  have absent : ∀ d, node.parent ≠ some d →
      ((w.fs.nodes d).elim [] (fun dir => dir.children)).countP (fun c => w.file c = id) = 0 := by
    intro d other
    cases there : w.fs.nodes d with
    | none => rfl
    | some dir =>
      simp only [Option.elim_some, one.file, List.countP_eq_zero, decide_eq_true_eq]
      rintro c member rfl
      exact other (listed d dir there member)
  rw [TmpfsWorld.names]
  cases up : node.parent with
  | none =>
    rw [if_neg (by simp)]
    exact Finset.sum_eq_zero (fun d _ => absent d (by rw [up]; simp))
  | some p =>
    rw [if_pos (by simp)]
    obtain ⟨dir, there, member⟩ := one.settled.tree.up id node p found up notRoot
    have inside : p ∈ Finset.range w.fs.nextNode := by
      rw [Finset.mem_range]
      by_contra high
      rw [one.settled.owned.nodesBelow p (by omega)] at there
      cases there
    rw [Finset.sum_eq_single p (fun d _ differs => absent d (by rw [up]; simpa using differs.symm))
      (fun out => absurd inside out), there,
      Option.elim_some]
    have exactly := List.count_eq_one_of_mem (one.settled.tree.nodup p dir there) member
    simpa only [List.count, one.file, beq_eq_decide] using exactly

theorem one_name_sound : LinksSound outside w := by
  have tree := one.settled.tree
  have owned := one.settled.owned
  refine ⟨fun id node found regular => ?_, fun id node found regular => ?_, fun id => ⟨fun live => ?_, ?_⟩,
    fun a => ⟨owned.claimed a, ?_⟩,
    fun p => ⟨owned.accounted p, ?_⟩⟩
  · obtain ⟨holds, small⟩ := one.settled.contents id node found regular
    simp only [one.file]
    exact tmpfs_read_op owned holds (by omega)
  · have notRoot : id ≠ w.root := by
      rintro rfl
      obtain ⟨top, stored, isDir, _⟩ := tree.rootDir
      cases found.symm.trans stored
      rw [dir_not_regular isDir] at regular
      cases regular
    rw [one.file, names_count w one found notRoot]
    exact tree.nlink id node found regular
  · obtain ⟨node, found⟩ := Option.ne_none_iff_exists'.mp live
    rcases tree.alive id node found with refs | gone
    · by_cases named : id ≠ w.root ∧ node.parent ≠ none
      · obtain ⟨d, up⟩ := Option.ne_none_iff_exists'.mp named.2
        obtain ⟨dir, there, member⟩ := tree.up id node d found up named.1
        exact .inr ⟨d, dir, there, member⟩
      have count := tree.refs id node found
      rw [if_neg named] at count
      exact .inl (by omega)
    · exact gone.elim
  · rintro (held | ⟨d, dir, there, member⟩)
    · exact tree.opened id held
    obtain ⟨_, child, stored, _⟩ := tree.down d dir id there member
    rw [stored]
    simp
  · rintro ⟨id, node, found, stored⟩
    exact owned.pointer id node a found stored
  rintro (other | ⟨id, i, here⟩)
  · exact owned.foreign p other
  · rw [owned.held id i p here]
    simp

theorem updated_settled {after : Tmpfs} {f : ByteFile} (live : w.fs.nodes id ≠ none) (updated : Updated outside w.fs after id f)
    (small : f.size < 2 ^ 63) : Settled outside w.root (update w.contents id f) w.opens after := by
  obtain ⟨node, found⟩ := Option.ne_none_iff_exists'.mp live
  obtain ⟨changed, there, same⟩ := updated.node node found
  refine ⟨updated.owned, same_names_tree w.fs one.settled.tree found there updated.others
    ⟨same.mode, same.nlink, same.parent, same.children⟩ same.refs, fun j other present regular => ?_⟩
  by_cases here : j = id
  · rw [here, update_self]
    exact ⟨updated.holds, small⟩
  rw [update_of_ne here]
  have stored : w.fs.nodes j = some other := by rw [← updated.others j here, present]
  obtain ⟨holds, short⟩ := one.settled.contents j other stored regular
  obtain ⟨_, known, _, length⟩ := holds.node
  cases stored.symm.trans known
  exact ⟨⟨⟨other, present, regular, length⟩, fun k => by rw [updated.bytes j k here, holds.bytes]⟩, short⟩

theorem link_refused_op {d : Nat} {dir : TmpfsNode} (found : w.fs.nodes d = some dir) {name : Name} (target : Nat)
    (refused : linkRefused w.fs d name = true) : ∃ errno, tmpfsLink w.fs d name target = .ok (w.fs, .error errno) := by
  obtain ⟨result, searched, _⟩ := find_child_op one.settled found name
  rw [tmpfsLink, searched]
  simp only [bind, Except.bind]
  cases result with
  | some c => exact ⟨_, rfl⟩
  | none =>
    simp only [linkRefused, found, searched, Option.elim_some, Except.toOption, Option.join, decide_eq_true_eq] at refused
    dsimp only
    split
    · exact ⟨_, rfl⟩
    split
    · exact ⟨_, rfl⟩
    rename_i nonempty short
    have irregular : (!vfsSIsdir dir.mode) = true := by
      rcases refused with empty | long | notDir | taken
      · exact absurd empty nonempty
      · exact absurd long short
      · exact notDir
      · exact absurd rfl taken
    simp only [node_found found, irregular, if_true]
    exact ⟨_, rfl⟩

theorem one_name_with (fs : Tmpfs) (next : Settled outside w.root w.contents w.opens fs) : OneName outside { w with fs } :=
  ⟨next, one.file⟩

theorem one_name_add (fs : Tmpfs) (id holders : Nat)
    (next : Settled outside w.root (update w.contents id ByteFile.empty) (update w.opens id holders) fs) :
    OneName outside (w.add fs id holders) := by
  refine ⟨next, ?_⟩
  funext j
  simp only [TmpfsWorld.add, one.file, update_apply]
  split
  · rename_i eq
    exact eq.symm
  · rfl

theorem held_live (id : Nat) (held : 0 < w.opens id) : ∃ node, w.fs.nodes id = some node :=
  Option.ne_none_iff_exists'.mp (one.settled.tree.opened id held)

omit one in
theorem give_nothing {reply : Except Errno (Option Nat)} (nothing : ∀ id, reply ≠ .ok (some id)) : w.give w.fs reply = w := by
  rcases reply with errno | found
  · rfl
  cases found with
  | none => rfl
  | some id => exact absurd rfl (nothing id)

theorem refs_room (room : ∀ id, id < w.fs.nextNode → (w.fs.nodes id).elim 0 (fun node => node.refs) + 1 < 2 ^ 32) (id : Nat)
    (node : TmpfsNode)
    (there : w.fs.nodes id = some node) : node.refs + 1 < 2 ^ 32 := by
  have inside : id < w.fs.nextNode := by
    by_contra high
    rw [one.settled.owned.nodesBelow id (by omega)] at there
    cases there
  simpa [there] using room id inside

theorem tmpfs_call_op {call : TmpfsCall} (allowed : call.Allowed w) :
    Ends (call.step w) (fun next => OneName outside next ∧ next.root = w.root) (fun failure => failure = .outOfMemory) := by
  have live := held_live w one
  have same := one_name_with w one
  have added := one_name_add w one
  have create : ∀ dir name mode cred, 0 < w.opens dir → Ends (do
      let (fs, reply) ← createChild w.fs dir name mode cred
      .ok (w.created fs reply)) (fun next => OneName outside next ∧ next.root = w.root) (fun failure => failure = .outOfMemory) := by
    intro dir name mode cred held
    obtain ⟨node, found⟩ := live dir held
    obtain ⟨after, reply, done, effect⟩ := create_child_op one.settled found name mode cred
    rw [done]
    rcases effect with ⟨errno, rfl, rfl⟩ | ⟨rfl, _, next, _⟩
    · exact ⟨one, rfl⟩
    · exact ⟨added after _ 1 next, rfl⟩
  cases call with
  | lookup dir name =>
    obtain ⟨node, found⟩ := live dir allowed.1
    obtain ⟨after, reply, done, effect⟩ := lookup_op one.settled found name (refs_room w one allowed.2)
    rw [TmpfsCall.step, done]
    rcases effect with ⟨nothing, rfl⟩ | ⟨id, rfl, next, _⟩
    · show OneName outside (w.give w.fs reply) ∧ _
      rw [give_nothing w nothing]
      exact ⟨one, rfl⟩
    · exact ⟨⟨next, one.file⟩, rfl⟩
  | create dir name _ cred | mkdir dir name _ cred => exact create dir name _ cred allowed
  | symlink dir target name cred =>
    obtain ⟨node, found⟩ := live dir allowed
    obtain ⟨after, reply, done, effect⟩ := symlink_op one.settled found target name cred
    rw [TmpfsCall.step, done]
    rcases effect with ⟨⟨errno, rfl⟩, rfl⟩ | ⟨rfl, next, _⟩
    · exact ⟨one, rfl⟩
    · exact ⟨added after _ 0 next, rfl⟩
  | link dir name target =>
    obtain ⟨node, found⟩ := live dir allowed.1
    obtain ⟨errno, done⟩ := link_refused_op w one found target allowed.2
    rw [TmpfsCall.step, done]
    exact ⟨one, rfl⟩
  | write id off data =>
    obtain ⟨node, found⟩ := live id allowed.1
    rw [TmpfsCall.step]
    by_cases regular : vfsSIsreg node.mode = true
    · obtain ⟨holds, small⟩ := one.settled.contents id node found regular
      refine ends_bind (tmpfs_write_op one.settled.owned heap_moves holds allowed.2) ?_
      rintro ⟨after, reply⟩ ⟨updated, rfl⟩
      refine ⟨⟨?_, one.file⟩, rfl⟩
      have next := updated_settled w one (by rw [found]; simp) updated
        (Nat.max_lt.mpr ⟨small, Nat.lt_of_le_of_lt allowed.2 (by decide)⟩)
      simpa only [TmpfsWorld.rewritten, one.file] using next
    rw [tmpfsWrite, node_found found]
    simp only [bind, Except.bind, regular]
    exact ⟨one, rfl⟩
  | truncate id size =>
    obtain ⟨node, found⟩ := live id allowed.1
    rw [TmpfsCall.step]
    by_cases regular : vfsSIsreg node.mode = true
    · obtain ⟨holds, small⟩ := one.settled.contents id node found regular
      refine ends_bind (tmpfs_truncate_op one.settled.owned heap_moves holds allowed.2) ?_
      rintro ⟨after, reply⟩ ⟨updated, rfl⟩
      refine ⟨⟨?_, one.file⟩, rfl⟩
      have next := updated_settled w one (by rw [found]; simp) updated (Nat.lt_of_le_of_lt allowed.2 (by decide))
      simpa only [TmpfsWorld.rewritten, one.file] using next
    rw [tmpfsTruncate, node_found found]
    simp only [bind, Except.bind, regular]
    exact ⟨one, rfl⟩
  | unlink dir name =>
    obtain ⟨node, found⟩ := live dir allowed
    obtain ⟨after, reply, done, next, _⟩ := unlink_op one.settled found name
    rw [TmpfsCall.step, done]
    exact ⟨same after next, rfl⟩
  | rmdir dir name =>
    obtain ⟨node, found⟩ := live dir allowed
    obtain ⟨after, reply, done, next, _⟩ := rmdir_op one.settled found name
    rw [TmpfsCall.step, done]
    exact ⟨same after next, rfl⟩
  | rename oldDir oldName newDir newName =>
    obtain ⟨old, found⟩ := live oldDir allowed.1
    obtain ⟨new, there⟩ := live newDir allowed.2.1
    obtain ⟨after, reply, done, next, _⟩ := rename_op one.settled found there
      (fun _ _ => allowed.2.2) oldName newName
    rw [TmpfsCall.step, done]
    exact ⟨same after next, rfl⟩
  | release id =>
    obtain ⟨after, done, next⟩ := release_op one.settled allowed.1 allowed.2
    rw [TmpfsCall.step, done]
    exact ⟨⟨next, one.file⟩, rfl⟩

end OneName

def mounted (m : Machine) (mode uid gid : Nat) : TmpfsWorld :=
  let empty : Tmpfs := { machine := m, nodes := fun _ => none, arrays := fun _ => none, nextNode := 0, nextArray := 0 }
  { fs := (tmpfsCreateRoot empty mode uid gid).1
    root := (tmpfsCreateRoot empty mode uid gid).2
    opens := fun id => if id = (tmpfsCreateRoot empty mode uid gid).2 then 1 else 0
    file := fun id => id
    contents := fun _ => ByteFile.empty }

theorem dir_mode (mode : Nat) : vfsSIsdir (vfsSIfdir ||| (mode &&& vfsSPerm)) = true := by
  simp only [vfsSIsdir, decide_eq_true_eq, Nat.and_or_distrib_right, Nat.and_assoc]
  have perm : vfsSPerm &&& vfsSIfmt = 0 := by decide
  rw [perm, Nat.and_zero, Nat.or_zero]
  decide

section Mounted

variable (m : Machine) (mode uid gid : Nat)

theorem mounted_nodes (id : Nat) (node : TmpfsNode) (found : (mounted m mode uid gid).fs.nodes id = some node) :
    id = 0 ∧ node = { newNode [] (vfsSIfdir ||| (mode &&& vfsSPerm)) uid gid with parent := some 0 } := by
  by_cases first : id = 0
  · subst first
    refine ⟨rfl, ?_⟩
    simpa [mounted, tmpfsCreateRoot, Tmpfs.setNode, eq_comm] using found
  · simp [mounted, tmpfsCreateRoot, Tmpfs.setNode, update_of_ne first] at found

theorem mounted_owned (listed : Listed m) : (mounted m mode uid gid).fs.Owned (fun p => m.used p ≠ none) := by
  refine bare_owned (fun _ => rfl) (fun id node found => ?_) listed (fun _ => Iff.rfl) (fun id high => ?_)
  · obtain ⟨_, rfl⟩ := mounted_nodes m mode uid gid id node found
    exact ⟨rfl, rfl, rfl⟩
  have high : 1 ≤ id := high
  have differs : id ≠ 0 := by omega
  simp [mounted, tmpfsCreateRoot, Tmpfs.setNode, update_of_ne differs]

theorem mounted_one_name (listed : Listed m) : OneName (fun p => m.used p ≠ none) (mounted m mode uid gid) := by
  have nodes := mounted_nodes m mode uid gid
  have top : (mounted m mode uid gid).fs.nodes 0 =
      some { newNode [] (vfsSIfdir ||| (mode &&& vfsSPerm)) uid gid with parent := some 0 } := by
    simp [mounted, tmpfsCreateRoot, Tmpfs.setNode]
  have irregular : ∀ id node, (mounted m mode uid gid).fs.nodes id = some node → vfsSIsreg node.mode = false := by
    intro id node found
    obtain ⟨_, rfl⟩ := nodes id node found
    exact dir_not_regular (dir_mode mode)
  refine ⟨⟨mounted_owned m mode uid gid listed, ⟨⟨_, top, dir_mode mode, rfl⟩, Nat.one_pos, fun d n c found member => ?_,
    fun d n found => ?_,
    fun d n found => ?_, fun c n d found _ notRoot => ?_, fun id n found => ?_, fun id n found => ?_, fun id gone => gone.elim,
    fun id held => ?_, fun id n found regular => ?_, fun id n found _ => ?_⟩, fun id n found regular => ?_⟩, rfl⟩
  · obtain ⟨_, rfl⟩ := nodes d n found
    cases member
  · obtain ⟨_, rfl⟩ := nodes d n found
    exact List.nodup_nil
  · obtain ⟨_, rfl⟩ := nodes d n found
    exact List.not_mem_nil
  · exact absurd (nodes c n found).1 notRoot
  · obtain ⟨rfl, rfl⟩ := nodes id n found
    rfl
  · obtain ⟨_, rfl⟩ := nodes id n found
    exact .inl Nat.one_pos
  · by_cases first : id = 0
    · rw [first, top]
      simp
    · simp [mounted, tmpfsCreateRoot, first] at held
  · rw [irregular id n found] at regular
    cases regular
  · obtain ⟨_, rfl⟩ := nodes id n found
    rfl
  · rw [irregular id n found] at regular
    cases regular

end Mounted

def tmpfsMachine : Machine where
  maxPfn := 7
  free := [1, 2, 3, 4]
  used p := if p = 7 then some ⟨1, 0, false⟩ else none
  mem _ := 0
  kernelPtable := 0
  mmioRegions := []

def nameF : Name := [102]
def nameG : Name := [103]

def oneNameCalls : List TmpfsCall :=
  [.create 0 nameF 0o644 ⟨0, 0⟩, .rename 0 nameF 0 nameG, .link 0 nameG 1, .write 1 4095 [1, 2], .unlink 0 nameG, .write 1 0 [3],
    .release 1]

end Lyr.Fs
