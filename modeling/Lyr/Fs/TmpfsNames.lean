import Lyr.Fs.TmpfsRefine
import Lyr.Fs.TmpfsTree

set_option autoImplicit false

namespace Lyr.Fs

open Lyr.Lib Lyr.Mm Function

def fileFields (node : TmpfsNode) : Nat × Nat × Option Nat × Nat × Nat :=
  (node.mode, node.size, node.pages, node.pageCount, node.pageCap)

-- Links, names and counts may differ.
structure SameFiles (before after : Tmpfs) : Prop where
  machine : after.machine = before.machine
  arrays : after.arrays = before.arrays
  nextArray : after.nextArray = before.nextArray
  nextNode : after.nextNode = before.nextNode
  nodes : ∀ id, (after.nodes id).map fileFields = (before.nodes id).map fileFields

theorem set_node_same_files (s : Tmpfs) (id : Nat) (node changed : TmpfsNode) (found : s.nodes id = some node)
    (same : fileFields changed = fileFields node) : SameFiles s (s.setNode id changed) := by
  refine ⟨rfl, rfl, rfl, rfl, fun j => ?_⟩
  by_cases here : j = id
  · subst here
    simp [Tmpfs.setNode, found, same]
  · simp [Tmpfs.setNode, update_of_ne here]

variable {c d id : Nat} {child dir : TmpfsNode}

section Same

variable {before after : Tmpfs} (same : SameFiles before after)
include same

theorem same_files_back (id : Nat) (node : TmpfsNode) (found : after.nodes id = some node) :
    ∃ old, before.nodes id = some old ∧ node.mode = old.mode ∧ node.size = old.size ∧ node.pages = old.pages ∧
      node.pageCount = old.pageCount ∧ node.pageCap = old.pageCap := by
  have fields := same.nodes id
  rw [found, Option.map_some, eq_comm, Option.map_eq_some_iff] at fields
  obtain ⟨old, stored, eq⟩ := fields
  simp only [fileFields, Prod.mk.injEq] at eq
  exact ⟨old, stored, eq.1.symm, eq.2.1.symm, eq.2.2.1.symm, eq.2.2.2.1.symm, eq.2.2.2.2.symm⟩

theorem same_files_none (id : Nat) : after.nodes id = none ↔ before.nodes id = none := by
  have fields := same.nodes id
  cases first : after.nodes id <;> cases second : before.nodes id <;> simp_all

theorem same_files_page_at (id i : Nat) : after.pageAt id i = before.pageAt id i := by
  cases found : after.nodes id with
  | none => simp [Tmpfs.pageAt, found, (same_files_none same id).mp found]
  | some node =>
    obtain ⟨old, stored, _, _, pages, _⟩ := same_files_back same id node found
    rw [page_at_node i found, page_at_node i stored, pages, Tmpfs.entries, Tmpfs.entries, same.arrays]

theorem same_files_byte_at (id k : Nat) : after.byteAt id k = before.byteAt id k :=
  byte_at_congr (same_files_page_at same id _) (fun _ _ => by rw [same.machine])

variable (before after) in
theorem same_files_owned {outside : Nat → Prop} (owned : before.Owned outside) : after.Owned outside := by
  have back := same_files_back same
  refine ⟨⟨?_, fun id node a found stored => ?_, fun i node j other a one two p q => ?_, fun a present => ?_,
    fun id node found null => ?_,
    fun id node found => ?_⟩, ?_, fun id below => ?_⟩
  · rw [same.nextArray, same.arrays]
    exact owned.below
  · obtain ⟨old, known, _, _, pages, _⟩ := back id node found
    rw [same.arrays]
    exact owned.pointer id old a known (pages ▸ stored)
  · obtain ⟨old, known, _, _, pages, _⟩ := back i node one
    obtain ⟨older, known', _, _, pages', _⟩ := back j other two
    exact owned.sole i old j older a known known' (pages ▸ p) (pages' ▸ q)
  · rw [same.arrays] at present
    obtain ⟨id, old, known, stored⟩ := owned.claimed a present
    cases found : after.nodes id with
    | none =>
      rw [(same_files_none same id).mp found] at known
      cases known
    | some node =>
      obtain ⟨_, known', _, _, pages, _⟩ := back id node found
      rw [known, Option.some.injEq] at known'
      subst known'
      exact ⟨id, node, found, pages.trans stored⟩
  · obtain ⟨old, known, _, _, pages, _, cap⟩ := back id node found
    rw [cap]
    exact owned.null id old known (pages ▸ null)
  · obtain ⟨old, known, _, _, _, count, cap⟩ := back id node found
    rw [count, cap]
    exact owned.capped id old known
  · refine pages_congr owned.toPages (by rw [same.machine]; exact owned.listed) (by rw [same.machine])
      (same_files_page_at same) (fun id node i p found here => ?_)
    obtain ⟨old, known, _, _, _, count, _⟩ := back id node found
    rw [count]
    exact owned.counted id old i p known here
  · rw [same.nextNode] at below
    exact (same_files_none same id).mpr (owned.nodesBelow id below)

theorem same_files_holds {f : ByteFile} (holds : Holds before id f) : Holds after id f := by
  obtain ⟨old, stored, regular, size⟩ := holds.node
  cases found : after.nodes id with
  | none =>
    rw [(same_files_none same id).mp found] at stored
    cases stored
  | some node =>
    obtain ⟨_, known, mode, length, _⟩ := same_files_back same id node found
    cases stored.symm.trans known
    exact ⟨⟨node, found, by rw [mode]; exact regular, length.trans size⟩, fun k => by rw [same_files_byte_at same, holds.bytes]⟩

end Same

-- Every node is held by its name and by the references given out. A dying node has lost both and is about to be freed.
structure Tree (root : Nat) (opens : Nat → Nat) (dying : Nat → Prop) (s : Tmpfs) : Prop where
  rootDir : ∃ node, s.nodes root = some node ∧ vfsSIsdir node.mode = true ∧ node.parent = some root
  rootOpen : 0 < opens root
  down : ∀ d node c, s.nodes d = some node → c ∈ node.children → c ≠ root ∧ ∃ child, s.nodes c = some child ∧ child.parent = some d
  nodup : ∀ d node, s.nodes d = some node → node.children.Nodup
  proper : ∀ d node, s.nodes d = some node → d ∉ node.children
  up : ∀ c child d, s.nodes c = some child → child.parent = some d → c ≠ root → ∃ node, s.nodes d = some node ∧ c ∈ node.children
  refs : ∀ id node, s.nodes id = some node → node.refs = opens id + (if id ≠ root ∧ node.parent ≠ none then 1 else 0)
  alive : ∀ id node, s.nodes id = some node → 0 < node.refs ∨ dying id
  dead : ∀ id, dying id → ∃ node, s.nodes id = some node ∧ node.refs = 0
  opened : ∀ id, 0 < opens id → s.nodes id ≠ none
  nlink : ∀ id node, s.nodes id = some node → vfsSIsreg node.mode = true → node.nlink = if node.parent ≠ none then 1 else 0
  files : ∀ id node, s.nodes id = some node → vfsSIsdir node.mode = false → node.children = []

section Tree

variable {root : Nat} {opens : Nat → Nat} {dying : Nat → Prop} (s : Tmpfs) (tree : Tree root opens dying s)
include tree

def Alike (c j : Nat) (old new : TmpfsNode) : Prop :=
  new.mode = old.mode ∧ (j ≠ c → new.parent = old.parent ∧ new.refs = old.refs) ∧ ∀ i, i ≠ c → (i ∈ new.children ↔ i ∈ old.children)

omit tree in
theorem alike_refl (c j : Nat) (node : Option TmpfsNode) : Option.Rel (Alike c j) node node := by
  cases node with
  | none => exact .none
  | some _ => exact .some ⟨rfl, fun _ => ⟨rfl, rfl⟩, fun _ _ => Iff.rfl⟩

variable {after : Tmpfs} (alike : ∀ j, Option.Rel (Alike c j) (s.nodes j) (after.nodes j))

omit tree in
include alike in
theorem alike_back {j : Nat} {n : TmpfsNode} (present : after.nodes j = some n) : ∃ old, s.nodes j = some old ∧ Alike c j old n := by
  have both := alike j
  rw [present] at both
  generalize s.nodes j = before at both
  cases both with
  | some fields => exact ⟨_, rfl, fields⟩

omit tree in
include alike in
theorem alike_lift {j : Nat} {old : TmpfsNode} (known : s.nodes j = some old) : ∃ n, after.nodes j = some n ∧ Alike c j old n := by
  have both := alike j
  rw [known] at both
  generalize after.nodes j = next at both
  cases both with
  | some fields => exact ⟨_, rfl, fields⟩

theorem listed_iff (stored : s.nodes c = some child) (found : s.nodes d = some dir) :
    c ∈ dir.children ↔ c ≠ root ∧ child.parent = some d := by
  constructor
  · intro member
    obtain ⟨notRoot, _, known, parent⟩ := tree.down d dir c found member
    cases stored.symm.trans known
    exact ⟨notRoot, parent⟩
  · rintro ⟨notRoot, parent⟩
    obtain ⟨_, known, member⟩ := tree.up c child d stored parent notRoot
    cases found.symm.trans known
    exact member

include alike in
theorem relinked_tree {holders : Nat} {changed : TmpfsNode} {gone : Nat → Prop} (there : after.nodes c = some changed)
    (top : c = root → changed.parent = some root ∧ 0 < holders) (proper : c ∉ changed.children)
    (listed : ∀ e n, after.nodes e = some n → n.children.Nodup ∧ (c ∈ n.children ↔ c ≠ root ∧ changed.parent = some e))
    (holder : ∀ e, changed.parent = some e → c ≠ root → after.nodes e ≠ none)
    (count : changed.refs = holders + (if c ≠ root ∧ changed.parent ≠ none then 1 else 0))
    (alive : 0 < changed.refs ∨ gone c) (dead : gone c → changed.refs = 0) (others : ∀ j, j ≠ c → (gone j ↔ dying j))
    (links : ∀ j n, after.nodes j = some n → vfsSIsreg n.mode = true → n.nlink = if n.parent ≠ none then 1 else 0)
    (files : ∀ j n, after.nodes j = some n → vfsSIsdir n.mode = false → n.children = []) :
    Tree root (update opens c holders) gone after := by
  refine ⟨?_, ?_, fun e n i present member => ?_, fun e n present => (listed e n present).1, fun e n present member => ?_,
    fun i n e present parent notTop => ?_, fun j n present => ?_, fun j n present => ?_, fun j lost => ?_, fun j held =>
      ?_, links, files⟩
  · obtain ⟨old, known, isDir, parent⟩ := tree.rootDir
    obtain ⟨n, present, mode, same, _⟩ := alike_lift s alike known
    refine ⟨n, present, mode ▸ isDir, ?_⟩
    by_cases here : c = root
    · cases (here ▸ there).symm.trans present
      exact (top here).1
    · exact (same (Ne.symm here)).1.trans parent
  · by_cases here : c = root
    · rw [here, update_self]
      exact (top here).2
    · rw [update_of_ne (Ne.symm here)]
      exact tree.rootOpen
  · by_cases here : i = c
    · subst here
      obtain ⟨notTop, parent⟩ := (listed e n present).2.mp member
      exact ⟨notTop, changed, there, parent⟩
    obtain ⟨old, known, _, _, children⟩ := alike_back s alike present
    obtain ⟨notTop, target, stored, parent⟩ := tree.down e old i known ((children i here).mp member)
    obtain ⟨m, found, _, same, _⟩ := alike_lift s alike stored
    exact ⟨notTop, m, found, (same here).1.trans parent⟩
  · by_cases here : e = c
    · subst here
      cases there.symm.trans present
      exact proper member
    · obtain ⟨old, known, _, _, children⟩ := alike_back s alike present
      exact tree.proper e old known ((children e here).mp member)
  · by_cases here : i = c
    · subst here
      cases there.symm.trans present
      obtain ⟨m, found⟩ := Option.ne_none_iff_exists'.mp (holder e parent notTop)
      exact ⟨m, found, (listed e m found).2.mpr ⟨notTop, parent⟩⟩
    obtain ⟨old, known, _, same, _⟩ := alike_back s alike present
    obtain ⟨target, stored, member⟩ := tree.up i old e known ((same here).1 ▸ parent) notTop
    obtain ⟨m, found, _, _, children⟩ := alike_lift s alike stored
    exact ⟨m, found, (children i here).mpr member⟩
  · by_cases here : j = c
    · subst here
      cases there.symm.trans present
      rw [update_self, count]
    · obtain ⟨old, known, _, same, _⟩ := alike_back s alike present
      rw [update_of_ne here, (same here).2, (same here).1, tree.refs j old known]
  · by_cases here : j = c
    · subst here
      cases there.symm.trans present
      exact alive
    · obtain ⟨old, known, _, same, _⟩ := alike_back s alike present
      rw [(same here).2, others j here]
      exact tree.alive j old known
  · by_cases here : j = c
    · exact here ▸ ⟨changed, there, dead (here ▸ lost)⟩
    · obtain ⟨old, known, zero⟩ := tree.dead j ((others j here).mp lost)
      obtain ⟨n, present, _, same, _⟩ := alike_lift s alike known
      exact ⟨n, present, (same here).2.trans zero⟩
  by_cases here : j = c
  · rw [here, there]
    simp
  rw [update_of_ne here] at held
  obtain ⟨old, known⟩ := Option.ne_none_iff_exists'.mp (tree.opened j held)
  obtain ⟨n, present, _⟩ := alike_lift s alike known
  rw [present]
  simp

variable (root opens dying) in
theorem node_tree (after : Tmpfs) (id holders : Nat) (node changed : TmpfsNode) (found : s.nodes id = some node)
    (there : after.nodes id = some changed) (same : ∀ j, j ≠ id → after.nodes j = s.nodes j)
    (fields : changed.mode = node.mode ∧ changed.nlink = node.nlink ∧ changed.parent = node.parent ∧ changed.children = node.children)
    (gone : Nat → Prop) (count : changed.refs = holders + (if id ≠ root ∧ node.parent ≠ none then 1 else 0))
    (kept : id = root → 0 < holders)
    (alive : 0 < changed.refs ∨ gone id) (dead : gone id → changed.refs = 0) (others : ∀ j, j ≠ id → (gone j ↔ dying j)) :
    Tree root (update opens id holders) gone after := by
  obtain ⟨mode, nlink, parent, children⟩ := fields
  have view : ∀ j n, after.nodes j = some n → ∃ old, s.nodes j = some old ∧ n.mode = old.mode ∧ n.nlink = old.nlink ∧
      n.parent = old.parent ∧ n.children = old.children := by
    intro j n present
    by_cases here : j = id
    · subst here
      cases there.symm.trans present
      exact ⟨node, found, mode, nlink, parent, children⟩
    · exact ⟨n, (same j here).symm.trans present, rfl, rfl, rfl, rfl⟩
  refine relinked_tree s tree (fun j => ?_) there (fun top => ⟨?_, kept top⟩) (children ▸ tree.proper id node found)
    (fun e n present => ?_) (fun e up notTop => ?_) (parent ▸ count) alive dead others (fun j n present regular => ?_)
    (fun j n present regular => ?_)
  · by_cases here : j = id
    · rw [here, found, there]
      exact .some ⟨mode, fun differs => absurd rfl differs, fun _ _ => by rw [children]⟩
    · rw [same j here]
      exact alike_refl id j _
  · obtain ⟨_, known, _, up⟩ := tree.rootDir
    cases (top ▸ found).symm.trans known
    exact parent.trans up
  · obtain ⟨old, known, _, _, _, listed⟩ := view e n present
    rw [listed, parent]
    exact ⟨tree.nodup e old known, listed_iff s tree found known⟩
  · obtain ⟨m, known, member⟩ := tree.up id node e found (parent ▸ up) notTop
    by_cases here : e = id
    · simp [here, there]
    · simp [same e here, known]
  · obtain ⟨old, known, mode, links, up, _⟩ := view j n present
    rw [links, up]
    exact tree.nlink j old known (mode ▸ regular)
  · obtain ⟨old, known, mode, _, _, listed⟩ := view j n present
    exact listed.trans (tree.files j old known (mode ▸ regular))

variable (root opens dying) in
theorem refs_tree {refs holders : Nat} {node : TmpfsNode} (found : s.nodes id = some node) {gone : Nat → Prop}
    (count : refs = holders + (if id ≠ root ∧ node.parent ≠ none then 1 else 0)) (kept : id = root → 0 < holders)
    (alive : 0 < refs ∨ gone id) (dead : gone id → refs = 0) (others : ∀ j, j ≠ id → (gone j ↔ dying j)) :
    Tree root (update opens id holders) gone (s.setNode id { node with refs }) :=
  node_tree root opens dying s tree _ id holders node { node with refs } found (update_self ..)
    (fun _ differs => update_of_ne differs ..) ⟨rfl, rfl, rfl, rfl⟩ gone count kept alive dead others

theorem same_names_tree {node changed : TmpfsNode} (found : s.nodes id = some node)
    (there : after.nodes id = some changed) (same : ∀ j, j ≠ id → after.nodes j = s.nodes j)
    (fields : changed.mode = node.mode ∧ changed.nlink = node.nlink ∧ changed.parent = node.parent ∧ changed.children = node.children)
    (refs : changed.refs = node.refs) : Tree root opens dying after := by
  have next := node_tree root opens dying s tree after id (opens id) node changed found there same fields dying
    (by rw [refs]; exact tree.refs id node found) (fun eq => by rw [eq]; exact tree.rootOpen)
    (by rw [refs]; exact tree.alive id node found) (fun gone => ?_) (fun _ _ => Iff.rfl)
  · rwa [update_eq_self] at next
  obtain ⟨old, stored, zero⟩ := tree.dead id gone
  rw [found, Option.some.injEq] at stored
  rw [refs, stored, zero]

theorem dying_unnamed (gone : dying id) : opens id = 0 ∧ id ≠ root ∧ ∃ node, s.nodes id = some node ∧ node.parent = none := by
  obtain ⟨node, stored, zero⟩ := tree.dead id gone
  have count := tree.refs id node stored
  have notRoot : id ≠ root := by
    intro eq
    have := tree.rootOpen
    rw [eq] at count
    omega
  refine ⟨by omega, notRoot, node, stored, ?_⟩
  by_contra named
  rw [if_pos ⟨notRoot, named⟩] at count
  omega

def erased (d c : Nat) (dir child : TmpfsNode) : Tmpfs := s.setNode d { dir with
    children := dir.children.erase c
    nlink := if vfsSIsdir child.mode ∧ dir.nlink > 0 then dir.nlink - 1 else dir.nlink }

omit tree in
theorem unlink_child_eq (found : s.nodes d = some dir) (member : c ∈ dir.children)
    (stored : s.nodes c = some child) (apart : c ≠ d) :
    unlinkChild s d c = .ok ((erased s d c dir child).setNode c { child with parent := none }) := by
  have still : (erased s d c dir child).nodes c = some child := by simp [erased, Tmpfs.setNode, update_of_ne apart, stored]
  rw [unlinkChild, node_found found]
  simp only [bind, Except.bind, if_pos member, node_found stored]
  rw [← erased, node_found still]

def detached (d c : Nat) (dir child : TmpfsNode) : Tmpfs :=
  (erased s d c dir child).setNode c { child with parent := none, nlink := 0 }

omit tree in
theorem detached_nodes (d c j : Nat) (dir child : TmpfsNode) : (detached s d c dir child).nodes j =
    if j = c then some { child with parent := none, nlink := 0 }
    else if j = d then some { dir with
      children := dir.children.erase c
      nlink := if vfsSIsdir child.mode ∧ dir.nlink > 0 then dir.nlink - 1 else dir.nlink }
    else s.nodes j := by
  simp only [detached, erased, Tmpfs.setNode, update_apply]

theorem detached_tree (found : s.nodes d = some dir) (member : c ∈ dir.children)
    (stored : s.nodes c = some child) (parent : child.parent = some d) (notRoot : c ≠ root) :
    Tree root (update opens c (opens c + 1)) dying (detached s d c dir child) := by
  have apart : d ≠ c := fun eq => tree.proper d dir found (eq ▸ member)
  obtain ⟨links, nodes⟩ : ∃ links, ∀ j, (detached s d c dir child).nodes j = if j = c then some
    { child with parent := none, nlink := 0 }
      else if j = d then some { dir with children := dir.children.erase c, nlink := links } else s.nodes j :=
    ⟨_, fun j => detached_nodes s d c j dir child⟩
  have count := tree.refs c child stored
  rw [if_pos ⟨notRoot, by simp [parent]⟩] at count
  have directory : vfsSIsdir dir.mode = true := by
    by_contra other
    rw [tree.files d dir found (by simpa using other)] at member
    cases member
  refine relinked_tree s tree (fun j => ?_) ((nodes c).trans (if_pos rfl)) (fun eq => absurd eq notRoot) (tree.proper c child stored)
    (fun e n present => ?_) nofun (by simp [count]) (by simp [count]) (fun gone => ?_) (fun _ _ => Iff.rfl)
    (fun j n present regular => ?_) (fun j n present regular => ?_)
  · rw [nodes]
    split_ifs with isChild isDir
    · rw [isChild, stored]
      exact .some ⟨rfl, fun differs => absurd rfl differs, fun _ _ => Iff.rfl⟩
    · rw [isDir, found]
      exact .some ⟨rfl, fun _ => ⟨rfl, rfl⟩, fun _ differs => List.mem_erase_of_ne differs⟩
    · exact alike_refl c j _
  · rw [nodes] at present
    split_ifs at present with isChild isDir
    · cases present
      exact ⟨tree.nodup c child stored, by simp [tree.proper c child stored]⟩
    · cases present
      exact ⟨(tree.nodup d dir found).erase c, by simp [(tree.nodup d dir found).mem_erase_iff]⟩
    · refine ⟨tree.nodup e n present, ?_⟩
      rw [listed_iff s tree stored present, parent]
      simp [notRoot, Ne.symm isDir]
  · obtain ⟨_, known, zero⟩ := tree.dead c gone
    cases stored.symm.trans known
    omega
  · rw [nodes] at present
    split_ifs at present with isChild isDir
    · cases present
      simp
    · cases present
      rw [dir_not_regular directory] at regular
      cases regular
    · exact tree.nlink j n present regular
  rw [nodes] at present
  split_ifs at present with isChild isDir
  · cases present
    exact tree.files c child stored regular
  · cases present
    rw [directory] at regular
    cases regular
  · exact tree.files j n present regular

theorem drop_name_op (below : ∀ id, s.nextNode ≤ id → s.nodes id = none) (found : s.nodes d = some dir)
    (member : c ∈ dir.children) :
    ∃ child, s.nodes c = some child ∧ dropName s d c = .ok (detached s d c dir child) ∧ SameFiles s (detached s d c dir child) ∧
      c ≠ root ∧
      Tree root (update opens c (opens c + 1)) dying (detached s d c dir child) ∧
      (detached s d c dir child).edges + 1 = s.edges := by
  obtain ⟨notRoot, child, stored, parent⟩ := tree.down d dir c found member
  have apart : c ≠ d := fun eq => tree.proper d dir found (eq ▸ member)
  refine ⟨child, stored, ?_, ?_, notRoot, detached_tree s tree found member stored parent notRoot, ?_⟩
  · rw [dropName, unlink_child_eq s found member stored apart]
    simp only [bind, Except.bind]
    rw [(node_ok _ c { child with parent := none }).mpr (update_self ..)]
    simp only [Tmpfs.setNode, detached, update_idem]
  · refine ⟨rfl, rfl, rfl, rfl, fun j => ?_⟩
    rw [detached_nodes]
    split
    · rename_i eq
      rw [eq, stored]
      rfl
    split
    · rename_i eq
      rw [eq, found]
      rfl
    · rfl
  have inside : d < s.nextNode := by
    by_contra high
    rw [below d (by omega)] at found
    cases found
  have sum := range_sum_update s.nextNode (fun id => (s.nodes id).elim 0 (fun node => node.children.length))
    (fun id => ((detached s d c dir child).nodes id).elim 0 (fun node => node.children.length)) d inside (fun j other => ?_)
  · have shorter := List.length_erase_of_mem member
    have some := List.length_pos_of_mem member
    simp only [detached_nodes, if_neg apart.symm, if_true, found, Option.elim_some] at sum
    show ∑ id ∈ Finset.range s.nextNode, _ + 1 = _
    simp only [detached_nodes]
    rw [Tmpfs.edges]
    omega
  simp only [detached_nodes, if_neg other]
  split
  · rename_i eq
    rw [eq, stored]
    rfl
  · rfl

end Tree

def Contents (contents : Nat → ByteFile) (s : Tmpfs) : Prop :=
  ∀ id node, s.nodes id = some node → vfsSIsreg node.mode = true → Holds s id (contents id) ∧ (contents id).size < 2 ^ 63

theorem same_files_contents {before after : Tmpfs} (same : SameFiles before after) {contents : Nat → ByteFile}
    (old : Contents contents before) : Contents contents after := by
  intro id node found regular
  obtain ⟨previous, stored, mode, _⟩ := same_files_back same id node found
  obtain ⟨holds, small⟩ := old id previous stored (mode ▸ regular)
  exact ⟨same_files_holds same holds, small⟩

end Lyr.Fs
