import Lyr.Fs.TmpfsView

set_option autoImplicit false

namespace Lyr.Fs

open Lyr.Lib Lyr.Mm Function

abbrev Settled (outside : Nat → Prop) (root : Nat) (contents : Nat → ByteFile) (opens : Nat → Nat) (s : Tmpfs) : Prop :=
  Linked outside root contents opens (fun _ => False) s

variable {d id : Nat} {dir node : TmpfsNode} {after : Tmpfs}

section Calls

variable {outside : Nat → Prop} {root : Nat} {contents : Nat → ByteFile} {opens : Nat → Nat} {s : Tmpfs}
  (settled : Settled outside root contents opens s)

theorem search_children_op (name : Name) {children : List Nat} (live : ∀ c ∈ children, s.nodes c ≠ none) :
    ∃ result, searchChildren s name children = .ok result ∧ (∀ c, result = some c → c ∈ children) ∧
      (∀ c, result = some c → (view s).name c = name) ∧ (result = none → ∀ c ∈ children, (view s).name c ≠ name) := by
  induction children with
  | nil => exact ⟨none, rfl, fun c eq => (by cases eq), fun c eq => (by cases eq), fun _ c inside => (by cases inside)⟩
  | cons child rest ih =>
    obtain ⟨node, found⟩ := Option.ne_none_iff_exists'.mp (live child (by simp))
    obtain ⟨result, searched, member, named, absent⟩ := ih (fun c inside => live c (by simp [inside]))
    rw [searchChildren, node_found found]
    simp only [bind, Except.bind]
    split
    · rename_i same
      refine ⟨some child, rfl, fun c eq => by simp [Option.some.inj eq], fun c eq => ?_, fun none => by cases none⟩
      rw [← Option.some.inj eq]
      simpa [view, found, nameEq] using same
    rename_i other
    refine ⟨result, searched, fun c eq => List.mem_cons_of_mem child (member c eq), named, fun none c inside => ?_⟩
    rcases List.mem_cons.1 inside with rfl | later
    · simpa [view, found, nameEq] using other
    · exact absent none c later

include settled

theorem find_child_op (found : s.nodes d = some dir) (name : Name) :
    ∃ result, findChild s d name = .ok result ∧ (∀ c, result = some c → c ∈ dir.children) ∧
      (∀ c, result = some c → (view s).name c = name) ∧ (result = none → ∀ c ∈ dir.children, (view s).name c ≠ name) := by
  rw [findChild, node_found found]
  refine search_children_op name (fun c member => ?_)
  obtain ⟨_, child, present, _⟩ := settled.tree.down d dir c found member
  rw [present]
  simp

theorem node_ref_op (found : s.nodes id = some node) (room : node.refs + 1 < 2 ^ 32) :
    vfsNodeRef s id = .ok (s.setNode id { node with refs := node.refs + 1 }) ∧
      Settled outside root contents (update opens id (opens id + 1)) (s.setNode id { node with refs := node.refs + 1 }) := by
  have count := settled.tree.refs id node found
  have same := set_node_same_files s id node { node with refs := node.refs + 1 } found rfl
  constructor
  · rw [vfsNodeRef, node_found found]
    simp only [bind, Except.bind, Nat.mod_eq_of_lt room]
  exact ⟨same_files_owned s _ same settled.owned, refs_tree root opens _ s settled.tree found
    (by omega) (fun _ => by omega) (.inl (by omega)) (fun gone => gone.elim) (fun _ _ => Iff.rfl),
    same_files_contents same settled.contents⟩

omit settled in
theorem create_added (found : s.nodes d = some dir) (dirMode : vfsSIsdir dir.mode = true) (unused : s.nodes s.nextNode = none)
    {name : Name} {mode : Nat}
    {cred : Cred} (absent : ∀ c ∈ (view s).children d, (view s).name c ≠ name) (room : dir.nlink + 1 < 2 ^ 32)
    (same : view after = view (attach (fresh s (newNode name mode cred.uid cred.gid)) d s.nextNode
      (linksWith dir (newNode name mode cred.uid cred.gid)) dir { newNode name mode cred.uid cred.gid with parent := some d })) :
    Added s after d name (view (fresh s (newNode name mode cred.uid cred.gid))) := by
  have apart : d ≠ s.nextNode := by
    intro eq
    rw [eq, unused] at found
    cases found
  have stored : (fresh s (newNode name mode cred.uid cred.gid)).nodes s.nextNode = some (newNode name mode cred.uid cred.gid) := by
    simp [fresh, Tmpfs.setNode]
  have nameless : (view s).parent s.nextNode = none := by simp [view, unused]
  have inserted := view_attach (fresh s (newNode name mode cred.uid cred.gid)) d s.nextNode dir
    (newNode name mode cred.uid cred.gid) name
    (fresh_old s _ dir d unused found) stored apart room
  refine ⟨(view_is_dir found).trans dirMode, absent, nameless_agrees (fun j other => ?_) nameless ?_ ?_, ?_, ?_, fun isDir => ?_, ?_⟩
  · simp [fresh, Tmpfs.setNode, update_of_ne other]
  · rw [view_parent stored]
    rfl
  · rw [view_children stored]
    simp [view, unused, newNode]
  · rw [view_parent stored]
    rfl
  · rw [view_children stored]
    rfl
  · rw [view_is_dir stored] at isDir
    rw [view_links stored]
    exact if_pos isDir
  · rw [same, ← inserted]
    exact Hierarchy.agrees_refl _

theorem create_child_op (found : s.nodes d = some dir) (name : Name) (mode : Nat) (cred : Cred) :
    ∃ after reply, createChild s d name mode cred = .ok (after, reply) ∧ ((∃ errno, reply = .error errno ∧ after = s) ∨
        reply = .ok s.nextNode ∧ (∃ node, after.nodes s.nextNode = some node ∧ node.mode = mode ∧ node.children = []) ∧
          Settled outside root (update contents s.nextNode ByteFile.empty) (update opens s.nextNode 1) after ∧
          (dir.nlink + 1 < 2 ^ 32 → ∃ new, Added s after d name new)) := by
  rw [createChild, node_found found]
  simp only [bind, Except.bind]
  split
  · exact ⟨s, _, rfl, .inl ⟨_, rfl, rfl⟩⟩
  rename_i isDir
  split
  · exact ⟨s, _, rfl, .inl ⟨_, rfl, rfl⟩⟩
  split
  · exact ⟨s, _, rfl, .inl ⟨_, rfl, rfl⟩⟩
  obtain ⟨result, searched, _, _, absent⟩ := find_child_op settled found name
  simp only [searched]
  cases result with
  | some c => exact ⟨s, _, rfl, .inl ⟨_, rfl, rfl⟩⟩
  | none =>
    have unused := settled.owned.nodesBelow s.nextNode (Nat.le_refl _)
    have apart : d ≠ s.nextNode := by
      intro eq
      rw [eq, unused] at found
      cases found
    have notRoot : s.nextNode ≠ root := by
      intro eq
      obtain ⟨top, present, _⟩ := settled.tree.rootDir
      rw [← eq, unused] at present
      cases present
    -- The node is thought of as nameless first, with no link.
    let bare : TmpfsNode := { newNode name mode cred.uid cred.gid with nlink := 0 }
    let child : TmpfsNode := { newNode name mode cred.uid cred.gid with parent := some d }
    let nlink := linksWith dir (newNode name mode cred.uid cred.gid)
    have begun := fresh_linked s settled bare rfl rfl rfl rfl rfl rfl rfl rfl
    have known := fresh_old s bare dir d unused found
    have stored : (fresh s bare).nodes s.nextNode = some bare := by simp [fresh, Tmpfs.setNode]
    have links : vfsSIsreg mode = true → child.nlink = 1 := by
      intro regular
      have : vfsSIsdir mode ≠ true := fun directory => by rw [dir_not_regular directory] at regular; cases regular
      simp [child, newNode, this]
    have tree := attach_tree (fresh s bare) d s.nextNode nlink dir child apart known stored begun.tree
      (by simpa using isDir) notRoot (by simp) rfl ⟨rfl, rfl, rfl⟩ rfl links
    have same := attach_same_files (fresh s bare) d s.nextNode nlink dir bare child known stored rfl
    rw [update_self, update_idem] at tree
    have attached : Settled outside root (update contents s.nextNode ByteFile.empty) (update opens s.nextNode 0)
        (attach (fresh s bare) d s.nextNode nlink dir child) :=
      ⟨same_files_owned _ _ same begun.owned, tree, same_files_contents same begun.contents⟩
    have present : (attach (fresh s bare) d s.nextNode nlink dir child).nodes s.nextNode = some child := by
      rw [attach_nodes, if_neg apart.symm, if_pos rfl]
    obtain ⟨referenced, last⟩ := node_ref_op attached present (show 1 + 1 < 2 ^ 32 by decide)
    rw [update_self, update_idem] at last
    refine ⟨_, .ok s.nextNode, ?_, .inr ⟨rfl, ⟨_, update_self .., rfl, rfl⟩, last, fun room => ?_⟩⟩
    case refine_2 =>
      rw [attach_fresh s d nlink dir child bare (newNode name mode cred.uid cred.gid)] at present ⊢
      refine ⟨view (fresh s (newNode name mode cred.uid cred.gid)),
        create_added found (by simpa using isDir) unused (by rw [view_children found]; exact absent rfl) room ?_⟩
      exact view_set_node _ _ child _ present rfl
    have inserted : insertChild (fresh s (newNode name mode cred.uid cred.gid)) d s.nextNode =
        .ok (attach (fresh s bare) d s.nextNode nlink dir child) := by
      rw [insert_child_eq _ d s.nextNode dir (newNode name mode cred.uid cred.gid) (fresh_old s _ dir d unused found)
        (by simp [fresh, Tmpfs.setNode]) apart]
      exact congrArg Except.ok (attach_fresh s d nlink dir child _ bare)
    have allocated : allocNode s name mode cred.uid cred.gid = (fresh s (newNode name mode cred.uid cred.gid), s.nextNode) := rfl
    simp only [allocated, inserted, referenced]

section

variable (held : 0 < opens id) (kept : id = root → 1 < opens id) (found : s.nodes id = some node)
include held kept found

theorem last_nameless
    (last : node.refs = 1) : node.parent = none := by
  have count := settled.tree.refs id node found
  by_contra named
  by_cases top : id = root
  · omega
  · rw [if_pos ⟨top, named⟩] at count
    omega

theorem release_agrees
    (childless : node.refs = 1 → node.children = []) (others : ∀ j, j ≠ id → after.nodes j = s.nodes j)
    (self : after.nodes id = none ∧ node.refs = 1 ∨ after.nodes id = some { node with refs := node.refs - 1 }) :
    (view s).Agrees (view after) := by
  rcases self with ⟨gone, last⟩ | stays
  · have nameless := last_nameless settled held kept found last
    refine nameless_agrees others (by rw [view_parent found, nameless]) (by simp [view, gone]) ?_
    rw [view_children found, childless last]
    simp [view, gone]
  have same : view after = view s := by
    refine view_same (fun j => ?_)
    by_cases here : j = id
    · rw [here, stays, found]
      rfl
    · rw [others j here]
  rw [same]
  exact Hierarchy.agrees_refl _

end

section Remove

variable {d c : Nat} {dir child : TmpfsNode} (found : s.nodes d = some dir) (member : c ∈ dir.children)
    (stored : s.nodes c = some child)
include found member stored

theorem drop_child_op : dropName s d c = .ok (detached s d c dir child) ∧
    Settled outside root contents (update opens c (opens c + 1)) (detached s d c dir child) ∧ c ≠ root := by
  obtain ⟨_, known, done, same, notRoot, tree, _⟩ := drop_name_op s settled.tree settled.owned.nodesBelow found member
  cases stored.symm.trans known
  exact ⟨done, ⟨same_files_owned s _ same settled.owned, tree, same_files_contents same settled.contents⟩, notRoot⟩

theorem remove_leaf_op (childless : child.children = []) :
    ∃ after, dropName s d c = .ok (detached s d c dir child) ∧ release (detached s d c dir child) c = .ok after ∧
      Settled outside root contents opens after ∧ (∀ j, j ≠ c → after.nodes j = (detached s d c dir child).nodes j) ∧
        Dropped s after d c := by
  obtain ⟨done, middle, notRoot⟩ := drop_child_op settled found member stored
  have there : (detached s d c dir child).nodes c = some { child with parent := none, nlink := 0 } := by
    rw [detached_nodes, if_pos rfl]
  have apart : c ≠ d := fun eq => settled.tree.proper d dir found (eq ▸ member)
  obtain ⟨after, released, last, same, self⟩ := release_leaf_op middle (by rw [update_self]; omega)
    (fun eq => absurd eq notRoot) there (fun _ => childless)
  rw [update_self, update_idem, Nat.add_sub_cancel, update_eq_self] at last
  refine ⟨after, done, released, last, same, by rwa [view_children found], by rwa [view_children stored],
    Hierarchy.agrees_trans (detached_agrees found stored apart) (nameless_agrees same (view_parent there) ?_ ?_)⟩
  · rcases self with ⟨gone, _⟩ | kept
    · simp [view, gone]
    · rw [view_parent kept]
  rw [view_children there, childless]
  rcases self with ⟨gone, _⟩ | kept
  · simp [view, gone]
  · rw [view_children kept, childless]

theorem move_child_op {e : Nat} {target : TmpfsNode} (there : s.nodes e = some target) (isDir : vfsSIsdir target.mode = true)
    (apart : e ≠ c)
    (name : Name) : ∃ after, moveChild s d e c name = .ok after ∧ Settled outside root contents opens after ∧
      (target.nlink + 1 < 2 ^ 32 → view after = ((view s).unlink d c).insert e c (cString name)) := by
  obtain ⟨done, middle, notRoot⟩ := drop_child_op settled found member stored
  have differs : c ≠ d := fun eq => settled.tree.proper d dir found (eq ▸ member)
  obtain ⟨_, _, known, up⟩ := settled.tree.down d dir c found member
  cases stored.symm.trans known
  -- Found again after the removal, smaller if it is the old one.
  obtain ⟨holder, present, mode, fewer⟩ : ∃ holder, (erased s d c dir child).nodes e = some holder ∧ vfsSIsdir holder.mode = true ∧
      holder.nlink ≤ target.nlink := by
    by_cases same : e = d
    · subst same
      cases found.symm.trans there
      refine ⟨_, update_self .., isDir, ?_⟩
      show (if vfsSIsdir child.mode ∧ dir.nlink > 0 then dir.nlink - 1 else dir.nlink) ≤ dir.nlink
      split
      · omega
      · exact Nat.le_refl _
    · exact ⟨target, by simp [erased, Tmpfs.setNode, update_of_ne same, there], isDir, Nat.le_refl _⟩
  let moved : TmpfsNode := { child with parent := some e, name }
  have seen : ∀ node, ((erased s d c dir child).setNode c node).nodes e = some holder := by
    intro node
    simp [Tmpfs.setNode, update_of_ne apart, present]
  have links : vfsSIsreg child.mode = true → moved.nlink = 1 := by
    intro regular
    have := settled.tree.nlink c child stored regular
    rw [up] at this
    simpa using this
  have tree := attach_tree (detached s d c dir child) e c (linksWith holder child) holder moved
    apart (seen _) (update_self ..) middle.tree mode notRoot (by rw [update_self]; omega) rfl ⟨rfl, rfl, rfl⟩ rfl links
  rw [update_self, update_idem, Nat.add_sub_cancel, update_eq_self] at tree
  have same := attach_same_files (detached s d c dir child) e c (linksWith holder child) holder
    { child with parent := none, nlink := 0 } moved
    (seen _) (update_self ..) rfl
  refine ⟨attach (detached s d c dir child) e c (linksWith holder child) holder moved, ?_,
    ⟨same_files_owned _ _ same middle.owned, tree, same_files_contents same middle.contents⟩, fun room => ?_⟩
  case refine_2 =>
    have attached := view_attach (unlinked s d c dir child) e c holder { child with parent := none } name (seen _)
      (update_self ..) apart (by omega)
    rw [view_unlinked found stored differs, unlinked, attach_set_node] at attached
    rw [detached, attach_set_node, ← attached]
    rfl
  rw [moveChild, unlink_child_eq s found member stored differs]
  simp only [bind, Except.bind]
  rw [(node_ok _ c { child with parent := none }).mpr (update_self ..)]
  simp only
  have named : (((erased s d c dir child).setNode c { child with parent := none }).setNode c
    { child with parent := none, name }).nodes e =
      some holder := by
    simp [Tmpfs.setNode, update_of_ne apart, present]
  rw [insert_child_eq _ e c holder { child with parent := none, name } named (update_self ..) apart, attach_set_node, attach_set_node,
    detached, attach_set_node]
  rfl

end Remove

section

variable (found : s.nodes d = some dir) (name : Name)
include found name

theorem lookup_op (room : ∀ id node, s.nodes id = some node → node.refs + 1 < 2 ^ 32) :
    ∃ after reply, tmpfsLookup s d name = .ok (after, reply) ∧ ((∀ id, reply ≠ .ok (some id)) ∧ after = s ∨
        ∃ id, reply = .ok (some id) ∧ Settled outside root contents (update opens id (opens id + 1)) after ∧
          view after = view s) := by
  have give : ∀ id, s.nodes id ≠ none → ∃ after, vfsNodeRef s id = .ok after ∧
      Settled outside root contents (update opens id (opens id + 1)) after ∧ view after = view s := by
    intro id live
    obtain ⟨node, stored⟩ := Option.ne_none_iff_exists'.mp live
    obtain ⟨done, next⟩ := node_ref_op settled stored (room id node stored)
    exact ⟨_, done, next, view_set_node s id node _ stored rfl⟩
  rw [tmpfsLookup, node_found found]
  simp only [bind, Except.bind]
  split
  · exact ⟨s, _, rfl, .inl ⟨fun id eq => (by cases eq), rfl⟩⟩
  split
  · obtain ⟨after, done, next⟩ := give d (by rw [found]; simp)
    simp only [done]
    exact ⟨after, _, rfl, .inr ⟨d, rfl, next⟩⟩
  split
  · cases up : dir.parent with
    | none => exact ⟨s, _, rfl, .inl ⟨fun id eq => (by cases eq), rfl⟩⟩
    | some parent =>
      have live : s.nodes parent ≠ none := by
        by_cases top : d = root
        · obtain ⟨node, stored, _, self⟩ := settled.tree.rootDir
          rw [top, stored, Option.some.injEq] at found
          subst found
          rw [self, Option.some.injEq] at up
          rw [← up, stored]
          simp
        obtain ⟨holder, stored, _⟩ := settled.tree.up d dir parent found up top
        rw [stored]
        simp
      obtain ⟨after, done, next⟩ := give parent live
      simp only [done]
      exact ⟨after, _, rfl, .inr ⟨parent, rfl, next⟩⟩
  obtain ⟨result, searched, member, _⟩ := find_child_op settled found name
  simp only [searched]
  cases result with
  | none => exact ⟨s, _, rfl, .inl ⟨fun id eq => (by cases eq), rfl⟩⟩
  | some c =>
    obtain ⟨_, child, stored, _⟩ := settled.tree.down d dir c found (member c rfl)
    obtain ⟨after, done, next⟩ := give c (by rw [stored]; simp)
    simp only [done]
    exact ⟨after, _, rfl, .inr ⟨c, rfl, next⟩⟩

theorem unlink_op :
    ∃ after reply, tmpfsUnlink s d name = .ok (after, reply) ∧ Settled outside root contents opens after ∧
      (after = s ∨ ∃ c, Dropped s after d c) := by
  obtain ⟨result, searched, member, _⟩ := find_child_op settled found name
  rw [tmpfsUnlink, searched]
  simp only [bind, Except.bind]
  cases result with
  | none => exact ⟨s, _, rfl, settled, .inl rfl⟩
  | some c =>
    obtain ⟨_, child, stored, _⟩ := settled.tree.down d dir c found (member c rfl)
    simp only [node_found stored]
    split
    · exact ⟨s, _, rfl, settled, .inl rfl⟩
    rename_i notDir
    obtain ⟨after, dropped, released, next, _, gone⟩ := remove_leaf_op settled found (member c rfl)
      stored (settled.tree.files c child stored (by simpa using notDir))
    simp only [dropped, released]
    exact ⟨after, _, rfl, next, .inr ⟨c, gone⟩⟩

theorem rmdir_op :
    ∃ after reply, tmpfsRmdir s d name = .ok (after, reply) ∧ Settled outside root contents opens after ∧
      (after = s ∨ ∃ c, Dropped s after d c) := by
  obtain ⟨result, searched, member, _⟩ := find_child_op settled found name
  rw [tmpfsRmdir, searched]
  simp only [bind, Except.bind]
  cases result with
  | none => exact ⟨s, _, rfl, settled, .inl rfl⟩
  | some c =>
    obtain ⟨_, child, stored, _⟩ := settled.tree.down d dir c found (member c rfl)
    simp only [node_found stored]
    split
    · exact ⟨s, _, rfl, settled, .inl rfl⟩
    split
    · exact ⟨s, _, rfl, settled, .inl rfl⟩
    rename_i empty
    obtain ⟨after, dropped, released, next, _, gone⟩ := remove_leaf_op settled found (member c rfl) stored (by simpa using empty)
    simp only [dropped, released]
    exact ⟨after, _, rfl, next, .inr ⟨c, gone⟩⟩

end

theorem resize_link (size : Nat) (found : s.nodes id = some node) (irregular : vfsSIsreg node.mode = false) :
    Settled outside root contents opens (s.setNode id { node with size }) := by
  refine ⟨set_node_owned settled.owned found rfl rfl
    (fun i p here => settled.owned.counted id node i p found here) (settled.owned.capped id node found),
    same_names_tree s settled.tree found (update_self ..)
      (fun _ differs => update_of_ne differs ..) ⟨rfl, rfl, rfl, rfl⟩ rfl, fun j other there regular => ?_⟩
  have differs : j ≠ id := by
    intro eq
    subst eq
    simp only [Tmpfs.setNode, update_self, Option.some.injEq] at there
    rw [← there, irregular] at regular
    cases regular
  have stored : s.nodes j = some other := by simpa [Tmpfs.setNode, update_of_ne differs] using there
  obtain ⟨holds, small⟩ := settled.contents j other stored regular
  obtain ⟨_, known, _, length⟩ := holds.node
  cases stored.symm.trans known
  refine ⟨⟨⟨other, there, regular, length⟩, fun k => ?_⟩, small⟩
  rw [set_node_byte_at s id node { node with size } found rfl, holds.bytes]

theorem symlink_op (found : s.nodes d = some dir) (target name : Name) (cred : Cred) :
    ∃ after reply, tmpfsSymlink s d target name cred = .ok (after, reply) ∧ ((∃ errno, reply = .error errno) ∧ after = s ∨
        reply = .ok () ∧ Settled outside root (update contents s.nextNode ByteFile.empty) (update opens s.nextNode 0) after ∧
          (dir.nlink + 1 < 2 ^ 32 → ∃ new, Added s after d name new)) := by
  obtain ⟨created, reply, done, effect⟩ := create_child_op settled found name (vfsSIflnk ||| 0o777) cred
  rw [tmpfsSymlink, done]
  simp only [bind, Except.bind]
  rcases effect with ⟨errno, rfl, rfl⟩ | ⟨rfl, ⟨node, present, mode, childless⟩, next, effect⟩
  · exact ⟨created, _, rfl, .inl ⟨⟨errno, rfl⟩, rfl⟩⟩
  have notRoot : s.nextNode ≠ root := by
    intro eq
    obtain ⟨top, stored, _⟩ := settled.tree.rootDir
    rw [← eq, settled.owned.nodesBelow _ (Nat.le_refl _)] at stored
    cases stored
  simp only [node_found present]
  have resized := resize_link next (cString target).length present (by rw [mode]; decide)
  obtain ⟨after, released, last, same, self⟩ := release_leaf_op resized (by rw [update_self]; omega)
    (fun eq => absurd eq notRoot) (update_self ..) (fun _ => childless)
  have agrees := release_agrees resized (by rw [update_self]; omega) (fun eq => absurd eq notRoot) (update_self ..)
    (fun _ => childless) same self
  rw [view_set_node created s.nextNode node { node with size := (cString target).length } present rfl] at agrees
  rw [update_self, update_idem] at last
  simp only [released]
  refine ⟨after, _, rfl, .inr ⟨rfl, last, fun room => ?_⟩⟩
  obtain ⟨new, added⟩ := effect room
  exact ⟨new, { added with inserted := Hierarchy.agrees_trans added.inserted agrees }⟩

end Calls

end Lyr.Fs
