import Lyr.Fs.TmpfsRelease

set_option autoImplicit false

namespace Lyr.Fs

open Lyr.Lib Lyr.Mm Function

section Fresh

variable {outside : Nat → Prop} {root : Nat} {contents : Nat → ByteFile} {opens : Nat → Nat} {dying : Nat → Prop} (s : Tmpfs)

def fresh (node : TmpfsNode) : Tmpfs := { s.setNode s.nextNode node with nextNode := s.nextNode + 1 }

theorem fresh_nodes (node other : TmpfsNode) (j : Nat) (there : (fresh s node).nodes j = some other) :
    j = s.nextNode ∧ other = node ∨ j ≠ s.nextNode ∧ s.nodes j = some other := by
  by_cases here : j = s.nextNode
  · subst here
    refine .inl ⟨rfl, ?_⟩
    simpa [fresh, Tmpfs.setNode, eq_comm] using there
  · exact .inr ⟨here, by simpa [fresh, Tmpfs.setNode, update_of_ne here] using there⟩

theorem fresh_old (node other : TmpfsNode) (j : Nat) (unused : s.nodes s.nextNode = none) (there : s.nodes j = some other) :
    (fresh s node).nodes j = some other := by
  have differs : j ≠ s.nextNode := by
    intro eq
    rw [eq, unused] at there
    cases there
  simpa [fresh, Tmpfs.setNode, update_of_ne differs] using there

variable {node : TmpfsNode}

theorem fresh_page_at (empty : node.pages = none) (unused : s.nodes s.nextNode = none) (j i : Nat) :
    (fresh s node).pageAt j i = s.pageAt j i := by
  by_cases here : j = s.nextNode
  · subst here
    simp [Tmpfs.pageAt, fresh, Tmpfs.setNode, Tmpfs.entries, empty, unused]
  · simp [Tmpfs.pageAt, fresh, Tmpfs.setNode, Tmpfs.entries, update_of_ne here]

theorem fresh_owned (owned : s.Owned outside) (empty : node.pages = none) (count : node.pageCount = 0)
    (cap : node.pageCap = 0) : (fresh s node).Owned outside := by
  have unused := owned.nodesBelow s.nextNode (Nat.le_refl _)
  have nodes := fresh_nodes s node
  refine ⟨⟨owned.below, fun id other a there stored => ?_, fun i one j two a first second p q => ?_, fun a present => ?_,
    fun id other there null => ?_, fun id other there => ?_⟩,
    pages_congr owned.toPages owned.listed rfl (fresh_page_at s empty unused) (fun id other i p there here => ?_),
    fun id high => ?_⟩
  · rcases nodes other id there with ⟨_, rfl⟩ | ⟨_, old⟩
    · rw [empty] at stored
      cases stored
    · exact owned.pointer id other a old stored
  · rcases nodes one i first with ⟨_, rfl⟩ | ⟨_, oldOne⟩
    · rw [empty] at p
      cases p
    rcases nodes two j second with ⟨_, rfl⟩ | ⟨_, oldTwo⟩
    · rw [empty] at q
      cases q
    · exact owned.sole i one j two a oldOne oldTwo p q
  · obtain ⟨id, other, found, stored⟩ := owned.claimed a present
    exact ⟨id, other, fresh_old s node other id unused found, stored⟩
  · rcases nodes other id there with ⟨_, rfl⟩ | ⟨_, old⟩
    · exact cap
    · exact owned.null id other old null
  · rcases nodes other id there with ⟨_, rfl⟩ | ⟨_, old⟩
    · omega
    · exact owned.capped id other old
  · rcases nodes other id there with ⟨rfl, _⟩ | ⟨_, old⟩
    · simp [Tmpfs.pageAt, unused] at here
    · exact owned.counted id other i p old here
  have high : s.nextNode + 1 ≤ id := high
  have differs : id ≠ s.nextNode := by omega
  simpa [fresh, Tmpfs.setNode, update_of_ne differs] using owned.nodesBelow id (by omega)

theorem fresh_tree (tree : Tree root opens dying s) (unused : s.nodes s.nextNode = none) (alone : node.parent = none)
    (childless : node.children = []) (refs : node.refs = 1) (links : node.nlink = 0) :
    Tree root (update opens s.nextNode 1) dying (fresh s node) := by
  have nodes := fresh_nodes s node
  have old := fresh_old s node
  have notRoot : root ≠ s.nextNode := by
    intro eq
    obtain ⟨top, found, _⟩ := tree.rootDir
    rw [eq, unused] at found
    cases found
  refine ⟨?_, ?_, fun d n c there member => ?_, fun d n there => ?_, fun d n there => ?_, fun c n d there parent notTop => ?_,
    fun j n there => ?_, fun j n there => ?_, fun j gone => ?_, fun j held => ?_, fun j n there regular =>
      ?_, fun j n there regular => ?_⟩
  · obtain ⟨top, found, isDir, parent⟩ := tree.rootDir
    exact ⟨top, old top root unused found, isDir, parent⟩
  · rw [update_of_ne notRoot]
    exact tree.rootOpen
  · rcases nodes n d there with ⟨_, rfl⟩ | ⟨_, found⟩
    · rw [childless] at member
      cases member
    · obtain ⟨notTop, child, present, parent⟩ := tree.down d n c found member
      exact ⟨notTop, child, old child c unused present, parent⟩
  · rcases nodes n d there with ⟨_, rfl⟩ | ⟨_, found⟩
    · simp [childless]
    · exact tree.nodup d n found
  · rcases nodes n d there with ⟨_, rfl⟩ | ⟨_, found⟩
    · simp [childless]
    · exact tree.proper d n found
  · rcases nodes n c there with ⟨_, rfl⟩ | ⟨_, found⟩
    · rw [alone] at parent
      cases parent
    · obtain ⟨dir, present, member⟩ := tree.up c n d found parent notTop
      exact ⟨dir, old dir d unused present, member⟩
  · rcases nodes n j there with ⟨rfl, rfl⟩ | ⟨differs, found⟩
    · rw [refs, update_self, alone]
      simp
    · rw [update_of_ne differs]
      exact tree.refs j n found
  · rcases nodes n j there with ⟨_, rfl⟩ | ⟨_, found⟩
    · exact .inl (by omega)
    · exact tree.alive j n found
  · obtain ⟨n, found, zero⟩ := tree.dead j gone
    exact ⟨n, old n j unused found, zero⟩
  · by_cases here : j = s.nextNode
    · simp [here, fresh, Tmpfs.setNode]
    rw [update_of_ne here] at held
    obtain ⟨n, found⟩ := Option.ne_none_iff_exists'.mp (tree.opened j held)
    rw [old n j unused found]
    simp
  · rcases nodes n j there with ⟨_, rfl⟩ | ⟨_, found⟩
    · rw [links, alone]
      simp
    · exact tree.nlink j n found regular
  rcases nodes n j there with ⟨_, rfl⟩ | ⟨_, found⟩
  · exact childless
  · exact tree.files j n found regular

theorem fresh_linked (linked : Linked outside root contents opens dying s) (node : TmpfsNode) (alone : node.parent = none)
    (childless : node.children = []) (refs : node.refs = 1) (links : node.nlink = 0) (size : node.size = 0)
    (empty : node.pages = none)
    (count : node.pageCount = 0) (cap : node.pageCap = 0) :
    Linked outside root (update contents s.nextNode ByteFile.empty) (update opens s.nextNode 1) dying (fresh s node) := by
  have unused := linked.owned.nodesBelow s.nextNode (Nat.le_refl _)
  refine ⟨fresh_owned s linked.owned empty count cap,
    fresh_tree s linked.tree unused alone childless refs links, fun id other there regular => ?_⟩
  have bytes : ∀ k, (fresh s node).byteAt id k = s.byteAt id k :=
    fun k => byte_at_congr (fresh_page_at s empty unused id _) (fun _ _ => rfl)
  rcases fresh_nodes s node other id there with ⟨rfl, rfl⟩ | ⟨differs, found⟩
  · rw [update_self]
    refine ⟨⟨⟨other, there, regular, size⟩, fun k => ?_⟩, by simp [ByteFile.empty]⟩
    rw [bytes, byte_at_hole (by simp [Tmpfs.pageAt, unused])]
    rfl
  rw [update_of_ne differs]
  obtain ⟨holds, small⟩ := linked.contents id other found regular
  obtain ⟨_, known, _, length⟩ := holds.node
  cases found.symm.trans known
  exact ⟨⟨⟨other, there, regular, length⟩, fun k => by rw [bytes, holds.bytes]⟩, small⟩

end Fresh

def attach (s : Tmpfs) (d c nlink : Nat) (dir child : TmpfsNode) : Tmpfs :=
  (s.setNode c child).setNode d { dir with children := c :: dir.children, nlink }

section Attach

variable (s : Tmpfs) (d c nlink : Nat) (dir : TmpfsNode) {old : TmpfsNode} (child : TmpfsNode) (apart : d ≠ c)
    (found : s.nodes d = some dir)
  (stored : s.nodes c = some old)

theorem attach_nodes (j : Nat) : (attach s d c nlink dir child).nodes j =
    if j = d then some { dir with children := c :: dir.children, nlink } else if j = c then some child else s.nodes j := by
  simp only [attach, Tmpfs.setNode, update_apply]

theorem attach_set_node (s : Tmpfs) (d c nlink : Nat) (dir child other : TmpfsNode) :
    attach (s.setNode c other) d c nlink dir child = attach s d c nlink dir child := by
  simp only [attach, Tmpfs.setNode, update_idem]

theorem attach_fresh (s : Tmpfs) (d nlink : Nat) (dir child first second : TmpfsNode) :
    attach (fresh s first) d s.nextNode nlink dir child = attach (fresh s second) d s.nextNode nlink dir child := by
  simp only [attach, fresh, Tmpfs.setNode, update_idem]

def linksWith (dir child : TmpfsNode) : Nat := if vfsSIsdir child.mode then (dir.nlink + 1) % 2 ^ 32 else dir.nlink

include found stored

variable (old) in
theorem insert_child_eq (apart : d ≠ c) :
    insertChild s d c = .ok (attach s d c (linksWith dir old) dir { old with parent := some d }) := by
  have there : (s.setNode c { old with parent := some d }).nodes d = some dir := by
    simp [Tmpfs.setNode, update_of_ne apart, found]
  rw [insertChild, node_found stored]
  simp only [bind, Except.bind]
  rw [node_found there]
  rfl

variable (old) in
theorem attach_same_files (fields : fileFields child = fileFields old) : SameFiles s (attach s d c nlink dir child) := by
  refine ⟨rfl, rfl, rfl, rfl, fun j => ?_⟩
  rw [attach_nodes]
  split
  · rename_i eq
    rw [eq, found]
    rfl
  split
  · rename_i eq
    rw [eq, stored, Option.map_some, Option.map_some, fields]
  · rfl

include apart

theorem attach_tree {root : Nat} {opens : Nat → Nat} {dying : Nat → Prop} (tree : Tree root opens dying s)
    (isDir : vfsSIsdir dir.mode = true) (notRoot : c ≠ root) (held : 0 < opens c) (alone : old.parent = none)
    (fields : child.mode = old.mode ∧ child.refs = old.refs ∧ child.children = old.children) (parent : child.parent = some d)
    (links : vfsSIsreg child.mode = true → child.nlink = 1) :
    Tree root (update opens c (opens c - 1)) dying (attach s d c nlink dir child) := by
  have nodes := attach_nodes s d c nlink dir child
  have mine : (attach s d c nlink dir child).nodes c = some child := by rw [nodes, if_neg apart.symm, if_pos rfl]
  obtain ⟨mode, sameRefs, children⟩ := fields
  have count := tree.refs c old stored
  rw [alone, if_neg (by simp)] at count
  have unlisted : ∀ e n, s.nodes e = some n → c ∉ n.children := by
    intro e n known
    rw [listed_iff s tree stored known, alone]
    simp
  refine relinked_tree s tree (fun j => ?_) mine (fun eq => absurd eq notRoot) (children ▸ unlisted c old stored)
    (fun e n present => ?_) (fun e up _ => ?_) (by rw [if_pos ⟨notRoot, by simp [parent]⟩]; omega) (by omega) (fun gone => ?_)
    (fun _ _ => Iff.rfl) (fun j n present regular => ?_) (fun j n present regular => ?_)
  · rw [nodes]
    split_ifs with isDirectory isChild
    · rw [isDirectory, found]
      exact .some ⟨rfl, fun _ => ⟨rfl, rfl⟩, fun _ differs => by simp [differs]⟩
    · rw [isChild, stored]
      exact .some ⟨mode, fun differs => absurd rfl differs, fun _ _ => by rw [children]⟩
    · exact alike_refl c j _
  · rw [nodes] at present
    split_ifs at present with isDirectory isChild
    · cases present
      exact ⟨List.nodup_cons.mpr ⟨unlisted d dir found, tree.nodup d dir found⟩, by simp [notRoot, parent, isDirectory]⟩
    · cases present
      rw [children, parent]
      exact ⟨tree.nodup c old stored, by simp [unlisted c old stored, Ne.symm isDirectory]⟩
    · rw [parent]
      exact ⟨tree.nodup e n present, by simp [unlisted e n present, Ne.symm isDirectory]⟩
  · cases parent.symm.trans up
    rw [nodes, if_pos rfl]
    simp
  · obtain ⟨_, known, zero⟩ := tree.dead c gone
    cases stored.symm.trans known
    omega
  · rw [nodes] at present
    split_ifs at present with isDirectory isChild
    · cases present
      rw [dir_not_regular isDir] at regular
      cases regular
    · cases present
      rw [links regular, parent]
      simp
    · exact tree.nlink j n present regular
  rw [nodes] at present
  split_ifs at present with isDirectory isChild
  · cases present
    rw [isDir] at regular
    cases regular
  · cases present
    exact children.trans (tree.files c old stored (mode ▸ regular))
  · exact tree.files j n present regular

end Attach

end Lyr.Fs
