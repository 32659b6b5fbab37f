import Lyr.Fs.TmpfsNames

set_option autoImplicit false

namespace Lyr.Fs

open Lyr.Lib Lyr.Mm Function

structure Linked (outside : Nat → Prop) (root : Nat) (contents : Nat → ByteFile) (opens : Nat → Nat) (dying : Nat → Prop)
    (s : Tmpfs) :
    Prop where
  owned : s.Owned outside
  tree : Tree root opens dying s
  contents : Contents contents s

section Remove

variable {outside : Nat → Prop} (s : Tmpfs) (owned : s.Owned outside) (id : Nat) (node : TmpfsNode) (found : s.nodes id = some node)

def removed : Tmpfs := { s with arrays := dropArray s.arrays node.pages, nodes := update s.nodes id none }

theorem removed_nodes (j : Nat) (other : TmpfsNode) : (removed s id node).nodes j = some other ↔ j ≠ id ∧ s.nodes j = some other := by
  by_cases same : j = id
  · simp [removed, same]
  · simp [removed, same]

include owned found

theorem removed_array {j a : Nat} {other : TmpfsNode} (differs : j ≠ id) (there : s.nodes j = some other)
    (stored : other.pages = some a) :
    (removed s id node).arrays a = s.arrays a := by
  exact drop_array_other (fun mine => differs (owned.sole j other id node a there found stored mine))

theorem removed_page_at (empty : ∀ i, s.pageAt id i = none) (j i : Nat) : (removed s id node).pageAt j i = s.pageAt j i := by
  by_cases same : j = id
  · rw [same, empty i]
    simp [Tmpfs.pageAt, removed]
  cases there : s.nodes j with
  | none => simp [Tmpfs.pageAt, removed, update_of_ne same, there]
  | some other =>
    rw [page_at_node i there, page_at_node i ((removed_nodes s id node j other).mpr ⟨same, there⟩), Tmpfs.entries, Tmpfs.entries]
    cases stored : other.pages with
    | none => rfl
    | some a =>
      rw [Option.bind_some, Option.bind_some, removed_array s owned id node found same there stored]

theorem removed_owned (empty : ∀ i, s.pageAt id i = none) : (removed s id node).Owned outside := by
  have nodes := removed_nodes s id node
  refine ⟨arrays_change owned.toArrays found (fun j differs => update_of_ne differs _ _) (fun a notMine _ => drop_array_other notMine)
    (fun a below => drop_array_gone (.inr (owned.below a below))) (fun other there => absurd rfl ((nodes id other).mp there).1)
      (fun a present => .inl ⟨?_, ?_⟩),
    pages_congr owned.toPages owned.listed rfl (removed_page_at s owned id node found empty)
      (fun j other i p there here => owned.counted j other i p ((nodes j other).mp there).2 here), fun j below => ?_⟩
  · exact fun mine => present (drop_array_gone (.inl mine))
  · exact fun gone => present (drop_array_gone (.inr gone))
  cases there : (removed s id node).nodes j with
  | none => rfl
  | some other =>
    have known := ((nodes j other).mp there).2
    rw [owned.nodesBelow j below] at known
    cases known

end Remove

variable {opens : Nat → Nat} {dying : Nat → Prop} {s : Tmpfs} {id : Nat} {node : TmpfsNode}

theorem removed_tree {root : Nat} (tree : Tree root opens dying s) (found : s.nodes id = some node) (gone : dying id)
    (childless : node.children = []) :
    Tree root opens (fun j => dying j ∧ j ≠ id) (removed s id node) := by
  have nodes := removed_nodes s id node
  obtain ⟨closed, notRoot, _, stored, unnamed⟩ := dying_unnamed s tree gone
  cases found.symm.trans stored
  refine ⟨?_, tree.rootOpen, fun d n c there member => ?_, fun d n there => tree.nodup d n ((nodes d n).mp there).2,
    fun d n there => tree.proper d n ((nodes d n).mp there).2, fun c n d there parent notTop => ?_,
    fun j n there => tree.refs j n ((nodes j n).mp there).2, fun j n there => ?_, fun j dead => ?_, fun j held => ?_,
    fun j n there => tree.nlink j n ((nodes j n).mp there).2, fun j n there => tree.files j n ((nodes j n).mp there).2⟩
  · obtain ⟨top, present, isDir, parent⟩ := tree.rootDir
    exact ⟨top, (nodes root top).mpr ⟨notRoot.symm, present⟩, isDir, parent⟩
  · obtain ⟨_, known⟩ := (nodes d n).mp there
    obtain ⟨notTop, child, present, parent⟩ := tree.down d n c known member
    refine ⟨notTop, child, (nodes c child).mpr ⟨fun eq => ?_, present⟩, parent⟩
    subst eq
    cases found.symm.trans present
    rw [unnamed] at parent
    cases parent
  · obtain ⟨differs, known⟩ := (nodes c n).mp there
    obtain ⟨dir, present, member⟩ := tree.up c n d known parent notTop
    refine ⟨dir, (nodes d dir).mpr ⟨fun eq => ?_, present⟩, member⟩
    subst eq
    cases found.symm.trans present
    rw [childless] at member
    cases member
  · obtain ⟨differs, known⟩ := (nodes j n).mp there
    rcases tree.alive j n known with alive | dead
    · exact .inl alive
    · exact .inr ⟨dead, differs⟩
  · obtain ⟨n, known, zero⟩ := tree.dead j dead.1
    exact ⟨n, (nodes j n).mpr ⟨dead.2, known⟩, zero⟩
  have differs : j ≠ id := by
    intro eq
    rw [eq, closed] at held
    exact Nat.lt_irrefl 0 held
  obtain ⟨n, known⟩ := Option.ne_none_iff_exists'.mp (tree.opened j held)
  rw [(nodes j n).mpr ⟨differs, known⟩]
  simp

theorem edges_mono {after : Tmpfs} (next : after.nextNode = s.nextNode)
    (children : ∀ j changed, after.nodes j = some changed → ∃ node, s.nodes j = some node ∧ changed.children = node.children) :
    after.edges ≤ s.edges := by
  rw [Tmpfs.edges, Tmpfs.edges, next]
  refine Finset.sum_le_sum (fun j _ => ?_)
  cases there : after.nodes j with
  | none => simp
  | some changed =>
    obtain ⟨node, found, same⟩ := children j changed there
    simp [found, same]

theorem unref_edges (refs : Nat) (found : s.nodes id = some node) : (s.setNode id { node with refs }).edges ≤ s.edges := by
  refine edges_mono rfl (fun j changed there => ?_)
  by_cases here : j = id
  · subst here
    simp only [Tmpfs.setNode, update_self, Option.some.injEq] at there
    exact ⟨node, found, there ▸ rfl⟩
  · exact ⟨changed, by simpa [Tmpfs.setNode, update_of_ne here] using there, rfl⟩

section Free

variable {outside : Nat → Prop} {root : Nat} {contents : Nat → ByteFile}

theorem free_node_op (fuel : Nat) (linked : Linked outside root contents opens dying s) (found : s.nodes id = some node)
    (gone : dying id) (childless : node.children = []) :
    ∃ after, tmpfsRelease (fuel + 1) s id = .ok after ∧ Linked outside root contents opens (fun j => dying j ∧ j ≠ id) after ∧
      after.nodes = update s.nodes id none ∧ after.nextNode = s.nextNode := by
  obtain ⟨emptied, done, cut⟩ := free_pages_from_op linked.owned found 0
  obtain ⟨last, stored, same⟩ := cut.tree.node node found
  have holes : ∀ i, emptied.pageAt id i = none := by
    intro i
    rw [cut.pages, if_pos ⟨rfl, Nat.zero_le i⟩]
  have freed : emptied.kfree last.pages = .ok { emptied with arrays := dropArray emptied.arrays last.pages } := by
    cases mine : last.pages with
    | none => rfl
    | some a =>
      obtain ⟨entries, there⟩ := Option.ne_none_iff_exists'.mp (cut.owned.pointer id last a stored mine)
      simp only [Tmpfs.kfree, there, dropArray]
  have tree : Tree root opens dying emptied :=
    same_names_tree s linked.tree found stored cut.tree.others ⟨same.mode, same.nlink, same.parent, same.children⟩ same.refs
  have pages := removed_page_at emptied cut.owned id last stored holes
  refine ⟨removed emptied id last, ?_, ⟨removed_owned emptied cut.owned id last stored holes,
    removed_tree tree stored gone (same.children.trans childless), fun j other there regular => ?_⟩, ?_,
    cut.tree.nextNode⟩
  · rw [tmpfsRelease, node_found found]
    simp only [bind, Except.bind, childless, done, node_found stored, freed]
    rfl
  · obtain ⟨differs, known⟩ := (removed_nodes emptied id last j other).mp there
    obtain ⟨holds, small⟩ := linked.contents j other ((cut.tree.others j differs) ▸ known) regular
    obtain ⟨_, before, _, size⟩ := holds.node
    rw [← cut.tree.others j differs, known, Option.some.injEq] at before
    subst before
    refine ⟨⟨⟨other, there, regular, size⟩, fun k => ?_⟩, small⟩
    rw [byte_at_congr (pages j _) (fun _ _ => rfl), cut.bytes, if_neg (fun target => differs target.1), holds.bytes]
  funext j
  by_cases here : j = id
  · rw [here, update_self]
    exact update_self ..
  · rw [update_of_ne here, ← cut.tree.others j here]
    exact update_of_ne here ..

variable (outside root contents) in
structure Released (opens : Nat → Nat) (dying : Nat → Prop) (s after : Tmpfs) : Prop where
  linked : Linked outside root contents opens dying after
  edges : after.edges ≤ s.edges
  nextNode : after.nextNode = s.nextNode

section Unref

variable {opens : Nat → Nat} {dying : Nat → Prop} {s : Tmpfs} (linked : Linked outside root contents opens dying s) {id : Nat}
  (held : 0 < opens id) (kept : id = root → 1 < opens id) {node : TmpfsNode} (found : s.nodes id = some node)
include linked held kept found

theorem unref_linked : Linked outside root contents (update opens id (opens id - 1)) (fun j => dying j ∨ j = id ∧ node.refs = 1)
    (s.setNode id { node with refs := node.refs - 1 }) := by
  have count := linked.tree.refs id node found
  have same := set_node_same_files s id node { node with refs := node.refs - 1 } found rfl
  have living : ¬ dying id := by
    intro gone
    have := (dying_unnamed s linked.tree gone).1
    omega
  refine ⟨same_files_owned s _ same linked.owned, refs_tree root opens dying s linked.tree
    found ?_ (fun eq => by omega) ?_ ?_ (fun j differs => ?_), same_files_contents same linked.contents⟩
  · omega
  · by_cases last : node.refs = 1
    · exact .inr (.inr ⟨rfl, last⟩)
    · exact .inl (by omega)
  · rintro (gone | ⟨_, last⟩)
    · exact absurd gone living
    · omega
  · simp [differs]

end Unref

-- Both functions at once. The fuel pays two for every name still below some directory.
theorem release_ops {fuel : Nat} :
    (∀ opens dying s id, Linked outside root contents opens dying s → 0 < opens id → (id = root → 1 < opens id) →
      2 * s.edges + 2 ≤ fuel →
      ∃ after, vfsNodeRelease fuel s id = .ok after ∧ Released outside root contents (update opens id (opens id - 1)) dying s after) ∧
    (∀ opens dying s id, Linked outside root contents opens dying s → dying id → 2 * s.edges + 1 ≤ fuel →
      ∃ after, tmpfsRelease fuel s id = .ok after ∧ Released outside root contents opens (fun j => dying j ∧ j ≠ id) s after) := by
  induction fuel with
  | zero => exact ⟨fun _ _ _ _ _ _ _ fuel => by omega, fun _ _ _ _ _ _ fuel => by omega⟩
  | succ fuel ih =>
    constructor
    · intro opens dying s id linked held kept enough
      obtain ⟨node, found⟩ := Option.ne_none_iff_exists'.mp (linked.tree.opened id held)
      have count := linked.tree.refs id node found
      have next := unref_linked linked held kept found
      have edges := unref_edges (node.refs - 1) found
      rw [vfsNodeRelease, node_found found]
      simp only [bind, Except.bind]
      rw [if_neg (by omega)]
      split
      · obtain ⟨after, done, released⟩ := ih.2 _ _ _ id next (.inr ⟨rfl, by omega⟩) (by omega)
        refine ⟨after, done, ?_, Nat.le_trans released.edges edges, released.nextNode⟩
        have living : ¬ dying id := by
          intro gone
          have := (dying_unnamed s linked.tree gone).1
          omega
        have back : (fun j => (dying j ∨ j = id ∧ node.refs = 1) ∧ j ≠ id) = dying := by
          funext j
          by_cases here : j = id
          · subst here
            simp [living]
          · simp [here]
        exact back ▸ released.linked
      refine ⟨_, rfl, ?_, edges, rfl⟩
      have still : (fun j => dying j ∨ j = id ∧ node.refs = 1) = dying := by
        funext j
        have : node.refs ≠ 1 := by omega
        simp [this]
      exact still ▸ next
    intro opens dying s id linked gone enough
    obtain ⟨_, _, node, found, _⟩ := dying_unnamed s linked.tree gone
    cases children : node.children with
    | nil =>
      obtain ⟨after, done, fine, nodes, next⟩ := free_node_op fuel linked found gone children
      refine ⟨after, done, fine, edges_mono next (fun j changed there => ?_), next⟩
      by_cases here : j = id
      · simp [nodes, here] at there
      · exact ⟨changed, by simpa [nodes, update_of_ne here] using there, rfl⟩
    | cons child rest =>
      have member : child ∈ node.children := by simp [children]
      obtain ⟨old, _, done, same, notRoot, tree, edges⟩ := drop_name_op s linked.tree linked.owned.nodesBelow found member
      have middle : Linked outside root contents (update opens child (opens child + 1)) dying (detached s id child node old) :=
        ⟨same_files_owned s _ same linked.owned, tree, same_files_contents same linked.contents⟩
      obtain ⟨lighter, given, released⟩ := ih.1 _ _ _ child middle (by rw [update_self]; omega) (fun eq => absurd eq notRoot)
        (by omega)
      rw [update_self, update_idem, Nat.add_sub_cancel, update_eq_self] at released
      have fewer := released.edges
      obtain ⟨after, ended, last⟩ := ih.2 _ _ _ id released.linked gone (by omega)
      refine ⟨after, ?_, last.linked, by have := last.edges; omega, last.nextNode.trans (released.nextNode.trans same.nextNode)⟩
      rw [tmpfsRelease, node_found found]
      simp only [bind, Except.bind, children, done, given, ended]

theorem release_op (linked : Linked outside root contents opens dying s)
    (held : 0 < opens id) (kept : id = root → 1 < opens id) : ∃ after, release s id = .ok after ∧
      Linked outside root contents (update opens id (opens id - 1)) dying after := by
  obtain ⟨after, done, released⟩ := (release_ops).1 opens dying s id linked held kept (Nat.le_refl _)
  exact ⟨after, done, released.linked⟩

theorem release_leaf_op (linked : Linked outside root contents opens (fun _ => False) s)
    (held : 0 < opens id) (kept : id = root → 1 < opens id) (found : s.nodes id = some node)
    (childless : node.refs = 1 → node.children = []) :
    ∃ after, release s id = .ok after ∧ Linked outside root contents (update opens id (opens id - 1)) (fun _ => False) after ∧
      (∀ j, j ≠ id → after.nodes j = s.nodes j) ∧
      (after.nodes id = none ∧ node.refs = 1 ∨ after.nodes id = some { node with refs := node.refs - 1 }) := by
  have count := linked.tree.refs id node found
  have next := unref_linked linked held kept found
  rw [release, vfsNodeRelease, node_found found]
  simp only [bind, Except.bind]
  rw [if_neg (by omega)]
  split
  · obtain ⟨after, done, fine, nodes, _⟩ := free_node_op (2 * s.edges) next (update_self ..)
      (.inr ⟨rfl, by omega⟩) (childless (by omega))
    refine ⟨after, done, ?_, fun j differs => ?_, .inl ⟨by rw [nodes, update_self], by omega⟩⟩
    · have back : (fun j => (False ∨ j = id ∧ node.refs = 1) ∧ j ≠ id) = fun _ => False := by
        funext j
        by_cases here : j = id <;> simp [here]
      exact back ▸ fine
    · simp [nodes, Tmpfs.setNode, update_of_ne differs]
  refine ⟨_, rfl, ?_, fun j differs => by simp [Tmpfs.setNode, update_of_ne differs], .inr (update_self ..)⟩
  have still : (fun j => False ∨ j = id ∧ node.refs = 1) = fun _ => False := by
    funext j
    have : node.refs ≠ 1 := by omega
    simp [this]
  exact still ▸ next

end Free

end Lyr.Fs
