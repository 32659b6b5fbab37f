import Lyr.Fs.TmpfsCalls

set_option autoImplicit false

namespace Lyr.Fs

open Lyr.Lib Lyr.Mm Function

-- Those of a removed directory do not lead to the root.
def attached (s : Tmpfs) (root : Nat) : Nat → Nat → Bool
  | 0, id => id == root
  | fuel + 1, id => id == root || (match s.nodes id with
      | some node => node.parent.elim false (attached s root fuel)
      | none => false)

theorem attached_climbs (s : Tmpfs) (root fuel id : Nat) : attached s root fuel id = climbs (view s).parent root fuel id := by
  induction fuel generalizing id with
  | zero => rfl
  | succ fuel ih =>
    rw [attached, climbs]
    cases found : s.nodes id with
    | none => simp [view, found]
    | some node =>
      rw [view_parent found]
      cases up : node.parent with
      | none => simp [up]
      | some parent => simp [up, ih]

section Rename

variable {outside : Nat → Prop} {root : Nat} {contents : Nat → ByteFile} {opens : Nat → Nat} {s : Tmpfs}
  (settled : Settled outside root contents opens s)
include settled

variable {fuel : Nat}

theorem attached_step {id : Nat} (here : attached s root (fuel + 1) id = true) (below : id ≠ root) :
    ∃ node parent, s.nodes id = some node ∧ node.parent = some parent ∧ parent ≠ id ∧ attached s root fuel parent = true := by
  rw [attached, Bool.or_eq_true, beq_iff_eq] at here
  rcases here with eq | up
  · exact absurd eq below
  cases found : s.nodes id with
  | none => simp [found] at up
  | some node =>
    cases parent : node.parent with
    | none => simp [found, parent] at up
    | some p =>
      refine ⟨node, p, rfl, parent, ?_, by simpa [found, parent] using up⟩
      rintro rfl
      obtain ⟨holder, stored, member⟩ := settled.tree.up p node p found parent below
      exact settled.tree.proper p holder stored member

theorem root_of_op (id : Nat) (here : attached s root fuel id = true) : rootOf s (fuel + 1) id = .ok root := by
  have top : ∀ fuel, rootOf s (fuel + 1) root = .ok root := by
    intro fuel
    obtain ⟨node, found, _, self⟩ := settled.tree.rootDir
    rw [rootOf, node_found found]
    simp [bind, Except.bind, self]
  induction fuel generalizing id with
  | zero =>
    have eq : id = root := by simpa [attached] using here
    rw [eq, top]
  | succ fuel ih =>
    by_cases eq : id = root
    · rw [eq, top]
    obtain ⟨node, parent, found, up, differs, rest⟩ := attached_step settled here eq
    rw [rootOf, node_found found]
    simp only [bind, Except.bind, up, if_neg differs, ih parent rest]

theorem is_below_op (child : Nat) (id : Nat) (here : attached s root fuel id = true) :
    ∃ below, isBelow s child (fuel + 1) id = .ok below ∧
      (below = false → id ≠ child ∧ ∀ target, Reaches (update (view s).parent child target) root id) := by
  have top : ∀ fuel, ∃ below, isBelow s child (fuel + 1) root = .ok below ∧
      (below = false → root ≠ child ∧ ∀ target, Reaches (update (view s).parent child target) root root) := by
    intro fuel
    obtain ⟨node, found, _, self⟩ := settled.tree.rootDir
    rw [isBelow]
    by_cases same : root = child
    · exact ⟨true, if_pos same, fun eq => by cases eq⟩
    · rw [if_neg same, node_found found]
      exact ⟨false, by simp [bind, Except.bind, self], fun _ => ⟨same, fun _ => .root⟩⟩
  induction fuel generalizing id with
  | zero =>
    have eq : id = root := by simpa [attached] using here
    rw [eq]
    exact top 0
  | succ fuel ih =>
    by_cases eq : id = root
    · rw [eq]
      exact top _
    obtain ⟨node, parent, found, up, differs, rest⟩ := attached_step settled here eq
    rw [isBelow]
    by_cases same : id = child
    · exact ⟨true, if_pos same, fun eq => by cases eq⟩
    obtain ⟨below, walked, far⟩ := ih parent rest
    rw [if_neg same, node_found found]
    refine ⟨below, by simp only [bind, Except.bind, up, if_neg differs, walked], fun out => ⟨same, fun target => ?_⟩⟩
    exact .up id parent (by rw [update_of_ne same, view_parent found, up]) ((far out).2 target)

section Move

variable {d e c : Nat} {dir target child : TmpfsNode} (found : s.nodes d = some dir) (there : s.nodes e = some target)
  (isDir : vfsSIsdir target.mode = true) (member : c ∈ dir.children) (stored : s.nodes c = some child) (apart : e ≠ c) {name : Name}
include found there isDir member stored apart

-- What was at the new name has no children, so both directories and the moved node stay.
theorem replace_target_op {t : Nat} (inside : t ∈ target.children) (named : (view s).name t = name)
    (far : ∀ target, Reaches (update (view s).parent c target) root e) :
    ∃ after reply, replaceTarget s d e c t name = .ok (after, reply) ∧ Settled outside root contents opens after ∧
      (after = s ∨ (target.nlink + 1 < 2 ^ 32 → ∃ middle, Renamed root s middle after d e c name)) := by
  obtain ⟨_, other, known, _⟩ := settled.tree.down e target t there inside
  rw [replaceTarget, node_found stored]
  simp only [bind, Except.bind, node_found known]
  split
  · exact ⟨s, _, rfl, settled, .inl rfl⟩
  rename_i differs
  split
  · exact ⟨s, _, rfl, settled, .inl rfl⟩
  split
  · exact ⟨s, _, rfl, settled, .inl rfl⟩
  rename_i empty
  have childless : other.children = [] := by
    by_cases directory : vfsSIsdir other.mode = true
    · by_contra full
      exact empty ⟨directory, full⟩
    · exact settled.tree.files t other known (by simpa using directory)
  obtain ⟨after, dropped, released, next, same, gone⟩ := remove_leaf_op settled there inside known childless
  have notTarget : d ≠ t := by
    rintro rfl
    cases found.symm.trans known
    rw [childless] at member
    cases member
  have notSelf : e ≠ t := fun eq => settled.tree.proper e target there (eq ▸ inside)
  have nodes : ∀ j, j ≠ t → after.nodes j = if j = e then some { target with
      children := target.children.erase t
      nlink := if vfsSIsdir other.mode ∧ target.nlink > 0 then target.nlink - 1 else target.nlink } else s.nodes j := by
    intro j elsewhere
    rw [same j elsewhere, detached_nodes, if_neg elsewhere]
  obtain ⟨dir', found', member'⟩ : ∃ dir', after.nodes d = some dir' ∧ c ∈ dir'.children := by
    rw [nodes d notTarget]
    split
    · rename_i eq
      subst eq
      cases found.symm.trans there
      exact ⟨_, rfl, (List.mem_erase_of_ne (Ne.symm differs)).mpr member⟩
    · exact ⟨dir, found, member⟩
  have fewer : (if vfsSIsdir other.mode ∧ target.nlink > 0 then target.nlink - 1 else target.nlink) ≤ target.nlink := by
    split
    · omega
    · exact Nat.le_refl _
  obtain ⟨moved, done, last, shape⟩ := move_child_op next found' member'
    (by rw [nodes c (Ne.symm differs), if_neg apart.symm, stored]) ((nodes e notSelf).trans (if_pos rfl)) isDir apart name
  simp only [dropped, released, done]
  refine ⟨moved, _, rfl, last, .inr (fun room => ⟨after, by rwa [view_children found], apart.symm, far,
    tree_consistent next.tree, .inr ⟨t, differs, named, gone⟩, shape ?_⟩)⟩
  exact Nat.lt_of_le_of_lt (Nat.add_le_add_right fewer 1) room

end Move

theorem rename_op {d e : Nat} {dir target : TmpfsNode} (found : s.nodes d = some dir) (there : s.nodes e = some target)
    (ways : vfsSIsdir dir.mode = true → vfsSIsdir target.mode = true →
      attached s root s.nextNode d = true ∧ attached s root s.nextNode e = true) (oldName newName : Name) :
    ∃ after reply, tmpfsRename s d oldName e newName = .ok (after, reply) ∧ Settled outside root contents opens after ∧
      (after = s ∨ (target.nlink + 1 < 2 ^ 32 → ∃ middle c, Renamed root s middle after d e c newName)) := by
  rw [tmpfsRename, node_found found]
  simp only [bind, Except.bind, node_found there]
  split
  · exact ⟨s, _, rfl, settled, .inl rfl⟩
  rename_i directories
  split
  · exact ⟨s, _, rfl, settled, .inl rfl⟩
  split
  · exact ⟨s, _, rfl, settled, .inl rfl⟩
  have isDir : vfsSIsdir target.mode = true := by simpa using (not_or.mp directories).2
  obtain ⟨oldAttached, newAttached⟩ := ways (by simpa using (not_or.mp directories).1) isDir
  simp only [root_of_op settled d oldAttached, root_of_op settled e newAttached]
  rw [if_neg (by simp)]
  obtain ⟨result, searched, member, _⟩ := find_child_op settled found oldName
  simp only [searched]
  cases result with
  | none => exact ⟨s, _, rfl, settled, .inl rfl⟩
  | some c =>
    have member := member c rfl
    obtain ⟨notRoot, child, stored, _⟩ := settled.tree.down d dir c found member
    simp only [renameChild, node_found stored, bind, Except.bind]
    split
    · exact ⟨s, _, rfl, settled, .inl rfl⟩
    obtain ⟨below, walked, differs⟩ : ∃ below, movesBelowItself s c e child = .ok below ∧
        (below = false → e ≠ c ∧ ∀ target, Reaches (update (view s).parent c target) root e) := by
      rw [movesBelowItself]
      split
      · exact is_below_op settled c e newAttached
      rename_i notDir
      have other : e ≠ c := by
        rintro rfl
        rw [there, Option.some.injEq] at stored
        exact notDir (stored ▸ isDir)
      have leaf := Hierarchy.childless_leaf (tree_consistent settled.tree) notRoot
        (by rw [view_children stored, settled.tree.files c child stored (by simpa using notDir)])
      rw [attached_climbs] at newAttached
      exact ⟨false, rfl, fun _ => ⟨other, fun target =>
        reaches_cut leaf target (climbs_reaches e newAttached) other⟩⟩
    simp only [walked]
    split
    · exact ⟨s, _, rfl, settled, .inl rfl⟩
    rename_i outside_
    obtain ⟨apart, far⟩ := differs (by simpa using outside_)
    obtain ⟨result, searched, inside, named, absent⟩ := find_child_op settled there newName
    simp only [searched]
    cases result with
    | some t =>
      obtain ⟨after, reply, done, next, effect⟩ := replace_target_op settled
        found there isDir member stored apart (inside t rfl) (named t rfl) far
      refine ⟨after, reply, done, next, effect.imp_right (fun shape room => ?_)⟩
      obtain ⟨middle, renamed⟩ := shape room
      exact ⟨middle, c, renamed⟩
    | none =>
      obtain ⟨after, done, next, shape⟩ := move_child_op settled found member stored there isDir apart newName
      simp only [done]
      exact ⟨after, _, rfl, next, .inr (fun room => ⟨s, c, by rwa [view_children found], apart.symm, far,
        tree_consistent settled.tree, .inl ⟨rfl, by rw [view_children there]; exact absent rfl⟩,
        shape room⟩)⟩

end Rename

end Lyr.Fs
