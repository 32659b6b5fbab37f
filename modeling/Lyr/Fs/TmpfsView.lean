import Lyr.Fs.TmpfsLinks
import Lyr.Lib.Hierarchy

set_option autoImplicit false

namespace Lyr.Fs

open Lyr.Lib Lyr.Mm Function

def view (s : Tmpfs) : Hierarchy Nat Name where
  parent id := (s.nodes id).bind (fun node => node.parent)
  children id := (s.nodes id).elim [] (fun node => node.children)
  name id := (s.nodes id).elim [] (fun node => cString node.name)
  isDir id := (s.nodes id).elim false (fun node => vfsSIsdir node.mode)
  links id := (s.nodes id).elim 0 (fun node => node.nlink)

def linkFields (node : TmpfsNode) : Nat × Nat × Option Nat × List Nat × Name :=
  (node.mode, node.nlink, node.parent, node.children, node.name)

variable {s after : Tmpfs} {id d c : Nat} {node dir child : TmpfsNode}

section

variable (found : s.nodes id = some node)
include found

theorem view_parent : (view s).parent id = node.parent := by
  simp [view, found]

theorem view_children : (view s).children id = node.children := by
  simp [view, found]

theorem view_links : (view s).links id = node.nlink := by
  simp [view, found]

theorem view_is_dir : (view s).isDir id = vfsSIsdir node.mode := by
  simp [view, found]

end

theorem tree_consistent {root : Nat} {opens : Nat → Nat} {dying : Nat → Prop} (tree : Tree root opens dying s) :
    (view s).Consistent root := by
  refine ⟨?_, fun d => ?_, fun d c => ⟨fun member => ?_, fun linked => ?_⟩⟩
  · obtain ⟨node, found, _, self⟩ := tree.rootDir
    rw [view_parent found, self]
  · cases found : s.nodes d with
    | none => simp [view, found]
    | some dir =>
      rw [view_children found]
      exact tree.nodup d dir found
  · cases found : s.nodes d with
    | none => simp [view, found] at member
    | some dir =>
      rw [view_children found] at member
      obtain ⟨notRoot, child, stored, up⟩ := tree.down d dir c found member
      exact ⟨notRoot, by rw [view_parent stored, up]⟩
  obtain ⟨notRoot, up⟩ := linked
  cases stored : s.nodes c with
  | none => simp [view, stored] at up
  | some child =>
    rw [view_parent stored] at up
    obtain ⟨dir, found, member⟩ := tree.up c child d stored up notRoot
    rw [view_children found]
    exact member

theorem view_same (same : ∀ j, (after.nodes j).map linkFields = (s.nodes j).map linkFields) : view after = view s := by
  have fields : ∀ (β : Type) (default : β) (read : TmpfsNode → β), (∀ a b, linkFields a = linkFields b → read a = read b) →
      ∀ j, (after.nodes j).elim default read = (s.nodes j).elim default read := by
    intro β default read respects j
    have here := same j
    cases first : after.nodes j with
    | none =>
      cases second : s.nodes j with
      | none => rfl
      | some old => simp [first, second] at here
    | some new =>
      cases second : s.nodes j with
      | none => simp [first, second] at here
      | some old =>
        rw [first, second, Option.map_some, Option.map_some, Option.some.injEq] at here
        exact respects new old here
  have parents : ∀ (t : Tmpfs) j, (view t).parent j = (t.nodes j).elim none (fun node => node.parent) := by
    intro t j
    cases there : t.nodes j with
    | none => simp [view, there]
    | some node => simp [view, there]
  refine Hierarchy.ext (funext fun j => ?_) (funext fun j => ?_) (funext fun j => ?_) (funext fun j => ?_) (funext fun j => ?_)
  · rw [parents, parents]
    exact fields _ _ _ (fun a b eq => by simp only [linkFields, Prod.mk.injEq] at eq; exact eq.2.2.1) j
  · exact fields _ _ _ (fun a b eq => by simp only [linkFields, Prod.mk.injEq] at eq; exact eq.2.2.2.1) j
  · exact fields _ _ _ (fun a b eq => by simp only [linkFields, Prod.mk.injEq] at eq; rw [eq.2.2.2.2]) j
  · exact fields _ _ _ (fun a b eq => by simp only [linkFields, Prod.mk.injEq] at eq; rw [eq.1]) j
  · exact fields _ _ _ (fun a b eq => by simp only [linkFields, Prod.mk.injEq] at eq; exact eq.2.1) j

theorem view_set_node (s : Tmpfs) (id : Nat) (node changed : TmpfsNode) (found : s.nodes id = some node)
    (same : linkFields changed = linkFields node) : view (s.setNode id changed) = view s := by
  refine view_same (fun j => ?_)
  by_cases here : j = id
  · subst here
    simp [Tmpfs.setNode, found, same]
  · simp [Tmpfs.setNode, update_of_ne here]

def unlinked (s : Tmpfs) (d c : Nat) (dir child : TmpfsNode) : Tmpfs :=
  (erased s d c dir child).setNode c { child with parent := none }

theorem view_unlinked (found : s.nodes d = some dir) (stored : s.nodes c = some child)
    (apart : c ≠ d) : view (unlinked s d c dir child) = (view s).unlink d c := by
  have nodes : ∀ j, (unlinked s d c dir child).nodes j = if j = c then some { child with parent := none }
      else if j = d then some { dir with
        children := dir.children.erase c
        nlink := if vfsSIsdir child.mode ∧ dir.nlink > 0 then dir.nlink - 1 else dir.nlink }
      else s.nodes j := by
    intro j
    simp only [unlinked, erased, Tmpfs.setNode, update_apply]
  refine Hierarchy.ext ?_ ?_ ?_ ?_ ?_
  all_goals
    funext j
    simp only [view, Hierarchy.unlink, nodes, update_apply, found, stored, Option.elim_some]
    grind

theorem view_attach (s : Tmpfs) (d c : Nat) (dir old : TmpfsNode) (name : Name) (found : s.nodes d = some dir)
    (stored : s.nodes c = some old)
    (apart : d ≠ c) (room : dir.nlink + 1 < 2 ^ 32) :
    view (attach s d c (linksWith dir old) dir { old with parent := some d, name }) = (view s).insert d c (cString name) := by
  have links : linksWith dir old = if vfsSIsdir old.mode then dir.nlink + 1 else dir.nlink := by
    rw [linksWith, Nat.mod_eq_of_lt room]
  refine Hierarchy.ext ?_ ?_ ?_ ?_ ?_
  all_goals
    funext j
    simp only [view, Hierarchy.insert, attach_nodes, update_apply, found, stored, Option.elim_some, links]
    grind

theorem nameless_agrees (others : ∀ j, j ≠ c → after.nodes j = s.nodes j) (before : (view s).parent c = none)
    (still : (view after).parent c = none) (children : (view after).children c = (view s).children c) :
    (view s).Agrees (view after) := by
  have away : ∀ j, (view s).parent j ≠ none → after.nodes j = s.nodes j := by
    intro j named
    refine others j (fun same => named ?_)
    rw [same, before]
  refine ⟨funext fun j => ?_, funext fun j => ?_, fun j named => ?_, fun j named => ?_, fun j named => ?_⟩
  · by_cases same : j = c
    · rw [same, still, before]
    · simp only [view, others j same]
  · by_cases same : j = c
    · rw [same, children]
    · simp only [view, others j same]
  all_goals simp only [view, away j named]

theorem detached_agrees (found : s.nodes d = some dir) (stored : s.nodes c = some child)
    (apart : c ≠ d) : ((view s).unlink d c).Agrees (view (detached s d c dir child)) := by
  have before : (unlinked s d c dir child).nodes c = some { child with parent := none } := update_self ..
  have there : (detached s d c dir child).nodes c = some { child with parent := none, nlink := 0 } := update_self ..
  rw [← view_unlinked found stored apart]
  refine nameless_agrees (fun j other => ?_) (view_parent before) (view_parent there) ?_
  · simp [detached, unlinked, Tmpfs.setNode, update_of_ne other]
  · rw [view_children there, view_children before]

structure Dropped (s after : Tmpfs) (d c : Nat) : Prop where
  member : c ∈ (view s).children d
  childless : (view s).children c = []
  agrees : ((view s).unlink d c).Agrees (view after)

structure Added (s after : Tmpfs) (d : Nat) (name : Name) (new : Hierarchy Nat Name) : Prop where
  isDir : (view s).isDir d = true
  absent : ∀ c ∈ (view s).children d, (view s).name c ≠ name
  old : (view s).Agrees new
  alone : new.parent s.nextNode = none
  childless : new.children s.nextNode = []
  links : new.isDir s.nextNode = true → new.links s.nextNode = 2
  inserted : (new.insert d s.nextNode (cString name)).Agrees (view after)

-- The new directory is not below the moved node, and what had the new name is gone.
structure Renamed (root : Nat) (s middle after : Tmpfs) (d e c : Nat) (name : Name) : Prop where
  member : c ∈ (view s).children d
  apart : c ≠ e
  far : ∀ target, Reaches (update (view s).parent c target) root e
  consistent : (view middle).Consistent root
  free : middle = s ∧ (∀ a ∈ (view s).children e, (view s).name a ≠ name) ∨ ∃ t, t ≠ c ∧ (view s).name t = name ∧ Dropped s middle e t
  moved : view after = ((view middle).unlink d c).insert e c (cString name)

end Lyr.Fs
