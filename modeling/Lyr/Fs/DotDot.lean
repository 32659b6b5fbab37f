import Lyr.Fs.PathWithin

set_option autoImplicit false

namespace Lyr.Fs

open Lyr.Lib

def walkedText (path : Path) : Path := (components path).foldl joined [slash]

theorem dot_dot_name : IsName dotDot := by decide

theorem reached_single (t : VfsTree) (cred : VfsCred) (cur found : Nat) (path : Path) (name : Name) :
    reached t cred (some cur) path [name] = .ok (some found) ↔
      t.isDir cur = true ∧ vfsAccess t cred (some cur) VFS_X_OK = .ok () ∧ t.has cur (·.lookup) = true ∧
      (joined path name).length < PATH_CAP ∧ ∃ next, t.lookup cur name = .ok next ∧
        followMountAt t next (joined path name) = some found := by
  constructor
  · intro ends
    rw [reached, walkPath, result_bind, map_ok] at ends
    obtain ⟨⟨last, text⟩, walked, same⟩ := ends
    rw [bind_ok] at walked
    obtain ⟨⟨node, longer⟩, turned, rest⟩ := walked
    cases rest
    rw [walkTurn, result_bind, bind_ok] at turned
    obtain ⟨next, answer, turned⟩ := turned
    obtain ⟨dir, isCur, isDir, access, has, lookup⟩ := (walk_lookup_ok t cred (some cur) next name).mp answer
    cases isCur
    rw [result_bind, bind_ok] at turned
    obtain ⟨longer, appended, turned⟩ := turned
    rw [appendComponent] at appended
    split at appended
    · cases appended
    next fits =>
      cases appended
      cases turned
      exact ⟨isDir, access, has, not_le.mp fits, next, lookup, same⟩
  rintro ⟨isDir, access, has, fits, next, lookup, followed⟩
  have answer := (walk_lookup_ok t cred (some cur) next name).mpr ⟨cur, rfl, isDir, access, has, lookup⟩
  rw [reached_cons [] (turn_short answer fits)]
  exact congrArg Except.ok followed

variable {t : VfsTree} {cred : VfsCred} {p : Path} {name : Name} {node : Option Nat} {root parent child top : Nat}

theorem resolve_snoc (absolute : p.head? = some slash) (isName : IsName name) (resolved : (vfsResolve t p cred).result = .ok node) :
    (vfsResolve t (p ++ slash :: name) cred).result = reached t cred node (walkedText p) [name] := by
  have root := resolve_has_root resolved
  have longer : (p ++ slash :: name).head? = some slash := by
    rw [List.head?_append, absolute]
    rfl
  rw [resolve_reached cred root absolute, reached, map_ok] at resolved
  obtain ⟨found, walked, isNode⟩ := resolved
  rw [resolve_reached cred root longer, components_append, components_name isName,
    reached_append [name] walked, isNode, walk_descent _ _ walked, walkedText]

theorem walked_text_snoc (p : Path) (isName : IsName name) : walkedText (p ++ slash :: name) = joined (walkedText p) name := by
  rw [walkedText, components_append, components_name isName, List.foldl_append]
  rfl

theorem dot_dot_returns_iff (absolute : p.head? = some slash) (isName : IsName name)
    (second : (vfsResolve t (p ++ slash :: name) cred).result = .ok (some child)) :
    (vfsResolve t (p ++ slash :: name ++ slash :: dotDot) cred).result = .ok (some parent) ↔
      t.isDir child = true ∧ vfsAccess t cred (some child) VFS_X_OK = .ok () ∧ t.has child (·.lookup) = true ∧
      (joined (joined (walkedText p) name) dotDot).length < PATH_CAP ∧
      ∃ up, t.lookup child dotDot = .ok up ∧ followMountAt t up (joined (joined (walkedText p) name) dotDot) = some parent := by
  have longer : (p ++ slash :: name).head? = some slash := by
    rw [List.head?_append, absolute]
    rfl
  rw [resolve_snoc longer dot_dot_name second, walked_text_snoc p isName, reached_single]

theorem root_dot_dot_iff (first : (vfsResolve t [slash] cred).result = .ok (some root)) :
    (vfsResolve t (slash :: dotDot) cred).result = .ok (some root) ↔ t.isDir root = true ∧
      vfsAccess t cred (some root) VFS_X_OK = .ok () ∧
      t.has root (·.lookup) = true ∧ ∃ up, t.lookup root dotDot = .ok up ∧ followMountAt t up (slash :: dotDot) = some root := by
  have rooted := resolve_has_root first
  rw [resolve_reached cred rooted rfl] at first
  have start : followMountAt t t.root [slash] = some root := Except.ok.inj first
  rw [resolve_reached cred rooted rfl, start, show components (slash :: dotDot) = [dotDot] from by decide, reached_single]
  constructor
  · rintro ⟨dir, access, has, _, up⟩
    exact ⟨dir, access, has, up⟩
  · rintro ⟨dir, access, has, up⟩
    exact ⟨dir, access, has, by decide, up⟩

inductive Below (t : VfsTree) (top : Nat) : Nat → Prop
  | top : Below t top top
  | child (dir : Nat) (name : Name) (child : Nat) (inside : Below t top dir) (plain : name ≠ dot ∧ name ≠ dotDot)
      (looked : t.lookup dir name = .ok (some child)) (isDir : t.isDir dir = true) : Below t top child
  | mounted (mount : Mount) (inTable : mount ∈ t.mounts) (inside : Below t top mount.covered) : Below t top mount.root

def Confined (t : VfsTree) (top : Nat) : Prop := ∀ cred base path found, (∀ dir, base = some dir → Below t top dir) →
  (vfsResolveAt t base path cred).result = .ok (some found) → Below t top found

-- Every mount covers a directory inside other than the top, none under the text "/..".
structure MountsBelow (t : VfsTree) (top : Nat) : Prop where
  covers : ∀ mount ∈ t.mounts, Below t top mount.covered
  bare : mountedRoot t (some top) [slash] = none
  texts : ∀ mount ∈ t.mounts, mount.path ≠ slash :: dotDot

def DotsInside (t : VfsTree) (top : Nat) : Prop :=
  ∀ dir name next, Below t top dir → t.isDir dir = true → name = dot ∨ name = dotDot →
  t.lookup dir name = .ok (some next) → Below t top next

section

variable (mounts : MountsBelow t top)
include mounts

theorem below_stays (dots : DotsInside t top) : StaysIn t (Below t top) := by
  refine ⟨fun dir name next inside isDir looked => ?_, fun mount inTable => .mounted mount inTable (mounts.covers mount inTable)⟩
  by_cases special : name = dot ∨ name = dotDot
  · exact dots dir name next inside isDir special looked
  · exact .child dir name next inside (not_or.mp special) looked isDir

variable (rooted : t.root = some top)
include rooted

theorem dots_confine (dots : DotsInside t top) : Confined t top := by
  intro cred base path found begins resolved
  refine resolve_at_within (below_stays mounts dots) (fun n same => ?_) begins resolved
  rw [rooted] at same
  cases same
  exact .top

theorem confined_dot_dot {up : Nat} (dir : t.isDir top = true) (has : t.has top (·.lookup) = true) (confined : Confined t top)
    (looked : t.lookup top dotDot = .ok (some up)) : Below t top up := by
  have start : followMountAt t t.root [slash] = some top := by rw [rooted, followMountAt, mounts.bare]
  have searches : vfsAccess t ⟨⟨0, 0⟩, [], 0⟩ (some top) VFS_X_OK = .ok () := by
    have isDir : vfsSIsdir (t.node top).mode = true := dir
    simp [vfsAccess, isDir, VFS_X_OK]
  cases mounted : mountedRoot t (some up) (slash :: dotDot) with
  | none =>
    have followed : followMountAt t (some up) (slash :: dotDot) = some up := by rw [followMountAt, mounted]
    refine confined ⟨⟨0, 0⟩, [], 0⟩ none (slash :: dotDot) up (fun _ none => by cases none) ?_
    have resolved := @resolve_reached t ⟨⟨0, 0⟩, [], 0⟩ (slash :: dotDot) (by rw [rooted]; simp) rfl
    rw [vfsResolve, if_neg (by decide)] at resolved
    rw [resolved, start, show components (slash :: dotDot) = [dotDot] from by decide, reached_single]
    exact ⟨dir, searches, has, by decide, _, looked, followed⟩
  | some found =>
    rw [mountedRoot] at mounted
    split at mounted
    next mount first => exact absurd (by simpa using List.find?_some first) (mounts.texts mount (List.mem_of_find?_eq_some first))
    obtain ⟨mount, first, _⟩ := Option.map_eq_some_iff.mp mounted
    have covered : mount.covered = up := by simpa using List.find?_some first
    exact covered ▸ mounts.covers mount (List.mem_of_find?_eq_some first)

end

end Lyr.Fs
