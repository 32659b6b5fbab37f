import Lyr.Fs.Namespace
import Lyr.Fs.PathAgree

set_option autoImplicit false

namespace Lyr.Fs

open Lyr.Lib

theorem walk_lookup_ok (t : VfsTree) (cred : VfsCred) (cur next : Option Nat) (name : Name) :
    (walkLookup t cred cur name).result = .ok next ↔ ∃ dir, cur = some dir ∧ t.isDir dir = true ∧
      vfsAccess t cred (some dir) VFS_X_OK = .ok () ∧ t.has dir (·.lookup) = true ∧ t.lookup dir name = .ok next := by
  cases cur with
  | none =>
    constructor
    · intro looked
      cases looked
    · rintro ⟨dir, same, _⟩
      cases same
  | some dir =>
    by_cases isDir : t.isDir dir = true
    · cases access : vfsAccess t cred (some dir) VFS_X_OK with
      | error e => simp [walkLookup, isDir, access, outcome, bind, Traced.bind]
      | ok _ =>
        by_cases has : t.has dir (·.lookup) = true
        · cases answer : t.lookup dir name with
          | error e => simp [walkLookup, isDir, access, has, answer, outcome, emit, status, errno, fail, bind, Traced.bind]
          | ok found => simp [walkLookup, isDir, access, has, answer, outcome, emit, status, bind, Traced.bind, pure]
        · simp [walkLookup, isDir, access, has, outcome, errno, fail, bind, Traced.bind]
    · simp [walkLookup, isDir, errno, fail]

structure StaysIn (t : VfsTree) (inside : Nat → Prop) : Prop where
  lookup : ∀ dir name next, inside dir → t.isDir dir = true → t.lookup dir name = .ok (some next) → inside next
  mounts : ∀ mount ∈ t.mounts, inside mount.root

variable {t : VfsTree} {inside : Nat → Prop} {path : Path} {found : Nat} {cred : VfsCred} {base : Option Nat}

section

variable (stays : StaysIn t inside)
include stays

theorem follow_within {node : Option Nat}
    (start : ∀ n, node = some n → inside n) (followed : followMountAt t node path = some found) : inside found := by
  rw [followMountAt] at followed
  split at followed
  · exact start found followed
  next mounted there =>
    cases followed
    rw [mountedRoot] at there
    split at there
    next mount first =>
      cases there
      exact stays.mounts mount (List.mem_of_find?_eq_some first)
    · obtain ⟨mount, first, rfl⟩ := Option.map_eq_some_iff.mp there
      exact stays.mounts mount (List.mem_of_find?_eq_some first)

theorem walk_within {names : List Name} (cur : Option Nat) (path : Path)
    {found : Option Nat × Path} (start : ∀ n, cur = some n → inside n)
    (walked : (walkPath t cred cur path names).result = .ok found) :
    ∀ n, found.1 = some n → inside n := by
  induction names generalizing cur path with
  | nil =>
    cases walked
    exact start
  | cons name rest ih =>
    rw [walkPath, result_bind, bind_ok] at walked
    obtain ⟨next, turned, walked⟩ := walked
    refine ih next.1 next.2 (fun n reachedHere => ?_) walked
    rw [walkTurn, result_bind, bind_ok] at turned
    obtain ⟨looked, answer, turned⟩ := turned
    rw [result_bind, bind_ok] at turned
    obtain ⟨longer, _, turned⟩ := turned
    cases turned
    obtain ⟨dir, rfl, isDir, _, _, lookup⟩ := (walk_lookup_ok t cred cur looked name).mp answer
    refine follow_within stays (fun child same => ?_) reachedHere
    rw [same] at lookup
    exact stays.lookup dir name child (start dir rfl) isDir lookup

omit stays in
theorem resolve_at_within {t : VfsTree} {cred : VfsCred} {inside : Nat → Prop} (stays : StaysIn t inside) {base : Option Nat}
    {path : Path} {found : Nat}
    (root : ∀ n, t.root = some n → inside n) (start : ∀ n, base = some n → inside n)
    (resolved : (vfsResolveAt t base path cred).result = .ok (some found)) : inside found := by
  have walks : ∀ from_ : Option Nat, (∀ n, from_ = some n → inside n) →
      ((walkPath t cred (followMountAt t from_ [slash]) [slash] (components path) >>= fun found => pure found.1) : Walk
        (Option Nat)).result =
        .ok (some found) → inside found := by
    intro from_ begins resolved
    rw [result_bind, bind_ok] at resolved
    obtain ⟨ended, walked, same⟩ := resolved
    exact walk_within stays _ _ (fun n followed => follow_within stays begins followed) walked found (Except.ok.inj same)
  rw [vfsResolveAt] at resolved
  split at resolved
  · cases resolved
  split at resolved
  · exact walks t.root root resolved
  next dir given =>
    split at resolved
    · cases resolved
    refine walks (some dir) (fun n same => start n ?_) resolved
    split at given
    · cases given
    · rw [given]; exact same

theorem resolve_within
    (root : ∀ n, t.root = some n → inside n) (resolved : (vfsResolve t path cred).result = .ok (some found)) : inside found := by
  rw [vfsResolve] at resolved
  split at resolved
  · cases resolved
  · exact @resolve_at_within t cred inside stays none path found root (by rintro n ⟨⟩) resolved

theorem resolve_from_within (root : ∀ n, t.root = some n → inside n) (start : ∀ n, base = some n → inside n)
    (resolved : (resolveFrom t base path cred).result = .ok (some found)) : inside found := by
  cases base with
  | none => exact resolve_within stays root resolved
  | some base => exact resolve_at_within stays root start resolved

theorem resolve_parent_within {name : Name} (root : ∀ n, t.root = some n → inside n) (start : ∀ n, base = some n → inside n)
    (resolved : (resolveParentAt t base path cred).result = .ok (some found, name)) : inside found := by
  rw [resolveParentAt] at resolved
  split at resolved
  · cases resolved
  split at resolved
  · rw [resolveParent] at resolved
    split at resolved
    · cases resolved
    rw [result_bind, bind_ok] at resolved
    obtain ⟨last, _, resolved⟩ := resolved
    split at resolved
    · have same := congrArg Prod.fst (Except.ok.inj resolved)
      exact root found same
    rw [result_bind, bind_ok] at resolved
    obtain ⟨parent, walked, resolved⟩ := resolved
    cases resolved
    exact resolve_within stays root walked
  rw [result_bind, bind_ok] at resolved
  obtain ⟨last, _, resolved⟩ := resolved
  split at resolved
  · cases base with
    | none => cases resolved
    | some base =>
      dsimp only at resolved
      split at resolved
      · cases resolved
      · cases resolved
        exact start found rfl
  rw [result_bind, bind_ok] at resolved
  obtain ⟨parent, walked, resolved⟩ := resolved
  cases resolved
  exact resolve_at_within stays root start walked

end

end Lyr.Fs
