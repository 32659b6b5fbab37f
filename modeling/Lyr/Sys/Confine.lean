import Lyr.Fs.DotDot
import Lyr.Sys.Mount

set_option autoImplicit false

namespace Lyr.Sys

open Lyr.Lib Lyr.Fs

theorem new_root_dir {t next : VfsTree} {path : Path} {cred : VfsCred} {top : Nat} (root : next.root = some top)
    (changed : vfsChroot t path cred = .ok next ∨ vfsChangeRoot t path cred = .ok next) : next.isDir top = true := by
  have found : ∀ (mounts : List Mount), (directoryAt t path cred).map
    (fun node => { t with root := some node, mounts := mounts }) = .ok next →
      next.isDir top = true := by
    intro mounts made
    rw [map_ok] at made
    obtain ⟨node, resolved, rfl⟩ := made
    cases root
    rw [directoryAt] at resolved
    split at resolved
    · cases resolved
    · cases resolved
    next node _ =>
      by_cases dir : t.isDir node = true
      · rw [if_pos dir] at resolved
        cases resolved
        exact dir
      · rw [if_neg dir] at resolved
        cases resolved
  rcases changed with kept | cleared
  · exact found t.mounts kept
  · exact found [] cleared

-- A file system with a directory s is on /m; /r has a directory m.
def mountedTree : VfsTree where
  node := fun n => ⟨if n < 6 then 0o040755 else 0, 0, 0, 0, if n < 6 then some 0 else none⟩
  ops := fun _ => ⟨true, true, true, true, true, true, true, true, true⟩
  lookup := fun dir name =>
    if name = dot then .ok (some dir)
    else if name = dotDot then .ok (some (if dir = 3 then 2 else if dir = 5 then 4 else if dir = 2 then 2 else 0))
    else if dir = 0 ∧ name = [109] then .ok (some 1)
    else if dir = 2 ∧ name = [115] then .ok (some 3)
    else if dir = 0 ∧ name = [114] then .ok (some 4)
    else if dir = 4 ∧ name = [109] then .ok (some 5)
    else .error .enoent
  read := fun _ _ => .error .enosys
  root := some 0
  mounts := [⟨1, 2, [47, 109]⟩]

theorem below_mounted_root {dir : Nat} (inside : Below { mountedTree with root := some 2, mounts := [] } 2 dir) :
    dir = 2 ∨ dir = 3 := by
  induction inside with
  | top => exact .inl rfl
  | child dir name child _ plain looked _ ih =>
    rcases ih with rfl | rfl
    · simp only [mountedTree, if_neg plain.1, if_neg plain.2] at looked
      grind
    · simp only [mountedTree, if_neg plain.1, if_neg plain.2] at looked
      grind
  | mounted mount inTable => cases inTable

end Lyr.Sys
