import Lyr.Lib.Span

set_option autoImplicit false

namespace Lyr.Fs

open Lyr.Lib

inductive Errno where
  | enoent
  | eexist
  | exdev
  | enotdir
  | eisdir
  | einval
  | enametoolong
  | enosys
  | enotempty
deriving DecidableEq, Repr

abbrev Name := List UInt8

structure Cred where
  uid : Nat
  gid : Nat
deriving DecidableEq, Repr

def cString (name : Name) : Name := name.takeWhile (fun byte => byte != 0)

def vfsNameMax : Nat := 255

def vfsSIfmt : Nat := 0o170000
def vfsSIflnk : Nat := 0o120000
def vfsSIfreg : Nat := 0o100000
def vfsSIfdir : Nat := 0o040000
def vfsSPerm : Nat := 0o7777

def vfsSIsreg (mode : Nat) : Bool := mode &&& vfsSIfmt = vfsSIfreg
def vfsSIsdir (mode : Nat) : Bool := mode &&& vfsSIfmt = vfsSIfdir
def vfsSIslnk (mode : Nat) : Bool := mode &&& vfsSIfmt = vfsSIflnk

variable {mode : Nat}

theorem dir_not_regular (isDir : vfsSIsdir mode = true) : vfsSIsreg mode = false := by
  simp only [vfsSIsdir, decide_eq_true_eq] at isDir
  simp [vfsSIsreg, isDir, vfsSIfdir, vfsSIfreg]

def dot : Name := [46]
def dotDot : Name := [46, 46]

end Lyr.Fs
