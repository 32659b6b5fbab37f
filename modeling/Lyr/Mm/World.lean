import Lyr.Mm.Vmm

set_option autoImplicit false

namespace Lyr.Mm

open Lyr.Lib

structure World where
  machine : Machine
  spaces : List Vas

-- An address space is named by its place in the list.
inductive VasCall where
  | create
  | mapAnon (i hint length flags : Nat)
  | mapPhys (i hint phys length flags : Nat)
  | mapFile (i hint : Nat) (file : Option Nat) (fileOffset length flags : Nat)
  | unmap (i start length : Nat)
  | protect (i start length newProt : Nat)
  | clone (i : Nat)
  | pageFault (i addr err : Nat)
  | destroy (i : Nat)
deriving DecidableEq, Repr

def World.update (w : World) (i : Nat) (call : Machine → Vas → Result (Machine × Vas)) : Result World :=
  match w.spaces[i]? with
  | none => .ok w
  | some vas => do
    let (m, vas) ← call w.machine vas
    .ok ⟨m, w.spaces.set i vas⟩

def World.cloneAt (w : World) (i : Nat) : Result World :=
  match w.spaces[i]? with
  | none => .ok w
  | some src => do
    let (m, dst) ← vasClone w.machine src
    .ok ⟨m, dst :: w.spaces⟩

def World.destroyAt (w : World) (i : Nat) : Result World :=
  match w.spaces[i]? with
  | none => .ok w
  | some vas => do
    let m ← vasDestroy w.machine vas
    .ok ⟨m, w.spaces.eraseIdx i⟩

def VasCall.step (getPage : GetPage) (w : World) : VasCall → Result World
  | .create => do
    let (m, vas) ← vasCreate w.machine
    .ok ⟨m, vas :: w.spaces⟩
  | .mapAnon i hint length flags => w.update i fun m vas => do
    let (m, vas, _) ← vasMapAnon m vas hint length flags
    .ok (m, vas)
  | .mapPhys i hint phys length flags => w.update i fun m vas => do
    let (m, vas, _) ← vasMapPhys m vas hint phys length flags
    .ok (m, vas)
  | .mapFile i hint file fileOffset length flags => w.update i fun m vas => do
    let (m, vas, _) ← vasMapFile getPage m vas hint file fileOffset length flags
    .ok (m, vas)
  | .unmap i start length => w.update i fun m vas => vasUnmap m vas start length
  | .protect i start length newProt => w.update i fun m vas => vasProtect m vas start length newProt
  | .clone i => w.cloneAt i
  | .pageFault i addr err => w.update i fun m vas => do
    let (m, _) ← vasHandlePageFault m vas addr err
    .ok (m, vas)
  | .destroy i => w.destroyAt i

theorem update_ok {w next : World} {i : Nat} {call : Machine → Vas → Result (Machine × Vas)} (done : w.update i call = .ok next) :
    (w.spaces[i]? = none ∧ next = w) ∨ ∃ vas m changed, w.spaces[i]? = some vas ∧ call w.machine vas = .ok (m, changed) ∧
      next = ⟨m, w.spaces.set i changed⟩ := by
  rw [World.update] at done
  cases found : w.spaces[i]? with
  | none =>
    simp only [found, Except.ok.injEq] at done
    exact .inl ⟨rfl, done.symm⟩
  | some vas =>
    simp only [found] at done
    obtain ⟨⟨m, changed⟩, called, state⟩ := bind_ok.mp done
    exact .inr ⟨vas, m, changed, rfl, called, (Except.ok.inj state).symm⟩

def smallWorld : World where
  machine :=
    { maxPfn := 15
      free := [2, 3, 4, 5, 6, 7, 8, 9, 10, 11, 12, 13]
      used := fun p => if p = 1 then some ⟨1, 0, false⟩ else none
      mem := fun _ => 0
      kernelPtable := 0
      mmioRegions := [] }
  spaces := [⟨1, [], vasUserStart⟩]

def bareWorld : World where
  machine :=
    { maxPfn := 15
      free := [1, 2, 3, 4, 5, 6, 7, 8, 9, 10, 11, 12, 13]
      used := fun _ => none
      mem := fun _ => 0xCC
      kernelPtable := 0
      mmioRegions := [] }
  spaces := []

def noFiles : GetPage := fun m _ _ _ => .ok (m, none)

end Lyr.Mm
