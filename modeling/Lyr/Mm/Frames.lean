import Lyr.Lib.Bytes
import Lyr.Lib.Run
import Lyr.Lib.Count

set_option autoImplicit false

namespace Lyr.Mm

open Lyr.Lib Function

-- outOfFuel marks a source loop that does not end; it is no branch of the source.
inductive Panic where
  | outOfMemory
  | pageNotUsed
  | zeroRefcount
  | stillShared
  | untrackedTable
  | noTable
  | assertion
  | fault
  | outOfFuel
deriving DecidableEq, Repr

abbrev Result (α : Type) := Except Panic α

-- page_t without its links. PAGE_SHARED is set exactly when sharecount > 1.
structure Use where
  refcount : Nat
  sharecount : Nat
  cow : Bool
deriving DecidableEq, Repr

-- A device window, page aligned.
structure MmioRegion where
  virt : Nat
  phys : Nat
  npages : Nat
deriving DecidableEq, Repr

-- Frames are page frame numbers, the free list head first; a tracked frame neither free nor in use is reserved. kernelPtable is the
-- frame of the kernel's top level table.
structure Machine where
  maxPfn : Nat
  free : List Nat
  used : Nat → Option Use
  mem : Bytes
  kernelPtable : Nat
  mmioRegions : List MmioRegion

def scrub (mem : Bytes) (p : Nat) : Bytes := fill mem (4096 * p) 4096 0

def pallocPage (m : Machine) : Result (Machine × Nat) :=
  match m.free with
  | [] => .error .outOfMemory
  | p :: rest => .ok ({ m with free := rest, used := update m.used p (some ⟨1, 0, false⟩) }, p)

def pageValidateUsed (m : Machine) (p : Nat) : Result Use :=
  match m.used p with
  | none => .error .pageNotUsed
  | some use => if use.refcount = 0 then .error .zeroRefcount else .ok use

def pageSet (m : Machine) (p : Nat) (use : Use) : Machine := { m with used := update m.used p (some use) }

def pageRef (m : Machine) (p : Nat) : Result Machine := do
  let use ← pageValidateUsed m p
  .ok (pageSet m p { use with refcount := (use.refcount + 1) % 2 ^ 32 })

def pmmPush (m : Machine) (p : Nat) : Machine := { m with free := p :: m.free, used := update m.used p none, mem := scrub m.mem p }

def pageUnref (m : Machine) (p : Nat) : Result Machine := do
  let use ← pageValidateUsed m p
  if use.refcount - 1 = 0 then
    if use.sharecount ≠ 0 then .error .stillShared else .ok (pmmPush m p)
  else .ok (pageSet m p { use with refcount := use.refcount - 1 })

def pageShare (m : Machine) (p : Nat) : Result Machine := do
  let use ← pageValidateUsed m p
  .ok (pageSet m p { use with sharecount := (use.sharecount + 1) % 2 ^ 64 })

def pageUnshare (m : Machine) (p : Nat) : Result Machine := do
  let use ← pageValidateUsed m p
  if use.sharecount = 0 then .ok m
  else .ok (pageSet m p { use with sharecount := use.sharecount - 1 })

def pageMarkCow (m : Machine) (p : Nat) : Result Machine := do
  let use ← pageValidateUsed m p
  .ok (pageSet m p { use with cow := true })

def pageClearCow (m : Machine) (p : Nat) : Result Machine := do
  let use ← pageValidateUsed m p
  .ok (pageSet m p { use with cow := false })

def pageIsUsed (m : Machine) (p : Nat) : Bool := (m.used p).isSome

def pageIsCow (m : Machine) (p : Nat) : Bool := (m.used p).any Use.cow

def pageIsShared (m : Machine) (p : Nat) : Bool := (m.used p).any (fun use => decide (1 < use.sharecount))

def pfndbPhysToPage (m : Machine) (phys : Nat) : Option Nat :=
  if phys / 4096 > m.maxPfn then none else some (phys / 4096)

theorem palloc_page_ok {m next : Machine} {p : Nat} (done : pallocPage m = .ok (next, p)) : ∃ rest, m.free = p :: rest ∧
      next = { m with free := rest, used := update m.used p (some ⟨1, 0, false⟩) } := by
  cases list : m.free with
  | nil => simp [pallocPage, list] at done
  | cons head rest =>
    simp only [pallocPage, list, Except.ok.injEq, Prod.mk.injEq] at done
    obtain ⟨state, rfl⟩ := done
    exact ⟨rest, rfl, state.symm⟩

variable {m next : Machine} {p : Nat}

theorem page_validate_used_ok {use : Use} (valid : pageValidateUsed m p = .ok use) : m.used p = some use ∧ use.refcount ≠ 0 := by
  cases held : m.used p with
  | none => simp [pageValidateUsed, held] at valid
  | some found =>
    by_cases zero : found.refcount = 0
    · simp [pageValidateUsed, held, zero] at valid
    simp only [pageValidateUsed, held, if_neg zero, Except.ok.injEq] at valid
    subst valid
    exact ⟨rfl, zero⟩

theorem page_ref_ok (done : pageRef m p = .ok next) : ∃ use, m.used p = some use ∧ use.refcount ≠ 0 ∧
      next = pageSet m p { use with refcount := (use.refcount + 1) % 2 ^ 32 } := by
  obtain ⟨use, valid, state⟩ := bind_ok.mp done
  obtain ⟨held, nonzero⟩ := page_validate_used_ok valid
  exact ⟨use, held, nonzero, (Except.ok.inj state).symm⟩

theorem page_share_ok (done : pageShare m p = .ok next) : ∃ use, m.used p = some use ∧ use.refcount ≠ 0 ∧
      next = pageSet m p { use with sharecount := (use.sharecount + 1) % 2 ^ 64 } := by
  obtain ⟨use, valid, state⟩ := bind_ok.mp done
  obtain ⟨held, nonzero⟩ := page_validate_used_ok valid
  exact ⟨use, held, nonzero, (Except.ok.inj state).symm⟩

theorem page_unshare_ok (done : pageUnshare m p = .ok next) : ∃ use, m.used p = some use ∧ use.refcount ≠ 0 ∧
      next = pageSet m p { use with sharecount := use.sharecount - 1 } := by
  obtain ⟨use, valid, state⟩ := bind_ok.mp done
  obtain ⟨held, nonzero⟩ := page_validate_used_ok valid
  refine ⟨use, held, nonzero, ?_⟩
  by_cases zero : use.sharecount = 0
  · have same : ({ use with sharecount := use.sharecount - 1 } : Use) = use := by
      cases use
      simp_all
    rw [if_pos zero] at state
    rw [same, pageSet, ← held, update_eq_self]
    exact (Except.ok.inj state).symm
  · rw [if_neg zero] at state
    exact (Except.ok.inj state).symm

theorem page_unref_ok (done : pageUnref m p = .ok next) : ∃ use, m.used p = some use ∧ use.refcount ≠ 0 ∧
      ((use.refcount = 1 ∧ use.sharecount = 0 ∧ next = pmmPush m p) ∨
        (use.refcount ≠ 1 ∧ next = pageSet m p { use with refcount := use.refcount - 1 })) := by
  obtain ⟨use, valid, state⟩ := bind_ok.mp done
  obtain ⟨held, nonzero⟩ := page_validate_used_ok valid
  refine ⟨use, held, nonzero, ?_⟩
  by_cases last : use.refcount - 1 = 0
  · rw [if_pos last] at state
    by_cases shared : use.sharecount ≠ 0
    · rw [if_pos shared] at state
      cases state
    · rw [if_neg shared] at state
      exact .inl ⟨by omega, by simpa using shared, (Except.ok.inj state).symm⟩
  · rw [if_neg last] at state
    exact .inr ⟨by omega, (Except.ok.inj state).symm⟩

theorem page_mark_cow_ok (done : pageMarkCow m p = .ok next) :
    ∃ use, m.used p = some use ∧ next = pageSet m p { use with cow := true } := by
  obtain ⟨use, valid, state⟩ := bind_ok.mp done
  exact ⟨use, (page_validate_used_ok valid).1, (Except.ok.inj state).symm⟩

theorem page_clear_cow_ok (done : pageClearCow m p = .ok next) :
    ∃ use, m.used p = some use ∧ next = pageSet m p { use with cow := false } := by
  obtain ⟨use, valid, state⟩ := bind_ok.mp done
  exact ⟨use, (page_validate_used_ok valid).1, (Except.ok.inj state).symm⟩

end Lyr.Mm
