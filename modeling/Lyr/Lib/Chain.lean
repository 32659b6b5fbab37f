import Mathlib

set_option autoImplicit false

namespace Lyr.Lib

def Chain (next : Nat → Nat) : Nat → List Nat → Prop
  | start, [] => start = 0
  | start, a :: rest => start = a ∧ a ≠ 0 ∧ Chain next (next a) rest

def BackChain (prev : Nat → Nat) : Nat → List Nat → Prop
  | _, [] => True
  | before, a :: rest => prev a = before ∧ BackChain prev a rest

variable {next next' : Nat → Nat} {list : List Nat}

theorem chain_congr (start : Nat) (same : ∀ a ∈ list, next' a = next a) (chain : Chain next start list) : Chain next' start list := by
  induction list generalizing start with
  | nil => exact chain
  | cons a rest ih =>
    obtain ⟨here, nonzero, tail⟩ := chain
    refine ⟨here, nonzero, ?_⟩
    rw [same a (by simp)]
    exact ih (next a) (fun b inside => same b (by simp [inside])) tail

theorem back_chain_congr {prev prev' : Nat → Nat} (before : Nat) (same : ∀ a ∈ list, prev' a = prev a)
    (chain : BackChain prev before list) : BackChain prev' before list := by
  induction list generalizing before with
  | nil => trivial
  | cons a rest ih =>
    obtain ⟨here, tail⟩ := chain
    exact ⟨(same a (by simp)).trans here, ih a (fun b inside => same b (by simp [inside])) tail⟩

theorem chain_nonzero (start : Nat) (chain : Chain next start list) : 0 ∉ list := by
  induction list generalizing start with
  | nil => exact List.not_mem_nil
  | cons a rest ih =>
    obtain ⟨_, nonzero, tail⟩ := chain
    intro inside
    rcases List.mem_cons.mp inside with here | later
    · exact nonzero here.symm
    · exact ih (next a) tail later

theorem chain_snoc (start : Nat) {last fresh : Nat} (nonzero : fresh ≠ 0) (ends : next' fresh = 0)
    (link : next' last = fresh) (absent : last ∉ list) (same : ∀ a ∈ list, next' a = next a)
    (chain : Chain next start (list ++ [last])) :
    Chain next' start (list ++ [last] ++ [fresh]) := by
  induction list generalizing start with
  | nil =>
    obtain ⟨here, nonnull, _⟩ := chain
    exact ⟨here, nonnull, link, nonzero, ends⟩
  | cons a rest ih =>
    obtain ⟨here, nonnull, tail⟩ := chain
    refine ⟨here, nonnull, ?_⟩
    rw [same a List.mem_cons_self]
    exact ih (next a) (fun inside => absent (List.mem_cons_of_mem a inside))
      (fun b inside => same b (List.mem_cons_of_mem a inside)) tail

end Lyr.Lib
