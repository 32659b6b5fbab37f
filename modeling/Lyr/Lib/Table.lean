import Mathlib

set_option autoImplicit false

namespace Lyr.Lib

open Function

universe u v

variable {κ : Type u} {β : Type v} [DecidableEq κ] {table : κ → Option β} {key other : κ} {found : β}

theorem update_some {entry : β} (stands : update table key (some entry) other = some found) :
    (other = key ∧ found = entry) ∨ (other ≠ key ∧ table other = some found) := by
  by_cases same : other = key
  · rw [same, update_self] at stands
    exact .inl ⟨same, (Option.some.inj stands).symm⟩
  · rw [update_of_ne same] at stands
    exact .inr ⟨same, stands⟩

theorem update_forall {P : κ → β → Prop} {entry : β} (new : P key entry)
    (old : ∀ other found, other ≠ key → table other = some found → P other found)
    (other : κ) (found : β) (stands : update table key (some entry) other = some found) : P other found := by
  rcases update_some stands with ⟨rfl, rfl⟩ | ⟨apart, stands⟩
  · exact new
  · exact old other found apart stands

theorem update_clear (stands : update table key none other = some found) :
    other ≠ key ∧ table other = some found := by
  by_cases same : other = key
  · rw [same, update_self] at stands
    cases stands
  · rw [update_of_ne same] at stands
    exact ⟨same, stands⟩

theorem update_none {entry : Option β} (gone : table other = none) (cleared : other = key → entry = none) :
    update table key entry other = none := by
  by_cases same : other = key
  · rw [same, update_self]
    exact cleared same
  · rw [update_of_ne same]
    exact gone

end Lyr.Lib
