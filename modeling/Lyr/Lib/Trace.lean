import Lyr.Lib.Run

set_option autoImplicit false

namespace Lyr.Lib

structure Traced (τ ε α : Type) where
  events : List τ
  result : Except ε α

variable {τ ε α β : Type} {event : τ} {first : Traced τ ε α} {next : α → Traced τ ε β}

def Traced.bind (first : Traced τ ε α) (next : α → Traced τ ε β) : Traced τ ε β := match first.result with
  | .error failure => ⟨first.events, .error failure⟩
  | .ok value => ⟨first.events ++ (next value).events, (next value).result⟩

instance tracedMonad : Monad (Traced τ ε) where
  pure value := ⟨[], .ok value⟩
  bind := Traced.bind

def emit (event : τ) : Traced τ ε Unit := ⟨[event], .ok ()⟩

def outcome (result : Except ε α) : Traced τ ε α := ⟨[], result⟩

def fail (failure : ε) : Traced τ ε α := ⟨[], .error failure⟩

def Every (property : τ → Prop) (computation : Traced τ ε α) : Prop := ∀ event ∈ computation.events, property event

variable {property : τ → Prop}

theorem every_pure {value : α} : Every property (pure value : Traced τ ε α) := nofun

theorem every_outcome {result : Except ε α} : Every property (outcome result : Traced τ ε α) := nofun

theorem every_fail {failure : ε} : Every property (fail failure : Traced τ ε α) := nofun

theorem every_emit : Every property (emit event : Traced τ ε Unit) ↔ property event := by
  simp [Every, emit]

theorem events_bind :
    event ∈ (first >>= next).events ↔ event ∈ first.events ∨ ∃ value, first.result = .ok value ∧ event ∈ (next value).events := by
  change event ∈ (first.bind next).events ↔ _
  rw [Traced.bind]
  cases result : first.result with
  | error failure => simp
  | ok value => simp

theorem every_bind :
    Every property (first >>= next) ↔ Every property first ∧ ∀ value, first.result = .ok value → Every property (next value) := by
  simp only [Every, events_bind]
  constructor
  · intro every
    exact ⟨fun event inside => every event (.inl inside), fun value read event inside => every event (.inr ⟨value, read, inside⟩)⟩
  rintro ⟨before, after⟩ event (inside | ⟨value, read, inside⟩)
  · exact before event inside
  · exact after value read event inside

theorem every_ite {condition : Prop} [Decidable condition] {yes no : Traced τ ε α} (first : condition → Every property yes)
    (second : ¬ condition → Every property no) : Every property (if condition then yes else no) := by
  split
  · exact first ‹_›
  · exact second ‹_›

theorem result_bind (first : Traced τ ε α) (next : α → Traced τ ε β) :
    (first >>= next).result = first.result >>= fun value => (next value).result := by
  change (first.bind next).result = _
  rw [Traced.bind]
  cases first.result with
  | error failure => rfl
  | ok value => rfl

end Lyr.Lib
