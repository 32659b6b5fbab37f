import Mathlib

set_option autoImplicit false

namespace Lyr.Lib

universe u v w

variable {σ : Type u} {α : Type v} {ε : Type w} {β γ : Type u} {x : Except ε β} {f : β → Except ε γ} {result : γ} {rest : List α}

theorem bind_ok :
    (x >>= f) = .ok result ↔ ∃ value, x = .ok value ∧ f value = .ok result := by
  cases x with
  | error e => simp [bind, Except.bind]
  | ok value => simp [bind, Except.bind]

theorem bind_error {failure : ε} :
    (x >>= f) = .error failure ↔ x = .error failure ∨ ∃ value, x = .ok value ∧ f value = .error failure := by
  cases x with
  | error e => simp [bind, Except.bind]
  | ok value => simp [bind, Except.bind]

theorem map_ok {f : β → γ} : x.map f = .ok result ↔ ∃ value, x = .ok value ∧ f value = result := by
  cases x with
  | error e => simp [Except.map]
  | ok value => simp [Except.map]

def run (step : σ → α → Except ε σ) : σ → List α → Except ε σ
  | state, [] => .ok state
  | state, call :: rest => match step state call with
      | .error failure => .error failure
      | .ok next => run step next rest

def Permitted (step : σ → α → Except ε σ) (allowed : σ → α → Prop) : σ → List α → Prop
  | _, [] => True
  | state, call :: rest => allowed state call ∧ ∀ next, step state call = .ok next → Permitted step allowed next rest

instance permittedDecidable (step : σ → α → Except ε σ) (allowed : σ → α → Prop) [∀ state call, Decidable (allowed state call)] :
    (state : σ) → (calls : List α) → Decidable (Permitted step allowed state calls)
  | _, [] => .isTrue trivial
  | state, call :: rest => match taken : step state call with
      | .error _ => decidable_of_iff (allowed state call)
          ⟨fun ok => ⟨ok, fun next same => by rw [taken] at same; cases same⟩, fun permitted => permitted.1⟩
      | .ok next =>
        have := permittedDecidable step allowed next rest
        decidable_of_iff (allowed state call ∧ Permitted step allowed next rest)
          ⟨fun ok => ⟨ok.1, fun other same => by rw [taken] at same; cases same; exact ok.2⟩,
            fun permitted => ⟨permitted.1, permitted.2 next taken⟩⟩

variable {step : σ → α → Except ε σ} {allowed : σ → α → Prop} {inv prop : σ → Prop} {rel : σ → α → σ → Prop} {state final : σ}
    {calls : List α}

theorem permitted_all {always : α → Prop} (state : σ) (all : ∀ call ∈ calls, always call) :
    Permitted step (fun _ => always) state calls := by
  induction calls generalizing state with
  | nil => trivial
  | cons call rest ih => exact ⟨all call (by simp), fun next _ => ih next (fun later inside => all later (by simp [inside]))⟩

def Always (step : σ → α → Except ε σ) (inv : σ → Prop) : σ → List α → Prop
  | state, [] => inv state
  | state, call :: rest => inv state ∧ ∀ next, step state call = .ok next → Always step inv next rest

def EachStep (step : σ → α → Except ε σ) (rel : σ → α → σ → Prop) : σ → List α → Prop
  | _, [] => True
  | state, call :: rest => ∀ next, step state call = .ok next → rel state call next ∧ EachStep step rel next rest

theorem run_cons_ok {call : α} (ended : run step state (call :: rest) = .ok final) :
    ∃ next, step state call = .ok next ∧ run step next rest = .ok final := by
  cases taken : step state call with
  | error failure => simp [run, taken] at ended
  | ok next => exact ⟨next, rfl, by simpa only [run, taken] using ended⟩

theorem run_append_ok {first : List α} (state : σ) {middle : σ}
    (begun : run step state first = .ok middle) (ended : run step middle rest = .ok final) :
    run step state (first ++ rest) = .ok final := by
  induction first generalizing state with
  | nil =>
    cases begun
    exact ended
  | cons call more ih =>
    obtain ⟨next, taken, begun⟩ := run_cons_ok begun
    rw [List.cons_append, run, taken]
    exact ih next begun

theorem always_head (always : Always step inv state calls) : inv state := by
  cases calls with
  | nil => exact always
  | cons call rest => exact always.1

theorem always_permitted (needs : ∀ state call next, inv state → step state call = .ok next → inv next → allowed state call)
    (always : Always step inv state calls) (ended : run step state calls = .ok final) : Permitted step allowed state calls := by
  induction calls generalizing state with
  | nil => trivial
  | cons call rest ih =>
    obtain ⟨next, taken, ended⟩ := run_cons_ok ended
    have later := always.2 next taken
    refine ⟨needs state call next always.1 taken (always_head later), fun other same => ?_⟩
    rw [taken, Except.ok.injEq] at same
    exact same ▸ ih later ended

theorem run_always (steps : ∀ state call, inv state → ∃ next, step state call = .ok next ∧ inv next)
    (implies : ∀ state, inv state → prop state)
    (start : inv state) : (∃ final, run step state calls = .ok final) ∧ Always step prop state calls := by
  induction calls generalizing state with
  | nil => exact ⟨⟨state, rfl⟩, implies state start⟩
  | cons call rest ih =>
    obtain ⟨next, taken, holds⟩ := steps state call start
    obtain ⟨⟨final, ended⟩, later⟩ := ih holds
    refine ⟨⟨final, by rw [run, taken]; exact ended⟩, implies state start, fun other same => ?_⟩
    rw [taken, Except.ok.injEq] at same
    exact same ▸ later

section Keeps

variable (keeps : ∀ state call next, inv state → allowed state call → step state call = .ok next → inv next) (start : inv state)

include keeps start

theorem permitted_run_invariant (permitted : Permitted step allowed state calls) (ended : run step state calls = .ok final) :
    inv final := by
  induction calls generalizing state with
  | nil =>
    cases ended
    exact start
  | cons call rest ih =>
    obtain ⟨next, taken, ended⟩ := run_cons_ok ended
    exact ih (keeps state call next start permitted.1 taken) (permitted.2 next taken) ended

theorem permitted_always (implies : ∀ state, inv state → prop state) (permitted : Permitted step allowed state calls) :
    Always step prop state calls := by
  induction calls generalizing state with
  | nil => exact implies state start
  | cons call rest ih =>
    exact ⟨implies state start, fun next taken => ih (keeps state call next start permitted.1 taken) (permitted.2 next taken)⟩

theorem permitted_iff_always (implies : ∀ state, inv state → prop state)
    (needs : ∀ state call next, inv state → step state call = .ok next → prop next → allowed state call)
    (ended : run step state calls = .ok final) : Permitted step allowed state calls ↔ Always step prop state calls := by
  refine ⟨permitted_always keeps start implies, fun always => ?_⟩
  induction calls generalizing state with
  | nil => trivial
  | cons call rest ih =>
    obtain ⟨next, taken, ended⟩ := run_cons_ok ended
    have later := always.2 next taken
    have permitted := needs state call next start taken (always_head later)
    refine ⟨permitted, fun other same => ?_⟩
    rw [taken, Except.ok.injEq] at same
    exact same ▸ ih (keeps state call next start permitted taken) ended later

theorem permitted_each_step
    (holds : ∀ state call next, inv state → allowed state call → step state call = .ok next → rel state call next)
    (permitted : Permitted step allowed state calls) : EachStep step rel state calls := by
  induction calls generalizing state with
  | nil => trivial
  | cons call rest ih =>
    exact fun next taken => ⟨holds state call next start permitted.1 taken,
      ih (keeps state call next start permitted.1 taken) (permitted.2 next taken)⟩

end Keeps

theorem permitted_steps (each : ∀ state call, inv state → allowed state call → ∃ next,
      step state call = .ok next ∧ inv next ∧ rel state call next)
    (start : inv state) (implies : ∀ state, inv state → prop state) (permitted : Permitted step allowed state calls) :
    (∃ final, run step state calls = .ok final) ∧ Always step prop state calls ∧ EachStep step rel state calls := by
  have holds : ∀ state call next, inv state → allowed state call → step state call = .ok next → inv next ∧ rel state call next := by
    intro state call next start permitted taken
    obtain ⟨other, done, holds⟩ := each state call start permitted
    rw [done, Except.ok.injEq] at taken
    exact taken ▸ holds
  have keeps := fun state call next start permitted taken => (holds state call next start permitted taken).1
  refine ⟨?_, permitted_always keeps start implies permitted,
    permitted_each_step keeps start
      (fun state call next start permitted taken => (holds state call next start permitted taken).2) permitted⟩
  induction calls generalizing state with
  | nil => exact ⟨state, rfl⟩
  | cons call rest ih =>
    obtain ⟨next, taken, holds, _⟩ := each state call start permitted.1
    rw [run, taken]
    exact ih holds (permitted.2 next taken)

theorem permitted_iff_each_step (keeps : ∀ state call next, inv state → step state call = .ok next → inv next)
    (same : ∀ state call, inv state → (allowed state call ↔ ∀ next, step state call = .ok next → rel state call next))
    (start : inv state) : Permitted step allowed state calls ↔ EachStep step rel state calls := by
  induction calls generalizing state with
  | nil => exact Iff.rfl
  | cons call rest ih =>
    constructor
    · intro permitted next taken
      exact ⟨(same state call start).mp permitted.1 next taken, (ih (keeps state call next start taken)).mp (permitted.2 next taken)⟩
    intro each
    exact ⟨(same state call start).mpr (fun next taken => (each next taken).1),
      fun next taken => (ih (keeps state call next start taken)).mpr (each next taken).2⟩

end Lyr.Lib
