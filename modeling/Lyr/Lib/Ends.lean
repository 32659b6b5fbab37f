import Lyr.Lib.Run

set_option autoImplicit false

namespace Lyr.Lib

universe u v

variable {ε : Type v} {α β : Type u} {result : Except ε α} {post : α → Prop} {fails : ε → Prop}

-- With a value that meets the postcondition, or with one of the named failures.
def Ends (result : Except ε α) (post : α → Prop) (fails : ε → Prop) : Prop :=
  match result with
  | .ok value => post value
  | .error failure => fails failure

theorem ends_of (good : ∀ value, result = .ok value → post value)
    (bad : ∀ failure, result = .error failure → fails failure) : Ends result post fails := by
  cases result with
  | ok value => exact good value rfl
  | error failure => exact bad failure rfl

section

variable (ends : Ends result post fails)
include ends

theorem ends_value (value : α)
    (done : result = .ok value) : post value := by
  subst done
  exact ends

theorem ends_failure {failure : ε}
    (failed : result = .error failure) : fails failure := by
  subst failed
  exact ends

theorem ends_mono {weaker : α → Prop} {more : ε → Prop}
    (values : ∀ value, post value → weaker value) (failures : ∀ failure, fails failure → more failure) :
    Ends result weaker more := by
  cases result with
  | ok value => exact values value ends
  | error failure => exact failures failure ends

theorem ends_imp {weaker : α → Prop} (values : ∀ value, post value → weaker value) : Ends result weaker fails :=
  ends_mono ends values (fun _ failed => failed)

theorem ends_known : Ends result (fun value => result = .ok value ∧ post value) fails :=
  ends_of (fun value done => ⟨done, ends_value ends value done⟩) (fun _ => ends_failure ends)

end

theorem ends_bind {first : Except ε α} {rest : α → Except ε β} {mid : α → Prop} {post : β → Prop} {fails : ε → Prop}
    (ends : Ends first mid fails) (next : ∀ value, mid value → Ends (rest value) post fails) :
    Ends (first >>= rest) post fails := by
  cases first with
  | ok value => exact next value ends
  | error failure => exact ends

theorem ends_then {first : Except ε α} {rest : α → Except ε β} {mid : α → Prop} {post : β → Prop} {fails more : ε → Prop}
    (ends : Ends first mid fails) (failures : ∀ failure, fails failure → more failure)
    (next : ∀ value, mid value → Ends (rest value) post more) :
    Ends (first >>= rest) post more :=
  ends_bind (ends_mono ends (fun _ reached => reached) failures) next

theorem ends_range (step : β → Nat → Except ε β) (inv : Nat → β → Prop) (fails : ε → Prop) (count : Nat)
    (keeps : ∀ i state, i < count → inv i state → Ends (step state i) (inv (i + 1)) fails) (state : β) (start : inv 0 state) :
    Ends ((List.range count).foldlM step state) (inv count) fails := by
  induction count with
  | zero => exact start
  | succ count ih =>
    rw [List.range_succ, List.foldlM_append]
    refine ends_bind (ih (fun i s small holds => keeps i s (by omega) holds)) (fun mid holds => ?_)
    rw [List.foldlM_cons]
    exact ends_bind (keeps count mid (by omega) holds) (fun last done => done)

theorem foldlM_still (step : β → α → Except ε β) (items : List α) (state : β) (still : ∀ item ∈ items, step state item = .ok state) :
    items.foldlM step state = .ok state := by
  induction items with
  | nil => rfl
  | cons item rest ih =>
    rw [List.foldlM_cons, still item (by simp)]
    exact ih (fun later inside => still later (by simp [inside]))

theorem ends_run {σ : Type u} {step : σ → α → Except ε σ} {allowed : σ → α → Prop} {inv prop : σ → Prop} {calls : List α} {state : σ}
    (keeps : ∀ state call, inv state → allowed state call → Ends (step state call) inv fails) (start : inv state)
    (implies : ∀ state, inv state → prop state) (permitted : Permitted step allowed state calls) :
    Always step prop state calls ∧ Ends (run step state calls) prop fails := by
  refine ⟨permitted_always (fun state call next start permitted => ends_value
    (keeps state call start permitted) next) start implies permitted, ?_⟩
  induction calls generalizing state with
  | nil => exact implies state start
  | cons call rest ih =>
    have ends := keeps state call start permitted.1
    rw [run]
    cases taken : step state call with
    | error failure => exact ends_failure ends taken
    | ok next => exact ih (ends_value ends next taken) (permitted.2 next taken)

end Lyr.Lib
