import Mathlib

set_option autoImplicit false

namespace Lyr.Lib

-- Callers share one slot: they ask, wait for the answer and read it twice.
inductive Turn (κ υ : Type) where
  | idle
  | asked (key : κ)
  | waiting (key : κ)
  | seen (key : κ)
  | held (key : κ) (first : υ)
  | done (key : κ) (first second : υ)
  | failed
  deriving DecidableEq, Repr

-- claims are all answers that have come in.
structure Desk (κ υ : Type) where
  key : Option κ
  ready : Bool
  value : υ
  callers : List (Turn κ υ)
  claims : List (κ × υ)

inductive DeskEvent (κ υ : Type) where
  | ask (caller : Nat) (key : κ)
  | send (caller : Nat) (sent : Bool)
  | check (caller : Nat)
  | read (caller : Nat)
  | reread (caller : Nat)
  | answer (key : κ) (value : υ)
  deriving DecidableEq, Repr

variable {κ υ : Type} {d : Desk κ υ} {key : κ}

def Desk.turn (d : Desk κ υ) (caller : Nat) (turn : Turn κ υ) : Desk κ υ := { d with callers := d.callers.set caller turn }

-- Asking may blank the value.
def deskStep [DecidableEq κ] (blank : Option υ) (keep : υ → Bool) (d : Desk κ υ) : DeskEvent κ υ → Desk κ υ
  | .ask caller key => match d.callers[caller]? with
      | some .idle => { d with key := some key, ready := false, value := blank.getD d.value
                               callers := d.callers.set caller (.asked key) }
      | _ => d
  | .send caller sent => match d.callers[caller]? with
      | some (.asked key) => d.turn caller (if sent then .waiting key else .failed)
      | _ => d
  | .check caller => match d.callers[caller]? with
      | some (.waiting key) => d.turn caller (if d.ready then .seen key else .failed)
      | _ => d
  | .read caller => match d.callers[caller]? with
      | some (.seen key) => d.turn caller (.held key d.value)
      | _ => d
  | .reread caller => match d.callers[caller]? with
      | some (.held key first) => d.turn caller (if keep first then .done key first d.value else .failed)
      | _ => d
  | .answer key value =>
    if d.key = some key then { d with ready := true, value := value, claims := (key, value) :: d.claims }
    else { d with claims := (key, value) :: d.claims }

def Turn.asks : Turn κ υ → Option κ
  | .asked key => some key
  | .waiting key => some key
  | .seen key => some key
  | .held key _ => some key
  | _ => none

def Turn.sees : Turn κ υ → Option κ
  | .seen key => some key
  | .held key _ => some key
  | _ => none

def Turn.answers : Turn κ υ → List (κ × υ)
  | .held key first => [(key, first)]
  | .done key first second => [(key, first), (key, second)]
  | _ => []

-- Nobody has another question open, nor any where asking blanks the slot.
def Undisturbed (blank : Option υ) (d : Desk κ υ) : DeskEvent κ υ → Prop
  | .ask _ key => ∀ turn ∈ d.callers, ∀ other ∈ turn.asks, blank.isNone = true ∧ other = key
  | _ => True

instance undisturbedDecidable [DecidableEq κ] (blank : Option υ) (d : Desk κ υ) :
    (event : DeskEvent κ υ) → Decidable (Undisturbed blank d event)
  | .ask .. => inferInstanceAs (Decidable (∀ turn ∈ d.callers, ∀ other ∈ turn.asks, _ ∧ _))
  | .send .. | .check .. | .read .. | .reread .. | .answer .. => .isTrue trivial

structure Answered (d : Desk κ υ) : Prop where
  keys : ∀ turn ∈ d.callers, ∀ key ∈ turn.asks, d.key = some key
  ready : d.ready = true → ∀ key ∈ d.key, (key, d.value) ∈ d.claims
  seen : ∀ turn ∈ d.callers, ∀ key ∈ turn.sees, (key, d.value) ∈ d.claims
  answers : ∀ turn ∈ d.callers, ∀ answer ∈ turn.answers, answer ∈ d.claims

theorem answered_turn (caller : Nat) {turn : Turn κ υ} (answered : Answered d)
    (keys : ∀ key ∈ turn.asks, d.key = some key) (seen : ∀ key ∈ turn.sees, (key, d.value) ∈ d.claims)
    (answers : ∀ answer ∈ turn.answers, answer ∈ d.claims) : Answered (d.turn caller turn) := by
  refine ⟨fun other inside => ?_, answered.ready, fun other inside => ?_, fun other inside => ?_⟩
  · rcases List.mem_or_eq_of_mem_set inside with old | rfl
    · exact answered.keys other old
    · exact keys
  · rcases List.mem_or_eq_of_mem_set inside with old | rfl
    · exact answered.seen other old
    · exact seen
  rcases List.mem_or_eq_of_mem_set inside with old | rfl
  · exact answered.answers other old
  · exact answers

theorem answered_failed (caller : Nat) (answered : Answered d) : Answered (d.turn caller .failed) :=
  answered_turn caller answered nofun nofun nofun

theorem sees_asks {turn : Turn κ υ} (sees : key ∈ turn.sees) : key ∈ turn.asks := by
  cases turn with
  | seen key => exact sees
  | held key first => exact sees
  | idle | asked | waiting | done | failed => exact nomatch sees

theorem answered_ask {blank : Option υ} (caller : Nat) (answered : Answered d)
    (alone : ∀ turn ∈ d.callers, ∀ other ∈ turn.asks, blank.isNone = true ∧ other = key) :
    Answered { d with key := some key, ready := false, value := blank.getD d.value, callers := d.callers.set caller (.asked key) } :=
  by
  refine ⟨fun turn inside other asks => ?_, nofun, fun turn inside other sees => ?_, fun turn inside => ?_⟩
  · rcases List.mem_or_eq_of_mem_set inside with old | rfl
    · rw [(alone turn old other asks).2]
    · exact asks
  · rcases List.mem_or_eq_of_mem_set inside with old | rfl
    · have kept : blank = none := by simpa using (alone turn old other (sees_asks sees)).1
      rw [kept]
      exact answered.seen turn old other sees
    · exact nomatch sees
  rcases List.mem_or_eq_of_mem_set inside with old | rfl
  · exact answered.answers turn old
  · exact nofun

section

variable (blank : Option υ) (keep : υ → Bool)
include blank keep

theorem answered_answer [DecidableEq κ] (key : κ) (value : υ) (answered : Answered d) :
    Answered (deskStep blank keep d (.answer key value)) := by
  rw [deskStep]
  split
  next open_ =>
    refine ⟨answered.keys, fun _ other same => ?_, fun turn inside other sees => ?_, fun turn inside answer read => ?_⟩
    · have same : d.key = some other := same
      rw [open_, Option.some.injEq] at same
      exact same ▸ List.mem_cons_self
    · have asks : d.key = some other := answered.keys turn inside other (sees_asks sees)
      rw [open_, Option.some.injEq] at asks
      exact asks ▸ List.mem_cons_self
    · exact List.mem_cons_of_mem _ (answered.answers turn inside answer read)
  exact ⟨answered.keys, fun is other same => List.mem_cons_of_mem _ (answered.ready is other same),
    fun turn inside other sees => List.mem_cons_of_mem _ (answered.seen turn inside other sees),
    fun turn inside answer read => List.mem_cons_of_mem _ (answered.answers turn inside answer read)⟩

theorem answered_step [DecidableEq κ] (d : Desk κ υ) (event : DeskEvent κ υ) (answered : Answered d)
    (alone : Undisturbed blank d event) : Answered (deskStep blank keep d event) := by
  cases event with
  | ask caller key =>
    rw [deskStep]
    split
    · exact answered_ask caller answered alone
    · exact answered
  | send caller sent =>
    rw [deskStep]
    split
    next key asked =>
      cases sent with
      | false => exact answered_failed caller answered
      | true =>
        have asks := answered.keys _ (List.mem_of_getElem? asked)
        exact answered_turn caller answered asks nofun nofun
    · exact answered
  | check caller =>
    rw [deskStep]
    split
    next key waiting =>
      split
      next ready =>
        have asks := answered.keys _ (List.mem_of_getElem? waiting)
        refine answered_turn caller answered asks (fun other same => ?_) nofun
        exact answered.ready ready other (asks other same)
      · exact answered_failed caller answered
    · exact answered
  | read caller =>
    rw [deskStep]
    split
    next key seen =>
      have asks := answered.keys _ (List.mem_of_getElem? seen)
      have sees := answered.seen _ (List.mem_of_getElem? seen)
      refine answered_turn caller answered asks sees (fun answer read => ?_)
      rw [List.mem_singleton.mp read]
      exact sees key rfl
    · exact answered
  | reread caller =>
    rw [deskStep]
    split
    next key first held =>
      have inside := List.mem_of_getElem? held
      split
      · refine answered_turn caller answered nofun nofun
          (fun answer read => ?_)
        rcases List.mem_pair.mp read with rfl | rfl
        · exact answered.answers _ inside _ List.mem_cons_self
        · exact answered.seen _ inside key rfl
      · exact answered_failed caller answered
    · exact answered
  | answer key value => exact answered_answer blank keep key value answered

theorem claims_kept [DecidableEq κ] (d : Desk κ υ) (event : DeskEvent κ υ) :
    ∀ claim ∈ d.claims, claim ∈ (deskStep blank keep d event).claims := by
  intro claim old
  cases event with
  | answer key value =>
    rw [deskStep]
    split
    · exact List.mem_cons_of_mem _ old
    · exact List.mem_cons_of_mem _ old
  | ask | send | check | read | reread =>
    rw [deskStep]
    split <;> exact old

end

theorem fresh_answered (calls : Nat) (value : υ) :
    Answered ({ key := none, ready := false, value, callers := List.replicate calls .idle, claims := [] } : Desk κ υ) := by
  refine ⟨fun turn inside => ?_, nofun, fun turn inside => ?_, fun turn inside => ?_⟩
  · rw [List.eq_of_mem_replicate inside]
    exact nofun
  · rw [List.eq_of_mem_replicate inside]
    exact nofun
  · rw [List.eq_of_mem_replicate inside]
    exact nofun

end Lyr.Lib
