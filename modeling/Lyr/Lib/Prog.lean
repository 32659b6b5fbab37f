import Mathlib

set_option autoImplicit false

namespace Lyr.Lib

-- A program that goes on with the answers of its surroundings.
inductive Prog (Op : Type) (Ans : Op → Type) (α : Type) where
  | done (value : α)
  | ask (op : Op) (next : Ans op → Prog Op Ans α)

namespace Prog

variable {Op : Type} {Ans : Op → Type} {α β σ : Type} {asks : Op → Prop}

def andThen : Prog Op Ans α → (α → Prog Op Ans β) → Prog Op Ans β
  | .done value, rest => rest value
  | .ask op next, rest => .ask op (fun answer => (next answer).andThen rest)

instance : Monad (Prog Op Ans) where
  pure := .done
  bind := andThen

def perform (op : Op) : Prog Op Ans (Ans op) := .ask op .done

def run (machine : (op : Op) → σ → Ans op × σ) : Prog Op Ans α → σ → α × σ
  | .done value, state => (value, state)
  | .ask op next, state => (next (machine op state).1).run machine (machine op state).2

inductive Holds (asks : Op → Prop) (post : α → Prop) : Prog Op Ans α → Prop where
  | done (value : α) (meets : post value) : Holds asks post (.done value)
  | ask (op : Op) (next : Ans op → Prog Op Ans α) (asked : asks op) (goes : ∀ answer, Holds asks post (next answer)) : Holds asks post
    (.ask op next)

variable (machine : (op : Op) → σ → Ans op × σ)

theorem run_bind (first : Prog Op Ans α) (rest : α → Prog Op Ans β) (state : σ) :
    (first >>= rest).run machine state = (rest (first.run machine state).1).run machine (first.run machine state).2 := by
  induction first generalizing state with
  | done value => rfl
  | ask op next ih => exact ih (machine op state).1 (machine op state).2

theorem holds_bind {mid : α → Prop} {post : β → Prop} {first : Prog Op Ans α} {rest : α → Prog Op Ans β}
    (begins : first.Holds asks mid) (goes : ∀ value, mid value → (rest value).Holds asks post) :
    (first >>= rest).Holds asks post := by
  induction begins with
  | done value meets => exact goes value meets
  | ask op next asked _ ih => exact .ask op _ asked ih

theorem holds_mono {wider : Op → Prop} {post weaker : α → Prop} {prog : Prog Op Ans α} (holds : prog.Holds asks post)
    (ops : ∀ op, asks op → wider op) (values : ∀ value, post value → weaker value) : prog.Holds wider weaker := by
  induction holds with
  | done value meets => exact .done value (values value meets)
  | ask op next asked _ ih => exact .ask op next (ops op asked) ih

theorem holds_run (asks : Op → Prop) (post : α → Prop) (inv : σ → Prop)
    (keeps : ∀ op state, asks op → inv state → inv (machine op state).2)
    (prog : Prog Op Ans α) (state : σ) (holds : prog.Holds asks post) (start : inv state) :
    post (prog.run machine state).1 ∧ inv (prog.run machine state).2 := by
  induction holds generalizing state with
  | done value meets => exact ⟨meets, start⟩
  | ask op next asked _ ih => exact ih (machine op state).1 (machine op state).2 (keeps op state asked start)

end Prog

end Lyr.Lib
