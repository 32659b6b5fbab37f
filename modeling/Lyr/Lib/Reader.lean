import Lyr.Lib.Run

set_option autoImplicit false

namespace Lyr.Lib

-- A position past the end, or a loop that does not end.
inductive ReadFault (ε : Type) where
  | outside (position : Nat)
  | endless
  | other (fault : ε)
  deriving DecidableEq, Repr

variable {ε α β σ : Type} {bytes x y : List UInt8} {i : Nat}

def byteOf (bytes : List UInt8) (i : Nat) : UInt8 := bytes.getD i 0

def be16Of (bytes : List UInt8) (i : Nat) : UInt16 := (byteOf bytes i).toUInt16 <<< 8 ||| (byteOf bytes (i + 1)).toUInt16

def be32Of (bytes : List UInt8) (i : Nat) : UInt32 := (be16Of bytes i).toUInt32 <<< 16 ||| (be16Of bytes (i + 2)).toUInt32

def byteAt (bytes : List UInt8) (i : Nat) : Except (ReadFault ε) UInt8 :=
  if i < bytes.length then .ok (byteOf bytes i) else .error (.outside i)

def be16At (bytes : List UInt8) (i : Nat) : Except (ReadFault ε) UInt16 := do
  let high ← byteAt bytes i
  let low ← byteAt bytes (i + 1)
  .ok (high.toUInt16 <<< 8 ||| low.toUInt16)

def be32At (bytes : List UInt8) (i : Nat) : Except (ReadFault ε) UInt32 := do
  let high ← be16At bytes i
  let low ← be16At bytes (i + 2)
  .ok (high.toUInt32 <<< 16 ||| low.toUInt32)

def bytesAt (bytes : List UInt8) (start count : Nat) : Except (ReadFault ε) (List UInt8) :=
  if start + count ≤ bytes.length then .ok ((bytes.drop start).take count) else .error (.outside (max start bytes.length))

-- Each turn goes on with a state or ends with a result.
def walk (turn : σ → Except (ReadFault ε) (σ ⊕ α)) : Nat → σ → Except (ReadFault ε) α
  | 0, _ => .error .endless
  | turns + 1, state => do
    match ← turn state with
    | .inl next => walk turn turns next
    | .inr result => .ok result

-- No read is outside and every loop ends.
structure Yields (reading : Except (ReadFault ε) α) (post : α → Prop) : Prop where
  result : ∀ value, reading = .ok value → post value
  fault : ∀ fault, reading = .error fault → ∃ own, fault = .other own

theorem yields_ok {value : α} {post : α → Prop} (holds : post value) : Yields (.ok value : Except (ReadFault ε) α) post :=
  ⟨fun _ same => Except.ok.inj same ▸ holds, nofun⟩

theorem yields_bind (reading : Except (ReadFault ε) α) (next : α → Except (ReadFault ε) β) (middle : α → Prop) (post : β → Prop)
    (first : Yields reading middle) (then_ : ∀ value, middle value → Yields (next value) post) : Yields (reading >>= next) post := by
  cases reading with
  | error fault =>
    refine ⟨nofun, fun other same => ?_⟩
    cases same
    exact first.fault fault rfl
  | ok value => exact then_ value (first.result value rfl)

theorem byte_at (inside : i < bytes.length) : (byteAt bytes i : Except (ReadFault ε) UInt8) = .ok (byteOf bytes i) :=
  if_pos inside

theorem be16_at (bytes : List UInt8) (i : Nat) (inside : i + 2 ≤ bytes.length) :
    (be16At bytes i : Except (ReadFault ε) UInt16) = .ok (be16Of bytes i) := by
  rw [be16At, byte_at (by omega), byte_at (by omega)]
  rfl

theorem be32_at (inside : i + 4 ≤ bytes.length) :
    (be32At bytes i : Except (ReadFault ε) UInt32) = .ok (be32Of bytes i) := by
  rw [be32At, be16_at bytes i (by omega), be16_at bytes (i + 2) (by omega)]
  rfl

theorem bytes_at {start count : Nat} (inside : start + count ≤ bytes.length) :
    (bytesAt bytes start count : Except (ReadFault ε) (List UInt8)) = .ok ((bytes.drop start).take count) := if_pos inside

theorem yields_walk (turn : σ → Except (ReadFault ε) (σ ⊕ α)) (inv : σ → Prop) (left : σ → Nat) (post : α → Prop)
    (each : ∀ state, inv state → Yields (turn state) (Sum.elim (fun next => inv next ∧ left next < left state) post))
    (turns : Nat) (state : σ) (start : inv state) (enough : left state < turns) : Yields (walk turn turns state) post := by
  induction turns generalizing state with
  | zero => omega
  | succ turns ih =>
    refine yields_bind _ _ _ _ (each state start) (fun result holds => ?_)
    cases result with
    | inl next => exact ih next holds.1 (by have shorter := holds.2; omega)
    | inr result => exact yields_ok holds

theorem be16_of_congr (agree : ∀ a, i ≤ a → a < i + 2 → byteOf x a = byteOf y a) : be16Of x i = be16Of y i := by
  rw [be16Of, be16Of, agree i (by omega) (by omega), agree (i + 1) (by omega) (by omega)]

theorem be32_of_congr (agree : ∀ a, i ≤ a → a < i + 4 → byteOf x a = byteOf y a) : be32Of x i = be32Of y i := by
  rw [be32Of, be32Of, be16_of_congr (fun a low high => agree a low (by omega)),
    be16_of_congr (fun a low high => agree a (by omega) (by omega))]

end Lyr.Lib
