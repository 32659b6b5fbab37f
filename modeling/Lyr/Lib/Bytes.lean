import Mathlib

set_option autoImplicit false

namespace Lyr.Lib

-- Byte-addressed storage; wider accesses are little endian.
abbrev Bytes := Nat → UInt8

def load (bytes : Bytes) : Nat → Nat → Nat
  | 0, _ => 0
  | width + 1, address => (bytes address).toNat + 256 * load bytes width (address + 1)

def store (bytes : Bytes) (width address value : Nat) : Bytes := fun a =>
  if address ≤ a ∧ a < address + width then UInt8.ofNat (value / 256 ^ (a - address)) else bytes a

def fill (bytes : Bytes) (address length : Nat) (byte : UInt8) : Bytes := fun a =>
  if address ≤ a ∧ a < address + length then byte else bytes a

def copy (bytes : Bytes) (target source length : Nat) : Bytes := fun a =>
  if target ≤ a ∧ a < target + length then bytes (source + (a - target)) else bytes a

theorem load_congr (x y : Bytes) (width address : Nat)
    (agree : ∀ a, address ≤ a → a < address + width → x a = y a) : load x width address = load y width address := by
  induction width generalizing address with
  | zero => rfl
  | succ width ih =>
    have tail := ih (address + 1) (fun a low high => agree a (by omega) (by omega))
    simp only [load, agree address (by omega) (by omega), tail]

theorem load_lt (bytes : Bytes) (width address : Nat) : load bytes width address < 256 ^ width := by
  induction width generalizing address with
  | zero => simp [load]
  | succ width ih =>
    have head : (bytes address).toNat < 256 := (bytes address).toNat_lt
    have tail := ih (address + 1)
    simp only [load, pow_succ]
    omega

variable {width offset address a length other size : Nat} {bytes : Bytes} {source target : Nat}

theorem store_inside (bytes : Bytes) (address value : Nat) (inside : offset < width) :
    store bytes width address value (address + offset) = UInt8.ofNat (value / 256 ^ offset) := by
  simp [store, inside]

theorem store_outside (bytes : Bytes) (value : Nat) (outside : a < address ∨ address + width ≤ a) :
    store bytes width address value a = bytes a := by
  rw [store, if_neg (by omega)]

theorem fill_inside (bytes : Bytes) (byte : UInt8) (low : address ≤ a) (high : a < address + length) :
    fill bytes address length byte a = byte := by
  rw [fill, if_pos ⟨low, high⟩]

theorem fill_outside (bytes : Bytes) (byte : UInt8) (outside : a < address ∨ address + length ≤ a) :
    fill bytes address length byte a = bytes a := by
  rw [fill, if_neg (by omega)]

theorem copy_inside (inside : offset < length) :
    copy bytes target source length (target + offset) = bytes (source + offset) := by
  rw [copy, if_pos (by omega), show target + offset - target = offset by omega]

theorem copy_outside (outside : a < target ∨ target + length ≤ a) : copy bytes target source length a = bytes a := by
  rw [copy, if_neg (by omega)]

theorem load_digits {value : Nat}
    (digits : ∀ offset, offset < width → bytes (address + offset) = UInt8.ofNat (value / 256 ^ offset)) :
    load bytes width address = value % 256 ^ width := by
  induction width generalizing address value with
  | zero => simp [load, Nat.mod_one]
  | succ width ih =>
    have head : (bytes address).toNat = value % 256 := by
      have first := digits 0 (by omega)
      simpa using congrArg UInt8.toNat first
    have tail : load bytes width (address + 1) = value / 256 % 256 ^ width := by
      apply ih
      intro offset inside
      have next := digits (offset + 1) (by omega)
      rw [show address + (offset + 1) = address + 1 + offset by omega] at next
      rw [next, pow_succ', Nat.div_div_eq_div_mul]
    rw [load, head, tail, pow_succ', Nat.mod_mul]

theorem load_store_same (bytes : Bytes) (width address value : Nat) :
    load (store bytes width address value) width address = value % 256 ^ width :=
  load_digits (fun _ inside => store_inside bytes address value inside)

theorem load_store_apart (bytes : Bytes) (value : Nat) (apart : other + size ≤ address ∨ address + width ≤ other) :
    load (store bytes width address value) size other = load bytes size other := by
  apply load_congr
  intro a low high
  exact store_outside bytes value (by omega)

theorem load_fill_apart (bytes : Bytes) (byte : UInt8) (apart : other + size ≤ address ∨ address + length ≤ other) :
    load (fill bytes address length byte) size other = load bytes size other := by
  apply load_congr
  intro a low high
  exact fill_outside bytes byte (by omega)

theorem load_zeros (bytes : Bytes) (width address : Nat)
    (zeros : ∀ a, address ≤ a → a < address + width → bytes a = 0) : load bytes width address = 0 := by
  induction width generalizing address with
  | zero => rfl
  | succ width ih =>
    rw [load, zeros address (by omega) (by omega), ih (address + 1) (fun a low high => zeros a (by omega) (by omega))]
    rfl

theorem load_fill_zero (bytes : Bytes) (low : address ≤ other)
    (high : other + size ≤ address + length) : load (fill bytes address length 0) size other = 0 := by
  apply load_zeros
  intro a above below
  exact fill_inside bytes 0 (by omega) (by omega)

theorem load_digit (bytes : Bytes) (address offset : Nat) (inside : offset < width) :
    UInt8.ofNat (load bytes width address / 256 ^ offset) = bytes (address + offset) := by
  induction width generalizing address offset with
  | zero => omega
  | succ width ih =>
    have head : (bytes address).toNat < 256 := (bytes address).toNat_lt
    cases offset with
    | zero =>
      apply UInt8.toNat_inj.mp
      simp only [load, pow_zero, Nat.div_one, UInt8.toNat_ofNat', Nat.add_zero]
      omega
    | succ offset =>
      have tail := ih (address + 1) offset (by omega)
      have drop : load bytes (width + 1) address / 256 = load bytes width (address + 1) := by
        rw [load]
        omega
      rw [pow_succ', ← Nat.div_div_eq_div_mul, drop, tail, show address + 1 + offset = address + (offset + 1) by omega]

theorem store_load_self (bytes : Bytes) (width address : Nat) : store bytes width address (load bytes width address) = bytes := by
  funext a
  by_cases inside : address ≤ a ∧ a < address + width
  · rw [store, if_pos inside, load_digit bytes address (a - address) (by omega)]
    congr 1
    omega
  · rw [store, if_neg inside]

end Lyr.Lib
