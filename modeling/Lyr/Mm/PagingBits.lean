import Lyr.Mm.Paging

set_option autoImplicit false

namespace Lyr.Mm

open Lyr.Lib

theorem and_one_mod (e : Nat) : e &&& 1 = e % 2 := by
  simp

theorem is_present_iff (e : Nat) : isPresent e = true ↔ e % 2 = 1 := by
  rw [isPresent, vmmPresent, and_one_mod, bne_iff_ne]
  omega

theorem frame_mask_bit (i : Nat) : pageFrameMask.testBit i = decide (12 ≤ i ∧ i < 52) := by
  have shape : pageFrameMask = (2 ^ 40 - 1) <<< 12 := by decide
  rw [shape, Nat.testBit_shiftLeft, Nat.testBit_two_pow_sub_one]
  by_cases low : 12 ≤ i
  · by_cases high : i < 52
    · simp [low, high, show i - 12 < 40 by omega]
    · simp [low, high, show ¬ i - 12 < 40 by omega]
  · simp [low]

theorem flags_mask_bit (i : Nat) : pageFlagsMask.testBit i = decide (i < 12 ∨ (52 ≤ i ∧ i < 64)) := by
  have shape : pageFlagsMask = (2 ^ 12 - 1) ||| ((2 ^ 12 - 1) <<< 52) := by decide
  rw [shape, Nat.testBit_or, Nat.testBit_shiftLeft, Nat.testBit_two_pow_sub_one, Nat.testBit_two_pow_sub_one]
  by_cases low : i < 12
  · simp [low]
  by_cases middle : 52 ≤ i
  · by_cases high : i < 64
    · simp [middle, high, show i - 52 < 12 by omega]
    · simp [low, middle, high, show ¬ i - 52 < 12 by omega]
  · simp [low, middle]

theorem and_frame_mask (e : Nat) : e &&& pageFrameMask = 4096 * (e / 4096 % 2 ^ 40) := by
  apply Nat.eq_of_testBit_eq
  intro i
  rw [Nat.testBit_and, frame_mask_bit, show (4096 : Nat) = 2 ^ 12 by norm_num, Nat.testBit_two_pow_mul,
    Nat.testBit_mod_two_pow, Nat.testBit_div_two_pow]
  by_cases low : 12 ≤ i
  · by_cases high : i < 52
    · simp [low, high, show i - 12 < 40 by omega]
    · simp [low, high, show ¬ i - 12 < 40 by omega]
  · simp [low]

theorem frame_of_eq (e : Nat) : frameOf e = e / 4096 % 2 ^ 40 := by
  rw [frameOf, and_frame_mask]
  omega

theorem or_div_frame (phys flags : Nat) : (phys ||| flags) / 4096 = phys / 4096 ||| flags / 4096 := by
  apply Nat.eq_of_testBit_eq
  intro i
  simp only [show (4096 : Nat) = 2 ^ 12 by norm_num, Nat.testBit_or, Nat.testBit_div_two_pow]

theorem flags_no_frame (flags : Nat) : (flags &&& pageFlagsMask) / 4096 % 2 ^ 40 = 0 := by
  apply Nat.eq_of_testBit_eq
  intro i
  rw [Nat.testBit_mod_two_pow, show (4096 : Nat) = 2 ^ 12 by norm_num, Nat.testBit_div_two_pow, Nat.testBit_and, flags_mask_bit,
    Nat.zero_testBit]
  by_cases low : i < 40
  · simp [show ¬ i + 12 < 12 by omega, show ¬ 52 ≤ i + 12 by omega]
  · simp [low]

theorem or_mod_frame (a b : Nat) : (a ||| b) % 2 ^ 40 = a % 2 ^ 40 ||| b % 2 ^ 40 := by
  apply Nat.eq_of_testBit_eq
  intro i
  simp only [Nat.testBit_or, Nat.testBit_mod_two_pow]
  by_cases low : i < 40 <;> simp [low]

theorem leaf_value_frame (phys flags : Nat) : frameOf (leafValue phys flags) = phys / 4096 % 2 ^ 40 := by
  rw [frame_of_eq, leafValue, or_div_frame, or_div_frame, or_mod_frame, or_mod_frame, flags_no_frame]
  simp [vmmPresent]

theorem or_present {e : Nat} : isPresent (e ||| vmmPresent) = true := by
  rw [isPresent, bne_iff_ne]
  intro zero
  have bit := congrArg (fun x => x.testBit 0) zero
  simp [vmmPresent] at bit

theorem leaf_value_present (phys flags : Nat) : isPresent (leafValue phys flags) = true := or_present

theorem leaf_value_flags {p : Nat} (flags : Nat) (physical : p < 2 ^ 40) :
    leafValue (4096 * p) flags &&& pageFlagsMask = (flags &&& pageFlagsMask) ||| vmmPresent := by
  apply Nat.eq_of_testBit_eq
  intro i
  rw [leafValue, Nat.testBit_and, Nat.testBit_or, Nat.testBit_or, Nat.testBit_or, Nat.testBit_and, flags_mask_bit,
    show (4096 : Nat) = 2 ^ 12 by norm_num, Nat.testBit_two_pow_mul]
  by_cases low : i < 12
  · simp [low, show ¬ 12 ≤ i by omega]
  have noPresent : vmmPresent.testBit i = false := by
    rw [vmmPresent, show (1 : Nat) = 2 ^ 0 by norm_num, Nat.testBit_two_pow]
    simp
    omega
  by_cases high : 52 ≤ i
  · have noFrame : p.testBit (i - 12) = false := by
      apply Nat.testBit_lt_two_pow
      exact Nat.lt_of_lt_of_le physical (Nat.pow_le_pow_right (by omega) (by omega))
    simp [noPresent, noFrame]
  · simp [low, high, noPresent]

theorem or_lt_word {a b : Nat} (left : a < 2 ^ 64) (right : b < 2 ^ 64) : a ||| b < 2 ^ 64 := Nat.or_lt_two_pow left right

theorem leaf_value_lt {phys flags : Nat} (bound : phys < 2 ^ 64) : leafValue phys flags < 2 ^ 64 := by
  apply or_lt_word (or_lt_word bound ?_) (by decide)
  exact Nat.lt_of_le_of_lt Nat.and_le_right (by decide)

theorem table_flags_cases (flags : Nat) : tableFlags flags = 3 ∨ tableFlags flags = 7 := by
  rw [tableFlags]
  split
  · exact .inr (by decide)
  · exact .inl (by decide)

theorem link_value {p createFlags : Nat} (physical : p < 2 ^ 40) (shape : createFlags = 3 ∨ createFlags = 7) :
    isPresent (4096 * p ||| createFlags) = true ∧ frameOf (4096 * p ||| createFlags) = p ∧ 4096 * p ||| createFlags < 2 ^ 64 := by
  have small : createFlags < 2 ^ 12 := by omega
  have sum : 4096 * p ||| createFlags = 4096 * p + createFlags := by
    have disjoint := Nat.two_pow_add_eq_or_of_lt small p
    rw [show (4096 : Nat) = 2 ^ 12 by norm_num]
    exact disjoint.symm
  rw [sum, is_present_iff, frame_of_eq]
  omega

theorem idx_mod (v shift : Nat) : (v >>> shift) &&& 0x1ff = v / 2 ^ shift % 512 := by
  rw [Nat.shiftRight_eq_div_pow]
  simpa using Nat.and_two_pow_sub_one_eq_mod (v / 2 ^ shift) 9

end Lyr.Mm
