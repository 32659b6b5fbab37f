import Lyr.Mm.PagingUnmap

set_option autoImplicit false

namespace Lyr.Mm

open Lyr.Lib

-- The lower half of an address space: the 2^35 page numbers below bit 47.
def userSpace (pt : Nat) : Space := ⟨pt, 0, 2 ^ 35, []⟩

variable {pt key depth : Nat} {x : Bytes} {spaces : List Space}

theorem user_covers_root (covers : Covers (userSpace pt) 0 key) : key = 0 := by
  obtain ⟨v, _, high, rfl⟩ := covers
  simp only [userSpace] at high
  simp only [Nat.sub_zero]
  exact Nat.div_eq_of_lt (by omega)

theorem user_covers_top (covers : Covers (userSpace pt) 1 key) : key < 256 := by
  obtain ⟨v, _, high, rfl⟩ := covers
  simp only [userSpace] at high
  omega

theorem user_covers_child {i : Nat} (low : 1 ≤ depth) (bound : depth ≤ 3) (index : i < 512)
    (covers : Covers (userSpace pt) depth key) : Covers (userSpace pt) (depth + 1) (512 * key + i) := by
  obtain ⟨v, _, high, rfl⟩ := covers
  refine ⟨(512 * (v / 512 ^ (4 - depth)) + i) * 512 ^ (4 - (depth + 1)), Nat.zero_le _, ?_, Nat.mul_div_cancel _ (by positivity)⟩
  simp only [userSpace] at high ⊢
  interval_cases depth <;> simp only [Nat.reduceSub, Nat.reduceAdd, Nat.reducePow] <;> omega

def LowerEmpty (x : Bytes) (pt : Nat) : Prop := ∀ i, i < 256 → isPresent (entry x pt i) = false

theorem lower_empty_table (key : Nat) (empty : LowerEmpty x pt) (bound : depth + 1 ≤ 4)
    (covers : Covers (userSpace pt) (depth + 1) key) : table x pt (depth + 1) key = none := by
  induction depth generalizing key with
  | zero =>
    have small := user_covers_top covers
    have index : key % 512 = key := Nat.mod_eq_of_lt (by omega)
    simp [table, tableFind, index, empty key small]
  | succ depth ih =>
    rw [table, ih (key / 512) (by omega) (covers_parent bound covers)]

theorem lower_empty_leaf {v : Nat} (empty : LowerEmpty x pt) (high : v < 2 ^ 35) : leaf x pt v = none := by
  have covers : Covers (userSpace pt) 3 (v / 512) := by simpa using covers_page 3 (Nat.zero_le v) high
  simp only [leaf, lower_empty_table _ empty (by omega) covers]

section AddSpace

variable {x : Bytes} (spaces : List Space) {pt : Nat}

variable (pt) in
theorem root_covers : Covers (userSpace pt) 0 0 := ⟨0, Nat.le_refl 0, by simp [userSpace], rfl⟩

theorem add_space_fresh (apart : ¬ AnyTable x spaces pt) : userSpace pt ∉ spaces := by
  intro member
  exact apart ⟨userSpace pt, member, 0, 0, by omega, root_covers pt, rfl⟩

section

variable (empty : LowerEmpty x pt)
include empty

theorem fresh_node {t : Nat} (bound : depth ≤ 4) (covers : Covers (userSpace pt) depth key)
    (found : table x pt depth key = some t) : depth = 0 ∧ key = 0 ∧ t = pt := by
  cases depth with
  | zero => exact ⟨rfl, user_covers_root covers, (Option.some.inj found).symm⟩
  | succ depth =>
    rw [lower_empty_table key empty bound covers] at found
    cases found

theorem add_space_refs : refs x (userSpace pt :: spaces) = refs x spaces := by
  funext p
  have none : mapCount x (userSpace pt) p = 0 := by
    apply hits_zero
    intro v inside
    obtain ⟨low, high⟩ := Finset.mem_Ico.mp inside
    show table x pt 4 v ≠ some p
    rw [table_leaf_none (lower_empty_leaf empty high)]
    exact fun eq => by cases eq
  simp only [refs, List.map_cons, List.sum_cons, none, Nat.zero_add]

theorem add_space_is_table (p : Nat) : IsTable x (userSpace pt :: spaces) p ↔ p = pt ∨ IsTable x spaces p := by
  constructor
  · rintro ⟨b, member, depth, key, bound, covers, boot, found⟩
    rcases List.mem_cons.mp member with rfl | old
    · exact .inl (fresh_node empty (by omega) covers found).2.2
    · exact .inr ⟨b, old, depth, key, bound, covers, boot, found⟩
  rintro (rfl | ⟨b, member, depth, key, bound, covers, boot, found⟩)
  · exact ⟨userSpace p, by simp, 0, 0, by omega, root_covers p, by simp [userSpace], rfl⟩
  · exact ⟨b, by simp [member], depth, key, bound, covers, boot, found⟩

theorem add_space_distinct (apart : ¬ AnyTable x spaces pt) (distinct : Distinct x spaces) :
    Distinct x (userSpace pt :: spaces) := by
  intro a inA b inB d e k l t boundD boundE coversA coversB foundA foundB
  rcases List.mem_cons.mp inA with rfl | oldA
  · obtain ⟨rfl, rfl, rfl⟩ := fresh_node empty (by omega) coversA foundA
    rcases List.mem_cons.mp inB with rfl | oldB
    · obtain ⟨rfl, rfl, _⟩ := fresh_node empty (by omega) coversB foundB
      exact ⟨rfl, rfl, rfl⟩
    · exact absurd ⟨b, oldB, e, l, boundE, coversB, foundB⟩ apart
  rcases List.mem_cons.mp inB with rfl | oldB
  · obtain ⟨rfl, rfl, rfl⟩ := fresh_node empty (by omega) coversB foundB
    exact absurd ⟨a, oldA, d, k, boundD, coversA, foundA⟩ apart
  · exact distinct a oldA b oldB d e k l t boundD boundE coversA coversB foundA foundB

end

end AddSpace

theorem add_space {m : Machine} {held : Nat → Nat}
    (sound : Sound m spaces (holding held pt)) (inUse : m.used pt ≠ none)
    (apart : ¬ AnyTable m.mem spaces pt) (empty : LowerEmpty m.mem pt) : Sound m (userSpace pt :: spaces) held := by
  have isTable := add_space_is_table spaces empty
  refine ⟨⟨sound.free, List.nodup_cons.mpr ⟨add_space_fresh spaces apart, sound.nodup⟩,
    add_space_distinct spaces empty apart sound.distinct, ?_, ?_⟩, ?_⟩
  · intro b member depth key listed
    rcases List.mem_cons.mp member with rfl | old
    · simp [userSpace] at listed
    · exact sound.boot b old depth key listed
  · intro p at_
    rcases (isTable p).mp at_ with rfl | old
    · exact inUse
    · exact sound.tables p old
  refine counts_congr sound.free rfl rfl sound.counts (fun p _ => ?_)
  rw [add_space_refs spaces empty]
  refine ⟨rfl, ?_⟩
  by_cases same : p = pt
  · subst same
    rw [tabs_pos ((isTable p).mpr (.inl rfl)), tabs_zero (fun at_ => apart (is_table_any at_)), holding_self]
    omega
  · rw [holding_other held same]
    rw [tabs_iff ((isTable p).trans (or_iff_right same))]

theorem add_space_full (empty : LowerEmpty x pt) (full : Full x spaces) :
    Full x (userSpace pt :: spaces) := by
  intro b member depth key t low bound covers found
  rcases List.mem_cons.mp member with rfl | old
  · obtain ⟨rfl, _⟩ := fresh_node empty (by omega) covers found
    omega
  · exact full b old depth key t low bound covers found

end Lyr.Mm
