import Lyr.Mm.PagingBits

set_option autoImplicit false

namespace Lyr.Mm

open Lyr.Lib

-- The page numbers lo..hi-1 below the top level table root. boot names the tables on the way that stay for good, by depth and key.
structure Space where
  root : Nat
  lo : Nat
  hi : Nat
  boot : List (Nat × Nat)
deriving DecidableEq, Repr

-- A node is named by its depth and the page number bits consumed so far, so node (4, v) is the frame mapped at v.
def table (x : Bytes) (root : Nat) : Nat → Nat → Option Nat
  | 0, _ => some root
  | depth + 1, key => match table x root depth (key / 512) with
      | none => none
      | some t => tableFind x t (key % 512)

def leaf (x : Bytes) (root v : Nat) : Option Nat :=
  match table x root 3 (v / 512) with
  | none => none
  | some t => if isPresent (entry x t (v % 512)) then some (entry x t (v % 512)) else none

def Covers (sp : Space) (depth key : Nat) : Prop := ∃ v, sp.lo ≤ v ∧ v < sp.hi ∧ v / 512 ^ (4 - depth) = key

def ParentCovers (sp : Space) : Nat → Nat → Prop
  | 0, _ => True
  | depth + 1, key => Covers sp depth (key / 512)

variable {sp : Space} {depth i j : Nat} {x y : Bytes}

theorem covers_parent {key : Nat} (bound : depth + 1 ≤ 4) (covers : Covers sp (depth + 1) key) : Covers sp depth (key / 512) := by
  obtain ⟨v, low, high, rfl⟩ := covers
  refine ⟨v, low, high, ?_⟩
  rw [Nat.div_div_eq_div_mul, ← pow_succ]
  congr 2
  omega

theorem covers_parent_covers {sp : Space} {depth key : Nat} (bound : depth ≤ 4) (covers : Covers sp depth key) :
    ParentCovers sp depth key := by
  cases depth with
  | zero => trivial
  | succ depth => exact covers_parent bound covers

theorem covers_page {sp : Space} {v : Nat} (depth : Nat) (low : sp.lo ≤ v) (high : v < sp.hi) :
    Covers sp depth (v / 512 ^ (4 - depth)) := ⟨v, low, high, rfl⟩

theorem table_four (x : Bytes) (root v : Nat) : table x root 4 v = (leaf x root v).map frameOf := by
  rw [table, leaf]
  cases table x root 3 (v / 512) with
  | none => rfl
  | some t =>
    simp only [tableFind]
    split <;> rfl

theorem entry_lt (x : Bytes) (t i : Nat) : entry x t i < 2 ^ 64 := load_lt x 8 _

theorem entry_set (x : Bytes) (t : Nat) (value u : Nat) (first : i < 512) (second : j < 512) :
    entry (writeEntry x t i value) u j = if u = t ∧ j = i then value % 2 ^ 64 else entry x u j := by
  by_cases same : u = t ∧ j = i
  · obtain ⟨rfl, rfl⟩ := same
    rw [if_pos ⟨rfl, rfl⟩]
    exact load_store_same x 8 _ value
  · rw [if_neg same]
    exact load_store_apart x value (by omega)

theorem entry_scrub (x : Bytes) (p u : Nat) (bound : j < 512) : entry (scrub x p) u j = if u = p then 0 else entry x u j := by
  by_cases same : u = p
  · rw [if_pos same, same]
    exact load_fill_zero x (by omega) (by omega)
  · rw [if_neg same]
    exact load_fill_apart x 0 (by omega)

theorem table_find_congr {t : Nat} (same : entry y t i = entry x t i) : tableFind y t i = tableFind x t i := by
  simp only [tableFind, same]

section

variable (same : ∀ depth key t, depth ≤ 3 → Covers sp depth key → table x sp.root depth key = some t → ∀ i,
      i < 512 → entry y t i = entry x t i)
include same

theorem table_congr (key : Nat) (bound : depth ≤ 4) (covers : ParentCovers sp depth key) :
    table y sp.root depth key = table x sp.root depth key := by
  induction depth generalizing key with
  | zero => rfl
  | succ depth ih =>
    have parent := ih (key / 512) (by omega) (covers_parent_covers (by omega) covers)
    simp only [table, parent]
    cases found : table x sp.root depth (key / 512) with
    | none => rfl
    | some t =>
      exact table_find_congr (same depth _ t (by omega) covers found _ (Nat.mod_lt _ (by omega)))

theorem leaf_congr
    {v : Nat} (low : sp.lo ≤ v) (high : v < sp.hi) : leaf y sp.root v = leaf x sp.root v := by
  have covers : Covers sp 3 (v / 512) := by simpa using covers_page 3 low high
  simp only [leaf, table_congr same _ (by omega) (covers_parent_covers (by omega) covers)]
  cases found : table x sp.root 3 (v / 512) with
  | none => rfl
  | some t => simp only [same 3 _ t (by omega) covers found _ (Nat.mod_lt _ (by omega))]

end

def Distinct (x : Bytes) (spaces : List Space) : Prop :=
  ∀ a ∈ spaces, ∀ b ∈ spaces, ∀ d e k l t, d ≤ 3 → e ≤ 3 → Covers a d k → Covers b e l →
    table x a.root d k = some t → table x b.root e l = some t → a = b ∧ d = e ∧ k = l

def linkOf (value : Nat) : Option Nat := if isPresent value then some (frameOf value) else none

theorem table_find_link (x : Bytes) (t i : Nat) : tableFind x t i = linkOf (entry x t i) := rfl

-- The walk is the same at every other node.
def Relinked (x y : Bytes) (spaces : List Space) (sp : Space) (d k : Nat) (link : Option Nat) : Prop :=
  ∀ b ∈ spaces, ∀ e l, e ≤ 4 → ParentCovers b e l →
    table y b.root e l = if b = sp ∧ e = d ∧ l = k then link else table x b.root e l

theorem table_set {spaces : List Space} (distinct : Distinct x spaces) (member : sp ∈ spaces)
    {key t : Nat} (value : Nat) (bound : depth ≤ 3) (covers : Covers sp depth key)
    (found : table x sp.root depth key = some t) (index : i < 512) (word : value < 2 ^ 64)
    (bare : depth + 1 ≤ 3 → ∀ j, j < 512 → table x sp.root (depth + 2) (512 * (512 * key + i) + j) = none)
    (empty : depth + 1 ≤ 3 → ∀ c, linkOf value = some c → ∀ j, j < 512 → isPresent (entry (writeEntry x t i value) c j) = false) :
    Relinked x (writeEntry x t i value) spaces sp (depth + 1) (512 * key + i) (linkOf value) := by
  intro b other e l limit parent
  induction e generalizing l with
  | zero => simp [table]
  | succ e ih =>
    have above := ih (l / 512) (by omega) (covers_parent_covers (by omega) parent)
    rw [table, above]
    by_cases moved : b = sp ∧ e = depth + 1 ∧ l / 512 = 512 * key + i
    · -- below the moved node there is nothing before and nothing after
      obtain ⟨rfl, rfl, quotient⟩ := moved
      have split : l = 512 * (512 * key + i) + l % 512 := by omega
      have before := bare (by omega) (l % 512) (Nat.mod_lt _ (by omega))
      rw [← split] at before
      rw [if_pos ⟨rfl, rfl, quotient⟩, if_neg (by omega), before]
      cases link : linkOf value with
      | none => rfl
      | some c =>
        have absent := empty (by omega) c link (l % 512) (Nat.mod_lt _ (by omega))
        simp [tableFind, absent]
    rw [if_neg moved]
    cases reached : table x b.root e (l / 512) with
    | none =>
      have unreached : table x b.root (e + 1) l = none := by simp only [table, reached]
      rw [unreached]
      by_cases here : b = sp ∧ e + 1 = depth + 1 ∧ l = 512 * key + i
      · obtain ⟨rfl, sameDepth, rfl⟩ := here
        have sameKey : (512 * key + i) / 512 = key := by omega
        have sameLevel : e = depth := by omega
        rw [sameKey, sameLevel, found] at reached
        cases reached
      · rw [if_neg here]
    | some u =>
      have lookup : table x b.root (e + 1) l = linkOf (entry x u (l % 512)) := by
        simp only [table, reached, table_find_link]
      simp only [table_find_link]
      rw [entry_set x t value u index (Nat.mod_lt _ (by omega)), lookup]
      by_cases hit : u = t
      · subst hit
        obtain ⟨rfl, rfl, keys⟩ := distinct b other sp member e depth (l / 512) key u (by omega) bound parent covers reached found
        by_cases here : l % 512 = i
        · rw [if_pos ⟨rfl, here⟩, if_pos ⟨rfl, rfl, by omega⟩, Nat.mod_eq_of_lt word]
        · rw [if_neg (fun both => here both.2), if_neg (fun all => here (by omega))]
      rw [if_neg (fun both => hit both.1), if_neg]
      rintro ⟨rfl, sameDepth, rfl⟩
      have sameKey : (512 * key + i) / 512 = key := by omega
      have sameLevel : e = depth := by omega
      rw [sameKey, sameLevel, found] at reached
      exact hit (Option.some.inj reached).symm

end Lyr.Mm
