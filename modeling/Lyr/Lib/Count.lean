import Mathlib

set_option autoImplicit false

namespace Lyr.Lib

variable {α β : Type} {domain : Finset α} {item key : α} {f : α → β} {value : β} {items : List α}

def one (condition : Prop) [Decidable condition] : Nat := if condition then 1 else 0

theorem one_pos {condition : Prop} [Decidable condition] (holds : condition) : one condition = 1 := if_pos holds

theorem one_neg {condition : Prop} [Decidable condition] (fails : ¬ condition) : one condition = 0 := if_neg fails

def hits [DecidableEq β] (domain : Finset α) (f : α → β) (value : β) : Nat := (domain.filter (fun key => f key = value)).card

theorem hits_congr [DecidableEq β] {g : α → β} (value : β)
    (agree : ∀ key ∈ domain, f key = g key) : hits domain f value = hits domain g value := by
  have same : domain.filter (fun key => f key = value) = domain.filter (fun key => g key = value) := by
    apply Finset.filter_congr
    intro key member
    rw [agree key member]
  rw [hits, hits, same]

theorem hits_erase [DecidableEq α] [DecidableEq β] (f : α → β) (value : β)
    (member : key ∈ domain) : hits domain f value = hits (domain.erase key) f value + one (f key = value) := by
  have parts : domain = insert key (domain.erase key) := (Finset.insert_erase member).symm
  conv_lhs => rw [hits, parts, Finset.filter_insert]
  by_cases same : f key = value
  · rw [if_pos same, Finset.card_insert_of_notMem (by simp), one_pos same, hits]
  · rw [if_neg same, one_neg same, hits, Nat.add_zero]

theorem hits_update [DecidableEq α] [DecidableEq β] {g : α → β} (member : key ∈ domain)
    (agree : ∀ other ∈ domain, other ≠ key → g other = f other) :
    hits domain g value + one (f key = value) = hits domain f value + one (g key = value) := by
  have rest : hits (domain.erase key) g value = hits (domain.erase key) f value := by
    apply hits_congr
    intro other inside
    exact agree other (Finset.mem_of_mem_erase inside) (Finset.ne_of_mem_erase inside)
  rw [hits_erase g value member, hits_erase f value member, rest]
  omega

theorem hits_pos [DecidableEq β] (member : key ∈ domain) (same : f key = value) : 0 < hits domain f value :=
  Finset.card_pos.mpr ⟨key, Finset.mem_filter.mpr ⟨member, same⟩⟩

theorem hits_zero [DecidableEq β] (apart : ∀ key ∈ domain, f key ≠ value) : hits domain f value = 0 := by
  apply Finset.card_eq_zero.mpr
  apply Finset.filter_eq_empty_iff.mpr
  intro key member
  exact apart key member

theorem sum_update [DecidableEq α] {f g : α → Nat} (nodup : items.Nodup)
    (member : item ∈ items) (agree : ∀ other ∈ items, other ≠ item → g other = f other) :
    (items.map g).sum + f item = (items.map f).sum + g item := by
  induction items with
  | nil => simp at member
  | cons head tail ih =>
    obtain ⟨fresh, tailNodup⟩ := List.nodup_cons.mp nodup
    by_cases same : head = item
    · subst head
      have rest : tail.map g = tail.map f := by
        apply List.map_congr_left
        intro other inside
        exact agree other (by simp [inside]) (fun eq => fresh (eq ▸ inside))
      simp only [List.map_cons, List.sum_cons, rest]
      omega
    have inTail : item ∈ tail := by
      rcases List.mem_cons.mp member with atHead | later
      · exact absurd atHead.symm same
      · exact later
    have tailSum := ih tailNodup inTail (fun other inside => agree other (by simp [inside]))
    have headSame := agree head (by simp) same
    simp only [List.map_cons, List.sum_cons, headSame]
    omega

theorem range_sum_update (count : Nat) (f g : Nat → Nat) (key : Nat) (inside : key < count)
    (agree : ∀ other, other ≠ key → g other = f other) :
    ∑ i ∈ Finset.range count, g i + f key = ∑ i ∈ Finset.range count, f i + g key := by
  have member : key ∈ Finset.range count := Finset.mem_range.mpr inside
  have rest : ∑ i ∈ (Finset.range count).erase key, g i = ∑ i ∈ (Finset.range count).erase key, f i :=
    Finset.sum_congr rfl (fun other there => agree other (Finset.ne_of_mem_erase there))
  rw [← Finset.add_sum_erase _ g member, ← Finset.add_sum_erase _ f member, rest]
  omega

theorem sum_member_le (f : α → Nat) (member : item ∈ items) : f item ≤ (items.map f).sum :=
  List.single_le_sum (fun _ _ => Nat.zero_le _) _ (List.mem_map_of_mem member)

end Lyr.Lib
