import Lyr.Mm.PagingPrune

set_option autoImplicit false

namespace Lyr.Mm

open Lyr.Lib Function

def FullBut (x : Bytes) (spaces : List Space) (sp : Space) (v d : Nat) : Prop :=
  ∀ b ∈ spaces, ∀ depth key t, 1 ≤ depth → depth ≤ 3 → Covers b depth key → table x b.root depth key = some t →
    (∃ i, i < 512 ∧ table x b.root (depth + 1) (512 * key + i) ≠ none) ∨
      (b = sp ∧ depth ≤ d ∧ key = v / 512 ^ (4 - depth))

variable {x y : Bytes} {spaces : List Space} {sp : Space} {v d root depth t e : Nat} {m n : Machine} {held : Nat → Nat} {virt : Nat}

theorem full_but_zero (full : FullBut x spaces sp v 0) : Full x spaces := by
  intro b member depth key t low bound covers found
  rcases full b member depth key t low bound covers found with child | ⟨_, deep, _⟩
  · exact child
  · omega

theorem full_but_step (full : FullBut x spaces sp v (d + 1))
    (child : ∃ i, i < 512 ∧ table x sp.root (d + 2) (512 * (v / 512 ^ (4 - (d + 1))) + i) ≠ none) : FullBut x spaces sp v d := by
  intro b member depth key t low bound covers found
  rcases full b member depth key t low bound covers found with have_ | ⟨rfl, deep, rfl⟩
  · exact .inl have_
  by_cases last : depth = d + 1
  · subst last
    exact .inl child
  · exact .inr ⟨rfl, by omega, rfl⟩

theorem full_but_above (bound : d ≤ 2)
    (full : FullBut x spaces sp v d) (below : table x sp.root (d + 1) (v / 512 ^ (4 - (d + 1))) ≠ none) : Full x spaces := by
  induction d with
  | zero => exact full_but_zero full
  | succ d ih =>
    have key := @path_key v (d + 1) (by omega)
    have here : table x sp.root (d + 1) (v / 512 ^ (4 - (d + 1))) ≠ none := by
      intro absent
      refine below ?_
      rw [key, table]
      have quotient : (512 * (v / 512 ^ (4 - (d + 1))) + v / 512 ^ (3 - (d + 1)) % 512) / 512 = v / 512 ^ (4 - (d + 1)) := by omega
      rw [quotient, absent]
    refine ih (by omega) (full_but_step full ?_) here
    refine ⟨v / 512 ^ (3 - (d + 1)) % 512, Nat.mod_lt _ (by omega), ?_⟩
    rw [← key]
    exact below

theorem not_empty_child {key : Nat} (found : table x root depth key = some t)
    (occupied : ¬ tableEmpty x t = true) : ∃ i, i < 512 ∧ table x root (depth + 1) (512 * key + i) ≠ none := by
  have some : ∃ i, i < 512 ∧ isPresent (entry x t i) = true := by
    by_contra none
    apply occupied
    rw [tableEmpty, List.all_eq_true]
    intro i inside
    by_contra present
    exact none ⟨i, List.mem_range.mp inside, by simpa using present⟩
  obtain ⟨i, index, present⟩ := some
  refine ⟨i, index, ?_⟩
  have quotient : (512 * key + i) / 512 = key := by omega
  have remainder : (512 * key + i) % 512 = i := by omega
  rw [table, quotient, found, remainder]
  simp [tableFind, present]

theorem prune_full_but (bound : d ≤ 2)
    (full : FullBut x spaces sp v (d + 1))
    (walk : Relinked x y spaces sp (d + 1) (v / 512 ^ (4 - (d + 1))) none) :
    FullBut y spaces sp v d := by
  intro b member depth key t low limit covers found
  rw [relinked_node walk member limit covers] at found
  split at found
  · cases found
  rename_i apart
  rcases full b member depth key t low limit covers found with ⟨i, index, child⟩ | ⟨rfl, deep, rfl⟩
  · by_cases removed : b = sp ∧ depth + 1 = d + 1 ∧ 512 * key + i = v / 512 ^ (4 - (d + 1))
    · -- the removed table hung below this one, which is on the way to v
      obtain ⟨rfl, sameDepth, sameKey⟩ := removed
      have level : depth = d := by omega
      subst level
      rw [path_key v (by omega)] at sameKey
      exact .inr ⟨rfl, by omega, by omega⟩
    refine .inl ⟨i, index, ?_⟩
    rw [walk b member (depth + 1) _ (by omega) (child_parent_covers index covers), if_neg removed]
    exact child
  refine .inr ⟨rfl, ?_, rfl⟩
  by_contra deeper
  exact apart ⟨rfl, by omega, by rw [show depth = d + 1 by omega]⟩

theorem link_some (linked : linkOf e = some t) : isPresent e = true ∧ frameOf e = t := by
  rw [linkOf] at linked
  split at linked
  · rename_i present
    exact ⟨present, Option.some.inj linked⟩
  · cases linked

theorem table_parent (bound : depth ≤ 3)
    (found : table x root (depth + 1) (v / 512 ^ (4 - (depth + 1))) = some t) :
    ∃ u, table x root depth (v / 512 ^ (4 - depth)) = some u ∧ isPresent (entry x u (v / 512 ^ (3 - depth) % 512)) = true ∧
      frameOf (entry x u (v / 512 ^ (3 - depth) % 512)) = t := by
  cases parent : table x root depth (v / 512 ^ (4 - depth)) with
  | none =>
    have quotient : (512 * (v / 512 ^ (4 - depth)) + v / 512 ^ (3 - depth) % 512) / 512 = v / 512 ^ (4 - depth) := by omega
    rw [path_key v bound, table, quotient, parent] at found
    cases found
  | some u =>
    rw [table_step bound parent] at found
    exact ⟨u, rfl, link_some found⟩

structure Pruned (m n : Machine) (spaces : List Space) (held : Nat → Nat) (sp : Space) (v d : Nat) : Prop where
  sound : Sound n spaces held
  shrink : Shrink m n spaces
  leaf : ∀ b ∈ spaces, ∀ w, b.lo ≤ w → w < b.hi → leaf n.mem b.root w = leaf m.mem b.root w
  others : OtherTables m.mem n.mem spaces sp
  above : ∀ e, e ≤ d → table n.mem sp.root e (v / 512 ^ (4 - e)) = table m.mem sp.root e (v / 512 ^ (4 - e))
  full : FullBut m.mem spaces sp v 3 → FullBut n.mem spaces sp v d

theorem pruned_step {a : Machine} {u : Nat} (pruned : Pruned m a spaces held sp v (d + 1)) (site : PruneSite a spaces sp v d u t)
    (done : pruneEntry a u (v / 512 ^ (3 - d) % 512) = .ok n) : Pruned m n spaces held sp v d := by
  have bound := site.bound
  obtain ⟨sound, shrink, walk, leaves, others⟩ := prune_entry_spec pruned.sound site done
  refine ⟨sound, shrink_trans pruned.sound.toShape pruned.shrink shrink, fun b other w lowW highW => ?_,
    other_tables_trans pruned.others others, fun e limit => ?_, fun full => ?_⟩
  · exact (leaves b other w lowW highW).trans (pruned.leaf b other w lowW highW)
  · rw [walk sp site.member e _ (by omega) (covers_parent_covers (by omega) (covers_page e site.low site.high)), if_neg (by omega)]
    exact pruned.above e (by omega)
  · exact prune_full_but bound (pruned.full full) walk

structure Cut (m n : Machine) (spaces : List Space) (held : Nat → Nat) (sp : Space) (v : Nat) : Prop where
  sound : Sound n spaces held
  shrink : Shrink m n spaces
  full : FullBut m.mem spaces sp v 3 → Full n.mem spaces
  leaf : ∀ b ∈ spaces, ∀ w, b.lo ≤ w → w < b.hi → leaf n.mem b.root w = leaf m.mem b.root w
  others : OtherTables m.mem n.mem spaces sp

theorem pruned_stop (bound : d ≤ 2)
    (pruned : Pruned m n spaces held sp v (d + 1))
    (found : table m.mem sp.root (d + 1) (v / 512 ^ (4 - (d + 1))) = some t) (occupied : ¬ tableEmpty n.mem t = true) :
    Cut m n spaces held sp v := by
  have kept := (pruned.above (d + 1) (by omega)).trans found
  exact ⟨pruned.sound, pruned.shrink, fun full => full_but_above bound
    (full_but_step (pruned.full full) (not_empty_child kept occupied))
    (by rw [kept]; exact Option.some_ne_none _), pruned.leaf, pruned.others⟩

theorem leaf_find_eq (x : Bytes) (root virt : Nat) :
    leafFind x root (alignDown virt) =
      (table x root 3 (pageNumber virt / 512)).map (fun t => (t, pageNumber virt % 512)) := by
  obtain ⟨idx4, idx3, idx2, idx1⟩ := pml_indices virt
  rw [leafFind, idx4, idx3, idx2, idx1]
  generalize pageNumber virt = v at *
  have key3 : v / 512 / 512 / 512 % 512 = v / 512 ^ 3 % 512 := by omega
  have key2 : v / 512 / 512 % 512 = v / 512 ^ 2 % 512 := by omega
  have key1 : v / 512 % 512 = v / 512 ^ 1 % 512 := by omega
  simp only [table, key3, key2, key1]
  generalize v / 512 ^ 3 % 512 = i4, v / 512 ^ 2 % 512 = i3, v / 512 ^ 1 % 512 = i2
  cases tableFind x root i4 with
  | none => rfl
  | some t3 =>
    cases second : tableFind x t3 i3 with
    | none => simp [second]
    | some t2 => cases third : tableFind x t2 i2 <;> simp [second, third]

theorem get_phys_leaf (m : Machine) (pt virt : Nat) :
    getPhys m pt virt = match leaf m.mem pt (pageNumber virt) with
      | none => 0
      | some e => 4096 * frameOf e + virt % 4096 := by
  rw [getPhys, leaf_find_eq, leaf]
  cases table m.mem pt 3 (pageNumber virt / 512) with
  | none => rfl
  | some t =>
    simp only [Option.map_some]
    split
    · simp only [and_frame_mask, frame_of_eq]
    · rfl

theorem get_mapping_flags_leaf (m : Machine) (pt virt : Nat) :
    getMappingFlags m pt virt = match leaf m.mem pt (pageNumber virt) with
      | none => 0
      | some e => e &&& pageFlagsMask := by
  rw [getMappingFlags, leaf_find_eq, leaf]
  cases table m.mem pt 3 (pageNumber virt / 512) with
  | none => rfl
  | some t =>
    simp only [Option.map_some]
    split <;> rfl

theorem clear_full_but (full : Full x spaces)
    (walk : Relinked x y spaces sp 4 v none) : FullBut y spaces sp v 3 := by
  intro b member depth key t low limit covers found
  rw [relinked_node walk member limit covers, if_neg (by omega)] at found
  obtain ⟨i, index, child⟩ := full b member depth key t low limit covers found
  by_cases removed : b = sp ∧ depth + 1 = 4 ∧ 512 * key + i = v
  · obtain ⟨rfl, level, sameKey⟩ := removed
    have deepest : depth = 3 := by omega
    subst deepest
    exact .inr ⟨rfl, by omega, by omega⟩
  refine .inl ⟨i, index, ?_⟩
  rw [walk b member (depth + 1) _ (by omega) (child_parent_covers index covers), if_neg removed]
  exact child

theorem clear_leaf_spec (sound : Sound m spaces held) (member : sp ∈ spaces) (low : sp.lo ≤ v) (high : v < sp.hi)
    (found : table m.mem sp.root 3 (v / 512) = some t) (mapped : leaf m.mem sp.root v = some e)
    (done : releaseFrame (setEntry m t (v % 512) 0) (frameOf e) = .ok n) :
    Sound n spaces held ∧ Shrink m n spaces ∧ LeafSet m.mem n.mem spaces sp v none ∧
      table n.mem sp.root 3 (v / 512) = some t ∧ (Full m.mem spaces → FullBut n.mem spaces sp v 3) := by
  have shape := sound.toShape
  have word : 0 < 2 ^ 64 := by norm_num
  have frame := table_leaf_some mapped
  have positive := refs_pos member low high frame
  have site : LeafSite m.mem spaces sp v t := ⟨shape.distinct, member, low, high, found⟩
  have covers := leaf_site_covers site
  have shapeCut := leaf_write_shape shape site word
  have countsCut : Counts (setEntry m t (v % 512) 0) (refs m.mem spaces)
      (fun p => refs m.mem spaces p + tabs m.mem spaces p + held p) :=
    counts_congr sound.free rfl rfl sound.counts (fun _ _ => ⟨rfl, rfl⟩)
  obtain ⟨shapeN, countsN, released⟩ := release_frame_spec shapeCut countsCut
    (fun inUse last at_ => mapped_not_last sound (by omega) last inUse (leaf_write_any_table site word at_)) done
  have walk := released_walk shapeCut released
  have same : SameWalk m.mem m.mem spaces := fun _ _ _ _ _ _ => rfl
  refine ⟨⟨shapeN, counts_congr shapeN.free rfl rfl countsN (fun p _ => ?_)⟩, ?_, ?_, ?_, fun full => ?_⟩
  · have bound := mapped_le_refs member low high m.mem p
    rw [same_walk_refs walk, same_walk_tabs walk]
    simp only [setEntry]
    rw [rewrite_refs same site word sound.nodup p, rewrite_tabs same site word,
      one_neg (show ¬ linkOf 0 = some p by simp [linkOf, isPresent]), dropAt, frame]
    rw [frame] at bound
    by_cases here : p = frameOf e
    · subst here
      rw [one_pos rfl] at bound ⊢
      rw [update_self, update_self]
      omega
    · rw [one_neg (fun eq => here (Option.some.inj eq).symm), update_of_ne here, update_of_ne here]
      omega
  · refine shrink_trans shapeCut ?_ (shrink_of_released shapeCut released)
    refine ⟨set_entry_pool m t 0, fun p inside => .inl inside, fun p inside => inside, fun p _ => ?_,
      fun p => leaf_write_any_table site word, fun _ some => some, fun _ _ => rfl⟩
    by_cases onTable : p = t
    · exact .inr ⟨sp, member, 3, _, by omega, covers, onTable ▸ found⟩
    · exact .inl (leaf_write_bytes m.mem v t 0 p onTable)
  · have set := leaf_write_leaf site word
    refine ⟨fun b other w lowW highW => ?_, other_tables_trans set.others
      (other_tables_all sp (released_table shapeCut released))⟩
    rw [released_leaf shapeCut released other lowW highW]
    exact set.leaf b other w lowW highW
  · rw [same_walk_covers walk member (by omega) covers]
    exact (relinked_node (leaf_write_walk site word) member (by omega) covers).trans ((if_neg (by omega)).trans found)
  refine clear_full_but full (fun b other d l limit parent => ?_)
  rw [walk b other d l limit parent]
  exact leaf_write_walk site word b other d l limit parent

end Lyr.Mm
