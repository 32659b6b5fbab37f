import Lyr.Mm.PagingMap

set_option autoImplicit false

namespace Lyr.Mm

open Lyr.Lib Function

structure Shrink (m n : Machine) (spaces : List Space) : Prop where
  pool : SamePool m n
  free : ∀ p ∈ n.free, p ∈ m.free ∨ ZeroPage n.mem p
  kept : ∀ p ∈ m.free, p ∈ n.free
  bytes : ∀ p, (p ∉ n.free ∨ p ∈ m.free) → SameBytes m.mem n.mem p ∨ AnyTable m.mem spaces p
  tables : ∀ p, AnyTable n.mem spaces p → AnyTable m.mem spaces p
  used : ∀ p, n.used p ≠ none → m.used p ≠ none
  cow : ∀ p, n.used p ≠ none → pageIsCow n p = pageIsCow m p

theorem shrink_refl (m : Machine) (spaces : List Space) : Shrink m m spaces :=
  ⟨same_pool_refl m, fun _ inside => .inl inside, fun _ inside => inside, fun p _ => .inl (same_bytes_refl m.mem p),
    fun _ at_ => at_, fun _ some => some, fun _ _ => rfl⟩

variable {spaces : List Space} {m n : Machine} {x : Bytes} {i : Nat} {b : Space}

theorem shrink_trans {a b c : Machine} (shape : Shape b spaces) (first : Shrink a b spaces) (second : Shrink b c spaces) :
    Shrink a c spaces := by
  refine ⟨same_pool_trans first.pool second.pool, fun p inside => ?_, fun p inside => second.kept p (first.kept p inside),
    fun p apart => ?_, fun p at_ => first.tables p (second.tables p at_), fun p some => first.used p (second.used p some),
    fun p some => (second.cow p some).trans (first.cow p (second.used p some))⟩
  · rcases second.free p inside with old | zero
    · rcases first.free p old with older | zero
      · exact .inl older
      rcases second.bytes p (.inr old) with same | at_
      · exact .inr (fun q low high => (same q low high).trans (zero q low high))
      · exact absurd old (any_table_not_free shape at_)
    · exact .inr zero
  have apartFirst : p ∉ b.free ∨ p ∈ a.free := apart.imp_left (fun notFree inside => notFree (second.kept p inside))
  have apartSecond : p ∉ c.free ∨ p ∈ b.free := apart.imp_right (fun free => first.kept p free)
  rcases first.bytes p apartFirst with sameB | at_
  · rcases second.bytes p apartSecond with sameC | at_
    · exact .inl (same_bytes_trans sameB sameC)
    · exact .inr (first.tables p at_)
  · exact .inr at_

theorem shrink_of_released (shape : Shape m spaces) (released : Released m n spaces) : Shrink m n spaces := by
  have walk := released_walk shape released
  exact ⟨released.pool, fun p inside => (released.free p inside).imp_right And.right, released.kept,
    fun p apart => .inl (released.bytes p apart),
    fun p => same_walk_any_table (same_walk_symm walk) p, released.used, released.cow⟩

theorem effect_of_shrink (shape : Shape m spaces) (shrink : Shrink m n spaces) : Effect m n spaces := by
  refine ⟨shrink.pool, fun p inside => ?_, fun p _ notN => shrink.bytes p (.inl notN), fun p at_ => .inl (shrink.tables p at_),
    shrink.cow⟩
  rcases shrink.free p inside with old | zero
  · rcases shrink.bytes p (.inr old) with same | at_
    · exact .inl ⟨old, same⟩
    · exact absurd old (any_table_not_free shape at_)
  · exact .inr zero

structure PruneSite (m : Machine) (spaces : List Space) (sp : Space) (v depth u t : Nat) : Prop where
  member : sp ∈ spaces
  low : sp.lo ≤ v
  high : v < sp.hi
  bound : depth ≤ 2
  parent : table m.mem sp.root depth (v / 512 ^ (4 - depth)) = some u
  found : table m.mem sp.root (depth + 1) (v / 512 ^ (4 - (depth + 1))) = some t
  empty : tableEmpty m.mem t = true

theorem table_empty_entry {t : Nat} (empty : tableEmpty x t = true) (index : i < 512) : isPresent (entry x t i) = false := by
  have all := List.all_eq_true.mp empty i (List.mem_range.mpr index)
  simpa using all

section Prune

variable {m : Machine} {spaces : List Space} {sp : Space} {v depth u t : Nat}

abbrev PruneSite.mem (_ : PruneSite m spaces sp v depth u t) : Bytes := writeEntry m.mem u (v / 512 ^ (3 - depth) % 512) 0

section

variable (shape : Shape m spaces) (site : PruneSite m spaces sp v depth u t)
include shape site

theorem prune_walk : Relinked m.mem site.mem spaces sp (depth + 1) (v / 512 ^ (4 - (depth + 1))) none := by
  have bound := site.bound
  have bare : depth + 1 ≤ 3 → ∀ j, j < 512 → table m.mem sp.root (depth + 2)
      (512 * (512 * (v / 512 ^ (4 - depth)) + v / 512 ^ (3 - depth) % 512) + j) = none := by
    intro _ j small
    rw [← path_key v (by omega)]
    have quotient : (512 * (v / 512 ^ (4 - (depth + 1))) + j) / 512 = v / 512 ^ (4 - (depth + 1)) := by omega
    have remainder : (512 * (v / 512 ^ (4 - (depth + 1))) + j) % 512 = j := by omega
    have absent := table_empty_entry site.empty small
    rw [show depth + 2 = depth + 1 + 1 from rfl, table, quotient, site.found, remainder]
    simp [tableFind, absent]
  rw [path_key v (by omega)]
  exact table_set shape.distinct site.member 0 (by omega) (covers_page depth site.low site.high) site.parent (path_index_lt v depth)
    (by norm_num) bare
    (by rintro _ _ ⟨⟩)

theorem prune_not_boot : (depth + 1, v / 512 ^ (4 - (depth + 1))) ∉ sp.boot := by
  intro listed
  obtain ⟨_, _, _, p, reached, _, _, i, small, present, _⟩ := shape.boot sp site.member _ _ listed
  have same : p = t := Option.some.inj (reached.symm.trans site.found)
  rw [same, table_empty_entry site.empty small] at present
  cases present

theorem prune_apart : u ≠ t := by
  have bound := site.bound
  rintro rfl
  obtain ⟨_, depths, _⟩ := shape.distinct sp site.member sp site.member depth (depth + 1) _ _ u (by omega) (by omega)
    (covers_page depth site.low site.high) (covers_page (depth + 1) site.low site.high) site.parent site.found
  omega

theorem cut_site_shape :
    Shape (setEntry m u (v / 512 ^ (3 - depth) % 512) 0) spaces := by
  have bound := site.bound
  have walk := prune_walk shape site
  have notBoot := prune_not_boot shape site
  have child := covers_page (depth + 1) site.low site.high
  rw [path_key v (by omega)] at walk notBoot child
  exact cut_shape shape site.member (by omega) (covers_page depth site.low site.high) child site.parent
    (path_index_lt v depth) notBoot (.inl rfl) walk

theorem cut_off :
    ¬ AnyTable site.mem spaces t := by
  have bound := site.bound
  rintro ⟨b, other, e, l, limit, covers, found⟩
  rw [relinked_node (prune_walk shape site) other limit covers] at found
  split at found
  · cases found
  rename_i apart
  exact apart (shape.distinct b other sp site.member e (depth + 1) l _ t limit (by omega) covers
    (covers_page (depth + 1) site.low site.high) found site.found)

theorem cut_any_table (p : Nat)
    (at_ : AnyTable site.mem spaces p) : AnyTable m.mem spaces p :=
  (relinked_any_table (prune_walk shape site) at_).resolve_right (fun new => nomatch new.1)

theorem cut_tabs (p : Nat) :
    tabs site.mem spaces p + one (p = t) = tabs m.mem spaces p := by
  have bound := site.bound
  by_cases same : p = t
  · subst same
    have own : IsTable m.mem spaces p := ⟨sp, site.member, depth + 1, _, by omega,
      covers_page (depth + 1) site.low site.high, prune_not_boot shape site, site.found⟩
    rw [tabs_pos own, one_pos rfl, tabs_zero]
    exact fun at_ => cut_off shape site (is_table_any at_)
  have walk := prune_walk shape site
  rw [one_neg same, Nat.add_zero]
  exact tabs_iff ⟨fun at_ => (relinked_is_table walk at_).resolve_right (fun new => nomatch new.1), fun at_ =>
    (relinked_was_table walk at_).resolve_right (fun old => same (Option.some.inj (old.1.symm.trans site.found)))⟩

theorem cut_leaf (other : b ∈ spaces)
    {w : Nat} (low : b.lo ≤ w) (high : w < b.hi) :
    leaf site.mem b.root w = leaf m.mem b.root w := by
  have bound := site.bound
  refine relinked_leaf (prune_walk shape site) other low high (fun c found j small => ?_) nofun
    (fun c covers found => ?_)
  · rw [site.found] at found
    exact Option.some.inj found ▸ table_empty_entry site.empty small
  rw [entry_set m.mem u 0 c (Nat.mod_lt _ (by omega)) (Nat.mod_lt _ (by omega)), if_neg]
  rintro ⟨rfl, _⟩
  obtain ⟨_, depths, _⟩ := shape.distinct b other sp site.member 3 depth _ _ c (by omega) (by omega) covers
    (covers_page depth site.low site.high) found site.parent
  omega

end

theorem write_scrub (x : Bytes) (value : Nat) (different : u ≠ t) (index : i < 512) :
    writeEntry (scrub x t) u i value = scrub (writeEntry x u i value) t := by
  funext a
  by_cases inside : 4096 * t ≤ a ∧ a < 4096 * t + 4096
  · rw [writeEntry, store_outside _ _ (by omega), scrub, scrub, fill_inside _ _ inside.1 inside.2, fill_inside _ _ inside.1 inside.2]
  · have outer : ∀ y : Bytes, scrub y t a = y a := fun y => fill_outside y 0 (by omega)
    simp only [outer, writeEntry, store]

theorem free_pt_ok (done : freePt m t = .ok n) : pageUnref m t = .ok n := by
  have frame : 4096 * t / 4096 = t := by omega
  by_cases tracked : t > m.maxPfn
  · simp [freePt, pfndbPhysToPage, tracked] at done
  · simpa only [freePt, pfndbPhysToPage, frame, if_neg tracked] using done

theorem unref_set (value : Nat) (different : u ≠ t) (index : i < 512) (done : pageUnref m t = .ok n) :
    pageUnref (setEntry m u i value) t = .ok (setEntry n u i value) := by
  obtain ⟨use, inUse, nonzero, outcome⟩ := page_unref_ok done
  have valid : pageValidateUsed (setEntry m u i value) t = .ok use := by
    simp [pageValidateUsed, setEntry, inUse, nonzero]
  rcases outcome with ⟨last, unshared, rfl⟩ | ⟨more, rfl⟩
  · simp only [pageUnref, valid, bind, Except.bind, last, unshared]
    simp [pmmPush, setEntry, write_scrub m.mem value different index]
  have several : ¬ use.refcount - 1 = 0 := by omega
  simp only [pageUnref, valid, bind, Except.bind, if_neg several]
  rfl

theorem prune_entry_spec {held : Nat → Nat} (sound : Sound m spaces held)
    (site : PruneSite m spaces sp v depth u t) (done : pruneEntry m u (v / 512 ^ (3 - depth) % 512) = .ok n) :
    Sound n spaces held ∧ Shrink m n spaces ∧ Relinked m.mem n.mem spaces sp (depth + 1) (v / 512 ^ (4 - (depth + 1))) none ∧
      (∀ b ∈ spaces, ∀ w, b.lo ≤ w → w < b.hi → leaf n.mem b.root w = leaf m.mem b.root w) ∧
      OtherTables m.mem n.mem spaces sp := by
  have bound := site.bound
  have index := path_index_lt v depth
  have link := table_step (by omega) site.parent
  rw [site.found, linkOf] at link
  split at link
  · obtain ⟨a, freed, done⟩ := bind_ok.mp done
    rw [← Option.some.inj link] at freed
    cases done
    have shape := sound.toShape
    have swapped := unref_set 0 (prune_apart shape site) index (free_pt_ok freed)
    have shapeCut := cut_site_shape shape site
    have off := cut_off shape site
    have counts : Counts (setEntry m u (v / 512 ^ (3 - depth) % 512) 0) (refs m.mem spaces)
        (fun p => refs m.mem spaces p + tabs m.mem spaces p + held p) :=
      counts_congr sound.free rfl rfl sound.counts (fun _ _ => ⟨rfl, rfl⟩)
    obtain ⟨shapeN, countsN, released⟩ := page_unref_released shapeCut counts (fun _ _ => off) swapped
    have walk := released_walk shapeCut released
    refine ⟨⟨shapeN, counts_congr shapeN.free rfl rfl countsN (fun p _ => ?_)⟩, ?_, ?_, ?_, ?_⟩
    · rw [same_walk_refs walk, same_walk_tabs walk]
      have fewer := cut_tabs shape site
      dsimp only [PruneSite.mem] at fewer
      simp only [setEntry, relinked_refs (prune_walk shape site) (by omega)]
      refine ⟨trivial, ?_⟩
      by_cases same : p = t
      · subst same
        have own := fewer p
        rw [one_pos rfl] at own
        rw [update_self]
        omega
      have own := fewer p
      rw [one_neg same] at own
      rw [update_of_ne same]
      omega
    · refine shrink_trans shapeCut ?_ (shrink_of_released shapeCut released)
      refine ⟨set_entry_pool m u 0, fun p inside => .inl inside, fun p inside => inside, fun p _ => ?_,
        cut_any_table shape site, fun _ some => some, fun _ _ => rfl⟩
      by_cases onTable : p = u
      · exact .inr ⟨sp, site.member, depth, _, by omega, covers_page depth site.low site.high, onTable ▸ site.parent⟩
      · refine .inl (fun q low high => ?_)
        exact store_outside m.mem 0 (by omega)
    · intro b other e l limit parent
      rw [walk b other e l limit parent]
      exact prune_walk shape site b other e l limit parent
    · intro b other w low high
      rw [released_leaf shapeCut released other low high]
      exact cut_leaf shape site other low high
    refine other_tables_trans ?_ (other_tables_all sp (released_table shapeCut released))
    rintro b other different p ⟨e, l, limit, covers, reached⟩ a low high
    have apart : p ≠ u := by
      rintro rfl
      exact different (shape.distinct b other sp site.member e depth l _ p limit (by omega) covers
        (covers_page depth site.low site.high) reached site.parent).1
    exact store_outside m.mem 0 (by omega)
  · cases link

end Prune

end Lyr.Mm
