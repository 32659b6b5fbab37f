import Lyr.Mm.PagingGrow

set_option autoImplicit false

namespace Lyr.Mm

open Lyr.Lib Function

-- Freed pages are zeroed, tables are made of free pages, and everything else stays.
structure Effect (m n : Machine) (spaces : List Space) : Prop where
  pool : SamePool m n
  free : ∀ p ∈ n.free, (p ∈ m.free ∧ SameBytes m.mem n.mem p) ∨ ZeroPage n.mem p
  bytes : ∀ p, p ∉ m.free → p ∉ n.free → SameBytes m.mem n.mem p ∨ AnyTable m.mem spaces p
  tables : ∀ p, AnyTable n.mem spaces p → AnyTable m.mem spaces p ∨ p ∈ m.free
  cow : ∀ p, n.used p ≠ none → pageIsCow n p = pageIsCow m p

structure LeafSet (x y : Bytes) (spaces : List Space) (sp : Space) (v : Nat) (value : Option Nat) : Prop where
  leaf : ∀ b ∈ spaces, ∀ w, b.lo ≤ w → w < b.hi → leaf y b.root w = if b = sp ∧ w = v then value else leaf x b.root w
  others : OtherTables x y spaces sp

theorem effect_refl (m : Machine) (spaces : List Space) : Effect m m spaces :=
  ⟨same_pool_refl m, fun p inside => .inl ⟨inside, same_bytes_refl m.mem p⟩, fun p _ _ => .inl (same_bytes_refl m.mem p),
    fun _ at_ => .inl at_, fun _ _ => rfl⟩

theorem page_set_shape {m : Machine} {spaces : List Space} {p : Nat} (use : Use) {old : Use} (held : m.used p = some old)
    (shape : Shape m spaces) : Shape (pageSet m p use) spaces := by
  refine (shape_of_bytes shape (page_set_sound use held shape.free) ?_ ?_ ?_).1
  · intro q some _
    rw [page_set_used]
    split
    · exact Option.some_ne_none _
    · exact some
  · intro q notFree unused
    have different : q ≠ p := by
      rintro rfl
      rw [held] at unused
      cases unused
    exact ⟨by rwa [page_set_used, if_neg different], notFree⟩
  · exact fun t _ => same_bytes_refl m.mem t

theorem scrub_same (x : Bytes) (p q : Nat) (different : q ≠ p) : SameBytes x (scrub x p) q := by
  intro a low high
  exact fill_outside x 0 (by omega)

theorem scrub_zero (x : Bytes) (p : Nat) : ZeroPage (scrub x p) p := by
  intro a low high
  exact fill_inside x 0 low (by omega)

variable {m n a b : Machine} {spaces : List Space} {p v value t : Nat} {old use : Use} {shares counted : Nat → Nat} {sp : Space}
    {y : Bytes} {x : Bytes} {held : Nat → Nat}

theorem push_shape (held : m.used p = some old) (shape : Shape m spaces) (off : ¬ AnyTable m.mem spaces p) :
    Shape (pmmPush m p) spaces := by
  refine (shape_of_bytes shape (push_sound held shape.free) ?_ ?_ ?_).1
  · intro q some at_
    have different : q ≠ p := fun same => off (same ▸ at_)
    simpa only [pmmPush, update_of_ne different] using some
  · intro q notFree unused
    have different : q ≠ p := by
      rintro rfl
      rw [held] at unused
      cases unused
    refine ⟨by simpa only [pmmPush, update_of_ne different] using unused, fun inside => ?_⟩
    rcases List.mem_cons.mp inside with same | later
    · exact different same
    · exact notFree later
  · intro t at_
    exact scrub_same m.mem p t (fun same => off (same ▸ at_))

-- It stays as it is, or it is zeroed and freed.
structure Released (m n : Machine) (spaces : List Space) : Prop where
  pool : SamePool m n
  free : ∀ p ∈ n.free, p ∈ m.free ∨ (¬ AnyTable m.mem spaces p ∧ ZeroPage n.mem p)
  kept : ∀ p ∈ m.free, p ∈ n.free
  bytes : ∀ p, (p ∉ n.free ∨ p ∈ m.free) → SameBytes m.mem n.mem p
  used : ∀ p, n.used p ≠ none → m.used p ≠ none
  cow : ∀ p, n.used p ≠ none → pageIsCow n p = pageIsCow m p

theorem released_refl (m : Machine) (spaces : List Space) : Released m m spaces :=
  ⟨same_pool_refl m, fun _ inside => .inl inside, fun _ inside => inside, fun p _ => same_bytes_refl m.mem p, fun _ some => some,
    fun _ _ => rfl⟩

section

variable (shape : Shape m spaces) (released : Released m n spaces)
include shape released

theorem released_table
    (t : Nat) (at_ : AnyTable m.mem spaces t) : SameBytes m.mem n.mem t := by
  apply released.bytes
  left
  intro inside
  rcases released.free t inside with old | ⟨off, _⟩
  · exact any_table_not_free shape at_ old
  · exact off at_

theorem released_walk : SameWalk m.mem n.mem spaces :=
  same_walk_of_bytes m.mem n.mem spaces (released_table shape released)

theorem released_leaf {b : Space} (member : b ∈ spaces) (low : b.lo ≤ v) (high : v < b.hi) :
    leaf n.mem b.root v = leaf m.mem b.root v := by
  apply leaf_congr _ low high
  intro depth key t bound covers found i index
  exact entry_same_bytes index (released_table shape released t ⟨b, member, depth, key, bound, covers, found⟩)

end

theorem page_set_cow (q : Nat) (held : m.used p = some old) (same : use.cow = old.cow) :
    pageIsCow (pageSet m p use) q = pageIsCow m q := by
  simp only [pageIsCow, page_set_used]
  by_cases here : q = p
  · subst here
    simp [held, same]
  · simp [here]

theorem page_set_released (spaces : List Space) (held : m.used p = some old) (same : use.cow = old.cow) :
    Released m (pageSet m p use) spaces := by
  refine ⟨page_set_pool use held, fun _ inside => .inl inside, fun _ inside => inside, fun q _ => same_bytes_refl m.mem q,
    fun q some => ?_, fun q _ => page_set_cow q held same⟩
  rw [page_set_used] at some
  split at some
  · rename_i here
    rw [here, held]
    exact Option.some_ne_none _
  · exact some

theorem push_released (held : m.used p = some old) (sound : FreeSound m) (off : ¬ AnyTable m.mem spaces p) :
    Released m (pmmPush m p) spaces := by
  refine ⟨push_pool held, fun q inside => ?_, fun q inside => List.mem_cons_of_mem _ inside, fun q apart => ?_, fun q some => ?_,
    fun q some => ?_⟩
  · rcases List.mem_cons.mp inside with rfl | later
    · exact .inr ⟨off, scrub_zero m.mem q⟩
    · exact .inl later
  · apply scrub_same
    rintro rfl
    rcases apart with notFree | free
    · exact notFree (List.mem_cons_self ..)
    have unused := sound.unused q free
    rw [held] at unused
    cases unused
  · by_cases same : q = p
    · rw [same, held]
      exact Option.some_ne_none _
    · simpa only [pmmPush, update_of_ne same] using some
  have different : q ≠ p := by
    rintro rfl
    exact some (update_self ..)
  simp only [pageIsCow, pmmPush, update_of_ne different]

theorem released_trans {c : Machine} (shape : Shape a spaces) (first : Released a b spaces) (second : Released b c spaces) :
    Released a c spaces := by
  have walk := released_walk shape first
  refine ⟨same_pool_trans first.pool second.pool, fun p inside => ?_, fun p inside => second.kept p (first.kept p inside),
    fun p apart => ?_, fun p some => first.used p (second.used p some),
    fun p some => (second.cow p some).trans (first.cow p (second.used p some))⟩
  · rcases second.free p inside with old | ⟨off, zero⟩
    · rcases first.free p old with older | ⟨off, zero⟩
      · exact .inl older
      refine .inr ⟨off, fun at_ low high => ?_⟩
      rw [second.bytes p (.inr old) at_ low high]
      exact zero at_ low high
    · exact .inr ⟨fun at_ => off (same_walk_any_table walk p at_), zero⟩
  rcases apart with notFree | free
  · exact same_bytes_trans (first.bytes p (.inl (fun inside => notFree (second.kept p inside)))) (second.bytes p (.inl notFree))
  · exact same_bytes_trans (first.bytes p (.inr free)) (second.bytes p (.inr (first.kept p free)))

theorem page_unref_released
    (shape : Shape m spaces) (counts : Counts m shares counted) (off : m.used p ≠ none → counted p = 1 → ¬ AnyTable m.mem spaces p)
    (done : pageUnref m p = .ok n) :
    Shape n spaces ∧ Counts n shares (update counted p (counted p - 1)) ∧ Released m n spaces := by
  obtain ⟨left, freed | ⟨_, use, held, rfl⟩⟩ := page_unref_counts counts done
  · obtain ⟨single, _, rfl⟩ := freed
    obtain ⟨use, held, _, _⟩ := page_unref_ok done
    have apart := off (by rw [held]; exact Option.some_ne_none _) single
    exact ⟨push_shape held shape apart, left, push_released held shape.free apart⟩
  · exact ⟨page_set_shape _ held shape, left, page_set_released spaces held rfl⟩

theorem release_frame_spec {f : Nat}
    (shape : Shape m spaces) (counts : Counts m shares counted) (off : m.used f ≠ none → counted f = 1 → ¬ AnyTable m.mem spaces f)
    (done : releaseFrame m f = .ok n) :
    Shape n spaces ∧ Counts n (update shares f (shares f - 1)) (update counted f (counted f - 1)) ∧ Released m n spaces := by
  have frame : 4096 * f / 4096 = f := by omega
  by_cases tracked : f ≤ m.maxPfn
  · rw [releaseFrame, pfndbPhysToPage, frame, if_neg (by omega)] at done
    obtain ⟨mid, unshared, unreffed⟩ := bind_ok.mp done
    have countsMid := page_unshare_counts counts unshared
    obtain ⟨use, held, _, rfl⟩ := page_unshare_ok unshared
    have shapeMid : Shape (pageSet m f { use with sharecount := use.sharecount - 1 }) spaces :=
      page_set_shape _ held shape
    have releasedMid : Released m (pageSet m f { use with sharecount := use.sharecount - 1 }) spaces :=
      page_set_released spaces held rfl
    obtain ⟨shapeN, countsN, releasedN⟩ := page_unref_released shapeMid countsMid
      (fun _ => off (by rw [held]; exact Option.some_ne_none _)) unreffed
    exact ⟨shapeN, countsN, released_trans shape releasedMid releasedN⟩
  rw [releaseFrame, pfndbPhysToPage, frame, if_pos (by omega)] at done
  cases done
  refine ⟨shape, counts_congr shape.free rfl rfl counts (fun p inside => ?_), released_refl m spaces⟩
  have different : p ≠ f := by omega
  rw [update_of_ne different, update_of_ne different]
  exact ⟨rfl, rfl⟩

structure LeafSite (x : Bytes) (spaces : List Space) (sp : Space) (v t : Nat) : Prop where
  distinct : Distinct x spaces
  member : sp ∈ spaces
  low : sp.lo ≤ v
  high : v < sp.hi
  found : table x sp.root 3 (v / 512) = some t

theorem leaf_write_bytes (x : Bytes) (v t value p : Nat) (different : p ≠ t) : SameBytes x (writeEntry x t (v % 512) value) p := by
  have small : v % 512 < 512 := Nat.mod_lt _ (by omega)
  intro a low high
  exact store_outside x value (by omega)

section LeafWrite

variable (site : LeafSite x spaces sp v t)
include site

theorem leaf_site_covers : Covers sp 3 (v / 512) := by
  simpa using covers_page 3 site.low site.high

theorem leaf_write_others : OtherTables x (writeEntry x t (v % 512) value) spaces sp := by
  rintro b other different p ⟨e, l, limit, covers, reached⟩
  apply leaf_write_bytes
  rintro rfl
  exact different (site.distinct b other sp site.member e 3 l _ p limit (by omega) covers
    (leaf_site_covers site) reached site.found).1

variable (word : value < 2 ^ 64)
include word

theorem leaf_write_walk : Relinked x (writeEntry x t (v % 512) value) spaces sp 4 v (linkOf value) := by
  have whole : 512 * (v / 512) + v % 512 = v := by omega
  have result := table_set site.distinct site.member value (by omega) (leaf_site_covers site) site.found
    (Nat.mod_lt v (by omega)) word (by omega) (by omega)
  rwa [whole] at result

theorem leaf_write_leaf : LeafSet x (writeEntry x t (v % 512) value) spaces sp v (if isPresent value then some value else none) := by
  refine ⟨fun b other w lowW highW => ?_, leaf_write_others site⟩
  have covers : Covers b 3 (w / 512) := by simpa using covers_page 3 lowW highW
  have node := relinked_node (leaf_write_walk site word) other (by omega) covers
  rw [if_neg (by omega)] at node
  have small : ∀ k, k % 512 < 512 := fun k => Nat.mod_lt k (by omega)
  simp only [leaf, node]
  by_cases here : b = sp ∧ w = v
  · obtain ⟨rfl, rfl⟩ := here
    rw [if_pos ⟨rfl, rfl⟩, site.found]
    simp only [entry_set x t value t (small w) (small w), and_self, if_true, Nat.mod_eq_of_lt word]
  rw [if_neg here]
  cases reached : table x b.root 3 (w / 512) with
  | none => rfl
  | some u =>
    have apart : ¬ (u = t ∧ w % 512 = v % 512) := by
      rintro ⟨rfl, sameIndex⟩
      obtain ⟨rfl, _, sameKey⟩ := site.distinct b other sp site.member 3 3 _ _ u (by omega) (by omega) covers
        (leaf_site_covers site) reached site.found
      exact here ⟨rfl, by omega⟩
    simp only [entry_set x t value u (small v) (small w), if_neg apart]

theorem leaf_write_any_table (at_ : AnyTable (writeEntry x t (v % 512) value) spaces p) : AnyTable x spaces p :=
  (relinked_any_table (leaf_write_walk site word) at_).resolve_right (by omega)

end LeafWrite

theorem cut_shape {d k i u : Nat} {link : Option Nat} (shape : Shape m spaces)
    (member : sp ∈ spaces) (bound : d ≤ 3) (covers : Covers sp d k) (child : Covers sp (d + 1) (512 * k + i))
    (found : table m.mem sp.root d k = some u) (index : i < 512) (notBoot : (d + 1, 512 * k + i) ∉ sp.boot)
    (cut : link = none ∨ d = 3)
    (walk : Relinked m.mem (writeEntry m.mem u i value) spaces sp (d + 1) (512 * k + i) link) :
    Shape (setEntry m u i value) spaces := by
  have fresh : ∀ p, ¬ (link = some p ∧ d + 1 ≤ 3) := by
    rintro p ⟨linked, deep⟩
    rcases cut with none | leaf
    · exact nomatch none.symm.trans linked
    · omega
  refine ⟨free_sound_congr m _ rfl rfl rfl shape.free, shape.nodup,
    relinked_distinct walk shape.distinct (fun p linked deep => absurd ⟨linked, deep⟩ (fresh p)),
    relinked_boot shape.boot walk notBoot (fun p notFree unused => ⟨unused, notFree⟩)
      (fun b other e l p j limit inside reached small outside => ?_), fun p at_ => ?_⟩
  · -- the anchor of a boot table lies outside the space
    refine (entry_set m.mem u value p index small).trans (if_neg ?_)
    rintro ⟨rfl, rfl⟩
    obtain ⟨rfl, rfl, rfl⟩ := shape.distinct b other sp member e d l k p limit bound inside covers reached found
    exact outside child
  · exact shape.tables p ((relinked_is_table walk at_).resolve_right (fresh p))

theorem leaf_write_shape (shape : Shape m spaces) (site : LeafSite m.mem spaces sp v t)
    (word : value < 2 ^ 64) : Shape (setEntry m t (v % 512) value) spaces := by
  have whole : 512 * (v / 512) + v % 512 = v := by omega
  have walk := leaf_write_walk site word
  have child := covers_leaf sp v site.low site.high
  rw [← whole] at child
  refine cut_shape shape site.member (by omega) (leaf_site_covers site) child site.found (Nat.mod_lt _ (by omega)) ?_ (.inr rfl)
    (by rwa [whole])
  intro listed
  obtain ⟨_, limit, _⟩ := shape.boot sp site.member _ _ listed
  omega

theorem leaf_entry_of_table {root : Nat} (found : table x root 3 (v / 512) = some t) :
    leaf x root v = if isPresent (entry x t (v % 512)) then some (entry x t (v % 512)) else none := by
  simp only [leaf, found]

theorem table_leaf_some {x : Bytes} {root v e : Nat} (mapped : leaf x root v = some e) : table x root 4 v = some (frameOf e) := by
  rw [table_four, mapped, Option.map_some]

theorem table_leaf_none {x : Bytes} {root v : Nat} (unmapped : leaf x root v = none) : table x root 4 v = none := by
  rw [table_four, unmapped, Option.map_none]

def dropAt (x : Bytes) (root v : Nat) (counted : Nat → Nat) (p : Nat) : Nat := counted p - one (table x root 4 v = some p)

theorem mapped_not_last (sound : Sound m spaces held)
    (counted : 0 < refs m.mem spaces p + held p) (last : refs m.mem spaces p + tabs m.mem spaces p + held p = 1)
    (inUse : m.used p ≠ none) : ¬ AnyTable m.mem spaces p := by
  rintro ⟨b, other, e, l, limit, covers, found⟩
  by_cases boot : (e, l) ∈ b.boot
  · obtain ⟨_, _, _, u, reached, unused, _⟩ := sound.boot b other e l boot
    exact inUse (Option.some.inj (reached.symm.trans found) ▸ unused)
  · have own := tabs_pos ⟨b, other, e, l, limit, covers, boot, found⟩
    omega

section

variable (member : sp ∈ spaces) (low : sp.lo ≤ v) (high : v < sp.hi)
include member low high

theorem drop_leaf_spec (sound : Sound m spaces held)
    (found : table m.mem sp.root 3 (v / 512) = some t)
    (done : releaseEntry m (entry m.mem t (v % 512)) = .ok n) :
    Shape n spaces ∧ Released m n spaces ∧ Counts n (dropAt m.mem sp.root v (refs m.mem spaces))
      (dropAt m.mem sp.root v (fun p => refs m.mem spaces p + tabs m.mem spaces p + held p)) ∧
        (leaf m.mem sp.root v = none → n = m) := by
  have shapeOf := leaf_entry_of_table found
  rw [releaseEntry] at done
  by_cases present : isPresent (entry m.mem t (v % 512)) = true
  · rw [if_pos present] at done shapeOf
    have mapped := table_leaf_some shapeOf
    have positive := refs_pos member low high mapped
    generalize frameOf (entry m.mem t (v % 512)) = f at *
    obtain ⟨shape, counts, released⟩ := release_frame_spec sound.toShape sound.counts
      (fun inUse last => mapped_not_last sound (by omega) last inUse) done
    refine ⟨shape, released, ?_, fun absent => nomatch shapeOf.symm.trans absent⟩
    have drop : ∀ counted : Nat → Nat, dropAt m.mem sp.root v counted = update counted f (counted f - 1) := by
      intro counted
      funext p
      by_cases same : p = f
      · subst same
        rw [dropAt, mapped, one_pos rfl, update_self]
      · rw [dropAt, mapped, one_neg (fun eq => same (Option.some.inj eq).symm), update_of_ne same, Nat.sub_zero]
    rw [drop, drop]
    exact counts
  rw [if_neg present] at done shapeOf
  cases done
  have unmapped := table_leaf_none shapeOf
  refine ⟨sound.toShape, released_refl m spaces, counts_congr sound.free rfl rfl sound.counts (fun p _ => ?_), fun _ => rfl⟩
  simp [dropAt, unmapped, one]

theorem mapped_le_refs (x : Bytes) (p : Nat) :
    one (table x sp.root 4 v = some p) ≤ refs x spaces p := by
  by_cases mapped : table x sp.root 4 v = some p
  · rw [one_pos mapped]
    exact refs_pos member low high mapped
  · rw [one_neg mapped]
    exact Nat.zero_le _

end

section

variable (walk : SameWalk x y spaces) (site : LeafSite y spaces sp v t) (word : value < 2 ^ 64)
include walk site word

theorem rewrite_walk : Relinked x (writeEntry y t (v % 512) value) spaces sp 4 v (linkOf value) := by
  intro b other e l limit parent
  rw [leaf_write_walk site word b other e l limit parent, walk b other e l limit parent]

theorem rewrite_refs (nodup : spaces.Nodup) (p : Nat) :
    refs (writeEntry y t (v % 512) value) spaces p = dropAt x sp.root v (refs x spaces) p + one (linkOf value = some p) := by
  have write := rewrite_walk walk site word
  have own := write sp site.member 4 v (by omega) (@covers_parent_covers sp 4 v (by omega) (covers_leaf sp v site.low site.high))
  have moved := refs_update x (writeEntry y t (v % 512) value) spaces nodup sp site.member v site.low site.high ?_ p
  · rw [own, if_pos ⟨rfl, rfl, rfl⟩] at moved
    have bound := mapped_le_refs site.member site.low site.high x p
    rw [dropAt]
    omega
  intro b other w lowW highW apart
  rw [write b other 4 w (by omega) (covers_parent_covers (by omega) (covers_leaf b w lowW highW)), if_neg]
  exact fun all => apart ⟨all.1, all.2.2⟩

theorem rewrite_tabs : tabs (writeEntry y t (v % 512) value) spaces = tabs x spaces := by
  have write := rewrite_walk walk site word
  funext p
  exact tabs_iff ⟨fun at_ => (relinked_is_table write at_).resolve_right (by omega),
    fun at_ => (relinked_was_table write at_).resolve_right (by omega)⟩

end

theorem rewrite_leaf (shape : Shape m spaces) (released : Released m n spaces) (site : LeafSite n.mem spaces sp v t)
    (word : value < 2 ^ 64) :
    LeafSet m.mem (writeEntry n.mem t (v % 512) value) spaces sp v (if isPresent value then some value else none) := by
  have set := leaf_write_leaf site word
  refine ⟨fun b other w lowW highW => ?_, ?_⟩
  · rw [set.leaf b other w lowW highW, released_leaf shape released other lowW highW]
  · exact other_tables_trans (other_tables_all sp (released_table shape released)) set.others

theorem leaf_set_grow {value : Option Nat}
    (grow : Grow m n spaces sp v) (set : LeafSet n.mem y spaces sp v value) : LeafSet m.mem y spaces sp v value := by
  refine ⟨fun b other w low high => ?_, other_tables_trans grow.others set.others⟩
  rw [set.leaf b other w low high, grow.leaf b other w low high]

theorem effect_of_grow (shapeA : Shape a spaces)
    (grow : Grow m a spaces sp v) (released : Released a b spaces) (shapeB : Shape b spaces) (site : LeafSite b.mem spaces sp v t)
    (word : value < 2 ^ 64)
    (mem : n.mem = writeEntry b.mem t (v % 512) value) (list : n.free = b.free) (pool : SamePool b n)
    (used : ∀ p, n.used p ≠ none → b.used p ≠ none) (cow : ∀ p, pageIsCow n p = pageIsCow b p) : Effect m n spaces := by
  have walk := released_walk shapeA released
  have own : AnyTable b.mem spaces t := ⟨sp, site.member, 3, _, by omega, leaf_site_covers site, site.found⟩
  have back : ∀ p, AnyTable b.mem spaces p → AnyTable m.mem spaces p ∨ p ∈ m.free := by
    intro p at_
    exact grow.tables p (same_walk_any_table (same_walk_symm walk) p at_)
  have freeBytes : ∀ p ∈ b.free, SameBytes b.mem n.mem p := by
    intro p inside
    rw [mem]
    apply leaf_write_bytes
    rintro rfl
    exact any_table_not_free shapeB own inside
  refine ⟨same_pool_trans (same_pool_trans grow.pool released.pool) pool, fun p inside => ?_, fun p notM notN => ?_,
    fun p at_ => ?_, fun p some => ?_⟩
  · rw [list] at inside
    rcases released.free p inside with old | ⟨_, zero⟩
    · have sameA : SameBytes m.mem a.mem p := by
        rcases grow.bytes p with same | at_
        · exact same
        · exact absurd old (any_table_not_free shapeA at_)
      exact .inl ⟨grow.free p old, same_bytes_trans (same_bytes_trans sameA (released.bytes p (.inr old))) (freeBytes p inside)⟩
    refine .inr (fun q lowQ highQ => ?_)
    rw [freeBytes p inside q lowQ highQ]
    exact zero q lowQ highQ
  · rw [list] at notN
    rcases grow.bytes p with same | at_
    · by_cases onTable : p = t
      · rcases back p (onTable ▸ own) with table | free
        · exact .inr table
        · exact absurd free notM
      left
      rw [mem]
      exact same_bytes_trans (same_bytes_trans same (released.bytes p (.inl notN))) (leaf_write_bytes b.mem v t value p onTable)
    rcases grow.tables p at_ with table | free
    · exact .inr table
    · exact absurd free notM
  · rw [mem] at at_
    exact back p (leaf_write_any_table site word at_)
  · exact (cow p).trans ((released.cow p (used p some)).trans (grow.cow p))

end Lyr.Mm
