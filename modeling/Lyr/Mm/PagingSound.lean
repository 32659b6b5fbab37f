import Lyr.Mm.PagingTree

set_option autoImplicit false

namespace Lyr.Mm

open Lyr.Lib

def mapCount (x : Bytes) (sp : Space) (p : Nat) : Nat := hits (Finset.Ico sp.lo sp.hi) (fun v => table x sp.root 4 v) (some p)

def refs (x : Bytes) (spaces : List Space) (p : Nat) : Nat := (spaces.map (fun sp => mapCount x sp p)).sum

def AnyTable (x : Bytes) (spaces : List Space) (p : Nat) : Prop :=
  ∃ sp ∈ spaces, ∃ depth key, depth ≤ 3 ∧ Covers sp depth key ∧ table x sp.root depth key = some p

def IsTable (x : Bytes) (spaces : List Space) (p : Nat) : Prop :=
  ∃ sp ∈ spaces, ∃ depth key, depth ≤ 3 ∧ Covers sp depth key ∧ (depth, key) ∉ sp.boot ∧ table x sp.root depth key = some p

open Classical in
noncomputable def tabs (x : Bytes) (spaces : List Space) (p : Nat) : Nat := one (IsTable x spaces p)

-- An entry outside the space keeps a boot table from being empty.
def BootKept (m : Machine) (spaces : List Space) : Prop := ∀ sp ∈ spaces, ∀ depth key, (depth, key) ∈ sp.boot →
    1 ≤ depth ∧ depth ≤ 3 ∧ Covers sp depth key ∧ ∃ t, table m.mem sp.root depth key = some t ∧ m.used t = none ∧ t ∉ m.free ∧
      ∃ i, i < 512 ∧ isPresent (entry m.mem t i) = true ∧ ¬ Covers sp (depth + 1) (512 * key + i)

structure Shape (m : Machine) (spaces : List Space) : Prop where
  free : FreeSound m
  nodup : spaces.Nodup
  distinct : Distinct m.mem spaces
  boot : BootKept m spaces
  tables : ∀ p, IsTable m.mem spaces p → m.used p ≠ none

-- held p counts the references of neither an entry nor a table.
structure Sound (m : Machine) (spaces : List Space) (held : Nat → Nat) : Prop extends Shape m spaces where
  counts : Counts m (refs m.mem spaces) (fun p => refs m.mem spaces p + tabs m.mem spaces p + held p)

def holding (held : Nat → Nat) (q : Nat) : Nat → Nat := fun p => held p + one (p = q)

theorem holding_self (held : Nat → Nat) (q : Nat) : holding held q q = held q + 1 := by
  rw [holding, one_pos rfl]

variable {p depth key i : Nat} {x y z : Bytes} {m n : Machine} {spaces : List Space} {sp : Space}

theorem holding_other (held : Nat → Nat) {q : Nat} (different : p ≠ q) : holding held q p = held p := by
  rw [holding, one_neg different, Nat.add_zero]

theorem le_holding (held : Nat → Nat) (q p : Nat) : held p ≤ holding held q p := Nat.le_add_right _ _

def Full (x : Bytes) (spaces : List Space) : Prop :=
  ∀ sp ∈ spaces, ∀ depth key t, 1 ≤ depth → depth ≤ 3 → Covers sp depth key → table x sp.root depth key = some t →
    ∃ i, i < 512 ∧ table x sp.root (depth + 1) (512 * key + i) ≠ none

def SameBytes (x y : Bytes) (p : Nat) : Prop := ∀ a, 4096 * p ≤ a → a < 4096 * p + 4096 → y a = x a

def ZeroPage (x : Bytes) (p : Nat) : Prop := ∀ a, 4096 * p ≤ a → a < 4096 * p + 4096 → x a = 0

theorem same_bytes_refl (x : Bytes) (p : Nat) : SameBytes x x p := fun _ _ _ => rfl

theorem same_bytes_trans (first : SameBytes x y p) (second : SameBytes y z p) :
    SameBytes x z p := fun a low high => (second a low high).trans (first a low high)

theorem any_table_cases (sound : Shape m spaces) (at_ : AnyTable m.mem spaces p) :
    m.used p ≠ none ∨ (m.used p = none ∧ p ∉ m.free) := by
  obtain ⟨sp, member, depth, key, bound, covers, found⟩ := at_
  by_cases boot : (depth, key) ∈ sp.boot
  · obtain ⟨_, _, _, t, reached, unused, notFree, _⟩ := sound.boot sp member depth key boot
    have same : t = p := Option.some.inj (reached.symm.trans found)
    subst same
    exact .inr ⟨unused, notFree⟩
  · exact .inl (sound.tables p ⟨sp, member, depth, key, bound, covers, boot, found⟩)

theorem any_table_not_free (sound : Shape m spaces) (at_ : AnyTable m.mem spaces p) : p ∉ m.free := by
  intro free
  rcases any_table_cases sound at_ with used | ⟨_, notFree⟩
  · exact used (sound.free.unused p free)
  · exact notFree free

theorem counts_congr {m n : Machine} {shares refs shares' refs' : Nat → Nat} (free : FreeSound m) (used : n.used = m.used)
    (size : n.maxPfn = m.maxPfn) (counts : Counts m shares refs)
    (same : ∀ p, p ≤ m.maxPfn → shares' p = shares p ∧ refs' p = refs p) : Counts n shares' refs' := by
  refine ⟨fun p use held => ?_, fun p inside unused => ?_⟩
  · rw [used] at held
    obtain ⟨sameShares, sameRefs⟩ := same p (free.usedTracked p use held).1
    rw [sameShares, sameRefs]
    exact counts.used p use held
  rw [size] at inside
  rw [used] at unused
  obtain ⟨sameShares, sameRefs⟩ := same p inside
  rw [sameShares, sameRefs]
  exact counts.unused p inside unused

theorem free_sound_congr (m n : Machine) (list : n.free = m.free) (used : n.used = m.used) (size : n.maxPfn = m.maxPfn)
    (sound : FreeSound m) : FreeSound n := by
  refine ⟨⟨by rw [list]; exact sound.nodup, ?_, ?_, ?_⟩, by rw [size]; exact sound.physical⟩
  · rw [list, size]
    exact sound.tracked
  · rw [list, used]
    exact sound.unused
  · rw [used, size]
    exact sound.usedTracked

theorem map_count_congr (p : Nat) (same : ∀ v, sp.lo ≤ v → v < sp.hi → table y sp.root 4 v = table x sp.root 4 v) :
    mapCount y sp p = mapCount x sp p := by
  apply hits_congr
  intro v inside
  obtain ⟨low, high⟩ := Finset.mem_Ico.mp inside
  exact same v low high

theorem refs_congr (x y : Bytes) (spaces : List Space)
    (same : ∀ sp ∈ spaces, ∀ v, sp.lo ≤ v → v < sp.hi → table y sp.root 4 v = table x sp.root 4 v) :
    refs y spaces = refs x spaces := by
  funext p
  exact congrArg List.sum (List.map_congr_left (fun sp member => map_count_congr p (same sp member)))

theorem refs_update (x y : Bytes) (spaces : List Space) (nodup : spaces.Nodup) (sp : Space) (member : sp ∈ spaces)
    (v : Nat) (low : sp.lo ≤ v) (high : v < sp.hi)
    (same : ∀ b ∈ spaces, ∀ w, b.lo ≤ w → w < b.hi → ¬ (b = sp ∧ w = v) → table y b.root 4 w = table x b.root 4 w)
    (p : Nat) : refs y spaces p + one (table x sp.root 4 v = some p) = refs x spaces p + one (table y sp.root 4 v = some p) := by
  have own : mapCount y sp p + one (table x sp.root 4 v = some p) = mapCount x sp p + one (table y sp.root 4 v = some p) := by
    apply hits_update (Finset.mem_Ico.mpr ⟨low, high⟩)
    intro w inside different
    obtain ⟨lowW, highW⟩ := Finset.mem_Ico.mp inside
    exact same sp member w lowW highW (fun both => different both.2)
  have total := sum_update nodup member (fun b inside different =>
    map_count_congr p (fun w lowW highW => same b inside w lowW highW (fun both => different both.1)))
  simp only [refs]
  omega

theorem refs_pos (member : sp ∈ spaces) {v p : Nat}
    (low : sp.lo ≤ v) (high : v < sp.hi) (mapped : table x sp.root 4 v = some p) : 0 < refs x spaces p := by
  have own : 0 < mapCount x sp p := hits_pos (Finset.mem_Ico.mpr ⟨low, high⟩) mapped
  have bound := sum_member_le (fun b => mapCount x b p) member
  simp only [refs]
  omega

theorem tabs_pos (at_ : IsTable x spaces p) : tabs x spaces p = 1 :=
  if_pos at_

theorem tabs_zero (off : ¬ IsTable x spaces p) : tabs x spaces p = 0 :=
  if_neg off

theorem is_table_any (at_ : IsTable x spaces p) : AnyTable x spaces p := by
  obtain ⟨sp, member, depth, key, bound, covers, _, found⟩ := at_
  exact ⟨sp, member, depth, key, bound, covers, found⟩

theorem tabs_iff {other : List Space} (same : IsTable y other p ↔ IsTable x spaces p) : tabs y other p = tabs x spaces p := by
  by_cases at_ : IsTable x spaces p
  · rw [tabs_pos at_, tabs_pos (same.mpr at_)]
  · rw [tabs_zero at_, tabs_zero (fun h => at_ (same.mp h))]

-- At every node whose parent is on the way to a page of a space.
def SameWalk (x y : Bytes) (spaces : List Space) : Prop :=
  ∀ b ∈ spaces, ∀ depth key, depth ≤ 4 → ParentCovers b depth key → table y b.root depth key = table x b.root depth key

theorem same_walk_covers {x y : Bytes} {spaces : List Space} (walk : SameWalk x y spaces) {b : Space} (member : b ∈ spaces)
    {depth key : Nat} (bound : depth ≤ 4) (covers : Covers b depth key) : table y b.root depth key = table x b.root depth key :=
  walk b member depth key bound (covers_parent_covers bound covers)

theorem covers_leaf (sp : Space) (v : Nat) (low : sp.lo ≤ v) (high : v < sp.hi) : Covers sp 4 v := by
  simpa using covers_page 4 low high

section

variable (walk : SameWalk x y spaces)
include walk

theorem same_walk_refs : refs y spaces = refs x spaces := by
  apply refs_congr
  intro sp member v low high
  exact same_walk_covers walk member (by omega) (covers_leaf sp v low high)

theorem same_walk_symm : SameWalk y x spaces :=
  fun b member depth key bound covers => (walk b member depth key bound covers).symm

theorem same_walk_any_table (p : Nat)
    (at_ : AnyTable x spaces p) : AnyTable y spaces p := by
  obtain ⟨sp, member, depth, key, bound, covers, found⟩ := at_
  exact ⟨sp, member, depth, key, bound, covers, (same_walk_covers walk member (by omega) covers).trans found⟩

theorem same_walk_is_table (at_ : IsTable x spaces p) : IsTable y spaces p := by
  obtain ⟨sp, member, depth, key, bound, covers, boot, found⟩ := at_
  exact ⟨sp, member, depth, key, bound, covers, boot, (same_walk_covers walk member (by omega) covers).trans found⟩

theorem same_walk_tabs : tabs y spaces = tabs x spaces := by
  funext p
  exact tabs_iff ⟨same_walk_is_table (same_walk_symm walk), same_walk_is_table walk⟩

theorem same_walk_distinct (distinct : Distinct x spaces) : Distinct y spaces := by
  intro a inA b inB d e k l t boundD boundE coversA coversB foundA foundB
  rw [same_walk_covers walk inA (by omega) coversA] at foundA
  rw [same_walk_covers walk inB (by omega) coversB] at foundB
  exact distinct a inA b inB d e k l t boundD boundE coversA coversB foundA foundB

end

theorem child_parent_covers (index : i < 512) (covers : Covers sp depth key) : ParentCovers sp (depth + 1) (512 * key + i) := by
  have quotient : (512 * key + i) / 512 = key := by omega
  simpa only [ParentCovers, quotient] using covers

theorem same_walk_full (walk : SameWalk x y spaces) (full : Full x spaces) : Full y spaces := by
  intro sp member depth key t low bound covers found
  rw [same_walk_covers walk member (by omega) covers] at found
  obtain ⟨i, index, child⟩ := full sp member depth key t low bound covers found
  refine ⟨i, index, ?_⟩
  rw [walk sp member (depth + 1) _ (by omega) (child_parent_covers index covers)]
  exact child

theorem entry_same_bytes {t : Nat} (index : i < 512) (same : SameBytes x y t) : entry y t i = entry x t i := by
  apply load_congr
  intro a low high
  exact same a (by omega) (by omega)

theorem same_walk_of_bytes (x y : Bytes) (spaces : List Space) (bytes : ∀ t, AnyTable x spaces t → SameBytes x y t) :
    SameWalk x y spaces := by
  intro b member depth key bound covers
  apply table_congr _ key bound covers
  intro d k t limit inside found i index
  exact entry_same_bytes index (bytes t ⟨b, member, d, k, limit, inside, found⟩)

def TableOf (x : Bytes) (sp : Space) (p : Nat) : Prop :=
  ∃ depth key, depth ≤ 3 ∧ Covers sp depth key ∧ table x sp.root depth key = some p

theorem table_of_any (member : sp ∈ spaces) (at_ : TableOf x sp p) :
    AnyTable x spaces p := by
  obtain ⟨depth, key, bound, covers, found⟩ := at_
  exact ⟨sp, member, depth, key, bound, covers, found⟩

theorem walk_of_tables (same : ∀ p, TableOf x sp p → SameBytes x y p) (bound : depth ≤ 4)
    (covers : ParentCovers sp depth key) : table y sp.root depth key = table x sp.root depth key := by
  apply table_congr _ key bound covers
  intro d k t limit inside found i index
  exact entry_same_bytes index (same t ⟨d, k, limit, inside, found⟩)

theorem tables_carry (same : ∀ p, TableOf x sp p → SameBytes x y p) (at_ : TableOf x sp p) : TableOf y sp p := by
  obtain ⟨depth, key, bound, covers, found⟩ := at_
  exact ⟨depth, key, bound, covers, (walk_of_tables same (by omega) (covers_parent_covers (by omega) covers)).trans found⟩

def OtherTables (x y : Bytes) (spaces : List Space) (sp : Space) : Prop := ∀ b ∈ spaces, b ≠ sp → ∀ p, TableOf x b p → SameBytes x y p

theorem other_tables_refl (x : Bytes) (spaces : List Space) (sp : Space) : OtherTables x x spaces sp :=
  fun _ _ _ p _ => same_bytes_refl x p

theorem other_tables_trans (first : OtherTables x y spaces sp) (second : OtherTables y z spaces sp) : OtherTables x z spaces sp := by
  intro b member different p at_
  have same := first b member different
  exact same_bytes_trans (same p at_) (second b member different p (tables_carry same at_))

theorem other_tables_all (sp : Space) (same : ∀ p, AnyTable x spaces p → SameBytes x y p) : OtherTables x y spaces sp :=
  fun _ member _ p at_ => same p (table_of_any member at_)

theorem boot_kept_of_bytes (boot : BootKept m spaces) (used : ∀ p, p ∉ m.free → m.used p = none → n.used p = none ∧ p ∉ n.free)
    (bytes : ∀ t, AnyTable m.mem spaces t → SameBytes m.mem n.mem t) : BootKept n spaces := by
  have walk := same_walk_of_bytes m.mem n.mem spaces bytes
  intro sp member depth key listed
  obtain ⟨low, bound, covers, t, found, unused, notFree, i, index, present, outside⟩ := boot sp member depth key listed
  obtain ⟨unusedN, notFreeN⟩ := used t notFree unused
  refine ⟨low, bound, covers, t, ?_, unusedN, notFreeN, i, index, ?_, outside⟩
  · exact (same_walk_covers walk member (by omega) covers).trans found
  · rw [entry_same_bytes index (bytes t ⟨sp, member, depth, key, bound, covers, found⟩)]
    exact present

section Relink

variable {d k e l : Nat} {link : Option Nat} {b : Space} (walk : Relinked x y spaces sp d k link)
include walk

theorem relinked_node (other : b ∈ spaces) (limit : e ≤ 3) (covers : Covers b e l) :
    table y b.root e l = if b = sp ∧ e = d ∧ l = k then link else table x b.root e l :=
  walk b other e l (by omega) (covers_parent_covers (by omega) covers)

theorem relinked_found (other : b ∈ spaces) (limit : e ≤ 3) (covers : Covers b e l) (found : table y b.root e l = some p) :
    table x b.root e l = some p ∨ (b = sp ∧ e = d ∧ l = k) ∧ link = some p := by
  rw [relinked_node walk other limit covers] at found
  split at found
  · exact .inr ⟨‹_›, found⟩
  · exact .inl found

theorem relinked_any_table (at_ : AnyTable y spaces p) : AnyTable x spaces p ∨ link = some p ∧ d ≤ 3 := by
  obtain ⟨b, other, e, l, limit, covers, found⟩ := at_
  obtain old | ⟨⟨_, rfl, _⟩, linked⟩ := relinked_found walk other limit covers found
  · exact .inl ⟨b, other, e, l, limit, covers, old⟩
  · exact .inr ⟨linked, limit⟩

theorem relinked_is_table (at_ : IsTable y spaces p) : IsTable x spaces p ∨ link = some p ∧ d ≤ 3 := by
  obtain ⟨b, other, e, l, limit, covers, boot, found⟩ := at_
  obtain old | ⟨⟨_, rfl, _⟩, linked⟩ := relinked_found walk other limit covers found
  · exact .inl ⟨b, other, e, l, limit, covers, boot, old⟩
  · exact .inr ⟨linked, limit⟩

theorem relinked_was_table (at_ : IsTable x spaces p) : IsTable y spaces p ∨ table x sp.root d k = some p ∧ d ≤ 3 := by
  obtain ⟨b, other, e, l, limit, covers, boot, found⟩ := at_
  by_cases here : b = sp ∧ e = d ∧ l = k
  · obtain ⟨rfl, rfl, rfl⟩ := here
    exact .inr ⟨found, limit⟩
  · exact .inl ⟨b, other, e, l, limit, covers, boot, (relinked_node walk other limit covers).trans ((if_neg here).trans found)⟩

theorem relinked_refs (bound : d ≤ 3) : refs y spaces = refs x spaces := by
  apply refs_congr
  intro b other w low high
  rw [walk b other 4 w (by omega) (covers_parent_covers (by omega) (covers_leaf b w low high)), if_neg (by omega)]

theorem relinked_distinct (distinct : Distinct x spaces) (fresh : ∀ p, link = some p → d ≤ 3 → ¬ AnyTable x spaces p) :
    Distinct y spaces := by
  intro a inA b inB f e j l u limitA limitB coversA coversB foundA foundB
  obtain oldA | ⟨newA, linkA⟩ := relinked_found walk inA limitA coversA foundA
  · obtain oldB | ⟨newB, linkB⟩ := relinked_found walk inB limitB coversB foundB
    · exact distinct a inA b inB f e j l u limitA limitB coversA coversB oldA oldB
    · exact absurd ⟨a, inA, f, j, limitA, coversA, oldA⟩ (fresh u linkB (newB.2.1 ▸ limitB))
  obtain oldB | ⟨newB, _⟩ := relinked_found walk inB limitB coversB foundB
  · exact absurd ⟨b, inB, e, l, limitB, coversB, oldB⟩ (fresh u linkA (newA.2.1 ▸ limitA))
  · exact ⟨newA.1.trans newB.1.symm, newA.2.1.trans newB.2.1.symm, newA.2.2.trans newB.2.2.symm⟩

-- A leaf table that comes or goes has no entries, so no page moves.
theorem relinked_leaf {w : Nat} (other : b ∈ spaces) (low : b.lo ≤ w) (high : w < b.hi)
    (before : ∀ c, table x sp.root d k = some c → ∀ j, j < 512 → isPresent (entry x c j) = false)
    (after : ∀ c, link = some c → ∀ j, j < 512 → isPresent (entry y c j) = false)
    (same : ∀ c, Covers b 3 (w / 512) → table x b.root 3 (w / 512) = some c → entry y c (w % 512) = entry x c (w % 512)) :
    leaf y b.root w = leaf x b.root w := by
  have covers : Covers b 3 (w / 512) := by simpa using covers_page 3 low high
  have small : w % 512 < 512 := Nat.mod_lt _ (by omega)
  have node := relinked_node walk other (by omega) covers
  rw [leaf, leaf, node]
  by_cases here : b = sp ∧ 3 = d ∧ w / 512 = k
  · rw [if_pos here]
    obtain ⟨rfl, rfl, rfl⟩ := here
    trans none
    · cases linked : link with
      | none => rfl
      | some c => simp [after c linked _ small]
    · cases found : table x b.root 3 (w / 512) with
      | none => rfl
      | some c => simp [before c found _ small]
  rw [if_neg here]
  cases found : table x b.root 3 (w / 512) with
  | none => rfl
  | some c => simp only [same c covers found]

end Relink

theorem relinked_boot {d k : Nat} {link : Option Nat} (boot : BootKept m spaces) (walk : Relinked m.mem n.mem spaces sp d k link)
    (notBoot : (d, k) ∉ sp.boot) (used : ∀ p, p ∉ m.free → m.used p = none → n.used p = none ∧ p ∉ n.free)
    (anchor : ∀ b ∈ spaces, ∀ e l t i, e ≤ 3 → Covers b e l → table m.mem b.root e l = some t → i < 512 → ¬ Covers b (e + 1)
      (512 * l + i) →
      entry n.mem t i = entry m.mem t i) : BootKept n spaces := by
  intro b other e l listed
  obtain ⟨low, limit, covers, t, found, unused, notFree, i, small, present, outside⟩ := boot b other e l listed
  obtain ⟨unusedN, notFreeN⟩ := used t notFree unused
  refine ⟨low, limit, covers, t, ?_, unusedN, notFreeN, i, small, ?_, outside⟩
  · rw [relinked_node walk other limit covers, if_neg]
    · exact found
    · rintro ⟨rfl, rfl, rfl⟩
      exact notBoot listed
  · rw [anchor b other e l t i limit covers found small outside]
    exact present

theorem shape_of_bytes (shape : Shape m spaces) (free : FreeSound n)
    (used : ∀ p, m.used p ≠ none → AnyTable m.mem spaces p → n.used p ≠ none)
    (reserved : ∀ p, p ∉ m.free → m.used p = none → n.used p = none ∧ p ∉ n.free)
    (bytes : ∀ t, AnyTable m.mem spaces t → SameBytes m.mem n.mem t) : Shape n spaces ∧ SameWalk m.mem n.mem spaces := by
  have walk := same_walk_of_bytes m.mem n.mem spaces bytes
  refine ⟨⟨free, shape.nodup, same_walk_distinct walk shape.distinct, boot_kept_of_bytes shape.boot reserved bytes,
    fun p at_ => ?_⟩, walk⟩
  have before := same_walk_is_table (same_walk_symm walk) at_
  exact used p (shape.tables p before) (is_table_any before)

theorem sound_of_bytes (m n : Machine) (spaces : List Space) (held : Nat → Nat) (sound : Sound m spaces held)
    (used : n.used = m.used) (list : n.free = m.free) (size : n.maxPfn = m.maxPfn)
    (bytes : ∀ t, AnyTable m.mem spaces t → SameBytes m.mem n.mem t) : Sound n spaces held ∧ SameWalk m.mem n.mem spaces := by
  obtain ⟨shape, walk⟩ := shape_of_bytes sound.toShape (free_sound_congr m n list used size sound.free)
    (fun p some _ => by rwa [used]) (fun p notFree unused => ⟨by rwa [used], by rwa [list]⟩) bytes
  refine ⟨⟨shape, ?_⟩, walk⟩
  apply counts_congr sound.free used size sound.counts
  intro p _
  rw [same_walk_refs walk, same_walk_tabs walk]
  exact ⟨rfl, rfl⟩

end Lyr.Mm
