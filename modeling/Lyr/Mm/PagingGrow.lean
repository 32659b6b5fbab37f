import Lyr.Lib.Ends
import Lyr.Mm.PagingSound

set_option autoImplicit false

namespace Lyr.Mm

open Lyr.Lib Function

-- Tables were only added, all on the path of page number v.
structure Grow (m n : Machine) (spaces : List Space) (sp : Space) (v : Nat) : Prop where
  pool : SamePool m n
  free : ∀ p ∈ n.free, p ∈ m.free
  used : ∀ p use, m.used p = some use → n.used p = some use
  cow : ∀ p, pageIsCow n p = pageIsCow m p
  bytes : ∀ p, SameBytes m.mem n.mem p ∨ AnyTable n.mem spaces p
  tables : ∀ p, AnyTable n.mem spaces p → AnyTable m.mem spaces p ∨ p ∈ m.free
  leaf : ∀ b ∈ spaces, ∀ w, b.lo ≤ w → w < b.hi → leaf n.mem b.root w = leaf m.mem b.root w
  kept : ∀ b ∈ spaces, ∀ depth key t, depth ≤ 4 → ParentCovers b depth key →
    table m.mem b.root depth key = some t → table n.mem b.root depth key = some t
  fresh : ∀ b ∈ spaces, ∀ depth key, depth ≤ 4 → ParentCovers b depth key → table n.mem b.root depth key ≠ none →
    table m.mem b.root depth key ≠ none ∨ (b = sp ∧ 1 ≤ depth ∧ depth ≤ 3 ∧ key = v / 512 ^ (4 - depth))
  others : OtherTables m.mem n.mem spaces sp

theorem grow_refl (m : Machine) (spaces : List Space) (sp : Space) (v : Nat) : Grow m m spaces sp v :=
  ⟨same_pool_refl m, fun _ member => member, fun _ _ held => held, fun _ => rfl, fun p => .inl (same_bytes_refl m.mem p),
    fun _ at_ => .inl at_, fun _ _ _ _ _ => rfl, fun _ _ _ _ _ _ _ found => found, fun _ _ _ _ _ _ some => .inl some,
    other_tables_refl m.mem spaces sp⟩

variable {n next : Machine} {spaces : List Space} {sp : Space} {v p index : Nat} {m : Machine} {failure : Panic}
    {createFlags virt : Nat}

theorem grow_any_table (grow : Grow m n spaces sp v) (at_ : AnyTable m.mem spaces p) : AnyTable n.mem spaces p := by
  obtain ⟨b, member, depth, key, bound, covers, found⟩ := at_
  exact ⟨b, member, depth, key, bound, covers, grow.kept b member depth key p (by omega)
    (covers_parent_covers (by omega) covers) found⟩

theorem grow_trans {a b c : Machine} (first : Grow a b spaces sp v) (second : Grow b c spaces sp v) : Grow a c spaces sp v := by
  refine ⟨same_pool_trans first.pool second.pool, fun p member => first.free p (second.free p member),
    fun p use held => second.used p use (first.used p use held), fun p => (second.cow p).trans (first.cow p), fun p => ?_,
    fun p at_ => ?_, fun s member w low high => ?_, fun s member depth key t bound covers found => ?_,
    fun s member depth key bound covers found => ?_, other_tables_trans first.others second.others⟩
  · rcases second.bytes p with same | tableC
    · rcases first.bytes p with sameB | tableB
      · exact .inl (same_bytes_trans sameB same)
      · exact .inr (grow_any_table second tableB)
    · exact .inr tableC
  · rcases second.tables p at_ with tableB | freeB
    · exact first.tables p tableB
    · exact .inr (first.free p freeB)
  · exact (second.leaf s member w low high).trans (first.leaf s member w low high)
  · exact second.kept s member depth key t bound covers (first.kept s member depth key t bound covers found)
  rcases second.fresh s member depth key bound covers found with old | path
  · exact first.fresh s member depth key bound covers old
  · exact .inr path

def linkTable (x : Bytes) (t index page createFlags : Nat) : Bytes := writeEntry (scrub x page) t index (4096 * page ||| createFlags)

theorem link_entry (x : Bytes) (t : Nat) (page createFlags u : Nat) {j : Nat} (first : index < 512) (second : j < 512) :
    entry (linkTable x t index page createFlags) u j =
      if u = t ∧ j = index then (4096 * page ||| createFlags) % 2 ^ 64 else if u = page then 0 else entry x u j := by
  rw [linkTable, entry_set _ t _ u first second, entry_scrub x page u second]

theorem link_bytes (x : Bytes) {t page : Nat} (createFlags : Nat) (bound : index < 512) (offTable : p ≠ t)
    (offPage : p ≠ page) : SameBytes x (linkTable x t index page createFlags) p := by
  intro a low high
  rw [linkTable, writeEntry, store_outside _ _ (by omega), scrub, fill_outside _ _ (by omega)]

theorem path_key (v : Nat) {depth : Nat} (bound : depth ≤ 3) :
    v / 512 ^ (4 - (depth + 1)) = 512 * (v / 512 ^ (4 - depth)) + v / 512 ^ (3 - depth) % 512 := by
  have power : 512 ^ (4 - depth) = 512 ^ (3 - depth) * 512 := by
    rw [← pow_succ]
    congr 1
    omega
  rw [power, ← Nat.div_div_eq_div_mul, show 4 - (depth + 1) = 3 - depth by omega]
  omega

structure LinkSite (m : Machine) (spaces : List Space) (sp : Space) (v depth t page createFlags : Nat) : Prop where
  member : sp ∈ spaces
  low : sp.lo ≤ v
  high : v < sp.hi
  bound : depth ≤ 2
  found : table m.mem sp.root depth (v / 512 ^ (4 - depth)) = some t
  absent : isPresent (entry m.mem t (v / 512 ^ (3 - depth) % 512)) = false
  list : page ∈ m.free
  shape : createFlags = 3 ∨ createFlags = 7

theorem table_step {x : Bytes} {root depth v u : Nat} (bound : depth ≤ 3)
    (parent : table x root depth (v / 512 ^ (4 - depth)) = some u) :
    table x root (depth + 1) (v / 512 ^ (4 - (depth + 1))) = linkOf (entry x u (v / 512 ^ (3 - depth) % 512)) := by
  have quotient : (512 * (v / 512 ^ (4 - depth)) + v / 512 ^ (3 - depth) % 512) / 512 = v / 512 ^ (4 - depth) := by omega
  have remainder : (512 * (v / 512 ^ (4 - depth)) + v / 512 ^ (3 - depth) % 512) % 512 = v / 512 ^ (3 - depth) % 512 := by omega
  rw [path_key v bound, table, quotient, parent, remainder]
  rfl

theorem path_index_lt (v depth : Nat) : v / 512 ^ (3 - depth) % 512 < 512 := Nat.mod_lt _ (by omega)

section Link

variable {m : Machine} {spaces : List Space} {held : Nat → Nat} {sp : Space} {v depth t page createFlags : Nat}

abbrev LinkSite.mem (_ : LinkSite m spaces sp v depth t page createFlags) : Bytes :=
  linkTable m.mem t (v / 512 ^ (3 - depth) % 512) page createFlags

section

variable (site : LinkSite m spaces sp v depth t page createFlags)
include site

theorem link_site_absent :
    table m.mem sp.root (depth + 1) (v / 512 ^ (4 - (depth + 1))) = none := by
  have bound := site.bound
  rw [table_step (by omega) site.found, linkOf, site.absent]
  rfl

theorem link_site_apart (sound : Sound m spaces held) (p : Nat)
    (at_ : AnyTable m.mem spaces p) : p ≠ page := by
  intro same
  exact any_table_not_free sound.toShape at_ (same ▸ site.list)

theorem link_site_table : AnyTable m.mem spaces t := by
  have bound := site.bound
  exact ⟨sp, site.member, depth, _, by omega, covers_page depth site.low site.high, site.found⟩

end

section

variable (sound : Sound m spaces held) (site : LinkSite m spaces sp v depth t page createFlags)
include sound site

theorem link_site_empty {c j : Nat} (same : page = c) (small : j < 512) : isPresent (entry site.mem c j) = false := by
  subst same
  have different := link_site_apart site sound t (link_site_table site)
  rw [link_entry m.mem t page createFlags page (path_index_lt v depth) small, if_neg (fun both => different both.1.symm), if_pos rfl]
  rfl

theorem link_walk : Relinked m.mem site.mem spaces sp (depth + 1) (v / 512 ^ (4 - (depth + 1))) (some page) := by
  have bound := site.bound
  have index := path_index_lt v depth
  obtain ⟨tracked, nonzero⟩ := sound.free.tracked page site.list
  have physical : page < 2 ^ 40 := Nat.lt_of_le_of_lt tracked sound.free.physical
  obtain ⟨present, frame, word⟩ := link_value physical site.shape
  -- zeroing the page moves nothing: it is no table yet
  have walk : SameWalk m.mem (scrub m.mem page) spaces := by
    apply same_walk_of_bytes
    intro u at_ a low high
    have different := link_site_apart site sound u at_
    exact fill_outside m.mem 0 (by omega)
  have covers := covers_page depth site.low site.high
  have found := (same_walk_covers walk site.member (by omega) covers).trans site.found
  have link : linkOf (4096 * page ||| createFlags) = some page := by rw [linkOf, if_pos present, frame]
  have childCovers := covers_page (depth + 1) site.low site.high
  have absent := link_site_absent site
  rw [← same_walk_covers walk site.member (by omega) childCovers, path_key v (by omega)] at absent
  have bare : depth + 1 ≤ 3 → ∀ j, j < 512 → table (scrub m.mem page) sp.root (depth + 2)
      (512 * (512 * (v / 512 ^ (4 - depth)) + v / 512 ^ (3 - depth) % 512) + j) = none := by
    intro _ j small
    have quotient : (512 * (512 * (v / 512 ^ (4 - depth)) + v / 512 ^ (3 - depth) % 512) + j) / 512 =
        512 * (v / 512 ^ (4 - depth)) + v / 512 ^ (3 - depth) % 512 := by omega
    rw [table, quotient, absent]
  have result := table_set (same_walk_distinct walk sound.distinct) site.member (4096 * page ||| createFlags)
    (by omega) covers found index word bare
    (fun _ c linked j small => link_site_empty sound site (Option.some.inj (link.symm.trans linked)) small)
  intro b other e l limit parent
  rw [LinkSite.mem, linkTable, result b other e l limit parent, link, path_key v (by omega), walk b other e l limit parent]

theorem link_not_boot :
    (depth + 1, v / 512 ^ (4 - (depth + 1))) ∉ sp.boot := by
  intro listed
  obtain ⟨_, _, _, u, found, _⟩ := sound.boot sp site.member _ _ listed
  rw [link_site_absent site] at found
  cases found

theorem link_leaf (b : Space) (other : b ∈ spaces) (w : Nat) (low : b.lo ≤ w) (high : w < b.hi) :
    leaf site.mem b.root w = leaf m.mem b.root w := by
  have bound := site.bound
  refine relinked_leaf (link_walk sound site) other low high (fun c found => ?_) (fun c linked j small => ?_)
    (fun u covers found => ?_)
  · rw [link_site_absent site] at found
    cases found
  · exact link_site_empty sound site (Option.some.inj linked) small
  · have different : u ≠ t := by
      rintro rfl
      obtain ⟨_, depths, _⟩ := sound.distinct b other sp site.member 3 depth _ _ u (by omega) (by omega) covers
        (covers_page depth site.low site.high) found site.found
      omega
    rw [link_entry m.mem t page createFlags u (path_index_lt v depth) (Nat.mod_lt _ (by omega)),
      if_neg (fun both => different both.1),
      if_neg (link_site_apart site sound u ⟨b, other, 3, _, by omega, covers, found⟩)]

theorem link_boot
    (kept : ∀ p, p ∉ m.free → m.used p = none → next.used p = none ∧ p ∉ next.free)
    (mem : next.mem = site.mem) : BootKept next spaces := by
  have bound := site.bound
  refine relinked_boot sound.boot (mem ▸ link_walk sound site) (link_not_boot sound site) kept
    (fun b other d k u i limit inside found small outside => ?_)
  rw [mem, link_entry m.mem t page createFlags u (path_index_lt v depth) small, if_neg,
    if_neg (link_site_apart site sound u ⟨b, other, d, k, limit, inside, found⟩)]
  rintro ⟨rfl, rfl⟩
  obtain ⟨rfl, rfl, rfl⟩ := sound.distinct b other sp site.member d depth k _ u limit (by omega) inside
    (covers_page depth site.low site.high) found site.found
  rw [← path_key v (by omega)] at outside
  exact outside (covers_page (d + 1) site.low site.high)

theorem link_node : table site.mem sp.root (depth + 1) (v / 512 ^ (4 - (depth + 1))) = some page := by
  have bound := site.bound
  exact (relinked_node (link_walk sound site) site.member (by omega) (covers_page (depth + 1) site.low site.high)).trans
    (if_pos ⟨rfl, rfl, rfl⟩)

theorem link_sound (taken : pallocPage m = .ok (next, page)) :
    Sound { next with mem := site.mem } spaces held := by
  obtain ⟨freeSound, _, tracked, _, unused⟩ := palloc_page_sound taken sound.free
  obtain ⟨noShares, noRefs, counts⟩ := palloc_page_counts taken sound.free sound.counts
  obtain ⟨rest, list, shape⟩ := palloc_page_ok taken
  have walk := link_walk sound site
  have others : ∀ p, p ≠ page → next.used p = m.used p := by
    intro p different
    rw [shape]
    exact update_of_ne different _ _
  refine ⟨⟨free_sound_congr next _ rfl rfl rfl freeSound, sound.nodup,
    relinked_distinct walk sound.distinct (fun p linked _ at_ => ?_), ?_, ?_⟩, ?_⟩
  · exact link_site_apart site sound p at_ (Option.some.inj linked).symm
  · refine link_boot sound site ?_ rfl
    intro p notFree unusedP
    have different : p ≠ page := fun same => notFree (same ▸ site.list)
    refine ⟨(others p different).trans unusedP, fun inside => notFree ?_⟩
    rw [list]
    exact List.mem_cons_of_mem _ (by simpa only [shape] using inside)
  · intro p at_
    rcases relinked_is_table walk at_ with old | ⟨⟨⟩, _⟩
    · have different : p ≠ page := by
        rintro rfl
        exact sound.tables p old unused
      exact fun none => sound.tables p old ((others p different).symm.trans none)
    · simp [shape]
  -- the page's one reference is now the table's own
  refine counts_congr freeSound rfl rfl counts (fun p _ => ?_)
  have bound := site.bound
  rw [relinked_refs walk (by omega)]
  refine ⟨rfl, ?_⟩
  by_cases same : p = page
  · subst same
    have own : IsTable site.mem spaces p :=
      ⟨sp, site.member, depth + 1, _, by omega, covers_page (depth + 1) site.low site.high, link_not_boot sound site,
        link_node sound site⟩
    rw [update_self, tabs_pos own]
    omega
  · rw [update_of_ne same, tabs_iff]
    refine ⟨fun at_ => (relinked_is_table walk at_).resolve_right (fun new => same (Option.some.inj new.1).symm),
      fun at_ => (relinked_was_table walk at_).resolve_right (fun old => ?_)⟩
    rw [link_site_absent site] at old
    exact nomatch old.1

theorem link_grow (taken : pallocPage m = .ok (next, page)) :
    Grow m { next with mem := site.mem } spaces sp v := by
  have bound := site.bound
  have index := path_index_lt v depth
  obtain ⟨_, pool, _, _, unused⟩ := palloc_page_sound taken sound.free
  obtain ⟨rest, list, shape⟩ := palloc_page_ok taken
  have walk := link_walk sound site
  have absent := link_site_absent site
  have old : ∀ b ∈ spaces, ∀ e l u, e ≤ 4 → ParentCovers b e l → table m.mem b.root e l = some u →
      table site.mem b.root e l = some u := by
    intro b other e l u limit parent found
    rw [walk b other e l limit parent, if_neg]
    · exact found
    rintro ⟨rfl, rfl, rfl⟩
    rw [absent] at found
    cases found
  refine ⟨⟨pool.maxPfn, pool.kernelPtable, pool.mmioRegions, pool.usable⟩, fun p inside => ?_, fun p use used => ?_, fun p => ?_,
    fun p => ?_, fun p at_ => ?_, link_leaf sound site, old,
    fun b other e l limit parent some => ?_, fun b other foreign p at_ => ?_⟩
  · rw [list]
    exact List.mem_cons_of_mem _ (by simpa only [shape] using inside)
  · have different : p ≠ page := by
      rintro rfl
      rw [unused] at used
      cases used
    simpa only [shape, update_of_ne different] using used
  · simp only [pageIsCow, shape]
    by_cases same : p = page
    · subst same
      simp [unused]
    · rw [update_of_ne same]
  · by_cases onTable : p = t
    · obtain ⟨b, other, e, l, limit, inside, found⟩ := link_site_table site
      exact .inr ⟨b, other, e, l, limit, inside, onTable ▸ old b other e l _ (by omega)
        (covers_parent_covers (by omega) inside) found⟩
    by_cases onPage : p = page
    · exact .inr ⟨sp, site.member, depth + 1, _, by omega, covers_page (depth + 1) site.low site.high, onPage ▸ link_node sound site⟩
    · exact .inl (link_bytes m.mem createFlags index onTable onPage)
  · rcases relinked_any_table walk at_ with old | ⟨⟨⟩, _⟩
    · exact .inl old
    · exact .inr site.list
  · simp only at some
    rw [walk b other e l limit parent] at some
    split at some
    · rename_i here
      obtain ⟨rfl, rfl, rfl⟩ := here
      exact .inr ⟨rfl, by omega, by omega, rfl⟩
    · exact .inl some
  have offPage := link_site_apart site sound p (table_of_any other at_)
  refine link_bytes m.mem createFlags index ?_ offPage
  rintro rfl
  obtain ⟨e, l, limit, inside, found⟩ := at_
  exact foreign (sound.distinct b other sp site.member e depth l _ p limit (by omega) inside
    (covers_page depth site.low site.high) found site.found).1

end

theorem palloc_page_error (failed : pallocPage m = .error failure) : failure = .outOfMemory := by
  cases list : m.free with
  | nil => simpa [pallocPage, list] using failed.symm
  | cons head rest => simp [pallocPage, list] at failed

theorem table_next_ends (depth : Nat) (sound : Sound m spaces held) (member : sp ∈ spaces) (low : sp.lo ≤ v) (high : v < sp.hi)
    (bound : depth ≤ 2)
    (found : table m.mem sp.root depth (v / 512 ^ (4 - depth)) = some t) (shape : createFlags = 3 ∨ createFlags = 7) :
    Ends (tableNext m t (v / 512 ^ (3 - depth) % 512) createFlags) (fun (n, r) => ∃ u, r = some u ∧
      table n.mem sp.root (depth + 1) (v / 512 ^ (4 - (depth + 1))) = some u ∧ Sound n spaces held ∧ Grow m n spaces sp v)
        (· = .outOfMemory) := by
  rw [tableNext]
  dsimp only
  by_cases present : isPresent (entry m.mem t (v / 512 ^ (3 - depth) % 512)) = true
  · rw [if_pos present]
    exact ⟨_, rfl, (table_step (by omega) found).trans (if_pos present), sound, grow_refl m spaces sp v⟩
  rw [if_neg present, if_neg (by omega), allocPt]
  cases popped : pallocPage m with
  | error failure => exact palloc_page_error popped
  | ok value =>
    obtain ⟨taken, fresh⟩ := value
    obtain ⟨_, _, _, nonzero, _⟩ := palloc_page_sound popped sound.free
    obtain ⟨rest, list, state⟩ := palloc_page_ok popped
    have sameMem : taken.mem = m.mem := by rw [state]
    have site : LinkSite m spaces sp v depth t fresh createFlags :=
      ⟨member, low, high, bound, found, by simpa using present, by simp [list], shape⟩
    simp only [bind, Except.bind, if_neg (show ¬ 4096 * fresh = 0 by omega), setEntry, sameMem]
    exact ⟨fresh, rfl, link_node sound site, link_sound sound site popped, link_grow sound site popped⟩

end Link

-- Its 36 bits from bit 12 on.
def pageNumber (virt : Nat) : Nat := virt / 4096 % 2 ^ 36

theorem pml_indices (virt : Nat) : pml4Idx (alignDown virt) = pageNumber virt / 512 ^ 3 % 512 ∧
    pml3Idx (alignDown virt) = pageNumber virt / 512 ^ 2 % 512 ∧
    pml2Idx (alignDown virt) = pageNumber virt / 512 ^ 1 % 512 ∧ pml1Idx (alignDown virt) = pageNumber virt % 512 := by
  simp only [pml4Idx, pml3Idx, pml2Idx, pml1Idx, idx_mod, alignDown, pageNumber]
  omega

theorem leaf_entry_ends {held : Nat → Nat} (sound : Sound m spaces held) (member : sp ∈ spaces) (low : sp.lo ≤ pageNumber virt)
    (high : pageNumber virt < sp.hi) (shape : createFlags = 3 ∨ createFlags = 7) :
    Ends (leafEntry m sp.root (alignDown virt) createFlags) (fun (n, r) => ∃ t, r = some (t, pageNumber virt % 512) ∧
      table n.mem sp.root 3 (pageNumber virt / 512) = some t ∧ Sound n spaces held ∧ Grow m n spaces sp (pageNumber virt))
        (· = .outOfMemory) := by
  obtain ⟨idx4, idx3, idx2, idx1⟩ := pml_indices virt
  rw [leafEntry, idx4, idx3, idx2, idx1]
  refine ends_bind (table_next_ends 0 sound member low high (by omega) rfl shape) ?_
  rintro ⟨a, _⟩ ⟨t3, rfl, found3, soundA, growA⟩
  refine ends_bind (table_next_ends 1 soundA member low high (by omega) found3 shape) ?_
  rintro ⟨b, _⟩ ⟨t2, rfl, found2, soundB, growB⟩
  refine ends_bind (table_next_ends 2 soundB member low high (by omega) found2 shape) ?_
  rintro ⟨c, _⟩ ⟨t1, rfl, found1, soundC, growC⟩
  exact ⟨t1, rfl, by simpa using found1, soundC, grow_trans (grow_trans growA growB) growC⟩

end Lyr.Mm
