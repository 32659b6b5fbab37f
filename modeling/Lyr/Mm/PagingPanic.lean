import Lyr.Mm.PagingMap
import Lyr.Mm.PagingUnmap

set_option autoImplicit false

namespace Lyr.Mm

open Lyr.Lib Function

-- One for each page the allocator knows, and the boot tables.
def tableRoom (m : Machine) (spaces : List Space) : Nat := m.maxPfn + 1 + (spaces.map (fun sp => sp.boot.length)).sum

def leafTables (x : Bytes) (sp : Space) : Finset Nat :=
  ((Finset.Ico sp.lo sp.hi).image (fun v => v / 512)).filter (fun k => table x sp.root 3 k ≠ none)

variable {sp : Space} {m : Machine} {spaces : List Space} {p t : Nat} {shares counted held : Nat → Nat} {failure : Panic} {v : Nat}

theorem leaf_tables_mem {x : Bytes} {k : Nat} (inside : k ∈ leafTables x sp) : Covers sp 3 k ∧ ∃ t, table x sp.root 3 k = some t := by
  obtain ⟨image, found⟩ := Finset.mem_filter.mp inside
  obtain ⟨v, range, rfl⟩ := Finset.mem_image.mp image
  obtain ⟨low, high⟩ := Finset.mem_Ico.mp range
  exact ⟨by simpa using covers_page 3 low high, Option.ne_none_iff_exists'.mp found⟩

theorem map_count_le (x : Bytes) (sp : Space) (p : Nat) : mapCount x sp p ≤ 512 * (leafTables x sp).card := by
  have fibres : ∀ k ∈ ((Finset.Ico sp.lo sp.hi).filter (fun v => table x sp.root 4 v = some p)).image (fun v => v / 512),
      (((Finset.Ico sp.lo sp.hi).filter (fun v => table x sp.root 4 v = some p)).filter (fun v => v / 512 = k)).card ≤ 512 := by
    intro k _
    calc _ ≤ (Finset.Ico (512 * k) (512 * k + 512)).card := by
            apply Finset.card_le_card
            intro v inside
            have same := (Finset.mem_filter.mp inside).2
            exact Finset.mem_Ico.mpr (by omega)
      _ = 512 := by simp
  refine (Finset.card_le_mul_card_image _ 512 fibres).trans (Nat.mul_le_mul_left 512 (Finset.card_le_card ?_))
  intro k inside
  obtain ⟨v, range, rfl⟩ := Finset.mem_image.mp inside
  obtain ⟨inRange, mapped⟩ := Finset.mem_filter.mp range
  refine Finset.mem_filter.mpr ⟨Finset.mem_image.mpr ⟨v, inRange, rfl⟩, fun absent => ?_⟩
  rw [table, absent] at mapped
  cases mapped

theorem boot_tables_le (x : Bytes) (sp : Space) : ((leafTables x sp).filter (fun k => (3, k) ∈ sp.boot)).card ≤ sp.boot.length := by
  refine (Finset.card_le_card_of_injOn (fun k => ((3, k) : Nat × Nat)) ?_ ?_).trans sp.boot.toFinset_card_le
  · intro k inside
    exact List.mem_toFinset.mpr (Finset.mem_filter.mp inside).2
  · intro a _ b _ same
    exact congrArg Prod.snd same

theorem own_tables_le (shape : Shape m spaces) :
    (spaces.map (fun sp => ((leafTables m.mem sp).filter (fun k => (3, k) ∉ sp.boot)).card)).sum ≤ m.maxPfn + 1 := by
  rw [← List.sum_toFinset _ shape.nodup, ← Finset.card_sigma, ← Finset.card_range (m.maxPfn + 1)]
  refine Finset.card_le_card_of_injOn (fun node => (table m.mem node.1.root 3 node.2).getD 0) ?_ ?_
  · rintro ⟨sp, k⟩ inside
    obtain ⟨member, own⟩ := Finset.mem_sigma.mp inside
    obtain ⟨isLeaf, notBoot⟩ := Finset.mem_filter.mp own
    obtain ⟨covers, t, found⟩ := leaf_tables_mem isLeaf
    have inUse := shape.tables t ⟨sp, List.mem_toFinset.mp member, 3, k, by omega, covers, notBoot, found⟩
    have tracked := (used_tracked shape.free inUse).1
    simp only [found, Option.getD_some, Finset.coe_range, Set.mem_Iio]
    omega
  rintro ⟨a, j⟩ insideA ⟨b, k⟩ insideB same
  obtain ⟨memberA, ownA⟩ := Finset.mem_sigma.mp insideA
  obtain ⟨memberB, ownB⟩ := Finset.mem_sigma.mp insideB
  obtain ⟨coversA, t, foundA⟩ := leaf_tables_mem (Finset.mem_filter.mp ownA).1
  obtain ⟨coversB, u, foundB⟩ := leaf_tables_mem (Finset.mem_filter.mp ownB).1
  simp only [foundA, foundB, Option.getD_some] at same
  subst same
  obtain ⟨rfl, _, rfl⟩ := shape.distinct a (List.mem_toFinset.mp memberA) b (List.mem_toFinset.mp memberB) 3 3 j k t
    (by omega) (by omega) coversA coversB foundA foundB
  rfl

theorem refs_le_room (shape : Shape m spaces) (p : Nat) : refs m.mem spaces p ≤ 512 * tableRoom m spaces := by
  have own := own_tables_le shape
  have each : ∀ sp ∈ spaces, mapCount m.mem sp p ≤
      512 * (((leafTables m.mem sp).filter (fun k => (3, k) ∉ sp.boot)).card + sp.boot.length) := by
    intro sp _
    have boot := boot_tables_le m.mem sp
    have parts := Finset.card_filter_add_card_filter_not (s := leafTables m.mem sp) (fun k => (3, k) ∈ sp.boot)
    have all := map_count_le m.mem sp p
    omega
  calc refs m.mem spaces p ≤ (spaces.map
    (fun sp => 512 * (((leafTables m.mem sp).filter (fun k => (3, k) ∉ sp.boot)).card + sp.boot.length))).sum :=
        List.sum_le_sum each
    _ = 512 * ((spaces.map (fun sp => ((leafTables m.mem sp).filter (fun k => (3, k) ∉ sp.boot)).card)).sum +
          (spaces.map (fun sp => sp.boot.length)).sum) := by
        rw [List.sum_map_mul_left, List.sum_map_add]
    _ ≤ 512 * tableRoom m spaces := by
        rw [tableRoom]
        omega

-- The allocator is empty, or a 32-bit refcount has wrapped, with room for 2^32 references to the page.
def Stops (m : Machine) (spaces : List Space) (held : Nat → Nat) (slack : Nat) (failure : Panic) : Prop :=
  failure = .outOfMemory ∨ (failure = .zeroRefcount ∧ ∃ p, 2 ^ 32 ≤ 512 * tableRoom m spaces + held p + slack)

theorem stops_pool {n : Machine} {slack : Nat} (pool : SamePool m n) (stops : Stops n spaces held slack failure) :
    Stops m spaces held slack failure := by
  rwa [Stops, tableRoom, pool.maxPfn] at stops

theorem stops_full (sound : Sound m spaces held)
    (full : failure = .zeroRefcount ∧ refs m.mem spaces p + tabs m.mem spaces p + held p ≥ 2 ^ 32) :
    Stops m spaces held 1 failure := by
  have room := refs_le_room sound.toShape p
  have single : tabs m.mem spaces p ≤ 1 := by
    rw [tabs, one]
    split <;> omega
  exact .inr ⟨full.1, p, by omega⟩

section

variable (counts : Counts m shares counted) (used : m.used p ≠ none)
include counts used

theorem page_set_error {change : Use → Use}
    (failed : (pageValidateUsed m p >>= fun use => .ok (pageSet m p (change use))) = .error failure) :
    failure = .zeroRefcount ∧ counted p = 2 ^ 32 := by
  rcases bind_error.mp failed with invalid | ⟨use, _, stored⟩
  · exact page_validate_used_error counts used invalid
  · cases stored

-- With no mapping left when the last reference goes, the page is never still shared.
theorem page_unref_error
    (last : counted p = 1 → shares p = 0) (failed : pageUnref m p = .error failure) :
    failure = .zeroRefcount ∧ counted p = 2 ^ 32 := by
  rcases bind_error.mp failed with invalid | ⟨use, valid, ended⟩
  · exact page_validate_used_error counts used invalid
  obtain ⟨record, nonzero⟩ := page_validate_used_ok valid
  obtain ⟨shared, positive, bound, stored⟩ := counts.used p use record
  by_cases final : use.refcount - 1 = 0
  · have unshared : use.sharecount = 0 := by rw [shared]; exact last (by omega)
    simp [final, unshared] at ended
  · simp [final] at ended

end

variable (spaces) in
theorem share_ref_ends (counts : Counts m shares counted) (bound : shares p ≤ counted p) :
    Ends (pageShare m p >>= fun mid => pageRef mid p) (fun n => m.used p ≠ none ∧ (Shape m spaces → Shape n spaces) ∧ SameStore m n ∧
      Counts n (update shares p (shares p + 1)) (update counted p (counted p + 1)))
      (fun failure => m.used p ≠ none → failure = .zeroRefcount ∧ counted p = 2 ^ 32) := by
  refine ends_of (fun n done => ?_) (fun failure failed used => ?_)
  · obtain ⟨mid, shared, reffed⟩ := bind_ok.mp done
    exact share_ref_spec counts bound shared reffed
  rcases bind_error.mp failed with share | ⟨mid, shared, ref⟩
  · exact page_set_error counts used share
  obtain ⟨use, record, _, rfl⟩ := page_share_ok shared
  obtain ⟨_, _, limit, _⟩ := counts.used p use record
  exact page_set_error (page_share_counts counts (by omega) shared)
    (by rw [page_set_used, if_pos rfl]; exact Option.some_ne_none _) ref

theorem share_frame_ends {phys : Nat} (shape : Shape m spaces) (counts : Counts m shares counted) (bound : ∀ p, shares p ≤ counted p)
    (countable : Countable m phys) : Ends (shareFrame m phys) (fun n => Shape n spaces ∧ SameStore m n ∧
      Counts n (update shares (phys / 4096) (shares (phys / 4096) + 1)) (update counted (phys / 4096) (counted (phys / 4096) + 1)))
      (fun failure => failure = .zeroRefcount ∧ counted (phys / 4096) = 2 ^ 32) := by
  rw [shareFrame, pfndbPhysToPage]
  by_cases tracked : phys / 4096 > m.maxPfn
  · rw [if_pos tracked]
    refine ⟨shape, same_store_refl m, counts_congr shape.free rfl rfl counts (fun p inside => ?_)⟩
    have different : p ≠ phys / 4096 := by omega
    rw [update_of_ne different, update_of_ne different]
    exact ⟨rfl, rfl⟩
  have inUse := countable.2.resolve_left tracked
  have flag : pageIsUsed m (phys / 4096) = true := by rwa [pageIsUsed, Option.isSome_iff_ne_none]
  simp only [if_neg tracked, if_pos flag]
  exact ends_mono (share_ref_ends spaces counts (bound _)) (fun n post => ⟨post.2.1 shape, post.2.2⟩) (fun failure full => full inUse)

theorem release_frame_error {f : Nat} (counts : Counts m shares counted) (mapped : 0 < shares f) (bound : shares f ≤ counted f)
    (failed : releaseFrame m f = .error failure) : failure = .zeroRefcount ∧ counted f = 2 ^ 32 := by
  have frame : 4096 * f / 4096 = f := by omega
  by_cases tracked : f > m.maxPfn
  · simp [releaseFrame, pfndbPhysToPage, tracked] at failed
  have used : m.used f ≠ none := by
    intro unused
    have zero := (counts.unused f (by omega) unused).1
    omega
  simp only [releaseFrame, pfndbPhysToPage, frame, if_neg tracked] at failed
  rcases bind_error.mp failed with unshare | ⟨mid, unshared, unref⟩
  · rcases bind_error.mp unshare with invalid | ⟨use, _, stored⟩
    · exact page_validate_used_error counts used invalid
    · split at stored <;> cases stored
  have countsMid := page_unshare_counts counts unshared
  obtain ⟨use, _, _, rfl⟩ := page_unshare_ok unshared
  refine page_unref_error countsMid ?_ (fun single => ?_) unref
  · rw [page_set_used, if_pos rfl]
    exact Option.some_ne_none _
  · rw [update_self]
    omega

section

variable (sound : Sound m spaces held)
include sound

theorem mapped_used
    (tracked : p ≤ m.maxPfn) (counted : 0 < refs m.mem spaces p + tabs m.mem spaces p + held p) : m.used p ≠ none := by
  intro unused
  have zero := (sound.counts.unused p tracked unused).2
  omega

theorem release_entry_error (member : sp ∈ spaces) (low : sp.lo ≤ v) (high : v < sp.hi)
    (found : table m.mem sp.root 3 (v / 512) = some t)
    (failed : releaseEntry m (entry m.mem t (v % 512)) = .error failure) : Stops m spaces held 1 failure := by
  have leafOf := leaf_entry_of_table found
  rw [releaseEntry] at failed
  by_cases present : isPresent (entry m.mem t (v % 512)) = true
  · rw [if_pos present] at failed leafOf
    have positive := refs_pos member low high (table_leaf_some leafOf)
    exact stops_full sound ((release_frame_error sound.counts positive (by omega) failed).imp_right Eq.ge)
  · rw [if_neg present] at failed
    cases failed

theorem prune_entry_error {depth u : Nat} (site : PruneSite m spaces sp v depth u t)
    (failed : pruneEntry m u (v / 512 ^ (3 - depth) % 512) = .error failure) : Stops m spaces held 1 failure := by
  have bound := site.bound
  have link := table_step (by omega) site.parent
  rw [site.found, linkOf] at link
  have isTable : IsTable m.mem spaces t := ⟨sp, site.member, depth + 1, _, by omega,
    covers_page (depth + 1) site.low site.high, prune_not_boot sound.toShape site, site.found⟩
  have used := sound.tables t isTable
  have tracked := (used_tracked sound.free used).1
  split at link
  · rcases bind_error.mp failed with freed | ⟨a, _, ended⟩
    · have frame : 4096 * t / 4096 = t := by omega
      rw [← Option.some.inj link, freePt, pfndbPhysToPage, frame, if_neg (by omega)] at freed
      exact stops_full sound ((page_unref_error sound.counts used (fun single => by
        have own := tabs_pos isTable
        omega) freed).imp_right Eq.ge)
    · cases ended
  · cases link

theorem ptable_free_empty_op {virt : Nat} (member : sp ∈ spaces) (low : sp.lo ≤ pageNumber virt)
    (high : pageNumber virt < sp.hi) (found : table m.mem sp.root 3 (pageNumber virt / 512) = some t) :
    Ends (ptableFreeEmpty m sp.root (alignDown virt)) (fun n => Cut m n spaces held sp (pageNumber virt)) (Stops m spaces held 1) :=
  by
  obtain ⟨idx4, idx3, idx2, idx1⟩ := pml_indices virt
  rw [ptableFreeEmpty, idx4, idx3, idx2]
  generalize pageNumber virt = v at *
  have found1 : table m.mem sp.root (2 + 1) (v / 512 ^ (4 - (2 + 1))) = some t := by simpa using found
  obtain ⟨t2, found2, present2, frame2⟩ := table_parent (by omega) found1
  obtain ⟨t3, found3, present3, frame3⟩ := table_parent (by omega) found2
  obtain ⟨t4, found4, present4, frame4⟩ := table_parent (by omega) found3
  have top : sp.root = t4 := Option.some.inj found4
  subst top
  simp only [Nat.reduceSub] at present4 frame4 present3 frame3 present2 frame2
  simp only [if_pos present4, frame4, if_pos present3, frame3, if_pos present2, frame2]
  have start : Pruned m m spaces held sp v 3 := ⟨sound, shrink_refl m spaces, fun _ _ _ _ _ => rfl,
    other_tables_refl m.mem spaces sp, fun _ _ => rfl, fun full => full⟩
  -- each level is reached with the levels below it already pruned
  have level : ∀ (a : Machine) (d u c : Nat), d ≤ 2 → Pruned m a spaces held sp v (d + 1) →
      table m.mem sp.root d (v / 512 ^ (4 - d)) = some u →
      table m.mem sp.root (d + 1) (v / 512 ^ (4 - (d + 1))) = some c → tableEmpty a.mem c = true →
      Ends (pruneEntry a u (v / 512 ^ (3 - d) % 512)) (fun n => Pruned m n spaces held sp v d) (Stops m spaces held 1) := by
    intro a d u c bound pruned parent child empty
    have site : PruneSite a spaces sp v d u c :=
      ⟨member, low, high, bound, (pruned.above d (by omega)).trans parent, (pruned.above (d + 1) (by omega)).trans child, empty⟩
    exact ends_of (fun n done => pruned_step pruned site done)
      (fun failure stopped => stops_pool pruned.shrink.pool (prune_entry_error pruned.sound site stopped))
  cases empty1 : tableEmpty m.mem t with
  | false => exact pruned_stop (by omega) start found1 (by simp [empty1])
  | true =>
    refine ends_bind (level m 2 t2 t (by omega) start found2 found1 empty1) (fun a after1 => ?_)
    cases empty2 : tableEmpty a.mem t2 with
    | false => exact pruned_stop (by omega) after1 found2 (by simp [empty2])
    | true =>
      refine ends_bind (level a 1 t3 t2 (by omega) after1 found3 found2 empty2) (fun b after2 => ?_)
      cases empty3 : tableEmpty b.mem t3 with
      | false => exact pruned_stop (by omega) after2 found3 (by simp [empty3])
      | true =>
        refine ends_imp (level b 0 sp.root t3 (by omega) after2 found4 found3 empty3) (fun n after3 => ?_)
        exact ⟨after3.sound, after3.shrink, fun full => full_but_zero (after3.full full), after3.leaf, after3.others⟩

end

end Lyr.Mm
