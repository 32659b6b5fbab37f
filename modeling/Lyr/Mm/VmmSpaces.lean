import Lyr.Mm.VmmRanges

set_option autoImplicit false

namespace Lyr.Mm

open Lyr.Lib

-- The walk of the kernel's own table goes through pages that satisfy keep, to a leaf entry of the given value.
def Window (m : Machine) (keep : Nat → Prop) (va value : Nat) : Prop :=
  256 ≤ pml4Idx va ∧ m.kernelPtable ≠ 0 ∧ ∃ pml3 pml2 pml1, keep pml3 ∧ keep pml2 ∧ keep pml1 ∧
    tableFind m.mem m.kernelPtable (pml4Idx va) = some pml3 ∧ tableFind m.mem pml3 (pml3Idx va) = some pml2 ∧
    tableFind m.mem pml2 (pml2Idx va) = some pml1 ∧ entry m.mem pml1 (pml1Idx va) = value

structure Windows (m : Machine) (keep : Nat → Prop) : Prop where
  kernel : m.kernelPtable ≠ 0 → keep m.kernelPtable
  pages : ∀ region ∈ m.mmioRegions, ∀ i, i < region.npages →
    Window m keep (alignDown region.virt + 4096 * i) ((alignDown region.phys + 4096 * i) ||| vmmFlagsMmio)

variable {x : Bytes} {t pt : Nat} {m : Machine} {keep : Nat → Prop} {spaces other : List Space} {held : Nat → Nat}

theorem table_find_same {y : Bytes} {i : Nat} (index : i < 512) (same : SameBytes x y t) : tableFind y t i = tableFind x t i := by
  rw [tableFind, tableFind, entry_same_bytes index same]

theorem pml_index_lt (v : Nat) : pml4Idx v < 512 ∧ pml3Idx v < 512 ∧ pml2Idx v < 512 ∧ pml1Idx v < 512 := by
  have bound : ∀ x : Nat, x &&& 0x1ff < 512 := fun x => Nat.and_lt_two_pow x (n := 9) (by norm_num)
  exact ⟨bound _, bound _, bound _, bound _⟩

theorem windows_carry {n : Machine} {later : Nat → Prop} (pool : SamePool m n) (windows : Windows m keep)
    (bytes : ∀ p, keep p → SameBytes m.mem n.mem p) (carry : ∀ p, keep p → later p) : Windows n later := by
  refine ⟨fun some => ?_, fun region member i inside => ?_⟩
  · rw [pool.kernelPtable] at some ⊢
    exact carry _ (windows.kernel some)
  rw [pool.mmioRegions] at member
  obtain ⟨upper, some, pml3, pml2, pml1, keep3, keep2, keep1, first, second, third, value⟩ := windows.pages region member i inside
  obtain ⟨index4, index3, index2, index1⟩ := pml_index_lt (alignDown region.virt + 4096 * i)
  refine ⟨upper, by rw [pool.kernelPtable]; exact some, pml3, pml2, pml1, carry _ keep3, carry _ keep2, carry _ keep1, ?_, ?_, ?_, ?_⟩
  · rw [pool.kernelPtable, table_find_same index4 (bytes _ (windows.kernel some)), first]
  · rw [table_find_same index3 (bytes _ keep3), second]
  · rw [table_find_same index2 (bytes _ keep2), third]
  · rw [entry_same_bytes index1 (bytes _ keep1), value]

theorem table_next_found {tbl idx createFlags : Nat} (found : tableFind m.mem tbl idx = some t) :
    tableNext m tbl idx createFlags = .ok (m, some t) := by
  rw [tableFind] at found
  split at found
  · rename_i present
    rw [tableNext, if_pos present, Option.some.inj found]
  · cases found

theorem map_mmio_still (m : Machine) (pt virt phys npages : Nat)
    (mapped : ∀ i, i < npages → ∃ pml3 pml2 pml1, tableFind m.mem pt (pml4Idx (alignDown virt + 4096 * i)) = some pml3 ∧
      tableFind m.mem pml3 (pml3Idx (alignDown virt + 4096 * i)) = some pml2 ∧
      tableFind m.mem pml2 (pml2Idx (alignDown virt + 4096 * i)) = some pml1 ∧
      entry m.mem pml1 (pml1Idx (alignDown virt + 4096 * i)) = ((alignDown phys + 4096 * i) ||| vmmFlagsMmio)) :
    mapMmio m pt virt phys npages = .ok m := by
  apply foldlM_still
  intro i inside
  obtain ⟨pml3, pml2, pml1, first, second, third, value⟩ := mapped i (List.mem_range.mp inside)
  simp only [leafEntry, table_next_found first, table_next_found second, table_next_found third, bind, Except.bind, setEntry, ← value]
  rw [writeEntry, entry, store_load_self]

theorem copy_kernel_range (m : Machine) (pt count : Nat) (different : pt ≠ m.kernelPtable) (bound : count ≤ 256) :
    ∃ x, (List.range count).foldl (fun m i => setEntry m pt (256 + i) (entry m.mem m.kernelPtable (256 + i))) m = { m with
      mem := x } ∧
      (∀ p, p ≠ pt → SameBytes m.mem x p) ∧
      ∀ i, i < 512 → entry x pt i = if 256 ≤ i ∧ i < 256 + count then entry m.mem m.kernelPtable i else entry m.mem pt i := by
  induction count with
  | zero => exact ⟨m.mem, rfl, fun p _ => same_bytes_refl m.mem p, fun i _ => by rw [if_neg (by omega)]⟩
  | succ count ih =>
    obtain ⟨x, state, bytes, entries⟩ := ih (by omega)
    rw [List.range_succ, List.foldl_append, state]
    refine ⟨writeEntry x pt (256 + count) (entry x m.kernelPtable (256 + count)), rfl, fun p apart => ?_, fun i small => ?_⟩
    · refine same_bytes_trans (bytes p apart) (fun a low high => ?_)
      exact store_outside x _ (by omega)
    rw [entry_set x pt _ pt (by omega) small]
    by_cases here : i = 256 + count
    · subst here
      rw [if_pos ⟨rfl, rfl⟩, if_pos (by omega), Nat.mod_eq_of_lt (entry_lt _ _ _),
        entry_same_bytes small (bytes _ (Ne.symm different))]
    rw [if_neg (fun both => here both.2), entries i small]
    by_cases inside : 256 ≤ i ∧ i < 256 + count
    · rw [if_pos inside, if_pos (by omega)]
    · rw [if_neg inside, if_neg (by omega)]

structure Created (m n : Machine) (spaces : List Space) (held : Nat → Nat) (pt : Nat) : Prop where
  sound : Sound n (userSpace pt :: spaces) held
  full : Full m.mem spaces → Full n.mem (userSpace pt :: spaces)
  pool : SamePool m n
  free : ∀ p ∈ n.free, p ∈ m.free ∧ p ≠ pt
  taken : pt ∈ m.free ∧ pt ≠ 0
  bytes : ∀ p, p ≠ pt → SameBytes m.mem n.mem p
  empty : LowerEmpty n.mem pt
  cow : ∀ p, pageIsCow n p = pageIsCow m p

theorem kernel_half (windows : Windows m keep) (apart : ∀ p, keep p → p ≠ pt) (zero : ∀ i, i < 512 → entry m.mem pt i = 0) :
    ∃ x, (if m.kernelPtable ≠ 0 then copyKernelHalf m pt else m) = { m with mem := x } ∧ (∀ p, p ≠ pt → SameBytes m.mem x p) ∧
      LowerEmpty x pt ∧ m.mmioRegions.foldlM (fun m region => mapMmio m pt region.virt region.phys region.npages)
        { m with mem := x } = .ok { m with mem := x } := by
  by_cases none : m.kernelPtable = 0
  · refine ⟨m.mem, if_neg (not_not.mpr none), fun p _ => same_bytes_refl m.mem p, fun i small => ?_, ?_⟩
    · rw [zero i (by omega)]
      rfl
    apply foldlM_still
    intro region member
    apply map_mmio_still
    intro i inside
    exact absurd none (windows.pages region member i inside).2.1
  have different : pt ≠ m.kernelPtable := (apart _ (windows.kernel none)).symm
  obtain ⟨x, state, bytes, entries⟩ := copy_kernel_range m pt 256 different (by omega)
  refine ⟨x, by rw [if_pos none, copyKernelHalf, state], bytes, fun i small => ?_, ?_⟩
  · rw [entries i (by omega), if_neg (by omega), zero i (by omega)]
    rfl
  apply foldlM_still
  intro region member
  apply map_mmio_still
  intro i inside
  obtain ⟨upper, _, pml3, pml2, pml1, keep3, keep2, keep1, first, second, third, value⟩ := windows.pages region member i inside
  obtain ⟨index4, index3, index2, index1⟩ := pml_index_lt (alignDown region.virt + 4096 * i)
  refine ⟨pml3, pml2, pml1, ?_, ?_, ?_, ?_⟩
  · have copied := entries _ index4
    rw [if_pos (show _ ∧ _ from ⟨upper, index4⟩)] at copied
    rw [tableFind] at first ⊢
    simp only [copied]
    exact first
  · exact (table_find_same index3 (bytes _ (apart _ keep3))).trans second
  · exact (table_find_same index2 (bytes _ (apart _ keep2))).trans third
  · exact (entry_same_bytes index1 (bytes _ (apart _ keep1))).trans value

theorem ptable_create_op (sound : Sound m spaces held) (windows : Windows m keep) (kept : ∀ p, keep p → p ∉ m.free) :
    Ends (ptableCreate m) (fun (n, pt) => Created m n spaces held pt) (Stops m spaces held 1) := by
  refine ends_bind (palloc_holds sound) ?_
  rintro ⟨a, pt⟩ ⟨holds, inside, nonzero, fresh⟩
  have apart : ∀ p, keep p → p ≠ pt := fun p held same => kept p held (same ▸ inside)
  have scrubbed : ∀ p, p ≠ pt → SameBytes a.mem (scrub a.mem pt) p := fun p different => scrub_same a.mem pt p different
  have windowsB : Windows { a with mem := scrub a.mem pt } keep :=
    windows_carry ⟨holds.pool.maxPfn, holds.pool.kernelPtable, holds.pool.mmioRegions, holds.pool.usable⟩ windows
      (fun p held => by rw [← holds.mem]; exact scrubbed p (apart p held)) (fun _ held => held)
  obtain ⟨x, state, bytes, empty, mmio⟩ := kernel_half windowsB apart
    (fun i small => by rw [entry_scrub a.mem pt pt small, if_pos rfl])
  simp only at state mmio ⊢
  rw [state]
  simp only
  rw [mmio]
  have offA : ¬ AnyTable a.mem spaces pt := by
    rw [holds.mem]
    exact fun at_ => any_table_not_free sound.toShape at_ inside
  have bytesA : ∀ p, p ≠ pt → SameBytes a.mem x p := fun p different =>
    same_bytes_trans (scrubbed p different) (bytes p different)
  obtain ⟨soundX, walk⟩ := sound_of_bytes a { a with mem := x } spaces _ holds.sound rfl rfl rfl
    (fun t at_ => bytesA t (fun same => offA (same ▸ at_)))
  have offX : ¬ AnyTable x spaces pt := fun at_ => offA (same_walk_any_table (same_walk_symm walk) pt at_)
  refine ⟨add_space soundX holds.used offX empty, fun full => ?_,
    ⟨holds.pool.maxPfn, holds.pool.kernelPtable, holds.pool.mmioRegions, holds.pool.usable⟩,
    fun p free => ⟨holds.free p free, ?_⟩, ⟨inside, nonzero⟩, fun p different => ?_, empty, holds.cow⟩
  · refine add_space_full empty (same_walk_full walk ?_)
    rw [holds.mem]
    exact full
  · rintro rfl
    exact fresh free
  · rw [← holds.mem]
    exact bytesA p different

section Created

variable {m n : Machine} {spaces : List Space} {held : Nat → Nat} {pt : Nat} (sound : Sound m spaces held)
    (created : Created m n spaces held pt)

include sound created

theorem created_tables (b : Space) (member : b ∈ spaces) (p : Nat) (at_ : TableOf m.mem b p) : SameBytes m.mem n.mem p :=
  created.bytes p (fun same => any_table_not_free sound.toShape (table_of_any member at_) (same ▸ created.taken.1))

theorem created_leaf {b : Space} (member : b ∈ spaces) {v : Nat} (low : b.lo ≤ v) (high : v < b.hi) :
    leaf n.mem b.root v = leaf m.mem b.root v := by
  apply leaf_congr _ low high
  intro depth key t bound covers found i index
  exact entry_same_bytes index (created_tables sound created b member t ⟨depth, key, bound, covers, found⟩)

end Created

theorem sound_perm (perm : spaces.Perm other) (sound : Sound m spaces held) : Sound m other held := by
  have same : ∀ b, b ∈ other ↔ b ∈ spaces := fun b => perm.mem_iff.symm
  have tables : ∀ p, IsTable m.mem other p ↔ IsTable m.mem spaces p := fun p => by simp only [IsTable, same]
  refine ⟨⟨sound.free, perm.nodup_iff.mp sound.nodup, fun a inA b inB => ?_, fun b member => ?_, fun p at_ => ?_⟩, ?_⟩
  · exact sound.distinct a ((same a).mp inA) b ((same b).mp inB)
  · exact sound.boot b ((same b).mp member)
  · exact sound.tables p ((tables p).mp at_)
  refine counts_congr sound.free rfl rfl sound.counts (fun p _ => ?_)
  have refsSame : refs m.mem other p = refs m.mem spaces p := (perm.map _).sum_eq.symm
  rw [refsSame, tabs_iff (tables p)]
  exact ⟨rfl, rfl⟩

theorem full_perm (perm : spaces.Perm other) (full : Full x spaces) : Full x other := fun b member => full b (perm.mem_iff.mpr member)

theorem full_leaf (x : Bytes) (spaces : List Space) (pt : Nat) (member : userSpace pt ∈ spaces) (full : Full x spaces)
    (levels : Nat) (small : levels ≤ 2) (key t : Nat) (covers : Covers (userSpace pt) (3 - levels) key)
    (found : table x pt (3 - levels) key = some t) : ∃ v, v < 2 ^ 35 ∧ leaf x pt v ≠ none := by
  obtain ⟨i, index, child⟩ := full _ member (3 - levels) key t (by omega) (by omega) covers found
  have below := user_covers_child (by omega) (by omega) index covers
  induction levels generalizing key t i with
  | zero =>
    obtain ⟨v, _, high, same⟩ := below
    have here : v = 512 * key + i := by simpa using same
    refine ⟨512 * key + i, here ▸ high, fun none => child ?_⟩
    exact table_leaf_none none
  | succ levels ih =>
    obtain ⟨u, reached⟩ := Option.ne_none_iff_exists'.mp child
    rw [show 3 - (levels + 1) + 1 = 3 - levels by omega] at below reached
    obtain ⟨j, indexJ, childJ⟩ := full _ member (3 - levels) _ u (by omega) (by omega) below reached
    exact ih (by omega) _ u below reached j indexJ childJ (user_covers_child (by omega) (by omega) indexJ below)

theorem full_lower_empty (member : userSpace pt ∈ spaces) (full : Full x spaces)
    (unmapped : ∀ v, v < 2 ^ 35 → leaf x pt v = none) : LowerEmpty x pt := by
  intro i small
  by_contra present
  rw [Bool.not_eq_false] at present
  have index : i % 512 = i := Nat.mod_eq_of_lt (by omega)
  have found : table x pt 1 i = some (frameOf (entry x pt i)) := by
    simp [table, tableFind, index, present]
  have covers : Covers (userSpace pt) 1 i := ⟨i * 512 ^ 3, Nat.zero_le _, by simp only [userSpace]; omega, by simp⟩
  obtain ⟨v, high, mapped⟩ := full_leaf x spaces pt member full 2 (by omega) i _ covers found
  exact mapped (unmapped v high)

section

variable (sound : Sound m (userSpace pt :: spaces) held) (empty : LowerEmpty m.mem pt)
include sound empty

theorem drop_space :
    Sound m spaces (holding held pt) ∧ m.used pt ≠ none ∧ ¬ AnyTable m.mem spaces pt := by
  have isTable := add_space_is_table spaces empty
  have nodup := List.nodup_cons.mp sound.nodup
  have off : ¬ AnyTable m.mem spaces pt := by
    rintro ⟨b, member, depth, key, bound, covers, found⟩
    obtain ⟨rfl, _⟩ := sound.distinct b (by simp [member]) (userSpace pt) (by simp) depth 0 key 0 pt bound (by omega) covers
      (root_covers pt) found rfl
    exact nodup.1 member
  refine ⟨⟨⟨sound.free, nodup.2, fun a inA b inB => sound.distinct a (by simp [inA]) b (by simp [inB]),
    fun b member => sound.boot b (by simp [member]), fun p at_ => sound.tables p ((isTable p).mpr (.inr at_))⟩, ?_⟩,
    sound.tables pt ((isTable pt).mpr (.inl rfl)), off⟩
  refine counts_congr sound.free rfl rfl sound.counts (fun p _ => ?_)
  rw [add_space_refs spaces empty]
  refine ⟨rfl, ?_⟩
  by_cases same : p = pt
  · subst same
    rw [tabs_pos ((isTable p).mpr (.inl rfl)), tabs_zero (fun at_ => off (is_table_any at_)), holding_self]
    omega
  · rw [holding_other held same, tabs_iff ((isTable p).trans (or_iff_right same))]

theorem ptable_destroy_op (user : pt ≠ m.kernelPtable) :
    Ends (ptableDestroy m pt) (fun n => Op m n spaces held (fun _ _ => False)) (Stops m spaces held 2) := by
  obtain ⟨soundRest, inUse, _⟩ := drop_space sound empty
  have tracked := (used_tracked sound.free inUse).1
  have still : (List.range 256).foldlM (fun m i =>
      let e := entry m.mem pt i
      if isPresent e ∧ e &&& vmmHuge = 0 then ptableFreeLevel 3 m (frameOf e) else .ok m) m = .ok m := by
    apply foldlM_still
    intro i inside
    simp [empty i (List.mem_range.mp inside)]
  rw [ptableDestroy, if_neg user, still]
  show Ends (freePt m pt) _ _
  have frame : ¬ 4096 * pt / 4096 > m.maxPfn := by omega
  have page : 4096 * pt / 4096 = pt := by omega
  rw [freePt, pfndbPhysToPage, if_neg frame]
  simp only [page]
  have holds : Holds m m spaces held pt :=
    ⟨soundRest, rfl, same_pool_refl m, fun _ inside => inside, inUse, fun _ => rfl⟩
  exact ends_imp (op_drop holds (op_refl soundRest)) (fun n post => post.1)

end

end Lyr.Mm
