import Lyr.Mm.PagingPanic

set_option autoImplicit false

namespace Lyr.Mm

open Lyr.Lib Function

-- A page that is no table and that something outside the changed leaves keeps.
def Anchored (m : Machine) (spaces : List Space) (held : Nat → Nat) (changed : Space → Nat → Prop) (p : Nat) : Prop :=
  ¬ AnyTable m.mem spaces p ∧ (¬ Usable m p ∨ 0 < held p ∨ ∃ b ∈ spaces, ∃ w,
    b.lo ≤ w ∧ w < b.hi ∧ ¬ changed b w ∧ table m.mem b.root 4 w = some p)

-- What an operation that may change the given leaves keeps.
structure Op (m n : Machine) (spaces : List Space) (held : Nat → Nat) (changed : Space → Nat → Prop) : Prop where
  sound : Sound n spaces held
  full : Full m.mem spaces → Full n.mem spaces
  pool : SamePool m n
  free : ∀ p ∈ n.free, (p ∈ m.free ∧ SameBytes m.mem n.mem p) ∨ ZeroPage n.mem p
  leaf : ∀ b ∈ spaces, ∀ w, b.lo ≤ w → w < b.hi → ¬ changed b w → leaf n.mem b.root w = leaf m.mem b.root w
  tables : ∀ b ∈ spaces, (∀ w, ¬ changed b w) → ∀ p, TableOf m.mem b p → SameBytes m.mem n.mem p
  bytes : ∀ p, Anchored m spaces held changed p → SameBytes m.mem n.mem p ∧ ¬ AnyTable n.mem spaces p
  cow : ∀ b ∈ spaces, ∀ w p, b.lo ≤ w → w < b.hi → ¬ changed b w → table m.mem b.root 4 w = some p →
    pageIsCow m p = true → pageIsCow n p = true

def leafAt (sp : Space) (v : Nat) : Space → Nat → Prop := fun b w => b = sp ∧ w = v

theorem anchored_not_free (m : Machine) (spaces : List Space) (held : Nat → Nat) (changed : Space → Nat → Prop) (p : Nat)
    (sound : Sound m spaces held) (anchored : Anchored m spaces held changed p) : p ∉ m.free := by
  intro free
  have zero := (sound.counts.unused p (sound.free.tracked p free).1 (sound.free.unused p free)).2
  rcases anchored.2 with foreign | owned | ⟨b, member, w, low, high, _, mapped⟩
  · exact foreign (.inl free)
  · omega
  · have positive := refs_pos member low high mapped
    omega

variable {m n a b : Machine} {spaces : List Space} {held : Nat → Nat} {changed : Space → Nat → Prop} {q : Nat} {sp : Space} {v : Nat}

theorem anchored_carry {more : Nat → Nat} {p : Nat} (anchored : Anchored m spaces held changed p) (pool : SamePool m n)
    (grown : ∀ q, held q ≤ more q)
    (leaves : ∀ b ∈ spaces, ∀ w, b.lo ≤ w → w < b.hi → ¬ changed b w → leaf n.mem b.root w = leaf m.mem b.root w)
    (off : ¬ AnyTable n.mem spaces p) : Anchored n spaces more changed p := by
  refine ⟨off, ?_⟩
  rcases anchored.2 with foreign | owned | ⟨b, member, w, low, high, outside, mapped⟩
  · exact .inl (fun usable => foreign ((pool.usable p).mp usable))
  · exact .inr (.inl (Nat.lt_of_lt_of_le owned (grown p)))
  · refine .inr (.inr ⟨b, member, w, low, high, outside, ?_⟩)
    rw [table_four, leaves b member w low high outside, ← table_four, mapped]

theorem op_refl {m : Machine} {spaces : List Space} {held : Nat → Nat} {changed : Space → Nat → Prop}
    (sound : Sound m spaces held) : Op m m spaces held changed :=
  ⟨sound, fun full => full, same_pool_refl m, fun p inside => .inl ⟨inside, same_bytes_refl m.mem p⟩, fun _ _ _ _ _ _ => rfl,
    fun _ _ _ p _ => same_bytes_refl m.mem p, fun p anchored => ⟨same_bytes_refl m.mem p, anchored.1⟩,
    fun _ _ _ _ _ _ _ _ set => set⟩

theorem op_trans {c : Machine} (first : Op a b spaces held changed) (second : Op b c spaces held changed) :
    Op a c spaces held changed := by
  refine ⟨second.sound, fun full => second.full (first.full full), same_pool_trans first.pool second.pool, fun p inside => ?_,
    fun s member w low high outside => ?_, fun s member outside p at_ => ?_, fun p anchored => ?_,
    fun s member w p low high outside mapped set => ?_⟩
  · rcases second.free p inside with ⟨old, same⟩ | zero
    · rcases first.free p old with ⟨older, sameFirst⟩ | zeroFirst
      · exact .inl ⟨older, same_bytes_trans sameFirst same⟩
      refine .inr (fun q low high => ?_)
      rw [same q low high]
      exact zeroFirst q low high
    · exact .inr zero
  · exact (second.leaf s member w low high outside).trans (first.leaf s member w low high outside)
  · have same := first.tables s member outside
    exact same_bytes_trans (same p at_) (second.tables s member outside p (tables_carry same at_))
  · obtain ⟨same, off⟩ := first.bytes p anchored
    obtain ⟨sameNext, offNext⟩ := second.bytes p (anchored_carry anchored first.pool (fun _ => Nat.le_refl _) first.leaf off)
    exact ⟨same_bytes_trans same sameNext, offNext⟩
  · refine second.cow s member w p low high outside ?_ (first.cow s member w p low high outside mapped set)
    rw [table_four, first.leaf s member w low high outside, ← table_four, mapped]

theorem op_mono {more : Space → Nat → Prop} (op : Op m n spaces held changed) (wider : ∀ b w, changed b w → more b w) :
    Op m n spaces held more := by
  refine ⟨op.sound, op.full, op.pool, op.free, fun b member w low high outside => ?_, fun b member outside => ?_,
    fun p anchored => ?_, fun b member w p low high outside => ?_⟩
  · exact op.leaf b member w low high (fun inside => outside (wider b w inside))
  · exact op.tables b member (fun w inside => outside w (wider b w inside))
  · refine op.bytes p ⟨anchored.1, anchored.2.imp_right (Or.imp_right ?_)⟩
    rintro ⟨b, member, w, low, high, outside, mapped⟩
    exact ⟨b, member, w, low, high, fun inside => outside (wider b w inside), mapped⟩
  · exact op.cow b member w p low high (fun inside => outside (wider b w inside))

theorem op_of_set {value : Option Nat}
    (before : Sound m spaces held) (sound : Sound n spaces held) (effect : Effect m n spaces)
    (full : Full m.mem spaces → Full n.mem spaces) (set : LeafSet m.mem n.mem spaces sp v value) :
    Op m n spaces held (leafAt sp v) := by
  have leaves : ∀ b ∈ spaces, ∀ w, b.lo ≤ w → w < b.hi → ¬ leafAt sp v b w → leaf n.mem b.root w = leaf m.mem b.root w := by
    intro b member w low high outside
    rw [set.leaf b member w low high]
    exact if_neg outside
  refine ⟨sound, full, effect.pool, effect.free, leaves, fun b member outside => ?_, fun p anchored => ?_,
    fun b member w p low high outside mapped cow => ?_⟩
  · exact set.others b member (fun same => outside v ⟨same, rfl⟩)
  · have notFree := anchored_not_free m spaces held _ p before anchored
    have off : ¬ AnyTable n.mem spaces p := by
      intro at_
      rcases effect.tables p at_ with old | free
      · exact anchored.1 old
      · exact notFree free
    have still := anchored_carry anchored effect.pool (fun _ => Nat.le_refl _) leaves off
    exact ⟨(effect.bytes p notFree (anchored_not_free n spaces held _ p sound still)).resolve_right anchored.1, off⟩
  have inUse : m.used p ≠ none := by
    intro unused
    simp [pageIsCow, unused] at cow
  have tracked : p ≤ n.maxPfn := by
    rw [effect.pool.maxPfn]
    exact (used_tracked before.free inUse).1
  have mappedN : table n.mem b.root 4 w = some p := by rw [table_four, leaves b member w low high outside, ← table_four, mapped]
  have positive := refs_pos member low high mappedN
  rw [effect.cow p (mapped_used sound tracked (by omega))]
  exact cow

theorem stops_holding {slack : Nat} {failure : Panic}
    (stops : Stops m spaces (holding held q) slack failure) : Stops m spaces held (slack + 1) failure := by
  refine stops.imp_right (And.imp_right ?_)
  rintro ⟨p, full⟩
  by_cases same : p = q
  · subst same
    rw [holding_self] at full
    exact ⟨p, by omega⟩
  · rw [holding_other held same] at full
    exact ⟨p, by omega⟩

theorem stops_more {m : Machine} {spaces : List Space} {held : Nat → Nat} {slack more : Nat} {failure : Panic}
    (bound : slack ≤ more) (stops : Stops m spaces held slack failure) : Stops m spaces held more failure := by
  refine stops.imp_right (And.imp_right ?_)
  rintro ⟨p, full⟩
  exact ⟨p, by omega⟩

structure Holds (m a : Machine) (spaces : List Space) (held : Nat → Nat) (q : Nat) : Prop where
  sound : Sound a spaces (holding held q)
  mem : a.mem = m.mem
  pool : SamePool m a
  free : ∀ p ∈ a.free, p ∈ m.free
  used : a.used q ≠ none
  cow : ∀ p, pageIsCow a p = pageIsCow m p

theorem page_ref_holds (sound : Sound m spaces held)
    (inUse : m.used q ≠ none) : Ends (pageRef m q) (fun a => Holds m a spaces held q) (Stops m spaces held 1) := by
  refine ends_of (fun a done => ?_) (fun failure failed => ?_)
  · have counts := page_ref_counts sound.counts done
    obtain ⟨use, record, _, rfl⟩ := page_ref_ok done
    have shape := page_set_shape { use with refcount := (use.refcount + 1) % 2 ^ 32 } record sound.toShape
    have store := page_set_store m q { use with refcount := (use.refcount + 1) % 2 ^ 32 } use record rfl
    refine ⟨⟨shape, @counts_congr _ _ _ _ _ _ shape.free rfl rfl counts (fun p _ => ⟨rfl, ?_⟩)⟩, rfl, store.pool,
      fun _ inside => inside,
      (store.used q).mpr inUse, store.cow⟩
    by_cases same : p = q
    · subst same
      rw [update_self, holding_self]
      rfl
    · rw [update_of_ne same, holding_other held same]
      rfl
  · exact stops_full sound ((page_set_error sound.counts inUse failed).imp_right Eq.ge)

theorem palloc_holds (sound : Sound m spaces held) :
    Ends (pallocPage m) (fun (a, q) => Holds m a spaces held q ∧ q ∈ m.free ∧ q ≠ 0 ∧ q ∉ a.free) (Stops m spaces held 1) := by
  refine ends_of (fun (a, q) done => ?_) (fun failure failed => ?_)
  · obtain ⟨freeSound, pool, tracked, nonzero, unused⟩ := palloc_page_sound done sound.free
    obtain ⟨noShares, noRefs, counts⟩ := palloc_page_counts done sound.free sound.counts
    obtain ⟨rest, list, rfl⟩ := palloc_page_ok done
    have inside : q ∈ m.free := by simp [list]
    have fresh : q ∉ rest := (List.nodup_cons.mp (list ▸ sound.free.nodup)).1
    have others : ∀ p, p ≠ q → update m.used q (some ⟨1, 0, false⟩) p = m.used p :=
      fun p different => update_of_ne different _ _
    have shape : Shape { m with free := rest, used := update m.used q (some ⟨1, 0, false⟩) } spaces := by
      refine (shape_of_bytes sound.toShape freeSound (fun p some _ => ?_) (fun p notFree unusedP => ?_)
        (fun t _ => same_bytes_refl m.mem t)).1
      · by_cases same : p = q
        · simp [same]
        · simpa only [others p same] using some
      · have different : p ≠ q := fun same => notFree (same ▸ inside)
        exact ⟨(others p different).trans unusedP, fun later => notFree (by simp [list, later])⟩
    refine ⟨⟨⟨shape, counts_congr freeSound rfl rfl counts (fun p _ => ⟨rfl, ?_⟩)⟩, rfl, pool,
      fun p later => by simp [list, later], by simp, fun p => ?_⟩, inside, nonzero, fresh⟩
    · by_cases same : p = q
      · subst same
        rw [update_self, holding_self]
        simp only at noRefs ⊢
        omega
      · rw [update_of_ne same, holding_other held same]
    simp only [pageIsCow]
    by_cases same : p = q
    · subst same
      simp [unused]
    · rw [others p same]
  exact .inl (palloc_page_error failed)

theorem op_drop (holds : Holds m a spaces held q) (op : Op a b spaces (holding held q) changed) :
    Ends (pageUnref b q) (fun n => Op m n spaces held changed ∧ Released b n spaces ∧
      (¬ AnyTable m.mem spaces q → SameBytes m.mem b.mem q ∧ ¬ AnyTable n.mem spaces q)) (Stops m spaces held 2) := by
  have heldQ : holding held q q = held q + 1 := holding_self held q
  have trackedB : q ≤ b.maxPfn := by
    rw [op.pool.maxPfn]
    exact (used_tracked holds.sound.free holds.used).1
  have usedB : b.used q ≠ none := mapped_used op.sound trackedB (by omega)
  have poolB : SamePool m b := same_pool_trans holds.pool op.pool
  refine ends_of (fun n done => ?_) (fun failure failed => ?_)
  · obtain ⟨shape, counts, released⟩ := page_unref_released op.sound.toShape op.sound.counts
      (fun used last => mapped_not_last op.sound (by omega) last used) done
    have walk := released_walk op.sound.toShape released
    have soundN : Sound n spaces held := by
      refine ⟨shape, counts_congr shape.free rfl rfl counts (fun p _ => ?_)⟩
      rw [same_walk_refs walk, same_walk_tabs walk]
      refine ⟨rfl, ?_⟩
      by_cases same : p = q
      · subst same
        rw [update_self]
        omega
      · rw [update_of_ne same, holding_other held same]
    have tableN : ∀ p, AnyTable n.mem spaces p → AnyTable b.mem spaces p :=
      same_walk_any_table (same_walk_symm walk)
    have leavesN : ∀ s ∈ spaces, ∀ w, s.lo ≤ w → w < s.hi → ¬ changed s w → leaf n.mem s.root w = leaf m.mem s.root w := by
      intro s member w low high outside
      rw [released_leaf op.sound.toShape released member low high, op.leaf s member w low high outside, holds.mem]
    refine ⟨⟨soundN, fun full => ?_, same_pool_trans poolB released.pool, fun p inside => ?_, leavesN,
      fun s member outside p at_ => ?_, fun p anchored => ?_, fun s member w p low high outside mapped cow => ?_⟩,
      released, fun off => ?_⟩
    · exact same_walk_full walk (op.full (by rwa [holds.mem]))
    · rcases released.free p inside with old | ⟨_, zero⟩
      · have same := released.bytes p (.inr old)
        rcases op.free p old with ⟨older, sameB⟩ | zero
        · rw [holds.mem] at sameB
          exact .inl ⟨holds.free p older, same_bytes_trans sameB same⟩
        refine .inr (fun i low high => ?_)
        rw [same i low high]
        exact zero i low high
      · exact .inr zero
    · have same := op.tables s member outside
      rw [holds.mem] at same
      exact same_bytes_trans (same p at_) (released_table op.sound.toShape released p (table_of_any member (tables_carry same at_)))
    · have anchoredA : Anchored a spaces (holding held q) changed p := anchored_carry anchored holds.pool (le_holding held q)
          (fun s member w low high outside => by rw [holds.mem]) (by rw [holds.mem]; exact anchored.1)
      obtain ⟨same, off⟩ := op.bytes p anchoredA
      have offN : ¬ AnyTable n.mem spaces p := fun at_ => off (tableN p at_)
      have anchoredN := anchored_carry anchored (same_pool_trans poolB released.pool) (fun _ => Nat.le_refl _) leavesN offN
      rw [holds.mem] at same
      exact ⟨same_bytes_trans same (released.bytes p (.inl (anchored_not_free n spaces held changed p soundN anchoredN))), offN⟩
    · have cowB := op.cow s member w p low high outside (by rw [holds.mem]; exact mapped) (by rw [holds.cow]; exact cow)
      have mappedN : table n.mem s.root 4 w = some p := by rw [table_four, leavesN s member w low high outside, ← table_four, mapped]
      have positive := refs_pos member low high mappedN
      have tracked : p ≤ n.maxPfn := by
        have inUse : b.used p ≠ none := by
          intro unused
          simp [pageIsCow, unused] at cowB
        rw [released.pool.maxPfn]
        exact (used_tracked op.sound.free inUse).1
      rw [released.cow p (mapped_used soundN tracked (by omega))]
      exact cowB
    obtain ⟨same, offB⟩ := op.bytes q ⟨by rw [holds.mem]; exact off, .inr (.inl (by omega))⟩
    rw [holds.mem] at same
    exact ⟨same, fun at_ => offB (tableN q at_)⟩
  · have full := page_unref_error op.sound.counts usedB (fun single => by omega) failed
    exact stops_pool poolB (stops_holding (stops_full op.sound (full.imp_right Eq.ge)))

structure SetOp (m n : Machine) (spaces : List Space) (held : Nat → Nat) (sp : Space) (v : Nat) (value : Option Nat) : Prop where
  op : Op m n spaces held (leafAt sp v)
  set : LeafSet m.mem n.mem spaces sp v value
  cow : ∀ p, n.used p ≠ none → pageIsCow n p = pageIsCow m p

theorem sets_op {value : Option Nat} (sound : Sound m spaces held) (sets : Sets m n spaces held sp v value) :
    SetOp m n spaces held sp v value :=
  ⟨op_of_set sound sets.1 sets.2.1 sets.2.2.1 sets.2.2.2.2, sets.2.2.2.2, sets.2.1.cow⟩

theorem set_op_leaf {m n : Machine} {spaces : List Space} {held : Nat → Nat} {sp : Space} {v : Nat} {value : Option Nat}
    (done : SetOp m n spaces held sp v value) (member : sp ∈ spaces) (low : sp.lo ≤ v) (high : v < sp.hi) :
    leaf n.mem sp.root v = value := by
  rw [done.set.leaf sp member v low high, if_pos ⟨rfl, rfl⟩]

theorem grow_total (p : Nat) (grow : Grow m a spaces sp v) :
    refs a.mem spaces p = refs m.mem spaces p ∧ tabs m.mem spaces p ≤ tabs a.mem spaces p := by
  constructor
  · rw [refs_congr m.mem a.mem spaces]
    intro b member w low high
    rw [table_four, table_four, grow.leaf b member w low high]
  by_cases at_ : IsTable m.mem spaces p
  · obtain ⟨b, member, e, l, limit, covers, boot, found⟩ := at_
    rw [tabs_pos ⟨b, member, e, l, limit, covers, boot,
      grow.kept b member e l p (by omega) (covers_parent_covers (by omega) covers) found⟩, tabs, one]
    split <;> omega
  · rw [tabs_zero at_]
    exact Nat.zero_le _

theorem grow_used {p : Nat} {a : Machine} (grow : Grow m a spaces sp v) (used : m.used p ≠ none) : a.used p ≠ none := by
  obtain ⟨use, record⟩ := Option.ne_none_iff_exists'.mp used
  rw [grow.used p use record]
  exact Option.some_ne_none _

section

variable {virt page phys : Nat} (flags : Nat) (sound : Sound m spaces held) (member : sp ∈ spaces) (low : sp.lo ≤ pageNumber virt)
  (high : pageNumber virt < sp.hi)
include sound member low high

theorem map_page_ends : Ends (mapPage m sp.root virt page flags)
    (fun n => Sets m n spaces held sp (pageNumber virt) (some (leafValue (4096 * page) flags)))
    (fun failure => page ≤ m.maxPfn → one (table m.mem sp.root 4 (pageNumber virt) = some page) <
      refs m.mem spaces page + tabs m.mem spaces page + held page → Stops m spaces held 1 failure) := by
  refine ends_then (leaf_entry_ends sound member low high (table_flags_cases flags)) (fun _ empty _ _ => .inl empty) ?_
  rintro ⟨a, _⟩ ⟨t, rfl, foundA, soundA, grow⟩
  generalize pageNumber virt = v at *
  refine ends_bind (ends_of (fun b => drop_leaf_spec member low high soundA foundA)
    (fun failure failed _ _ => stops_pool grow.pool (release_entry_error soundA member low high foundA failed))) ?_
  rintro b ⟨shapeB, released, countsB, quiet⟩
  have countsSet := @counts_congr b (setEntry b t (v % 512) (leafValue (4096 * page) flags)) _ _ _ _ shapeB.free rfl rfl countsB
    (fun _ _ => ⟨rfl, rfl⟩)
  refine ends_mono (share_ref_ends spaces countsSet (by simp only [dropAt]; omega)) ?_ (fun failure full tracked kept => ?_)
  · rintro n ⟨usedB, shapeOf, store, countsN⟩
    have walk := released_walk soundA.toShape released
    have site : LeafSite b.mem spaces sp v t := ⟨shapeB.distinct, member, low, high,
      (@same_walk_covers _ _ spaces walk sp member 3 _ (by omega) (by simpa using @covers_page sp v 3 low high)).trans foundA⟩
    have physical : page < 2 ^ 40 := Nat.lt_of_le_of_lt (used_tracked shapeB.free usedB).1 shapeB.free.physical
    have word : leafValue (4096 * page) flags < 2 ^ 64 := leaf_value_lt (by omega)
    have link : linkOf (leafValue (4096 * page) flags) = some page := by
      rw [link_leaf_value]
      congr 1
      omega
    have shapeN := shapeOf (leaf_write_shape shapeB site word)
    have mem : n.mem = writeEntry b.mem t (v % 512) (leafValue (4096 * page) flags) := store.mem
    refine ⟨⟨shapeN, counts_congr shapeN.free rfl rfl countsN (fun p _ => ?_)⟩, ?_, fun full => ?_, fun absent p used => ?_, ?_⟩
    · -- the counts follow the leaf: one mapping fewer of the old frame, one more of the new
      have bound := mapped_le_refs member low high a.mem p
      rw [mem, rewrite_refs walk site word sound.nodup p, rewrite_tabs walk site word, update_succ, update_succ, link]
      refine ⟨rfl, ?_⟩
      simp only [dropAt]
      omega
    · exact effect_of_grow soundA.toShape grow released shapeB site word mem store.free
        (same_pool_trans (set_entry_pool b t _) store.pool) (fun p => (store.used p).mp) store.cow
    · exact full_of_set grow full member low high (mem ▸ link ▸ rewrite_walk walk site word)
    · rw [store.used p, quiet ((grow.leaf sp member v low high).trans absent)]
      exact @grow_used m spaces sp v p a grow used
    have set := rewrite_leaf soundA.toShape released site word
    rw [if_pos (leaf_value_present _ _), ← mem] at set
    exact leaf_set_grow grow set
  obtain ⟨sameRefs, moreTabs⟩ := grow_total page grow
  have keptA : one (table a.mem sp.root 4 v = some page) < refs a.mem spaces page + tabs a.mem spaces page + held page := by
    rw [sameRefs, table_four, grow.leaf sp member v low high, ← table_four]
    omega
  have usedB : b.used page ≠ none := by
    intro unused
    have zero := (countsB.unused page (by rw [released.pool.maxPfn, grow.pool.maxPfn]; exact tracked) unused).2
    simp only [dropAt] at zero
    omega
  obtain ⟨kind, counted⟩ := full usedB
  simp only [dropAt] at counted
  exact stops_pool grow.pool (@stops_full a spaces page held failure soundA ⟨kind, by omega⟩)

theorem map_page_op (tracked : page ≤ m.maxPfn)
    (kept : one (table m.mem sp.root 4 (pageNumber virt) = some page) < refs m.mem spaces page + tabs m.mem spaces page + held page) :
    Ends (mapPage m sp.root virt page flags)
      (fun n => SetOp m n spaces held sp (pageNumber virt) (some (leafValue (4096 * page) flags))) (Stops m spaces held 1) :=
  ends_mono (map_page_ends flags sound member low high) (fun _ => sets_op sound) (fun _ stops => stops tracked kept)

theorem map_page_phys_ends (countable : leaf m.mem sp.root (pageNumber virt) = none → Countable m phys) :
    Ends (mapPagePhys m sp.root virt phys flags) (fun n => Sets m n spaces held sp (pageNumber virt)
      (match leaf m.mem sp.root (pageNumber virt) with
        | none => some (leafValue (alignDown phys) flags)
        | some e => some e)) (Stops m spaces held 1) := by
  refine ends_then (leaf_entry_ends sound member low high (table_flags_cases flags)) (fun _ => .inl) ?_
  rintro ⟨a, _⟩ ⟨t, rfl, found, soundA, grow⟩
  generalize pageNumber virt = v at *
  have leafA := leaf_entry_of_table found
  rw [grow.leaf sp member v low high] at leafA
  by_cases present : isPresent (entry a.mem t (v % 512)) = true
  · simp only [if_pos present]
    rw [if_pos present] at leafA
    refine ⟨soundA, ?_, fun full => ?_, fun absent => (nomatch leafA.symm.trans absent), fun b other w lowW highW => ?_, grow.others⟩
    · exact effect_of_grow soundA.toShape grow (released_refl a spaces) soundA.toShape ⟨soundA.distinct, member, low, high, found⟩
        (entry_lt a.mem t (v % 512)) (store_load_self a.mem 8 _).symm rfl (same_pool_refl a) (fun _ some => some) (fun _ => rfl)
    · refine @full_of_set m a a.mem spaces sp v (frameOf (entry a.mem t (v % 512))) grow full member low high ?_
      intro b other e l limit parent
      split
      · rename_i here
        obtain ⟨rfl, rfl, rfl⟩ := here
        exact table_leaf_some ((grow.leaf b other l low high).trans leafA)
      · rfl
    rw [grow.leaf b other w lowW highW]
    split
    · rename_i here
      obtain ⟨rfl, rfl⟩ := here
      rw [leafA]
    · rfl
  rw [if_neg present] at leafA
  simp only [if_neg present]
  obtain ⟨physical, inUse⟩ := countable leafA
  have countableA : Countable a (alignDown phys) := by
    rw [Countable, align_down_frame, grow.pool.maxPfn]
    exact ⟨by rw [alignDown]; omega, inUse.imp_right (grow_used grow)⟩
  refine ends_then (share_frame_ends soundA.toShape soundA.counts (fun p => by omega) countableA)
    (fun _ full => stops_pool grow.pool (stops_full soundA (full.imp_right Eq.ge))) ?_
  rintro b ⟨shapeB, store, countsB⟩
  have word : leafValue (alignDown phys) flags < 2 ^ 64 := leaf_value_lt (by rw [alignDown]; omega)
  have link : linkOf (leafValue (alignDown phys) flags) = some (alignDown phys / 4096) := by
    rw [link_leaf_value, align_down_frame]
    congr 1
    omega
  have walk : SameWalk a.mem b.mem spaces := by
    rw [store.mem]
    exact fun _ _ _ _ _ _ => rfl
  have site : LeafSite b.mem spaces sp v t := ⟨shapeB.distinct, member, low, high, by rw [store.mem]; exact found⟩
  have shapeN := leaf_write_shape shapeB site word
  have unmapped := table_leaf_none ((grow.leaf sp member v low high).trans leafA)
  refine ⟨⟨shapeN, counts_congr shapeB.free rfl rfl countsB (fun p _ => ?_)⟩, ?_, fun full => ?_, fun _ p used => ?_, ?_⟩
  · simp only [setEntry]
    rw [rewrite_refs walk site word sound.nodup p, rewrite_tabs walk site word, update_succ, update_succ, link]
    simp only [dropAt, unmapped, one_neg (show ¬ (none : Option Nat) = some p by simp)]
    omega
  · exact effect_of_grow soundA.toShape grow (released_of_store spaces store) shapeB site word rfl rfl (set_entry_pool b t _)
      (fun _ some => some) (fun _ => rfl)
  · exact full_of_set grow full member low high (link ▸ rewrite_walk walk site word)
  · exact (store.used p).mpr (grow_used grow used)
  have set := rewrite_leaf soundA.toShape (released_of_store spaces store) site word
  rw [if_pos (leaf_value_present _ _)] at set
  rw [leafA]
  exact leaf_set_grow grow set

theorem map_page_phys_op (absent : leaf m.mem sp.root (pageNumber virt) = none) (countable : Countable m phys) :
    Ends (mapPagePhys m sp.root virt phys flags)
      (fun n => SetOp m n spaces held sp (pageNumber virt) (some (leafValue (alignDown phys) flags))) (Stops m spaces held 1) := by
  refine ends_imp (map_page_phys_ends flags sound member low high (fun _ => countable)) (fun _ sets => ?_)
  rw [absent] at sets
  exact sets_op sound sets

theorem unmap_page_ends :
    Ends (unmapPage m sp.root virt) (fun n => Sets m n spaces held sp (pageNumber virt) none) (Stops m spaces held 1) := by
  have same : leaf m.mem sp.root (pageNumber virt) = none → LeafSet m.mem m.mem spaces sp (pageNumber virt) none := by
    intro absent
    refine ⟨fun b other w lowW highW => ?_, other_tables_refl m.mem spaces sp⟩
    split
    · rename_i here
      obtain ⟨rfl, rfl⟩ := here
      exact absent
    · rfl
  rw [unmapPage, leaf_find_eq]
  cases found : table m.mem sp.root 3 (pageNumber virt / 512) with
  | none => exact ⟨sound, effect_refl m spaces, fun full => full, fun _ _ used => used, same (by simp only [leaf, found])⟩
  | some t =>
    have leafOf := leaf_entry_of_table found
    by_cases present : isPresent (entry m.mem t (pageNumber virt % 512)) = true
    · rw [if_pos present] at leafOf
      simp only [Option.map_some, if_pos present]
      refine ends_bind (ends_of (fun b => clear_leaf_spec sound member low high found leafOf) (fun failure release => ?_)) ?_
      · have positive := refs_pos member low high (table_leaf_some leafOf)
        have counts := @counts_congr m (setEntry m t (pageNumber virt % 512) 0) _ _ _ _ sound.free rfl rfl sound.counts
          (fun _ _ => ⟨rfl, rfl⟩)
        exact stops_full sound ((release_frame_error counts positive (by omega) release).imp_right Eq.ge)
      rintro b ⟨soundB, shrinkB, setB, foundB, fullB⟩
      refine ends_mono (ptable_free_empty_op soundB member low high foundB) (fun n cut => ?_) (fun _ => stops_pool shrinkB.pool)
      refine ⟨cut.sound, effect_of_shrink sound.toShape (shrink_trans soundB.toShape shrinkB cut.shrink),
        fun full => cut.full (fullB full), fun absent => (by cases leafOf.symm.trans absent), fun c other w lowW highW =>
          ?_, other_tables_trans setB.others cut.others⟩
      rw [cut.leaf c other w lowW highW, setB.leaf c other w lowW highW]
    · rw [if_neg present] at leafOf
      simp only [Option.map_some, if_neg present]
      exact ⟨sound, effect_refl m spaces, fun full => full, fun _ _ used => used, same leafOf⟩

theorem unmap_page_op :
    Ends (unmapPage m sp.root virt) (fun n => SetOp m n spaces held sp (pageNumber virt) none) (Stops m spaces held 1) :=
  ends_imp (unmap_page_ends sound member low high) (fun _ => sets_op sound)

end

end Lyr.Mm
