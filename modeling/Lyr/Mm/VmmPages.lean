import Lyr.Mm.PagingOp
import Lyr.Mm.Vmm

set_option autoImplicit false

namespace Lyr.Mm

open Lyr.Lib

theorem held_kept (m : Machine) {spaces : List Space} (held : Nat → Nat) {sp : Space} {v : Nat} (q : Nat) (member : sp ∈ spaces)
    (low : sp.lo ≤ v) (high : v < sp.hi) :
    one (table m.mem sp.root 4 v = some q) < refs m.mem spaces q + tabs m.mem spaces q + holding held q q := by
  have mapped := mapped_le_refs member low high m.mem q
  rw [holding_self]
  omega

variable {m n : Machine} {spaces : List Space} {held : Nat → Nat} {q v e : Nat} {touched : Nat → Prop}

theorem mapped_not_free (sound : Sound m spaces held) {sp : Space}
    (member : sp ∈ spaces) (low : sp.lo ≤ v) (high : v < sp.hi) (mapped : table m.mem sp.root 4 v = some q) :
    q ∉ m.free := by
  intro free
  have zero := (sound.counts.unused q (sound.free.tracked q free).1 (sound.free.unused q free)).1
  have positive := refs_pos member low high mapped
  omega

theorem table_leaf_value {x : Bytes} {root prot : Nat} (physical : q < 2 ^ 40)
    (mapped : leaf x root v = some (leafValue (4096 * q) prot)) : table x root 4 v = some q := by
  rw [table_leaf_some mapped, leaf_value_frame]
  congr 1
  omega

section Pages

variable {m : Machine} {spaces : List Space} {held : Nat → Nat} {sp : Space} {va : Nat} (prot : Nat)

theorem fresh_refs (sound : Sound m spaces held) (member : sp ∈ spaces) (low : sp.lo ≤ v)
    (high : v < sp.hi) (op : Op m n spaces held (leafAt sp v)) (inside : q ∈ m.free)
    (mapped : table n.mem sp.root 4 v = some q) : refs n.mem spaces q = 1 := by
  have before := (sound.counts.unused q (sound.free.tracked q inside).1 (sound.free.unused q inside)).1
  have moved := refs_update m.mem n.mem spaces sound.nodup sp member v low high (fun c other w lowW highW apart => by
    rw [table_four, table_four, op.leaf c other w lowW highW apart]) q
  rw [mapped, one_pos rfl] at moved
  have unmapped := mapped_le_refs member low high m.mem q
  omega

theorem map_held_op {a b : Machine} (holds : Holds m a spaces held q)
    (first : Op a b spaces (holding held q) (leafAt sp (pageNumber va)))
    (member : sp ∈ spaces) (low : sp.lo ≤ pageNumber va) (high : pageNumber va < sp.hi) :
    Ends (do
        let c ← mapPage b sp.root va q prot
        pageUnref c q)
      (fun n => Op m n spaces held (leafAt sp (pageNumber va)) ∧ leaf n.mem sp.root (pageNumber va) = some
        (leafValue (4096 * q) prot) ∧
        table n.mem sp.root 4 (pageNumber va) = some q ∧ q ∉ n.free ∧ pageIsCow n q = pageIsCow b q ∧
        (¬ AnyTable m.mem spaces q → SameBytes m.mem n.mem q ∧ ¬ AnyTable n.mem spaces q)) (Stops m spaces held 2) := by
  have pool := same_pool_trans holds.pool first.pool
  have tracked : q ≤ b.maxPfn := by
    rw [first.pool.maxPfn]
    exact (used_tracked holds.sound.free holds.used).1
  refine ends_then (map_page_op prot first.sound member low high tracked (held_kept b held q member low high))
    (fun _ stops => stops_pool pool (stops_holding stops)) ?_
  intro c set
  refine ends_imp (op_drop holds (op_trans first set.op)) ?_
  rintro n ⟨op, released, kept⟩
  have leafN : leaf n.mem sp.root (pageNumber va) = some (leafValue (4096 * q) prot) := by
    rw [released_leaf set.op.sound.toShape released member low high]
    exact set_op_leaf set member low high
  have mappedN := table_leaf_value (Nat.lt_of_le_of_lt tracked first.sound.free.physical) leafN
  have notFree := mapped_not_free op.sound member low high mappedN
  have positive := refs_pos member low high mappedN
  have usedN : n.used q ≠ none := mapped_used op.sound (by rw [op.pool.maxPfn, ← pool.maxPfn]; exact tracked) (by omega)
  refine ⟨op, leafN, mappedN, notFree, (released.cow q usedN).trans (set.cow q (released.used q usedN)), fun off => ?_⟩
  obtain ⟨same, offN⟩ := kept off
  exact ⟨same_bytes_trans same (released.bytes q (.inl notFree)), offN⟩

variable (va) in
theorem commit_page_op (sound : Sound m spaces held) (member : sp ∈ spaces) (low : sp.lo ≤ pageNumber va)
    (high : pageNumber va < sp.hi) :
    Ends (commitPage m sp.root va prot) (fun n => Op m n spaces held (leafAt sp (pageNumber va)) ∧ ∃ q ∈ m.free,
      leaf n.mem sp.root (pageNumber va) = some (leafValue (4096 * q) prot) ∧ q < 2 ^ 40 ∧ SameBytes m.mem n.mem q ∧
      ¬ AnyTable n.mem spaces q ∧ refs n.mem spaces q = 1) (Stops m spaces held 2) := by
  refine ends_then (palloc_holds sound) (fun _ => stops_more (by omega)) ?_
  rintro ⟨a, q⟩ ⟨holds, inside, _, _⟩
  refine ends_imp (map_held_op prot holds (op_refl holds.sound) member low high) ?_
  rintro n ⟨op, leafN, mappedN, _, _, kept⟩
  obtain ⟨same, off⟩ := kept (fun at_ => any_table_not_free sound.toShape at_ inside)
  exact ⟨op, q, inside, leafN, Nat.lt_of_le_of_lt (sound.free.tracked q inside).1 sound.free.physical, same, off,
    fresh_refs sound member low high op inside mappedN⟩

structure Remapped (m n : Machine) (spaces : List Space) (held : Nat → Nat) (sp : Space) (v q prot : Nat) : Prop where
  op : Op m n spaces held (leafAt sp v)
  leaf : leaf n.mem sp.root v = some (leafValue (4096 * q) prot)
  refs : refs n.mem spaces = refs m.mem spaces
  cow : pageIsCow n q = pageIsCow m q
  bytes : ¬ AnyTable m.mem spaces q → SameBytes m.mem n.mem q ∧ ¬ AnyTable n.mem spaces q

theorem same_frame_refs (op : Op m n spaces held (leafAt sp v))
    (same : table n.mem sp.root 4 v = table m.mem sp.root 4 v) : refs n.mem spaces = refs m.mem spaces := by
  apply refs_congr
  intro b member w low high
  by_cases here : b = sp ∧ w = v
  · obtain ⟨rfl, rfl⟩ := here
    exact same
  · rw [table_four, table_four, op.leaf b member w low high here]

section

variable (sound : Sound m spaces held) (member : sp ∈ spaces)
include sound member

theorem remap_page_op (low : sp.lo ≤ pageNumber va)
    (high : pageNumber va < sp.hi) (mapped : table m.mem sp.root 4 (pageNumber va) = some q) (inUse : m.used q ≠ none) :
    Ends (remapPage m sp.root va q prot) (fun n => Remapped m n spaces held sp (pageNumber va) q prot) (Stops m spaces held 2) := by
  refine ends_then (page_ref_holds sound inUse) (fun _ => stops_more (by omega)) ?_
  intro a holds
  refine ends_then (unmap_page_op holds.sound member low high) (fun _ stops => stops_pool holds.pool (stops_holding stops)) ?_
  intro b cleared
  refine ends_imp (map_held_op prot holds cleared.op member low high) ?_
  rintro n ⟨op, leafN, mappedN, _, cow, kept⟩
  have heldQ : holding held q q = held q + 1 := holding_self held q
  have tracked : q ≤ b.maxPfn := by
    rw [cleared.op.pool.maxPfn]
    exact (used_tracked holds.sound.free holds.used).1
  have usedB := mapped_used cleared.op.sound tracked (by omega)
  exact ⟨op, leafN, same_frame_refs op (mappedN.trans mapped.symm), by rw [cow, cleared.cow q usedB, holds.cow], kept⟩

theorem mapped_frame (low : sp.lo ≤ v) (high : v < sp.hi)
    (mapped : leaf m.mem sp.root v = some e) (tracked : frameOf e ≤ m.maxPfn) : m.used (frameOf e) ≠ none ∧ frameOf e ≠ 0 := by
  have positive := refs_pos member low high (table_leaf_some mapped)
  have inUse := mapped_used sound tracked (by omega)
  exact ⟨inUse, (used_tracked sound.free inUse).2⟩

theorem get_phys_mapped (low : sp.lo ≤ pageNumber va)
    (high : pageNumber va < sp.hi) (mapped : leaf m.mem sp.root (pageNumber va) = some e) :
    getPhys m sp.root va = 4096 * frameOf e + va % 4096 ∧ getPhys m sp.root va ≠ 0 ∧ frameOf e < 2 ^ 40 := by
  have value : getPhys m sp.root va = 4096 * frameOf e + va % 4096 := by rw [get_phys_leaf, mapped]
  refine ⟨value, fun zero => ?_, by rw [frame_of_eq]; exact Nat.mod_lt _ (by norm_num)⟩
  have frame : frameOf e = 0 := by omega
  exact (mapped_frame sound member low high mapped (by omega)).2 frame

end

theorem get_phys_absent (absent : leaf m.mem sp.root (pageNumber va) = none) : getPhys m sp.root va = 0 := by
  rw [get_phys_leaf, absent]

structure Protected (m n : Machine) (spaces : List Space) (held : Nat → Nat) (sp : Space) (touched : Nat → Prop) (prot : Nat) :
    Prop where
  op : Op m n spaces held (fun b w => b = sp ∧ touched w)
  leaf : ∀ w, sp.lo ≤ w → w < sp.hi → touched w →
    leaf n.mem sp.root w = (leaf m.mem sp.root w).map (fun e => leafValue (4096 * frameOf e) prot)
  refs : refs n.mem spaces = refs m.mem spaces
  cow : ∀ w e, sp.lo ≤ w → w < sp.hi → touched w → Mm.leaf m.mem sp.root w = some e → pageIsCow m (frameOf e) = true →
    pageIsCow n (frameOf e) = true
  bytes : ∀ w e, sp.lo ≤ w → w < sp.hi → touched w → Mm.leaf m.mem sp.root w = some e → ¬ AnyTable m.mem spaces (frameOf e) →
    SameBytes m.mem n.mem (frameOf e) ∧ ¬ AnyTable n.mem spaces (frameOf e)

theorem cow_tracked (sound : Sound m spaces held) (cow : pageIsCow m q = true) : q ≤ m.maxPfn := by
  refine (used_tracked sound.free ?_).1
  intro unused
  simp [pageIsCow, unused] at cow

theorem foreign_not_usable (sound : Sound m spaces held) (foreign : q > m.maxPfn) : ¬ Usable m q := by
  rintro (free | inUse)
  · have tracked := (sound.free.tracked q free).1
    omega
  · have tracked := (used_tracked sound.free inUse).1
    omega

theorem frame_leaf_value (e : Nat) : frameOf (leafValue (4096 * frameOf e) prot) = frameOf e := by
  have small : frameOf e < 2 ^ 40 := by
    rw [frame_of_eq]
    exact Nat.mod_lt _ (by norm_num)
  rw [leaf_value_frame]
  omega

theorem protected_refl (sound : Sound m spaces held) (never : ∀ w, ¬ touched w) : Protected m m spaces held sp touched prot :=
  ⟨op_refl sound, fun w _ _ inside => absurd inside (never w), rfl, fun w _ _ _ inside => absurd inside (never w),
    fun w _ _ _ inside => absurd inside (never w)⟩

theorem protected_congr {other : Nat → Prop} (same : ∀ w, touched w ↔ other w)
    (first : Protected m n spaces held sp touched prot) : Protected m n spaces held sp other prot := by
  obtain rfl : touched = other := funext fun w => propext (same w)
  exact first

theorem protected_trans {a : Machine} {early late : Nat → Prop} (member : sp ∈ spaces)
    (first : Protected m a spaces held sp early prot) (second : Protected a n spaces held sp late prot)
    (apart : ∀ w, early w → ¬ late w) : Protected m n spaces held sp (fun w => early w ∨ late w) prot := by
  have afterFirst : ∀ w, sp.lo ≤ w → w < sp.hi → late w → Mm.leaf a.mem sp.root w = Mm.leaf m.mem sp.root w :=
    fun w low high inside => first.op.leaf sp member w low high (fun both => apart w both.2 inside)
  have afterSecond : ∀ w, sp.lo ≤ w → w < sp.hi → early w → Mm.leaf n.mem sp.root w = Mm.leaf a.mem sp.root w :=
    fun w low high inside => second.op.leaf sp member w low high (fun both => apart w inside both.2)
  have tableA : ∀ w e, sp.lo ≤ w → w < sp.hi → early w → Mm.leaf m.mem sp.root w = some e →
      table a.mem sp.root 4 w = some (frameOf e) := by
    intro w e low high inside mapped
    have leafA := first.leaf w low high inside
    rw [mapped, Option.map_some] at leafA
    rw [table_leaf_some leafA, frame_leaf_value]
  refine ⟨op_trans (op_mono first.op fun b w both => ⟨both.1, .inl both.2⟩)
    (op_mono second.op fun b w both => ⟨both.1, .inr both.2⟩), fun w low high inside => ?_,
    second.refs.trans first.refs, fun w e low high inside mapped cow => ?_, fun w e low high inside mapped off => ?_⟩
  · rcases inside with inside | inside
    · rw [afterSecond w low high inside]
      exact first.leaf w low high inside
    · rw [second.leaf w low high inside, afterFirst w low high inside]
  · rcases inside with inside | inside
    · exact second.op.cow sp member w _ low high (fun both => apart w inside both.2) (tableA w e low high inside mapped)
        (first.cow w e low high inside mapped cow)
    · exact second.cow w e low high inside ((afterFirst w low high inside).trans mapped)
        (first.op.cow sp member w _ low high (fun both => apart w both.2 inside) (table_leaf_some mapped) cow)
  rcases inside with inside | inside
  · obtain ⟨sameA, offA⟩ := first.bytes w e low high inside mapped off
    obtain ⟨sameN, offN⟩ := second.op.bytes _ ⟨offA, .inr (.inr ⟨sp, member, w, low, high, fun both => apart w inside both.2,
      tableA w e low high inside mapped⟩)⟩
    exact ⟨same_bytes_trans sameA sameN, offN⟩
  obtain ⟨sameA, offA⟩ := first.op.bytes _ ⟨off, .inr (.inr ⟨sp, member, w, low, high, fun both => apart w both.2 inside,
    table_leaf_some mapped⟩)⟩
  obtain ⟨sameN, offN⟩ := second.bytes w e low high inside ((afterFirst w low high inside).trans mapped) offA
  exact ⟨same_bytes_trans sameA sameN, offN⟩

theorem protect_page_op (sound : Sound m spaces held) (member : sp ∈ spaces) (low : sp.lo ≤ pageNumber va)
    (high : pageNumber va < sp.hi) :
    Ends (protectPage m sp.root va prot) (fun n => Protected m n spaces held sp (fun w => w = pageNumber va) prot)
      (Stops m spaces held 2) := by
  rw [protectPage]
  cases mapped : leaf m.mem sp.root (pageNumber va) with
  | none =>
    simp only [get_phys_absent mapped, if_true]
    have never : ∀ w e, w = pageNumber va → leaf m.mem sp.root w ≠ some e := by
      rintro w e rfl same
      rw [mapped] at same
      cases same
    refine ⟨op_refl sound, fun w _ _ here => ?_, rfl, fun w e _ _ here same => absurd same (never w e here),
      fun w e _ _ here same => absurd same (never w e here)⟩
    rw [here, mapped, Option.map_none]
  | some e =>
    obtain ⟨value, nonzero, small⟩ := get_phys_mapped sound member low high mapped
    have frame : getPhys m sp.root va / 4096 = frameOf e := by omega
    have only : ∀ w f, w = pageNumber va → leaf m.mem sp.root w = some f → f = e := by
      rintro w f rfl same
      rw [mapped] at same
      exact (Option.some.inj same).symm
    simp only [if_neg nonzero, pfndbPhysToPage, frame]
    by_cases foreign : frameOf e > m.maxPfn
    · simp only [if_pos foreign]
      refine ends_then (unmap_page_op sound member low high) (fun _ => stops_more (by omega)) ?_
      intro b cleared
      have countable : Countable b (getPhys m sp.root va) :=
        ⟨by omega, .inl (by rw [cleared.op.pool.maxPfn, frame]; exact foreign)⟩
      refine ends_mono (map_page_phys_op prot cleared.op.sound member low high (set_op_leaf cleared member low high) countable) ?_
        (fun failure stops => stops_pool cleared.op.pool (stops_more (by omega) stops))
      intro n set
      have op := op_trans cleared.op set.op
      have leafN := set_op_leaf set member low high
      rw [alignDown, frame] at leafN
      refine ⟨op, fun w _ _ here => by rw [here, leafN, mapped, Option.map_some], ?_, fun w f _ _ here same cow => ?_,
        fun w f _ _ here same off => ?_⟩
      · refine same_frame_refs op ?_
        rw [table_leaf_value small leafN, table_leaf_some mapped]
      · rw [only w f here same] at cow
        have tracked := cow_tracked sound cow
        omega
      · rw [only w f here same] at off ⊢
        exact op.bytes _ ⟨off, .inl (foreign_not_usable sound foreign)⟩
    simp only [if_neg foreign]
    have inUse := (mapped_frame sound member low high mapped (by omega)).1
    refine ends_imp (remap_page_op prot sound member low high (table_leaf_some mapped) inUse) ?_
    intro n remapped
    refine ⟨remapped.op, fun w _ _ here => by rw [here, remapped.leaf, mapped, Option.map_some], remapped.refs,
      fun w f _ _ here same cow => ?_, fun w f _ _ here same off => ?_⟩
    · rw [only w f here same] at cow ⊢
      rw [remapped.cow]
      exact cow
    · rw [only w f here same] at off ⊢
      exact remapped.bytes off

end Pages

end Lyr.Mm
