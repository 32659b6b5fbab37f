import Lyr.Mm.VmmPages

set_option autoImplicit false

namespace Lyr.Mm

open Lyr.Lib

variable {q : Nat} {n : Machine} {src dst : Space} {touched : Nat → Prop} {flags : Nat → Nat} {changed : Space → Nat → Prop}

section Cow

variable {m : Machine} {spaces : List Space} {held : Nat → Nat}

section

variable (sound : Sound m spaces held)
include sound

theorem set_cow_op {use : Use} {cow : Bool}
    (record : m.used q = some use) (unseen : cow = true ∨ ∀ b ∈ spaces, ∀ w, b.lo ≤ w → w < b.hi → ¬ changed b w →
      table m.mem b.root 4 w ≠ some q) : Op m (pageSet m q { use with cow := cow }) spaces held changed := by
  have shape := page_set_shape { use with cow := cow } record sound.toShape
  refine ⟨⟨shape, page_set_cow_counts sound.counts cow record⟩, fun full => full,
    page_set_pool _ record, fun p inside => .inl ⟨inside, same_bytes_refl m.mem p⟩, fun _ _ _ _ _ _ => rfl,
    fun _ _ _ p _ => same_bytes_refl m.mem p, fun p anchored => ⟨same_bytes_refl m.mem p, anchored.1⟩,
    fun b member w p low high outside mapped set => ?_⟩
  rw [pageIsCow, page_set_used]
  by_cases same : p = q
  · subst same
    rcases unseen with rfl | unseen
    · simp
    · exact absurd mapped (unseen b member w low high outside)
  · rw [if_neg same]
    exact set

theorem page_cow_op (cow : Bool) (inUse : m.used q ≠ none) (unseen : cow = true ∨ ∀ b ∈ spaces, ∀ w,
      b.lo ≤ w → w < b.hi → ¬ changed b w →
      table m.mem b.root 4 w ≠ some q) : Ends (pageValidateUsed m q >>= fun use => .ok (pageSet m q { use with cow := cow }))
    (fun n => Op m n spaces held changed ∧ n.mem = m.mem ∧ pageIsCow n q = cow) (Stops m spaces held 1) := by
  refine ends_of (fun n done => ?_) (fun failure failed => stops_full sound
    ((page_set_error sound.counts inUse failed).imp_right Eq.ge))
  obtain ⟨use, valid, state⟩ := bind_ok.mp done
  obtain ⟨record, _⟩ := page_validate_used_ok valid
  cases state
  exact ⟨set_cow_op sound record unseen, rfl, by simp [pageIsCow, page_set_used]⟩

theorem page_mark_cow_op (changed : Space → Nat → Prop) (inUse : m.used q ≠ none) :
    Ends (pageMarkCow m q) (fun n => Op m n spaces held changed ∧ n.mem = m.mem ∧ pageIsCow n q = true) (Stops m spaces held 1) :=
  page_cow_op sound true inUse (.inl rfl)

theorem page_clear_cow_op (changed : Space → Nat → Prop) (inUse : m.used q ≠ none)
    (unmapped : refs m.mem spaces q = 0) :
    Ends (pageClearCow m q) (fun n => Op m n spaces held changed ∧ n.mem = m.mem) (Stops m spaces held 1) := by
  refine ends_imp (page_cow_op sound false inUse (.inr fun b member w low high _ mapped => ?_))
    (fun _ post => ⟨post.1, post.2.1⟩)
  have positive := refs_pos member low high mapped
  omega

-- _vas_clone shares private writable pages read-only.
def Cowable (flags : Nat) : Prop := (flags &&& vadProtMask) &&& vmmWritable ≠ 0 ∧ flags &&& vadShared = 0

instance (flags : Nat) : Decidable (Cowable flags) := inferInstanceAs (Decidable (_ ∧ _))

def clonedProt (maxPfn flags frame : Nat) : Nat :=
  if frame ≤ maxPfn ∧ Cowable flags then clearBits (flags &&& vadProtMask) vmmWritable else flags &&& vadProtMask

-- The clone maps the touched pages as well, each under the flags of its area.
structure Cloned (m n : Machine) (spaces : List Space) (held : Nat → Nat) (src dst : Space) (touched : Nat → Prop)
    (flags : Nat → Nat) : Prop where
  op : Op m n spaces held (fun b w => (b = src ∨ b = dst) ∧ touched w)
  absent : ∀ w, touched w → leaf m.mem src.root w = none → leaf n.mem src.root w = none ∧ leaf n.mem dst.root w = none
  copy : ∀ w e, touched w → leaf m.mem src.root w = some e →
    leaf n.mem dst.root w = some (leafValue (4096 * frameOf e) (clonedProt m.maxPfn (flags w) (frameOf e)))
  source : ∀ w e, touched w → leaf m.mem src.root w = some e → leaf n.mem src.root w =
    if frameOf e ≤ m.maxPfn ∧ Cowable (flags w) then
      some (leafValue (4096 * frameOf e) (clonedProt m.maxPfn (flags w) (frameOf e)))
    else some e
  refs : ∀ p, (∀ w, touched w → table m.mem src.root 4 w ≠ some p) → refs n.mem spaces p = refs m.mem spaces p
  cow : ∀ w e, touched w → leaf m.mem src.root w = some e → frameOf e ≤ m.maxPfn →
    (Cowable (flags w) ∨ pageIsCow m (frameOf e) = true) → pageIsCow n (frameOf e) = true
  bytes : ∀ w e, touched w → leaf m.mem src.root w = some e → ¬ AnyTable m.mem spaces (frameOf e) →
    SameBytes m.mem n.mem (frameOf e) ∧ ¬ AnyTable n.mem spaces (frameOf e)

omit sound in
theorem cloned_source_frame {w e : Nat}
    (cloned : Cloned m n spaces held src dst touched flags) (inside : touched w) (mapped : leaf m.mem src.root w = some e) :
    table n.mem src.root 4 w = some (frameOf e) := by
  have after := cloned.source w e inside mapped
  split at after
  · rw [table_leaf_some after, frame_leaf_value]
  · exact table_leaf_some after

theorem cloned_refl
    (never : ∀ w, ¬ touched w) : Cloned m m spaces held src dst touched flags :=
  ⟨op_refl sound, fun w inside => absurd inside (never w), fun w _ inside => absurd inside (never w),
    fun w _ inside => absurd inside (never w), fun _ _ => rfl, fun w _ inside => absurd inside (never w),
    fun w _ inside => absurd inside (never w)⟩

omit sound in
theorem cloned_congr {other : Nat → Prop} {given : Nat → Nat} (same : ∀ w, touched w ↔ other w)
    (agree : ∀ w, touched w → flags w = given w)
    (cloned : Cloned m n spaces held src dst touched flags) : Cloned m n spaces held src dst other given := by
  obtain rfl : touched = other := funext fun w => propext (same w)
  refine ⟨cloned.op, cloned.absent, fun w e inside => ?_, fun w e inside => ?_, cloned.refs, fun w e inside => ?_, cloned.bytes⟩
  · rw [← agree w inside]
    exact cloned.copy w e inside
  · rw [← agree w inside]
    exact cloned.source w e inside
  · rw [← agree w inside]
    exact cloned.cow w e inside

omit sound in
theorem cloned_trans {a : Machine} {early late : Nat → Prop} (inSrc : src ∈ spaces)
    (inDst : dst ∈ spaces) (sameLow : dst.lo = src.lo) (sameHigh : dst.hi = src.hi)
    (earlyRange : ∀ w, early w → src.lo ≤ w ∧ w < src.hi) (lateRange : ∀ w, late w → src.lo ≤ w ∧ w < src.hi)
    (first : Cloned m a spaces held src dst early flags) (second : Cloned a n spaces held src dst late flags)
    (apart : ∀ w, early w → ¬ late w) : Cloned m n spaces held src dst (fun w => early w ∨ late w) flags := by
  have srcA : ∀ w, late w → leaf a.mem src.root w = leaf m.mem src.root w := fun w inside =>
    first.op.leaf src inSrc w (lateRange w inside).1 (lateRange w inside).2 (fun both => apart w both.2 inside)
  have srcN : ∀ w, early w → leaf n.mem src.root w = leaf a.mem src.root w := fun w inside =>
    second.op.leaf src inSrc w (earlyRange w inside).1 (earlyRange w inside).2 (fun both => apart w inside both.2)
  have dstN : ∀ w, early w → leaf n.mem dst.root w = leaf a.mem dst.root w := fun w inside =>
    second.op.leaf dst inDst w (by rw [sameLow]; exact (earlyRange w inside).1) (by rw [sameHigh]; exact (earlyRange w inside).2)
      (fun both => apart w inside both.2)
  have size : a.maxPfn = m.maxPfn := first.op.pool.maxPfn
  refine ⟨op_trans (op_mono first.op fun b w both => ⟨both.1, .inl both.2⟩)
    (op_mono second.op fun b w both => ⟨both.1, .inr both.2⟩), fun w inside none => ?_,
    fun w e inside mapped => ?_, fun w e inside mapped => ?_, fun p elsewhere => ?_, fun w e inside mapped tracked marked => ?_,
    fun w e inside mapped off => ?_⟩
  · rcases inside with inside | inside
    · rw [srcN w inside, dstN w inside]
      exact first.absent w inside none
    · exact second.absent w inside ((srcA w inside).trans none)
  · rcases inside with inside | inside
    · rw [dstN w inside]
      exact first.copy w e inside mapped
    · rw [← size]
      exact second.copy w e inside ((srcA w inside).trans mapped)
  · rcases inside with inside | inside
    · rw [srcN w inside]
      exact first.source w e inside mapped
    · rw [← size]
      exact second.source w e inside ((srcA w inside).trans mapped)
  · rw [second.refs p, first.refs p (fun w inside => elsewhere w (.inl inside))]
    intro w inside
    rw [table_four, srcA w inside, ← table_four]
    exact elsewhere w (.inr inside)
  · rcases inside with inside | inside
    · exact second.op.cow src inSrc w _ (earlyRange w inside).1 (earlyRange w inside).2 (fun both => apart w inside both.2)
        (cloned_source_frame first inside mapped)
        (first.cow w e inside mapped tracked marked)
    · refine second.cow w e inside ((srcA w inside).trans mapped) (by rw [size]; exact tracked) (marked.imp_right fun cow => ?_)
      exact first.op.cow src inSrc w _ (lateRange w inside).1 (lateRange w inside).2 (fun both => apart w both.2 inside)
        (table_leaf_some mapped) cow
  rcases inside with inside | inside
  · obtain ⟨sameA, offA⟩ := first.bytes w e inside mapped off
    obtain ⟨sameN, offN⟩ := second.op.bytes _ ⟨offA, .inr (.inr ⟨src, inSrc, w, (earlyRange w inside).1, (earlyRange w inside).2,
      fun both => apart w inside both.2, cloned_source_frame first inside mapped⟩)⟩
    exact ⟨same_bytes_trans sameA sameN, offN⟩
  obtain ⟨sameA, offA⟩ := first.op.bytes _ ⟨off, .inr (.inr ⟨src, inSrc, w, (lateRange w inside).1, (lateRange w inside).2,
    fun both => apart w both.2 inside, table_leaf_some mapped⟩)⟩
  obtain ⟨sameN, offN⟩ := second.bytes w e inside ((srcA w inside).trans mapped) offA
  exact ⟨same_bytes_trans sameA sameN, offN⟩

omit sound in
theorem set_op_refs {sp : Space} {v p : Nat} {value : Option Nat} (nodup : spaces.Nodup) (member : sp ∈ spaces)
    (low : sp.lo ≤ v) (high : v < sp.hi) (absent : leaf m.mem sp.root v = none) (set : SetOp m n spaces held sp v value)
    (other : value.map frameOf ≠ some p) : refs n.mem spaces p = refs m.mem spaces p := by
  have moved := refs_update m.mem n.mem spaces nodup sp member v low high (fun c inside w lowW highW apart => by
    rw [table_four, table_four, set.op.leaf c inside w lowW highW apart]) p
  rw [table_leaf_none absent, one_neg (fun eq => by cases eq), table_four,
    set_op_leaf set member low high, one_neg other] at moved
  omega

theorem clone_page_op (flags : Nat) {va : Nat} (inSrc : src ∈ spaces) (inDst : dst ∈ spaces)
    (different : src ≠ dst) (sameLow : dst.lo = src.lo) (sameHigh : dst.hi = src.hi) (low : src.lo ≤ pageNumber va)
    (high : pageNumber va < src.hi) (absent : leaf m.mem dst.root (pageNumber va) = none) :
    Ends (clonePage m src.root dst.root flags va)
      (fun n => Cloned m n spaces held src dst (fun w => w = pageNumber va) (fun _ => flags)) (Stops m spaces held 2) := by
  have lowD : dst.lo ≤ pageNumber va := by omega
  have highD : pageNumber va < dst.hi := by omega
  have srcFirst : ∀ b w, leafAt src (pageNumber va) b w → (b = src ∨ b = dst) ∧ w = pageNumber va :=
    fun b w here => ⟨.inl here.1, here.2⟩
  have dstFirst : ∀ b w, leafAt dst (pageNumber va) b w → (b = src ∨ b = dst) ∧ w = pageNumber va :=
    fun b w here => ⟨.inr here.1, here.2⟩
  rw [clonePage]
  cases mapped : leaf m.mem src.root (pageNumber va) with
  | none =>
    simp only [get_phys_absent mapped, if_true]
    have never : ∀ w e, w = pageNumber va → leaf m.mem src.root w ≠ some e := by
      rintro w e rfl same
      rw [mapped] at same
      cases same
    refine ⟨op_refl sound, fun w here _ => ?_, fun w e here same => absurd same (never w e here),
      fun w e here same => absurd same (never w e here), fun _ _ => rfl, fun w e here same => absurd same (never w e here),
      fun w e here same => absurd same (never w e here)⟩
    rw [here]
    exact ⟨mapped, absent⟩
  | some e =>
    obtain ⟨value, nonzero, small⟩ := get_phys_mapped sound inSrc low high mapped
    have aligned : alignDown (getPhys m src.root va) = 4096 * frameOf e := by
      rw [alignDown]
      omega
    have frame : 4096 * frameOf e / 4096 = frameOf e := by omega
    have only : ∀ w f, w = pageNumber va → leaf m.mem src.root w = some f → f = e := by
      rintro w f rfl same
      rw [mapped] at same
      exact (Option.some.inj same).symm
    have some_ : ∀ w, w = pageNumber va → leaf m.mem src.root w ≠ none := by
      rintro w rfl none
      rw [mapped] at none
      cases none
    have tableSrc := table_leaf_some mapped
    have tableDst := table_leaf_none absent
    simp only [if_neg nonzero, aligned, pfndbPhysToPage, frame]
    -- in both cases without a remap the source keeps its entry
    have plain : ∀ n, SetOp m n spaces held dst (pageNumber va) (some (leafValue (4096 * frameOf e) (flags &&& vadProtMask))) →
        ¬ (frameOf e ≤ m.maxPfn ∧ Cowable flags) →
        Cloned m n spaces held src dst (fun w => w = pageNumber va) (fun _ => flags) := by
      intro n set notCow
      have prot : clonedProt m.maxPfn flags (frameOf e) = flags &&& vadProtMask := if_neg notCow
      have outside : ¬ leafAt dst (pageNumber va) src (pageNumber va) := fun here => different here.1
      have leafSrc := set.op.leaf src inSrc _ low high outside
      refine ⟨op_mono set.op dstFirst, fun w here none => absurd none (some_ w here), fun w f here same => ?_,
        fun w f here same => ?_, fun p elsewhere => ?_, fun w f here same tracked either => ?_, fun w f here same off => ?_⟩
      · rw [only w f here same, here, prot]
        exact set_op_leaf set inDst lowD highD
      · rw [only w f here same, if_neg notCow, here, leafSrc, mapped]
      · refine set_op_refs sound.nodup inDst lowD highD absent set ?_
        rw [Option.map_some, frame_leaf_value, ← tableSrc]
        exact elsewhere _ rfl
      · rw [only w f here same] at tracked either ⊢
        rcases either with cowable | cow
        · exact absurd ⟨tracked, cowable⟩ notCow
        · exact set.op.cow src inSrc _ _ low high outside tableSrc cow
      · rw [only w f here same] at off ⊢
        exact set.op.bytes _ ⟨off, .inr (.inr ⟨src, inSrc, _, low, high, outside, tableSrc⟩)⟩
    by_cases foreign : frameOf e > m.maxPfn
    · simp only [if_pos foreign]
      refine ends_mono (map_page_phys_op (flags &&& vadProtMask) sound inDst lowD
        highD absent ⟨by omega, .inl (by rw [frame]; exact foreign)⟩) ?_ (fun _ => stops_more (by omega))
      intro n set
      rw [alignDown, frame] at set
      exact plain n set (fun both => by omega)
    simp only [if_neg foreign]
    have tracked : frameOf e ≤ m.maxPfn := by omega
    have positive := refs_pos inSrc low high tableSrc
    have inUse := (mapped_frame sound inSrc low high mapped tracked).1
    by_cases cowable : Cowable flags
    · have branch := cowable
      rw [Cowable] at branch
      rw [if_pos branch]
      refine ends_bind (remap_page_op (clearBits (flags &&& vadProtMask) vmmWritable) sound inSrc low high tableSrc inUse) ?_
      intro a remapped
      have tableA := table_leaf_value small remapped.leaf
      have trackedA : frameOf e ≤ a.maxPfn := by rw [remapped.op.pool.maxPfn]; exact tracked
      have positiveA := refs_pos inSrc low high tableA
      have usedA := mapped_used remapped.op.sound trackedA (by omega)
      have stopsA : ∀ failure, Stops a spaces held 1 failure → Stops m spaces held 2 failure := fun failure stops =>
        stops_pool remapped.op.pool (stops_more (by omega) stops)
      refine ends_then (page_mark_cow_op remapped.op.sound
        (leafAt src (pageNumber va)) usedA) stopsA ?_
      rintro b ⟨markOp, memB, marked⟩
      have outsideD : ¬ leafAt src (pageNumber va) dst (pageNumber va) := fun here => different here.1.symm
      have opB := op_trans remapped.op markOp
      have leafDB : leaf b.mem dst.root (pageNumber va) = none := by
        rw [opB.leaf dst inDst _ lowD highD outsideD]
        exact absent
      have tableSB : table b.mem src.root 4 (pageNumber va) = some (frameOf e) := by rw [memB]; exact tableA
      have positiveB := refs_pos inSrc low high tableSB
      have keptB : one (table b.mem dst.root 4 (pageNumber va) = some (frameOf e)) <
          refs b.mem spaces (frameOf e) + tabs b.mem spaces (frameOf e) + held (frameOf e) := by
        rw [table_leaf_none leafDB, one_neg (fun eq => by cases eq)]
        omega
      refine ends_mono (map_page_op (clearBits (flags &&& vadProtMask) vmmWritable)
        opB.sound inDst lowD highD (by rw [opB.pool.maxPfn]; exact tracked) keptB) ?_
        (fun failure stops => stops_pool opB.pool (stops_more (by omega) stops))
      intro n set
      have prot : clonedProt m.maxPfn flags (frameOf e) = clearBits (flags &&& vadProtMask) vmmWritable :=
        if_pos ⟨tracked, cowable⟩
      have outsideS : ¬ leafAt dst (pageNumber va) src (pageNumber va) := fun here => different here.1
      refine ⟨op_trans (op_mono opB srcFirst) (op_mono set.op dstFirst),
        fun w here none => absurd none (some_ w here), fun w f here same => ?_, fun w f here same => ?_, fun p elsewhere => ?_,
        fun w f here same _ _ => ?_, fun w f here same off => ?_⟩
      · rw [only w f here same, here, prot]
        exact set_op_leaf set inDst lowD highD
      · rw [only w f here same, if_pos ⟨tracked, cowable⟩, prot, here, set.op.leaf src inSrc _ low high outsideS, memB]
        exact remapped.leaf
      · rw [set_op_refs sound.nodup inDst lowD highD leafDB set, memB, remapped.refs]
        rw [Option.map_some, frame_leaf_value, ← tableSrc]
        exact elsewhere _ rfl
      · rw [only w f here same]
        exact set.op.cow src inSrc _ _ low high outsideS tableSB marked
      rw [only w f here same] at off ⊢
      obtain ⟨sameA, offA⟩ := remapped.bytes off
      rw [← memB] at sameA offA
      obtain ⟨sameN, offN⟩ := set.op.bytes _ ⟨offA, .inr (.inr ⟨src, inSrc, _, low, high, outsideS, tableSB⟩)⟩
      exact ⟨same_bytes_trans sameA sameN, offN⟩
    have branch := cowable
    rw [Cowable] at branch
    rw [if_neg branch]
    have kept : one (table m.mem dst.root 4 (pageNumber va) = some (frameOf e)) <
        refs m.mem spaces (frameOf e) + tabs m.mem spaces (frameOf e) + held (frameOf e) := by
      rw [tableDst, one_neg (fun eq => by cases eq)]
      omega
    refine ends_mono (map_page_op (flags &&& vadProtMask) sound inDst lowD highD tracked kept) ?_ (fun _ => stops_more (by omega))
    intro n set
    exact plain n set (fun both => cowable both.2)

theorem op_of_free_write {x : Bytes}
    (free : q ∈ m.free) (bytes : ∀ p, p ≠ q → SameBytes m.mem x p) (op : Op { m with mem := x } n spaces held changed)
    (taken : q ∉ n.free) : Op m n spaces held changed := by
  have offTable : ∀ p, AnyTable m.mem spaces p → p ≠ q := fun p at_ same =>
    any_table_not_free sound.toShape at_ (same ▸ free)
  have walk : SameWalk m.mem x spaces := same_walk_of_bytes m.mem x spaces (fun t at_ => bytes t (offTable t at_))
  have leaves : ∀ b ∈ spaces, ∀ w, b.lo ≤ w → w < b.hi → leaf x b.root w = leaf m.mem b.root w := by
    intro b member w low high
    apply leaf_congr _ low high
    intro depth key t bound covers found i index
    have at_ : AnyTable m.mem spaces t := ⟨b, member, depth, key, bound, covers, found⟩
    exact entry_same_bytes index (bytes t (offTable t at_))
  refine ⟨op.sound, fun full => op.full (same_walk_full walk full),
    ⟨op.pool.maxPfn, op.pool.kernelPtable, op.pool.mmioRegions, op.pool.usable⟩, fun p inside => ?_,
    fun b member w low high outside => ?_, fun b member outside p at_ => ?_, fun p anchored => ?_,
    fun b member w p low high outside mapped cow => ?_⟩
  · have different : p ≠ q := fun same => taken (same ▸ inside)
    rcases op.free p inside with ⟨old, same⟩ | zero
    · exact .inl ⟨old, same_bytes_trans (bytes p different) same⟩
    · exact .inr zero
  · exact (op.leaf b member w low high outside).trans (leaves b member w low high)
  · have same : ∀ t, TableOf m.mem b t → SameBytes m.mem x t := fun t isTable => bytes t (offTable t (table_of_any member isTable))
    exact same_bytes_trans (same p at_) (op.tables b member outside p (tables_carry same at_))
  · have different : p ≠ q := fun same => anchored_not_free m spaces held changed p sound anchored (same ▸ free)
    have anchoredX : Anchored { m with mem := x } spaces held changed p :=
      anchored_carry anchored ⟨rfl, rfl, rfl, fun _ => Iff.rfl⟩ (fun _ => Nat.le_refl _)
        (fun b member w low high _ => leaves b member w low high)
        (fun at_ => anchored.1 (same_walk_any_table (same_walk_symm walk) p at_))
    obtain ⟨same, off⟩ := op.bytes p anchoredX
    exact ⟨same_bytes_trans (bytes p different) same, off⟩
  refine op.cow b member w p low high outside ?_ cow
  simp only
  rw [table_four, leaves b member w low high, ← table_four]
  exact mapped

structure Faulted (m n : Machine) (spaces : List Space) (held : Nat → Nat) (sp : Space) (v prot : Nat) : Prop where
  op : Op m n spaces held (leafAt sp v)
  owned : ∃ e q, leaf m.mem sp.root v = some e ∧ frameOf e ≤ m.maxPfn ∧ q ≤ m.maxPfn ∧
    leaf n.mem sp.root v = some (leafValue (4096 * q) prot) ∧ refs n.mem spaces q = 1 ∧
    (¬ AnyTable m.mem spaces (frameOf e) → ¬ AnyTable n.mem spaces q ∧ ∀ i,
      i < 4096 → n.mem (4096 * q + i) = m.mem (4096 * frameOf e + i))

omit sound in
theorem page_number_align (addr : Nat) : pageNumber (alignDown addr) = pageNumber addr := by
  rw [pageNumber, alignDown, pageNumber]
  omega

theorem fault_in_place (sp : Space) (va prot q e : Nat) (member : sp ∈ spaces)
    (low : sp.lo ≤ pageNumber va) (high : pageNumber va < sp.hi) (mapped : leaf m.mem sp.root (pageNumber va) = some e)
    (frame : frameOf e = q) (tracked : q ≤ m.maxPfn) (alone : pageIsShared m q = false) :
    Ends (do
        let m ← pageRef m q
        let m ← unmapPage m sp.root va
        let m ← pageClearCow m q
        let m ← mapPage m sp.root va q prot
        let m ← pageUnref m q
        .ok (m, true))
      (fun (n, handled) => handled = true ∧ Faulted m n spaces held sp (pageNumber va) prot) (Stops m spaces held 2) := by
  subst frame
  have inUse := (mapped_frame sound member low high mapped tracked).1
  have tableM := table_leaf_some mapped
  have single : refs m.mem spaces (frameOf e) = 1 := by
    obtain ⟨use, record⟩ := Option.ne_none_iff_exists'.mp inUse
    have shared := (sound.counts.used _ use record).1
    have positive := refs_pos member low high tableM
    simp only [pageIsShared, record, Option.any_some, decide_eq_false_iff_not] at alone
    omega
  have heldQ : holding held (frameOf e) (frameOf e) = held (frameOf e) + 1 := holding_self held _
  refine ends_then (page_ref_holds sound inUse) (fun _ => stops_more (by omega)) ?_
  intro a holds
  have covered : ∀ c failure, SamePool m c → Stops c spaces (holding held (frameOf e)) 1 failure → Stops m spaces held 2 failure :=
    fun c failure pool stops => stops_pool pool (stops_holding stops)
  refine ends_then (unmap_page_op holds.sound member low high) (fun failure => covered a failure holds.pool) ?_
  intro b cleared
  have poolB := same_pool_trans holds.pool cleared.op.pool
  have trackedB : frameOf e ≤ b.maxPfn := by rw [poolB.maxPfn]; exact tracked
  have usedB := mapped_used cleared.op.sound trackedB (by omega)
  have gone : refs b.mem spaces (frameOf e) = 0 := by
    have moved := refs_update a.mem b.mem spaces sound.nodup sp member _ low high (fun c other w lowW highW apart => by
      rw [table_four, table_four, cleared.op.leaf c other w lowW highW apart]) (frameOf e)
    rw [holds.mem, tableM, one_pos rfl, single, table_leaf_none (set_op_leaf cleared member low high),
      one_neg (fun eq => by cases eq)] at moved
    omega
  refine ends_then (page_clear_cow_op cleared.op.sound (leafAt sp (pageNumber va)) usedB gone)
    (fun failure => covered b failure poolB) ?_
  rintro c ⟨clearOp, _⟩
  rw [← bind_assoc]
  refine ends_bind (map_held_op prot holds (op_trans cleared.op clearOp) member low high) ?_
  rintro n ⟨op, leafN, tableN, _, _, kept⟩
  refine ⟨rfl, op, e, frameOf e, mapped, tracked, tracked, leafN, ?_, fun off => ?_⟩
  · rw [same_frame_refs op (tableN.trans tableM.symm)]
    exact single
  obtain ⟨same, offN⟩ := kept off
  exact ⟨offN, fun i small => same _ (by omega) (by omega)⟩

theorem fault_copy (sp : Space) (va prot e : Nat) (member : sp ∈ spaces)
    (low : sp.lo ≤ pageNumber va) (high : pageNumber va < sp.hi) (mapped : leaf m.mem sp.root (pageNumber va) = some e)
    (tracked : frameOf e ≤ m.maxPfn) :
    Ends (do
        let (m, newPage) ← pallocPage m
        let m := { m with mem := copy m.mem (4096 * newPage) (4096 * frameOf e) 4096 }
        let m ← unmapPage m sp.root va
        let m ← mapPage m sp.root va newPage prot
        let m ← pageUnref m newPage
        .ok (m, true))
      (fun (n, handled) => handled = true ∧ Faulted m n spaces held sp (pageNumber va) prot) (Stops m spaces held 2) := by
  cases popped : pallocPage m with
  | error failure =>
    exact @stops_more m spaces held 1 2 failure (by omega) (ends_failure (palloc_holds sound) popped)
  | ok taken =>
    obtain ⟨taken, q⟩ := taken
    obtain ⟨rest, list, rfl⟩ := palloc_page_ok popped
    have inside : q ∈ m.free := by simp [list]
    -- the copy may as well be made while the page is still free
    obtain ⟨x, source⟩ : ∃ x, x = copy m.mem (4096 * q) (4096 * frameOf e) 4096 := ⟨_, rfl⟩
    have bytes : ∀ p, p ≠ q → SameBytes m.mem x p := by
      intro p different i lowI highI
      rw [source]
      exact copy_outside (by omega)
    have offTable : ∀ p, AnyTable m.mem spaces p → p ≠ q := fun p at_ same =>
      any_table_not_free sound.toShape at_ (same ▸ inside)
    obtain ⟨soundX, walkX⟩ := sound_of_bytes m { m with mem := x } spaces held sound rfl rfl rfl
      (fun t at_ => bytes t (offTable t at_))
    obtain ⟨a, state⟩ : ∃ a : Machine,
      a = { m with mem := x, free := rest, used := Function.update m.used q (some ⟨1, 0, false⟩) } := ⟨_, rfl⟩
    obtain ⟨holds, _, _, _⟩ := ends_value (palloc_holds soundX) (a, q) (by simp [pallocPage, list, state])
    refine ends_bind rfl ?_
    rintro _ rfl
    simp only
    rw [← source, ← state]
    refine ends_then (unmap_page_op holds.sound member low high) (fun failure stops =>
      stops_holding (@stops_pool m spaces _ failure a 1 ⟨holds.pool.maxPfn, holds.pool.kernelPtable, holds.pool.mmioRegions,
        holds.pool.usable⟩ stops)) ?_
    intro b cleared
    rw [← bind_assoc]
    refine ends_then (map_held_op prot holds cleared.op member low high)
      (fun failure stops => stops_pool ⟨rfl, rfl, rfl, fun _ => Iff.rfl⟩ stops) ?_
    rintro n ⟨op, leafN, tableN, notFree, _, kept⟩
    have opM := op_of_free_write sound inside bytes op notFree
    have offX : ¬ AnyTable x spaces q := fun at_ =>
      offTable q (same_walk_any_table (same_walk_symm walkX) q at_) rfl
    obtain ⟨same, offN⟩ := kept offX
    refine ⟨rfl, opM, e, q, mapped, tracked, (sound.free.tracked q inside).1, leafN,
      fresh_refs sound member low high opM inside tableN, fun _ => ⟨offN, fun i small => ?_⟩⟩
    rw [same _ (by omega) (by omega)]
    simp only [source, copy_inside small]

end

end Cow

end Lyr.Mm
