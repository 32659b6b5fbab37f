import Lyr.Mm.VadInvariant
import Lyr.Mm.VmmSpaces

set_option autoImplicit false

namespace Lyr.Mm

open Lyr.Lib

def Covered (x : Bytes) (vas : Vas) : Prop := ∀ v, v < 2 ^ 35 → leaf x vas.pml4 v ≠ none → InVads vas.list v

variable {list : List Vad} {v pt hint length flags : Nat} {m : Machine} {spaces : List Space} {held : Nat → Nat} {vas : Vas}

theorem in_vads_congr {other : List Vad} (same : other.map (fun d => (d.start, d.stop)) = list.map (fun d => (d.start, d.stop)))
    (inside : InVads list v) : InVads other v := by
  obtain ⟨d, member, low, high⟩ := inside
  have listed : (d.start, d.stop) ∈ other.map (fun d => (d.start, d.stop)) := same ▸ List.mem_map.mpr ⟨d, member, rfl⟩
  obtain ⟨e, inside, range⟩ := List.mem_map.mp listed
  obtain ⟨sameStart, sameStop⟩ := Prod.mk.inj range
  exact ⟨e, inside, by omega, by omega⟩

theorem in_vads_insert (d : Vad) (list : List Vad) (v : Nat) :
    InVads (vadInsert d list) v ↔ (d.start ≤ 4096 * v ∧ 4096 * v < d.stop) ∨ InVads list v := by
  rw [← in_vads_cons]
  simp only [InVads, vad_insert_mem, List.mem_cons]

theorem in_vads_remove {start stop : Nat} (inside : InVads list v)
    (outside : ¬ (start ≤ 4096 * v ∧ 4096 * v < stop)) : InVads (vadRemoveRange start stop list) v := by
  induction list with
  | nil => exact inside
  | cons d rest ih =>
    rw [remove_range_cons]
    rcases (in_vads_cons d rest v).mp inside with ⟨low, high⟩ | later
    · have kept : ∃ e ∈ (if d.stop ≤ start ∨ stop ≤ d.start then [d] else remainders start stop d), e.start ≤ 4096 * v ∧
        4096 * v < e.stop := by
        obtain ⟨leftStart, leftStop⟩ := clone_segment_range d d.start start
        obtain ⟨rightStart, rightStop⟩ := clone_segment_range d stop d.stop
        by_cases apart : d.stop ≤ start ∨ stop ≤ d.start
        · exact ⟨d, by simp [apart], low, high⟩
        rw [if_neg apart, remainders]
        by_cases left : 4096 * v < start
        · refine ⟨vadCloneSegment d d.start start, ?_, by omega, by omega⟩
          rw [if_pos (show d.start < start by omega)]
          simp
        refine ⟨vadCloneSegment d stop d.stop, ?_, by omega, by omega⟩
        rw [if_pos (show stop < d.stop by omega)]
        simp
      obtain ⟨e, member, range⟩ := kept
      exact ⟨e, List.mem_append_left _ member, range⟩
    · obtain ⟨e, member, range⟩ := ih later
      exact ⟨e, List.mem_append_right _ member, range⟩

theorem stops_user {slack : Nat} {failure : Panic}
    (stops : Stops m (userSpace pt :: spaces) held slack failure) : Stops m spaces held slack failure := by
  rwa [Stops, show tableRoom m (userSpace pt :: spaces) = tableRoom m spaces by simp [tableRoom, userSpace]] at stops

section Calls

variable {m : Machine} {spaces : List Space} {held : Nat → Nat} {vas : Vas} (sound : Sound m spaces held)
  (member : userSpace vas.pml4 ∈ spaces) (vads : VadsSound vas.list)

variable (m spaces held vas) in
structure MappedAnon (n : Machine) (changed : Vas) (hint length flags base : Nat) : Prop where
  placed : vasPlace vas hint (alignUp length) flags = some base
  state : changed = { vas with
    list := vadInsert (vadAlloc base (base + alignUp length) (flags ||| vadAnonymous)) vas.list, userStart := base + alignUp length }
  area : VadSound (vadAlloc base (base + alignUp length) (flags ||| vadAnonymous))
  apart : Apart base (base + alignUp length) vas.list
  op : Op m n spaces held (Pages (userSpace vas.pml4) base (base + alignUp length))
  fresh : ∀ v, base ≤ 4096 * v → 4096 * v < base + alignUp length →
    FreshPage m spaces vas.pml4 n v ((flags ||| vadAnonymous) &&& vadProtMask)

include sound member vads

section

variable (bounded : length ≠ 0 → alignUp length = 0 → vasPlace vas hint 0 flags = none)
include bounded

omit sound member in
theorem placed_ends {rest : Nat → Result (Machine × Vas × Nat)} {post : Machine × Vas × Nat → Prop} {fails : Panic → Prop}
    (same : post (m, vas, 0))
    (next : ∀ base, length ≠ 0 → vasPlace vas hint (alignUp length) flags = some base → base % 4096 = 0 →
      base + alignUp length ≤ vasUserEnd →
      Apart base (base + alignUp length) vas.list → (∀ kind, VadSound (vadAlloc base (base + alignUp length) kind)) →
        Ends (rest base) post fails) :
    Ends (if length = 0 then .ok (m, vas, 0) else match vasPlace vas hint (alignUp length) flags with
      | none => .ok (m, vas, 0)
      | some base => rest base) post fails := by
  by_cases empty : length = 0
  · rw [if_pos empty]
    exact same
  rw [if_neg empty]
  cases place : vasPlace vas hint (alignUp length) flags with
  | none => exact same
  | some base =>
    have nonzero : alignUp length ≠ 0 := by
      intro wrapped
      rw [wrapped, bounded empty wrapped] at place
      cases place
    have rounded := align_up_aligned length
    obtain ⟨aligned, below, apart⟩ := vas_place_spec vads (by rw [alignUp]; omega) place
    exact next base empty place aligned below apart
      (fun _ => ⟨by simp only [vadAlloc]; omega, aligned, by simp only [vadAlloc]; omega, below⟩)

theorem map_anon_op : Ends (vasMapAnon m vas hint length flags)
      (fun (n, changed, base) => (n = m ∧ changed = vas ∧ base = 0) ∨ MappedAnon m spaces held vas n changed hint length flags base)
      (Stops m spaces held 2) := by
  refine placed_ends vads bounded (.inl ⟨rfl, rfl, rfl⟩) (fun base _ place _ _ apart area => ?_)
  refine ends_bind (commit_anon_op m member sound (area _)) ?_
  rintro n ⟨op, fresh⟩
  exact .inr ⟨place, rfl, area _, apart, op, fresh⟩

variable (m spaces held vas) in
structure MappedPhys (n : Machine) (changed : Vas) (hint length flags base : Nat) : Prop where
  state : changed = { vas with list := vadInsert (vadAlloc base (base + alignUp length) (clearBits flags vadAnonymous)) vas.list }
  area : VadSound (vadAlloc base (base + alignUp length) (clearBits flags vadAnonymous))
  apart : Apart base (base + alignUp length) vas.list
  op : Op m n spaces held (Pages (userSpace vas.pml4) base (base + alignUp length))

theorem map_phys_op {phys : Nat} (covered : Covered m.mem vas)
    (countable : length ≠ 0 → vasPlace vas hint (alignUp length) flags ≠ none →
      ∀ off ∈ pagesOf 0 (alignUp length), Countable m ((alignDown phys + off) % 2 ^ 64)) :
    Ends (vasMapPhys m vas hint phys length flags)
      (fun (n, changed, base) => (n = m ∧ changed = vas ∧ base = 0) ∨ MappedPhys m spaces held vas n changed hint length flags base)
      (Stops m spaces held 2) := by
  refine placed_ends vads bounded (.inl ⟨rfl, rfl, rfl⟩) (fun base nonempty place aligned below apart area => ?_)
  have absent : ∀ v, base ≤ 4096 * v → 4096 * v < base + alignUp length → leaf m.mem vas.pml4 v = none := by
    intro v low high
    by_contra mapped
    obtain ⟨d, inside, lowD, highD⟩ := covered v (user_page v _ high below).1 mapped
    have away := apart d inside
    omega
  refine ends_bind (map_phys_range_op (flags &&& vadProtMask) sound member aligned (align_up_aligned length) below absent
    (countable nonempty (by rw [place]; exact Option.some_ne_none _))) ?_
  intro n op
  exact .inr ⟨rfl, area _, apart, op⟩

end

variable (m spaces held vas) in
structure Unmapped (n : Machine) (changed : Vas) (start stop : Nat) : Prop where
  state : changed = { vas with list := vadRemoveRange start stop vas.list }
  op : Op m n spaces held (fun b w => b = userSpace vas.pml4 ∧ Visited start stop vas.list w)
  gone : ∀ v, Visited start stop vas.list v → leaf n.mem vas.pml4 v = none
  refs : ∀ p, refs n.mem spaces p ≤ refs m.mem spaces p

theorem unmap_op (start length : Nat) : Ends (vasUnmap m vas start length) (fun (n, changed) => (n = m ∧ changed = vas ∧ length = 0) ∨
        (length ≠ 0 ∧ Unmapped m spaces held vas n changed (alignDown start) ((alignDown start + alignUp length) % 2 ^ 64)))
      (Stops m spaces held 2) := by
  rw [vasUnmap]
  by_cases empty : length = 0
  · rw [if_pos empty]
    exact .inl ⟨rfl, rfl, empty⟩
  rw [if_neg empty]
  have rounded := align_up_aligned length
  have aligned : alignDown start % 4096 = 0 := by rw [alignDown]; omega
  refine ends_bind (unmap_pages_op m member sound vads aligned (by omega)) ?_
  rintro n ⟨op, gone, fewer⟩
  exact .inr ⟨empty, rfl, op, gone, fewer⟩

theorem protect_op (start length newProt : Nat) : Ends (vasProtect m vas start length newProt)
      (fun (n, changed) => (n = m ∧ changed = vas ∧ length = 0) ∨ (length ≠ 0 ∧ vasProtect m vas start length newProt = .ok
        (n, changed) ∧
          Protected m n spaces held (userSpace vas.pml4)
            (Visited (alignDown start) ((alignDown start + alignUp length) % 2 ^ 64) vas.list) (newProt &&& vadProtMask)))
      (Stops m spaces held 2) := by
  have rounded := align_up_aligned length
  have aligned : alignDown start % 4096 = 0 := by rw [alignDown]; omega
  have ends : Ends (vasProtect m vas start length newProt) (fun (n, changed) => (n = m ∧ changed = vas ∧ length = 0) ∨ (length ≠ 0 ∧
      Protected m n spaces held (userSpace vas.pml4)
        (Visited (alignDown start) ((alignDown start + alignUp length) % 2 ^ 64) vas.list) (newProt &&& vadProtMask)))
          (Stops m spaces held 2) := by
    rw [vasProtect]
    by_cases empty : length = 0
    · rw [if_pos empty]
      exact .inl ⟨rfl, rfl, empty⟩
    rw [if_neg empty]
    exact ends_bind (protect_vads_op m member sound _ _ _ vas.list vads aligned (by omega)) (fun _ post => .inr ⟨empty, post⟩)
  exact ends_imp (ends_known ends) (fun _ both => both.2.imp_right (fun post => ⟨post.1, both.1, post.2⟩))

variable (m spaces held vas) in
structure ClonedVas (n : Machine) (dst : Vas) : Prop where
  list : dst.list = vas.list.map cloneVad
  pages : ∃ a, Created m a spaces held dst.pml4 ∧ vas.pml4 ≠ dst.pml4 ∧
    Cloned a n (userSpace dst.pml4 :: spaces) held (userSpace vas.pml4) (userSpace dst.pml4) (InVads vas.list) (flagsAt vas.list)

theorem clone_op {keep : Nat → Prop} (windows : Windows m keep) (kept : ∀ p, keep p → p ∉ m.free) :
    Ends (vasClone m vas) (fun (n, dst) => ClonedVas m spaces held vas n dst) (Stops m spaces held 2) := by
  have ends : Ends (vasClone m vas) (fun (n, dst) => ∃ a, Created m a spaces held dst.pml4 ∧ vas.pml4 ≠ dst.pml4 ∧
      Cloned a n (userSpace dst.pml4 :: spaces) held (userSpace vas.pml4) (userSpace dst.pml4) (InVads vas.list) (flagsAt vas.list))
      (Stops m spaces held 2) := by
    have create : Ends (vasCreate m) (fun (a, fresh) => Created m a spaces held fresh.pml4) (Stops m spaces held 2) :=
      ends_then (ptable_create_op sound windows kept) (fun _ => stops_more (by omega)) (fun _ post => post)
    refine ends_bind create ?_
    rintro ⟨a, fresh⟩ created
    have different : vas.pml4 ≠ fresh.pml4 := by
      intro same
      have root : AnyTable m.mem spaces vas.pml4 := ⟨_, member, 0, 0, by omega, root_covers vas.pml4, rfl⟩
      exact any_table_not_free sound.toShape root (same ▸ created.taken.1)
    refine ends_then (clone_vads_op a [] created.sound (List.mem_cons_of_mem _ member) (by simp) different vads (fun v inside => ?_))
      (fun _ stops => stops_pool created.pool (stops_user stops)) (fun _ post => ⟨a, created, different, post⟩)
    exact lower_empty_leaf created.empty (in_vads_user vads inside)
  exact ends_imp (ends_known ends) (fun _ both => ⟨clone_list vads both.1, both.2⟩)

end Calls

theorem page_fault_op (addr err : Nat) (sound : Sound m spaces held) (member : userSpace vas.pml4 ∈ spaces)
    (vads : VadsSound vas.list) :
    Ends (vasHandlePageFault m vas addr err)
      (fun (n, handled) => (handled = false ∧ n = m) ∨ (handled = true ∧ ∃ d, vasFind vas (alignDown addr) = some d ∧
        d.flags &&& vmmWritable ≠ 0 ∧ d.flags &&& vadShared = 0 ∧
        Faulted m n spaces held (userSpace vas.pml4) (pageNumber addr) (d.flags &&& vadProtMask)))
      (Stops m spaces held 2) := by
  rw [vasHandlePageFault]
  cases found : vasFind vas (alignDown addr) with
  | none => exact .inl ⟨rfl, rfl⟩
  | some d =>
    have inside : d ∈ vas.list := List.mem_of_find?_eq_some found
    have covers := List.find?_some found
    simp only [decide_eq_true_eq] at covers
    obtain ⟨small, _⟩ := user_page (addr / 4096) d.stop covers.2 (vads.each d inside).below
    have number : pageNumber (alignDown addr) = pageNumber addr := page_number_align addr
    have inUser : pageNumber addr < 2 ^ 35 := by
      rw [pageNumber]
      omega
    simp only
    split
    · exact .inl ⟨rfl, rfl⟩
    split
    · exact .inl ⟨rfl, rfl⟩
    rename_i permitted
    rw [not_or, Decidable.not_not] at permitted
    split
    · exact .inl ⟨rfl, rfl⟩
    rename_i nonzero
    cases mapped : leaf m.mem vas.pml4 (pageNumber addr) with
    | none => exact absurd (@get_phys_absent m (userSpace vas.pml4) _ (number.symm ▸ mapped)) nonzero
    | some e =>
      obtain ⟨value, _, physical⟩ := get_phys_mapped sound member
        (Nat.zero_le _) (by rw [number]; exact inUser) (by rw [number]; exact mapped)
      have aligned : alignDown (getPhys m vas.pml4 (alignDown addr)) = 4096 * frameOf e := by
        rw [show getPhys m vas.pml4 (alignDown addr) = _ from value, alignDown, alignDown]
        omega
      have frame : 4096 * frameOf e / 4096 = frameOf e := by omega
      simp only [aligned, pfndbPhysToPage, frame]
      by_cases foreign : frameOf e > m.maxPfn
      · simp only [if_pos foreign]
        exact .inl ⟨rfl, rfl⟩
      simp only [if_neg foreign]
      split
      · exact .inl ⟨rfl, rfl⟩
      have give : ∀ n handled, (handled = true ∧
          Faulted m n spaces held (userSpace vas.pml4) (pageNumber (alignDown addr)) (d.flags &&& vadProtMask)) →
          (handled = false ∧ n = m) ∨ (handled = true ∧ ∃ f, some d = some f ∧ f.flags &&& vmmWritable ≠ 0 ∧
            f.flags &&& vadShared = 0 ∧
            Faulted m n spaces held (userSpace vas.pml4) (pageNumber addr) (f.flags &&& vadProtMask)) := by
        rintro n handled ⟨handled, faulted⟩
        rw [number] at faulted
        exact .inr ⟨handled, d, rfl, permitted.1, permitted.2, faulted⟩
      split
      · rename_i alone
        exact ends_imp (fault_in_place sound (userSpace vas.pml4) (alignDown addr)
          (d.flags &&& vadProtMask) (frameOf e) e member (Nat.zero_le _) (by rw [number]; exact inUser)
            (by rw [number]; exact mapped) rfl (by omega)
          alone) (fun result => give result.1 result.2)
      exact ends_imp (fault_copy sound (userSpace vas.pml4) (alignDown addr) (d.flags &&& vadProtMask) e
        member (Nat.zero_le _) (by rw [number]; exact inUser) (by rw [number]; exact mapped) (by omega))
        (fun result => give result.1 result.2)

theorem uncommit_all_op (m : Machine) (sound : Sound m spaces held) (member : userSpace pt ∈ spaces) (vads : VadsSound list) :
    Ends (list.foldlM (fun m d => uncommitRange m pt d.start d.stop) m)
      (fun n => Op m n spaces held (fun b w => b = userSpace pt ∧ InVads list w) ∧ ∀ v, InVads list v → leaf n.mem pt v = none)
      (Stops m spaces held 2) := by
  induction list generalizing m with
  | nil =>
    refine ⟨op_refl sound, fun v inside => ?_⟩
    obtain ⟨d, listed, _⟩ := inside
    cases listed
  | cons d rest ih =>
    have own := vads.each d (by simp)
    rw [List.foldlM_cons]
    refine ends_bind (uncommit_range_op m member sound own.startAligned own.stopAligned own.below) ?_
    rintro a ⟨opA, goneA, _⟩
    refine ends_mono (ih a opA.sound (vads_sound_tail vads)) ?_ (fun failure stops => stops_pool opA.pool stops)
    rintro n ⟨opN, goneN⟩
    refine ⟨op_trans (op_mono opA fun b w here => ?_) (op_mono opN fun b w here => ?_), fun v inside => ?_⟩
    · exact ⟨here.1, (in_vads_cons d rest w).mpr (.inl here.2)⟩
    · exact ⟨here.1, (in_vads_cons d rest w).mpr (.inr here.2)⟩
    rcases (in_vads_cons d rest v).mp inside with here | later
    · have same := opN.leaf (userSpace pt) member v (Nat.zero_le v) (in_vads_user vads inside)
        (fun both => in_vads_apart vads v here both.2)
      exact same.trans (goneA v here.1 here.2)
    · exact goneN v later

theorem destroy_op {rest : List Space} (sound : Sound m (userSpace vas.pml4 :: rest) held)
    (full : Full m.mem (userSpace vas.pml4 :: rest)) (vads : VadsSound vas.list) (covered : Covered m.mem vas)
    (user : vas.pml4 ≠ m.kernelPtable) :
    Ends (vasDestroy m vas) (fun n => ∃ a, Op m a (userSpace vas.pml4 :: rest) held (fun b _ => b = userSpace vas.pml4) ∧
        Op a n rest held (fun _ _ => False)) (Stops m rest held 2) := by
  refine ends_then (uncommit_all_op m sound (by simp) vads) (fun failure stops => stops_user stops) ?_
  rintro a ⟨op, gone⟩
  have unmapped : ∀ v, v < 2 ^ 35 → leaf a.mem vas.pml4 v = none := by
    intro v small
    by_cases inside : InVads vas.list v
    · exact gone v inside
    have same := op.leaf (userSpace vas.pml4) (by simp) v (Nat.zero_le v) small (fun both => inside both.2)
    rw [show leaf a.mem vas.pml4 v = leaf m.mem vas.pml4 v from same]
    by_contra mapped
    exact inside (covered v small mapped)
  have empty := full_lower_empty (by simp) (op.full full) unmapped
  refine ends_mono (ptable_destroy_op op.sound empty (by rw [op.pool.kernelPtable]; exact user))
    (fun n dropped => ⟨a, op_mono op (fun b w both => both.1), dropped⟩)
    (fun failure stops => stops_pool op.pool stops)

end Lyr.Mm
