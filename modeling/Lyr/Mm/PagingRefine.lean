import Lyr.Mm.PagingOp
import Lyr.Mm.PagingSpace

set_option autoImplicit false

namespace Lyr.Mm

open Lyr.Lib Function

inductive MapCall where
  | mapPage (virt page flags : Nat)
  | mapPagePhys (virt phys flags : Nat)
  | unmapPage (virt : Nat)
deriving DecidableEq, Repr

def MapCall.virt : MapCall → Nat
  | .mapPage virt _ _ => virt
  | .mapPagePhys virt _ _ => virt
  | .unmapPage virt => virt

def MapCall.step (pt : Nat) (m : Machine) : MapCall → Result Machine
  | .mapPage virt page flags => Lyr.Mm.mapPage m pt virt page flags
  | .mapPagePhys virt phys flags => Lyr.Mm.mapPagePhys m pt virt phys flags
  | .unmapPage virt => Lyr.Mm.unmapPage m pt virt

abbrev Mappings := Nat → Option (Nat × Nat)

def storedFlags (flags : Nat) : Nat := (flags &&& pageFlagsMask) ||| vmmPresent

def MapCall.apply (maps : Mappings) : MapCall → Mappings
  | .mapPage virt page flags => update maps (virt / 4096) (some (page, storedFlags flags))
  | .mapPagePhys virt phys flags =>
    match maps (virt / 4096) with
    | none => update maps (virt / 4096) (some (phys / 4096, storedFlags flags))
    | some _ => maps
  | .unmapPage virt => update maps (virt / 4096) none

def Mappings.phys (maps : Mappings) (virt : Nat) : Nat :=
  match maps (virt / 4096) with
  | none => 0
  | some (frame, _) => 4096 * frame + virt % 4096

def Mappings.flags (maps : Mappings) (virt : Nat) : Nat :=
  match maps (virt / 4096) with
  | none => 0
  | some (_, flags) => flags

-- map_page_phys takes no reference on a free or reserved page, and the later unmap_page drops one.
def MapCall.Counted (pt : Nat) (m : Machine) : MapCall → Prop
  | .mapPagePhys virt phys _ => getMappingFlags m pt virt = 0 → Countable m phys
  | _ => True

structure Represents (m : Machine) (spaces : List Space) (held : Nat → Nat) (pt : Nat) (maps : Mappings) : Prop where
  sound : Sound m spaces held
  full : Full m.mem spaces
  member : userSpace pt ∈ spaces
  leaves : ∀ v, v < 2 ^ 35 → maps v = (leaf m.mem pt v).map (fun e => (frameOf e, e &&& pageFlagsMask))

theorem user_page_number (pt virt : Nat) (lower : virt < 2 ^ 47) :
    pageNumber virt = virt / 4096 ∧ (userSpace pt).lo ≤ pageNumber virt ∧ pageNumber virt < (userSpace pt).hi := by
  simp only [pageNumber, userSpace]
  omega

theorem represents_set {m n : Machine} {spaces : List Space} {held : Nat → Nat} {pt v : Nat} {maps : Mappings}
    {value : Option Nat} (before : Represents m spaces held pt maps) (sound : Sound n spaces held)
    (full : Full m.mem spaces → Full n.mem spaces) (set : LeafSet m.mem n.mem spaces (userSpace pt) v value) :
    Represents n spaces held pt (update maps v (value.map (fun e => (frameOf e, e &&& pageFlagsMask)))) := by
  refine ⟨sound, full before.full, before.member, fun w high => ?_⟩
  have leaf_ := set.leaf (userSpace pt) before.member w (Nat.zero_le w) high
  simp only [userSpace, true_and] at leaf_
  by_cases same : w = v
  · subst same
    rw [if_pos rfl] at leaf_
    rw [update_self, leaf_]
  rw [if_neg same] at leaf_
  rw [update_of_ne same, leaf_]
  exact before.leaves w high

theorem mapped_page_tracked {m n : Machine} {pt virt page flags : Nat} (done : mapPage m pt virt page flags = .ok n)
    (sound : FreeSound n) : page < 2 ^ 40 := by
  obtain ⟨⟨a, pte⟩, _, done⟩ := bind_ok.mp done
  cases pte with
  | none => cases done
  | some pte =>
    obtain ⟨b, _, done⟩ := bind_ok.mp done
    obtain ⟨c, _, reffed⟩ := bind_ok.mp done
    obtain ⟨use, _, _, rfl⟩ := page_ref_ok reffed
    have tracked := (sound.usedTracked page _ (by rw [page_set_used, if_pos rfl])).1
    exact Nat.lt_of_le_of_lt tracked sound.physical

variable {m n : Machine} {spaces : List Space} {held : Nat → Nat} {pt : Nat} {maps : Mappings}

theorem step_represents {call : MapCall} (before : Represents m spaces held pt maps) (lower : call.virt < 2 ^ 47)
    (counted : call.Counted pt m)
    (done : call.step pt m = .ok n) : Represents n spaces held pt (call.apply maps) ∧ SamePool m n := by
  cases call with
  | mapPage virt page flags =>
    obtain ⟨number, low, high⟩ := user_page_number pt virt lower
    obtain ⟨sound, effect, full, _, set⟩ := ends_value (map_page_ends _ before.sound before.member low high) n done
    have physical := mapped_page_tracked done sound.free
    have after := represents_set before sound full set
    rw [Option.map_some, leaf_value_frame, leaf_value_flags flags physical] at after
    have frame : 4096 * page / 4096 % 2 ^ 40 = page := by omega
    rw [frame, number] at after
    exact ⟨after, effect.pool⟩
  | mapPagePhys virt phys flags =>
    obtain ⟨number, low, high⟩ := user_page_number pt virt lower
    have observed := get_mapping_flags_leaf m pt virt
    have countable : leaf m.mem pt (pageNumber virt) = none → Countable m phys := by
      intro absent
      rw [absent] at observed
      exact counted observed
    obtain ⟨sound, effect, full, _, set⟩ := ends_value (map_page_phys_ends _ before.sound before.member low high countable) n done
    have after := represents_set before sound full set
    have own := before.leaves (pageNumber virt) high
    simp only [userSpace] at after
    rw [number] at after own countable
    simp only [MapCall.apply, own]
    cases old : leaf m.mem pt (virt / 4096) with
    | none =>
      obtain ⟨physical, _⟩ := countable old
      have frame : alignDown phys / 4096 % 2 ^ 40 = phys / 4096 := by
        rw [align_down_frame]
        omega
      rw [old, Option.map_some, leaf_value_frame, frame, alignDown, leaf_value_flags flags (by omega)] at after
      exact ⟨after, effect.pool⟩
    | some e =>
      rw [old, Option.map_some] at after own
      rw [← own, update_eq_self] at after
      exact ⟨after, effect.pool⟩
  | unmapPage virt =>
    obtain ⟨number, low, high⟩ := user_page_number pt virt lower
    obtain ⟨sound, effect, full, _, set⟩ := ends_value (unmap_page_ends before.sound before.member low high) n done
    have after := represents_set before sound full set
    rw [number] at after
    exact ⟨after, effect.pool⟩

theorem run_represents {calls : List MapCall} (m : Machine)
    (maps : Mappings) (before : Represents m spaces held pt maps) (lower : ∀ call ∈ calls, call.virt < 2 ^ 47)
    (counted : Permitted (MapCall.step pt) (fun m call => call.Counted pt m) m calls)
    (ended : run (MapCall.step pt) m calls = .ok n) :
    Represents n spaces held pt (calls.foldl MapCall.apply maps) ∧ SamePool m n := by
  induction calls generalizing m maps with
  | nil =>
    cases ended
    exact ⟨before, same_pool_refl _⟩
  | cons call rest ih =>
    obtain ⟨next, taken, ended⟩ := run_cons_ok ended
    obtain ⟨after, pool⟩ := step_represents before (lower call (by simp)) counted.1 taken
    obtain ⟨final, laterPool⟩ := ih next _ after (fun other inside => lower other (by simp [inside])) (counted.2 next taken) ended
    exact ⟨final, same_pool_trans pool laterPool⟩

theorem table_iff_mapped (state : Represents m spaces held pt maps) {depth : Nat} (key : Nat) (low : 1 ≤ depth) (bound : depth ≤ 4)
    (covers : Covers (userSpace pt) depth key) :
    table m.mem pt depth key ≠ none ↔ ∃ v, v < 2 ^ 35 ∧ v / 512 ^ (4 - depth) = key ∧ maps v ≠ none := by
  have leaves := state.leaves
  constructor
  · -- descend along entries; the induction is on the levels left below
    obtain ⟨gap, rfl⟩ : ∃ gap, depth = 4 - gap := ⟨4 - depth, by omega⟩
    intro present
    induction gap generalizing key with
    | zero =>
      obtain ⟨v, _, high, rfl⟩ := covers
      simp only [Nat.sub_zero, Nat.sub_self, pow_zero, Nat.div_one] at present ⊢
      refine ⟨v, high, rfl, ?_⟩
      rw [leaves v high]
      rw [table_four] at present
      simpa using present
    | succ gap ih =>
      obtain ⟨t, found⟩ := Option.ne_none_iff_exists'.mp present
      obtain ⟨i, index, child⟩ := state.full (userSpace pt) state.member (4 - (gap + 1)) key t low (by omega) covers found
      have deeper := user_covers_child low (by omega) index covers
      rw [show 4 - (gap + 1) + 1 = 4 - gap by omega] at child deeper
      obtain ⟨v, high, path, mapped⟩ := ih (512 * key + i) (by omega) (by omega) deeper child
      refine ⟨v, high, ?_, mapped⟩
      have power : 512 ^ (4 - (4 - (gap + 1))) = 512 ^ (4 - (4 - gap)) * 512 := by
        rw [← pow_succ]
        congr 1
        omega
      rw [power, ← Nat.div_div_eq_div_mul, path]
      omega
  rintro ⟨v, high, rfl, mapped⟩
  refine table_above ?_ bound
  intro absent
  rw [leaves v high, absent] at mapped
  exact mapped rfl

theorem free_iff_unreferenced (sound : Sound m spaces held) {p : Nat}
    (usable : Usable m p) (unheld : held p = 0) : p ∈ m.free ↔ refs m.mem spaces p = 0 ∧ ¬ IsTable m.mem spaces p := by
  constructor
  · intro free
    have unused := sound.free.unused p free
    refine ⟨(sound.counts.unused p (sound.free.tracked p free).1 unused).1, fun at_ => sound.tables p at_ unused⟩
  rintro ⟨unmapped, off⟩
  refine usable.resolve_right (fun inUse => ?_)
  obtain ⟨use, record⟩ := Option.ne_none_iff_exists'.mp inUse
  obtain ⟨_, positive, _⟩ := sound.counts.used p use record
  rw [unmapped, tabs_zero off, unheld] at positive
  omega

theorem fresh_represents (free : FreeSound m) (inUse : m.used pt ≠ none)
    (empty : LowerEmpty m.mem pt) (counts : Counts m (fun _ => 0) (holding held pt)) :
    Represents m [userSpace pt] held pt (fun _ => none) := by
  have off : ∀ p, ¬ AnyTable m.mem [] p := by
    rintro p ⟨b, member, _⟩
    cases member
  have none : ∀ p, refs m.mem [] p = 0 ∧ tabs m.mem [] p = 0 :=
    fun p => ⟨rfl, tabs_zero (fun at_ => off p (is_table_any at_))⟩
  have start : Sound m [] (holding held pt) := by
    refine ⟨⟨free, List.nodup_nil, fun a member => ?_, fun a member => ?_, fun p at_ => ?_⟩, ?_⟩
    · cases member
    · cases member
    · exact absurd (is_table_any at_) (off p)
    refine counts_congr free rfl rfl counts (fun p _ => ?_)
    obtain ⟨noRefs, noTabs⟩ := none p
    refine ⟨noRefs, ?_⟩
    omega
  refine ⟨add_space start inUse (off pt) empty, add_space_full empty (fun a member => ?_), by simp, fun v high => ?_⟩
  · cases member
  · rw [lower_empty_leaf empty high, Option.map_none]

theorem page_table_refines_map (pt : Nat) (spaces : List Space) (held : Nat → Nat) (calls : List MapCall) (m n : Machine)
    (maps : Mappings) (before : Represents m spaces held pt maps) (lower : ∀ call ∈ calls, call.virt < 2 ^ 47)
    (counted : Permitted (MapCall.step pt) (fun m call => call.Counted pt m) m calls)
    (ended : run (MapCall.step pt) m calls = .ok n) :
    (∀ virt, virt < 2 ^ 47 → getPhys n pt virt = (calls.foldl MapCall.apply maps).phys virt ∧
      getMappingFlags n pt virt = (calls.foldl MapCall.apply maps).flags virt) ∧
    (∀ depth key, 1 ≤ depth → depth ≤ 3 → Covers (userSpace pt) depth key → (table n.mem pt depth key ≠ none ↔
      ∃ v, v < 2 ^ 35 ∧ v / 512 ^ (4 - depth) = key ∧ calls.foldl MapCall.apply maps v ≠ none)) ∧
    (∀ p, Usable m p → held p = 0 → (p ∈ n.free ↔ refs n.mem spaces p = 0 ∧ ¬ IsTable n.mem spaces p)) := by
  obtain ⟨after, pool⟩ := run_represents m maps before lower counted ended
  refine ⟨fun virt low => ?_, fun depth key low bound covers => ?_, fun p usable unheld => ?_⟩
  · obtain ⟨number, _, high⟩ := user_page_number pt virt low
    have own := after.leaves (pageNumber virt) high
    rw [number] at own
    rw [get_phys_leaf, get_mapping_flags_leaf, number, Mappings.phys, Mappings.flags, own]
    cases leaf n.mem pt (virt / 4096) <;> exact ⟨rfl, rfl⟩
  · exact table_iff_mapped after key low (by omega) covers
  · exact free_iff_unreferenced after.sound ((pool.usable p).mpr usable) unheld

def smallMachine : Machine where
  maxPfn := 15
  free := [2, 3, 4, 5, 6, 7]
  used := fun p => if p = 1 ∨ p = 8 then some ⟨1, 0, false⟩ else none
  mem := fun _ => 0
  kernelPtable := 0
  mmioRegions := []

def smallHeld (p : Nat) : Nat := one (p = 8)

theorem small_represents : Represents smallMachine [userSpace 1] smallHeld 1 (fun _ => none) := by
  refine fresh_represents ⟨⟨by decide, by decide, by decide, fun p use record => ?_⟩, by decide⟩ (by decide)
    (fun i _ => ?_) ⟨fun p use record => ?_, fun p inside unused => ?_⟩
  · simp only [smallMachine] at record
    split at record
    · simp only [smallMachine]
      omega
    · cases record
  · have zero : entry smallMachine.mem 1 i = 0 := load_zeros _ 8 _ (fun _ _ _ => rfl)
    rw [zero]
    rfl
  · simp only [smallMachine] at record
    split at record
    · rename_i here
      cases record
      rcases here with rfl | rfl <;> decide
    · cases record
  simp only [smallMachine] at unused
  split at unused
  · cases unused
  rename_i here
  obtain ⟨notTable, notData⟩ := not_or.mp here
  simp [smallHeld, holding, one, notTable, notData]

def countedCalls : List MapCall := [.mapPagePhys 0 0x64000 2, .mapPage 0x200000 8 7, .unmapPage 0]

theorem counted_calls_refine : ∃ n, run (MapCall.step 1) smallMachine countedCalls = .ok n ∧ getPhys n 1 0x200123 = 0x8123 := by
  have ends : (run (MapCall.step 1) smallMachine countedCalls).isOk = true := by decide +kernel
  cases result : run (MapCall.step 1) smallMachine countedCalls with
  | error failure => simp [result, Except.isOk, Except.toBool] at ends
  | ok n =>
    refine ⟨n, rfl, ?_⟩
    have counted : Permitted (MapCall.step 1) (fun m call => call.Counted 1 m) smallMachine countedCalls :=
      ⟨fun _ => ⟨by decide, .inl (by decide)⟩, fun _ _ => ⟨trivial, fun _ _ => ⟨trivial, fun _ _ => trivial⟩⟩⟩
    rw [((page_table_refines_map 1 [userSpace 1] smallHeld countedCalls smallMachine n (fun _ => none) small_represents
      (by decide) counted result).1 0x200123 (by decide)).1]
    decide

-- Page 5 is free when it is mapped, becomes the leaf table of 0x200000, and is freed when the first mapping goes.
def uncountedCalls : List MapCall := [.mapPagePhys 0 0x5000 2, .mapPage 0x200000 8 7, .unmapPage 0]

theorem uncounted_calls_lose_mapping :
    Represents smallMachine [userSpace 1] smallHeld 1 (fun _ => none) ∧ (∀ call ∈ uncountedCalls, call.virt < 2 ^ 47) ∧
    (run (MapCall.step 1) smallMachine uncountedCalls).map (fun n => getPhys n 1 0x200000) = .ok 0 ∧
    (uncountedCalls.foldl MapCall.apply (fun _ => none)).phys 0x200000 = 0x8000 :=
  ⟨small_represents, by decide, by decide +kernel, by decide⟩

end Lyr.Mm
