import Lyr.Lib.Run
import Lyr.Mm.Regions

set_option autoImplicit false

namespace Lyr.Mm

open Lyr.Lib

theorem or_le_sum {a : Nat} (b : Nat) : a ||| b ≤ a + b := by
  induction a using Nat.div2Induction generalizing b with
  | ind a half =>
    by_cases zero : a = 0
    · simp only [zero, Nat.zero_or, Nat.zero_add, Nat.le_refl]
    have smaller := half (Nat.pos_of_ne_zero zero) (b / 2)
    have rest : (a ||| b) / 2 = a / 2 ||| b / 2 := Nat.or_div_two
    have low : (a ||| b) % 2 = 1 ↔ a % 2 = 1 ∨ b % 2 = 1 := Nat.or_mod_two_eq_one
    omega

theorem clear_bits_ge (value mask : Nat) (fits : value < 2 ^ 64) (small : mask < 2 ^ 64) : value ≤ clearBits value mask + mask := by
  have split : clearBits value mask ||| (value &&& mask) = value := by
    apply Nat.eq_of_testBit_eq
    intro bit
    have flip : 2 ^ 64 - 1 - mask = 2 ^ 64 - (mask + 1) := by omega
    by_cases inside : bit < 64
    · simp only [clearBits, flip, Nat.testBit_or, Nat.testBit_and, Nat.testBit_two_pow_sub_succ small, inside]
      cases value.testBit bit <;> cases mask.testBit bit <;> rfl
    have zero : value.testBit bit = false :=
      Nat.testBit_lt_two_pow (Nat.lt_of_lt_of_le fits (Nat.pow_le_pow_right (by decide) (by omega)))
    simp only [clearBits, Nat.testBit_or, Nat.testBit_and, zero, Bool.false_and, Bool.or_false]
  calc value = clearBits value mask ||| (value &&& mask) := split.symm
    _ ≤ clearBits value mask + (value &&& mask) := or_le_sum _
    _ ≤ clearBits value mask + mask := Nat.add_le_add_left Nat.and_le_right _

theorem align_up_u64_bounds (value align : Nat) (real : 1 < align) (room : value + align ≤ 2 ^ 64) :
    value ≤ alignUpU64 value align ∧ alignUpU64 value align ≤ value + align - 1 := by
  have unwrapped : wrap (value + align - 1) = value + align - 1 := Nat.mod_eq_of_lt (by omega)
  simp only [alignUpU64, if_neg (Nat.not_le.2 real), unwrapped]
  have low := clear_bits_ge (value + align - 1) (align - 1) (by omega) (by omega)
  have high : clearBits (value + align - 1) (align - 1) ≤ value + align - 1 := Nat.and_le_left
  omega

theorem align_up_u64_page (value : Nat) : alignUpU64 value 4096 % 4096 = 0 := by
  have masked : clearBits (wrap (value + 4096 - 1)) 4095 % 2 ^ 12 = (wrap (value + 4096 - 1) % 2 ^ 12) &&&
    ((2 ^ 64 - 1 - 4095) % 2 ^ 12) :=
    Nat.and_mod_two_pow
  exact masked.trans (Nat.and_zero _)

theorem whole_add {a b : Nat} (first : a % 4096 = 0) (second : b % 4096 = 0) : (a + b) % 4096 = 0 := by omega

def Region.Apart (r s : Region) : Prop := r.stop ≤ s.start ∨ s.stop ≤ r.start

def Region.PagesApart (r s : Region) : Prop := (r.stop + 4095) / 4096 ≤ s.start / 4096 ∨ (s.stop + 4095) / 4096 ≤ r.start / 4096

instance (r s : Region) : Decidable (r.PagesApart s) := inferInstanceAs (Decidable (_ ∨ _))

def AllApart (k : KernelSpace) : Prop := k.live.Pairwise Region.PagesApart

instance (k : KernelSpace) : Decidable (AllApart k) := inferInstanceAs (Decidable (List.Pairwise _ _))

def regionBase : RegionKind → Nat
  | .kstack => kstackRegionBase
  | .moduleSection => moduleRegionBase
  | .large => largeRegionBase
  | .nvme => nvmeMmioBase
  | .e1000 => e1000MmioBase

-- No allocator compares its pointer with it.
def regionLimit : RegionKind → Nat
  | .kstack => moduleRegionBase
  | .moduleSection => largeRegionBase
  | .large => e1000MmioBase
  | .nvme => e1000MmioBase
  | .e1000 => 2 ^ 64

def KernelSpace.next (k : KernelSpace) : RegionKind → Nat
  | .kstack => k.nextKstackBase
  | .moduleSection => k.nextModuleBase
  | .large => k.nextLargeBase
  | .nvme => k.nextNvme
  | .e1000 => k.nextE1000

-- Below the base above its own; and a large block and an NVMe window, which start at one base, do not meet.
def Fits (k : KernelSpace) : RegionCall → Prop
  | .createThread _ => k.nextKstackBase + kstackGuardSize + schedKernelStackSize ≤ moduleRegionBase
  | .loadSection size align _ => k.nextModuleBase + max align.toNat 4096 - 1 + size.toNat ≤ largeRegionBase
  | .kmalloc size _ => k.nextLargeBase + 4096 * largePages size ≤ e1000MmioBase ∧
      ∀ region ∈ k.live, region.kind = .nvme → k.nextLargeBase + 4096 * largePages size ≤ region.start ∨ region.stop ≤ k.nextLargeBase
  | .probeNvme => k.nextNvme + nvmeMmioStride ≤ e1000MmioBase ∧
      ∀ region ∈ k.live, region.kind = .large → k.nextNvme + nvmeWindow ≤ region.start ∨ region.stop ≤ k.nextNvme
  | .probeE1000 => k.nextE1000 + e1000MmioStride < 2 ^ 64
  | .exitThread _ | .kfree _ => True

instance fitsDecidable (k : KernelSpace) (call : RegionCall) : Decidable (Fits k call) := match call with
  | .createThread _ | .loadSection .. => Nat.decLe _ _
  | .kmalloc .. | .probeNvme => instDecidableAnd
  | .probeE1000 => Nat.decLt _ _
  | .exitThread _ | .kfree _ => isTrue trivial

def Spaced (r s : Region) : Prop := r.Apart s ∧
  (r.kind = .kstack → s.kind = .kstack → r.stop + kstackGuardSize ≤ s.start ∨ s.stop + kstackGuardSize ≤ r.start)

structure RegionsSound (k : KernelSpace) : Prop where
  homes : ∀ r ∈ k.live, regionBase r.kind ≤ r.start ∧ r.start ≤ r.stop ∧ r.stop ≤ k.next r.kind
  whole : ∀ r ∈ k.live, r.stop % 4096 = 0
  guarded : ∀ r ∈ k.live, r.kind = .kstack → kstackRegionBase + kstackGuardSize ≤ r.start ∧ r.start < r.stop ∧ r.start % 4096 = 0
  spaced : k.live.Pairwise Spaced
  bounds : ∀ kind, regionBase kind ≤ k.next kind ∧ k.next kind ≤ regionLimit kind
  aligned : ∀ kind, k.next kind % 4096 = 0

variable {r s : Region} {k k' : KernelSpace} {granted : Bool} {size : UInt64} {align : UInt64}

theorem spaced_symm (spaced : Spaced r s) : Spaced s r :=
  ⟨spaced.1.symm, fun second first => (spaced.2 first second).symm⟩

theorem boot_sound : RegionsSound bootSpace :=
  ⟨nofun, nofun, nofun, .nil,
    fun kind => by cases kind <;> decide, fun kind => by cases kind <;> decide⟩

def Shared (a b : RegionKind) : Prop := a = .large ∧ b = .nvme ∨ a = .nvme ∧ b = .large

theorem kinds_ordered {a b : RegionKind} (differ : a ≠ b) (own : ¬Shared a b) :
    regionLimit a ≤ regionBase b ∨ regionLimit b ≤ regionBase a := by
  cases a <;> cases b <;> first
    | exact absurd rfl differ
    | exact absurd (Or.inl ⟨rfl, rfl⟩) own
    | exact absurd (Or.inr ⟨rfl, rfl⟩) own
    | decide

structure Fresh (k k' : KernelSpace) (r : Region) : Prop where
  above : k.next r.kind ≤ r.start
  ordered : r.start ≤ r.stop
  below : r.stop ≤ k'.next r.kind
  limit : k'.next r.kind ≤ regionLimit r.kind
  others : ∀ kind, kind ≠ r.kind → k'.next kind = k.next kind := by rintro ⟨⟩ other <;> first | rfl | exact absurd rfl other
  guard : r.kind = .kstack → k.nextKstackBase + kstackGuardSize ≤ r.start ∧ r.start < r.stop ∧ r.start % 4096 = 0 := by rintro ⟨⟩
  shared : ∀ s ∈ k.live, Shared r.kind s.kind → r.Apart s := by rintro _ _ (⟨⟨⟩, -⟩ | ⟨⟨⟩, -⟩)
  whole : r.stop % 4096 = 0
  aligned : k'.next r.kind % 4096 = 0

section

variable (sound : RegionsSound k)
include sound

theorem fresh_bounds (fresh : Fresh k k' r) (kind : RegionKind) :
    k.next kind ≤ k'.next kind ∧ regionBase kind ≤ k'.next kind ∧ k'.next kind ≤ regionLimit kind := by
  have bounds := sound.bounds kind
  by_cases same : kind = r.kind
  · subst same
    have := fresh.above; have := fresh.ordered; have := fresh.below; have := fresh.limit
    omega
  · rw [fresh.others kind same]
    exact ⟨Nat.le_refl _, bounds⟩

theorem fresh_spaced (fresh : Fresh k k' r) (listed : s ∈ k.live) :
    Spaced r s := by
  obtain ⟨low, ordered, high⟩ := sound.homes s listed
  have above := fresh.above
  refine ⟨?_, fun stack other => ?_⟩
  · by_cases same : r.kind = s.kind
    · exact .inr (by rw [same] at above; omega)
    by_cases shared : Shared r.kind s.kind
    · exact fresh.shared s listed shared
    have mine := sound.bounds r.kind
    have its := sound.bounds s.kind
    have below := fresh.below
    have limit := fresh.limit
    rcases kinds_ordered same shared with first | second
    · exact .inl (by omega)
    · exact .inr (by omega)
  rw [other] at high
  have guard := (fresh.guard stack).1
  exact .inr (Nat.le_trans (Nat.add_le_add_right high _) guard)

omit sound in
theorem added_sound (k k' : KernelSpace) (r : Region) (sound : RegionsSound k) (fresh : Fresh k k' r) (live : k'.live = r :: k.live) :
    RegionsSound k' := by
  refine ⟨?_, ?_, ?_, ?_, fun kind => (fresh_bounds sound fresh kind).2, fun kind => ?_⟩
  · intro s listed
    rw [live] at listed
    rcases List.mem_cons.1 listed with rfl | old
    · exact ⟨Nat.le_trans (sound.bounds s.kind).1 fresh.above, fresh.ordered, fresh.below⟩
    · have home := sound.homes s old
      exact ⟨home.1, home.2.1, Nat.le_trans home.2.2 (fresh_bounds sound fresh s.kind).1⟩
  · intro s listed
    rw [live] at listed
    rcases List.mem_cons.1 listed with rfl | old
    · exact fresh.whole
    · exact sound.whole s old
  · intro s listed stack
    rw [live] at listed
    rcases List.mem_cons.1 listed with rfl | old
    · have guard := fresh.guard stack
      exact ⟨Nat.le_trans (Nat.add_le_add_right (sound.bounds .kstack).1 _) guard.1, guard.2⟩
    · exact sound.guarded s old stack
  · rw [live]
    exact .cons (fun s listed => fresh_spaced sound fresh listed) sound.spaced
  by_cases same : kind = r.kind
  · exact same ▸ fresh.aligned
  · rw [fresh.others kind same]
    exact sound.aligned kind

-- Only the allocator of this kind has moved its pointer.
theorem removed_sound (own : RegionKind) (others : ∀ kind, kind ≠ own → k'.next kind = k.next kind) (kept : k'.live.Sublist k.live)
    (below : ∀ r ∈ k'.live, r.kind = own → r.stop ≤ k'.next own)
    (bounds : regionBase own ≤ k'.next own ∧ k'.next own ≤ regionLimit own)
    (aligned : k'.next own % 4096 = 0) : RegionsSound k' := by
  refine ⟨fun r listed => ?_, fun r listed => sound.whole r (kept.subset listed),
    fun r listed => sound.guarded r (kept.subset listed),
    sound.spaced.sublist kept, fun kind => ?_, fun kind => ?_⟩
  · obtain ⟨low, ordered, high⟩ := sound.homes r (kept.subset listed)
    refine ⟨low, ordered, ?_⟩
    by_cases same : r.kind = own
    · exact same ▸ below r listed same
    · rw [others _ same]
      exact high
  · by_cases same : kind = own
    · exact same ▸ bounds
    · rw [others kind same]
      exact sound.bounds kind
  · by_cases same : kind = own
    · exact same ▸ aligned
    · rw [others kind same]
      exact sound.aligned kind

theorem kstack_alloc_sound
    (fits : k.nextKstackBase + kstackGuardSize + schedKernelStackSize ≤ moduleRegionBase) (done : kstackAlloc k granted = .ok k') :
    RegionsSound k' := by
  cases granted with
  | false => exact nomatch done
  | true =>
    have top : moduleRegionBase < 2 ^ 64 := by decide
    have guard : wrap (k.nextKstackBase + kstackGuardSize) = k.nextKstackBase + kstackGuardSize := Nat.mod_eq_of_lt (by omega)
    have stack : wrap (k.nextKstackBase + kstackGuardSize + schedKernelStackSize) = k.nextKstackBase + kstackGuardSize +
      schedKernelStackSize :=
      Nat.mod_eq_of_lt (by omega)
    simp only [kstackAlloc, Bool.not_true, Bool.false_eq_true, if_false, guard, stack, Except.ok.injEq] at done
    subst done
    have start : (k.nextKstackBase + kstackGuardSize) % 4096 = 0 := whole_add (sound.aligned .kstack) (by decide)
    have whole : (k.nextKstackBase + kstackGuardSize + schedKernelStackSize) % 4096 = 0 := whole_add start (by decide)
    exact added_sound k _ ⟨.kstack, _, _⟩ sound
      { above := Nat.le_add_right _ _
        ordered := Nat.le_add_right _ _
        below := Nat.le_refl _
        limit := fits
        guard := fun _ => ⟨Nat.le_refl _, Nat.lt_add_of_pos_right (by decide), start⟩
        whole := whole
        aligned := whole } rfl

theorem kstack_free_sound (base : Nat) : RegionsSound (kstackFree k base) := by
  unfold kstackFree
  split
  · exact sound
  next region found =>
    have matched := List.find?_some found
    have stack : region.kind = .kstack := (of_decide_eq_true matched).1
    have listed : region ∈ k.live := List.mem_of_find?_eq_some found
    have guarded := sound.guarded region listed stack
    have guard : kstackGuardSize = 4096 := rfl
    have bounds := sound.bounds .kstack
    have spaced : (region :: k.live.erase region).Pairwise Spaced :=
      ((List.perm_cons_erase listed).pairwise_iff (fun {r s} => spaced_symm)).1 sound.spaced
    have home := (sound.homes region listed).2.2
    have old := sound.aligned .kstack
    rw [stack] at home
    simp only [KernelSpace.next, regionBase, regionLimit] at bounds home old
    refine removed_sound sound .kstack (by rintro ⟨⟩ other <;> first | rfl | exact absurd rfl other) List.erase_sublist
      (fun r remains kind => ?_) ?_ ?_
    · obtain ⟨-, ordered, high⟩ := sound.homes r (List.mem_of_mem_erase remains)
      have apart := (List.rel_of_pairwise_cons spaced remains).2 stack kind
      rw [kind] at high
      simp only [KernelSpace.next] at high ⊢
      split <;> omega
    · simp only [KernelSpace.next, regionBase, regionLimit]
      split <;> omega
    · simp only [KernelSpace.next]
      split <;> omega

omit sound in
theorem section_bounds (fits : k.nextModuleBase + max align.toNat 4096 - 1 + size.toNat ≤ largeRegionBase) :
    k.nextModuleBase ≤ sectionBase k align ∧ wrap (sectionBase k align + size.toNat) = sectionBase k align + size.toNat ∧
      sectionBase k align + size.toNat ≤ alignUpU64 (sectionBase k align + size.toNat) 4096 ∧
      alignUpU64 (sectionBase k align + size.toNat) 4096 ≤ largeRegionBase := by
  have top : largeRegionBase + 4096 ≤ 2 ^ 64 := by decide
  have whole : largeRegionBase % 4096 = 0 := by decide
  have base := align_up_u64_bounds k.nextModuleBase (max align.toNat 4096) (by omega) (by omega)
  change k.nextModuleBase ≤ sectionBase k align ∧ sectionBase k align ≤ _ at base
  have stop := align_up_u64_bounds (sectionBase k align + size.toNat) 4096 (by decide) (by omega)
  have page := align_up_u64_page (sectionBase k align + size.toNat)
  exact ⟨base.1, Nat.mod_eq_of_lt (by omega), stop.1, by omega⟩

theorem section_sound (granted : Bool)
    (fits : k.nextModuleBase + max align.toNat 4096 - 1 + size.toNat ≤ largeRegionBase) :
    RegionsSound (moduleAllocSection k size align granted) := by
  obtain ⟨base, unwrapped, covers, limit⟩ := section_bounds fits
  unfold moduleAllocSection
  split
  · exact sound
  simp only [unwrapped]
  exact added_sound k _ ⟨.moduleSection, _, _⟩ sound
    { above := base
      ordered := Nat.le_trans (Nat.le_add_right _ _) covers
      below := Nat.le_refl _
      limit := limit
      whole := align_up_u64_page _
      aligned := align_up_u64_page _ } rfl

end

section

variable (sound : RegionsSound k)
include sound

theorem large_alloc_sound
    (fits : Fits k (.kmalloc size granted)) : RegionsSound (largeAlloc k size granted) := by
  obtain ⟨limit, clear⟩ := fits
  have top : e1000MmioBase < 2 ^ 64 := by decide
  have unwrapped : wrap (k.nextLargeBase + 4096 * largePages size) = k.nextLargeBase + 4096 * largePages size := Nat.mod_eq_of_lt
    (by omega)
  have whole : (k.nextLargeBase + 4096 * largePages size) % 4096 = 0 :=
    whole_add (sound.aligned .large) (Nat.mul_mod_right _ _)
  simp only [largeAlloc, unwrapped]
  cases granted with
  | true =>
    exact added_sound k _ ⟨.large, _, _⟩ sound
      { above := Nat.le_refl _
        ordered := Nat.le_add_right _ _
        below := Nat.le_refl _
        limit := limit
        shared := fun s listed shared => by
          rcases shared with ⟨-, window⟩ | ⟨kind, -⟩
          · exact clear s listed window
          · exact nomatch kind
        whole := whole
        aligned := whole } rfl
  | false =>
    have bounds := sound.bounds .large
    refine removed_sound sound .large (by rintro ⟨⟩ other <;> first | rfl | exact absurd rfl other) (List.Sublist.refl _)
      (fun r listed kind => ?_) ⟨Nat.le_trans bounds.1 (Nat.le_add_right _ _), limit⟩ whole
    have old := (sound.homes r listed).2.2
    rw [kind] at old
    exact Nat.le_trans old (Nat.le_add_right _ _)

theorem nvme_probe_sound (fits : Fits k .probeNvme) : RegionsSound (nvmeProbe k) := by
  obtain ⟨limit, clear⟩ := fits
  have top : e1000MmioBase < 2 ^ 64 := by decide
  have inside : nvmeWindow ≤ nvmeMmioStride := by decide
  have window : wrap (k.nextNvme + nvmeWindow) = k.nextNvme + nvmeWindow := Nat.mod_eq_of_lt (by omega)
  have stride : wrap (k.nextNvme + nvmeMmioStride) = k.nextNvme + nvmeMmioStride := Nat.mod_eq_of_lt (by omega)
  simp only [nvmeProbe, window, stride]
  exact added_sound k _ ⟨.nvme, _, _⟩ sound
    { above := Nat.le_refl _
      ordered := Nat.le_add_right _ _
      below := Nat.add_le_add_left inside _
      limit := limit
      shared := fun s listed shared => by
        rcases shared with ⟨kind, -⟩ | ⟨-, block⟩
        · exact nomatch kind
        · exact clear s listed block
      whole := whole_add (sound.aligned .nvme) (by decide)
      aligned := whole_add (sound.aligned .nvme) (by decide) } rfl

theorem e1000_probe_sound (fits : k.nextE1000 + e1000MmioStride < 2 ^ 64) :
    RegionsSound (e1000Probe k) := by
  have stride : wrap (k.nextE1000 + e1000MmioStride) = k.nextE1000 + e1000MmioStride := Nat.mod_eq_of_lt fits
  simp only [e1000Probe, stride]
  exact added_sound k _ ⟨.e1000, _, _⟩ sound
    { above := Nat.le_refl _
      ordered := Nat.le_add_right _ _
      below := Nat.le_refl _
      limit := Nat.le_of_lt fits
      whole := whole_add (sound.aligned .e1000) (by decide)
      aligned := whole_add (sound.aligned .e1000) (by decide) } rfl

theorem region_step_sound {call : RegionCall} (fits : Fits k call)
    (done : regionStep k call = .ok k') : RegionsSound k' := by
  cases call with
  | createThread granted => exact kstack_alloc_sound sound fits done
  | exitThread base => cases done; exact kstack_free_sound sound base
  | loadSection size align granted => cases done; exact section_sound sound granted fits
  | kmalloc size granted =>
    cases done
    unfold Mm.kmalloc
    split
    · exact sound
    · exact large_alloc_sound sound fits
  | kfree base =>
    cases done
    exact removed_sound sound .large (fun _ _ => rfl) List.filter_sublist
      (fun r listed kind => kind ▸ (sound.homes r (List.mem_filter.1 listed).1).2.2) (sound.bounds .large) (sound.aligned .large)
  | probeNvme => cases done; exact nvme_probe_sound sound fits
  | probeE1000 => cases done; exact e1000_probe_sound sound fits

end

theorem sound_apart (k : KernelSpace) (sound : RegionsSound k) : AllApart k := by
  refine List.Pairwise.imp_of_mem ?_ sound.spaced
  intro r s first second spaced
  have one := sound.whole r first
  have two := sound.whole s second
  rcases spaced.1 with before | after
  · exact .inl (by omega)
  · exact .inr (by omega)

theorem kernel_regions_stay_apart (calls : List RegionCall) (fit : Permitted regionStep Fits bootSpace calls) :
    Always regionStep AllApart bootSpace calls :=
  permitted_always (fun _ _ _ sound fits done => region_step_sound sound fits done) boot_sound sound_apart fit

theorem drivers_before_blocks :
    Permitted regionStep Fits bootSpace [.createThread true, .probeE1000, .loadSection 5000 16 true, .kmalloc 5000 true,
      .createThread true,
        .exitThread (kstackRegionBase + 0x1000), .exitThread (kstackRegionBase + 0x12000), .createThread true] ∧
      Always regionStep AllApart bootSpace [.createThread true, .probeE1000, .loadSection 5000 16 true, .kmalloc 5000 true,
        .createThread true,
        .exitThread (kstackRegionBase + 0x1000), .exitThread (kstackRegionBase + 0x12000), .createThread true] :=
  ⟨by decide +kernel, kernel_regions_stay_apart _ (by decide +kernel)⟩

-- Mapping the window replaces the pages of the block.
theorem large_block_under_nvme_window :
    ∃ k, run regionStep bootSpace [.kmalloc 5000 true, .probeNvme] = .ok k ∧ ¬AllApart k ∧
      k.live = [⟨.nvme, 0xffffffffb0000000, 0xffffffffb0008000⟩, ⟨.large, 0xffffffffb0000000, 0xffffffffb0003000⟩] :=
  ⟨_, rfl, by decide +kernel⟩

end Lyr.Mm
