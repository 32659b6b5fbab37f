import Lyr.Mm.WorldSound

set_option autoImplicit false

namespace Lyr.Mm

open Lyr.Lib

-- sharecount is the number of leaves that map the page; refcount, 32 bits wide, adds the table it may be and what others hold.
def World.Balanced (base : List Space) (held : Nat → Nat) (w : World) : Prop :=
  ∀ p, p ≤ w.machine.maxPfn → match w.machine.used p with
    | some use => use.sharecount = refs w.machine.mem (w.all base) p ∧
        use.refcount = (refs w.machine.mem (w.all base) p + tabs w.machine.mem (w.all base) p + held p) % 2 ^ 32 ∧
        refs w.machine.mem (w.all base) p + tabs w.machine.mem (w.all base) p + held p ≤ 2 ^ 32
    | none => refs w.machine.mem (w.all base) p = 0 ∧ tabs w.machine.mem (w.all base) p = 0 ∧ held p = 0

variable {base spaces : List Space} {held : Nat → Nat} {m : Machine}

theorem sane_balanced (w : World) (sane : w.Sane base held) : w.Balanced base held := by
  intro p tracked
  cases record : w.machine.used p with
  | some use =>
    obtain ⟨shared, _, bound, counted⟩ := sane.sound.counts.used p use record
    exact ⟨shared, counted, bound⟩
  | none =>
    obtain ⟨unshared, zero⟩ := sane.sound.counts.unused p tracked record
    exact ⟨unshared, by omega, by omega⟩

theorem used_iff_counted (sound : Sound m spaces held) {p : Nat}
    (tracked : p ≤ m.maxPfn) : m.used p ≠ none ↔ 0 < refs m.mem spaces p + tabs m.mem spaces p + held p := by
  constructor
  · intro inUse
    obtain ⟨use, record⟩ := Option.ne_none_iff_exists'.mp inUse
    exact (sound.counts.used p use record).2.1
  · intro positive
    exact mapped_used sound tracked positive

theorem free_iff (sound : Sound m spaces held) (p : Nat) : p ∈ m.free ↔ Usable m p ∧ m.used p = none := by
  constructor
  · intro inside
    exact ⟨.inl inside, sound.free.unused p inside⟩
  · rintro ⟨usable, unused⟩
    exact usable.resolve_right (not_not.mpr unused)

theorem free_restored {n : Machine} (before : Sound m base held) (after : Sound n base held) (kept : BaseKept base m n) :
    n.free.Perm m.free := by
  have walk : SameWalk m.mem n.mem base := fun b member depth key bound covers =>
    walk_of_tables (kept.tables b member) bound covers
  refine (List.perm_ext_iff_of_nodup after.free.nodup before.free.nodup).mpr (fun p => ?_)
  rw [free_iff after, free_iff before, kept.pool.usable p]
  refine and_congr_right (fun usable => ?_)
  have tracked : p ≤ m.maxPfn := by
    rcases usable with free | inUse
    · exact (before.free.tracked p free).1
    · exact (used_tracked before.free inUse).1
  have sameUse : n.used p ≠ none ↔ m.used p ≠ none := by
    rw [used_iff_counted after (by rw [kept.pool.maxPfn]; exact tracked), used_iff_counted before tracked, same_walk_refs walk,
      same_walk_tabs walk]
  exact not_iff_not.mp sameUse

-- A panic is the allocator running dry or 2^32 references to one page; where no address space is left all pages are back.
theorem mapping_counts_hold (getPage : GetPage) (base : List Space) (held : Nat → Nat) (calls : List VasCall) (w : World)
    (start : w.Sane base held)
    (permitted : Permitted (VasCall.step getPage) (fun w call => call.NoFile ∧ call.Bounded w ∧ call.Counted w) w calls) :
    Always (VasCall.step getPage) (World.Balanced base held) w calls ∧
    (∀ failure, run (VasCall.step getPage) w calls = .error failure → Stops w.machine base held 2 failure) ∧
    ∀ final, run (VasCall.step getPage) w calls = .ok final → w.spaces = [] → final.spaces = [] →
      final.machine.free.Perm w.machine.free := by
  have keeps : ∀ (s : World) (call : VasCall), s.Sane base held ∧ BaseKept base w.machine s.machine → call.NoFile ∧ call.Bounded s ∧
    call.Counted s →
      Ends (call.step getPage s) (fun s => s.Sane base held ∧ BaseKept base w.machine s.machine) (Stops w.machine base held 2) :=
    fun s call ⟨sane, kept⟩ ⟨noFile, bounded, counted⟩ => ends_mono (step_sane getPage base held s call sane noFile bounded counted)
      (fun next ⟨saneN, keptN, _⟩ => ⟨saneN, base_kept_trans kept keptN⟩) (fun failure stops => stops_pool kept.pool stops)
  obtain ⟨_, ends⟩ := ends_run keeps ⟨start, base_kept_refl base w.machine⟩ (fun _ both => both) permitted
  refine ⟨(ends_run keeps ⟨start, base_kept_refl base w.machine⟩ (fun s both => sane_balanced s both.1) permitted).1,
    fun failure failed => ends_failure ends failed, fun final ended noneBefore noneAfter => ?_⟩
  obtain ⟨sane, kept⟩ := ends_value ends final ended
  have soundBefore := start.sound
  have soundAfter := sane.sound
  rw [World.all, noneBefore] at soundBefore
  rw [World.all, noneAfter] at soundAfter
  exact free_restored soundBefore soundAfter kept

theorem tables_stay_hidden {getPage : GetPage} {calls : List VasCall} {w final : World} (start : w.Sane base held)
    (hidden : w.Hidden base) (permitted : Permitted (VasCall.step getPage) (fun w call => call.Pooled ∧ call.Bounded w) w calls)
    (ended : run (VasCall.step getPage) w calls = .ok final) : final.Sane base held ∧ final.Hidden base := by
  have steps : ∀ (w : World) (call : VasCall) (next : World), w.Sane base held ∧ w.Hidden base →
      call.Pooled ∧ call.Bounded w → call.step getPage w = .ok next → next.Sane base held ∧ next.Hidden base := by
    rintro w call next ⟨sane, hidden⟩ ⟨pooled, bounded⟩ taken
    have plain : call.NoFile ∧ call.Counted w := by
      cases call with
      | mapPhys | mapFile => exact pooled.elim
      | _ => exact ⟨trivial, trivial⟩
    obtain ⟨saneN, _, hides⟩ := ends_value (step_sane getPage base held w call sane plain.1 bounded plain.2) next taken
    exact ⟨saneN, hides pooled hidden⟩
  have kept := permitted_run_invariant steps ⟨start, hidden⟩ permitted ended
  exact kept

theorem bare_sane (free : FreeSound m) (counts : Counts m (fun _ => 0) held) (kernel : m.kernelPtable = 0)
    (mmio : m.mmioRegions = []) : World.Sane [] held ⟨m, []⟩ := by
  have none : ∀ p, ¬ IsTable m.mem [] p := by
    rintro p ⟨b, member, _⟩
    cases member
  refine ⟨⟨⟨free, List.nodup_nil, fun a member => (by cases member), fun a member => (by cases member),
    fun p at_ => absurd at_ (none p)⟩, ?_⟩,
    fun a member => (by cases member), fun a member => (by cases member), fun a member => (by cases member),
    ⟨fun some => absurd kernel some, fun region member => ?_⟩⟩
  · refine counts_congr free rfl rfl counts (fun p _ => ⟨rfl, ?_⟩)
    show refs m.mem [] p + tabs m.mem [] p + held p = held p
    rw [tabs_zero (none p)]
    simp [refs]
  · simp [mmio] at member

theorem bare_world_sane : bareWorld.Sane [] (fun _ => 0) := by
  refine bare_sane ⟨⟨by decide, by decide, fun _ _ => rfl, fun p use record => ?_⟩, by decide⟩
    ⟨fun p use record => ?_, fun _ _ _ => ⟨rfl, rfl⟩⟩ rfl rfl
  · cases record
  · cases record

@[irreducible] def mappedWorld : World := match run (VasCall.step noFiles) bareWorld [.create, .mapAnon 0 0x5000 0x3000 7] with
  | .ok w => w
  | .error _ => bareWorld

@[irreducible] def mappedVas : Vas := mappedWorld.spaces.headD ⟨0, [], 0⟩

theorem mapped_world_sane : mappedWorld.Sane [] (fun _ => 0) ∧ mappedWorld.Hidden [] := by
  have runs : (run (VasCall.step noFiles) bareWorld [.create, .mapAnon 0 0x5000 0x3000 7]).isOk = true := by decide +kernel
  unfold mappedWorld
  cases ran : run (VasCall.step noFiles) bareWorld [.create, .mapAnon 0 0x5000 0x3000 7] with
  | error failure =>
    rw [ran] at runs
    cases runs
  | ok w =>
    refine tables_stay_hidden bare_world_sane (fun vas inside => by cases inside) ?_ ran
    exact ⟨⟨trivial, trivial⟩, fun _ _ => ⟨⟨trivial, fun _ _ _ wrapped => absurd wrapped (by decide)⟩, fun _ _ => trivial⟩⟩

theorem mapped_vas_inside : mappedVas ∈ mappedWorld.spaces := by decide +kernel

def countedVasCalls : List VasCall := [.create, .mapAnon 0 0 0x1000 7, .mapPhys 0 0 0x64000 0x1000 5, .clone 0]

theorem counted_vas_calls_balanced : (run (VasCall.step noFiles) bareWorld countedVasCalls).isOk = true ∧
    Always (VasCall.step noFiles) (World.Balanced [] (fun _ => 0)) bareWorld countedVasCalls := by
  refine ⟨by decide +kernel, (mapping_counts_hold noFiles [] (fun _ => 0) countedVasCalls bareWorld bare_world_sane ?_).1⟩
  have wrapless : ∀ vas hint flags, alignUp 0x1000 = 0 → vasPlace vas hint 0 flags = none := fun _ _ _ wrapped =>
    absurd wrapped (by decide)
  refine ⟨⟨trivial, trivial, trivial⟩, fun first created => ?_⟩
  obtain ⟨saneFirst, keptFirst, _⟩ := ends_value (step_sane noFiles [] (fun _ => 0) bareWorld .create bare_world_sane trivial trivial
    trivial) first created
  refine ⟨⟨trivial, fun vas _ _ => wrapless vas 0 7, trivial⟩, fun second mapped => ?_⟩
  obtain ⟨_, keptSecond, _⟩ := ends_value (step_sane noFiles [] (fun _ => 0) first (.mapAnon 0 0 0x1000 7) saneFirst trivial
    (fun vas _ _ => wrapless vas 0 7) trivial) second mapped
  have size : second.machine.maxPfn = 15 := keptSecond.pool.maxPfn.trans keptFirst.pool.maxPfn
  refine ⟨⟨trivial, fun vas _ _ => wrapless vas 0 5, fun _ _ _ _ off inside => ?_⟩,
    fun _ _ => ⟨⟨trivial, trivial, trivial⟩, fun _ _ => trivial⟩⟩
  have single : pagesOf 0 (alignUp 0x1000) = [0] := by decide
  rw [single, List.mem_singleton] at inside
  subst inside
  exact ⟨by decide, .inl (by rw [size]; decide)⟩

-- Page 14 is reserved: tracked, but not in use.
theorem reserved_page_panics : bareWorld.Sane [] (fun _ => 0) ∧
    (run (VasCall.step noFiles) bareWorld [.create, .mapPhys 0 0 0xE000 0x1000 7]).map (fun _ => ()) = .error .pageNotUsed ∧
    ¬ Stops bareWorld.machine [] (fun _ => 0) 2 .pageNotUsed := by
  refine ⟨bare_world_sane, by decide +kernel, ?_⟩
  rintro (other | ⟨other, _⟩) <;> cases other

end Lyr.Mm
