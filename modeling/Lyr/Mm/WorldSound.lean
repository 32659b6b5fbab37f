import Lyr.Mm.Hidden

set_option autoImplicit false

namespace Lyr.Mm

open Lyr.Lib

structure Kept (m n : Machine) (spaces : List Space) (held : Nat → Nat) (vas changed : Vas) (pooled : Prop) : Prop where
  root : changed.pml4 = vas.pml4
  op : Op m n spaces held (fun b _ => b = userSpace vas.pml4)
  vads : VadsSound changed.list
  covered : Covered n.mem changed
  hides : pooled → Hides m.mem spaces vas.pml4 → Hides n.mem spaces vas.pml4

variable {hint length flags start prot i p : Nat} {m n a : Machine} {vas changed : Vas} {base spaces : List Space} {w : World}
    {held : Nat → Nat} {pooled : Prop}

section Kept

variable {m n : Machine} {spaces : List Space} {held : Nat → Nat} {vas changed : Vas} (member : userSpace vas.pml4 ∈ spaces)
  (vads : VadsSound vas.list) (covered : Covered m.mem vas)

theorem kept_refl (sound : Sound m spaces held) (vads : VadsSound vas.list) (covered : Covered m.mem vas) :
    Kept m m spaces held vas vas pooled := ⟨rfl, op_refl sound, vads, covered, fun _ => id⟩

theorem inserted_kept {d : Vad} (root : changed.pml4 = vas.pml4) (list : changed.list = vadInsert d vas.list) (area : VadSound d)
    (apart : Apart d.start d.stop vas.list) (op : Op m n spaces held (Pages (userSpace vas.pml4) d.start d.stop))
    (hides : pooled → Hides m.mem spaces vas.pml4 → Hides n.mem spaces vas.pml4)
    (member : userSpace vas.pml4 ∈ spaces) (vads : VadsSound vas.list) (covered : Covered m.mem vas) :
    Kept m n spaces held vas changed pooled := by
  refine ⟨root, op_mono op (fun b w here => here.1), ?_, fun v small mapped => ?_, hides⟩
  · rw [list]
    exact vad_insert_sound vads area apart
  rw [list, in_vads_insert]
  by_cases here : d.start ≤ 4096 * v ∧ 4096 * v < d.stop
  · exact .inl here
  have same := op.leaf (userSpace vas.pml4) member v (Nat.zero_le v) small (fun pages => here pages.2)
  rw [root, show leaf n.mem vas.pml4 v = leaf m.mem vas.pml4 v from same] at mapped
  exact .inr (covered v small mapped)

include member vads covered

theorem mapped_anon_kept {base : Nat} (mapped : MappedAnon m spaces held vas n changed hint length flags base) :
    Kept m n spaces held vas changed pooled :=
  inserted_kept (by rw [mapped.state]) (by rw [mapped.state]) mapped.area mapped.apart mapped.op (fun _ => anon_hides mapped member)
    member vads covered

theorem mapped_phys_kept {base : Nat} (mapped : MappedPhys m spaces held vas n changed hint length flags base) :
    Kept m n spaces held vas changed False :=
  inserted_kept (by rw [mapped.state]) (by rw [mapped.state]) mapped.area mapped.apart mapped.op False.elim member vads covered

theorem unmapped_kept {stop : Nat} (aligned : start % 4096 = 0) (stopAligned : stop % 4096 = 0)
    (bounded : ∀ v ∈ vas.list, ¬ Straddles start stop v) (unmapped : Unmapped m spaces held vas n changed start stop) :
    Kept m n spaces held vas changed pooled := by
  refine ⟨by rw [unmapped.state], op_mono unmapped.op (fun b w here => here.1), ?_, fun v small mapped => ?_,
    fun _ hides => op_hides member hides unmapped.op (fun v e small inside here => ?_)⟩
  · rw [unmapped.state]
    exact (remove_range_sound_iff vads aligned stopAligned).mpr bounded
  swap
  · cases (unmapped.gone v inside.2).symm.trans here
  rw [unmapped.state] at mapped ⊢
  have notVisited : ¬ Visited start stop vas.list v := fun visited => mapped (unmapped.gone v visited)
  have same := unmapped.op.leaf (userSpace vas.pml4) member v (Nat.zero_le v) small (fun here => notVisited here.2)
  rw [show leaf n.mem vas.pml4 v = leaf m.mem vas.pml4 v from same] at mapped
  have inside := covered v small mapped
  exact in_vads_remove inside (fun range => notVisited ⟨range.1, range.2, inside⟩)

theorem protected_kept {touched : Nat → Prop} (root : changed.pml4 = vas.pml4)
    (ranges : changed.list.map (fun d => (d.start, d.stop)) = vas.list.map (fun d => (d.start, d.stop)))
    (after : Protected m n spaces held (userSpace vas.pml4) touched prot) : Kept m n spaces held vas changed pooled := by
  refine ⟨root, op_mono after.op (fun b w here => here.1), vads_sound_ranges _ ranges vads,
    fun v small mapped => in_vads_congr ranges (covered v small (fun absent => mapped ?_)),
    fun _ hides => protected_hides member hides after⟩
  rw [root]
  by_cases inside : touched v
  · have moved := after.leaf v (Nat.zero_le v) small inside
    rw [show leaf m.mem (userSpace vas.pml4).root v = none from absent, Option.map_none] at moved
    exact moved
  · exact (after.op.leaf (userSpace vas.pml4) member v (Nat.zero_le v) small (fun both => inside both.2)).trans absent

theorem faulted_kept {v : Nat} (faulted : Faulted m n spaces held (userSpace vas.pml4) v prot) :
    Kept m n spaces held vas vas pooled := by
  refine ⟨rfl, op_mono faulted.op (fun b w here => here.1), vads, fun w small mapped => covered w small (fun absent => ?_),
    fun _ hides => faulted_hides member hides faulted⟩
  obtain ⟨e, _, before, _⟩ := faulted.owned
  by_cases here : w = v
  · subst here
    rw [show leaf m.mem (userSpace vas.pml4).root w = none from absent] at before
    cases before
  · exact mapped ((faulted.op.leaf (userSpace vas.pml4) member w (Nat.zero_le w) small (fun both => here both.2)).trans absent)

end Kept

theorem protect_root {newProt : Nat} (done : vasProtect m vas start length newProt = .ok (n, changed)) : changed.pml4 = vas.pml4 := by
  rw [vasProtect] at done
  split at done
  · cases done
    rfl
  obtain ⟨_, _, state⟩ := bind_ok.mp done
  cases state
  rfl

def World.all (base : List Space) (w : World) : List Space := w.spaces.map (fun vas => userSpace vas.pml4) ++ base

-- No call on a user address space changes its bytes.
def Steady (m : Machine) (base spaces : List Space) (held : Nat → Nat) (p : Nat) : Prop :=
  (∃ b ∈ base, TableOf m.mem b p) ∨ (¬ AnyTable m.mem spaces p ∧ (¬ Usable m p ∨ 0 < held p))

structure World.Sane (base : List Space) (held : Nat → Nat) (w : World) : Prop where
  sound : Sound w.machine (w.all base) held
  full : Full w.machine.mem (w.all base)
  vads : w.VadsSound
  covered : ∀ vas ∈ w.spaces, Covered w.machine.mem vas
  windows : Windows w.machine (Steady w.machine base (w.all base) held)

def TablesHidden (base : List Space) (w : World) (vas : Vas) : Prop := Hides w.machine.mem (w.all base) vas.pml4

def World.Hidden (base : List Space) (w : World) : Prop := ∀ vas ∈ w.spaces, TablesHidden base w vas

structure BaseKept (base : List Space) (m n : Machine) : Prop where
  pool : SamePool m n
  tables : ∀ b ∈ base, ∀ p, TableOf m.mem b p → SameBytes m.mem n.mem p

theorem base_kept_refl (base : List Space) (m : Machine) : BaseKept base m m :=
  ⟨same_pool_refl m, fun _ _ p _ => same_bytes_refl m.mem p⟩

theorem base_kept_trans {b c : Machine} (first : BaseKept base a b) (second : BaseKept base b c) : BaseKept base a c := by
  refine ⟨same_pool_trans first.pool second.pool, fun s member p at_ => ?_⟩
  have same := first.tables s member
  exact same_bytes_trans (same p at_) (second.tables s member p (tables_carry same at_))

theorem user_in_all (base : List Space) (inside : vas ∈ w.spaces) : userSpace vas.pml4 ∈ w.all base :=
  List.mem_append_left _ (List.mem_map.mpr ⟨vas, inside, rfl⟩)

theorem base_in_all (base : List Space) (w : World) (b : Space) (inside : b ∈ base) : b ∈ w.all base := List.mem_append_right _ inside

theorem base_apart (nodup : (w.all base).Nodup) (inside : vas ∈ w.spaces) {b : Space} (inBase : b ∈ base) :
    b ≠ userSpace vas.pml4 := by
  rintro rfl
  exact (List.nodup_append.mp nodup).2.2 _ (List.mem_map.mpr ⟨vas, inside, rfl⟩) _ inBase rfl

theorem spaces_apart (nodup : (w.all base).Nodup) {j : Nat} {a b : Vas} (foundA : w.spaces[i]? = some a)
    (foundB : w.spaces[j]? = some b) (different : i ≠ j) : userSpace a.pml4 ≠ userSpace b.pml4 := by
  intro same
  have users := (List.nodup_append.mp nodup).1
  obtain ⟨boundA, _⟩ := List.getElem?_eq_some_iff.mp foundA
  refine different ((List.getElem?_inj (by simpa using boundA) users).mp ?_)
  rw [List.getElem?_map, List.getElem?_map, foundA, foundB, Option.map_some, Option.map_some, same]

section Steady

variable {m : Machine} {n : Machine} {base : List Space} {spaces : List Space} {held : Nat → Nat}

theorem steady_not_free (sound : Sound m spaces held) (inBase : ∀ b ∈ base, b ∈ spaces) (steady : Steady m base spaces held p) :
    p ∉ m.free := by
  rcases steady with ⟨b, member, at_⟩ | ⟨off, anchor⟩
  · exact any_table_not_free sound.toShape (table_of_any (inBase b member) at_)
  · exact anchored_not_free m spaces held (fun _ _ => True) p sound ⟨off, anchor.imp_right .inl⟩

variable (m spaces) in
theorem steady_op {changed : Space → Nat → Prop} (op : Op m n spaces held changed) (inBase : ∀ b ∈ base, b ∈ spaces)
    (outside : ∀ b ∈ base, ∀ w, ¬ changed b w) (p : Nat) (steady : Steady m base spaces held p) :
    SameBytes m.mem n.mem p ∧ Steady n base spaces held p := by
  rcases steady with ⟨b, member, at_⟩ | ⟨off, anchor⟩
  · have same := op.tables b (inBase b member) (outside b member)
    exact ⟨same p at_, .inl ⟨b, member, tables_carry same at_⟩⟩
  · obtain ⟨same, offN⟩ := op.bytes p ⟨off, anchor.imp_right .inl⟩
    exact ⟨same, .inr ⟨offN, anchor.imp_left (fun foreign usable => foreign ((op.pool.usable p).mp usable))⟩⟩

end Steady

section

variable (sane : w.Sane base held)
include sane

theorem kept_sane (found : w.spaces[i]? = some vas) (kept : Kept w.machine n (w.all base) held vas changed pooled) :
    World.Sane base held ⟨n, w.spaces.set i changed⟩ ∧ BaseKept base w.machine n ∧
      (pooled → w.Hidden base → World.Hidden base ⟨n, w.spaces.set i changed⟩) := by
  have inside : vas ∈ w.spaces := List.mem_of_getElem? found
  have nodup := sane.sound.nodup
  have outside : ∀ b ∈ base, ∀ v : Nat, ¬ (b = userSpace vas.pml4) := fun b inBase _ => base_apart nodup inside inBase
  have all : World.all base ⟨n, w.spaces.set i changed⟩ = w.all base := by
    obtain ⟨bound, rfl⟩ := List.getElem?_eq_some_iff.mp found
    rw [World.all, World.all, List.map_set, kept.root, ← List.map_set (f := fun vas : Vas => userSpace vas.pml4),
      List.set_getElem_self]
  have steady := steady_op w.machine (w.all base) kept.op (base_in_all base w) outside
  refine ⟨⟨?_, ?_, fun other listed => ?_, fun other listed => ?_, ?_⟩, ⟨kept.op.pool, fun b inBase => kept.op.tables b
    (base_in_all base w b inBase) (outside b inBase)⟩, fun pool hidden other listed => ?_⟩
  · rw [all]
    exact kept.op.sound
  · rw [all]
    exact kept.op.full sane.full
  · rcases List.mem_or_eq_of_mem_set listed with old | rfl
    · exact sane.vads other old
    · exact kept.vads
  · obtain ⟨j, at_⟩ := List.getElem?_of_mem listed
    by_cases here : i = j
    · subst here
      rw [List.getElem?_set_self (List.getElem?_eq_some_iff.mp found).1, Option.some.injEq] at at_
      subst at_
      exact kept.covered
    rw [List.getElem?_set_ne here] at at_
    have otherIn := List.mem_of_getElem? at_
    have apart := spaces_apart nodup at_ found (Ne.symm here)
    intro v small mapped
    have same := kept.op.leaf (userSpace other.pml4) (user_in_all base otherIn) v (Nat.zero_le v) small apart
    exact sane.covered other otherIn v small
      (by rw [← show leaf n.mem other.pml4 v = leaf w.machine.mem other.pml4 v from same]; exact mapped)
  · rw [all]
    exact windows_carry kept.op.pool sane.windows (fun p keep => (steady p keep).1) (fun p keep => (steady p keep).2)
  · have own := kept.hides pool (hidden vas inside)
    rw [TablesHidden, all]
    rcases List.mem_or_eq_of_mem_set listed with old | rfl
    · by_cases same : userSpace other.pml4 = userSpace vas.pml4
      · rw [show other.pml4 = vas.pml4 from congrArg Space.root same]
        exact own
      · exact op_hides (user_in_all base old) (hidden other old) kept.op (fun v e _ touched => absurd touched same)
    · rw [kept.root]
      exact own

theorem created_sane (created : Created w.machine n (w.all base) held vas.pml4) (vads : VadsSound vas.list) :
    World.Sane base held ⟨n, vas :: w.spaces⟩ ∧ BaseKept base w.machine n ∧
      (w.Hidden base → World.Hidden base ⟨n, vas :: w.spaces⟩) := by
  have tables := created_tables sane.sound created
  have apart : ∀ p, Steady w.machine base (w.all base) held p → p ≠ vas.pml4 := fun p keep same =>
    steady_not_free sane.sound (base_in_all base w) keep (same ▸ created.taken.1)
  refine ⟨⟨created.sound, created.full sane.full, cons_sound n vads sane.vads, fun other listed v small mapped => ?_, ?_⟩,
    ⟨created.pool, fun b inBase => tables b (base_in_all base w b inBase)⟩, fun hidden other listed => ?_⟩
  · rcases List.mem_cons.mp listed with rfl | old
    · exact absurd (lower_empty_leaf created.empty small) mapped
    have same := created_leaf sane.sound created (user_in_all base old) (Nat.zero_le v) small
    rw [show leaf n.mem other.pml4 v = leaf w.machine.mem other.pml4 v from same] at mapped
    exact sane.covered other old v small mapped
  swap
  · rcases List.mem_cons.mp listed with rfl | old
    · exact fun v e small mapped => absurd (mapped.symm.trans (lower_empty_leaf created.empty small)) (Option.some_ne_none e)
    · exact created_hides sane.sound created (user_in_all base old) (hidden other old)
  refine windows_carry created.pool sane.windows (fun p keep => created.bytes p (apart p keep)) (fun p keep => ?_)
  have different := apart p keep
  rcases keep with ⟨b, inBase, at_⟩ | ⟨off, anchor⟩
  · exact .inl ⟨b, inBase, tables_carry (tables b (base_in_all base w b inBase)) at_⟩
  · refine .inr ⟨fun at_ => off ?_, anchor.imp_left (fun foreign usable => foreign ((created.pool.usable p).mp usable))⟩
    exact created_any_table sane.sound created different at_

theorem cloned_sane {dst : Vas} (inside : vas ∈ w.spaces) (cloned : ClonedVas w.machine (w.all base) held vas n dst) :
    World.Sane base held ⟨n, dst :: w.spaces⟩ ∧ BaseKept base w.machine n ∧
      (w.Hidden base → World.Hidden base ⟨n, dst :: w.spaces⟩) := by
  obtain ⟨list, a, created, different, pages⟩ := cloned
  have ranges : dst.list.map (fun d => (d.start, d.stop)) = vas.list.map (fun d => (d.start, d.stop)) := by
    rw [list, List.map_map]
    exact List.map_congr_left (fun v _ => by simp [(clone_vad_range v).1, (clone_vad_range v).2])
  have own := vads_sound_ranges _ ranges (sane.vads vas inside)
  obtain ⟨saneA, keptA, hides⟩ := created_sane sane created own
  have nodup := saneA.sound.nodup
  have outside : ∀ b ∈ base, ∀ v, ¬ ((b = userSpace vas.pml4 ∨ b = userSpace dst.pml4) ∧ InVads vas.list v) := by
    rintro b inBase v ⟨same | same, _⟩
    · exact base_apart nodup (List.mem_cons_of_mem _ inside) inBase same
    · exact base_apart nodup (by simp) inBase same
  have steady := steady_op a _ pages.op (base_in_all base ⟨a, dst :: w.spaces⟩) outside
  refine ⟨⟨pages.op.sound, pages.op.full saneA.full, saneA.vads, fun other listed v small mapped => ?_, ?_⟩,
    base_kept_trans keptA ⟨pages.op.pool, fun b inBase => pages.op.tables b (base_in_all base ⟨a, dst :: w.spaces⟩ b inBase)
      (outside b inBase)⟩, fun hidden other listed => ?_⟩
  · have same := pages.op.leaf (userSpace other.pml4) (user_in_all base listed) v (Nat.zero_le v) small
    by_cases touched : (userSpace other.pml4 = userSpace vas.pml4 ∨ userSpace other.pml4 = userSpace dst.pml4) ∧ InVads vas.list v
    · rcases List.mem_cons.mp listed with rfl | old
      · exact in_vads_congr ranges touched.2
      -- the only old space touched is the source
      obtain ⟨i, atI⟩ := List.getElem?_of_mem old
      obtain ⟨j, atJ⟩ := List.getElem?_of_mem inside
      rcases touched with ⟨same | same, touched⟩
      · by_cases here : i = j
        · subst here
          rw [atI, Option.some.injEq] at atJ
          rw [atJ]
          exact touched
        · exact absurd same (spaces_apart sane.sound.nodup atI atJ here)
      · have fresh := (List.nodup_cons.mp nodup).1
        exact absurd (show userSpace dst.pml4 ∈ w.all base from same ▸ user_in_all base old) fresh
    · rw [show leaf n.mem other.pml4 v = leaf a.mem other.pml4 v from same touched] at mapped
      exact saneA.covered other listed v small mapped
  · exact windows_carry pages.op.pool saneA.windows (fun p keep => (steady p keep).1) (fun p keep => (steady p keep).2)
  · have before := hides hidden
    exact cloned_hides (user_in_all base listed) (before other listed) pages (before vas (List.mem_cons_of_mem _ inside))

omit sane in
theorem erased_perm (base : List Space) (w : World) (i : Nat) (vas : Vas) (n : Machine) (found : w.spaces[i]? = some vas) :
    (w.all base).Perm (userSpace vas.pml4 :: World.all base ⟨n, w.spaces.eraseIdx i⟩) := by
  obtain ⟨bound, rfl⟩ := List.getElem?_eq_some_iff.mp found
  have perm := (List.getElem_cons_eraseIdx_perm bound).symm
  exact (perm.map (fun vas => userSpace vas.pml4)).append_right base

omit sane in
theorem steady_perm {other : List Space} (sub : ∀ b ∈ other, b ∈ spaces) (steady : Steady m base spaces held p) :
    Steady m base other held p := by
  refine steady.imp_right (And.imp_left fun off => ?_)
  rintro ⟨b, member, node⟩
  exact off ⟨b, sub b member, node⟩

theorem user_not_kernel (inside : vas ∈ w.spaces) : vas.pml4 ≠ w.machine.kernelPtable := by
  intro same
  have listed := user_in_all base inside
  have root : AnyTable w.machine.mem (w.all base) vas.pml4 := ⟨_, listed, 0, 0, by omega, root_covers vas.pml4, rfl⟩
  by_cases absent : w.machine.kernelPtable = 0
  · have inUse := sane.sound.tables vas.pml4 ⟨_, listed, 0, 0, by omega, root_covers vas.pml4, by simp [userSpace], rfl⟩
    exact (used_tracked sane.sound.free inUse).2 (same.trans absent)
  rcases sane.windows.kernel absent with ⟨b, inBase, depth, key, bound, covers, reached⟩ | ⟨off, _⟩
  · refine base_apart sane.sound.nodup inside inBase ?_
    exact (sane.sound.distinct b (base_in_all base w b inBase) _ listed depth 0 key 0 vas.pml4 bound (by omega) covers
      (root_covers vas.pml4) (same ▸ reached) rfl).1
  · exact off (same ▸ root)

theorem destroyed_sane (found : w.spaces[i]? = some vas)
    (first : Op w.machine a (userSpace vas.pml4 :: World.all base ⟨n, w.spaces.eraseIdx i⟩) held (fun b _ => b = userSpace vas.pml4))
    (second : Op a n (World.all base ⟨n, w.spaces.eraseIdx i⟩) held (fun _ _ => False)) :
    World.Sane base held ⟨n, w.spaces.eraseIdx i⟩ ∧ BaseKept base w.machine n ∧
      (w.Hidden base → World.Hidden base ⟨n, w.spaces.eraseIdx i⟩) := by
  have perm := erased_perm base w i vas n found
  have fresh := (List.nodup_cons.mp (perm.nodup_iff.mp sane.sound.nodup)).1
  have inBase := base_in_all base ⟨n, w.spaces.eraseIdx i⟩
  have outside : ∀ b ∈ base, ∀ v : Nat, ¬ (b = userSpace vas.pml4) := fun b listed _ same => fresh (same ▸ inBase b listed)
  have keptA : BaseKept base w.machine a := ⟨first.pool, fun b listed => first.tables b (by simp [inBase b listed])
    (outside b listed)⟩
  have keptN : BaseKept base a n := ⟨second.pool, fun b listed => second.tables b (inBase b listed) (fun _ never => never)⟩
  refine ⟨⟨second.sound, second.full (fun b listed => first.full (full_perm perm sane.full) b (by simp [listed])),
    fun other listed => sane.vads other (List.mem_of_mem_eraseIdx listed), fun other listed v small mapped => ?_, ?_⟩,
    base_kept_trans keptA keptN, fun hidden other listed => ?_⟩
  · have listedAll := user_in_all base listed
    have sameN := second.leaf _ listedAll v (Nat.zero_le v) small (fun never => never)
    have sameA := first.leaf _ (List.mem_cons_of_mem _ listedAll) v (Nat.zero_le v) small (fun same => fresh (same ▸ listedAll))
    refine sane.covered other (List.mem_of_mem_eraseIdx listed) v small ?_
    rw [← show leaf n.mem other.pml4 v = leaf w.machine.mem other.pml4 v from sameN.trans sameA]
    exact mapped
  swap
  · have listedAll := user_in_all base listed
    have start := fewer_hides (fun b member => perm.mem_iff.mpr member) (hidden other (List.mem_of_mem_eraseIdx listed))
    have mid := op_hides (List.mem_cons_of_mem _ listedAll) start first (fun _ _ _ same => absurd (same ▸ listedAll) fresh)
    exact op_hides listedAll (fewer_hides (fun b member => by simp [member]) mid) second (fun _ _ _ never => never.elim)
  have steady : ∀ p, Steady w.machine base (w.all base) held p →
      SameBytes w.machine.mem n.mem p ∧ Steady n base (World.all base ⟨n, w.spaces.eraseIdx i⟩) held p := by
    intro p keep
    have start := steady_perm (fun b listed => perm.mem_iff.mpr listed) keep
    obtain ⟨sameA, mid⟩ := steady_op w.machine _ first (fun b listed => by simp [inBase b listed]) outside p start
    obtain ⟨sameN, final⟩ := steady_op a _ second inBase (fun _ _ _ never => never) p
      (steady_perm (fun b listed => by simp [listed]) mid)
    exact ⟨same_bytes_trans sameA sameN, final⟩
  exact windows_carry (same_pool_trans first.pool second.pool) sane.windows (fun p keep => (steady p keep).1)
    (fun p keep => (steady p keep).2)

omit sane in
theorem stops_base {base : List Space} {w : World} {held : Nat → Nat} {slack : Nat} {failure : Panic}
    (stops : Stops w.machine (w.all base) held slack failure) : Stops w.machine base held slack failure := by
  have room : tableRoom w.machine (w.all base) = tableRoom w.machine base := by
    have users : ((w.spaces.map (fun vas => userSpace vas.pml4)).map (fun sp => sp.boot.length)).sum = 0 := by
      simp [userSpace, Function.comp_def]
    rw [tableRoom, tableRoom, World.all, List.map_append, List.sum_append, users, Nat.zero_add]
  rwa [Stops, room] at stops

-- What vas_map_phys can map is in use, or beyond the page database.
def VasCall.Counted (w : World) : VasCall → Prop
  | .mapPhys i hint phys length flags =>
    ∀ vas, w.spaces[i]? = some vas → length ≠ 0 → vasPlace vas hint (alignUp length) flags ≠ none →
      ∀ off ∈ pagesOf 0 (alignUp length), Countable w.machine ((alignDown phys + off) % 2 ^ 64)
  | _ => True

def VasCall.NoFile : VasCall → Prop
  | .mapFile .. => False
  | _ => True

-- vas_map_phys maps any pages, vas_map_file those of a file system.
def VasCall.Pooled : VasCall → Prop
  | .mapPhys .. | .mapFile .. => False
  | _ => True

theorem update_ends {call : Machine → Vas → Result (Machine × Vas)}
    (spec : ∀ vas, w.spaces[i]? = some vas → userSpace vas.pml4 ∈ w.all base → VadsSound vas.list → Covered w.machine.mem vas →
      Ends (call w.machine vas) (fun (n, changed) => Kept w.machine n (w.all base) held vas changed pooled)
        (Stops w.machine (w.all base) held 2)) :
    Ends (w.update i call) (fun next => next.Sane base held ∧ BaseKept base w.machine next.machine ∧
      (pooled → w.Hidden base → next.Hidden base)) (Stops w.machine base held 2) := by
  rw [World.update]
  cases found : w.spaces[i]? with
  | none => exact ⟨sane, base_kept_refl base w.machine, fun _ => id⟩
  | some vas =>
    have inside := List.mem_of_getElem? found
    refine ends_then (spec vas found (user_in_all base inside) (sane.vads vas inside) (sane.covered vas inside))
      (fun failure => stops_base) ?_
    rintro ⟨n, changed⟩ kept
    exact kept_sane sane found kept

end

theorem step_sane (getPage : GetPage) (base : List Space) (held : Nat → Nat) (w : World) (call : VasCall) (sane : w.Sane base held)
    (noFile : call.NoFile) (bounded : call.Bounded w) (counted : call.Counted w) :
    Ends (call.step getPage w) (fun next => next.Sane base held ∧ BaseKept base w.machine next.machine ∧
      (call.Pooled → w.Hidden base → next.Hidden base)) (Stops w.machine base held 2) := by
  have free : ∀ p, Steady w.machine base (w.all base) held p → p ∉ w.machine.free := fun p =>
    steady_not_free sane.sound (base_in_all base w)
  cases call with
  | create =>
    refine @ends_bind _ _ _ _ _ (fun (n, vas) => Created w.machine n (w.all base) held vas.pml4 ∧ vas.list = []) _ _ ?_ ?_
    · refine ends_then (ptable_create_op sane.sound sane.windows free) (fun failure stops => stops_base
          (stops_more (by omega) stops)) ?_
      rintro ⟨n, pt⟩ created
      exact ⟨created, rfl⟩
    · rintro ⟨n, vas⟩ ⟨created, list⟩
      exact (created_sane sane created (by rw [list]; exact vads_sound_nil)).imp_right (And.imp_right fun hides _ => hides)
  | mapAnon i hint length flags =>
    rw [VasCall.step]
    refine update_ends sane (fun vas found listed vads covered => ?_)
    refine ends_bind (map_anon_op sane.sound listed vads (bounded vas found)) ?_
    rintro ⟨n, changed, base'⟩ (⟨rfl, rfl, _⟩ | mapped)
    · exact kept_refl sane.sound vads covered
    · exact mapped_anon_kept listed vads covered mapped
  | mapPhys i hint phys length flags =>
    rw [VasCall.step]
    refine update_ends sane (fun vas found listed vads covered => ?_)
    refine ends_bind (map_phys_op sane.sound listed vads
      (bounded vas found) covered (counted vas found)) ?_
    rintro ⟨n, changed, base'⟩ (⟨rfl, rfl, _⟩ | mapped)
    · exact kept_refl sane.sound vads covered
    · exact mapped_phys_kept listed vads covered mapped
  | mapFile i hint file fileOffset length flags => exact noFile.elim
  | unmap i start length =>
    rw [VasCall.step]
    refine update_ends sane (fun vas found listed vads covered => ?_)
    have rounded := align_up_aligned length
    have aligned : alignDown start % 4096 = 0 := by rw [alignDown]; omega
    refine ends_imp (unmap_op sane.sound listed vads start length) ?_
    rintro ⟨n, changed⟩ (⟨rfl, rfl, _⟩ | ⟨nonzero, unmapped⟩)
    · exact kept_refl sane.sound vads covered
    · exact unmapped_kept listed vads covered aligned (by omega) (bounded vas found nonzero) unmapped
  | protect i start length newProt =>
    rw [VasCall.step]
    refine update_ends sane (fun vas found listed vads covered => ?_)
    refine ends_imp (protect_op sane.sound listed vads start length newProt) ?_
    rintro ⟨n, changed⟩ (⟨rfl, rfl, _⟩ | ⟨_, done, after⟩)
    · exact kept_refl sane.sound vads covered
    · exact protected_kept listed vads covered (protect_root done) (protect_ranges done) after
  | clone i =>
    rw [VasCall.step, World.cloneAt]
    cases found : w.spaces[i]? with
    | none => exact ⟨sane, base_kept_refl base w.machine, fun _ => id⟩
    | some vas =>
      have inside := List.mem_of_getElem? found
      refine ends_then (clone_op sane.sound (user_in_all base inside)
        (sane.vads vas inside) sane.windows free) (fun failure => stops_base) ?_
      rintro ⟨n, dst⟩ cloned
      exact (cloned_sane sane inside cloned).imp_right (And.imp_right fun hides _ => hides)
  | pageFault i addr err =>
    rw [VasCall.step]
    refine update_ends sane (fun vas found listed vads covered => ?_)
    refine ends_bind (page_fault_op addr err sane.sound listed vads) ?_
    rintro ⟨n, handled⟩ (⟨_, rfl⟩ | ⟨_, d, _, _, _, faulted⟩)
    · exact kept_refl sane.sound vads covered
    · exact faulted_kept listed vads covered faulted
  | destroy i =>
    rw [VasCall.step, World.destroyAt]
    cases found : w.spaces[i]? with
    | none => exact ⟨sane, base_kept_refl base w.machine, fun _ => id⟩
    | some vas =>
      have inside := List.mem_of_getElem? found
      have perm := erased_perm base w i vas w.machine found
      refine ends_then (destroy_op (sound_perm perm sane.sound) (full_perm perm sane.full) (sane.vads vas inside)
        (sane.covered vas inside)
        (user_not_kernel sane inside)) (fun failure => @stops_base base ⟨w.machine, w.spaces.eraseIdx i⟩ held 2 failure) ?_
      rintro n ⟨a, first, second⟩
      exact (destroyed_sane (n := n) sane found first second).imp_right (And.imp_right fun hides _ => hides)

end Lyr.Mm
