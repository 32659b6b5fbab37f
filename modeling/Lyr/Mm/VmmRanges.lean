import Lyr.Mm.PagingSpace
import Lyr.Mm.VadList
import Lyr.Mm.VmmCow

set_option autoImplicit false

namespace Lyr.Mm

open Lyr.Lib

def Pages (sp : Space) (start stop : Nat) : Space → Nat → Prop := fun b v => b = sp ∧ start ≤ 4096 * v ∧ 4096 * v < stop

theorem user_page (v stop : Nat) (inside : 4096 * v < stop) (below : stop ≤ vasUserEnd) : v < 2 ^ 35 ∧ pageNumber (4096 * v) = v := by
  rw [vasUserEnd] at below
  rw [pageNumber]
  omega

theorem ends_pages (start stop : Nat) (step : Machine → Nat → Result Machine) (inv : Nat → Machine → Prop) (fails : Panic → Prop)
    (aligned : start % 4096 = 0)
    (keeps : ∀ v m, start ≤ 4096 * v → 4096 * v < stop → inv v m → Ends (step m (4096 * v)) (inv (v + 1)) fails)
    (m : Machine) (first : inv (start / 4096) m) :
    Ends ((pagesOf start stop).foldlM step m) (fun n => ∃ v, stop ≤ 4096 * v ∧ 4096 * v < max start stop + 4096 ∧ inv v n) fails := by
  rw [pagesOf, List.foldlM_map]
  refine ends_imp (ends_range _ (fun i => inv (start / 4096 + i)) fails _ (fun i n small holds => ?_) m first)
    (fun n holds => ⟨_, by omega, by omega, holds⟩)
  have next := keeps (start / 4096 + i) n (by omega) (by omega) holds
  rwa [show 4096 * (start / 4096 + i) = start + 4096 * i by omega] at next

variable {n a b m : Machine} {sp : Space} {start stop v virt flags p phys : Nat} {list rest : List Vad} {d : Vad}
    {spaces : List Space}
  {held : Nat → Nat}

section Ranges

variable (m : Machine) {spaces : List Space} {held : Nat → Nat} {pt : Nat}

theorem pages_step (a b : Machine) (sp : Space) (start v : Nat) (low : start ≤ 4096 * v)
    (before : Op m a spaces held (Pages sp start (4096 * v))) (step : Op a b spaces held (leafAt sp v)) :
    Op m b spaces held (Pages sp start (4096 * (v + 1))) := by
  refine op_trans (op_mono before ?_) (op_mono step ?_)
  · rintro c w ⟨same, from_, upto⟩
    exact ⟨same, from_, by omega⟩
  · rintro c w ⟨same, rfl⟩
    exact ⟨same, low, by omega⟩

theorem pages_whole (aligned : start % 4096 = 0) (stopAligned : stop % 4096 = 0)
    (last : 4096 * v < max start stop + 4096) (op : Op m n spaces held (Pages sp start (4096 * v))) :
    Op m n spaces held (Pages sp start stop) := by
  refine op_mono op ?_
  rintro c w ⟨same, low, high⟩
  exact ⟨same, low, by omega⟩

variable (spaces pt) in
def FreshPage (n : Machine) (v prot : Nat) : Prop :=
  ∃ q, q ≤ m.maxPfn ∧ leaf n.mem pt v = some (leafValue (4096 * q) prot) ∧ ¬ AnyTable n.mem spaces q ∧
    refs n.mem spaces q = 1 ∧ ((∀ p ∈ m.free, ZeroPage m.mem p) → ZeroPage n.mem q)

section

variable (member : userSpace pt ∈ spaces)
include member

theorem fresh_page_kept {w prot r : Nat} (sound : Sound a spaces held)
    (pool : SamePool m a) (highV : v < 2 ^ 35) (highW : w < 2 ^ 35) (different : v ≠ w) (fresh : FreshPage m spaces pt a v prot)
    (op : Op a b spaces held (leafAt (userSpace pt) w)) (mapped : table b.mem pt 4 w = some r) (free : r ∈ a.free) :
    FreshPage m spaces pt b v prot := by
  obtain ⟨q, tracked, leafA, off, single, zero⟩ := fresh
  have physical : q < 2 ^ 40 := by
    have bound := sound.free.physical
    rw [pool.maxPfn] at bound
    omega
  have outside : ¬ leafAt (userSpace pt) w (userSpace pt) v := fun here => different here.2
  have tableA := table_leaf_value physical leafA
  have leafB : leaf b.mem pt v = some (leafValue (4096 * q) prot) :=
    (op.leaf _ member v (Nat.zero_le v) highV outside).trans leafA
  have tableB := table_leaf_value physical leafB
  obtain ⟨same, offB⟩ := op.bytes q ⟨off, .inr (.inr ⟨_, member, v, Nat.zero_le v, highV, outside, tableA⟩)⟩
  refine ⟨q, tracked, leafB, offB, ?_, fun zeros i low high => ?_⟩
  · have apart : r ≠ q := fun same => mapped_not_free sound member (Nat.zero_le v) highV tableA (same ▸ free)
    have moved := refs_update a.mem b.mem spaces sound.nodup _ member w (Nat.zero_le w) highW (fun c other x lowX highX away => by
      rw [table_four, table_four, op.leaf c other x lowX highX away]) q
    have positive := refs_pos member (Nat.zero_le v) highV tableB
    rw [show (userSpace pt).root = pt from rfl, mapped, one_neg (fun eq => apart (Option.some.inj eq))] at moved
    omega
  · rw [same i low high]
    exact zero zeros i low high

omit member in
theorem free_zero {changed : Space → Nat → Prop} (op : Op m n spaces held changed) (zeros : ∀ p ∈ m.free, ZeroPage m.mem p) :
    ∀ p ∈ n.free, ZeroPage n.mem p := by
  intro p inside
  rcases op.free p inside with ⟨old, same⟩ | zero
  · intro i low high
    rw [same i low high]
    exact zeros p old i low high
  · exact zero

theorem commit_anon_op {vad : Vad} (sound : Sound m spaces held) (well : VadSound vad) :
    Ends (commitAnon m pt vad) (fun n => Op m n spaces held (Pages (userSpace pt) vad.start vad.stop) ∧
      ∀ v, vad.start ≤ 4096 * v → 4096 * v < vad.stop → FreshPage m spaces pt n v (vad.flags &&& vadProtMask))
      (Stops m spaces held 2) := by
  refine ends_imp (ends_pages vad.start vad.stop _ (fun v n => Op m n spaces held (Pages (userSpace pt) vad.start (4096 * v)) ∧
      ∀ w, vad.start ≤ 4096 * w → w < v → FreshPage m spaces pt n w (vad.flags &&& vadProtMask))
    (Stops m spaces held 2) well.startAligned ?_ m ⟨@op_refl m spaces held _ sound, fun w low high => by omega⟩) ?_
  · rintro v a low high ⟨op, done⟩
    obtain ⟨small, number⟩ := user_page v vad.stop high well.below
    have step := commit_page_op (4096 * v) (vad.flags &&& vadProtMask) op.sound member
      (Nat.zero_le _) (by rw [number]; exact small)
    rw [number] at step
    refine ends_mono step ?_ (fun failure stops => stops_pool op.pool stops)
    rintro n ⟨stepOp, q, free, leafN, physical, same, off, single⟩
    have mapped := table_leaf_value physical leafN
    refine ⟨pages_step m a n _ _ v low op stepOp, fun w lowW highW => ?_⟩
    by_cases here : w = v
    · subst here
      refine ⟨q, ?_, leafN, off, single, fun zeros i lowI highI => ?_⟩
      · rw [← op.pool.maxPfn]
        exact (op.sound.free.tracked q free).1
      · rw [same i lowI highI]
        exact free_zero m op zeros q free i lowI highI
    · exact fresh_page_kept m member op.sound op.pool (by omega) small here (done w lowW (by omega)) stepOp mapped free
  · rintro n ⟨v, reached, last, op, done⟩
    exact ⟨pages_whole m well.startAligned well.stopAligned last op, fun w low high => done w low (by omega)⟩

theorem unmap_refs_le (sound : Sound a spaces held) (high : v < 2 ^ 35)
    (cleared : SetOp a b spaces held (userSpace pt) v none) (p : Nat) : refs b.mem spaces p ≤ refs a.mem spaces p := by
  have gone := @table_leaf_none b.mem pt v (@set_op_leaf a b spaces held (userSpace pt) v none cleared member (Nat.zero_le v) high)
  have moved := refs_update a.mem b.mem spaces sound.nodup _ member v (Nat.zero_le v) high (fun c other x lowX highX away => by
    rw [table_four, table_four, cleared.op.leaf c other x lowX highX away]) p
  rw [show (userSpace pt).root = pt from rfl, gone, @one_neg (none = some p) _ (fun eq => by cases eq)] at moved
  omega

theorem uncommit_range_op (sound : Sound m spaces held)
    (aligned : start % 4096 = 0) (stopAligned : stop % 4096 = 0) (below : stop ≤ vasUserEnd) :
    Ends (uncommitRange m pt start stop) (fun n => Op m n spaces held (Pages (userSpace pt) start stop) ∧
      (∀ v, start ≤ 4096 * v → 4096 * v < stop → leaf n.mem pt v = none) ∧ ∀ p, refs n.mem spaces p ≤ refs m.mem spaces p)
      (Stops m spaces held 2) := by
  refine ends_imp (ends_pages start stop _ (fun v n => Op m n spaces held (Pages (userSpace pt) start (4096 * v)) ∧
      (∀ w, start ≤ 4096 * w → w < v → leaf n.mem pt w = none) ∧ ∀ p, refs n.mem spaces p ≤ refs m.mem spaces p)
    (Stops m spaces held 2) aligned ?_ m ⟨@op_refl m spaces held _ sound, fun w low high => by omega, fun _ => Nat.le_refl _⟩) ?_
  · rintro v a low high ⟨op, done, fewer⟩
    obtain ⟨small, number⟩ := user_page v stop high below
    have step := @unmap_page_op a spaces held _ (4096 * v) op.sound member (Nat.zero_le _) (by rw [number]; exact small)
    rw [number] at step
    refine ends_mono step ?_ (fun failure stops => stops_pool op.pool (stops_more (by omega) stops))
    intro n cleared
    refine ⟨pages_step m a n _ _ v low op cleared.op, fun w lowW highW => ?_, fun p =>
      (unmap_refs_le member op.sound small cleared p).trans (fewer p)⟩
    by_cases here : w = v
    · subst here
      exact @set_op_leaf a n spaces held (userSpace pt) w none cleared member (Nat.zero_le _) small
    · rw [← done w lowW (by omega)]
      exact cleared.op.leaf (userSpace pt) member w (Nat.zero_le _) (Nat.lt_trans (by omega) small) (fun both => here both.2)
  · rintro n ⟨v, reached, last, op, done, fewer⟩
    exact ⟨pages_whole m aligned stopAligned last op, fun w low high => done w low (by omega), fewer⟩

def InVads (list : List Vad) (v : Nat) : Prop := ∃ d ∈ list, d.start ≤ 4096 * v ∧ 4096 * v < d.stop

def Visited (start stop : Nat) (list : List Vad) (v : Nat) : Prop := start ≤ 4096 * v ∧ 4096 * v < stop ∧ InVads list v

omit member in
theorem in_vads_user (sound : VadsSound list) (inside : InVads list v) : v < 2 ^ 35 := by
  obtain ⟨d, member, _, high⟩ := inside
  exact (user_page v d.stop high (sound.each d member).below).1

omit member in
theorem visited_past (start : Nat) (sound : VadsSound (d :: rest)) (past : ¬ d.start < stop) (v : Nat) :
    ¬ Visited start stop (d :: rest) v := by
  rintro ⟨_, high, e, member, lowE, _⟩
  rcases List.mem_cons.mp member with rfl | later
  · omega
  · have above := head_lowest sound later
    omega

omit member in
theorem visited_before (stop : Nat) (rest : List Vad) (before : d.stop ≤ start) (v : Nat) :
    Visited start stop rest v ↔ Visited start stop (d :: rest) v := by
  refine and_congr_right fun low => and_congr_right fun _ => ⟨fun ⟨e, member, inside⟩ => ⟨e, by simp [member], inside⟩, ?_⟩
  rintro ⟨e, member, inside⟩
  rcases List.mem_cons.mp member with rfl | later
  · omega
  · exact ⟨e, later, inside⟩

omit member in
theorem visited_cons (start stop : Nat) (d : Vad) (rest : List Vad) (v : Nat) :
    (max d.start start ≤ 4096 * v ∧ 4096 * v < min d.stop stop) ∨ Visited start stop rest v ↔ Visited start stop (d :: rest) v := by
  constructor
  · rintro (⟨low, high⟩ | ⟨low, high, e, member, inside⟩)
    · exact ⟨by omega, by omega, d, by simp, by omega, by omega⟩
    · exact ⟨low, high, e, by simp [member], inside⟩
  rintro ⟨low, high, e, member, inside⟩
  rcases List.mem_cons.mp member with rfl | later
  · exact .inl ⟨by omega, by omega⟩
  · exact .inr ⟨low, high, e, later, inside⟩

omit member in
theorem visited_apart (sound : VadsSound (d :: rest)) (v : Nat)
    (here : max d.start start ≤ 4096 * v ∧ 4096 * v < min d.stop stop) : ¬ Visited start stop rest v := by
  rintro ⟨_, _, e, member, low, _⟩
  have above := head_lowest sound member
  omega

section

variable (sound : Sound m spaces held)
include sound

theorem unmap_pages_op
    (vads : VadsSound list) (aligned : start % 4096 = 0) (stopAligned : stop % 4096 = 0) :
    Ends (vasUnmapPages m pt start stop list) (fun n => Op m n spaces held (fun b w => b = userSpace pt ∧ Visited start stop list w) ∧
        (∀ v, Visited start stop list v → leaf n.mem pt v = none) ∧ ∀ p, refs n.mem spaces p ≤ refs m.mem spaces p)
      (Stops m spaces held 2) := by
  induction list generalizing m with
  | nil =>
    refine ⟨op_refl sound, fun v visited => ?_, fun _ => Nat.le_refl _⟩
    obtain ⟨_, _, d, inside, _⟩ := visited
    cases inside
  | cons d rest ih =>
    have own := vads.each d (by simp)
    have tail := vads_sound_tail vads
    rw [vasUnmapPages]
    by_cases reached : d.start < stop
    swap
    · rw [if_neg reached]
      exact ⟨op_refl sound, fun v visited => absurd visited (visited_past start vads reached v), fun _ => Nat.le_refl _⟩
    rw [if_pos reached]
    by_cases before : d.stop ≤ start
    · rw [if_pos before]
      refine ends_imp (ih m sound tail) ?_
      simp only [visited_before stop rest before]
      exact fun n post => post
    rw [if_neg before]
    refine ends_bind (uncommit_range_op m member sound
      (by have := own.startAligned; omega) (by have := own.stopAligned; omega) (by have := own.below; omega)) ?_
    rintro a ⟨opA, clearedA, fewerA⟩
    refine ends_mono (ih a opA.sound tail) ?_ (fun failure stops => stops_pool opA.pool stops)
    rintro n ⟨opN, clearedN, fewerN⟩
    refine ⟨op_trans (op_mono opA fun b w here => ?_) (op_mono opN fun b w here => ?_), fun v visited => ?_,
      fun p => (fewerN p).trans (fewerA p)⟩
    · exact ⟨here.1, (visited_cons start stop d rest w).mp (.inl here.2)⟩
    · exact ⟨here.1, (visited_cons start stop d rest w).mp (.inr here.2)⟩
    rcases (visited_cons start stop d rest v).mpr visited with here | later
    · have small := in_vads_user vads visited.2.2
      have same := opN.leaf (userSpace pt) member v (Nat.zero_le v) small (fun both => visited_apart vads v here both.2)
      exact same.trans (clearedA v here.1 here.2)
    · exact clearedN v later

theorem protect_range_op (prot : Nat)
    (aligned : start % 4096 = 0) (stopAligned : stop % 4096 = 0) (below : stop ≤ vasUserEnd) :
    Ends ((pagesOf start stop).foldlM (fun m va => protectPage m pt va prot) m)
      (fun n => Protected m n spaces held (userSpace pt) (fun w => start ≤ 4096 * w ∧ 4096 * w < stop) prot)
      (Stops m spaces held 2) := by
  refine ends_imp (ends_pages start stop _
    (fun v n => Protected m n spaces held (userSpace pt) (fun w => start ≤ 4096 * w ∧ w < v) prot)
      (Stops m spaces held 2) aligned ?_ m
    (protected_refl prot sound (fun w inside => by omega))) ?_
  · intro v a low high before
    obtain ⟨small, number⟩ := user_page v stop high below
    have step := protect_page_op prot before.op.sound member (Nat.zero_le _) (by rw [number]; exact small)
    rw [number] at step
    refine ends_mono step ?_ (fun failure stops => stops_pool before.op.pool stops)
    intro n after
    refine protected_congr prot (fun w => ?_)
      (protected_trans prot member before after (fun w early late => by omega))
    omega
  · rintro n ⟨v, reached, last, whole⟩
    exact protected_congr prot (fun w => by omega) whole

theorem protect_vads_op (start stop prot : Nat) (list : List Vad)
    (vads : VadsSound list) (aligned : start % 4096 = 0) (stopAligned : stop % 4096 = 0) :
    Ends (vasProtectVads m pt start stop prot list)
      (fun (n, _) => Protected m n spaces held (userSpace pt) (Visited start stop list) prot) (Stops m spaces held 2) := by
  induction list generalizing m with
  | nil =>
    refine protected_refl prot sound (fun w visited => ?_)
    obtain ⟨_, _, d, inside, _⟩ := visited
    cases inside
  | cons d rest ih =>
    have own := vads.each d (by simp)
    have tail := vads_sound_tail vads
    rw [vasProtectVads]
    by_cases reached : d.start < stop
    swap
    · rw [if_neg reached]
      exact protected_refl prot sound (visited_past start vads reached)
    rw [if_pos reached]
    by_cases before : d.stop ≤ start
    · rw [if_pos before]
      refine ends_bind (ih m sound tail) (fun (n, _) post => ?_)
      exact protected_congr prot (visited_before stop rest before) post
    rw [if_neg before]
    refine ends_bind (protect_range_op m member sound prot
      (by have := own.startAligned; omega) (by have := own.stopAligned; omega) (by have := own.below; omega)) ?_
    intro a first
    refine ends_then (ih a first.op.sound tail) (fun failure stops => stops_pool first.op.pool stops) (fun (n, _) second => ?_)
    exact protected_congr prot (visited_cons start stop d rest)
      (protected_trans prot member first second (visited_apart vads))

end

end

section Clone

variable {src dst : Nat} (sound : Sound m spaces held) (inSrc : userSpace src ∈ spaces) (inDst : userSpace dst ∈ spaces)
    (different : src ≠ dst)

include sound inSrc inDst different

theorem clone_range_op (well : VadSound d) (absent : ∀ v, d.start ≤ 4096 * v → 4096 * v < d.stop → leaf m.mem dst v = none) :
    Ends ((pagesOf d.start d.stop).foldlM (fun m va => clonePage m src dst d.flags va) m)
      (fun n => Cloned m n spaces held (userSpace src) (userSpace dst) (fun w => d.start ≤ 4096 * w ∧ 4096 * w < d.stop)
        (fun _ => d.flags)) (Stops m spaces held 2) := by
  have apart : userSpace src ≠ userSpace dst := fun same => different (congrArg Space.root same)
  have inRange : ∀ w, 4096 * w < d.stop → (userSpace src).lo ≤ w ∧ w < (userSpace src).hi := fun w high =>
    ⟨Nat.zero_le w, (user_page w d.stop high well.below).1⟩
  refine ends_imp (ends_pages d.start d.stop _
    (fun v n => Cloned m n spaces held (userSpace src) (userSpace dst) (fun w => (d.start ≤ 4096 * w ∧ 4096 * w < d.stop) ∧ w < v)
      (fun _ => d.flags)) (Stops m spaces held 2) well.startAligned ?_ m
    (cloned_refl sound (fun w inside => by omega))) ?_
  · intro v a low high before
    obtain ⟨small, number⟩ := user_page v d.stop high well.below
    have untouched : leaf a.mem dst v = none :=
      (before.op.leaf (userSpace dst) inDst v (Nat.zero_le v) small (fun both => by omega)).trans (absent v low high)
    have step := clone_page_op before.op.sound d.flags inSrc inDst apart rfl rfl
      (Nat.zero_le _) (by rw [number]; exact small) (by rw [number]; exact untouched)
    rw [number] at step
    refine ends_mono step ?_ (fun failure stops => stops_pool before.op.pool stops)
    intro n after
    refine cloned_congr (fun w => ?_) (fun _ _ => rfl)
      (cloned_trans inSrc inDst rfl rfl (fun w inside => inRange w inside.1.2)
        (fun w here => inRange w (by omega)) before after (fun w early late => by omega))
    omega
  · rintro n ⟨v, reached, last, whole⟩
    exact cloned_congr (fun w => by omega) (fun _ _ => rfl) whole

end Clone

end Ranges

def flagsAt (list : List Vad) (v : Nat) : Nat :=
  match list.find? (fun d => decide (d.start ≤ 4096 * v ∧ 4096 * v < d.stop)) with
  | none => 0
  | some d => d.flags

theorem flags_at_head (rest : List Vad) (low : d.start ≤ 4096 * v) (high : 4096 * v < d.stop) : flagsAt (d :: rest) v = d.flags := by
  simp [flagsAt, low, high]

theorem flags_at_tail (rest : List Vad) (outside : ¬ (d.start ≤ 4096 * v ∧ 4096 * v < d.stop)) :
    flagsAt (d :: rest) v = flagsAt rest v := by
  simp [flagsAt, outside]

theorem in_vads_cons (d : Vad) (rest : List Vad) (v : Nat) :
    InVads (d :: rest) v ↔ (d.start ≤ 4096 * v ∧ 4096 * v < d.stop) ∨ InVads rest v := by
  simp only [InVads, List.exists_mem_cons_iff]

theorem in_vads_apart (sound : VadsSound (d :: rest)) (v : Nat) (here : d.start ≤ 4096 * v ∧ 4096 * v < d.stop) :
    ¬ InVads rest v := by
  rintro ⟨e, member, low, _⟩
  have above := head_lowest sound member
  omega

theorem clone_vads_op {src dst : Nat} (m : Machine) (copied : List Vad)
    (sound : Sound m spaces held) (inSrc : userSpace src ∈ spaces) (inDst : userSpace dst ∈ spaces) (different : src ≠ dst)
    (vads : VadsSound list) (absent : ∀ v, InVads list v → leaf m.mem dst v = none) :
    Ends (cloneVads src dst m copied list)
      (fun (n, _) => Cloned m n spaces held (userSpace src) (userSpace dst) (InVads list) (flagsAt list)) (Stops m spaces held 2) :=
        by
  induction list generalizing m copied with
  | nil =>
    refine cloned_refl sound (fun w inside => ?_)
    obtain ⟨d, member, _⟩ := inside
    cases member
  | cons d rest ih =>
    have own := vads.each d (by simp)
    have tail := vads_sound_tail vads
    rw [cloneVads]
    refine ends_bind (clone_range_op m sound inSrc inDst different own
      (fun v low high => absent v ((in_vads_cons d rest v).mpr (.inl ⟨low, high⟩)))) ?_
    intro a first
    have absentA : ∀ v, InVads rest v → leaf a.mem dst v = none := by
      intro v later
      have same := first.op.leaf (userSpace dst) inDst v (Nat.zero_le v) (in_vads_user tail later)
        (fun both => in_vads_apart vads v both.2 later)
      exact same.trans (absent v ((in_vads_cons d rest v).mpr (.inr later)))
    refine ends_mono (ih a (vadInsert (cloneVad d) copied) first.op.sound tail absentA) (fun (n, _) second => ?_)
      (fun failure stops => stops_pool first.op.pool stops)
    have early := cloned_congr (fun w => Iff.rfl) (fun w here => (flags_at_head rest here.1 here.2).symm) first
    have late := cloned_congr (fun w => Iff.rfl)
      (fun w later => (flags_at_tail rest (fun here => in_vads_apart vads w here later)).symm) second
    refine cloned_congr (fun w => (in_vads_cons d rest w).symm) (fun _ _ => rfl)
      (cloned_trans inSrc inDst rfl rfl (fun w here => ⟨Nat.zero_le w, ?_⟩)
        (fun w later => ⟨Nat.zero_le w, in_vads_user tail later⟩) early late (in_vads_apart vads))
    exact (user_page w d.stop here.2 own.below).1

theorem map_phys_page_op {va : Nat} (prot : Nat)
    (sound : Sound m spaces held) (member : sp ∈ spaces) (low : sp.lo ≤ pageNumber va) (high : pageNumber va < sp.hi)
    (absent : leaf m.mem sp.root (pageNumber va) = none) (countable : Countable m phys) :
    Ends (mapPhysPage m sp.root va phys prot)
      (fun n => Op m n spaces held (leafAt sp (pageNumber va)) ∧ ∀ p, m.used p ≠ none → n.used p ≠ none) (Stops m spaces held 2) := by
  rw [mapPhysPage, pfndbPhysToPage]
  by_cases foreign : phys / 4096 > m.maxPfn
  · rw [if_pos foreign]
    exact ends_mono (map_page_phys_ends prot sound member low high (fun _ => countable))
      (fun n sets => ⟨(sets_op sound sets).op, sets.2.2.2.1 absent⟩) (fun _ => stops_more (by omega))
  rw [if_neg foreign]
  obtain ⟨use, record⟩ := Option.ne_none_iff_exists'.mp (countable.2.resolve_left foreign)
  have counted := (sound.counts.used _ use record).2.1
  refine ends_mono (map_page_ends prot sound member low high)
    (fun n sets => ⟨(sets_op sound sets).op, sets.2.2.2.1 absent⟩) (fun failure stops => stops_more (by omega) (stops (by omega) ?_))
  rw [table_leaf_none absent, one_neg (fun eq => by cases eq)]
  exact counted

theorem map_phys_range_op {pt base length : Nat} (prot : Nat)
    (sound : Sound m spaces held) (member : userSpace pt ∈ spaces) (aligned : base % 4096 = 0) (lengthAligned : length % 4096 = 0)
    (below : base + length ≤ vasUserEnd)
    (absent : ∀ v, base ≤ 4096 * v → 4096 * v < base + length → leaf m.mem pt v = none)
    (countable : ∀ off ∈ pagesOf 0 length, Countable m ((phys + off) % 2 ^ 64)) :
    Ends ((pagesOf 0 length).foldlM (fun m off => mapPhysPage m pt (base + off) ((phys + off) % 2 ^ 64) prot) m)
      (fun n => Op m n spaces held (Pages (userSpace pt) base (base + length))) (Stops m spaces held 2) := by
  have listed : ∀ i, i < (length - 0 + 4095) / 4096 → 4096 * i ∈ pagesOf 0 length := by
    intro i small
    exact List.mem_map.mpr ⟨i, List.mem_range.mpr small, by omega⟩
  rw [pagesOf, List.foldlM_map]
  refine ends_imp (ends_range _ (fun i n => Op m n spaces held (Pages (userSpace pt) base (4096 * (base / 4096 + i))) ∧
    ∀ p, m.used p ≠ none → n.used p ≠ none) (Stops m spaces held 2) _ (fun i a small before => ?_) m
    ⟨@op_refl m spaces held _ sound, fun _ inUse => inUse⟩) (fun n after => ?_)
  · obtain ⟨op, kept⟩ := before
    obtain ⟨inside, number⟩ := user_page (base / 4096 + i) (base + length) (by omega) below
    have here : base + (0 + 4096 * i) = 4096 * (base / 4096 + i) := by omega
    have countableA : Countable a ((phys + 4096 * i) % 2 ^ 64) := by
      obtain ⟨physical, inUse⟩ := countable _ (listed i small)
      refine ⟨physical, inUse.imp (fun foreign => ?_) (kept _)⟩
      rw [op.pool.maxPfn]
      exact foreign
    have leafA : leaf a.mem pt (base / 4096 + i) = none :=
      (op.leaf (userSpace pt) member _ (Nat.zero_le _) inside (fun both => Nat.lt_irrefl _ both.2.2)).trans
        (absent _ (by omega) (by omega))
    have step := map_phys_page_op prot op.sound member (Nat.zero_le _) (by rw [number]; exact inside)
      (by rw [number]; exact leafA) countableA
    rw [number] at step
    rw [here, Nat.zero_add]
    refine ends_mono step ?_ (fun failure stops => stops_pool op.pool stops)
    rintro n ⟨stepOp, keptN⟩
    exact ⟨pages_step m a n _ base (base / 4096 + i) (by omega) op stepOp, fun p inUse => keptN p (kept p inUse)⟩
  refine op_mono after.1 ?_
  rintro b w ⟨same, low, high⟩
  exact ⟨same, low, by omega⟩

end Lyr.Mm
