import Lyr.Mm.WorldCounts

set_option autoImplicit false

namespace Lyr.Mm

open Lyr.Lib

-- Its flags and, for a file mapping, the file and the offset of the page in it.
def pageAttrs (d : Vad) (v : Nat) : Nat × Option (Option Nat × Nat) :=
  (d.flags, if d.flags &&& vadFile ≠ 0 then some (d.file, (d.fileOffset + (4096 * v - d.start)) % 2 ^ 64) else none)

def Shows (list : List Vad) (v : Nat) (attrs : Nat × Option (Option Nat × Nat)) : Prop :=
  ∃ d ∈ list, (d.start ≤ 4096 * v ∧ 4096 * v < d.stop) ∧ pageAttrs d v = attrs

structure RangeGone (m n : Machine) (spaces : List Space) (vas changed : Vas) (start stop : Nat) : Prop where
  root : changed.pml4 = vas.pml4
  vads : ∀ v attrs, Shows changed.list v attrs ↔ Shows vas.list v attrs ∧ ¬ (start ≤ 4096 * v ∧ 4096 * v < stop)
  absent : ∀ v, v < 2 ^ 35 → start ≤ 4096 * v → 4096 * v < stop → leaf n.mem vas.pml4 v = none
  kept : ∀ b ∈ spaces, ∀ v, b.lo ≤ v → v < b.hi → ¬ (b = userSpace vas.pml4 ∧ start ≤ 4096 * v ∧ 4096 * v < stop) →
    leaf n.mem b.root v = leaf m.mem b.root v

variable {d : Vad} {start stop v : Nat} {attrs : Nat × Option (Option Nat × Nat)}

theorem file_flag_kept {flags : Nat} (file : flags &&& vadFile ≠ 0) : flags ||| vadFile = flags := by
  rw [show vadFile = 2 ^ 15 from rfl, Nat.and_two_pow] at *
  have set : flags.testBit 15 = true := by
    by_contra clear
    simp [clear] at file
  apply Nat.eq_of_testBit_eq
  intro i
  by_cases here : i = 15
  · simp [here, set]
  · rw [Nat.testBit_or, Nat.testBit_two_pow_of_ne (Ne.symm here), Bool.or_false]

theorem segment_shows (low : d.start ≤ start) :
    Shows [vadCloneSegment d start stop] v attrs ↔ (start ≤ 4096 * v ∧ 4096 * v < stop) ∧ pageAttrs d v = attrs := by
  obtain ⟨first, last⟩ := clone_segment_range d start stop
  simp only [Shows, List.mem_singleton, exists_eq_left, first, last]
  refine and_congr_right fun inside => ?_
  rw [pageAttrs, pageAttrs, first, vadCloneSegment]
  split
  · rename_i file
    simp only [vadAllocFile, file_flag_kept file, if_pos file]
    rw [show ((d.fileOffset + (start - d.start)) % 2 ^ 64 + (4096 * v - start)) % 2 ^ 64 =
      (d.fileOffset + (4096 * v - d.start)) % 2 ^ 64 by omega]
  · rename_i anonymous
    rw [vadAlloc, if_neg anonymous]

theorem remove_range_shows (ordered : start ≤ stop) (list : List Vad) :
    Shows (vadRemoveRange start stop list) v attrs ↔ Shows list v attrs ∧ ¬ (start ≤ 4096 * v ∧ 4096 * v < stop) := by
  have append : ∀ first second : List Vad, Shows (first ++ second) v attrs ↔ Shows first v attrs ∨ Shows second v attrs := by
    intro first second
    simp only [Shows, List.mem_append, or_and_right, exists_or]
  have none : ¬ Shows [] v attrs := by simp [Shows]
  induction list with
  | nil => simp [vadRemoveRange, none]
  | cons d rest ih =>
    have single : Shows [d] v attrs ↔ (d.start ≤ 4096 * v ∧ 4096 * v < d.stop) ∧ pageAttrs d v = attrs := by simp [Shows]
    rw [remove_range_cons, append, show d :: rest = [d] ++ rest from rfl, append, or_and_right]
    refine or_congr ?_ ih
    split
    · rw [single]
      grind
    · have left : Shows (if d.start < start then [vadCloneSegment d d.start start] else []) v attrs ↔
          (d.start ≤ 4096 * v ∧ 4096 * v < start) ∧ pageAttrs d v = attrs := by
        split
        · exact segment_shows (Nat.le_refl _)
        · simp only [none, false_iff]
          omega
      have right : Shows (if stop < d.stop then [vadCloneSegment d stop d.stop] else []) v attrs ↔
          (stop ≤ 4096 * v ∧ 4096 * v < d.stop) ∧ pageAttrs d v = attrs := by
        split
        · exact segment_shows (by omega)
        · simp only [none, false_iff]
          omega
      rw [remainders, append, left, right, single]
      grind

theorem unmap_removes_exactly_the_range (m : Machine) (spaces : List Space) (held : Nat → Nat) (vas : Vas) (start length : Nat)
    (sound : Sound m spaces held) (member : userSpace vas.pml4 ∈ spaces) (vads : VadsSound vas.list) (covered : Covered m.mem vas)
    (low : start ≤ vasUserEnd) (nonzero : length ≠ 0) (short : length ≤ vasUserEnd) :
    Ends (vasUnmap m vas start length)
      (fun (n, changed) => RangeGone m n spaces vas changed (alignDown start) (alignDown start + alignUp length))
        (Stops m spaces held 2) := by
  have whole : (alignDown start + alignUp length) % 2 ^ 64 = alignDown start + alignUp length := by
    rw [alignDown, alignUp, vasUserEnd] at *
    omega
  refine ends_imp (unmap_op sound member vads start length) ?_
  rintro ⟨n, changed⟩ (⟨_, _, zero⟩ | ⟨_, unmapped⟩)
  · exact absurd zero nonzero
  rw [whole] at unmapped
  obtain ⟨rfl, op, gone, _⟩ := unmapped
  refine ⟨rfl, fun v attrs => remove_range_shows (Nat.le_add_right _ _) vas.list, fun v small above below => ?_,
    fun b inside v lowB highB outside => op.leaf b inside v lowB highB (fun here => outside ⟨here.1, here.2.1, here.2.2.1⟩)⟩
  by_cases listed : InVads vas.list v
  · exact gone v ⟨above, below, listed⟩
  · -- a page that no VAD covers was not mapped before, and is not touched
    refine (op.leaf (userSpace vas.pml4) member v (Nat.zero_le v) small (fun here => listed here.2.2.2)).trans ?_
    by_contra mapped
    exact listed (covered v small mapped)

theorem middle_page_unmapped : (∃ n changed, vasUnmap mappedWorld.machine mappedVas 0x6001 1 = .ok (n, changed) ∧
      RangeGone mappedWorld.machine n (mappedWorld.all []) mappedVas changed 0x6000 0x7000) ∧
    (mappedVas.list.map fun d => (d.start, d.stop)) = [(0x5000, 0x8000)] ∧
    (vasUnmap mappedWorld.machine mappedVas 0x6001 1).map (fun after => (after.2.list.map fun d => (d.start, d.stop),
      [5, 6, 7].map fun v =>
        (leaf after.1.mem mappedVas.pml4 v).isSome)) = .ok ([(0x5000, 0x6000), (0x7000, 0x8000)], [true, false, true]) := by
  have runs : (vasUnmap mappedWorld.machine mappedVas 0x6001 1).isOk = true := by decide +kernel
  have sane := mapped_world_sane.1
  have inside := mapped_vas_inside
  refine ⟨?_, by decide +kernel, by decide +kernel⟩
  have ends := unmap_removes_exactly_the_range mappedWorld.machine (mappedWorld.all []) (fun _ => 0) mappedVas 0x6001 1 sane.sound
    (user_in_all [] inside) (sane.vads mappedVas inside) (sane.covered mappedVas inside) (by decide) (by decide) (by decide)
  cases unmapped : vasUnmap mappedWorld.machine mappedVas 0x6001 1 with
  | error failure =>
    rw [unmapped] at runs
    cases runs
  | ok after => exact ⟨after.1, after.2, rfl, ends_value ends after unmapped⟩

end Lyr.Mm
