import Lyr.Mm.VmmRanges

set_option autoImplicit false

namespace Lyr.Mm

open Lyr.Lib

-- A base that _vas_find_free may answer.
structure FreeBase (list : List Vad) (hint length base : Nat) : Prop where
  aligned : base % 4096 = 0
  above : hint ≤ base
  apart : Apart base (base + length) list
  below : base + length ≤ vasUserEnd

variable {list : List Vad} {hint length base stop pos : Nat}

theorem align_up_bounds (bound : hint ≤ vasUserEnd) : hint ≤ alignUp hint ∧ alignUp hint < hint + 4096 := by
  rw [alignUp, vasUserEnd] at *
  omega

-- A candidate below the blocking VAD had stopped the search.
theorem search_free_least {best : Nat} (sound : VadsSound list) (range : stop = (base + length) % 2 ^ 64) (above : base ≤ best)
    (apart : Apart best (best + length) list) (below : best + length ≤ vasUserEnd) : (searchFree length base stop list).1 ≤ best := by
  induction list generalizing base stop with
  | nil => exact above
  | cons v rest ih =>
    have own := sound.each v (by simp)
    have later : Apart best (best + length) rest := fun w inside => apart w (by simp [inside])
    rw [searchFree]
    split
    · exact above
    next reached =>
      split
      next blocked =>
        have moved := align_up_self own.stopAligned own.below
        have exactly : stop = base + length := by
          rw [vasUserEnd] at below
          omega
        rcases apart v (by simp) with past | before
        · exact ih (vads_sound_tail sound) rfl (by omega) later
        · omega
      next => exact ih (vads_sound_tail sound) range above later

theorem find_free_least (sound : VadsSound list) (positive : 1 ≤ hint) (bound : hint ≤ vasUserEnd)
    (free : FreeBase list hint length base) :
    vasFindFree list hint length ≠ 0 ∧ vasFindFree list hint length ≤ base := by
  have rounded := align_up_bounds bound
  have first : alignUp hint ≤ base := by
    have aligned := free.aligned
    have up := align_up_aligned hint
    have above := free.above
    omega
  obtain ⟨_, grown, range, _⟩ := search_free_spec (alignUp hint) ((alignUp hint + length) % 2 ^ 64) sound (align_up_aligned hint) rfl
  have least := search_free_least sound rfl first free.apart free.below
  have below := free.below
  rw [vasFindFree]
  generalize searchFree length (alignUp hint) ((alignUp hint + length) % 2 ^ 64) list = best at *
  obtain ⟨found, stop⟩ := best
  simp only at range grown least ⊢
  have exactly : stop = found + length := by
    rw [vasUserEnd] at below
    omega
  rw [if_neg (by omega)]
  omega

theorem covered_up_to_iff (sound : VadsSound list) (aligned : pos % 4096 = 0) :
    coveredUpTo stop pos list = true ↔ ∀ page, pos ≤ 4096 * page → 4096 * page < stop → InVads list page := by
  induction list generalizing pos with
  | nil =>
    rw [coveredUpTo, decide_eq_true_eq]
    refine ⟨fun done page low high => by omega, fun all => ?_⟩
    by_contra short
    obtain ⟨d, inside, _⟩ := all (pos / 4096) (by omega) (by omega)
    cases inside
  | cons v rest ih =>
    have own := sound.each v (by simp)
    have tail := vads_sound_tail sound
    rw [coveredUpTo]
    simp only [in_vads_cons v rest]
    split
    swap
    next done => exact iff_of_true rfl (fun page low high => by omega)
    split
    next passed =>
      rw [ih tail aligned]
      exact forall_congr'
        (fun page => forall_congr' (fun low => forall_congr' (fun high => ⟨.inr, fun either => either.resolve_left (by omega)⟩)))
    split
    next gap =>
      refine iff_of_false (by simp) (fun all => ?_)
      rcases all (pos / 4096) (by omega) (by omega) with here | ⟨d, inside, low, _⟩
      · omega
      · have above := head_lowest sound inside
        omega
    next covers =>
      rw [ih tail own.stopAligned]
      refine ⟨fun all page low high => ?_, fun all page low high => (all page (by omega) high).resolve_left (by omega)⟩
      by_cases here : 4096 * page < v.stop
      · exact .inl ⟨by omega, here⟩
      · exact .inr (all page (by omega) high)

theorem range_mapped_iff {vas : Vas} {start : Nat} (sound : VadsSound vas.list) (word : start < 2 ^ 64) (positive : 1 ≤ length)
    (bound : length ≤ vasUserEnd) : vasRangeMapped vas start length = true ↔
      ∀ page, alignDown start ≤ 4096 * page → 4096 * page < alignDown start + alignUp length → InVads vas.list page := by
  have rounded := align_up_bounds bound
  have aligned : alignDown start % 4096 = 0 := by rw [alignDown]; omega
  have small : alignDown start < 2 ^ 64 := by rw [alignDown]; omega
  rw [vasRangeMapped, if_neg (by omega)]
  dsimp only
  split
  next wrapped =>
    refine iff_of_false (by simp) (fun all => ?_)
    obtain ⟨d, inside, low, high⟩ := all (alignDown start / 4096) (by omega) (by omega)
    have below := (sound.each d inside).below
    rw [vasUserEnd] at *
    omega
  next whole =>
    have exactly : (alignDown start + alignUp length) % 2 ^ 64 = alignDown start + alignUp length := by
      rw [vasUserEnd] at *
      omega
    rw [exactly]
    exact covered_up_to_iff sound aligned

theorem address_search_and_coverage (vas : Vas) (sound : VadsSound vas.list) :
    (∀ hint length, 1 ≤ hint → hint ≤ vasUserEnd → 0 < length → length % 4096 = 0 → length < 2 ^ 64 →
      (vasFindFree vas.list hint length = 0 ↔ ¬ ∃ base, FreeBase vas.list hint length base) ∧
        (vasFindFree vas.list hint length ≠ 0 → IsLeast { base | FreeBase vas.list hint length base }
          (vasFindFree vas.list hint length))) ∧
    ∀ start length, start < 2 ^ 64 → 1 ≤ length → length ≤ vasUserEnd → (vasRangeMapped vas start length = true ↔
      ∀ page, alignDown start ≤ 4096 * page → 4096 * page < alignDown start + alignUp length → InVads vas.list page) := by
  refine ⟨fun hint length positive bound _ _ short => ?_, fun start length => range_mapped_iff sound⟩
  have found (some : vasFindFree vas.list hint length ≠ 0) : FreeBase vas.list hint length (vasFindFree vas.list hint length) := by
    obtain ⟨aligned, below, apart, above⟩ := find_free_spec sound short some
    exact ⟨aligned, (align_up_bounds bound).1.trans above, apart, below⟩
  refine ⟨⟨fun none free => ?_, fun none => ?_⟩, fun some => ⟨found some,
    fun base free => (find_free_least sound positive bound free).2⟩⟩
  · obtain ⟨base, free⟩ := free
    exact (find_free_least sound positive bound free).1 none
  · by_contra some
    exact none ⟨_, found some⟩

def twoAreas : Vas := ⟨0, [vadAlloc 0x400000 0x402000 0, vadAlloc 0x405000 0x406000 0], 0⟩

theorem gap_between_areas_found : VadsSound twoAreas.list ∧ vasFindFree twoAreas.list 0x3ff001 0x2000 = 0x402000 ∧
    IsLeast { base | FreeBase twoAreas.list 0x3ff001 0x2000 base } 0x402000 :=
  ⟨by decide, by decide, ((address_search_and_coverage twoAreas (by decide)).1 0x3ff001 0x2000 (by decide) (by decide) (by decide)
    (by decide)
    (by decide)).2 (by decide)⟩

end Lyr.Mm
