import Lyr.Mm.Vmm

set_option autoImplicit false

namespace Lyr.Mm

open Lyr.Lib

structure VadSound (v : Vad) : Prop where
  filled : v.start < v.stop
  startAligned : v.start % 4096 = 0
  stopAligned : v.stop % 4096 = 0
  below : v.stop ≤ vasUserEnd

instance (v : Vad) : Decidable (VadSound v) :=
  decidable_of_iff (v.start < v.stop ∧ v.start % 4096 = 0 ∧ v.stop % 4096 = 0 ∧ v.stop ≤ vasUserEnd)
    ⟨fun ⟨filled, startAligned, stopAligned, below⟩ => ⟨filled, startAligned, stopAligned, below⟩,
      fun own => ⟨own.filled, own.startAligned, own.stopAligned, own.below⟩⟩

structure VadsSound (list : List Vad) : Prop where
  each : ∀ v ∈ list, VadSound v
  sorted : list.Pairwise (fun a b => a.start ≤ b.start)
  disjoint : list.Pairwise (fun a b => a.stop ≤ b.start ∨ b.stop ≤ a.start)

def Apart (start stop : Nat) (list : List Vad) : Prop := ∀ v ∈ list, v.stop ≤ start ∨ stop ≤ v.start

theorem vads_sound_iff (list : List Vad) :
    VadsSound list ↔ (∀ v ∈ list, VadSound v) ∧ list.Pairwise (fun a b => a.stop ≤ b.start) := by
  constructor
  · intro sound
    refine ⟨sound.each, (sound.sorted.and sound.disjoint).imp_of_mem ?_⟩
    intro a b insideA insideB both
    have filled := (sound.each b insideB).filled
    omega
  rintro ⟨each, ordered⟩
  refine ⟨each, ordered.imp_of_mem ?_, ordered.imp .inl⟩
  intro a b insideA insideB before
  have filled := (each a insideA).filled
  omega

instance (list : List Vad) : Decidable (VadsSound list) := decidable_of_iff _ (vads_sound_iff list).symm

theorem vads_sound_cons (v : Vad) (rest : List Vad) :
    VadsSound (v :: rest) ↔ VadSound v ∧ (∀ w ∈ rest, v.stop ≤ w.start) ∧ VadsSound rest := by
  rw [vads_sound_iff, vads_sound_iff, List.forall_mem_cons, List.pairwise_cons]
  tauto

theorem align_up_aligned (x : Nat) : alignUp x % 4096 = 0 := by
  rw [alignUp]
  omega

theorem align_up_self {x : Nat} (aligned : x % 4096 = 0) (bound : x ≤ vasUserEnd) : alignUp x = x := by
  rw [alignUp, vasUserEnd] at *
  omega

theorem vads_sound_nil : VadsSound [] := ⟨by simp, .nil, .nil⟩

variable {v w : Vad} {rest list : List Vad} {length start stop base hint : Nat}

theorem vads_sound_single (own : VadSound v) : VadsSound [v] := (vads_sound_cons v []).mpr ⟨own, by simp, vads_sound_nil⟩

theorem vads_sound_tail (sound : VadsSound (v :: rest)) : VadsSound rest := ((vads_sound_cons v rest).mp sound).2.2

theorem head_lowest (sound : VadsSound (v :: rest)) (inside : w ∈ rest) : v.start < w.start ∧ v.stop ≤ w.start := by
  have above := ((vads_sound_cons v rest).mp sound).2.1 w inside
  have filled := (sound.each v (by simp)).filled
  omega

theorem search_free_spec (base stop : Nat) (sound : VadsSound list) (aligned : base % 4096 = 0)
    (range : stop = (base + length) % 2 ^ 64) :
    (searchFree length base stop list).1 % 4096 = 0 ∧ base ≤ (searchFree length base stop list).1 ∧
      (searchFree length base stop list).2 = ((searchFree length base stop list).1 + length) % 2 ^ 64 ∧
      Apart (searchFree length base stop list).1 (searchFree length base stop list).2 list := by
  induction list generalizing base stop with
  | nil => exact ⟨aligned, Nat.le_refl base, range, fun v inside => by cases inside⟩
  | cons v rest ih =>
    have tail := vads_sound_tail sound
    rw [searchFree]
    by_cases early : stop ≤ v.start
    · rw [if_pos early]
      refine ⟨aligned, Nat.le_refl base, range, fun w inside => .inr ?_⟩
      rcases List.mem_cons.mp inside with rfl | later
      · exact early
      · have above := head_lowest sound later
        exact Nat.le_trans early (Nat.le_of_lt above.1)
    rw [if_neg early]
    have own := sound.each v (by simp)
    by_cases blocked : base < v.stop
    · rw [if_pos blocked]
      have moved := align_up_self own.stopAligned own.below
      obtain ⟨alignedN, grown, rangeN, apart⟩ := ih (alignUp v.stop) _ tail (align_up_aligned v.stop) rfl
      refine ⟨alignedN, by omega, rangeN, fun w inside => ?_⟩
      rcases List.mem_cons.mp inside with rfl | later
      · exact .inl (by omega)
      · exact apart w later
    rw [if_neg blocked]
    obtain ⟨alignedN, grown, rangeN, apart⟩ := ih base stop tail aligned range
    refine ⟨alignedN, grown, rangeN, fun w inside => ?_⟩
    rcases List.mem_cons.mp inside with rfl | later
    · exact .inl (by omega)
    · exact apart w later

theorem overlaps_apart (sound : VadsSound list) (free : vasOverlaps start stop list = false) : Apart start stop list := by
  induction list with
  | nil => exact fun v inside => by cases inside
  | cons v rest ih =>
    rw [vasOverlaps] at free
    by_cases early : stop ≤ v.start
    · intro w inside
      rcases List.mem_cons.mp inside with rfl | later
      · exact .inr early
      · exact .inr (Nat.le_trans early (Nat.le_of_lt (head_lowest sound later).1))
    rw [if_neg early] at free
    by_cases hit : start < v.stop
    · rw [if_pos hit] at free
      cases free
    rw [if_neg hit] at free
    intro w inside
    rcases List.mem_cons.mp inside with rfl | later
    · exact .inl (by omega)
    · exact ih (vads_sound_tail sound) free w later

theorem range_whole (short : length < 2 ^ 64) (inside : ¬ ((base + length) % 2 ^ 64 > vasUserEnd ∨ (base + length) % 2 ^ 64 < base)) :
    (base + length) % 2 ^ 64 = base + length ∧ base + length ≤ vasUserEnd := by
  rw [vasUserEnd] at *
  omega

theorem find_free_spec (sound : VadsSound list) (short : length < 2 ^ 64) (found : vasFindFree list hint length ≠ 0) :
    vasFindFree list hint length % 4096 = 0 ∧ vasFindFree list hint length + length ≤ vasUserEnd ∧
      Apart (vasFindFree list hint length) (vasFindFree list hint length + length) list ∧
        alignUp hint ≤ vasFindFree list hint length := by
  obtain ⟨aligned, above, range, apart⟩ := search_free_spec (alignUp hint) _ sound (align_up_aligned hint) rfl
  rw [vasFindFree] at found ⊢
  generalize searchFree length (alignUp hint) ((alignUp hint + length) % 2 ^ 64) list = best at *
  obtain ⟨base, stop⟩ := best
  simp only at range aligned above apart found ⊢
  subst range
  by_cases outside : (base + length) % 2 ^ 64 > vasUserEnd ∨ (base + length) % 2 ^ 64 < base
  · rw [if_pos outside] at found
    exact absurd rfl found
  rw [if_neg outside]
  obtain ⟨exactly, below⟩ := range_whole short outside
  exact ⟨aligned, below, exactly ▸ apart, above⟩

theorem vas_place_spec {vas : Vas} {flags : Nat} (sound : VadsSound vas.list) (short : length < 2 ^ 64)
    (placed : vasPlace vas hint length flags = some base) :
    base % 4096 = 0 ∧ base + length ≤ vasUserEnd ∧ Apart base (base + length) vas.list := by
  by_cases fixed : flags &&& vadFixed ≠ 0
  · rw [vasPlace, if_pos fixed] at placed
    simp only at placed
    by_cases outside : (alignDown hint + length) % 2 ^ 64 > vasUserEnd ∨ (alignDown hint + length) % 2 ^ 64 < alignDown hint
    · rw [if_pos outside] at placed
      cases placed
    rw [if_neg outside] at placed
    obtain ⟨exactly, below⟩ := range_whole short outside
    rw [exactly] at placed
    by_cases taken : vasOverlaps (alignDown hint) (alignDown hint + length) vas.list = true
    · rw [if_pos taken] at placed
      cases placed
    rw [if_neg taken] at placed
    cases placed
    exact ⟨by rw [alignDown]; omega, below, overlaps_apart sound (by simpa using taken)⟩
  rw [vasPlace, if_neg fixed] at placed
  simp only at placed
  generalize (if hint ≠ 0 then hint else vas.userStart) = search at placed
  by_cases failed : vasFindFree vas.list search length = 0
  · rw [if_pos failed] at placed
    cases placed
  rw [if_neg failed] at placed
  cases placed
  obtain ⟨aligned, below, apart, _⟩ := find_free_spec sound short failed
  exact ⟨aligned, below, apart⟩

theorem vad_insert_mem (v w : Vad) (list : List Vad) : w ∈ vadInsert v list ↔ w = v ∨ w ∈ list := by
  induction list with
  | nil => simp [vadInsert]
  | cons head rest ih =>
    rw [vadInsert]
    split
    · simp only [List.mem_cons, ih]
      tauto
    · simp only [List.mem_cons]

theorem vad_insert_sound (sound : VadsSound list) (own : VadSound v) (apart : Apart v.start v.stop list) :
    VadsSound (vadInsert v list) := by
  induction list with
  | nil => exact vads_sound_single own
  | cons head rest ih =>
    have tail := vads_sound_tail sound
    have headOwn := sound.each head (by simp)
    have filledV := own.filled
    have filledH := headOwn.filled
    have first := apart head (by simp)
    rw [vadInsert]
    split
    · refine (vads_sound_cons head _).mpr ⟨headOwn, fun w inside => ?_, ih tail (fun w inside => apart w (by simp [inside]))⟩
      rcases (vad_insert_mem v w rest).mp inside with rfl | later
      · omega
      · exact (head_lowest sound later).2
    refine (vads_sound_cons v _).mpr ⟨own, fun w inside => ?_, sound⟩
    rcases List.mem_cons.mp inside with rfl | later
    · omega
    · have above := head_lowest sound later
      omega

theorem vad_insert_last (last : ∀ w ∈ list, w.start < v.start) : vadInsert v list = list ++ [v] := by
  induction list with
  | nil => rfl
  | cons head rest ih =>
    rw [vadInsert, if_pos (last head (by simp)), ih (fun w inside => last w (by simp [inside])), List.cons_append]

theorem clone_segment_range (v : Vad) (start stop : Nat) :
    (vadCloneSegment v start stop).start = start ∧ (vadCloneSegment v start stop).stop = stop := by
  rw [vadCloneSegment]
  split
  · exact ⟨rfl, rfl⟩
  · exact ⟨rfl, rfl⟩

theorem clone_vad_range (v : Vad) : (cloneVad v).start = v.start ∧ (cloneVad v).stop = v.stop := by
  rw [cloneVad]
  split
  · exact ⟨rfl, rfl⟩
  · exact ⟨rfl, rfl⟩

def remainders (start stop : Nat) (v : Vad) : List Vad := (if v.start < start then [vadCloneSegment v v.start start] else []) ++
    (if stop < v.stop then [vadCloneSegment v stop v.stop] else [])

theorem remainders_mem (inside : w ∈ remainders start stop v) :
    (w = vadCloneSegment v v.start start ∧ v.start < start) ∨ (w = vadCloneSegment v stop v.stop ∧ stop < v.stop) := by
  rw [remainders, List.mem_append] at inside
  rcases inside with left | right
  · split at left
    · rename_i below
      exact .inl ⟨List.mem_singleton.mp left, below⟩
    · cases left
  split at right
  · rename_i above
    exact .inr ⟨List.mem_singleton.mp right, above⟩
  · cases right

theorem remove_range_cons (start stop : Nat) (v : Vad) (rest : List Vad) : vadRemoveRange start stop (v :: rest) =
      (if v.stop ≤ start ∨ stop ≤ v.start then [v] else remainders start stop v) ++ vadRemoveRange start stop rest := by
  rw [vadRemoveRange, remainders]
  split
  · rfl
  · rfl

theorem remove_range_inside (inside : w ∈ vadRemoveRange start stop list) : ∃ v ∈ list, v.start ≤ w.start ∧ w.stop ≤ v.stop := by
  induction list with
  | nil => cases inside
  | cons v rest ih =>
    rw [remove_range_cons, List.mem_append] at inside
    rcases inside with own | later
    · refine ⟨v, by simp, ?_⟩
      split at own
      · cases List.mem_singleton.mp own
        exact ⟨Nat.le_refl _, Nat.le_refl _⟩
      rcases remainders_mem own with ⟨rfl, below⟩ | ⟨rfl, above⟩
      · rw [(clone_segment_range v v.start start).1, (clone_segment_range v v.start start).2]
        omega
      · rw [(clone_segment_range v stop v.stop).1, (clone_segment_range v stop v.stop).2]
        omega
    · obtain ⟨u, insideU, bounds⟩ := ih later
      exact ⟨u, by simp [insideU], bounds⟩

def Straddles (start stop : Nat) (v : Vad) : Prop := v.start < stop ∧ stop < start ∧ start < v.stop

theorem remainders_sound (own : VadSound v) (startAligned : start % 4096 = 0)
    (stopAligned : stop % 4096 = 0) (hit : ¬ (v.stop ≤ start ∨ stop ≤ v.start)) (whole : ¬ Straddles start stop v) :
    VadsSound (remainders start stop v) := by
  have below := own.below
  have left : v.start < start → VadSound (vadCloneSegment v v.start start) := by
    intro before
    obtain ⟨low, high⟩ := clone_segment_range v v.start start
    exact ⟨by omega, by rw [low]; exact own.startAligned, by rw [high]; exact startAligned, by rw [high]; omega⟩
  have right : stop < v.stop → VadSound (vadCloneSegment v stop v.stop) := by
    intro after
    obtain ⟨low, high⟩ := clone_segment_range v stop v.stop
    exact ⟨by omega, by rw [low]; exact stopAligned, by rw [high]; exact own.stopAligned, by rw [high]; exact below⟩
  refine (vads_sound_iff _).mpr ⟨fun w inside => ?_, ?_⟩
  · rcases remainders_mem inside with ⟨rfl, before⟩ | ⟨rfl, after⟩
    · exact left before
    · exact right after
  rw [remainders, List.pairwise_append]
  refine ⟨?_, ?_, fun a insideA b insideB => ?_⟩
  · split
    · exact List.pairwise_singleton _ _
    · exact .nil
  · split
    · exact List.pairwise_singleton _ _
    · exact .nil
  split at insideA
  · split at insideB
    · cases List.mem_singleton.mp insideA
      cases List.mem_singleton.mp insideB
      rw [(clone_segment_range v v.start start).2, (clone_segment_range v stop v.stop).1]
      rw [Straddles] at whole
      omega
    · cases insideB
  · cases insideA

theorem vads_sound_append {first : List Vad} (sound : VadsSound first) (tail : VadsSound rest)
    (before : ∀ a ∈ first, ∀ b ∈ rest, a.stop ≤ b.start) : VadsSound (first ++ rest) := by
  obtain ⟨each, ordered⟩ := (vads_sound_iff first).mp sound
  obtain ⟨eachR, orderedR⟩ := (vads_sound_iff rest).mp tail
  refine (vads_sound_iff _).mpr ⟨fun v inside => ?_, List.pairwise_append.mpr ⟨ordered, orderedR, before⟩⟩
  rcases List.mem_append.mp inside with early | late
  · exact each v early
  · exact eachR v late

theorem remove_range_sound (sound : VadsSound list) (startAligned : start % 4096 = 0)
    (stopAligned : stop % 4096 = 0) (whole : ∀ v ∈ list, ¬ Straddles start stop v) :
    VadsSound (vadRemoveRange start stop list) := by
  induction list with
  | nil => exact sound
  | cons v rest ih =>
    obtain ⟨own, before, tail⟩ := (vads_sound_cons v rest).mp sound
    rw [remove_range_cons]
    -- The pieces of v end no later than v, the others start where theirs did.
    refine vads_sound_append ?_ (ih tail (fun w inside => whole w (by simp [inside]))) ?_
    · split
      · exact vads_sound_single own
      · rename_i hit
        exact remainders_sound own startAligned stopAligned hit (whole v (by simp))
    intro a insideA b insideB
    obtain ⟨u, insideU, low, _⟩ := remove_range_inside insideB
    have aboveV := before u insideU
    split at insideA
    · cases List.mem_singleton.mp insideA
      omega
    rcases remainders_mem insideA with ⟨rfl, below⟩ | ⟨rfl, above⟩
    · rw [(clone_segment_range v v.start start).2]
      omega
    · rw [(clone_segment_range v stop v.stop).2]
      omega

theorem straddled_remainders (inside : v ∈ list) (straddles : Straddles start stop v) :
    vadCloneSegment v v.start start ∈ vadRemoveRange start stop list ∧
      vadCloneSegment v stop v.stop ∈ vadRemoveRange start stop list := by
  induction list with
  | nil => cases inside
  | cons head rest ih =>
    rw [remove_range_cons, List.mem_append, List.mem_append]
    rcases List.mem_cons.mp inside with rfl | later
    · obtain ⟨low, wrapped, high⟩ := straddles
      have hit : ¬ (v.stop ≤ start ∨ stop ≤ v.start) := by omega
      have left : v.start < start := by omega
      have right : stop < v.stop := by omega
      simp [hit, remainders, left, right]
    · exact ⟨.inr (ih later).1, .inr (ih later).2⟩

theorem remove_range_sound_iff (sound : VadsSound list) (startAligned : start % 4096 = 0) (stopAligned : stop % 4096 = 0) :
    VadsSound (vadRemoveRange start stop list) ↔ ∀ v ∈ list, ¬ Straddles start stop v := by
  refine ⟨fun left v inside straddles => ?_, remove_range_sound sound startAligned stopAligned⟩
  obtain ⟨insideL, insideR⟩ := straddled_remainders inside straddles
  obtain ⟨low, wrapped, high⟩ := straddles
  obtain ⟨startL, stopL⟩ := clone_segment_range v v.start start
  obtain ⟨startR, stopR⟩ := clone_segment_range v stop v.stop
  have different : vadCloneSegment v v.start start ≠ vadCloneSegment v stop v.stop := by
    intro same
    rw [same] at startL
    omega
  have symmetric : Std.Symm (fun a b : Vad => a.stop ≤ b.start ∨ b.stop ≤ a.start) := ⟨fun a b apart => apart.symm⟩
  have apart := left.disjoint.forall insideL insideR different
  omega

theorem vads_sound_ranges (other : List Vad)
    (same : other.map (fun v => (v.start, v.stop)) = list.map (fun v => (v.start, v.stop))) (sound : VadsSound list) :
    VadsSound other := by
  induction list generalizing other with
  | nil =>
    rw [List.map_nil, List.map_eq_nil_iff] at same
    exact same ▸ sound
  | cons v rest ih =>
    cases other with
    | nil => cases same
    | cons w others =>
      simp only [List.map_cons, List.cons.injEq, Prod.mk.injEq] at same
      obtain ⟨⟨low, high⟩, tailSame⟩ := same
      obtain ⟨own, before, tail⟩ := (vads_sound_cons v rest).mp sound
      refine (vads_sound_cons w others).mpr ⟨⟨?_, ?_, ?_, ?_⟩, fun u inside => ?_, ih others tailSame tail⟩
      · rw [low, high]; exact own.filled
      · rw [low]; exact own.startAligned
      · rw [high]; exact own.stopAligned
      · rw [high]; exact own.below
      have image : (u.start, u.stop) ∈ rest.map (fun v => (v.start, v.stop)) := tailSame ▸ List.mem_map_of_mem inside
      obtain ⟨t, insideT, sameT⟩ := List.mem_map.mp image
      have later := before t insideT
      simp only [Prod.mk.injEq] at sameT
      omega

end Lyr.Mm
