import Lyr.Mm.VadList
import Lyr.Mm.World

set_option autoImplicit false

namespace Lyr.Mm

open Lyr.Lib

def Inserted (vas changed : Vas) (hint length flags : Nat) : Prop :=
  ∃ v, vasPlace vas hint (alignUp length) flags = some v.start ∧ v.stop = v.start + alignUp length ∧
    changed.list = vadInsert v vas.list

variable {m n : Machine} {vas changed src dst : Vas} {hint length flags base start : Nat} {getPage : GetPage} {list : List Vad}
    {w next : World}

theorem pages_of_empty (start : Nat) : pagesOf start start = [] := by simp [pagesOf]

theorem map_file_list {file : Option Nat} {fileOffset : Nat}
    (done : vasMapFile getPage m vas hint file fileOffset length flags = .ok (n, changed, base)) :
    (changed = vas ∧ (file = none ∨ length = 0 ∨ fileOffset % 4096 ≠ 0 ∨ alignUp length ≠ 0 ∨ vasPlace vas hint
      (alignUp length) flags = none)) ∨
      (file ≠ none ∧ length ≠ 0 ∧ fileOffset % 4096 = 0 ∧ Inserted vas changed hint length flags) := by
  cases file with
  | none =>
    cases done
    exact .inl ⟨rfl, .inl rfl⟩
  | some node =>
    simp only [vasMapFile] at done
    by_cases empty : length = 0
    · rw [if_pos empty] at done
      cases done
      exact .inl ⟨rfl, .inr (.inl empty)⟩
    rw [if_neg empty] at done
    by_cases odd : fileOffset % 4096 ≠ 0
    · rw [if_pos odd] at done
      cases done
      exact .inl ⟨rfl, .inr (.inr (.inl odd))⟩
    rw [if_neg odd] at done
    cases place : vasPlace vas hint (alignUp length) flags with
    | none =>
      simp only [place] at done
      cases done
      exact .inl ⟨rfl, .inr (.inr (.inr (.inr rfl)))⟩
    | some found =>
      simp only [place] at done
      obtain ⟨⟨after, committed⟩, commit, done⟩ := bind_ok.mp done
      cases committed with
      | true =>
        cases done
        exact .inr ⟨by simp, empty, by omega, _, place, rfl, rfl⟩
      | false =>
        obtain ⟨undone, _, state⟩ := bind_ok.mp done
        cases state
        refine .inl ⟨rfl, .inr (.inr (.inr (.inl ?_)))⟩
        intro wrapped
        rw [wrapped, vadAllocFile, Nat.add_zero, pages_of_empty] at commit
        cases commit

theorem inserted_sound_iff (sound : VadsSound vas.list)
    (inserted : Inserted vas changed hint length flags) : VadsSound changed.list ↔ alignUp length ≠ 0 := by
  obtain ⟨v, place, range, list⟩ := inserted
  have short : alignUp length < 2 ^ 64 := by
    rw [alignUp]
    omega
  obtain ⟨aligned, below, apart⟩ := vas_place_spec sound short place
  have rounded := align_up_aligned length
  constructor
  · intro after
    have own := after.each v (list ▸ (vad_insert_mem v v vas.list).mpr (.inl rfl))
    have filled := own.filled
    omega
  intro nonzero
  rw [list]
  exact vad_insert_sound sound ⟨by omega, aligned, by omega, by omega⟩ (range ▸ apart)

theorem unmap_list (done : vasUnmap m vas start length = .ok (n, changed)) :
    (length = 0 ∧ changed = vas) ∨ (length ≠ 0 ∧ changed.list =
      vadRemoveRange (alignDown start) ((alignDown start + alignUp length) % 2 ^ 64) vas.list) := by
  rw [vasUnmap] at done
  by_cases empty : length = 0
  · rw [if_pos empty] at done
    cases done
    exact .inl ⟨empty, rfl⟩
  rw [if_neg empty] at done
  obtain ⟨after, _, state⟩ := bind_ok.mp done
  cases state
  exact .inr ⟨empty, rfl⟩

theorem protect_vads_ranges {pml4 stop prot : Nat} (m : Machine) (changed : List Vad)
    (done : vasProtectVads m pml4 start stop prot list = .ok (n, changed)) :
    changed.map (fun v => (v.start, v.stop)) = list.map (fun v => (v.start, v.stop)) := by
  induction list generalizing m changed with
  | nil =>
    cases done
    rfl
  | cons v rest ih =>
    rw [vasProtectVads] at done
    by_cases reached : v.start < stop
    · rw [if_pos reached] at done
      by_cases before : v.stop ≤ start
      · rw [if_pos before] at done
        obtain ⟨⟨after, tail⟩, later, state⟩ := bind_ok.mp done
        cases state
        rw [List.map_cons, List.map_cons, ih m tail later]
      rw [if_neg before] at done
      obtain ⟨remapped, _, done⟩ := bind_ok.mp done
      obtain ⟨⟨after, tail⟩, later, state⟩ := bind_ok.mp done
      cases state
      rw [List.map_cons, List.map_cons, ih remapped tail later, setProt]
    rw [if_neg reached] at done
    cases done
    rfl

theorem protect_ranges {newProt : Nat} (done : vasProtect m vas start length newProt = .ok (n, changed)) :
    changed.list.map (fun v => (v.start, v.stop)) = vas.list.map (fun v => (v.start, v.stop)) := by
  rw [vasProtect] at done
  by_cases empty : length = 0
  · rw [if_pos empty] at done
    cases done
    rfl
  rw [if_neg empty] at done
  obtain ⟨⟨after, list⟩, protect, state⟩ := bind_ok.mp done
  cases state
  exact protect_vads_ranges _ _ protect

theorem clone_vads_list {src dst : Nat} (m : Machine) (copied : List Vad) {result : List Vad} (sound : VadsSound list)
    (before : ∀ w ∈ copied, ∀ v ∈ list, w.start < v.start)
    (done : cloneVads src dst m copied list = .ok (n, result)) : result = copied ++ list.map cloneVad := by
  induction list generalizing m copied with
  | nil =>
    cases done
    simp
  | cons v rest ih =>
    obtain ⟨after, _, done⟩ := bind_ok.mp done
    have last := vad_insert_last (fun w inside => by rw [(clone_vad_range v).1]; exact before w inside v (by simp))
    rw [last] at done
    rw [ih after (copied ++ [cloneVad v]) (vads_sound_tail sound) ?_ done]
    · simp
    intro w inside u later
    rcases List.mem_append.mp inside with early | own
    · exact before w early u (by simp [later])
    · rw [List.mem_singleton.mp own, (clone_vad_range v).1]
      exact (head_lowest sound later).1

theorem vas_create_list (done : vasCreate m = .ok (n, vas)) : vas.list = [] ∧ vas.userStart = vasUserStart := by
  obtain ⟨⟨after, pml4⟩, _, state⟩ := bind_ok.mp done
  cases state
  exact ⟨rfl, rfl⟩

section

variable (sound : VadsSound src.list) (done : vasClone m src = .ok (n, dst))
include sound done

theorem clone_list : dst.list = src.list.map cloneVad := by
  obtain ⟨⟨created, fresh⟩, _, done⟩ := bind_ok.mp done
  obtain ⟨⟨after, list⟩, cloned, state⟩ := bind_ok.mp done
  cases state
  exact clone_vads_list created [] sound (fun w inside => by cases inside) cloned

theorem clone_sound : VadsSound dst.list := by
  rw [clone_list sound done]
  refine vads_sound_ranges _ ?_ sound
  rw [List.map_map]
  exact List.map_congr_left (fun v _ => by simp [(clone_vad_range v).1, (clone_vad_range v).2])

end

def World.VadsSound (w : World) : Prop := ∀ vas ∈ w.spaces, Mm.VadsSound vas.list

instance (w : World) : Decidable w.VadsSound := inferInstanceAs (Decidable (∀ vas ∈ w.spaces, Mm.VadsSound vas.list))

-- A length that ALIGN_UP wraps to zero must not find a place; a range to remove must not end below its start inside one VAD.
def VasCall.Bounded (w : World) : VasCall → Prop
  | .mapAnon i hint length flags =>
    ∀ vas, w.spaces[i]? = some vas → length ≠ 0 → alignUp length = 0 → vasPlace vas hint 0 flags = none
  | .mapPhys i hint _ length flags =>
    ∀ vas, w.spaces[i]? = some vas → length ≠ 0 → alignUp length = 0 → vasPlace vas hint 0 flags = none
  | .mapFile i hint file fileOffset length flags => ∀ vas, w.spaces[i]? = some vas → file ≠ none → fileOffset % 4096 = 0 →
      length ≠ 0 → alignUp length = 0 → vasPlace vas hint 0 flags = none
  | .unmap i start length => ∀ vas, w.spaces[i]? = some vas → length ≠ 0 →
      ∀ v ∈ vas.list, ¬ Straddles (alignDown start) ((alignDown start + alignUp length) % 2 ^ 64) v
  | _ => True

theorem update_sound_iff {i : Nat} {call : Machine → Vas → Result (Machine × Vas)} {allowed : Vas → Prop}
    (sound : w.VadsSound) (done : w.update i call = .ok next)
    (exactly : ∀ m vas changed, Mm.VadsSound vas.list → call w.machine vas = .ok (m, changed) →
      (Mm.VadsSound changed.list ↔ allowed vas)) :
    next.VadsSound ↔ ∀ vas, w.spaces[i]? = some vas → allowed vas := by
  rcases update_ok done with ⟨missing, rfl⟩ | ⟨vas, m, changed, found, called, rfl⟩
  · exact ⟨fun _ vas found => (by rw [missing] at found; cases found), fun _ => sound⟩
  have inside : vas ∈ w.spaces := List.mem_of_getElem? found
  have bound : i < w.spaces.length := (List.getElem?_eq_some_iff.mp found).1
  have iff := exactly m vas changed (sound vas inside) called
  constructor
  · intro after other same
    cases found.symm.trans same
    exact iff.mp (after changed (List.mem_set bound changed))
  intro permitted other member
  rcases List.mem_or_eq_of_mem_set member with old | rfl
  · exact sound other old
  · exact iff.mpr (permitted vas found)

theorem cons_sound (m : Machine) {spaces : List Vas} (own : Mm.VadsSound vas.list)
    (sound : ∀ other ∈ spaces, Mm.VadsSound other.list) : World.VadsSound ⟨m, vas :: spaces⟩ := by
  intro other member
  rcases List.mem_cons.mp member with rfl | old
  · exact own
  · exact sound other old

theorem inserted_permitted (sound : Mm.VadsSound vas.list) (inserted : Inserted vas changed hint length flags) :
    Mm.VadsSound changed.list ↔ (alignUp length = 0 → vasPlace vas hint 0 flags = none) := by
  rw [inserted_sound_iff sound inserted]
  obtain ⟨v, place, _⟩ := inserted
  refine ⟨fun kept wrapped => absurd wrapped kept, fun permitted wrapped => ?_⟩
  rw [wrapped, permitted wrapped] at place
  cases place

theorem placed_permitted {rest : Nat → Result (Machine × Vas × Nat)} (sound : Mm.VadsSound vas.list)
    (done : (if length = 0 then Except.ok (m, vas, 0) else match vasPlace vas hint (alignUp length) flags with
      | none => Except.ok (m, vas, 0)
      | some base => rest base) = .ok (n, changed, base))
    (inserts : ∀ place, vasPlace vas hint (alignUp length) flags = some place → rest place = .ok (n, changed, base) →
      Inserted vas changed hint length flags) :
    Mm.VadsSound changed.list ↔ (length ≠ 0 → alignUp length = 0 → vasPlace vas hint 0 flags = none) := by
  by_cases empty : length = 0
  · rw [if_pos empty] at done
    cases done
    exact iff_of_true sound (fun nonzero => absurd empty nonzero)
  rw [if_neg empty] at done
  cases place : vasPlace vas hint (alignUp length) flags with
  | none =>
    simp only [place] at done
    cases done
    exact iff_of_true sound (fun _ wrapped => wrapped ▸ place)
  | some found =>
    simp only [place] at done
    rw [inserted_permitted sound (inserts found place done)]
    exact ⟨fun permitted _ => permitted, fun permitted => permitted empty⟩

theorem step_sound_iff {call : VasCall} (sound : w.VadsSound) (done : call.step getPage w = .ok next) :
    next.VadsSound ↔ call.Bounded w := by
  cases call with
  | create =>
    obtain ⟨⟨m, vas⟩, created, state⟩ := bind_ok.mp done
    cases state
    refine iff_of_true (cons_sound m ?_ sound) trivial
    rw [(vas_create_list created).1]
    exact vads_sound_nil
  | mapAnon | mapPhys =>
    rw [VasCall.step] at done
    refine update_sound_iff sound done (fun m vas changed own called => ?_)
    obtain ⟨⟨after, final, base⟩, mapped, state⟩ := bind_ok.mp called
    cases state
    refine placed_permitted own mapped (fun found place done => ?_)
    obtain ⟨after, _, state⟩ := bind_ok.mp done
    cases state
    exact ⟨_, place, rfl, rfl⟩
  | mapFile i hint file fileOffset length flags =>
    rw [VasCall.step] at done
    refine update_sound_iff sound done (fun m vas changed own called => ?_)
    obtain ⟨⟨after, final, base⟩, mapped, state⟩ := bind_ok.mp called
    cases state
    rcases map_file_list mapped with
      ⟨rfl, refused⟩ | ⟨backed, nonzero, aligned, inserted⟩
    · refine iff_of_true own (fun backed aligned nonzero wrapped => ?_)
      rcases refused with missing | zero | odd | kept | refused
      · exact absurd missing backed
      · exact absurd zero nonzero
      · exact absurd aligned odd
      · exact absurd wrapped kept
      · exact wrapped ▸ refused
    · rw [inserted_permitted own inserted]
      exact ⟨fun permitted _ _ _ => permitted, fun permitted => permitted backed aligned nonzero⟩
  | unmap i start length =>
    rw [VasCall.step] at done
    refine update_sound_iff sound done (fun m vas changed own called => ?_)
    rcases unmap_list called with ⟨zero, rfl⟩ | ⟨nonzero, list⟩
    · exact iff_of_true own (fun nonzero => absurd zero nonzero)
    have rounded := align_up_aligned length
    have aligned : alignDown start % 4096 = 0 := by rw [alignDown]; omega
    rw [list, remove_range_sound_iff own aligned (by omega)]
    exact ⟨fun whole _ => whole, fun whole => whole nonzero⟩
  | protect i start length newProt =>
    rw [VasCall.step] at done
    refine (update_sound_iff sound done (fun m vas changed own called => ?_)).trans (iff_of_true (fun _ _ => trivial) trivial)
    exact iff_of_true (vads_sound_ranges _ (protect_ranges called) own) trivial
  | clone i =>
    rw [VasCall.step, World.cloneAt] at done
    refine iff_of_true ?_ trivial
    cases found : w.spaces[i]? with
    | none =>
      simp only [found, Except.ok.injEq] at done
      exact done ▸ sound
    | some src =>
      simp only [found] at done
      obtain ⟨⟨m, dst⟩, cloned, state⟩ := bind_ok.mp done
      cases state
      exact cons_sound m (clone_sound (sound src (List.mem_of_getElem? found)) cloned) sound
  | pageFault i addr err =>
    rw [VasCall.step] at done
    refine (update_sound_iff sound done (fun m vas changed own called => ?_)).trans (iff_of_true (fun _ _ => trivial) trivial)
    obtain ⟨⟨after, handled⟩, _, state⟩ := bind_ok.mp called
    cases state
    exact iff_of_true own trivial
  | destroy i =>
    rw [VasCall.step, World.destroyAt] at done
    refine iff_of_true ?_ trivial
    cases found : w.spaces[i]? with
    | none =>
      simp only [found, Except.ok.injEq] at done
      exact done ▸ sound
    | some vas =>
      simp only [found] at done
      obtain ⟨m, _, state⟩ := bind_ok.mp done
      cases state
      exact fun other member => sound other (List.mem_of_mem_eraseIdx member)

theorem vad_lists_sound_iff_bounded (getPage : GetPage) (calls : List VasCall) (w : World) (start : w.VadsSound) :
    (Permitted (VasCall.step getPage) VasCall.Bounded w calls → Always (VasCall.step getPage) World.VadsSound w calls) ∧
    ∀ final, run (VasCall.step getPage) w calls = .ok final → Always (VasCall.step getPage) World.VadsSound w calls →
      Permitted (VasCall.step getPage) VasCall.Bounded w calls := by
  constructor
  · exact permitted_always (fun state call next sound bounded taken => (step_sound_iff sound taken).mpr bounded) start
      (fun _ sound => sound)
  · intro final ended always
    exact always_permitted (fun state call next sound taken kept => (step_sound_iff sound taken).mp kept) always ended

def boundedCalls : List VasCall := [.mapAnon 0 0 0x3000 7, .unmap 0 0x2000 0x1000, .protect 0 0x1000 0x1000 5, .clone 0]

theorem bounded_calls_keep_lists : smallWorld.VadsSound ∧ (run (VasCall.step noFiles) smallWorld boundedCalls).isOk = true ∧
    Always (VasCall.step noFiles) World.VadsSound smallWorld boundedCalls := by
  have start : smallWorld.VadsSound := by decide
  refine ⟨start, by decide +kernel, (vad_lists_sound_iff_bounded noFiles boundedCalls smallWorld start).1 ?_⟩
  refine ⟨fun vas _ _ wrapped => absurd wrapped (by decide), fun _ _ => ⟨fun vas _ _ v _ straddles => ?_, fun _ _ => ?_⟩⟩
  · exact absurd straddles.2.1 (by decide)
  · exact ⟨trivial, fun _ _ => ⟨trivial, fun _ _ => trivial⟩⟩

theorem unbounded_calls_break_lists : smallWorld.VadsSound ∧
    (run (VasCall.step noFiles) smallWorld [.mapAnon 0 0 0xFFFFFFFFFFFFFFFF 7]).map (fun w => decide w.VadsSound) = .ok false ∧
    (run (VasCall.step noFiles) smallWorld [.mapAnon 0 0 0x3000 7, .unmap 0 0x3000 0xFFFFFFFFFFFFF000]).map
      (fun w => decide w.VadsSound) = .ok false :=
  ⟨by decide, by decide +kernel, by decide +kernel⟩

end Lyr.Mm
