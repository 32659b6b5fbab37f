import Lyr.Mm.Frames

set_option autoImplicit false

namespace Lyr.Mm

open Lyr.Lib Function

structure Listed (m : Machine) : Prop where
  nodup : m.free.Nodup
  tracked : ∀ p ∈ m.free, p ≤ m.maxPfn ∧ p ≠ 0
  unused : ∀ p ∈ m.free, m.used p = none
  usedTracked : ∀ p use, m.used p = some use → p ≤ m.maxPfn ∧ p ≠ 0

structure FreeSound (m : Machine) : Prop extends Listed m where
  physical : m.maxPfn < 2 ^ 40

theorem used_tracked {m : Machine} {p : Nat} (free : FreeSound m) (inUse : m.used p ≠ none) : p ≤ m.maxPfn ∧ p ≠ 0 := by
  obtain ⟨use, record⟩ := Option.ne_none_iff_exists'.mp inUse
  exact free.usedTracked p use record

-- The records agree with counts kept outside. A refcount of 32 bits reads 0 at 2^32 references, and every call on the page then
-- stops.
structure Counts (m : Machine) (shares refs : Nat → Nat) : Prop where
  used : ∀ p use, m.used p = some use →
    use.sharecount = shares p ∧ 1 ≤ refs p ∧ refs p ≤ 2 ^ 32 ∧ use.refcount = refs p % 2 ^ 32
  unused : ∀ p, p ≤ m.maxPfn → m.used p = none → shares p = 0 ∧ refs p = 0

def Usable (m : Machine) (p : Nat) : Prop := p ∈ m.free ∨ m.used p ≠ none

structure SamePool (before after : Machine) : Prop where
  maxPfn : after.maxPfn = before.maxPfn
  kernelPtable : after.kernelPtable = before.kernelPtable
  mmioRegions : after.mmioRegions = before.mmioRegions
  usable : ∀ p, Usable after p ↔ Usable before p

theorem same_pool_refl (m : Machine) : SamePool m m := ⟨rfl, rfl, rfl, fun _ => Iff.rfl⟩

theorem same_pool_trans {a b c : Machine} (first : SamePool a b) (second : SamePool b c) : SamePool a c :=
  ⟨second.maxPfn.trans first.maxPfn, second.kernelPtable.trans first.kernelPtable,
    second.mmioRegions.trans first.mmioRegions, fun p => (second.usable p).trans (first.usable p)⟩

theorem page_set_used (m : Machine) (p q : Nat) (use : Use) : (pageSet m p use).used q = if q = p then some use else m.used q := by
  simp only [pageSet, update_apply]

variable {m next : Machine} {p : Nat} {old : Use} {shares refs : Nat → Nat}

theorem used_not_free {use : Use} (sound : Listed m) (held : m.used p = some use) : p ∉ m.free :=
  fun member => nomatch (sound.unused p member).symm.trans held

section

variable (use : Use) (held : m.used p = some old)
include use held

theorem page_set_pool : SamePool m (pageSet m p use) := by
  refine ⟨rfl, rfl, rfl, fun q => ?_⟩
  simp only [Usable, page_set_used]
  by_cases same : q = p
  · subst same
    simp [pageSet, held]
  · simp [same, pageSet]

theorem page_set_listed (sound : Listed m) : Listed (pageSet m p use) := by
  refine ⟨sound.nodup, sound.tracked, fun q member => ?_, fun q found used => ?_⟩
  · rw [page_set_used]
    by_cases same : q = p
    · subst same
      exact (used_not_free sound held member).elim
    · rw [if_neg same]
      exact sound.unused q member
  rw [page_set_used] at used
  by_cases same : q = p
  · subst same
    exact sound.usedTracked q old held
  · rw [if_neg same] at used
    exact sound.usedTracked q found used

theorem page_set_sound (sound : FreeSound m) :
    FreeSound (pageSet m p use) := ⟨page_set_listed use held sound.toListed, sound.physical⟩

end

section

variable (held : m.used p = some old)
include held

theorem push_listed (sound : Listed m) : Listed (pmmPush m p) := by
  refine ⟨List.nodup_cons.mpr ⟨used_not_free sound held, sound.nodup⟩, fun q member => ?_, fun q member => ?_, fun q use used => ?_⟩
  · rcases List.mem_cons.mp member with rfl | later
    · exact sound.usedTracked q old held
    · exact sound.tracked q later
  · rcases List.mem_cons.mp member with rfl | later
    · simp [pmmPush]
    by_cases same : q = p
    · subst same
      simp [pmmPush]
    · simpa [pmmPush, update_of_ne same] using sound.unused q later
  by_cases same : q = p
  · subst same
    simp [pmmPush] at used
  · exact sound.usedTracked q use (by simpa [pmmPush, update_of_ne same] using used)

theorem push_sound (sound : FreeSound m) : FreeSound (pmmPush m p) := ⟨push_listed held sound.toListed, sound.physical⟩

theorem push_pool : SamePool m (pmmPush m p) := by
  refine ⟨rfl, rfl, rfl, fun q => ?_⟩
  by_cases same : q = p
  · subst same
    simp [Usable, pmmPush, held]
  · simp [Usable, pmmPush, same]

end

section

variable (done : pallocPage m = .ok (next, p))
include done

theorem palloc_page_listed (sound : Listed m) :
    Listed next ∧ SamePool m next ∧ p ≤ m.maxPfn ∧ p ≠ 0 ∧ m.used p = none := by
  obtain ⟨rest, list, rfl⟩ := palloc_page_ok done
  have member : p ∈ m.free := by simp [list]
  have nodup : (p :: rest).Nodup := list ▸ sound.nodup
  obtain ⟨fresh, restNodup⟩ := List.nodup_cons.mp nodup
  obtain ⟨tracked, nonzero⟩ := sound.tracked p member
  refine ⟨⟨restNodup, fun q inside => ?_, fun q inside => ?_, fun q use used => ?_⟩, ⟨rfl, rfl, rfl, fun q => ?_⟩,
    tracked, nonzero, sound.unused p member⟩
  · exact sound.tracked q (by simp [list, inside])
  · have other : q ≠ p := fun eq => fresh (eq ▸ inside)
    simpa [update_of_ne other] using sound.unused q (by simp [list, inside])
  · by_cases same : q = p
    · subst same
      exact ⟨tracked, nonzero⟩
    · exact sound.usedTracked q use (by simpa [update_of_ne same] using used)
  by_cases same : q = p
  · subst same
    simp [Usable, list]
  · simp [Usable, list, same]

theorem palloc_page_sound (sound : FreeSound m) :
    FreeSound next ∧ SamePool m next ∧ p ≤ m.maxPfn ∧ p ≠ 0 ∧ m.used p = none := by
  obtain ⟨listed, pool, facts⟩ := palloc_page_listed done sound.toListed
  exact ⟨⟨listed, by rw [pool.maxPfn]; exact sound.physical⟩, pool, facts⟩

theorem palloc_page_counts (sound : FreeSound m) (counts : Counts m shares refs) :
    shares p = 0 ∧ refs p = 0 ∧ Counts next shares (update refs p 1) := by
  obtain ⟨_, _, tracked, _, unused⟩ := palloc_page_sound done sound
  obtain ⟨rest, list, rfl⟩ := palloc_page_ok done
  obtain ⟨noShares, noRefs⟩ := counts.unused p tracked unused
  refine ⟨noShares, noRefs, ⟨fun q use used => ?_, fun q inside free => ?_⟩⟩
  · by_cases same : q = p
    · subst same
      have record : use = ⟨1, 0, false⟩ := by simpa using used.symm
      simp [record, noShares]
    · simpa [update_of_ne same] using counts.used q use (by simpa [update_of_ne same] using used)
  by_cases same : q = p
  · subst same
    simp at free
  · simpa [update_of_ne same] using counts.unused q inside (by simpa [update_of_ne same] using free)

end

theorem page_set_counts (m : Machine) (p : Nat) (use old : Use) (shares refs : Nat → Nat) (s r : Nat)
    (held : m.used p = some old) (counts : Counts m shares refs)
    (record : use.sharecount = s ∧ 1 ≤ r ∧ r ≤ 2 ^ 32 ∧ use.refcount = r % 2 ^ 32) :
    Counts (pageSet m p use) (update shares p s) (update refs p r) := by
  refine ⟨fun q found used => ?_, fun q inside free => ?_⟩
  · rw [page_set_used] at used
    by_cases same : q = p
    · subst same
      rw [if_pos rfl] at used
      cases used
      simpa using record
    · rw [if_neg same] at used
      simpa [update_of_ne same] using counts.used q found used
  rw [page_set_used] at free
  by_cases same : q = p
  · rw [if_pos same] at free
    cases free
  · rw [if_neg same] at free
    simpa [update_of_ne same] using counts.unused q inside free

section

variable (counts : Counts m shares refs)
include counts

theorem page_ref_counts (done : pageRef m p = .ok next) :
    Counts next shares (update refs p (refs p + 1)) := by
  obtain ⟨use, held, nonzero, rfl⟩ := page_ref_ok done
  obtain ⟨shared, positive, bound, stored⟩ := counts.used p use held
  have kept := page_set_counts m p { use with refcount := (use.refcount + 1) % 2 ^ 32 } use shares refs
    (shares p) (refs p + 1) held counts ⟨shared, by omega, by omega, by simp only [stored]; omega⟩
  rwa [update_eq_self] at kept

theorem page_share_counts (room : shares p + 1 < 2 ^ 64) (done : pageShare m p = .ok next) :
    Counts next (update shares p (shares p + 1)) refs := by
  obtain ⟨use, held, nonzero, rfl⟩ := page_share_ok done
  obtain ⟨shared, positive, bound, stored⟩ := counts.used p use held
  have kept := page_set_counts m p { use with sharecount := (use.sharecount + 1) % 2 ^ 64 } use shares refs
    (shares p + 1) (refs p) held counts ⟨by simp only [shared]; omega, positive, bound, stored⟩
  rwa [update_eq_self p refs] at kept

theorem page_unshare_counts (done : pageUnshare m p = .ok next) :
    Counts next (update shares p (shares p - 1)) refs := by
  obtain ⟨use, held, nonzero, rfl⟩ := page_unshare_ok done
  obtain ⟨shared, positive, bound, stored⟩ := counts.used p use held
  have kept := page_set_counts m p { use with sharecount := use.sharecount - 1 } use shares refs
    (shares p - 1) (refs p) held counts ⟨by simp only [shared], positive, bound, stored⟩
  rwa [update_eq_self p refs] at kept

end

section

variable (counts : Counts m shares refs)
include counts

theorem page_set_cow_counts {use : Use} (cow : Bool) (held : m.used p = some use) :
    Counts (pageSet m p { use with cow := cow }) shares refs := by
  have kept := page_set_counts m p { use with cow := cow } use shares refs (shares p) (refs p) held counts (counts.used p use held)
  rwa [update_eq_self, update_eq_self] at kept

theorem page_unref_counts (done : pageUnref m p = .ok next) : Counts next shares (update refs p (refs p - 1)) ∧
      ((refs p = 1 ∧ shares p = 0 ∧ next = pmmPush m p) ∨
        (1 < refs p ∧ ∃ use, m.used p = some use ∧ next = pageSet m p { use with refcount := use.refcount - 1 })) := by
  obtain ⟨use, held, nonzero, last | ⟨more, rfl⟩⟩ := page_unref_ok done
  · obtain ⟨one, unshared, rfl⟩ := last
    obtain ⟨shared, positive, bound, stored⟩ := counts.used p use held
    have single : refs p = 1 := by omega
    refine ⟨⟨fun q found used => ?_, fun q inside free => ?_⟩, .inl ⟨single, by omega, rfl⟩⟩
    · by_cases same : q = p
      · subst same
        simp [pmmPush] at used
      · simpa [update_of_ne same] using counts.used q found (by simpa [pmmPush, update_of_ne same] using used)
    by_cases same : q = p
    · subst same
      simp only [update_self]
      omega
    · simpa [update_of_ne same] using counts.unused q inside (by simpa [pmmPush, update_of_ne same] using free)
  obtain ⟨shared, positive, bound, stored⟩ := counts.used p use held
  have several : 1 < refs p := by omega
  have kept := page_set_counts m p { use with refcount := use.refcount - 1 } use shares refs
    (shares p) (refs p - 1) held counts ⟨shared, by omega, by omega, by simp only [stored]; omega⟩
  rw [update_eq_self] at kept
  exact ⟨kept, .inr ⟨several, use, held, rfl⟩⟩

theorem page_validate_used_error {failure : Panic}
    (used : m.used p ≠ none) (failed : pageValidateUsed m p = .error failure) :
    failure = .zeroRefcount ∧ refs p = 2 ^ 32 := by
  cases held : m.used p with
  | none => exact absurd held used
  | some use =>
    obtain ⟨_, positive, bound, stored⟩ := counts.used p use held
    by_cases zero : use.refcount = 0
    · simp only [pageValidateUsed, held, if_pos zero, Except.error.injEq] at failed
      exact ⟨failed.symm, by omega⟩
    · simp [pageValidateUsed, held, zero] at failed

end

end Lyr.Mm
