import Lyr.Mm.PmmRep

set_option autoImplicit false

namespace Lyr.Mm.Pmm

open Lyr.Lib Function

def Lockstep (x : Result State) (y : Result Machine) : Prop :=
  match x, y with
  | .ok t, .ok n => Rep t n
  | .error a, .error b => a = b
  | _, _ => False

variable {s : State} {m : Machine} {p : Nat} {use : Use}

theorem record_lockstep (rep : Rep s m) (tracked : p ≤ s.maxPfn) {concrete : Unit → Result State} {abstract_ : Use → Result Machine}
    (agree : ∀ use, m.used p = some use → use.refcount ≠ 0 → (s.db p).flags = usedFlags use → (s.db p).refcount = use.refcount →
      (s.db p).u2 = use.sharecount → Lockstep (concrete ()) (abstract_ use)) :
    Lockstep (pageValidateUsed (pagePtr s p) (s.db p) >>= concrete) (Lyr.Mm.pageValidateUsed m p >>= abstract_) := by
  rw [validate_rep rep tracked]
  cases valid : Lyr.Mm.pageValidateUsed m p with
  | error failure => rfl
  | ok use =>
    obtain ⟨record, positive⟩ := page_validate_used_ok valid
    obtain ⟨flags, refcount, share⟩ := rep.used p use record
    exact agree use record positive flags refcount share

theorem share_flags (bound : use.sharecount + 1 < 2 ^ 64) :
    (if (use.sharecount + 1) % 2 ^ 64 > 1 then usedFlags use ||| pageShared else usedFlags use) =
      usedFlags { use with sharecount := (use.sharecount + 1) % 2 ^ 64 } := by
  simp only [usedFlags, Nat.mod_eq_of_lt bound, flag_word_share]
  by_cases several : use.sharecount + 1 > 1
  · rw [if_pos several, decide_eq_true several]
  · have zero : ¬ use.sharecount > 1 := by omega
    rw [if_neg several, decide_eq_false several, decide_eq_false zero]

theorem unshare_flags (use : Use) : (if use.sharecount - 1 ≤ 1 then usedFlags use &&& maskOut pageShared else usedFlags use) =
      usedFlags { use with sharecount := use.sharecount - 1 } := by
  simp only [usedFlags, flag_word_unshare]
  by_cases last : use.sharecount - 1 ≤ 1
  · have single : ¬ use.sharecount - 1 > 1 := by omega
    rw [if_pos last, decide_eq_false single]
  have several : use.sharecount - 1 > 1 := by omega
  have before : use.sharecount > 1 := by omega
  rw [if_neg last, decide_eq_true several, decide_eq_true before]

section

variable (rep : Rep s m) (listed : Listed m) (tracked : p ≤ s.maxPfn)
include rep listed tracked

theorem page_ref_rep :
    Lockstep (pageRef s (pagePtr s p)) (Lyr.Mm.pageRef m p) := by
  rw [pageRef, deref_ptr]
  refine record_lockstep rep tracked (fun use record _ flags refcount share => ?_)
  exact set_rep rep listed record flags (by simp only [refcount]) share

theorem page_share_rep
    (bound : (s.db p).flags &&& pageUsed ≠ 0 → (s.db p).u2 + 1 < 2 ^ 64) :
    Lockstep (pageShare s (pagePtr s p)) (Lyr.Mm.pageShare m p) := by
  rw [pageShare, deref_ptr]
  refine record_lockstep rep tracked (fun use record _ flags refcount share => ?_)
  rw [share, flags] at bound
  have room := bound (flag_word_used _ _).1
  exact set_rep rep listed record (by simp only [flags, share]; exact share_flags room) refcount (by simp only [share])

theorem page_unshare_rep :
    Lockstep (pageUnshare s (pagePtr s p)) (Lyr.Mm.pageUnshare m p) := by
  rw [pageUnshare, deref_ptr]
  refine record_lockstep rep tracked (fun use record _ flags refcount share => ?_)
  simp only [share]
  by_cases zero : use.sharecount = 0
  · rw [if_pos zero, if_pos zero]
    exact rep
  · rw [if_neg zero, if_neg zero]
    exact set_rep rep listed record (by simp only [flags]; exact unshare_flags use) refcount rfl

theorem page_mark_cow_rep :
    Lockstep (pageMarkCow s (pagePtr s p)) (Lyr.Mm.pageMarkCow m p) := by
  rw [pageMarkCow, if_neg (ptr_ne_zero s p rep.base), deref_ptr]
  refine record_lockstep rep tracked (fun use record _ flags refcount share => ?_)
  exact set_rep rep listed record (by simp only [flags, usedFlags, flag_word_mark]) refcount share

theorem page_clear_cow_rep :
    Lockstep (pageClearCow s (pagePtr s p)) (Lyr.Mm.pageClearCow m p) := by
  rw [pageClearCow, if_neg (ptr_ne_zero s p rep.base), deref_ptr]
  refine record_lockstep rep tracked (fun use record _ flags refcount share => ?_)
  exact set_rep rep listed record (by simp only [flags, usedFlags, flag_word_clear]) refcount share

end

theorem phys_of_ptr (s : State) (p : Nat) (base : s.memMap ≠ 0) (tracked : p ≤ s.maxPfn) :
    pfndbPageToPhys s (pagePtr s p) = 4096 * p := by
  have nonzero := ptr_ne_zero s p base
  rw [pfndbPageToPhys, if_neg (by simp [nonzero, base]), if_neg (by simp only [pagePtr]; omega), pfn_of_ptr, Nat.mul_comm]

theorem push_rep (rep : Rep s m) (listed : Listed m) (record : m.used p = some use) (unshared : use.sharecount = 0) :
    Lockstep (pmmPush (setPage s (pagePtr s p) { s.db p with refcount := 0 }) (pagePtr s p)) (.ok (Lyr.Mm.pmmPush m p)) := by
  obtain ⟨flags, _, share⟩ := rep.used p use record
  obtain ⟨tracked, _⟩ := listed.usedTracked p use record
  have fresh := used_not_free listed record
  let t : State := setPage s (pagePtr s p) { s.db p with refcount := 0 }
  have own : t.db p = { s.db p with refcount := 0 } := (set_page_db s p p _).trans (if_pos rfl)
  have checks : pushChecks (pagePtr t p) (t.db p) = .ok () := by
    rw [pushChecks, assertThat, if_pos]
    rw [own]
    refine ⟨ptr_ne_zero s p rep.base, rfl, by simp only [share, unshared], ?_⟩
    simp only [flags, usedFlags, unshared]
    cases use.cow <;> decide
  let w : State := { t with mem := fill t.mem (4096 * p) 4096 0 }
  let n : Machine := { m with used := update m.used p none, mem := scrub m.mem p }
  have done : pmmPush t (pagePtr t p) = .ok (insertHead w (pagePtr w p)) := by
    rw [pmmPush, deref_ptr, checks, phys_of_ptr t p rep.base (by rw [rep.size] at tracked; exact tracked)]
    rfl
  have dropped := drop_threaded { s.db p with refcount := 0 } rep.toThreaded fresh
  have threaded : Threaded w n :=
    ⟨dropped.base, dropped.size, congrArg (fun x => fill x (4096 * p) 4096 0) rep.mem, dropped.chain, dropped.back, dropped.count,
      dropped.free, dropped.used⟩
  have listedN : Listed n := by
    refine ⟨listed.nodup, listed.tracked, fun q inside => ?_, fun q found used => ?_⟩
    · show update m.used p none q = none
      rw [update_apply]
      split
      · rfl
      · exact listed.unused q inside
    by_cases same : q = p
    · subst same
      simp [n] at used
    · exact listed.usedTracked q found (by simpa only [n, update_of_ne same] using used)
  have after := insert_head_threaded threaded listedN fresh (by show (t.db p).refcount = 0; rw [own])
  show Lockstep (pmmPush t (pagePtr t p)) _
  rw [done]
  have same : ({ n with free := p :: n.free, used := update n.used p none } : Machine) = Lyr.Mm.pmmPush m p := by
    simp only [n, update_idem]
    rfl
  rw [same] at after
  refine ⟨after, fun q inside notFree unused => ?_⟩
  obtain ⟨different, outside⟩ := not_or.mp (fun either => notFree (List.mem_cons.mpr either))
  rw [(insert_head_flags threaded fresh different).1]
  show (t.db q).flags = pageReserved
  rw [set_page_db, if_neg different]
  obtain ⟨_, size, _⟩ := insert_head_state threaded fresh
  refine rep.reserved q ?_ outside ?_
  · rw [size] at inside
    exact inside
  · simpa only [Lyr.Mm.pmmPush, update_of_ne different] using unused

theorem page_unref_rep (rep : Rep s m) (listed : Listed m) (tracked : p ≤ s.maxPfn) :
    Lockstep (pageUnref s (pagePtr s p)) (Lyr.Mm.pageUnref m p) := by
  have checked : Lockstep (pageValidateUsed (pagePtr s p) (s.db p) >>= fun _ =>
      (if (s.db p).refcount - 1 = 0 then
        if (s.db p).u2 ≠ 0 then .error .stillShared
        else pmmPush (setPage s (pagePtr s p) { s.db p with refcount := (s.db p).refcount - 1 }) (pagePtr s p)
      else .ok (setPage s (pagePtr s p) { s.db p with refcount := (s.db p).refcount - 1 }))) (Lyr.Mm.pageUnref m p) := by
    refine record_lockstep rep tracked (fun use record positive flags refcount share => ?_)
    rw [refcount, share]
    by_cases last : use.refcount - 1 = 0
    · rw [if_pos last, if_pos last]
      by_cases shared : use.sharecount ≠ 0
      · rw [if_pos shared, if_pos shared]
        rfl
      · rw [if_neg shared, if_neg shared, last]
        exact push_rep rep listed record (by simpa using shared)
    · rw [if_neg last, if_neg last]
      exact set_rep rep listed record flags rfl share
  rw [pageUnref, if_neg (ptr_ne_zero s p rep.base), deref_ptr]
  by_cases unusedFlag : (s.db p).flags &&& pageUsed = 0
  · -- the check made twice: the second one would stop in the same way
    have unused : m.used p = none := by
      cases record : m.used p with
      | none => rfl
      | some use =>
        rw [(rep.used p use record).1] at unusedFlag
        exact absurd unusedFlag (flag_word_used _ _).1
    simp only [if_pos unusedFlag, Lyr.Mm.pageUnref, Lyr.Mm.pageValidateUsed, unused]
    rfl
  · simp only [if_neg unusedFlag]
    exact checked

end Lyr.Mm.Pmm
