import Lyr.Mm.PmmInvariant
import Lyr.Mm.UserMemory
import Lyr.Mm.WorldCounts

set_option autoImplicit false

namespace Lyr.Mm.Pmm

open Lyr.Lib Function

-- A call of the allocator, or bytes written into a page.
inductive PmmStep where
  | call (made : PmmCall)
  | write (page : Nat) (bytes : Bytes)

def PmmStep.step (s : State) : PmmStep → Result State
  | .call made => made.step s
  | .write page bytes => .ok { s with mem := fun a => if a / 4096 = page then bytes a else s.mem a }

def PmmStep.Owned (s : State) : PmmStep → Prop
  | .call _ => True
  | .write page _ => page ≤ s.maxPfn → (s.db page).flags &&& pageFree = 0

structure FreeZero (s : State) : Prop where
  base : s.memMap ≠ 0
  zero : ∀ p, p ≤ s.maxPfn → (s.db p).flags &&& pageFree ≠ 0 → ZeroPage s.mem p

theorem set_page_zero (s : State) (page : Nat) (record : PageT) (good : FreeZero s)
    (flags : record.flags &&& pageFree ≠ 0 → (deref s page).flags &&& pageFree ≠ 0) : FreeZero (setPage s page record) := by
  refine ⟨good.base, fun p tracked free => good.zero p tracked ?_⟩
  dsimp only [setPage] at free
  by_cases here : p = pfnOf s page
  · subst here
    rw [update_self] at free
    exact flags free
  · rwa [update_of_ne here] at free

theorem link_back_zero (s : State) (page : Nat) (good : FreeZero s) : FreeZero (linkBack s page) := by
  rw [linkBack]
  split
  · exact good
  · exact set_page_zero s s.freelist _ good (fun free => free)

variable {s t start : State} {p flags page : Nat} {m : Machine} {byte : UInt8} {other : Nat}

theorem insert_head_zero (good : FreeZero s) (scrubbed : ZeroPage s.mem p) : FreeZero (insertHead s (pagePtr s p)) := by
  have marked : FreeZero (setPage s (pagePtr s p) { deref s (pagePtr s p) with flags := pageFree, next := s.freelist, u2 := 0 }) := by
    refine ⟨good.base, fun q tracked free => ?_⟩
    rw [set_page_db] at free
    by_cases here : q = p
    · rw [here]
      exact scrubbed
    · rw [if_neg here] at free
      exact good.zero q tracked free
  exact ⟨(link_back_zero _ _ marked).base, (link_back_zero _ _ marked).zero⟩

theorem push_zero (good : FreeZero s) (tracked : p ≤ s.maxPfn) (done : pmmPush s (pagePtr s p) = .ok t) : FreeZero t := by
  obtain ⟨_, _, state⟩ := bind_ok.mp done
  cases state
  rw [phys_of_ptr s p good.base tracked]
  have scrubbed : ∀ a, 4096 * p ≤ a → a < 4096 * p + 4096 → fill s.mem (4096 * p) 4096 0 a = 0 :=
    fun a low high => fill_inside _ _ low high
  refine insert_head_zero ⟨good.base, fun q bound free a low high => ?_⟩ scrubbed
  by_cases here : q = p
  · subst here
    exact scrubbed a low high
  · exact (fill_outside _ _ (by omega)).trans (good.zero q bound free a low high)

theorem or_free (apart : other &&& pageFree = 0) : (flags ||| other) &&& pageFree = flags &&& pageFree := by
  rw [Nat.and_or_distrib_right, apart, Nat.or_zero]

theorem mask_free (apart : maskOut other &&& pageFree = pageFree) : (flags &&& maskOut other) &&& pageFree = flags &&& pageFree := by
  rw [Nat.and_assoc, apart]

section

variable (good : FreeZero s)
include good

theorem pop_zero (done : pmmPop s = .ok (t, page)) : FreeZero t := by
  rw [pmmPop] at done
  split at done
  · cases done
    exact good
  obtain ⟨_, _, state⟩ := bind_ok.mp done
  cases state
  have linked := link_back_zero { s with freelist := (deref s s.freelist).next } 0 ⟨good.base, good.zero⟩
  have popped : FreeZero (setPage _ s.freelist _) := set_page_zero _ s.freelist
    { deref (linkBack { s with freelist := (deref s s.freelist).next } 0) s.freelist with
      next := 0, u2 := 0, flags := ((deref (linkBack { s with freelist := (deref s s.freelist).next } 0) s.freelist).flags &&&
        maskOut pageFree) ||| pageUsed } linked (fun free => by
    rw [or_free (by decide), Nat.and_assoc, show maskOut pageFree &&& pageFree = 0 from by decide, Nat.and_zero] at free
    exact absurd rfl free)
  exact ⟨popped.base, popped.zero⟩

theorem palloc_zero (done : pallocPage s = .ok (t, page)) : FreeZero t := by
  obtain ⟨⟨u, popped⟩, pop, rest⟩ := bind_ok.mp done
  dsimp only at rest
  split at rest
  · cases rest
  · cases rest
    exact set_page_zero u _ _ (pop_zero good pop) (fun free => free)

theorem unref_zero (tracked : p ≤ s.maxPfn) (done : pageUnref s (pagePtr s p) = .ok t) : FreeZero t := by
  rw [pageUnref, if_neg (ptr_ne_zero s p good.base)] at done
  dsimp only at done
  split at done
  · cases done
  obtain ⟨_, _, rest⟩ := bind_ok.mp done
  have dropped := set_page_zero s (pagePtr s p) { deref s (pagePtr s p) with refcount := (deref s (pagePtr s p)).refcount - 1 } good
    (fun free => free)
  split at rest
  · split at rest
    · cases rest
    · exact push_zero dropped tracked rest
  · cases rest
    exact dropped

theorem record_zero {checked : Result Unit} {record : PageT}
    (flags : record.flags &&& pageFree = (deref s page).flags &&& pageFree)
    (done : (checked >>= fun _ => .ok (setPage s page record)) = .ok t) :
    FreeZero t := by
  obtain ⟨_, _, state⟩ := bind_ok.mp done
  cases state
  exact set_page_zero s page record good (fun free => by rwa [flags] at free)

theorem call_zero {call : PmmCall} (done : call.step s = .ok t) : FreeZero t := by
  cases call with
  | pallocPage =>
    obtain ⟨page, popped⟩ := map_fst_ok done
    exact palloc_zero good popped
  | pallocSingle =>
    rw [PmmCall.step, palloc_single_state] at done
    obtain ⟨page, popped⟩ := map_fst_ok done
    exact palloc_zero good popped
  | pageRef pfn =>
    refine record_zero good ?_ done
    rfl
  | pageUnref pfn =>
    rw [PmmCall.step, pfndbGetptr] at done
    split at done
    · cases done
      exact good
    · exact unref_zero good (by omega) done
  | pageShare pfn =>
    refine record_zero good ?_ done
    split
    · exact or_free (by decide)
    · rfl
  | pageUnshare pfn =>
    obtain ⟨_, _, rest⟩ := bind_ok.mp done
    split at rest
    · cases rest
      exact good
    cases rest
    refine set_page_zero s _ _ good (fun free => ?_)
    split at free
    · rwa [mask_free (by decide)] at free
    · exact free
  | pageMarkCow pfn =>
    rw [PmmCall.step, pageMarkCow] at done
    split at done
    · cases done
      exact good
    · exact record_zero good (or_free (by decide)) done
  | pageClearCow pfn =>
    rw [PmmCall.step, pageClearCow] at done
    split at done
    · cases done
      exact good
    · exact record_zero good (mask_free (by decide)) done

theorem step_zero {step : PmmStep} (owned : step.Owned s) (done : step.step s = .ok t) : FreeZero t := by
  cases step with
  | call made => exact call_zero good done
  | write page bytes =>
    cases done
    refine ⟨good.base, fun p tracked free a low high => ?_⟩
    have apart : a / 4096 ≠ page := by
      rintro rfl
      have here : a / 4096 = p := by omega
      rw [here] at owned
      exact free (owned tracked)
    dsimp only
    rw [if_neg apart]
    exact good.zero p tracked free a low high

end

def BootZero (mem : Bytes) (start : State) : Prop := ∀ p, p ≤ start.maxPfn → (start.db p).flags &&& pageFree ≠ 0 → ZeroPage mem p

theorem boot_zero {hhdm : Nat} {db : Nat → PageT} {mem : Bytes} {entries : List MemmapEntry}
    (booted : boot hhdm db mem entries = .ok start) (zero : BootZero mem start) : FreeZero start := by
  obtain ⟨u, initialised, started⟩ := bind_ok.mp booted
  obtain ⟨fresh, same⟩ := pfndb_init_fresh initialised
  obtain ⟨t, m, done, rep, _, _, kept⟩ := pmm_init_rep fresh
  have result : t = start := Except.ok.inj (done.symm.trans started)
  subst result
  refine ⟨rep.base, fun p tracked free => ?_⟩
  rw [kept, same]
  exact zero p tracked free

theorem run_zero {steps : List PmmStep} (good : FreeZero start)
    (owned : Permitted PmmStep.step (fun s step => step.Owned s) start steps) (ended : run PmmStep.step start steps = .ok s) :
    FreeZero s :=
  permitted_run_invariant (fun _ _ _ zero allowed taken => step_zero zero allowed taken) good owned ended

theorem free_list_zero (good : FreeZero s) (rep : Rep s m) (listed : Listed m) : ∀ p ∈ m.free, ZeroPage m.mem p := by
  intro p free
  rw [rep.mem]
  refine good.zero p ?_ ?_
  · rw [← rep.size]
    exact (listed.tracked p free).1
  · rw [(rep.free p free).1]
    decide

theorem mapped_range_zero {n : Machine} {spaces : List Space} {held : Nat → Nat} {vas changed : Vas} {hint length base : Nat}
    (sound : Sound m spaces held) (member : userSpace vas.pml4 ∈ spaces) (vads : VadsSound vas.list)
    (zeros : ∀ p ∈ m.free, ZeroPage m.mem p) (mapped : vasMapAnon m vas hint length flags = .ok (n, changed, base))
    (success : base ≠ 0)
    {addr : Nat} (low : base ≤ addr) (high : addr < base + alignUp length) : userByte n changed addr = some 0 := by
  have whole : alignUp length ≠ 0 := by omega
  rcases ends_value (map_anon_op sound member vads (fun _ wrapped => absurd wrapped whole)) _ mapped with ⟨_, _, failed⟩ | anon
  · exact absurd failed success
  have aligned : base % 4096 = 0 := anon.area.startAligned
  have below : base + alignUp length ≤ 0x00007FFFFFFFFFFF := anon.area.below
  have page : pageNumber addr = addr / 4096 := by
    rw [pageNumber]
    omega
  obtain ⟨q, tracked, there, _, _, zero⟩ := anon.fresh (addr / 4096) (by omega) (by omega)
  have physical : q < 2 ^ 40 := Nat.lt_of_le_of_lt tracked sound.free.physical
  have root : changed.pml4 = vas.pml4 := by rw [anon.state]
  rw [user_byte_leaf physical (by rw [page, root]; exact there), zero zeros _ (by omega) (by omega)]

theorem anonymous_memory_zero (hhdm : Nat) (db : Nat → PageT) (mem : Bytes) (entries : List MemmapEntry) (start s : State)
    (steps : List PmmStep) (m n : Machine) (spaces : List Space) (held : Nat → Nat) (vas changed : Vas) (hint length flags base : Nat)
    (booted : boot hhdm db mem entries = .ok start) (zero : BootZero mem start)
    (owned : Permitted PmmStep.step (fun s step => step.Owned s) start steps) (ended : run PmmStep.step start steps = .ok s)
    (rep : Rep s m)
    (sound : Sound m spaces held) (member : userSpace vas.pml4 ∈ spaces) (vads : VadsSound vas.list)
    (mapped : vasMapAnon m vas hint length flags = .ok (n, changed, base)) (success : base ≠ 0) (addr : Nat) (low : base ≤ addr)
    (high : addr < base + alignUp length) : userByte n changed addr = some 0 :=
  mapped_range_zero sound member vads
    (free_list_zero (run_zero (boot_zero booted zero) owned ended) rep sound.free.toListed) mapped success low high

def filledBoot (byte : UInt8) : Result State := boot 0xffff800000000000 (fun _ => ⟨7, 7, 7, 7⟩) (fun _ => byte) [⟨0, 0x8000, true⟩]

def filledMachine (byte : UInt8) : Machine := ⟨8, [1, 2, 3, 4, 5, 6, 7], fun _ => none, fun _ => byte, 0, []⟩

def firstSteps : List PmmStep := [.call .pallocPage, .write 1 (fun _ => 0)]

def firstVas : Vas := ⟨1, [], vasUserStart⟩

def firstMachine (byte : UInt8) : Machine :=
  ⟨8, [2, 3, 4, 5, 6, 7], update (fun _ => none) 1 (some ⟨1, 0, false⟩), scrub (fun _ => byte) 1, 0, []⟩

theorem first_space_made (byte : UInt8) : vasCreate (filledMachine byte) = .ok (firstMachine byte, firstVas) := rfl

def firstRecord (p : Nat) : PageT :=
  [⟨0xffff800000000040, 7, 4, 0⟩, ⟨0, 0, 2, 1⟩, ⟨0xffff8000000000c0, 0, 1, 0⟩, ⟨0xffff800000000100, 0xffff800000000080, 1, 0⟩,
    ⟨0xffff800000000140, 0xffff8000000000c0, 1, 0⟩, ⟨0xffff800000000180, 0xffff800000000100, 1, 0⟩,
    ⟨0xffff8000000001c0, 0xffff800000000140, 1, 0⟩, ⟨0, 0xffff800000000180, 1, 0⟩, ⟨0, 7, 4, 0⟩].getD p ⟨7, 7, 7, 7⟩

def FirstShape (s : State) : Prop := (s.memMap, s.maxPfn, s.freelist, s.freePages) = (0xffff800000000000, 8, 0xffff800000000080, 6) ∧
  (List.range 9).map s.db = (List.range 9).map firstRecord

instance (s : State) : Decidable (FirstShape s) := inferInstanceAs (Decidable (_ ∧ _))

theorem palloc_mem (done : pallocPage s = .ok (t, page)) : t.mem = s.mem := by
  obtain ⟨⟨u, popped⟩, pop, rest⟩ := bind_ok.mp done
  have same : u.mem = s.mem := by
    rw [pmmPop] at pop
    split at pop
    · cases pop
      rfl
    obtain ⟨_, _, state⟩ := bind_ok.mp pop
    cases state
    exact (link_back_frame { s with freelist := (deref s s.freelist).next } 0).2.2.1
  dsimp only at rest
  split at rest
  · cases rest
  · cases rest
    exact same

theorem first_rep (shape : FirstShape s) (mem : s.mem = (fun a => if a / 4096 = 1 then 0 else byte)) : Rep s (firstMachine byte) := by
  obtain ⟨fields, records⟩ := shape
  simp only [Prod.mk.injEq] at fields
  obtain ⟨memMap, maxPfn, freelist, freePages⟩ := fields
  have record : ∀ p, p < 9 → s.db p = firstRecord p := fun p small => List.map_inj_left.mp records p (List.mem_range.mpr small)
  refine ⟨⟨by rw [memMap]; decide, maxPfn.symm, ?_, ?_, ?_, freePages, ?_, ?_⟩, ?_⟩
  · rw [mem]
    funext a
    simp only [firstMachine, scrub, fill]
    congr 1
    exact propext ⟨fun inside => by omega, fun inside => by omega⟩
  · simp [Chain, firstMachine, pagePtr, deref, pfnOf, memMap, freelist, record, firstRecord]
  · simp [BackChain, firstMachine, pagePtr, deref, pfnOf, memMap, record, firstRecord]
  · intro p free
    have listed : p < 9 ∧ (firstRecord p).flags = pageFree ∧ (firstRecord p).refcount = 0 :=
      (by decide : ∀ p ∈ [2, 3, 4, 5, 6, 7], p < 9 ∧ (firstRecord p).flags = pageFree ∧ (firstRecord p).refcount = 0) p free
    rw [record p listed.1]
    exact listed.2
  · intro p use used
    by_cases here : p = 1
    · subst here
      cases used
      rw [record 1 (by decide)]
      decide
    · simp [firstMachine, here] at used
  intro p tracked notFree notUsed
  rw [maxPfn] at tracked
  have kept : p ∉ [2, 3, 4, 5, 6, 7] := notFree
  have unused : p ≠ 1 := by
    rintro rfl
    cases notUsed
  rw [record p (by omega)]
  exact (by decide : ∀ p < 9, p ∉ [2, 3, 4, 5, 6, 7] → p ≠ 1 → (firstRecord p).flags = pageReserved) p (by omega) kept unused

theorem first_start (booted : filledBoot byte = .ok start) : start.mem = fun _ => byte := by
  obtain ⟨u, initialised, started⟩ := bind_ok.mp booted
  obtain ⟨fresh, same⟩ := pfndb_init_fresh initialised
  obtain ⟨t, m, done, _, _, _, kept⟩ := pmm_init_rep fresh
  have result : t = start := Except.ok.inj (done.symm.trans started)
  rw [← result, kept, same]

theorem first_run (byte : UInt8) (shape : (match filledBoot byte with
      | .ok start => (match pallocPage start with
        | .ok (t, _) => decide (FirstShape t)
        | .error _ => false)
      | .error _ => false) = true) :
    ∃ start s, filledBoot byte = .ok start ∧ run PmmStep.step start firstSteps = .ok s ∧
      Permitted PmmStep.step (fun s step => step.Owned s) start firstSteps ∧ Rep s (firstMachine byte) := by
  cases booted : filledBoot byte with
  | error failure => simp only [booted, Bool.false_eq_true] at shape
  | ok start =>
  cases popped : pallocPage start with
  | error failure => simp only [booted, popped, Bool.false_eq_true] at shape
  | ok result =>
  obtain ⟨t, page⟩ := result
  simp only [booted, popped, decide_eq_true_eq] at shape
  have taken : PmmStep.step start (.call .pallocPage) = .ok t := by
    show (pallocPage start).map Prod.fst = .ok t
    rw [popped]
    rfl
  have mem : t.mem = fun _ => byte := (palloc_mem popped).trans (first_start booted)
  have one : t.db 1 = firstRecord 1 := List.map_inj_left.mp shape.2 1 (by decide)
  refine ⟨start, { t with mem := fun a => if a / 4096 = 1 then 0 else t.mem a }, rfl, ?_, ⟨trivial, fun next stepped => ?_⟩, ?_⟩
  · rw [firstSteps, run, taken]
    rfl
  · cases taken.symm.trans stepped
    refine ⟨fun _ => ?_, fun _ _ => trivial⟩
    rw [one]
    decide
  refine first_rep shape ?_
  rw [mem]

theorem first_machine_sound (byte : UInt8) : World.Sane [] (fun _ => 0) ⟨firstMachine byte, [firstVas]⟩ := by
  have bare : World.Sane [] (fun _ => 0) ⟨filledMachine byte, []⟩ := by
    refine bare_sane ⟨⟨(by decide : [1, 2, 3, 4, 5, 6, 7].Nodup),
      (by decide : ∀ p ∈ [1, 2, 3, 4, 5, 6, 7], p ≤ 8 ∧ p ≠ 0), fun _ _ => rfl, fun p use record => ?_⟩, (by decide : 8 < 2 ^ 40)⟩
      ⟨fun p use record => ?_, fun _ _ _ => ⟨rfl, rfl⟩⟩ rfl rfl
    · cases record
    · cases record
  exact (ends_value (step_sane noFiles [] (fun _ => 0) ⟨filledMachine byte, []⟩ .create bare trivial trivial trivial)
    ⟨firstMachine byte, [firstVas]⟩ (by rw [VasCall.step, first_space_made]; rfl)).1

theorem zeroed_boot_maps_zeros : ∃ start s n changed, filledBoot 0 = .ok start ∧ run PmmStep.step start firstSteps = .ok s ∧
    Rep s (firstMachine 0) ∧ vasMapAnon (firstMachine 0) firstVas 0x400000 0x1000 7 = .ok (n, changed, 0x400000) ∧
    userByte n changed 0x400123 = some 0 := by
  obtain ⟨start, s, booted, ended, owned, rep⟩ := first_run 0 (by decide +kernel)
  have sane := first_machine_sound 0
  have based : (vasMapAnon (firstMachine 0) firstVas 0x400000 0x1000 7).map (fun r => r.2.2) = .ok 0x400000 := by decide +kernel
  obtain ⟨⟨n, changed, base⟩, mapped, rfl⟩ := map_ok.mp based
  exact ⟨start, s, n, changed, booted, ended, rep, mapped,
    anonymous_memory_zero _ _ _ _ start s firstSteps (firstMachine 0) n _ (fun _ => 0) firstVas changed 0x400000 0x1000 7 0x400000
      booted (fun _ _ _ _ _ _ => rfl) owned ended rep sane.sound (by simp [World.all]) (sane.vads firstVas (by simp)) mapped
      (by decide) 0x400123 (by decide) (by decide)⟩

theorem boot_bytes_reach_programs : ∃ start s n changed, filledBoot 0xCC = .ok start ∧ run PmmStep.step start firstSteps = .ok s ∧
    Permitted PmmStep.step (fun s step => step.Owned s) start firstSteps ∧ Rep s (firstMachine 0xCC) ∧
    World.Sane [] (fun _ => 0) ⟨firstMachine 0xCC, [firstVas]⟩ ∧
    vasMapAnon (firstMachine 0xCC) firstVas 0x400000 0x1000 7 = .ok (n, changed, 0x400000) ∧
      userByte n changed 0x400123 = some 0xCC := by
  obtain ⟨start, s, booted, ended, owned, rep⟩ := first_run 0xCC (by decide +kernel)
  have based : (vasMapAnon (firstMachine 0xCC) firstVas 0x400000 0x1000 7).map (fun r => (r.2.2, userByte r.1 r.2.1 0x400123)) =
      .ok (0x400000, some 0xCC) := by decide +kernel
  obtain ⟨⟨n, changed, base⟩, mapped, same⟩ := map_ok.mp based
  simp only [Prod.mk.injEq] at same
  obtain ⟨rfl, byte⟩ := same
  exact ⟨start, s, n, changed, booted, ended, owned, rep, first_machine_sound 0xCC, mapped, byte⟩

end Lyr.Mm.Pmm
