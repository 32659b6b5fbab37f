import Lyr.Mm.PmmLockstep

set_option autoImplicit false

namespace Lyr.Mm.Pmm

open Lyr.Lib Function

structure Fresh (s : State) : Prop where
  base : s.memMap ≠ 0
  flags : ∀ p, p ≤ s.maxPfn → (s.db p).flags = pageFree ∨ (s.db p).flags = pageReserved
  refcount : ∀ p, p ≤ s.maxPfn → (s.db p).refcount = 0
  first : (s.db 0).flags = pageReserved

def Marked (maxPfn : Nat) (db : Nat → PageT) : Prop :=
  ∀ p, p ≤ maxPfn → ((db p).flags = pageFree ∨ (db p).flags = pageReserved) ∧ (db p).refcount = 0

variable {maxPfn hhdm k : Nat} {db : Nat → PageT} {mem : Bytes} {entries : List MemmapEntry} {s t : State} {m : Machine}

theorem mark_free_marked {pfn : Nat} (marked : Marked maxPfn db) (bound : pfn ≤ maxPfn) :
    Marked maxPfn (markFree db pfn) := by
  intro p inside
  rw [markFree, update_apply]
  split
  · refine ⟨.inl ?_, (marked pfn bound).2⟩
    rcases (marked pfn bound).1 with flags | flags <;> simp only [flags] <;> decide
  · exact marked p inside

theorem mark_range_marked {pfns : List Nat} (db : Nat → PageT) (marked : Marked maxPfn db)
    (bound : ∀ pfn ∈ pfns, pfn ≤ maxPfn) : Marked maxPfn (pfns.foldl markFree db) := by
  induction pfns generalizing db with
  | nil => exact marked
  | cons pfn rest ih =>
    exact ih (markFree db pfn) (mark_free_marked marked (bound pfn (by simp)))
      (fun later inside => bound later (by simp [inside]))

theorem mark_entry_marked (e : MemmapEntry) (marked : Marked maxPfn db) :
    Marked maxPfn (markEntry maxPfn db e) := by
  rw [markEntry]
  split
  · refine mark_range_marked db marked (fun pfn inside => ?_)
    have bounds := List.mem_range'_1.mp inside
    omega
  · exact marked

theorem mark_entries_marked (entries : List MemmapEntry) (db : Nat → PageT) (marked : Marked maxPfn db) :
    Marked maxPfn (entries.foldl (markEntry maxPfn) db) := by
  induction entries generalizing db with
  | nil => exact marked
  | cons e rest ih => exact ih (markEntry maxPfn db e) (mark_entry_marked e marked)

theorem pfndb_init_fresh (done : pfndbInit hhdm db mem entries = .ok s) : Fresh s ∧ s.mem = mem := by
  obtain ⟨⟨phys, left⟩, _, done⟩ := bind_ok.mp done
  simp only at done
  split at done
  · cases done
  rename_i nonzero
  simp only [Except.ok.injEq] at done
  subst done
  have start : Marked (calcMaxPfn entries) (initPages (phys + hhdm) (calcMaxPfn entries) db) := by
    intro p inside
    rw [initPages, if_pos inside]
    exact ⟨.inr rfl, rfl⟩
  have marked := mark_entries_marked left _ start
  refine ⟨⟨nonzero, fun p inside => ?_, fun p inside => ?_, ?_⟩, rfl⟩
  · simp only [update_apply]
    split
    · exact .inr rfl
    · exact (marked p inside).1
  · simp only [update_apply]
    split
    · rfl
    · exact (marked p inside).2
  · simp only [update_self]

structure InitAt (s : State) (m : Machine) (k : Nat) : Prop where
  threaded : Threaded s m
  listed : Listed m
  unused : ∀ p, m.used p = none
  above : ∀ p ∈ m.free, k ≤ p
  ahead : ∀ p, p < k → p ≤ s.maxPfn → ((s.db p).flags = pageFree ∨ (s.db p).flags = pageReserved) ∧ (s.db p).refcount = 0
  done : ∀ p, k ≤ p → p ≤ s.maxPfn → p ∉ m.free → (s.db p).flags = pageReserved
  first : 0 < k → (s.db 0).flags = pageReserved

theorem pmm_init_page_step (state : InitAt s m (k + 1)) (inside : k ≤ s.maxPfn) :
    ∃ t n, pmmInitPage s k = .ok t ∧ InitAt t n k ∧ t.maxPfn = s.maxPfn ∧ t.mem = s.mem := by
  have ptr : pfndbGetptr s k = pagePtr s k := by rw [pfndbGetptr, if_neg (by omega)]
  have fresh : k ∉ m.free := by
    intro member
    have bound := state.above k member
    omega
  obtain ⟨kind, refcount⟩ := state.ahead k (by omega) inside
  rcases kind with flags | flags
  · -- a free page goes to the head of the list
    let u : State := setPage s (pagePtr s k) ⟨0, 0, 0, 0⟩
    have same : update m.used k none = m.used := by
      rw [← state.unused k]
      exact update_eq_self k m.used
    have threadedU : Threaded u m := by
      have dropped := drop_threaded ⟨0, 0, 0, 0⟩ state.threaded fresh
      rwa [same] at dropped
    have own : u.db k = ⟨0, 0, 0, 0⟩ := (set_page_db s k k _).trans (if_pos rfl)
    have taken : pmmInitPage s k = .ok (insertHead u (pagePtr u k)) := by
      simp only [pmmInitPage, ptr, deref_ptr, flags]
      show pmmPushNoscrub u (pagePtr u k) = _
      rw [pmmPushNoscrub, deref_ptr, own, pushChecks, assertThat,
        if_pos ⟨ptr_ne_zero s k state.threaded.base, rfl, rfl, rfl, rfl, rfl⟩]
      rfl
    have threaded := insert_head_threaded threadedU state.listed fresh (by rw [own])
    rw [same] at threaded
    obtain ⟨_, size, mem, _, _, _⟩ := insert_head_state threadedU fresh
    have others := fun q (different : q ≠ k) => insert_head_flags threadedU fresh different
    have before : ∀ q, q ≠ k → u.db q = s.db q := fun q different => (set_page_db s k q _).trans (if_neg different)
    have positive : k ≠ 0 := by
      rintro rfl
      rw [state.first (by omega)] at flags
      cases flags
    refine ⟨_, { m with free := k :: m.free }, taken, ⟨threaded, ⟨?_, ?_, ?_, state.listed.usedTracked⟩, state.unused, ?_,
      ?_, ?_, ?_⟩,
      size, mem⟩
    · exact List.nodup_cons.mpr ⟨fresh, state.listed.nodup⟩
    · intro p member
      rcases List.mem_cons.mp member with rfl | later
      · exact ⟨by rw [state.threaded.size]; exact inside, positive⟩
      · exact state.listed.tracked p later
    · intro p _
      exact state.unused p
    · intro p member
      rcases List.mem_cons.mp member with rfl | later
      · exact Nat.le_refl p
      · exact Nat.le_of_succ_le (state.above p later)
    · intro p lower bound
      have different : p ≠ k := by omega
      rw [(others p different).1, (others p different).2, before p different]
      exact state.ahead p (by omega) (by rw [size] at bound; exact bound)
    · intro p from_ bound outside
      obtain ⟨different, notListed⟩ := not_or.mp (fun either => outside (List.mem_cons.mpr either))
      rw [(others p different).1, before p different]
      exact state.done p (by omega) (by rw [size] at bound; exact bound) notListed
    intro _
    rw [(others 0 (Ne.symm positive)).1, before 0 (Ne.symm positive)]
    exact state.first (by omega)
  refine ⟨s, m, ?_, ⟨state.threaded, state.listed, state.unused, ?_, ?_, ?_, ?_⟩, rfl, rfl⟩
  · simp only [pmmInitPage, ptr, deref_ptr, flags]
    rfl
  · intro p member
    have bound := state.above p member
    omega
  · intro p before bound
    exact state.ahead p (by omega) bound
  · intro p from_ bound outside
    by_cases here : p = k
    · rw [here, flags]
    · exact state.done p (by omega) bound outside
  · intro _
    exact state.first (by omega)

theorem pmm_init_loop (s : State) (m : Machine) (state : InitAt s m k) (inside : k ≤ s.maxPfn + 1) :
    ∃ t n, (List.range k).reverse.foldlM pmmInitPage s = .ok t ∧ InitAt t n 0 ∧ t.mem = s.mem := by
  induction k generalizing s m with
  | zero => exact ⟨s, m, rfl, state, rfl⟩
  | succ k ih =>
    obtain ⟨u, w, taken, stateU, size, memU⟩ := pmm_init_page_step state (by omega)
    obtain ⟨t, n, rest, final, memT⟩ := ih u w stateU (by rw [size]; omega)
    refine ⟨t, n, ?_, final, memT.trans memU⟩
    rw [List.range_succ, List.reverse_append, List.reverse_singleton, List.singleton_append, List.foldlM_cons, taken]
    exact rest

def Positive (m : Machine) : Prop := ∀ p use, m.used p = some use → 1 ≤ use.refcount

theorem pmm_init_rep (fresh : Fresh s) :
    ∃ t m, pmmInit s = .ok t ∧ Rep t m ∧ Listed m ∧ (∀ p, m.used p = none) ∧ t.mem = s.mem := by
  let u : State := { s with freelist := 0, freePages := 0, totalPages := s.maxPfn + 1 }
  let m : Machine := ⟨s.maxPfn, [], fun _ => none, s.mem, 0, []⟩
  have start : InitAt u m (s.maxPfn + 1) := by
    refine ⟨⟨fresh.base, rfl, rfl, rfl, trivial, rfl, fun p member => ?_, fun p use used => ?_⟩,
      ⟨List.nodup_nil, fun p member => ?_, fun p member => ?_, fun p use used => ?_⟩, fun _ => rfl, fun p member => ?_,
      fun p _ bound => ⟨fresh.flags p bound, fresh.refcount p bound⟩, fun p from_ bound => ?_, fun _ => fresh.first⟩
    · cases member
    · cases used
    · cases member
    · cases member
    · cases used
    · cases member
    · have limit : p ≤ s.maxPfn := bound
      omega
  obtain ⟨t, n, done, final, mem⟩ := pmm_init_loop u m start (Nat.le_refl _)
  exact ⟨t, n, done, ⟨final.threaded, fun p inside outside _ => final.done p (Nat.zero_le p) inside outside⟩, final.listed,
    final.unused, mem⟩

inductive PmmCall where
  | pallocPage
  | pallocSingle
  | pageRef (pfn : Nat)
  | pageUnref (pfn : Nat)
  | pageShare (pfn : Nat)
  | pageUnshare (pfn : Nat)
  | pageMarkCow (pfn : Nat)
  | pageClearCow (pfn : Nat)
deriving DecidableEq, Repr

-- A page is passed as its record's address, which is null past the database.
def PmmCall.step (s : State) : PmmCall → Result State
  | .pallocPage => (Pmm.pallocPage s).map Prod.fst
  | .pallocSingle => (Pmm.pallocSingle s).map Prod.fst
  | .pageRef pfn => Pmm.pageRef s (pfndbGetptr s pfn)
  | .pageUnref pfn => Pmm.pageUnref s (pfndbGetptr s pfn)
  | .pageShare pfn => Pmm.pageShare s (pfndbGetptr s pfn)
  | .pageUnshare pfn => Pmm.pageUnshare s (pfndbGetptr s pfn)
  | .pageMarkCow pfn => Pmm.pageMarkCow s (pfndbGetptr s pfn)
  | .pageClearCow pfn => Pmm.pageClearCow s (pfndbGetptr s pfn)

def PmmCall.apply (m : Machine) : PmmCall → Result Machine
  | .pallocPage => (Lyr.Mm.pallocPage m).map Prod.fst
  | .pallocSingle => (Lyr.Mm.pallocPage m).map Prod.fst
  | .pageRef pfn => Lyr.Mm.pageRef m pfn
  | .pageUnref pfn => Lyr.Mm.pageUnref m pfn
  | .pageShare pfn => Lyr.Mm.pageShare m pfn
  | .pageUnshare pfn => Lyr.Mm.pageUnshare m pfn
  | .pageMarkCow pfn => Lyr.Mm.pageMarkCow m pfn
  | .pageClearCow pfn => Lyr.Mm.pageClearCow m pfn

-- Fewer than 2^32 references to one page, and mappings that the 64-bit sharecount counts.
def PmmCall.Fits (s : State) : PmmCall → Prop
  | .pageRef pfn => (s.db pfn).flags &&& pageUsed ≠ 0 → (s.db pfn).refcount + 1 < 2 ^ 32
  | .pageShare pfn => (s.db pfn).flags &&& pageUsed ≠ 0 → (s.db pfn).u2 + 1 < 2 ^ 64
  | _ => True

theorem map_fst_ok {α β : Type} {x : Result (α × β)} {value : α} (done : x.map Prod.fst = .ok value) :
    ∃ other, x = .ok (value, other) := by
  cases x with
  | error failure => cases done
  | ok pair =>
    obtain ⟨first, second⟩ := pair
    exact ⟨second, congrArg (fun v => Except.ok (v, second)) (Except.ok.inj done)⟩

theorem palloc_single_state (s : State) : (pallocSingle s).map Prod.fst = (pallocPage s).map Prod.fst := by
  rw [pallocSingle]
  cases pallocPage s with
  | error failure => rfl
  | ok pair => rfl

theorem lockstep_ok {x : Result State} {y : Result Machine} (related : Lockstep x y) (done : x = .ok t) :
    ∃ n, y = .ok n ∧ Rep t n := by
  subst done
  cases y with
  | error failure => exact related.elim
  | ok n => exact ⟨n, rfl, related⟩

theorem palloc_step (rep : Rep s m) (listed : Listed m)
    (done : (pallocPage s).map Prod.fst = .ok t) : ∃ n, (Lyr.Mm.pallocPage m).map Prod.fst = .ok n ∧ Rep t n := by
  obtain ⟨page, popped⟩ := map_fst_ok done
  have related := palloc_rep rep listed
  rw [popped] at related
  obtain ⟨n, p, taken, _, after⟩ := related
  exact ⟨n, by rw [taken]; rfl, after⟩

theorem passed_lockstep {pfn : Nat} {call : State → Nat → Result State} {model : Result Machine}
    (known : pfn ≤ s.maxPfn → Lockstep (call s (pagePtr s pfn)) model) (null : ∀ u, call s 0 = .ok u → u = s)
    (done : call s (pfndbGetptr s pfn) = .ok t) : (∃ n, model = .ok n ∧ Rep t n) ∨ t = s := by
  by_cases bound : pfn > s.maxPfn
  · rw [pfndbGetptr, if_pos bound] at done
    exact .inr (null t done)
  · rw [pfndbGetptr, if_neg bound] at done
    exact .inl (lockstep_ok (known (Nat.le_of_not_lt bound)) done)

theorem step_simulates {call : PmmCall} (rep : Rep s m) (listed : Listed m) (fits : call.Fits s)
    (done : call.step s = .ok t) : (∃ n, call.apply m = .ok n ∧ Rep t n) ∨ t = s := by
  cases call with
  | pallocPage => exact .inl (palloc_step rep listed done)
  | pallocSingle =>
    simp only [PmmCall.step, palloc_single_state] at done
    exact .inl (palloc_step rep listed done)
  | pageRef pfn => exact passed_lockstep (page_ref_rep rep listed) nofun done
  | pageUnref pfn => exact passed_lockstep (page_unref_rep rep listed) (fun u taken => (Except.ok.inj taken).symm) done
  | pageShare pfn => exact passed_lockstep (page_share_rep rep listed · fits) nofun done
  | pageUnshare pfn => exact passed_lockstep (page_unshare_rep rep listed) nofun done
  | pageMarkCow pfn => exact passed_lockstep (page_mark_cow_rep rep listed) (fun u taken => (Except.ok.inj taken).symm) done
  | pageClearCow pfn => exact passed_lockstep (page_clear_cow_rep rep listed) (fun u taken => (Except.ok.inj taken).symm) done

theorem page_set_positive (p : Nat) {use : Use} (positive : Positive m) (own : 1 ≤ use.refcount) :
    Positive (pageSet m p use) := by
  intro q found used
  rw [page_set_used] at used
  split at used
  · cases used
    exact own
  · exact positive q found used

theorem apply_keeps {n : Machine} {call : PmmCall} (listed : Listed m) (positive : Positive m)
    (room : ∀ pfn, call = .pageRef pfn → ∀ use, m.used pfn = some use → use.refcount + 1 < 2 ^ 32)
    (done : call.apply m = .ok n) : Listed n ∧ Positive n := by
  have allocated : ∀ p, Lyr.Mm.pallocPage m = .ok (n, p) → Listed n ∧ Positive n := by
    intro p taken
    refine ⟨(palloc_page_listed taken listed).1, fun q use used => ?_⟩
    obtain ⟨rest, _, rfl⟩ := palloc_page_ok taken
    by_cases same : q = p
    · subst same
      simp only [update_self, Option.some.injEq] at used
      rw [← used]
    · exact positive q use (by simpa only [update_of_ne same] using used)
  cases call with
  | pallocPage | pallocSingle =>
    obtain ⟨p, taken⟩ := map_fst_ok done
    exact allocated p taken
  | pageRef pfn =>
    obtain ⟨use, record, _, rfl⟩ := page_ref_ok done
    have small := room pfn rfl use record
    refine ⟨page_set_listed _ record listed, page_set_positive pfn positive ?_⟩
    simp only
    omega
  | pageUnref pfn =>
    obtain ⟨use, record, nonzero, ⟨_, _, rfl⟩ | ⟨more, rfl⟩⟩ := page_unref_ok done
    · refine ⟨push_listed record listed, fun q found used => ?_⟩
      by_cases same : q = pfn
      · subst same
        simp [Lyr.Mm.pmmPush] at used
      · exact positive q found (by simpa only [Lyr.Mm.pmmPush, update_of_ne same] using used)
    refine ⟨page_set_listed _ record listed, page_set_positive pfn positive ?_⟩
    simp only
    omega
  | pageShare pfn =>
    obtain ⟨use, record, _, rfl⟩ := page_share_ok done
    exact ⟨page_set_listed _ record listed, page_set_positive pfn positive (positive pfn use record)⟩
  | pageUnshare pfn =>
    obtain ⟨use, record, _, rfl⟩ := page_unshare_ok done
    exact ⟨page_set_listed _ record listed, page_set_positive pfn positive (positive pfn use record)⟩
  | pageMarkCow pfn =>
    obtain ⟨use, record, rfl⟩ := page_mark_cow_ok done
    exact ⟨page_set_listed _ record listed, page_set_positive pfn positive (positive pfn use record)⟩
  | pageClearCow pfn =>
    obtain ⟨use, record, rfl⟩ := page_clear_cow_ok done
    exact ⟨page_set_listed _ record listed, page_set_positive pfn positive (positive pfn use record)⟩

def Simulated (s : State) : Prop := ∃ m, Rep s m ∧ Listed m ∧ Positive m

theorem step_simulated {call : PmmCall} (state : Simulated s) (fits : call.Fits s)
    (done : call.step s = .ok t) : Simulated t := by
  obtain ⟨m, rep, listed, positive⟩ := state
  rcases step_simulates rep listed fits done with ⟨n, applied, after⟩ | same
  · have room : ∀ pfn, call = .pageRef pfn → ∀ use, m.used pfn = some use → use.refcount + 1 < 2 ^ 32 := by
      rintro pfn rfl use record
      obtain ⟨flags, refcount, _⟩ := rep.used pfn use record
      rw [← refcount]
      exact fits (by rw [flags]; exact (flag_word_used _ _).1)
    obtain ⟨listedN, positiveN⟩ := apply_keeps listed positive room applied
    exact ⟨n, after, listedN, positiveN⟩
  · exact same ▸ ⟨m, rep, listed, positive⟩

-- Reached through u1.next, ended by null, with u2 as the way back.
structure FreeListSound (s : State) (list : List Nat) : Prop where
  chain : Chain (fun page => (deref s page).next) s.freelist (list.map (pagePtr s))
  nodup : list.Nodup
  exact_ : ∀ p, p ∈ list ↔ p ≤ s.maxPfn ∧ (s.db p).flags = pageFree
  count : s.freePages = list.length
  refcount : ∀ p ∈ list, (s.db p).refcount = 0
  back : BackChain (fun page => (deref s page).u2) 0 (list.map (pagePtr s))

def InUseSound (record : PageT) : Prop :=
  record.flags &&& pageUsed ≠ 0 ∧ 1 ≤ record.refcount ∧ (record.flags &&& pageShared ≠ 0 ↔ 1 < record.u2)

theorem flag_word_shared : ∀ shared cow, flagWord shared cow &&& pageShared ≠ 0 ↔ shared = true := by decide

theorem simulated_sound (state : Simulated s) :
    (∃ list, FreeListSound s list) ∧
      ∀ p, p ≤ s.maxPfn → (s.db p).flags = pageFree ∨ (s.db p).flags = pageReserved ∨ InUseSound (s.db p) := by
  obtain ⟨m, rep, listed, positive⟩ := state
  have inUse : ∀ p use, m.used p = some use → InUseSound (s.db p) := by
    intro p use record
    obtain ⟨flags, refcount, share⟩ := rep.used p use record
    refine ⟨by rw [flags]; exact (flag_word_used _ _).1, by rw [refcount]; exact positive p use record, ?_⟩
    rw [flags, usedFlags, flag_word_shared, decide_eq_true_eq, share]
  have kinds : ∀ p, p ≤ s.maxPfn → p ∉ m.free → (s.db p).flags = pageReserved ∨ InUseSound (s.db p) := by
    intro p bound outside
    cases record : m.used p with
    | none => exact .inl (rep.reserved p bound outside record)
    | some use => exact .inr (inUse p use record)
  refine ⟨⟨m.free, rep.chain, listed.nodup, fun p => ⟨fun member => ?_, fun both => ?_⟩, rep.count,
    fun p member => (rep.free p member).2, rep.back⟩, fun p bound => ?_⟩
  · exact ⟨by rw [← rep.size]; exact (listed.tracked p member).1, (rep.free p member).1⟩
  · obtain ⟨bound, flags⟩ := both
    by_contra outside
    rcases kinds p bound outside with reserved | used
    · rw [flags] at reserved
      cases reserved
    · rw [InUseSound, flags] at used
      exact used.1 rfl
  by_cases member : p ∈ m.free
  · exact .inl (rep.free p member).1
  · exact .inr (kinds p bound member)

def boot (hhdm : Nat) (db : Nat → PageT) (mem : Bytes) (entries : List MemmapEntry) : Result State := do
  let s ← pfndbInit hhdm db mem entries
  pmmInit s

theorem boot_simulated (booted : boot hhdm db mem entries = .ok s) : Simulated s := by
  obtain ⟨u, initialised, started⟩ := bind_ok.mp booted
  obtain ⟨fresh, _⟩ := pfndb_init_fresh initialised
  obtain ⟨t, m, done, rep, listed, unused, _⟩ := pmm_init_rep fresh
  have same : t = s := Except.ok.inj (done.symm.trans started)
  subst same
  refine ⟨m, rep, listed, fun p use used => ?_⟩
  rw [unused p] at used
  cases used

theorem pmm_invariant (hhdm : Nat) (db : Nat → PageT) (mem : Bytes) (entries : List MemmapEntry) (start s : State)
    (calls : List PmmCall) (booted : boot hhdm db mem entries = .ok start)
    (fits : Permitted PmmCall.step (fun s call => call.Fits s) start calls) (ended : run PmmCall.step start calls = .ok s) :
    (∃ list, FreeListSound s list) ∧
      ∀ p, p ≤ s.maxPfn → (s.db p).flags = pageFree ∨ (s.db p).flags = pageReserved ∨ InUseSound (s.db p) :=
  simulated_sound (permitted_run_invariant (fun _ _ _ good fit taken => step_simulated good fit taken)
    (boot_simulated booted) fits ended)

def smallBoot : Result State := boot 0xffff800000000000 (fun _ => ⟨7, 7, 7, 7⟩) (fun _ => 0xCC) [⟨0, 0x8000, true⟩]

def smallCalls : List PmmCall := [.pallocPage, .pallocSingle, .pageMarkCow 1, .pageClearCow 2, .pageUnref 1]

theorem small_calls_invariant : ∃ start s, smallBoot = .ok start ∧ run PmmCall.step start smallCalls = .ok s ∧
    s.freePages = 6 ∧ ∃ list, FreeListSound s list := by
  have counted : (do let start ← smallBoot; run PmmCall.step start smallCalls).map State.freePages = .ok 6 := by decide +kernel
  cases booted : smallBoot with
  | error failure => rw [booted] at counted; cases counted
  | ok start =>
    rw [booted] at counted
    simp only [bind, Except.bind] at counted
    cases ended : run PmmCall.step start smallCalls with
    | error failure => rw [ended] at counted; cases counted
    | ok s =>
      rw [ended] at counted
      have fits : Permitted PmmCall.step (fun s call => call.Fits s) start smallCalls :=
        ⟨trivial, fun _ _ => ⟨trivial, fun _ _ => ⟨trivial, fun _ _ => ⟨trivial, fun _ _ => ⟨trivial, fun _ _ => trivial⟩⟩⟩⟩⟩
      exact ⟨start, s, rfl, ended, Except.ok.inj counted,
        (pmm_invariant _ _ _ _ start s smallCalls booted fits ended).1⟩

theorem share_step {p : Nat} (base : s.memMap ≠ 0) (bound : p ≤ s.maxPfn)
    (record : s.db p = ⟨0, k % 2 ^ 64, flagWord true false, 1⟩) :
    ∃ t, PmmCall.step s (.pageShare p) = .ok t ∧ t.memMap = s.memMap ∧ t.maxPfn = s.maxPfn ∧
      t.db p = ⟨0, (k + 1) % 2 ^ 64, flagWord true false, 1⟩ := by
  have ptr : pfndbGetptr s p = pagePtr s p := if_neg (by omega)
  have valid : pageValidateUsed (pagePtr s p) ⟨0, k % 2 ^ 64, flagWord true false, 1⟩ = .ok () := by
    obtain ⟨isUsed, notPoison⟩ := flag_word_used true false
    simp [pageValidateUsed, ptr_ne_zero s p base, isUsed, notPoison]
  refine ⟨setPage s (pagePtr s p) ⟨0, (k + 1) % 2 ^ 64, flagWord true false, 1⟩, ?_, rfl, rfl,
    (set_page_db s p p ⟨0, (k + 1) % 2 ^ 64, flagWord true false, 1⟩).trans (if_pos rfl)⟩
  simp only [PmmCall.step, ptr, Pmm.pageShare, deref_ptr, record, valid, bind, Except.bind, flag_word_share, ite_self,
    Nat.mod_add_mod]

theorem share_run (n p k : Nat) (s : State) (base : s.memMap ≠ 0) (bound : p ≤ s.maxPfn)
    (record : s.db p = ⟨0, k % 2 ^ 64, flagWord true false, 1⟩) :
    ∃ t, run PmmCall.step s (List.replicate n (.pageShare p)) = .ok t ∧ t.maxPfn = s.maxPfn ∧
      t.db p = ⟨0, (k + n) % 2 ^ 64, flagWord true false, 1⟩ := by
  induction n generalizing s k with
  | zero => exact ⟨s, rfl, rfl, record⟩
  | succ n ih =>
    obtain ⟨u, taken, baseU, sizeU, recordU⟩ := share_step base bound record
    obtain ⟨t, ended, sizeT, recordT⟩ := ih (k + 1) u (by rw [baseU]; exact base) (by rw [sizeU]; exact bound) recordU
    refine ⟨t, ?_, sizeT.trans sizeU, ?_⟩
    · rw [List.replicate_succ, run, taken]
      exact ended
    · rw [recordT, Nat.add_right_comm, Nat.add_assoc]

theorem share_wraps {n : Nat} (round : n + 2 = 2 ^ 64) : ∃ start s, smallBoot = .ok start ∧
    run PmmCall.step start (.pallocPage :: List.replicate (n + 2) (.pageShare 1)) = .ok s ∧
    s.db 1 = ⟨0, 0, flagWord true false, 1⟩ := by
  have opening : (smallBoot >>= fun start => run PmmCall.step start [.pallocPage, .pageShare 1, .pageShare 1]).map
      (fun s => (s.memMap, s.maxPfn, s.db 1)) = .ok (0xffff800000000000, 8, ⟨0, 2, flagWord true false, 1⟩) := by decide +kernel
  cases booted : smallBoot with
  | error failure => rw [booted] at opening; cases opening
  | ok start =>
    rw [booted] at opening
    cases begun : run PmmCall.step start [.pallocPage, .pageShare 1, .pageShare 1] with
    | error failure => simp [bind, Except.bind, begun, Except.map] at opening
    | ok u =>
      simp only [bind, Except.bind, begun, Except.map, Except.ok.injEq, Prod.mk.injEq] at opening
      obtain ⟨base, size, record⟩ := opening
      obtain ⟨s, ended, _, final⟩ := share_run n 1 2 u (by rw [base]; decide) (by rw [size]; decide) (by rw [record]; decide)
      refine ⟨start, s, rfl, ?_, ?_⟩
      · rw [List.replicate_succ, List.replicate_succ]
        exact run_append_ok start begun ended
      · rw [final, show 2 + n = 2 ^ 64 by omega, Nat.mod_self]

def wrappingCalls : List PmmCall := .pallocPage :: List.replicate (2 ^ 64) (.pageShare 1)

-- PAGE_SHARED is set and sharecount reads 0.
theorem sharecount_wraps : ∃ start s, smallBoot = .ok start ∧ run PmmCall.step start wrappingCalls = .ok s ∧
    (∀ pfn, PmmCall.pageRef pfn ∉ wrappingCalls) ∧
    ¬ ((s.db 1).flags = pageFree ∨ (s.db 1).flags = pageReserved ∨ InUseSound (s.db 1)) := by
  obtain ⟨n, round⟩ : ∃ n, n + 2 = 2 ^ 64 := ⟨2 ^ 64 - 2, by norm_num⟩
  obtain ⟨start, s, booted, ended, final⟩ := share_wraps round
  rw [wrappingCalls, ← round]
  refine ⟨start, s, booted, ended, fun pfn inside => ?_, ?_⟩
  · rcases List.mem_cons.mp inside with first | later
    · cases first
    · cases List.eq_of_mem_replicate later
  rw [final]
  rintro (flags | flags | ⟨_, _, shared⟩)
  · cases flags
  · cases flags
  · exact absurd (shared.mp (by decide)) (by decide)

end Lyr.Mm.Pmm
