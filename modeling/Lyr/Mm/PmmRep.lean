import Lyr.Mm.Pmm

set_option autoImplicit false

namespace Lyr.Mm.Pmm

open Lyr.Lib Function

def flagWord (shared cow : Bool) : Nat := pageUsed ||| (if shared then pageShared else 0) ||| (if cow then pageCow else 0)

def usedFlags (use : Use) : Nat := flagWord (decide (use.sharecount > 1)) use.cow

theorem flag_word_used : ∀ shared cow, flagWord shared cow &&& pageUsed ≠ 0 ∧ flagWord shared cow &&& pagePoison = 0 := by
  decide

theorem flag_word_share : ∀ shared cow, flagWord shared cow ||| pageShared = flagWord true cow := by decide

theorem flag_word_unshare : ∀ shared cow, flagWord shared cow &&& maskOut pageShared = flagWord false cow := by decide

theorem flag_word_mark : ∀ shared cow, flagWord shared cow ||| pageCow = flagWord shared true := by decide

theorem flag_word_clear : ∀ shared cow, flagWord shared cow &&& maskOut pageCow = flagWord shared false := by decide

-- The free list is threaded through the records, and u2 is read as prev or as sharecount by the state.
structure Threaded (s : State) (m : Machine) : Prop where
  base : s.memMap ≠ 0
  size : m.maxPfn = s.maxPfn
  mem : m.mem = s.mem
  chain : Chain (fun page => (deref s page).next) s.freelist (m.free.map (pagePtr s))
  back : BackChain (fun page => (deref s page).u2) 0 (m.free.map (pagePtr s))
  count : s.freePages = m.free.length
  free : ∀ p ∈ m.free, (s.db p).flags = pageFree ∧ (s.db p).refcount = 0
  used : ∀ p use, m.used p = some use →
    (s.db p).flags = usedFlags use ∧ (s.db p).refcount = use.refcount ∧ (s.db p).u2 = use.sharecount

structure Rep (s : State) (m : Machine) : Prop extends Threaded s m where
  reserved : ∀ p, p ≤ s.maxPfn → p ∉ m.free → m.used p = none → (s.db p).flags = pageReserved

theorem pfn_of_ptr (s : State) (p : Nat) : pfnOf s (pagePtr s p) = p := by
  rw [pfnOf, pagePtr]
  omega

theorem deref_ptr (s : State) (p : Nat) : deref s (pagePtr s p) = s.db p := by
  rw [deref, pfn_of_ptr]

theorem ptr_ne_zero (s : State) (p : Nat) (base : s.memMap ≠ 0) : pagePtr s p ≠ 0 := by
  rw [pagePtr]
  omega

theorem set_page_db (s : State) (p q : Nat) (record : PageT) :
    (setPage s (pagePtr s p) record).db q = if q = p then record else s.db q := by
  simp only [setPage, pfn_of_ptr, update_apply]

theorem set_page_deref (s : State) (p q : Nat) (record : PageT) :
    deref (setPage s (pagePtr s p) record) (pagePtr s q) = if q = p then record else s.db q := by
  have same : pfnOf (setPage s (pagePtr s p) record) (pagePtr s q) = q := pfn_of_ptr s q
  rw [deref, same, set_page_db]

variable {s : State} {m : Machine} {p : Nat} {rest : List Nat}

theorem validate_rep (rep : Rep s m) (tracked : p ≤ s.maxPfn) :
    pageValidateUsed (pagePtr s p) (s.db p) = (Lyr.Mm.pageValidateUsed m p).map (fun _ => ()) := by
  rw [pageValidateUsed, if_neg (ptr_ne_zero s p rep.base), Lyr.Mm.pageValidateUsed]
  cases record : m.used p with
  | none =>
    have flags : (s.db p).flags = pageFree ∨ (s.db p).flags = pageReserved := by
      by_cases free : p ∈ m.free
      · exact .inl (rep.free p free).1
      · exact .inr (rep.reserved p tracked free record)
    rcases flags with flags | flags <;> rw [flags] <;> rfl
  | some use =>
    obtain ⟨flags, refcount, _⟩ := rep.used p use record
    obtain ⟨isUsed, notPoison⟩ := flag_word_used (decide (use.sharecount > 1)) use.cow
    rw [flags, usedFlags, if_neg (by simp [notPoison]), if_neg isUsed, refcount]
    by_cases zero : use.refcount = 0
    · simp [zero, Except.map]
    · simp [zero, Except.map]

-- The list keeps its shape, and the machine may say of the page what the record says.
theorem set_threaded {record : PageT} {used : Nat → Option Use} (rep : Threaded s m) (fresh : p ∉ m.free)
    (others : ∀ q, q ≠ p → used q = m.used q)
    (own : ∀ use, used p = some use → record.flags = usedFlags use ∧ record.refcount = use.refcount ∧ record.u2 = use.sharecount) :
    Threaded (setPage s (pagePtr s p) record) { m with used := used } := by
  have apart : ∀ q ∈ m.free, q ≠ p := by
    rintro q inside rfl
    exact fresh inside
  have kept : ∀ a ∈ m.free.map (pagePtr s), deref (setPage s (pagePtr s p) record) a = deref s a := by
    intro a inside
    obtain ⟨q, free, rfl⟩ := List.mem_map.mp inside
    rw [set_page_deref, if_neg (apart q free), deref_ptr]
  refine ⟨rep.base, rep.size, rep.mem, chain_congr _ (fun a inside => by rw [kept a inside]) rep.chain,
    back_chain_congr _ (fun a inside => by rw [kept a inside]) rep.back, rep.count, fun q inside => ?_, fun q use found => ?_⟩
  · rw [set_page_db, if_neg (apart q inside)]
    exact rep.free q inside
  rw [set_page_db]
  by_cases same : q = p
  · subst same
    rw [if_pos rfl]
    exact own use found
  · rw [if_neg same]
    exact rep.used q use ((others q same).symm.trans found)

theorem set_rep {use old : Use} {record : PageT} (rep : Rep s m) (listed : Listed m)
    (held : m.used p = some old) (flags : record.flags = usedFlags use) (refcount : record.refcount = use.refcount)
    (share : record.u2 = use.sharecount) : Rep (setPage s (pagePtr s p) record) (pageSet m p use) := by
  refine ⟨set_threaded rep.toThreaded (used_not_free listed held) (fun q different => update_of_ne different _ _)
    (fun found here => ?_), fun q inside notFree unused => ?_⟩
  · rw [update_self] at here
    cases here
    exact ⟨flags, refcount, share⟩
  rw [page_set_used] at unused
  rw [set_page_db]
  by_cases same : q = p
  · rw [if_pos same] at unused
    cases unused
  · rw [if_neg same] at unused ⊢
    exact rep.reserved q inside notFree unused

theorem free_head (rep : Rep s m) (list : m.free = p :: rest) :
    s.freelist = pagePtr s p ∧ (s.db p).u2 = 0 ∧ (s.db p).flags = pageFree ∧ (s.db p).refcount = 0 ∧
      Chain (fun page => (deref s page).next) (s.db p).next (rest.map (pagePtr s)) ∧
      BackChain (fun page => (deref s page).u2) (pagePtr s p) (rest.map (pagePtr s)) := by
  have chain := rep.chain
  have back := rep.back
  rw [list, List.map_cons] at chain back
  obtain ⟨flags, refcount⟩ := rep.free p (by simp [list])
  obtain ⟨here, _, tail⟩ := chain
  obtain ⟨first, backTail⟩ := back
  simp only [deref_ptr] at tail first
  exact ⟨here, first, flags, refcount, tail, backTail⟩

theorem link_back_db (s : State) (page : Nat) (rest : List Nat)
    (chain : Chain (fun page => (deref s page).next) s.freelist (rest.map (pagePtr s))) (q : Nat) :
    (linkBack s page).db q = if rest.head? = some q then { s.db q with u2 := page } else s.db q := by
  cases rest with
  | nil =>
    have empty : s.freelist = 0 := chain
    simp [linkBack, empty]
  | cons h t =>
    obtain ⟨here, nonzero, _⟩ := chain
    rw [linkBack, if_neg (by rw [here]; exact nonzero), here, set_page_db, deref_ptr]
    by_cases same : q = h
    · subst same
      simp
    · have different : h ≠ q := fun eq => same eq.symm
      simp [same, different]

theorem link_back_frame (s : State) (page : Nat) : (linkBack s page).memMap = s.memMap ∧
    (linkBack s page).maxPfn = s.maxPfn ∧ (linkBack s page).mem = s.mem ∧ (linkBack s page).freelist = s.freelist ∧
    (linkBack s page).freePages = s.freePages := by
  rw [linkBack]
  split <;> exact ⟨rfl, rfl, rfl, rfl, rfl⟩

theorem pop_state (rep : Rep s m) (list : m.free = p :: rest)
    (fresh : p ∉ rest) : ∃ t, pallocPage s = .ok (t, pagePtr s p) ∧ t.memMap = s.memMap ∧ t.maxPfn = s.maxPfn ∧
      t.mem = s.mem ∧ t.freelist = (s.db p).next ∧ t.freePages = s.freePages - 1 ∧
      ∀ q, t.db q = if q = p then ⟨0, 0, pageUsed, 1⟩ else if rest.head? = some q then { s.db q with u2 := 0 } else s.db q := by
  obtain ⟨here, first, flags, refcount, tail, _⟩ := free_head rep list
  have nonzero := ptr_ne_zero s p rep.base
  have valid : pageValidateFree (pagePtr s p) (s.db p) = .ok () := by
    rw [pageValidateFree, if_neg nonzero, flags, if_neg (by decide), if_neg (by decide), refcount, if_neg (by decide), first,
      if_neg (by decide)]
  let u : State := { s with freelist := (s.db p).next }
  have linked := link_back_db u 0 rest tail
  obtain ⟨sameBase, samePfn, sameMem, sameList, sameCount⟩ := link_back_frame u 0
  have headOff : ¬ rest.head? = some p := by
    intro isHead
    exact fresh (List.mem_of_mem_head? (by simp [isHead]))
  have ptr : pagePtr s p = pagePtr (linkBack u 0) p := by rw [pagePtr, pagePtr, sameBase]
  have record : deref (linkBack u 0) (pagePtr s p) = s.db p := by
    rw [ptr, deref_ptr, linked, if_neg headOff]
  let v : State := { setPage (linkBack u 0) (pagePtr s p) ⟨0, 0, pageUsed, 0⟩ with freePages := s.freePages - 1 }
  have popped : pmmPop s = .ok (v, pagePtr s p) := by
    simp only [pmmPop, here, if_neg nonzero, deref_ptr, valid, bind, Except.bind]
    change Except.ok ({ setPage (linkBack u 0) (pagePtr s p) _ with freePages := (linkBack u 0).freePages - 1 }, pagePtr s p) = _
    rw [record, sameCount, flags, refcount]
    rfl
  have own : deref v (pagePtr s p) = ⟨0, 0, pageUsed, 0⟩ := by
    show deref (setPage (linkBack u 0) (pagePtr s p) ⟨0, 0, pageUsed, 0⟩) (pagePtr s p) = _
    rw [ptr, set_page_deref, if_pos rfl]
  refine ⟨setPage v (pagePtr s p) ⟨0, 0, pageUsed, 1⟩, ?_, sameBase, samePfn, sameMem, sameList, rfl, fun q => ?_⟩
  · simp only [pallocPage, popped, bind, Except.bind, if_neg nonzero, own]
  have ptrV : pagePtr s p = pagePtr v p := ptr
  rw [ptrV, set_page_db]
  by_cases same : q = p
  · rw [if_pos same, if_pos same]
  rw [if_neg same, if_neg same]
  show (setPage (linkBack u 0) (pagePtr s p) _).db q = _
  rw [ptr, set_page_db, if_neg same, linked]

-- Only the back pointer of the head is written.
theorem relinked_list {t : State} {start before back : Nat} {list : List Nat} (base : t.memMap = s.memMap) (nodup : list.Nodup)
    (links : ∀ q ∈ list, t.db q = if list.head? = some q then { s.db q with u2 := back } else s.db q)
    (chain : Chain (fun page => (deref s page).next) start (list.map (pagePtr s)))
    (prev : BackChain (fun page => (deref s page).u2) before (list.map (pagePtr s))) :
    Chain (fun page => (deref t page).next) start (list.map (pagePtr t)) ∧
      BackChain (fun page => (deref t page).u2) back (list.map (pagePtr t)) ∧
      ∀ q ∈ list, (t.db q).flags = (s.db q).flags ∧ (t.db q).refcount = (s.db q).refcount := by
  have ptrs : pagePtr t = pagePtr s := funext fun q => by rw [pagePtr, pagePtr, base]
  have read : ∀ q, deref t (pagePtr s q) = t.db q := fun q => by rw [← ptrs, deref_ptr]
  have fields : ∀ q ∈ list, (t.db q).next = (s.db q).next ∧ (t.db q).flags = (s.db q).flags ∧
    (t.db q).refcount = (s.db q).refcount := by
    intro q inside
    rw [links q inside]
    split <;> exact ⟨rfl, rfl, rfl⟩
  rw [ptrs]
  refine ⟨chain_congr _ (fun a inside => ?_) chain, ?_, fun q inside => (fields q inside).2⟩
  · obtain ⟨q, member, rfl⟩ := List.mem_map.mp inside
    simp only [deref_ptr, read]
    exact (fields q member).1
  cases list with
  | nil => trivial
  | cons h tl =>
    refine ⟨by simp [read, links], back_chain_congr _ (fun a inside => ?_) prev.2⟩
    obtain ⟨q, member, rfl⟩ := List.mem_map.mp inside
    simp only [deref_ptr, read]
    rw [links q (List.mem_cons_of_mem h member), if_neg]
    rintro ⟨rfl⟩
    exact (List.nodup_cons.mp nodup).1 member

theorem palloc_rep (rep : Rep s m) (listed : Listed m) :
    match pallocPage s with
    | .error failure => Lyr.Mm.pallocPage m = .error failure
    | .ok (t, page) => ∃ n p, Lyr.Mm.pallocPage m = .ok (n, p) ∧ page = pagePtr s p ∧ Rep t n := by
  cases list : m.free with
  | nil =>
    have chain := rep.chain
    rw [list] at chain
    have empty : s.freelist = 0 := chain
    have popped : pmmPop s = .ok (s, 0) := by rw [pmmPop, if_pos empty]
    have failed : pallocPage s = .error .outOfMemory := by simp [pallocPage, popped, bind, Except.bind]
    rw [failed]
    simp [Lyr.Mm.pallocPage, list]
  | cons p rest =>
    have nodup := listed.nodup
    rw [list] at nodup
    obtain ⟨fresh, restNodup⟩ := List.nodup_cons.mp nodup
    obtain ⟨here, first, flags, refcount, tail, backTail⟩ := free_head rep list
    obtain ⟨t, done, base, size, mem, head, count, db⟩ := pop_state rep list fresh
    rw [done]
    refine ⟨{ m with free := rest, used := update m.used p (some ⟨1, 0, false⟩) }, p, by simp only [Lyr.Mm.pallocPage, list], rfl, ?_⟩
    have apart : ∀ q ∈ rest, q ≠ p := by
      rintro q inside rfl
      exact fresh inside
    obtain ⟨chain, back, fields⟩ := relinked_list base restNodup (fun q inside => by rw [db, if_neg (apart q inside)]) tail backTail
    refine ⟨⟨by rw [base]; exact rep.base, by rw [size]; exact rep.size, by rw [mem]; exact rep.mem, by rw [head]; exact chain, back,
      by rw [count, rep.count, list]; rfl, fun q inside => ?_, fun q use used => ?_⟩, fun q inside notFree unused => ?_⟩
    · rw [(fields q inside).1, (fields q inside).2]
      exact rep.free q (by simp [list, inside])
    · by_cases same : q = p
      · subst same
        simp only [update_self, Option.some.injEq] at used
        rw [db, if_pos rfl, ← used]
        exact ⟨by decide, rfl, rfl⟩
      simp only [update_of_ne same] at used
      have notFree := used_not_free listed used
      rw [list] at notFree
      rw [db, if_neg same, if_neg (fun isHead : rest.head? = some q => notFree
        (List.mem_cons_of_mem _ (List.mem_of_mem_head? isHead)))]
      exact rep.used q use used
    by_cases same : q = p
    · subst same
      simp at unused
    simp only [update_of_ne same] at unused
    have outside : q ∉ m.free := by
      rw [list]
      simp only [List.mem_cons, not_or]
      exact ⟨same, notFree⟩
    rw [db, if_neg same, if_neg (fun isHead : rest.head? = some q => notFree (List.mem_of_mem_head? isHead))]
    exact rep.reserved q (by rw [← size]; exact inside) outside unused

theorem drop_threaded (record : PageT) (rep : Threaded s m) (fresh : p ∉ m.free) :
    Threaded (setPage s (pagePtr s p) record) { m with used := update m.used p none } := by
  refine set_threaded rep fresh (fun q different => update_of_ne different _ _) (fun use found => ?_)
  rw [update_self] at found
  cases found

theorem insert_head_state (rep : Threaded s m) (fresh : p ∉ m.free) :
    (insertHead s (pagePtr s p)).memMap = s.memMap ∧ (insertHead s (pagePtr s p)).maxPfn = s.maxPfn ∧
      (insertHead s (pagePtr s p)).mem = s.mem ∧ (insertHead s (pagePtr s p)).freelist = pagePtr s p ∧
      (insertHead s (pagePtr s p)).freePages = s.freePages + 1 ∧
      ∀ q, (insertHead s (pagePtr s p)).db q =
        if q = p then { s.db p with flags := pageFree, next := s.freelist, u2 := 0 }
        else if m.free.head? = some q then { s.db q with u2 := pagePtr s p } else s.db q := by
  let u : State := setPage s (pagePtr s p) { s.db p with flags := pageFree, next := s.freelist, u2 := 0 }
  have shape : insertHead s (pagePtr s p) = { linkBack u (pagePtr s p) with
      freelist := pagePtr s p, freePages := (linkBack u (pagePtr s p)).freePages + 1 } := by
    simp only [insertHead, deref_ptr]
    rfl
  obtain ⟨sameBase, samePfn, sameMem, _, sameCount⟩ := link_back_frame u (pagePtr s p)
  have linked := link_back_db u (pagePtr s p) m.free (drop_threaded _ rep fresh).chain
  rw [shape]
  refine ⟨sameBase, samePfn, sameMem, rfl, congrArg (· + 1) sameCount, fun q => ?_⟩
  show (linkBack u (pagePtr s p)).db q = _
  rw [linked, set_page_db]
  by_cases same : q = p
  · subst same
    have notHead : ¬ m.free.head? = some q := fun isHead => fresh (List.mem_of_mem_head? (by simp [isHead]))
    simp [notHead]
  · simp [same]

theorem insert_head_threaded (rep : Threaded s m) (listed : Listed m) (fresh : p ∉ m.free)
    (refcount : (s.db p).refcount = 0) :
    Threaded (insertHead s (pagePtr s p)) { m with free := p :: m.free, used := update m.used p none } := by
  obtain ⟨base, size, mem, head, count, db⟩ := insert_head_state rep fresh
  have apart : ∀ q ∈ m.free, q ≠ p := by
    rintro q inside rfl
    exact fresh inside
  generalize insertHead s (pagePtr s p) = t at *
  have ptr : ∀ q, pagePtr t q = pagePtr s q := fun q => by rw [pagePtr, pagePtr, base]
  obtain ⟨chain, back, fields⟩ := relinked_list base listed.nodup (fun q inside => by rw
    [db, if_neg (apart q inside)]) rep.chain rep.back
  refine ⟨by rw [base]; exact rep.base, by rw [size]; exact rep.size, by rw [mem]; exact rep.mem, ?_, ?_, ?_,
    fun q inside => ?_, fun q use used => ?_⟩
  · refine ⟨by rw [head, ptr], by rw [ptr]; exact ptr_ne_zero s p rep.base, ?_⟩
    simp only [deref_ptr]
    rw [db, if_pos rfl]
    exact chain
  · exact ⟨by simp only [deref_ptr]; rw [db, if_pos rfl], by rw [ptr]; exact back⟩
  · rw [count, rep.count, List.length_cons]
  · rw [db]
    rcases List.mem_cons.mp inside with rfl | later
    · rw [if_pos rfl]
      exact ⟨rfl, refcount⟩
    rw [← db, (fields q later).1, (fields q later).2]
    exact rep.free q later
  by_cases same : q = p
  · subst same
    simp at used
  simp only [update_of_ne same] at used
  rw [db, if_neg same, if_neg (fun isHead : m.free.head? = some q => used_not_free listed used (List.mem_of_mem_head? isHead))]
  exact rep.used q use used

theorem insert_head_flags {q : Nat} (rep : Threaded s m) (fresh : p ∉ m.free) (different : q ≠ p) :
    ((insertHead s (pagePtr s p)).db q).flags = (s.db q).flags ∧ ((insertHead s (pagePtr s p)).db q).refcount = (s.db q).refcount :=
  by
  obtain ⟨_, _, _, _, _, db⟩ := insert_head_state rep fresh
  rw [db, if_neg different]
  split <;> exact ⟨rfl, rfl⟩

end Lyr.Mm.Pmm
