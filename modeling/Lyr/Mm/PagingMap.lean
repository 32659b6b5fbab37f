import Lyr.Mm.PagingEffect

set_option autoImplicit false

namespace Lyr.Mm

open Lyr.Lib Function

theorem link_leaf_value (phys flags : Nat) : linkOf (leafValue phys flags) = some (phys / 4096 % 2 ^ 40) := by
  rw [linkOf, if_pos (leaf_value_present phys flags), leaf_value_frame]

theorem table_above {x : Bytes} {root v : Nat} (mapped : leaf x root v ≠ none) {depth : Nat} (bound : depth ≤ 4) :
    table x root depth (v / 512 ^ (4 - depth)) ≠ none := by
  have step : ∀ d k, table x root d (k / 512) = none → table x root (d + 1) k = none := by
    intro d k absent
    simp only [table, absent]
  have whole : table x root 4 v ≠ none := by
    rw [table_four]
    simpa using mapped
  have up : ∀ gap, gap ≤ 4 → table x root (4 - gap) (v / 512 ^ gap) ≠ none := by
    intro gap
    induction gap with
    | zero => intro _; simpa using whole
    | succ gap ih =>
      intro room absent
      refine ih (by omega) ?_
      have above := step (4 - (gap + 1)) (v / 512 ^ gap) (by rwa [Nat.div_div_eq_div_mul, ← pow_succ])
      rwa [show 4 - (gap + 1) + 1 = 4 - gap by omega] at above
  have result := up (4 - depth) (by omega)
  rwa [show 4 - (4 - depth) = depth by omega] at result

theorem full_of_set {m n : Machine} {y : Bytes} {spaces : List Space} {sp : Space} {v value : Nat}
    (grow : Grow m n spaces sp v) (full : Full m.mem spaces) (member : sp ∈ spaces) (low : sp.lo ≤ v) (high : v < sp.hi)
    (walk : Relinked n.mem y spaces sp 4 v (some value)) : Full y spaces := by
  have mapped : leaf y sp.root v ≠ none := by
    intro absent
    have top := walk sp member 4 v (by omega) (covers_parent_covers (by omega) (covers_leaf sp v low high))
    rw [if_pos ⟨rfl, rfl, rfl⟩, table_leaf_none absent] at top
    cases top
  intro b other depth key t lowD limit covers found
  rw [relinked_node walk other limit covers, if_neg (by omega)] at found
  rcases grow.fresh b other depth key (by omega) (covers_parent_covers (by omega) covers)
    (by rw [found]; exact Option.some_ne_none _) with old | ⟨rfl, _, _, rfl⟩
  · obtain ⟨u, before⟩ := Option.ne_none_iff_exists'.mp old
    obtain ⟨i, index, child⟩ := full b other depth key u lowD limit covers before
    obtain ⟨c, below⟩ := Option.ne_none_iff_exists'.mp child
    have parent := child_parent_covers index covers
    refine ⟨i, index, ?_⟩
    rw [walk b other (depth + 1) _ (by omega) parent]
    split
    · exact Option.some_ne_none _
    · rw [grow.kept b other (depth + 1) _ c (by omega) parent below]
      exact Option.some_ne_none _
  refine ⟨v / 512 ^ (3 - depth) % 512, Nat.mod_lt _ (by omega), ?_⟩
  rw [← path_key v (by omega)]
  exact table_above mapped (by omega)

theorem set_entry_pool (m : Machine) (t : Nat) {i : Nat} (value : Nat) : SamePool m (setEntry m t i value) :=
  ⟨rfl, rfl, rfl, fun _ => Iff.rfl⟩

structure SameStore (m n : Machine) : Prop where
  mem : n.mem = m.mem
  free : n.free = m.free
  pool : SamePool m n
  used : ∀ p, n.used p ≠ none ↔ m.used p ≠ none
  cow : ∀ p, pageIsCow n p = pageIsCow m p

theorem same_store_refl (m : Machine) : SameStore m m := ⟨rfl, rfl, same_pool_refl m, fun _ => Iff.rfl, fun _ => rfl⟩

theorem page_set_store (m : Machine) (p : Nat) (use old : Use) (held : m.used p = some old) (same : use.cow = old.cow) :
    SameStore m (pageSet m p use) := by
  refine ⟨rfl, rfl, page_set_pool use held, fun q => ?_, fun q => page_set_cow q held same⟩
  rw [page_set_used]
  by_cases here : q = p
  · subst here
    simp [held]
  · simp [here]

theorem same_store_trans {a b c : Machine} (first : SameStore a b) (second : SameStore b c) : SameStore a c :=
  ⟨second.mem.trans first.mem, second.free.trans first.free, same_pool_trans first.pool second.pool,
    fun p => (second.used p).trans (first.used p), fun p => (second.cow p).trans (first.cow p)⟩

variable {m n : Machine} {spaces : List Space} {counted held shares : Nat → Nat} {flags page phys virt : Nat} {sp : Space}

theorem released_of_store (spaces : List Space) (store : SameStore m n) : Released m n spaces := by
  refine ⟨store.pool, fun p inside => .inl (store.free ▸ inside), fun p inside => store.free ▸ inside, fun p _ => ?_,
    fun p => (store.used p).mp, fun p _ => store.cow p⟩
  rw [store.mem]
  exact same_bytes_refl m.mem p

theorem share_ref_spec {mid : Machine} (counts : Counts m shares counted) (bound : shares page ≤ counted page)
    (shared : pageShare m page = .ok mid) (reffed : pageRef mid page = .ok n) :
    m.used page ≠ none ∧ (Shape m spaces → Shape n spaces) ∧
      SameStore m n ∧ Counts n (update shares page (shares page + 1)) (update counted page (counted page + 1)) := by
  obtain ⟨use, inUse, _, rfl⟩ := page_share_ok shared
  obtain ⟨_, _, limit, _⟩ := counts.used page use inUse
  have countsN := page_ref_counts (page_share_counts counts (by omega) shared) reffed
  have storeMid := page_set_store m page { use with sharecount := (use.sharecount + 1) % 2 ^ 64 } use inUse rfl
  obtain ⟨useMid, inUseMid, _, rfl⟩ := page_ref_ok reffed
  exact ⟨by rw [inUse]; exact Option.some_ne_none _, fun shape => page_set_shape _ inUseMid (page_set_shape _ inUse shape),
    same_store_trans storeMid (page_set_store _ page _ useMid inUseMid rfl), countsN⟩

theorem update_succ (counted : Nat → Nat) (page p : Nat) :
    update counted page (counted page + 1) p = counted p + one (some page = some p) := by
  by_cases same : p = page
  · subst same
    rw [update_self, one_pos rfl]
  · rw [update_of_ne same, one_neg (fun eq => same (Option.some.inj eq).symm), Nat.add_zero]

-- Counted by map_page_phys, or not in its care.
def Countable (m : Machine) (phys : Nat) : Prop := phys < 2 ^ 52 ∧ (m.maxPfn < phys / 4096 ∨ m.used (phys / 4096) ≠ none)

theorem align_down_frame (phys : Nat) : alignDown phys / 4096 = phys / 4096 := by
  rw [alignDown]
  omega

def Sets (m n : Machine) (spaces : List Space) (held : Nat → Nat) (sp : Space) (v : Nat) (value : Option Nat) : Prop :=
  Sound n spaces held ∧ Effect m n spaces ∧ (Full m.mem spaces → Full n.mem spaces) ∧
    (leaf m.mem sp.root v = none → ∀ p, m.used p ≠ none → n.used p ≠ none) ∧ LeafSet m.mem n.mem spaces sp v value

end Lyr.Mm
