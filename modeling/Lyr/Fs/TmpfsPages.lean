import Lyr.Fs.Tmpfs
import Lyr.Lib.Ends
import Lyr.Mm.FrameCounts

set_option autoImplicit false

namespace Lyr.Fs

open Lyr.Lib Lyr.Mm Function

theorem node_ok (s : Tmpfs) (id : Nat) (node : TmpfsNode) : s.node id = .ok node ↔ s.nodes id = some node := by
  rw [Tmpfs.node]
  cases s.nodes id <;> simp

theorem node_found {s : Tmpfs} {id : Nat} {node : TmpfsNode} (found : s.nodes id = some node) : s.node id = .ok node :=
  (node_ok s id node).mpr found

theorem array_ok (s : Tmpfs) (pages : Option Nat) (entries : PageArray) :
    s.array pages = .ok entries ↔ ∃ a, pages = some a ∧ s.arrays a = some entries := by
  rw [Tmpfs.array]
  cases pages with
  | none => simp
  | some a => cases found : s.arrays a <;> simp [found]

def Tmpfs.entries (s : Tmpfs) (pages : Option Nat) (i : Nat) : Option Nat := (pages.bind s.arrays).bind (fun entries => entries i)

def Tmpfs.pageAt (s : Tmpfs) (id i : Nat) : Option Nat := (s.nodes id).bind (fun node => s.entries node.pages i)

def Tmpfs.byteAt (s : Tmpfs) (id k : Nat) : UInt8 :=
  match s.pageAt id (k / 4096) with
  | none => 0
  | some page => s.machine.mem (4096 * page + k % 4096)

structure Tmpfs.Arrays (s : Tmpfs) : Prop where
  below : ∀ a, s.nextArray ≤ a → s.arrays a = none
  pointer : ∀ id node a, s.nodes id = some node → node.pages = some a → s.arrays a ≠ none
  sole : ∀ i node j other a, s.nodes i = some node → s.nodes j = some other → node.pages = some a → other.pages = some a → i = j
  claimed : ∀ a, s.arrays a ≠ none → ∃ id node, s.nodes id = some node ∧ node.pages = some a
  null : ∀ id node, s.nodes id = some node → node.pages = none → node.pageCap = 0
  capped : ∀ id node, s.nodes id = some node → node.pageCount ≤ node.pageCap

-- One place in one array for each page; pages in use outside tmpfs are left alone.
structure Tmpfs.Pages (outside : Nat → Prop) (s : Tmpfs) : Prop where
  listed : Listed s.machine
  counted : ∀ id node i p, s.nodes id = some node → s.pageAt id i = some p → i < node.pageCount
  held : ∀ id i p, s.pageAt id i = some p → s.machine.used p = some ⟨1, 0, false⟩
  once : ∀ id i other j p, s.pageAt id i = some p → s.pageAt other j = some p → id = other ∧ i = j
  accounted : ∀ p, s.machine.used p ≠ none → outside p ∨ ∃ id i, s.pageAt id i = some p
  apart : ∀ id i p, s.pageAt id i = some p → ¬ outside p
  foreign : ∀ p, outside p → s.machine.used p ≠ none

structure Tmpfs.Owned (outside : Nat → Prop) (s : Tmpfs) : Prop extends Tmpfs.Arrays s, Tmpfs.Pages outside s where
  nodesBelow : ∀ id, s.nextNode ≤ id → s.nodes id = none

theorem page_at_node {s : Tmpfs} {id : Nat} (i : Nat) {node : TmpfsNode} (found : s.nodes id = some node) :
    s.pageAt id i = s.entries node.pages i := by
  rw [Tmpfs.pageAt, found, Option.bind_some]

variable {s : Tmpfs} {id : Nat} {node : TmpfsNode} {outside : Nat → Prop} {count : Nat} {changed : TmpfsNode}

theorem page_at_some {i p : Nat} (here : s.pageAt id i = some p) :
    ∃ node a entries, s.nodes id = some node ∧ node.pages = some a ∧ s.arrays a = some entries ∧ entries i = some p := by
  obtain ⟨node, found, here⟩ := Option.bind_eq_some_iff.mp here
  obtain ⟨entries, stored, here⟩ := Option.bind_eq_some_iff.mp here
  obtain ⟨a, pointer, stored⟩ := Option.bind_eq_some_iff.mp stored
  exact ⟨node, a, entries, found, pointer, stored, here⟩

theorem bare_owned (empty : ∀ a, s.arrays a = none)
    (bare : ∀ id node, s.nodes id = some node → node.pages = none ∧ node.pageCap = 0 ∧ node.pageCount = 0) (listed : Listed s.machine)
    (used : ∀ p, s.machine.used p ≠ none ↔ outside p) (below : ∀ id, s.nextNode ≤ id → s.nodes id = none) : s.Owned outside := by
  have pages : ∀ id i p, s.pageAt id i ≠ some p := by
    intro id i p here
    obtain ⟨_, a, _, _, _, stored, _⟩ := page_at_some here
    cases (empty a).symm.trans stored
  refine ⟨⟨fun a _ => empty a, fun id n a found stored => ?_, fun i n j other a found _ stored _ => ?_,
    fun a stored => absurd (empty a) stored,
    fun id n found _ => (bare id n found).2.1, fun id n found => ?_⟩, ⟨listed, fun id _ i p _ here => absurd here (pages id i p),
    fun id i p here => absurd here (pages id i p), fun id i _ _ p here => absurd here (pages id i p), fun p inUse =>
      .inl ((used p).mp inUse),
    fun id i p here => absurd here (pages id i p), fun p => (used p).mpr⟩, below⟩
  · cases (bare id n found).1.symm.trans stored
  · cases (bare i n found).1.symm.trans stored
  · rw [(bare id n found).2.2]
    exact Nat.zero_le _

-- Everything but its pages, its counts and the array.
structure SameNode (before after : TmpfsNode) : Prop where
  mode : after.mode = before.mode
  size : after.size = before.size
  nlink : after.nlink = before.nlink
  refs : after.refs = before.refs
  parent : after.parent = before.parent
  children : after.children = before.children
  name : after.name = before.name

theorem same_node_refl (node : TmpfsNode) : SameNode node node := ⟨rfl, rfl, rfl, rfl, rfl, rfl, rfl⟩

theorem same_node_trans {a b c : TmpfsNode} (first : SameNode a b) (second : SameNode b c) : SameNode a c :=
  ⟨second.mode.trans first.mode, second.size.trans first.size, second.nlink.trans first.nlink, second.refs.trans first.refs,
    second.parent.trans first.parent, second.children.trans first.children, second.name.trans first.name⟩

structure SameTree (before after : Tmpfs) (id : Nat) : Prop where
  others : ∀ j, j ≠ id → after.nodes j = before.nodes j
  node : ∀ node, before.nodes id = some node → ∃ changed, after.nodes id = some changed ∧ SameNode node changed
  nextNode : after.nextNode = before.nextNode

theorem same_tree_refl (s : Tmpfs) (id : Nat) : SameTree s s id :=
  ⟨fun _ _ => rfl, fun node found => ⟨node, found, same_node_refl node⟩, rfl⟩

theorem same_tree_trans {a b c : Tmpfs} (first : SameTree a b id) (second : SameTree b c id) : SameTree a c id := by
  refine ⟨fun j other => (second.others j other).trans (first.others j other), fun node found => ?_,
    second.nextNode.trans first.nextNode⟩
  obtain ⟨middle, stored, same⟩ := first.node node found
  obtain ⟨last, present, later⟩ := second.node middle stored
  exact ⟨last, present, same_node_trans same later⟩

theorem double_until_reaches {fuel : Nat} (cap : Nat) (enough : count ≤ cap * 2 ^ fuel) : count ≤ doubleUntil count fuel cap := by
  induction fuel generalizing cap with
  | zero => simpa [doubleUntil] using enough
  | succ fuel ih =>
    rw [doubleUntil]
    split
    · exact ih (cap * 2) (by rw [Nat.mul_assoc, ← Nat.pow_succ']; exact enough)
    · omega

section SetArray

variable (s : Tmpfs) (arrays : s.Arrays) (id : Nat) (node : TmpfsNode) (a : Nat) (found : s.nodes id = some node)
    (pointer : node.pages = some a)
include arrays found pointer

theorem set_array_page_at (entries : PageArray) (j i : Nat) :
    (s.setArray a entries).pageAt j i = if j = id then entries i else s.pageAt j i := by
  by_cases same : j = id
  · subst same
    rw [if_pos rfl, Tmpfs.pageAt]
    simp [Tmpfs.setArray, found, Tmpfs.entries, pointer]
  rw [if_neg same]
  simp only [Tmpfs.pageAt, Tmpfs.setArray, Tmpfs.entries]
  cases there : s.nodes j with
  | none => rfl
  | some other =>
    simp only [Option.bind_some]
    cases stored : other.pages with
    | none => rfl
    | some b =>
      have differs : b ≠ a := by
        intro eq
        subst eq
        exact same (arrays.sole j other id node b there found stored pointer)
      simp [update_of_ne differs]

theorem set_array_arrays {entries : PageArray} : (s.setArray a entries).Arrays := by
  have keeps : ∀ b, (s.setArray a entries).arrays b = none ↔ s.arrays b = none := by
    intro b
    by_cases same : b = a
    · subst same
      simp [Tmpfs.setArray, arrays.pointer id node b found pointer]
    · simp [Tmpfs.setArray, update_of_ne same]
  refine ⟨fun b below => (keeps b).mpr (arrays.below b below), fun j other b there stored => ?_, arrays.sole, fun b present => ?_,
    arrays.null, arrays.capped⟩
  · exact fun gone => arrays.pointer j other b there stored ((keeps b).mp gone)
  · exact arrays.claimed b (fun gone => present ((keeps b).mpr gone))

end SetArray

theorem set_node_page_at (s : Tmpfs) (id : Nat) (node changed : TmpfsNode) (found : s.nodes id = some node)
    (pages : changed.pages = node.pages) (j i : Nat) : (s.setNode id changed).pageAt j i = s.pageAt j i := by
  by_cases same : j = id
  · subst same
    rw [page_at_node i found, @page_at_node (s.setNode j changed) j i changed (by simp [Tmpfs.setNode]), pages]
    rfl
  · simp [Tmpfs.pageAt, Tmpfs.setNode, update_of_ne same, Tmpfs.entries]

-- The arrays of the others stay, its own is its old one or a new one.
theorem arrays_change {after : Tmpfs} (arrays : s.Arrays) (found : s.nodes id = some node)
    (others : ∀ j, j ≠ id → after.nodes j = s.nodes j)
    (kept : ∀ a, node.pages ≠ some a → s.arrays a ≠ none → after.arrays a = s.arrays a)
    (below : ∀ a, after.nextArray ≤ a → after.arrays a = none)
    (mine : ∀ changed, after.nodes id = some changed → (∀ a, changed.pages = some a → after.arrays a ≠ none ∧
      (node.pages = some a ∨ s.arrays a = none)) ∧
      (changed.pages = none → changed.pageCap = 0) ∧ changed.pageCount ≤ changed.pageCap)
    (claimed : ∀ a, after.arrays a ≠ none → (node.pages ≠ some a ∧ s.arrays a ≠ none) ∨ ∃ changed,
      after.nodes id = some changed ∧ changed.pages = some a) :
    after.Arrays := by
  have back : ∀ j other, j ≠ id → after.nodes j = some other → s.nodes j = some other := fun j other differs there =>
    (others j differs).symm.trans there
  have foreign : ∀ j other a, j ≠ id → s.nodes j = some other → other.pages = some a → node.pages ≠ some a :=
    fun j other a differs there stored own => differs (arrays.sole j other id node a there found stored own)
  have apart : ∀ j other a changed, j ≠ id → after.nodes j = some other → other.pages = some a → after.nodes id = some changed →
    changed.pages ≠ some a := by
    intro j other a changed differs there stored here own
    have known := back j other differs there
    rcases ((mine changed here).1 a own).2 with old | new
    · exact foreign j other a differs known stored old
    · exact arrays.pointer j other a known stored new
  refine ⟨below, fun j other a there stored => ?_, fun j one k two a first second p q => ?_, fun a present => ?_,
    fun j other there none => ?_, fun j other there => ?_⟩
  · by_cases same : j = id
    · subst same
      exact ((mine other there).1 a stored).1
    have known := back j other same there
    have present := arrays.pointer j other a known stored
    rwa [kept a (foreign j other a same known stored) present]
  · by_cases left : j = id
    · subst left
      by_contra differs
      exact apart k two a one (Ne.symm differs) second q first p
    by_cases right : k = id
    · subst right
      exact absurd q (apart j one a two left first p second)
    · exact arrays.sole j one k two a (back j one left first) (back k two right second) p q
  · rcases claimed a present with ⟨notMine, before⟩ | ⟨changed, here, stored⟩
    · obtain ⟨j, other, known, stored⟩ := arrays.claimed a before
      have differs : j ≠ id := by
        rintro rfl
        cases found.symm.trans known
        exact notMine stored
      exact ⟨j, other, (others j differs).trans known, stored⟩
    · exact ⟨id, changed, here, stored⟩
  · by_cases same : j = id
    · subst same
      exact (mine other there).2.1 none
    · exact arrays.null j other (back j other same there) none
  by_cases same : j = id
  · subst same
    exact (mine other there).2.2
  · exact arrays.capped j other (back j other same there)

theorem set_node_arrays (arrays : s.Arrays) (found : s.nodes id = some node)
    (pages : changed.pages = node.pages) (cap : changed.pageCap = node.pageCap) (count : changed.pageCount ≤ changed.pageCap) :
    (s.setNode id changed).Arrays := by
  refine arrays_change arrays found (fun j differs => update_of_ne differs _ _) (fun _ _ _ => rfl) arrays.below
    (fun other there => ?_) (fun a present => ?_)
  · simp only [Tmpfs.setNode, update_self, Option.some.injEq] at there
    subst there
    exact ⟨fun a stored => ⟨arrays.pointer id node a found (pages ▸ stored), .inl (pages ▸ stored)⟩,
      fun none => cap.trans (arrays.null id node found (pages ▸ none)), count⟩
  by_cases own : node.pages = some a
  · exact .inr ⟨changed, update_self .., pages.trans own⟩
  · exact .inl ⟨own, present⟩

theorem pages_congr {before after : Tmpfs} (pages : before.Pages outside) (listed : Listed after.machine)
    (used : after.machine.used = before.machine.used) (same : ∀ id i, after.pageAt id i = before.pageAt id i)
    (counted : ∀ id node i p, after.nodes id = some node → before.pageAt id i = some p → i < node.pageCount) :
    after.Pages outside := by
  refine ⟨listed, fun id node i p found here => counted id node i p found (same id i ▸ here), fun id i p here => ?_,
    fun id i other j p first second => pages.once id i other j p (same id i ▸ first) (same other j ▸ second), fun p inUse => ?_,
    fun id i p here => pages.apart id i p (same id i ▸ here), fun p other => by rw [used]; exact pages.foreign p other⟩
  · rw [used]
    exact pages.held id i p (same id i ▸ here)
  · rw [used] at inUse
    simpa only [same] using pages.accounted p inUse

theorem set_node_owned (owned : s.Owned outside) (found : s.nodes id = some node) (pages : changed.pages = node.pages)
    (cap : changed.pageCap = node.pageCap)
    (counted : ∀ i p, s.pageAt id i = some p → i < changed.pageCount) (count : changed.pageCount ≤ changed.pageCap) :
    (s.setNode id changed).Owned outside := by
  refine ⟨set_node_arrays owned.toArrays found pages cap count,
    pages_congr owned.toPages owned.listed rfl (set_node_page_at s id node changed found pages) ?_, fun j below => ?_⟩
  · intro j other i p there here
    by_cases same : j = id
    · subst same
      simp only [Tmpfs.setNode, update_self, Option.some.injEq] at there
      subst there
      exact counted i p here
    · exact owned.counted j other i p (by simpa [Tmpfs.setNode, update_of_ne same] using there) here
  have unused := owned.nodesBelow j below
  have other : j ≠ id := by
    intro eq
    rw [eq, found] at unused
    cases unused
  simpa [Tmpfs.setNode, update_of_ne other] using unused

def dropArray (arrays : Nat → Option PageArray) : Option Nat → Nat → Option PageArray
  | none => arrays
  | some a => update arrays a none

section Drop

variable {arrays : Nat → Option PageArray} {pages : Option Nat} {a : Nat}

theorem drop_array_other (other : pages ≠ some a) : dropArray arrays pages a = arrays a := by
  cases pages with
  | none => rfl
  | some b => exact update_of_ne (fun same : a = b => other (same ▸ rfl)) _ _

theorem drop_array_gone (gone : pages = some a ∨ arrays a = none) : dropArray arrays pages a = none := by
  by_cases own : pages = some a
  · rw [own]
    exact update_self ..
  · rw [drop_array_other own]
    exact gone.resolve_left own

end Drop

theorem double_until_grows (count fuel cap : Nat) : cap ≤ doubleUntil count fuel cap := by
  induction fuel generalizing cap with
  | zero => exact Nat.le_refl cap
  | succ fuel ih =>
    rw [doubleUntil]
    split
    · exact Nat.le_trans (by omega) (ih (cap * 2))
    · exact Nat.le_refl cap

theorem grown_cap_le (node : TmpfsNode) (count : Nat) : node.pageCap ≤ grownCap node count := by
  refine Nat.le_trans ?_ (double_until_grows count 64 _)
  split <;> omega

theorem grown_cap_twice {node : TmpfsNode} {count : Nat} (grows : ¬count ≤ node.pageCap) :
    2 * node.pageCap ≤ grownCap node count := by
  by_cases none : node.pageCap = 0
  · omega
  · rw [grownCap, if_neg none, doubleUntil, if_pos (by omega), Nat.mul_comm]
    exact double_until_grows count 63 _

theorem grown_cap_some (node : TmpfsNode) (count : Nat) : 4 ≤ grownCap node count := by
  refine Nat.le_trans ?_ (double_until_grows count 64 _)
  obtain none | ⟨k, some⟩ := node.doubled
  · rw [if_pos none]
  · have := Nat.two_pow_pos k
    split <;> omega

section Regrow

variable {outside : Nat → Prop} {s : Tmpfs} (owned : s.Owned outside) {id : Nat} {node : TmpfsNode} (found : s.nodes id = some node)
    {count : Nat}

variable (s id node count) in
def regrown : Tmpfs := { s with
    arrays := update (dropArray s.arrays node.pages) s.nextArray (some
      (fun i => if i < node.pageCap then s.entries node.pages i else none))
    nextArray := s.nextArray + 1
    nodes := update s.nodes id (some { node with
      pages := some s.nextArray, pageCap := grownCap node count, doubled := grown_cap_doubled node count }) }

theorem regrown_array {a : Nat} (old : a ≠ s.nextArray) : (regrown s id node count).arrays a = dropArray s.arrays node.pages a := by
  simp [regrown, update_of_ne old]

include owned found

theorem regrown_other {j b : Nat} {other : TmpfsNode} (differs : j ≠ id) (there : s.nodes j = some other)
    (stored : other.pages = some b) :
    (regrown s id node count).arrays b = s.arrays b := by
  have present := owned.pointer j other b there stored
  rw [regrown_array (fun new => present (owned.below b (by omega)))]
  exact drop_array_other (fun mine => differs (owned.sole j other id node b there found stored mine))

theorem regrown_page_at (j i : Nat) : (regrown s id node count).pageAt j i = s.pageAt j i := by
  by_cases same : j = id
  · subst same
    rw [page_at_node i found]
    have mine : (regrown s j node count).pageAt j i = if i < node.pageCap then s.entries node.pages i else none := by
      simp [Tmpfs.pageAt, regrown, Tmpfs.entries]
    rw [mine]
    split
    · rfl
    cases here : s.entries node.pages i with
    | none => rfl
    | some p =>
      have small := owned.counted j node i p found (by rw [page_at_node i found, here])
      have fits := owned.capped j node found
      omega
  have kept : (regrown s id node count).nodes j = s.nodes j := by simp [regrown, update_of_ne same]
  rw [Tmpfs.pageAt, Tmpfs.pageAt, kept]
  cases there : s.nodes j with
  | none => rfl
  | some other =>
    simp only [Option.bind_some, Tmpfs.entries]
    cases stored : other.pages with
    | none => rfl
    | some b => simp only [Option.bind_some, regrown_other owned found same there stored]

theorem regrown_arrays : (regrown s id node count).Arrays := by
  have fresh : s.arrays s.nextArray = none := owned.below _ (Nat.le_refl _)
  refine arrays_change owned.toArrays found (fun j differs => update_of_ne differs _ _) (fun a notMine present => ?_)
    (fun a below => ?_)
    (fun other there => ?_) (fun a present => ?_)
  · rw [regrown_array (fun new : a = s.nextArray => present (new ▸ fresh)), drop_array_other notMine]
  · have above : s.nextArray + 1 ≤ a := below
    rw [regrown_array (by omega)]
    exact drop_array_gone (.inr (owned.below a (by omega)))
  · simp only [regrown, update_self, Option.some.injEq] at there
    subst there
    refine ⟨fun a stored => ?_, nofun, (owned.capped _ node found).trans (grown_cap_le node count)⟩
    cases stored
    exact ⟨by simp [regrown], .inr fresh⟩
  by_cases new : a = s.nextArray
  · exact .inr ⟨_, update_self .., congrArg some new.symm⟩
  · rw [regrown_array new] at present
    exact .inl ⟨fun mine => present (drop_array_gone (.inl mine)), fun gone => present (drop_array_gone (.inr gone))⟩

theorem regrown_owned : (regrown s id node count).Owned outside := by
  refine ⟨regrown_arrays owned found,
    pages_congr owned.toPages owned.listed rfl (regrown_page_at owned found) ?_, fun j below => ?_⟩
  · intro j other i p there here
    by_cases same : j = id
    · subst same
      simp only [regrown, update_self, Option.some.injEq] at there
      subst there
      exact owned.counted j node i p found here
    · exact owned.counted j other i p (by simpa [regrown, update_of_ne same] using there) here
  have unused := owned.nodesBelow j below
  have other : j ≠ id := by
    intro eq
    rw [eq, found] at unused
    cases unused
  simpa [regrown, update_of_ne other] using unused

end Regrow

theorem cache_idx_holds {size i : Nat} (same : cacheIdx size = i) (cache : i < NUM_CACHES) : size ≤ 8 * 2 ^ i := by
  rw [cacheIdx] at same
  cases found : (List.range NUM_CACHES).find? (fun i => size ≤ 8 * 2 ^ i) with
  | none =>
    rw [found] at same
    exact absurd same.symm (Nat.ne_of_lt cache)
  | some j =>
    rw [found] at same
    cases same
    simpa using List.find?_some found

-- Up to limit entries an array gets a new block.
structure Moves (inPlace : InPlace) (limit : Nat) : Prop where
  bound : limit ≤ 2 ^ 51
  apart : ∀ cap new, PageCap cap → cap < limit → 2 * cap ≤ new → 4 ≤ new → inPlace (8 * cap) (8 * new) = false

theorem contract_moves : Moves contractInPlace (2 ^ 51) := ⟨Nat.le_refl _, fun _ _ _ _ _ _ => rfl⟩

-- The array of 512 entries is the first one above the caches.
theorem heap_moves : Moves heapInPlace 512 := by
  refine ⟨by decide, fun cap new doubled below twice more => decide_eq_false (fun same => ?_)⟩
  obtain rfl | ⟨k, rfl⟩ := doubled
  · have := cache_idx_holds (i := 0) same (by decide)
    omega
  · have few : k < 7 := (Nat.pow_lt_pow_iff_right (by decide : 1 < 2)).mp (by omega)
    have own : cacheIdx (8 * (4 * 2 ^ k)) = k + 2 := by interval_cases k <;> rfl
    have := cache_idx_holds (same.trans own) (by rw [NUM_CACHES]; omega)
    rw [Nat.pow_add] at this
    have := Nat.two_pow_pos k
    omega

theorem krealloc_pages_eq {inPlace : InPlace} {newCap : Nat} (moves : inPlace (8 * node.pageCap) (8 * newCap) = false)
    (owned : s.Owned outside)
    (found : s.nodes id = some node) : kreallocPages s inPlace node.pages node.pageCap newCap = .ok ({ s with
      arrays :=
        update (dropArray s.arrays node.pages) s.nextArray (some (fun i => if i < node.pageCap then s.entries node.pages i else none))
      nextArray := s.nextArray + 1 }, s.nextArray) := by
  cases mine : node.pages with
  | none => simp [kreallocPages, Tmpfs.setArray, dropArray, Tmpfs.entries]
  | some a =>
    obtain ⟨old, stored⟩ := Option.ne_none_iff_exists'.mp (owned.pointer id node a found mine)
    have read : s.array (some a) = .ok old := (array_ok s (some a) old).mpr ⟨a, rfl, stored⟩
    have freed : s.kfree (some a) = .ok { s with arrays := dropArray s.arrays (some a) } := by simp [Tmpfs.kfree, stored, dropArray]
    rw [kreallocPages, if_neg (by simp [moves]), read]
    simp only [bind, Except.bind, freed, Tmpfs.setArray, Tmpfs.entries, Option.bind_some, stored]

-- No page moves.
structure Regrown (outside : Nat → Prop) (s after : Tmpfs) (id count : Nat) : Prop where
  owned : after.Owned outside
  tree : SameTree s after id
  machine : after.machine = s.machine
  pages : ∀ j i, after.pageAt j i = s.pageAt j i
  room : ∀ node, after.nodes id = some node → count ≤ node.pageCap

theorem ensure_pages_op {inPlace : InPlace} {limit : Nat} (moves : Moves inPlace limit) (owned : s.Owned outside)
    (found : s.nodes id = some node) (within : count ≤ limit) :
    ∃ after, ensurePages s inPlace id count = .ok after ∧ Regrown outside s after id count := by
  by_cases fits : count ≤ node.pageCap
  · refine ⟨s, ?_, owned, same_tree_refl s id, rfl, fun _ _ => rfl, fun other there => ?_⟩
    · rw [ensurePages, node_found found]
      exact if_pos fits
    · rw [found, Option.some.injEq] at there
      exact there ▸ fits
  have moved := moves.apart node.pageCap _ node.doubled (by omega) (grown_cap_twice fits) (grown_cap_some node count)
  refine ⟨regrown s id node count, ?_, regrown_owned owned found, ⟨fun j other => ?_, fun known same => ?_, rfl⟩, rfl,
    regrown_page_at owned found, fun other there => ?_⟩
  · rw [ensurePages, node_found found]
    simp only [bind, Except.bind, if_neg fits, krealloc_pages_eq moved owned found]
    rfl
  · simp [regrown, update_of_ne other]
  · cases found.symm.trans same
    exact ⟨_, update_self .., ⟨rfl, rfl, rfl, rfl, rfl, rfl, rfl⟩⟩
  simp only [regrown, update_self, Option.some.injEq] at there
  subst there
  have bound := moves.bound
  refine double_until_reaches _ ?_
  split <;> omega

end Lyr.Fs
