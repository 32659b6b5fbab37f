import Lyr.Fs.TmpfsEntries
import Lyr.Lib.ByteFile

set_option autoImplicit false

namespace Lyr.Fs

open Lyr.Lib Lyr.Mm Function

structure Filled (outside : Nat → Prop) (s after : Tmpfs) (id index page : Nat) : Prop where
  owned : after.Owned outside
  tree : SameTree s after id
  here : after.pageAt id index = some page
  bytes : ∀ j k, after.byteAt j k = s.byteAt j k

section Fill

variable {outside : Nat → Prop} {s : Tmpfs} (owned : s.Owned outside) {id : Nat} {node : TmpfsNode} (found : s.nodes id = some node)
    {index : Nat}
include owned found

theorem fill_entry_op (room : index < node.pageCount) :
    Ends (fillEntry s node.pages index) (fun result => Filled outside s result.1 id index result.2 ∧ result.1.nodes = s.nodes)
      (fun failure => failure = .outOfMemory) := by
  obtain ⟨a, pointer⟩ : ∃ a, node.pages = some a := by
    cases pages : node.pages with
    | some a => exact ⟨a, rfl⟩
    | none =>
      have cap := owned.null id node found pages
      have fits := owned.capped id node found
      omega
  obtain ⟨entries, stored⟩ := Option.ne_none_iff_exists'.mp (owned.pointer id node a found pointer)
  have mine : s.pageAt id index = entries index := by
    rw [page_at_node index found, Tmpfs.entries, pointer, Option.bind_some, stored, Option.bind_some]
  rw [fillEntry, (array_ok s node.pages entries).mpr ⟨a, pointer, stored⟩]
  dsimp only [bind, Except.bind]
  cases here : entries index with
  | some page => exact ⟨⟨owned, same_tree_refl s id, mine.trans here, fun _ _ => rfl⟩, rfl⟩
  | none =>
    refine ends_bind (ends_of (fun _ done => done) ?_) ?_
    · intro failure failed
      cases list : s.machine.free with
      | nil => simpa [pallocPage, list, eq_comm] using failed
      | cons p rest => simp [pallocPage, list] at failed
    rintro ⟨machine, page⟩ allocated
    obtain ⟨listed, _, _, _, fresh⟩ := palloc_page_listed allocated owned.listed
    obtain ⟨rest, _, rfl⟩ := palloc_page_ok allocated
    simp only [pointer, Option.getD_some]
    have placed := place_owned outside owned id node found pointer entries stored index
      { s.machine with free := rest, used := update s.machine.used page (some ⟨1, 0, false⟩), mem := scrub s.machine.mem page }
      ⟨listed.nodup, listed.tracked, listed.unused, listed.usedTracked⟩ fresh rfl room (mine.trans here)
    have at_ := with_entry_page_at owned found pointer stored index
      { s.machine with free := rest, used := update s.machine.used page (some ⟨1, 0, false⟩), mem := scrub s.machine.mem page }
      (some page)
    refine ⟨⟨placed, ⟨fun _ _ => rfl, fun old known => ⟨old, known, same_node_refl old⟩, rfl⟩, ?_, fun j k => ?_⟩, rfl⟩
    · exact (at_ id index).trans (if_pos ⟨rfl, rfl⟩)
    by_cases target : j = id ∧ k / 4096 = index
    · obtain ⟨rfl, rfl⟩ := target
      rw [byte_at_hole (mine.trans here)]
      refine (byte_at_page ((at_ j (k / 4096)).trans (if_pos ⟨rfl, rfl⟩))).trans ?_
      exact fill_inside _ 0 (by omega) (by omega)
    refine byte_at_congr ((at_ j (k / 4096)).trans (if_neg target)) (fun p there => ?_)
    have differs : p ≠ page := by
      intro eq
      rw [eq] at there
      rw [owned.held j _ page there] at fresh
      cases fresh
    exact fill_outside _ 0 (by omega)

end Fill

theorem fill_entry_set_node (s : Tmpfs) (id index : Nat) (node : TmpfsNode) (pages : Option Nat) :
    fillEntry (s.setNode id node) pages index = (fillEntry s pages index).map (fun result => (result.1.setNode id node, result.2)) :=
  by
  have same : (s.setNode id node).array pages = s.array pages := rfl
  rw [fillEntry, fillEntry, same]
  cases s.array pages with
  | error failure => rfl
  | ok entries =>
    simp only [bind, Except.bind]
    cases entries index with
    | some page => rfl
    | none =>
      have machine : (s.setNode id node).machine = s.machine := rfl
      simp only [machine]
      cases pallocPage s.machine with
      | error failure => rfl
      | ok result => rfl

theorem ensure_page_op {inPlace : InPlace} {limit : Nat} (moves : Moves inPlace limit) (outside : Nat → Prop) (s : Tmpfs)
    (owned : s.Owned outside) (id index : Nat) (node : TmpfsNode) (found : s.nodes id = some node) (within : index < limit) :
    Ends (ensurePage s inPlace id index) (fun result => Filled outside s result.1 id index result.2)
      (fun failure => failure = .outOfMemory) := by
  obtain ⟨grown, done, regrown⟩ := ensure_pages_op moves owned found within
  obtain ⟨moved, stored, same⟩ := regrown.tree.node node found
  have room := regrown.room moved stored
  -- The count is raised first, so that the new entry is within it.
  have counted : (grown.setNode id { moved with pageCount := max moved.pageCount (index + 1) }).Owned outside := by
    refine set_node_owned regrown.owned stored rfl rfl (fun i p here => ?_) ?_
    · exact Nat.lt_of_lt_of_le (regrown.owned.counted id moved i p stored here) (Nat.le_max_left _ _)
    · exact Nat.max_le.mpr ⟨regrown.owned.capped id moved stored, room⟩
  have filled := fill_entry_op counted (update_self ..) (Nat.lt_of_lt_of_le (Nat.lt_succ_self index) (Nat.le_max_right _ _))
  have whole : ensurePage s inPlace id index =
      fillEntry (grown.setNode id { moved with pageCount := max moved.pageCount (index + 1) }) moved.pages index := by
    rw [fill_entry_set_node, ensurePage, done]
    simp only [bind, Except.bind, node_found stored]
    cases fillEntry grown moved.pages index <;> rfl
  rw [whole]
  refine ends_imp filled (fun result fine => ⟨fine.1.owned, ?_, fine.1.here, fun j k => ?_⟩)
  · have raised := set_node_tree grown id moved { moved with pageCount := max moved.pageCount (index + 1) } stored
      ⟨rfl, rfl, rfl, rfl, rfl, rfl, rfl⟩
    exact same_tree_trans regrown.tree (same_tree_trans raised fine.1.tree)
  rw [fine.1.bytes j k]
  refine byte_at_congr ?_ (fun p _ => ?_)
  · rw [set_node_page_at grown id moved { moved with pageCount := max moved.pageCount (index + 1) } stored rfl, regrown.pages]
  · show grown.machine.mem _ = _
    rw [regrown.machine]

structure Emptied (outside : Nat → Prop) (s after : Tmpfs) (id first last : Nat) : Prop where
  owned : after.Owned outside
  nodes : after.nodes = s.nodes
  nextNode : after.nextNode = s.nextNode
  pages : ∀ j i, after.pageAt j i = if j = id ∧ first ≤ i ∧ i < last then none else s.pageAt j i
  bytes : ∀ j k, after.byteAt j k = if j = id ∧ first ≤ k / 4096 ∧ k / 4096 < last then 0 else s.byteAt j k

variable {outside : Nat → Prop} {s : Tmpfs} {id : Nat} {node : TmpfsNode} {f : ByteFile} {a : Nat}

section

variable (owned : s.Owned outside)
include owned

theorem emptied_refl (id first : Nat) : Emptied outside s s id first first :=
  ⟨owned, rfl, rfl, fun j i => by rw [if_neg (by omega)], fun j k => by rw [if_neg (by omega)]⟩

section

variable (found : s.nodes id = some node)
include found

theorem free_entry_op (index : Nat) (pointer : node.pages = some a) :
    ∃ after, freeEntry s a index = .ok after ∧ Emptied outside s after id index (index + 1) := by
  obtain ⟨entries, stored⟩ := Option.ne_none_iff_exists'.mp (owned.pointer id node a found pointer)
  have mine : s.pageAt id index = entries index := by
    rw [page_at_node index found, Tmpfs.entries, pointer, Option.bind_some, stored, Option.bind_some]
  have exactly : ∀ i, index ≤ i ∧ i < index + 1 ↔ i = index := by
    intro i
    omega
  rw [freeEntry, (array_ok s (some a) entries).mpr ⟨a, rfl, stored⟩]
  simp only [bind, Except.bind]
  cases here : entries index with
  | none =>
    refine ⟨s, rfl, owned, rfl, rfl, fun j i => ?_, fun j k => ?_⟩
    · split
      · rename_i target
        rw [target.1, (exactly i).mp target.2, mine, here]
      · rfl
    split
    · rename_i target
      rw [target.1, byte_at_hole (by rw [(exactly _).mp target.2, mine, here])]
    · rfl
  | some page =>
    have held := owned.held id index page (mine.trans here)
    have freed : pageUnref s.machine page = .ok (pmmPush s.machine page) := by
      simp [pageUnref, pageValidateUsed, held, bind, Except.bind]
    simp only [freed]
    have at_ := with_entry_page_at owned found pointer stored index (pmmPush s.machine page) none
    refine ⟨s.withEntry (pmmPush s.machine page) a entries index none, rfl, vacate_owned owned found pointer stored index _
        (push_listed held owned.listed) (mine.trans here) rfl, rfl, rfl, fun j i => ?_, fun j k => ?_⟩
    · rw [at_ j i]
      simp only [exactly]
    simp only [exactly]
    by_cases target : j = id ∧ k / 4096 = index
    · rw [if_pos target]
      exact byte_at_hole ((at_ j _).trans (if_pos target))
    rw [if_neg target]
    refine byte_at_congr ((at_ j _).trans (if_neg target)) (fun p there => ?_)
    have differs : p ≠ page := by
      intro eq
      subst eq
      exact target (owned.once j _ id index p there (mine.trans here))
    exact fill_outside _ 0 (by omega)

theorem free_entries_op (first : Nat) (count : Nat)
    (pointer : node.pages = some a) :
    ∃ after, (List.range count).foldlM (fun s i => freeEntry s a (first + i)) s = .ok after ∧
      Emptied outside s after id first (first + count) := by
  induction count with
  | zero => exact ⟨s, rfl, emptied_refl owned id first⟩
  | succ count ih =>
    obtain ⟨middle, done, before⟩ := ih
    obtain ⟨after, freed, step⟩ := free_entry_op before.owned (by rw [before.nodes]; exact found) (first + count) pointer
    refine ⟨after, ?_, step.owned, step.nodes.trans before.nodes, step.nextNode.trans before.nextNode, fun j i => ?_, fun j k => ?_⟩
    · rw [List.range_succ, List.foldlM_append, done]
      simp only [bind, Except.bind, List.foldlM_cons, freed]
      rfl
    · rw [step.pages, before.pages]
      by_cases target : j = id
      · by_cases last : i = first + count
        · rw [if_pos (by omega), if_pos (by omega)]
        simp only [target, true_and]
        rw [if_neg (by omega)]
        congr 1
        exact propext (by omega)
      · simp [target]
    rw [step.bytes, before.bytes]
    by_cases target : j = id
    · by_cases last : k / 4096 = first + count
      · rw [if_pos (by omega), if_pos (by omega)]
      simp only [target, true_and]
      rw [if_neg (by omega)]
      congr 1
      exact propext (by omega)
    · simp [target]

structure Cut (outside : Nat → Prop) (s after : Tmpfs) (id first : Nat) : Prop where
  owned : after.Owned outside
  tree : SameTree s after id
  pages : ∀ j i, after.pageAt j i = if j = id ∧ first ≤ i then none else s.pageAt j i
  bytes : ∀ j k, after.byteAt j k = if j = id ∧ first ≤ k / 4096 then 0 else s.byteAt j k

theorem free_pages_from_op (first : Nat) :
    ∃ after, freePagesFrom s id first = .ok after ∧ Cut outside s after id first := by
  rw [freePagesFrom, node_found found]
  simp only [bind, Except.bind]
  cases pages : node.pages with
  | none =>
    have holes : ∀ i, s.pageAt id i = none := by
      intro i
      rw [page_at_node i found, Tmpfs.entries, pages]
      rfl
    refine ⟨s, rfl, owned, same_tree_refl s id, fun j i => ?_, fun j k => ?_⟩
    · split
      · rename_i target
        rw [target.1, holes]
      · rfl
    split
    · rename_i target
      rw [target.1, byte_at_hole (holes _)]
    · rfl
  | some a =>
    obtain ⟨emptied, done, effect⟩ := free_entries_op owned found first (node.pageCount - first) pages
    have stored : emptied.nodes id = some node := by rw [effect.nodes]; exact found
    -- Beyond the page count there is no page, so the whole tail is gone.
    have tail : ∀ j i, emptied.pageAt j i = if j = id ∧ first ≤ i then none else s.pageAt j i := by
      intro j i
      rw [effect.pages]
      by_cases target : j = id ∧ first ≤ i
      · by_cases last : i < first + (node.pageCount - first)
        · rw [if_pos ⟨target.1, target.2, last⟩, if_pos target]
        rw [if_neg (by omega), if_pos target, target.1]
        cases here : s.pageAt id i with
        | none => rfl
        | some p =>
          have := owned.counted id node i p found here
          omega
      · rw [if_neg (by omega), if_neg target]
    have same := set_node_page_at emptied id node { node with pageCount := min node.pageCount first } stored rfl
    have kept := set_node_tree emptied id node { node with pageCount := min node.pageCount first } stored
      ⟨rfl, rfl, rfl, rfl, rfl, rfl, rfl⟩
    simp only [done]
    refine ⟨emptied.setNode id { node with pageCount := min node.pageCount first }, by rw [pages],
      set_node_owned effect.owned stored rfl rfl (fun i p here => ?_) ?_,
      same_tree_trans ⟨fun j _ => by rw [effect.nodes], fun old known => ⟨old, by rw [effect.nodes]; exact known,
        same_node_refl old⟩, effect.nextNode⟩ kept, fun j i => (same j i).trans (tail j i), fun j k => ?_⟩
    · rw [tail] at here
      split at here
      · cases here
      have := owned.counted id node i p found here
      show i < min node.pageCount first
      omega
    · exact Nat.le_trans (Nat.min_le_left _ _) (owned.capped id node found)
    have kept : (emptied.setNode id { node with pageCount := min node.pageCount first }).byteAt j k = emptied.byteAt j k :=
      byte_at_congr (same j _) (fun _ _ => rfl)
    rw [kept]
    by_cases target : j = id ∧ first ≤ k / 4096
    · rw [if_pos target, byte_at_hole (by rw [tail, if_pos target])]
    · rw [if_neg target, effect.bytes, if_neg (by omega)]

end

end

structure Rewritten (outside : Nat → Prop) (s after : Tmpfs) (id : Nat) (bytes : Nat → UInt8) : Prop where
  owned : after.Owned outside
  tree : SameTree s after id
  mine : ∀ k, after.byteAt id k = bytes k
  others : ∀ j k, j ≠ id → after.byteAt j k = s.byteAt j k

theorem write_loop_op {inPlace : InPlace} {limit : Nat} (moves : Moves inPlace limit) {fuel : Nat} (s : Tmpfs)
    (owned : s.Owned outside) (pos : Nat) (data : List UInt8)
    (node : TmpfsNode) (found : s.nodes id = some node) (enough : data.length ≤ fuel)
    (within : pos + data.length ≤ 4096 * limit) :
    Ends (writeLoop inPlace s id fuel pos data) (fun after => Rewritten outside s after id (storeBytes (s.byteAt id) pos data))
      (fun failure => failure = .outOfMemory) := by
  have bound := moves.bound
  have finished : Rewritten outside s s id (storeBytes (s.byteAt id) pos []) :=
    ⟨owned, same_tree_refl s id, fun k => by rw [store_bytes_nil], fun _ _ _ => rfl⟩
  induction fuel generalizing s pos data node with
  | zero =>
    have empty : data = [] := List.eq_nil_of_length_eq_zero (by omega)
    subst empty
    exact finished
  | succ fuel ih =>
    rw [writeLoop]
    split
    · rename_i empty
      subst empty
      exact finished
    rename_i more
    have length : 0 < data.length := List.length_pos_iff.mpr more
    have taken := chunk_le 4096 pos data.length
    have some := chunk_pos 4096 pos data.length (by omega) length
    have inside : pos % 4096 + chunk 4096 pos data.length ≤ 4096 := by
      rw [chunk]
      omega
    refine ends_bind (ensure_page_op moves outside s owned id (pos / 4096) node found (by omega)) ?_
    rintro ⟨ready, page⟩ filled
    have place : 4096 * (pos / 4096) + pos % 4096 = pos := Nat.div_add_mod pos 4096
    have stored := store_page_bytes outside ready filled.owned id (pos / 4096) page (pos % 4096)
      (data.take (chunk 4096 pos data.length)) filled.here (by rw [List.length_take]; omega)
    rw [place] at stored
    obtain ⟨current, present, _⟩ := filled.tree.node node found
    have next := ih (ready.setMem (storeBytes ready.machine.mem (4096 * page + pos % 4096) (data.take (chunk 4096 pos data.length))))
      (set_mem_owned filled.owned _) ((pos + chunk 4096 pos data.length) % 2 ^ 64)
      (data.drop (chunk 4096 pos data.length)) current present (by rw [List.length_drop]; omega)
      (by rw [List.length_drop, Nat.mod_eq_of_lt (by omega)]; omega)
      ⟨set_mem_owned filled.owned _, same_tree_refl _ id, fun k => by rw [store_bytes_nil], fun _ _ _ => rfl⟩
    refine ends_imp next (fun after done => ⟨done.owned, ?_, fun k => ?_, fun j k other => ?_⟩)
    · exact same_tree_trans filled.tree (same_tree_trans (set_mem_tree ready _ id) done.tree)
    · have mine :
        (ready.setMem (storeBytes ready.machine.mem (4096 * page + pos % 4096) (data.take (chunk 4096 pos data.length)))).byteAt id =
          storeBytes (s.byteAt id) pos (data.take (chunk 4096 pos data.length)) := by
        funext i
        rw [stored id i, if_pos rfl, show ready.byteAt id = s.byteAt id from funext (filled.bytes id)]
      rw [done.mine k, mine, Nat.mod_eq_of_lt (by omega), store_bytes_split taken]
    · rw [done.others j k other, stored j k, if_neg other, filled.bytes]

structure Holds (s : Tmpfs) (id : Nat) (f : ByteFile) : Prop where
  node : ∃ node, s.nodes id = some node ∧ vfsSIsreg node.mode = true ∧ node.size = f.size
  bytes : ∀ k, s.byteAt id k = f.byte k

theorem set_node_byte_at (s : Tmpfs) (id : Nat) (node changed : TmpfsNode) (found : s.nodes id = some node)
    (pages : changed.pages = node.pages) (j k : Nat) : (s.setNode id changed).byteAt j k = s.byteAt j k :=
  byte_at_congr (set_node_page_at s id node changed found pages j _) (fun _ _ => rfl)

theorem resize_holds (owned : s.Owned outside)
    (found : s.nodes id = some node) (regular : vfsSIsreg node.mode = true) (bytes : ∀ k, s.byteAt id k = f.byte k) :
    (s.setNode id { node with size := f.size }).Owned outside ∧ Holds (s.setNode id { node with size := f.size }) id f := by
  refine ⟨set_node_owned owned found rfl rfl (fun i p here => owned.counted id node i p found here)
    (owned.capped id node found), ⟨⟨_, update_self .., regular, rfl⟩, fun k => ?_⟩⟩
  rw [set_node_byte_at s id node { node with size := f.size } found rfl, bytes]

-- The file changed as its abstract file is, the tree and every other file as they were.
structure Updated (outside : Nat → Prop) (s after : Tmpfs) (id : Nat) (f : ByteFile) : Prop where
  owned : after.Owned outside
  holds : Holds after id f
  others : ∀ j, j ≠ id → after.nodes j = s.nodes j
  node : ∀ node, s.nodes id = some node → ∃ changed, after.nodes id = some changed ∧ SameNode { node with size := f.size } changed
  nextNode : after.nextNode = s.nextNode
  bytes : ∀ j k, j ≠ id → after.byteAt j k = s.byteAt j k

theorem resize_updated (outside : Nat → Prop) (s middle : Tmpfs) (id : Nat) (node : TmpfsNode) (found : middle.nodes id = some node)
    (owned : middle.Owned outside) (tree : SameTree s middle id) (regular : vfsSIsreg node.mode = true) (f : ByteFile)
    (mine : ∀ k, middle.byteAt id k = f.byte k) (others : ∀ j k, j ≠ id → middle.byteAt j k = s.byteAt j k) :
    Updated outside s (middle.setNode id { node with size := f.size }) id f := by
  obtain ⟨sound, holds⟩ := resize_holds owned found regular mine
  refine ⟨sound, holds, fun j other => ?_, fun old known => ?_, tree.nextNode, fun j k other => ?_⟩
  · rw [← tree.others j other]
    simp [Tmpfs.setNode, update_of_ne other]
  · obtain ⟨_, stored, same⟩ := tree.node old known
    cases found.symm.trans stored
    exact ⟨_, update_self .., ⟨same.mode, rfl, same.nlink, same.refs, same.parent, same.children, same.name⟩⟩
  · rw [set_node_byte_at middle id node { node with size := f.size } found rfl, others j k other]

section

variable (owned : s.Owned outside)
include owned

theorem tmpfs_write_op {inPlace : InPlace} {limit : Nat} (moves : Moves inPlace limit) {off : Nat} {data : List UInt8}
    (holds : Holds s id f)
    (within : off + data.length ≤ 4096 * limit) :
    Ends (tmpfsWrite s inPlace id off data) (fun result => Updated outside s result.1 id (f.write off data) ∧
      result.2 = .ok data.length)
      (fun failure => failure = .outOfMemory) := by
  have bound := moves.bound
  obtain ⟨node, found, regular, size⟩ := holds.node
  rw [tmpfsWrite, node_found found]
  simp only [bind, Except.bind, regular, Bool.not_true, Bool.false_eq_true, if_false]
  refine ends_bind (write_loop_op moves s owned off data node found (Nat.le_refl _) within) (fun after done => ?_)
  obtain ⟨current, present, same⟩ := done.tree.node node found
  rw [node_found present]
  have length : max current.size ((off + data.length) % 2 ^ 64) = (f.write off data).size := by
    rw [same.size, size, Nat.mod_eq_of_lt (by omega)]
    rfl
  simp only [length]
  refine ⟨resize_updated outside s after id current present done.owned done.tree (by rw [same.mode]; exact regular) (f.write off data)
    (fun k => ?_) done.others, rfl⟩
  rw [done.mine, show s.byteAt id = f.byte from funext holds.bytes]
  rfl

section

variable (found : s.nodes id = some node)
include found

theorem drop_pages_op (keep : Nat) : ∃ after, dropPages s id keep node = .ok after ∧ Cut outside s after id keep := by
  rw [dropPages]
  split
  · exact free_pages_from_op owned found keep
  have holes : ∀ i, keep ≤ i → s.pageAt id i = none := by
    intro i high
    cases here : s.pageAt id i with
    | none => rfl
    | some p =>
      have := owned.counted id node i p found here
      omega
  refine ⟨s, rfl, owned, same_tree_refl s id, fun j i => ?_, fun j k => ?_⟩
  · split
    · rename_i target
      rw [target.1, holes i target.2]
    · rfl
  split
  · rename_i target
    rw [target.1, byte_at_hole (holes _ target.2)]
  · rfl

theorem add_last_page_op {inPlace : InPlace} {limit : Nat} (moves : Moves inPlace limit) (size : Nat) {keep : Nat} (old : TmpfsNode)
    (within : keep ≤ limit) :
    Ends (addLastPage s inPlace id size keep old) (fun after => after.Owned outside ∧ SameTree s after id ∧ ∀ j k,
      after.byteAt j k = s.byteAt j k)
      (fun failure => failure = .outOfMemory) := by
  rw [addLastPage]
  split
  · have filled := ensure_page_op moves outside s owned id (keep - 1) node found (by omega)
    cases done : ensurePage s inPlace id (keep - 1) with
    | error failure => exact ends_failure filled done
    | ok result =>
      have fine := ends_value filled result done
      exact ⟨fine.owned, fine.tree, fine.bytes⟩
  · exact ⟨owned, same_tree_refl s id, fun _ _ => rfl⟩

theorem clear_tail_op (size : Nat) :
    ∃ mem, clearTail s id size ((size + 4095) / 4096) = .ok (s.setMem mem) ∧
      (∀ k, (s.setMem mem).byteAt id k = if size ≤ k ∧ k / 4096 < (size + 4095) / 4096 then 0 else s.byteAt id k) ∧
      ∀ j k, j ≠ id → (s.setMem mem).byteAt j k = s.byteAt j k := by
  rw [clearTail, node_found found]
  simp only [bind, Except.bind]
  by_cases partly : size % 4096 ≠ 0
  · have last : (size + 4095) / 4096 - 1 = size / 4096 ∧ (size + 4095) / 4096 > 0 := by omega
    have here : ∀ k, size ≤ k ∧ k / 4096 < (size + 4095) / 4096 → k / 4096 = size / 4096 := by omega
    -- Without a page at the new end there is nothing to clear.
    have still : s.pageAt id (size / 4096) = none → ∀ k,
        s.byteAt id k = if size ≤ k ∧ k / 4096 < (size + 4095) / 4096 then 0 else s.byteAt id k := by
      intro hole k
      split
      · rename_i target
        rw [byte_at_hole (by rw [here k target]; exact hole)]
      · rfl
    rw [last.1]
    cases page : s.pageAt id (size / 4096) with
    | none =>
      refine ⟨s.machine.mem, ?_, still page, fun _ _ _ => rfl⟩
      by_cases counted : size / 4096 < node.pageCount
      · rw [if_pos ⟨partly, last.2, counted⟩]
        rw [page_at_node _ found, Tmpfs.entries] at page
        cases mine : node.pages with
        | none =>
          have cap := owned.null id node found mine
          have fits := owned.capped id node found
          omega
        | some a =>
          obtain ⟨entries, stored⟩ := Option.ne_none_iff_exists'.mp (owned.pointer id node a found mine)
          rw [mine, Option.bind_some, stored, Option.bind_some] at page
          simp only [(array_ok s (some a) entries).mpr ⟨a, rfl, stored⟩, page]
          rfl
      · rw [if_neg (by omega)]
        rfl
    | some p =>
      obtain ⟨other, a, entries, known, pointer, stored, entry⟩ := page_at_some page
      cases found.symm.trans known
      have room := owned.counted id node _ p found page
      have cleared := store_page_bytes outside s owned id (size / 4096) p (size % 4096) (List.replicate (4096 - size % 4096) 0) page
        (by rw [List.length_replicate]; omega)
      refine ⟨storeBytes s.machine.mem (4096 * p + size % 4096) (List.replicate (4096 - size % 4096) 0), ?_, fun k => ?_,
        fun j k other => ?_⟩
      · rw [if_pos ⟨partly, last.2, room⟩]
        simp only [pointer, (array_ok s (some a) entries).mpr ⟨a, rfl, stored⟩, entry, fill_eq_store]
        rfl
      · rw [cleared id k, if_pos rfl]
        split
        · rw [store_bytes_at (by omega) (by rw [List.length_replicate]; omega)]
          simp [List.getD, show k - (4096 * (size / 4096) + size % 4096) < 4096 - size % 4096 by omega]
        · exact store_bytes_outside _ (by rw [List.length_replicate]; omega)
      · rw [cleared j k, if_neg other]
  refine ⟨s.machine.mem, ?_, fun k => ?_, fun _ _ _ => rfl⟩
  · rw [if_neg (by omega)]
    rfl
  · rw [if_neg (by omega)]
    rfl

end

theorem tmpfs_truncate_op {inPlace : InPlace} {limit : Nat} (moves : Moves inPlace limit) {size : Nat} (holds : Holds s id f)
    (within : size ≤ 4096 * limit) :
    Ends (tmpfsTruncate s inPlace id size) (fun result => Updated outside s result.1 id (f.truncate size) ∧ result.2 = .ok ())
      (fun failure => failure = .outOfMemory) := by
  have bound := moves.bound
  obtain ⟨node, found, regular, length⟩ := holds.node
  rw [tmpfsTruncate, node_found found]
  simp only [bind, Except.bind, regular, Bool.not_true, Bool.false_eq_true, if_false,
    Nat.mod_eq_of_lt (show size + 4095 < 2 ^ 64 by omega)]
  obtain ⟨cut, dropped, effect⟩ := drop_pages_op owned found ((size + 4095) / 4096)
  obtain ⟨kept, stored, _⟩ := effect.tree.node node found
  rw [dropped]
  refine ends_bind (add_last_page_op effect.owned stored moves size node (by omega)) ?_
  rintro grown ⟨sound, tree, bytes⟩
  have whole := same_tree_trans effect.tree tree
  obtain ⟨current, present, same⟩ := whole.node node found
  rw [node_found present]
  have sized : (grown.setNode id { current with size }).Owned outside := set_node_owned sound present rfl rfl
    (fun i p here => sound.counted id current i p present here) (sound.capped id current present)
  obtain ⟨mem, cleared, mine, others⟩ := clear_tail_op sized (update_self ..) size
  simp only [cleared]
  have bytesOf : ∀ j k, (grown.setMem mem).byteAt j k = ((grown.setNode id { current with size }).setMem mem).byteAt j k := by
    intro j k
    exact (set_node_byte_at (grown.setMem mem) id current { current with size } present rfl j k).symm
  have before := set_node_byte_at grown id current { current with size } present rfl
  refine ⟨resize_updated outside s (grown.setMem mem) id current present (set_mem_owned sound mem)
    (same_tree_trans whole (set_mem_tree grown mem id)) (by rw [same.mode]; exact regular) (f.truncate size) (fun k => ?_)
    (fun j k other => ?_), rfl⟩
  · rw [bytesOf, mine, before, bytes, effect.bytes, holds.bytes]
    show _ = if k < size then f.byte k else 0
    by_cases inside : k < size
    · rw [if_neg (by omega), if_neg (by omega), if_pos inside]
    rw [if_neg inside]
    by_cases page : k / 4096 < (size + 4095) / 4096
    · rw [if_pos (by omega)]
    · rw [if_neg (by omega), if_pos (by omega)]
  · rw [bytesOf, others j k other, before, bytes, effect.bytes, if_neg (fun target => other target.1)]

end

end Lyr.Fs
