import Lyr.Fs.TmpfsPages

set_option autoImplicit false

namespace Lyr.Fs

open Lyr.Lib Lyr.Mm Function

def Tmpfs.setMem (s : Tmpfs) (mem : Bytes) : Tmpfs := { s with machine := { s.machine with mem } }

variable {s : Tmpfs} {id k page : Nat}

theorem set_mem_owned {outside : Nat → Prop} (owned : s.Owned outside) (mem : Bytes) : (s.setMem mem).Owned outside :=
  ⟨⟨owned.below, owned.pointer, owned.sole, owned.claimed, owned.null, owned.capped⟩,
    ⟨⟨owned.listed.nodup, owned.listed.tracked, owned.listed.unused, owned.listed.usedTracked⟩, owned.counted, owned.held, owned.once,
      owned.accounted, owned.apart, owned.foreign⟩, owned.nodesBelow⟩

theorem set_mem_tree (s : Tmpfs) (mem : Bytes) (id : Nat) : SameTree s (s.setMem mem) id :=
  ⟨fun _ _ => rfl, fun node found => ⟨node, found, same_node_refl node⟩, rfl⟩

theorem set_node_tree (s : Tmpfs) (id : Nat) (node changed : TmpfsNode) (found : s.nodes id = some node)
    (same : SameNode node changed) :
    SameTree s (s.setNode id changed) id := by
  refine ⟨fun j other => ?_, fun old known => ⟨changed, update_self .., ?_⟩, rfl⟩
  · simp [Tmpfs.setNode, update_of_ne other]
  · rw [found, Option.some.injEq] at known
    exact known ▸ same

theorem byte_at_page (here : s.pageAt id (k / 4096) = some page) :
    s.byteAt id k = s.machine.mem (4096 * page + k % 4096) := by
  rw [Tmpfs.byteAt, here]

theorem byte_at_hole (hole : s.pageAt id (k / 4096) = none) : s.byteAt id k = 0 := by
  rw [Tmpfs.byteAt, hole]

theorem byte_at_congr {before after : Tmpfs} (pages : after.pageAt id (k / 4096) = before.pageAt id (k / 4096))
    (bytes : ∀ p, before.pageAt id (k / 4096) = some p →
      after.machine.mem (4096 * p + k % 4096) = before.machine.mem (4096 * p + k % 4096)) :
        after.byteAt id k = before.byteAt id k := by
  cases here : before.pageAt id (k / 4096) with
  | none => rw [byte_at_hole here, byte_at_hole (pages.trans here)]
  | some p => rw [byte_at_page here, byte_at_page (pages.trans here), bytes p here]

theorem store_page_bytes (outside : Nat → Prop) (s : Tmpfs) (owned : s.Owned outside) (id index page offset : Nat) (data : List UInt8)
    (here : s.pageAt id index = some page) (fits : offset + data.length ≤ 4096) (j k : Nat) :
    (s.setMem (storeBytes s.machine.mem (4096 * page + offset) data)).byteAt j k =
      if j = id then storeBytes (s.byteAt id) (4096 * index + offset) data k else s.byteAt j k := by
  by_cases target : j = id ∧ k / 4096 = index
  · obtain ⟨rfl, rfl⟩ := target
    have value : (s.setMem (storeBytes s.machine.mem (4096 * page + offset) data)).byteAt j k =
        storeBytes s.machine.mem (4096 * page + offset) data (4096 * page + k % 4096) := byte_at_page here
    rw [if_pos rfl, value]
    by_cases inside : offset ≤ k % 4096 ∧ k % 4096 < offset + data.length
    · rw [store_bytes_at (by omega) (by omega), store_bytes_at (by omega) (by omega)]
      congr 1
      omega
    · rw [store_bytes_outside _ (by omega), store_bytes_outside _ (by omega), byte_at_page here]
  have same : (s.setMem (storeBytes s.machine.mem (4096 * page + offset) data)).byteAt j k = s.byteAt j k := by
    refine byte_at_congr rfl (fun p there => store_bytes_outside _ ?_)
    have differs : p ≠ page := by
      intro eq
      subst eq
      exact target (owned.once j _ id index p there here)
    omega
  rw [same]
  split
  · rename_i eq
    subst eq
    rw [store_bytes_outside _ (by omega)]
  · rfl

def Tmpfs.withEntry (s : Tmpfs) (m : Machine) (a : Nat) (entries : PageArray) (index : Nat) (page : Option Nat) : Tmpfs :=
  { s with machine := m }.setArray a (update entries index page)

section Entry

variable {outside : Nat → Prop} {s : Tmpfs} (owned : s.Owned outside) {id : Nat} {node : TmpfsNode} (found : s.nodes id = some node)
  {a : Nat} (pointer : node.pages = some a) {entries : PageArray} (stored : s.arrays a = some entries) (index : Nat) (m : Machine)
include owned found pointer

variable (entries) in
theorem with_entry_arrays (page : Option Nat) : (s.withEntry m a entries index page).Arrays :=
  set_array_arrays { s with machine := m } ⟨owned.below, owned.pointer, owned.sole, owned.claimed, owned.null,
    owned.capped⟩ id node a found pointer

include stored

theorem with_entry_page_at (page : Option Nat) (j i : Nat) :
    (s.withEntry m a entries index page).pageAt j i = if j = id ∧ i = index then page else s.pageAt j i := by
  have mine : s.pageAt id i = entries i := by
    rw [page_at_node i found, Tmpfs.entries, pointer, Option.bind_some, stored, Option.bind_some]
  rw [Tmpfs.withEntry, set_array_page_at { s with machine := m }
    ⟨owned.below, owned.pointer, owned.sole, owned.claimed, owned.null, owned.capped⟩ id node a found pointer]
  by_cases same : j = id
  · subst same
    by_cases at_ : i = index
    · simp [at_]
    · simp [at_, mine]
  · simp only [same, false_and, if_false]
    rfl

theorem with_entry_owned {new : Option Nat} (listed : Listed m)
    (placed : ∀ p, new = some p → index < node.pageCount ∧ m.used p = some ⟨1, 0, false⟩ ∧ ¬ outside p ∧ ∀ j i, s.pageAt j i ≠ some p)
    (kept : ∀ p, s.pageAt id index ≠ some p → new ≠ some p → m.used p = s.machine.used p)
    (freed : ∀ p, s.pageAt id index = some p → m.used p = none) : (s.withEntry m a entries index new).Owned outside := by
  have at_ := with_entry_page_at owned found pointer stored index m new
  -- a page is the new one, or where it was
  have back : ∀ j i p, (s.withEntry m a entries index new).pageAt j i = some p →
      (j = id ∧ i = index) ∧ new = some p ∨ s.pageAt j i = some p ∧ m.used p = s.machine.used p := by
    intro j i p here
    rw [at_] at here
    split at here
    · exact .inl ⟨‹_›, here⟩
    rename_i elsewhere
    exact .inr ⟨here, kept p (fun there => elsewhere (owned.once j i id index p here there))
      (fun same => (placed p same).2.2.2 j i here)⟩
  refine ⟨with_entry_arrays owned found pointer entries index m new,
    ⟨listed, fun j other i p there here => ?_, fun j i p here => ?_, fun j i k l p one two => ?_, fun p inUse => ?_,
      fun j i p here => ?_, fun p other => ?_⟩, owned.nodesBelow⟩
  · obtain ⟨⟨rfl, rfl⟩, same⟩ | ⟨old, _⟩ := back j i p here
    · rw [show s.nodes j = some other from there, Option.some.injEq] at found
      exact found ▸ (placed p same).1
    · exact owned.counted j other i p there old
  · obtain ⟨_, same⟩ | ⟨old, used⟩ := back j i p here
    · exact (placed p same).2.1
    · exact used.trans (owned.held j i p old)
  · obtain ⟨first, same⟩ | ⟨old, _⟩ := back j i p one
    · obtain ⟨second, _⟩ | ⟨other, _⟩ := back k l p two
      · exact ⟨first.1.trans second.1.symm, first.2.trans second.2.symm⟩
      · exact absurd other ((placed p same).2.2.2 k l)
    obtain ⟨_, same⟩ | ⟨other, _⟩ := back k l p two
    · exact absurd old ((placed p same).2.2.2 j i)
    · exact owned.once j i k l p old other
  · by_cases same : new = some p
    · exact .inr ⟨id, index, by rw [at_, if_pos ⟨rfl, rfl⟩, same]⟩
    have notHere : s.pageAt id index ≠ some p := fun there => inUse (freed p there)
    have before : s.machine.used p ≠ none := kept p notHere same ▸ inUse
    refine (owned.accounted p before).imp_right ?_
    rintro ⟨j, i, there⟩
    refine ⟨j, i, ?_⟩
    rw [at_, if_neg, there]
    rintro ⟨rfl, rfl⟩
    exact notHere there
  · obtain ⟨_, same⟩ | ⟨old, _⟩ := back j i p here
    · exact (placed p same).2.2.1
    · exact owned.apart j i p old
  · show m.used p ≠ none
    rw [kept p (fun there => owned.apart id index p there other) (fun same => (placed p same).2.2.1 other)]
    exact owned.foreign p other

variable (outside id node entries) in
theorem place_owned (listed : Listed m) (fresh : s.machine.used page = none)
    (used : m.used = update s.machine.used page (some ⟨1, 0, false⟩)) (inside : index < node.pageCount)
    (vacant : s.pageAt id index = none) : (s.withEntry m a entries index (some page)).Owned outside := by
  refine with_entry_owned owned found pointer stored index m listed ?_ (fun p _ other => ?_)
    (fun p there => nomatch vacant.symm.trans there)
  · rintro _ ⟨⟩
    refine ⟨inside, by rw [used]; exact update_self .., fun other => owned.foreign page other fresh, fun j i there => ?_⟩
    cases fresh.symm.trans (owned.held j i page there)
  · rw [used]
    exact update_of_ne (fun same : p = page => other (same ▸ rfl)) _ _

theorem vacate_owned (listed : Listed m) (here : s.pageAt id index = some page)
    (used : m.used = update s.machine.used page none) : (s.withEntry m a entries index none).Owned outside := by
  refine with_entry_owned owned found pointer stored index m listed nofun (fun p other _ => ?_) (fun p there => ?_)
  · rw [used]
    exact update_of_ne (fun same : p = page => other (same ▸ here)) _ _
  · cases here.symm.trans there
    rw [used]
    exact update_self ..

end Entry

end Lyr.Fs
