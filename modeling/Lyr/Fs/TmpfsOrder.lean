import Lyr.Fs.TmpfsWorld

set_option autoImplicit false

namespace Lyr.Fs

open Lyr.Lib Lyr.Mm Function

def ProperName (name : Name) : Prop := name ≠ dot ∧ name ≠ dotDot

-- A removed directory has a link count of its own.
structure TreeSound (root : Nat) (s : Tmpfs) : Prop where
  names : ∀ d dir, s.nodes d = some dir → (dir.children.map (view s).name).Nodup ∧ ∀ c ∈ dir.children, ProperName ((view s).name c)
  parents : ∀ d dir c, s.nodes d = some dir → c ∈ dir.children → ∃ child, s.nodes c = some child ∧ child.parent = some d
  reached : ∀ d dir c, s.nodes d = some dir → c ∈ dir.children → Reaches (view s).parent root c
  nlink : ∀ d dir, s.nodes d = some dir → vfsSIsdir dir.mode = true → dir.parent ≠ none → dir.nlink = 2 + dir.children.countP
    (view s).isDir

def LookupFinds (w : TmpfsWorld) : TmpfsCall → Prop
  | .lookup dir name => ∀ fs reply, tmpfsLookup w.fs dir name = .ok (fs, reply) → reply ≠ .ok none
  | _ => True

def removedDir (s : Tmpfs) (id : Nat) : Bool := (view s).isDir id && ((view s).parent id).isNone

-- The caller holds a reference on each node it names, the mount its own on the root; names are C strings, counts do not wrap.
def TmpfsCall.Made (w : TmpfsWorld) : TmpfsCall → Prop
  | .lookup dir _ => 0 < w.opens dir ∧ ∀ id, id < w.fs.nextNode → (w.fs.nodes id).elim 0 (fun node => node.refs) + 1 < 2 ^ 32
  | .create dir name _ _ => 0 < w.opens dir ∧ 0 ∉ name ∧ (view w.fs).links dir + 1 < 2 ^ 32
  | .mkdir dir name _ _ => 0 < w.opens dir ∧ 0 ∉ name ∧ (view w.fs).links dir + 1 < 2 ^ 32
  | .symlink dir _ name _ => 0 < w.opens dir ∧ 0 ∉ name ∧ (view w.fs).links dir + 1 < 2 ^ 32
  | .unlink dir _ => 0 < w.opens dir
  | .rmdir dir _ => 0 < w.opens dir
  | .rename oldDir _ newDir newName => 0 < w.opens oldDir ∧ 0 < w.opens newDir ∧ 0 ∉ newName ∧ (view w.fs).links newDir + 1 < 2 ^ 32
  | .release id => 0 < w.opens id ∧ (id = w.root → 1 < w.opens id)
  | .link _ _ _ => False
  | .write _ _ _ => False
  | .truncate _ _ => False

-- No "." or ".." is made, and no removed directory gets a name, is renamed in or asked for its parent.
def TmpfsCall.Careful (w : TmpfsWorld) : TmpfsCall → Prop
  | .lookup dir name => name = dotDot → removedDir w.fs dir = false
  | .create dir name _ _ => ProperName name ∧ removedDir w.fs dir = false
  | .mkdir dir name _ _ => ProperName name ∧ removedDir w.fs dir = false
  | .symlink dir _ name _ => ProperName name ∧ removedDir w.fs dir = false
  | .rename oldDir _ newDir newName => ProperName newName ∧ removedDir w.fs oldDir = false ∧ removedDir w.fs newDir = false
  | _ => True

instance properNameDecidable (name : Name) : Decidable (ProperName name) := inferInstanceAs (Decidable (name ≠ dot ∧ name ≠ dotDot))

instance madeDecidable (w : TmpfsWorld) (call : TmpfsCall) : Decidable (call.Made w) :=
  match call with
  | .lookup .. | .create .. | .mkdir .. | .symlink .. | .rename .. | .release .. => instDecidableAnd
  | .unlink .. | .rmdir .. => Nat.decLt _ _
  | .link .. | .write .. | .truncate .. => instDecidableFalse

instance carefulDecidable (w : TmpfsWorld) (call : TmpfsCall) : Decidable (call.Careful w) :=
  match call with
  | .lookup .. => inferInstanceAs (Decidable (_ = _ → _ = _))
  | .create .. | .mkdir .. | .symlink .. | .rename .. => instDecidableAnd
  | .unlink .. | .rmdir .. | .release .. | .link .. | .write .. | .truncate .. => instDecidableTrue

variable {name : Name} {s : Tmpfs} {id d c e : Nat} {call : TmpfsCall}

theorem c_string_self (plain : 0 ∉ name) : cString name = name := by
  refine List.takeWhile_eq_self_iff.2 (fun byte inside => ?_)
  rw [bne_iff_ne]
  rintro rfl
  exact plain inside

theorem not_removed (stays : removedDir s id = false) (isDir : (view s).isDir id = true) : (view s).parent id ≠ none := by
  intro nameless
  simp [removedDir, isDir, nameless] at stays

section Shapes

variable {root : Nat} {s after : Tmpfs} (consistent : (view s).Consistent root) (fine : (view after).Consistent root)
  (orderly : (view s).Orderly root ProperName)
include consistent fine orderly

theorem dropped_orderly (dropped : Dropped s after d c) : (view after).Orderly root ProperName :=
  Hierarchy.orderly_agrees fine (Hierarchy.orderly_unlink consistent orderly dropped.member dropped.childless) dropped.agrees

theorem added_orderly {new : Hierarchy Nat Name} (added : Added s after d name new) (plain : 0 ∉ name)
    (proper : ProperName name) (stays : removedDir s d = false) : (view after).Orderly root ProperName := by
  have newConsistent := Hierarchy.consistent_agrees consistent added.old
  have newOrderly := Hierarchy.orderly_agrees newConsistent orderly added.old
  have named := not_removed stays added.isDir
  have inserted := added.inserted
  rw [c_string_self plain] at inserted
  refine Hierarchy.orderly_agrees fine (Hierarchy.orderly_insert newConsistent newOrderly added.alone added.childless
    (by rwa [added.old.parent]) (fun c member => ?_) proper added.links) inserted
  rw [added.old.children] at member
  rw [added.old.name c (Hierarchy.listed_named consistent member)]
  exact added.absent c member

omit fine orderly in
theorem replaced_far {t : Nat} (member : c ∈ (view s).children d) (other : t ≠ c) (dropped : Dropped s after e t)
    (far : ∀ target, Reaches (update (view s).parent c target) root e) :
    c ∈ (view after).children d ∧ Reaches (update (view after).parent c (some e)) root e := by
  obtain ⟨notRoot, up⟩ := (consistent.listed e t).1 dropped.member
  have leaf := Hierarchy.childless_leaf consistent notRoot dropped.childless
  have apart : e ≠ t := by
    rintro rfl
    exact leaf e up
  constructor
  · rw [dropped.agrees.children]
    by_cases same : d = e
    · simp only [Hierarchy.unlink, same, update_self]
      exact (List.mem_erase_of_ne other.symm).2 (same ▸ member)
    · simpa only [Hierarchy.unlink, update_of_ne same] using member
  rw [dropped.agrees.parent]
  simp only [Hierarchy.unlink]
  rw [update_comm other]
  refine reaches_cut (fun child => ?_) none (far (some e)) apart
  by_cases moved : child = c
  · rw [moved, update_self]
    exact fun same => apart (Option.some.inj same)
  · rw [update_of_ne moved]
    exact leaf child

omit fine in
theorem renamed_orderly {middle : Tmpfs} (renamed : Renamed root s middle after d e c name) (plain : 0 ∉ name)
    (proper : ProperName name) : (view after).Orderly root ProperName := by
  have inside : ∀ h : Hierarchy Nat Name, ∀ a, a ∈ (h.unlink d c).children e → a ∈ h.children e := by
    intro h a here
    by_cases same : e = d
    · simp only [Hierarchy.unlink, same, update_self] at here
      exact same ▸ List.mem_of_mem_erase here
    · simpa only [Hierarchy.unlink, update_of_ne same] using here
  rw [renamed.moved, c_string_self plain]
  rcases renamed.free with ⟨rfl, absent⟩ | ⟨t, other, named, dropped⟩
  · exact Hierarchy.orderly_move consistent orderly renamed.member renamed.apart (fun a here => absent a (inside _ a here)) proper
      (renamed.far (some e))
  have next := dropped_orderly consistent renamed.consistent orderly dropped
  obtain ⟨member, far⟩ := replaced_far consistent renamed.member other dropped renamed.far
  refine Hierarchy.orderly_move renamed.consistent next member renamed.apart (fun a here => ?_) proper far
  have here := inside _ a here
  have hasName := Hierarchy.listed_named renamed.consistent here
  rw [dropped.agrees.children] at here
  rw [dropped.agrees.parent] at hasName
  rw [dropped.agrees.name a hasName]
  simp only [Hierarchy.unlink, update_self] at here
  intro same
  have eq := orderly.distinct e a t (List.mem_of_mem_erase here) dropped.member (same.trans named.symm)
  exact (consistent.nodup e).not_mem_erase (eq ▸ here)

end Shapes

theorem lookup_null {fs : Tmpfs} {dir : Nat} (done : tmpfsLookup s dir name = .ok (fs, .ok none)) :
    name = dotDot ∧ removedDir s dir = true := by
  rw [tmpfsLookup, bind_ok] at done
  obtain ⟨node, found, done⟩ := done
  rw [node_ok] at found
  split at done
  · cases done
  rename_i isDir
  split at done
  · rw [bind_ok] at done
    obtain ⟨_, _, done⟩ := done
    cases done
  split at done
  · rename_i isUp
    cases up : node.parent with
    | none => exact ⟨isUp, by simpa [removedDir, view_is_dir found, view_parent found, up] using isDir⟩
    | some parent =>
      simp only [up, bind_ok] at done
      obtain ⟨_, _, done⟩ := done
      cases done
  rw [bind_ok] at done
  obtain ⟨result, _, done⟩ := done
  cases result with
  | none => cases done
  | some child =>
    rw [bind_ok] at done
    obtain ⟨_, _, done⟩ := done
    cases done

structure Ordered (outside : Nat → Prop) (w : TmpfsWorld) : Prop where
  one : OneName outside w
  orderly : (view w.fs).Orderly w.root ProperName

section Ordered

variable {outside : Nat → Prop} {w : TmpfsWorld} (ordered : Ordered outside w)
include ordered

theorem ordered_consistent : (view w.fs).Consistent w.root := tree_consistent ordered.one.settled.tree

variable (w) in
theorem ordered_sound : TreeSound w.root w.fs := by
  have consistent := ordered_consistent ordered
  obtain ⟨one, orderly⟩ := ordered
  have children : ∀ d dir c, w.fs.nodes d = some dir → c ∈ dir.children → c ∈ (view w.fs).children d := by
    intro d dir c found member
    rwa [view_children found]
  refine ⟨fun d dir found => ⟨?_, fun c member => orderly.allowed d c (children d dir c found member)⟩,
    fun d dir c found member => ?_,
    fun d dir c found member => orderly.reached c (Hierarchy.listed_named consistent (children d dir c found member)),
    fun d dir found isDir named => ?_⟩
  · refine List.Nodup.map_on (fun a first b second same => ?_) (one.settled.tree.nodup d dir found)
    exact orderly.distinct d a b (children d dir a found first) (children d dir b found second) same
  · obtain ⟨_, child, stored, up⟩ := one.settled.tree.down d dir c found member
    exact ⟨child, stored, up⟩
  · have count := orderly.counted d (by rwa [view_is_dir found]) (by rwa [view_parent found])
    rwa [view_links found, view_children found] at count

theorem ordered_attached {node : TmpfsNode} (found : w.fs.nodes id = some node) (isDir : vfsSIsdir node.mode = true)
    (stays : removedDir w.fs id = false) : attached w.fs w.root w.fs.nextNode id = true := by
  have live : ∀ j, (view w.fs).parent j ≠ none → j ∈ List.range w.fs.nextNode := by
    intro j named
    rw [List.mem_range]
    by_contra high
    exact named (by simp [view, ordered.one.settled.owned.nodesBelow j (by omega)])
  have named := not_removed stays (by rwa [view_is_dir found])
  have top : (view w.fs).parent w.root ≠ none := by
    rw [(ordered_consistent ordered).top]
    simp
  rw [attached_climbs]
  simpa using reaches_within live (live _ top) (ordered.orderly.reached id named)

omit ordered in
theorem ordered_of {next : TmpfsWorld} (one : OneName outside next) (root : next.root = w.root)
    (orderly : (view next.fs).Consistent w.root → (view next.fs).Orderly w.root ProperName) : Ordered outside next := by
  refine ⟨one, root ▸ orderly ?_⟩
  rw [← root]
  exact tree_consistent one.settled.tree

theorem name_call_op (made : call.Made w) (careful : call.Careful w) : ∃ next, call.step w = .ok next ∧ Ordered outside next := by
  have one := ordered.one
  have orderly := ordered.orderly
  have consistent := ordered_consistent ordered
  have live := held_live w one
  have links : ∀ dir node, w.fs.nodes dir = some node → (view w.fs).links dir + 1 < 2 ^ 32 → node.nlink + 1 < 2 ^ 32 := by
    intro dir node found room
    rwa [view_links found] at room
  have keep : ∀ after, Settled outside w.root w.contents w.opens after →
    ((view after).Consistent w.root → (view after).Orderly w.root ProperName) →
      Ordered outside { w with fs := after } :=
    fun after next names => ordered_of (one_name_with w one after next) rfl names
  have add : ∀ dir name new after holders, 0 ∉ name → ProperName name ∧ removedDir w.fs dir = false → Added w.fs after dir name new →
      Settled outside w.root (update w.contents w.fs.nextNode ByteFile.empty) (update w.opens w.fs.nextNode holders) after →
      Ordered outside (w.add after w.fs.nextNode holders) :=
    fun dir name new after holders plain proper added next => ordered_of (one_name_add w one after _ holders next) rfl
      (fun fine => added_orderly consistent fine orderly added plain proper.1 proper.2)
  have create : ∀ dir name mode cred, 0 < w.opens dir ∧ 0 ∉ name ∧ (view w.fs).links dir + 1 < 2 ^ 32 →
      ProperName name ∧ removedDir w.fs dir = false → ∃ next, (createChild w.fs dir name mode cred >>=
        fun made => .ok (w.created made.1 made.2)) = .ok next ∧ Ordered outside next := by
    intro dir name mode cred made careful
    obtain ⟨node, found⟩ := live dir made.1
    obtain ⟨after, reply, done, effect⟩ := create_child_op one.settled found name mode cred
    rw [done]
    refine ⟨_, rfl, ?_⟩
    rcases effect with ⟨errno, rfl, rfl⟩ | ⟨rfl, _, next, effect⟩
    · exact ordered
    · obtain ⟨new, added⟩ := effect (links dir node found made.2.2)
      exact add dir name new after 1 made.2.1 careful added next
  cases call with
  | lookup dir name =>
    obtain ⟨node, found⟩ := live dir made.1
    obtain ⟨after, reply, done, effect⟩ := lookup_op one.settled found name (refs_room w one made.2)
    rw [TmpfsCall.step, done]
    refine ⟨_, rfl, ?_⟩
    rcases effect with ⟨nothing, rfl⟩ | ⟨id, rfl, next, same⟩
    · rw [give_nothing w nothing]
      exact ordered
    · exact ⟨⟨next, one.file⟩, by rw [TmpfsWorld.give, same]; exact orderly⟩
  | create dir name _ cred | mkdir dir name _ cred => exact create dir name _ cred made careful
  | symlink dir target name cred =>
    obtain ⟨node, found⟩ := live dir made.1
    obtain ⟨after, reply, done, effect⟩ := symlink_op one.settled found target name cred
    rw [TmpfsCall.step, done]
    refine ⟨_, rfl, ?_⟩
    rcases effect with ⟨⟨errno, rfl⟩, rfl⟩ | ⟨rfl, next, effect⟩
    · exact ordered
    · obtain ⟨new, added⟩ := effect (links dir node found made.2.2)
      exact add dir name new after 0 made.2.1 careful added next
  | unlink dir name =>
    obtain ⟨node, found⟩ := live dir made
    obtain ⟨after, reply, done, next, effect⟩ := unlink_op one.settled found name
    rw [TmpfsCall.step, done]
    refine ⟨_, rfl, ?_⟩
    rcases effect with rfl | ⟨c, dropped⟩
    · exact ordered
    · exact keep after next (fun fine => dropped_orderly consistent fine orderly dropped)
  | rmdir dir name =>
    obtain ⟨node, found⟩ := live dir made
    obtain ⟨after, reply, done, next, effect⟩ := rmdir_op one.settled found name
    rw [TmpfsCall.step, done]
    refine ⟨_, rfl, ?_⟩
    rcases effect with rfl | ⟨c, dropped⟩
    · exact ordered
    · exact keep after next (fun fine => dropped_orderly consistent fine orderly dropped)
  | rename oldDir oldName newDir newName =>
    obtain ⟨old, found⟩ := live oldDir made.1
    obtain ⟨new, there⟩ := live newDir made.2.1
    obtain ⟨after, reply, done, next, effect⟩ := rename_op one.settled found there
      (fun oldIsDir newIsDir => ⟨ordered_attached ordered found oldIsDir careful.2.1,
        ordered_attached ordered there newIsDir careful.2.2⟩) oldName newName
    rw [TmpfsCall.step, done]
    refine ⟨_, rfl, ?_⟩
    rcases effect with rfl | effect
    · exact ordered
    · obtain ⟨middle, c, renamed⟩ := effect (links newDir new there made.2.2.2)
      exact keep after next (fun _ => renamed_orderly consistent orderly renamed made.2.2.1 careful.1)
  | release id =>
    obtain ⟨node, found⟩ := live id made.1
    have childless : node.refs = 1 → node.children = [] := by
      intro last
      have nameless := last_nameless one.settled made.1 made.2 found last
      rw [← view_children found]
      exact Hierarchy.nameless_childless consistent orderly (by rw [view_parent found, nameless])
    obtain ⟨after, done, next, others, self⟩ := release_leaf_op one.settled made.1 made.2 found childless
    have agrees := release_agrees one.settled made.1 made.2 found childless others self
    rw [TmpfsCall.step, done]
    exact ⟨_, rfl, ordered_of ⟨next, one.file⟩ rfl (fun fine => Hierarchy.orderly_agrees fine orderly agrees)⟩
  | link dir name target => exact made.elim
  | write id off data => exact made.elim
  | truncate id size => exact made.elim

omit ordered in
theorem careful_finds (careful : call.Careful w) : LookupFinds w call := by
  cases call with
  | lookup dir name =>
    rintro fs _ done rfl
    obtain ⟨isUp, removed⟩ := lookup_null done
    rw [careful isUp] at removed
    cases removed
  | _ => trivial

end Ordered

theorem mounted_ordered {m : Machine} (mode uid gid : Nat) (listed : Listed m) :
    Ordered (fun p => m.used p ≠ none) (mounted m mode uid gid) := by
  have one := mounted_one_name m mode uid gid listed
  have nodes := mounted_nodes m mode uid gid
  have top : (mounted m mode uid gid).fs.nodes 0 =
      some { newNode [] (vfsSIfdir ||| (mode &&& vfsSPerm)) uid gid with parent := some 0 } := by
    simp [mounted, tmpfsCreateRoot, Tmpfs.setNode]
  have childless : ∀ d, (view (mounted m mode uid gid).fs).children d = [] := by
    intro d
    cases found : (mounted m mode uid gid).fs.nodes d with
    | none => simp [view, found]
    | some node =>
      obtain ⟨_, rfl⟩ := nodes d node found
      rw [view_children found]
      rfl
  have named : ∀ d, (view (mounted m mode uid gid).fs).parent d ≠ none → d = 0 := by
    intro d hasParent
    cases found : (mounted m mode uid gid).fs.nodes d with
    | none => simp [view, found] at hasParent
    | some node => exact (nodes d node found).1
  refine ⟨one, ⟨⟨fun d a b member => ?_, fun d a member => ?_, fun d isDir hasParent => ?_⟩, fun d hasParent => ?_⟩⟩
  · rw [childless] at member
    cases member
  · rw [childless] at member
    cases member
  · rw [named d hasParent, childless, view_links top]
    exact if_pos (dir_mode mode)
  · rw [named d hasParent]
    exact .root

theorem names_stay_in_order (m : Machine) (mode uid gid : Nat) (listed : Listed m) (calls : List TmpfsCall)
    (permitted : Permitted TmpfsCall.step (fun w call => call.Made w ∧ call.Careful w) (mounted m mode uid gid) calls) :
    (∃ final, run TmpfsCall.step (mounted m mode uid gid) calls = .ok final) ∧
      Always TmpfsCall.step (fun w => TreeSound w.root w.fs) (mounted m mode uid gid) calls ∧
      EachStep TmpfsCall.step (fun w call _ => LookupFinds w call) (mounted m mode uid gid) calls := by
  have start := mounted_ordered mode uid gid listed
  refine permitted_steps (fun w call ordered allowed => ?_) start ordered_sound permitted
  obtain ⟨next, done, fine⟩ := name_call_op ordered allowed.1 allowed.2
  exact ⟨next, done, fine, careful_finds allowed.2⟩

def nameD : Name := [100]

def orderedCalls : List TmpfsCall :=
  [.mkdir 0 nameD 0o755 ⟨0, 0⟩, .create 1 nameF 0o644 ⟨0, 0⟩, .lookup 1 dotDot, .rename 1 nameF 0 nameF,
    .symlink 1 nameF nameG ⟨0, 0⟩,
    .unlink 1 nameG, .rmdir 0 nameD, .lookup 1 nameF, .release 2, .release 1]

theorem ordered_calls_sound : (∃ final, run TmpfsCall.step (mounted tmpfsMachine 0o755 0 0) orderedCalls = .ok final) ∧
      Always TmpfsCall.step (fun w => TreeSound w.root w.fs) (mounted tmpfsMachine 0o755 0 0) orderedCalls ∧
      EachStep TmpfsCall.step (fun w call _ => LookupFinds w call) (mounted tmpfsMachine 0o755 0 0) orderedCalls := by
  refine names_stay_in_order tmpfsMachine 0o755 0 0 ⟨by decide, by decide, by decide, fun p use used => ?_⟩ orderedCalls
    (by decide +kernel)
  simp only [tmpfsMachine] at used ⊢
  split at used
  · omega
  · cases used

-- /d is removed while it is held, and a directory is made with the name ".".
theorem removed_dir_names :
    (∃ w, run TmpfsCall.step (mounted tmpfsMachine 0o755 0 0) [.mkdir 0 nameD 0o755 ⟨0, 0⟩, .rmdir 0 nameD] = .ok w ∧
      (TmpfsCall.lookup 1 dotDot).Made w ∧ tmpfsLookup w.fs 1 dotDot = .ok (w.fs, .ok none)) ∧
    (∃ w, run TmpfsCall.step (mounted tmpfsMachine 0o755 0 0)
        [.mkdir 0 nameD 0o755 ⟨0, 0⟩, .rmdir 0 nameD, .create 1 nameF 0o644 ⟨0, 0⟩] = .ok w ∧ ¬ TreeSound w.root w.fs) ∧
    (∃ w, run TmpfsCall.step (mounted tmpfsMachine 0o755 0 0) [.mkdir 0 dot 0o755 ⟨0, 0⟩] = .ok w ∧ ¬ TreeSound w.root w.fs) := by
  refine ⟨⟨_, rfl, by decide +kernel, rfl⟩, ⟨_, rfl, fun sound => ?_⟩, ⟨_, rfl, fun sound => ?_⟩⟩
  · cases sound.reached 1 _ 2 rfl (by decide +kernel) with
    | up _ above link rest =>
      cases link
      cases rest with
      | up _ _ link _ => cases link
  · exact ((sound.names 0 _ rfl).2 1 (by decide +kernel)).1 rfl

end Lyr.Fs
