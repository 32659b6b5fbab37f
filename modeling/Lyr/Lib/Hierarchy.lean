import Mathlib

set_option autoImplicit false

namespace Lyr.Lib

open Function

variable {α ν : Type} [DecidableEq α] {c d node : α} {steps : Nat} {nodes : List α}

inductive Reaches (parent : α → Option α) (root : α) : α → Prop where
  | root : Reaches parent root root
  | up (node above : α) (link : parent node = some above) (rest : Reaches parent root above) : Reaches parent root node

def climbs (parent : α → Option α) (root : α) : Nat → α → Bool
  | 0, node => node == root
  | steps + 1, node => node == root || (parent node).elim false (climbs parent root steps)

section Reach

variable {parent : α → Option α} {root : α}

omit [DecidableEq α] in
theorem reaches_named (top : parent root ≠ none) (reaches : Reaches parent root node) : parent node ≠ none := by
  cases reaches with
  | root => exact top
  | up _ above link _ =>
    rw [link]
    simp

theorem reaches_cut {cut : α} (leaf : ∀ child, parent child ≠ some cut) (target : Option α) (reaches : Reaches parent root node)
    (other : node ≠ cut) : Reaches (update parent cut target) root node := by
  induction reaches with
  | root => exact .root
  | up node above link _ ih =>
    have aboveOther : above ≠ cut := fun same => leaf node (same ▸ link)
    exact .up node above (by rw [update_of_ne other, link]) (ih aboveOther)

theorem reaches_new {new : α} (alone : parent new = none) (target : Option α) (reaches : Reaches parent root node) :
    Reaches (update parent new target) root node := by
  induction reaches with
  | root => exact .root
  | up node above link _ ih =>
    have other : node ≠ new := by
      intro same
      rw [same, alone] at link
      cases link
    exact .up node above (by rw [update_of_ne other, link]) ih

theorem reaches_redirect {moved target : α} (far : Reaches (update parent moved (some target)) root target)
    (reaches : Reaches parent root node) : Reaches (update parent moved (some target)) root node := by
  induction reaches with
  | root => exact .root
  | up node above link _ ih =>
    by_cases same : node = moved
    · exact .up node target (by rw [same, update_self]) far
    · exact .up node above (by rw [update_of_ne same, link]) ih

theorem climbs_succ (node : α) (climb : climbs parent root steps node = true) : climbs parent root (steps + 1) node = true := by
  induction steps generalizing node with
  | zero =>
    rw [climbs] at climb
    rw [climbs, climb, Bool.true_or]
  | succ steps ih =>
    rw [climbs, Bool.or_eq_true] at climb ⊢
    refine climb.imp_right (fun above => ?_)
    cases link : parent node with
    | none => simp [link] at above
    | some next =>
      rw [link] at above
      exact ih next above

theorem climbs_mono {fewer more : Nat} (le : fewer ≤ more) (climb : climbs parent root fewer node = true) :
    climbs parent root more node = true := by
  induction le with
  | refl => exact climb
  | step _ ih => exact climbs_succ node ih

theorem reaches_climbs (reaches : Reaches parent root node) : ∃ steps, climbs parent root steps node = true := by
  induction reaches with
  | root => exact ⟨0, by simp [climbs]⟩
  | up node above link _ ih =>
    obtain ⟨steps, climb⟩ := ih
    exact ⟨steps + 1, by simp [climbs, link, climb]⟩

theorem climbs_reaches (node : α) (climb : climbs parent root steps node = true) : Reaches parent root node := by
  induction steps generalizing node with
  | zero =>
    have top : node = root := by simpa [climbs] using climb
    exact top ▸ .root
  | succ steps ih =>
    rw [climbs, Bool.or_eq_true, beq_iff_eq] at climb
    rcases climb with rfl | above
    · exact .root
    cases link : parent node with
    | none => simp [link] at above
    | some next =>
      rw [link] at above
      exact .up node next link (ih next above)

section

variable (inside : ∀ node, parent node ≠ none → node ∈ nodes) (rootInside : root ∈ nodes)
include inside rootInside

theorem shortest_distinct (node : α)
    (climb : climbs parent root steps node = true) (shortest : ∀ fewer < steps, climbs parent root fewer node = false) :
    ∃ way : List α, way.Nodup ∧ way.length = steps + 1 ∧ way ⊆ nodes ∧ ∀ passed ∈ way, climbs parent root steps passed = true := by
  induction steps generalizing node with
  | zero =>
    have top : node = root := by simpa [climbs] using climb
    exact ⟨[node], by simp, by simp, by simpa [top] using rootInside, by simpa using climb⟩
  | succ steps ih =>
    have notRoot : node ≠ root := by
      intro same
      have := shortest 0 (by omega)
      simp [climbs, same] at this
    cases link : parent node with
    | none => simp [climbs, link, notRoot] at climb
    | some above =>
      have climbAbove : climbs parent root steps above = true := by simpa [climbs, link, notRoot] using climb
      obtain ⟨way, nodup, length, within, passes⟩ := ih above climbAbove (fun fewer less => by
        have := shortest (fewer + 1) (by omega)
        simpa [climbs, link, notRoot] using this)
      refine ⟨node :: way, List.nodup_cons.2 ⟨fun inWay => ?_, nodup⟩, by simp [length], ?_, fun passed member => ?_⟩
      · have := passes node inWay
        rw [shortest steps (by omega)] at this
        cases this
      · exact List.cons_subset.2 ⟨inside node (by rw [link]; simp), within⟩
      rcases List.mem_cons.1 member with rfl | later
      · exact climb
      · exact climbs_succ passed (passes passed later)

theorem reaches_within
    (reaches : Reaches parent root node) : climbs parent root nodes.length node = true := by
  have found := reaches_climbs reaches
  obtain ⟨way, nodup, length, within, _⟩ := shortest_distinct inside rootInside node (Nat.find_spec found)
    (fun fewer less => by simpa using Nat.find_min found less)
  have bound := (nodup.subperm within).length_le
  exact climbs_mono (by omega) (Nat.find_spec found)

end

end Reach

-- Named nodes with parents and children. links counts the names of a directory: its own two and one in each directory below it.
@[ext] structure Hierarchy (α ν : Type) where
  parent : α → Option α
  children : α → List α
  name : α → ν
  isDir : α → Bool
  links : α → Nat

namespace Hierarchy

variable (h : Hierarchy α ν) (root : α) (proper : ν → Prop)

def unlink (d c : α) : Hierarchy α ν := { h with
    parent := update h.parent c none
    children := update h.children d ((h.children d).erase c)
    links := update h.links d (if h.isDir c ∧ 0 < h.links d then h.links d - 1 else h.links d) }

def insert (d c : α) (name : ν) : Hierarchy α ν := { h with
    parent := update h.parent c (some d)
    children := update h.children d (c :: h.children d)
    name := update h.name c name
    links := update h.links d (if h.isDir c then h.links d + 1 else h.links d) }

structure Consistent : Prop where
  top : h.parent root = some root
  nodup : ∀ d, (h.children d).Nodup
  listed : ∀ d c, c ∈ h.children d ↔ c ≠ root ∧ h.parent c = some d

structure Tidy : Prop where
  distinct : ∀ d a b, a ∈ h.children d → b ∈ h.children d → h.name a = h.name b → a = b
  allowed : ∀ d a, a ∈ h.children d → proper (h.name a)
  counted : ∀ d, h.isDir d = true → h.parent d ≠ none → h.links d = 2 + (h.children d).countP h.isDir

structure Orderly : Prop extends Tidy h proper where
  reached : ∀ c, h.parent c ≠ none → Reaches h.parent root c

structure Agrees (other : Hierarchy α ν) : Prop where
  parent : other.parent = h.parent
  children : other.children = h.children
  name : ∀ c, h.parent c ≠ none → other.name c = h.name c
  isDir : ∀ c, h.parent c ≠ none → other.isDir c = h.isDir c
  links : ∀ c, h.parent c ≠ none → other.links c = h.links c

omit [DecidableEq α] in
theorem agrees_refl : h.Agrees h := ⟨rfl, rfl, fun _ _ => rfl, fun _ _ => rfl, fun _ _ => rfl⟩

variable {h root proper} {other : Hierarchy α ν} {name : ν}

omit [DecidableEq α] in
theorem agrees_trans {middle : Hierarchy α ν} (first : h.Agrees middle) (second : middle.Agrees other) : h.Agrees other := by
  have named : ∀ c, h.parent c ≠ none → middle.parent c ≠ none := fun c hasParent => by rwa [first.parent]
  exact ⟨second.parent.trans first.parent, second.children.trans first.children,
    fun c hasParent => (second.name c (named c hasParent)).trans (first.name c hasParent),
    fun c hasParent => (second.isDir c (named c hasParent)).trans (first.isDir c hasParent),
    fun c hasParent => (second.links c (named c hasParent)).trans (first.links c hasParent)⟩

omit [DecidableEq α] in
theorem consistent_agrees (consistent : h.Consistent root) (agrees : h.Agrees other) : other.Consistent root := by
  obtain ⟨top, nodup, listed⟩ := consistent
  rw [← agrees.parent] at top
  rw [← agrees.children] at nodup
  rw [← agrees.parent, ← agrees.children] at listed
  exact ⟨top, nodup, listed⟩

omit [DecidableEq α] in
theorem listed_named (consistent : h.Consistent root) (member : c ∈ h.children d) : h.parent c ≠ none := by
  rw [((consistent.listed d c).1 member).2]
  simp

theorem childless_leaf (consistent : h.Consistent root) (notRoot : c ≠ root) (childless : h.children c = []) (child : α) :
    h.parent child ≠ some c := by
  intro link
  by_cases top : child = root
  · rw [top, consistent.top, Option.some.injEq] at link
    exact notRoot link.symm
  have inside := (consistent.listed c child).2 ⟨top, link⟩
  rw [childless] at inside
  cases inside

omit [DecidableEq α] in
theorem orderly_agrees (consistent : other.Consistent root) (orderly : h.Orderly root proper) (agrees : h.Agrees other) :
    other.Orderly root proper := by
  have named : ∀ d c, c ∈ other.children d → c ∈ h.children d ∧ h.parent c ≠ none := by
    intro d c member
    have hasParent := listed_named consistent member
    rw [agrees.parent] at hasParent
    exact ⟨agrees.children ▸ member, hasParent⟩
  refine ⟨⟨fun d a b first second same => ?_, fun d a member => ?_, fun d isDir hasParent => ?_⟩, fun c hasParent => ?_⟩
  · obtain ⟨firstIn, firstNamed⟩ := named d a first
    obtain ⟨secondIn, secondNamed⟩ := named d b second
    rw [agrees.name a firstNamed, agrees.name b secondNamed] at same
    exact orderly.distinct d a b firstIn secondIn same
  · obtain ⟨inside, hasName⟩ := named d a member
    rw [agrees.name a hasName]
    exact orderly.allowed d a inside
  · rw [agrees.parent] at hasParent
    rw [agrees.isDir d hasParent] at isDir
    rw [agrees.links d hasParent, orderly.counted d isDir hasParent, ← agrees.children]
    congr 1
    exact List.countP_congr (fun c member => by rw [agrees.isDir c (named d c member).2])
  · rw [agrees.parent] at hasParent ⊢
    exact orderly.reached c hasParent

theorem tidy_unlink (tidy : h.Tidy proper) (member : c ∈ h.children d) : (h.unlink d c).Tidy proper := by
  have inside : ∀ j a, a ∈ (h.unlink d c).children j → a ∈ h.children j := by
    intro j a here
    by_cases same : j = d
    · simp only [unlink, same, update_self] at here
      exact same ▸ List.mem_of_mem_erase here
    · simpa only [unlink, update_of_ne same] using here
  refine ⟨fun j a b first second => tidy.distinct j a b (inside j a first) (inside j b second),
    fun j a here => tidy.allowed j a (inside j a here),
    fun j isDir hasParent => ?_⟩
  have before : h.parent j ≠ none := by
    by_cases same : j = c
    · simp [unlink, same] at hasParent
    · simpa [unlink, update_of_ne same] using hasParent
  have count := tidy.counted j isDir before
  by_cases same : j = d
  · subst same
    have erased := List.countP_erase h.isDir (h.children j) c
    simp only [unlink, update_self]
    by_cases dir : h.isDir c = true
    · have positive : 0 < (h.children j).countP h.isDir := List.countP_pos_iff.2 ⟨c, member, dir⟩
      rw [if_pos ⟨member, dir⟩] at erased
      rw [if_pos ⟨dir, by omega⟩, erased]
      omega
    rw [if_neg (fun both => dir both.2)] at erased
    rw [if_neg (fun both => dir both.1), erased]
    exact count
  · simpa only [unlink, update_of_ne same] using count

theorem tidy_insert (tidy : h.Tidy proper) (apart : c ≠ d) (unlisted : ∀ j, c ∉ h.children j)
    (absent : ∀ a ∈ h.children d, h.name a ≠ name) (allowed : proper name)
    (count : h.isDir c = true → h.links c = 2 + (h.children c).countP h.isDir) : (h.insert d c name).Tidy proper := by
  have member : ∀ j a, a ∈ (h.insert d c name).children j → a = c ∧ j = d ∨ a ≠ c ∧ a ∈ h.children j := by
    intro j a here
    have old : ∀ j, a ∈ h.children j → a ≠ c ∧ a ∈ h.children j := fun j inside => ⟨fun same => unlisted j (same ▸ inside), inside⟩
    by_cases same : j = d
    · simp only [insert, same, update_self, List.mem_cons] at here
      exact here.imp (fun new => ⟨new, same⟩) (fun inside => same ▸ old d inside)
    · simp only [insert, update_of_ne same] at here
      exact .inr (old j here)
  have nameOld : ∀ a, a ≠ c → (h.insert d c name).name a = h.name a := fun a other => by simp [insert, update_of_ne other]
  have nameNew : (h.insert d c name).name c = name := by simp [insert]
  refine ⟨fun j a b first second same => ?_, fun j a here => ?_, fun j isDir hasParent => ?_⟩
  · rcases member j a first with ⟨rfl, rfl⟩ | ⟨aOld, aIn⟩
    · rcases member j b second with ⟨rfl, _⟩ | ⟨bOld, bIn⟩
      · rfl
      · rw [nameNew, nameOld b bOld] at same
        exact absurd same.symm (absent b bIn)
    rcases member j b second with ⟨rfl, rfl⟩ | ⟨bOld, bIn⟩
    · rw [nameNew, nameOld a aOld] at same
      exact absurd same (absent a aIn)
    · rw [nameOld a aOld, nameOld b bOld] at same
      exact tidy.distinct j a b aIn bIn same
  · rcases member j a here with ⟨rfl, _⟩ | ⟨old, inside⟩
    · rw [nameNew]
      exact allowed
    · rw [nameOld a old]
      exact tidy.allowed j a inside
  by_cases isNew : j = c
  · subst isNew
    simpa only [insert, update_of_ne apart] using count isDir
  have before := tidy.counted j isDir (by simpa [insert, update_of_ne isNew] using hasParent)
  by_cases same : j = d
  · subst same
    simp only [insert, update_self, List.countP_cons]
    by_cases dir : h.isDir c = true
    · rw [if_pos dir, if_pos dir, before]
      omega
    · rw [if_neg dir, if_neg dir, before, Nat.add_zero]
  · simpa only [insert, update_of_ne same] using before

section

variable (consistent : h.Consistent root) (orderly : h.Orderly root proper)
include consistent orderly

theorem orderly_unlink (member : c ∈ h.children d)
    (childless : h.children c = []) : (h.unlink d c).Orderly root proper := by
  have leaf := childless_leaf consistent ((consistent.listed d c).1 member).1 childless
  refine ⟨tidy_unlink orderly.toTidy member, fun j hasParent => ?_⟩
  have other : j ≠ c := by
    rintro rfl
    simp [unlink] at hasParent
  refine reaches_cut leaf none (orderly.reached j ?_) other
  simpa [unlink, update_of_ne other] using hasParent

theorem orderly_insert (alone : h.parent c = none)
    (childless : h.children c = []) (named : h.parent d ≠ none) (absent : ∀ a ∈ h.children d, h.name a ≠ name) (allowed : proper name)
    (count : h.isDir c = true → h.links c = 2) : (h.insert d c name).Orderly root proper := by
  have apart : c ≠ d := by
    rintro rfl
    exact named alone
  have unlisted : ∀ j, c ∉ h.children j := by
    intro j inside
    have link := ((consistent.listed j c).1 inside).2
    rw [alone] at link
    cases link
  refine ⟨tidy_insert orderly.toTidy apart unlisted absent allowed (by simpa [childless] using count), fun j hasParent => ?_⟩
  have far := reaches_new alone (some d) (orderly.reached d named)
  by_cases isNew : j = c
  · exact .up j d (by simp [insert, isNew]) far
  · exact reaches_new alone (some d) (orderly.reached j (by simpa [insert, update_of_ne isNew] using hasParent))

omit [DecidableEq α] in
theorem nameless_childless (nameless : h.parent d = none) :
    h.children d = [] := by
  refine List.eq_nil_iff_forall_not_mem.2 (fun c member => ?_)
  obtain ⟨notRoot, link⟩ := (consistent.listed d c).1 member
  cases orderly.reached c (by rw [link]; simp) with
  | root => exact notRoot rfl
  | up _ above found rest =>
    rw [link, Option.some.injEq] at found
    exact reaches_named (by rw [consistent.top]; simp) rest (found ▸ nameless)

theorem orderly_move {e : α} (member : c ∈ h.children d)
    (apart : c ≠ e) (absent : ∀ a ∈ (h.unlink d c).children e, h.name a ≠ name) (allowed : proper name)
    (far : Reaches (update h.parent c (some e)) root e) : ((h.unlink d c).insert e c name).Orderly root proper := by
  obtain ⟨_, up⟩ := (consistent.listed d c).1 member
  have unlisted : ∀ j, c ∉ (h.unlink d c).children j := by
    intro j inside
    by_cases same : j = d
    · simp only [unlink, same, update_self] at inside
      exact (consistent.nodup d).not_mem_erase inside
    simp only [unlink, update_of_ne same] at inside
    have link := ((consistent.listed j c).1 inside).2
    rw [up, Option.some.injEq] at link
    exact same link.symm
  have notSelf : c ≠ d := by
    rintro rfl
    have reaches := orderly.reached c (by rw [up]; simp)
    have stuck : ∀ node, Reaches h.parent root node → node ≠ c := by
      intro node reaches
      induction reaches with
      | root => exact ((consistent.listed c c).1 member).1.symm
      | up node above link _ ih =>
        rintro rfl
        rw [up, Option.some.injEq] at link
        exact ih link.symm
    exact stuck c reaches rfl
  have count : (h.unlink d c).isDir c = true → (h.unlink d c).links c = 2 + ((h.unlink d c).children c).countP
    (h.unlink d c).isDir := by
    intro isDir
    simpa only [unlink, update_of_ne notSelf] using orderly.counted c isDir (by rw [up]; simp)
  have parents : ((h.unlink d c).insert e c name).parent = update h.parent c (some e) := by
    simp [insert, unlink]
  refine ⟨tidy_insert (tidy_unlink orderly.toTidy member) apart unlisted absent allowed count, fun j hasParent => ?_⟩
  rw [parents] at hasParent ⊢
  by_cases isMoved : j = c
  · exact .up j e (by rw [isMoved, update_self]) far
  · rw [update_of_ne isMoved] at hasParent
    exact reaches_redirect far (orderly.reached j hasParent)

end

end Hierarchy

end Lyr.Lib
