import Lyr.Fs.Path

set_option autoImplicit false

namespace Lyr.Fs

open Lyr.Lib

def IsName (name : Name) : Prop := name ≠ [] ∧ slash ∉ name

instance isNameDecidable (name : Name) : Decidable (IsName name) := inferInstanceAs (Decidable (name ≠ [] ∧ slash ∉ name))

theorem components_append (front back : Path) : components (front ++ slash :: back) = components front ++ components back := by
  have split : (front ++ slash :: back).splitOnP (· == slash) = front.splitOnP (· == slash) ++ back.splitOnP (· == slash) :=
    List.splitOnP_append_cons front back (beq_self_eq_true slash)
  rw [components, split, List.filter_append]
  rfl

variable {name : Name} {path short full d : Path} {names : List Name} {t : VfsTree} {cred : VfsCred} {cur next : Option Nat}
  {found : Option Nat × Path} {e : VfsError} {base : Nat}

theorem components_name (isName : IsName name) : components name = [name] := by
  have whole : name.splitOnP (· == slash) = [name] := by
    refine List.splitOnP_eq_singleton (fun byte inside => ?_)
    rw [beq_eq_false_iff_ne]
    exact fun same => isName.2 (same ▸ inside)
  rw [components, whole]
  simp [isName.1]

theorem components_joined (path : Path) (isName : IsName name) : components (joined path name) = components path ++ [name] := by
  rw [joined]
  split
  next root =>
    have split := components_append [] name
    rw [List.nil_append, components_name isName] at split
    rw [root, List.singleton_append, split]
    rfl
  · rw [components_append, components_name isName]

theorem split_cons (byte : UInt8) (path : Path) : ∃ first more, path.splitOnP (· == slash) = first :: more ∧
      (byte :: path).splitOnP (· == slash) = if byte = slash then [] :: first :: more else (byte :: first) :: more := by
  obtain ⟨first, more, split⟩ := List.exists_cons_of_ne_nil (List.splitOnP_ne_nil (· == slash) path)
  refine ⟨first, more, split, ?_⟩
  rw [List.splitOnP_cons_eq_if_modifyHead, split]
  simp only [beq_iff_eq, List.modifyHead_cons]

theorem split_no_slash (name : Name) (inside : name ∈ path.splitOnP (· == slash)) : slash ∉ name := by
  induction path generalizing name with
  | nil =>
    rw [List.splitOnP_nil, List.mem_singleton] at inside
    rw [inside]
    exact List.not_mem_nil
  | cons byte rest ih =>
    obtain ⟨first, more, split, whole⟩ := split_cons byte rest
    rw [split] at ih
    rw [whole] at inside
    split at inside
    · rcases List.mem_cons.mp inside with rfl | later
      · exact List.not_mem_nil
      · exact ih name later
    next other =>
      rcases List.mem_cons.mp inside with rfl | later
      · intro there
        rcases List.mem_cons.mp there with here | behind
        · exact other here.symm
        · exact ih first List.mem_cons_self behind
      · exact ih name (List.mem_cons_of_mem first later)

theorem component_is_name (inside : name ∈ components path) : IsName name := by
  obtain ⟨split, kept⟩ := List.mem_filter.mp inside
  refine ⟨fun empty => ?_, split_no_slash name split⟩
  rw [empty] at kept
  cases kept

def Relative (p : Path) : Prop := p ≠ [] ∧ p.head? ≠ some slash

def Normalised (d : Path) : Prop := ∃ names : List Name, (∀ name ∈ names, IsName name ∧ name ≠ dot ∧ name ≠ dotDot) ∧
      d = names.foldl joined [slash]

theorem components_descent (path : Path) (all : ∀ name ∈ names, IsName name) :
    components (names.foldl joined path) = components path ++ names := by
  induction names generalizing path with
  | nil => simp
  | cons name rest ih =>
    rw [List.foldl_cons, ih _ (fun other inside => all other (List.mem_cons_of_mem name inside)),
      components_joined path (all name List.mem_cons_self), List.append_assoc]
    rfl

theorem walk_append (t : VfsTree) (cred : VfsCred) (front back : List Name) (cur : Option Nat) (path : Path) :
    (walkPath t cred cur path (front ++ back)).result =
      (walkPath t cred cur path front).result >>= fun found => (walkPath t cred found.1 found.2 back).result := by
  induction front generalizing cur path with
  | nil => rfl
  | cons name rest ih =>
    rw [List.cons_append, walkPath, walkPath, result_bind, result_bind]
    cases (walkTurn t cred cur path name).result with
    | error e => rfl
    | ok next => exact ih next.1 next.2

theorem turn_path (turned : (walkTurn t cred cur path name).result = .ok found) : found.2 = joined path name := by
  rw [walkTurn, result_bind, bind_ok] at turned
  obtain ⟨next, _, turned⟩ := turned
  rw [result_bind, bind_ok] at turned
  obtain ⟨longer, appended, turned⟩ := turned
  rw [appendComponent] at appended
  split at appended
  · cases appended
  · cases turned
    exact (Except.ok.inj appended).symm

theorem walk_descent (cur : Option Nat) (path : Path)
    (walked : (walkPath t cred cur path names).result = .ok found) : found.2 = names.foldl joined path := by
  induction names generalizing cur path with
  | nil =>
    cases walked
    rfl
  | cons name rest ih =>
    rw [walkPath, result_bind, bind_ok] at walked
    obtain ⟨next, turned, walked⟩ := walked
    rw [ih next.1 next.2 walked, turn_path turned]
    rfl

theorem turn_error (path : Path) (looked : (walkLookup t cred cur name).result = .error e) :
    (walkTurn t cred cur path name).result = .error e := by
  rw [walkTurn, result_bind, looked]
  rfl

section

variable (looked : (walkLookup t cred cur name).result = .ok next)
include looked

theorem turn_long (long : PATH_CAP ≤ (joined path name).length) :
    (walkTurn t cred cur path name).result = .error (.fs .enametoolong) := by
  rw [walkTurn, result_bind, looked, appendComponent, if_pos long]
  rfl

theorem turn_short (short : (joined path name).length < PATH_CAP) :
    (walkTurn t cred cur path name).result = .ok (followMountAt t next (joined path name), joined path name) := by
  rw [walkTurn, result_bind, looked, appendComponent, if_neg (not_le.mpr short)]
  rfl

end

def reached (t : VfsTree) (cred : VfsCred) (cur : Option Nat) (path : Path) (names : List Name) : Except VfsError (Option Nat) :=
  (walkPath t cred cur path names).result.map Prod.fst

theorem reached_error (rest : List Name)
    (turned : (walkTurn t cred cur path name).result = .error e) : reached t cred cur path (name :: rest) = .error e := by
  rw [reached, walkPath, result_bind, turned]
  rfl

theorem reached_cons (rest : List Name) {next : Option Nat × Path} (turned : (walkTurn t cred cur path name).result = .ok next) :
    reached t cred cur path (name :: rest) = reached t cred next.1 next.2 rest := by
  rw [reached, walkPath, result_bind, turned]
  rfl

theorem reached_append {front : List Name} (back : List Name) (walked : (walkPath t cred cur path front).result = .ok found) :
    reached t cred cur path (front ++ back) = reached t cred found.1 found.2 back := by
  rw [reached, walk_append, walked]
  rfl

-- As long as the walk goes on, both paths lead through the mounts to one node, and the full one is not too long before the other.
def MountsAgree (t : VfsTree) (cred : VfsCred) : Option Nat → Path → Path → List Name → Prop
  | _, _, _, [] => True
  | cur, short, full, name :: rest =>
    ∀ next, (walkLookup t cred cur name).result = .ok next → (joined short name).length < PATH_CAP →
      (joined full name).length < PATH_CAP ∧ followMountAt t next (joined short name) = followMountAt t next (joined full name) ∧
        MountsAgree t cred (followMountAt t next (joined short name)) (joined short name) (joined full name) rest

structure Shorter (short full : Path) : Prop where
  length : short.length ≤ full.length
  root : full = [slash] → short = [slash]

theorem joined_length (path : Path) (name : Name) :
    (joined path name).length = (if path = [slash] then 1 else path.length + 1) + name.length := by
  rw [joined]
  split
  next root => rw [root, List.length_append, List.length_singleton]
  · rw [List.length_append, List.length_cons, Nat.add_right_comm, Nat.add_assoc]

theorem shorter_joined (nonempty : name ≠ []) (shorter : Shorter short full) : Shorter (joined short name) (joined full name) := by
  have length : (joined short name).length ≤ (joined full name).length := by
    rw [joined_length, joined_length]
    have bound := shorter.length
    split
    · split <;> omega
    split
    next isRoot => exact absurd (shorter.root isRoot) ‹_›
    · omega
  refine ⟨length, fun isRoot => ?_⟩
  have one : (joined full name).length = 1 := by rw [isRoot]; rfl
  rw [joined_length] at one
  have more : 0 < name.length := List.length_pos_iff.mpr nonempty
  split at one <;> omega

theorem mounts_agree_iff (t : VfsTree) (cred : VfsCred) (cur : Option Nat) (short full : Path)
    (nonempty : ∀ name ∈ names, name ≠ []) (shorter : Shorter short full) :
    MountsAgree t cred cur short full names ↔ ∀ front, front <+: names →
      reached t cred cur short front = reached t cred cur full front := by
  induction names generalizing cur short full with
  | nil =>
    refine ⟨fun _ front isPrefix => ?_, fun _ => trivial⟩
    rw [List.prefix_nil.mp isPrefix]
    rfl
  | cons name rest ih =>
    have longer := shorter_joined (nonempty name List.mem_cons_self) shorter
    have later (next : Option Nat) := ih next (joined short name) (joined full name)
      (fun other inside => nonempty other (List.mem_cons_of_mem name inside)) longer
    constructor
    · intro agree front isPrefix
      rcases List.prefix_cons_iff.mp isPrefix with rfl | ⟨more, rfl, within⟩
      · rfl
      cases looked : (walkLookup t cred cur name).result with
      | error e => rw [reached_error more (turn_error short looked), reached_error more (turn_error full looked)]
      | ok next =>
        by_cases fits : (joined short name).length < PATH_CAP
        · obtain ⟨fullFits, same, goesOn⟩ := agree next looked fits
          rw [reached_cons more (turn_short looked fits), reached_cons more (turn_short looked fullFits)]
          rw [← same]
          exact (later _).mp goesOn more within
        · have fullLong : PATH_CAP ≤ (joined full name).length := Nat.le_trans (not_lt.mp fits) longer.length
          rw [reached_error more (turn_long looked (not_lt.mp fits)), reached_error more (turn_long looked fullLong)]
    intro all next looked fits
    have turned := turn_short looked fits
    have first := all [name] ⟨rest, rfl⟩
    rw [reached_cons [] turned] at first
    by_cases fullFits : (joined full name).length < PATH_CAP
    · have fullTurned := turn_short looked fullFits
      rw [reached_cons [] fullTurned] at first
      have same : followMountAt t next (joined short name) = followMountAt t next (joined full name) := Except.ok.inj first
      refine ⟨fullFits, same, (later _).mpr (fun front isPrefix => ?_)⟩
      have both := all (name :: front) (List.prefix_cons_inj name |>.mpr isPrefix)
      rw [reached_cons front turned, reached_cons front fullTurned] at both
      exact both.trans (by rw [same])
    · rw [reached_error [] (turn_long looked (not_lt.mp fullFits))] at first
      cases first

theorem descent_relative {first : Name} (rest : List Name) (isName : IsName first) : Relative (rest.foldl joined first) := by
  have kept (path : Path) (relative : Relative path) (name : Name) : Relative (joined path name) := by
    obtain ⟨byte, more, rfl⟩ := List.exists_cons_of_ne_nil relative.1
    have other := relative.2
    rw [joined]
    split
    next root =>
      rw [root] at other
      exact absurd rfl other
    · exact ⟨List.cons_ne_nil _ _, other⟩
  have start : Relative first := by
    obtain ⟨byte, more, rfl⟩ := List.exists_cons_of_ne_nil isName.1
    refine ⟨isName.1, fun same => isName.2 ?_⟩
    rw [List.head?_cons, Option.some.injEq] at same
    rw [same]
    exact List.mem_cons_self
  have all (rest : List Name) (path : Path) (relative : Relative path) : Relative (rest.foldl joined path) := by
    induction rest generalizing path with
    | nil => exact relative
    | cons name rest ih => exact ih (joined path name) (kept path relative name)
  exact all rest first start

theorem resolve_at_reached (cred : VfsCred) {q : Path} (root : t.root ≠ none) (dir : t.isDir base = true) (relative : Relative q) :
    (vfsResolveAt t (some base) q cred).result = reached t cred (followMountAt t (some base) [slash]) [slash] (components q) := by
  rw [vfsResolveAt, if_neg (not_or.mpr ⟨root, relative.1⟩), if_neg relative.2]
  simp only [dir, Bool.not_true, Bool.false_eq_true, if_false]
  rw [reached, result_bind]
  rfl

theorem resolve_reached {t : VfsTree} (cred : VfsCred) {path : Path} (root : t.root ≠ none) (absolute : path.head? = some slash) :
    (vfsResolve t path cred).result = reached t cred (followMountAt t t.root [slash]) [slash] (components path) := by
  have some : path ≠ [] := fun empty => by
    rw [empty] at absolute
    cases absolute
  rw [vfsResolve, if_neg (not_not.mpr absolute), vfsResolveAt, if_neg (not_or.mpr ⟨root, some⟩), if_pos absolute]
  simp only
  rw [reached, result_bind]
  rfl

theorem normalised_absolute (names : List Name) (path : Path) (absolute : path.head? = some slash) :
    (names.foldl joined path).head? = some slash := by
  induction names generalizing path with
  | nil => exact absolute
  | cons name rest ih =>
    refine ih (joined path name) ?_
    rw [joined]
    split <;> rw [List.head?_append, absolute] <;> rfl

theorem resolve_has_root {node : Option Nat} (resolved : (vfsResolve t d cred).result = .ok node) : t.root ≠ none := by
  intro none
  rw [vfsResolve] at resolved
  split at resolved
  · cases resolved
  · rw [vfsResolveAt, if_pos (.inl none)] at resolved
    cases resolved

theorem resolve_full (q : Path) (normal : Normalised d) (resolved : (vfsResolve t d cred).result = .ok (some base)) :
    (vfsResolve t (d ++ slash :: q) cred).result = reached t cred (some base) d (components q) := by
  have root := resolve_has_root resolved
  obtain ⟨names, all, descent⟩ := normal
  have absolute : d.head? = some slash := descent ▸ normalised_absolute names [slash] rfl
  have split : components d = names := by
    rw [descent, components_descent [slash] (fun name inside => (all name inside).1)]
    rfl
  have longer : (d ++ slash :: q).head? = some slash := by
    rw [List.head?_append, absolute]
    rfl
  rw [resolve_reached cred root absolute, split, reached, map_ok] at resolved
  obtain ⟨found, walked, isBase⟩ := resolved
  rw [resolve_reached cred root longer, components_append, split, reached_append (components q) walked, isBase,
    walk_descent _ _ walked, descent]

def smallTree (mounts : List Mount) : VfsTree where
  node := fun _ => ⟨0o040755, 0, 0, 0, some 0⟩
  ops := fun _ => ⟨true, true, true, true, true, true, true, true, true⟩
  lookup := fun dir name =>
    if dir = 0 ∧ name = [97] then .ok (some 1)
    else if dir = 0 ∧ name = [98] then .ok (some 2)
    else if dir = 1 ∧ name = [98] then .ok (some 3)
    else .error .enoent
  read := fun _ _ => .error .einval
  root := some 0
  mounts := mounts

def someUser : VfsCred := { uid := 1000, gid := 1000, groups := [], umask := 0o022 }

end Lyr.Fs
