import Lyr.Fs.PathAgree

set_option autoImplicit false

namespace Lyr.Sys

open Lyr.Lib Lyr.Fs

def SYS_PATH_MAX : Nat := 512

-- The last byte first: a name goes, up to a slash or the first byte.
def dropName : List UInt8 → List UInt8
  | byte :: next :: rest => if byte = slash then byte :: next :: rest else dropName (next :: rest)
  | short => short

def popComponent (out : List UInt8) : List UInt8 :=
  if out.length > 1 then dropName (if out.head? = some slash then out.tail else out) else out

def separated (out : List UInt8) : List UInt8 := if out.length > 1 then slash :: out else out

def normalizeTurn (outLen : Nat) (out : List UInt8) (name : Name) : Except Errno (List UInt8) :=
  if name = dot then .ok out
  else if name = dotDot then .ok (popComponent out)
  else if out.length > 1 ∧ out.length + 1 ≥ outLen then .error .enametoolong
  else if (separated out).length + name.length ≥ outLen then .error .enametoolong
  else .ok (name.reverse ++ separated out)

-- tmp: the input, behind the working directory if relative.
def absolutePath (cwd input : Path) : Except Errno Path :=
  if input.head? = some slash then if input.length ≥ SYS_PATH_MAX then .error .enametoolong else .ok input
  else
    let between := if cwd.length = 1 ∧ cwd.head? = some slash then [] else [slash]
    if cwd.length + between.length + input.length ≥ SYS_PATH_MAX then .error .enametoolong else .ok (cwd ++ between ++ input)

def syscallNormalizePath (cwd input : Path) (outLen : Nat) : Except Errno Path :=
  if outLen < 2 ∨ input = [] then .error .einval
  else do
    let tmp ← absolutePath cwd input
    let out ← (components tmp).foldlM (normalizeTurn outLen) [slash]
    .ok out.reverse

-- The names the components leave, its top first.
def stackTurn (stack : List Name) (name : Name) : List Name :=
  if name = dot then stack else if name = dotDot then stack.tail else name :: stack

def inputComponents (cwd input : Path) : List Name := (if input.head? = some slash then [] else components cwd) ++ components input

def rendered (stack : List Name) : Path := if stack = [] then [slash] else stack.reverse.flatMap (slash :: ·)

-- A name counts one, or two right behind a "..", which takes one off. back is set by a ".." short of the root, until the root is
-- reached.
structure Trail where
  height : Nat
  turned : Bool
  back : Bool
  deriving DecidableEq, Repr

def Trail.turn (trail : Trail) (name : Name) : Trail :=
  if name = dot then trail
  else if name = dotDot then if trail.height ≤ 1 then ⟨0, false, false⟩ else ⟨trail.height - 1, true, true⟩
  else ⟨trail.height + (if trail.turned then 2 else 1), false, trail.back⟩

def Outward (names : List Name) : Prop := (names.foldl Trail.turn ⟨0, false, false⟩).back = false

instance (names : List Name) : Decidable (Outward names) := inferInstanceAs (Decidable (_ = _))

def spell : List (Name × Nat) → List UInt8
  | [] => [slash]
  | (name, slashes) :: below => List.replicate slashes slash ++ (name.reverse ++ spell below)

def levelTurn (levels : List (Name × Nat)) (name : Name) : List (Name × Nat) :=
  if name = dot then levels
  else match levels with
    | [] => if name = dotDot then [] else [(name, 0)]
    | (top, slashes) :: below =>
      if name = dotDot then if slashes ≤ 1 then below else (top, slashes - 1) :: below
      else (name, 0) :: (top, slashes + 1) :: below

structure Spelled (levels : List (Name × Nat)) : Prop where
  names : ∀ level ∈ levels, IsName level.1
  between : ∀ level ∈ levels.tail, 1 ≤ level.2

def neat : List Name → List (Name × Nat)
  | [] => []
  | top :: below => (top, 0) :: below.map (·, 1)

def distance : List (Name × Nat) → Nat
  | [] => 0
  | (_, slashes) :: below => max 1 slashes + (below.map Prod.snd).sum

variable {levels : List (Name × Nat)} {name : Name} {out : List UInt8} {outLen : Nat} {stack names : List Name} {slashes : Nat}
    {after bytes rest : List UInt8}

theorem spell_head (spelled : Spelled ((name, outLen) :: levels)) : ∃ rest, spell levels = slash :: rest := by
  cases levels with
  | nil => exact ⟨[], rfl⟩
  | cons level below =>
    obtain ⟨slashes, more⟩ := Nat.exists_eq_add_of_le' (spelled.between level (by simp))
    rw [spell, more, List.replicate_succ]
    exact ⟨_, rfl⟩

theorem spelled_below {level : Name × Nat} (spelled : Spelled (level :: levels)) : Spelled levels :=
  ⟨fun other inside => spelled.names other (by simp [inside]), fun other inside => spelled.between other
    (List.mem_of_mem_tail inside)⟩

section

variable (spelled : Spelled ((name, slashes) :: levels))
include spelled

theorem spelled_top {other : Nat} : Spelled ((name, other) :: levels) := by
  refine ⟨fun level inside => ?_, spelled.between⟩
  obtain rfl | later := List.mem_cons.mp inside
  · exact spelled.names (name, slashes) (List.mem_cons_self ..)
  · exact spelled.names level (by simp [later])

theorem spell_long : (spell ((name, slashes) :: levels)).length > 1 := by
  obtain ⟨rest, head⟩ := spell_head spelled
  have positive : 0 < name.length := List.length_pos_of_ne_nil (spelled.names (name, slashes) (List.mem_cons_self ..)).1
  rw [spell, head]
  simp only [List.length_append, List.length_replicate, List.length_reverse, List.length_cons]
  omega

omit spelled in
theorem drop_name_bytes (rest : List UInt8) (noSlash : slash ∉ bytes) : dropName (bytes ++ slash :: rest) = slash :: rest := by
  induction bytes with
  | nil => cases rest <;> simp [dropName]
  | cons byte more ih =>
    rw [List.mem_cons, not_or] at noSlash
    have tail := ih noSlash.2
    cases more with
    | nil | cons => simpa [dropName, Ne.symm noSlash.1] using tail

theorem pop_spell :
    popComponent (spell ((name, slashes) :: levels)) = spell (if slashes ≤ 1 then levels else (name, slashes - 1) :: levels) := by
  obtain ⟨rest, head⟩ := spell_head spelled
  obtain ⟨nonempty, absent⟩ := spelled.names (name, slashes) (List.mem_cons_self ..)
  have noSlash : slash ∉ name.reverse := fun inside => absent (List.mem_reverse.mp inside)
  have top : name.reverse.head? ≠ some slash := fun same => noSlash (List.mem_of_mem_head? same)
  have gone : dropName (name.reverse ++ spell levels) = spell levels := by
    rw [head]
    exact drop_name_bytes _ noSlash
  rw [popComponent, if_pos (spell_long spelled)]
  match slashes with
  | 0 =>
    have first : (name.reverse ++ spell levels).head? = name.reverse.head? := List.head?_append_of_ne_nil _ (by simpa using nonempty)
    rw [spell, List.replicate_zero, List.nil_append, if_pos (Nat.zero_le 1), if_neg (first ▸ top)]
    exact gone
  | 1 => exact gone
  | more + 2 =>
    rw [if_neg (show ¬ more + 2 ≤ 1 by omega)]
    exact drop_name_bytes (List.replicate more slash ++ (name.reverse ++ spell levels)) List.not_mem_nil

end

theorem turn_spell (isName : IsName name) (spelled : Spelled levels) (done : normalizeTurn outLen (spell levels) name = .ok out) :
    out = spell (levelTurn levels name) ∧ Spelled (levelTurn levels name) := by
  rw [normalizeTurn] at done
  rw [levelTurn.eq_def]
  split at done
  next here =>
    cases done
    rw [if_pos here]
    exact ⟨rfl, spelled⟩
  next notDot =>
    rw [if_neg notDot]
    split at done
    next up =>
      cases done
      cases levels with
      | nil =>
        simp only [if_pos up]
        exact ⟨rfl, spelled⟩
      | cons level below =>
        simp only [if_pos up]
        refine ⟨pop_spell spelled, ?_⟩
        split
        · exact spelled_below spelled
        · exact spelled_top spelled
    next notUp =>
      split at done
      · cases done
      split at done
      · cases done
      cases done
      rw [separated]
      cases levels with
      | nil =>
        simp only [if_neg notUp]
        exact ⟨rfl, ⟨by simpa using isName, by simp⟩⟩
      | cons level below =>
        simp only [if_neg notUp, if_pos (spell_long spelled)]
        refine ⟨rfl, ⟨fun other inside => ?_, fun other inside => ?_⟩⟩
        · obtain rfl | inside := List.mem_cons.mp inside
          · exact isName
          · exact (spelled_top spelled).names other inside
        obtain rfl | inside := List.mem_cons.mp inside
        · exact Nat.le_add_left ..
        · exact spelled.between other inside

theorem turns_spell (isNames : ∀ name ∈ names, IsName name) (spelled : Spelled levels)
    (done : names.foldlM (normalizeTurn outLen) (spell levels) = .ok out) :
    out = spell (names.foldl levelTurn levels) ∧ Spelled (names.foldl levelTurn levels) := by
  induction names generalizing levels with
  | nil =>
    cases done
    exact ⟨rfl, spelled⟩
  | cons name rest ih =>
    rw [List.foldlM_cons, bind_ok] at done
    obtain ⟨middle, turned, done⟩ := done
    obtain ⟨rfl, next⟩ := turn_spell (isNames name (by simp)) spelled turned
    exact ih (fun later inside => isNames later (by simp [inside])) next done

-- The output is neat unless the path went back since it was last at the root.
structure Beside (trail : Trail) (stack : List Name) (levels : List (Name × Nat)) : Prop where
  height : trail.height = distance levels
  turned : trail.turned = levels.head?.any (fun level => 1 ≤ level.2)
  shorter : stack.length ≤ levels.length
  tidy : trail.back = false → levels = neat stack
  slack : trail.back = true → levels ≠ neat (levels.map Prod.fst)

variable {trail : Trail}

theorem beside_up (spelled : Spelled levels) (beside : Beside trail stack levels) :
    Beside (trail.turn dotDot) (stackTurn stack dotDot) (levelTurn levels dotDot) := by
  obtain ⟨height, turned, shorter, tidy, slack⟩ := beside
  have notDot : ¬ dotDot = dot := by decide
  rw [Trail.turn, if_neg notDot, if_pos rfl, stackTurn, if_neg notDot, if_pos rfl]
  have root (empty : stack.tail.length ≤ 0) : Beside ⟨0, false, false⟩ stack.tail [] :=
    ⟨rfl, rfl, empty, fun _ => by rw [List.length_eq_zero_iff.mp (Nat.le_zero.mp empty)]; rfl, nofun⟩
  match levels with
  | [] =>
    rw [if_pos (show trail.height ≤ 1 by rw [height]; exact Nat.zero_le 1)]
    exact root (by rw [List.length_tail]; exact Nat.le_trans (Nat.sub_le ..) shorter)
  | (top, slashes) :: below =>
    rw [List.length_cons] at shorter
    rw [distance] at height
    have fewer : stack.tail.length ≤ below.length := by
      rw [List.length_tail]
      omega
    simp only [levelTurn, if_neg notDot, if_true]
    by_cases one : slashes ≤ 1
    · rw [if_pos one]
      match below with
      | [] =>
        rw [if_pos (show trail.height ≤ 1 by rw [height]; simp only [List.map_nil, List.sum_nil]; omega)]
        exact root fewer
      | (next, more) :: deeper =>
        have positive : 1 ≤ more := spelled.between (next, more) (by simp)
        simp only [List.map_cons, List.sum_cons] at height
        rw [if_neg (show ¬ trail.height ≤ 1 by omega)]
        refine ⟨?_, by simp [positive], fewer, nofun, fun _ same => ?_⟩
        · rw [distance]
          dsimp only
          omega
        · simp only [List.map_cons, neat, List.cons.injEq, Prod.mk.injEq] at same
          omega
    rw [if_neg one, if_neg (show ¬ trail.height ≤ 1 by omega)]
    refine ⟨?_, ?_, ?_, nofun, fun _ same => ?_⟩
    · rw [distance]
      dsimp only
      omega
    · exact (decide_eq_true (show 1 ≤ slashes - 1 by omega)).symm
    · rw [List.length_cons]
      omega
    · simp only [List.map_cons, neat, List.cons.injEq, Prod.mk.injEq] at same
      omega

theorem beside_push (notDot : name ≠ dot) (notUp : name ≠ dotDot) (beside : Beside trail stack levels) :
    Beside (trail.turn name) (stackTurn stack name) (levelTurn levels name) := by
  obtain ⟨height, turned, shorter, tidy, slack⟩ := beside
  rw [Trail.turn, if_neg notDot, if_neg notUp, stackTurn, if_neg notDot, if_neg notUp]
  match levels with
  | [] =>
    simp only [levelTurn, if_neg notDot, if_neg notUp]
    have empty : stack = [] := List.length_eq_zero_iff.mp (Nat.le_zero.mp shorter)
    refine ⟨?_, rfl, by simp [empty], fun _ => by rw [empty]; rfl, fun back => absurd rfl (slack back)⟩
    rw [height, turned]
    rfl
  | (top, slashes) :: below =>
    simp only [levelTurn, if_neg notDot, if_neg notUp]
    refine ⟨?_, rfl, by simpa using shorter, fun back => ?_, fun back same => ?_⟩
    · simp only [distance, List.head?_cons, Option.any_some] at height turned
      simp only [distance, turned, height, decide_eq_true_eq, List.map_cons, List.sum_cons]
      split <;> omega
    · cases stack with
      | nil => cases tidy back
      | cons last rest =>
        have same := tidy back
        simp only [neat, List.cons.injEq, Prod.mk.injEq] at same
        obtain ⟨⟨rfl, rfl⟩, rfl⟩ := same
        rfl
    simp only [List.map_cons, neat, List.cons.injEq, Prod.mk.injEq, true_and] at same
    refine slack back ?_
    rw [List.map_cons, neat, ← same.2, Nat.succ.inj same.1]

theorem beside_turns (isNames : ∀ name ∈ names, IsName name) (spelled : Spelled levels) (beside : Beside trail stack levels)
    (done : names.foldlM (normalizeTurn outLen) (spell levels) = .ok out) :
    Beside (names.foldl Trail.turn trail) (names.foldl stackTurn stack) (names.foldl levelTurn levels) := by
  induction names generalizing trail stack levels with
  | nil => exact beside
  | cons name rest ih =>
    rw [List.foldlM_cons, bind_ok] at done
    obtain ⟨middle, turned, done⟩ := done
    obtain ⟨rfl, next⟩ := turn_spell (isNames name (by simp)) spelled turned
    refine ih (fun later inside => isNames later (by simp [inside])) next ?_ done
    by_cases here : name = dot
    · subst here
      exact beside
    by_cases up : name = dotDot
    · subst up
      exact beside_up spelled beside
    · exact beside_push here up beside

theorem neat_spelled (isNames : ∀ name ∈ stack, IsName name) : Spelled (neat stack) := by
  cases stack with
  | nil => exact ⟨by simp [neat], by simp [neat]⟩
  | cons top below => exact ⟨by simpa [neat] using isNames, by simp [neat]⟩

theorem name_first (noSlash : slash ∉ bytes) : (bytes ++ slash :: rest).span (· != slash) = (bytes, slash :: rest) := by
  have all : ∀ byte ∈ bytes, (byte != slash) = true := fun byte inside => bne_iff_ne.mpr (fun same => noSlash (same ▸ inside))
  rw [List.span_eq_takeWhile_dropWhile, List.takeWhile_append_of_pos all, List.dropWhile_append_of_pos all]
  simp

theorem slashes_first {count : Nat} (other : rest.head? ≠ some slash) :
    (List.replicate count slash ++ rest).span (· == slash) = (List.replicate count slash, rest) := by
  have all : ∀ byte ∈ List.replicate count slash, (byte == slash) = true := fun byte inside =>
    beq_iff_eq.mpr (List.eq_of_mem_replicate inside)
  rw [List.span_eq_takeWhile_dropWhile, List.takeWhile_append_of_pos all, List.dropWhile_append_of_pos all]
  cases rest with
  | nil => simp
  | cons byte more =>
    have differs : byte ≠ slash := by simpa using other
    simp [differs]

theorem spell_injective {other : List (Name × Nat)} (spelled : Spelled levels) (others : Spelled other)
    (same : spell levels = spell other) :
    levels = other := by
  induction levels generalizing other with
  | nil =>
    cases other with
    | nil => rfl
    | cons level below =>
      have long := spell_long others
      rw [← same] at long
      exact absurd long (Nat.lt_irrefl 1)
  | cons level below ih =>
    obtain ⟨name, slashes⟩ := level
    cases other with
    | nil =>
      have long := spell_long spelled
      rw [same] at long
      exact absurd long (Nat.lt_irrefl 1)
    | cons level deeper =>
      obtain ⟨name', slashes'⟩ := level
      obtain ⟨rest, head⟩ := spell_head spelled
      obtain ⟨rest', head'⟩ := spell_head others
      have first (name : Name) (isName : IsName name) (rest : List UInt8) : (name.reverse ++ rest).head? ≠ some slash := by
        rw [List.head?_append_of_ne_nil _ (by simpa using isName.1)]
        exact fun same => isName.2 (List.mem_reverse.mp (List.mem_of_mem_head? same))
      have isName := spelled.names (name, slashes) (List.mem_cons_self ..)
      have isName' := others.names (name', slashes') (List.mem_cons_self ..)
      have cut := congrArg (fun bytes => List.span (· == slash) bytes) same
      simp only [spell, slashes_first (first name isName _), slashes_first (first name' isName' _), Prod.mk.injEq] at cut
      have count : slashes = slashes' := by simpa using congrArg List.length cut.1
      have bytes := congrArg (fun bytes => List.span (· != slash) bytes) cut.2
      simp only [head, head', name_first (fun inside => isName.2 (List.mem_reverse.mp inside)),
        name_first (fun inside => isName'.2 (List.mem_reverse.mp inside)), Prod.mk.injEq] at bytes
      have names : name = name' := List.reverse_injective bytes.1
      rw [names, count, ih (spelled_below spelled) (spelled_below others) (by rw [head, head', bytes.2])]

theorem lower_rendered (below : List Name) : (spell (below.map (·, 1))).reverse = below.reverse.flatMap (slash :: ·) ++ [slash] := by
  induction below with
  | nil => rfl
  | cons name rest ih => simp [spell, ih]

theorem neat_rendered (stack : List Name) : (spell (neat stack)).reverse = rendered stack := by
  cases stack with
  | nil => rfl
  | cons top below => simp [neat, spell, rendered, lower_rendered]

def weight (names : List Name) : Nat := (names.map (fun name => name.length + 1)).sum

theorem neat_length (stack : List Name) : (spell (neat stack)).length = max 1 (weight stack) := by
  rw [← List.length_reverse, neat_rendered, rendered]
  cases stack with
  | nil => rfl
  | cons top below =>
    simp only [reduceCtorEq, if_false, List.length_flatMap, List.length_cons, weight, List.map_cons, List.sum_cons, List.map_reverse,
      List.sum_reverse]
    exact (Nat.max_eq_right (Nat.le_trans (Nat.le_add_left 1 _) (Nat.le_add_right _ _))).symm

theorem stack_weight (names stack : List Name) : weight (names.foldl stackTurn stack) ≤ weight names + weight stack := by
  induction names generalizing stack with
  | nil => simp [weight]
  | cons name rest ih =>
    refine Nat.le_trans (ih _) ?_
    rw [stackTurn]
    cases stack <;> split <;> (try split) <;> simp [weight] <;> omega

theorem components_weight (path : Path) : weight (components path) ≤ path.length + 1 := by
  have whole : weight (path.splitOnP (· == slash)) = path.length + 1 := by
    induction path with
    | nil => rfl
    | cons byte rest ih =>
      obtain ⟨first, more, split, after⟩ := split_cons byte rest
      rw [split] at ih
      rw [after]
      simp only [weight, List.map_cons, List.sum_cons, List.length_cons] at ih ⊢
      split <;> simp only [List.map_cons, List.sum_cons, List.length_cons, List.length_nil] <;> omega
  rw [← whole]
  exact List.Sublist.sum_le_sum (List.filter_sublist.map _) (fun _ _ => Nat.zero_le _)

theorem components_rendered (isNames : ∀ name ∈ names, IsName name) : components (names.flatMap (slash :: ·)) = names := by
  induction names with
  | nil => rfl
  | cons name rest ih =>
    have isName := isNames name (List.mem_cons_self ..)
    have later := ih (fun other inside => isNames other (by simp [inside]))
    rw [List.flatMap_cons, List.cons_append]
    refine (components_append [] _).trans ?_
    cases rest with
    | nil => simpa [show components [] = [] from rfl] using components_name isName
    | cons next more =>
      rw [List.flatMap_cons, List.cons_append] at later ⊢
      rw [components_append, components_name isName, ← (components_append [] _).symm.trans later]
      rfl

theorem push_names (isNames : ∀ name ∈ names, IsName name ∧ name ≠ dot ∧ name ≠ dotDot) (held : ∀ name ∈ stack, IsName name)
    (room : max 1 (weight (names.reverse ++ stack)) < outLen) :
    names.foldlM (normalizeTurn outLen) (spell (neat stack)) = .ok (spell (neat (names.reverse ++ stack))) := by
  induction names generalizing stack with
  | nil => rfl
  | cons name rest ih =>
    obtain ⟨isName, notDot, notUp⟩ := isNames name (List.mem_cons_self ..)
    have same : (name :: rest).reverse ++ stack = rest.reverse ++ name :: stack := by simp
    rw [same] at room ⊢
    have size := neat_length stack
    have larger : weight (rest.reverse ++ name :: stack) = weight rest.reverse + (name.length + 1 + weight stack) := by simp [weight]
    have next : (separated (spell (neat stack))).length + name.length = (spell (neat (name :: stack))).length ∧
        name.reverse ++ separated (spell (neat stack)) = spell (neat (name :: stack)) := by
      rw [separated]
      cases stack with
      | nil => exact ⟨by simp [neat, spell]; omega, rfl⟩
      | cons top below =>
        rw [if_pos (show (spell (neat (top :: below))).length > 1 from spell_long (neat_spelled held))]
        exact ⟨by simp [neat, spell]; omega, rfl⟩
    have turned : normalizeTurn outLen (spell (neat stack)) name = .ok (spell (neat (name :: stack))) := by
      have length := neat_length (name :: stack)
      have grown : weight (name :: stack) = name.length + 1 + weight stack := by simp [weight]
      rw [normalizeTurn, if_neg notDot, if_neg notUp, if_neg (by omega), if_neg (by omega), next.2]
    rw [List.foldlM_cons, turned]
    exact ih (fun other inside => isNames other (by simp [inside])) (List.forall_mem_cons.mpr ⟨isName, held⟩) room

theorem turn_room (room : out.length < outLen) (done : normalizeTurn outLen out name = .ok after) : after.length < outLen := by
  have dropped (bytes : List UInt8) : (dropName bytes).length ≤ bytes.length := by
    induction bytes with
    | nil => exact Nat.le_refl _
    | cons byte rest ih =>
      cases rest with
      | nil => exact Nat.le_refl _
      | cons next more =>
        rw [dropName]
        split
        · exact Nat.le_refl _
        · exact Nat.le_succ_of_le ih
  rw [normalizeTurn] at done
  split at done
  · exact Except.ok.inj done ▸ room
  split at done
  · rw [← Except.ok.inj done, popComponent]
    split
    · refine Nat.lt_of_le_of_lt (dropped _) ?_
      split
      · exact Nat.lt_of_le_of_lt (by simp) room
      · exact room
    · exact room
  split at done
  · cases done
  split at done
  · cases done
  next fits =>
    rw [← Except.ok.inj done, List.length_append, List.length_reverse]
    omega

theorem turns_room (room : out.length < outLen) (done : names.foldlM (normalizeTurn outLen) out = .ok after) :
    after.length < outLen := by
  induction names generalizing out with
  | nil => exact Except.ok.inj done ▸ room
  | cons name rest ih =>
    rw [List.foldlM_cons, bind_ok] at done
    obtain ⟨middle, turned, done⟩ := done
    exact ih (turn_room room turned) done

theorem stack_names (stack : List Name) (isNames : ∀ name ∈ names, IsName name)
    (held : ∀ name ∈ stack, IsName name ∧ name ≠ dot ∧ name ≠ dotDot) :
    ∀ name ∈ names.foldl stackTurn stack, IsName name ∧ name ≠ dot ∧ name ≠ dotDot := by
  induction names generalizing stack with
  | nil => exact held
  | cons name rest ih =>
    refine ih _ (fun other inside => isNames other (by simp [inside])) ?_
    rw [stackTurn]
    split
    · exact held
    split
    · exact fun other inside => held other (List.mem_of_mem_tail inside)
    · exact List.forall_mem_cons.mpr ⟨⟨isNames name (by simp), ‹_›, ‹_›⟩, held⟩

theorem absolute_path_components {cwd input tmp : Path} (absolute : cwd.head? = some slash)
    (made : absolutePath cwd input = .ok tmp) :
    components tmp = inputComponents cwd input ∧ weight (inputComponents cwd input) < SYS_PATH_MAX := by
  have rooted (path : Path) (first : path.head? = some slash) : weight (components path) ≤ path.length := by
    obtain ⟨rest, rfl⟩ := List.head?_eq_some_iff.mp first
    rw [show components (slash :: rest) = components rest from components_append [] rest]
    exact components_weight rest
  rw [absolutePath] at made
  rw [inputComponents]
  split at made
  next whole =>
    rw [if_pos whole]
    split at made
    · cases made
    next short =>
      cases made
      exact ⟨rfl, Nat.lt_of_le_of_lt (rooted _ whole) (Nat.lt_of_not_le short)⟩
  next relative =>
    rw [if_neg relative]
    obtain ⟨rest, rfl⟩ := List.head?_eq_some_iff.mp absolute
    by_cases root : rest = []
    · simp only [root, List.length_cons, List.length_nil, List.head?_cons, Nat.zero_add, and_self, if_true] at made ⊢
      split at made
      · cases made
      next short =>
        rw [← Except.ok.inj made]
        exact ⟨components_append [] input, Nat.lt_of_le_of_lt (components_append [] input ▸ rooted (slash :: input) rfl)
          (by simp; omega)⟩
    simp only [List.length_cons, Nat.add_eq_right, List.length_eq_zero_iff, root, false_and, if_false] at made
    split at made
    · cases made
    next short =>
      have parts : components (slash :: rest ++ [slash] ++ input) = components (slash :: rest) ++ components input := by
        simpa using components_append (slash :: rest) input
      rw [← Except.ok.inj made]
      exact ⟨parts, Nat.lt_of_le_of_lt (parts ▸ rooted _ rfl) (by simp at short ⊢; omega)⟩

theorem rendered_again (dir : Path) (isNames : ∀ name ∈ stack, IsName name ∧ name ≠ dot ∧ name ≠ dotDot)
    (room : max 1 (weight stack) < outLen)
    (short : weight stack < SYS_PATH_MAX) : syscallNormalizePath dir (rendered stack) outLen = .ok (rendered stack) := by
  have parts : components (rendered stack) = stack.reverse := by
    rw [rendered]
    split
    next none =>
      rw [none]
      rfl
    · exact components_rendered (fun name inside => (isNames name (List.mem_reverse.mp inside)).1)
  have size : (rendered stack).length = max 1 (weight stack) := by rw [← neat_rendered, List.length_reverse, neat_length]
  have first : (rendered stack).head? = some slash := by
    rw [rendered]
    split
    · rfl
    next some =>
      cases same : stack.reverse with
      | nil => exact absurd (List.reverse_eq_nil_iff.mp same) some
      | cons => rfl
  have given : ¬ (outLen < 2 ∨ rendered stack = []) := by
    rintro (tiny | none)
    · omega
    · rw [none] at first
      cases first
  have whole : absolutePath dir (rendered stack) = .ok (rendered stack) := by
    have limit : (1 : Nat) < SYS_PATH_MAX := by decide
    rw [absolutePath, if_pos first, if_neg (by omega)]
  have names : stack.reverse.reverse ++ [] = stack := by simp
  have pushed : stack.reverse.foldlM (normalizeTurn outLen) (spell (neat [])) = .ok (spell (neat (stack.reverse.reverse ++ []))) :=
    push_names (fun name inside => isNames name (List.mem_reverse.mp inside)) (by simp) (by rwa [names])
  rw [names] at pushed
  rw [syscallNormalizePath, if_neg given, whole]
  simp only [bind, Except.bind, parts]
  rw [← neat_rendered]
  exact congrArg (fun result => Except.bind result (fun out => .ok out.reverse)) pushed

theorem normal_path_iff (cwd input out : Path) (outLen : Nat) (absolute : cwd.head? = some slash)
    (done : syscallNormalizePath cwd input outLen = .ok out) :
    (out = rendered ((inputComponents cwd input).foldl stackTurn []) ∧ ∀ dir, syscallNormalizePath dir out outLen = .ok out) ↔
      Outward (inputComponents cwd input) := by
  rw [syscallNormalizePath] at done
  split at done
  · cases done
  next given =>
    rw [bind_ok] at done
    obtain ⟨tmp, made, done⟩ := done
    rw [bind_ok] at done
    obtain ⟨bytes, turned, done⟩ := done
    obtain ⟨parts, light⟩ := absolute_path_components absolute made
    rw [← Except.ok.inj done]
    have isNames : ∀ name ∈ inputComponents cwd input, IsName name := fun name inside => component_is_name (parts ▸ inside)
    rw [parts] at turned
    have start : Spelled [] := ⟨by simp, by simp⟩
    have atRoot : Beside ⟨0, false, false⟩ [] [] := ⟨rfl, rfl, Nat.le_refl 0, fun _ => rfl, nofun⟩
    obtain ⟨rfl, spelled⟩ := turns_spell isNames start turned
    obtain ⟨-, -, -, tidy, slack⟩ := beside_turns isNames start atRoot turned
    have stacked := stack_names [] isNames (by simp)
    constructor
    · rintro ⟨normal, -⟩
      rw [← neat_rendered] at normal
      have same := spell_injective spelled (neat_spelled (fun name inside => (stacked name inside).1)) (List.reverse_injective normal)
      refine Bool.eq_false_iff.mpr (fun back => slack back ?_)
      rw [same]
      cases (inputComponents cwd input).foldl stackTurn [] <;> simp [neat]
    intro outward
    have lighter := stack_weight (inputComponents cwd input) []
    have room := turns_room (show (spell []).length < outLen by simp [spell]; omega) turned
    rw [tidy outward, neat_length] at room
    rw [tidy outward, neat_rendered]
    exact ⟨rfl, fun dir => rendered_again dir stacked room (Nat.lt_of_le_of_lt lighter light)⟩

theorem normal_path_b : syscallNormalizePath [slash] [slash, 97, slash, 46, 46, slash, 98] 512 = .ok [slash, 98] ∧
    ([slash, 98] = rendered [[98]] ∧ ∀ dir, syscallNormalizePath dir [slash, 98] 512 = .ok [slash, 98]) :=
  ⟨by decide, (normal_path_iff [slash] [slash, 97, slash, 46, 46, slash, 98] [slash, 98] 512 rfl (by decide)).mpr (by decide)⟩

-- "/a/b/../c" becomes "/a//c".
theorem slash_left_behind :
    syscallNormalizePath [slash] [slash, 97, slash, 98, slash, 46, 46, slash, 99] 512 = .ok [slash, 97, slash, slash, 99] ∧
    rendered ((inputComponents [slash] [slash, 97, slash, 98, slash, 46, 46, slash, 99]).foldl stackTurn []) = [slash, 97, slash,
      99] := by
  decide

def NoDots (levels : List (Name × Nat)) : Prop := ∀ level ∈ levels, level.1 ≠ dot ∧ level.1 ≠ dotDot

theorem turns_no_dots (none : NoDots levels) : NoDots (names.foldl levelTurn levels) := by
  induction names generalizing levels with
  | nil => exact none
  | cons name rest ih =>
    refine ih (fun level inside => ?_)
    cases levels with
    | nil => grind [levelTurn]
    | cons top below => grind [levelTurn, List.forall_mem_cons.mp none]

theorem normal_path_names (cwd input out : Path) (outLen : Nat) (done : syscallNormalizePath cwd input outLen = .ok out) :
    out.length < outLen ∧ ∃ levels, out = (spell levels).reverse ∧ Spelled levels ∧ NoDots levels := by
  rw [syscallNormalizePath] at done
  split at done
  · cases done
  obtain ⟨tmp, -, done⟩ := bind_ok.mp done
  obtain ⟨bytes, turned, done⟩ := bind_ok.mp done
  have room := turns_room (show (spell []).length < outLen by simp [spell]; omega) turned
  obtain ⟨rfl, spelled⟩ := turns_spell (fun _ => component_is_name) (show Spelled [] from ⟨by simp, by simp⟩) turned
  rw [← Except.ok.inj done]
  exact ⟨by rwa [List.length_reverse], _, rfl, spelled, turns_no_dots (by simp [NoDots])⟩

theorem left_slash_names : ∃ levels, [slash, 97, slash, slash, 99] = (spell levels).reverse ∧ Spelled levels ∧ NoDots levels :=
  (normal_path_names [slash] [slash, 97, slash, 98, slash, 46, 46, slash, 99] _ 512 (by decide)).2

end Lyr.Sys
