import Lyr.Lib.Run

set_option autoImplicit false

namespace Lyr.Sys

open Lyr.Lib

def MAX_ARGS : Nat := 32
def MAX_TOKEN : Nat := 256

def quote : UInt8 := 39
def backslash : UInt8 := 92
def newline : UInt8 := 10
def semicolon : UInt8 := 59

-- '\t', '\r' and ' '
def isBlank (c : UInt8) : Bool := c = 9 ∨ c = 13 ∨ c = 32

-- overrun stands for a store behind the text of a token; it is no branch of the source.
inductive Token where
  | eof
  | newline
  | semicolon
  | word (text : List UInt8)
  | tooLong
  | unterminatedQuote
  | unterminatedEscape
  | overrun
  deriving DecidableEq, Repr

-- The flag is set inside a comment. A byte 0 ends the source.
def skipBlank : Bool → List UInt8 → List UInt8
  | _, [] => []
  | false, c :: rest => if isBlank c then skipBlank false rest else if c = 35 then skipBlank true rest else c :: rest
  | true, c :: rest => if c = 0 ∨ c = newline then c :: rest else skipBlank true rest

def endsWord (c : UInt8) : Bool := c = 0 ∨ isBlank c ∨ c = newline ∨ c = semicolon ∨ c = 35

inductive LexMode where
  | bare
  | single
  | double

-- Behind a backslash in double quotes.
def escaped (c : UInt8) : UInt8 := if c = 110 then 10 else if c = 116 then 9 else c

-- tok.text[out++] = c and what follows it.
def stored (out : List UInt8) (next : Token × List UInt8) : Token × List UInt8 :=
  if out.length < MAX_TOKEN then next else (.overrun, [])

-- The loop over a word and those inside quotes.
def lexWord : LexMode → List UInt8 → List UInt8 → Token × List UInt8
  | .bare, [], out => stored out (.word out, [])
  | .bare, c :: rest, out =>
      if endsWord c then stored out (.word out, c :: rest)
      else if out.length + 1 ≥ MAX_TOKEN then (.tooLong, c :: rest)
      else if c = quote then lexWord .single rest out
      else if c = 34 then lexWord .double rest out
      else if c = backslash then
        match rest with
        | [] => (.unterminatedEscape, [])
        | d :: rest => if d = 0 then (.unterminatedEscape, d :: rest) else stored out (lexWord .bare rest (out ++ [d]))
      else stored out (lexWord .bare rest (out ++ [c]))
  | .single, [], _ => (.unterminatedQuote, [])
  | .single, c :: rest, out =>
      if c = 0 then (.unterminatedQuote, c :: rest)
      else if c = quote then lexWord .bare rest out
      else if out.length + 1 ≥ MAX_TOKEN then (.tooLong, c :: rest)
      else stored out (lexWord .single rest (out ++ [c]))
  | .double, [], _ => (.unterminatedQuote, [])
  | .double, c :: rest, out =>
      if c = 0 then (.unterminatedQuote, c :: rest)
      else if c = 34 then lexWord .bare rest out
      else if c = backslash then
        match rest with
        | [] => (.unterminatedEscape, [])
        | d :: rest =>
            if d = 0 then (.unterminatedEscape, d :: rest)
            else if out.length + 1 ≥ MAX_TOKEN then (.tooLong, rest)
            else stored out (lexWord .double rest (out ++ [escaped d]))
      else if out.length + 1 ≥ MAX_TOKEN then (.tooLong, rest)
      else stored out (lexWord .double rest (out ++ [c]))

def lexerNext (src : List UInt8) : Token × List UInt8 :=
  match skipBlank false src with
  | [] => (.eof, [])
  | c :: rest =>
      if c = 0 then (.eof, c :: rest)
      else if c = newline then (.newline, rest)
      else if c = semicolon then (.semicolon, rest)
      else lexWord .bare (c :: rest) []

abbrev Command := List (List UInt8)

inductive ParseError where
  | token (token : Token)
  | outOfMemory
  | tooManyArgs
  | outOfFuel
  deriving DecidableEq, Repr

-- asked counts the requests to malloc and realloc, which granted answers.
structure Script where
  commands : List Command
  capacity : Nat
  asked : Nat

def scriptAddCommand (granted : Nat → Bool) (script : Script) (cmd : Command) : Except ParseError Script :=
  if cmd.length = 0 then .ok script
  else if script.commands.length = script.capacity then
    if granted script.asked then
      .ok ⟨script.commands ++ [cmd], if script.capacity = 0 then 16 else script.capacity * 2, script.asked + 1⟩
    else .error .outOfMemory
  else .ok { script with commands := script.commands ++ [cmd] }

def commandAddArg (granted : Nat → Bool) (script : Script) (cmd : Command) (arg : List UInt8) :
    Except ParseError (Script × Command) :=
  if cmd.length ≥ MAX_ARGS - 1 then .error .tooManyArgs
  else if granted script.asked then .ok ({ script with asked := script.asked + 1 }, cmd ++ [arg])
  else .error .outOfMemory

def parseLoop (granted : Nat → Bool) : Nat → List UInt8 → Script → Command → Except ParseError (List Command)
  | 0, _, _, _ => .error .outOfFuel
  | fuel + 1, src, script, cmd =>
      match lexerNext src with
      | (.eof, _) => (scriptAddCommand granted script cmd).map Script.commands
      | (.newline, rest) | (.semicolon, rest) => do
          let script ← scriptAddCommand granted script cmd
          parseLoop granted fuel rest script []
      | (.word text, rest) => do
          let (script, cmd) ← commandAddArg granted script cmd text
          parseLoop granted fuel rest script cmd
      | (token, _) => .error (.token token)

def parseSource (granted : Nat → Bool) (src : List UInt8) : Except ParseError (List Command) :=
  parseLoop granted (src.length + 1) src ⟨[], 0, 0⟩ []

-- Words in single quotes, a separator between commands.
def quoteBytes (word : List UInt8) : List UInt8 := word.flatMap (fun c => if c = quote then [quote, backslash, quote, quote] else [c])

def printWord (word : List UInt8) : List UInt8 := quote :: quoteBytes word ++ [quote]

def printCommand : Command → List UInt8
  | [] => []
  | [word] => printWord word
  | word :: second :: rest => printWord word ++ 32 :: printCommand (second :: rest)

def printScript : List (Command × UInt8) → List UInt8
  | [] => []
  | [(command, _)] => printCommand command
  | (command, separator) :: next :: rest => printCommand command ++ separator :: printScript (next :: rest)

variable {word out rest src : List UInt8} {c : UInt8} {granted : Nat → Bool} {script : Script} {cmd : Command} {failure : ParseError}
    {fuel : Nat}

theorem stored_room {next : Token × List UInt8} (room : out.length < MAX_TOKEN) : stored out next = next := if_pos room

theorem lex_word_rest (mode : LexMode) (room : out.length < MAX_TOKEN) :
    (lexWord mode src out).1 ≠ .overrun ∧ (lexWord mode src out).2.length ≤ src.length := by
  fun_induction lexWord mode src out <;> simp_all [stored, Nat.le_succ_of_le]

theorem skip_blank_rest (comment : Bool) : (skipBlank comment src).length ≤ src.length := by
  induction src generalizing comment with
  | nil => cases comment <;> exact Nat.le_refl _
  | cons c rest ih =>
    cases comment <;> simp only [skipBlank] <;> (repeat' split) <;> simp [Nat.le_succ_of_le, ih]

theorem skip_blank_head {comment : Bool} (skipped : skipBlank comment src = c :: rest) (ends : endsWord c) :
    c = 0 ∨ c = newline ∨ c = semicolon := by
  have known : ¬ isBlank c → c ≠ 35 → c = 0 ∨ c = newline ∨ c = semicolon := by
    intro notBlank notHash
    simpa [endsWord, notBlank, notHash] using ends
  induction src generalizing comment with
  | nil => cases comment <;> cases skipped
  | cons first more ih =>
    cases comment with
    | false =>
      rw [skipBlank] at skipped
      split at skipped
      · exact ih skipped
      next notBlank =>
        split at skipped
        · exact ih skipped
        next notHash =>
          cases skipped
          exact known notBlank notHash
    | true =>
      rw [skipBlank] at skipped
      split at skipped
      next stop =>
        cases skipped
        exact stop.imp_right .inl
      · exact ih skipped

theorem lex_word_shorter (other : ¬ endsWord c) : (lexWord .bare (c :: rest) []).2.length ≤ rest.length := by
  have after (mode : LexMode) (src out : List UInt8) (short : out.length ≤ 1) :=
    (@lex_word_rest out src mode (Nat.lt_of_le_of_lt short (by decide))).2
  rw [lexWord.eq_def]
  simp only [if_neg other, stored_room (show ([] : List UInt8).length < MAX_TOKEN by decide)]
  rw [if_neg (by decide)]
  split
  · exact after _ _ _ (Nat.zero_le 1)
  split
  · exact after _ _ _ (Nat.zero_le 1)
  split
  · cases rest with
    | nil => exact Nat.le_refl _
    | cons d more =>
      dsimp only
      split
      · exact Nat.le_refl _
      · exact Nat.le_succ_of_le (after _ _ _ (Nat.le_refl 1))
  · exact after _ _ _ (Nat.le_refl 1)

theorem lexer_next_rest (src : List UInt8) :
    (lexerNext src).1 ≠ .overrun ∧ ((lexerNext src).1 ≠ .eof → (lexerNext src).2.length < src.length) := by
  have shorter := @skip_blank_rest src false
  rw [lexerNext]
  split
  · exact ⟨nofun, fun some => absurd rfl some⟩
  next c rest skipped =>
    rw [skipped, List.length_cons] at shorter
    have word := @lex_word_rest [] (c :: rest) .bare (by decide)
    split
    · exact ⟨nofun, fun some => absurd rfl some⟩
    next zero =>
      split
      · exact ⟨nofun, fun _ => shorter⟩
      next line =>
        split
        · exact ⟨nofun, fun _ => shorter⟩
        next command =>
          have other : ¬ endsWord c := fun ends => (skip_blank_head skipped ends).elim zero (·.elim line command)
          exact ⟨word.1, fun _ => Nat.lt_of_lt_of_le (Nat.lt_succ_of_le (lex_word_shorter other)) shorter⟩

theorem script_add_error (failed : scriptAddCommand granted script cmd = .error failure) : failure = .outOfMemory := by
  rw [scriptAddCommand] at failed
  split at failed
  · cases failed
  split at failed
  · split at failed
    · cases failed
    · exact (Except.error.inj failed).symm
  · cases failed

theorem parse_loop_ends (enough : src.length < fuel)
    (failed : parseLoop granted fuel src script cmd = .error failure) : failure ≠ .outOfFuel ∧ failure ≠ .token .overrun := by
  induction fuel generalizing src script cmd with
  | zero => exact absurd enough (Nat.not_lt_zero _)
  | succ fuel ih =>
    obtain ⟨inside, shorter⟩ := lexer_next_rest src
    have memory : ParseError.outOfMemory ≠ .outOfFuel ∧ ParseError.outOfMemory ≠ .token .overrun := by decide
    have line (rest : List UInt8) (consumed : rest.length < src.length)
        (failed : (do let script ← scriptAddCommand granted script cmd; parseLoop granted fuel rest script []) = .error failure) :
        failure ≠ .outOfFuel ∧ failure ≠ .token .overrun := by
      obtain failed | ⟨_, _, failed⟩ := bind_error.mp failed
      · exact script_add_error failed ▸ memory
      · exact ih (Nat.lt_of_lt_of_le consumed (Nat.le_of_lt_succ enough)) failed
    rw [parseLoop] at failed
    split at failed
    · cases added : scriptAddCommand granted script cmd with
      | ok => simp [added, Except.map] at failed
      | error other =>
        rw [added] at failed
        cases failed
        exact script_add_error added ▸ memory
    next rest token => exact line rest (token ▸ shorter (by rw [token]; nofun) :) failed
    next rest token => exact line rest (token ▸ shorter (by rw [token]; nofun) :) failed
    next text rest token =>
      rw [token] at shorter
      obtain failed | ⟨_, _, failed⟩ := bind_error.mp failed
      · rw [commandAddArg] at failed
        split at failed
        · cases failed
          decide
        split at failed
        · cases failed
        · cases failed
          exact memory
      · exact ih (Nat.lt_of_lt_of_le (shorter nofun) (Nat.le_of_lt_succ enough)) failed
    next token _ _ _ _ same =>
      cases failed
      rw [same] at inside
      exact ⟨nofun, fun overrun => inside (ParseError.token.inj overrun)⟩

theorem lex_quoted (fine : 0 ∉ word) (short : out.length + word.length ≤ MAX_TOKEN - 2) :
    lexWord .single (quoteBytes word ++ quote :: rest) out = lexWord .bare rest (out ++ word) := by
  induction word generalizing out with
  | nil => simp [quoteBytes, lexWord, quote]
  | cons c more ih =>
    rw [List.mem_cons, not_or] at fine
    rw [List.length_cons] at short
    have small : out.length < MAX_TOKEN - 2 := by omega
    have room : ¬ out.length + 1 ≥ MAX_TOKEN := by
      rw [MAX_TOKEN] at small ⊢
      omega
    have larger : ¬ out.length + 1 + 1 ≥ MAX_TOKEN := by
      rw [MAX_TOKEN] at small ⊢
      omega
    have next := @ih (out ++ [c]) fine.2 (by simp; omega)
    rw [List.append_assoc, List.singleton_append] at next
    rw [← next]
    by_cases isQuote : c = quote
    · have kept : ¬ endsWord backslash := by decide
      have mark : backslash ≠ quote ∧ backslash ≠ 34 ∧ quote ≠ 0 ∧ ¬ endsWord quote := by decide
      simp only [isQuote, quoteBytes, List.flatMap_cons, if_true, List.cons_append, List.nil_append, lexWord, if_neg kept,
        if_neg room, mark, if_false,
        List.length_append, List.length_singleton]
      rw [stored_room (by omega), lexWord.eq_def]
      simp only [mark, Bool.false_eq_true, if_false, if_true, List.length_append, List.length_singleton, if_neg larger]
    have nonzero : c ≠ 0 := fun zero => fine.1 zero.symm
    simp only [quoteBytes, List.flatMap_cons, if_neg isQuote, List.cons_append, lexWord, if_neg nonzero, if_neg room]
    exact stored_room (by omega)

def WordEnds (rest : List UInt8) : Prop := ∀ c ∈ rest.head?, endsWord c

theorem next_word (fine : 0 ∉ word) (short : word.length ≤ MAX_TOKEN - 2) (ends : WordEnds rest) :
    lexerNext (printWord word ++ rest) = (.word word, rest) := by
  have room : word.length < MAX_TOKEN := Nat.lt_of_le_of_lt short (by decide)
  have finish : lexWord .bare rest word = (.word word, rest) := by
    cases rest with
    | nil => exact stored_room room
    | cons c more =>
      rw [lexWord.eq_def]
      simp only [ends c rfl, if_true]
      exact stored_room room
  have quoted := @lex_quoted word [] rest fine (by simpa using short)
  have mark : ¬ isBlank quote ∧ quote ≠ 35 ∧ quote ≠ 0 ∧ quote ≠ newline ∧ quote ≠ semicolon ∧ ¬ endsWord quote ∧
    ¬ 0 + 1 ≥ MAX_TOKEN := by decide
  rw [printWord, List.append_assoc, List.cons_append, lexerNext]
  simp only [skipBlank, mark, Bool.false_eq_true, if_false]
  rw [lexWord.eq_def]
  simp only [mark, List.length_nil, Bool.false_eq_true, if_false, if_true]
  exact quoted.trans finish

def allGranted : Nat → Bool := fun _ => true

theorem parse_blank : parseLoop allGranted fuel (32 :: src) script cmd = parseLoop allGranted fuel src script cmd := by
  cases fuel <;> rfl

theorem parse_word (next : lexerNext src = (.word word, rest)) (few : cmd.length < MAX_ARGS - 1) :
    parseLoop allGranted (fuel + 1) src script cmd = parseLoop allGranted fuel rest { script with
      asked := script.asked + 1 } (cmd ++ [word]) := by
  rw [parseLoop, next]
  simp only [commandAddArg, if_neg (Nat.not_le.mpr few), allGranted, if_true]
  rfl

def Printable (word : List UInt8) : Prop := 0 ∉ word ∧ word.length ≤ 254

structure Runnable (command : Command) : Prop where
  some : command ≠ []
  few : command.length ≤ MAX_ARGS - 1
  words : ∀ word ∈ command, Printable word

theorem parse_command {fuel : Nat} {command cmd : Command} (ends : WordEnds rest) (script : Script)
    (words : ∀ word ∈ command, Printable word)
    (few : cmd.length + command.length ≤ MAX_ARGS - 1) (enough : (printCommand command ++ rest).length < fuel) :
    ∃ left asked, rest.length < left ∧
      parseLoop allGranted fuel (printCommand command ++ rest) script cmd = parseLoop allGranted left rest { script with
        asked := asked } (cmd ++ command) := by
  induction command generalizing script cmd fuel with
  | nil => exact ⟨fuel, script.asked, enough, by rw [List.append_nil]; rfl⟩
  | cons word more ih =>
    obtain ⟨fine, short⟩ := words word (List.mem_cons_self ..)
    rw [List.length_cons] at few
    cases fuel with
    | zero => exact absurd enough (Nat.not_lt_zero _)
    | succ fuel =>
      cases more with
      | nil =>
        have next := next_word fine short ends
        rw [printCommand] at enough ⊢
        exact ⟨fuel, _, by simp [printWord] at enough; omega, parse_word next (by omega)⟩
      | cons second later =>
        rw [printCommand, List.append_assoc, List.cons_append] at enough ⊢
        have next := @next_word word (32 :: (printCommand (second :: later) ++ rest)) fine short (fun c same => by cases same; rfl)
        rw [parse_word next (by omega), parse_blank]
        obtain ⟨left, asked, longer, same⟩ := @ih fuel (cmd ++ [word]) { script with asked := script.asked + 1 }
          (fun other inside => words other (List.mem_cons_of_mem _ inside)) (by simp at few ⊢; omega)
            (by simp [printWord] at enough ⊢; omega)
        exact ⟨left, asked, longer, by rw [same, List.append_assoc, List.singleton_append]⟩

theorem script_add {command : Command} (some : command ≠ []) (script : Script) :
    ∃ capacity asked, scriptAddCommand allGranted script command = .ok ⟨script.commands ++ [command], capacity, asked⟩ := by
  rw [scriptAddCommand, if_neg (fun none => some (List.length_eq_zero_iff.mp none))]
  split
  · exact ⟨_, _, rfl⟩
  · exact ⟨_, _, rfl⟩

theorem parse_script {pairs : List (Command × UInt8)} (fine : ∀ pair ∈ pairs,
      Runnable pair.1 ∧ (pair.2 = newline ∨ pair.2 = semicolon))
    (script : Script) (enough : (printScript pairs).length < fuel) :
    parseLoop allGranted fuel (printScript pairs) script [] = .ok (script.commands ++ pairs.map Prod.fst) := by
  induction pairs generalizing script fuel with
  | nil =>
    cases fuel with
    | zero => exact absurd enough (Nat.not_lt_zero _)
    | succ fuel =>
      rw [List.map_nil, List.append_nil]
      rfl
  | cons pair more ih =>
    obtain ⟨command, separator⟩ := pair
    obtain ⟨⟨some, few, words⟩, line⟩ := fine (command, separator) (List.mem_cons_self ..)
    cases more with
    | nil =>
      have read := @parse_command [] fuel command [] nofun script words (by simpa using few)
      rw [List.append_nil] at read
      obtain ⟨left, asked, longer, same⟩ := read enough
      obtain ⟨capacity, counted, added⟩ := script_add some { script with asked := asked }
      cases left with
      | zero => exact absurd longer (Nat.not_lt_zero _)
      | succ left =>
        refine same.trans ?_
        show (scriptAddCommand allGranted _ _).map Script.commands = _
        rw [List.nil_append, added]
        rfl
    | cons next later =>
      have stop : WordEnds (separator :: printScript (next :: later)) := by
        intro c same
        cases same
        obtain rfl | rfl := line <;> rfl
      rw [printScript] at enough ⊢
      obtain ⟨left, asked, longer, same⟩ := @parse_command _ fuel command [] stop script words (by simpa using few) enough
      obtain ⟨capacity, counted, added⟩ := script_add some { script with asked := asked }
      cases left with
      | zero => exact absurd longer (Nat.not_lt_zero _)
      | succ left =>
        have rest := @ih left (fun pair inside => fine pair (List.mem_cons_of_mem _ inside))
          ⟨script.commands ++ [command], capacity, counted⟩
          (by simpa using longer)
        have separated : parseLoop allGranted (left + 1) (separator :: printScript (next :: later))
          { script with asked := asked } command =
            (do let script ← scriptAddCommand allGranted { script with asked := asked } command
                parseLoop allGranted left (printScript (next :: later)) script []) := by
          obtain rfl | rfl := line <;> rfl
        refine same.trans ?_
        rw [List.nil_append, separated, added]
        refine rest.trans ?_
        simp

theorem init_scripts_read_back (pairs : List (Command × UInt8)) (fine : ∀ pair ∈ pairs,
      Runnable pair.1 ∧ (pair.2 = newline ∨ pair.2 = semicolon))
    (granted : Nat → Bool) (src : List UInt8) :
    parseSource allGranted (printScript pairs) = .ok (pairs.map Prod.fst) ∧
      (∀ failure, parseSource granted src = .error failure → failure ≠ .outOfFuel ∧ failure ≠ .token .overrun) ∧
      (lexerNext src).1 ≠ .overrun ∧ ((lexerNext src).1 ≠ .eof → (lexerNext src).2.length < src.length) :=
  ⟨parse_script fine ⟨[], 0, 0⟩ (Nat.lt_succ_self _), fun _ failed => parse_loop_ends (Nat.lt_succ_self _) failed,
    lexer_next_rest src⟩

theorem two_commands_read_back :
    parseSource allGranted (printScript [([[97], [39]], semicolon), ([[98]], newline)]) = .ok [[[97], [39]], [[98]]] :=
  (init_scripts_read_back [([[97], [39]], semicolon), ([[98]], newline)] (by
    intro pair inside
    fin_cases inside <;> exact ⟨⟨nofun, by decide, by simp [Printable]⟩, by decide⟩) allGranted []).1

end Lyr.Sys
