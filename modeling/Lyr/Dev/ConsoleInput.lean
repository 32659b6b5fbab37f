import Lyr.Lib.Run

set_option autoImplicit false

namespace Lyr.Dev

open Lyr.Lib

def CONSOLE_INPUT_SIZE : Nat := 1024

-- What canonical input reads of lyr_termios_t. ICANON is set.
structure Termios where
  igncr : Bool
  icrnl : Bool
  inlcr : Bool
  istrip : Bool
  isig : Bool
  noflsh : Bool
  vintr : UInt8
  vquit : UInt8
  verase : UInt8
  veof : UInt8

-- The bytes of the ring, oldest first; lines is 16 bits wide.
structure Tty where
  buf : List UInt8
  lines : Nat
  interrupted : Bool
  deriving DecidableEq, Repr

def isLineDelimiter (ch : UInt8) : Bool := ch = 10 ∨ ch = 13

def consoleInputTranslate (termios : Termios) (ch : UInt8) : Option UInt8 :=
  let strip (ch : UInt8) := if termios.istrip then ch &&& 0x7f else ch
  if ch = 13 then if termios.igncr then none else some (strip (if termios.icrnl then 10 else ch))
  else if ch = 10 then some (strip (if termios.inlcr then 13 else ch))
  else some (strip ch)

def consoleInputPush (tty : Tty) (ch : UInt8) : Tty :=
  if tty.buf.length ≥ CONSOLE_INPUT_SIZE then tty
  else { tty with buf := tty.buf ++ [ch], lines := if isLineDelimiter ch then (tty.lines + 1) % 2 ^ 16 else tty.lines }

def consoleInputPop (tty : Tty) : Option (UInt8 × Tty) :=
  match tty.buf with
  | [] => none
  | ch :: rest =>
    some (ch, { tty with buf := rest, lines := if isLineDelimiter ch ∧ tty.lines > 0 then tty.lines - 1 else tty.lines })

def isContinuation (ch : UInt8) : Bool := ch &&& 0xc0 = 0x80

-- The loop of console_input_backspace, newest byte first.
def eraseLoop : List UInt8 → List UInt8
  | [] => []
  | [_] => []
  | old :: next :: rest => if !isContinuation old || isLineDelimiter next then next :: rest else eraseLoop (next :: rest)

-- head and tail meet in an empty and in a full ring.
def consoleInputBackspace (tty : Tty) : Tty :=
  if tty.buf.length = 0 ∨ tty.buf.length = CONSOLE_INPUT_SIZE then tty
  else if (tty.buf.getLast?.any isLineDelimiter) then tty
  else { tty with buf := (eraseLoop tty.buf.reverse).reverse }

inductive Key where
  | ignored
  | signal (flush : Bool)
  | erase
  | eof
  | byte (ch : UInt8)
  deriving DecidableEq, Repr

-- In the order of console_input_put_tty. console_raise_signal flushes for a foreground group.
def keyOf (termios : Termios) (foreground : Bool) (raw : UInt8) : Key :=
  match consoleInputTranslate termios raw with
  | none => .ignored
  | some ch =>
      if termios.isig ∧ (ch = termios.vintr ∨ ch = termios.vquit) then .signal (foreground && !termios.noflsh)
      else if ch = 8 ∨ ch = 127 ∨ ch = termios.verase then .erase
      else if ch = termios.veof then .eof
      else .byte ch

def Tty.put (tty : Tty) : Key → Tty
  | .ignored => tty
  | .signal flush => if flush then ⟨[], 0, true⟩ else { tty with interrupted := true }
  | .erase => consoleInputBackspace tty
  | .eof => { tty with lines := (tty.lines + 1) % 2 ^ 16 }
  | .byte ch => consoleInputPush tty ch

def readLoop : Nat → Tty → List UInt8 × Tty
  | 0, tty => ([], tty)
  | room + 1, tty =>
      match consoleInputPop tty with
      | none => ([], tty)
      | some (ch, tty) => if isLineDelimiter ch then ([ch], tty) else ((ch :: (readLoop room tty).1), (readLoop room tty).2)

inductive ReadOutcome where
  | bytes (data : List UInt8)
  | interrupted
  | sleeps
  deriving DecidableEq, Repr

-- pending is sched_signal_is_pending of the reader.
def consoleRead (tty : Tty) (len : Nat) (pending : Bool) : ReadOutcome × Tty :=
  if len = 0 then (.bytes [], tty)
  else if tty.interrupted then (.interrupted, { tty with interrupted := false })
  else if pending then (.interrupted, tty)
  else if tty.lines > 0 then (.bytes (readLoop len tty).1, (readLoop len tty).2)
  else (.sleeps, tty)

-- A queue of ended lines and the line being typed.
structure LineQueue where
  ended : List (List UInt8)
  current : List UInt8
  interrupted : Bool
  deriving DecidableEq, Repr

def eraseChar : List UInt8 → List UInt8
  | [] => []
  | old :: rest => if isContinuation old then eraseChar rest else rest

def LineQueue.put (q : LineQueue) : Key → LineQueue
  | .ignored => q
  | .signal flush => if flush then ⟨[], [], true⟩ else { q with interrupted := true }
  | .erase => { q with current := (eraseChar q.current.reverse).reverse }
  | .eof => { q with ended := q.ended ++ [q.current], current := [] }
  | .byte ch =>
      if isLineDelimiter ch then { q with ended := q.ended ++ [q.current ++ [ch]], current := [] }
      else if q.ended.flatten.length + q.current.length < CONSOLE_INPUT_SIZE then { q with current := q.current ++ [ch] }
      else q

def LineQueue.read (q : LineQueue) (len : Nat) (pending : Bool) : ReadOutcome × LineQueue :=
  if len = 0 then (.bytes [], q)
  else if q.interrupted then (.interrupted, { q with interrupted := false })
  else if pending then (.interrupted, q)
  else match q.ended with
    | [] => (.sleeps, q)
    | line :: rest => (.bytes (line.take len), { q with ended := if line.length ≤ len then rest else line.drop len :: rest })

inductive TtyEvent where
  | put (foreground : Bool) (raw : UInt8)
  | read (len : Nat) (pending : Bool)
  deriving DecidableEq, Repr

structure Typing where
  tty : Tty
  queue : LineQueue
  got : List ReadOutcome
  due : List ReadOutcome
  deriving DecidableEq, Repr

def typingStep (termios : Termios) (w : Typing) : TtyEvent → Except Empty Typing
  | .put foreground raw =>
      .ok { w with tty := w.tty.put (keyOf termios foreground raw), queue := w.queue.put (keyOf termios foreground raw) }
  | .read len pending =>
      let got := consoleRead w.tty len pending
      let due := w.queue.read len pending
      .ok ⟨got.2, due.2, w.got ++ [got.1], w.due ++ [due.1]⟩

def newTyping : Typing := ⟨⟨[], 0, false⟩, ⟨[], [], false⟩, [], []⟩

-- No ^D, and into a full ring only ordinary bytes.
def PlainKey (tty : Tty) : Key → Prop
  | .eof => False
  | .erase => tty.buf.length < CONSOLE_INPUT_SIZE
  | .byte ch => isLineDelimiter ch → tty.buf.length < CONSOLE_INPUT_SIZE
  | .ignored | .signal _ => True

instance (tty : Tty) : (key : Key) → Decidable (PlainKey tty key)
  | .eof => .isFalse nofun
  | .erase => inferInstanceAs (Decidable (_ < _))
  | .byte _ => inferInstanceAs (Decidable (_ → _))
  | .ignored | .signal _ => .isTrue trivial

def PlainTyping (termios : Termios) (w : Typing) : TtyEvent → Prop
  | .put foreground raw => PlainKey w.tty (keyOf termios foreground raw)
  | .read .. => True

instance (termios : Termios) (w : Typing) : (event : TtyEvent) → Decidable (PlainTyping termios w event)
  | .put foreground raw => inferInstanceAs (Decidable (PlainKey w.tty (keyOf termios foreground raw)))
  | .read .. => .isTrue trivial

-- The ring holds the lines of the queue, and lines counts those that were ended.
structure Holds (tty : Tty) (queue : LineQueue) : Prop where
  bytes : tty.buf = queue.ended.flatten ++ queue.current
  count : tty.lines = queue.ended.length
  interrupted : tty.interrupted = queue.interrupted
  ended : ∀ line ∈ queue.ended, ∃ body ch, line = body ++ [ch] ∧ isLineDelimiter ch ∧ ∀ c ∈ body, isLineDelimiter c = false
  current : ∀ c ∈ queue.current, isLineDelimiter c = false
  small : tty.buf.length ≤ CONSOLE_INPUT_SIZE

variable {tty : Tty} {queue : LineQueue} {w : Typing} {termios : Termios} {line : List UInt8}

theorem ended_few (holds : Holds tty queue) : queue.ended.length ≤ queue.ended.flatten.length := by
  have each (lines : List (List UInt8)) (some : ∀ line ∈ lines, 1 ≤ line.length) : lines.length ≤ lines.flatten.length := by
    induction lines with
    | nil => exact Nat.le_refl _
    | cons line rest ih =>
      have first := some line (List.mem_cons_self ..)
      have later := ih (fun other inside => some other (List.mem_cons_of_mem _ inside))
      simp only [List.length_cons, List.flatten_cons, List.length_append]
      omega
  refine each _ (fun line inside => ?_)
  obtain ⟨body, ch, rfl, -⟩ := holds.ended line inside
  simp

theorem erase_loop_line {before : List UInt8} (some : line ≠ []) (plain : ∀ c ∈ line, isLineDelimiter c = false)
    (stop : before = [] ∨ ∃ ch rest, before = ch :: rest ∧ isLineDelimiter ch) :
    eraseLoop (line ++ before) = eraseChar line ++ before := by
  induction line with
  | nil => exact absurd rfl some
  | cons old rest ih =>
    cases rest with
    | nil =>
      obtain rfl | ⟨ch, more, rfl, ends⟩ := stop
      · simp [eraseLoop, eraseChar]
      · simp [eraseLoop, eraseChar, ends]
    | cons next more =>
      have ordinary := plain next (by simp)
      have later := ih nofun (fun c inside => plain c (List.mem_cons_of_mem _ inside))
      simp only [List.cons_append, eraseLoop, ordinary, Bool.or_false] at later ⊢
      rw [eraseChar]
      cases isContinuation old <;> simp [later]

theorem read_loop_line (len : Nat) {body rest : List UInt8} {ch : UInt8} (buf : tty.buf = body ++ ch :: rest)
    (ends : isLineDelimiter ch)
    (plain : ∀ c ∈ body, isLineDelimiter c = false) (positive : 0 < tty.lines) :
    readLoop len tty = ((body ++ [ch]).take len,
      { tty with buf := (body ++ [ch]).drop len ++ rest, lines := if body.length < len then tty.lines - 1 else tty.lines }) := by
  induction len generalizing tty body with
  | zero => simp [readLoop, ← buf]
  | succ room ih =>
    cases body with
    | nil => simp [readLoop, consoleInputPop, buf, ends, positive]
    | cons c more =>
      have ordinary := plain c (by simp)
      have next := @ih { tty with buf := more ++ ch :: rest } more rfl (fun d inside => plain d (by simp [inside])) positive
      simp [readLoop, consoleInputPop, buf, ordinary, next]

theorem ended_stop (holds : Holds tty queue) :
    queue.ended.flatten.reverse = [] ∨ ∃ ch rest, queue.ended.flatten.reverse = ch :: rest ∧ isLineDelimiter ch := by
  obtain none | ⟨init, line, last⟩ := List.eq_nil_or_concat queue.ended
  · exact .inl (by simp [none])
  · obtain ⟨body, ch, rfl, ends, -⟩ := holds.ended line (by simp [last])
    exact .inr ⟨ch, body.reverse ++ init.flatten.reverse, by simp [last], ends⟩

theorem erase_char_suffix : eraseChar line <:+ line := by
  induction line with
  | nil => exact List.suffix_rfl
  | cons old rest ih =>
    rw [eraseChar]
    split
    · exact ih.trans (List.suffix_cons ..)
    · exact List.suffix_cons ..

theorem erase_holds (room : tty.buf.length < CONSOLE_INPUT_SIZE) (holds : Holds tty queue) :
    Holds (tty.put .erase) (queue.put .erase) := by
  obtain ⟨bytes, count, interrupted, ended, current, small⟩ := holds
  have shorter : eraseChar queue.current.reverse <:+ queue.current.reverse := erase_char_suffix
  have kept : ∀ c ∈ (eraseChar queue.current.reverse).reverse, isLineDelimiter c = false := fun c inside =>
    current c (List.mem_reverse.mp (shorter.mem (List.mem_reverse.mp inside)))
  rw [Tty.put, consoleInputBackspace]
  by_cases empty : queue.current = []
  · have still : queue.put .erase = queue := by
      obtain ⟨_, _, _⟩ := queue
      cases empty
      rfl
    have stop := ended_stop ⟨bytes, count, interrupted, ended, current, small⟩
    rw [empty, List.append_nil] at bytes
    rw [still, bytes]
    split
    · exact ⟨by rw [bytes, empty, List.append_nil], count, interrupted, ended, current, small⟩
    next some =>
      obtain none | ⟨ch, rest, last, ends⟩ := stop
      · simp [List.reverse_eq_nil_iff.mp none] at some
      · rw [← List.head?_reverse, last, if_pos (by simpa using ends)]
        exact ⟨by rw [bytes, empty, List.append_nil], count, interrupted, ended, current, small⟩
  have last : tty.buf.getLast? = queue.current.getLast? := by
    rw [bytes, List.getLast?_append_of_ne_nil _ empty]
  have ordinary : (queue.current.getLast?.any isLineDelimiter) = false := by
    rw [List.getLast?_eq_getLast_of_ne_nil empty]
    exact current _ (List.getLast_mem empty)
  have some : ¬ (tty.buf.length = 0 ∨ tty.buf.length = CONSOLE_INPUT_SIZE) := by
    rintro (none | full)
    · simp [bytes, empty] at none
    · omega
  have erased := erase_loop_line (by simpa using empty) (fun c inside => current c (List.mem_reverse.mp inside))
    (ended_stop ⟨bytes, count, interrupted, ended, current, small⟩)
  rw [if_neg some, last, ordinary, if_neg nofun, bytes, List.reverse_append, erased]
  refine ⟨by simp [LineQueue.put], count, interrupted, ended, kept, ?_⟩
  have := shorter.length_le
  simp only [bytes, List.length_append, List.length_reverse] at this small ⊢
  omega

theorem put_holds {foreground : Bool} {raw : UInt8} (plain : PlainTyping termios w (.put foreground raw))
    (holds : Holds w.tty w.queue) :
    Holds (w.tty.put (keyOf termios foreground raw)) (w.queue.put (keyOf termios foreground raw)) := by
  have few := ended_few holds
  rw [PlainTyping] at plain
  cases key : keyOf termios foreground raw with
  | ignored => exact holds
  | signal flush =>
    cases flush with
    | false => exact ⟨holds.bytes, holds.count, rfl, holds.ended, holds.current, holds.small⟩
    | true => exact ⟨rfl, rfl, rfl, nofun, nofun, Nat.zero_le _⟩
  | eof => exact (key ▸ plain : PlainKey w.tty .eof).elim
  | erase => exact erase_holds (key ▸ plain :) holds
  | byte ch =>
    obtain ⟨bytes, count, interrupted, ended, current, small⟩ := holds
    have size := congrArg List.length bytes
    rw [List.length_append] at size
    rw [Tty.put, consoleInputPush, LineQueue.put]
    cases delimiter : isLineDelimiter ch with
    | true =>
      rw [key] at plain
      have plain := plain delimiter
      rw [if_neg (Nat.not_le.mpr plain)]
      simp only [if_true]
      refine ⟨by simp [bytes], ?_, interrupted, fun line inside => ?_, nofun, by simpa using plain⟩
      · rw [CONSOLE_INPUT_SIZE] at plain
        simp only [List.length_append, List.length_singleton, count]
        omega
      obtain old | new := List.mem_append.mp inside
      · exact ended line old
      · exact ⟨w.queue.current, ch, List.mem_singleton.mp new, delimiter, current⟩
    | false =>
      simp only [Bool.false_eq_true, if_false]
      by_cases full : w.tty.buf.length ≥ CONSOLE_INPUT_SIZE
      · rw [if_pos full, if_neg (by omega)]
        exact ⟨bytes, count, interrupted, ended, current, small⟩
      rw [if_neg full, if_pos (by omega)]
      refine ⟨by simp [bytes], count, interrupted, ended, fun c inside => ?_, by simp; omega⟩
      obtain old | new := List.mem_append.mp inside
      · exact current c old
      · exact List.mem_singleton.mp new ▸ delimiter

theorem read_holds (len : Nat) (pending : Bool) (holds : Holds tty queue) :
    (consoleRead tty len pending).1 = (queue.read len pending).1 ∧ Holds (consoleRead tty len pending).2 (queue.read len pending).2 :=
  by
  obtain ⟨bytes, count, interrupted, ended, current, small⟩ := holds
  rw [consoleRead, LineQueue.read, interrupted]
  split
  · exact ⟨rfl, bytes, count, interrupted, ended, current, small⟩
  split
  · exact ⟨rfl, bytes, count, rfl, ended, current, small⟩
  split
  · exact ⟨rfl, bytes, count, interrupted, ended, current, small⟩
  cases lines : queue.ended with
  | nil =>
    rw [if_neg (by simp [count, lines])]
    exact ⟨rfl, bytes, count, interrupted, ended, current, small⟩
  | cons line rest =>
    obtain ⟨body, ch, rfl, ends, plain⟩ := ended line (by simp [lines])
    have positive : 0 < tty.lines := by simp [count, lines]
    have buf : tty.buf = body ++ ch :: (rest.flatten ++ queue.current) := by simp [bytes, lines]
    have read := read_loop_line len buf ends plain positive
    have length : (body ++ [ch]).length ≤ len ↔ body.length < len := by
      rw [List.length_append]
      exact Iff.rfl
    rw [buf, List.length_append, List.length_cons] at small
    rw [if_pos positive, read]
    by_cases whole : body.length < len
    · have none : (body ++ [ch]).drop len = [] := List.drop_eq_nil_of_le (length.mpr whole)
      simp only [none, List.nil_append, if_pos whole, if_pos (length.mpr whole)]
      refine ⟨trivial, rfl, by simp [count, lines], interrupted, fun other inside => ended other (by simp [lines, inside]),
        current, ?_⟩
      show (rest.flatten ++ queue.current).length ≤ _
      omega
    have cut : (body ++ [ch]).drop len = body.drop len ++ [ch] := List.drop_append_of_le_length (Nat.not_lt.mp whole)
    simp only [cut, if_neg whole, if_neg (mt length.mp whole)]
    refine ⟨trivial, by simp, by simp [count, lines], interrupted, fun other inside => ?_, current, by simp at small ⊢; omega⟩
    obtain rfl | later := List.mem_cons.mp inside
    · exact ⟨_, ch, rfl, ends, fun c inside => plain c (List.mem_of_mem_drop inside)⟩
    · exact ended other (by simp [lines, later])

theorem canonical_input_is_line_queue (termios : Termios) (events : List TtyEvent)
    (plain : Permitted (typingStep termios) (PlainTyping termios) newTyping events) :
    Always (typingStep termios) (fun w => w.got = w.due) newTyping events := by
  have start : newTyping.got = newTyping.due ∧ Holds newTyping.tty newTyping.queue :=
    ⟨rfl, rfl, rfl, rfl, nofun, nofun, Nat.zero_le _⟩
  refine permitted_always (fun w event next (both : w.got = w.due ∧ Holds w.tty w.queue) allowed done => ?_) start
    (fun w both => both.1) plain
  cases event with
  | put foreground raw =>
    cases done
    exact ⟨both.1, put_holds allowed both.2⟩
  | read len pending =>
    cases done
    obtain ⟨same, holds⟩ := read_holds len pending both.2
    exact ⟨by rw [both.1, same], holds⟩

-- console_set_default_termios
def defaultTermios : Termios := ⟨false, true, false, false, true, false, 3, 28, 127, 4⟩

theorem typed_line_read : Always (typingStep defaultTermios) (fun w => w.got = w.due) newTyping
    [.put true 97, .put true 3, .read 1 false, .put true 98, .put true 99, .put true 127, .read 5 true, .put true 13, .read 1 false,
      .read 9 false] :=
  canonical_input_is_line_queue defaultTermios _ (by decide)

-- After ^D every read returns 0, or an unfinished line.
theorem eof_read_twice : ∃ w, run (typingStep defaultTermios) newTyping
      [.put true 4, .read 1 false, .read 1 false, .put true 97, .read 1 false] = .ok w ∧
    w.got = [.bytes [], .bytes [], .bytes [97]] ∧ w.due = [.bytes [], .sleeps, .sleeps] :=
  ⟨_, rfl, rfl, rfl⟩

end Lyr.Dev
