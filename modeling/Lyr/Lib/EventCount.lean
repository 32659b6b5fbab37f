import Mathlib

set_option autoImplicit false

namespace Lyr.Lib.EventCount

open Function

-- Threads share data, a lock and a counter that every wake-up advances. A waiter awaits a counter other than its snapshot.
inductive Plain (σ : Type) where
  | lock
  | unlock
  | act (change : σ → σ)
  | advance

-- test is the branch on the condition the thread waits for.
inductive Instr (σ : Type) where
  | plain (op : Plain σ)
  | snapshot
  | branch (cond : σ → Bool) (onTrue : List (Plain σ))
  | test (cond : σ → Bool) (onTrue : List (Plain σ))
  | await

-- For the statement: since counts the wake-ups at the snapshot, watch is the condition last found false, risen whether it has been
-- true since then, and owed whether a wake-up followed.
structure Party (σ : Type) where
  code : List (Instr σ)
  snap : Nat
  snapped : Bool
  tested : Bool
  since : Nat
  watch : σ → Bool
  risen : Bool
  owed : Bool

structure System (σ : Type) where
  data : σ
  owner : Option Nat
  seq : Nat
  ticks : Nat
  party : Nat → Party σ

inductive Move (C : Type) where
  | start (t : Nat) (call : C)
  | exec (t : Nat)
  | interrupt (t : Nat)

section

variable {σ C : Type}

def Party.at (p : Party σ) (code : List (Instr σ)) : Party σ := { p with code }

def Party.leave (p : Party σ) (code : List (Instr σ)) : Party σ := { p with code, snapped := false, tested := false }

def Party.rise (p : Party σ) (data : σ) : Party σ := { p with risen := p.risen || (p.tested && p.watch data) }

def Party.owe (p : Party σ) : Party σ := { p with owed := p.owed || p.risen }

def Party.note (p : Party σ) (code : List (Instr σ)) (snap since : Nat) : Party σ := { p with code, snap, since, snapped := true }

def Party.wants (p : Party σ) (code : List (Instr σ)) (watch : σ → Bool) : Party σ :=
  { p with code, watch, tested := true, risen := false, owed := false }

def System.setParty (s : System σ) (t : Nat) (p : Party σ) : System σ := { s with party := update s.party t p }

def System.each (s : System σ) (change : Party σ → Party σ) : System σ := { s with party := fun t => change (s.party t) }

def tail (ops : List (Plain σ)) : List (Instr σ) := ops.map .plain

def execPlain (modulus : Nat) (s : System σ) (t : Nat) (rest : List (Instr σ)) : Plain σ → System σ
  | .lock => match s.owner with
      | none => { s with owner := some t }.setParty t ((s.party t).at rest)
      | some _ => s
  | .unlock => { s with owner := none }.setParty t ((s.party t).at rest)
  | .act change => ({ s with data := change s.data }.setParty t ((s.party t).at rest)).each (fun p => p.rise (change s.data))
  | .advance =>
    ({ s with seq := (s.seq + 1) % modulus, ticks := s.ticks + 1 }.setParty t ((s.party t).at rest)).each Party.owe

def execInstr (modulus : Nat) (s : System σ) (t : Nat) (rest : List (Instr σ)) : Instr σ → System σ
  | .plain op => execPlain modulus s t rest op
  | .snapshot => s.setParty t ((s.party t).note rest s.seq s.ticks)
  | .branch cond onTrue => s.setParty t ((s.party t).at (if cond s.data then tail onTrue else rest))
  | .test cond onTrue =>
    if cond s.data then s.setParty t ((s.party t).leave (tail onTrue))
    else s.setParty t ((s.party t).wants rest cond)
  | .await => if s.seq ≠ (s.party t).snap then s.setParty t ((s.party t).leave rest) else s

def move (modulus : Nat) (program : C → List (Instr σ)) (s : System σ) : Move C → System σ
  | .start t call => match (s.party t).code with
      | [] => s.setParty t ((s.party t).leave (program call))
      | _ :: _ => s
  | .exec t => match (s.party t).code with
      | [] => s
      | instr :: rest => execInstr modulus s t rest instr
  | .interrupt t => match (s.party t).code with
      | .await :: _ => s.setParty t ((s.party t).leave [])
      | _ => s

def moves (modulus : Nat) (program : C → List (Instr σ)) (s : System σ) (schedule : List (Move C)) : System σ :=
  schedule.foldl (move modulus program) s

def idleParty : Party σ :=
  { code := [], snap := 0, snapped := false, tested := false, since := 0, watch := fun _ => false, risen := false, owed := false }

def initial (start : Nat) (data : σ) : System σ := { data, owner := none, seq := start, ticks := 0, party := fun _ => idleParty }

-- It ends without the lock.
def PlainDisciplined (lockedWakes : Bool) : (held : Bool) → List (Plain σ) → Prop
  | held, [] => held = false
  | held, .lock :: rest => held = false ∧ PlainDisciplined lockedWakes true rest
  | held, .unlock :: rest => held = true ∧ PlainDisciplined lockedWakes false rest
  | held, .act _ :: rest => PlainDisciplined lockedWakes held rest
  | held, .advance :: rest => (lockedWakes = true → held = true) ∧ PlainDisciplined lockedWakes held rest

-- The snapshot comes before the test, or, where all wake-ups hold the lock, under the lock of the test.
def Disciplined (lockedWakes : Bool) : (held snapped tested : Bool) → List (Instr σ) → Prop
  | held, _, _, [] => held = false
  | held, snapped, tested, .plain .lock :: rest => held = false ∧ Disciplined lockedWakes true snapped tested rest
  | held, snapped, tested, .plain .unlock :: rest =>
    held = true ∧ (tested = true → snapped = true) ∧ Disciplined lockedWakes false snapped tested rest
  | held, snapped, tested, .plain (.act _) :: rest => Disciplined lockedWakes held snapped tested rest
  | held, snapped, tested, .plain .advance :: rest =>
    (lockedWakes = true → held = true) ∧ tested = false ∧ Disciplined lockedWakes held snapped tested rest
  | held, snapped, tested, .snapshot :: rest =>
    snapped = false ∧ (tested = true → lockedWakes = true ∧ held = true) ∧ Disciplined lockedWakes held true tested rest
  | held, snapped, tested, .branch _ onTrue :: rest =>
    tested = false ∧ PlainDisciplined lockedWakes held onTrue ∧ Disciplined lockedWakes held snapped tested rest
  | held, snapped, _, .test _ onTrue :: rest =>
    PlainDisciplined lockedWakes held onTrue ∧ (snapped = false → lockedWakes = true ∧ held = true) ∧
      Disciplined lockedWakes held snapped true rest
  | held, snapped, tested, .await :: rest =>
    held = false ∧ snapped = true ∧ tested = true ∧ Disciplined lockedWakes false false false rest

theorem tail_disciplined {lockedWakes : Bool} (held snapped : Bool) {ops : List (Plain σ)}
    (disciplined : PlainDisciplined lockedWakes held ops) :
    Disciplined lockedWakes held snapped false (tail ops) := by
  induction ops generalizing held with
  | nil => exact disciplined
  | cons op rest ih =>
    cases op with
    | lock => exact ⟨disciplined.1, ih true disciplined.2⟩
    | unlock => exact ⟨disciplined.1, fun tested => absurd tested (by decide), ih false disciplined.2⟩
    | act change => exact ih held disciplined
    | advance => exact ⟨disciplined.1, rfl, ih held disciplined.2⟩

-- Once a thread has tested, an owed wake-up has advanced the counter beyond its snapshot.
structure PartySound (modulus start : Nat) (lockedWakes : Bool) (owner : Option Nat) (ticks t : Nat) (p : Party σ) : Prop where
  code : Disciplined lockedWakes (decide (owner = some t)) p.snapped p.tested p.code
  snap : p.snapped = true → p.since ≤ ticks ∧ p.snap = (start + p.since) % modulus
  owed : p.snapped = true → p.tested = true → p.owed = true → p.since < ticks
  tested : p.tested = true → p.snapped = false → p.owed = false ∧ owner = some t ∧ lockedWakes = true

structure SystemSound (modulus start : Nat) (lockedWakes : Bool) (s : System σ) : Prop where
  seq : s.seq = (start + s.ticks) % modulus
  parties : ∀ t, PartySound modulus start lockedWakes s.owner s.ticks t (s.party t)

variable {modulus start : Nat} {lockedWakes : Bool}

theorem initial_sound (data : σ) (small : start < modulus) : SystemSound modulus start lockedWakes (initial start data) := by
  refine ⟨(Nat.mod_eq_of_lt small).symm, fun t => ⟨rfl, fun snapped => ?_, fun snapped => ?_, fun tested => ?_⟩⟩
  · cases snapped
  · cases snapped
  · cases tested

theorem set_party_sound {s : System σ} {t : Nat} {p : Party σ} (own : PartySound modulus start lockedWakes s.owner s.ticks t p)
    (sound : SystemSound modulus start lockedWakes s) : SystemSound modulus start lockedWakes (s.setParty t p) := by
  refine ⟨sound.seq, fun q => ?_⟩
  by_cases same : q = t
  · subst same
    simpa only [System.setParty, update_self] using own
  · simpa only [System.setParty, update_of_ne same] using sound.parties q

variable {owner : Option Nat} {t ticks : Nat} {p : Party σ} {s : System σ} {rest : List (Instr σ)} {program : C → List (Instr σ)}

theorem leave_sound {code : List (Instr σ)}
    (disciplined : Disciplined lockedWakes (decide (owner = some t)) false false code) :
    PartySound modulus start lockedWakes owner ticks t (p.leave code) := by
  refine ⟨disciplined, fun snapped => ?_, fun snapped => ?_, fun tested => ?_⟩
  · cases snapped
  · cases snapped
  · cases tested

theorem other_owner_sound {owner' : Option Nat} {q : Nat} (other : q ≠ t)
    (before : owner = none ∨ owner = some t) (after : owner' = none ∨ owner' = some t)
    (own : PartySound modulus start lockedWakes owner ticks q p) : PartySound modulus start lockedWakes owner' ticks q p := by
  have free : owner ≠ some q := by
    obtain rfl | rfl := before
    · exact nofun
    · exact fun same => other (Option.some.inj same).symm
  have free' : owner' ≠ some q := by
    obtain rfl | rfl := after
    · exact nofun
    · exact fun same => other (Option.some.inj same).symm
  refine ⟨?_, own.snap, own.owed, fun tested unsnapped => ?_⟩
  · have code := own.code
    rw [decide_eq_false free] at code
    rw [decide_eq_false free']
    exact code
  · exact absurd (own.tested tested unsnapped).2.1 free

section

variable (sound : SystemSound modulus start lockedWakes s)
include sound

theorem exec_lock_sound (code : (s.party t).code = .plain .lock :: rest) :
    SystemSound modulus start lockedWakes (execPlain modulus s t rest .lock) := by
  unfold execPlain
  cases owned : s.owner with
  | some holder => exact sound
  | none =>
    have own := sound.parties t
    have disciplined := own.code
    rw [code] at disciplined
    refine ⟨sound.seq, fun q => ?_⟩
    by_cases same : q = t
    · subst same
      simp only [System.setParty, update_self]
      refine ⟨?_, own.snap, own.owed, fun tested unsnapped => ?_⟩
      · rw [decide_eq_true rfl]
        exact disciplined.2
      have held := (own.tested tested unsnapped).2.1
      rw [owned] at held
      cases held
    · simp only [System.setParty, update_of_ne same]
      exact other_owner_sound same (Or.inl owned) (Or.inr rfl) (sound.parties q)

theorem exec_unlock_sound (code : (s.party t).code = .plain .unlock :: rest) :
    SystemSound modulus start lockedWakes (execPlain modulus s t rest .unlock) := by
  have own := sound.parties t
  have disciplined := own.code
  rw [code] at disciplined
  obtain ⟨held, ordered, later⟩ := disciplined
  have held : s.owner = some t := of_decide_eq_true held
  refine ⟨sound.seq, fun q => ?_⟩
  by_cases same : q = t
  · subst same
    simp only [execPlain, System.setParty, update_self]
    refine ⟨?_, own.snap, own.owed, fun tested unsnapped => ?_⟩
    · rw [decide_eq_false nofun]
      exact later
    have unsnapped : (s.party q).snapped = false := unsnapped
    rw [ordered tested] at unsnapped
    cases unsnapped
  · simp only [execPlain, System.setParty, update_of_ne same]
    exact other_owner_sound same (Or.inr held) (Or.inl rfl) (sound.parties q)

omit sound in
theorem rise_sound (data : σ)
    (own : PartySound modulus start lockedWakes owner ticks t p) : PartySound modulus start lockedWakes owner ticks t (p.rise data) :=
  ⟨own.code, own.snap, own.owed, own.tested⟩

theorem exec_act_sound {change : σ → σ}
    (code : (s.party t).code = .plain (.act change) :: rest) :
    SystemSound modulus start lockedWakes (execPlain modulus s t rest (.act change)) := by
  have own := sound.parties t
  have disciplined := own.code
  rw [code] at disciplined
  have moved := @set_party_sound _ _ _ _ s t ((s.party t).at rest) ⟨disciplined, own.snap, own.owed, own.tested⟩ sound
  exact ⟨moved.seq, fun q => rise_sound (change s.data) (moved.parties q)⟩

-- A thread between test and snapshot would hold the lock.
theorem exec_advance_sound (code : (s.party t).code = .plain .advance :: rest) :
    SystemSound modulus start lockedWakes (execPlain modulus s t rest .advance) := by
  have own := sound.parties t
  have disciplined := own.code
  rw [code] at disciplined
  obtain ⟨locked, untested, later⟩ := disciplined
  have moved := @set_party_sound _ _ _ _ s t ((s.party t).at rest) ⟨later, own.snap, own.owed, own.tested⟩ sound
  refine ⟨?_, fun q => ?_⟩
  · simp only [execPlain, System.each, System.setParty]
    rw [sound.seq, Nat.mod_add_mod, Nat.add_assoc]
  have party := moved.parties q
  refine ⟨party.code, fun snapped => ?_, fun snapped _ _ => ?_, fun tested unsnapped => ?_⟩
  · exact ⟨(party.snap snapped).1.trans (Nat.le_succ _), (party.snap snapped).2⟩
  · exact Nat.lt_succ_of_le (party.snap snapped).1
  obtain ⟨_, held, wakesLocked⟩ := party.tested tested unsnapped
  have holder : s.owner = some t := of_decide_eq_true (locked wakesLocked)
  have same : q = t := Option.some.inj (held.symm.trans holder)
  subst same
  have tested : (((s.setParty q ((s.party q).at rest)).party q).owe).tested = true := tested
  simp only [System.setParty, update_self, Party.owe, Party.at, untested] at tested
  cases tested

theorem exec_instr_sound {instr : Instr σ} (code : (s.party t).code = instr :: rest) :
    SystemSound modulus start lockedWakes (execInstr modulus s t rest instr) := by
  have own := sound.parties t
  have disciplined := own.code
  rw [code] at disciplined
  cases instr with
  | plain op =>
    cases op with
    | lock => exact exec_lock_sound sound code
    | unlock => exact exec_unlock_sound sound code
    | act change => exact exec_act_sound sound code
    | advance => exact exec_advance_sound sound code
  | snapshot =>
    obtain ⟨unsnapped, _, later⟩ := disciplined
    refine set_party_sound ⟨later, fun _ => ⟨le_rfl, sound.seq⟩, fun _ tested owed => ?_, nofun⟩ sound
    -- Where the test came first, no wake-up has been owed since.
    have clear : (s.party t).owed = false := (own.tested tested unsnapped).1
    exact absurd owed (by simp [Party.note, clear])
  | branch cond onTrue =>
    obtain ⟨untested, onTrueFine, later⟩ := disciplined
    refine set_party_sound ⟨?_, own.snap, own.owed, own.tested⟩ sound
    have tailFine := tail_disciplined (decide (s.owner = some t)) (s.party t).snapped onTrueFine
    rw [← untested] at tailFine
    simp only [Party.at]
    split
    · exact tailFine
    · exact later
  | test cond onTrue =>
    obtain ⟨onTrueFine, ordered, later⟩ := disciplined
    simp only [execInstr]
    split
    · exact set_party_sound (leave_sound (tail_disciplined _ false onTrueFine)) sound
    refine set_party_sound ⟨later, own.snap, nofun, fun _ unsnapped => ?_⟩ sound
    obtain ⟨wakesLocked, held⟩ := ordered unsnapped
    exact ⟨rfl, of_decide_eq_true held, wakesLocked⟩
  | await =>
    obtain ⟨free, _, _, later⟩ := disciplined
    simp only [execInstr]
    split
    · refine set_party_sound (leave_sound ?_) sound
      rw [free]
      exact later
    · exact sound

end

section

variable (disciplined : ∀ call, Disciplined lockedWakes false false false (program call))
include disciplined

theorem move_sound
    (m : Move C) (sound : SystemSound modulus start lockedWakes s) :
    SystemSound modulus start lockedWakes (move modulus program s m) := by
  cases m with
  | start t call =>
    have code := (sound.parties t).code
    simp only [move]
    split
    · rename_i idle
      rw [idle] at code
      refine set_party_sound (leave_sound ?_) sound
      rw [show decide (s.owner = some t) = false from code]
      exact disciplined call
    · exact sound
  | exec t =>
    simp only [move]
    split
    · exact sound
    · rename_i instr rest code
      exact exec_instr_sound sound code
  | interrupt t =>
    have code := (sound.parties t).code
    simp only [move]
    split
    · rename_i waiting
      rw [waiting] at code
      exact set_party_sound (leave_sound code.1) sound
    · exact sound

theorem moves_sound
    (schedule : List (Move C)) (s : System σ) (sound : SystemSound modulus start lockedWakes s) :
    SystemSound modulus start lockedWakes (moves modulus program s schedule) := by
  induction schedule generalizing s with
  | nil => exact sound
  | cons m rest ih => exact ih _ (move_sound disciplined m sound)

end

theorem advanced_differs {since : Nat} (later : since < ticks) (fewer : ticks - since < modulus) :
    (start + ticks) % modulus ≠ (start + since) % modulus := by
  intro same
  have divides : modulus ∣ ticks - since := by
    have congruent : start + since ≡ start + ticks [MOD modulus] := same.symm
    have bound : start + since ≤ start + ticks := by omega
    have difference := (Nat.modEq_iff_dvd' bound).mp congruent
    rwa [Nat.add_sub_add_left] at difference
  have positive : 0 < ticks - since := by omega
  exact absurd (Nat.le_of_dvd positive divides) (by omega)

-- A wake-up followed the condition, and the counter has not gone round since the snapshot.
theorem owed_wait_ends (disciplined : ∀ call, Disciplined lockedWakes false false false (program call))
    (small : start < modulus) {data : σ} {schedule : List (Move C)}
    (waits : ((moves modulus program (initial start data) schedule).party t).code = .await :: rest)
    (owed : ((moves modulus program (initial start data) schedule).party t).owed = true)
    (fewer : (moves modulus program (initial start data) schedule).ticks -
      ((moves modulus program (initial start data) schedule).party t).since < modulus) :
    ((move modulus program (moves modulus program (initial start data) schedule) (.exec t)).party t).code = rest := by
  have begun : SystemSound modulus start lockedWakes (initial start data) := initial_sound data small
  have sound := moves_sound disciplined schedule _ begun
  generalize moves modulus program (initial start data) schedule = s at *
  have own := sound.parties t
  have code := own.code
  rw [waits] at code
  obtain ⟨_, snapped, tested, _⟩ := code
  have later := own.owed snapped tested owed
  have differs : s.seq ≠ (s.party t).snap := by
    rw [sound.seq, (own.snap snapped).2]
    exact advanced_differs later fewer
  simp only [move, waits, execInstr, if_pos differs, System.setParty, update_self, Party.leave]

end

end Lyr.Lib.EventCount
