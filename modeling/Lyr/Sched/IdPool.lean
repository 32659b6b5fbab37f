import Lyr.Lib.Run
import Lyr.Sched.ProcessTable

set_option autoImplicit false

namespace Lyr.Sched

open Lyr.Lib

-- With the ids held.
structure IdUse where
  pool : IdPool
  live : List Nat

inductive PoolCall where
  | alloc
  | free (id : Nat)

def poolStep (s : IdUse) : PoolCall → Except SchedPanic IdUse
  | .alloc => .ok ⟨(idAlloc s.pool).2, (idAlloc s.pool).1 :: s.live⟩
  | .free id => (idFree s.pool id).map (fun pool => ⟨pool, s.live.erase id⟩)

-- pool->next is a 32-bit int.
def intOf (word : Nat) : Int := if word < 2 ^ 31 then word else word - 2 ^ 32

structure IdLaw (s : IdUse) : Prop where
  sorted : s.pool.free.Pairwise (· < ·)
  apart : ∀ id ∈ s.pool.free, id ∉ s.live
  exactly : ∀ id : Nat, id ∈ s.pool.free ∨ id ∈ s.live ↔ 1 ≤ id ∧ (id : Int) ≤ intOf s.pool.next - 1
  least : IsLeast { id | 0 < id ∧ id ∉ s.live } (idAlloc s.pool).1
  freed : ∀ id ∈ s.live, ∃ pool, idFree s.pool id = .ok pool

def PoolCall.Allowed (limit : Nat) (s : IdUse) : PoolCall → Prop
  | .alloc => s.live.length + 1 < limit
  | .free id => id ∈ s.live

instance (limit : Nat) (s : IdUse) : (call : PoolCall) → Decidable (call.Allowed limit s)
  | .alloc => Nat.decLt _ _
  | .free id => inferInstanceAs (Decidable (id ∈ s.live))

structure IdKept (s : IdUse) : Prop where
  sorted : s.pool.free.Pairwise (· < ·)
  all : (s.pool.free ++ s.live).Perm (List.range' 1 (s.pool.next - 1))
  positive : 1 ≤ s.pool.next
  small : s.pool.next < 2 ^ 31

variable {s : IdUse} {id : Nat} {free : List Nat}

theorem id_insert_perm (absent : id ∉ free) :
    ∃ after, idInsert id free = .ok after ∧ after.Perm (id :: free) ∧ (free.Pairwise (· < ·) → after.Pairwise (· < ·)) := by
  induction free with
  | nil => exact ⟨[id], rfl, List.Perm.refl _, fun _ => List.pairwise_singleton ..⟩
  | cons head rest ih =>
    obtain ⟨different, later⟩ := not_or.mp (fun either => absent (List.mem_cons.mpr either))
    unfold idInsert
    by_cases below : head < id
    · obtain ⟨after, inserted, perm, sorted⟩ := ih later
      rw [if_pos below, inserted]
      refine ⟨head :: after, rfl, (perm.cons head).trans (List.Perm.swap id head rest), fun ordered => ?_⟩
      obtain ⟨above, tail⟩ := List.pairwise_cons.mp ordered
      refine List.pairwise_cons.mpr ⟨fun other inside => ?_, sorted tail⟩
      obtain rfl | old := List.mem_cons.mp (perm.mem_iff.mp inside)
      · exact below
      · exact above other old
    · rw [if_neg below, if_neg (fun same => different same.symm)]
      refine ⟨id :: head :: rest, rfl, List.Perm.refl _, fun ordered => List.pairwise_cons.mpr ⟨fun other inside => ?_, ordered⟩⟩
      have above : head ≤ other := by
        obtain rfl | old := List.mem_cons.mp inside
        · exact Nat.le_refl _
        · exact Nat.le_of_lt ((List.pairwise_cons.mp ordered).1 other old)
      omega

section

variable (kept : IdKept s)
include kept

theorem kept_exactly (id : Nat) : id ∈ s.pool.free ∨ id ∈ s.live ↔ 1 ≤ id ∧ id < s.pool.next := by
  have positive := kept.positive
  rw [← List.mem_append, kept.all.mem_iff, List.mem_range'_1]
  omega

theorem kept_apart : ∀ id ∈ s.pool.free, id ∉ s.live :=
  List.disjoint_of_nodup_append (kept.all.nodup_iff.mpr (List.nodup_range' ..))

theorem id_alloc_least : IsLeast { id | 0 < id ∧ id ∉ s.live } (idAlloc s.pool).1 := by
  have exactly := kept_exactly kept
  rw [idAlloc]
  cases free : s.pool.free with
  | nil =>
    refine ⟨⟨kept.positive, fun held => Nat.lt_irrefl _ ((exactly _).mp (.inr held)).2⟩, fun id other => ?_⟩
    by_contra smaller
    refine other.2 (((exactly id).mpr ⟨other.1, Nat.lt_of_not_le smaller⟩).resolve_left ?_)
    simp [free]
  | cons head rest =>
    have listed : head ∈ s.pool.free := by simp [free]
    have inside := (exactly head).mp (.inl listed)
    refine ⟨⟨inside.1, kept_apart kept head listed⟩, fun id other => ?_⟩
    by_contra smaller
    have lower : id < head := Nat.lt_of_not_le smaller
    have old := ((exactly id).mpr ⟨other.1, lower.trans inside.2⟩).resolve_right other.2
    rw [free, List.mem_cons] at old
    have above := (List.pairwise_cons.mp (free ▸ kept.sorted)).1
    obtain rfl | old := old
    · exact Nat.lt_irrefl _ lower
    · exact Nat.lt_asymm lower (above id old)

theorem id_alloc_kept (room : s.live.length + 1 < 2 ^ 31 - 1) : IdKept ⟨(idAlloc s.pool).2, (idAlloc s.pool).1 :: s.live⟩ := by
  obtain ⟨sorted, all, positive, small⟩ := kept
  rw [idAlloc]
  cases free : s.pool.free with
  | nil =>
    rw [free, List.nil_append] at all
    have length := all.length_eq
    rw [List.length_range'] at length
    refine ⟨.nil, ?_, Nat.le_add_left 1 _, show s.pool.next + 1 < 2 ^ 31 by omega⟩
    have grown := (all.cons s.pool.next).trans (List.perm_append_singleton ..).symm
    rwa [show List.range' 1 (s.pool.next - 1) ++ [s.pool.next] = List.range' 1 s.pool.next by
      rw [← Nat.sub_add_cancel positive, List.range'_concat]; simp [Nat.add_comm]] at grown
  | cons head rest =>
    rw [free] at all sorted
    exact ⟨(List.pairwise_cons.mp sorted).2, List.perm_middle.trans all, positive, small⟩

theorem id_free_kept (held : id ∈ s.live) : ∃ pool, idFree s.pool id = .ok pool ∧ IdKept ⟨pool, s.live.erase id⟩ := by
  have inside := (kept_exactly kept id).mp (.inr held)
  obtain ⟨after, inserted, perm, sorted⟩ := id_insert_perm (fun listed => kept_apart kept id listed held)
  rw [idFree, if_neg (by omega), inserted]
  refine ⟨_, rfl, sorted kept.sorted, (perm.append_right _).trans (List.Perm.trans ?_ kept.all), kept.positive, kept.small⟩
  exact List.perm_middle.symm.trans ((List.perm_cons_erase held).symm.append_left _)

end

theorem pool_step_kept (s : IdUse) (call : PoolCall) (next : IdUse) (kept : IdKept s) (allowed : call.Allowed (2 ^ 31 - 1) s)
    (taken : poolStep s call = .ok next) : IdKept next := by
  cases call with
  | alloc => exact Except.ok.inj taken ▸ id_alloc_kept kept allowed
  | free id =>
    obtain ⟨pool, done, after⟩ := id_free_kept kept allowed
    rw [poolStep, done] at taken
    exact Except.ok.inj taken ▸ after

theorem kept_law (s : IdUse) (kept : IdKept s) : IdLaw s := by
  refine ⟨kept.sorted, kept_apart kept, fun id => ?_, id_alloc_least kept, fun id held => ?_⟩
  · rw [kept_exactly kept id, intOf, if_pos kept.small]
    omega
  · obtain ⟨pool, done, _⟩ := id_free_kept kept held
    exact ⟨pool, done⟩

def freshIds : IdUse := ⟨⟨1, []⟩, []⟩

theorem ids_stay_exact (calls : List PoolCall) (permitted : Permitted poolStep (PoolCall.Allowed (2 ^ 31 - 1)) freshIds calls) :
    Always poolStep IdLaw freshIds calls :=
  permitted_always pool_step_kept ⟨.nil, .nil, Nat.le_refl 1, by decide⟩ kept_law permitted

theorem freed_id_reused : Always poolStep IdLaw freshIds [.alloc, .alloc, .alloc, .free 2, .free 1, .alloc] :=
  ids_stay_exact _ (by decide)

theorem allocs_run (count : Nat) {next limit : Nat} {live : List Nat} (room : live.length + count < limit) :
    Permitted poolStep (PoolCall.Allowed limit) ⟨⟨next, []⟩, live⟩ (List.replicate count .alloc) ∧
      ∃ after, run poolStep ⟨⟨next, []⟩, live⟩ (List.replicate count .alloc) = .ok ⟨⟨next + count, []⟩, after⟩ := by
  induction count generalizing next live with
  | zero => exact ⟨trivial, live, rfl⟩
  | succ count ih =>
    obtain ⟨permitted, after, ended⟩ := @ih (next + 1) (next :: live) (by rw [List.length_cons]; omega)
    refine ⟨⟨show live.length + 1 < limit by omega, fun other taken => Except.ok.inj taken ▸ permitted⟩, after, ?_⟩
    rw [Nat.add_right_comm] at ended
    exact ended

-- The last id is handed out, and next overflows.
theorem last_id_overflows_next :
    ∃ final, Permitted poolStep (PoolCall.Allowed (2 ^ 31)) freshIds (List.replicate (2 ^ 31 - 1) .alloc) ∧
    run poolStep freshIds (List.replicate (2 ^ 31 - 1) .alloc) = .ok final ∧ intOf final.pool.next = -2 ^ 31 ∧ ¬ IdLaw final := by
  obtain ⟨permitted, after, ended⟩ := @allocs_run (2 ^ 31 - 1) 1 (2 ^ 31) [] (by decide)
  have wrapped : intOf (1 + (2 ^ 31 - 1)) = -2 ^ 31 := by decide
  refine ⟨_, permitted, ended, wrapped, fun law => ?_⟩
  have unused : 1 ∉ after := by
    intro live
    have bound := ((law.exactly 1).mp (.inr live)).2
    rw [wrapped] at bound
    exact absurd bound (by decide)
  exact absurd (law.least.2 ⟨Nat.one_pos, unused⟩) (show ¬ 1 + (2 ^ 31 - 1) ≤ 1 by decide)

end Lyr.Sched
