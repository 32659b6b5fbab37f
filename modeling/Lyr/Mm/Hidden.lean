import Lyr.Mm.VmmCalls

set_option autoImplicit false

namespace Lyr.Mm

open Lyr.Lib

-- No page that the lower half of the table pt maps is a page table.
def Hides (mem : Bytes) (spaces : List Space) (pt : Nat) : Prop :=
  ∀ v e, v < 2 ^ 35 → leaf mem pt v = some e → ¬ AnyTable mem spaces (frameOf e)

variable {m n : Machine} {spaces : List Space} {held : Nat → Nat} {changed : Space → Nat → Prop} {pt fresh p : Nat}
    {vas after : Vas}

theorem created_any_table (sound : Sound m spaces held)
    (created : Created m n spaces held fresh) (different : p ≠ fresh) (at_ : AnyTable n.mem (userSpace fresh :: spaces) p) :
    AnyTable m.mem spaces p := by
  obtain ⟨b, member, depth, key, bound, covers, found⟩ := at_
  rcases List.mem_cons.mp member with rfl | old
  · exact absurd (fresh_node created.empty (by omega) covers found).2.2 different
  · have same := walk_of_tables (created_tables sound created b old) (by omega) (covers_parent_covers (by omega) covers)
    exact ⟨b, old, depth, key, bound, covers, same.symm.trans found⟩

theorem user_page_not_free {v e : Nat} (sound : Sound m spaces held) (listed : userSpace pt ∈ spaces) (small : v < 2 ^ 35)
    (hidden : ¬ AnyTable m.mem spaces (frameOf e)) (mapped : leaf m.mem pt v = some e) : frameOf e ∉ m.free :=
  anchored_not_free m spaces held (fun _ _ => False) (frameOf e) sound
    ⟨hidden, .inr (.inr ⟨userSpace pt, listed, v, Nat.zero_le v, small, id, @table_leaf_some m.mem pt v e mapped⟩)⟩

theorem created_hides (sound : Sound m spaces held) (created : Created m n spaces held fresh)
    (member : userSpace pt ∈ spaces) (hides : Hides m.mem spaces pt) : Hides n.mem (userSpace fresh :: spaces) pt := by
  intro v e small mapped table
  have before : leaf m.mem pt v = some e := (created_leaf sound created member (Nat.zero_le v) small).symm.trans mapped
  have hidden := hides v e small before
  refine hidden (created_any_table sound created (fun same => ?_) table)
  exact user_page_not_free sound member small hidden before (same ▸ created.taken.1)

theorem fewer_hides {other : List Space} (sub : ∀ b ∈ other, b ∈ spaces) (hides : Hides m.mem spaces pt) : Hides m.mem other pt := by
  rintro v e small mapped ⟨b, member, node⟩
  exact hides v e small mapped ⟨b, sub b member, node⟩

theorem new_frame {q prot : Nat} (sound : Sound m spaces held) (tracked : q ≤ m.maxPfn) :
    frameOf (leafValue (4096 * q) prot) = q := by
  have physical := sound.free.physical
  rw [leaf_value_frame]
  omega

section

variable (member : userSpace pt ∈ spaces) (hides : Hides m.mem spaces pt)
include member hides

-- What is mapped where nothing changes stays, so only the changed leaves are left.
theorem op_hides (op : Op m n spaces held changed)
    (new : ∀ v e, v < 2 ^ 35 → changed (userSpace pt) v → leaf n.mem pt v = some e → ¬ AnyTable n.mem spaces (frameOf e)) :
    Hides n.mem spaces pt := by
  intro v e small mapped
  by_cases touched : changed (userSpace pt) v
  · exact new v e small touched mapped
  have before : leaf m.mem pt v = some e := (op.leaf _ member v (Nat.zero_le v) small touched).symm.trans mapped
  exact (op.bytes _ ⟨hides v e small before,
    .inr (.inr ⟨_, member, v, Nat.zero_le v, small, touched, table_leaf_some before⟩)⟩).2

theorem protected_hides {touched : Nat → Prop} {prot : Nat} (done : Protected m n spaces held (userSpace pt) touched prot) :
    Hides n.mem spaces pt := by
  refine op_hides member hides done.op (fun v e small inside here => ?_)
  have moved : leaf n.mem pt v = _ := done.leaf v (Nat.zero_le v) small inside.2
  obtain ⟨old, before, rfl⟩ := Option.map_eq_some_iff.mp (moved.symm.trans here)
  rw [frame_leaf_value]
  exact (done.bytes v old (Nat.zero_le v) small inside.2 before (hides v old small before)).2

theorem faulted_hides {v prot : Nat} (faulted : Faulted m n spaces held (userSpace pt) v prot) : Hides n.mem spaces pt := by
  refine op_hides member hides faulted.op (fun w e small touched here => ?_)
  obtain ⟨_, rfl⟩ := touched
  obtain ⟨old, q, before, _, tracked, placed, _, kept⟩ := faulted.owned
  cases placed.symm.trans here
  rw [new_frame faulted.op.sound (by rw [faulted.op.pool.maxPfn]; exact tracked)]
  exact (kept (hides w old small before)).1

theorem cloned_hides {src dst : Nat} {touched : Nat → Prop} {flags : Nat → Nat}
    (cloned : Cloned m n spaces held (userSpace src) (userSpace dst) touched flags) (source : Hides m.mem spaces src) :
    Hides n.mem spaces pt := by
  refine op_hides member hides cloned.op (fun v e small inside here => ?_)
  cases before : leaf m.mem src v with
  | none =>
    obtain ⟨noneSrc, noneDst⟩ := cloned.absent v inside.2 before
    rcases inside.1 with same | same <;> cases same
    · cases noneSrc.symm.trans here
    · cases noneDst.symm.trans here
  | some old =>
    have frame : frameOf e = frameOf old := by
      rcases inside.1 with same | same <;> cases same
      · have now := (cloned.source v old inside.2 before).symm.trans here
        split at now <;> cases now
        · exact frame_leaf_value _ old
        · rfl
      · cases (cloned.copy v old inside.2 before).symm.trans here
        exact frame_leaf_value _ old
    rw [frame]
    exact (cloned.bytes v old inside.2 before (source v old small before)).2

end

theorem anon_hides {hint length flags start : Nat} (mapped : MappedAnon m spaces held vas n after hint length flags start)
    (member : userSpace vas.pml4 ∈ spaces) (hides : Hides m.mem spaces vas.pml4) : Hides n.mem spaces vas.pml4 := by
  refine op_hides member hides mapped.op (fun v e small touched here => ?_)
  obtain ⟨q, tracked, placed, off, _⟩ := mapped.fresh v touched.2.1 touched.2.2
  cases placed.symm.trans here
  rw [new_frame mapped.op.sound (by rw [mapped.op.pool.maxPfn]; exact tracked)]
  exact off

end Lyr.Mm
