import Lyr.Lib.Span

set_option autoImplicit false

namespace Lyr.Lib

def ringBytes (ring : Bytes) (cap head length : Nat) : List UInt8 := (List.range length).map (fun i => ring ((head + i) % cap))

-- In two pieces where the data runs over the end.
def ringPush (ring : Bytes) (cap tail : Nat) (data : List UInt8) : Bytes :=
  storeBytes (storeBytes ring tail (data.take (min (cap - tail) data.length))) 0 (data.drop (min (cap - tail) data.length))

def ringPop (ring : Bytes) (cap head length : Nat) : List UInt8 :=
  loadBytes ring head (min (cap - head) length) ++ loadBytes ring 0 (length - min (cap - head) length)

theorem ring_bytes_length (ring : Bytes) (cap head length : Nat) : (ringBytes ring cap head length).length = length := by
  simp [ringBytes]

theorem ring_bytes_congr {x y : Bytes} {cap a b length : Nat}
    (agree : ∀ i, i < length → x ((a + i) % cap) = y ((b + i) % cap)) : ringBytes x cap a length = ringBytes y cap b length := by
  apply List.map_congr_left
  intro i inside
  exact agree i (List.mem_range.mp inside)

theorem ring_bytes_add (ring : Bytes) (cap head first rest : Nat) :
    ringBytes ring cap head (first + rest) = ringBytes ring cap head first ++ ringBytes ring cap (head + first) rest := by
  simp only [ringBytes, List.range_add, List.map_append, List.map_map, Function.comp_def, Nat.add_assoc]

theorem ring_bytes_wrap (ring : Bytes) (cap head length : Nat) :
    ringBytes ring cap (head % cap) length = ringBytes ring cap head length := by
  apply ring_bytes_congr
  intro i _
  rw [Nat.mod_add_mod]

theorem slot_at (cap position : Nat) (turn : position < 2 * cap) :
    position % cap = if position < cap then position else position - cap := by
  split
  next low => exact Nat.mod_eq_of_lt low
  next high => rw [Nat.mod_eq_sub_mod (by omega), Nat.mod_eq_of_lt (by omega)]

variable {cap head length i n : Nat} {data : List UInt8}

section

variable (ring : Bytes)
include ring

theorem ring_pop_bytes (inside : head < cap) (fits : length ≤ cap) :
    ringPop ring cap head length = ringBytes ring cap head length := by
  obtain ⟨first, cut⟩ : ∃ first, first = min (cap - head) length := ⟨_, rfl⟩
  have whole : length = first + (length - first) := by omega
  rw [ringPop, ← cut]
  conv => rhs; rw [whole, ring_bytes_add]
  congr 1
  · apply List.map_congr_left
    intro i small
    have below := List.mem_range.mp small
    rw [Nat.mod_eq_of_lt (by omega)]
  apply List.map_congr_left
  intro i small
  have below := List.mem_range.mp small
  rw [slot_at cap _ (by omega), if_neg (by omega)]
  congr 1
  omega

theorem ring_push_new {tail : Nat} (inside : tail < cap) (fits : data.length ≤ cap)
    (byte : i < data.length) : ringPush ring cap tail data ((tail + i) % cap) = data.getD i 0 := by
  rw [ringPush, slot_at cap _ (by omega)]
  split
  next low =>
    rw [store_bytes_outside _ (by simp only [List.length_drop]; omega),
      store_bytes_at (by omega) (by simp only [List.length_take]; omega), Nat.add_sub_cancel_left]
    simp only [List.getD_eq_getElem?_getD, List.getElem?_take_of_lt (show i < min (cap - tail) data.length by omega)]
  next high =>
    rw [store_bytes_at (by omega) (by simp only [List.length_drop]; omega)]
    simp only [List.getD_eq_getElem?_getD, List.getElem?_drop]
    rw [show min (cap - tail) data.length + (tail + i - cap - 0) = i by omega]

theorem ring_push_old (inside : head < cap) (fits : length + data.length ≤ cap) (queued : i < length) :
    ringPush ring cap ((head + length) % cap) data ((head + i) % cap) = ring ((head + i) % cap) := by
  have tail := slot_at cap (head + length) (by omega)
  have slot := slot_at cap (head + i) (by omega)
  rw [ringPush]
  rw [store_bytes_outside _ (by simp only [List.length_drop]; split at tail <;> split at slot <;> omega),
    store_bytes_outside _ (by simp only [List.length_take]; split at tail <;> split at slot <;> omega)]

theorem ring_push_bytes (inside : head < cap) (fits : length + data.length ≤ cap) :
    ringBytes (ringPush ring cap ((head + length) % cap) data) cap head (length + data.length) =
      ringBytes ring cap head length ++ data := by
  rw [ring_bytes_add]
  congr 1
  · exact ring_bytes_congr (fun i queued => ring_push_old ring inside fits queued)
  rw [← ring_bytes_wrap]
  apply List.ext_getElem (ring_bytes_length _ _ _ _)
  intro i low high
  simp only [ringBytes, List.getElem_map, List.getElem_range]
  rw [ring_push_new ring (Nat.mod_lt _ (by omega)) (by omega) high]
  simp [high]

theorem ring_drop_bytes (cap head : Nat) (short : n ≤ length) :
    ringBytes ring cap ((head + n) % cap) (length - n) = (ringBytes ring cap head length).drop n := by
  obtain ⟨rest, split⟩ : ∃ rest, length = n + rest := ⟨length - n, by omega⟩
  rw [split, ring_bytes_add, ring_bytes_wrap, Nat.add_sub_cancel_left]
  exact (List.drop_left' (ring_bytes_length ring cap head n)).symm

theorem ring_take_bytes (cap head : Nat) (short : n ≤ length) :
    ringBytes ring cap head n = (ringBytes ring cap head length).take n := by
  obtain ⟨rest, split⟩ : ∃ rest, length = n + rest := ⟨length - n, by omega⟩
  rw [split, ring_bytes_add]
  exact (List.take_left' (ring_bytes_length ring cap head n)).symm

end

end Lyr.Lib
