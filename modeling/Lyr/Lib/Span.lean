import Lyr.Lib.Bytes

set_option autoImplicit false

namespace Lyr.Lib

def loadBytes (bytes : Bytes) (address length : Nat) : List UInt8 := (List.range length).map (fun i => bytes (address + i))

def storeBytes (bytes : Bytes) (address : Nat) (data : List UInt8) : Bytes := fun a =>
  if address ≤ a ∧ a < address + data.length then data.getD (a - address) 0 else bytes a

def overlay (bytes : Bytes) (address length : Nat) (buffer : Bytes) : Bytes := fun a =>
  if address ≤ a ∧ a < address + length then buffer (a - address) else bytes a

def chunk (unit position rest : Nat) : Nat := min (unit - position % unit) rest

theorem overlay_inside (bytes buffer : Bytes) (address length k : Nat) (inside : k < length) :
    overlay bytes address length buffer (address + k) = buffer k := by
  rw [overlay, if_pos ⟨by omega, by omega⟩, Nat.add_sub_cancel_left]

theorem load_bytes_length (bytes : Bytes) (address length : Nat) : (loadBytes bytes address length).length = length := by
  simp [loadBytes]

theorem load_bytes_zero (bytes : Bytes) (address : Nat) : loadBytes bytes address 0 = [] := rfl

variable {a length address i skip : Nat} {bytes : Bytes} {data : List UInt8}

theorem load_bytes_congr {x y : Bytes} {b : Nat} (agree : ∀ i, i < length → x (a + i) = y (b + i)) :
    loadBytes x a length = loadBytes y b length := by
  simp only [loadBytes]
  exact List.map_congr_left (fun i inside => agree i (List.mem_range.mp inside))

theorem load_bytes_add (bytes : Bytes) (address first rest : Nat) :
    loadBytes bytes address (first + rest) = loadBytes bytes address first ++ loadBytes bytes (address + first) rest := by
  simp only [loadBytes, List.range_add, List.map_append, List.map_map]
  congr 1
  exact List.map_congr_left (fun i _ => by simp [Nat.add_assoc])

theorem load_bytes_getD (inside : i < length) : (loadBytes bytes address length).getD i 0 = bytes (address + i) := by
  simp [loadBytes, inside]

theorem load_bytes_slice {n : Nat} (inside : skip + n ≤ length) :
    ((loadBytes bytes address length).drop skip).take n = loadBytes bytes (address + skip) n := by
  have split : length = skip + (n + (length - skip - n)) := by omega
  rw [split, load_bytes_add, load_bytes_add]
  rw [List.drop_left' (load_bytes_length _ _ _), List.take_left' (load_bytes_length _ _ _)]

theorem store_bytes_outside (bytes : Bytes) (outside : a < address ∨ address + data.length ≤ a) :
    storeBytes bytes address data a = bytes a := by
  rw [storeBytes, if_neg (by omega)]

theorem store_bytes_inside (inside : i < data.length) : storeBytes bytes address data (address + i) = data.getD i 0 := by
  rw [storeBytes, if_pos ⟨by omega, by omega⟩, Nat.add_sub_cancel_left]

theorem store_bytes_at (low : address ≤ a) (high : a < address + data.length) :
    storeBytes bytes address data a = data.getD (a - address) 0 := by
  rw [storeBytes, if_pos ⟨low, high⟩]

theorem store_bytes_nil (bytes : Bytes) (address : Nat) : storeBytes bytes address [] = bytes := by
  funext a
  exact store_bytes_outside bytes (by simp only [List.length_nil]; omega)

theorem fill_eq_store (bytes : Bytes) (address length : Nat) (byte : UInt8) :
    fill bytes address length byte = storeBytes bytes address (List.replicate length byte) := by
  funext a
  by_cases inside : address ≤ a ∧ a < address + length
  · rw [fill_inside bytes byte inside.1 inside.2, store_bytes_at inside.1 (by simpa using inside.2)]
    simp [List.getD, show a - address < length by omega]
  · rw [fill_outside bytes byte (by omega), store_bytes_outside _ (by simp only [List.length_replicate]; omega)]

theorem store_bytes_split {first : Nat} (short : first ≤ data.length) :
    storeBytes (storeBytes bytes address (data.take first)) (address + first) (data.drop first) = storeBytes bytes address data := by
  funext a
  have left : (data.take first).length = first := by simpa using short
  have right : (data.drop first).length = data.length - first := List.length_drop
  by_cases before : a < address
  · rw [store_bytes_outside _ (by omega), store_bytes_outside _ (by omega), store_bytes_outside _ (by omega)]
  obtain ⟨i, rfl⟩ := Nat.exists_eq_add_of_le (Nat.le_of_not_lt before)
  by_cases low : i < first
  · rw [store_bytes_outside _ (by omega), store_bytes_inside (by omega), store_bytes_inside (by omega)]
    simp [List.getD, low]
  by_cases high : i < data.length
  · obtain ⟨j, rfl⟩ := Nat.exists_eq_add_of_le (Nat.le_of_not_lt low)
    rw [← Nat.add_assoc, store_bytes_inside (by omega), Nat.add_assoc, store_bytes_inside high]
    simp [List.getD]
  · rw [store_bytes_outside _ (by omega), store_bytes_outside _ (by omega), store_bytes_outside _ (by omega)]

theorem store_patched (inside : skip + data.length ≤ length) :
    storeBytes bytes address ((loadBytes bytes address length).take skip ++ data ++ (loadBytes bytes address length).drop
      (skip + data.length)) =
      storeBytes bytes (address + skip) data := by
  funext a
  have first : ((loadBytes bytes address length).take skip).length = skip := by
    rw [List.length_take, load_bytes_length]
    omega
  have whole : ((loadBytes bytes address length).take skip ++ data ++ (loadBytes bytes address length).drop
    (skip + data.length)).length = length := by
    rw [List.length_append, List.length_append, first, List.length_drop, load_bytes_length]
    omega
  by_cases outside : a < address ∨ address + length ≤ a
  · rw [store_bytes_outside _ (by omega), store_bytes_outside _ (by omega)]
  obtain ⟨i, rfl⟩ := Nat.exists_eq_add_of_le (show address ≤ a by omega)
  rw [store_bytes_inside (by omega), List.append_assoc]
  by_cases before : i < skip
  · rw [store_bytes_outside _ (by omega), List.getD_append _ _ _ _ (by omega)]
    simp [List.getD, before, loadBytes, show i < length by omega]
  rw [List.getD_append_right _ _ _ _ (by omega), first]
  by_cases within : i - skip < data.length
  · rw [show address + i = address + skip + (i - skip) by omega, store_bytes_inside within, List.getD_append _ _ _ _ within]
  · rw [store_bytes_outside _ (by omega), List.getD_append_right _ _ _ _ (by omega)]
    simp [List.getD, loadBytes, show skip + data.length + (i - skip - data.length) = i by omega, show i < length by omega]

theorem chunk_le (unit position rest : Nat) : chunk unit position rest ≤ rest := Nat.min_le_right _ _

theorem chunk_pos (unit position rest : Nat) (whole : 0 < unit) (more : 0 < rest) : 0 < chunk unit position rest := by
  have := Nat.mod_lt position whole
  rw [chunk]
  omega

end Lyr.Lib
