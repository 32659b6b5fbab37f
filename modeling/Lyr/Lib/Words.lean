import Lyr.Lib.Bytes

set_option autoImplicit false

namespace Lyr.Lib

def loadWords (bytes : Bytes) : Nat → Nat → List UInt64
  | 0, _ => []
  | count + 1, address => UInt64.ofNat (load bytes 8 address) :: loadWords bytes count (address + 8)

def storeWords (bytes : Bytes) : Nat → List UInt64 → Bytes
  | _, [] => bytes
  | address, word :: rest => storeWords (store bytes 8 address word.toNat) (address + 8) rest

theorem load_words_congr {x y : Bytes} {count : Nat} (address : Nat)
    (agree : ∀ a, address ≤ a → a < address + 8 * count → x a = y a) :
    loadWords x count address = loadWords y count address := by
  induction count generalizing address with
  | zero => rfl
  | succ count ih =>
    have head := load_congr x y 8 address (fun a low high => agree a low (by omega))
    have tail := ih (address + 8) (fun a low high => agree a (by omega) (by omega))
    rw [loadWords, loadWords, head, tail]

theorem store_words_outside (bytes : Bytes) (address a : Nat) (words : List UInt64)
    (outside : a < address ∨ address + 8 * words.length ≤ a) : storeWords bytes address words a = bytes a := by
  induction words generalizing bytes address with
  | nil => rfl
  | cons word rest ih =>
    rw [List.length_cons] at outside
    rw [storeWords, ih _ (address + 8) (by omega), store_outside bytes word.toNat (by omega)]

theorem load_store_words (bytes : Bytes) (address : Nat) {words : List UInt64} :
    loadWords (storeWords bytes address words) words.length address = words := by
  induction words generalizing bytes address with
  | nil => rfl
  | cons word rest ih =>
    have head : load (storeWords (store bytes 8 address word.toNat) (address + 8) rest) 8 address = word.toNat := by
      rw [load_congr _ (store bytes 8 address word.toNat) 8 address
        (fun a low high => store_words_outside _ (address + 8) a rest (by omega)), load_store_same]
      exact Nat.mod_eq_of_lt word.toNat_lt
    rw [storeWords, List.length_cons, loadWords, head, ih, UInt64.ofNat_toNat]

end Lyr.Lib
