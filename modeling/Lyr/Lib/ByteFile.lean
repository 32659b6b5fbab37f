import Lyr.Lib.Span

set_option autoImplicit false

namespace Lyr.Lib

-- A length and bytes, zeros after the end.
@[ext]
structure ByteFile where
  size : Nat
  byte : Nat → UInt8
  beyond : ∀ i, size ≤ i → byte i = 0

namespace ByteFile

def empty : ByteFile := ⟨0, fun _ => 0, fun _ _ => rfl⟩

def write (f : ByteFile) (offset : Nat) (data : List UInt8) : ByteFile where
  size := max f.size (offset + data.length)
  byte := storeBytes f.byte offset data
  beyond i after := by
    rw [store_bytes_outside f.byte (by omega)]
    exact f.beyond i (by omega)

def truncate (f : ByteFile) (size : Nat) : ByteFile where
  size := size
  byte i := if i < size then f.byte i else 0
  beyond i after := if_neg (by omega)

def read (f : ByteFile) (offset length : Nat) : List UInt8 := loadBytes f.byte offset (min length (f.size - offset))

end ByteFile

end Lyr.Lib
