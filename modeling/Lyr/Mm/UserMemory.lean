import Lyr.Mm.VmmCalls

set_option autoImplicit false

namespace Lyr.Mm

open Lyr.Lib

def userByte (m : Machine) (vas : Vas) (addr : Nat) : Option UInt8 :=
  (leaf m.mem vas.pml4 (pageNumber addr)).map (fun e => m.mem (4096 * frameOf e + addr % 4096))

theorem user_byte_leaf {m : Machine} {vas : Vas} {addr q prot : Nat} (physical : q < 2 ^ 40)
    (mapped : leaf m.mem vas.pml4 (pageNumber addr) = some (leafValue (4096 * q) prot)) :
    userByte m vas addr = some (m.mem (4096 * q + addr % 4096)) := by
  have frame : 4096 * q / 4096 % 2 ^ 40 = q := by omega
  rw [userByte, mapped, Option.map_some, leaf_value_frame, frame]

end Lyr.Mm
