/- RowStore/Text/Bytes
   role: definitions
   digest: Byte strings, their content before the first zero byte, and their lexicographic order. -/

set_option autoImplicit false
set_option relaxedAutoImplicit false

namespace RowStore.Text

abbrev Bytes := List UInt8

namespace Bytes

/-- The content of a zero-terminated byte string: the bytes before its first zero byte, or all of
them when it has none. -/
def content (bytes : List UInt8) : Bytes := bytes.takeWhile (· != 0)

/-- Lexicographic order of bytes, a shorter string before its extensions. -/
def order : Bytes → Bytes → Ordering
  | [], [] => .eq
  | [], _ :: _ => .lt
  | _ :: _, [] => .gt
  | a :: as, b :: bs => if a < b then .lt else if b < a then .gt else order as bs

/-- The byte string with the bytes from `offset` on replaced, as far as they reach. -/
def splice (bytes : List UInt8) (offset : Nat) (slot : List UInt8) : Bytes :=
  bytes.take offset ++ slot ++ bytes.drop (offset + slot.length)

end Bytes

end RowStore.Text
