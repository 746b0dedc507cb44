/- RowStore/Text/Blank
   role: definitions
   digest: The characters with the Unicode property White_Space, and texts trimmed of them. -/

set_option autoImplicit false
set_option relaxedAutoImplicit false

namespace RowStore.Text.Blank

/-- The inclusive code point ranges of the Unicode property White_Space. -/
def ranges : List (Nat × Nat) :=
  [(0x0009, 0x000d), (0x0020, 0x0020), (0x0085, 0x0085), (0x00a0, 0x00a0), (0x1680, 0x1680),
   (0x2000, 0x200a), (0x2028, 0x2029), (0x202f, 0x202f), (0x205f, 0x205f), (0x3000, 0x3000)]

def isBlank (c : Char) : Bool :=
  ranges.any fun r => decide (r.1 ≤ c.toNat) && decide (c.toNat ≤ r.2)

def trim (text : List Char) : List Char :=
  ((text.dropWhile isBlank).reverse.dropWhile isBlank).reverse

end RowStore.Text.Blank
