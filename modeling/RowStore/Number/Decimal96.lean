/- RowStore/Number/Decimal96
   role: definitions
   digest: Decimal numbers with 96-bit coefficients, read digit by digit and rounded to fit. -/

import RowStore.Number.Reading

/-!
A number is a coefficient below `2 ^ 96` with a count of decimal places. Results are exact while
their coefficients fit. A coefficient that does not fit loses as few of its last places as
possible, rounded to the nearest, ties to even; without places left to lose there is no result.
The digits behind a point are added one after the other, so a number with more digits than fit is
rounded at each of them that is not zero.
-/

set_option autoImplicit false
set_option relaxedAutoImplicit false

namespace RowStore.Number

/-- The number `coefficient / 10 ^ places`. -/
structure Decimal96 where
  coefficient : Nat
  places : Nat
  deriving DecidableEq, Repr

namespace Decimal96

def bound : Nat := 0x1000000000000000000000000

def maxPlaces : Nat := 28

/-- The number of last digits without which a coefficient fits. -/
def excess (coefficient : Nat) : Nat :=
  if h : coefficient < bound then 0 else excess (coefficient / 10) + 1
termination_by coefficient
decreasing_by
  have positive : 0 < bound := by decide
  omega

/-- The number with any coefficient and any places, rounded to one that fits. Rounding up may need
one more place to be given up. -/
def fit (coefficient places : Nat) : Option Decimal96 :=
  let dropped := excess coefficient
  let rounded := Binary32.divideToEven coefficient (Nat.pow 10 dropped)
  if places < dropped then none
  else if rounded < bound then some ⟨rounded, places - dropped⟩
  else if places = dropped then none
  else some ⟨Binary32.divideToEven rounded 10, places - dropped - 1⟩

/-- The number with a digit added at a place behind the point, beyond its own places. A zero leaves
it as it is, but its place must exist. -/
def addDigit (number : Decimal96) (place digit : Nat) : Option Decimal96 :=
  if maxPlaces < place then none
  else if digit = 0 then some number
  else fit (number.coefficient * Nat.pow 10 (place - number.places) + digit) place

def addDigits (number : Decimal96) (place : Nat) : List Char → Option Decimal96
  | [] => some number
  | c :: rest => do
    let sum ← number.addDigit place (Reading.naturalOf [c])
    addDigits sum (place + 1) rest

def ofDigits? (whole fraction : List Char) : Option Decimal96 :=
  let coefficient := Reading.naturalOf whole
  if coefficient < bound then addDigits ⟨coefficient, 0⟩ 1 fraction else none

def times (number : Decimal96) (factor : Nat) : Option Decimal96 :=
  fit (number.coefficient * factor) number.places

def ceiling (number : Decimal96) : Nat :=
  let scale := Nat.pow 10 number.places
  (number.coefficient + scale - 1) / scale

end Decimal96

end RowStore.Number
