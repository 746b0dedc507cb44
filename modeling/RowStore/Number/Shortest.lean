/- RowStore/Number/Shortest
   role: definitions
   digest: The shortest decimal that reads back as a given binary32 number, written positionally. -/

import RowStore.Number.Binary32

/-!
The reals that round to a finite number form an interval around it, with its ends included when
the last bit is even. The shortest decimal text lies on the coarsest power-of-ten grid that has a
point in that interval. Everything is compared in half units, so no step rounds.
-/

set_option autoImplicit false
set_option relaxedAutoImplicit false

namespace RowStore.Number.Shortest

structure Decimal where
  coefficient : Nat
  exponent : Int
  deriving DecidableEq, Repr

/-- The lower end, in half units, of the interval that rounds to positive magnitude bits. -/
def lowerEnd (magnitude : Nat) : Nat :=
  Binary32.unitsOfBits (magnitude - 1) + Binary32.unitsOfBits magnitude

def upperEnd (magnitude : Nat) : Nat :=
  Binary32.unitsOfBits magnitude + Binary32.unitsOfBits (magnitude + 1)

/-- The factor that turns half units into multiples of `10 ^ exponent` when that is below one. -/
def gridScale (exponent : Int) : Nat := Nat.pow 10 (-exponent).toNat

/-- One step of the grid `10 ^ exponent`, in half units times `gridScale exponent`. -/
def gridStep (exponent : Int) : Nat := 2 * Binary32.oneUnits * Nat.pow 10 exponent.toNat

def roundsBack (magnitude : Nat) (point : Decimal) : Bool :=
  let scale := gridScale point.exponent
  let position := point.coefficient * gridStep point.exponent
  let low := lowerEnd magnitude * scale
  let high := upperEnd magnitude * scale
  if magnitude % 2 = 0 then decide (low ≤ position) && decide (position ≤ high)
  else decide (low < position) && decide (position < high)

/-- The grid point nearest to the number among those of its two neighbours on the grid that round
back to it; of two equally near ones the larger. -/
def onGrid (magnitude : Nat) (exponent : Int) : Option Decimal :=
  let step := gridStep exponent
  let position := 2 * Binary32.unitsOfBits magnitude * gridScale exponent
  let below : Decimal := ⟨position / step, exponent⟩
  let above : Decimal := ⟨position / step + 1, exponent⟩
  match roundsBack magnitude below, roundsBack magnitude above with
  | true, true => some (if 2 * (position % step) < step then below else above)
  | true, false => some below
  | false, true => some above
  | false, false => none

/-- The grids tried, coarsest first: from above the largest number to below half the least one. -/
def exponents : List Int := (List.range 86).map fun i : Nat => 39 - (i : Int)

/-- The shortest decimal that rounds to positive finite magnitude bits. -/
def ofMagnitude (magnitude : Nat) : Decimal :=
  (exponents.findSome? (onGrid magnitude)).getD ⟨0, 0⟩

/-- A decimal in positional notation: no exponent, and a zero before a leading point. -/
def Decimal.text (d : Decimal) : String :=
  let digits := Nat.toDigits 10 d.coefficient
  if 0 ≤ d.exponent then String.ofList (digits ++ List.replicate d.exponent.toNat '0')
  else
    let places := (-d.exponent).toNat
    let padded := List.replicate (places + 1 - digits.length) '0' ++ digits
    let whole := padded.length - places
    String.ofList (padded.take whole ++ '.' :: padded.drop whole)

/-- The text of a number: the shortest digits that read back as it, a minus sign also before a
negative zero, and words for what is not finite. -/
def text (x : Binary32) : String :=
  match x.exact with
  | .nan => "NaN"
  | .infinite negative => if negative then "-inf" else "inf"
  | .finite _ =>
    let digits := if x.isZero then "0" else (ofMagnitude x.magnitudeBits).text
    if x.isNegative then "-" ++ digits else digits

end RowStore.Number.Shortest
