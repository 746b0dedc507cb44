/- RowStore/Number/Binary32
   role: definitions
   digest: Binary32 numbers as multiples of the least positive one, rounded once per operation. -/

/-!
A binary32 number is its 32 bits. Every finite one is an integer multiple of the least positive
number, 2 ^ -149, so sums, products, quotients and comparisons are integer arithmetic on such
multiples ("units"), followed by one rounding to the nearest number, ties to an even last bit.
-/

set_option autoImplicit false
set_option relaxedAutoImplicit false

namespace RowStore.Number

/-- A binary32 number, given by its bits: sign, eight exponent bits, 23 fraction bits. -/
structure Binary32 where
  bits : UInt32
  deriving DecidableEq, Repr, Inhabited

/-- What a binary32 number denotes: a count of units, an infinity, or no number at all. -/
inductive Exact
  | finite (units : Int)
  | infinite (negative : Bool)
  | nan
  deriving DecidableEq, Repr

namespace Binary32

/-- The number 1 as a count of units, `2 ^ 149`. -/
def oneUnits : Nat := Nat.pow 2 149

def signBit : Nat := 0x80000000

/-- The hidden leading bit of a significand, `2 ^ 23`; the exponent field begins at this bit. -/
def hiddenBit : Nat := 0x800000

/-- The magnitude bits of infinity; larger magnitude bits are not numbers. -/
def infinityBits : Nat := 255 * hiddenBit

def isNegative (x : Binary32) : Bool := decide (signBit ≤ x.bits.toNat)

/-- The bits without the sign; on numbers they are ordered as the magnitudes are. -/
def magnitudeBits (x : Binary32) : Nat := x.bits.toNat % signBit

/-- The magnitude, in units, that magnitude bits denote: the fraction alone when the exponent
field is zero, else the fraction with its hidden leading bit, scaled by the exponent. -/
def unitsOfBits (magnitude : Nat) : Nat :=
  let exponent := magnitude / hiddenBit
  let fraction := magnitude % hiddenBit
  if exponent = 0 then fraction else (hiddenBit + fraction) * Nat.pow 2 (exponent - 1)

def ofMagnitude (negative : Bool) (magnitude : Nat) : Binary32 :=
  ⟨UInt32.ofNat ((if negative then signBit else 0) + magnitude)⟩

def zero (negative : Bool) : Binary32 := ofMagnitude negative 0

def infinity (negative : Bool) : Binary32 := ofMagnitude negative infinityBits

/-- The NaN that operations without a numeric result give. -/
def quietNaN : Binary32 := ⟨0x7fc00000⟩

def isNaN (x : Binary32) : Bool := decide (infinityBits < x.magnitudeBits)

def isZero (x : Binary32) : Bool := decide (x.magnitudeBits = 0)

/-- What the number denotes. Both zeros denote zero units. -/
def exact (x : Binary32) : Exact :=
  let magnitude := x.magnitudeBits
  if infinityBits < magnitude then .nan
  else if magnitude = infinityBits then .infinite x.isNegative
  else if x.isNegative then .finite (-(unitsOfBits magnitude : Int))
  else .finite (unitsOfBits magnitude)

/-- The quotient rounded to the nearest natural number, a tie to the even one. -/
def divideToEven (numerator denominator : Nat) : Nat :=
  let quotient := numerator / denominator
  let rest := numerator % denominator
  if 2 * rest < denominator then quotient
  else if denominator < 2 * rest then quotient + 1
  else quotient + quotient % 2

/-- The magnitude bits of the number nearest to `numerator / denominator` units. With 24
significant bits the spacing at this size is `2 ^ shift` units, and `shift * hiddenBit` plus the
rounded significand are the bits of the result, also when rounding carries into the next binade.
Beyond the largest finite number they are those of infinity. -/
def roundedBits (numerator denominator : Nat) : Nat :=
  let whole := numerator / denominator
  let shift := whole.log2 - 23
  let significand := divideToEven numerator (denominator * Nat.pow 2 shift)
  min (shift * hiddenBit + significand) infinityBits

/-- The number of the given sign nearest to `numerator / denominator` units. -/
def round (negative : Bool) (numerator denominator : Nat) : Binary32 :=
  ofMagnitude negative (roundedBits numerator denominator)

/-- The number nearest to an integer count of units; zero units give the zero of the given sign. -/
def ofUnits (zeroSign : Bool) (units : Int) : Binary32 :=
  if units = 0 then zero zeroSign else round (decide (units < 0)) units.natAbs 1

def ofInt (n : Int) : Binary32 := ofUnits false (n * oneUnits)

/-- The integer nearest to zero among the two around the number, kept inside the 32-bit range.
A NaN gives zero. -/
def toInt32 (x : Binary32) : Int32 :=
  match x.exact with
  | .nan => 0
  | .infinite negative => if negative then Int32.minValue else Int32.maxValue
  | .finite units =>
    let n := units.tdiv oneUnits
    if n ≤ Int32.minValue.toInt then Int32.minValue
    else if Int32.maxValue.toInt ≤ n then Int32.maxValue
    else Int32.ofInt n

def neg (x : Binary32) : Binary32 := ofMagnitude (!x.isNegative) x.magnitudeBits

/-- The rounded sum. Infinities of opposite signs have none; an exact zero is negative only if
both operands are. -/
def add (x y : Binary32) : Binary32 :=
  match x.exact, y.exact with
  | .nan, _ => quietNaN
  | _, .nan => quietNaN
  | .infinite s, .infinite t => if s = t then infinity s else quietNaN
  | .infinite s, .finite _ => infinity s
  | .finite _, .infinite t => infinity t
  | .finite u, .finite v => ofUnits (x.isNegative && y.isNegative) (u + v)

def sub (x y : Binary32) : Binary32 := add x (neg y)

/-- The rounded product; its sign is the product of the signs, also for zeros and infinities. -/
def mul (x y : Binary32) : Binary32 :=
  let negative := x.isNegative != y.isNegative
  match x.exact, y.exact with
  | .nan, _ => quietNaN
  | _, .nan => quietNaN
  | .infinite _, .infinite _ => infinity negative
  | .infinite _, .finite v => if v = 0 then quietNaN else infinity negative
  | .finite u, .infinite _ => if u = 0 then quietNaN else infinity negative
  | .finite u, .finite v => round negative (u.natAbs * v.natAbs) oneUnits

/-- The rounded quotient; its sign is the product of the signs. A nonzero number over zero is
infinite. -/
def div (x y : Binary32) : Binary32 :=
  let negative := x.isNegative != y.isNegative
  match x.exact, y.exact with
  | .nan, _ => quietNaN
  | _, .nan => quietNaN
  | .infinite _, .infinite _ => quietNaN
  | .infinite _, .finite _ => infinity negative
  | .finite _, .infinite _ => zero negative
  | .finite u, .finite v =>
    if v = 0 then (if u = 0 then quietNaN else infinity negative)
    else round negative (u.natAbs * oneUnits) v.natAbs

end Binary32

namespace Exact

/-- The order of what two numbers denote; nothing is ordered against NaN. -/
def compare? : Exact → Exact → Option Ordering
  | .nan, _ => none
  | _, .nan => none
  | .infinite s, .infinite t => some (if s = t then .eq else if s then .lt else .gt)
  | .infinite s, .finite _ => some (if s then .lt else .gt)
  | .finite _, .infinite t => some (if t then .gt else .lt)
  | .finite u, .finite v => some (compare u v)

/-- An integer denotes itself, counted in units. -/
def ofInt (n : Int) : Exact := .finite (n * Binary32.oneUnits)

end Exact

end RowStore.Number
