/- RowStore/Number/Reading
   role: definitions
   digest: Numbers read from decimal text, integers in range and binary32 numbers rounded once. -/

import RowStore.Number.Binary32

set_option autoImplicit false
set_option relaxedAutoImplicit false

namespace RowStore.Number.Reading

def isDigit (c : Char) : Bool := '0' ≤ c && c ≤ '9'

/-- The natural number that a run of digits denotes, most significant first. -/
def naturalOf (digits : List Char) : Nat :=
  digits.foldl (fun n c => 10 * n + (c.toNat - '0'.toNat)) 0

/-- An optional sign before the rest; true for a minus sign. -/
def splitSign : List Char → Bool × List Char
  | '-' :: rest => (true, rest)
  | '+' :: rest => (false, rest)
  | rest => (false, rest)

def integer? (text : List Char) : Option Int :=
  match splitSign text with
  | (_, []) => none
  | (negative, digits) =>
    if digits.all isDigit then
      some (if negative then -(naturalOf digits : Int) else naturalOf digits)
    else none

def int32? (text : List Char) : Option Int32 :=
  match integer? text with
  | none => none
  | some n =>
    if Int32.minValue.toInt ≤ n ∧ n ≤ Int32.maxValue.toInt then some (Int32.ofInt n) else none

/-- The exponent after the digits: nothing at all, or `e` and an integer. -/
def exponent? : List Char → Option Int
  | [] => some 0
  | c :: rest => if c = 'e' ∨ c = 'E' then integer? rest else none

/-- The number nearest to `coefficient * 10 ^ exponent`. A decimal of so many digits is far above
the largest number or far below half the least one when its magnitude says so, which keeps the
powers of ten small. -/
def nearest (negative : Bool) (coefficient : Nat) (exponent : Int) : Binary32 :=
  let magnitude : Int := (Nat.toDigits 10 coefficient).length + exponent
  if coefficient = 0 ∨ magnitude < -60 then Binary32.zero negative
  else if 60 < magnitude then Binary32.infinity negative
  else Binary32.round negative (coefficient * Nat.pow 10 exponent.toNat * Binary32.oneUnits)
    (Nat.pow 10 (-exponent).toNat)

/-- The number `coefficient * 10 ^ exponent` rounds to infinity among the binary64 numbers. The
largest finite one is `2 ^ 1024 - 2 ^ 971`, and numbers from halfway to `2 ^ 1024` on round up. Only
numbers of 309 digits before the point have to be looked at. -/
def exceedsBinary64 (coefficient : Nat) (exponent : Int) : Bool :=
  let magnitude : Int := (Nat.toDigits 10 coefficient).length + exponent
  if coefficient = 0 ∨ magnitude < 309 then false
  else if 309 < magnitude then true
  else decide ((Nat.pow 2 54 - 1) * Nat.pow 2 970 * Nat.pow 10 (-exponent).toNat ≤
    coefficient * Nat.pow 10 exponent.toNat)

/-- Unsigned decimal text: digits with an optional point among or around them, then an optional
exponent. -/
def decimal? (negative : Bool) (text : List Char) : Option Binary32 :=
  let whole := text.takeWhile isDigit
  let afterWhole := text.dropWhile isDigit
  let fraction := match afterWhole with
    | '.' :: rest => rest.takeWhile isDigit
    | _ => []
  let afterFraction := match afterWhole with
    | '.' :: rest => rest.dropWhile isDigit
    | rest => rest
  if whole = [] ∧ fraction = [] then none
  else (exponent? afterFraction).map fun exponent =>
    nearest negative (naturalOf (whole ++ fraction)) (exponent - fraction.length)

/-- A binary32 number from text: an optional sign before decimal text or before a word, in any
case, for infinity or for no number. -/
def binary32? (text : List Char) : Option Binary32 :=
  let (negative, rest) := splitSign text
  let word := rest.map Char.toLower
  if word = ['i', 'n', 'f'] ∨ word = ['i', 'n', 'f', 'i', 'n', 'i', 't', 'y'] then
    some (Binary32.infinity negative)
  else if word = ['n', 'a', 'n'] then
    some (if negative then Binary32.quietNaN.neg else Binary32.quietNaN)
  else decimal? negative rest

end RowStore.Number.Reading
