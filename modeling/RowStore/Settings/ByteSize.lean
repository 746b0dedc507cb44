/- RowStore/Settings/ByteSize
   role: definitions
   digest: Sizes in bytes written as decimal numbers with units. -/

import RowStore.Number.Decimal96
import RowStore.Text.Blank

set_option autoImplicit false
set_option relaxedAutoImplicit false

namespace RowStore.Settings.ByteSize

open RowStore.Number (Decimal96)
open RowStore.Number.Reading (isDigit)

inductive SizeUnit
  | bytes (count : Nat)
  | bits (count : Nat)
  deriving DecidableEq, Repr

/-- The power that a letter before a unit stands for, in either case. -/
def power? (c : Char) : Option Nat :=
  match c.toLower with
  | 'k' => some 1
  | 'm' => some 2
  | 'g' => some 3
  | 't' => some 4
  | 'p' => some 5
  | 'e' => some 6
  | _ => none

/-- The factor that a unit begins with, and the word behind it: a power of a thousand, or of 1024
with an `i`. -/
def splitFactor : List Char → Nat × List Char
  | [] => (1, [])
  | c :: word =>
    match power? c, word with
    | none, word => (1, c :: word)
    | some power, 'i' :: word => (Nat.pow 1024 power, word)
    | some power, 'I' :: word => (Nat.pow 1024 power, word)
    | some power, word => (Nat.pow 1000 power, word)

/-- The unit that a text names. A capital `B` alone stands for bytes, and so does nothing at all; a
small one and the word for bits, in either case and number, stand for bits. -/
def unit? (text : List Char) : Option SizeUnit :=
  let (count, word) := splitFactor text
  let lower := word.map Char.toLower
  if word = [] ∨ word = ['B'] then some (.bytes count)
  else if lower = ['b'] ∨ lower = ['b', 'i', 't'] ∨ lower = ['b', 'i', 't', 's'] then
    some (.bits count)
  else none

/-- A number of units in bytes, a started byte counting as a whole one. A single bit is the eighth
part of a byte, and a started bit counts as a whole one; all larger numbers of bits in a unit make
whole bytes. -/
def SizeUnit.bytesOf? (number : Decimal96) : SizeUnit → Option Nat
  | .bytes count => (number.times count).map Decimal96.ceiling
  | .bits count =>
    if count = 1 then some ((number.ceiling + 7) / 8)
    else (number.times (count / 8)).map Decimal96.ceiling

def fraction? : List Char → Option (List Char × List Char)
  | '.' :: rest =>
    let digits := rest.takeWhile isDigit
    if digits = [] then none else some (digits, rest.dropWhile isDigit)
  | rest => some ([], rest)

/-- The number of bytes that a text denotes. The number must begin with a digit and is held as a
96-bit decimal; the size must fit 64 bits. -/
def ofText? (text : String) : Option Nat := do
  let trimmed := Text.Blank.trim text.toList
  let whole := trimmed.takeWhile isDigit
  if whole = [] then none
  let (fraction, rest) ← fraction? (trimmed.dropWhile isDigit)
  let unit ← unit? (rest.dropWhile (· = ' '))
  let number ← Decimal96.ofDigits? whole fraction
  let size ← SizeUnit.bytesOf? number unit
  if size < 0x10000000000000000 then some size else none

end RowStore.Settings.ByteSize
