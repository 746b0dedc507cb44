/- RowStore/Cell/Value
   role: definitions
   digest: Cell values of three types, their conversions, their order and their text. -/

import RowStore.Number.Reading
import RowStore.Number.Shortest
import RowStore.Text.Blank
import RowStore.Text.Like
import RowStore.Text.Utf8

set_option autoImplicit false
set_option relaxedAutoImplicit false

namespace RowStore.Cell

open RowStore.Number (Binary32 Exact)
open RowStore.Text (Bytes)

inductive CellType
  | chars
  | int
  | float
  deriving DecidableEq, Repr

namespace CellType

def isNumeric : CellType → Bool
  | .int => true
  | .float => true
  | .chars => false

/-- The slot width that the type prescribes; a byte string takes the width its column declares. -/
def fixedWidth? : CellType → Option Nat
  | .int => some 4
  | .float => some 4
  | .chars => none

def text : CellType → String
  | .chars => "CHARS"
  | .int => "INT"
  | .float => "FLOAT"

/-- Values of the two types can be stored into each other's cells and compared. -/
def isCompatible (a b : CellType) : Bool := decide (a = b) || (a.isNumeric && b.isNumeric)

end CellType

inductive CellFault
  | invalidFormat
  | slotWidth (expected actual : Nat)
  | typeMismatch (expected actual : CellType)
  | invalidCast (source target : CellType)
  | incomparable (left right : CellType)
  deriving DecidableEq, Repr

def CellFault.message : CellFault → String
  | .invalidFormat => "invalid format"
  | .slotWidth expected actual =>
    "invalid slot length: expected " ++ toString expected ++ ", actual " ++ toString actual
  | .typeMismatch expected actual =>
    "type mismatch: expected " ++ expected.text ++ ", actual " ++ actual.text
  | .invalidCast source target => "cannot cast " ++ source.text ++ " to " ++ target.text
  | .incomparable left right => "cannot compare " ++ left.text ++ " with " ++ right.text

inductive Value
  | int (n : Int32)
  | float (x : Binary32)
  | chars (bytes : Bytes)
  deriving DecidableEq, Repr

namespace Value

def type : Value → CellType
  | .int _ => .int
  | .float _ => .float
  | .chars _ => .chars

/-- The length of the value itself, whatever cell it is stored into. -/
def length : Value → Nat
  | .int _ => 4
  | .float _ => 4
  | .chars bytes => bytes.length

def int? : Value → Option Int32
  | .int n => some n
  | _ => none

def float? : Value → Option Binary32
  | .float x => some x
  | _ => none

def bytes? : Value → Option Bytes
  | .chars bytes => some bytes
  | _ => none

def denoted? : Value → Option Exact
  | .int n => some (Exact.ofInt n.toInt)
  | .float x => some x.exact
  | .chars _ => none

def text : Value → String
  | .int n => toString n.toInt
  | .float x => Number.Shortest.text x
  | .chars bytes => String.ofList (Text.Utf8.decodeLossy bytes)

/-- The value as a cell of the given type stores it. Only the two numeric types turn into each
other: an integer rounds to the nearest float, a float is cut off toward zero and kept in range. -/
def coerce (value : Value) (target : CellType) : Except CellFault Value :=
  match value, target with
  | .int n, .int => .ok (.int n)
  | .int n, .float => .ok (.float (Binary32.ofInt n.toInt))
  | .float x, .int => .ok (.int x.toInt32)
  | .float x, .float => .ok (.float x)
  | .chars bytes, .chars => .ok (.chars bytes)
  | value, target => .error (.invalidCast value.type target)

/-- The characters of a byte string without the blanks at its ends, if it is well-formed UTF-8. -/
def trimmed? (bytes : Bytes) : Option (List Char) := (Text.Utf8.decode? bytes).map Text.Blank.trim

/-- The value converted on request: numbers are written as text and read from it; all else is
coerced. -/
def convert (value : Value) (target : CellType) : Except CellFault Value :=
  match value, target with
  | .int n, .chars => .ok (.chars (Text.Utf8.encode (Value.text (.int n))))
  | .float x, .chars => .ok (.chars (Text.Utf8.encode (Value.text (.float x))))
  | .chars bytes, .int =>
    match (trimmed? bytes).bind Number.Reading.int32? with
    | some n => .ok (.int n)
    | none => .error (.invalidCast .chars .int)
  | .chars bytes, .float =>
    match (trimmed? bytes).bind Number.Reading.binary32? with
    | some x => .ok (.float x)
    | none => .error (.invalidCast .chars .float)
  | value, target => value.coerce target

/-- The order of two values: that of the numbers denoted, or that of the byte strings' contents. A
byte string has no order with a number, and NaN has none with anything. -/
def order (left right : Value) : Except CellFault Ordering :=
  match left, right with
  | .chars a, .chars b => .ok (Bytes.order (Bytes.content a) (Bytes.content b))
  | left, right =>
    match left.denoted?, right.denoted? with
    | some a, some b =>
      match Exact.compare? a b with
      | some o => .ok o
      | none => .error (.incomparable left.type right.type)
    | _, _ => .error (.incomparable left.type right.type)

/-- The content of a byte string matches the content of another read as a LIKE pattern. -/
def isLike (value pattern : Value) : Except CellFault Bool :=
  match value, pattern with
  | .chars s, .chars p => .ok (Text.Like.isMatch (Bytes.content s) (Bytes.content p))
  | value, pattern => .error (.incomparable value.type pattern.type)

/-- The values have one type and are equal in it: floats as numbers, so the zeros are equal and a
NaN equals nothing; byte strings byte by byte, beyond a zero byte too. -/
def isSame : Value → Value → Bool
  | .int a, .int b => decide (a = b)
  | .float x, .float y => decide (Exact.compare? x.exact y.exact = some .eq)
  | .chars a, .chars b => decide (a = b)
  | _, _ => false

end Value

end RowStore.Cell
