/- RowStore/Row/Expression
   role: definitions
   digest: Expressions over the fields of a row, and their values under a look-up of field names. -/

import RowStore.Fault

set_option autoImplicit false
set_option relaxedAutoImplicit false

namespace RowStore.Row

open RowStore.Cell (CellFault CellType Value)
open RowStore.Number (Binary32)

inductive BinaryOp
  | add
  | sub
  | mul
  | div
  deriving DecidableEq, Repr

/-- An expression. A change of sign can be written down with a second operand, which is never looked
at, and a binary operation without its right one, but then it has no value. -/
inductive Expression
  | field (qualifier : Option String) (name : String)
  | literal (value : Value)
  | negate (operand : Expression)
  | negateFirst (operand ignored : Expression)
  | binary (op : BinaryOp) (left right : Expression)
  | incomplete (op : BinaryOp) (left : Expression)
  | cast (operand : Expression) (target : CellType)
  deriving DecidableEq, Repr

def notNumeric (value : Value) : Fault := .cell (.typeMismatch .float value.type)

/-- The number with its sign changed; the least integer stays as it is. -/
def negated : Value → Except Fault Value
  | .int n => .ok (.int (-n))
  | .float x => .ok (.float x.neg)
  | value => .error (notNumeric value)

/-- The operation on floats. A divisor of either zero is refused. -/
def calculateFloat (op : BinaryOp) (x y : Binary32) : Except Fault Binary32 :=
  match op with
  | .add => .ok (x.add y)
  | .sub => .ok (x.sub y)
  | .mul => .ok (x.mul y)
  | .div => if y.isZero then .error .divisionByZero else .ok (x.div y)

def asFloat : Value → Except Fault Binary32
  | .int n => .ok (Binary32.ofInt n.toInt)
  | .float x => .ok x
  | value => .error (notNumeric value)

def calculate (op : BinaryOp) (left right : Value) : Except Fault Value :=
  match op, left, right with
  | .add, .int a, .int b => .ok (.int (a + b))
  | .sub, .int a, .int b => .ok (.int (a - b))
  | .mul, .int a, .int b => .ok (.int (a * b))
  | op, left, right => do
    let x ← asFloat left
    let y ← asFloat right
    pure (.float (← calculateFloat op x y))

namespace Expression

/-- The value of an expression whose field names `lookup` resolves. -/
def eval (lookup : Option String → String → Except Fault Value) :
    Expression → Except Fault Value
  | .field qualifier name => lookup qualifier name
  | .literal value => .ok value
  | .negate operand => do negated (← operand.eval lookup)
  | .negateFirst operand _ => do negated (← operand.eval lookup)
  | .binary op left right => do
    let l ← left.eval lookup
    let r ← right.eval lookup
    calculate op l r
  | .incomplete _ left => do
    let _ ← left.eval lookup
    throw (.lapse .missingOperand)
  | .cast operand target => do
    let value ← operand.eval lookup
    Fault.ofCell (value.convert target)

end Expression

end RowStore.Row
