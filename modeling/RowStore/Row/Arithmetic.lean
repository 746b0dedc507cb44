/- RowStore/Row/Arithmetic
   role: definitions
   digest: Integer expressions and their values over the unbounded integers. -/

import RowStore.Row.Typing

set_option autoImplicit false
set_option relaxedAutoImplicit false

namespace RowStore.Row.Expression

open RowStore.Cell (CellType)

inductive IsIntegral (fieldType : Option String → String → Option CellType) : Expression → Prop
  | field {qualifier : Option String} {name : String} (h : fieldType qualifier name = some .int) :
    IsIntegral fieldType (.field qualifier name)
  | literal (n : Int32) : IsIntegral fieldType (.literal (.int n))
  | negate {operand : Expression} (h : IsIntegral fieldType operand) :
    IsIntegral fieldType (.negate operand)
  | negateFirst {operand ignored : Expression} (h : IsIntegral fieldType operand) :
    IsIntegral fieldType (.negateFirst operand ignored)
  | binary {op : BinaryOp} {left right : Expression} (exact : op ≠ .div)
    (hl : IsIntegral fieldType left) (hr : IsIntegral fieldType right) :
    IsIntegral fieldType (.binary op left right)

/-- The operation on unbounded integers. A quotient is no integer; zero stands in for it. -/
def unboundedOp : BinaryOp → Int → Int → Int
  | .add, a, b => a + b
  | .sub, a, b => a - b
  | .mul, a, b => a * b
  | .div, _, _ => 0

/-- The value of an integer expression over the unbounded integers, given those of its fields. What
is no integer expression counts as zero. -/
def unbounded (fieldValue : Option String → String → Int) : Expression → Int
  | .field qualifier name => fieldValue qualifier name
  | .literal (.int n) => n.toInt
  | .negate operand => -operand.unbounded fieldValue
  | .negateFirst operand _ => -operand.unbounded fieldValue
  | .binary op left right => unboundedOp op (left.unbounded fieldValue) (right.unbounded fieldValue)
  | _ => 0

end RowStore.Row.Expression
