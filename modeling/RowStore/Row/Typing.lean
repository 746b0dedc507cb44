/- RowStore/Row/Typing
   role: definitions
   digest: The type that an expression has by the types of its fields and literals alone. -/

import RowStore.Row.Expression

set_option autoImplicit false
set_option relaxedAutoImplicit false

namespace RowStore.Row

open RowStore.Cell (CellType)
open RowStore.Schema (Layout)

/-- The type of the named field of a layout. A qualifier must be the name of the layout's table. -/
def fieldType? (layout : Layout) (qualifier : Option String) (name : String) : Option CellType :=
  if qualifier.all fun table => table == layout.name then (layout.field? name).map (·.type)
  else none

/-- The type of an operation on numbers: only sums, differences and products of integers are
integers again. -/
def BinaryOp.type? (op : BinaryOp) (left right : CellType) : Option CellType :=
  if left.isNumeric && right.isNumeric then
    if op ≠ .div ∧ left = .int ∧ right = .int then some .int else some .float
  else none

namespace Expression

/-- The type of an expression whose fields have the given types. A conversion has its target type
if there is anything to convert; a missing operand leaves no type. -/
def type? (fieldType : Option String → String → Option CellType) : Expression → Option CellType
  | .field qualifier name => fieldType qualifier name
  | .literal value => some value.type
  | .negate operand => (operand.type? fieldType).filter CellType.isNumeric
  | .negateFirst operand _ => (operand.type? fieldType).filter CellType.isNumeric
  | .binary op left right => do
    let l ← left.type? fieldType
    let r ← right.type? fieldType
    op.type? l r
  | .incomplete _ _ => none
  | .cast operand target => (operand.type? fieldType).map fun _ => target

end Expression

end RowStore.Row
