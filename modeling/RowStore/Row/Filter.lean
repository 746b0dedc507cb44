/- RowStore/Row/Filter
   role: definitions
   digest: Conditions on rows, bound to a layout once and then evaluated on row bytes. -/

import RowStore.Row.Record

set_option autoImplicit false
set_option relaxedAutoImplicit false

namespace RowStore.Row

open RowStore.Cell (CellFault CellType Value)
open RowStore.Schema (RowField Layout)
open RowStore.Text (Bytes)

inductive Comparator
  | eq
  | ne
  | lt
  | le
  | gt
  | ge
  | like
  | notLike
  deriving DecidableEq, Repr

namespace Comparator

def isPattern : Comparator → Bool
  | .like => true
  | .notLike => true
  | _ => false

/-- Whether an order of the operands meets the comparator; patterns have no order. -/
def holds (comparator : Comparator) (order : Ordering) : Bool :=
  match comparator with
  | .eq => order == .eq
  | .ne => order != .eq
  | .lt => order == .lt
  | .le => order != .gt
  | .gt => order == .gt
  | .ge => order != .lt
  | .like => false
  | .notLike => false

def evaluate (comparator : Comparator) (left right : Value) : Except CellFault Bool :=
  match comparator with
  | .like => left.isLike right
  | .notLike => (left.isLike right).map (!·)
  | comparator => (left.order right).map comparator.holds

end Comparator

/-- An operand as written: a field, possibly qualified by a table name, or a value. -/
inductive Operand
  | field (qualifier : Option String) (name : String)
  | value (value : Value)
  deriving DecidableEq, Repr

structure Condition where
  left : Operand
  comparator : Comparator
  right : Operand
  deriving DecidableEq, Repr

inductive BoundOperand
  | field (field : RowField)
  | value (value : Value)
  deriving DecidableEq, Repr

namespace BoundOperand

def type : BoundOperand → CellType
  | .field f => f.type
  | .value v => v.type

def fieldName? : BoundOperand → Option String
  | .field f => some f.name
  | .value _ => none

def eval (operand : BoundOperand) (data : Bytes) : Except Fault Value :=
  match operand with
  | .field f => cell f data
  | .value v => .ok v

end BoundOperand

/-- The operand bound to a layout. A qualifier must be the name of the layout's table. -/
def Operand.bind (layout : Layout) : Operand → Except Fault BoundOperand
  | .value v => .ok (.value v)
  | .field qualifier name =>
    let table := qualifier.getD layout.name
    if table ≠ layout.name then .error (.fieldNotFound table name)
    else
      match layout.field? name with
      | some f => .ok (.field f)
      | none => .error (.fieldNotFound layout.name name)

structure BoundCondition where
  left : BoundOperand
  comparator : Comparator
  right : BoundOperand
  deriving DecidableEq, Repr

/-- The comparator applies to values of the two types. -/
def Comparator.admits (comparator : Comparator) (left right : CellType) : Bool :=
  if comparator.isPattern then decide (left = .chars) && decide (right = .chars)
  else left.isCompatible right

/-- The fault of a condition whose operands do not fit. It names the left field if there is one,
else the right one, and the type that differs from the expected one. -/
def mismatch (left : BoundOperand) (comparator : Comparator) (right : BoundOperand) : Fault :=
  let name := (left.fieldName?.or right.fieldName?).getD ""
  let expected := if comparator.isPattern then .chars else left.type
  let actual := if left.type = expected then right.type else left.type
  .fieldType name expected actual

/-- The condition bound to a layout, its left operand first. -/
def Condition.bind (layout : Layout) (condition : Condition) : Except Fault BoundCondition := do
  let left ← condition.left.bind layout
  let right ← condition.right.bind layout
  if condition.comparator.admits left.type right.type then
    pure ⟨left, condition.comparator, right⟩
  else throw (mismatch left condition.comparator right)

def BoundCondition.accepts (condition : BoundCondition) (data : Bytes) : Except Fault Bool := do
  let left ← condition.left.eval data
  let right ← condition.right.eval data
  Fault.ofCell (condition.comparator.evaluate left right)

/-- Bound conditions that a row has to meet together. -/
abbrev RowFilter := List BoundCondition

namespace RowFilter

def bind (layout : Layout) (conditions : List Condition) : Except Fault RowFilter :=
  conditions.mapM fun condition => condition.bind layout

/-- Whether row bytes meet all conditions; those after the first unmet one are not looked at. -/
def accepts : RowFilter → Bytes → Except Fault Bool
  | [], _ => .ok true
  | condition :: rest, data => do
    if ← condition.accepts data then accepts rest data else pure false

end RowFilter

end RowStore.Row
