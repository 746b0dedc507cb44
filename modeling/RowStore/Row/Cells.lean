/- RowStore/Row/Cells
   role: definitions
   digest: Tuples of cells: rows seen through their layout, and projections of other tuples. -/

import RowStore.Row.Expression
import RowStore.Row.Record

set_option autoImplicit false
set_option relaxedAutoImplicit false

namespace RowStore.Row

open RowStore.Cell (Value)
open RowStore.Schema (Layout)

/-- A row with its layout, or expressions over the cells of another tuple. -/
inductive Cells
  | row (layout : Layout) (record : Record)
  | projection (columns : List Expression) (source : Cells)
  deriving DecidableEq, Repr

/-- The value of the named field of a row. A qualifier must be the name of the row's table. -/
def findField (layout : Layout) (record : Record) (qualifier : Option String) (name : String) :
    Except Fault Value :=
  let table := qualifier.getD layout.name
  if table ≠ layout.name then .error (.fieldNotFound table name)
  else
    match layout.field? name with
    | some field => record.get field
    | none => .error (.fieldNotFound layout.name name)

namespace Cells

def size : Cells → Nat
  | .row layout _ => layout.fields.length
  | .projection columns _ => columns.length

/-- The value of a named field of the row that the tuple stems from; projections rename nothing. -/
def find : Cells → Option String → String → Except Fault Value
  | .row layout record => findField layout record
  | .projection _ source => source.find

def cellAt : Cells → Nat → Except Fault Value
  | .row layout record, position =>
    match layout.fieldAt? position with
    | some field => record.get field
    | none => .error (.misuse .cellPosition)
  | .projection columns source, position =>
    match columns[position]? with
    | some column => column.eval source.find
    | none => .error (.misuse .cellPosition)

def record? : Cells → Option Record
  | .row _ record => some record
  | .projection _ _ => none

end Cells

end RowStore.Row
