/- RowStore/Fault
   role: definitions
   digest: Everything that can go wrong in the store, its kind and its wording. -/

import RowStore.Row.Id
import RowStore.Schema.Layout

set_option autoImplicit false
set_option relaxedAutoImplicit false

namespace RowStore

open RowStore.Cell (CellFault CellType)
open RowStore.Row (RowId)
open RowStore.Schema (SchemaFault)

/-- An argument that no state of the store would accept. -/
inductive Misuse
  | emptyTableName
  | nothingToUpdate
  | valueCount
  | cellPosition
  | rowIdsExhausted
  | rowsPerPage
  | config
  deriving DecidableEq, Repr

def Misuse.text : Misuse → String
  | .emptyTableName => "table name is empty"
  | .nothingToUpdate => "no column to update"
  | .valueCount => "value count not match field count"
  | .cellPosition => "cell index out of range"
  | .rowIdsExhausted => "row id space exhausted"
  | .rowsPerPage => "rows_per_page must be positive"
  | .config => "invalid engine config"

/-- An operator that consumes the rows of another one. -/
inductive Consumer
  | predicate
  | update
  | delete
  deriving DecidableEq, Repr

def Consumer.text : Consumer → String
  | .predicate => "predicate"
  | .update => "update"
  | .delete => "delete"

/-- A use of expressions, scanners or operators against their protocol. -/
inductive Lapse
  | missingOperand
  | scannerClosed
  | scanClosed
  | notOneInput (consumer : Consumer)
  | operatorClosed (consumer : Consumer)
  | noRow (consumer : Consumer)
  deriving DecidableEq, Repr

def Lapse.text : Lapse → String
  | .missingOperand => "binary arithmetic without right operand"
  | .scannerClosed => "scanner is not opened"
  | .scanClosed => "table scan is not opened"
  | .notOneInput consumer => consumer.text ++ " operator must have one child"
  | .operatorClosed consumer => consumer.text ++ " operator is not opened"
  | .noRow consumer => consumer.text ++ " expects row tuple"

inductive Fault
  | misuse (cause : Misuse)
  | tableNotFound (table : String)
  | fieldNotFound (table field : String)
  | fieldType (field : String) (expected actual : CellType)
  | allocation (size : Nat)
  | lockConflict (page : UInt32)
  | lapse (cause : Lapse)
  | dropTableUnsupported
  | rowNotFound (row : RowId)
  | writeConflict (row : RowId)
  | divisionByZero
  | recordLength (expected actual : Nat)
  | cell (cause : CellFault)
  | schema (cause : SchemaFault)
  deriving DecidableEq, Repr

inductive FaultKind
  | invalidArgument
  | tableNotFound
  | fieldNotFound
  | fieldTypeMismatch
  | allocationFailure
  | lockConflict
  | internal
  | unimplemented
  | recordNotFound
  | writeConflict
  deriving DecidableEq, Repr

namespace Fault

/-- The kind of a fault. A fault about cell types counts as a type mismatch wherever it arises;
malformed rows and slots are internal, since the store never makes them. -/
def kind : Fault → FaultKind
  | .misuse _ => .invalidArgument
  | .tableNotFound _ => .tableNotFound
  | .fieldNotFound _ _ => .fieldNotFound
  | .fieldType _ _ _ => .fieldTypeMismatch
  | .allocation _ => .allocationFailure
  | .lockConflict _ => .lockConflict
  | .lapse _ => .internal
  | .dropTableUnsupported => .unimplemented
  | .rowNotFound _ => .recordNotFound
  | .writeConflict _ => .writeConflict
  | .divisionByZero => .invalidArgument
  | .recordLength _ _ => .internal
  | .cell .invalidFormat => .internal
  | .cell (.slotWidth _ _) => .internal
  | .cell (.typeMismatch _ _) => .fieldTypeMismatch
  | .cell (.invalidCast _ _) => .fieldTypeMismatch
  | .cell (.incomparable _ _) => .fieldTypeMismatch
  | .schema (.noSuchTable _) => .tableNotFound
  | .schema _ => .invalidArgument

def message : Fault → String
  | .misuse cause => "invalid argument: " ++ cause.text
  | .tableNotFound table => "table " ++ table ++ " not found"
  | .fieldNotFound table field => "field " ++ table ++ "." ++ field ++ " not found"
  | .fieldType field expected actual =>
    "type mismatch on field " ++ field ++ ": expected " ++ expected.text ++ ", actual " ++
      actual.text
  | .allocation size => "failed to allocate " ++ toString size ++ " bytes"
  | .lockConflict page => "lock conflict on page " ++ toString page.toNat
  | .lapse cause => "internal error: " ++ cause.text
  | .dropTableUnsupported => "drop table not implemented"
  | .rowNotFound row => "record " ++ row.text ++ " not found"
  | .writeConflict row => "write conflict on record " ++ row.text
  | .divisionByZero => "division by zero"
  | .recordLength expected actual =>
    "invalid record length: expected " ++ toString expected ++ ", actual " ++ toString actual
  | .cell cause => cause.message
  | .schema cause => cause.message

def ofCell {α : Type} : Except CellFault α → Except Fault α
  | .ok a => .ok a
  | .error cause => .error (.cell cause)

def ofSchema {α : Type} : Except SchemaFault α → Except Fault α
  | .ok a => .ok a
  | .error cause => .error (.schema cause)

/-- The fault of a result that is one. -/
def of? {α : Type} : Except Fault α → Option Fault
  | .ok _ => none
  | .error fault => some fault

end Fault

end RowStore
