/- RowStore/Engine/Statement
   role: definitions
   digest: Statements that change a table, bound to its layout before anything runs. -/

import RowStore.Engine.Basic
import RowStore.Row.Cells
import RowStore.Row.Filter

set_option autoImplicit false
set_option relaxedAutoImplicit false

namespace RowStore

open RowStore.Cell (Value)
open RowStore.Row (Cells Condition Expression Record RowFilter coerceTo)
open RowStore.Schema (Layout RowField)
open RowStore.Text (Bytes)

inductive Assigned
  | literal (value : Value)
  | computed (expression : Expression)
  deriving DecidableEq, Repr

/-- A field by name and what it is set to. -/
structure Target where
  field : String
  source : Assigned
  deriving DecidableEq, Repr

inductive Statement
  | update (table : Layout) (targets : List Target) (filter : RowFilter)
  | delete (table : Layout) (filter : RowFilter)
  | dropTable (table : Layout)
  deriving DecidableEq, Repr

/-- The fields of targets by name, or the fault of the first name that is no field. -/
def Target.resolve (layout : Layout) (targets : List Target) : Except Fault (List RowField) :=
  targets.mapM fun target =>
    match layout.field? target.field with
    | some field => pure field
    | none => throw (.fieldNotFound layout.name target.field)

/-- The target names a field, and a literal has a type that the field can store. -/
def Target.check (layout : Layout) (target : Target) : Except Fault Unit :=
  match layout.field? target.field with
  | none => .error (.fieldNotFound layout.name target.field)
  | some field =>
    match target.source with
    | .computed _ => .ok ()
    | .literal value =>
      if field.type.isCompatible value.type then .ok ()
      else .error (.fieldType target.field field.type value.type)

/-- The value that a target gives a field of a row, as the field stores it. Expressions read the row
through the layout. -/
def Target.value (layout : Layout) (row : Record) (field : RowField) (target : Target) :
    Except Fault Value := do
  match target.source with
  | .literal value => coerceTo field value
  | .computed expression =>
    let value ← (Cells.projection [expression] (.row layout row)).cellAt 0
    coerceTo field value

/-- Row bytes with the fields of targets overwritten in order, every value being taken from the same
old row. -/
def Target.write (layout : Layout) (old : Record) :
    List Target → List RowField → Bytes → Except Fault Bytes
  | target :: targets, field :: fields, data => do
    let value ← target.value layout old field
    write layout old targets fields (← Row.setCell field value data)
  | _, _, data => .ok data

def Target.replacement (layout : Layout) (targets : List Target) (fields : List RowField)
    (old : Record) : Except Fault Bytes :=
  Target.write layout old targets fields old.data

/-- The row that takes the place of a row, under the same id. -/
def Target.newRecord (layout : Layout) (targets : List Target) (fields : List RowField)
    (old : Record) : Except Fault Record :=
  (Target.replacement layout targets fields old).map fun data => { old with data }

namespace Engine

def statementTable (engine : Engine) (name : String) : Except Fault Layout :=
  if name = "" then .error (.misuse .emptyTableName) else engine.findTable name

/-- A bound update. All targets are checked before their number is, and conditions come last. -/
def bindUpdate (engine : Engine) (table : String) (targets : List Target)
    (conditions : List Condition) : Except Fault Statement := do
  let layout ← engine.statementTable table
  targets.forM (Target.check layout)
  if targets = [] then throw (.misuse .nothingToUpdate)
  let filter ← RowFilter.bind layout conditions
  pure (.update layout targets filter)

def bindDelete (engine : Engine) (table : String) (conditions : List Condition) :
    Except Fault Statement := do
  let layout ← engine.statementTable table
  let filter ← RowFilter.bind layout conditions
  pure (.delete layout filter)

/-- A bound removal of a table, which can be written down but not run. -/
def bindDropTable (engine : Engine) (table : String) : Except Fault Statement := do
  pure (.dropTable (← engine.statementTable table))

end Engine

end RowStore
