/- RowStore/Schema/Layout
   role: definitions
   digest: Column lists and the row layouts they give, with slots back to back in column order. -/

import RowStore.Cell.Slot

set_option autoImplicit false
set_option relaxedAutoImplicit false

namespace RowStore.Schema

open RowStore.Cell (CellType)

/-- A column as declared: its name, its type and the width of its slot in bytes. -/
structure Column where
  name : String
  type : CellType
  width : Nat
  deriving DecidableEq, Repr

structure TableSpec where
  name : String
  columns : List Column
  deriving DecidableEq, Repr

inductive SchemaFault
  | emptyTableName
  | noColumns (table : String)
  | tableExists (table : String)
  | noSuchTable (table : String)
  | duplicateColumn (column : String)
  | columnWidth (column : String) (width : Nat)
  deriving DecidableEq, Repr

def SchemaFault.message : SchemaFault → String
  | .emptyTableName => "table name is empty"
  | .noColumns table => "table " ++ table ++ " has no column"
  | .tableExists table => "table " ++ table ++ " already exists"
  | .noSuchTable table => "table " ++ table ++ " not exists"
  | .duplicateColumn column => "duplicate column " ++ column
  | .columnWidth column width => "invalid length " ++ toString width ++ " of column " ++ column

/-- Sizes and offsets stay below this bound, that of a 64-bit word. -/
def sizeBound : Nat := 0x10000000000000000

namespace Column

/-- A column of the type with the width that the type prescribes, or the given one. -/
def ofType (name : String) (type : CellType) (width : Nat) : Column :=
  ⟨name, type, type.fixedWidth?.getD width⟩

/-- Numbers need exactly their width, a byte string room for one byte and the zero after it. -/
def hasValidWidth (c : Column) : Bool :=
  match c.type.fixedWidth? with
  | some width => decide (c.width = width)
  | none => decide (2 ≤ c.width)

end Column

structure RowField where
  name : String
  type : CellType
  offset : Nat
  width : Nat
  deriving DecidableEq, Repr

/-- The offset just behind the slot. -/
def RowField.stop (f : RowField) : Nat := f.offset + f.width

/-- The layout of a table's rows, under the number and the name of the table. -/
structure Layout where
  id : Nat
  name : String
  fields : List RowField
  deriving DecidableEq, Repr

namespace Layout

/-- The fields of columns placed from an offset on, when the given names are taken already. -/
def place (offset : Nat) (taken : List String) : List Column → Except SchemaFault (List RowField)
  | [] => .ok []
  | c :: rest =>
    if !c.hasValidWidth then .error (.columnWidth c.name c.width)
    else if taken.contains c.name then .error (.duplicateColumn c.name)
    else if sizeBound ≤ offset + c.width then .error (.columnWidth c.name c.width)
    else
      (place (offset + c.width) (c.name :: taken) rest).map
        (⟨c.name, c.type, offset, c.width⟩ :: ·)

/-- The layout that a declaration gives to the table with the given number. -/
def ofSpec (id : Nat) (spec : TableSpec) : Except SchemaFault Layout :=
  if spec.name = "" then .error .emptyTableName
  else if spec.columns = [] then .error (.noColumns spec.name)
  else (place 0 [] spec.columns).map (⟨id, spec.name, ·⟩)

def recordSize (layout : Layout) : Nat := layout.fields.foldr (fun f total => f.width + total) 0

def field? (layout : Layout) (name : String) : Option RowField :=
  layout.fields.find? fun f => f.name == name

/-- The field at a position, counted from zero. -/
def fieldAt? (layout : Layout) (position : Nat) : Option RowField := layout.fields[position]?

def position? (layout : Layout) (name : String) : Option Nat :=
  layout.fields.findIdx? fun f => f.name == name

end Layout

end RowStore.Schema
