/- RowStore/Row/Record
   role: definitions
   digest: Records, which are row ids with row bytes, and their fields read and written in place. -/

import RowStore.Fault

set_option autoImplicit false
set_option relaxedAutoImplicit false

namespace RowStore.Row

open RowStore.Cell (Value)
open RowStore.Schema (RowField Layout)
open RowStore.Text (Bytes)

/-- A row id and the bytes of the row. -/
structure Record where
  id : RowId
  data : Bytes
  deriving DecidableEq, Repr

/-- The bytes of a field's slot within row bytes. -/
def slot (field : RowField) (data : Bytes) : Except Fault Bytes :=
  if field.stop ≤ data.length then .ok ((data.drop field.offset).take field.width)
  else .error (.recordLength field.stop data.length)

def cell (field : RowField) (data : Bytes) : Except Fault Value := do
  Fault.ofCell (Cell.Slot.decode field.type (← slot field data))

/-- Row bytes with a value written into a field's slot. The value must have the field's type. -/
def setCell (field : RowField) (value : Value) (data : Bytes) : Except Fault Bytes := do
  let old ← slot field data
  let new ← Fault.ofCell (Cell.Slot.encode field.type value old.length)
  pure (Bytes.splice data field.offset new)

/-- The value as a field stores it, or the mismatch of the types. -/
def coerceTo (field : RowField) (value : Value) : Except Fault Value :=
  match value.coerce field.type with
  | .ok coerced => .ok coerced
  | .error _ => .error (.fieldType field.name field.type value.type)

namespace Record

def get (record : Record) (field : RowField) : Except Fault Value := cell field record.data

def set (record : Record) (field : RowField) (value : Value) : Except Fault Record :=
  (setCell field value record.data).map fun data => { record with data }

/-- A value written into a field of the record at hand, with the answer. A record that a value cannot
be written into stays as it is. -/
def write (record : Record) (field : RowField) (value : Value) : Except Fault Unit × Record :=
  match record.set field value with
  | .ok changed => (.ok (), changed)
  | .error fault => (.error fault, record)

/-- The record with one byte replaced; positions beyond the end leave it as it is. -/
def poke (record : Record) (position : Nat) (byte : UInt8) : Record :=
  { record with data := record.data.set position byte }

end Record

/-- The bytes of a row of zero bytes with values written into the given fields, pairwise and in
order, without coercion. -/
def setCells : List RowField → List Value → Bytes → Except Fault Bytes
  | field :: fields, value :: values, data => do
    setCells fields values (← setCell field value data)
  | _, _, data => .ok data

def blank (layout : Layout) : Bytes := List.replicate layout.recordSize 0

/-- Values coerced to the types of fields and written into them, pairwise and in order. -/
def fill : List RowField → List Value → Bytes → Except Fault Bytes
  | field :: fields, value :: values, data => do
    let coerced ← coerceTo field value
    fill fields values (← setCell field coerced data)
  | _, _, data => .ok data

/-- The bytes of a new row with one value per field, each coerced to its field's type. -/
def ofValues (layout : Layout) (values : List Value) : Except Fault Bytes :=
  if values.length = layout.fields.length then fill layout.fields values (blank layout)
  else .error (.misuse .valueCount)

end RowStore.Row
