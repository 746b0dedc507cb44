/- RowStore/Table/Heap
   role: definitions
   digest: The rows of one table with the counter that numbers new rows. -/

import RowStore.Row.Record
import RowStore.Table.Rows

set_option autoImplicit false
set_option relaxedAutoImplicit false

namespace RowStore.Table

open RowStore.Row (Record RowId)
open RowStore.Text (Bytes)
open RowStore.Transaction (TxnId Timestamp View)

/-- The rows of a table and the sequence number of the next row, a 64-bit counter that no operation
turns back. -/
structure Heap where
  nextSequence : Nat := 0
  rows : Rows := Rows.empty

namespace Heap

def modify (heap : Heap) (row : RowId) (change : Chain → Chain) : Heap :=
  { heap with rows := heap.rows.set row (change (heap.rows.chain row)) }

/-- A new row with one version. Its sequence number is used up even if it gives no row id. -/
def insert (heap : Heap) (rowsPerPage : Nat) (txn : TxnId) (data : Bytes) :
    Except Fault RowId × Heap :=
  let next := (heap.nextSequence + 1) % 0x10000000000000000
  match RowId.ofSequence heap.nextSequence rowsPerPage with
  | none => (.error (.misuse .rowIdsExhausted), { heap with nextSequence := next })
  | some row =>
    (.ok row,
      { nextSequence := next, rows := heap.rows.set row [{ data := data, creator := txn }] })

def delete (heap : Heap) (stamps : TxnId → Timestamp) (view : View) (txn : TxnId) (row : RowId) :
    Except Fault Heap :=
  ((heap.rows.chain row).delete stamps view txn row).map fun chain =>
    { heap with rows := heap.rows.set row chain }

def replace (heap : Heap) (stamps : TxnId → Timestamp) (view : View) (txn : TxnId) (row : RowId)
    (data : Bytes) : Except Fault Heap :=
  ((heap.rows.chain row).replace stamps view txn row data).map fun chain =>
    { heap with rows := heap.rows.set row chain }

def withdraw (heap : Heap) (txn : TxnId) (row : RowId) : Heap :=
  heap.modify row fun chain => chain.withdraw txn

/-- The heap without the versions of a row that no view of the horizon or later needs, and their
number. -/
def purge (heap : Heap) (stamps : TxnId → Timestamp) (horizon : Timestamp) (row : RowId) :
    Nat × Heap :=
  ((heap.rows.chain row).forgettable stamps horizon,
    heap.modify row fun chain => chain.purge stamps horizon)

def read (heap : Heap) (stamps : TxnId → Timestamp) (view : View) (row : RowId) : Option Record :=
  ((heap.rows.chain row).read stamps view).map fun data => ⟨row, data⟩

def readAll (heap : Heap) (stamps : TxnId → Timestamp) (view : View) : List Record :=
  heap.rows.entries.filterMap fun e => (e.2.read stamps view).map fun data => ⟨e.1, data⟩

/-- The first row behind a given one, or of all rows, that a view shows. -/
def next (heap : Heap) (stamps : TxnId → Timestamp) (view : View) (after : Option RowId) :
    Option Record :=
  heap.rows.entries.findSome? fun e =>
    if after.all (fun row => decide (row < e.1)) then
      (e.2.read stamps view).map fun data => ⟨e.1, data⟩
    else none

end Heap

end RowStore.Table
