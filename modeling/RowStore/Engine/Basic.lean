/- RowStore/Engine/Basic
   role: definitions
   digest: The whole state of the store, and the creation and look-up of tables. -/

import RowStore.Schema.Catalog
import RowStore.Table.Heap
import RowStore.Transaction.Locks

set_option autoImplicit false
set_option relaxedAutoImplicit false

namespace RowStore

open RowStore.Schema (Catalog Layout TableSpec sizeBound)
open RowStore.Table (Heap)
open RowStore.Transaction (LockTable Registry Timestamp TxnId)

structure Config where
  rowsPerPage : Nat := 64
  maxRecordSize : Nat := 64 * 1024
  deriving DecidableEq, Repr

/-- The number of a handle, in the order in which handles were made. -/
abbrev HandleId := Nat

/-- What a caller works through: its transaction, once begun, and its page locks. -/
structure Handle where
  txn : Option TxnId := none
  locks : LockTable := {}
  deriving DecidableEq, Repr

structure Engine where
  config : Config := {}
  catalog : Catalog := {}
  heaps : List (Nat × Heap) := []
  registry : Registry := {}
  handles : Array Handle := #[]

namespace Engine

/-- A store without tables. Pages must hold at least one row. -/
def build (config : Config) : Except Fault Engine :=
  if config.rowsPerPage = 0 then .error (.misuse .rowsPerPage) else .ok { config := config }

/-- The heap of the table with a number; it is empty as long as none has been set. -/
def heap (engine : Engine) (table : Nat) : Heap := (engine.heaps.lookup table).getD {}

def putHeap (table : Nat) (heap : Heap) : List (Nat × Heap) → List (Nat × Heap)
  | [] => [(table, heap)]
  | e :: rest => if e.1 = table then (table, heap) :: rest else e :: putHeap table heap rest

private theorem lookup_putHeap (table other : Nat) (heap : Heap) (heaps : List (Nat × Heap)) :
    (putHeap table heap heaps).lookup other =
      if other = table then some heap else heaps.lookup other := by
  induction heaps with
  | nil =>
    by_cases same : other = table
    · simp [putHeap, same]
    · simp [putHeap, List.lookup_cons, beq_false_of_ne same, same]
  | cons head rest ih =>
    obtain ⟨key, old⟩ := head
    unfold putHeap
    by_cases replaced : key = table
    · subst replaced
      by_cases same : other = key
      · simp [same]
      · simp [List.lookup_cons, beq_false_of_ne same, same]
    · by_cases atHead : other = key
      · subst atHead
        simp [replaced]
      · simp [List.lookup_cons, beq_false_of_ne atHead, replaced, ih]

def setHeap (engine : Engine) (table : Nat) (heap : Heap) : Engine :=
  { engine with heaps := putHeap table heap engine.heaps }

theorem heap_setHeap (engine : Engine) (table other : Nat) (heap : Heap) :
    (engine.setHeap table heap).heap other = if other = table then heap else engine.heap other := by
  simp only [Engine.heap, setHeap, lookup_putHeap]
  split <;> rfl

def stamps (engine : Engine) : TxnId → Timestamp := engine.registry.stamp

def rowCount (engine : Engine) : Nat :=
  engine.heaps.foldr (fun e total => e.2.rows.size + total) 0

/-- The width of a row with the declared columns, if it stays below the bound of sizes. -/
def declaredSize? (spec : TableSpec) : Option Nat :=
  let size := spec.columns.foldr (fun c total => c.width + total) 0
  if size < sizeBound then some size else none

/-- A new table. Its rows must not be wider than the configuration allows, which is looked at before
anything else in the declaration. -/
def createTable (engine : Engine) (spec : TableSpec) : Except Fault (Layout × Engine) :=
  match declaredSize? spec with
  | none => .error (.allocation (sizeBound - 1))
  | some size =>
    if engine.config.maxRecordSize < size then .error (.allocation size)
    else do
      let (layout, catalog) ← Fault.ofSchema (engine.catalog.create spec)
      pure (layout, { engine with catalog, heaps := putHeap layout.id {} engine.heaps })

/-- The table with a name: the catalog knows its number, and a heap has been set under it. -/
def findTable (engine : Engine) (name : String) : Except Fault Layout :=
  match engine.catalog.find? name with
  | none => .error (.tableNotFound name)
  | some layout =>
    match engine.heaps.lookup layout.id with
    | none => .error (.tableNotFound name)
    | some _ => .ok layout

end Engine

end RowStore
