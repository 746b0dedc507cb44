/- RowStore/Engine/Sweep
   role: definitions
   digest: A statement as one pass over the rows that its transaction saw before it. -/

import RowStore.Engine.Change
import RowStore.Row.Filter

set_option autoImplicit false
set_option relaxedAutoImplicit false

namespace RowStore

open RowStore.Row (Record RowFilter RowId)
open RowStore.Schema (Layout RowField)
open RowStore.Text (Bytes)

inductive Fate
  | kept
  | replaced (data : Bytes)
  | deleted
  deriving DecidableEq, Repr

def Change.outcome (change : Change) (table : Layout) (fields : List RowField) (row : Record) :
    Except Fault Fate :=
  match change with
  | .update targets => (Target.replacement table targets fields row).map .replaced
  | .delete => .ok .deleted

/-- What a statement makes of a row: what its filter does not accept is kept. -/
def Change.fate (change : Change) (table : Layout) (fields : List RowField) (filter : RowFilter)
    (row : Record) : Except Fault Fate :=
  match filter.accepts row.data with
  | .error fault => .error fault
  | .ok false => .ok .kept
  | .ok true => change.outcome table fields row

/-- The table, the change and the filter of a statement that changes rows. -/
def Statement.parts? : Statement → Option (Layout × Change × RowFilter)
  | .update table targets filter => some (table, .update targets, filter)
  | .delete table filter => some (table, .delete, filter)
  | .dropTable _ => none

namespace Engine

def settle (engine : Engine) (h : HandleId) (table : Layout) (row : RowId) :
    Fate → Except Fault Unit × Engine
  | .kept => (.ok (), engine)
  | .replaced data => engine.replace h table row data
  | .deleted => engine.delete h table row

end Engine

/-- The given rows dealt with one after the other, up to the first fault. The answer is the number
of rows changed. -/
def Change.sweepRows (change : Change) (table : Layout) (fields : List RowField)
    (filter : RowFilter) (h : HandleId) : List Record → Engine → Except Fault Nat × Engine
  | [], engine => (.ok 0, engine)
  | row :: rest, engine =>
    match change.fate table fields filter row with
    | .error fault => (.error fault, engine)
    | .ok fate =>
      match engine.settle h table row.id fate with
      | (.error fault, engine) => (.error fault, engine)
      | (.ok (), engine) =>
        let (result, engine) := change.sweepRows table fields filter h rest engine
        (result.map (· + if fate = .kept then 0 else 1), engine)

/-- The rows that a sweep deals with before the first fault. -/
def Change.passed (change : Change) (table : Layout) (fields : List RowField)
    (filter : RowFilter) (h : HandleId) : List Record → Engine → List Record
  | [], _ => []
  | row :: rest, engine =>
    match change.fate table fields filter row with
    | .error _ => []
    | .ok fate =>
      match engine.settle h table row.id fate with
      | (.error _, _) => []
      | (.ok (), engine) => row :: change.passed table fields filter h rest engine

namespace Engine

/-- The rows of a table that the transaction of a handle shows right after it has begun, in the order
of their ids. -/
def shownTo (engine : Engine) (h : HandleId) (table : Layout) : List Record :=
  let (txn, engine) := engine.ensureStarted h
  (engine.heap table.id).readAll engine.stamps (engine.registry.ownView txn)

/-- A change made through a handle to the rows of a table that a filter accepts. -/
def sweep (engine : Engine) (h : HandleId) (table : Layout) (change : Change)
    (fields : List RowField) (filter : RowFilter) : Except Fault Nat × Engine :=
  change.sweepRows table fields filter h (engine.shownTo h table) (engine.ensureStarted h).2

end Engine

end RowStore
