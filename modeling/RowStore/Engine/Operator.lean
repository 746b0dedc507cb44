/- RowStore/Engine/Operator
   role: definitions
   digest: Plans in operation, opened, advanced row by row and closed. -/

import RowStore.Engine.Plan
import RowStore.Engine.Scanner

/-!
An operator is a plan with the state of its run. It is opened for a handle, advanced until it has
nothing more, and closed, which gives up every view it holds, also after a failure. A scan yields
one row per step; a predicate advances its child to the next row it accepts; a change advances its
child to the end and yields nothing itself.

Every row that a child yields lies behind the one before it, and changes add no rows, so the number
of rows in the store bounds how often a child is advanced in one step of its parent.
-/

set_option autoImplicit false
set_option relaxedAutoImplicit false

namespace RowStore

open RowStore.Row (Record RowFilter)
open RowStore.Schema (Layout RowField)
open RowStore.Transaction (LockMode)

/-- The run of a change: the handle it was opened for, the fields of its targets as resolved then,
and the number of rows changed. -/
structure ChangeRun where
  handle : Option HandleId := none
  fields : List RowField := []
  affected : Nat := 0
  deriving DecidableEq, Repr

/-- A plan with the state of its run. -/
inductive Operator
  | scan (table : Layout) (mode : LockMode) (scanner : Option Scanner) (row : Option Record)
  | predicate (filter : RowFilter) (child : Operator)
  | alter (table : Layout) (change : Change) (run : ChangeRun) (children : List Operator)

/-- A child advanced until it yields a row that the filter accepts, at most the given number of
times. -/
def seek (filter : RowFilter) (advance : Operator → Engine → Except Fault Bool × Operator × Engine)
    (row? : Operator → Option Record) :
    Nat → Operator → Engine → Except Fault Bool × Operator × Engine
  | 0, child, engine => (.ok false, child, engine)
  | n + 1, child, engine =>
    match advance child engine with
    | (.ok true, child, engine) =>
      match row? child with
      | none => (.error (.lapse (.noRow .predicate)), child, engine)
      | some row =>
        match filter.accepts row.data with
        | .error fault => (.error fault, child, engine)
        | .ok true => (.ok true, child, engine)
        | .ok false => seek filter advance row? n child engine
    | stopped => stopped

/-- A child advanced to its end, at most the given number of times, with every row it yields
changed. The run counts the rows changed. -/
def applyAll (apply : Record → Engine → Except Fault Unit × Engine) (consumer : Consumer)
    (advance : Operator → Engine → Except Fault Bool × Operator × Engine)
    (row? : Operator → Option Record) :
    Nat → Nat → Operator → Engine → Except Fault Bool × Nat × Operator × Engine
  | 0, affected, child, engine => (.ok false, affected, child, engine)
  | n + 1, affected, child, engine =>
    match advance child engine with
    | (.ok true, child, engine) =>
      match row? child with
      | none => (.error (.lapse (.noRow consumer)), affected, child, engine)
      | some row =>
        match apply row engine with
        | (.error fault, engine) => (.error fault, affected, child, engine)
        | (.ok (), engine) => applyAll apply consumer advance row? n (affected + 1) child engine
    | (stopped, child, engine) => (stopped, affected, child, engine)

namespace Operator

mutual

def ofPlan : Plan → Operator
  | .scan table mode => .scan table mode none none
  | .predicate filter child => .predicate filter (ofPlan child)
  | .alter table change children => .alter table change {} (ofPlans children)

def ofPlans : List Plan → List Operator
  | [] => []
  | plan :: rest => ofPlan plan :: ofPlans rest

end

/-- The layout and the record of the row that the operator stands at. A change stands at none. -/
def row? : Operator → Option (Layout × Record)
  | .scan table _ _ row => row.map fun r => (table, r)
  | .predicate _ child => child.row?
  | .alter _ _ _ _ => none

def record? (operator : Operator) : Option Record := operator.row?.map (·.2)

/-- The number of rows changed since the operator was opened; only changes count rows. -/
def affected : Operator → Nat
  | .alter _ _ run _ => run.affected
  | _ => 0

/-- The number of operators from this one down to the leaf it draws its rows from. -/
def height : Operator → Nat
  | .scan _ _ _ _ => 1
  | .predicate _ child => child.height + 1
  | .alter _ _ _ [] => 1
  | .alter _ _ _ (child :: _) => child.height + 1

/-- The operator opened for a handle. A scan takes a fresh scanner and gives up the one it had; a
change needs exactly one child and looks up its fields first. -/
def start : Operator → HandleId → Engine → Except Fault Unit × Operator × Engine
  | .scan table mode old row, h, engine =>
    let (scanner, engine) := Scanner.start { layout := table, handle := h, mode } engine
    let engine :=
      match old with
      | none => engine
      | some scanner => (scanner.close engine).2
    (.ok (), .scan table mode (some scanner) row, engine)
  | .predicate filter child, h, engine =>
    let (result, child, engine) := child.start h engine
    (result, .predicate filter child, engine)
  | .alter table change run [child], h, engine =>
    match change.resolve table with
    | .error fault => (.error fault, .alter table change run [child], engine)
    | .ok fields =>
      let run := { run with fields, affected := 0 }
      match child.start h engine with
      | (.error fault, child, engine) => (.error fault, .alter table change run [child], engine)
      | (.ok (), child, engine) =>
        (.ok (), .alter table change { run with handle := some h } [child], engine)
  | .alter table change run children, _, engine =>
    (.error (.lapse (.notOneInput change.consumer)), .alter table change run children, engine)

/-- One step of an operator of at most the given height: whether it stands at a further row. -/
def nextWithin : Nat → Operator → Engine → Except Fault Bool × Operator × Engine
  | 0, operator, engine => (.ok false, operator, engine)
  | _ + 1, .scan table mode none row, engine =>
    (.error (.lapse .scanClosed), .scan table mode none row, engine)
  | _ + 1, .scan table mode (some scanner) row, engine =>
    match scanner.next engine with
    | (.error fault, scanner, engine) => (.error fault, .scan table mode (some scanner) row, engine)
    | (.ok found, scanner, engine) =>
      (.ok found.isSome, .scan table mode (some scanner) found, engine)
  | n + 1, .predicate filter child, engine =>
    let (result, child, engine) :=
      seek filter (nextWithin n) record? (engine.rowCount + 1) child engine
    (result, .predicate filter child, engine)
  | n + 1, .alter table change run children, engine =>
    match run.handle, children with
    | none, children =>
      (.error (.lapse (.operatorClosed change.consumer)), .alter table change run children, engine)
    | some _, [] => (.ok false, .alter table change run [], engine)
    | some h, child :: others =>
      let (result, affected, child, engine) :=
        applyAll (change.apply table run.fields h) change.consumer (nextWithin n) record?
          (engine.rowCount + 1) run.affected child engine
      (result, .alter table change { run with affected } (child :: others), engine)

def next (operator : Operator) (engine : Engine) : Except Fault Bool × Operator × Engine :=
  nextWithin operator.height operator engine

/-- The operator closed. A change closes its first child. -/
def close : Operator → Engine → Operator × Engine
  | .scan table mode none _, engine => (.scan table mode none none, engine)
  | .scan table mode (some scanner) _, engine =>
    (.scan table mode none none, (scanner.close engine).2)
  | .predicate filter child, engine =>
    let (child, engine) := child.close engine
    (.predicate filter child, engine)
  | .alter table change run [], engine =>
    (.alter table change { run with handle := none } [], engine)
  | .alter table change run (child :: others), engine =>
    let (child, engine) := child.close engine
    (.alter table change { run with handle := none } (child :: others), engine)

end Operator

namespace Engine

/-- The operator opened and, if that succeeds, run to its end. A change needs one step for that. -/
def drain (engine : Engine) (h : HandleId) (operator : Operator) :
    Except Fault Unit × Operator × Engine :=
  match operator.start h engine with
  | (.error fault, operator, engine) => (.error fault, operator, engine)
  | (.ok (), operator, engine) =>
    match operator.next engine with
    | (.error fault, operator, engine) => (.error fault, operator, engine)
    | (.ok _, operator, engine) => (.ok (), operator, engine)

/-- A statement run through a handle: the number of rows changed, or the fault that ended it. The
operator is closed in any case; rows changed before a fault stay changed. -/
def execute (engine : Engine) (h : HandleId) (statement : Statement) : Except Fault Nat × Engine :=
  match statement.plan with
  | .error fault => (.error fault, engine)
  | .ok plan =>
    let (result, operator, engine) := engine.drain h (Operator.ofPlan plan)
    (result.map fun _ => operator.affected, (operator.close engine).2)

end Engine

end RowStore
