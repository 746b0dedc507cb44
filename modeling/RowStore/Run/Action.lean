/- RowStore/Run/Action
   role: definitions
   digest: Runs in which bare transactions and operators act beside the handles, and the rows they insert. -/

import RowStore.Run.Call
import RowStore.Run.Operation

set_option autoImplicit false
set_option relaxedAutoImplicit false

namespace RowStore.Run

open RowStore.Row (RowId)
open RowStore.Schema (Layout)
open RowStore.Text (Bytes)
open RowStore.Transaction (Timestamp Touch TxnId)

inductive Action
  | call (call : Call)
  | reopenScan (scan : Nat)
  | operate (h : HandleId) (operator : Operator) (use : Use)
  | execute (h : HandleId) (statement : Statement)
  | beginTxn
  | insertRow (txn : TxnId) (table : Nat) (data : Bytes)
  | replaceRow (txn : TxnId) (table : Nat) (row : RowId) (data : Bytes)
  | deleteRow (txn : TxnId) (table : Nat) (row : RowId)
  | commitTxn (txn : TxnId)
  | rollbackTxn (txn : TxnId)
  | withdrawRow (txn : TxnId) (row : Touch)
  | purgeRow (horizon : Timestamp) (row : Touch)

/-- An attempt to insert a row into a table: whether the bytes are as long as its rows, and the
answer. -/
structure Insertion where
  sized : Bool
  answer : Except Fault RowId

def Insertion.ids (insertions : List Insertion) : List RowId :=
  insertions.filterMap fun insertion =>
    match insertion.answer with
    | .ok row => some row
    | .error _ => none

def Insertion.sizedCount (insertions : List Insertion) : Nat := insertions.countP (·.sized)

namespace State

def withTable (state : State) (table : Nat) (change : Layout → Engine) : State :=
  match state.engine.catalog.findById? table with
  | some layout => { state with engine := change layout }
  | none => state

/-- The store that an operation leads to; one that fails leaves it as it is. -/
def keeping (state : State) : Except Fault Engine → Engine
  | .ok engine => engine
  | .error _ => state.engine

def act (state : State) : Action → State
  | .call call => state.step call
  | .reopenScan i =>
    match state.scans[i]? with
    | none => state
    | some scan =>
      let (scanner, engine) := scan.scanner.start state.engine
      { state with engine, scans := state.scans.modify i fun _ => ⟨scanner, []⟩ }
  | .operate h operator use => { state with engine := (use.perform h (operator, state.engine)).2 }
  | .execute h statement => { state with engine := (state.engine.execute h statement).2 }
  | .beginTxn => { state with engine := state.engine.beginTxn.2 }
  | .insertRow txn table data =>
    state.withTable table fun layout => (state.engine.insertRow txn layout data).2
  | .replaceRow txn table row data =>
    state.withTable table fun layout => state.keeping (state.engine.replaceRow txn layout row data)
  | .deleteRow txn table row =>
    state.withTable table fun layout => state.keeping (state.engine.deleteRow txn layout row)
  | .commitTxn txn => { state with engine := (state.engine.commitTxn txn).2 }
  | .rollbackTxn txn => { state with engine := state.engine.rollbackTxn txn }
  | .withdrawRow txn row => { state with engine := state.engine.withdrawRow txn row }
  | .purgeRow horizon row => { state with engine := (state.engine.purgeRow horizon row).2 }

/-- The fault of an attempt on a table by a handle, if both exist and the attempt fails. -/
def faultOnTable? {α : Type} (state : State) (h : HandleId) (table : Nat)
    (attempt : Layout → Except Fault α) : Option Fault :=
  if state.hasHandle h then
    (state.engine.catalog.findById? table).bind fun layout => Fault.of? (attempt layout)
  else none

def fault? (state : State) : Action → Option Fault
  | .call (.createTable spec) => Fault.of? (state.engine.createTable spec)
  | .call (.insert h table data) =>
    state.faultOnTable? h table fun layout => (state.engine.insert h layout data).1
  | .call (.replace h table row data) =>
    state.faultOnTable? h table fun layout => (state.engine.replace h layout row data).1
  | .call (.delete h table row) =>
    state.faultOnTable? h table fun layout => (state.engine.delete h layout row).1
  | .call (.advance i) =>
    state.scans[i]?.bind fun scan => Fault.of? (scan.scanner.next state.engine).1
  | .call (.checkLock h page mode) => Fault.of? (state.engine.checkLock h page mode)
  | .operate h operator .start => Fault.of? (operator.start h state.engine).1
  | .operate _ operator .next => Fault.of? (operator.next state.engine).1
  | .execute h statement => Fault.of? (state.engine.execute h statement).1
  | .insertRow txn table data =>
    (state.engine.catalog.findById? table).bind fun layout =>
      Fault.of? (state.engine.insertRow txn layout data).1
  | .replaceRow txn table row data =>
    (state.engine.catalog.findById? table).bind fun layout =>
      Fault.of? (state.engine.replaceRow txn layout row data)
  | .deleteRow txn table row =>
    (state.engine.catalog.findById? table).bind fun layout =>
      Fault.of? (state.engine.deleteRow txn layout row)
  | _ => none

/-- The attempt that an action makes to insert a row into the table, if it makes one. -/
def insertion? (state : State) (table : Nat) : Action → Option Insertion
  | .call (.insert h named data) =>
    if named = table ∧ state.hasHandle h = true then
      (state.engine.catalog.findById? table).map fun layout =>
        ⟨decide (data.length = layout.recordSize), (state.engine.insert h layout data).1⟩
    else none
  | .insertRow txn named data =>
    if named = table then
      (state.engine.catalog.findById? table).map fun layout =>
        ⟨decide (data.length = layout.recordSize), (state.engine.insertRow txn layout data).1⟩
    else none
  | _ => none

def perform (state : State) (actions : List Action) : State := actions.foldl act state

def insertions (table : Nat) (state : State) : List Action → List Insertion
  | [] => []
  | action :: later =>
    (state.insertion? table action).toList ++ (state.act action).insertions table later

end State

end RowStore.Run
