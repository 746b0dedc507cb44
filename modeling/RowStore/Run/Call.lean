/- RowStore/Run/Call
   role: definitions
   digest: Runs of the store, which are calls in any order, and the states they lead to. -/

import RowStore.Engine.Scanner
import RowStore.Run.History

/-!
A run is a list of calls. Handles, views and scanners are numbered in the order in which they are
made; tables go by the numbers of the catalog. A call that names a handle, a table, a view or a
scanner that does not exist, or a view given up before, is left out. The state keeps beside the
store what callers hold, and the history of what the calls achieved.
-/

set_option autoImplicit false
set_option relaxedAutoImplicit false

namespace RowStore.Run

open RowStore.Row (Record RowId)
open RowStore.Schema (Layout TableSpec)
open RowStore.Text (Bytes)
open RowStore.Transaction (LockMode Touch TxnId View)

/-- One call. Reads as of now are taken without a handle. -/
inductive Call
  | createTable (spec : TableSpec)
  | newHandle
  | start (h : HandleId)
  | insert (h : HandleId) (table : Nat) (data : Bytes)
  | replace (h : HandleId) (table : Nat) (row : RowId) (data : Bytes)
  | delete (h : HandleId) (table : Nat) (row : RowId)
  | commit (h : HandleId)
  | rollback (h : HandleId)
  | viewOf (h : HandleId)
  | viewNow
  | copyView (view : Nat)
  | dropView (view : Nat)
  | openScan (h : HandleId) (table : Nat) (mode : LockMode)
  | advance (scan : Nat)
  | closeScan (scan : Nat)
  | checkLock (h : HandleId) (page : UInt32) (mode : LockMode)
  | recordLock (h : HandleId) (page : UInt32) (mode : LockMode)
  deriving DecidableEq, Repr

def Call.isCommit : Call → Bool
  | .commit _ => true
  | _ => false

def Call.isInsertInto (table : Nat) : Call → Bool
  | .insert _ t _ => decide (t = table)
  | _ => false

/-- A scanner with the records that it has returned. -/
structure Scan where
  scanner : Scanner
  returned : List Record
  deriving DecidableEq, Repr

/-- The store, the views and scanners that callers hold, and the history. -/
structure State where
  engine : Engine
  history : History := []
  views : Array (Option View) := #[]
  scans : Array Scan := #[]

namespace State

/-- The state after an attempt to write a row, which goes into the history if it succeeds. -/
def attempt {α : Type} (state : State) (txn : TxnId) (outcome : Except Fault α × Engine)
    (row : α → Touch) (write : Write) : State :=
  match outcome with
  | (.error _, engine) => { state with engine }
  | (.ok a, engine) =>
    { state with engine, history := state.history ++ [.wrote txn (row a) write] }

def hasHandle (state : State) (h : HandleId) : Bool := decide (h < state.engine.handles.size)

/-- The state after a call by a handle on a table, if both exist. -/
def onTable (state : State) (h : HandleId) (table : Nat) (act : Layout → State) : State :=
  if state.hasHandle h then
    match state.engine.catalog.findById? table with
    | some layout => act layout
    | none => state
  else state

def step (state : State) : Call → State
  | .createTable spec =>
    match state.engine.createTable spec with
    | .ok (_, engine) => { state with engine }
    | .error _ => state
  | .newHandle => { state with engine := state.engine.newHandle.2 }
  | .start h =>
    if state.hasHandle h then { state with engine := (state.engine.ensureStarted h).2 } else state
  | .insert h table data =>
    state.onTable h table fun layout =>
      state.attempt (state.engine.ensureStarted h).1 (state.engine.insert h layout data)
        (fun row => ⟨table, row⟩) (.inserted data)
  | .replace h table row data =>
    state.onTable h table fun layout =>
      state.attempt (state.engine.ensureStarted h).1 (state.engine.replace h layout row data)
        (fun _ => ⟨table, row⟩) (.replaced data)
  | .delete h table row =>
    state.onTable h table fun layout =>
      state.attempt (state.engine.ensureStarted h).1 (state.engine.delete h layout row)
        (fun _ => ⟨table, row⟩) .deleted
  | .commit h =>
    { state with
      engine := state.engine.commit h
      history := state.history ++
        ((state.engine.handle h).txn.map (Event.committed · state.engine.registry.clock)).toList }
  | .rollback h =>
    { state with
      engine := state.engine.rollback h
      history := state.history ++ ((state.engine.handle h).txn.map Event.withdrawn).toList }
  | .viewOf h =>
    if state.hasHandle h then
      let (view, engine) := state.engine.readView h
      { state with engine, views := state.views.push (some view) }
    else state
  | .viewNow =>
    let (view, engine) := state.engine.latestView
    { state with engine, views := state.views.push (some view) }
  | .copyView i =>
    match state.views[i]? with
    | some (some view) =>
      { state with
        engine := { state.engine with registry := state.engine.registry.hold view }
        views := state.views.push (some view) }
    | _ => state
  | .dropView i =>
    match state.views[i]? with
    | some (some view) =>
      { state with
        engine := state.engine.dropView view
        views := state.views.modify i fun _ => none }
    | _ => state
  | .openScan h table mode =>
    state.onTable h table fun layout =>
      let (scanner, engine) := Scanner.start { layout, handle := h, mode } state.engine
      { state with engine, scans := state.scans.push ⟨scanner, []⟩ }
  | .advance i =>
    match state.scans[i]? with
    | none => state
    | some scan =>
      let (result, scanner, engine) := scan.scanner.next state.engine
      let found := match result with
        | .ok record => record.toList
        | .error _ => []
      { state with
        engine
        scans := state.scans.modify i fun _ => ⟨scanner, scan.returned ++ found⟩ }
  | .closeScan i =>
    match state.scans[i]? with
    | none => state
    | some scan =>
      let (scanner, engine) := scan.scanner.close state.engine
      { state with engine, scans := state.scans.modify i fun _ => ⟨scanner, scan.returned⟩ }
  | .checkLock h page mode =>
    match state.engine.checkLock h page mode with
    | .ok engine => { state with engine }
    | .error _ => state
  | .recordLock h page mode => { state with engine := state.engine.recordLock h page mode }

def run (state : State) (calls : List Call) : State := calls.foldl step state

/-- The unfinished transactions, by the handles that carry them. -/
def unfinished (state : State) : List TxnId := state.engine.handles.toList.filterMap (·.txn)

/-- All views in use: those that callers hold and those of open scanners. -/
def viewsInUse (state : State) : List View :=
  state.views.toList.filterMap id ++ state.scans.toList.filterMap (·.scanner.view)

/-- The view's snapshot is in use: the view is pinned and not given up, or it is that of an
unfinished transaction. -/
def isRegistered (state : State) (view : View) : Prop :=
  (view ∈ state.viewsInUse ∧ view.isPinned = true) ∨
    ∃ txn ∈ state.unfinished, view = state.engine.registry.ownView txn

end State

def initial (config : Config) : State := { engine := { config } }

/-- The calls stay within the counters: neither the clock nor the numbering of rows in any table
comes round to its start. -/
def Fits (calls : List Call) : Prop :=
  calls.countP Call.isCommit < 0x7fffffffffffffff ∧
    ∀ table, calls.countP (Call.isInsertInto table) < 0x10000000000000000

/-- A run of a store whose pages hold rows, within the counters, leads to the state. -/
def Reachable (config : Config) (state : State) : Prop :=
  ∃ calls, Fits calls ∧ 0 < config.rowsPerPage ∧ (initial config).run calls = state

end RowStore.Run
