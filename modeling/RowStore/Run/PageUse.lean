/- RowStore/Run/PageUse
   role: definitions
   digest: The uses that a handle makes of pages in a run. -/

import RowStore.Engine.Sweep
import RowStore.Run.Action
import RowStore.Transaction.PageUse

set_option autoImplicit false
set_option relaxedAutoImplicit false

namespace RowStore

open RowStore.Row (Record RowFilter RowId)
open RowStore.Schema (Layout RowField)
open RowStore.Transaction (LockMode PageUse)

/-- The uses of a scan that returns a record after others: it checks each page once, with the first
record there. -/
def usesOfReturn (returned : List Record) (mode : LockMode) (record : Record) : List PageUse :=
  if ∃ earlier ∈ returned, earlier.id.page = record.id.page then []
  else [.checked record.id.page mode]

def usesOfWrite {α : Type} (row : α → RowId) : Except Fault α → List PageUse
  | .ok answer => [.written (row answer).page]
  | .error _ => []

/-- The uses of a scan for writing that has returned records and goes on over further ones, each of
which is returned and then written unless it is kept. The given number of them pass; at the one behind
them, if there is one, the scan stops with a fault after it has returned it. -/
def usesOfRows (keeps : Record → Bool) (returned : List Record) : Nat → List Record → List PageUse
  | _, [] => []
  | 0, record :: _ => usesOfReturn returned .readWrite record
  | passing + 1, record :: rest =>
    usesOfReturn returned .readWrite record ++
      (if keeps record then [] else [.written record.id.page]) ++
        usesOfRows keeps (returned ++ [record]) passing rest

def Change.keeps (change : Change) (table : Layout) (fields : List RowField) (filter : RowFilter)
    (row : Record) : Bool :=
  match change.fate table fields filter row with
  | .ok fate => decide (fate = .kept)
  | .error _ => false

def Engine.usesOfStatement (engine : Engine) (h : HandleId) (statement : Statement) :
    List PageUse :=
  match statement.parts? with
  | none => []
  | some (table, change, filter) =>
    match change.resolve table with
    | .error _ => []
    | .ok fields =>
      let shown := engine.shownTo h table
      let passed := change.passed table fields filter h shown (engine.ensureStarted h).2
      usesOfRows (change.keeps table fields filter) [] passed.length shown

namespace Run

/-- The action does not advance an operator that acts for the handle. -/
def Action.SparesPages (h : HandleId) : Action → Prop
  | .operate _ operator .next => h ∉ operator.handles
  | _ => True

namespace State

/-- The handle that uses pages in an action, if any does. -/
def user? (state : State) : Action → Option HandleId
  | .call (.insert h _ _) | .call (.replace h _ _ _) | .call (.delete h _ _)
  | .call (.commit h) | .call (.rollback h)
  | .call (.checkLock h _ _) | .call (.recordLock h _ _)
  | .execute h _ => some h
  | .call (.advance i) => state.scans[i]?.map (·.scanner.handle)
  | _ => none

def usesOnTable (state : State) (table : Nat) (uses : Layout → List PageUse) : List PageUse :=
  match state.engine.catalog.findById? table with
  | some layout => uses layout
  | none => []

/-- The uses of an action, all of them by one handle. -/
def usesIn (state : State) : Action → List PageUse
  | .call (.insert h table data) =>
    state.usesOnTable table fun layout => usesOfWrite id (state.engine.insert h layout data).1
  | .call (.replace h table row data) =>
    state.usesOnTable table fun layout =>
      usesOfWrite (fun _ => row) (state.engine.replace h layout row data).1
  | .call (.delete h table row) =>
    state.usesOnTable table fun layout =>
      usesOfWrite (fun _ => row) (state.engine.delete h layout row).1
  | .call (.commit _) | .call (.rollback _) => [.ended]
  | .call (.checkLock _ page mode) => [.checked page mode]
  | .call (.recordLock _ page mode) => [.recorded page mode]
  | .call (.advance i) =>
    match state.scans[i]? with
    | none => []
    | some scan =>
      match (scan.scanner.next state.engine).1 with
      | .ok (some record) => usesOfReturn scan.returned scan.scanner.mode record
      | _ => []
  | .execute h statement => state.engine.usesOfStatement h statement
  | _ => []

def usesBy (h : HandleId) (state : State) (action : Action) : List PageUse :=
  if state.hasHandle h ∧ state.user? action = some h then state.usesIn action else []

/-- The uses that a handle makes of pages in actions, one after the other. -/
def pageUses (h : HandleId) (state : State) : List Action → List PageUse
  | [] => []
  | action :: later => state.usesBy h action ++ (state.act action).pageUses h later

end State

end Run

end RowStore
