/- RowStore/Engine/Transactions
   role: definitions
   digest: Transactions on tables: writes, commit, rollback and views, bare or through a handle. -/

import RowStore.Engine.Basic

set_option autoImplicit false
set_option relaxedAutoImplicit false

namespace RowStore.Engine

open RowStore.Row (RowId)
open RowStore.Schema (Layout)
open RowStore.Text (Bytes)
open RowStore.Transaction (LockMode Timestamp Touch TxnId View)

/-- Row bytes must be as long as the rows of the table. -/
def checkLength (layout : Layout) (data : Bytes) : Except Fault Unit :=
  if data.length = layout.recordSize then .ok ()
  else .error (.recordLength layout.recordSize data.length)

def insertRow (engine : Engine) (txn : TxnId) (layout : Layout) (data : Bytes) :
    Except Fault RowId × Engine :=
  match checkLength layout data with
  | .error fault => (.error fault, engine)
  | .ok () =>
    let (result, heap) := (engine.heap layout.id).insert engine.config.rowsPerPage txn data
    (result, engine.setHeap layout.id heap)

def deleteRow (engine : Engine) (txn : TxnId) (layout : Layout) (row : RowId) :
    Except Fault Engine :=
  ((engine.heap layout.id).delete engine.stamps (engine.registry.ownView txn) txn row).map
    (engine.setHeap layout.id)

def replaceRow (engine : Engine) (txn : TxnId) (layout : Layout) (row : RowId) (data : Bytes) :
    Except Fault Engine := do
  checkLength layout data
  let view := engine.registry.ownView txn
  let heap ← (engine.heap layout.id).replace engine.stamps view txn row data
  pure (engine.setHeap layout.id heap)

def withdrawRow (engine : Engine) (txn : TxnId) (touch : Touch) : Engine :=
  engine.setHeap touch.table ((engine.heap touch.table).withdraw txn touch.row)

/-- A row without the versions that no view of the horizon or later needs, and their number. -/
def purgeRow (engine : Engine) (horizon : Timestamp) (touch : Touch) : Nat × Engine :=
  let (count, heap) := (engine.heap touch.table).purge engine.stamps horizon touch.row
  (count, engine.setHeap touch.table heap)

/-- A transaction committed: its commit time, and the store with the rows it touched purged. -/
def commitTxn (engine : Engine) (txn : TxnId) : Timestamp × Engine :=
  let (time, touched, registry) := engine.registry.commit txn
  (time, touched.foldl (fun e t => (e.purgeRow registry.horizon t).2) { engine with registry })

def rollbackTxn (engine : Engine) (txn : TxnId) : Engine :=
  let (touched, registry) := engine.registry.rollback txn
  touched.foldl (fun e t => e.withdrawRow txn t) { engine with registry }

def beginTxn (engine : Engine) : TxnId × Engine :=
  let (txn, registry) := engine.registry.start
  (txn, { engine with registry })

def latestView (engine : Engine) : View × Engine :=
  let (view, registry) := engine.registry.pinNow
  (view, { engine with registry })

def dropView (engine : Engine) (view : View) : Engine :=
  { engine with registry := engine.registry.release view }

def newHandle (engine : Engine) : HandleId × Engine :=
  (engine.handles.size, { engine with handles := engine.handles.push {} })

/-- A handle; one that was never made has no transaction and no locks. -/
def handle (engine : Engine) (h : HandleId) : Handle := engine.handles[h]?.getD {}

def modifyHandle (engine : Engine) (h : HandleId) (change : Handle → Handle) : Engine :=
  { engine with handles := engine.handles.modify h change }

/-- The transaction of a handle, begun now if the handle has none. -/
def ensureStarted (engine : Engine) (h : HandleId) : TxnId × Engine :=
  match (engine.handle h).txn with
  | some txn => (txn, engine)
  | none =>
    let (txn, engine) := engine.beginTxn
    (txn, engine.modifyHandle h fun handle => { handle with txn := some txn })

/-- How a handle reads: through its transaction's view, or as of now if it has none. -/
def readView (engine : Engine) (h : HandleId) : View × Engine :=
  match (engine.handle h).txn with
  | some txn => (engine.registry.ownView txn, engine)
  | none => engine.latestView

/-- A page about to be used through a handle. -/
def checkLock (engine : Engine) (h : HandleId) (page : UInt32) (mode : LockMode) :
    Except Fault Engine :=
  ((engine.handle h).locks.check page mode).map fun locks =>
    engine.modifyHandle h fun handle => { handle with locks := locks }

def recordLock (engine : Engine) (h : HandleId) (page : UInt32) (mode : LockMode) : Engine :=
  engine.modifyHandle h fun handle => { handle with locks := handle.locks.record page mode }

/-- A row written through a handle, noted and locked. -/
def noteWrite (engine : Engine) (h : HandleId) (txn : TxnId) (layout : Layout) (row : RowId) :
    Engine :=
  let registry := engine.registry.touch txn ⟨layout.id, row⟩
  { engine with registry }.recordLock h row.page .readWrite

def insert (engine : Engine) (h : HandleId) (layout : Layout) (data : Bytes) :
    Except Fault RowId × Engine :=
  let (txn, engine) := engine.ensureStarted h
  match engine.insertRow txn layout data with
  | (.error fault, engine) => (.error fault, engine)
  | (.ok row, engine) => (.ok row, engine.noteWrite h txn layout row)

def delete (engine : Engine) (h : HandleId) (layout : Layout) (row : RowId) :
    Except Fault Unit × Engine :=
  let (txn, engine) := engine.ensureStarted h
  match engine.deleteRow txn layout row with
  | .error fault => (.error fault, engine)
  | .ok engine => (.ok (), engine.noteWrite h txn layout row)

def replace (engine : Engine) (h : HandleId) (layout : Layout) (row : RowId) (data : Bytes) :
    Except Fault Unit × Engine :=
  let (txn, engine) := engine.ensureStarted h
  match engine.replaceRow txn layout row data with
  | .error fault => (.error fault, engine)
  | .ok engine => (.ok (), engine.noteWrite h txn layout row)

/-- A handle set back to having neither transaction nor locks. -/
def resetHandle (engine : Engine) (h : HandleId) : Engine := engine.modifyHandle h fun _ => {}

def commit (engine : Engine) (h : HandleId) : Engine :=
  match (engine.handle h).txn with
  | none => engine.resetHandle h
  | some txn => ((engine.resetHandle h).commitTxn txn).2

def rollback (engine : Engine) (h : HandleId) : Engine :=
  match (engine.handle h).txn with
  | none => engine.resetHandle h
  | some txn => (engine.resetHandle h).rollbackTxn txn

/-- A handle given up: an unfinished transaction is rolled back. -/
def dropHandle (engine : Engine) (h : HandleId) : Engine := engine.rollback h

end RowStore.Engine
