/- RowStore/Engine/Scanner
   role: definitions
   digest: Scanners, which return the rows of a table that a view shows, one at a time. -/

import RowStore.Engine.Transactions

set_option autoImplicit false
set_option relaxedAutoImplicit false

namespace RowStore

open RowStore.Row (Record RowId)
open RowStore.Schema (Layout)
open RowStore.Transaction (LockMode View)

/-- A scanner over a table on behalf of a handle. It is open while it has a view. -/
structure Scanner where
  layout : Layout
  handle : HandleId
  mode : LockMode
  view : Option View := none
  cursor : Option RowId := none
  page : Option UInt32 := none
  deriving DecidableEq, Repr

namespace Scanner

def isOpen (scanner : Scanner) : Bool := scanner.view.isSome

def releaseView (scanner : Scanner) (engine : Engine) : Engine :=
  match scanner.view with
  | none => engine
  | some view => engine.dropView view

/-- The scanner set before the first row with a fresh view. A view it still had is given up after
the fresh one is taken. -/
def start (scanner : Scanner) (engine : Engine) : Scanner × Engine :=
  let engine :=
    match scanner.mode with
    | .readOnly => engine
    | .readWrite => (engine.ensureStarted scanner.handle).2
  let (view, engine) := engine.readView scanner.handle
  ({ scanner with view := some view, cursor := none, page := none }, scanner.releaseView engine)

/-- The next row, if there is one. At the end the scanner stays where it is. -/
def next (scanner : Scanner) (engine : Engine) : Except Fault (Option Record) × Scanner × Engine :=
  match scanner.view with
  | none => (.error (.lapse .scannerClosed), scanner, engine)
  | some view =>
    match (engine.heap scanner.layout.id).next engine.stamps view scanner.cursor with
    | none => (.ok none, scanner, engine)
    | some record =>
      let page := record.id.page
      let moved := { scanner with cursor := some record.id, page := some page }
      if scanner.page = some page then (.ok (some record), moved, engine)
      else
        match engine.checkLock scanner.handle page scanner.mode with
        | .error fault => (.error fault, moved, engine)
        | .ok engine => (.ok (some record), moved, engine)

def close (scanner : Scanner) (engine : Engine) : Scanner × Engine :=
  ({ scanner with view := none }, scanner.releaseView engine)

/-- The records from where an open scanner stands, at most the given number of them. -/
def takeRecords : Nat → Scanner → Engine → Except Fault (List Record) × Scanner × Engine
  | 0, scanner, engine => (.ok [], scanner, engine)
  | n + 1, scanner, engine =>
    match scanner.next engine with
    | (.error fault, scanner, engine) => (.error fault, scanner, engine)
    | (.ok none, scanner, engine) => (.ok [], scanner, engine)
    | (.ok (some record), scanner, engine) =>
      let (rest, scanner, engine) := takeRecords n scanner engine
      (rest.map (record :: ·), scanner, engine)

end Scanner

/-- All rows of a table that a handle reads, by a scanner of its own. A table has no more rows to
return than it holds. -/
def Engine.scan (engine : Engine) (h : HandleId) (layout : Layout) (mode : LockMode) :
    Except Fault (List Record) × Engine :=
  let (scanner, engine) := Scanner.start { layout, handle := h, mode } engine
  let (records, scanner, engine) := scanner.takeRecords (engine.heap layout.id).rows.size engine
  (records, (scanner.close engine).2)

end RowStore
