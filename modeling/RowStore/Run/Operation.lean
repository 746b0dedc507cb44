/- RowStore/Run/Operation
   role: definitions
   digest: Operators opened, advanced and closed in any order, and the views they hold. -/

import RowStore.Engine.Operator

set_option autoImplicit false
set_option relaxedAutoImplicit false

namespace RowStore

open RowStore.Transaction (View)

namespace Operator

mutual

def views : Operator → List View
  | .scan _ _ scanner _ => (scanner.bind (·.view)).toList
  | .predicate _ child => child.views
  | .alter _ _ _ children => viewsOfAll children

def viewsOfAll : List Operator → List View
  | [] => []
  | operator :: rest => operator.views ++ viewsOfAll rest

end

mutual

/-- The handles for which the operator and the scans under it act. -/
def handles : Operator → List HandleId
  | .scan _ _ scanner _ => (scanner.map (·.handle)).toList
  | .predicate _ child => child.handles
  | .alter _ _ run children => run.handle.toList ++ handlesOfAll children

def handlesOfAll : List Operator → List HandleId
  | [] => []
  | operator :: rest => operator.handles ++ handlesOfAll rest

end

mutual

def scanCount : Operator → Nat
  | .scan _ _ _ _ => 1
  | .predicate _ child => child.scanCount
  | .alter _ _ _ children => scanCountOfAll children

def scanCountOfAll : List Operator → Nat
  | [] => 0
  | operator :: rest => operator.scanCount + scanCountOfAll rest

end

end Operator

namespace Run

inductive Use
  | start
  | next
  | close
  deriving DecidableEq, Repr

/-- The operator and the store after a use on behalf of a handle, whether it succeeds or not. -/
def Use.perform (h : HandleId) (state : Operator × Engine) : Use → Operator × Engine
  | .start => (state.1.start h state.2).2
  | .next => (state.1.next state.2).2
  | .close => state.1.close state.2

def performAll (h : HandleId) (state : Operator × Engine) (uses : List Use) : Operator × Engine :=
  uses.foldl (Use.perform h) state

end Run

end RowStore
