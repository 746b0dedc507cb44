/- RowStore/Run/Direct
   role: definitions
   digest: The registry without handles, where a transaction may be ended any number of times. -/

import RowStore.Transaction.Registry

set_option autoImplicit false
set_option relaxedAutoImplicit false

namespace RowStore.Run

open RowStore.Transaction (Registry TxnId View)

inductive Request
  | start
  | commit (txn : TxnId)
  | rollback (txn : TxnId)
  | viewNow
  | copyView (view : Nat)
  | dropView (view : Nat)
  deriving DecidableEq, Repr

/-- The registry, the views that callers hold, and the transactions ended. -/
structure DirectState where
  registry : Registry := {}
  views : Array (Option View) := #[]
  ended : List TxnId := []

namespace DirectState

def knows (state : DirectState) (txn : TxnId) : Bool := decide (txn < state.registry.txns.size)

def step (state : DirectState) : Request → DirectState
  | .start => { state with registry := state.registry.start.2 }
  | .commit txn =>
    if state.knows txn then
      { state with registry := (state.registry.commit txn).2.2, ended := txn :: state.ended }
    else state
  | .rollback txn =>
    if state.knows txn then
      { state with registry := (state.registry.rollback txn).2, ended := txn :: state.ended }
    else state
  | .viewNow =>
    { state with
      registry := state.registry.pinNow.2
      views := state.views.push (some state.registry.pinNow.1) }
  | .copyView i =>
    match state.views[i]? with
    | some (some view) =>
      { state with
        registry := state.registry.hold view
        views := state.views.push (some view) }
    | _ => state
  | .dropView i =>
    match state.views[i]? with
    | some (some view) =>
      { state with
        registry := state.registry.release view
        views := state.views.modify i fun _ => none }
    | _ => state

def run (state : DirectState) (requests : List Request) : DirectState := requests.foldl step state

def held (state : DirectState) : List View := state.views.toList.filterMap id

/-- The transactions begun and never ended. -/
def unended (state : DirectState) : List TxnId :=
  (List.range state.registry.txns.size).filter fun txn => !state.ended.contains txn

end DirectState

end RowStore.Run
