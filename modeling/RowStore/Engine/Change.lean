/- RowStore/Engine/Change
   role: definitions
   digest: What a statement does to a row it accepts. -/

import RowStore.Engine.Statement
import RowStore.Engine.Transactions

set_option autoImplicit false
set_option relaxedAutoImplicit false

namespace RowStore

open RowStore.Row (Record)
open RowStore.Schema (Layout RowField)

/-- What happens to a row that reaches a change. -/
inductive Change
  | update (targets : List Target)
  | delete
  deriving DecidableEq, Repr

namespace Change

def consumer : Change → Consumer
  | .update _ => .update
  | .delete => .delete

def resolve (layout : Layout) : Change → Except Fault (List RowField)
  | .update targets => Target.resolve layout targets
  | .delete => .ok []

def apply (change : Change) (table : Layout) (fields : List RowField) (h : HandleId)
    (row : Record) (engine : Engine) : Except Fault Unit × Engine :=
  match change with
  | .delete => engine.delete h table row.id
  | .update targets =>
    match Target.newRecord table targets fields row with
    | .error fault => (.error fault, engine)
    | .ok new => engine.replace h table row.id new.data

end Change

end RowStore
