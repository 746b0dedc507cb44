/- RowStore/Engine/Plan
   role: definitions
   digest: Plans, which are trees of scans, predicates and changes, and the plans of statements. -/

import RowStore.Engine.Change

set_option autoImplicit false
set_option relaxedAutoImplicit false

namespace RowStore

open RowStore.Row (Condition RowFilter)
open RowStore.Schema (Layout)
open RowStore.Transaction (LockMode)

/-- A plan over tables. A change can be written down over any number of plans, but it runs only
over one. -/
inductive Plan
  | scan (table : Layout) (mode : LockMode)
  | predicate (filter : RowFilter) (child : Plan)
  | alter (table : Layout) (change : Change) (children : List Plan)

/-- A plan as written, with tables by name and conditions not yet bound. -/
inductive PlanSpec
  | scan (table : String) (mode : LockMode)
  | predicate (table : String) (conditions : List Condition) (child : PlanSpec)
  | alter (table : String) (change : Change) (children : List PlanSpec)

/-- The plan that reads a table for writing and lets through what a filter accepts. An empty filter
needs no predicate. -/
def Plan.ofFilter (table : Layout) (filter : RowFilter) : Plan :=
  if filter = [] then .scan table .readWrite else .predicate filter (.scan table .readWrite)

def Statement.plan : Statement → Except Fault Plan
  | .update table targets filter =>
    .ok (.alter table (.update targets) [Plan.ofFilter table filter])
  | .delete table filter => .ok (.alter table .delete [Plan.ofFilter table filter])
  | .dropTable _ => .error .dropTableUnsupported

mutual

/-- The plan with its tables looked up and its conditions bound, those of a predicate after its
child. -/
def Engine.bindPlan (engine : Engine) : PlanSpec → Except Fault Plan
  | .scan table mode => do pure (.scan (← engine.findTable table) mode)
  | .predicate table conditions child => do
    let child ← engine.bindPlan child
    let layout ← engine.findTable table
    pure (.predicate (← RowFilter.bind layout conditions) child)
  | .alter table change children => do
    let layout ← engine.findTable table
    pure (.alter layout change (← engine.bindPlans children))

def Engine.bindPlans (engine : Engine) : List PlanSpec → Except Fault (List Plan)
  | [] => .ok []
  | spec :: rest => do
    let plan ← engine.bindPlan spec
    pure (plan :: (← engine.bindPlans rest))

end

end RowStore
