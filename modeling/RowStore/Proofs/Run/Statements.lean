/- RowStore/Proofs/Run/Statements
   role: theorems
   digest: A bound statement does what one pass over the rows shown when it begins does. -/

import RowStore.Proofs.Engine.Creation
import RowStore.Proofs.Engine.Execution
import RowStore.Proofs.Run.Events
import RowStore.Proofs.Run.SnapshotIsolation
import RowStore.Proofs.Run.SweepOutcome

set_option autoImplicit false
set_option relaxedAutoImplicit false

namespace RowStore

open RowStore.Row (Condition Record RowFilter)
open RowStore.Schema (Layout RowField)
open RowStore.Transaction (Touch TxnId)

variable {engine : Engine} {statement : Statement} {table : Layout} {change : Change}
  {filter : RowFilter} {fields : List RowField}

def Engine.Binds (engine : Engine) (statement : Statement) : Prop :=
  (∃ name targets conditions, engine.bindUpdate name targets conditions = .ok statement) ∨
    ∃ name conditions, engine.bindDelete name conditions = .ok statement

theorem Statement.plan_of_parts (parts : statement.parts? = some (table, change, filter)) :
    statement.plan = .ok (.alter table change [Plan.ofFilter table filter]) := by
  cases statement <;> cases parts <;> rfl

theorem Target.exists_field? {target : Target} (checked : target.check table = .ok ()) :
    ∃ field, table.field? target.field = some field := by
  unfold check at checked
  split at checked
  case h_1 => cases checked
  case h_2 field found => exact ⟨field, found⟩

theorem Target.exists_resolve {targets : List Target}
    (checked : targets.forM (Target.check table) = .ok ()) :
    ∃ fields, Target.resolve table targets = .ok fields := by
  have each := forM_eq_ok_iff.1 checked
  clear checked
  induction targets with
  | nil => exact ⟨[], rfl⟩
  | cons target rest ih =>
    obtain ⟨first, later⟩ := List.forall_mem_cons.1 each
    obtain ⟨field, found⟩ := exists_field? first
    obtain ⟨fields, resolved⟩ := ih later
    refine ⟨field :: fields, mapM_eq_ok_iff.2 (.cons ?_ (mapM_eq_ok_iff.1 resolved))⟩
    rw [found]
    rfl

theorem Engine.mem_of_statementTable {name : String}
    (found : engine.statementTable name = .ok table) : table ∈ engine.catalog.layouts := by
  unfold statementTable at found
  split at found
  case isTrue => cases found
  case isFalse => exact (listed_of_findTable found).1

theorem Engine.exists_of_bindUpdate {name : String} {targets : List Target}
    {conditions : List Condition}
    (bound : engine.bindUpdate name targets conditions = .ok statement) :
    ∃ table filter, engine.statementTable name = .ok table ∧
      targets.forM (Target.check table) = .ok () ∧ RowFilter.bind table conditions = .ok filter ∧
      statement = .update table targets filter := by
  obtain ⟨table, found, bound⟩ := exists_of_bind_eq_ok bound
  obtain ⟨⟨⟩, checked, bound⟩ := exists_of_bind_eq_ok bound
  dsimp only at bound
  split at bound
  case isTrue => cases bound
  case isFalse =>
    obtain ⟨filter, filtered, bound⟩ := exists_of_bind_eq_ok bound
    cases bound
    exact ⟨table, filter, found, checked, filtered, rfl⟩

theorem Engine.exists_of_bindDelete {name : String} {conditions : List Condition}
    (bound : engine.bindDelete name conditions = .ok statement) :
    ∃ table filter, engine.statementTable name = .ok table ∧
      RowFilter.bind table conditions = .ok filter ∧ statement = .delete table filter := by
  obtain ⟨table, found, bound⟩ := exists_of_bind_eq_ok bound
  obtain ⟨filter, filtered, bound⟩ := exists_of_bind_eq_ok bound
  cases bound
  exact ⟨table, filter, found, filtered, rfl⟩

/-- A bound statement changes a table of the catalog, and its fields are found. -/
theorem Engine.Binds.exists_parts (bound : engine.Binds statement) :
    ∃ table ∈ engine.catalog.layouts, ∃ change filter fields,
      statement.parts? = some (table, change, filter) ∧ change.resolve table = .ok fields := by
  rcases bound with ⟨name, targets, conditions, bound⟩ | ⟨name, conditions, bound⟩
  · obtain ⟨table, filter, found, checked, -, rfl⟩ := exists_of_bindUpdate bound
    obtain ⟨fields, resolved⟩ := Target.exists_resolve checked
    exact ⟨table, mem_of_statementTable found, .update targets, filter, fields, rfl, resolved⟩
  · obtain ⟨table, filter, found, -, rfl⟩ := exists_of_bindDelete bound
    exact ⟨table, mem_of_statementTable found, .delete, filter, [], rfl, rfl⟩

theorem Engine.Binds.checked (bound : engine.Binds statement)
    (parts : statement.parts? = some (table, change, filter)) :
    (∃ conditions, RowFilter.bind table conditions = .ok filter) ∧
      ∀ targets, change = .update targets → targets.forM (Target.check table) = .ok () := by
  rcases bound with ⟨name, targets, conditions, bound⟩ | ⟨name, conditions, bound⟩
  · obtain ⟨table, filter, -, checked, filtered, rfl⟩ := exists_of_bindUpdate bound
    cases parts
    refine ⟨⟨conditions, filtered⟩, ?_⟩
    rintro targets' same
    cases same
    exact checked
  · obtain ⟨table, filter, -, filtered, rfl⟩ := exists_of_bindDelete bound
    cases parts
    exact ⟨⟨conditions, filtered⟩, nofun⟩

namespace Run

variable {config : Config} {commits : Nat} {inserts : Nat → Nat} {state : State} {h : HandleId}
  {txn : TxnId} {rows done : List Record} {before after : Engine} {result : Except Fault Nat}

theorem mem_shownTo {row : Record} : row ∈ engine.shownTo h table ↔
    ((engine.ensureStarted h).2.chain ⟨table.id, row.id⟩).read (engine.ensureStarted h).2.stamps
      ((engine.ensureStarted h).2.registry.ownView (engine.ensureStarted h).1) = some row.data := by
  simp only [Engine.shownTo]
  rw [← Table.Heap.ahead_none, Table.Heap.mem_ahead]
  exact and_iff_right fun id none => nomatch none

theorem shownTo_increasing (engine : Engine) (h : HandleId) (table : Layout) :
    (engine.shownTo h table).Pairwise fun a b => a.id < b.id := by
  simp only [Engine.shownTo]
  rw [← Table.Heap.ahead_none]
  exact Table.Heap.ahead_increasing _ _ _ _

theorem Sound.length_shownTo (s : Sound config commits inserts state) (fitted : Fitted state)
    (known : h < state.engine.handles.size) (listed : table ∈ state.engine.catalog.layouts)
    {row : Record} (mem : row ∈ state.engine.shownTo h table) :
    row.data.length = table.recordSize := by
  have begun := s.ensureStarted known
  have registered : State.isRegistered { state with engine := (state.engine.ensureStarted h).2 }
      ((state.engine.ensureStarted h).2.registry.ownView (state.engine.ensureStarted h).1) :=
    Or.inr ⟨_, Engine.runs_ensureStarted known, rfl⟩
  have found := mem_shownTo.1 mem
  have same := begun.chain_read registered ⟨table.id, row.id⟩
  exact fitted.length_read s listed (same.symm.trans found)

theorem Swept.of_same {after' : Engine}
    (swept : Swept change table fields filter txn rows done before after result)
    (heaps : after'.heaps = after.heaps) (registry : after'.registry = after.registry) :
    Swept change table fields filter txn rows done before after' result := by
  have heap (table : Nat) : after'.heap table = after.heap table := by
    unfold Engine.heap
    rw [heaps]
  have stamps : after'.stamps = after.stamps := by
    unfold Engine.stamps
    rw [registry]
  exact
    { swept with
      changed := by
        rw [heap, stamps, registry]
        exact swept.changed
      chain := fun t apart => by
        unfold Engine.chain
        rw [heap]
        exact swept.chain t apart
      stamps := stamps.trans swept.stamps
      view := by
        rw [registry]
        exact swept.view }

/-- A statement run through a handle is a sweep over the rows that its transaction shows when it
begins: it has the result of the sweep and leaves its tables and transactions. The only trace of the
operators is in the handle's page locks. The pages of the rows that they came to are checked for
writing, which matters only if one of them was locked for reading. -/
structure Executed (engine : Engine) (h : HandleId) (table : Layout) (change : Change)
    (fields : List RowField) (filter : RowFilter) (done : List Record)
    (outcome : Except Fault Nat × Engine) : Prop where
  result : outcome.1 = (engine.sweep h table change fields filter).1
  heaps : outcome.2.heaps = (engine.sweep h table change fields filter).2.heaps
  registry : outcome.2.registry = (engine.sweep h table change fields filter).2.registry
  store : ((engine.shownTo h table).take (done.length + 1)).foldlM
    (fun engine row => engine.checkLock h row.id.page .readWrite)
    (engine.sweep h table change fields filter).2 = .ok outcome.2
  unlocked : (∀ row ∈ engine.shownTo h table,
    (engine.handle h).locks.modeOf? row.id.page ≠ some .readOnly) →
      outcome.2 = (engine.sweep h table change fields filter).2
  swept : Swept change table fields filter (engine.ensureStarted h).1 (engine.shownTo h table) done
    (engine.ensureStarted h).2 outcome.2 outcome.1

theorem Sound.executed (s : Sound config commits inserts state) (fitted : Fitted state)
    (known : h < state.engine.handles.size) (listed : table ∈ state.engine.catalog.layouts)
    (parts : statement.parts? = some (table, change, filter))
    (resolved : change.resolve table = .ok fields) :
    Executed state.engine h table change fields filter
      (change.passed table fields filter h (state.engine.shownTo h table)
        (state.engine.ensureStarted h).2)
      (state.engine.execute h statement) := by
  have carries := Engine.carries_ensureStarted known
  obtain ⟨result, store⟩ := Engine.execute_eq_sweep known (Statement.plan_of_parts parts) resolved
  have apart : (state.engine.shownTo h table).Pairwise fun a b => a.id ≠ b.id := by
    apply (shownTo_increasing _ h table).imp
    intro a b lt same
    rw [same] at lt
    exact Row.RowId.lt_irrefl _ lt
  have swept := sweepRows_swept change fields filter carries apart
    (fun row mem => mem_shownTo.1 mem)
    fun row mem => s.length_shownTo fitted known listed mem
  constructor
  case result => exact result
  case heaps =>
    rw [store]
    exact Engine.heaps_enterAll _ h _
  case registry =>
    rw [store]
    exact Engine.registry_enterAll _ h _
  case store =>
    rw [store]
    exact Engine.checkLocks_readWrite _ h _
  case unlocked =>
    intro unlocked
    rw [store]
    apply Engine.enterAll_eq_self
    intro row mem
    -- What the sweep starts from is not changed by the check, so what it ends with is not either.
    have entered : (state.engine.ensureStarted h).2.enter h row.id.page =
        (state.engine.ensureStarted h).2 := by
      apply Engine.enter_eq_self
      rw [Engine.locks_ensureStarted known]
      exact unlocked row (List.take_subset _ _ mem)
    obtain ⟨same, -⟩ := Change.sweepRows_enter change table fields filter
      (state.engine.shownTo h table) carries row.id.page
    rw [entered] at same
    exact (congrArg Prod.snd same).symm
  case swept =>
    rw [result, store]
    exact swept.of_same (Engine.heaps_enterAll _ h _) (Engine.registry_enterAll _ h _)

/-- Whatever happened between the binding of a statement and its execution, it does what one pass
over the rows shown when it begins does, each judged and replaced by the bytes it had then. -/
theorem execute_exact {past later : List Call} (fits : Fits (past ++ later))
    (led : (initial config).run (past ++ later) = state)
    (bound : ((initial config).run past).engine.Binds statement)
    (known : h < state.engine.handles.size) :
    ∃ table change filter fields done, statement.parts? = some (table, change, filter) ∧
      change.resolve table = .ok fields ∧
      Executed state.engine h table change fields filter done
        (state.engine.execute h statement) := by
  subst led
  obtain ⟨table, listed, change, filter, fields, parts, resolved⟩ := bound.exists_parts
  have s := Sound.run config (past ++ later) fits
  have fitted := fitted_run config (past ++ later) fits
  exact ⟨table, change, filter, fields, _, parts, resolved,
    s.executed fitted known (layouts_run config fits listed) parts resolved⟩

def contested : List Call :=
  [.createTable ⟨"t", [⟨"a", .int, 4⟩]⟩, .newHandle, .newHandle, .insert 0 1 [1, 0, 0, 0],
    .insert 0 1 [2, 0, 0, 0], .commit 0, .replace 1 1 ⟨0, 1⟩ [3, 0, 0, 0]]

theorem execute_exact_contested :
    ((initial {}).run contested).engine.Binds
      (.update ⟨1, "t", [⟨"a", .int, 0, 4⟩]⟩ [⟨"a", .literal (.int 7)⟩] []) ∧
    (((initial {}).run contested).engine.execute 0
      (.update ⟨1, "t", [⟨"a", .int, 0, 4⟩]⟩ [⟨"a", .literal (.int 7)⟩] [])).1 =
        .error (.writeConflict ⟨0, 1⟩) ∧
    ((((initial {}).run contested).engine.execute 0
      (.update ⟨1, "t", [⟨"a", .int, 0, 4⟩]⟩ [⟨"a", .literal (.int 7)⟩] [])).2.chain
        ⟨1, ⟨0, 0⟩⟩).getLast? = some { data := [7, 0, 0, 0], creator := 2 } := by
  have led : (initial {}).run (contested ++ []) = (initial {}).run contested := rfl
  have bound : ((initial {}).run contested).engine.Binds
      (.update ⟨1, "t", [⟨"a", .int, 0, 4⟩]⟩ [⟨"a", .literal (.int 7)⟩] []) :=
    Or.inl ⟨"t", [⟨"a", .literal (.int 7)⟩], [], by rfl⟩
  have known : 0 < ((initial {}).run contested).engine.handles.size := by decide
  obtain ⟨table, change, filter, fields, done, parts, resolved, executed⟩ :=
    execute_exact (fits_of_length (by decide)) led bound known
  cases parts
  cases resolved
  refine ⟨bound, ?_, ?_⟩
  · rw [executed.result]
    rfl
  · rw [executed.unlocked (by decide)]
    decide

def Call.isFree (call : Call) : Prop :=
  call.isCommit = false ∧ ∀ table, call.isInsertInto table = false

/-- From any state with the one store, calls that neither commit nor insert lead to the other. -/
def Leads (old new : Engine) : Prop :=
  ∀ state : State, state.engine = old →
    ∃ calls, (∀ call ∈ calls, call.isFree) ∧ (state.run calls).engine = new

namespace Leads

theorem refl (engine : Engine) : Leads engine engine := fun _ same =>
  ⟨[], List.forall_mem_nil _, same⟩

theorem trans {first second third : Engine} (a : Leads first second) (b : Leads second third) :
    Leads first third := by
  intro state same
  obtain ⟨calls, free, reached⟩ := a state same
  obtain ⟨calls', free', reached'⟩ := b (state.run calls) reached
  refine ⟨calls ++ calls', List.forall_mem_append.2 ⟨free, free'⟩, ?_⟩
  rw [State.run, List.foldl_append]
  exact reached'

theorem of_call {old new : Engine} (call : Call) (free : call.isFree)
    (step : ∀ state : State, state.engine = old → (state.step call).engine = new) :
    Leads old new := fun state same =>
  ⟨[call], List.forall_mem_singleton.2 free, step state same⟩

theorem ensureStarted (known : h < engine.handles.size) :
    Leads engine (engine.ensureStarted h).2 := by
  refine of_call (.start h) ⟨rfl, fun _ => rfl⟩ ?_
  rintro state rfl
  have exists' : state.hasHandle h = true := decide_eq_true known
  simp only [State.step]
  rw [if_pos exists']

theorem enter (engine : Engine) (h : HandleId) (page : UInt32) :
    Leads engine (engine.enter h page) := by
  refine of_call (.checkLock h page .readWrite) ⟨rfl, fun _ => rfl⟩ ?_
  rintro state rfl
  simp only [State.step]
  rw [Engine.checkLock_readWrite]

theorem enterAll (engine : Engine) (h : HandleId) (rows : List Record) :
    Leads engine (engine.enterAll h rows) := by
  induction rows generalizing engine with
  | nil => exact refl engine
  | cons row rest ih => exact (enter engine h row.id.page).trans (ih _)

theorem settle (carries : (engine.handle h).txn = some txn)
    (found : engine.catalog.findById? table.id = some table) (row : Row.RowId) (fate : Fate) :
    Leads engine (engine.settle h table row fate).2 := by
  have known : h < engine.handles.size := Engine.known_of_carries carries
  cases fate with
  | kept => exact refl engine
  | replaced data =>
    refine of_call (.replace h table.id row data) ⟨rfl, fun _ => rfl⟩ ?_
    rintro state rfl
    simp only [State.step]
    rw [onTable_of_found known found]
    exact engine_attempt _ _ _
  | deleted =>
    refine of_call (.delete h table.id row) ⟨rfl, fun _ => rfl⟩ ?_
    rintro state rfl
    simp only [State.step]
    rw [onTable_of_found known found]
    exact engine_attempt _ _ _

theorem sweepRows (change : Change) (fields : List RowField) (filter : RowFilter)
    (carries : (engine.handle h).txn = some txn)
    (found : engine.catalog.findById? table.id = some table) (rows : List Record) :
    Leads engine (change.sweepRows table fields filter h rows engine).2 := by
  induction rows generalizing engine with
  | nil => exact refl engine
  | cons row rest ih =>
    cases decided : change.fate table fields filter row with
    | error fault =>
      rw [(Change.sweepRows_failed (h := h) rest engine decided).1]
      exact refl engine
    | ok fate =>
      have first := settle carries found row.id fate
      cases result : (engine.settle h table row.id fate).1 with
      | error fault =>
        rw [(Change.sweepRows_refused rest decided result).1]
        exact first
      | ok _ =>
        rw [(Change.sweepRows_settled rest decided result).1]
        refine first.trans (ih (Engine.carries_settle carries table row.id fate) ?_)
        rwa [Engine.catalog_settle carries]

end Leads

/-- A statement run in a reachable state leads to the store of a reachable state, so whatever holds
in all of these holds after statements too. -/
theorem execute_reachable {past later : List Call} (fits : Fits (past ++ later))
    (room : 0 < config.rowsPerPage) (led : (initial config).run (past ++ later) = state)
    (bound : ((initial config).run past).engine.Binds statement)
    (known : h < state.engine.handles.size) :
    ∃ state', Reachable config state' ∧ state'.engine = (state.engine.execute h statement).2 := by
  subst led
  obtain ⟨table, listed, change, filter, fields, parts, resolved⟩ := bound.exists_parts
  have s := Sound.run config (past ++ later) fits
  have found := s.findById?_eq (layouts_run config fits listed)
  obtain ⟨-, store⟩ := Engine.execute_eq_sweep known (Statement.plan_of_parts parts) resolved
  have leads : Leads ((initial config).run (past ++ later)).engine
      (((initial config).run (past ++ later)).engine.execute h statement).2 := by
    rw [store]
    refine ((Leads.ensureStarted known).trans ?_).trans (Leads.enterAll _ h _)
    refine Leads.sweepRows change fields filter (Engine.carries_ensureStarted known) ?_ _
    rwa [Engine.catalog_ensureStarted]
  -- The calls that stand for the statement neither commit nor insert, so the counters have room.
  obtain ⟨more, free, reached⟩ := leads _ rfl
  have noCommit : more.countP Call.isCommit = 0 :=
    List.countP_eq_zero.2 fun call mem => by simp [(free call mem).1]
  have noInsert (table : Nat) : more.countP (Call.isInsertInto table) = 0 :=
    List.countP_eq_zero.2 fun call mem => by simp [(free call mem).2 table]
  refine ⟨_, ⟨past ++ later ++ more, ⟨?_, fun table => ?_⟩, room, rfl⟩, ?_⟩
  · rw [List.countP_append, noCommit]
    exact fits.1
  · rw [List.countP_append, noInsert]
    exact fits.2 table
  · rw [State.run, List.foldl_append]
    exact reached

end Run

end RowStore
