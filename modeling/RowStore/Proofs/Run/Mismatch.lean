/- RowStore/Proofs/Run/Mismatch
   role: theorems
   digest: An update that ends because a type does not fit its field has changed nothing. -/

import RowStore.Proofs.Row.Typing
import RowStore.Proofs.Run.Faults

set_option autoImplicit false
set_option relaxedAutoImplicit false

namespace RowStore

open RowStore.Cell (CellType Value)
open RowStore.Row (Cells Expression Record RowFilter columnTypes fieldType?)
open RowStore.Schema (Layout RowField)

variable {table : Layout} {field : RowField} {row : Record} {fault : Fault} {targets : List Target}
  {fields : List RowField} {target : Target} {change : Change} {filter : RowFilter}
  {name : String} {expected actual : CellType}

namespace Target

def Mistyped (table : Layout) (target : Target) : Prop :=
  ∃ expression field type, target.source = .computed expression ∧
    table.field? target.field = some field ∧
    expression.type? (fieldType? table) = some type ∧ field.type.isCompatible type = false

theorem not_mistyped_of_value {value : Value} (found : table.field? target.field = some field)
    (done : target.value table row field = .ok value) : ¬ target.Mistyped table := by
  rintro ⟨expression, field', type, computed, found', typed, apart⟩
  cases found.symm.trans found'
  rw [value_computed computed] at done
  obtain ⟨given, valued, stored⟩ := exists_of_bind_eq_ok done
  cases typed.symm.trans (Expression.type_of_row valued)
  have refused := Cell.coerce_eq_error apart
  rw [Row.coerceTo_eq_ok.1 stored] at refused
  cases refused

theorem not_mistyped_of_write {data data' : Text.Bytes}
    (resolved : List.Forall₂ (fun target field => table.field? target.field = some field)
      targets fields)
    (written : write table row targets fields data = .ok data') :
    ∀ target ∈ targets, ¬ target.Mistyped table := by
  induction resolved generalizing data with
  | nil => exact List.forall_mem_nil _
  | cons found _ ih =>
    obtain ⟨value, valued, rest⟩ := exists_of_bind_eq_ok written
    obtain ⟨next, -, later⟩ := exists_of_bind_eq_ok rest
    exact List.forall_mem_cons.2 ⟨not_mistyped_of_value found valued, ih later⟩

end Target

theorem Row.Expression.Raises.ne_fieldType {expression : Expression}
    (raises : expression.Raises table fault) : fault ≠ .fieldType name expected actual := by
  induction raises with
  | unknown | negation | negationFirst | operation | division | missing | conversion => nofun
  | inNegated _ ih | inNegatedFirst _ ih | inLeft _ ih | inRight _ ih | inIncomplete _ ih
  | inConverted _ ih => exact ih

namespace Change

/-- A change fails for a type only if a target has one that does not fit. -/
theorem Fails.exists_mistyped
    (fails : (update targets).Fails table filter row (.fieldType name expected actual)) :
    ∃ target ∈ targets, target.Mistyped table := by
  generalize same : Fault.fieldType name expected actual = fault at fails
  cases fails with
  | conflict => cases same
  | undecided _ undecided =>
    obtain ⟨left, right, -, -, -, rfl⟩ := undecided
    cases same
  | unvalued _ _ _ _ raises => exact absurd same.symm raises.ne_fieldType
  | mistyped updates mem computed found valued apart =>
    cases updates
    exact ⟨_, mem, _, _, _, computed, found, Expression.type_of_row valued, apart⟩

theorem newRecord_of_outcome
    (failed : (update targets).outcome table fields row = .error fault) :
    Target.newRecord table targets fields row = .error fault := by
  have unbuilt : Target.replacement table targets fields row = .error fault :=
    eq_error_of_map_eq_error failed
  unfold Target.newRecord
  rw [unbuilt]
  rfl

/-- A sweep that stops at a row for a type accepts the row, but cannot build its replacement. -/
theorem Stops.unbuilt_of_fieldType (fits : ∀ condition ∈ filter, condition.Fits row.data.length)
    (stops : change.Stops table fields filter row (.fieldType name expected actual)) :
    filter.accepts row.data = .ok true ∧
      change.outcome table fields row = .error (.fieldType name expected actual) := by
  generalize same : Fault.fieldType name expected actual = fault at stops
  cases stops with
  | unjudged judged =>
    obtain ⟨condition, -, left, right, -, -, -, rfl⟩ :=
      Row.RowFilter.undecided_of_accepts fits judged
    cases same
  | conflict => cases same
  | unbuilt judged built => exact ⟨judged, same ▸ built⟩

end Change

namespace Run

variable {config : Config} {state : State} {statement : Statement} {engine : Engine} {h : HandleId}
  {done rest : List Record} {outcome : Except Fault Nat × Engine}

/-- With a target whose type does not fit, an update passes only rows that its filter refuses, and
leaves the store as its transaction found it. -/
theorem Executed.unchanged
    (executed : Executed engine h table (.update targets) fields filter done outcome)
    (resolved : Target.resolve table targets = .ok fields)
    (mistyped : ∃ target ∈ targets, target.Mistyped table)
    (stopped : engine.shownTo h table = done ++ row :: rest)
    (failed : (Change.update targets).fate table fields filter row = .error fault) :
    (∀ row ∈ done, filter.accepts row.data = .ok false) ∧
      outcome.2.heaps = engine.heaps ∧
      outcome.2.registry = (engine.ensureStarted h).2.registry := by
  have refused : ∀ row ∈ done, filter.accepts row.data = .ok false := by
    intro row mem
    obtain ⟨accepted, judged⟩ := executed.swept.judged row mem
    cases accepted with
    | false => exact judged
    | true =>
      obtain ⟨data, replaced, -⟩ := executed.swept.changed row mem judged
      obtain ⟨target, mem, wrong⟩ := mistyped
      have right := Target.not_mistyped_of_write (Target.forall₂_resolve resolved) replaced
      exact absurd wrong (right target mem)
  have kept : ∀ row ∈ done, (Change.update targets).fate table fields filter row = .ok .kept := by
    intro row mem
    rw [Change.fate_of_accepts, refused row mem]
    rfl
  have swept : (engine.sweep h table (.update targets) fields filter).2 =
      (engine.ensureStarted h).2 := by
    unfold Engine.sweep
    rw [stopped, Change.sweepRows_append_of_kept kept, (Change.sweepRows_failed rest _ failed).1]
  refine ⟨refused, ?_, ?_⟩
  · rw [executed.heaps, swept, Engine.heaps_ensureStarted]
  · rw [executed.registry, swept]

/-- The update ended at the first row that its filter accepts, since the row that should have taken
its place cannot be built, and it changed and noted nothing. -/
structure EndedAtFirst (engine : Engine) (h : HandleId) (table : Layout) (targets : List Target)
    (filter : RowFilter) (fault : Fault) (outcome : Except Fault Nat × Engine) : Prop where
  heaps : outcome.2.heaps = engine.heaps
  registry : outcome.2.registry = (engine.ensureStarted h).2.registry
  first : ∃ before row after, engine.shownTo h table = before ++ row :: after ∧
    (∀ row ∈ before, filter.accepts row.data = .ok false) ∧
    filter.accepts row.data = .ok true ∧
    ∃ fields, Target.resolve table targets = .ok fields ∧
      Target.newRecord table targets fields row = .error fault

theorem endedAtFirst_of_fieldType {past later : List Call} {named : String}
    {conditions : List Row.Condition} (fits : Fits (past ++ later))
    (led : (initial config).run (past ++ later) = state)
    (bound : ((initial config).run past).engine.bindUpdate named targets conditions =
      .ok statement)
    (known : h < state.engine.handles.size)
    (failed : (state.engine.execute h statement).1 = .error (.fieldType name expected actual)) :
    ∃ table filter, statement = .update table targets filter ∧
      EndedAtFirst state.engine h table targets filter (.fieldType name expected actual)
        (state.engine.execute h statement) := by
  subst led
  obtain ⟨table, filter, found, checked, filtered, rfl⟩ := Engine.exists_of_bindUpdate bound
  obtain ⟨fields, resolved⟩ := Target.exists_resolve checked
  have resolved' : (Change.update targets).resolve table = .ok fields := resolved
  have checked' (other : List Target) (same : Change.update targets = .update other) :
      other.forM (Target.check table) = .ok () := by
    cases same
    exact checked
  have parts : (Statement.update table targets filter).parts? =
      some (table, .update targets, filter) := rfl
  have listed := layouts_run config fits (Engine.mem_of_statementTable found)
  have s := Sound.run config (past ++ later) fits
  have fitted := fitted_run config (past ++ later) fits
  have inside := (declared_run config (past ++ later) fits).fits listed
  have comparable := Row.RowFilter.fits_of_bind inside filtered
  have executed := s.executed fitted known listed parts resolved'
  obtain ⟨row, after, shown, stops⟩ := executed.swept.stopped _ failed
  have mem : row ∈ ((initial config).run (past ++ later)).engine.shownTo h table := by
    rw [shown]
    exact List.mem_append_right _ List.mem_cons_self
  have sized := s.length_shownTo fitted known listed mem
  have fails := stops.fails sized inside comparable resolved' checked'
  obtain ⟨accepted, unbuilt⟩ := stops.unbuilt_of_fieldType (sized ▸ comparable)
  have undone : (Change.update targets).fate table fields filter row =
      .error (.fieldType name expected actual) := by
    rw [Change.fate_of_accepts, accepted]
    exact unbuilt
  obtain ⟨refused, heaps, registry⟩ :=
    executed.unchanged resolved fails.exists_mistyped shown undone
  exact ⟨table, filter, rfl, heaps, registry, _, row, after, shown, refused, accepted, fields,
    resolved, Change.newRecord_of_outcome unbuilt⟩

/-- The type of an expression is settled by the schema: it is computed from the names and types of
the columns and from the types of the literals, and on every row of the full length the expression
has values of this type only, and none if there is no type. So an update that ends because a type
does not fit its field ends at the first row that its filter accepts, with every version of every
row as it was. -/
theorem types_settled_by_schema :
    (∀ (table : Layout) (expression : Expression) (row : Record),
      row.data.length = table.recordSize →
      match expression.type? (fieldType? table) with
      | some type => ∀ value, expression.eval (Cells.row table row).find = .ok value →
          value.type = type
      | none => ∃ fault, expression.eval (Cells.row table row).find = .error fault) ∧
    (∀ (table table' : Layout) (expression expression' : Expression), table'.name = table.name →
      columnTypes table' = columnTypes table → expression'.sampled = expression.sampled →
      expression'.type? (fieldType? table') = expression.type? (fieldType? table)) ∧
    ∀ (config : Config) (past later : List Call) (state : State) (h : HandleId) (named : String)
      (targets : List Target) (conditions : List Row.Condition) (statement : Statement)
      (name : String) (expected actual : CellType), Fits (past ++ later) →
      (initial config).run (past ++ later) = state →
      ((initial config).run past).engine.bindUpdate named targets conditions = .ok statement →
      h < state.engine.handles.size →
      (state.engine.execute h statement).1 = .error (.fieldType name expected actual) →
      ∃ table filter, statement = .update table targets filter ∧
        EndedAtFirst state.engine h table targets filter (.fieldType name expected actual)
          (state.engine.execute h statement) := by
  refine ⟨?_, ?_, ?_⟩
  · intro table expression row _
    exact Expression.type?_settles table expression row
  · intro table table' expression expression' same columns literals
    exact Expression.type?_congr same columns literals
  · intro config past later state h named targets conditions statement name expected actual
    exact endedAtFirst_of_fieldType

def named : Layout := ⟨1, "t", [⟨"name", .chars, 0, 2⟩, ⟨"id", .int, 2, 4⟩]⟩

def twoNamed : List Call :=
  [.createTable ⟨"t", [⟨"name", .chars, 2⟩, ⟨"id", .int, 4⟩]⟩, .newHandle,
    .insert 0 1 [97, 0, 1, 0, 0, 0], .insert 0 1 [98, 0, 2, 0, 0, 0], .commit 0]

def relabel : Statement :=
  .update named [⟨"name", .computed (.field none "id")⟩]
    [⟨.field ⟨"id", .int, 2, 4⟩, .gt, .value (.int 1)⟩]

/-- A quotient of numbers is a float in every row, whatever the width of the names and whichever
number divides. Names are byte strings, so an update of names to numbers fails, and it changes no row.
The first row is not accepted. -/
theorem types_settled_by_schema_relabel :
    let half : Expression := .binary .div (.field none "id") (.literal (.int 2))
    let third : Expression := .binary .div (.field none "id") (.literal (.int 3))
    let engine := ((initial {}).run twoNamed).engine
    half.type? (fieldType? named) = some .float ∧
      (∀ value, half.eval (Cells.row named ⟨⟨0, 0⟩, [97, 0, 1, 0, 0, 0]⟩).find = .ok value →
        value.type = .float) ∧
      third.type? (fieldType? { named with fields := [⟨"name", .chars, 0, 9⟩, ⟨"id", .int, 9, 4⟩] }) =
        half.type? (fieldType? named) ∧
      (engine.execute 0 relabel).1 = .error (.fieldType "name" .chars .int) ∧
      (engine.execute 0 relabel).2.heaps = engine.heaps := by
  intro half third engine
  have typed : half.type? (fieldType? named) = some .float := by rfl
  have failed : (engine.execute 0 relabel).1 = .error (.fieldType "name" .chars .int) := by rfl
  have bound : engine.bindUpdate "t" [⟨"name", .computed (.field none "id")⟩]
      [⟨.field none "id", .gt, .value (.int 1)⟩] = .ok relabel := by rfl
  obtain ⟨types, alike, ends⟩ := types_settled_by_schema
  have values := types named half ⟨⟨0, 0⟩, [97, 0, 1, 0, 0, 0]⟩ (by rfl)
  rw [typed] at values
  have same := alike named { named with fields := [⟨"name", .chars, 0, 9⟩, ⟨"id", .int, 9, 4⟩] } half
    third (by rfl) (by rfl) (by rfl)
  obtain ⟨table, filter, -, ended⟩ := ends {} twoNamed [] _ 0 "t" _ _ relabel "name" .chars .int
    (fits_of_length (by decide)) rfl bound (by decide) failed
  exact ⟨typed, values, same, failed, ended.heaps⟩

end Run

end RowStore
