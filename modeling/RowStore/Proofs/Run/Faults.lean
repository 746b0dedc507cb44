/- RowStore/Proofs/Run/Faults
   role: theorems
   digest: A bound statement fails only because of the data that it finds. -/

import RowStore.Proofs.Engine.Targets
import RowStore.Proofs.Run.Statements

set_option autoImplicit false
set_option relaxedAutoImplicit false

namespace RowStore

open RowStore.Cell (Value)
open RowStore.Row (Expression Record RowFilter findField)
open RowStore.Schema (Layout RowField)

variable {table : Layout} {field : RowField} {row : Record} {fault : Fault} {targets : List Target}
  {fields : List RowField} {change : Change} {filter : RowFilter}

namespace Change

/-- Why a change of the rows that a filter accepts fails at a row: somebody else has written the row,
a condition compares a float that is not a number, the expression of a target has no value, or its
value has a type that the field does not store. -/
inductive Fails (change : Change) (table : Layout) (filter : RowFilter) (row : Record) :
    Fault → Prop
  | conflict : Fails change table filter row (.writeConflict row.id)
  | undecided {condition : Row.BoundCondition} {fault : Fault} (mem : condition ∈ filter)
      (undecided : condition.Undecided row.data fault) : Fails change table filter row fault
  | unvalued {targets : List Target} {target : Target} {expression : Expression} {fault : Fault}
      (updates : change = .update targets) (mem : target ∈ targets)
      (computed : target.source = .computed expression)
      (failed : expression.eval (findField table row) = .error fault)
      (raises : expression.Raises table fault) : Fails change table filter row fault
  | mistyped {targets : List Target} {target : Target} {expression : Expression}
      {field : RowField} {value : Value} (updates : change = .update targets)
      (mem : target ∈ targets) (computed : target.source = .computed expression)
      (found : table.field? target.field = some field)
      (valued : expression.eval (findField table row) = .ok value)
      (apart : field.type.isCompatible value.type = false) :
      Fails change table filter row (.fieldType field.name field.type value.type)

/-- A change whose targets have been checked cannot be built only because of an expression. -/
theorem fails_of_outcome (fitted : ∀ f ∈ table.fields, f.Fits row.data.length)
    (resolved : change.resolve table = .ok fields)
    (checked : ∀ targets, change = .update targets → targets.forM (Target.check table) = .ok ())
    (failed : change.outcome table fields row = .error fault) :
    change.Fails table filter row fault := by
  cases change with
  | delete => cases failed
  | update targets =>
    have resolved := Target.forall₂_resolve resolved
    have checked := forM_eq_ok_iff.1 (checked targets rfl)
    have fits : ∀ field ∈ fields, field.Fits row.data.length := by
      intro field mem
      exact fitted field (Target.mem_of_resolved resolved field mem)
    change (Target.replacement table targets fields row).map Fate.replaced = _ at failed
    have built := eq_error_of_map_eq_error failed
    obtain ⟨target, mem, field, found, failed⟩ :=
      Target.exists_of_write_eq_error resolved fits built
    cases source : target.source with
    | literal value =>
      obtain ⟨coerced, done⟩ :=
        Target.exists_value_literal row (checked target mem) found source
      rw [done] at failed
      cases failed
    | computed expression =>
      rw [Target.value_computed source] at failed
      rcases eq_error_of_bind_eq_error failed with failed | ⟨value, valued, failed⟩
      · exact .unvalued rfl mem source failed (Expression.raises_of_eval fitted failed)
      · obtain ⟨apart, rfl⟩ := Row.coerceTo_eq_error failed
        exact .mistyped rfl mem source found valued apart

theorem Stops.fails (sized : row.data.length = table.recordSize)
    (fitted : ∀ f ∈ table.fields, f.Fits table.recordSize)
    (fits : ∀ condition ∈ filter, condition.Fits table.recordSize)
    (resolved : change.resolve table = .ok fields)
    (checked : ∀ targets, change = .update targets → targets.forM (Target.check table) = .ok ())
    (stops : change.Stops table fields filter row fault) : change.Fails table filter row fault := by
  rw [← sized] at fitted fits
  cases stops with
  | unjudged judged =>
    obtain ⟨condition, mem, undecided⟩ := Row.RowFilter.undecided_of_accepts fits judged
    exact .undecided mem undecided
  | unbuilt _ built => exact fails_of_outcome fitted resolved checked built
  | conflict _ _ => exact .conflict

/-- The change computes nothing: it is a deletion, or all of its targets are literals. -/
def IsLiteral : Change → Prop
  | .delete => True
  | .update targets => ∀ target ∈ targets, ∃ value, target.source = .literal value

theorem Fails.kind (fails : change.Fails table filter row fault) :
    fault.kind ≠ .recordNotFound ∧ fault.kind ≠ .lockConflict ∧
      (fault.kind = .internal → fault = .lapse .missingOperand) := by
  cases fails with
  | conflict => exact ⟨nofun, nofun, nofun⟩
  | undecided _ undecided =>
    obtain ⟨left, right, -, -, -, rfl⟩ := undecided
    exact ⟨nofun, nofun, nofun⟩
  | unvalued _ _ _ _ raises => exact raises.kind
  | mistyped => exact ⟨nofun, nofun, nofun⟩

/-- Without expressions and without floats in conditions only another writer is left. -/
theorem Fails.eq_writeConflict (fails : change.Fails table filter row fault)
    (literal : change.IsLiteral)
    (floatless : ∀ condition ∈ filter, condition.left.type ≠ .float ∧ condition.right.type ≠ .float)
    (fits : ∀ condition ∈ filter, condition.Fits row.data.length) :
    fault = .writeConflict row.id := by
  have unexpressed {targets : List Target} {target : Target} {expression : Expression}
      (updates : change = .update targets) (mem : target ∈ targets)
      (computed : target.source = .computed expression) : False := by
    subst updates
    obtain ⟨value, source⟩ := literal target mem
    cases computed.symm.trans source
  cases fails with
  | conflict => rfl
  | undecided mem undecided =>
    exact absurd (undecided.exists_float (fits _ mem)) (by simpa using floatless _ mem)
  | unvalued updates mem computed => exact (unexpressed updates mem computed).elim
  | mistyped updates mem computed => exact (unexpressed updates mem computed).elim

end Change

namespace Run

variable {config : Config} {state : State} {h : HandleId} {statement : Statement}

/-- Whatever happened between the binding of a statement and its execution, when it fails, it does so
at a row shown to its transaction, because that row is written by somebody else, because a condition
compares a float that is not a number there, or because of an expression. Rows and locks are not
missing, and nothing internal fails but a missing operand. A deletion, or an update with literals
only, fails just for other writers when its conditions compare no floats. -/
theorem execute_fails_for_data {past later : List Call} (fits : Fits (past ++ later))
    (led : (initial config).run (past ++ later) = state)
    (bound : ((initial config).run past).engine.Binds statement)
    (known : h < state.engine.handles.size) {fault : Fault}
    (failed : (state.engine.execute h statement).1 = .error fault) :
    ∃ table change filter, statement.parts? = some (table, change, filter) ∧
      ∃ row ∈ state.engine.shownTo h table, change.Fails table filter row fault ∧
        fault.kind ≠ .recordNotFound ∧ fault.kind ≠ .lockConflict ∧
        (fault.kind = .internal → fault = .lapse .missingOperand) ∧
        (change.IsLiteral →
          (∀ condition ∈ filter,
            condition.left.type ≠ .float ∧ condition.right.type ≠ .float) →
          fault = .writeConflict row.id) := by
  subst led
  obtain ⟨table, listed, change, filter, fields, parts, resolved⟩ := bound.exists_parts
  obtain ⟨⟨conditions, filtered⟩, checked⟩ := bound.checked parts
  have s := Sound.run config (past ++ later) fits
  have fitted := fitted_run config (past ++ later) fits
  have listed' := layouts_run config fits listed
  have inside := (declared_run config (past ++ later) fits).fits listed'
  have comparable := Row.RowFilter.fits_of_bind inside filtered
  have executed := s.executed fitted known listed' parts resolved
  obtain ⟨row, later', eq, stops⟩ := executed.swept.stopped fault failed
  have shown : row ∈ ((initial config).run (past ++ later)).engine.shownTo h table := by
    rw [eq]
    exact List.mem_append_right _ List.mem_cons_self
  have sized := s.length_shownTo fitted known listed' shown
  have fails := stops.fails sized inside comparable resolved checked
  obtain ⟨present, unlocked, internal⟩ := fails.kind
  rw [← sized] at comparable
  exact ⟨table, change, filter, parts, row, shown, fails, present, unlocked, internal,
    fun literal floatless => fails.eq_writeConflict literal floatless comparable⟩

theorem execute_fails_for_data_contested :
    (((initial {}).run contested).engine.execute 0
      (.update ⟨1, "t", [⟨"a", .int, 0, 4⟩]⟩ [⟨"a", .literal (.int 7)⟩] [])).1 =
        .error (.writeConflict ⟨0, 1⟩) ∧
    ∃ row ∈ ((initial {}).run contested).engine.shownTo 0 ⟨1, "t", [⟨"a", .int, 0, 4⟩]⟩,
      Fault.writeConflict ⟨0, 1⟩ = .writeConflict row.id := by
  have led : (initial {}).run (contested ++ []) = (initial {}).run contested := rfl
  have bound : ((initial {}).run contested).engine.Binds
      (.update ⟨1, "t", [⟨"a", .int, 0, 4⟩]⟩ [⟨"a", .literal (.int 7)⟩] []) :=
    Or.inl ⟨"t", [⟨"a", .literal (.int 7)⟩], [], by rfl⟩
  have failed : (((initial {}).run contested).engine.execute 0
      (.update ⟨1, "t", [⟨"a", .int, 0, 4⟩]⟩ [⟨"a", .literal (.int 7)⟩] [])).1 =
        .error (.writeConflict ⟨0, 1⟩) := by rfl
  obtain ⟨table, change, filter, parts, row, shown, -, -, -, -, only⟩ :=
    execute_fails_for_data (fits_of_length (by decide)) led bound (by decide) failed
  cases parts
  refine ⟨failed, row, shown, only ?_ nofun⟩
  intro target mem
  cases List.mem_singleton.1 mem
  exact ⟨.int 7, rfl⟩

end Run

end RowStore
