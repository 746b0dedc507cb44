/- RowStore/Proofs/Engine/Targets
   role: theorems
   digest: The targets of an update are assigned all at once, by values taken from the old row. -/

import Mathlib.Data.List.Perm.Basic
import RowStore.Engine.Statement
import RowStore.Proofs.Row.Slots

set_option autoImplicit false
set_option relaxedAutoImplicit false

namespace RowStore

open RowStore.Cell (Value)
open RowStore.Row (Apart Cells Expression Laid Record coerceTo findField lastWritten setCell slot)
open RowStore.Schema (Layout RowField)
open RowStore.Text (Bytes)

variable {table : Layout} {field : RowField} {row old new : Record} {fault : Fault}
  {targets : List Target} {fields : List RowField} {target : Target}
  {writes : List (RowField × Value)}

namespace Target

theorem forall₂_resolve (resolved : resolve table targets = .ok fields) :
    List.Forall₂ (fun target field => table.field? target.field = some field) targets fields := by
  apply (mapM_eq_ok_iff.1 resolved).imp
  intro target field found
  split at found
  case h_1 field' named =>
    cases found
    exact named
  case h_2 => cases found

theorem mem_of_resolved
    (resolved : List.Forall₂ (fun target field => table.field? target.field = some field)
      targets fields) : ∀ field ∈ fields, field ∈ table.fields := by
  induction resolved with
  | nil => exact List.forall_mem_nil _
  | cons found _ ih => exact List.forall_mem_cons.2 ⟨List.mem_of_find?_eq_some found, ih⟩

theorem exists_value_literal {target : Target} {value : Value} (row : Record)
    (checked : check table target = .ok ()) (found : table.field? target.field = some field)
    (literal : target.source = .literal value) :
    ∃ coerced, target.value table row field = .ok coerced := by
  unfold check at checked
  simp only [found, literal] at checked
  split at checked
  case isTrue compatible =>
    obtain ⟨coerced, done, -⟩ := Row.exists_coerceTo compatible
    refine ⟨coerced, ?_⟩
    unfold Target.value
    rw [literal]
    exact done
  case isFalse => cases checked

theorem value_computed {target : Target} {expression : Expression}
    (computed : target.source = .computed expression) :
    target.value table row field =
      expression.eval (findField table row) >>= coerceTo field := by
  unfold Target.value
  rw [computed]
  rfl

theorem type_value {target : Target} {value : Value}
    (done : target.value table row field = .ok value) : value.type = field.type := by
  cases source : target.source with
  | literal literal =>
    unfold Target.value at done
    rw [source] at done
    exact Cell.type_coerce (Row.coerceTo_eq_ok.1 done)
  | computed expression =>
    rw [value_computed source] at done
    obtain ⟨given, -, done⟩ := exists_of_bind_eq_ok done
    exact Cell.type_coerce (Row.coerceTo_eq_ok.1 done)

theorem exists_of_write_eq_error {data : Bytes}
    (resolved : List.Forall₂ (fun target field => table.field? target.field = some field)
      targets fields)
    (fits : ∀ field ∈ fields, field.Fits data.length)
    (failed : write table row targets fields data = .error fault) :
    ∃ target ∈ targets, ∃ field, table.field? target.field = some field ∧
      target.value table row field = .error fault := by
  induction resolved generalizing data with
  | nil => cases failed
  | @cons target field targets fields found _ ih =>
    obtain ⟨first, later⟩ := List.forall_mem_cons.1 fits
    rcases eq_error_of_bind_eq_error failed with failed | ⟨value, done, failed⟩
    · exact ⟨target, List.mem_cons_self, field, found, failed⟩
    · obtain ⟨data', set⟩ := Row.exists_setCell first (type_value done)
      rw [set] at failed
      have same := Row.length_setCell set
      obtain ⟨other, mem, rest⟩ := ih (fun f hf => same ▸ later f hf) failed
      exact ⟨other, List.mem_cons_of_mem _ mem, rest⟩

/-- What a target gives on a row: a literal as it is, an expression as its value on the row itself. -/
def given (table : Layout) (row : Record) (target : Target) : Except Fault Value :=
  match target.source with
  | .literal value => .ok value
  | .computed expression => expression.eval (Cells.row table row).find

theorem value_eq_given (table : Layout) (row : Record) (field : RowField) (target : Target) :
    target.value table row field = target.given table row >>= coerceTo field := by
  unfold given
  cases source : target.source with
  | literal value =>
    unfold Target.value
    rw [source]
    rfl
  | computed expression => exact value_computed source

/-- The target writes the value into the field: the field has its name, and the value is what it gives
on the row as the field stores it. -/
def Gives (table : Layout) (row : Record) (target : Target) (write : RowField × Value) : Prop :=
  table.field? target.field = some write.1 ∧ target.value table row write.1 = .ok write.2

theorem resolve_of_gives (gives : List.Forall₂ (Gives table row) targets writes) :
    resolve table targets = .ok (writes.map (·.1)) := by
  apply mapM_eq_ok_iff.2
  rw [List.forall₂_map_right_iff]
  apply gives.imp
  rintro target write ⟨found, -⟩
  rw [found]
  rfl

/-- Targets that are written one after the other write values taken from the old row. -/
theorem laid_of_write (apart : Apart table.fields) {data data' data'' : Bytes}
    {before : List (RowField × Value)}
    (resolved : List.Forall₂ (fun target field => table.field? target.field = some field)
      targets fields)
    (laid : Laid table.fields data before data')
    (written : write table old targets fields data' = .ok data'') :
    ∃ writes, List.Forall₂ (Gives table old) targets writes ∧ writes.map (·.1) = fields ∧
      Laid table.fields data (before ++ writes) data'' := by
  induction resolved generalizing before data' with
  | nil =>
    cases written
    refine ⟨[], .nil, rfl, ?_⟩
    rw [List.append_nil]
    exact laid
  | @cons target field targets fields found _ ih =>
    obtain ⟨value, valued, rest⟩ := exists_of_bind_eq_ok written
    obtain ⟨next, set, later⟩ := exists_of_bind_eq_ok rest
    have mem : field ∈ table.fields := List.mem_of_find?_eq_some found
    obtain ⟨writes, gives, rfl, laid'⟩ := ih (laid.append_singleton apart mem set) later
    rw [List.append_assoc] at laid'
    exact ⟨(field, value) :: writes, .cons ⟨found, valued⟩ gives, rfl, laid'⟩

theorem exists_write_of_gives (gives : List.Forall₂ (Gives table old) targets writes)
    {data : Bytes} (fitted : ∀ field ∈ table.fields, field.Fits data.length) :
    ∃ data', write table old targets (writes.map (·.1)) data = .ok data' := by
  induction gives generalizing data with
  | nil => exact ⟨data, rfl⟩
  | @cons target w targets writes first _ ih =>
    obtain ⟨found, valued⟩ := first
    have fits : w.1.Fits data.length := fitted w.1 (List.mem_of_find?_eq_some found)
    obtain ⟨next, set⟩ := Row.exists_setCell fits (type_value valued)
    have same := Row.length_setCell set
    obtain ⟨data', later⟩ := ih fun field mem => same ▸ fitted field mem
    refine ⟨data', ?_⟩
    rw [List.map_cons, write, valued]
    change (setCell w.1 w.2 data >>= fun next => write table old targets _ next) = .ok data'
    rw [set]
    exact later

/-- A new row is built when every target gives a value, and it is the old row with these values laid
into it, under the old id. -/
theorem newRecord_eq_ok (apart : Apart table.fields)
    (fitted : ∀ field ∈ table.fields, field.Fits old.data.length)
    (resolved : resolve table targets = .ok fields) :
    newRecord table targets fields old = .ok new ↔
      new.id = old.id ∧ ∃ writes, List.Forall₂ (Gives table old) targets writes ∧
        Laid table.fields old.data writes new.data := by
  have start : Laid table.fields old.data [] old.data := Laid.nil table.fields old.data
  constructor
  · intro built
    unfold newRecord at built
    cases written : replacement table targets fields old with
    | error fault =>
      rw [written] at built
      cases built
    | ok data =>
      rw [written] at built
      cases built
      obtain ⟨writes, gives, -, laid⟩ :=
        laid_of_write apart (forall₂_resolve resolved) start written
      exact ⟨rfl, writes, gives, laid⟩
  · rintro ⟨id, writes, gives, laid⟩
    have same : fields = writes.map (·.1) :=
      Except.ok.inj (resolved.symm.trans (resolve_of_gives gives))
    obtain ⟨data, written⟩ := exists_write_of_gives gives fitted
    rw [← same] at written
    obtain ⟨writes', gives', -, laid'⟩ :=
      laid_of_write apart (forall₂_resolve resolved) start written
    have unique : Relator.RightUnique (Gives table old) := by
      intro target write write' gives gives'
      have first : write.1 = write'.1 := Option.some.inj (gives.1.symm.trans gives'.1)
      have second := gives.2.symm.trans (first ▸ gives'.2)
      exact Prod.ext first (Except.ok.inj second)
    have equal : writes' = writes := unique.forall₂ gives' gives
    rw [List.nil_append, equal] at laid'
    have bytes : data = new.data := laid'.unique laid fun _ => rfl
    have built : replacement table targets fields old = .ok new.data := bytes ▸ written
    unfold newRecord
    rw [built]
    obtain ⟨newId, newData⟩ := new
    cases id
    rfl

def lastOn (field : RowField) (targets : List Target) : Option Target :=
  targets.reverse.find? fun target => target.field == field.name

theorem lastWritten_of_gives {spec : Schema.TableSpec} {id : Nat} (accepted : spec.Accepted)
    (gives : List.Forall₂ (Gives (spec.layout id) row) targets writes)
    (mem : field ∈ (spec.layout id).fields) :
    match lastOn field targets with
    | none => lastWritten field writes = none
    | some target => ∃ value, lastWritten field writes = some value ∧
        target.value (spec.layout id) row field = .ok value := by
  have sameKey {target : Target} {write : RowField × Value}
      (gives : Gives (spec.layout id) row target write) :
      (target.field == field.name) = (write.1 == field) := by
    have named := (accepted.field?_iff.1 gives.1).2
    rw [Bool.eq_iff_iff, beq_iff_eq, beq_iff_eq]
    constructor
    · intro same
      have found := accepted.field?_iff.2 ⟨mem, same.symm⟩
      exact Option.some.inj (gives.1.symm.trans found)
    · intro same
      rw [← named, same]
  have backwards := List.rel_reverse gives
  unfold lastOn lastWritten
  generalize targets.reverse = targets', writes.reverse = writes' at backwards ⊢
  induction backwards with
  | nil => rfl
  | @cons target write targets writes first _ ih =>
    rw [List.find?_cons, List.find?_cons, sameKey first]
    cases here : write.1 == field with
    | false => exact ih
    | true =>
      have same : write.1 = field := eq_of_beq here
      exact ⟨write.2, rfl, same ▸ first.2⟩

theorem gives_literal {write : RowField × Value} (gives : Gives table row target write) :
    ∃ value, target.given table row = .ok value ∧
      Gives table row ⟨target.field, .literal value⟩ write := by
  obtain ⟨found, valued⟩ := gives
  rw [value_eq_given] at valued
  obtain ⟨value, given, stored⟩ := exists_of_bind_eq_ok valued
  exact ⟨value, given, found, stored⟩

theorem gives_literals (gives : List.Forall₂ (Gives table row) targets writes) :
    ∃ values, List.Forall₂ (fun target value => target.given table row = .ok value)
        targets values ∧
      List.Forall₂ (Gives table row)
        (targets.zipWith (fun target value => ⟨target.field, .literal value⟩) values) writes := by
  induction gives with
  | nil => exact ⟨[], .nil, .nil⟩
  | cons first _ ih =>
    obtain ⟨value, given, literal⟩ := gives_literal first
    obtain ⟨values, givens, literals⟩ := ih
    exact ⟨value :: values, .cons given givens, .cons literal literals⟩

theorem nodup_of_gives {spec : Schema.TableSpec} {id : Nat} (accepted : spec.Accepted)
    (gives : List.Forall₂ (Gives (spec.layout id) row) targets writes)
    (once : (targets.map (·.field)).Nodup) : (writes.map (·.1)).Nodup := by
  have names : writes.map (fun write => write.1.name) = targets.map (·.field) := by
    clear once
    induction gives with
    | nil => rfl
    | cons first _ ih => rw [List.map_cons, List.map_cons, ih, (accepted.field?_iff.1 first.1).2]
  have apart : ((writes.map (·.1)).map (·.name)).Nodup := by
    rw [List.map_map]
    exact names ▸ once
  exact apart.of_map _

end Target

/-- The bytes that a value leaves in the slot of a field that stores it. -/
def Row.Stores (field : RowField) (value : Value) (bytes : Bytes) : Prop :=
  ∃ stored, value.coerce field.type = .ok stored ∧
    Cell.Slot.encode field.type stored field.width = .ok bytes

/-- An update assigns all of its targets at once. The new row has the id and the length of the old
one. A field that is named holds the value of the last target that names it, taken from the old row
and coerced to the type of the field; the bytes of all other fields are unchanged. Targets on
different fields can stand in any order. All targets can be evaluated on the old row first and
written afterwards, so none sees what another has written; and a projection of the old row has the
values of its expressions on the row itself. -/
theorem newRecord_simultaneous {spec : Schema.TableSpec} {id : Nat} {table : Layout}
    (accepted : Layout.ofSpec id spec = .ok table) {targets : List Target} {fields : List RowField}
    (resolved : Target.resolve table targets = .ok fields) {old new : Record}
    (full : old.data.length = table.recordSize)
    (built : Target.newRecord table targets fields old = .ok new) :
    new.id = old.id ∧ new.data.length = old.data.length ∧
    (∀ field ∈ table.fields,
      match Target.lastOn field targets with
      | some target => ∃ value bytes, target.given table old = .ok value ∧
          Row.Stores field value bytes ∧ slot field new.data = .ok bytes
      | none => ∀ position, field.Covers position → new.data[position]? = old.data[position]?) ∧
    ((targets.map (·.field)).Nodup → ∀ targets', targets'.Perm targets →
      ∃ fields', Target.resolve table targets' = .ok fields' ∧
        Target.newRecord table targets' fields' old = .ok new) ∧
    (∃ values, List.Forall₂ (fun target value => target.given table old = .ok value)
        targets values ∧
      Target.newRecord table
        (targets.zipWith (fun target value => ⟨target.field, .literal value⟩) values) fields old =
          .ok new) ∧
    ∀ columns position expression, columns[position]? = some expression →
      (Cells.projection columns (.row table old)).cellAt position =
        expression.eval (Cells.row table old).find := by
  obtain ⟨s, rfl⟩ := Schema.ofSpec_eq_ok.1 accepted
  have apart := Row.apart_layout spec id
  have fitted : ∀ field ∈ (spec.layout id).fields, field.Fits old.data.length := by
    intro field mem
    rw [full]
    exact s.fits mem
  obtain ⟨same, writes, gives, laid⟩ := (Target.newRecord_eq_ok apart fitted resolved).1 built
  refine ⟨same, laid.length, ?_, ?_, ?_, ?_⟩
  · intro field mem
    have last := Target.lastWritten_of_gives s gives mem
    cases on : Target.lastOn field targets with
    | some target =>
      rw [on] at last
      obtain ⟨stored, written, valued⟩ := last
      obtain ⟨bytes, encoded, found⟩ := laid.written field stored written
      rw [Target.value_eq_given] at valued
      obtain ⟨value, given, coerced⟩ := exists_of_bind_eq_ok valued
      exact ⟨value, bytes, given, ⟨stored, Row.coerceTo_eq_ok.1 coerced, encoded⟩, found⟩
    | none =>
      rw [on] at last
      intro position covered
      exact laid.getElem?_eq apart mem last covered
  · intro once targets' perm
    obtain ⟨writes', gives', perm'⟩ := List.perm_comp_forall₂ perm gives
    have resolved' := Target.resolve_of_gives gives'
    have laid' := laid.perm (Target.nodup_of_gives s gives once) perm'.symm
    exact ⟨_, resolved',
      (Target.newRecord_eq_ok apart fitted resolved').2 ⟨same, writes', gives', laid'⟩⟩
  · obtain ⟨values, givens, literals⟩ := Target.gives_literals gives
    refine ⟨values, givens, ?_⟩
    have fields' : fields = writes.map (·.1) :=
      Except.ok.inj (resolved.symm.trans (Target.resolve_of_gives gives))
    rw [fields']
    exact (Target.newRecord_eq_ok apart fitted (Target.resolve_of_gives literals)).2
      ⟨same, writes, literals, laid⟩
  · intro columns position expression found
    simp only [Cells.cellAt, found]

def pairs : Layout := ⟨1, "pairs", [⟨"a", .int, 0, 4⟩, ⟨"b", .int, 4, 4⟩]⟩

/-- The first field is set to nine and then to the second field, and the second one to the first. -/
def swap : List Target :=
  [⟨"a", .literal (.int 9)⟩, ⟨"a", .computed (.field none "b")⟩, ⟨"b", .computed (.field none "a")⟩]

theorem newRecord_simultaneous_swap :
    let old : Record := ⟨⟨0, 3⟩, [1, 0, 0, 0, 2, 0, 0, 0]⟩
    let new : Record := ⟨⟨0, 3⟩, [2, 0, 0, 0, 1, 0, 0, 0]⟩
    let fields : List RowField := [⟨"a", .int, 0, 4⟩, ⟨"a", .int, 0, 4⟩, ⟨"b", .int, 4, 4⟩]
    Layout.ofSpec 1 ⟨"pairs", [⟨"a", .int, 4⟩, ⟨"b", .int, 4⟩]⟩ = .ok pairs ∧
      Target.resolve pairs swap = .ok fields ∧ Target.newRecord pairs swap fields old = .ok new ∧
      new.id = old.id ∧
      (∃ bytes, Row.Stores ⟨"a", .int, 0, 4⟩ (.int 2) bytes ∧
        slot ⟨"a", .int, 0, 4⟩ new.data = .ok bytes) ∧
      ∃ bytes, Row.Stores ⟨"b", .int, 4, 4⟩ (.int 1) bytes ∧
        slot ⟨"b", .int, 4, 4⟩ new.data = .ok bytes := by
  intro old new fields
  have accepted : Layout.ofSpec 1 ⟨"pairs", [⟨"a", .int, 4⟩, ⟨"b", .int, 4⟩]⟩ = .ok pairs := by rfl
  have resolved : Target.resolve pairs swap = .ok fields := by rfl
  have full : old.data.length = pairs.recordSize := by rfl
  have built : Target.newRecord pairs swap fields old = .ok new := by rfl
  obtain ⟨same, -, cells, -⟩ := newRecord_simultaneous accepted resolved full built
  obtain ⟨value, bytes, given, stores, found⟩ := cells ⟨"a", .int, 0, 4⟩ (by decide)
  obtain ⟨value', bytes', given', stores', found'⟩ := cells ⟨"b", .int, 4, 4⟩ (by decide)
  have two : Except.ok (.int 2) = Except.ok value := given
  have one : Except.ok (.int 1) = Except.ok value' := given'
  cases two
  cases one
  exact ⟨accepted, resolved, built, same, ⟨bytes, stores, found⟩, bytes', stores', found'⟩

end RowStore
