/- RowStore/Proofs/Engine/NewRows
   role: theorems
   digest: A new row and an update of all columns have the same bytes and fail alike. -/

import RowStore.Proofs.Engine.Creation
import RowStore.Proofs.Engine.Targets

set_option autoImplicit false
set_option relaxedAutoImplicit false

namespace RowStore

open RowStore.Cell (Value)
open RowStore.Row (Record coerceTo setCell slot)
open RowStore.Schema (Column Layout RowField TableSpec tile totalWidth)
open RowStore.Text (Bytes)

variable {spec : TableSpec} {id offset : Nat} {columns : List Column} {field : RowField}
  {fields : List RowField} {value : Value} {values : List Value} {data : Bytes} {fault : Fault}

namespace Row

theorem setCell_append {front back : Bytes} (begins : front.length = field.offset)
    (room : field.width ≤ back.length) :
    setCell field value (front ++ back) =
      Fault.ofCell (Cell.Slot.encode field.type value field.width) >>= fun new =>
        .ok (front ++ new ++ back.drop field.width) := by
  have inside : field.stop ≤ (front ++ back).length := by
    change field.offset + field.width ≤ _
    rw [List.length_append]
    omega
  have found := slot_eq_ok.2 ⟨inside, rfl⟩
  unfold setCell
  rw [found]
  change (Fault.ofCell (Cell.Slot.encode field.type value _) >>= fun new => _) = _
  rw [(length_slot found).1]
  cases encoded : Cell.Slot.encode field.type value field.width with
  | error cause => rfl
  | ok new =>
    have width := Cell.Slot.length_encode encoded
    change Except.ok (Bytes.splice (front ++ back) field.offset new) = .ok _
    rw [Bytes.splice, ← begins, List.take_left, width, List.drop_length_add_append]

/-- Filling slots back to back leaves nothing of the bytes that they held. -/
theorem fill_tile_congr {front back back' : Bytes} (matched : values.length = columns.length)
    (begins : front.length = offset) (length : back.length = totalWidth columns)
    (length' : back'.length = totalWidth columns) :
    fill (tile offset columns) values (front ++ back) =
      fill (tile offset columns) values (front ++ back') := by
  -- Each field overwrites all bytes of its slot, and what stands behind it is again of one length.
  induction columns generalizing offset values front back back' with
  | nil => rw [List.length_eq_zero_iff.1 length, List.length_eq_zero_iff.1 length']
  | cons c columns ih =>
    cases values with
    | nil => cases matched
    | cons value values =>
      rw [Schema.totalWidth_cons] at length length'
      rw [tile, fill, fill]
      cases coerceTo ⟨c.name, c.type, offset, c.width⟩ value with
      | error fault => rfl
      | ok coerced =>
        change (setCell _ coerced (front ++ back) >>= _) =
          (setCell _ coerced (front ++ back') >>= _)
        rw [setCell_append begins (Nat.le.intro length.symm),
          setCell_append begins (Nat.le.intro length'.symm)]
        cases encoded : Cell.Slot.encode c.type coerced c.width with
        | error cause => rfl
        | ok new =>
          have width := Cell.Slot.length_encode encoded
          apply ih (Nat.succ.inj matched)
          · rw [List.length_append, begins, width]
          · rw [List.length_drop, length]
            exact Nat.add_sub_cancel_left _ _
          · rw [List.length_drop, length']
            exact Nat.add_sub_cancel_left _ _

theorem fill_eq_ofValues (matched : values.length = (spec.layout id).fields.length)
    (full : data.length = (spec.layout id).recordSize) :
    fill (spec.layout id).fields values data = ofValues (spec.layout id) values := by
  have sized := Schema.recordSize_layout spec id
  rw [ofValues, if_pos matched]
  exact fill_tile_congr (matched.trans (Schema.length_fields spec id)) List.length_nil
    (full.trans sized) (List.length_replicate.trans sized)

theorem isCompatible_of_coerceTo {coerced : Value} (done : coerceTo field value = .ok coerced) :
    field.type.isCompatible value.type = true := by
  cases compatible : field.type.isCompatible value.type with
  | true => rfl
  | false =>
    rw [coerceTo, Cell.coerce_eq_error compatible] at done
    cases done

theorem exists_of_fill_eq_error (fits : ∀ field ∈ fields, field.Fits data.length)
    (failed : fill fields values data = .error fault) :
    ∃ before field value after, fields.zip values = before ++ (field, value) :: after ∧
      (∀ earlier ∈ before, earlier.1.type.isCompatible earlier.2.type = true) ∧
      field.type.isCompatible value.type = false ∧
      fault = .fieldType field.name field.type value.type := by
  induction fields generalizing values data with
  | nil => cases failed
  | cons field fields ih =>
    cases values with
    | nil => cases failed
    | cons value values =>
      obtain ⟨first, later⟩ := List.forall_mem_cons.1 fits
      rcases eq_error_of_bind_eq_error failed with failed | ⟨coerced, done, failed⟩
      · obtain ⟨apart, same⟩ := coerceTo_eq_error failed
        exact ⟨[], field, value, _, rfl, List.forall_mem_nil _, apart, same⟩
      · have typed := Cell.type_coerce (coerceTo_eq_ok.1 done)
        obtain ⟨next, set⟩ := exists_setCell first typed
        rw [set] at failed
        have length := length_setCell set
        obtain ⟨before, field', value', after, parts, taken, rest⟩ :=
          ih (fun f mem => length ▸ later f mem) failed
        refine ⟨(field, value) :: before, field', value', after, ?_, ?_, rest⟩
        · rw [List.zip_cons_cons, parts]
          rfl
        · exact List.forall_mem_cons.2 ⟨isCompatible_of_coerceTo done, taken⟩

end Row

namespace Target

def literals (fields : List RowField) (values : List Value) : List Target :=
  fields.zipWith (fun field value => ⟨field.name, .literal value⟩) values

theorem write_literals (table : Layout) (old : Record) (fields : List RowField)
    (values : List Value) (data : Bytes) :
    write table old (literals fields values) fields data = Row.fill fields values data := by
  induction fields generalizing values data with
  | nil => rfl
  | cons field fields ih =>
    cases values with
    | nil => rfl
    | cons value values =>
      have each (data : Bytes) :
          write table old (List.zipWith (fun f v => ⟨f.name, .literal v⟩) fields values) fields
            data = Row.fill fields values data := ih values data
      simp only [literals, List.zipWith_cons_cons, write, Row.fill, each]
      rfl

theorem resolve_literals (s : spec.Accepted) (known : ∀ f ∈ fields, f ∈ (spec.layout id).fields)
    (matched : values.length = fields.length) :
    resolve (spec.layout id) (literals fields values) = .ok fields := by
  apply mapM_eq_ok_iff.2
  induction fields generalizing values with
  | nil => exact .nil
  | cons field fields ih =>
    cases values with
    | nil => cases matched
    | cons value values =>
      obtain ⟨mem, later⟩ := List.forall_mem_cons.1 known
      refine .cons ?_ (ih later (Nat.succ.inj matched))
      rw [s.field?_iff.2 ⟨mem, rfl⟩]
      rfl

/-- Checking the targets finds out what filling a row would. -/
theorem check_literals (s : spec.Accepted) (known : ∀ f ∈ fields, f ∈ (spec.layout id).fields)
    (full : data.length = (spec.layout id).recordSize) :
    (literals fields values).forM (check (spec.layout id)) =
      (Row.fill fields values data).map fun _ => () := by
  induction fields generalizing values data with
  | nil => rfl
  | cons field fields ih =>
    cases values with
    | nil => rfl
    | cons value values =>
      obtain ⟨mem, later⟩ := List.forall_mem_cons.1 known
      have first : check (spec.layout id) ⟨field.name, .literal value⟩ =
          if field.type.isCompatible value.type then .ok ()
          else .error (.fieldType field.name field.type value.type) := by
        unfold check
        rw [s.field?_iff.2 ⟨mem, rfl⟩]
      change (check (spec.layout id) ⟨field.name, .literal value⟩ >>= fun _ =>
        (literals fields values).forM (check (spec.layout id))) = _
      rw [first, Row.fill]
      cases compatible : field.type.isCompatible value.type with
      | false =>
        rw [coerceTo, Cell.coerce_eq_error compatible]
        rfl
      | true =>
        obtain ⟨coerced, done, typed⟩ := Row.exists_coerceTo compatible
        have fits : field.Fits data.length := full.symm ▸ s.fits mem
        obtain ⟨next, set⟩ := Row.exists_setCell fits typed
        rw [done]
        change _ = (setCell field coerced data >>= _).map _
        rw [set]
        exact ih later ((Row.length_setCell set).trans full)

end Target

/-- An update of all columns without a condition is bound just if a row can be made of the values,
and fails as the row does. -/
theorem bindUpdate_literals (s : spec.Accepted) {engine : Engine} {name : String}
    (found : engine.findTable name = .ok (spec.layout id))
    (matched : values.length = (spec.layout id).fields.length) :
    engine.bindUpdate name (Target.literals (spec.layout id).fields values) [] =
      (Row.ofValues (spec.layout id) values).map fun _ =>
        .update (spec.layout id) (Target.literals (spec.layout id).fields values) [] := by
  have named : name ≠ "" := (Engine.listed_of_findTable found).2 ▸ s.named
  have inhabited : Target.literals (spec.layout id).fields values ≠ [] := by
    apply List.ne_nil_of_length_pos
    rw [Target.literals, List.length_zipWith, matched, Nat.min_self, Schema.length_fields]
    exact List.length_pos_of_ne_nil s.inhabited
  have blank : (Row.blank (spec.layout id)).length = (spec.layout id).recordSize :=
    List.length_replicate
  have checked : (Target.literals (spec.layout id).fields values).forM
        (Target.check (spec.layout id)) =
      (Row.fill (spec.layout id).fields values (Row.blank (spec.layout id))).map fun _ => () :=
    Target.check_literals s (fun _ mem => mem) blank
  rw [Row.ofValues, if_pos matched]
  unfold Engine.bindUpdate Engine.statementTable
  rw [if_neg named, found]
  simp only [bind, Except.bind, checked]
  cases Row.fill (spec.layout id).fields values (Row.blank (spec.layout id)) with
  | error fault => rfl
  | ok data =>
    change (if _ then _ else _) = _
    rw [if_neg inhabited]
    rfl

/-- An insertion and an update of all columns write the same bytes. With one value per column, a row
can be made of the values just if an update with one literal per column can be bound; else both
report the first value that its column does not take, by the name and the type of the column and the
type of the value. The update then gives any row of the table, whatever its bytes, those of the new
row. -/
theorem update_all_eq_insert {layout : Layout} (accepted : Layout.ofSpec id spec = .ok layout)
    {engine : Engine} {name : String} (found : engine.findTable name = .ok layout)
    (matched : values.length = layout.fields.length) :
    ((∃ data, Row.ofValues layout values = .ok data) ↔
      ∃ statement, engine.bindUpdate name (Target.literals layout.fields values) [] =
        .ok statement) ∧
    (∀ fault, Row.ofValues layout values = .error fault ↔
      engine.bindUpdate name (Target.literals layout.fields values) [] = .error fault) ∧
    (∀ fault, Row.ofValues layout values = .error fault →
      ∃ before field value after, layout.fields.zip values = before ++ (field, value) :: after ∧
        (∀ earlier ∈ before, earlier.1.type.isCompatible earlier.2.type = true) ∧
        field.type.isCompatible value.type = false ∧
        fault = .fieldType field.name field.type value.type) ∧
    ∀ data, Row.ofValues layout values = .ok data →
      Target.resolve layout (Target.literals layout.fields values) = .ok layout.fields ∧
      ∀ old : Record, old.data.length = layout.recordSize →
        Target.newRecord layout (Target.literals layout.fields values) layout.fields old =
          .ok { old with data } := by
  obtain ⟨s, rfl⟩ := Schema.ofSpec_eq_ok.1 accepted
  have binds := bindUpdate_literals s found matched
  refine ⟨?succeed, fun fault => ?fail, fun fault failed => ?first, fun data made =>
    ⟨Target.resolve_literals s (fun _ mem => mem) matched, fun old full => ?bytes⟩⟩
  case succeed =>
    rw [binds]
    cases Row.ofValues (spec.layout id) values with
    | error fault => exact iff_of_false nofun nofun
    | ok data => exact iff_of_true ⟨_, rfl⟩ ⟨_, rfl⟩
  case fail =>
    rw [binds]
    cases Row.ofValues (spec.layout id) values with
    | error fault' => simp [Except.map]
    | ok data => exact iff_of_false nofun nofun
  case first =>
    rw [Row.ofValues, if_pos matched] at failed
    refine Row.exists_of_fill_eq_error (fun f mem => ?_) failed
    rw [Row.blank, List.length_replicate]
    exact s.fits mem
  case bytes =>
    have written :=
      Target.write_literals (spec.layout id) old (spec.layout id).fields values old.data
    rw [Row.fill_eq_ofValues matched full, made] at written
    unfold Target.newRecord Target.replacement
    rw [written]
    rfl

def labels : Layout := ⟨1, "labels", [⟨"x", .float, 0, 4⟩, ⟨"s", .chars, 4, 3⟩]⟩

/-- An integer is stored as a float and a byte string is cut, over the same bytes in any old row; an
integer for the byte string is refused either way. -/
theorem update_all_eq_insert_labels :
    let engine : Engine := { catalog := ⟨[labels], 1⟩, heaps := [(1, {})] }
    Layout.ofSpec 1 ⟨"labels", [⟨"x", .float, 4⟩, ⟨"s", .chars, 3⟩]⟩ = .ok labels ∧
      engine.findTable "labels" = .ok labels ∧
      (∀ old : Record, old.data.length = 7 →
        Target.newRecord labels (Target.literals labels.fields [.int 1, .chars [0x61, 0x62, 0x63]])
          labels.fields old = .ok ⟨old.id, [0, 0, 0x80, 0x3f, 0x61, 0x62, 0]⟩) ∧
      engine.bindUpdate "labels" (Target.literals labels.fields [.int 1, .int 2]) [] =
        .error (.fieldType "s" .chars .int) := by
  intro engine
  have accepted :
      Layout.ofSpec 1 ⟨"labels", [⟨"x", .float, 4⟩, ⟨"s", .chars, 3⟩]⟩ = .ok labels := by
    rfl
  have found : engine.findTable "labels" = .ok labels := by rfl
  have matched : [Value.int 1, .chars [0x61, 0x62, 0x63]].length = labels.fields.length := by rfl
  have matched' : [Value.int 1, Value.int 2].length = labels.fields.length := by rfl
  obtain ⟨-, -, -, overwritten⟩ := update_all_eq_insert accepted found matched
  obtain ⟨-, refused, -⟩ := update_all_eq_insert accepted found matched'
  have made : Row.ofValues labels [.int 1, .chars [0x61, 0x62, 0x63]] =
      .ok [0, 0, 0x80, 0x3f, 0x61, 0x62, 0] := by rfl
  exact ⟨accepted, found, (overwritten _ made).2, (refused _).1 (by rfl)⟩

end RowStore
