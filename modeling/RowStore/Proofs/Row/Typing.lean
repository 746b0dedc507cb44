/- RowStore/Proofs/Row/Typing
   role: theorems
   digest: The type of an expression is settled by the layout and by its literals. -/

import RowStore.Proofs.Row.Faults
import RowStore.Row.Typing

set_option autoImplicit false
set_option relaxedAutoImplicit false

namespace RowStore

open RowStore.Cell (CellType Value)
open RowStore.Number (Binary32)
open RowStore.Schema (Layout RowField)
open RowStore.Text (Bytes)

namespace Cell

theorem Slot.type_decode {type : CellType} {slot : Bytes} {value : Value}
    (decoded : Slot.decode type slot = .ok value) : value.type = type := by
  cases type with
  | chars =>
    cases decoded
    rfl
  | int | float =>
    simp only [Slot.decode] at decoded
    cases held : Slot.word slot with
    | error cause =>
      rw [held] at decoded
      cases decoded
    | ok w =>
      rw [held] at decoded
      cases decoded
      rfl

theorem type_convert {value converted : Value} {type : CellType}
    (done : value.convert type = .ok converted) : converted.type = type := by
  cases value with
  | int n | float x =>
    cases type <;> cases done <;> rfl
  | chars bytes =>
    cases type with
    | chars =>
      cases done
      rfl
    | int | float =>
      simp only [Value.convert] at done
      split at done
      · cases done
        rfl
      · cases done

end Cell

namespace Row

variable {layout layout' : Layout} {field : RowField} {value result : Value} {data : Bytes}
  {record : Record}

theorem type_cell (held : cell field data = .ok value) : value.type = field.type := by
  obtain ⟨cut, -, decoded⟩ := exists_of_bind_eq_ok held
  exact Cell.Slot.type_decode (ofCell_eq_ok_iff.1 decoded)

theorem type_negated (done : negated value = .ok result) :
    value.type.isNumeric = true ∧ result.type = value.type := by
  cases value with
  | int n | float x =>
    cases done
    exact ⟨rfl, rfl⟩
  | chars bytes => cases done

theorem isNumeric_of_asFloat {x : Binary32} (done : asFloat value = .ok x) :
    value.type.isNumeric = true := by
  cases value with
  | int n | float x => rfl
  | chars bytes => cases done

theorem calculate_of_mixed {op : BinaryOp} {left right : Value}
    (mixed : ¬ (op ≠ .div ∧ left.type = .int ∧ right.type = .int)) :
    calculate op left right = (do
      let x ← asFloat left
      let y ← asFloat right
      pure (.float (← calculateFloat op x y))) := by
  unfold calculate
  split
  case h_1 | h_2 | h_3 => exact absurd ⟨nofun, rfl, rfl⟩ mixed
  case h_4 => rfl

theorem type_calculate {op : BinaryOp} {left right : Value}
    (done : calculate op left right = .ok result) :
    op.type? left.type right.type = some result.type := by
  by_cases whole : op ≠ .div ∧ left.type = .int ∧ right.type = .int
  · obtain ⟨exact, int, int'⟩ := whole
    cases left <;> cases int
    cases right <;> cases int'
    cases op with
    | add | sub | mul =>
      cases done
      rfl
    | div => exact absurd rfl exact
  · rw [calculate_of_mixed whole] at done
    obtain ⟨x, first, done⟩ := exists_of_bind_eq_ok done
    obtain ⟨y, second, done⟩ := exists_of_bind_eq_ok done
    obtain ⟨z, -, done⟩ := exists_of_bind_eq_ok done
    cases done
    unfold BinaryOp.type?
    rw [isNumeric_of_asFloat first, isNumeric_of_asFloat second, Bool.and_self, if_pos rfl,
      if_neg whole]
    rfl

theorem fieldType?_of_findField {qualifier : Option String} {name : String}
    (found : findField layout record qualifier name = .ok value) :
    fieldType? layout qualifier name = some value.type := by
  simp only [findField] at found
  split at found
  case isTrue => cases found
  case isFalse own =>
    split at found
    case h_1 field named =>
      have qualified : (qualifier.all fun table => table == layout.name) = true := by
        cases qualifier with
        | none => rfl
        | some table => exact beq_iff_eq.2 (Decidable.not_not.1 own)
      unfold fieldType?
      rw [if_pos qualified, named, Option.map_some, type_cell found]
    case h_2 => cases found

namespace Expression

/-- Where the values of fields have the types of the fields, those of expressions have theirs. -/
theorem type_eval {lookup : Option String → String → Except Fault Value}
    {fieldType : Option String → String → Option CellType}
    (typed : ∀ {qualifier name value}, lookup qualifier name = .ok value →
      fieldType qualifier name = some value.type)
    {expression : Expression} (valued : expression.eval lookup = .ok value) :
    expression.type? fieldType = some value.type := by
  induction expression generalizing value with
  | field qualifier name => exact typed valued
  | literal literal =>
    cases valued
    rfl
  | negate operand ih | negateFirst operand ignored ih =>
    obtain ⟨inner, given, done⟩ := exists_of_bind_eq_ok valued
    obtain ⟨numeric, same⟩ := type_negated done
    rw [type?, ih given, same]
    exact Option.filter_eq_some_iff.2 ⟨rfl, numeric⟩
  | binary op left right ihLeft ihRight =>
    obtain ⟨l, first, rest⟩ := exists_of_bind_eq_ok valued
    obtain ⟨r, second, done⟩ := exists_of_bind_eq_ok rest
    rw [type?, ihLeft first, ihRight second]
    exact type_calculate done
  | incomplete op left ih =>
    obtain ⟨inner, -, done⟩ := exists_of_bind_eq_ok valued
    cases done
  | cast operand target ih =>
    obtain ⟨inner, given, done⟩ := exists_of_bind_eq_ok valued
    rw [type?, ih given, Option.map_some, Cell.type_convert (ofCell_eq_ok_iff.1 done)]

theorem type_of_row {expression : Expression}
    (valued : expression.eval (findField layout record) = .ok value) :
    expression.type? (fieldType? layout) = some value.type :=
  type_eval fieldType?_of_findField valued

/-- All values of an expression have its type, and an expression without a type has no value. -/
theorem type?_settles (layout : Layout) (expression : Expression) (record : Record) :
    match expression.type? (fieldType? layout) with
    | some type => ∀ value, expression.eval (findField layout record) = .ok value →
        value.type = type
    | none => ∃ fault, expression.eval (findField layout record) = .error fault := by
  cases typed : expression.type? (fieldType? layout) with
  | some type =>
    intro value valued
    cases typed.symm.trans (type_of_row valued)
    rfl
  | none =>
    cases valued : expression.eval (findField layout record) with
    | error fault => exact ⟨fault, rfl⟩
    | ok value => cases typed.symm.trans (type_of_row valued)

end Expression

def sample : CellType → Value
  | .int => .int 0
  | .float => .float ⟨0⟩
  | .chars => .chars []

theorem type_sample (type : CellType) : (sample type).type = type := by
  cases type <;> rfl

/-- The expression with its literals replaced by samples of their types. -/
def Expression.sampled : Expression → Expression
  | .field qualifier name => .field qualifier name
  | .literal value => .literal (sample value.type)
  | .negate operand => .negate operand.sampled
  | .negateFirst operand ignored => .negateFirst operand.sampled ignored.sampled
  | .binary op left right => .binary op left.sampled right.sampled
  | .incomplete op left => .incomplete op left.sampled
  | .cast operand target => .cast operand.sampled target

theorem Expression.type?_sampled (fieldType : Option String → String → Option CellType)
    (expression : Expression) :
    expression.sampled.type? fieldType = expression.type? fieldType := by
  induction expression with
  | field | incomplete => rfl
  | literal value => exact congrArg some (type_sample value.type)
  | negate operand ih | negateFirst operand ignored ih | cast operand target ih =>
    rw [sampled, type?, type?, ih]
  | binary op left right ihLeft ihRight => rw [sampled, type?, type?, ihLeft, ihRight]

def columnTypes (layout : Layout) : List (String × CellType) :=
  layout.fields.map fun field => (field.name, field.type)

theorem fieldType?_congr (name : layout'.name = layout.name)
    (columns : columnTypes layout' = columnTypes layout) :
    fieldType? layout' = fieldType? layout := by
  have byColumns (layout : Layout) (name : String) : (layout.field? name).map (·.type) =
      ((columnTypes layout).find? fun column => column.1 == name).map (·.2) := by
    unfold columnTypes Layout.field?
    rw [List.find?_map, Option.map_map]
    rfl
  funext qualifier column
  unfold fieldType?
  rw [name, byColumns, byColumns, columns]

theorem Expression.type?_congr {expression expression' : Expression}
    (name : layout'.name = layout.name) (columns : columnTypes layout' = columnTypes layout)
    (literals : expression'.sampled = expression.sampled) :
    expression'.type? (fieldType? layout') = expression.type? (fieldType? layout) := by
  rw [← type?_sampled _ expression', ← type?_sampled _ expression, literals,
    fieldType?_congr name columns]

end Row

end RowStore
