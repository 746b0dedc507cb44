/- RowStore/Proofs/Row/Faults
   role: theorems
   digest: What can go wrong with cells, conditions and expressions on rows of the right length. -/

import RowStore.Proofs.Row.Record
import RowStore.Proofs.Schema.Layout

set_option autoImplicit false
set_option relaxedAutoImplicit false

namespace RowStore

open RowStore.Cell (CellFault CellType Value)
open RowStore.Number (Binary32 Exact)
open RowStore.Schema (Layout RowField)
open RowStore.Text (Bytes)

def Cell.Value.IsNaN (value : Value) : Prop := ∃ x, value = .float x ∧ x.isNaN = true

namespace Cell

theorem Value.IsNaN.type {value : Value} (nan : value.IsNaN) : value.type = .float := by
  obtain ⟨x, rfl, -⟩ := nan
  rfl

theorem exact_eq_nan_iff {x : Binary32} : x.exact = .nan ↔ x.isNaN = true := by
  rw [Binary32.isNaN, decide_eq_true_eq]
  simp only [Binary32.exact]
  split
  case isTrue beyond => exact iff_of_true rfl beyond
  case isFalse within =>
    refine iff_of_false ?_ within
    split
    · nofun
    · split <;> nofun

theorem compare?_eq_none_iff {a b : Exact} :
    Exact.compare? a b = none ↔ a = .nan ∨ b = .nan := by
  cases a <;> cases b <;> simp [Exact.compare?]

theorem exists_denoted {value : Value} (number : value.type ≠ .chars) :
    ∃ a, value.denoted? = some a ∧ (a = .nan ↔ value.IsNaN) := by
  cases value with
  | int n => exact ⟨_, rfl, iff_of_false nofun nofun⟩
  | float x => exact ⟨_, rfl, exact_eq_nan_iff.trans (by simp [Value.IsNaN])⟩
  | chars bytes => exact absurd rfl number

theorem order_of_denoted {left right : Value} {a b : Exact} (hl : left.denoted? = some a)
    (hr : right.denoted? = some b) :
    left.order right =
      match Exact.compare? a b with
      | some order => .ok order
      | none => .error (.incomparable left.type right.type) := by
  cases left <;> cases right <;> cases hl <;> cases hr <;> rfl

theorem isCompatible_iff {a b : CellType} :
    a.isCompatible b = true ↔ (a = .chars ↔ b = .chars) := by
  cases a <;> cases b <;> decide

theorem order_eq_error {left right : Value} {cause : CellFault}
    (compatible : left.type.isCompatible right.type = true)
    (failed : left.order right = .error cause) :
    (left.IsNaN ∨ right.IsNaN) ∧ cause = .incomparable left.type right.type := by
  rw [isCompatible_iff] at compatible
  by_cases chars : left.type = .chars
  · have both := compatible.1 chars
    cases left <;> cases chars
    cases right <;> cases both
    cases failed
  · obtain ⟨a, hl, nanLeft⟩ := exists_denoted chars
    obtain ⟨b, hr, nanRight⟩ := exists_denoted fun right => chars (compatible.2 right)
    rw [order_of_denoted hl hr] at failed
    split at failed
    · cases failed
    case h_2 unordered =>
      cases failed
      exact ⟨(compare?_eq_none_iff.1 unordered).imp nanLeft.1 nanRight.1, rfl⟩

theorem exists_isLike {left right : Value} (hl : left.type = .chars) (hr : right.type = .chars) :
    ∃ matches', left.isLike right = .ok matches' := by
  cases left <;> cases hl
  cases right <;> cases hr
  exact ⟨_, rfl⟩

theorem exists_coerce {value : Value} {type : CellType}
    (compatible : type.isCompatible value.type = true) :
    ∃ coerced, value.coerce type = .ok coerced ∧ coerced.type = type := by
  cases value <;> cases type <;> cases compatible <;> exact ⟨_, rfl, rfl⟩

theorem coerce_eq_error {value : Value} {type : CellType}
    (apart : type.isCompatible value.type = false) :
    value.coerce type = .error (.invalidCast value.type type) := by
  cases value <;> cases type <;> cases apart <;> rfl

theorem type_coerce {value coerced : Value} {type : CellType}
    (done : value.coerce type = .ok coerced) : coerced.type = type := by
  cases compatible : type.isCompatible value.type with
  | true =>
    obtain ⟨coerced', done', typed⟩ := exists_coerce compatible
    cases done.symm.trans done'
    exact typed
  | false =>
    rw [coerce_eq_error compatible] at done
    cases done

/-- Only a byte string that does not read as a number cannot be converted. -/
theorem convert_eq_error {value : Value} {target : CellType} {cause : CellFault}
    (failed : value.convert target = .error cause) : cause = .invalidCast .chars target := by
  cases value with
  | int n => cases target <;> cases failed
  | float x => cases target <;> cases failed
  | chars bytes =>
    cases target with
    | chars => cases failed
    | int | float =>
      simp only [Value.convert] at failed
      split at failed
      · cases failed
      · cases failed
        rfl

end Cell

namespace Row

variable {layout : Layout} {field : RowField} {value : Value} {data : Bytes} {fault : Fault}

theorem exists_slot (fits : field.Fits data.length) :
    ∃ cut, slot field data = .ok cut ∧ cut.length = field.width := by
  have cut : slot field data = .ok ((data.drop field.offset).take field.width) := if_pos fits.inside
  exact ⟨_, cut, (length_slot cut).1⟩

theorem exists_word {cut : Bytes} (four : cut.length = 4) : ∃ w, Cell.Slot.word cut = .ok w := by
  match cut, four with
  | [_, _, _, _], _ => exact ⟨_, rfl⟩

/-- A field has a value of its type, whatever the bytes are. -/
theorem exists_cell (fits : field.Fits data.length) :
    ∃ value, cell field data = .ok value ∧ value.type = field.type := by
  obtain ⟨cut, found, width⟩ := exists_slot fits
  have word (number : field.type ≠ .chars) : ∃ w, Cell.Slot.word cut = .ok w :=
    exists_word (width.trans (fits.number number))
  unfold cell
  rw [found]
  change ∃ value, Fault.ofCell (Cell.Slot.decode field.type cut) = .ok value ∧ _
  cases kind : field.type with
  | chars => exact ⟨_, rfl, rfl⟩
  | int =>
    obtain ⟨w, held⟩ := word (by simp [kind])
    refine ⟨.int w.toInt32, ?_, rfl⟩
    rw [Cell.Slot.decode, held]
    rfl
  | float =>
    obtain ⟨w, held⟩ := word (by simp [kind])
    refine ⟨.float ⟨w⟩, ?_, rfl⟩
    rw [Cell.Slot.decode, held]
    rfl

theorem exists_setCell (fits : field.Fits data.length) (typed : value.type = field.type) :
    ∃ data', setCell field value data = .ok data' := by
  obtain ⟨cut, found, width⟩ := exists_slot fits
  have encoded : ∃ new, Cell.Slot.encode field.type value cut.length = .ok new := by
    cases value with
    | chars bytes =>
      rw [← typed]
      exact ⟨_, rfl⟩
    | int n =>
      have four : cut.length = 4 := width.trans (fits.number (by rw [← typed]; nofun))
      rw [← typed, four]
      exact ⟨_, rfl⟩
    | float x =>
      have four : cut.length = 4 := width.trans (fits.number (by rw [← typed]; nofun))
      rw [← typed, four]
      exact ⟨_, rfl⟩
  obtain ⟨new, encoded⟩ := encoded
  unfold setCell
  rw [found]
  change ∃ data', (Fault.ofCell (Cell.Slot.encode field.type value cut.length) >>= fun new =>
    pure (Bytes.splice data field.offset new)) = .ok data'
  rw [encoded]
  exact ⟨_, rfl⟩

theorem exists_coerceTo (compatible : field.type.isCompatible value.type = true) :
    ∃ coerced, coerceTo field value = .ok coerced ∧ coerced.type = field.type := by
  obtain ⟨coerced, done, typed⟩ := Cell.exists_coerce compatible
  refine ⟨coerced, ?_, typed⟩
  rw [coerceTo, done]

theorem coerceTo_eq_ok {coerced : Value} :
    coerceTo field value = .ok coerced ↔ value.coerce field.type = .ok coerced := by
  unfold coerceTo
  cases value.coerce field.type with
  | ok stored => simp only [Except.ok.injEq]
  | error cause => exact ⟨nofun, nofun⟩

theorem coerceTo_eq_error (failed : coerceTo field value = .error fault) :
    field.type.isCompatible value.type = false ∧
      fault = .fieldType field.name field.type value.type := by
  cases compatible : field.type.isCompatible value.type with
  | true =>
    obtain ⟨coerced, done, -⟩ := exists_coerceTo compatible
    rw [done] at failed
    cases failed
  | false =>
    rw [coerceTo, Cell.coerce_eq_error compatible] at failed
    cases failed
    exact ⟨rfl, rfl⟩

def BoundOperand.Fits (operand : BoundOperand) (size : Nat) : Prop :=
  match operand with
  | .field f => f.Fits size
  | .value _ => True

/-- The operands lie within rows of a length, and the comparator applies to them. -/
structure BoundCondition.Fits (condition : BoundCondition) (size : Nat) : Prop where
  left : condition.left.Fits size
  right : condition.right.Fits size
  admitted : condition.comparator.admits condition.left.type condition.right.type = true

theorem BoundOperand.exists_eval {operand : BoundOperand} (fits : operand.Fits data.length) :
    ∃ value, operand.eval data = .ok value ∧ value.type = operand.type := by
  cases operand with
  | field f => exact exists_cell fits
  | value v => exact ⟨v, rfl, rfl⟩

theorem Operand.fits_of_bind (fitted : ∀ f ∈ layout.fields, f.Fits layout.recordSize)
    {operand : Operand} {bound : BoundOperand} (binds : operand.bind layout = .ok bound) :
    bound.Fits layout.recordSize := by
  cases operand with
  | value v =>
    cases binds
    trivial
  | field qualifier name =>
    simp only [bind] at binds
    split at binds
    · cases binds
    · split at binds
      case h_1 f found =>
        cases binds
        exact fitted f (List.mem_of_find?_eq_some found)
      case h_2 => cases binds

theorem Condition.fits_of_bind (fitted : ∀ f ∈ layout.fields, f.Fits layout.recordSize)
    {condition : Condition} {bound : BoundCondition} (binds : condition.bind layout = .ok bound) :
    bound.Fits layout.recordSize := by
  obtain ⟨left, boundLeft, binds⟩ := exists_of_bind_eq_ok binds
  obtain ⟨right, boundRight, binds⟩ := exists_of_bind_eq_ok binds
  split at binds
  case isTrue admitted =>
    cases binds
    exact ⟨Operand.fits_of_bind fitted boundLeft, Operand.fits_of_bind fitted boundRight, admitted⟩
  case isFalse => cases binds

theorem RowFilter.fits_of_bind (fitted : ∀ f ∈ layout.fields, f.Fits layout.recordSize)
    {conditions : List Condition} {filter : RowFilter}
    (binds : RowFilter.bind layout conditions = .ok filter) :
    ∀ condition ∈ filter, condition.Fits layout.recordSize := by
  have each := mapM_eq_ok_iff.1 binds
  clear binds
  induction each with
  | nil => exact List.forall_mem_nil _
  | cons first _ ih =>
    exact List.forall_mem_cons.2 ⟨Condition.fits_of_bind fitted first, ih⟩

/-- Why a condition fails on row bytes: an operand is a float that is not a number. -/
def BoundCondition.Undecided (condition : BoundCondition) (data : Bytes) (fault : Fault) : Prop :=
  ∃ left right, condition.left.eval data = .ok left ∧ condition.right.eval data = .ok right ∧
    (left.IsNaN ∨ right.IsNaN) ∧ fault = .cell (.incomparable left.type right.type)

theorem BoundCondition.Undecided.exists_float {condition : BoundCondition}
    (undecided : condition.Undecided data fault) (fits : condition.Fits data.length) :
    condition.left.type = .float ∨ condition.right.type = .float := by
  obtain ⟨left, right, evalLeft, evalRight, nan, -⟩ := undecided
  obtain ⟨left', evalLeft', typedLeft⟩ := BoundOperand.exists_eval fits.left
  obtain ⟨right', evalRight', typedRight⟩ := BoundOperand.exists_eval fits.right
  cases evalLeft.symm.trans evalLeft'
  cases evalRight.symm.trans evalRight'
  rw [← typedLeft, ← typedRight]
  exact nan.imp Value.IsNaN.type Value.IsNaN.type

theorem Comparator.evaluate_eq {comparator : Comparator} (plain : comparator.isPattern = false)
    (left right : Value) :
    comparator.evaluate left right = (left.order right).map comparator.holds := by
  cases comparator <;> cases plain <;> rfl

theorem Comparator.evaluate_eq_error {comparator : Comparator} {left right : Value}
    {cause : CellFault} (admitted : comparator.admits left.type right.type = true)
    (failed : comparator.evaluate left right = .error cause) :
    (left.IsNaN ∨ right.IsNaN) ∧ cause = .incomparable left.type right.type := by
  cases pattern : comparator.isPattern with
  | true =>
    unfold admits at admitted
    rw [pattern, if_pos rfl, Bool.and_eq_true, decide_eq_true_eq, decide_eq_true_eq] at admitted
    obtain ⟨matches', matched⟩ := Cell.exists_isLike admitted.1 admitted.2
    cases comparator <;> cases pattern <;> simp only [evaluate, matched] at failed <;> cases failed
  | false =>
    unfold admits at admitted
    rw [pattern, if_neg Bool.false_ne_true] at admitted
    rw [evaluate_eq pattern] at failed
    cases order : left.order right with
    | ok o =>
      rw [order] at failed
      cases failed
    | error cause' =>
      rw [order] at failed
      cases failed
      exact Cell.order_eq_error admitted order

theorem BoundCondition.undecided_of_accepts {condition : BoundCondition}
    (fits : condition.Fits data.length) (failed : condition.accepts data = .error fault) :
    condition.Undecided data fault := by
  obtain ⟨left, evalLeft, typedLeft⟩ := BoundOperand.exists_eval fits.left
  obtain ⟨right, evalRight, typedRight⟩ := BoundOperand.exists_eval fits.right
  have admitted := fits.admitted
  rw [← typedLeft, ← typedRight] at admitted
  unfold accepts at failed
  rw [evalLeft, evalRight] at failed
  change Fault.ofCell (condition.comparator.evaluate left right) = .error fault at failed
  obtain ⟨cause, undecided, rfl⟩ := exists_of_ofCell_eq_error failed
  obtain ⟨nan, rfl⟩ := Comparator.evaluate_eq_error admitted undecided
  exact ⟨left, right, evalLeft, evalRight, nan, rfl⟩

theorem RowFilter.undecided_of_accepts {filter : RowFilter}
    (fits : ∀ condition ∈ filter, condition.Fits data.length)
    (failed : filter.accepts data = .error fault) :
    ∃ condition ∈ filter, condition.Undecided data fault := by
  induction filter with
  | nil => cases failed
  | cons condition rest ih =>
    obtain ⟨first, later⟩ := List.forall_mem_cons.1 fits
    rcases eq_error_of_bind_eq_error failed with failed | ⟨accepted, -, failed⟩
    · exact ⟨condition, List.mem_cons_self, BoundCondition.undecided_of_accepts first failed⟩
    · cases accepted with
      | false => cases failed
      | true =>
        obtain ⟨other, mem, undecided⟩ := ih later failed
        exact ⟨other, List.mem_cons_of_mem _ mem, undecided⟩

/-- What can go wrong with an expression on rows of a layout, by the form of the expression alone: an
unknown name, a byte string in arithmetic, a division, a missing operand, or a conversion. -/
inductive Expression.Raises (layout : Layout) : Expression → Fault → Prop
  | unknown {qualifier : Option String} {name : String}
      (unknown : qualifier.getD layout.name ≠ layout.name ∨ layout.field? name = none) :
      Raises layout (.field qualifier name) (.fieldNotFound (qualifier.getD layout.name) name)
  | negation {operand : Expression} :
      Raises layout (.negate operand) (.cell (.typeMismatch .float .chars))
  | negationFirst {operand ignored : Expression} :
      Raises layout (.negateFirst operand ignored) (.cell (.typeMismatch .float .chars))
  | operation {op : BinaryOp} {left right : Expression} :
      Raises layout (.binary op left right) (.cell (.typeMismatch .float .chars))
  | division {left right : Expression} : Raises layout (.binary .div left right) .divisionByZero
  | missing {op : BinaryOp} {left : Expression} :
      Raises layout (.incomplete op left) (.lapse .missingOperand)
  | conversion {operand : Expression} {target : CellType} :
      Raises layout (.cast operand target) (.cell (.invalidCast .chars target))
  | inNegated {operand : Expression} {fault : Fault} (inner : Raises layout operand fault) :
      Raises layout (.negate operand) fault
  | inNegatedFirst {operand ignored : Expression} {fault : Fault}
      (inner : Raises layout operand fault) : Raises layout (.negateFirst operand ignored) fault
  | inLeft {op : BinaryOp} {left right : Expression} {fault : Fault}
      (inner : Raises layout left fault) : Raises layout (.binary op left right) fault
  | inRight {op : BinaryOp} {left right : Expression} {fault : Fault}
      (inner : Raises layout right fault) : Raises layout (.binary op left right) fault
  | inIncomplete {op : BinaryOp} {left : Expression} {fault : Fault}
      (inner : Raises layout left fault) : Raises layout (.incomplete op left) fault
  | inConverted {operand : Expression} {target : CellType} {fault : Fault}
      (inner : Raises layout operand fault) : Raises layout (.cast operand target) fault

theorem Expression.Raises.kind {expression : Expression} (raises : expression.Raises layout fault) :
    fault.kind ≠ .recordNotFound ∧ fault.kind ≠ .lockConflict ∧
      (fault.kind = .internal → fault = .lapse .missingOperand) := by
  induction raises with
  | unknown | negation | negationFirst | operation | division | conversion =>
    exact ⟨nofun, nofun, nofun⟩
  | missing => exact ⟨nofun, nofun, fun _ => rfl⟩
  | inNegated _ ih | inNegatedFirst _ ih | inLeft _ ih | inRight _ ih | inIncomplete _ ih
  | inConverted _ ih => exact ih

theorem negated_eq_error (failed : negated value = .error fault) :
    fault = .cell (.typeMismatch .float .chars) := by
  cases value <;> cases failed
  rfl

theorem asFloat_eq_error (failed : asFloat value = .error fault) :
    fault = .cell (.typeMismatch .float .chars) := by
  cases value <;> cases failed
  rfl

theorem calculateFloat_eq_error {op : BinaryOp} {x y : Binary32}
    (failed : calculateFloat op x y = .error fault) : op = .div ∧ fault = .divisionByZero := by
  cases op with
  | add | sub | mul => cases failed
  | div =>
    simp only [calculateFloat] at failed
    split at failed
    · cases failed
      exact ⟨rfl, rfl⟩
    · cases failed

theorem calculate_eq_error {op : BinaryOp} {left right : Value}
    (failed : calculate op left right = .error fault) :
    fault = .cell (.typeMismatch .float .chars) ∨ op = .div ∧ fault = .divisionByZero := by
  unfold calculate at failed
  split at failed
  · cases failed
  · cases failed
  · cases failed
  · rcases eq_error_of_bind_eq_error failed with failed | ⟨x, -, failed⟩
    · exact Or.inl (asFloat_eq_error failed)
    · rcases eq_error_of_bind_eq_error failed with failed | ⟨y, -, failed⟩
      · exact Or.inl (asFloat_eq_error failed)
      · rcases eq_error_of_bind_eq_error failed with failed | ⟨z, -, failed⟩
        · exact Or.inr (calculateFloat_eq_error failed)
        · cases failed

theorem findField_of_named {record : Record} {qualifier : Option String} {name : String}
    (own : qualifier.getD layout.name = layout.name) (named : layout.field? name = some field) :
    findField layout record qualifier name = record.get field := by
  simp only [findField]
  rw [if_neg (not_not.2 own), named]

theorem raises_of_findField {record : Record}
    (fitted : ∀ f ∈ layout.fields, f.Fits record.data.length) {qualifier : Option String} {name : String}
    (failed : findField layout record qualifier name = .error fault) :
    Expression.Raises layout (.field qualifier name) fault := by
  simp only [findField] at failed
  split at failed
  case isTrue foreign =>
    cases failed
    exact .unknown (Or.inl foreign)
  case isFalse own =>
    split at failed
    case h_1 field found =>
      obtain ⟨value, held, -⟩ := exists_cell (fitted field (List.mem_of_find?_eq_some found))
      rw [Record.get, held] at failed
      cases failed
    case h_2 absent =>
      cases failed
      have same : qualifier.getD layout.name = layout.name := Decidable.not_not.1 own
      exact same ▸ .unknown (Or.inr absent)

theorem Expression.raises_of_eval {record : Record}
    (fitted : ∀ f ∈ layout.fields, f.Fits record.data.length) {expression : Expression}
    (failed : expression.eval (findField layout record) = .error fault) :
    expression.Raises layout fault := by
  induction expression with
  | field qualifier name => exact raises_of_findField fitted failed
  | literal value => cases failed
  | negate operand ih =>
    rcases eq_error_of_bind_eq_error failed with failed | ⟨value, -, failed⟩
    · exact .inNegated (ih failed)
    · rw [negated_eq_error failed]
      exact .negation
  | negateFirst operand ignored ih =>
    rcases eq_error_of_bind_eq_error failed with failed | ⟨value, -, failed⟩
    · exact .inNegatedFirst (ih failed)
    · rw [negated_eq_error failed]
      exact .negationFirst
  | binary op left right ihLeft ihRight =>
    rcases eq_error_of_bind_eq_error failed with failed | ⟨l, -, failed⟩
    · exact .inLeft (ihLeft failed)
    · rcases eq_error_of_bind_eq_error failed with failed | ⟨r, -, failed⟩
      · exact .inRight (ihRight failed)
      · rcases calculate_eq_error failed with rfl | ⟨rfl, rfl⟩
        · exact .operation
        · exact .division
  | incomplete op left ih =>
    rcases eq_error_of_bind_eq_error failed with failed | ⟨value, -, failed⟩
    · exact .inIncomplete (ih failed)
    · cases failed
      exact .missing
  | cast operand target ih =>
    rcases eq_error_of_bind_eq_error failed with failed | ⟨value, -, failed⟩
    · exact .inConverted (ih failed)
    · obtain ⟨cause, unconverted, rfl⟩ := exists_of_ofCell_eq_error failed
      rw [Cell.convert_eq_error unconverted]
      exact .conversion

end Row

end RowStore
