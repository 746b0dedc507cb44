/- RowStore/Proofs/Row/Binding
   role: theorems
   digest: Which conditions can be bound, and that binding refuses what could never be evaluated. -/

import RowStore.Proofs.Row.Order

set_option autoImplicit false
set_option relaxedAutoImplicit false

namespace RowStore.Row

open RowStore.Cell (CellFault CellType Value)
open RowStore.Schema (Layout RowField TableSpec)
open RowStore.Text (Bytes)

variable {layout : Layout} {spec : TableSpec} {id : Nat} {operand : Operand} {bound : BoundOperand}
  {comparator : Comparator} {condition : Condition} {conditions : List Condition}
  {filter : RowFilter} {fault : Fault} {data : Bytes} {a b : Value}

/-- An operand stands for itself if it is a value, and for a field of the layout if it has the name
of the field and no qualifier or that of the table. -/
inductive Operand.StandsFor (layout : Layout) : Operand → BoundOperand → Prop
  | value (v : Value) : StandsFor layout (.value v) (.value v)
  | field {qualifier : Option String} {f : RowField}
      (own : ∀ table ∈ qualifier, table = layout.name) (mem : f ∈ layout.fields) :
      StandsFor layout (.field qualifier f.name) (.field f)

theorem getD_eq_iff {qualifier : Option String} {name : String} :
    qualifier.getD name = name ↔ ∀ table ∈ qualifier, table = name := by
  cases qualifier <;> simp

namespace Operand

theorem bind_eq_ok_iff (s : spec.Accepted) :
    operand.bind (spec.layout id) = .ok bound ↔ operand.StandsFor (spec.layout id) bound := by
  constructor
  · intro binds
    cases operand with
    | value v =>
      cases binds
      exact .value v
    | field qualifier name =>
      simp only [Operand.bind] at binds
      split at binds
      case isTrue => cases binds
      case isFalse own =>
        have own := getD_eq_iff.1 (Decidable.not_not.1 own)
        split at binds
        case h_1 f found =>
          cases binds
          obtain ⟨mem, rfl⟩ := s.field?_iff.1 found
          exact .field own mem
        case h_2 => cases binds
  · intro stands
    cases stands with
    | value v => rfl
    | @field qualifier f own mem =>
      simp only [Operand.bind]
      rw [if_neg (not_not_intro (getD_eq_iff.2 own)), s.field?_iff.2 ⟨mem, rfl⟩]

theorem eq_of_bind_eq_error (failed : operand.bind layout = .error fault) :
    ∃ qualifier name, operand = .field qualifier name ∧
      fault = .fieldNotFound (qualifier.getD layout.name) name := by
  cases operand with
  | value v => cases failed
  | field qualifier name =>
    refine ⟨qualifier, name, rfl, ?_⟩
    simp only [Operand.bind] at failed
    split at failed
    case isTrue =>
      cases failed
      rfl
    case isFalse own =>
      split at failed
      case h_1 => cases failed
      case h_2 =>
        cases failed
        rw [Decidable.not_not.1 own]

theorem bind_eq_error_iff (s : spec.Accepted) :
    operand.bind (spec.layout id) = .error fault ↔
      (∀ bound, ¬ operand.StandsFor (spec.layout id) bound) ∧
        ∃ qualifier name, operand = .field qualifier name ∧
          fault = .fieldNotFound (qualifier.getD (spec.layout id).name) name := by
  constructor
  · intro failed
    refine ⟨fun bound stands => ?_, eq_of_bind_eq_error failed⟩
    rw [(bind_eq_ok_iff s).2 stands] at failed
    cases failed
  · rintro ⟨nothing, qualifier, name, rfl, rfl⟩
    cases binds : (Operand.field qualifier name).bind (spec.layout id) with
    | ok bound => exact absurd ((bind_eq_ok_iff s).1 binds) (nothing bound)
    | error fault =>
      obtain ⟨qualifier', name', same, rfl⟩ := eq_of_bind_eq_error binds
      cases same
      rfl

end Operand

/-- The comparator applies to values of the two types: to byte strings, and to numbers unless it
matches a pattern. -/
def Comparator.Applies (comparator : Comparator) (left right : CellType) : Prop :=
  left = .chars ∧ right = .chars ∨
    comparator ≠ .like ∧ comparator ≠ .notLike ∧ left.isNumeric = true ∧ right.isNumeric = true

namespace Comparator

theorem isPattern_iff :
    comparator.isPattern = true ↔ comparator = .like ∨ comparator = .notLike := by
  cases comparator <;> simp [isPattern]

theorem isPattern_eq_false_iff :
    comparator.isPattern = false ↔ comparator ≠ .like ∧ comparator ≠ .notLike := by
  rw [← Bool.not_eq_true, isPattern_iff, not_or]

theorem admits_iff {left right : CellType} :
    comparator.admits left right = true ↔ comparator.Applies left right := by
  cases comparator <;> cases left <;> cases right <;>
    simp [admits, Applies, isPattern, CellType.isCompatible, CellType.isNumeric]

theorem applies_of_comparable (plain : comparator.isPattern = false)
    (comparable : a.Comparable b) : comparator.Applies a.type b.type := by
  refine comparable.imp id fun numbers => ⟨?_, ?_, numbers.1.1, numbers.2.1⟩
  · rintro rfl
    cases plain
  · rintro rfl
    cases plain

theorem isLike_of_not_chars (apart : ¬ (a.type = .chars ∧ b.type = .chars)) :
    a.isLike b = .error (.incomparable a.type b.type) := by
  cases a with
  | int n | float x => rfl
  | chars s =>
    cases b with
    | int n | float x => rfl
    | chars p => exact absurd ⟨rfl, rfl⟩ apart

/-- A comparator that does not apply to the types of two values has no answer for them. -/
theorem evaluate_of_not_applies (apart : ¬ comparator.Applies a.type b.type) :
    comparator.evaluate a b = .error (.incomparable a.type b.type) := by
  cases pattern : comparator.isPattern with
  | false =>
    rw [evaluate_eq pattern,
      Value.order_of_not_comparable (mt (applies_of_comparable pattern) apart)]
    rfl
  | true =>
    have unmatched := isLike_of_not_chars (mt Or.inl apart)
    cases comparator <;> cases pattern <;> rw [evaluate, unmatched]
    rfl

/-- A comparator that applies has an answer unless an operand is not a number. -/
theorem evaluate_eq_error_iff (applies : comparator.Applies a.type b.type) {cause : CellFault} :
    comparator.evaluate a b = .error cause ↔
      (a.IsNaN ∨ b.IsNaN) ∧ cause = .incomparable a.type b.type := by
  refine ⟨evaluate_eq_error (admits_iff.2 applies), ?_⟩
  rintro ⟨nan, rfl⟩
  have apart := Value.not_comparable_of_nan nan
  rcases applies with chars | ⟨notLike, notNotLike, -⟩
  · exact absurd (Or.inl chars) apart
  · rw [evaluate_eq (isPattern_eq_false_iff.2 ⟨notLike, notNotLike⟩),
      Value.order_of_not_comparable apart]
    rfl

end Comparator

namespace Condition

def Fitting (layout : Layout) (condition : Condition) : Prop :=
  ∃ left right, condition.left.StandsFor layout left ∧ condition.right.StandsFor layout right ∧
    condition.comparator.Applies left.type right.type

/-- Why a condition is refused: a name on the left or else on the right stands for nothing, or the
comparator does not apply to the types. A pattern expects byte strings, and the first type that is
none is reported; the other comparators expect the type on the left. The field named is the left one
or else the right one, if there is any. -/
inductive Refused (layout : Layout) (condition : Condition) : Fault → Prop
  | unknownLeft {qualifier : Option String} {name : String}
      (written : condition.left = .field qualifier name)
      (unknown : ∀ left, ¬ condition.left.StandsFor layout left) :
      Refused layout condition (.fieldNotFound (qualifier.getD layout.name) name)
  | unknownRight {left : BoundOperand} {qualifier : Option String} {name : String}
      (known : condition.left.StandsFor layout left)
      (written : condition.right = .field qualifier name)
      (unknown : ∀ right, ¬ condition.right.StandsFor layout right) :
      Refused layout condition (.fieldNotFound (qualifier.getD layout.name) name)
  | unmatchable {left right : BoundOperand}
      (known : condition.left.StandsFor layout left)
      (known' : condition.right.StandsFor layout right)
      (pattern : condition.comparator = .like ∨ condition.comparator = .notLike)
      (apart : ¬ condition.comparator.Applies left.type right.type) :
      Refused layout condition (.fieldType ((left.fieldName?.or right.fieldName?).getD "") .chars
        (if left.type = .chars then right.type else left.type))
  | unordered {left right : BoundOperand}
      (known : condition.left.StandsFor layout left)
      (known' : condition.right.StandsFor layout right)
      (plain : condition.comparator ≠ .like ∧ condition.comparator ≠ .notLike)
      (apart : ¬ condition.comparator.Applies left.type right.type) :
      Refused layout condition (.fieldType ((left.fieldName?.or right.fieldName?).getD "") left.type
        right.type)

theorem mismatch_of_pattern {left right : BoundOperand} (pattern : comparator.isPattern = true) :
    mismatch left comparator right =
      .fieldType ((left.fieldName?.or right.fieldName?).getD "") .chars
        (if left.type = .chars then right.type else left.type) := by
  simp [mismatch, pattern]

theorem mismatch_of_plain {left right : BoundOperand} (plain : comparator.isPattern = false) :
    mismatch left comparator right =
      .fieldType ((left.fieldName?.or right.fieldName?).getD "") left.type right.type := by
  simp [mismatch, plain]

theorem bind_of_standsFor (s : spec.Accepted) {left right : BoundOperand}
    (standsLeft : condition.left.StandsFor (spec.layout id) left)
    (standsRight : condition.right.StandsFor (spec.layout id) right) :
    condition.bind (spec.layout id) =
      if condition.comparator.admits left.type right.type then
        .ok ⟨left, condition.comparator, right⟩
      else .error (mismatch left condition.comparator right) := by
  unfold Condition.bind
  rw [(Operand.bind_eq_ok_iff s).2 standsLeft, (Operand.bind_eq_ok_iff s).2 standsRight]
  rfl

theorem bind_of_not_applies (s : spec.Accepted) {left right : BoundOperand}
    (standsLeft : condition.left.StandsFor (spec.layout id) left)
    (standsRight : condition.right.StandsFor (spec.layout id) right)
    (apart : ¬ condition.comparator.Applies left.type right.type) :
    condition.bind (spec.layout id) = .error (mismatch left condition.comparator right) :=
  (bind_of_standsFor s standsLeft standsRight).trans (if_neg (mt Comparator.admits_iff.1 apart))

theorem bind_eq_ok_iff (s : spec.Accepted) {made : BoundCondition} :
    condition.bind (spec.layout id) = .ok made ↔
      condition.left.StandsFor (spec.layout id) made.left ∧
        condition.right.StandsFor (spec.layout id) made.right ∧
        made.comparator = condition.comparator ∧
        condition.comparator.Applies made.left.type made.right.type := by
  constructor
  · intro binds
    obtain ⟨left, boundLeft, binds⟩ := exists_of_bind_eq_ok binds
    obtain ⟨right, boundRight, binds⟩ := exists_of_bind_eq_ok binds
    split at binds
    case isTrue admitted =>
      cases binds
      exact ⟨(Operand.bind_eq_ok_iff s).1 boundLeft, (Operand.bind_eq_ok_iff s).1 boundRight, rfl,
        Comparator.admits_iff.1 admitted⟩
    case isFalse => cases binds
  · obtain ⟨left, comparator, right⟩ := made
    rintro ⟨standsLeft, standsRight, rfl, applies⟩
    rw [bind_of_standsFor s standsLeft standsRight, if_pos (Comparator.admits_iff.2 applies)]

theorem exists_bind_iff (s : spec.Accepted) :
    (∃ made, condition.bind (spec.layout id) = .ok made) ↔ condition.Fitting (spec.layout id) := by
  simp only [bind_eq_ok_iff s]
  constructor
  · rintro ⟨made, left, right, -, applies⟩
    exact ⟨made.left, made.right, left, right, applies⟩
  · rintro ⟨left, right, standsLeft, standsRight, applies⟩
    exact ⟨⟨left, condition.comparator, right⟩, standsLeft, standsRight, rfl, applies⟩

theorem refused_of_mismatch {left right : BoundOperand}
    (known : condition.left.StandsFor layout left) (known' : condition.right.StandsFor layout right)
    (apart : ¬ condition.comparator.Applies left.type right.type) :
    condition.Refused layout (mismatch left condition.comparator right) := by
  cases pattern : condition.comparator.isPattern with
  | true =>
    rw [mismatch_of_pattern pattern]
    exact .unmatchable known known' (Comparator.isPattern_iff.1 pattern) apart
  | false =>
    rw [mismatch_of_plain pattern]
    exact .unordered known known' (Comparator.isPattern_eq_false_iff.1 pattern) apart

theorem refused_of_bind (s : spec.Accepted)
    (failed : condition.bind (spec.layout id) = .error fault) :
    condition.Refused (spec.layout id) fault := by
  rcases eq_error_of_bind_eq_error failed with failed | ⟨left, boundLeft, failed⟩
  · obtain ⟨unknown, qualifier, name, written, rfl⟩ := (Operand.bind_eq_error_iff s).1 failed
    exact .unknownLeft written unknown
  have standsLeft := (Operand.bind_eq_ok_iff s).1 boundLeft
  rcases eq_error_of_bind_eq_error failed with failed | ⟨right, boundRight, failed⟩
  · obtain ⟨unknown, qualifier, name, written, rfl⟩ := (Operand.bind_eq_error_iff s).1 failed
    exact .unknownRight standsLeft written unknown
  have standsRight := (Operand.bind_eq_ok_iff s).1 boundRight
  split at failed
  case isTrue => cases failed
  case isFalse refused =>
    cases failed
    exact refused_of_mismatch standsLeft standsRight (mt Comparator.admits_iff.2 refused)

theorem bind_of_refused (s : spec.Accepted) (refused : condition.Refused (spec.layout id) fault) :
    condition.bind (spec.layout id) = .error fault := by
  cases refused with
  | unknownLeft written unknown =>
    have failed := (Operand.bind_eq_error_iff s).2 ⟨unknown, _, _, written, rfl⟩
    unfold Condition.bind
    rw [failed]
    rfl
  | unknownRight known written unknown =>
    have failed := (Operand.bind_eq_error_iff s).2 ⟨unknown, _, _, written, rfl⟩
    unfold Condition.bind
    rw [(Operand.bind_eq_ok_iff s).2 known, failed]
    rfl
  | unmatchable known known' pattern apart =>
    rw [bind_of_not_applies s known known' apart,
      mismatch_of_pattern (Comparator.isPattern_iff.2 pattern)]
  | unordered known known' plain apart =>
    rw [bind_of_not_applies s known known' apart,
      mismatch_of_plain (Comparator.isPattern_eq_false_iff.2 plain)]

theorem bind_eq_error_iff (s : spec.Accepted) :
    condition.bind (spec.layout id) = .error fault ↔ condition.Refused (spec.layout id) fault :=
  ⟨refused_of_bind s, bind_of_refused s⟩

/-- A bound condition has an answer on every row of the layout's length, that of its comparator for
the values of the operands, and only a float that is not a number leaves it without. -/
structure BoundTo (layout : Layout) (condition : Condition) (made : BoundCondition) : Prop where
  left : condition.left.StandsFor layout made.left
  right : condition.right.StandsFor layout made.right
  answered : ∀ data : Bytes, data.length = layout.recordSize → ∃ a b,
    made.left.eval data = .ok a ∧ made.right.eval data = .ok b ∧
    made.accepts data = Fault.ofCell (condition.comparator.evaluate a b) ∧
    ∀ fault, made.accepts data = .error fault ↔
      (a.IsNaN ∨ b.IsNaN) ∧ fault = .cell (.incomparable a.type b.type)

theorem boundTo_of_bind (s : spec.Accepted) {made : BoundCondition}
    (binds : condition.bind (spec.layout id) = .ok made) :
    condition.BoundTo (spec.layout id) made := by
  have fits := Condition.fits_of_bind (fun f mem => s.fits mem) binds
  obtain ⟨left, right, same, applies⟩ := (bind_eq_ok_iff s).1 binds
  refine ⟨left, right, fun data full => ?_⟩
  rw [← full] at fits
  obtain ⟨a, evalLeft, typedLeft⟩ := BoundOperand.exists_eval fits.left
  obtain ⟨b, evalRight, typedRight⟩ := BoundOperand.exists_eval fits.right
  rw [← typedLeft, ← typedRight] at applies
  have answer : made.accepts data = Fault.ofCell (condition.comparator.evaluate a b) := by
    unfold BoundCondition.accepts
    rw [evalLeft, evalRight, same]
    rfl
  refine ⟨a, b, evalLeft, evalRight, answer, fun fault => ?_⟩
  rw [answer]
  constructor
  · intro failed
    obtain ⟨cause, undecided, rfl⟩ := exists_of_ofCell_eq_error failed
    obtain ⟨nan, rfl⟩ := (Comparator.evaluate_eq_error_iff applies).1 undecided
    exact ⟨nan, rfl⟩
  · rintro ⟨nan, rfl⟩
    rw [(Comparator.evaluate_eq_error_iff applies).2 ⟨nan, rfl⟩]
    rfl

theorem evaluate_of_refused {name : String} {expected actual : CellType}
    (refused : condition.Refused layout (.fieldType name expected actual)) :
    ∃ left right, condition.left.StandsFor layout left ∧ condition.right.StandsFor layout right ∧
      ∀ a b : Value, a.type = left.type → b.type = right.type →
        condition.comparator.evaluate a b = .error (.incomparable left.type right.type) := by
  cases refused with
  | @unmatchable left right known known' _ apart | @unordered left right known known' _ apart =>
    refine ⟨left, right, known, known', fun a b typed typed' => ?_⟩
    rw [← typed, ← typed'] at apart ⊢
    exact Comparator.evaluate_of_not_applies apart

end Condition

namespace RowFilter

def isMet : Except Fault Bool → Bool
  | .ok met => met
  | .error _ => false

/-- Answers taken together from left to right. The first one that does not say that a condition is
met decides, whether it says that it is not or is a fault. -/
def conjunction (answers : List (Except Fault Bool)) : Except Fault Bool :=
  (answers.find? fun answer => !isMet answer).getD (.ok true)

theorem accepts_eq (filter : RowFilter) (data : Bytes) :
    filter.accepts data = conjunction (filter.map fun condition => condition.accepts data) := by
  induction filter with
  | nil => rfl
  | cons condition rest ih =>
    rw [accepts, conjunction, List.map_cons, List.find?_cons]
    cases condition.accepts data with
    | error fault => rfl
    | ok met =>
      cases met with
      | false => rfl
      | true => exact ih

end RowFilter

/-- Binding conditions agrees with evaluating them. Conditions are bound just if each of them fits
the layout, and else the first that does not gives the fault. On rows of the layout's length the
bound conditions have the conjunction of their answers from left to right, and one of them fails
only where it compares a float that is not a number. A condition refused for the types of its
operands has no answer for any values of these types. -/
theorem binding_agrees_with_evaluation {spec : TableSpec} {id : Nat} {layout : Layout}
    (accepted : Layout.ofSpec id spec = .ok layout) (conditions : List Condition) :
    ((∃ filter, RowFilter.bind layout conditions = .ok filter) ↔
      ∀ condition ∈ conditions, condition.Fitting layout) ∧
    (∀ fault, RowFilter.bind layout conditions = .error fault ↔
      ∃ before condition after, conditions = before ++ condition :: after ∧
        (∀ earlier ∈ before, earlier.Fitting layout) ∧ condition.Refused layout fault) ∧
    (∀ filter, RowFilter.bind layout conditions = .ok filter →
      List.Forall₂ (Condition.BoundTo layout) conditions filter ∧
      ∀ data : Bytes, data.length = layout.recordSize →
        filter.accepts data =
          RowFilter.conjunction (filter.map fun condition => condition.accepts data)) ∧
    ∀ (condition : Condition) name expected actual,
      condition.bind layout = .error (.fieldType name expected actual) →
      ∃ left right, condition.left.StandsFor layout left ∧ condition.right.StandsFor layout right ∧
        ∀ a b : Value, a.type = left.type → b.type = right.type →
          condition.comparator.evaluate a b = .error (.incomparable left.type right.type) := by
  obtain ⟨s, rfl⟩ := Schema.ofSpec_eq_ok.1 accepted
  refine ⟨?_, fun fault => ?_, fun filter binds => ⟨?_, fun data _ => filter.accepts_eq data⟩, ?_⟩
  · simp only [RowFilter.bind, exists_mapM_iff, Condition.exists_bind_iff s]
  · simp only [RowFilter.bind, mapM_eq_error_iff, Condition.exists_bind_iff s,
      Condition.bind_eq_error_iff s]
  · exact (mapM_eq_ok_iff.1 binds).imp fun condition made => Condition.boundTo_of_bind s
  · intro condition name expected actual failed
    exact Condition.evaluate_of_refused ((Condition.bind_eq_error_iff s).1 failed)

def measures : Layout := ⟨1, "measures", [⟨"n", .int, 0, 4⟩, ⟨"x", .float, 4, 4⟩]⟩

def below : Condition := ⟨.field none "n", .lt, .field (some "measures") "x"⟩

theorem binding_agrees_with_evaluation_below :
    Layout.ofSpec 1 ⟨"measures", [⟨"n", .int, 4⟩, ⟨"x", .float, 4⟩]⟩ = .ok measures ∧
      (∃ filter, RowFilter.bind measures [below] = .ok filter ∧
        List.Forall₂ (Condition.BoundTo measures) [below] filter) ∧
      RowFilter.bind measures [below, { below with comparator := .like }] =
        .error (.fieldType "n" .chars .int) ∧
      ∃ left right, below.left.StandsFor measures left ∧ below.right.StandsFor measures right ∧
        ∀ a b : Value, a.type = left.type → b.type = right.type →
          Comparator.evaluate .like a b = .error (.incomparable left.type right.type) := by
  have accepted :
      Layout.ofSpec 1 ⟨"measures", [⟨"n", .int, 4⟩, ⟨"x", .float, 4⟩]⟩ = .ok measures := by rfl
  obtain ⟨-, -, bound, refused⟩ := binding_agrees_with_evaluation accepted [below]
  have binds : RowFilter.bind measures [below] =
      .ok [⟨.field ⟨"n", .int, 0, 4⟩, .lt, .field ⟨"x", .float, 4, 4⟩⟩] := by rfl
  exact ⟨accepted, ⟨_, binds, (bound _ binds).1⟩, by rfl,
    refused { below with comparator := .like } "n" .chars .int (by rfl)⟩

end RowStore.Row
