/- RowStore/Proofs/Row/Interchange
   role: theorems
   digest: Byte strings of one content are interchangeable, except where numbers are read from them. -/

import RowStore.Proofs.Number.Reading
import RowStore.Proofs.Row.Slots
import RowStore.Proofs.Text.Content
import RowStore.Proofs.Text.Utf8
import RowStore.Row.Cells

set_option autoImplicit false
set_option relaxedAutoImplicit false

namespace RowStore

open RowStore.Cell (CellType Value)
open RowStore.Row (BoundCondition BoundOperand Cells Comparator Expression Record cell findField
  setCell)
open RowStore.Schema (Layout RowField)
open RowStore.Text (Bytes)
open RowStore.Text.Bytes (content content_content content_eq_self_iff zero_not_mem_content)

variable {a b : Bytes} {target : CellType}

namespace Cell

namespace Value

theorem order_of_content (same : content a = content b) (c : Value) :
    (chars a).order c = (chars b).order c ∧ c.order (chars a) = c.order (chars b) := by
  cases c with
  | int n => exact ⟨rfl, rfl⟩
  | float x => exact ⟨rfl, rfl⟩
  | chars bytes => simp only [order, same, and_self]

theorem isLike_of_content (same : content a = content b) (c : Value) :
    (chars a).isLike c = (chars b).isLike c ∧ c.isLike (chars a) = c.isLike (chars b) := by
  cases c with
  | int n => exact ⟨rfl, rfl⟩
  | float x => exact ⟨rfl, rfl⟩
  | chars bytes => simp only [isLike, same, and_self]

theorem convert_of_zero_mem (numeric : target.isNumeric = true) (zero : 0 ∈ a) :
    (chars a).convert target = .error (.invalidCast .chars target) := by
  have mem {text : List Char} (trimmed : trimmed? a = some text) : '\x00' ∈ text := by
    obtain ⟨decoded, read, rfl⟩ := Option.map_eq_some_iff.1 trimmed
    exact Text.Blank.mem_trim (Text.Utf8.zero_mem_of_decode? read zero) (by decide)
  have stray : ¬ Number.Reading.IsNumeral '\x00' := by decide
  cases target with
  | chars => cases numeric
  | int =>
    simp only [convert]
    split
    case h_1 n read =>
      obtain ⟨text, trimmed, read⟩ := Option.bind_eq_some_iff.1 read
      exact absurd (Number.Reading.isNumeral_of_int32? read (mem trimmed)) stray
    case h_2 => rfl
  | float =>
    simp only [convert]
    split
    case h_1 x read =>
      obtain ⟨text, trimmed, read⟩ := Option.bind_eq_some_iff.1 read
      exact absurd (Number.Reading.isNumeral_of_binary32? read (mem trimmed)) stray
    case h_2 => rfl

/-- A conversion to a number tells byte strings of one content apart just if one of them has a zero
byte, the other has none, and the content is a number. -/
theorem convert_eq_iff (numeric : target.isNumeric = true) (same : content a = content b) :
    (chars a).convert target = (chars b).convert target ↔
      ((0 ∈ a ↔ 0 ∈ b) ∨
        (chars (content a)).convert target = .error (.invalidCast .chars target)) := by
  by_cases zeroA : 0 ∈ a
  · rw [convert_of_zero_mem numeric zeroA]
    by_cases zeroB : 0 ∈ b
    · exact iff_of_true (convert_of_zero_mem numeric zeroB).symm (.inl (iff_of_true zeroA zeroB))
    · rw [same, content_eq_self_iff.2 zeroB]
      constructor
      · intro failed
        exact .inr failed.symm
      · rintro (both | failed)
        · exact absurd (both.1 zeroA) zeroB
        · exact failed.symm
  · rw [content_eq_self_iff.2 zeroA] at same ⊢
    by_cases zeroB : 0 ∈ b
    · rw [convert_of_zero_mem numeric zeroB]
      constructor
      · exact .inr
      · rintro (both | failed)
        · exact absurd (both.2 zeroB) zeroA
        · exact failed
    · rw [same, content_eq_self_iff.2 zeroB]
      exact iff_of_true rfl (.inl Iff.rfl)

end Value

/-- What a slot gives back of a byte string depends on the content alone. -/
theorem Slot.decode_encode_of_content (same : content a = content b) (type : CellType) (width : Nat) :
    (encode type (.chars a) width).bind (decode type) =
      (encode type (.chars b) width).bind (decode type) := by
  cases type with
  | int => rfl
  | float => rfl
  | chars =>
    have read (bytes : Bytes) : decode .chars (fitChars bytes width) =
        .ok (Value.stored width (.chars bytes)) := decode_encode rfl
    change decode .chars (fitChars a width) = decode .chars (fitChars b width)
    rw [read, read, Value.stored, Value.stored, same]

end Cell

namespace Row

variable {field : RowField} {data data' : Bytes}

theorem Comparator.evaluate_of_content (same : content a = content b) (comparator : Comparator)
    (c : Value) :
    comparator.evaluate (.chars a) c = comparator.evaluate (.chars b) c ∧
      comparator.evaluate c (.chars a) = comparator.evaluate c (.chars b) := by
  obtain ⟨orderLeft, orderRight⟩ := Value.order_of_content same c
  obtain ⟨likeLeft, likeRight⟩ := Value.isLike_of_content same c
  unfold evaluate
  rw [orderLeft, orderRight, likeLeft, likeRight]
  exact ⟨rfl, rfl⟩

theorem cell_setCell_chars (written : setCell field (.chars a) data = .ok data')
    (wide : (content a).length < field.width) : cell field data' = .ok (.chars (content a)) := by
  obtain ⟨new, encoded, found⟩ := slot_setCell written
  have whole : (content a).take (field.width - 1) = content a :=
    List.take_of_length_le (Nat.le_sub_one_of_lt wide)
  rw [cell_of_slot found, Cell.Slot.decode_encode encoded, Value.stored, whole]
  rfl

/-- In a condition a literal can stand for a column that has its content. -/
theorem accepts_of_cell (held : cell field data = .ok (.chars (content a)))
    (comparator : Comparator) (other : BoundOperand) :
    BoundCondition.accepts ⟨.field field, comparator, other⟩ data =
        BoundCondition.accepts ⟨.value (.chars a), comparator, other⟩ data ∧
      BoundCondition.accepts ⟨other, comparator, .field field⟩ data =
        BoundCondition.accepts ⟨other, comparator, .value (.chars a)⟩ data := by
  have read : (BoundOperand.field field).eval data = .ok (.chars (content a)) := held
  have evaluated (c : Value) := comparator.evaluate_of_content (content_content a) c
  unfold BoundCondition.accepts
  rw [read]
  constructor
  · change (other.eval data >>= fun c =>
        Fault.ofCell (comparator.evaluate (.chars (content a)) c)) =
      other.eval data >>= fun c => Fault.ofCell (comparator.evaluate (.chars a) c)
    simp only [(evaluated _).1]
  · change (other.eval data >>= fun c =>
        Fault.ofCell (comparator.evaluate c (.chars (content a)))) =
      other.eval data >>= fun c => Fault.ofCell (comparator.evaluate c (.chars a))
    simp only [(evaluated _).2]

end Row

/-- Byte strings of one content cannot be told apart by order, by patterns, or by what a slot gives
back of them, and a literal can stand in every condition for the column that it was stored into, if
that is wide enough for its content. Only conversions to a number see more than the content: a byte
string with a zero byte is no number, so two byte strings of one content convert alike, and a column
converts like the literal stored into it, just where both have a zero byte, or neither, or where the
content is no number anyway. -/
theorem chars_interchangeable (same : content a = content b) :
    (∀ c : Value,
      (Value.chars a).order c = (Value.chars b).order c ∧
      c.order (.chars a) = c.order (.chars b) ∧
      (Value.chars a).isLike c = (Value.chars b).isLike c ∧
      c.isLike (.chars a) = c.isLike (.chars b)) ∧
    (∀ type width, (Cell.Slot.encode type (.chars a) width).bind (Cell.Slot.decode type) =
      (Cell.Slot.encode type (.chars b) width).bind (Cell.Slot.decode type)) ∧
    (∀ target, target.isNumeric = true →
      (0 ∈ a → (Value.chars a).convert target = .error (.invalidCast .chars target)) ∧
      ((Value.chars a).convert target = (Value.chars b).convert target ↔
        ((0 ∈ a ↔ 0 ∈ b) ∨
          (Value.chars (content a)).convert target = .error (.invalidCast .chars target)))) ∧
    ∀ (field : RowField) (data data' : Bytes), setCell field (.chars a) data = .ok data' →
      (content a).length < field.width →
      (∀ comparator other,
        BoundCondition.accepts ⟨.field field, comparator, other⟩ data' =
          BoundCondition.accepts ⟨.value (.chars a), comparator, other⟩ data' ∧
        BoundCondition.accepts ⟨other, comparator, .field field⟩ data' =
          BoundCondition.accepts ⟨other, comparator, .value (.chars a)⟩ data') ∧
      ∀ (layout : Layout) id target, layout.field? field.name = some field →
        target.isNumeric = true →
        (Expression.eval (Cells.row layout ⟨id, data'⟩).find
            (.cast (.field none field.name) target) =
          Expression.eval (Cells.row layout ⟨id, data'⟩).find (.cast (.literal (.chars a)) target) ↔
          (0 ∉ a ∨
            (Value.chars (content a)).convert target = .error (.invalidCast .chars target))) := by
  refine ⟨fun c => ?_, Cell.Slot.decode_encode_of_content same, fun target numeric => ?_, ?_⟩
  · obtain ⟨orderLeft, orderRight⟩ := Value.order_of_content same c
    exact ⟨orderLeft, orderRight, Value.isLike_of_content same c⟩
  · exact ⟨Value.convert_of_zero_mem numeric, Value.convert_eq_iff numeric same⟩
  · intro field data data' written wide
    have held := Row.cell_setCell_chars written wide
    refine ⟨Row.accepts_of_cell held, fun layout id target named numeric => ?_⟩
    have column : Expression.eval (Cells.row layout ⟨id, data'⟩).find
        (.cast (.field none field.name) target) =
          Fault.ofCell ((Value.chars (content a)).convert target) := by
      have found : findField layout ⟨id, data'⟩ none field.name = .ok (.chars (content a)) :=
        (Row.findField_of_named rfl named).trans held
      rw [Expression.eval, Expression.eval, Cells.find, found]
      rfl
    have literal : Expression.eval (Cells.row layout ⟨id, data'⟩).find
        (.cast (.literal (.chars a)) target) = Fault.ofCell ((Value.chars a).convert target) := rfl
    have alike := Value.convert_eq_iff numeric (content_content a)
    rw [content_content, iff_false_left (zero_not_mem_content a)] at alike
    rw [column, literal, ofCell_inj]
    exact alike

theorem chars_interchangeable_number :
    let field : RowField := ⟨"c", .chars, 0, 4⟩
    let find := (Cells.row ⟨1, "t", [field]⟩ ⟨⟨0, 0⟩, [0x34, 0x32, 0, 0]⟩).find
    (∀ comparator other,
      BoundCondition.accepts ⟨.field field, comparator, other⟩ [0x34, 0x32, 0, 0] =
        BoundCondition.accepts ⟨.value (.chars [0x34, 0x32, 0]), comparator, other⟩
          [0x34, 0x32, 0, 0]) ∧
      (Value.chars [0x34, 0x32, 0]).convert .int ≠ (Value.chars [0x34, 0x32]).convert .int ∧
      Expression.eval find (.cast (.field none "c") .int) ≠
        Expression.eval find (.cast (.literal (.chars [0x34, 0x32, 0])) .int) := by
  intro field find
  obtain ⟨-, -, numbers, column⟩ :=
    chars_interchangeable (a := [0x34, 0x32, 0]) (b := [0x34, 0x32]) (by decide)
  have written : setCell field (.chars [0x34, 0x32, 0]) [0xff, 0xff, 0xff, 0xff] =
      .ok [0x34, 0x32, 0, 0] := by rfl
  obtain ⟨conditions, casts⟩ := column field _ _ written (by decide)
  refine ⟨fun comparator other => (conditions comparator other).1, ?_, ?_⟩
  · rw [Ne, (numbers .int rfl).2]
    decide
  · rw [Ne, casts ⟨1, "t", [field]⟩ ⟨0, 0⟩ .int rfl rfl]
    decide

/-- A byte behind the content decides whether a byte string converts, and whether a literal converts
like the column that it was stored into. -/
theorem convert_sees_hidden_byte :
    content [0x34, 0x32, 0] = content [0x34, 0x32] ∧
      (Value.chars [0x34, 0x32, 0]).convert .int = .error (.invalidCast .chars .int) ∧
      (Value.chars [0x34, 0x32]).convert .int = .ok (.int 42) ∧
      (Value.chars [0x34, 0x32, 0]).convert .float = .error (.invalidCast .chars .float) ∧
      (Value.chars [0x34, 0x32]).convert .float = .ok (.float ⟨0x42280000⟩) ∧
      setCell ⟨"c", .chars, 0, 4⟩ (.chars [0x34, 0x32, 0]) [0xff, 0xff, 0xff, 0xff] =
        .ok [0x34, 0x32, 0, 0] ∧
      Expression.eval
        (Cells.row ⟨1, "t", [⟨"c", .chars, 0, 4⟩]⟩ ⟨⟨0, 0⟩, [0x34, 0x32, 0, 0]⟩).find
        (.cast (.field none "c") .int) = .ok (.int 42) := by
  refine ⟨by rfl, by rfl, by rfl, by rfl, by rfl, by rfl, by rfl⟩

end RowStore
