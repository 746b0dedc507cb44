/- RowStore/Proofs/Row/Arithmetic
   role: theorems
   digest: Integer expressions are exact modulo 2 ^ 32, however deep they are. -/

import Mathlib.Data.Int.ModEq
import RowStore.Proofs.Row.Typing
import RowStore.Row.Arithmetic

/-!
An integer keeps of every sum, difference, product and change of sign what is left modulo `2 ^ 32`.
These operations respect congruence, so it makes no difference where in an expression the wrapping
around takes place: the value is the one over the unbounded integers, wrapped around once.
-/

set_option autoImplicit false
set_option relaxedAutoImplicit false

namespace RowStore.Row

open RowStore.Cell (CellType Value)
open RowStore.Schema (Layout)

/-- The value is an integer congruent to the unbounded one. -/
def Wraps (value : Value) (unbounded : Int) : Prop :=
  ∃ n : Int32, value = .int n ∧ n.toInt ≡ unbounded [ZMOD 0x100000000]

variable {left right value : Value} {a b : Int} {op : BinaryOp} {layout : Layout} {record : Record}
  {expression : Expression}

private theorem bmod_modEq {n : Int32} {exact z : Int} (cut : n.toInt = exact.bmod (2 ^ 32))
    (congruent : exact ≡ z [ZMOD 0x100000000]) : n.toInt ≡ z [ZMOD 0x100000000] := by
  have left : n.toInt ≡ exact [ZMOD 0x100000000] := by
    rw [cut]
    exact Int.bmod_emod
  exact left.trans congruent

theorem exists_negated (wraps : Wraps value a) :
    ∃ result, negated value = .ok result ∧ Wraps result (-a) := by
  obtain ⟨n, rfl, congruent⟩ := wraps
  exact ⟨.int (-n), rfl, -n, rfl, bmod_modEq (Int32.toInt_neg n) congruent.neg⟩

theorem exists_calculate (exact : op ≠ .div) (wrapsLeft : Wraps left a)
    (wrapsRight : Wraps right b) :
    ∃ result, calculate op left right = .ok result ∧ Wraps result (Expression.unboundedOp op a b) := by
  obtain ⟨m, rfl, congruentLeft⟩ := wrapsLeft
  obtain ⟨n, rfl, congruentRight⟩ := wrapsRight
  cases op with
  | add => exact ⟨.int (m + n), rfl, m + n, rfl,
      bmod_modEq (Int32.toInt_add m n) (congruentLeft.add congruentRight)⟩
  | sub => exact ⟨.int (m - n), rfl, m - n, rfl,
      bmod_modEq (Int32.toInt_sub m n) (congruentLeft.sub congruentRight)⟩
  | mul => exact ⟨.int (m * n), rfl, m * n, rfl,
      bmod_modEq (Int32.toInt_mul m n) (congruentLeft.mul congruentRight)⟩
  | div => exact absurd rfl exact

/-- Where integer fields have integer values, so has every integer expression over them. -/
theorem exists_eval {lookup : Option String → String → Except Fault Value}
    {fieldType : Option String → String → Option CellType}
    {fieldValue : Option String → String → Int}
    (fields : ∀ qualifier name, fieldType qualifier name = some .int →
      ∃ value, lookup qualifier name = .ok value ∧ Wraps value (fieldValue qualifier name))
    (integral : expression.IsIntegral fieldType) :
    ∃ value, expression.eval lookup = .ok value ∧
      Wraps value (expression.unbounded fieldValue) := by
  -- Congruence is kept by each operation, so wrapping around below makes no difference above.
  induction integral with
  | field typed => exact fields _ _ typed
  | literal n => exact ⟨.int n, rfl, n, rfl, Int.ModEq.refl _⟩
  | negate _ ih | negateFirst _ ih =>
    obtain ⟨value, valued, wraps⟩ := ih
    rw [Expression.eval, valued]
    exact exists_negated wraps
  | binary exact _ _ ihLeft ihRight =>
    obtain ⟨left, valuedLeft, wrapsLeft⟩ := ihLeft
    obtain ⟨right, valuedRight, wrapsRight⟩ := ihRight
    rw [Expression.eval, valuedLeft, valuedRight]
    exact exists_calculate exact wrapsLeft wrapsRight

/-- The integer that a row holds in the named column; zero if there is no such integer column. -/
def integerIn (layout : Layout) (record : Record) (qualifier : Option String) (name : String) :
    Int :=
  match findField layout record qualifier name with
  | .ok (.int n) => n.toInt
  | _ => 0

theorem exists_integerIn (fitted : ∀ f ∈ layout.fields, f.Fits record.data.length)
    {qualifier : Option String} {name : String}
    (typed : fieldType? layout qualifier name = some .int) :
    ∃ value, findField layout record qualifier name = .ok value ∧
      Wraps value (integerIn layout record qualifier name) := by
  unfold fieldType? at typed
  split at typed
  case isFalse => cases typed
  case isTrue qualified =>
    obtain ⟨field, named, int⟩ := Option.map_eq_some_iff.1 typed
    obtain ⟨value, held, kind⟩ := exists_cell (fitted field (List.mem_of_find?_eq_some named))
    have own : qualifier.getD layout.name = layout.name := by
      cases qualifier with
      | none => rfl
      | some table => exact beq_iff_eq.1 qualified
    have found : findField layout record qualifier name = .ok value :=
      (findField_of_named own named).trans held
    refine ⟨value, found, ?_⟩
    rw [int] at kind
    cases value with
    | int n =>
      refine ⟨n, rfl, ?_⟩
      unfold integerIn
      rw [found]
    | float x | chars bytes => cases kind

/-- Integer arithmetic is exact modulo `2 ^ 32`. In every row of a table, an expression of any depth
made of integer literals and integer columns by sums, differences, products and changes of sign has
a value: the integer of 32 bits that is congruent to the value over the unbounded integers. -/
theorem integral_exact {spec : Schema.TableSpec} {id : Nat}
    (accepted : Layout.ofSpec id spec = .ok layout)
    (full : record.data.length = layout.recordSize)
    (integral : expression.IsIntegral (fieldType? layout)) :
    ∃ n : Int32, expression.eval (Cells.row layout record).find = .ok (.int n) ∧
      -0x80000000 ≤ n.toInt ∧ n.toInt < 0x80000000 ∧
      n.toInt ≡ expression.unbounded (integerIn layout record) [ZMOD 0x100000000] := by
  obtain ⟨s, rfl⟩ := Schema.ofSpec_eq_ok.1 accepted
  have fitted : ∀ f ∈ (spec.layout id).fields, f.Fits record.data.length := by
    intro f mem
    rw [full]
    exact s.fits mem
  obtain ⟨value, valued, n, rfl, congruent⟩ :=
    exists_eval (fun _ _ typed => exists_integerIn fitted typed) integral
  exact ⟨n, valued, n.le_toInt, n.toInt_lt, congruent⟩

/-- The least and the greatest integer in one row: the change of sign and the product leave the
range, and what is left of their difference is small. -/
theorem integral_exact_extremes :
    let layout : Layout := ⟨1, "t", [⟨"a", .int, 0, 4⟩, ⟨"b", .int, 4, 4⟩]⟩
    let record : Record := ⟨⟨0, 0⟩, [0, 0, 0, 0x80, 0xff, 0xff, 0xff, 0x7f]⟩
    let expression : Expression := .binary .sub (.negate (.field none "a"))
      (.binary .mul (.field (some "t") "b") (.binary .add (.field none "b") (.literal (.int 7))))
    expression.unbounded (integerIn layout record) = -4611686027017322490 ∧
      expression.eval (Cells.row layout record).find = .ok (.int 6) := by
  intro layout record expression
  have accepted : Layout.ofSpec 1 ⟨"t", [⟨"a", .int, 4⟩, ⟨"b", .int, 4⟩]⟩ = .ok layout := by rfl
  have full : record.data.length = layout.recordSize := by rfl
  have integral : expression.IsIntegral (fieldType? layout) :=
    .binary (by decide) (.negate (.field (by rfl)))
      (.binary (by decide) (.field (by rfl))
        (.binary (by decide) (.field (by rfl)) (.literal 7)))
  have unbounded : expression.unbounded (integerIn layout record) = -4611686027017322490 := by
    decide
  obtain ⟨n, valued, low, high, congruent⟩ :=
    integral_exact accepted full integral
  rw [unbounded] at congruent
  have six : n.toInt = 6 := by
    unfold Int.ModEq at congruent
    omega
  have same : n = 6 := Int32.toInt_inj.1 six
  exact ⟨unbounded, same ▸ valued⟩

end RowStore.Row
