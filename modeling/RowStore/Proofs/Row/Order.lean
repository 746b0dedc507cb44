/- RowStore/Proofs/Row/Order
   role: theorems
   digest: The order of values is one linear order in parts, and comparators are its relations. -/

import Mathlib.Data.List.Lex
import Mathlib.Data.Sum.Order
import RowStore.Proofs.Number.Binary32
import RowStore.Proofs.Row.Faults

/-!
Numbers are ordered by what they denote, whichever type they have, and byte strings by the codes of
their content. Both lie in one linear order, with the byte strings after the numbers, and two values
are compared if they lie in the same part of it. Reversal, transitivity and the exchange of equals
are those of the linear order, and the comparators are its relations.
-/

set_option autoImplicit false
set_option relaxedAutoImplicit false

namespace RowStore

open RowStore.Cell (CellType Value)
open RowStore.Number (Binary32 Exact Extended)
open RowStore.Row (Comparator)
open RowStore.Text (Bytes)

section LinearOrder

variable {α : Type} [LinearOrder α] {x y z : α} {o o' : Ordering}

/-- Steps that do not lead in opposite directions lead where the first of them does that leads
anywhere. -/
theorem compares_then (first : o.Compares x y) (next : o'.Compares y z)
    (onward : o ≠ .gt ∧ o' ≠ .gt ∨ o ≠ .lt ∧ o' ≠ .lt) : (o.then o').Compares x z := by
  cases o with
  | eq =>
    cases first
    exact next
  | lt =>
    cases o' with
    | lt => exact lt_trans first next
    | eq => exact lt_of_lt_of_eq first next
    | gt => simp at onward
  | gt =>
    cases o' with
    | lt => simp at onward
    | eq => exact lt_of_eq_of_lt next.symm first
    | gt => exact gt_trans first next

namespace Row.Comparator

/-- The relation of a linear order that a comparator stands for; a pattern stands for none. -/
def Relates (comparator : Comparator) (x y : α) : Prop :=
  match comparator with
  | .eq => x = y
  | .ne => x ≠ y
  | .lt => x < y
  | .le => x ≤ y
  | .gt => y < x
  | .ge => y ≤ x
  | .like => False
  | .notLike => False

theorem holds_iff (comparator : Comparator) (compares : o.Compares x y) :
    comparator.holds o = true ↔ comparator.Relates x y := by
  cases comparator with
  | eq => exact beq_iff_eq.trans compares.eq_eq
  | ne => exact bne_iff_ne.trans (not_congr compares.eq_eq)
  | lt => exact beq_iff_eq.trans compares.eq_lt
  | le => exact bne_iff_ne.trans compares.ne_gt
  | gt => exact beq_iff_eq.trans compares.eq_gt
  | ge => exact bne_iff_ne.trans compares.ne_lt
  | like => exact iff_of_false Bool.false_ne_true id
  | notLike => exact iff_of_false Bool.false_ne_true id

end Row.Comparator

end LinearOrder

def Text.Bytes.codes (bytes : List UInt8) : List ℕ := (Bytes.content bytes).map UInt8.toNat

theorem Text.Bytes.compares_order (s t : Bytes) :
    (Bytes.order s t).Compares (s.map UInt8.toNat) (t.map UInt8.toNat) := by
  induction s generalizing t with
  | nil =>
    cases t with
    | nil => exact rfl
    | cons b t => exact List.nil_lt_cons _ _
  | cons a s ih =>
    cases t with
    | nil => exact List.nil_lt_cons _ _
    | cons b t =>
      rw [order, List.map_cons, List.map_cons]
      rcases lt_trichotomy a.toNat b.toNat with less | same | greater
      · rw [if_pos (UInt8.lt_iff_toNat_lt.2 less)]
        exact List.cons_lt_cons_iff.2 (Or.inl less)
      · rw [UInt8.toNat_inj.1 same, if_neg (UInt8.lt_irrefl b), if_neg (UInt8.lt_irrefl b)]
        have mono : StrictMono (List.cons b.toNat) := fun _ _ less =>
          List.cons_lt_cons_iff.2 (Or.inr ⟨rfl, less⟩)
        exact mono.compares.2 (ih t)
      · rw [if_neg (UInt8.lt_asymm (UInt8.lt_iff_toNat_lt.2 greater)),
          if_pos (UInt8.lt_iff_toNat_lt.2 greater)]
        exact List.cons_lt_cons_iff.2 (Or.inl greater)

namespace Cell.Value

def number? : Value → Option Extended
  | .int n => some (.ofRat n.toInt)
  | .float x => x.number?
  | .chars _ => none

/-- The place of a value among all that can be compared, the byte strings after the numbers. -/
def place? : Value → Option (Extended ⊕ₗ List ℕ)
  | .chars bytes => some (toLex (.inr (Bytes.codes bytes)))
  | value => value.number?.map (toLex ∘ Sum.inl)

/-- Two byte strings, or two numbers neither of which is not a number. -/
def Comparable (a b : Value) : Prop :=
  a.type = .chars ∧ b.type = .chars ∨
    (a.type.isNumeric = true ∧ ¬ a.IsNaN) ∧ b.type.isNumeric = true ∧ ¬ b.IsNaN

variable {a b c : Value} {o o' : Ordering}

theorem denoted?_bind (a : Value) : a.denoted?.bind Exact.number? = a.number? := by
  cases a with
  | int n => exact Exact.number?_ofInt n.toInt
  | float x => exact x.number?_exact
  | chars bytes => rfl

theorem isSome_number?_iff : a.number?.isSome = true ↔ a.type.isNumeric = true ∧ ¬ a.IsNaN := by
  cases a with
  | int n => simp [number?, type, CellType.isNumeric, IsNaN]
  | float x =>
    have float : (float x).IsNaN ↔ x.isNaN = true := by simp [IsNaN]
    rw [float, ← Binary32.number?_eq_none_iff, ← ne_eq, Option.ne_none_iff_isSome]
    exact (and_iff_right rfl).symm
  | chars bytes => simp [number?, type, CellType.isNumeric]

theorem exists_order {x y : Extended} (hx : a.number? = some x) (hy : b.number? = some y) :
    ∃ o, a.order b = .ok o ∧ o.Compares x y := by
  rw [← denoted?_bind] at hx hy
  obtain ⟨u, left, hx⟩ := Option.bind_eq_some_iff.1 hx
  obtain ⟨v, right, hy⟩ := Option.bind_eq_some_iff.1 hy
  obtain ⟨o, ordered, compares⟩ := Exact.exists_compare? hx hy
  refine ⟨o, ?_, compares⟩
  rw [order_of_denoted left right, ordered]

theorem Comparable.symm (comparable : a.Comparable b) : b.Comparable a :=
  comparable.imp And.symm And.symm

theorem Comparable.trans (first : a.Comparable b) (next : b.Comparable c) : a.Comparable c := by
  rcases first with ⟨left, mid⟩ | ⟨left, mid, -⟩
  · rcases next with ⟨-, right⟩ | ⟨⟨mid', -⟩, -⟩
    · exact Or.inl ⟨left, right⟩
    · rw [mid] at mid'
      cases mid'
  · rcases next with ⟨mid', -⟩ | ⟨-, right⟩
    · rw [mid'] at mid
      cases mid
    · exact Or.inr ⟨left, right⟩

theorem place?_of_number? {x : Extended} (hx : a.number? = some x) :
    a.place? = some (toLex (.inl x)) := by
  cases a with
  | int n | float f =>
    rw [place?, hx]
    · rfl
    · nofun
  | chars bytes => cases hx

/-- What can be compared is ordered as the places are. -/
theorem Comparable.exists_order (comparable : a.Comparable b) :
    ∃ o x y, a.order b = .ok o ∧ a.place? = some x ∧ b.place? = some y ∧ o.Compares x y := by
  rcases comparable with ⟨left, right⟩ | ⟨left, right⟩
  · cases a <;> cases left
    cases b <;> cases right
    exact ⟨_, _, _, rfl, rfl, rfl, Sum.Lex.inr_strictMono.compares.2 (Bytes.compares_order _ _)⟩
  · obtain ⟨x, hx⟩ := Option.isSome_iff_exists.1 (isSome_number?_iff.2 left)
    obtain ⟨y, hy⟩ := Option.isSome_iff_exists.1 (isSome_number?_iff.2 right)
    obtain ⟨o, ordered, compares⟩ := Value.exists_order hx hy
    exact ⟨o, _, _, ordered, place?_of_number? hx, place?_of_number? hy,
      Sum.Lex.inl_strictMono.compares.2 compares⟩

theorem isNumeric_iff {type : CellType} : type.isNumeric = true ↔ type ≠ .chars := by
  cases type <;> decide

theorem not_comparable_of_nan (nan : a.IsNaN ∨ b.IsNaN) : ¬ a.Comparable b := by
  rintro (⟨left, right⟩ | ⟨left, right⟩)
  · rcases nan with nan | nan
    · cases nan.type.symm.trans left
    · cases nan.type.symm.trans right
  · exact nan.elim left.2 right.2

theorem order_of_not_comparable (apart : ¬ a.Comparable b) :
    a.order b = .error (.incomparable a.type b.type) := by
  by_cases left : a.type = .chars
  · by_cases right : b.type = .chars
    · exact absurd (Or.inl ⟨left, right⟩) apart
    · cases a <;> cases left
      cases b with
      | int n | float x => rfl
      | chars bytes => exact absurd rfl right
  · by_cases right : b.type = .chars
    · cases b <;> cases right
      cases a with
      | int n | float x => rfl
      | chars bytes => exact absurd rfl left
    · have nan : a.IsNaN ∨ b.IsNaN := by
        by_contra numbers
        obtain ⟨first, second⟩ := not_or.1 numbers
        exact apart (Or.inr ⟨⟨isNumeric_iff.2 left, first⟩, isNumeric_iff.2 right, second⟩)
      obtain ⟨u, hu, nanLeft⟩ := exists_denoted left
      obtain ⟨v, hv, nanRight⟩ := exists_denoted right
      rw [order_of_denoted hu hv, compare?_eq_none_iff.2 (nan.imp nanLeft.2 nanRight.2)]

theorem exists_order_iff : (∃ o, a.order b = .ok o) ↔ a.Comparable b := by
  constructor
  · rintro ⟨o, ordered⟩
    by_contra apart
    rw [order_of_not_comparable apart] at ordered
    cases ordered
  · intro comparable
    obtain ⟨o, -, -, ordered, -⟩ := comparable.exists_order
    exact ⟨o, ordered⟩

/-- Values have an order if they are compared, and then that of their places. -/
theorem order_eq_ok_iff :
    a.order b = .ok o ↔
      a.Comparable b ∧ ∃ x y, a.place? = some x ∧ b.place? = some y ∧ o.Compares x y := by
  constructor
  · intro ordered
    have comparable := exists_order_iff.1 ⟨o, ordered⟩
    obtain ⟨o', x, y, ordered', hx, hy, compares⟩ := comparable.exists_order
    cases ordered.symm.trans ordered'
    exact ⟨comparable, x, y, hx, hy, compares⟩
  · rintro ⟨comparable, x, y, hx, hy, compares⟩
    obtain ⟨o', x', y', ordered, hx', hy', compares'⟩ := comparable.exists_order
    cases hx.symm.trans hx'
    cases hy.symm.trans hy'
    rw [compares.inj compares', ordered]

theorem order_swap (ordered : a.order b = .ok o) : b.order a = .ok o.swap := by
  obtain ⟨comparable, x, y, hx, hy, compares⟩ := order_eq_ok_iff.1 ordered
  exact order_eq_ok_iff.2 ⟨comparable.symm, y, x, hy, hx, compares.swap⟩

theorem order_swap_iff : b.order a = .ok o ↔ a.order b = .ok o.swap := by
  refine ⟨order_swap, fun ordered => ?_⟩
  rw [order_swap ordered, Ordering.swap_swap]

theorem order_then (first : a.order b = .ok o) (next : b.order c = .ok o')
    (onward : o ≠ .gt ∧ o' ≠ .gt ∨ o ≠ .lt ∧ o' ≠ .lt) : a.order c = .ok (o.then o') := by
  obtain ⟨comparable, x, y, hx, hy, compares⟩ := order_eq_ok_iff.1 first
  obtain ⟨comparable', y', z, hy', hz, compares'⟩ := order_eq_ok_iff.1 next
  cases hy.symm.trans hy'
  exact order_eq_ok_iff.2
    ⟨comparable.trans comparable', x, z, hx, hz, compares_then compares compares' onward⟩

theorem order_congr (equal : a.order b = .ok .eq) : a.order c = .ok o ↔ b.order c = .ok o := by
  obtain ⟨comparable, x, y, hx, hy, rfl⟩ := order_eq_ok_iff.1 equal
  rw [order_eq_ok_iff, order_eq_ok_iff, hx, hy]
  exact and_congr_left' ⟨comparable.symm.trans, comparable.trans⟩

theorem order_numbers_iff {x y : Extended} (hx : a.number? = some x) (hy : b.number? = some y) :
    a.order b = .ok o ↔ o.Compares x y := by
  obtain ⟨o', ordered, compares⟩ := exists_order hx hy
  rw [ordered, Except.ok.injEq]
  exact ⟨fun same => same ▸ compares, compares.inj⟩

theorem order_chars_iff {s t : Bytes} :
    (chars s).order (chars t) = .ok o ↔ o.Compares (Bytes.codes s) (Bytes.codes t) := by
  have compares := Bytes.compares_order (Bytes.content s) (Bytes.content t)
  rw [order, Except.ok.injEq]
  exact ⟨fun same => same ▸ compares, compares.inj⟩

end Cell.Value

namespace Row.Comparator

/-- The comparator that is met where this one is not. -/
def complement : Comparator → Comparator
  | .eq => .ne
  | .ne => .eq
  | .lt => .ge
  | .le => .gt
  | .gt => .le
  | .ge => .lt
  | .like => .notLike
  | .notLike => .like

/-- The comparator that is met with the operands exchanged; a pattern has none but itself. -/
def mirror : Comparator → Comparator
  | .lt => .gt
  | .le => .ge
  | .gt => .lt
  | .ge => .le
  | comparator => comparator

variable {comparator : Comparator} {a b : Value} {answer : Bool}

theorem evaluate_eq_ok_iff (plain : comparator.isPattern = false) :
    comparator.evaluate a b = .ok answer ↔
      ∃ o, a.order b = .ok o ∧ comparator.holds o = answer := by
  rw [evaluate_eq plain]
  cases a.order b with
  | ok o => simp [Except.map]
  | error cause => simp [Except.map]

theorem evaluate_complement (comparator : Comparator) (a b : Value) :
    comparator.complement.evaluate a b = (comparator.evaluate a b).map (!·) := by
  cases comparator with
  | like => rfl
  | notLike =>
    simp only [complement, evaluate]
    cases a.isLike b <;> simp [Except.map]
  | eq | ne | lt | le | gt | ge =>
    simp only [complement, evaluate]
    cases a.order b with
    | ok o => cases o <;> rfl
    | error cause => rfl

theorem evaluate_mirror (plain : comparator.isPattern = false) :
    comparator.mirror.evaluate b a = .ok answer ↔ comparator.evaluate a b = .ok answer := by
  have turned (o : Ordering) : comparator.mirror.holds o.swap = comparator.holds o := by
    cases comparator <;> cases plain <;> cases o <;> rfl
  have plain' : comparator.mirror.isPattern = false := by
    cases comparator <;> cases plain <;> rfl
  rw [evaluate_eq_ok_iff plain, evaluate_eq_ok_iff plain']
  constructor
  · rintro ⟨o, ordered, rfl⟩
    refine ⟨o.swap, Value.order_swap ordered, ?_⟩
    rw [← turned, Ordering.swap_swap]
  · rintro ⟨o, ordered, rfl⟩
    exact ⟨o.swap, Value.order_swap ordered, turned o⟩

end Row.Comparator

namespace Cell.Value

/-- Two values are compared as two elements of a linear order are, and comparators are met where its
relations hold. -/
structure ComparedAs {α : Type} [LinearOrder α] (a b : Value) (x y : α) : Prop where
  order : ∀ o, a.order b = .ok o ↔ o.Compares x y
  comparators : ∀ comparator : Comparator, comparator.isPattern = false →
    ∀ answer, comparator.evaluate a b = .ok answer ↔ (answer = true ↔ comparator.Relates x y)

theorem comparedAs {α : Type} [LinearOrder α] {a b : Value} {x y : α}
    (order : ∀ o, a.order b = .ok o ↔ o.Compares x y) : a.ComparedAs b x y where
  order := order
  comparators comparator plain answer := by
    obtain ⟨o, compares⟩ : ∃ o : Ordering, o.Compares x y := ⟨cmp x y, cmp_compares x y⟩
    rw [Comparator.evaluate_eq plain, (order o).2 compares, ← comparator.holds_iff compares]
    cases answer <;> simp [Except.map]

/-- Widening a number to binary64 does not round it, whichever type it has. -/
theorem isDouble_of_number? {a : Value} {q : ℚ} (denoted : a.number? = some (.ofRat q)) :
    Number.IsDouble q := by
  cases a with
  | int n =>
    rw [← Extended.strictMono_ofRat.injective (Option.some.inj denoted)]
    have least := n.le_toInt
    have greatest := n.toInt_lt
    refine ⟨n.toInt, 0, by omega, by decide, by decide, by simp⟩
  | float x => exact Binary32.isDouble_of_number? denoted
  | chars bytes => cases denoted

/-- Comparison is one order. Two values have an order just if they are two byte strings or two
numbers that are no NaN; then it is the order of the codes or of the numbers denoted, whatever their
types, and else both types are reported. Exchanging the values reverses the order, it is transitive,
and equal values have the same order with any third one. The comparators without a pattern are the
relations of the order; where one is met, its complement is not, and its mirror is met by the
exchanged values. -/
theorem order_consistent (a b c : Value) :
    ((∃ o, a.order b = .ok o) ↔ a.Comparable b) ∧
    (a.Comparable b →
      (∃ s t, a = .chars s ∧ b = .chars t ∧ a.ComparedAs b (Bytes.codes s) (Bytes.codes t)) ∨
      ∃ x y, a.number? = some x ∧ b.number? = some y ∧ a.ComparedAs b x y) ∧
    (∀ q, a.number? = some (.ofRat q) → Number.IsDouble q) ∧
    (¬ a.Comparable b → a.order b = .error (.incomparable a.type b.type) ∧
      ∀ comparator : Comparator, comparator.isPattern = false →
        comparator.evaluate a b = .error (.incomparable a.type b.type)) ∧
    (∀ o, b.order a = .ok o ↔ a.order b = .ok o.swap) ∧
    (∀ o o', a.order b = .ok o → b.order c = .ok o' →
      o ≠ .gt ∧ o' ≠ .gt ∨ o ≠ .lt ∧ o' ≠ .lt → a.order c = .ok (o.then o')) ∧
    (a.order b = .ok .eq → ∀ o, a.order c = .ok o ↔ b.order c = .ok o) ∧
    ∀ comparator : Comparator,
      comparator.complement.evaluate a b = (comparator.evaluate a b).map (!·) ∧
      (comparator.isPattern = false → ∀ answer,
        comparator.mirror.evaluate b a = .ok answer ↔ comparator.evaluate a b = .ok answer) := by
  refine ⟨exists_order_iff, fun comparable => ?scale, fun q => isDouble_of_number?,
    fun apart => ?apart, fun o => order_swap_iff, fun o o' => order_then,
    fun equal o => order_congr equal, fun comparator => ⟨comparator.evaluate_complement a b, fun plain answer =>
      Comparator.evaluate_mirror plain⟩⟩
  case scale =>
    rcases comparable with ⟨left, right⟩ | ⟨left, right⟩
    · cases a <;> cases left
      cases b <;> cases right
      exact Or.inl ⟨_, _, rfl, rfl, comparedAs fun o => order_chars_iff⟩
    · obtain ⟨x, hx⟩ := Option.isSome_iff_exists.1 (isSome_number?_iff.2 left)
      obtain ⟨y, hy⟩ := Option.isSome_iff_exists.1 (isSome_number?_iff.2 right)
      exact Or.inr ⟨x, y, hx, hy, comparedAs fun o => order_numbers_iff hx hy⟩
  case apart =>
    refine ⟨order_of_not_comparable apart, fun comparator plain => ?_⟩
    rw [Comparator.evaluate_eq plain, order_of_not_comparable apart]
    rfl

/-- The integer after `2 ^ 24` has no float of its own and is greater than the float before it. -/
example : (int 16777217).order (.float ⟨0x4b800000⟩) = .ok .gt := by decide +kernel

end Cell.Value

end RowStore
