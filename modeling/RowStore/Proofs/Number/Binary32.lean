/- RowStore/Proofs/Number/Binary32
   role: theorems
   digest: The numbers that bits denote, read from their fields, and the order of those numbers. -/

import Mathlib.Algebra.Order.Field.Rat
import Mathlib.Data.Int.ConditionallyCompleteOrder
import Mathlib.Order.Compare
import Mathlib.Order.WithBot
import Mathlib.Tactic.NormNum
import Mathlib.Tactic.Ring
import RowStore.Number.Binary32

set_option autoImplicit false
set_option relaxedAutoImplicit false

namespace RowStore.Number

/-- The rational numbers between two infinities. -/
abbrev Extended := WithBot (WithTop ℚ)

def Extended.ofRat (q : ℚ) : Extended := ((q : WithTop ℚ) : WithBot (WithTop ℚ))

theorem Extended.strictMono_ofRat : StrictMono Extended.ofRat :=
  WithBot.coe_strictMono.comp WithTop.coe_strictMono

theorem Extended.bot_lt_ofRat (q : ℚ) : ⊥ < Extended.ofRat q := WithBot.bot_lt_coe _

theorem Extended.ofRat_lt_top (q : ℚ) : Extended.ofRat q < ⊤ :=
  WithBot.coe_lt_coe.2 (WithTop.coe_lt_top q)

/-- The rational numbers of binary64, which has 53 significant bits. -/
def IsDouble (q : ℚ) : Prop :=
  ∃ significand exponent : ℤ, significand.natAbs < 2 ^ 53 ∧ -1074 ≤ exponent ∧ exponent ≤ 971 ∧
    q = significand * 2 ^ exponent

namespace Binary32

def sign (x : Binary32) : ℚ := if x.isNegative then -1 else 1

def exponent (x : Binary32) : ℕ := x.bits.toNat / 2 ^ 23 % 2 ^ 8

def fraction (x : Binary32) : ℕ := x.bits.toNat % 2 ^ 23

/-- The number that the fields denote, if any. The greatest exponent is that of the infinities and,
with a fraction, of what is no number; the least one is that of numbers without a leading bit. -/
def number? (x : Binary32) : Option Extended :=
  if x.exponent = 255 then
    if x.fraction = 0 then some (if x.isNegative then ⊥ else ⊤) else none
  else if x.exponent = 0 then some (.ofRat (x.sign * x.fraction * 2 ^ (-149 : ℤ)))
  else some (.ofRat (x.sign * (2 ^ 23 + x.fraction) * 2 ^ (x.exponent - 150 : ℤ)))

theorem magnitudeBits_div (x : Binary32) : x.magnitudeBits / hiddenBit = x.exponent := by
  simp only [magnitudeBits, signBit, hiddenBit, exponent]
  omega

theorem magnitudeBits_mod (x : Binary32) : x.magnitudeBits % hiddenBit = x.fraction := by
  simp only [magnitudeBits, signBit, hiddenBit, fraction]
  omega

theorem exponent_lt (x : Binary32) : x.exponent < 256 := Nat.mod_lt _ (by decide)

theorem fraction_lt (x : Binary32) : x.fraction < hiddenBit := Nat.mod_lt _ (by decide)

theorem magnitudeBits_eq (x : Binary32) :
    x.magnitudeBits = hiddenBit * x.exponent + x.fraction := by
  rw [← magnitudeBits_div, ← magnitudeBits_mod, Nat.div_add_mod]

theorem infinityBits_lt_iff (x : Binary32) :
    infinityBits < x.magnitudeBits ↔ x.exponent = 255 ∧ x.fraction ≠ 0 := by
  have := x.exponent_lt
  have := x.fraction_lt
  rw [magnitudeBits_eq]
  simp only [infinityBits, hiddenBit] at *
  omega

theorem magnitudeBits_eq_infinityBits_iff (x : Binary32) :
    x.magnitudeBits = infinityBits ↔ x.exponent = 255 ∧ x.fraction = 0 := by
  have := x.exponent_lt
  have := x.fraction_lt
  rw [magnitudeBits_eq]
  simp only [infinityBits, hiddenBit] at *
  omega

theorem number?_eq_none_iff {x : Binary32} : x.number? = none ↔ x.isNaN = true := by
  rw [isNaN, decide_eq_true_eq, infinityBits_lt_iff, number?]
  split_ifs with greatest fraction <;> simp [*]

/-- Widening a number to binary64 does not round it. -/
theorem isDouble_of_number? {x : Binary32} {q : ℚ} (denoted : x.number? = some (.ofRat q)) :
    IsDouble q := by
  have bounded := x.exponent_lt
  have narrow := x.fraction_lt
  rw [hiddenBit] at narrow
  obtain ⟨s, unit, signed⟩ : ∃ s : ℤ, s.natAbs = 1 ∧ x.sign = s := by
    unfold sign
    split
    · exact ⟨-1, rfl, by norm_num⟩
    · exact ⟨1, rfl, by norm_num⟩
  unfold number? at denoted
  split_ifs at denoted with greatest fraction negative least
  · exact absurd (Option.some.inj denoted) (Extended.bot_lt_ofRat q).ne
  · exact absurd (Option.some.inj denoted) (Extended.ofRat_lt_top q).ne'
  · rw [← Extended.strictMono_ofRat.injective (Option.some.inj denoted), signed]
    refine ⟨s * x.fraction, -149, ?_, by decide, by decide, by push_cast; rfl⟩
    rw [Int.natAbs_mul, unit, Int.natAbs_natCast]
    omega
  · rw [← Extended.strictMono_ofRat.injective (Option.some.inj denoted), signed]
    have scaled : (s * (2 ^ 23 + x.fraction) : ℚ) = (s * (2 ^ 23 + x.fraction : ℕ) : ℤ) := by
      push_cast
      rfl
    rw [scaled]
    refine ⟨_, x.exponent - 150, ?_, by omega, by omega, rfl⟩
    rw [Int.natAbs_mul, unit, Int.natAbs_natCast]
    omega

theorem unitsOfBits_div (x : Binary32) :
    (unitsOfBits x.magnitudeBits : ℚ) / 2 ^ 149 =
      if x.exponent = 0 then (x.fraction : ℚ) * 2 ^ (-149 : ℤ)
      else (2 ^ 23 + x.fraction) * 2 ^ (x.exponent - 150 : ℤ) := by
  simp only [unitsOfBits, magnitudeBits_div, magnitudeBits_mod]
  split
  case isTrue =>
    rw [zpow_neg, div_eq_mul_inv]
    rfl
  case isFalse normal =>
    have shifted : (x.exponent - 150 : ℤ) = ((x.exponent - 1 : ℕ) : ℤ) - (149 : ℕ) := by omega
    rw [shifted, zpow_sub₀ two_ne_zero, zpow_natCast, zpow_natCast, hiddenBit, Nat.pow_eq]
    push_cast
    ring

end Binary32

namespace Exact

/-- The number denoted, if any; a unit is the least positive binary32 number. -/
def number? : Exact → Option Extended
  | .finite units => some (.ofRat (units / 2 ^ 149))
  | .infinite negative => some (if negative then ⊥ else ⊤)
  | .nan => none

theorem number?_ofInt (n : ℤ) : (ofInt n).number? = some (.ofRat n) := by
  have whole : ((n * Binary32.oneUnits : ℤ) : ℚ) / 2 ^ 149 = n := by
    rw [Binary32.oneUnits, Nat.pow_eq]
    push_cast
    exact mul_div_cancel_right₀ _ (by positivity)
  rw [ofInt, number?, whole]

theorem strictMono_units : StrictMono fun units : ℤ => Extended.ofRat (units / 2 ^ 149) :=
  Extended.strictMono_ofRat.comp fun u v less =>
    div_lt_div_of_pos_right (Int.cast_lt.2 less) (by positivity)

variable {a b : Exact} {x y : Extended}

theorem exists_compare? (hx : a.number? = some x) (hy : b.number? = some y) :
    ∃ o, compare? a b = some o ∧ o.Compares x y := by
  cases a with
  | nan => cases hx
  | infinite s =>
    cases hx
    cases b with
    | nan => cases hy
    | infinite t =>
      cases hy
      cases s <;> cases t <;> refine ⟨_, rfl, ?_⟩
      exacts [rfl, bot_lt_top, bot_lt_top, rfl]
    | finite v =>
      cases hy
      cases s <;> refine ⟨_, rfl, ?_⟩
      exacts [Extended.ofRat_lt_top _, Extended.bot_lt_ofRat _]
  | finite u =>
    cases hx
    cases b with
    | nan => cases hy
    | infinite t =>
      cases hy
      cases t <;> refine ⟨_, rfl, ?_⟩
      exacts [Extended.ofRat_lt_top _, Extended.bot_lt_ofRat _]
    | finite v =>
      cases hy
      exact ⟨_, rfl, strictMono_units.compares.2 ((compare_iff u v).1 rfl)⟩

end Exact

/-- Counting units denotes the number that the fields do. -/
theorem Binary32.number?_exact (x : Binary32) : x.exact.number? = x.number? := by
  unfold exact Binary32.number?
  simp only [infinityBits_lt_iff, magnitudeBits_eq_infinityBits_iff]
  by_cases greatest : x.exponent = 255
  · by_cases fraction : x.fraction = 0 <;> simp [greatest, fraction, Exact.number?]
  · have units : (if x.isNegative then Exact.finite (-(unitsOfBits x.magnitudeBits : ℤ))
          else .finite (unitsOfBits x.magnitudeBits)).number? =
        some (.ofRat (x.sign * ((unitsOfBits x.magnitudeBits : ℚ) / 2 ^ 149))) := by
      cases negative : x.isNegative with
      | true => simp [sign, negative, Exact.number?, neg_div]
      | false => simp [sign, negative, Exact.number?]
    simp only [greatest, false_and, if_false]
    rw [units, unitsOfBits_div]
    split
    · rw [mul_assoc]
    · rw [mul_assoc]

end RowStore.Number
