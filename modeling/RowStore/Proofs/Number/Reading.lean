/- RowStore/Proofs/Number/Reading
   role: theorems
   digest: What reads as a number is written in a small alphabet. -/

import Mathlib.Data.List.TakeWhile
import RowStore.Number.Reading

set_option autoImplicit false
set_option relaxedAutoImplicit false

namespace RowStore.Number.Reading

variable {c : Char} {text : List Char} {negative : Bool} {n : Int} {x : Binary32}

/-- The character may occur where a number is written. -/
def IsNumeral (c : Char) : Prop :=
  isDigit c = true ∨ c ∈ ['+', '-', '.'] ∨
    c.toLower ∈ ['a', 'e', 'f', 'i', 'n', 't', 'y']

instance : DecidablePred IsNumeral := fun _ => inferInstanceAs (Decidable (_ ∨ _ ∨ _))

theorem mem_splitSign (mem : c ∈ text) : IsNumeral c ∨ c ∈ (splitSign text).2 := by
  unfold splitSign
  split
  · rcases List.mem_cons.1 mem with rfl | later
    · exact .inl (by decide)
    · exact .inr later
  · rcases List.mem_cons.1 mem with rfl | later
    · exact .inl (by decide)
    · exact .inr later
  · exact .inr mem

theorem isNumeral_of_integer? (read : integer? text = some n) (mem : c ∈ text) : IsNumeral c := by
  rcases mem_splitSign mem with sign | later
  · exact sign
  · unfold integer? at read
    split at read
    case h_1 => cases read
    case h_2 negative digits _ parts =>
      rw [parts] at later
      split at read
      case isTrue all => exact .inl (List.all_eq_true.1 all c later)
      case isFalse => cases read

theorem isNumeral_of_int32? {n : Int32} (read : int32? text = some n) (mem : c ∈ text) :
    IsNumeral c := by
  unfold int32? at read
  split at read
  case h_1 => cases read
  case h_2 whole => exact isNumeral_of_integer? whole mem

theorem isNumeral_of_exponent? (read : exponent? text = some n) (mem : c ∈ text) : IsNumeral c := by
  cases text with
  | nil => cases mem
  | cons first rest =>
    simp only [exponent?] at read
    split at read
    case isTrue letter =>
      rcases List.mem_cons.1 mem with rfl | later
      · rcases letter with rfl | rfl <;> decide
      · exact isNumeral_of_integer? read later
    case isFalse => cases read

theorem mem_digits_or_rest (mem : c ∈ text) : IsNumeral c ∨ c ∈ text.dropWhile isDigit := by
  rw [← List.takeWhile_append_dropWhile (p := isDigit) (l := text)] at mem
  exact (List.mem_append.1 mem).imp_left fun digit => .inl (List.mem_takeWhile_imp digit)

theorem isNumeral_of_decimal? (read : decimal? negative text = some x) (mem : c ∈ text) :
    IsNumeral c := by
  rcases mem_digits_or_rest mem with digit | behind
  · exact digit
  · simp only [decimal?] at read
    split at read
    case h_1 fraction point =>
      split at read
      case isTrue => cases read
      case isFalse =>
        obtain ⟨exponent, read, -⟩ := Option.map_eq_some_iff.1 read
        rw [point] at behind
        rcases List.mem_cons.1 behind with rfl | behind
        · decide
        · rcases mem_digits_or_rest behind with digit | behind
          · exact digit
          · exact isNumeral_of_exponent? read behind
    case h_2 =>
      split at read
      case isTrue => cases read
      case isFalse =>
        obtain ⟨exponent, read, -⟩ := Option.map_eq_some_iff.1 read
        exact isNumeral_of_exponent? read behind

theorem isNumeral_of_binary32? (read : binary32? text = some x) (mem : c ∈ text) :
    IsNumeral c := by
  rcases mem_splitSign mem with sign | later
  · exact sign
  · have spelled {word : List Char}
        (letters : word.all (['a', 'e', 'f', 'i', 'n', 't', 'y'].contains ·) = true)
        (same : (splitSign text).2.map Char.toLower = word) : IsNumeral c := by
      have lower := List.mem_map_of_mem (f := Char.toLower) later
      rw [same] at lower
      exact .inr (.inr (List.contains_iff_mem.1 (List.all_eq_true.1 letters _ lower)))
    simp only [binary32?] at read
    split at read
    case isTrue word =>
      rcases word with inf | infinity
      · exact spelled (by decide) inf
      · exact spelled (by decide) infinity
    case isFalse =>
      split at read
      case isTrue nan => exact spelled (by decide) nan
      case isFalse => exact isNumeral_of_decimal? read later

end RowStore.Number.Reading
