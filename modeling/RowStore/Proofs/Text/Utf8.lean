/- RowStore/Proofs/Text/Utf8
   role: theorems
   digest: A zero byte is a character of its own wherever it stands. -/

import Mathlib.Data.List.TakeWhile
import RowStore.Text.Blank
import RowStore.Text.Utf8

set_option autoImplicit false
set_option relaxedAutoImplicit false

namespace RowStore.Text

namespace Utf8

variable {bytes : Bytes} {text : List Char} {pending? : Option Pending}

def Continues (pending? : Option Pending) : Prop := ∀ pending ∈ pending?, 0 < pending.low

theorem Continues.none : Continues none := nofun

theorem Continues.some {pending : Pending} (low : 0 < pending.low) : Continues (some pending) := by
  rintro _ ⟨⟩
  exact low

theorem zero_lt_low {b : UInt8} {pending : Pending} (begun : start b = .inr pending) :
    0 < pending.low := by
  unfold start at begun
  repeat' split at begun
  all_goals cases begun
  all_goals simp

theorem exists_scan_cons (continues : Continues pending?) (b : UInt8) (rest : Bytes) :
    ∃ pieces next?, Continues next? ∧ scan pending? (b :: rest) = pieces ++ scan next? rest := by
  cases pending? with
  | none =>
    simp only [scan]
    split
    case h_1 piece _ => exact ⟨[piece], none, .none, rfl⟩
    case h_2 begun starts => exact ⟨[], some begun, .some (zero_lt_low starts), rfl⟩
  | some pending =>
    simp only [scan]
    split
    case isTrue =>
      split
      case isTrue => exact ⟨[_], none, .none, rfl⟩
      case isFalse => exact ⟨[], some ⟨_, 0x80, 0xbf, _⟩, .some (by simp), rfl⟩
    case isFalse =>
      split
      case h_1 piece _ => exact ⟨[.malformed, piece], none, .none, rfl⟩
      case h_2 begun starts => exact ⟨[.malformed], some begun, .some (zero_lt_low starts), rfl⟩

/-- A zero byte that comes next is a character of its own. -/
theorem char_zero_mem_scan_cons (continues : Continues pending?) (rest : Bytes) :
    .char '\x00' ∈ scan pending? (0 :: rest) := by
  cases pending? with
  | none => exact List.mem_cons_self
  | some pending =>
    have low := continues pending rfl
    have refused : ¬ (pending.low ≤ 0 ∧ 0 ≤ pending.high) := fun within =>
      absurd within.1 (UInt8.not_le.2 low)
    unfold scan
    rw [if_neg refused]
    exact List.mem_cons_of_mem _ List.mem_cons_self

theorem char_zero_mem_scan (continues : Continues pending?) (zero : 0 ∈ bytes) :
    .char '\x00' ∈ scan pending? bytes := by
  induction bytes generalizing pending? with
  | nil => cases zero
  | cons b rest ih =>
    by_cases first : b = 0
    · subst first
      exact char_zero_mem_scan_cons continues rest
    · have later : 0 ∈ rest := (List.mem_cons.1 zero).resolve_left (Ne.symm first)
      obtain ⟨pieces, next?, continues', split⟩ := exists_scan_cons continues b rest
      rw [split]
      exact List.mem_append_right _ (ih continues' later)

/-- The text of a byte string with a zero byte has the character of code point zero. -/
theorem zero_mem_of_decode? (decoded : decode? bytes = some text) (zero : 0 ∈ bytes) :
    '\x00' ∈ text := by
  have mem := char_zero_mem_scan .none zero
  unfold decode? at decoded
  generalize scan none bytes = pieces at mem decoded
  induction pieces generalizing text with
  | nil => cases mem
  | cons piece pieces ih =>
    simp only [List.mapM_cons, Option.bind_eq_bind, Option.bind_eq_some_iff, Option.pure_def,
      Option.some.injEq] at decoded
    obtain ⟨c, read, later, decoded, rfl⟩ := decoded
    rcases List.mem_cons.1 mem with rfl | mem
    · cases read
      exact List.mem_cons_self
    · exact List.mem_cons_of_mem _ (ih mem decoded)

end Utf8

namespace Blank

variable {c : Char} {text : List Char}

private theorem mem_dropWhile (mem : c ∈ text) (visible : isBlank c = false) :
    c ∈ text.dropWhile isBlank := by
  rw [← List.takeWhile_append_dropWhile (p := isBlank) (l := text)] at mem
  rcases List.mem_append.1 mem with blank | kept
  · rw [List.mem_takeWhile_imp blank] at visible
    cases visible
  · exact kept

theorem mem_trim (mem : c ∈ text) (visible : isBlank c = false) : c ∈ trim text := by
  unfold trim
  rw [List.mem_reverse]
  apply mem_dropWhile _ visible
  rw [List.mem_reverse]
  exact mem_dropWhile mem visible

end Blank

end RowStore.Text
