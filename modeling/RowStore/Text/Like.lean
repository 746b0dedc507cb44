/- RowStore/Text/Like
   role: definitions
   digest: LIKE patterns over bytes: the strings they stand for, and the loop that matches them. -/

import RowStore.Text.Bytes

/-!
In a pattern `%` stands for any run of bytes, `_` for exactly one byte, and every other byte for
itself; `Matches` says which strings a pattern stands for. The loop that decides it goes through
subject and pattern side by side. At a run it goes on as if the run were empty and notes where it
stands. When the two no longer agree, the run noted last is made one byte longer and everything
behind it is tried again; runs noted before are never changed again.
-/

set_option autoImplicit false
set_option relaxedAutoImplicit false

namespace RowStore.Text.Like

inductive Token
  | run
  | one
  | byte (b : UInt8)
  deriving DecidableEq, Repr

/-- What a pattern byte stands for: `%` a run, `_` one byte, any other byte itself. -/
def Token.ofByte (b : UInt8) : Token :=
  if b = 0x25 then .run else if b = 0x5f then .one else .byte b

/-- The token stands for the single byte; a run is no single byte. -/
def Token.accepts : Token → UInt8 → Bool
  | .run, _ => false
  | .one, _ => true
  | .byte a, b => a == b

/-- The strings that a pattern stands for: a run stands for any bytes at all, `one` for a single
byte of any value, and a byte for itself. -/
inductive Matches : List Token → Bytes → Prop
  | nil : Matches [] []
  | run (gap : Bytes) {pattern : List Token} {bytes : Bytes} (rest : Matches pattern bytes) :
    Matches (.run :: pattern) (gap ++ bytes)
  | one (b : UInt8) {pattern : List Token} {bytes : Bytes} (rest : Matches pattern bytes) :
    Matches (.one :: pattern) (b :: bytes)
  | byte (b : UInt8) {pattern : List Token} {bytes : Bytes} (rest : Matches pattern bytes) :
    Matches (.byte b :: pattern) (b :: bytes)

/-- A run met in the pattern: what stands behind it there, and what is left of the subject behind the
bytes that it covers. -/
structure Stretch where
  behind : List Token
  left : Bytes
  deriving DecidableEq, Repr

/-- What is left of pattern and subject, and the run noted last. The loop stands at or behind the end
of that run in both. -/
structure Cursor where
  pattern : List Token
  subject : Bytes
  last? : Option Stretch
  within : ∀ last ∈ last?, pattern.length ≤ last.behind.length ∧ subject.length ≤ last.left.length

inductive Turn
  | next (cursor : Cursor)
  | answer (isMatch : Bool)

namespace Cursor

/-- At the end of a run, which is noted. -/
def behind (last : Stretch) : Cursor where
  pattern := last.behind
  subject := last.left
  last? := some last
  within last' mem := by
    cases mem
    exact ⟨Nat.le_refl _, Nat.le_refl _⟩

def retreat : Option Stretch → Turn
  | some last => .next (behind { last with left := last.left.tail })
  | none => .answer false

/-- One turn of the loop. At the end of the subject only runs may be left of the pattern. -/
def turn : Cursor → Turn
  | ⟨pattern, [], _, _⟩ => .answer (pattern.all (· == .run))
  | ⟨[], _ :: _, last?, _⟩ => retreat last?
  | ⟨.run :: pattern, b :: subject, _, _⟩ => .next (behind ⟨pattern, b :: subject⟩)
  | ⟨token :: pattern, b :: subject, last?, within⟩ =>
    if token.accepts b then
      .next {
        pattern, subject, last?
        within := fun last mem => by
          have before := within last mem
          simp only [List.length_cons] at before
          omega }
    else retreat last?

/-- The run to be counted as noted last; before the first one it is as if there were one in front of
all that is left. -/
def run (c : Cursor) : Stretch := c.last?.getD ⟨c.pattern, c.subject⟩

/-- A bound of the turns to come. A run that is noted or made longer takes one from the first
factor, and between two of these what is left of the subject only shrinks. -/
def slack (c : Cursor) : Nat :=
  (c.run.behind.length + c.run.left.length) * (c.run.left.length + 1) + c.subject.length

private theorem mul_add_lt {fewer more small large a b : Nat} (less : fewer < more)
    (shorter : small ≤ large) (bounded : a ≤ large) :
    fewer * (small + 1) + a < more * (large + 1) + b := by
  have widened : fewer * (small + 1) ≤ fewer * (large + 1) :=
    Nat.mul_le_mul_left fewer (Nat.succ_le_succ shorter)
  have raised : (fewer + 1) * (large + 1) ≤ more * (large + 1) := Nat.mul_le_mul_right _ less
  rw [Nat.succ_mul] at raised
  omega

variable {c next : Cursor}

theorem within_run (c : Cursor) :
    c.pattern.length ≤ c.run.behind.length ∧ c.subject.length ≤ c.run.left.length := by
  unfold run
  cases noted : c.last? with
  | none => exact ⟨Nat.le_refl _, Nat.le_refl _⟩
  | some last => exact c.within last noted

theorem slack_behind {last : Stretch}
    (less : last.behind.length + last.left.length < c.run.behind.length + c.run.left.length)
    (shorter : last.left.length ≤ c.run.left.length) : (behind last).slack < c.slack := by
  have noted : (behind last).run = last := rfl
  have left : (behind last).subject = last.left := rfl
  simp only [slack, noted, left]
  exact mul_add_lt less shorter shorter

theorem slack_retreat (unfinished : c.subject ≠ []) (goes : retreat c.last? = .next next) :
    next.slack < c.slack := by
  have within := c.within_run
  have some' : 0 < c.subject.length := List.length_pos_iff.2 unfinished
  cases noted : c.last? with
  | none =>
    rw [noted] at goes
    cases goes
  | some last =>
    have same : c.run = last := by
      unfold run
      rw [noted]
      rfl
    rw [noted] at goes
    cases goes
    rw [same] at within
    apply slack_behind
    · simp only [same, List.length_tail]
      omega
    · simp only [same, List.length_tail]
      omega

/-- Every turn that goes on leaves fewer turns to come. -/
theorem slack_turn (goes : c.turn = .next next) : next.slack < c.slack := by
  unfold turn at goes
  split at goes
  case h_1 => cases goes
  case h_2 last? within => exact slack_retreat (List.cons_ne_nil _ _) goes
  case h_3 pattern b subject last? within =>
    cases goes
    have before := within_run ⟨.run :: pattern, b :: subject, last?, within⟩
    simp only [List.length_cons] at before
    apply slack_behind
    · simp only [List.length_cons]
      omega
    · simp only [List.length_cons]
      omega
  case h_4 token pattern b subject last? within single =>
    split at goes
    case isTrue accepted =>
      cases goes
      cases last? with
      | some last => exact Nat.add_lt_add_left (Nat.lt_succ_self _) _
      | none =>
        simp only [slack, run, Option.getD_none, List.length_cons]
        apply mul_add_lt
        · omega
        · omega
        · omega
    case isFalse => exact slack_retreat (List.cons_ne_nil _ _) goes

/-- The answer of the loop from where it stands. -/
def search (c : Cursor) : Bool :=
  match _ : c.turn with
  | .next next => next.search
  | .answer isMatch => isMatch
termination_by c.slack
decreasing_by exact slack_turn ‹_›

def start (pattern : List Token) (subject : Bytes) : Cursor where
  pattern
  subject
  last? := none
  within := nofun

end Cursor

def isMatch (subject pattern : Bytes) : Bool :=
  (Cursor.start (pattern.map Token.ofByte) subject).search

end RowStore.Text.Like
