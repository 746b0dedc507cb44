/- RowStore/Proofs/Text/Like
   role: theorems
   digest: The loop over a LIKE pattern ends, and its answer is what the pattern stands for. -/

import RowStore.Cell.Value

/-!
Only the run noted last is ever made longer. Nothing is lost by that: what stands between an earlier
run and the last one has been matched as early in the subject as it can be, so whatever a longer
earlier run could lead to, a longer last run leads to as well. The invariant of the loop says so for
every length of the last run.
-/

set_option autoImplicit false
set_option relaxedAutoImplicit false

namespace RowStore.Text.Like

variable {pattern : List Token} {subject : Bytes} {token : Token} {b : UInt8} {c : Cursor}

theorem matches_nil_iff : Matches [] subject ↔ subject = [] := by
  constructor
  · intro matched
    cases matched
    rfl
  · rintro rfl
    exact .nil

theorem matches_run_iff :
    Matches (.run :: pattern) subject ↔ ∃ k ≤ subject.length, Matches pattern (subject.drop k) := by
  constructor
  · intro matched
    generalize first : Token.run :: pattern = tokens at matched
    cases matched with
    | nil => cases first
    | one b rest => cases first
    | byte b rest => cases first
    | run gap rest =>
      cases first
      refine ⟨gap.length, ?_, ?_⟩
      · rw [List.length_append]
        exact Nat.le_add_right _ _
      · rw [List.drop_left]
        exact rest
  · rintro ⟨k, -, rest⟩
    have parts : subject.take k ++ subject.drop k = subject := List.take_append_drop k subject
    rw [← parts]
    exact .run (subject.take k) rest

theorem matches_token_iff (single : token ≠ .run) :
    Matches (token :: pattern) subject ↔
      ∃ b rest, subject = b :: rest ∧ token.accepts b = true ∧ Matches pattern rest := by
  constructor
  · intro matched
    generalize first : token :: pattern = tokens at matched
    cases matched with
    | nil => cases first
    | run gap rest =>
      cases first
      exact absurd rfl single
    | one b rest =>
      cases first
      exact ⟨b, _, rfl, rfl, rest⟩
    | byte b rest =>
      cases first
      exact ⟨b, _, rfl, beq_self_eq_true b, rest⟩
  · rintro ⟨b, rest, rfl, accepted, matched⟩
    cases token with
    | run => exact absurd rfl single
    | one => exact .one b matched
    | byte a =>
      have same : a = b := eq_of_beq accepted
      rw [same]
      exact .byte b matched

theorem matches_agreed_iff (single : token ≠ .run) (accepted : token.accepts b = true) :
    Matches (token :: pattern) (b :: subject) ↔ Matches pattern subject := by
  rw [matches_token_iff single]
  constructor
  · rintro ⟨a, rest, here, -, matched⟩
    cases here
    exact matched
  · intro matched
    exact ⟨b, subject, rfl, accepted, matched⟩

theorem matches_empty_iff : Matches pattern [] ↔ pattern.all (· == .run) = true := by
  induction pattern with
  | nil => simp [matches_nil_iff]
  | cons token rest ih =>
    by_cases run : token = .run
    · subst run
      simp [matches_run_iff, ih]
    · simp [matches_token_iff run, run]

/-- The loop has lost nothing. Before the first run, the whole pattern matches where the rest does.
Behind a run, it matches where some length of that run leads to a match. However long that run is
taken to be, what follows it up to here matches only bytes that the loop has passed at the same
distance. -/
structure Faithful (pattern : List Token) (subject : Bytes) (c : Cursor) : Prop where
  direct : c.last? = none → (Matches pattern subject ↔ Matches c.pattern c.subject)
  stretched : ∀ last ∈ c.last?, (Matches pattern subject ↔ Matches (.run :: last.behind) last.left)
  passed : ∀ last ∈ c.last?, ∀ k ≤ last.left.length, Matches last.behind (last.left.drop k) →
    k ≤ c.subject.length ∧ Matches c.pattern (c.subject.drop k)
  free : ∀ last ∈ c.last?, Matches c.pattern c.subject → Matches last.behind last.left

/-- What a turn must come to: a place where still nothing is lost, or the right answer. -/
def Turn.Right (pattern : List Token) (subject : Bytes) : Turn → Prop
  | .next c => Faithful pattern subject c
  | .answer isMatch => isMatch = true ↔ Matches pattern subject

namespace Faithful

theorem start (pattern : List Token) (subject : Bytes) :
    Faithful pattern subject (Cursor.start pattern subject) where
  direct _ := Iff.rfl
  stretched last noted := by cases noted
  passed last noted := by cases noted
  free last noted := by cases noted

theorem behind {last : Stretch}
    (stretched : Matches pattern subject ↔ Matches (.run :: last.behind) last.left) :
    Faithful pattern subject (Cursor.behind last) where
  direct unnoted := by cases unnoted
  stretched last' noted := by
    cases noted
    exact stretched
  passed last' noted k bound matched := by
    cases noted
    exact ⟨bound, matched⟩
  free last' noted matched := by
    cases noted
    exact matched

theorem of_rest (f : Faithful pattern subject c) (matched : Matches c.pattern c.subject) :
    Matches pattern subject := by
  cases noted : c.last? with
  | none => exact (f.direct noted).2 matched
  | some last =>
    have leads : Matches last.behind last.left := f.free last noted matched
    exact (f.stretched last noted).2 (.run [] leads)

/-- Where the rest begins with a run, no earlier run is needed: any match of the whole stretches
it. -/
theorem of_run (f : Faithful pattern subject c) {tokens : List Token}
    (first : c.pattern = .run :: tokens) : Matches pattern subject ↔ Matches c.pattern c.subject := by
  constructor
  · intro matched
    cases noted : c.last? with
    | none => exact (f.direct noted).1 matched
    | some last =>
      obtain ⟨k, bound, leads⟩ := matches_run_iff.1 ((f.stretched last noted).1 matched)
      obtain ⟨inside, rest⟩ := f.passed last noted k bound leads
      rw [first] at rest ⊢
      obtain ⟨j, bound', leads'⟩ := matches_run_iff.1 rest
      rw [List.length_drop] at bound'
      rw [List.drop_drop] at leads'
      -- The run that begins here covers what the one before it covered and its own bytes.
      exact matches_run_iff.2 ⟨k + j, by omega, leads'⟩
  · exact f.of_rest

theorem of_end (f : Faithful pattern subject c) (ended : c.subject = []) :
    Matches pattern subject ↔ Matches c.pattern c.subject := by
  constructor
  · intro matched
    cases noted : c.last? with
    | none => exact (f.direct noted).1 matched
    | some last =>
      obtain ⟨k, bound, leads⟩ := matches_run_iff.1 ((f.stretched last noted).1 matched)
      obtain ⟨inside, rest⟩ := f.passed last noted k bound leads
      rw [ended, List.drop_nil] at rest
      rwa [ended]
  · exact f.of_rest

/-- Where the rest does not match, the run noted last must be longer, and without one there is no
match. -/
theorem retreat (f : Faithful pattern subject c) (unfinished : c.subject ≠ [])
    (apart : ¬ Matches c.pattern c.subject) : (Cursor.retreat c.last?).Right pattern subject := by
  cases noted : c.last? with
  | none =>
    have unmatched : ¬ Matches pattern subject := fun matched =>
      apart ((f.direct noted).1 matched)
    simp [Cursor.retreat, Turn.Right, unmatched]
  | some last =>
    apply behind
    have within := (c.within last noted).2
    have positive : 0 < c.subject.length := List.length_pos_iff.2 unfinished
    rw [f.stretched last noted, matches_run_iff, matches_run_iff]
    simp only [List.length_tail, List.drop_tail]
    -- With the bytes that the run covers now, the rest would match here.
    constructor
    · rintro ⟨k, bound, leads⟩
      cases k with
      | zero => exact absurd (f.passed last noted 0 bound leads).2 apart
      | succ k => exact ⟨k, by omega, leads⟩
    · rintro ⟨k, bound, leads⟩
      exact ⟨k + 1, by omega, leads⟩

theorem step {tokens : List Token} {rest : Bytes} {last? : Option Stretch}
    {within : ∀ last ∈ last?, (token :: tokens).length ≤ last.behind.length ∧
      (b :: rest).length ≤ last.left.length}
    (f : Faithful pattern subject ⟨token :: tokens, b :: rest, last?, within⟩)
    (single : token ≠ .run) (accepted : token.accepts b = true)
    (within' : ∀ last ∈ last?, tokens.length ≤ last.behind.length ∧
      rest.length ≤ last.left.length) :
    Faithful pattern subject ⟨tokens, rest, last?, within'⟩ where
  direct unnoted := by
    rw [f.direct unnoted]
    exact matches_agreed_iff single accepted
  stretched := f.stretched
  passed last noted k bound leads := by
    obtain ⟨inside, matched⟩ := f.passed last noted k bound leads
    obtain ⟨a, left, here, -, matched⟩ := (matches_token_iff single).1 matched
    have beyond : rest.drop k = left := by
      have tails : ((b :: rest).drop k).tail = left := by rw [here, List.tail_cons]
      rw [List.tail_drop, List.drop_succ_cons] at tails
      exact tails
    have shorter : k < (b :: rest).length := by
      have positive : 0 < ((b :: rest).drop k).length := by
        rw [here]
        exact Nat.succ_pos _
      rw [List.length_drop] at positive
      omega
    refine ⟨Nat.le_of_lt_succ shorter, ?_⟩
    rw [beyond]
    exact matched
  free last noted matched := f.free last noted ((matches_agreed_iff single accepted).2 matched)

theorem turn (f : Faithful pattern subject c) : c.turn.Right pattern subject := by
  unfold Cursor.turn
  split
  case h_1 tokens last? within =>
    have ended := f.of_end rfl
    rw [matches_empty_iff] at ended
    exact ended.symm
  case h_2 b rest last? within =>
    apply f.retreat (List.cons_ne_nil b rest)
    rw [matches_nil_iff]
    exact List.cons_ne_nil b rest
  case h_3 tokens b rest last? within => exact behind (f.of_run rfl)
  case h_4 token tokens b rest last? within single =>
    split
    case isTrue accepted => exact f.step single accepted _
    case isFalse refused =>
      apply f.retreat (List.cons_ne_nil b rest)
      rw [matches_token_iff single]
      rintro ⟨a, left, here, accepted, -⟩
      cases here
      exact refused accepted

/-- The answer of the loop, wherever it stands, is that for the whole. -/
theorem search_iff {c : Cursor} (f : Faithful pattern subject c) :
    c.search = true ↔ Matches pattern subject := by
  have right := f.turn
  rw [Cursor.search]
  cases came : c.turn with
  | answer isMatch =>
    rw [came] at right
    exact right
  | next next =>
    rw [came] at right
    exact search_iff right
termination_by c.slack
decreasing_by exact Cursor.slack_turn ‹_›

end Faithful

def Cursor.advance : Nat → Cursor → Turn
  | 0, c => .next c
  | turns + 1, c =>
    match c.turn with
    | .next next => next.advance turns
    | .answer isMatch => .answer isMatch

theorem Cursor.advance_eq {turns : Nat} (enough : c.slack < turns) :
    c.advance turns = .answer c.search := by
  induction turns generalizing c with
  | zero => exact absurd enough (Nat.not_lt_zero _)
  | succ turns ih =>
    rw [advance, search]
    cases came : c.turn with
    | answer isMatch => rfl
    | next next =>
      have less := slack_turn came
      exact ih (by omega)

theorem Cursor.slack_start (pattern : List Token) (subject : Bytes) :
    (start pattern subject).slack =
      (pattern.length + subject.length) * (subject.length + 1) + subject.length := rfl

end RowStore.Text.Like

namespace RowStore.Cell

open RowStore.Text (Bytes)
open RowStore.Text.Like (Cursor Faithful Matches Token)

/-- For byte strings of any content the answer is whether the subject is one of those that the pattern
stands for, both up to their first zero byte. The loop has come to it after a number of turns that the
two lengths determine. -/
theorem isLike_exact (subject pattern : Bytes) :
    ∃ isMatch, (Value.chars subject).isLike (.chars pattern) = .ok isMatch ∧
      (isMatch = true ↔
        Matches ((Bytes.content pattern).map Token.ofByte) (Bytes.content subject)) ∧
      (Cursor.start ((Bytes.content pattern).map Token.ofByte) (Bytes.content subject)).advance
        (((Bytes.content pattern).length + (Bytes.content subject).length + 1) *
          ((Bytes.content subject).length + 1)) = .answer isMatch := by
  refine ⟨_, rfl, ?_, ?_⟩
  · exact (Faithful.start _ _).search_iff
  · apply Cursor.advance_eq
    rw [Cursor.slack_start, List.length_map, Nat.succ_mul]
    omega

end RowStore.Cell
