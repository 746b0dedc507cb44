/- RowStore/Proofs/Transaction/PageUse
   role: theorems
   digest: Followed from use to use, the lock of a page is the one that the last use of its kind set. -/

import Mathlib.Data.List.Induction
import RowStore.Proofs.Transaction.Locks
import RowStore.Transaction.PageUse

set_option autoImplicit false
set_option relaxedAutoImplicit false

namespace RowStore.Transaction

variable {page other : UInt32} {mode : LockMode} {locks checked : LockTable} {uses : List PageUse}
  {use : PageUse}

namespace PageUse

theorem since_nil {begins keeps : List PageUse → PageUse → Prop} : ¬ Since begins keeps [] := by
  rintro ⟨i, use, found, -⟩
  cases found

/-- Either the newest use brings it about, or that use lets stand what holds without it. -/
theorem since_append_singleton {begins keeps : List PageUse → PageUse → Prop} :
    Since begins keeps (uses ++ [use]) ↔
      begins uses use ∨ keeps uses use ∧ Since begins keeps uses := by
  have old {i : Nat} (bound : i < uses.length) :
      (uses ++ [use])[i]? = uses[i]? ∧ (uses ++ [use]).take i = uses.take i :=
    ⟨List.getElem?_append_left bound, List.take_append_of_le_length (Nat.le_of_lt bound)⟩
  have newest : (uses ++ [use])[uses.length]? = some use := List.getElem?_concat_length
  have all : (uses ++ [use]).take uses.length = uses := List.take_left
  constructor
  · rintro ⟨i, first, found, begun, kept⟩
    have bound : i < uses.length + 1 := by
      simpa using (List.getElem?_eq_some_iff.1 found).1
    rcases Nat.lt_succ_iff_lt_or_eq.1 bound with before | rfl
    · rw [(old before).1] at found
      rw [(old before).2] at begun
      have last := kept uses.length use before newest
      rw [all] at last
      refine Or.inr ⟨last, i, first, found, begun, fun j later lt found' => ?_⟩
      have inside := (List.getElem?_eq_some_iff.1 found').1
      rw [← (old inside).2]
      exact kept j later lt ((old inside).1.trans found')
    · rw [newest] at found
      cases found
      rw [all] at begun
      exact Or.inl begun
  · rintro (begun | ⟨last, i, first, found, begun, kept⟩)
    · refine ⟨uses.length, use, newest, all.symm ▸ begun, fun j later lt found' => ?_⟩
      have inside : j < uses.length + 1 := by
        simpa using (List.getElem?_eq_some_iff.1 found').1
      omega
    · have before := (List.getElem?_eq_some_iff.1 found).1
      refine ⟨i, first, (old before).1.trans found, (old before).2.symm ▸ begun, ?_⟩
      intro j later lt found'
      have inside : j < uses.length + 1 := by
        simpa using (List.getElem?_eq_some_iff.1 found').1
      rcases Nat.lt_succ_iff_lt_or_eq.1 inside with earlier | rfl
      · rw [(old earlier).1] at found'
        rw [(old earlier).2]
        exact kept j later lt found'
      · rw [newest] at found'
        cases found'
        rw [all]
        exact last

theorem entered_append_singleton :
    Entered page (uses ++ [use]) ↔ use.Enters page ∨ use ≠ .ended ∧ Entered page uses :=
  since_append_singleton

theorem lastSet_append_singleton :
    LastSet page (uses ++ [use]) mode ↔
      use.Sets page uses mode ∨
        (use ≠ .ended ∧ ∀ asked, ¬ use.Sets page uses asked) ∧ LastSet page uses mode :=
  since_append_singleton

def leave (page : UInt32) (held : Option LockMode) : PageUse → Option LockMode
  | .written used => if used = page then some .readWrite else held
  | .recorded used mode =>
    if used = page then if mode = .readWrite then some .readWrite else held.or (some mode) else held
  | .checked used mode => if used = page then held.map fun _ => mode else held
  | .ended => none

def leaveAll (page : UInt32) (held : Option LockMode) (uses : List PageUse) : Option LockMode :=
  uses.foldl (leave page) held

theorem leaveAll_append (page : UInt32) (held : Option LockMode) (uses later : List PageUse) :
    leaveAll page held (uses ++ later) = leaveAll page (leaveAll page held uses) later :=
  List.foldl_append

/-- The uses decide the mode of a page: it has one just if it was entered, and that is the one set
last. -/
structure Follows (page : UInt32) (uses : List PageUse) (held : Option LockMode) : Prop where
  entered : held ≠ none ↔ Entered page uses
  lastSet : ∀ mode, held = some mode ↔ LastSet page uses mode

namespace Follows

variable {held : Option LockMode}

theorem nil (page : UInt32) : Follows page [] none where
  entered := iff_of_false (fun some => some rfl) since_nil
  lastSet _ := iff_of_false nofun since_nil

theorem set (follows : Follows page uses held) (here : use.Sets page uses mode)
    (only : ∀ asked, use.Sets page uses asked → asked = mode) (lasts : use ≠ .ended)
    (enters : use.Enters page ∨ held ≠ none) : Follows page (uses ++ [use]) (some mode) where
  entered := by
    rw [entered_append_singleton, ← follows.entered]
    exact iff_of_true nofun (enters.imp_right fun present => ⟨lasts, present⟩)
  lastSet asked := by
    rw [lastSet_append_singleton]
    constructor
    · rintro ⟨⟩
      exact Or.inl here
    · rintro (sets | ⟨⟨-, unset⟩, -⟩)
      · rw [only asked sets]
      · exact absurd here (unset mode)

theorem keep (follows : Follows page uses held) (unset : ∀ asked, ¬ use.Sets page uses asked)
    (lasts : use ≠ .ended) (enters : use.Enters page → held ≠ none) :
    Follows page (uses ++ [use]) held where
  entered := by
    rw [entered_append_singleton, ← follows.entered]
    exact ⟨fun present => Or.inr ⟨lasts, present⟩, fun step => step.elim enters And.right⟩
  lastSet asked := by
    rw [lastSet_append_singleton, ← follows.lastSet]
    exact ⟨fun same => Or.inr ⟨⟨lasts, unset⟩, same⟩,
      fun step => step.elim (fun sets => absurd sets (unset asked)) And.right⟩

theorem ended (page : UInt32) (uses : List PageUse) : Follows page (uses ++ [.ended]) none where
  entered := by
    rw [entered_append_singleton]
    exact iff_of_false (fun some => some rfl) (fun step => step.elim id fun later => later.1 rfl)
  lastSet asked := by
    rw [lastSet_append_singleton]
    exact iff_of_false nofun (fun step => step.elim id fun later => later.1.1 rfl)

theorem step (follows : Follows page uses held) (use : PageUse) :
    Follows page (uses ++ [use]) (use.leave page held) := by
  cases use with
  | written used =>
    by_cases same : used = page
    · rw [leave, if_pos same]
      exact follows.set ⟨same, rfl⟩ (fun asked sets => sets.2) nofun (Or.inl same)
    · rw [leave, if_neg same]
      exact follows.keep (fun asked sets => same sets.1) nofun fun enters => absurd enters same
  | recorded used mode =>
    by_cases same : used = page
    · rw [leave, if_pos same]
      split
      case isTrue raised =>
        subst raised
        exact follows.set ⟨same, rfl, Or.inl rfl⟩ (fun asked sets => sets.2.1) nofun (Or.inl same)
      case isFalse weak =>
        cases held with
        | none =>
          have fresh : ¬ Entered page uses := fun entered => follows.entered.2 entered rfl
          exact follows.set ⟨same, rfl, Or.inr fresh⟩ (fun asked sets => sets.2.1) nofun (Or.inl same)
        | some before =>
          have present : Entered page uses := follows.entered.1 nofun
          exact follows.keep (fun asked sets => sets.2.2.elim weak fun fresh => fresh present) nofun
            fun _ => nofun
    · rw [leave, if_neg same]
      exact follows.keep (fun asked sets => same sets.1) nofun fun enters => absurd enters same
  | checked used mode =>
    by_cases same : used = page
    · rw [leave, if_pos same]
      cases held with
      | none =>
        exact follows.keep (fun asked sets => follows.entered.2 sets.2.2 rfl) nofun False.elim
      | some before =>
        have present : Entered page uses := follows.entered.1 nofun
        exact follows.set ⟨same, rfl, present⟩ (fun asked sets => sets.2.1) nofun (Or.inr nofun)
    · rw [leave, if_neg same]
      exact follows.keep (fun asked sets => same sets.1) nofun False.elim
  | ended => exact ended page uses

end Follows

/-- A page that starts without a mode has, after any uses, the mode that these say. -/
theorem follows_leaveAll (page : UInt32) (uses : List PageUse) :
    Follows page uses (leaveAll page none uses) := by
  induction uses using List.reverseRecOn with
  | nil => exact .nil page
  | append_singleton uses use ih =>
    rw [leaveAll_append]
    exact ih.step use

end PageUse

namespace LockTable

theorem modeOf?_recorded (locks : LockTable) (page other : UInt32) (mode : LockMode) :
    (locks.record page mode).modeOf? other =
      (PageUse.recorded page mode).leave other (locks.modeOf? other) := by
  rw [PageUse.leave]
  by_cases apart : page = other
  · subst apart
    rw [if_pos rfl]
    cases mode with
    | readWrite => rw [if_pos rfl, modeOf?_record, if_pos rfl]
    | readOnly =>
      rw [if_neg nofun]
      by_cases absent : locks.modeOf? page = none
      · rw [modeOf?_record_of_absent absent, if_pos rfl, absent, Option.none_or]
      · obtain ⟨held, found⟩ := Option.ne_none_iff_exists'.1 absent
        rw [record_readOnly_of_present absent, found, Option.some_or]
  · rw [if_neg apart]
    by_cases absent : locks.modeOf? page = none
    · rw [modeOf?_record_of_absent absent, if_neg (Ne.symm apart)]
    · cases mode with
      | readWrite => rw [modeOf?_record, if_neg (Ne.symm apart)]
      | readOnly => rw [record_readOnly_of_present absent]

theorem modeOf?_checked (done : locks.check page mode = .ok checked) (other : UInt32) :
    checked.modeOf? other = (PageUse.checked page mode).leave other (locks.modeOf? other) := by
  rw [modeOf?_check done, PageUse.leave]
  by_cases same : other = page
  · rw [if_pos same, if_pos same.symm, same]
  · rw [if_neg same, if_neg (Ne.symm same)]

end LockTable

end RowStore.Transaction
