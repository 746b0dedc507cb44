/- RowStore/Proofs/Transaction/Locks
   role: theorems
   digest: Checking a page never fails, and for writing it may come before or after the writes. -/

import RowStore.Transaction.Locks

set_option autoImplicit false
set_option relaxedAutoImplicit false

namespace RowStore.Transaction.LockTable

variable {page other : UInt32} {mode : LockMode}

private theorem lookup_switch (entries : List (UInt32 × LockMode)) (page other : UInt32)
    (mode : LockMode) :
    (entries.map fun e => if e.1 = page then (page, mode) else e).lookup other =
      if other = page then (entries.lookup page).map fun _ => mode else entries.lookup other := by
  induction entries with
  | nil => simp
  | cons e rest ih =>
    obtain ⟨key, held⟩ := e
    rw [List.map_cons]
    by_cases atPage : key = page
    · subst atPage
      rw [if_pos rfl]
      by_cases same : other = key
      · simp [same]
      · rw [List.lookup_cons, beq_false_of_ne same, ih, if_neg same, if_neg same,
          List.lookup_cons, beq_false_of_ne same]
    · rw [if_neg atPage]
      by_cases same : other = key
      · subst same
        rw [if_neg atPage]
        simp
      · rw [List.lookup_cons, beq_false_of_ne same, ih, List.lookup_cons,
          beq_false_of_ne (Ne.symm atPage), List.lookup_cons, beq_false_of_ne same]

theorem modeOf?_switch (locks : LockTable) (page other : UInt32) (mode : LockMode) :
    (locks.switch page mode).modeOf? other =
      if other = page then (locks.modeOf? page).map fun _ => mode else locks.modeOf? other :=
  lookup_switch locks.entries page other mode

theorem switch_switch (locks : LockTable) (page : UInt32) (mode : LockMode) :
    (locks.switch page mode).switch page mode = locks.switch page mode := by
  unfold switch
  rw [List.map_map]
  congr 1
  apply List.map_congr_left
  intro e _
  by_cases atPage : e.1 = page
  · simp [atPage]
  · simp [atPage]

theorem switch_comm (locks : LockTable) (page other : UInt32) (mode : LockMode) :
    (locks.switch page mode).switch other mode = (locks.switch other mode).switch page mode := by
  unfold switch
  rw [List.map_map, List.map_map]
  congr 1
  apply List.map_congr_left
  intro e _
  by_cases atPage : e.1 = page
  · by_cases atOther : e.1 = other
    · simp [← atPage, ← atOther]
    · have apart : page ≠ other := atPage ▸ atOther
      simp [atPage, apart]
  · by_cases atOther : e.1 = other
    · have apart : other ≠ page := atOther ▸ atPage
      simp [atOther, apart]
    · simp [atPage, atOther]

/-- The table after a check for writing: a lock held for reading is raised. -/
def raise (locks : LockTable) (page : UInt32) : LockTable :=
  if locks.modeOf? page = some .readOnly then locks.switch page .readWrite else locks

theorem check_readWrite (locks : LockTable) (page : UInt32) :
    locks.check page .readWrite = .ok (locks.raise page) := by
  unfold check raise
  cases held : locks.modeOf? page with
  | none => simp
  | some mode => cases mode <;> simp [LockMode.maySwitch]

theorem exists_check (locks : LockTable) (page : UInt32) (mode : LockMode) :
    ∃ checked, locks.check page mode = .ok checked := by
  unfold check
  cases held : locks.modeOf? page with
  | none => exact ⟨locks, rfl⟩
  | some before => cases before <;> cases mode <;> simp [LockMode.maySwitch]

theorem raise_eq_self {locks : LockTable} (held : locks.modeOf? page ≠ some .readOnly) :
    locks.raise page = locks := by
  unfold raise
  rw [if_neg held]

theorem modeOf?_raise_ne (locks : LockTable) (page : UInt32) :
    (locks.raise page).modeOf? page ≠ some .readOnly := by
  simp only [raise]
  split
  case isTrue held => simp [modeOf?_switch, held]
  case isFalse other => exact other

theorem raise_raise (locks : LockTable) (page : UInt32) :
    (locks.raise page).raise page = locks.raise page :=
  raise_eq_self (modeOf?_raise_ne locks page)

theorem record_of_absent {locks : LockTable} (absent : locks.modeOf? page = none)
    (mode : LockMode) : locks.record page mode = ⟨locks.entries ++ [(page, mode)]⟩ := by
  unfold record
  rw [absent]

theorem record_of_present {locks : LockTable} (present : locks.modeOf? page ≠ none) :
    locks.record page .readWrite = locks.switch page .readWrite := by
  obtain ⟨held, found⟩ := Option.ne_none_iff_exists'.1 present
  unfold record
  rw [found]
  rfl

theorem record_readOnly_of_present {locks : LockTable} (present : locks.modeOf? page ≠ none) :
    locks.record page .readOnly = locks := by
  obtain ⟨held, found⟩ := Option.ne_none_iff_exists'.1 present
  unfold record
  rw [found]
  rfl

theorem modeOf?_record_of_absent {locks : LockTable} (absent : locks.modeOf? page = none)
    (mode : LockMode) (other : UInt32) :
    (locks.record page mode).modeOf? other =
      if other = page then some mode else locks.modeOf? other := by
  rw [record_of_absent absent]
  unfold modeOf? at absent ⊢
  rw [List.lookup_append]
  by_cases same : other = page
  · simp [same, absent]
  · rw [List.lookup_cons, beq_false_of_ne same, if_neg same]
    simp

theorem modeOf?_record (locks : LockTable) (page other : UInt32) :
    (locks.record page .readWrite).modeOf? other =
      if other = page then some .readWrite else locks.modeOf? other := by
  by_cases absent : locks.modeOf? page = none
  · exact modeOf?_record_of_absent absent .readWrite other
  · rw [record_of_present absent, modeOf?_switch]
    obtain ⟨held, found⟩ := Option.ne_none_iff_exists'.1 absent
    rw [found]
    rfl

/-- A check moves the mode of a page that has one, and makes no entry. -/
theorem modeOf?_check {locks checked : LockTable} (done : locks.check page mode = .ok checked)
    (other : UInt32) :
    checked.modeOf? other =
      if other = page then (locks.modeOf? page).map fun _ => mode else locks.modeOf? other := by
  unfold check at done
  split at done
  case h_1 absent =>
    cases done
    split
    case isTrue same => rw [same, absent, Option.map_none]
    case isFalse => rfl
  case h_2 held found =>
    split at done
    case isTrue same =>
      cases done
      split
      case isTrue here => rw [here, found, same, Option.map_some]
      case isFalse => rfl
    case isFalse =>
      split at done
      · cases done
        exact modeOf?_switch locks page other mode
      · cases done

theorem raise_record (locks : LockTable) (page other : UInt32) :
    (locks.record other .readWrite).raise page = (locks.raise page).record other .readWrite := by
  by_cases held : locks.modeOf? page = some .readOnly
  · have raised : locks.raise page = locks.switch page .readWrite := if_pos held
    rw [raised]
    by_cases same : page = other
    · subst same
      have present : locks.modeOf? page ≠ none := by simp [held]
      have still : (locks.switch page .readWrite).modeOf? page ≠ none := by
        simp [modeOf?_switch, held]
      rw [record_of_present present, record_of_present still, switch_switch, ← raised, raise_raise]
    · have later : (locks.record other .readWrite).modeOf? page = some .readOnly := by
        rw [modeOf?_record, if_neg same, held]
      have kept : (locks.switch page .readWrite).modeOf? other = locks.modeOf? other := by
        rw [modeOf?_switch, if_neg (Ne.symm same)]
      unfold raise
      rw [if_pos later]
      by_cases absent : locks.modeOf? other = none
      · rw [record_of_absent absent, record_of_absent (kept.trans absent)]
        unfold switch
        simp [Ne.symm same]
      · rw [record_of_present absent, record_of_present (kept ▸ absent), switch_comm]
  · have later : (locks.record other .readWrite).modeOf? page ≠ some .readOnly := by
      rw [modeOf?_record]
      split
      · simp
      · exact held
    rw [raise_eq_self held, raise_eq_self later]

end RowStore.Transaction.LockTable
