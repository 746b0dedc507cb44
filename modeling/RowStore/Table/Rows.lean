/- RowStore/Table/Rows
   role: definitions
   digest: The rows of a table in the order of their ids, each with its non-empty chain. -/

import RowStore.Table.Chain

set_option autoImplicit false
set_option relaxedAutoImplicit false

namespace RowStore.Table

open RowStore.Row (RowId)

/-- Rows with their chains in the order of the row ids; rows without versions are left out. -/
structure Rows where
  entries : List (RowId × Chain)
  increasing : entries.Pairwise fun a b => a.1 < b.1
  occupied : ∀ e ∈ entries, e.2 ≠ []

namespace Rows

def empty : Rows := ⟨[], List.Pairwise.nil, by simp⟩

/-- An id in front of a list of rows, if its chain has versions. -/
def consOccupied (id : RowId) (chain : Chain) (entries : List (RowId × Chain)) :
    List (RowId × Chain) :=
  if chain = [] then entries else (id, chain) :: entries

def place (id : RowId) (chain : Chain) : List (RowId × Chain) → List (RowId × Chain)
  | [] => consOccupied id chain []
  | e :: rest =>
    if e.1 < id then e :: place id chain rest
    else if e.1 = id then consOccupied id chain rest
    else consOccupied id chain (e :: rest)

theorem mem_consOccupied {id : RowId} {chain : Chain} {entries : List (RowId × Chain)}
    {e : RowId × Chain} :
    e ∈ consOccupied id chain entries ↔ (e = (id, chain) ∧ chain ≠ []) ∨ e ∈ entries := by
  unfold consOccupied
  split <;> simp_all

theorem mem_of_mem_place {id : RowId} {chain : Chain} {entries : List (RowId × Chain)}
    {e : RowId × Chain} (h : e ∈ place id chain entries) :
    (e = (id, chain) ∧ chain ≠ []) ∨ e ∈ entries := by
  induction entries with
  | nil => simpa [place, mem_consOccupied] using h
  | cons head rest ih =>
    unfold place at h
    split at h
    · rcases List.mem_cons.1 h with rfl | h
      · simp
      · rcases ih h with h | h <;> simp [h]
    · split at h
      · rcases mem_consOccupied.1 h with h | h <;> simp [h]
      · rcases mem_consOccupied.1 h with h | h
        · exact Or.inl h
        · exact Or.inr h

private theorem consOccupied_increasing {id : RowId} {chain : Chain}
    {entries : List (RowId × Chain)} (h : entries.Pairwise fun a b => a.1 < b.1)
    (above : ∀ e ∈ entries, id < e.1) :
    (consOccupied id chain entries).Pairwise fun a b => a.1 < b.1 := by
  unfold consOccupied
  split
  · exact h
  · exact List.pairwise_cons.2 ⟨above, h⟩

theorem place_increasing {id : RowId} {chain : Chain} {entries : List (RowId × Chain)}
    (h : entries.Pairwise fun a b => a.1 < b.1) :
    (place id chain entries).Pairwise fun a b => a.1 < b.1 := by
  induction entries with
  | nil => exact consOccupied_increasing h (by simp)
  | cons head rest ih =>
    obtain ⟨above, tail⟩ := List.pairwise_cons.1 h
    unfold place
    split
    case isTrue below =>
      refine List.pairwise_cons.2 ⟨fun e he => ?_, ih tail⟩
      rcases mem_of_mem_place he with ⟨rfl, _⟩ | he
      · exact below
      · exact above e he
    case isFalse notBelow =>
      split
      case isTrue same => exact consOccupied_increasing tail (same ▸ above)
      case isFalse other =>
        have first : id < head.1 := by
          apply Decidable.byContradiction
          intro notAbove
          exact other (RowId.eq_of_not_lt notBelow notAbove)
        refine consOccupied_increasing h fun e he => ?_
        rcases List.mem_cons.1 he with rfl | he
        · exact first
        · exact RowId.lt_trans first (above e he)

private theorem lookup_cons_of_ne {id other : RowId} (chain : Chain)
    (entries : List (RowId × Chain)) (apart : other ≠ id) :
    ((id, chain) :: entries).lookup other = entries.lookup other := by
  rw [List.lookup_cons, beq_false_of_ne apart]

private theorem lookup_eq_none_of_above {id : RowId} {entries : List (RowId × Chain)}
    (above : ∀ e ∈ entries, id < e.1) : entries.lookup id = none := by
  induction entries with
  | nil => rfl
  | cons head rest ih =>
    have first : id < head.1 := above head List.mem_cons_self
    have apart : id ≠ head.1 := fun same => RowId.lt_irrefl id (by rwa [← same] at first)
    rw [lookup_cons_of_ne head.2 rest apart]
    exact ih fun e he => above e (List.mem_cons_of_mem head he)

private theorem lookup_consOccupied {id other : RowId} {chain : Chain}
    {entries : List (RowId × Chain)} (above : ∀ e ∈ entries, id < e.1) :
    ((consOccupied id chain entries).lookup other).getD [] =
      if other = id then chain else (entries.lookup other).getD [] := by
  unfold consOccupied
  by_cases same : other = id
  · subst same
    by_cases absent : chain = []
    · simp [absent, lookup_eq_none_of_above above]
    · simp [absent]
  · by_cases absent : chain = []
    · simp [absent, same]
    · simp [absent, same, lookup_cons_of_ne chain entries same]

private theorem lookup_place {id other : RowId} {chain : Chain} {entries : List (RowId × Chain)}
    (h : entries.Pairwise fun a b => a.1 < b.1) :
    ((place id chain entries).lookup other).getD [] =
      if other = id then chain else (entries.lookup other).getD [] := by
  induction entries with
  | nil => exact lookup_consOccupied (by simp)
  | cons head rest ih =>
    obtain ⟨above, tail⟩ := List.pairwise_cons.1 h
    unfold place
    split
    case isTrue below =>
      by_cases atHead : other = head.1
      · have apart : other ≠ id := fun same => RowId.lt_irrefl id (by rwa [← atHead, same] at below)
        rw [if_neg apart, atHead, List.lookup_cons_self, List.lookup_cons_self]
      · rw [lookup_cons_of_ne head.2 _ atHead, lookup_cons_of_ne head.2 rest atHead]
        exact ih tail
    case isFalse notBelow =>
      split
      case isTrue same =>
        rw [lookup_consOccupied (same ▸ above)]
        by_cases atHead : other = id
        · simp [atHead]
        · rw [lookup_cons_of_ne head.2 rest (same ▸ atHead)]
      case isFalse apart =>
        refine lookup_consOccupied fun e he => ?_
        have first : id < head.1 := by
          apply Decidable.byContradiction
          intro notAbove
          exact apart (RowId.eq_of_not_lt notBelow notAbove)
        rcases List.mem_cons.1 he with rfl | he
        · exact first
        · exact RowId.lt_trans first (above e he)

def set (rows : Rows) (id : RowId) (chain : Chain) : Rows where
  entries := place id chain rows.entries
  increasing := place_increasing rows.increasing
  occupied := fun e he => by
    rcases mem_of_mem_place he with ⟨rfl, h⟩ | h
    · exact h
    · exact rows.occupied e h

/-- The chain of an id; it is empty when there is no such row. -/
def chain (rows : Rows) (id : RowId) : Chain := (rows.entries.lookup id).getD []

/-- A replaced chain is found under its id, and every other chain is left as it was. -/
theorem chain_set (rows : Rows) (id other : RowId) (new : Chain) :
    (rows.set id new).chain other = if other = id then new else rows.chain other :=
  lookup_place rows.increasing

def size (rows : Rows) : Nat := rows.entries.length

def versionCount (rows : Rows) : Nat :=
  rows.entries.foldr (fun e total => e.2.length + total) 0

end Rows

end RowStore.Table
