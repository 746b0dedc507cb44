/- RowStore/Proofs/Table/Rows
   role: theorems
   digest: Rows are determined by their chains, and how many versions they hold together. -/

import Mathlib.Data.List.Perm.Basic
import RowStore.Table.Rows

set_option autoImplicit false
set_option relaxedAutoImplicit false

namespace RowStore.Table.Rows

open RowStore.Row (RowId)

theorem mem_entries_iff (rows : Rows) {e : RowId × Chain} :
    e ∈ rows.entries ↔ rows.chain e.1 = e.2 ∧ e.2 ≠ [] := by
  obtain ⟨id, chain⟩ := e
  constructor
  · intro mem
    refine ⟨?_, rows.occupied _ mem⟩
    obtain ⟨before, after, eq⟩ := List.append_of_mem mem
    have increasing := rows.increasing
    rw [eq] at increasing
    have found : rows.entries.lookup id = some chain := by
      refine List.lookup_eq_some_iff.2 ⟨before, after, eq, fun e he => ?_⟩
      have lt := (List.pairwise_append.1 increasing).2.2 e he _ List.mem_cons_self
      simp only [bne_iff_ne, ne_eq]
      rintro rfl
      exact RowId.lt_irrefl _ lt
    unfold Rows.chain
    rw [found]
    rfl
  · rintro ⟨eq, occupied⟩
    unfold Rows.chain at eq
    cases found : rows.entries.lookup id with
    | none =>
      rw [found] at eq
      exact absurd eq.symm occupied
    | some other =>
      rw [found] at eq
      obtain ⟨before, after, split, -⟩ := List.lookup_eq_some_iff.1 found
      cases eq
      rw [split]
      exact List.mem_append_right before List.mem_cons_self

theorem eq_of_chain_eq {a b : Rows} (h : ∀ id, a.chain id = b.chain id) : a = b := by
  have nodup (rows : Rows) : rows.entries.Nodup := by
    apply rows.increasing.imp
    rintro e f lt rfl
    exact RowId.lt_irrefl _ lt
  have perm : a.entries.Perm b.entries := by
    apply (List.perm_ext_iff_of_nodup (nodup a) (nodup b)).2
    intro e
    rw [mem_entries_iff, mem_entries_iff, h]
  have entries : a.entries = b.entries := by
    refine perm.eq_of_pairwise (fun e f _ _ lt gt => ?_) a.increasing b.increasing
    exact absurd (RowId.lt_trans lt gt) (RowId.lt_irrefl _)
  cases a
  cases b
  cases entries
  rfl

private def total (entries : List (RowId × Chain)) : Nat :=
  entries.foldr (fun e total => e.2.length + total) 0

private theorem total_consOccupied (id : RowId) (chain : Chain) (entries : List (RowId × Chain)) :
    total (consOccupied id chain entries) = chain.length + total entries := by
  unfold consOccupied
  split
  case isTrue absent => rw [absent, List.length_nil, Nat.zero_add]
  case isFalse => rfl

private theorem total_place {id : RowId} (chain : Chain) {entries : List (RowId × Chain)}
    (increasing : entries.Pairwise fun a b => a.1 < b.1) :
    total (place id chain entries) + ((entries.lookup id).getD []).length =
      total entries + chain.length := by
  induction entries with
  | nil =>
    rw [place, total_consOccupied, List.lookup_nil, Option.getD_none, List.length_nil]
    omega
  | cons head rest ih =>
    obtain ⟨above, tail⟩ := List.pairwise_cons.1 increasing
    have counted : total (head :: rest) = head.2.length + total rest := rfl
    unfold place
    split
    case isTrue below =>
      have apart : id ≠ head.1 := by
        rintro rfl
        exact RowId.lt_irrefl _ below
      have later := ih tail
      have counted' : total (head :: place id chain rest) =
          head.2.length + total (place id chain rest) := rfl
      rw [List.lookup_cons, beq_false_of_ne apart, counted, counted']
      dsimp only
      omega
    case isFalse notBelow =>
      split
      case isTrue same =>
        rw [total_consOccupied, List.lookup_cons, ← same, beq_self_eq_true, counted]
        dsimp only
        rw [Option.getD_some]
        omega
      case isFalse apart =>
        have first : id < head.1 := by
          apply Decidable.byContradiction
          intro notAbove
          exact apart (RowId.eq_of_not_lt notBelow notAbove)
        have absent : (head :: rest).lookup id = none := by
          apply List.lookup_eq_none_iff.2
          intro e mem
          have lt : id < e.1 := by
            rcases List.mem_cons.1 mem with rfl | later
            · exact first
            · exact RowId.lt_trans first (above e later)
          rw [bne_iff_ne]
          intro same
          rw [same] at lt
          exact RowId.lt_irrefl e.1 lt
        rw [total_consOccupied, absent, Option.getD_none, List.length_nil]
        omega

theorem versionCount_set (rows : Rows) (id : RowId) (chain : Chain) :
    (rows.set id chain).versionCount + (rows.chain id).length =
      rows.versionCount + chain.length :=
  total_place chain rows.increasing

theorem set_set (rows : Rows) (id : RowId) (first second : Chain) :
    (rows.set id first).set id second = rows.set id second := by
  apply eq_of_chain_eq
  intro other
  rw [chain_set, chain_set, chain_set]
  split <;> rfl

end RowStore.Table.Rows
