/- RowStore/Proofs/Table/Heap
   role: theorems
   digest: The rows that a view shows behind a given one, in the order of their ids. -/

import RowStore.Proofs.Table.Rows
import RowStore.Table.Heap

set_option autoImplicit false
set_option relaxedAutoImplicit false

namespace RowStore.Table.Heap

open RowStore.Row (Record RowId)
open RowStore.Transaction (Timestamp TxnId View)

variable {heap : Heap} {stamps : TxnId → Timestamp} {view : View} {cursor : Option RowId}
  {row : Record} {rest : List Record}

def ahead (heap : Heap) (stamps : TxnId → Timestamp) (view : View) (cursor : Option RowId) :
    List Record :=
  heap.rows.entries.filterMap fun e =>
    if cursor.all (fun row => decide (row < e.1)) then
      (e.2.read stamps view).map fun data => ⟨e.1, data⟩
    else none

theorem next_eq_head? (heap : Heap) (stamps : TxnId → Timestamp) (view : View)
    (cursor : Option RowId) :
    heap.next stamps view cursor = (heap.ahead stamps view cursor).head? := by
  unfold next ahead
  rw [List.head?_filterMap]

theorem ahead_none (heap : Heap) (stamps : TxnId → Timestamp) (view : View) :
    heap.ahead stamps view none = heap.readAll stamps view := by
  unfold ahead readAll
  simp only [Option.all_none, if_true]

theorem length_ahead_le (heap : Heap) (stamps : TxnId → Timestamp) (view : View)
    (cursor : Option RowId) : (heap.ahead stamps view cursor).length ≤ heap.rows.size := by
  unfold ahead Rows.size
  exact List.length_filterMap_le _ _

theorem mem_ahead : row ∈ heap.ahead stamps view cursor ↔
    (∀ id, cursor = some id → id < row.id) ∧
      (heap.rows.chain row.id).read stamps view = some row.data := by
  unfold ahead
  rw [List.mem_filterMap]
  constructor
  · rintro ⟨e, he, shown⟩
    obtain ⟨stored, -⟩ := (Rows.mem_entries_iff heap.rows).1 he
    split at shown
    case isTrue behind =>
      obtain ⟨data, found, rfl⟩ := Option.map_eq_some_iff.1 shown
      refine ⟨fun id at' => ?_, ?_⟩
      · rw [at', Option.all_some] at behind
        exact of_decide_eq_true behind
      · rw [← stored] at found
        exact found
    case isFalse => cases shown
  · rintro ⟨behind, found⟩
    have occupied : heap.rows.chain row.id ≠ [] := by
      intro empty
      rw [empty] at found
      cases found
    refine ⟨(row.id, heap.rows.chain row.id),
      (Rows.mem_entries_iff heap.rows).2 ⟨rfl, occupied⟩, ?_⟩
    have ahead : cursor.all (fun id => decide (id < row.id)) = true := by
      cases cursor with
      | none => rw [Option.all_none]
      | some id =>
        rw [Option.all_some]
        exact decide_eq_true (behind id rfl)
    rw [if_pos ahead, found]
    rfl

theorem occupied_of_mem_ahead (mem : row ∈ heap.ahead stamps view cursor) :
    heap.rows.chain row.id ≠ [] := by
  intro empty
  have shown := (mem_ahead.1 mem).2
  rw [empty] at shown
  cases shown

theorem ahead_increasing (heap : Heap) (stamps : TxnId → Timestamp) (view : View)
    (cursor : Option RowId) :
    (heap.ahead stamps view cursor).Pairwise fun a b => a.id < b.id := by
  apply List.Pairwise.filterMap _ _ heap.rows.increasing
  intro e f lt a ha b hb
  have id_eq {e : RowId × Chain} {r : Record}
      (shown : (if cursor.all (fun row => decide (row < e.1)) then
        (e.2.read stamps view).map fun data => (⟨e.1, data⟩ : Record) else none) = some r) :
      r.id = e.1 := by
    split at shown
    · obtain ⟨data, -, rfl⟩ := Option.map_eq_some_iff.1 shown
      rfl
    · cases shown
  rwa [id_eq ha, id_eq hb]

private theorem eq_of_mem_iff {a b : List Record} (ha : a.Pairwise fun r s => r.id < s.id)
    (hb : b.Pairwise fun r s => r.id < s.id) (same : ∀ r, r ∈ a ↔ r ∈ b) : a = b := by
  have nodup {l : List Record} (h : l.Pairwise fun r s => r.id < s.id) : l.Nodup := by
    apply h.imp
    rintro r s lt rfl
    exact RowId.lt_irrefl _ lt
  have perm : a.Perm b := (List.perm_ext_iff_of_nodup (nodup ha) (nodup hb)).2 same
  refine perm.eq_of_pairwise (fun r s _ _ lt gt => ?_) ha hb
  exact absurd (RowId.lt_trans lt gt) (RowId.lt_irrefl _)

theorem ahead_of_cons (ahead : heap.ahead stamps view cursor = row :: rest) :
    heap.ahead stamps view (some row.id) = rest := by
  have increasing := heap.ahead_increasing stamps view cursor
  rw [ahead] at increasing
  obtain ⟨above, tail⟩ := List.pairwise_cons.1 increasing
  have shown (r : Record) : r ∈ row :: rest ↔ _ := ahead ▸ mem_ahead
  apply eq_of_mem_iff (heap.ahead_increasing stamps view _) tail
  intro r
  rw [mem_ahead]
  constructor
  · rintro ⟨behind, found⟩
    have lt : row.id < r.id := behind row.id rfl
    have mem : r ∈ row :: rest := by
      refine (shown r).2 ⟨fun id at' => ?_, found⟩
      exact RowId.lt_trans (((shown row).1 List.mem_cons_self).1 id at') lt
    rcases List.mem_cons.1 mem with rfl | later
    · exact absurd lt (RowId.lt_irrefl _)
    · exact later
  · intro mem
    refine ⟨fun id at' => ?_, ((shown r).1 (List.mem_cons_of_mem row mem)).2⟩
    cases at'
    exact above r mem

/-- Only the rows behind the given one matter. -/
theorem ahead_congr {other : Heap} {stamps' : TxnId → Timestamp}
    (same : ∀ id, (∀ last, cursor = some last → last < id) →
      (other.rows.chain id).read stamps' view = (heap.rows.chain id).read stamps view) :
    other.ahead stamps' view cursor = heap.ahead stamps view cursor := by
  refine eq_of_mem_iff (other.ahead_increasing stamps' view cursor)
    (heap.ahead_increasing stamps view cursor) fun r => ?_
  rw [mem_ahead, mem_ahead]
  apply and_congr_right
  intro behind
  rw [same r.id behind]

end RowStore.Table.Heap
