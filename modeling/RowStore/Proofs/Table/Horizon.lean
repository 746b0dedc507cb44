/- RowStore/Proofs/Table/Horizon
   role: theorems
   digest: Purging a row of any chain is exact, and purges of a row compose by their later horizon. -/

import RowStore.Proofs.Table.Purge
import RowStore.Proofs.Table.Rows
import RowStore.Table.Heap

set_option autoImplicit false
set_option relaxedAutoImplicit false

namespace RowStore.Table.Heap

open RowStore.Row (RowId)
open RowStore.Transaction (Timestamp TxnId View)

variable {heap : Heap} {stamps : TxnId → Timestamp} {horizon : Timestamp} {row : RowId}

theorem chain_purge (heap : Heap) (stamps : TxnId → Timestamp) (horizon : Timestamp)
    (row other : RowId) :
    (heap.purge stamps horizon row).2.rows.chain other =
      if other = row then (heap.rows.chain row).purge stamps horizon else heap.rows.chain other :=
  Rows.chain_set heap.rows row other _

theorem versionCount_purge (heap : Heap) (stamps : TxnId → Timestamp) (horizon : Timestamp)
    (row : RowId) :
    (heap.purge stamps horizon row).1 + (heap.purge stamps horizon row).2.rows.versionCount =
      heap.rows.versionCount := by
  have replaced := heap.rows.versionCount_set row ((heap.rows.chain row).purge stamps horizon)
  have counted := Chain.forgettable_add_length stamps horizon (heap.rows.chain row)
  change (heap.rows.chain row).forgettable stamps horizon +
    (heap.rows.set row ((heap.rows.chain row).purge stamps horizon)).versionCount = _
  omega

theorem purge_purge (heap : Heap) (stamps : TxnId → Timestamp) (first second : Timestamp)
    (row : RowId) :
    ((heap.purge stamps first row).2.purge stamps second row).2 =
        (heap.purge stamps (max first second) row).2 ∧
      (heap.purge stamps first row).1 + ((heap.purge stamps first row).2.purge stamps second row).1 =
        (heap.purge stamps (max first second) row).1 := by
  have between : (heap.purge stamps first row).2.rows.chain row =
      (heap.rows.chain row).purge stamps first := by
    rw [chain_purge, if_pos rfl]
  constructor
  · unfold purge at between ⊢
    dsimp only [modify] at between ⊢
    rw [between, Rows.set_set, Chain.purge_purge_eq_max]
  · change (heap.rows.chain row).forgettable stamps first +
      ((heap.purge stamps first row).2.rows.chain row).forgettable stamps second = _
    rw [between]
    exact Chain.forgettable_add_forgettable stamps first second _

/-- Whatever versions a row has and whatever the stamps of their creators and deleters are, a purge of
the row leaves what every view of the horizon or later reads of it, with or without a transaction of
its own. It leaves all other rows and the numbering alone, and its answer is the number of versions
that are gone. Two purges of the row leave what one leaves as of the later of their horizons, and
their answers add up to that of the one. -/
theorem purge_exact (heap : Heap) (stamps : TxnId → Timestamp) (row : RowId) :
    (∀ horizon view, horizon ≤ view.snapshot →
      (heap.purge stamps horizon row).2.read stamps view row = heap.read stamps view row) ∧
    (∀ horizon, let purged := heap.purge stamps horizon row
      purged.2.nextSequence = heap.nextSequence ∧
      (∀ other, other ≠ row → purged.2.rows.chain other = heap.rows.chain other) ∧
      purged.1 + (purged.2.rows.chain row).length = (heap.rows.chain row).length ∧
      purged.1 + purged.2.rows.versionCount = heap.rows.versionCount) ∧
    ∀ first second,
      let once := heap.purge stamps (max first second) row
      let before := heap.purge stamps first row
      let after := before.2.purge stamps second row
      after.2 = once.2 ∧ before.1 + after.1 = once.1 := by
  refine ⟨fun horizon view le => ?reads, fun horizon => ⟨rfl, ?others, ?chain, ?count⟩,
    fun first second => heap.purge_purge stamps first second row⟩
  case reads =>
    unfold read
    rw [chain_purge, if_pos rfl, Chain.read_purge stamps le]
  case others =>
    intro other apart
    rw [chain_purge, if_neg apart]
  case chain =>
    rw [chain_purge, if_pos rfl]
    exact Chain.forgettable_add_length stamps horizon _
  case count => exact heap.versionCount_purge stamps horizon row

/-- A heap with one row, whose chain no run leads to: two creators are committed, and the newest
version is deleted by a transaction that is still open. -/
def patched : Heap :=
  { nextSequence := 2
    rows := (Rows.empty.set ⟨0, 0⟩ [⟨[1], 0, none⟩, ⟨[2], 1, some 0⟩, ⟨[3], 2, some 3⟩]).set ⟨0, 1⟩
      [⟨[4], 1, some 2⟩] }

def patchedStamps : TxnId → Timestamp
  | 0 => 1
  | 1 => 3
  | 2 => 5
  | _ => 0x8000000000000002

/-- As of time 4 one version goes, as of time 6 one more; the view of the open transaction reads
nothing of the row and any other view of time 6 the last bytes. -/
theorem purge_exact_patched :
    (patched.purge patchedStamps 4 ⟨0, 0⟩).1 = 1 ∧ (patched.purge patchedStamps 6 ⟨0, 0⟩).1 = 2 ∧
      ((patched.purge patchedStamps 4 ⟨0, 0⟩).2.purge patchedStamps 6 ⟨0, 0⟩).1 = 1 ∧
      (patched.purge patchedStamps 6 ⟨0, 0⟩).2.read patchedStamps ⟨6, none, none⟩ ⟨0, 0⟩ =
        some ⟨⟨0, 0⟩, [3]⟩ ∧
      (patched.purge patchedStamps 6 ⟨0, 0⟩).2.read patchedStamps ⟨6, some 3, none⟩ ⟨0, 0⟩ = none ∧
      (patched.purge patchedStamps 6 ⟨0, 0⟩).2.rows.chain ⟨0, 1⟩ = [⟨[4], 1, some 2⟩] := by
  obtain ⟨reads, keeps, composes⟩ := purge_exact patched patchedStamps ⟨0, 0⟩
  obtain ⟨-, others, -, -⟩ := keeps 6
  have early : (patched.purge patchedStamps 4 ⟨0, 0⟩).1 = 1 := by decide
  have late : (patched.purge patchedStamps 6 ⟨0, 0⟩).1 = 2 := by decide
  refine ⟨early, late, ?_, ?_, ?_, ?_⟩
  · obtain ⟨-, sum⟩ := composes 4 6
    rw [early] at sum
    have once : (patched.purge patchedStamps (max 4 6) ⟨0, 0⟩).1 = 2 := by decide
    rw [once] at sum
    omega
  · rw [reads 6 ⟨6, none, none⟩ (Nat.le_refl 6)]
    decide
  · rw [reads 6 ⟨6, some 3, none⟩ (Nat.le_refl 6)]
    decide
  · rw [others ⟨0, 1⟩ (by decide)]
    decide

end RowStore.Table.Heap
