/- RowStore/Proofs/Run/Growth
   role: theorems
   digest: Only an insertion gives a row its first version, and only it uses up a number. -/

import RowStore.Proofs.Engine.Handles
import RowStore.Proofs.Run.Operators

set_option autoImplicit false
set_option relaxedAutoImplicit false

namespace RowStore

open RowStore.Row (Record RowId)
open RowStore.Schema (Layout RowField)
open RowStore.Table (Chain)
open RowStore.Text (Bytes)
open RowStore.Transaction (LockMode Timestamp Touch TxnId View)

variable {engine engine' old new : Engine} {h : HandleId} {txn : TxnId} {layout : Layout}
  {row : RowId} {data : Bytes} {table : Nat}

namespace Engine

structure SameRows (old new : Engine) : Prop where
  config : new.config = old.config
  catalog : new.catalog = old.catalog
  heaps : new.heaps = old.heaps

namespace SameRows

theorem refl (engine : Engine) : SameRows engine engine := ⟨rfl, rfl, rfl⟩

theorem trans {first second third : Engine} (a : SameRows first second)
    (b : SameRows second third) : SameRows first third :=
  ⟨b.config.trans a.config, b.catalog.trans a.catalog, b.heaps.trans a.heaps⟩

theorem heap (same : SameRows old new) (table : Nat) : new.heap table = old.heap table := by
  unfold Engine.heap
  rw [same.heaps]

theorem chain (same : SameRows old new) (t : Touch) : new.chain t = old.chain t := by
  unfold Engine.chain
  rw [same.heap]

end SameRows

theorem sameRows_ensureStarted (engine : Engine) (h : HandleId) :
    SameRows engine (engine.ensureStarted h).2 := by
  refine ⟨?_, catalog_ensureStarted engine h, heaps_ensureStarted engine h⟩
  simp only [ensureStarted]
  split <;> rfl

theorem sameRows_readView (engine : Engine) (h : HandleId) :
    SameRows engine (engine.readView h).2 := by
  unfold readView
  split <;> exact ⟨rfl, rfl, rfl⟩

end Engine

theorem Scanner.sameRows_releaseView (scanner : Scanner) (engine : Engine) :
    Engine.SameRows engine (scanner.releaseView engine) := by
  unfold releaseView
  split <;> exact ⟨rfl, rfl, rfl⟩

theorem Scanner.sameRows_start (scanner : Scanner) (engine : Engine) :
    Engine.SameRows engine (scanner.start engine).2 := by
  obtain ⟨layout, h, mode, view, cursor, page⟩ := scanner
  cases mode with
  | readOnly => exact (engine.sameRows_readView h).trans (sameRows_releaseView _ _)
  | readWrite =>
    exact ((engine.sameRows_ensureStarted h).trans (Engine.sameRows_readView _ h)).trans
      (sameRows_releaseView _ _)

theorem Scanner.sameRows_next (scanner : Scanner) (engine : Engine) :
    Engine.SameRows engine (scanner.next engine).2.2 := by
  obtain ⟨-, same | ⟨locks, moved⟩⟩ := scanner.next_locks engine
  · rw [same]
    exact .refl engine
  · rw [moved]
    exact ⟨rfl, rfl, rfl⟩

namespace Engine

/-- The table has no row that it did not have before, and no number has been used up for one. -/
structure AddsNoRow (table : Nat) (old new : Engine) : Prop where
  config : new.config = old.config
  catalog : new.catalog = old.catalog
  sequence : new.nextSequence table = old.nextSequence table
  absent : ∀ row, old.chain ⟨table, row⟩ = [] → new.chain ⟨table, row⟩ = []

theorem SameRows.addsNoRow (same : SameRows old new) (table : Nat) : AddsNoRow table old new where
  config := same.config
  catalog := same.catalog
  sequence := by
    unfold nextSequence
    rw [same.heap]
  absent row empty := (same.chain _).trans empty

theorem SameBesides.addsNoRow (same : SameBesides old new)
    (absent : ∀ t, old.chain t = [] → new.chain t = []) (table : Nat) :
    AddsNoRow table old new where
  config := same.config
  catalog := same.catalog
  sequence := same.sequence table
  absent row empty := absent ⟨table, row⟩ empty

namespace AddsNoRow

theorem refl (table : Nat) (engine : Engine) : AddsNoRow table engine engine :=
  (SameRows.refl engine).addsNoRow table

theorem trans {first second third : Engine} (a : AddsNoRow table first second)
    (b : AddsNoRow table second third) : AddsNoRow table first third where
  config := b.config.trans a.config
  catalog := b.catalog.trans a.catalog
  sequence := b.sequence.trans a.sequence
  absent row empty := b.absent row (a.absent row empty)

end AddsNoRow

theorem addsNoRow_setChain {t : Touch} {chain : Chain}
    (present : engine.chain t = [] → chain = []) (table : Nat) :
    AddsNoRow table engine (engine.setChain t chain) := by
  apply (sameBesides_setChain engine t chain).addsNoRow
  intro u empty
  rw [chain_setChain]
  split
  case isTrue same => exact present (same ▸ empty)
  case isFalse => exact empty

theorem addsNoRow_replaceRow (done : engine.replaceRow txn layout row data = .ok engine')
    (table : Nat) : AddsNoRow table engine engine' := by
  obtain ⟨-, chain, replaced, rfl⟩ := replaceRow_eq_ok done
  apply addsNoRow_setChain
  intro empty
  rw [empty] at replaced
  cases replaced

theorem addsNoRow_deleteRow (done : engine.deleteRow txn layout row = .ok engine')
    (table : Nat) : AddsNoRow table engine engine' := by
  obtain ⟨chain, deleted, rfl⟩ := deleteRow_eq_ok done
  apply addsNoRow_setChain
  intro empty
  rw [empty] at deleted
  cases deleted

theorem addsNoRow_withdrawRow (engine : Engine) (txn : TxnId) (t : Touch) (table : Nat) :
    AddsNoRow table engine (engine.withdrawRow txn t) := by
  rw [withdrawRow_eq]
  apply addsNoRow_setChain
  intro empty
  rw [empty]
  rfl

theorem purge_nil (stamps : TxnId → Timestamp) (horizon : Timestamp) :
    Chain.purge stamps horizon [] = [] := List.drop_nil

theorem addsNoRow_purgeRow (engine : Engine) (horizon : Timestamp) (t : Touch) (table : Nat) :
    AddsNoRow table engine (engine.purgeRow horizon t).2 := by
  rw [purgeRow_eq]
  apply addsNoRow_setChain
  intro empty
  rw [empty, purge_nil]

theorem addsNoRow_foldl {step : Engine → Touch → Engine}
    (steps : ∀ engine t, AddsNoRow table engine (step engine t)) (rows : List Touch)
    (engine : Engine) : AddsNoRow table engine (rows.foldl step engine) := by
  induction rows generalizing engine with
  | nil => exact .refl table engine
  | cons t rest ih => exact (steps engine t).trans (ih _)

theorem addsNoRow_commitTxn (engine : Engine) (txn : TxnId) (table : Nat) :
    AddsNoRow table engine (engine.commitTxn txn).2 := by
  have begun : SameRows engine { engine with registry := (engine.registry.commit txn).2.2 } :=
    ⟨rfl, rfl, rfl⟩
  exact (begun.addsNoRow table).trans
    (addsNoRow_foldl (fun engine t => addsNoRow_purgeRow engine _ t table) _ _)

theorem addsNoRow_rollbackTxn (engine : Engine) (txn : TxnId) (table : Nat) :
    AddsNoRow table engine (engine.rollbackTxn txn) := by
  have begun : SameRows engine { engine with registry := (engine.registry.rollback txn).2 } :=
    ⟨rfl, rfl, rfl⟩
  exact (begun.addsNoRow table).trans
    (addsNoRow_foldl (fun engine t => addsNoRow_withdrawRow engine txn t table) _ _)

theorem addsNoRow_replace (engine : Engine) (h : HandleId) (layout : Layout) (row : RowId)
    (data : Bytes) (table : Nat) :
    AddsNoRow table engine (engine.replace h layout row data).2 := by
  have begun := (engine.sameRows_ensureStarted h).addsNoRow table
  simp only [replace]
  split
  case h_1 => exact begun
  case h_2 left done =>
    have noted : SameRows left (left.noteWrite h (engine.ensureStarted h).1 layout row) :=
      ⟨rfl, rfl, rfl⟩
    exact (begun.trans (addsNoRow_replaceRow done table)).trans (noted.addsNoRow table)

theorem addsNoRow_delete (engine : Engine) (h : HandleId) (layout : Layout) (row : RowId)
    (table : Nat) : AddsNoRow table engine (engine.delete h layout row).2 := by
  have begun := (engine.sameRows_ensureStarted h).addsNoRow table
  simp only [delete]
  split
  case h_1 => exact begun
  case h_2 left done =>
    have noted : SameRows left (left.noteWrite h (engine.ensureStarted h).1 layout row) :=
      ⟨rfl, rfl, rfl⟩
    exact (begun.trans (addsNoRow_deleteRow done table)).trans (noted.addsNoRow table)

theorem addsNoRow_commit (engine : Engine) (h : HandleId) (table : Nat) :
    AddsNoRow table engine (engine.commit h) := by
  have reset : SameRows engine (engine.resetHandle h) := ⟨rfl, rfl, rfl⟩
  simp only [commit]
  split
  · exact reset.addsNoRow table
  · exact (reset.addsNoRow table).trans (addsNoRow_commitTxn _ _ table)

theorem addsNoRow_rollback (engine : Engine) (h : HandleId) (table : Nat) :
    AddsNoRow table engine (engine.rollback h) := by
  have reset : SameRows engine (engine.resetHandle h) := ⟨rfl, rfl, rfl⟩
  simp only [rollback]
  split
  · exact reset.addsNoRow table
  · exact (reset.addsNoRow table).trans (addsNoRow_rollbackTxn _ _ table)

end Engine

theorem Change.addsNoRow_apply (change : Change) (layout : Layout) (fields : List RowField)
    (h : HandleId) (row : Record) (engine : Engine) (table : Nat) :
    Engine.AddsNoRow table engine (change.apply layout fields h row engine).2 := by
  unfold apply
  split
  · exact engine.addsNoRow_delete h layout row.id table
  · split
    · exact .refl table engine
    · exact engine.addsNoRow_replace h layout row.id _ table

namespace Engine

theorem stable_addsNoRow (table : Nat) (base : Engine) :
    Stable (AddsNoRow table base) fun _ => True where
  start scanner engine adds := adds.trans ((scanner.sameRows_start engine).addsNoRow table)
  release scanner engine adds := adds.trans ((scanner.sameRows_releaseView engine).addsNoRow table)
  next scanner engine _ adds := adds.trans ((scanner.sameRows_next engine).addsNoRow table)
  apply change layout fields h row engine _ adds :=
    adds.trans (change.addsNoRow_apply layout fields h row engine table)

end Engine

theorem Operator.perform_addsNoRow (operator : Operator) (engine : Engine) (use : Run.Use) :
    Engine.AddsNoRow table engine (use.perform h (operator, engine)).2 := by
  have stable := Engine.stable_addsNoRow table engine
  have idle := Engine.AddsNoRow.refl table engine
  cases use with
  | start => exact operator.start_keeps stable engine idle
  | next => exact Operator.next_keeps stable (fun _ _ => trivial) idle
  | close => exact operator.close_keeps stable engine idle

namespace Engine

theorem addsNoRow_execute (engine : Engine) (h : HandleId) (statement : Statement) (table : Nat) :
    AddsNoRow table engine (engine.execute h statement).2 :=
  execute_keeps (stable_addsNoRow table engine) trivial statement (.refl table engine)

variable {answer : Except Fault RowId} {fault : Fault}

/-- What an insertion does, on behalf of a bare transaction or of a handle that may begin one. -/
def Inserts (layout : Layout) (data : Bytes) (old : Engine) (answer : Except Fault RowId)
    (new : Engine) : Prop :=
  ∃ txn begun left, SameRows old begun ∧ begun.insertRow txn layout data = (answer, left) ∧
    SameRows left new

theorem inserts_insertRow (engine : Engine) (txn : TxnId) (layout : Layout) (data : Bytes) :
    Inserts layout data engine (engine.insertRow txn layout data).1
      (engine.insertRow txn layout data).2 :=
  ⟨txn, engine, _, .refl engine, rfl, .refl _⟩

theorem inserts_insert (engine : Engine) (h : HandleId) (layout : Layout) (data : Bytes) :
    Inserts layout data engine (engine.insert h layout data).1
      (engine.insert h layout data).2 := by
  have begun := engine.sameRows_ensureStarted h
  simp only [insert]
  split
  case h_1 fault left failed => exact ⟨_, _, left, begun, failed, .refl left⟩
  case h_2 row left done => exact ⟨_, _, left, begun, done, ⟨rfl, rfl, rfl⟩⟩

namespace Inserts

/-- Bytes of the right length are refused just if their number has no id. -/
theorem refused_iff (inserts : Inserts layout data old answer new)
    (sized : data.length = layout.recordSize) :
    (∃ fault, answer = .error fault) ↔
      RowId.ofSequence (old.nextSequence layout.id) old.config.rowsPerPage = none := by
  obtain ⟨txn, begun, left, same, done, -⟩ := inserts
  have number : begun.nextSequence layout.id = old.nextSequence layout.id :=
    (same.addsNoRow layout.id).sequence
  rw [← number, ← same.config]
  cases answer with
  | ok row =>
    obtain ⟨-, place, -⟩ := insertRow_eq_ok done
    rw [place]
    exact iff_of_false nofun nofun
  | error fault =>
    rcases insertRow_eq_error done with ⟨unfit, -⟩ | ⟨-, place, -⟩
    · exact absurd sized unfit
    · exact iff_of_true ⟨fault, rfl⟩ place

theorem place (inserts : Inserts layout data old (.ok row) new) :
    data.length = layout.recordSize ∧
      RowId.ofSequence (old.nextSequence layout.id) old.config.rowsPerPage = some row := by
  obtain ⟨txn, begun, left, same, done, -⟩ := inserts
  obtain ⟨sized, place, -⟩ := insertRow_eq_ok done
  rw [(same.addsNoRow layout.id).sequence, same.config] at place
  exact ⟨sized, place⟩

theorem chain (inserts : Inserts layout data old (.ok row) new) {t : Touch}
    (other : t ≠ ⟨layout.id, row⟩) : new.chain t = old.chain t := by
  obtain ⟨txn, begun, left, same, done, same'⟩ := inserts
  rw [same'.chain, chain_insertRow done, if_neg other, same.chain]

theorem chain_of_error (inserts : Inserts layout data old (.error fault) new) (t : Touch) :
    new.chain t = old.chain t := by
  obtain ⟨txn, begun, left, same, failed, same'⟩ := inserts
  rw [same'.chain]
  rcases insertRow_eq_error failed with ⟨-, rfl⟩ | ⟨-, -, rfl⟩
  · exact same.chain t
  · rw [chain_renumbered]
    exact same.chain t

/-- The tables stay, and a number is used up just if the bytes have the right length. -/
theorem keeps (inserts : Inserts layout data old answer new) :
    new.config = old.config ∧ new.catalog = old.catalog ∧ ∀ table, new.nextSequence table =
      if table = layout.id ∧ data.length = layout.recordSize then
        (old.nextSequence table + 1) % 0x10000000000000000
      else old.nextSequence table := by
  obtain ⟨txn, begun, left, same, done, same'⟩ := inserts
  have numbered {heap : Table.Heap} (sized : data.length = layout.recordSize)
      (next : heap.nextSequence = (begun.nextSequence layout.id + 1) % 0x10000000000000000)
      (table : Nat) :
      (begun.setHeap layout.id heap).nextSequence table =
        if table = layout.id ∧ data.length = layout.recordSize then
          (begun.nextSequence table + 1) % 0x10000000000000000
        else begun.nextSequence table := by
    rw [nextSequence_setHeap, next]
    by_cases own : table = layout.id
    · rw [if_pos own, if_pos ⟨own, sized⟩, own]
    · rw [if_neg own, if_neg (own ·.1)]
  have stepped : left.config = begun.config ∧ left.catalog = begun.catalog ∧
      ∀ table, left.nextSequence table =
        if table = layout.id ∧ data.length = layout.recordSize then
          (begun.nextSequence table + 1) % 0x10000000000000000
        else begun.nextSequence table := by
    cases answer with
    | ok row =>
      obtain ⟨sized, -, rfl⟩ := insertRow_eq_ok done
      exact ⟨rfl, rfl, numbered sized rfl⟩
    | error fault =>
      rcases insertRow_eq_error done with ⟨unfit, rfl⟩ | ⟨sized, -, rfl⟩
      · exact ⟨rfl, rfl, fun table => (if_neg (unfit ·.2)).symm⟩
      · exact ⟨rfl, rfl, numbered sized rfl⟩
  obtain ⟨config, catalog, sequence⟩ := stepped
  refine ⟨same'.config.trans (config.trans same.config),
    same'.catalog.trans (catalog.trans same.catalog), fun table => ?_⟩
  rw [(same'.addsNoRow table).sequence, sequence, (same.addsNoRow table).sequence]

theorem addsNoRow (inserts : Inserts layout data old answer new) (other : layout.id ≠ table) :
    AddsNoRow table old new := by
  obtain ⟨config, catalog, sequence⟩ := inserts.keeps
  refine ⟨config, catalog, ?_, fun row empty => ?_⟩
  · rw [sequence, if_neg fun own => other own.1.symm]
  · cases answer with
    | ok inserted =>
      have apart : (⟨table, row⟩ : Touch) ≠ ⟨layout.id, inserted⟩ := by simp [other.symm]
      rw [inserts.chain apart]
      exact empty
    | error fault =>
      rw [inserts.chain_of_error]
      exact empty

end Inserts

end Engine

end RowStore
