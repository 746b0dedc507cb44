/- RowStore/Proofs/Engine/Chains
   role: theorems
   digest: Writes, purges and withdrawals as changes to the chains of rows. -/

import RowStore.Engine.Transactions
import RowStore.Proofs.Table.Purge

set_option autoImplicit false
set_option relaxedAutoImplicit false

namespace RowStore.Engine

open RowStore.Row (RowId)
open RowStore.Schema (Layout)
open RowStore.Table (Chain Heap Rows)
open RowStore.Text (Bytes)
open RowStore.Transaction (Timestamp Touch TxnId)

variable {engine : Engine} {txn : TxnId} {layout : Layout} {row : RowId} {data : Bytes}

def chain (engine : Engine) (t : Touch) : Chain := (engine.heap t.table).rows.chain t.row

/-- The number that the next row of a table gets. -/
def nextSequence (engine : Engine) (table : Nat) : Nat := (engine.heap table).nextSequence

def setChain (engine : Engine) (t : Touch) (chain : Chain) : Engine :=
  engine.setHeap t.table
    { engine.heap t.table with rows := (engine.heap t.table).rows.set t.row chain }

theorem chain_setHeap (engine : Engine) (table : Nat) (heap : Heap) (t : Touch) :
    (engine.setHeap table heap).chain t =
      if t.table = table then heap.rows.chain t.row else engine.chain t := by
  unfold chain
  rw [heap_setHeap]
  split <;> rfl

theorem nextSequence_setHeap (engine : Engine) (table other : Nat) (heap : Heap) :
    (engine.setHeap table heap).nextSequence other =
      if other = table then heap.nextSequence else engine.nextSequence other := by
  unfold nextSequence
  rw [heap_setHeap]
  split <;> rfl

theorem chain_setChain (engine : Engine) (t u : Touch) (chain : Chain) :
    (engine.setChain t chain).chain u = if u = t then chain else engine.chain u := by
  obtain ⟨table, row⟩ := t
  obtain ⟨table', row'⟩ := u
  unfold setChain
  rw [chain_setHeap]
  by_cases sameTable : table' = table
  · subst sameTable
    rw [if_pos rfl, Rows.chain_set]
    by_cases sameRow : row' = row
    · subst sameRow
      rw [if_pos rfl, if_pos rfl]
    · rw [if_neg sameRow, if_neg (by simpa using sameRow)]
      rfl
  · rw [if_neg sameTable, if_neg (by simp [sameTable])]

/-- Everything but the chains is the same in both stores. -/
structure SameBesides (old new : Engine) : Prop where
  config : new.config = old.config
  catalog : new.catalog = old.catalog
  registry : new.registry = old.registry
  handles : new.handles = old.handles
  sequence : ∀ table, new.nextSequence table = old.nextSequence table

namespace SameBesides

theorem refl (engine : Engine) : SameBesides engine engine := ⟨rfl, rfl, rfl, rfl, fun _ => rfl⟩

theorem trans {first second third : Engine} (h : SameBesides first second)
    (h' : SameBesides second third) : SameBesides first third where
  config := h'.config.trans h.config
  catalog := h'.catalog.trans h.catalog
  registry := h'.registry.trans h.registry
  handles := h'.handles.trans h.handles
  sequence table := (h'.sequence table).trans (h.sequence table)

end SameBesides

theorem sameBesides_setChain (engine : Engine) (t : Touch) (chain : Chain) :
    SameBesides engine (engine.setChain t chain) where
  config := rfl
  catalog := rfl
  registry := rfl
  handles := rfl
  sequence table := by
    unfold setChain
    rw [nextSequence_setHeap]
    split
    case isTrue same => exact same ▸ rfl
    case isFalse => rfl

theorem chain_renumbered (engine : Engine) (table next : Nat) (t : Touch) :
    (engine.setHeap table { engine.heap table with nextSequence := next }).chain t =
      engine.chain t := by
  rw [chain_setHeap]
  split
  case isTrue same =>
    unfold chain
    rw [same]
  case isFalse => rfl

theorem withdrawRow_eq (engine : Engine) (txn : TxnId) (t : Touch) :
    engine.withdrawRow txn t = engine.setChain t ((engine.chain t).withdraw txn) := rfl

theorem purgeRow_eq (engine : Engine) (horizon : Timestamp) (t : Touch) :
    (engine.purgeRow horizon t).2 =
      engine.setChain t ((engine.chain t).purge engine.stamps horizon) := rfl

theorem deleteRow_eq (engine : Engine) (txn : TxnId) (layout : Layout) (row : RowId) :
    engine.deleteRow txn layout row =
      ((engine.chain ⟨layout.id, row⟩).delete engine.stamps (engine.registry.ownView txn) txn
        row).map (engine.setChain ⟨layout.id, row⟩) := by
  unfold deleteRow Heap.delete
  rw [show (engine.heap layout.id).rows.chain row = engine.chain ⟨layout.id, row⟩ from rfl]
  cases (engine.chain ⟨layout.id, row⟩).delete engine.stamps (engine.registry.ownView txn) txn
    row <;> rfl

theorem replaceRow_eq (engine : Engine) (txn : TxnId) (layout : Layout) (row : RowId)
    (data : Bytes) :
    engine.replaceRow txn layout row data =
      if data.length = layout.recordSize then
        ((engine.chain ⟨layout.id, row⟩).replace engine.stamps (engine.registry.ownView txn) txn row
          data).map (engine.setChain ⟨layout.id, row⟩)
      else .error (.recordLength layout.recordSize data.length) := by
  unfold replaceRow checkLength Heap.replace
  rw [show (engine.heap layout.id).rows.chain row = engine.chain ⟨layout.id, row⟩ from rfl]
  by_cases fits : data.length = layout.recordSize
  · rw [if_pos fits, if_pos fits]
    dsimp only [bind, Except.bind]
    cases (engine.chain ⟨layout.id, row⟩).replace engine.stamps (engine.registry.ownView txn) txn
      row data <;> rfl
  · rw [if_neg fits, if_neg fits]
    rfl

theorem deleteRow_eq_ok {engine' : Engine}
    (done : engine.deleteRow txn layout row = .ok engine') :
    ∃ chain, (engine.chain ⟨layout.id, row⟩).delete engine.stamps (engine.registry.ownView txn) txn
        row = .ok chain ∧ engine' = engine.setChain ⟨layout.id, row⟩ chain := by
  rw [deleteRow_eq] at done
  cases result : (engine.chain ⟨layout.id, row⟩).delete engine.stamps
      (engine.registry.ownView txn) txn row with
  | error fault =>
    rw [result] at done
    cases done
  | ok chain =>
    rw [result] at done
    cases done
    exact ⟨chain, rfl, rfl⟩

theorem replaceRow_eq_ok {engine' : Engine}
    (done : engine.replaceRow txn layout row data = .ok engine') :
    data.length = layout.recordSize ∧
      ∃ chain, (engine.chain ⟨layout.id, row⟩).replace engine.stamps (engine.registry.ownView txn)
        txn row data = .ok chain ∧ engine' = engine.setChain ⟨layout.id, row⟩ chain := by
  rw [replaceRow_eq] at done
  split at done
  case isFalse => cases done
  case isTrue fits =>
    cases result : (engine.chain ⟨layout.id, row⟩).replace engine.stamps
        (engine.registry.ownView txn) txn row data with
    | error fault =>
      rw [result] at done
      cases done
    | ok chain =>
      rw [result] at done
      cases done
      exact ⟨fits, chain, rfl, rfl⟩

theorem insertRow_eq_ok {engine' : Engine}
    (done : engine.insertRow txn layout data = (.ok row, engine')) :
    data.length = layout.recordSize ∧
      RowId.ofSequence (engine.nextSequence layout.id) engine.config.rowsPerPage = some row ∧
      engine' = engine.setHeap layout.id
        { nextSequence := (engine.nextSequence layout.id + 1) % 0x10000000000000000
          rows := (engine.heap layout.id).rows.set row [{ data := data, creator := txn }] } := by
  unfold insertRow checkLength at done
  by_cases fits : data.length = layout.recordSize
  · rw [if_pos fits] at done
    unfold Heap.insert at done
    cases place : RowId.ofSequence (engine.heap layout.id).nextSequence
        engine.config.rowsPerPage with
    | none =>
      rw [place] at done
      cases done
    | some id =>
      rw [place] at done
      cases done
      exact ⟨fits, place, rfl⟩
  · rw [if_neg fits] at done
    cases done

theorem chain_insertRow {engine' : Engine}
    (done : engine.insertRow txn layout data = (.ok row, engine')) (u : Touch) :
    engine'.chain u =
      if u = ⟨layout.id, row⟩ then [{ data := data, creator := txn }] else engine.chain u := by
  obtain ⟨-, -, rfl⟩ := insertRow_eq_ok done
  rw [← chain_setChain, chain_setHeap]
  unfold setChain
  rw [chain_setHeap]

/-- An insertion fails for the length of the bytes, or for lack of a row id, and then the number is
used up. -/
theorem insertRow_eq_error {fault : Fault} {engine' : Engine}
    (failed : engine.insertRow txn layout data = (.error fault, engine')) :
    (data.length ≠ layout.recordSize ∧ engine' = engine) ∨
      (data.length = layout.recordSize ∧
        RowId.ofSequence (engine.nextSequence layout.id) engine.config.rowsPerPage = none ∧
        engine' = engine.setHeap layout.id
          { engine.heap layout.id with
            nextSequence := (engine.nextSequence layout.id + 1) % 0x10000000000000000 }) := by
  unfold insertRow checkLength at failed
  by_cases fits : data.length = layout.recordSize
  · rw [if_pos fits] at failed
    unfold Heap.insert at failed
    cases place : RowId.ofSequence (engine.heap layout.id).nextSequence
        engine.config.rowsPerPage with
    | none =>
      rw [place] at failed
      cases failed
      exact Or.inr ⟨fits, place, rfl⟩
    | some id =>
      rw [place] at failed
      cases failed
  · rw [if_neg fits] at failed
    cases failed
    exact Or.inl ⟨fits, rfl⟩

section Changed

variable (change : (TxnId → Timestamp) → Chain → Chain) (rows : List Touch)

theorem sameBesides_changed (engine : Engine) :
    SameBesides engine
      (rows.foldl (fun e t => e.setChain t (change e.stamps (e.chain t))) engine) := by
  induction rows generalizing engine with
  | nil => exact SameBesides.refl engine
  | cons t rest ih => exact (sameBesides_setChain engine t _).trans (ih _)

/-- A change that is made to a row twice does no more than once. -/
theorem chain_changed (u : Touch)
    (again : ∀ chain, change engine.stamps (change engine.stamps chain) =
      change engine.stamps chain) :
    (rows.foldl (fun e t => e.setChain t (change e.stamps (e.chain t))) engine).chain u =
      if u ∈ rows then change engine.stamps (engine.chain u) else engine.chain u := by
  induction rows generalizing engine with
  | nil => simp
  | cons t rest ih =>
    have stamps : (engine.setChain t (change engine.stamps (engine.chain t))).stamps =
        engine.stamps := rfl
    rw [List.foldl_cons, ih (stamps ▸ again), stamps, chain_setChain]
    by_cases same : u = t
    · subst same
      simp [again]
    · simp [same]

end Changed

def purgeAll (engine : Engine) (horizon : Timestamp) (rows : List Touch) : Engine :=
  rows.foldl (fun e t => (e.purgeRow horizon t).2) engine

def withdrawAll (engine : Engine) (txn : TxnId) (rows : List Touch) : Engine :=
  rows.foldl (fun e t => e.withdrawRow txn t) engine

theorem sameBesides_purgeAll (engine : Engine) (horizon : Timestamp) (rows : List Touch) :
    SameBesides engine (engine.purgeAll horizon rows) := by
  simp only [purgeAll, purgeRow_eq]
  exact sameBesides_changed (fun stamps chain => chain.purge stamps horizon) rows engine

theorem chain_purgeAll (engine : Engine) (horizon : Timestamp) (rows : List Touch) (u : Touch) :
    (engine.purgeAll horizon rows).chain u =
      if u ∈ rows then (engine.chain u).purge engine.stamps horizon else engine.chain u := by
  simp only [purgeAll, purgeRow_eq]
  exact chain_changed (fun stamps chain => chain.purge stamps horizon) rows u
    fun chain => Chain.purge_purge (Nat.le_refl horizon) chain

theorem purgeAll_induction {P : Chain → Prop} {horizon : Timestamp} {u : Touch}
    (closed : ∀ chain, P chain → P (chain.purge engine.stamps horizon)) (rows : List Touch)
    (h : P (engine.chain u)) : P ((engine.purgeAll horizon rows).chain u) := by
  rw [chain_purgeAll]
  split
  case isTrue => exact closed _ h
  case isFalse => exact h

theorem sameBesides_withdrawAll (engine : Engine) (txn : TxnId) (rows : List Touch) :
    SameBesides engine (engine.withdrawAll txn rows) := by
  simp only [withdrawAll, withdrawRow_eq]
  exact sameBesides_changed (fun _ chain => chain.withdraw txn) rows engine

theorem chain_withdrawAll (engine : Engine) (txn : TxnId) (rows : List Touch) (u : Touch) :
    (engine.withdrawAll txn rows).chain u =
      if u ∈ rows then (engine.chain u).withdraw txn else engine.chain u := by
  simp only [withdrawAll, withdrawRow_eq]
  exact chain_changed (fun _ chain => chain.withdraw txn) rows u
    fun chain => Chain.withdraw_withdraw txn chain

theorem commitTxn_eq (engine : Engine) (txn : TxnId) :
    (engine.commitTxn txn).2 =
      { engine with registry := (engine.registry.commit txn).2.2 }.purgeAll
        (engine.registry.commit txn).2.2.horizon (engine.registry.touched txn) := rfl

theorem rollbackTxn_eq (engine : Engine) (txn : TxnId) :
    engine.rollbackTxn txn =
      { engine with registry := (engine.registry.rollback txn).2 }.withdrawAll txn
        (engine.registry.touched txn) := rfl

end RowStore.Engine
