/- RowStore/Proofs/Engine/Sweep
   role: theorems
   digest: Rows written on behalf of a statement, and pages looked at before or after. -/

import RowStore.Engine.Sweep
import RowStore.Proofs.Engine.Handles
import RowStore.Proofs.Transaction.Locks

set_option autoImplicit false
set_option relaxedAutoImplicit false

namespace RowStore.Engine

open RowStore.Row (Record RowFilter RowId)
open RowStore.Schema (Layout RowField)
open RowStore.Table (Chain)
open RowStore.Transaction (LockMode LockTable Touch TxnId)

variable {engine : Engine} {h : HandleId} {txn : TxnId} {table : Layout} {row : RowId} {fate : Fate}
  {page : UInt32}

/-- The store after a handle has looked at a page for writing. -/
def enter (engine : Engine) (h : HandleId) (page : UInt32) : Engine :=
  engine.modifyHandle h fun handle => { handle with locks := handle.locks.raise page }

private theorem modifyHandle_congr {change change' : Handle → Handle}
    (same : change (engine.handle h) = change' (engine.handle h)) :
    engine.modifyHandle h change = engine.modifyHandle h change' := by
  unfold modifyHandle
  congr 1
  apply Array.ext_getElem?
  intro i
  rw [Array.getElem?_modify, Array.getElem?_modify]
  split
  case isTrue at' =>
    subst at'
    cases found : engine.handles[h]? with
    | none => rfl
    | some handle =>
      unfold Engine.handle at same
      rw [found] at same
      exact congrArg some same
  case isFalse => rfl

private theorem modifyHandle_modifyHandle (engine : Engine) (h : HandleId)
    (first second : Handle → Handle) :
    (engine.modifyHandle h first).modifyHandle h second =
      engine.modifyHandle h fun handle => second (first handle) := by
  unfold modifyHandle
  congr 1
  apply Array.ext_getElem?
  intro i
  dsimp only
  rw [Array.getElem?_modify, Array.getElem?_modify, Array.getElem?_modify]
  split
  · rw [Option.map_map]
    rfl
  · rfl

theorem checkLock_readWrite (engine : Engine) (h : HandleId) (page : UInt32) :
    engine.checkLock h page .readWrite = .ok (engine.enter h page) := by
  unfold checkLock
  rw [LockTable.check_readWrite]
  exact congrArg Except.ok (modifyHandle_congr rfl)

theorem enter_eq_self (held : (engine.handle h).locks.modeOf? page ≠ some .readOnly) :
    engine.enter h page = engine := by
  have same : engine.enter h page = engine.modifyHandle h id := by
    apply modifyHandle_congr
    rw [LockTable.raise_eq_self held]
    rfl
  rw [same]
  unfold modifyHandle
  congr 1
  apply Array.ext_getElem?
  intro i
  rw [Array.getElem?_modify]
  split
  · exact Option.map_id_apply
  · rfl

theorem enter_enter (engine : Engine) (h : HandleId) (page : UInt32) :
    (engine.enter h page).enter h page = engine.enter h page := by
  unfold enter
  rw [modifyHandle_modifyHandle]
  congr 1
  funext handle
  rw [LockTable.raise_raise]

theorem carried_enter (engine : Engine) (h other : HandleId) (page : UInt32) :
    ((engine.enter h page).handle other).txn = (engine.handle other).txn :=
  carried_modifyHandle engine h other (by intro _; rfl)

private theorem noteWrite_enter (engine : Engine) (h : HandleId) (page : UInt32) (txn : TxnId)
    (table : Layout) (row : RowId) :
    (engine.enter h page).noteWrite h txn table row =
      (engine.noteWrite h txn table row).enter h page := by
  unfold enter noteWrite recordLock
  have comm (engine : Engine) :
      (engine.modifyHandle h fun handle =>
          { handle with locks := handle.locks.raise page }).modifyHandle
          h (fun handle => { handle with locks := handle.locks.record row.page .readWrite }) =
        (engine.modifyHandle h fun handle =>
          { handle with locks := handle.locks.record row.page .readWrite }).modifyHandle
          h (fun handle => { handle with locks := handle.locks.raise page }) := by
    rw [modifyHandle_modifyHandle, modifyHandle_modifyHandle]
    congr 1
    funext handle
    rw [LockTable.raise_record]
  exact comm { engine with registry := engine.registry.touch txn ⟨table.id, row⟩ }

private theorem map_setChain_enter (engine : Engine) (h : HandleId) (page : UInt32) (t : Touch)
    (result : Except Fault Chain) :
    result.map ((engine.enter h page).setChain t) =
      (result.map (engine.setChain t)).map (·.enter h page) := by
  cases result <;> rfl

/-- A row written as its fate is: either nothing happens to the store, or the chain of the row is
replaced and the write is noted. -/
theorem settle_cases (carries : (engine.handle h).txn = some txn) (table : Layout) (row : RowId)
    (fate : Fate) :
    (engine.settle h table row fate).2 = engine ∨ ∃ chain,
      engine.settle h table row fate = (.ok (),
        (engine.setChain ⟨table.id, row⟩ chain).noteWrite h txn table row) := by
  cases fate with
  | kept => exact Or.inl rfl
  | replaced data =>
    unfold settle Engine.replace
    rw [ensureStarted_of_carries carries]
    dsimp only
    cases result : engine.replaceRow txn table row data with
    | error fault => exact Or.inl rfl
    | ok engine =>
      obtain ⟨-, chain, -, rfl⟩ := replaceRow_eq_ok result
      exact Or.inr ⟨chain, rfl⟩
  | deleted =>
    unfold settle Engine.delete
    rw [ensureStarted_of_carries carries]
    dsimp only
    cases result : engine.deleteRow txn table row with
    | error fault => exact Or.inl rfl
    | ok engine =>
      obtain ⟨chain, -, rfl⟩ := deleteRow_eq_ok result
      exact Or.inr ⟨chain, rfl⟩

theorem settle_eq_error {fault : Fault} (carries : (engine.handle h).txn = some txn)
    (refused : (engine.settle h table row fate).1 = .error fault) :
    (engine.settle h table row fate).2 = engine := by
  rcases settle_cases carries table row fate with same | ⟨chain, eq⟩
  · exact same
  · rw [eq] at refused
    cases refused

theorem carries_settle (carries : (engine.handle h).txn = some txn) (table : Layout) (row : RowId)
    (fate : Fate) : ((engine.settle h table row fate).2.handle h).txn = some txn := by
  rcases settle_cases carries table row fate with same | ⟨chain, eq⟩
  · rwa [same]
  · rw [eq]
    exact (carried_modifyHandle _ h h (by intro _; rfl)).trans carries

theorem catalog_settle (carries : (engine.handle h).txn = some txn) :
    (engine.settle h table row fate).2.catalog = engine.catalog := by
  rcases settle_cases carries table row fate with same | ⟨chain, eq⟩
  · rw [same]
  · rw [eq]
    rfl

theorem chain_settle (carries : (engine.handle h).txn = some txn) (fate : Fate) {t : Touch}
    (other : t ≠ ⟨table.id, row⟩) :
    (engine.settle h table row fate).2.chain t = engine.chain t := by
  rcases settle_cases carries table row fate with same | ⟨chain, eq⟩
  · rw [same]
  · rw [eq]
    exact (chain_setChain engine _ t chain).trans (if_neg other)

theorem stamps_settle (carries : (engine.handle h).txn = some txn) (table : Layout) (row : RowId)
    (fate : Fate) : (engine.settle h table row fate).2.stamps = engine.stamps := by
  rcases settle_cases carries table row fate with same | ⟨chain, eq⟩
  · rw [same]
  · rw [eq]
    funext t
    exact Transaction.Registry.stamp_touch engine.registry txn t ⟨table.id, row⟩

theorem ownView_settle (carries : (engine.handle h).txn = some txn) (table : Layout)
    (row : RowId) (fate : Fate) :
    (engine.settle h table row fate).2.registry.ownView txn = engine.registry.ownView txn := by
  rcases settle_cases carries table row fate with same | ⟨chain, eq⟩
  · rw [same]
  · rw [eq]
    unfold Transaction.Registry.ownView
    congr 1
    exact Transaction.Registry.snapshot_touch engine.registry txn txn ⟨table.id, row⟩

theorem settle_enter (carries : (engine.handle h).txn = some txn) (page : UInt32) (table : Layout)
    (row : RowId) (fate : Fate) :
    (engine.enter h page).settle h table row fate =
      ((engine.settle h table row fate).1, (engine.settle h table row fate).2.enter h page) := by
  have carries' : ((engine.enter h page).handle h).txn = some txn :=
    (carried_enter engine h h page).trans carries
  cases fate with
  | kept => rfl
  | replaced data =>
    have entered : (engine.enter h page).replaceRow txn table row data =
        (engine.replaceRow txn table row data).map (·.enter h page) := by
      rw [replaceRow_eq, replaceRow_eq]
      split
      · exact map_setChain_enter engine h page _ _
      · rfl
    unfold settle Engine.replace
    rw [ensureStarted_of_carries carries, ensureStarted_of_carries carries']
    dsimp only
    rw [entered]
    cases engine.replaceRow txn table row data with
    | error fault => rfl
    | ok written => exact congrArg (Prod.mk _) (noteWrite_enter written h page txn table row)
  | deleted =>
    have entered : (engine.enter h page).deleteRow txn table row =
        (engine.deleteRow txn table row).map (·.enter h page) := by
      rw [deleteRow_eq, deleteRow_eq]
      exact map_setChain_enter engine h page _ _
    unfold settle Engine.delete
    rw [ensureStarted_of_carries carries, ensureStarted_of_carries carries']
    dsimp only
    rw [entered]
    cases engine.deleteRow txn table row with
    | error fault => rfl
    | ok written => exact congrArg (Prod.mk _) (noteWrite_enter written h page txn table row)

end RowStore.Engine

namespace RowStore

open RowStore.Row (Record RowFilter)
open RowStore.Schema (Layout RowField)
open RowStore.Transaction (TxnId)

variable {engine : Engine} {h : HandleId} {txn : TxnId} {table : Layout} {row : Record}
  {rows : List Record} {fate : Fate} {filter : RowFilter} {fault : Fault}

namespace Change

variable {change : Change} {fields : List RowField}

theorem apply_eq (change : Change) (table : Layout) (fields : List RowField) (h : HandleId)
    (row : Record) (engine : Engine) :
    change.apply table fields h row engine =
      match change.outcome table fields row with
      | .error fault => (.error fault, engine)
      | .ok fate => engine.settle h table row.id fate := by
  cases change with
  | delete => rfl
  | update targets =>
    simp only [apply, outcome, Target.newRecord]
    cases Target.replacement table targets fields row <;> rfl

theorem sweepRows_failed (rest : List Record) (engine : Engine)
    (failed : change.fate table fields filter row = .error fault) :
    change.sweepRows table fields filter h (row :: rest) engine = (.error fault, engine) ∧
      change.passed table fields filter h (row :: rest) engine = [] := by
  unfold sweepRows passed
  rw [failed]
  exact ⟨rfl, rfl⟩

theorem sweepRows_refused (rest : List Record)
    (decided : change.fate table fields filter row = .ok fate)
    (refused : (engine.settle h table row.id fate).1 = .error fault) :
    change.sweepRows table fields filter h (row :: rest) engine =
        (.error fault, (engine.settle h table row.id fate).2) ∧
      change.passed table fields filter h (row :: rest) engine = [] := by
  unfold sweepRows passed
  rw [decided]
  cases settled : engine.settle h table row.id fate with
  | mk result after =>
    rw [settled] at refused
    cases refused
    simp only [settled, and_self]

theorem sweepRows_settled (rest : List Record)
    (decided : change.fate table fields filter row = .ok fate)
    (settled : (engine.settle h table row.id fate).1 = .ok ()) :
    change.sweepRows table fields filter h (row :: rest) engine =
        ((change.sweepRows table fields filter h rest (engine.settle h table row.id fate).2).1.map
          (· + if fate = .kept then 0 else 1),
        (change.sweepRows table fields filter h rest (engine.settle h table row.id fate).2).2) ∧
      change.passed table fields filter h (row :: rest) engine =
        row :: change.passed table fields filter h rest (engine.settle h table row.id fate).2 := by
  cases eq : engine.settle h table row.id fate with
  | mk result after =>
    rw [eq] at settled
    cases settled
    simp only [sweepRows, passed, decided, eq, and_self]

theorem sweepRows_kept (rest : List Record) (engine : Engine)
    (decided : change.fate table fields filter row = .ok .kept) :
    change.sweepRows table fields filter h (row :: rest) engine =
        change.sweepRows table fields filter h rest engine ∧
      change.passed table fields filter h (row :: rest) engine =
        row :: change.passed table fields filter h rest engine := by
  have settled : (engine.settle h table row.id .kept).1 = .ok () := rfl
  obtain ⟨swept, passed⟩ := sweepRows_settled rest decided settled
  refine ⟨swept.trans (Prod.ext ?_ rfl), passed⟩
  change (change.sweepRows table fields filter h rest engine).1.map (· + 0) = _
  cases (change.sweepRows table fields filter h rest engine).1 <;> rfl

theorem sweepRows_append_of_kept {before : List Record}
    (kept : ∀ row ∈ before, change.fate table fields filter row = .ok .kept) (rest : List Record)
    (engine : Engine) :
    change.sweepRows table fields filter h (before ++ rest) engine =
      change.sweepRows table fields filter h rest engine := by
  induction before with
  | nil => rfl
  | cons row before ih =>
    obtain ⟨first, later⟩ := List.forall_mem_cons.1 kept
    rw [List.cons_append, (sweepRows_kept _ engine first).1, ih later]

/-- A page may be looked at before or after a sweep. -/
theorem sweepRows_enter (change : Change) (table : Layout) (fields : List RowField)
    (filter : RowFilter) (rows : List Record) (carries : (engine.handle h).txn = some txn)
    (page : UInt32) :
    change.sweepRows table fields filter h rows (engine.enter h page) =
        ((change.sweepRows table fields filter h rows engine).1,
          (change.sweepRows table fields filter h rows engine).2.enter h page) ∧
      change.passed table fields filter h rows (engine.enter h page) =
        change.passed table fields filter h rows engine := by
  induction rows generalizing engine with
  | nil => exact ⟨rfl, rfl⟩
  | cons row rest ih =>
    cases decided : change.fate table fields filter row with
    | error fault =>
      obtain ⟨before, before'⟩ := sweepRows_failed (h := h) rest engine decided
      obtain ⟨after, after'⟩ := sweepRows_failed (h := h) rest (engine.enter h page) decided
      rw [before, before', after, after']
      exact ⟨rfl, rfl⟩
    | ok fate =>
      have comm := Engine.settle_enter carries page table row.id fate
      have entered : ((engine.enter h page).settle h table row.id fate).1 =
          (engine.settle h table row.id fate).1 := by rw [comm]
      cases result : (engine.settle h table row.id fate).1 with
      | error fault =>
        obtain ⟨before, before'⟩ := sweepRows_refused rest decided result
        obtain ⟨after, after'⟩ := sweepRows_refused rest decided (entered.trans result)
        rw [before, before', after, after', comm]
        exact ⟨rfl, rfl⟩
      | ok _ =>
        obtain ⟨before, before'⟩ := sweepRows_settled rest decided result
        obtain ⟨after, after'⟩ := sweepRows_settled rest decided (entered.trans result)
        obtain ⟨swept, swept'⟩ := ih (Engine.carries_settle carries table row.id fate)
        rw [before, before', after, after', comm, swept, swept']
        exact ⟨rfl, rfl⟩

theorem fate_of_accepts (change : Change) (table : Layout) (fields : List RowField)
    (filter : RowFilter) (row : Record) :
    change.fate table fields filter row =
      (filter.accepts row.data).bind fun accepted =>
        if accepted then change.outcome table fields row else .ok .kept := by
  unfold fate
  cases filter.accepts row.data with
  | error fault => rfl
  | ok accepted => cases accepted <;> rfl

theorem exists_of_outcome_update {targets : List Target}
    (built : (Change.update targets).outcome table fields row = .ok fate) :
    ∃ data, Target.replacement table targets fields row = .ok data ∧ fate = .replaced data := by
  simp only [outcome] at built
  cases replaced : Target.replacement table targets fields row with
  | error fault =>
    rw [replaced] at built
    cases built
  | ok data =>
    rw [replaced] at built
    cases built
    exact ⟨data, rfl, rfl⟩

theorem outcome_ne_kept (change : Change)
    (decided : change.outcome table fields row = .ok fate) : fate ≠ .kept := by
  rintro rfl
  cases change with
  | delete => cases decided
  | update targets =>
    obtain ⟨data, -, kept⟩ := exists_of_outcome_update decided
    cases kept

end Change

end RowStore
