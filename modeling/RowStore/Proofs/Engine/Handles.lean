/- RowStore/Proofs/Engine/Handles
   role: theorems
   digest: The running transactions of the handles, as handles begin, reset and lock. -/

import RowStore.Engine.Scanner
import RowStore.Proofs.Engine.Chains
import RowStore.Proofs.Transaction.Locks
import RowStore.Proofs.Transaction.Usage

set_option autoImplicit false
set_option relaxedAutoImplicit false

namespace RowStore.Engine

open RowStore.Row (RowId)
open RowStore.Schema (Layout)
open RowStore.Text (Bytes)
open RowStore.Transaction (LockMode Registry Touch TxnId filterMap_modify_eq filterMap_modify_perm
  filterMap_perm)

variable {engine : Engine} {h : HandleId} {txn : TxnId} {layout : Layout}
  {change : Handle → Handle}

/-- The transactions that handles carry. -/
def running (engine : Engine) : List TxnId := engine.handles.toList.filterMap (·.txn)

theorem running_congr {new : Engine} (h : new.handles = engine.handles) :
    new.running = engine.running := by
  unfold running
  rw [h]

theorem handle_eq (engine : Engine) (h : HandleId) :
    engine.handle h = engine.handles[h]?.getD {} := rfl

theorem getElem?_of_carries (carries : (engine.handle h).txn = some txn) :
    engine.handles.toList[h]? = some (engine.handle h) := by
  rw [handle_eq] at carries ⊢
  rw [Array.getElem?_toList]
  cases found : engine.handles[h]? with
  | none =>
    rw [found] at carries
    cases carries
  | some handle => rfl

theorem known_of_carries (carries : (engine.handle h).txn = some txn) :
    h < engine.handles.size := by
  have found := getElem?_of_carries carries
  rw [Array.getElem?_toList] at found
  exact (Array.getElem?_eq_some_iff.1 found).1

theorem mem_running_of_carries (carries : (engine.handle h).txn = some txn) :
    txn ∈ engine.running :=
  List.mem_filterMap.2 ⟨_, List.mem_of_getElem? (getElem?_of_carries carries), carries⟩

theorem handle_modifyHandle (engine : Engine) (known : h < engine.handles.size)
    (change : Handle → Handle) (other : HandleId) :
    (engine.modifyHandle h change).handle other =
      if other = h then change (engine.handle h) else engine.handle other := by
  unfold modifyHandle handle
  rw [Array.getElem?_modify]
  by_cases same : h = other
  · subst same
    simp [known]
  · rw [if_neg same, if_neg (Ne.symm same)]

theorem handle_modifyHandle_of_ne {other : HandleId} (engine : Engine) (change : Handle → Handle)
    (apart : other ≠ h) : (engine.modifyHandle h change).handle other = engine.handle other := by
  unfold modifyHandle handle
  rw [Array.getElem?_modify, if_neg (Ne.symm apart)]

theorem running_modifyHandle (engine : Engine) (h : HandleId)
    (same : ∀ handle, (change handle).txn = handle.txn) :
    (engine.modifyHandle h change).running = engine.running := by
  unfold running modifyHandle
  rw [Array.toList_modify]
  apply filterMap_modify_eq
  intro handle _
  exact same handle

theorem carried_modifyHandle (engine : Engine) (h other : HandleId)
    (same : ∀ handle, (change handle).txn = handle.txn) :
    ((engine.modifyHandle h change).handle other).txn = (engine.handle other).txn := by
  unfold modifyHandle handle
  rw [Array.getElem?_modify]
  split
  · cases engine.handles[other]? with
    | none => rfl
    | some found => exact same found
  · rfl

theorem running_begin (known : h < engine.handles.size) (idle : (engine.handle h).txn = none)
    (txn : TxnId) :
    (engine.modifyHandle h fun handle => { handle with txn := some txn }).running.Perm
      (txn :: engine.running) := by
  have at' : engine.handles.toList[h]? = some (engine.handle h) := by
    rw [handle_eq, Array.getElem?_toList, Array.getElem?_eq_getElem known]
    rfl
  have after := filterMap_modify_perm Handle.txn
    (fun handle => { handle with txn := some txn }) at'
  have before := filterMap_perm Handle.txn at'
  rw [idle] at before
  unfold running modifyHandle
  rw [Array.toList_modify]
  exact after.trans (before.symm.cons txn)

theorem running_resetHandle (carries : (engine.handle h).txn = some txn) :
    engine.running.Perm (txn :: (engine.resetHandle h).running) := by
  have at' := getElem?_of_carries carries
  have after := filterMap_modify_perm Handle.txn (fun _ => {}) at'
  have before := filterMap_perm Handle.txn at'
  rw [carries] at before
  unfold running resetHandle modifyHandle
  rw [Array.toList_modify]
  exact before.trans (after.symm.cons txn)

theorem running_resetHandle_of_idle (idle : (engine.handle h).txn = none) :
    (engine.resetHandle h).running = engine.running := by
  unfold running resetHandle modifyHandle
  rw [Array.toList_modify]
  apply filterMap_modify_eq
  intro handle found
  rw [handle_eq, ← Array.getElem?_toList, found] at idle
  exact idle.symm

theorem carried_resetHandle_of_idle (idle : (engine.handle h).txn = none) (other : HandleId) :
    ((engine.resetHandle h).handle other).txn = (engine.handle other).txn := by
  unfold resetHandle modifyHandle handle
  rw [Array.getElem?_modify]
  split
  case isTrue same =>
    unfold handle at idle
    rw [← same, idle]
    cases engine.handles[h]? <;> rfl
  case isFalse => rfl

theorem handle_newHandle (engine : Engine) (other : HandleId) :
    engine.newHandle.2.handle other = engine.handle other := by
  unfold newHandle handle
  rw [Array.getElem?_push]
  split
  case isTrue fresh => simp [fresh]
  case isFalse => rfl

theorem carried_newHandle (engine : Engine) (other : HandleId) :
    (engine.newHandle.2.handle other).txn = (engine.handle other).txn := by
  rw [handle_newHandle]

theorem running_newHandle (engine : Engine) : engine.newHandle.2.running = engine.running := by
  simp [running, newHandle]

theorem ensureStarted_of_carries (carries : (engine.handle h).txn = some txn) :
    engine.ensureStarted h = (txn, engine) := by
  unfold ensureStarted
  rw [carries]

theorem ensureStarted_of_idle (idle : (engine.handle h).txn = none) :
    engine.ensureStarted h =
      (engine.registry.txns.size,
        { engine with registry := engine.registry.start.2 }.modifyHandle h fun handle =>
          { handle with txn := some engine.registry.txns.size }) := by
  unfold ensureStarted
  rw [idle]
  rfl

theorem heaps_ensureStarted (engine : Engine) (h : HandleId) :
    (engine.ensureStarted h).2.heaps = engine.heaps := by
  simp only [ensureStarted]
  split <;> rfl

theorem chain_ensureStarted (engine : Engine) (h : HandleId) (t : Touch) :
    (engine.ensureStarted h).2.chain t = engine.chain t := by
  unfold chain heap
  rw [heaps_ensureStarted]

theorem locks_ensureStarted (known : h < engine.handles.size) :
    ((engine.ensureStarted h).2.handle h).locks = (engine.handle h).locks := by
  cases carried : (engine.handle h).txn with
  | some txn => rw [ensureStarted_of_carries carried]
  | none =>
    rw [ensureStarted_of_idle carried]
    dsimp only
    rw [handle_modifyHandle _ (by exact known), if_pos rfl]
    rfl

theorem catalog_ensureStarted (engine : Engine) (h : HandleId) :
    (engine.ensureStarted h).2.catalog = engine.catalog := by
  simp only [ensureStarted]
  split <;> rfl

theorem carries_ensureStarted (known : h < engine.handles.size) :
    ((engine.ensureStarted h).2.handle h).txn = some (engine.ensureStarted h).1 := by
  cases carried : (engine.handle h).txn with
  | some txn =>
    rw [ensureStarted_of_carries carried]
    exact carried
  | none =>
    rw [ensureStarted_of_idle carried]
    dsimp only
    rw [handle_modifyHandle _ (by exact known), if_pos rfl]

theorem carries_ensureStarted_of_carries {other : HandleId}
    (carries : (engine.handle other).txn = some txn) :
    ((engine.ensureStarted h).2.handle other).txn = some txn := by
  cases carried : (engine.handle h).txn with
  | some begun =>
    rw [ensureStarted_of_carries carried]
    exact carries
  | none =>
    have apart : other ≠ h := by
      rintro rfl
      rw [carries] at carried
      cases carried
    rw [ensureStarted_of_idle carried]
    dsimp only
    rw [handle_modifyHandle_of_ne _ _ apart]
    exact carries

theorem runs_ensureStarted (known : h < engine.handles.size) :
    (engine.ensureStarted h).1 ∈ (engine.ensureStarted h).2.running :=
  mem_running_of_carries (carries_ensureStarted known)

/-- An attempt to write through a handle leaves the store with the handle's transaction begun, apart
from rows, and notes a row if it succeeds. -/
inductive Attempted {α : Type} (engine : Engine) (h : HandleId) (layout : Layout)
    (row : α → RowId) : Except Fault α × Engine → Prop
  | failed (fault : Fault) (left : Engine)
      (catalog : left.catalog = (engine.ensureStarted h).2.catalog)
      (registry : left.registry = (engine.ensureStarted h).2.registry)
      (handles : left.handles = (engine.ensureStarted h).2.handles) :
      Attempted engine h layout row (.error fault, left)
  | noted (a : α) (left : Engine)
      (catalog : left.catalog = (engine.ensureStarted h).2.catalog)
      (registry : left.registry = (engine.ensureStarted h).2.registry)
      (handles : left.handles = (engine.ensureStarted h).2.handles) :
      Attempted engine h layout row
        (.ok a, left.noteWrite h (engine.ensureStarted h).1 layout (row a))

theorem attempted_insert (engine : Engine) (h : HandleId) (layout : Layout) (data : Bytes) :
    Attempted engine h layout id (engine.insert h layout data) := by
  simp only [insert]
  cases result : (engine.ensureStarted h).2.insertRow (engine.ensureStarted h).1 layout data with
  | mk outcome left =>
    cases outcome with
    | error fault =>
      rcases insertRow_eq_error result with ⟨-, rfl⟩ | ⟨-, -, rfl⟩
      · exact .failed fault _ rfl rfl rfl
      · exact .failed fault _ rfl rfl rfl
    | ok row =>
      obtain ⟨-, -, rfl⟩ := insertRow_eq_ok result
      exact .noted row _ rfl rfl rfl

theorem attempted_replace (engine : Engine) (h : HandleId) (layout : Layout) (row : RowId)
    (data : Bytes) :
    Attempted engine h layout (fun _ => row) (engine.replace h layout row data) := by
  simp only [replace]
  cases result : (engine.ensureStarted h).2.replaceRow (engine.ensureStarted h).1 layout row
      data with
  | error fault => exact .failed fault _ rfl rfl rfl
  | ok left =>
    obtain ⟨-, chain, -, rfl⟩ := replaceRow_eq_ok result
    exact .noted () _ rfl rfl rfl

theorem attempted_delete (engine : Engine) (h : HandleId) (layout : Layout) (row : RowId) :
    Attempted engine h layout (fun _ => row) (engine.delete h layout row) := by
  simp only [delete]
  cases result : (engine.ensureStarted h).2.deleteRow (engine.ensureStarted h).1 layout row with
  | error fault => exact .failed fault _ rfl rfl rfl
  | ok left =>
    obtain ⟨chain, -, rfl⟩ := deleteRow_eq_ok result
    exact .noted () _ rfl rfl rfl

theorem Attempted.carries {α : Type} {row : α → RowId} {outcome : Except Fault α × Engine}
    {other : HandleId} (attempted : Attempted engine h layout row outcome)
    (carries : (engine.handle other).txn = some txn) :
    (outcome.2.handle other).txn = some txn := by
  have begun := @carries_ensureStarted_of_carries engine h txn other carries
  cases attempted with
  | failed fault left catalog registry handles => rwa [handle_eq, handles]
  | noted a left catalog registry handles =>
    refine (carried_modifyHandle _ h other (by intro _; rfl)).trans ?_
    change (left.handles[other]?.getD {}).txn = some txn
    rwa [handles]

theorem Attempted.catalog {α : Type} {row : α → RowId} {outcome : Except Fault α × Engine}
    (attempted : Attempted engine h layout row outcome) :
    outcome.2.catalog = engine.catalog := by
  cases attempted with
  | failed fault left catalog registry handles =>
    exact catalog.trans (catalog_ensureStarted engine h)
  | noted a left catalog registry handles => exact catalog.trans (catalog_ensureStarted engine h)

theorem catalog_commit (engine : Engine) (h : HandleId) :
    (engine.commit h).catalog = engine.catalog := by
  simp only [commit]
  split
  · rfl
  · rw [commitTxn_eq]
    exact (sameBesides_purgeAll _ _ _).catalog

theorem catalog_rollback (engine : Engine) (h : HandleId) :
    (engine.rollback h).catalog = engine.catalog := by
  simp only [rollback]
  split
  · rfl
  · rw [rollbackTxn_eq]
    exact (sameBesides_withdrawAll _ _ _).catalog

theorem running_recordLock (engine : Engine) (h : HandleId) (page : UInt32) (mode : LockMode) :
    (engine.recordLock h page mode).running = engine.running := by
  unfold recordLock
  exact running_modifyHandle engine h (by intro _; rfl)

theorem checkLock_eq_ok {page : UInt32} {mode : LockMode} {engine' : Engine}
    (h' : engine.checkLock h page mode = .ok engine') :
    ∃ locks, engine' = engine.modifyHandle h fun handle => { handle with locks := locks } := by
  unfold checkLock at h'
  cases checked : (engine.handle h).locks.check page mode with
  | error fault =>
    rw [checked] at h'
    cases h'
  | ok locks =>
    rw [checked] at h'
    cases h'
    exact ⟨locks, rfl⟩

theorem exists_checkLock (engine : Engine) (h : HandleId) (page : UInt32) (mode : LockMode) :
    ∃ engine', engine.checkLock h page mode = .ok engine' := by
  obtain ⟨locks, checked⟩ := (engine.handle h).locks.exists_check page mode
  unfold checkLock
  rw [checked]
  exact ⟨_, rfl⟩

end RowStore.Engine

namespace RowStore.Scanner

/-- A scanner that moves on keeps its view and changes page locks at most. -/
theorem next_locks (scanner : Scanner) (engine : Engine) :
    (scanner.next engine).2.1.view = scanner.view ∧
      ((scanner.next engine).2.2 = engine ∨
        ∃ locks, (scanner.next engine).2.2 =
          engine.modifyHandle scanner.handle fun handle => { handle with locks := locks }) := by
  unfold next
  cases opened : scanner.view with
  | none => exact ⟨opened, Or.inl rfl⟩
  | some view =>
    dsimp only
    split
    · exact ⟨opened, Or.inl rfl⟩
    · split
      · exact ⟨rfl, Or.inl rfl⟩
      · split
        · exact ⟨rfl, Or.inl rfl⟩
        case h_2 locked => exact ⟨rfl, Or.inr (Engine.checkLock_eq_ok locked)⟩

end RowStore.Scanner
