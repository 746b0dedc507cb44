/- RowStore/Proofs/Run/PageSteps
   role: theorems
   digest: What each operation of the store means for the locks of one handle, as uses of pages. -/

import RowStore.Proofs.Engine.Execution
import RowStore.Proofs.Run.Operators
import RowStore.Proofs.Run.Statements
import RowStore.Proofs.Transaction.PageUse
import RowStore.Run.PageUse

set_option autoImplicit false
set_option relaxedAutoImplicit false

namespace RowStore

open RowStore.Row (Record RowFilter RowId)
open RowStore.Schema (Layout RowField)
open RowStore.Transaction (LockMode LockTable PageUse TxnId)

variable {h user : HandleId} {made later : List PageUse} {engine old new first second third : Engine}
  {page : UInt32} {mode : LockMode} {layout table : Layout} {row : RowId} {txn : TxnId}

namespace Engine

/-- The step makes these uses of pages for the handle: they lead from the modes of its pages before to
those after. It makes no new handle. -/
structure UsesPages (h : HandleId) (made : List PageUse) (old new : Engine) : Prop where
  size : new.handles.size = old.handles.size
  modes : ∀ page, (new.handle h).locks.modeOf? page =
    PageUse.leaveAll page ((old.handle h).locks.modeOf? page) made

namespace UsesPages

theorem trans (a : UsesPages h made first second) (b : UsesPages h later second third) :
    UsesPages h (made ++ later) first third where
  size := b.size.trans a.size
  modes page := by rw [b.modes, a.modes, PageUse.leaveAll_append]

theorem spared {after : Engine} (a : UsesPages h made old new) (b : UsesPages h [] new after) :
    UsesPages h made old after := by
  have both := a.trans b
  rwa [List.append_nil] at both

theorem of_locks (size : new.handles.size = old.handles.size)
    (same : (new.handle h).locks = (old.handle h).locks) : UsesPages h [] old new where
  size := size
  modes page := by
    rw [same]
    rfl

theorem of_handles (same : new.handles = old.handles) : UsesPages h [] old new :=
  of_locks (congrArg Array.size same) (by rw [handle_eq, handle_eq, same])

theorem refl (h : HandleId) (engine : Engine) : UsesPages h [] engine engine := of_handles rfl

theorem known (uses : UsesPages h made old new) : h < new.handles.size ↔ h < old.handles.size := by
  rw [uses.size]

end UsesPages

theorem handle_of_unknown (unknown : ¬ h < engine.handles.size) : engine.handle h = {} := by
  rw [handle_eq, Array.getElem?_eq_none (Nat.not_lt.1 unknown)]
  rfl

theorem spares_modifyHandle (apart : h < engine.handles.size → user ≠ h)
    (change : Handle → Handle) : UsesPages h [] engine (engine.modifyHandle user change) := by
  have size : (engine.modifyHandle user change).handles.size = engine.handles.size :=
    Array.size_modify
  refine .of_locks size ?_
  by_cases known : h < engine.handles.size
  · rw [handle_modifyHandle_of_ne engine change (Ne.symm (apart known))]
  · rw [handle_of_unknown known, handle_of_unknown (size ▸ known)]

theorem uses_modifyHandle (known : h < engine.handles.size) {change : Handle → Handle}
    (modes : ∀ page, (change (engine.handle h)).locks.modeOf? page =
      PageUse.leaveAll page ((engine.handle h).locks.modeOf? page) made) :
    UsesPages h made engine (engine.modifyHandle h change) where
  size := Array.size_modify
  modes page := by
    rw [handle_modifyHandle engine known, if_pos rfl]
    exact modes page

theorem spares_ensureStarted (engine : Engine) (h user : HandleId) :
    UsesPages h [] engine (engine.ensureStarted user).2 := by
  cases carried : (engine.handle user).txn with
  | some txn =>
    rw [ensureStarted_of_carries carried]
    exact .refl h engine
  | none =>
    rw [ensureStarted_of_idle carried]
    have begun : UsesPages h [] engine { engine with registry := engine.registry.start.2 } :=
      .of_handles rfl
    by_cases apart : h < engine.handles.size → user ≠ h
    · exact begun.trans (spares_modifyHandle (by exact apart) _)
    · obtain ⟨known, same⟩ := Classical.not_imp.1 apart
      rw [not_not.1 same]
      exact begun.trans (uses_modifyHandle (by exact known) fun _ => rfl)

theorem uses_recordLock (known : h < engine.handles.size) (page : UInt32) (mode : LockMode) :
    UsesPages h [.recorded page mode] engine (engine.recordLock h page mode) :=
  uses_modifyHandle known fun other => LockTable.modeOf?_recorded _ page other mode

theorem uses_checkLock (known : h < engine.handles.size)
    (checked : engine.checkLock h page mode = .ok new) :
    UsesPages h [.checked page mode] engine new := by
  unfold checkLock at checked
  cases done : (engine.handle h).locks.check page mode with
  | error fault =>
    rw [done] at checked
    cases checked
  | ok locks =>
    rw [done] at checked
    cases checked
    exact uses_modifyHandle known fun other => LockTable.modeOf?_checked done other

theorem spares_checkLock (apart : h < engine.handles.size → user ≠ h)
    (checked : engine.checkLock user page mode = .ok new) : UsesPages h [] engine new := by
  obtain ⟨locks, rfl⟩ := checkLock_eq_ok checked
  exact spares_modifyHandle apart _

theorem spares_recordLock (apart : h < engine.handles.size → user ≠ h) (page : UInt32)
    (mode : LockMode) : UsesPages h [] engine (engine.recordLock user page mode) :=
  spares_modifyHandle apart _

theorem uses_noteWrite (known : h < engine.handles.size) (txn : TxnId) (layout : Layout)
    (row : RowId) :
    UsesPages h [.written row.page] engine (engine.noteWrite h txn layout row) := by
  have noted := uses_recordLock known row.page .readWrite
  exact ⟨noted.size, noted.modes⟩

theorem spares_noteWrite (apart : h < engine.handles.size → user ≠ h) (txn : TxnId)
    (layout : Layout) (row : RowId) :
    UsesPages h [] engine (engine.noteWrite user txn layout row) := by
  have noted := spares_recordLock apart row.page .readWrite
  exact ⟨noted.size, noted.modes⟩

theorem Attempted.uses {α : Type} {row : α → RowId} {outcome : Except Fault α × Engine}
    (attempted : Attempted engine h layout row outcome) (known : h < engine.handles.size) :
    UsesPages h (usesOfWrite row outcome.1) engine outcome.2 := by
  have begun := spares_ensureStarted engine h h
  cases attempted with
  | failed fault left catalog registry handles => exact begun.trans (.of_handles handles)
  | noted a left catalog registry handles =>
    have same : UsesPages h [] engine left := begun.trans (.of_handles handles)
    exact same.trans (uses_noteWrite (same.known.2 known) _ layout (row a))

theorem Attempted.spares {α : Type} {row : α → RowId} {outcome : Except Fault α × Engine}
    (attempted : Attempted engine user layout row outcome)
    (apart : h < engine.handles.size → user ≠ h) : UsesPages h [] engine outcome.2 := by
  have begun := spares_ensureStarted engine h user
  cases attempted with
  | failed fault left catalog registry handles => exact begun.trans (.of_handles handles)
  | noted a left catalog registry handles =>
    have same : UsesPages h [] engine left := begun.trans (.of_handles handles)
    exact same.trans (spares_noteWrite (fun known => apart (same.known.1 known)) _ layout (row a))

theorem spares_commitTxn (engine : Engine) (h : HandleId) (txn : TxnId) :
    UsesPages h [] engine (engine.commitTxn txn).2 := by
  rw [commitTxn_eq]
  exact .of_handles (sameBesides_purgeAll _ _ _).handles

theorem spares_rollbackTxn (engine : Engine) (h : HandleId) (txn : TxnId) :
    UsesPages h [] engine (engine.rollbackTxn txn) := by
  rw [rollbackTxn_eq]
  exact .of_handles (sameBesides_withdrawAll _ _ _).handles

theorem uses_commit (reset : UsesPages h made engine (engine.resetHandle user)) :
    UsesPages h made engine (engine.commit user) := by
  unfold commit
  split
  · exact reset
  · exact reset.spared (spares_commitTxn _ h _)

theorem uses_rollback (reset : UsesPages h made engine (engine.resetHandle user)) :
    UsesPages h made engine (engine.rollback user) := by
  unfold rollback
  split
  · exact reset
  · exact reset.spared (spares_rollbackTxn _ h _)

theorem uses_resetHandle (known : h < engine.handles.size) :
    UsesPages h [.ended] engine (engine.resetHandle h) :=
  uses_modifyHandle known fun _ => rfl

theorem spares_readView (engine : Engine) (h user : HandleId) :
    UsesPages h [] engine (engine.readView user).2 := by
  unfold readView
  split <;> exact .of_handles rfl

end Engine

namespace Scanner

theorem spares_releaseView (scanner : Scanner) (engine : Engine) (h : HandleId) :
    Engine.UsesPages h [] engine (scanner.releaseView engine) := by
  unfold releaseView
  split <;> exact .of_handles rfl

theorem spares_start (scanner : Scanner) (engine : Engine) (h : HandleId) :
    Engine.UsesPages h [] engine (scanner.start engine).2 := by
  obtain ⟨layout, user, mode, view, cursor, page⟩ := scanner
  cases mode with
  | readOnly => exact (engine.spares_readView h user).trans (spares_releaseView _ _ h)
  | readWrite =>
    exact ((engine.spares_ensureStarted h user).trans (Engine.spares_readView _ h user)).trans
      (spares_releaseView _ _ h)

theorem spares_next {scanner : Scanner} (apart : h < engine.handles.size → scanner.handle ≠ h) :
    Engine.UsesPages h [] engine (scanner.next engine).2.2 := by
  obtain ⟨-, same | ⟨locks, moved⟩⟩ := scanner.next_locks engine
  · rw [same]
    exact .refl h engine
  · rw [moved]
    exact Engine.spares_modifyHandle apart _

end Scanner

theorem Change.spares_apply (change : Change) (apart : h < engine.handles.size → user ≠ h)
    (layout : Layout) (fields : List RowField) (record : Record) :
    Engine.UsesPages h [] engine (change.apply layout fields user record engine).2 := by
  unfold apply
  split
  · exact (engine.attempted_delete user layout record.id).spares apart
  · split
    · exact .refl h engine
    · exact (engine.attempted_replace user layout record.id _).spares apart

namespace Engine

theorem stable_spares (h : HandleId) (base : Engine) :
    Stable (UsesPages h [] base) fun user => h < base.handles.size → user ≠ h where
  start scanner engine none := none.trans (scanner.spares_start engine h)
  release scanner engine none := none.trans (scanner.spares_releaseView engine h)
  next _ _ apart none := none.trans (Scanner.spares_next fun known => apart (none.known.1 known))
  apply change layout fields _ row _ apart none :=
    none.trans (change.spares_apply (fun known => apart (none.known.1 known)) layout fields row)

theorem uses_enter (known : h < engine.handles.size) (page : UInt32) :
    UsesPages h [.checked page .readWrite] engine (engine.enter h page) :=
  uses_checkLock known (engine.checkLock_readWrite h page)

/-- The pages of the records are not locked just for reading. -/
def Raised (engine : Engine) (h : HandleId) (records : List Record) : Prop :=
  ∀ record ∈ records, (engine.handle h).locks.modeOf? record.id.page ≠ some .readOnly

variable {returned : List Record}

/-- To look for writing at the page of a further record is what a scan for writing does when it
returns it. -/
theorem uses_return (known : h < engine.handles.size) (raised : engine.Raised h returned)
    (record : Record) :
    UsesPages h (usesOfReturn returned .readWrite record) engine
      (engine.enter h record.id.page) := by
  unfold usesOfReturn
  split
  case isTrue seen =>
    obtain ⟨earlier, mem, same⟩ := seen
    rw [enter_eq_self (same ▸ raised earlier mem)]
    exact .refl h engine
  case isFalse => exact uses_enter known record.id.page

theorem uses_settle {fate : Fate} (known : h < engine.handles.size)
    (result : (engine.settle h table row fate).1 = .ok ()) :
    UsesPages h (if fate = .kept then [] else [.written row.page]) engine
      (engine.settle h table row fate).2 := by
  cases fate with
  | kept => exact .refl h engine
  | replaced data =>
    have written := (engine.attempted_replace h table row data).uses known
    rw [show (engine.replace h table row data).1 = .ok () from result] at written
    exact written
  | deleted =>
    have written := (engine.attempted_delete h table row).uses known
    rw [show (engine.delete h table row).1 = .ok () from result] at written
    exact written

theorem raised_enter (known : h < engine.handles.size) (raised : engine.Raised h returned)
    (record : Record) : (engine.enter h record.id.page).Raised h (returned ++ [record]) := by
  intro other mem
  rw [(uses_enter known record.id.page).modes]
  change (if record.id.page = other.id.page then _ else _) ≠ _
  split
  case isTrue => cases (engine.handle h).locks.modeOf? other.id.page <;> nofun
  case isFalse apart =>
    rcases List.mem_append.1 mem with before | now
    · exact raised other before
    · exact absurd (congrArg (·.id.page) (List.mem_singleton.1 now)).symm apart

theorem raised_settle {fate : Fate} (known : h < engine.handles.size)
    (result : (engine.settle h table row fate).1 = .ok ()) (raised : engine.Raised h returned) :
    (engine.settle h table row fate).2.Raised h returned := by
  intro other mem
  rw [(uses_settle known result).modes]
  split
  · exact raised other mem
  · change (if row.page = other.id.page then _ else _) ≠ _
    split
    · nofun
    · exact raised other mem

end Engine

/-- A sweep that looks at the page of every row that it comes to makes the uses of a scan for writing
whose rows are written as they come. -/
theorem Change.uses_sweepRows (change : Change) (fields : List RowField) (filter : RowFilter)
    {returned rows : List Record} (carries : (engine.handle h).txn = some txn)
    (raised : engine.Raised h returned) :
    let passing := (change.passed table fields filter h rows engine).length
    Engine.UsesPages h (usesOfRows (change.keeps table fields filter) returned passing rows) engine
      ((change.sweepRows table fields filter h rows engine).2.enterAll h
        (rows.take (passing + 1))) := by
  induction rows generalizing engine returned with
  | nil => exact .refl h engine
  | cons row rest ih =>
    dsimp only at ih ⊢
    have known := Engine.known_of_carries carries
    have returns := Engine.uses_return known raised row
    cases decided : change.fate table fields filter row with
    | error fault =>
      obtain ⟨swept, passed⟩ := sweepRows_failed (h := h) rest engine decided
      rw [swept, passed]
      exact returns
    | ok fate =>
      cases result : (engine.settle h table row.id fate).1 with
      | error fault =>
        obtain ⟨swept, passed⟩ := sweepRows_refused rest decided result
        rw [swept, passed, Engine.settle_eq_error carries result]
        exact returns
      | ok _ =>
        obtain ⟨swept, passed⟩ := sweepRows_settled rest decided result
        have keeps : change.keeps table fields filter row = decide (fate = .kept) := by
          unfold keeps
          rw [decided]
        have carries' := Engine.carries_settle carries table row.id fate
        -- The page is looked at first and the row is written then; both orders lead to one store.
        have comm := Engine.settle_enter carries row.id.page table row.id fate
        have known' : h < (engine.enter h row.id.page).handles.size := returns.known.2 known
        have result' : ((engine.enter h row.id.page).settle h table row.id fate).1 = .ok () := by
          rw [comm]
          exact result
        have writes := Engine.uses_settle known' result'
        have raised' := Engine.raised_settle known' result' (Engine.raised_enter known raised row)
        rw [comm] at writes raised'
        obtain ⟨entered, entered'⟩ := sweepRows_enter change table fields filter rest carries'
          row.id.page
        have later := ih ((Engine.carried_enter _ h h row.id.page).trans carries') raised'
        rw [entered, entered'] at later
        rw [swept, passed, List.length_cons, usesOfRows, keeps]
        simp only [decide_eq_true_eq]
        exact (returns.trans writes).trans later

namespace Engine

theorem uses_execute (known : h < engine.handles.size) (statement : Statement) :
    UsesPages h (engine.usesOfStatement h statement) engine (engine.execute h statement).2 := by
  unfold usesOfStatement
  cases parts : statement.parts? with
  | none =>
    cases statement with
    | update table targets filter => cases parts
    | delete table filter => cases parts
    | dropTable table => exact .refl h engine
  | some part =>
    obtain ⟨table, change, filter⟩ := part
    have planned := Statement.plan_of_parts parts
    dsimp only
    cases resolved : change.resolve table with
    | error fault =>
      have failed : (Operator.ofPlan (.alter table change [Plan.ofFilter table filter])).start h
          engine = (.error fault, Operator.ofPlan (.alter table change [Plan.ofFilter table filter]),
            engine) := by
        rw [Operator.ofPlan, Operator.ofPlans, Operator.ofPlans, Operator.start, resolved]
      unfold execute drain
      rw [planned]
      dsimp only
      rw [failed]
      exact Operator.close_keeps (stable_spares h engine) _ engine (.refl h engine)
    | ok fields =>
      rw [(execute_eq_sweep known planned resolved).2]
      have begun := spares_ensureStarted engine h h
      exact begun.trans
        (change.uses_sweepRows fields filter (carries_ensureStarted known) (List.forall_mem_nil _))

end Engine

end RowStore
