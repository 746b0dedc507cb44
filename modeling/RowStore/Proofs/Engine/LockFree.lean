/- RowStore/Proofs/Engine/LockFree
   role: theorems
   digest: No operation of the store is ever refused for the lock of a page. -/

import RowStore.Engine.Operator
import RowStore.Proofs.Engine.Handles
import RowStore.Proofs.Row.Faults

set_option autoImplicit false
set_option relaxedAutoImplicit false

namespace RowStore

open RowStore.Cell (CellFault Value)
open RowStore.Row (BoundCondition BoundOperand Expression Record RowFilter RowId findField)
open RowStore.Schema (Layout RowField SchemaFault TableSpec)
open RowStore.Table (Chain Heap)
open RowStore.Text (Bytes)
open RowStore.Transaction (LockMode TxnId)

variable {α β : Type} {fault : Fault} {result : Except Fault α}

/-- The result is not the fault of a page lock. -/
def LockFree (result : Except Fault α) : Prop := ∀ page, result ≠ .error (.lockConflict page)

namespace LockFree

theorem ok (a : α) : LockFree (.ok a) := fun _ => nofun

theorem error (other : ∀ page, fault ≠ .lockConflict page) :
    LockFree (.error fault : Except Fault α) := by
  intro page same
  exact other page (Except.error.inj same)

theorem fieldNotFound (table field : String) :
    LockFree (.error (.fieldNotFound table field) : Except Fault α) :=
  error nofun

/-- The fault of a result that is free of it is handed on, whatever that would have led to. -/
theorem failed (free : LockFree result) (failed : result = .error fault) :
    LockFree (.error fault : Except Fault β) :=
  error fun page same => free page (failed.trans (congrArg Except.error same))

theorem bind {f : α → Except Fault β} (first : LockFree result)
    (later : ∀ a, LockFree (f a)) : LockFree (result >>= f) := by
  intro page failed
  rcases eq_error_of_bind_eq_error failed with failed | ⟨a, -, failed⟩
  · exact first page failed
  · exact later a page failed

theorem map {f : α → β} (free : LockFree result) : LockFree (result.map f) :=
  fun page failed => free page (eq_error_of_map_eq_error failed)

theorem ofCell (result : Except CellFault α) : LockFree (Fault.ofCell result) := by
  cases result with
  | ok a => exact ok a
  | error cause => exact error nofun

theorem ofSchema (result : Except SchemaFault α) : LockFree (Fault.ofSchema result) := by
  cases result with
  | ok a => exact ok a
  | error cause => exact error nofun

theorem of?_ne (free : LockFree result) (page : UInt32) :
    Fault.of? result ≠ some (.lockConflict page) := by
  cases result with
  | ok a => nofun
  | error fault => exact fun same => free page (congrArg Except.error (Option.some.inj same))

theorem bind_of?_ne {x : Option β} {f : β → Except Fault α} (free : ∀ b, LockFree (f b))
    (page : UInt32) : (x.bind fun b => Fault.of? (f b)) ≠ some (.lockConflict page) := by
  cases x with
  | none => nofun
  | some b => exact (free b).of?_ne page

theorem mapM {f : α → Except Fault β} (free : ∀ a, LockFree (f a)) (as : List α) :
    LockFree (as.mapM f) := by
  intro page failed
  obtain ⟨-, a, -, -, -, here⟩ := mapM_eq_error_iff.1 failed
  exact free a page here

end LockFree

namespace Row

theorem lockFree_slot (field : RowField) (data : Bytes) : LockFree (slot field data) := by
  unfold slot
  split
  · exact .ok _
  · exact .error nofun

theorem lockFree_cell (field : RowField) (data : Bytes) : LockFree (cell field data) :=
  (lockFree_slot field data).bind fun _ => .ofCell _

theorem lockFree_setCell (field : RowField) (value : Value) (data : Bytes) :
    LockFree (setCell field value data) :=
  (lockFree_slot field data).bind fun _ => (LockFree.ofCell _).bind fun _ => .ok _

theorem lockFree_coerceTo (field : RowField) (value : Value) : LockFree (coerceTo field value) := by
  unfold coerceTo
  split
  · exact .ok _
  · exact .error nofun

theorem lockFree_findField (layout : Layout) (record : Record) (qualifier : Option String)
    (name : String) : LockFree (findField layout record qualifier name) := by
  simp only [findField]
  split
  · exact .fieldNotFound _ _
  · split
    · exact lockFree_cell _ _
    · exact .fieldNotFound _ _

theorem lockFree_negated (value : Value) : LockFree (negated value) := by
  cases value with
  | int n => exact .ok _
  | float x => exact .ok _
  | chars bytes => exact .error nofun

theorem lockFree_calculate (op : BinaryOp) (left right : Value) :
    LockFree (calculate op left right) := by
  intro page failed
  rcases calculate_eq_error failed with same | ⟨-, same⟩
  · cases same
  · cases same

theorem Expression.lockFree_eval {lookup : Option String → String → Except Fault Value}
    (free : ∀ qualifier name, LockFree (lookup qualifier name)) (expression : Expression) :
    LockFree (expression.eval lookup) := by
  induction expression with
  | field qualifier name => exact free qualifier name
  | literal value => exact .ok value
  | negate operand ih | negateFirst operand ignored ih => exact ih.bind lockFree_negated
  | binary op left right ihLeft ihRight =>
    exact ihLeft.bind fun l => ihRight.bind fun r => lockFree_calculate op l r
  | incomplete op left ih => exact ih.bind fun _ => .error nofun
  | cast operand target ih => exact ih.bind fun _ => .ofCell _

theorem BoundOperand.lockFree_eval (operand : BoundOperand) (data : Bytes) :
    LockFree (operand.eval data) := by
  cases operand with
  | field f => exact lockFree_cell f data
  | value v => exact .ok v

theorem RowFilter.lockFree_accepts (filter : RowFilter) (data : Bytes) :
    LockFree (filter.accepts data) := by
  induction filter with
  | nil => exact .ok true
  | cons condition rest ih =>
    have judged : LockFree (condition.accepts data) :=
      (condition.left.lockFree_eval data).bind fun _ =>
        (condition.right.lockFree_eval data).bind fun _ => .ofCell _
    refine judged.bind fun accepted => ?_
    cases accepted with
    | true => exact ih
    | false => exact .ok false

end Row

namespace Target

theorem lockFree_resolve (layout : Layout) (targets : List Target) :
    LockFree (resolve layout targets) := by
  refine .mapM (fun target => ?_) targets
  split
  · exact .ok _
  · exact .fieldNotFound _ _

theorem lockFree_value (layout : Layout) (row : Record) (field : RowField) (target : Target) :
    LockFree (target.value layout row field) := by
  unfold value
  split
  · exact Row.lockFree_coerceTo field _
  case h_2 expression _ =>
    exact (expression.lockFree_eval (Row.lockFree_findField layout row)).bind
      (Row.lockFree_coerceTo field)

theorem lockFree_write (layout : Layout) (old : Record) (targets : List Target)
    (fields : List RowField) (data : Bytes) : LockFree (write layout old targets fields data) := by
  induction targets generalizing fields data with
  | nil => exact .ok data
  | cons target targets ih =>
    cases fields with
    | nil => exact .ok data
    | cons field fields =>
      exact (lockFree_value layout old field target).bind fun value =>
        (Row.lockFree_setCell field value data).bind fun data => ih fields data

end Target

theorem Change.lockFree_resolve (change : Change) (layout : Layout) :
    LockFree (change.resolve layout) := by
  cases change with
  | update targets => exact Target.lockFree_resolve layout targets
  | delete => exact .ok []

namespace Table.Chain

variable (stamps : TxnId → Transaction.Timestamp) (view : Transaction.View) (txn : TxnId) (row : RowId)

theorem lockFree_checkWritable (newest : Version) :
    LockFree (checkWritable stamps view row newest) := by
  unfold checkWritable
  split
  · exact .error nofun
  · split
    · exact .ok _
    · split <;> exact .error nofun

theorem lockFree_delete (chain : Chain) : LockFree (chain.delete stamps view txn row) := by
  unfold delete
  split
  · exact .error nofun
  · exact (lockFree_checkWritable stamps view row _).map

theorem lockFree_replace (data : Bytes) (chain : Chain) :
    LockFree (chain.replace stamps view txn row data) := by
  unfold replace
  split
  · exact .error nofun
  · exact (lockFree_checkWritable stamps view row _).map

end Table.Chain

namespace Engine

variable (engine : Engine) (txn : TxnId) (h : HandleId) (layout : Layout) (row : RowId) (data : Bytes)

theorem lockFree_checkLength : LockFree (checkLength layout data) := by
  unfold checkLength
  split
  · exact .ok ()
  · exact .error nofun

theorem lockFree_insertRow : LockFree (engine.insertRow txn layout data).1 := by
  unfold insertRow
  split
  case h_1 failed => exact (lockFree_checkLength layout data).failed failed
  case h_2 =>
    dsimp only
    unfold Heap.insert
    split
    · exact .error nofun
    · exact .ok _

theorem lockFree_deleteRow : LockFree (engine.deleteRow txn layout row) := by
  rw [deleteRow_eq]
  exact (Chain.lockFree_delete _ _ txn row _).map

theorem lockFree_replaceRow : LockFree (engine.replaceRow txn layout row data) := by
  rw [replaceRow_eq]
  split
  · exact (Chain.lockFree_replace _ _ txn row data _).map
  · exact .error nofun

theorem lockFree_insert : LockFree (engine.insert h layout data).1 := by
  have free := lockFree_insertRow (engine.ensureStarted h).2 (engine.ensureStarted h).1 layout data
  simp only [insert]
  split
  case h_1 failed => exact free.failed (congrArg Prod.fst failed)
  case h_2 => exact .ok _

theorem lockFree_delete : LockFree (engine.delete h layout row).1 := by
  have free := lockFree_deleteRow (engine.ensureStarted h).2 (engine.ensureStarted h).1 layout row
  simp only [delete]
  split
  case h_1 failed => exact free.failed failed
  case h_2 => exact .ok ()

theorem lockFree_replace : LockFree (engine.replace h layout row data).1 := by
  have free :=
    lockFree_replaceRow (engine.ensureStarted h).2 (engine.ensureStarted h).1 layout row data
  simp only [replace]
  split
  case h_1 failed => exact free.failed failed
  case h_2 => exact .ok ()

theorem lockFree_checkLock (page : UInt32) (mode : LockMode) :
    LockFree (engine.checkLock h page mode) := by
  obtain ⟨engine', checked⟩ := engine.exists_checkLock h page mode
  rw [checked]
  exact .ok engine'

theorem lockFree_createTable (spec : TableSpec) : LockFree (engine.createTable spec) := by
  unfold createTable
  split
  · exact .error nofun
  · split
    · exact .error nofun
    · exact (LockFree.ofSchema _).bind fun _ => .ok _

end Engine

theorem Change.lockFree_apply (change : Change) (table : Layout) (fields : List RowField)
    (h : HandleId) (row : Record) (engine : Engine) :
    LockFree (change.apply table fields h row engine).1 := by
  cases change with
  | delete => exact engine.lockFree_delete h table row.id
  | update targets =>
    have built : LockFree (Target.newRecord table targets fields row) :=
      (Target.lockFree_write table row targets fields row.data).map
    simp only [apply]
    split
    case h_1 failed => exact built.failed failed
    case h_2 => exact engine.lockFree_replace h table row.id _

theorem Scanner.lockFree_next (scanner : Scanner) (engine : Engine) :
    LockFree (scanner.next engine).1 := by
  unfold next
  split
  · exact .error nofun
  · split
    · exact .ok none
    case h_2 record found =>
      dsimp only
      split
      · exact .ok _
      · obtain ⟨engine', checked⟩ := engine.exists_checkLock scanner.handle record.id.page scanner.mode
        rw [checked]
        exact .ok _

section Loops

variable {advance : Operator → Engine → Except Fault Bool × Operator × Engine}

theorem lockFree_seek (filter : RowFilter) (steps : ∀ child engine, LockFree (advance child engine).1)
    (row? : Operator → Option Record) (times : Nat) (child : Operator) (engine : Engine) :
    LockFree (seek filter advance row? times child engine).1 := by
  induction times generalizing child engine with
  | zero => exact .ok false
  | succ times ih =>
    have next := steps child engine
    unfold seek
    split
    · split
      · exact .error nofun
      case h_2 row _ =>
        have judged := Row.RowFilter.lockFree_accepts filter row.data
        split
        case h_1 failed => exact judged.failed failed
        · exact .ok true
        · exact ih _ _
    · exact next

theorem lockFree_applyAll {act : Record → Engine → Except Fault Unit × Engine}
    (acts : ∀ row engine, LockFree (act row engine).1) (consumer : Consumer)
    (steps : ∀ child engine, LockFree (advance child engine).1)
    (row? : Operator → Option Record) (times affected : Nat) (child : Operator) (engine : Engine) :
    LockFree (applyAll act consumer advance row? times affected child engine).1 := by
  induction times generalizing affected child engine with
  | zero => exact .ok false
  | succ times ih =>
    have next := steps child engine
    unfold applyAll
    split
    case h_1 child' engine' _ =>
      split
      · exact .error nofun
      case h_2 row _ =>
        have acted := acts row engine'
        split
        case h_1 failed => exact acted.failed (congrArg Prod.fst failed)
        · exact ih _ _ _
    case h_2 stopped =>
      rw [stopped] at next
      exact next

end Loops

namespace Operator

theorem lockFree_start (h : HandleId) : ∀ (operator : Operator) (engine : Engine),
    LockFree (operator.start h engine).1
  | .scan _ _ _ _, _ => .ok ()
  | .predicate _ child, engine => lockFree_start h child engine
  | .alter _ _ _ [], _ => .error nofun
  | .alter _ _ _ (_ :: _ :: _), _ => .error nofun
  | .alter table change run [child], engine => by
    have started := lockFree_start h child engine
    have resolved := change.lockFree_resolve table
    simp only [start]
    split
    case h_1 failed => exact resolved.failed failed
    case h_2 =>
      split
      case h_1 failed => exact started.failed (congrArg Prod.fst failed)
      case h_2 => exact .ok ()

theorem lockFree_nextWithin (steps : Nat) (operator : Operator) (engine : Engine) :
    LockFree (nextWithin steps operator engine).1 := by
  induction steps generalizing operator engine with
  | zero => exact .ok false
  | succ steps ih =>
    cases operator with
    | scan table mode scanner row =>
      cases scanner with
      | none => exact .error nofun
      | some scanner =>
        have next := scanner.lockFree_next engine
        simp only [nextWithin]
        split
        case h_1 failed => exact next.failed (congrArg Prod.fst failed)
        case h_2 => exact .ok _
    | predicate filter child => exact lockFree_seek filter ih record? (engine.rowCount + 1) child engine
    | alter table change run children =>
      simp only [nextWithin]
      split
      · exact .error nofun
      · exact .ok false
      case h_3 bound child others _ =>
        exact lockFree_applyAll (change.lockFree_apply table run.fields bound) change.consumer ih
          record? _ _ child engine

end Operator

theorem Engine.lockFree_execute (engine : Engine) (h : HandleId) (statement : Statement) :
    LockFree (engine.execute h statement).1 := by
  unfold execute
  split
  case h_1 failed =>
    cases statement with
    | update table targets filter => cases failed
    | delete table filter => cases failed
    | dropTable table =>
      cases failed
      exact .error nofun
  case h_2 plan _ =>
    have started := (Operator.ofPlan plan).lockFree_start h engine
    dsimp only
    refine LockFree.map ?_
    unfold drain
    split
    case h_1 failed => exact started.failed (congrArg Prod.fst failed)
    case h_2 operator engine' _ =>
      have advanced : LockFree (operator.next engine').1 :=
        operator.lockFree_nextWithin operator.height engine'
      split
      case h_1 failed => exact advanced.failed (congrArg Prod.fst failed)
      case h_2 => exact .ok ()

end RowStore
