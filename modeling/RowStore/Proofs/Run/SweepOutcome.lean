/- RowStore/Proofs/Run/SweepOutcome
   role: theorems
   digest: What a sweep changes, where it stops and why, and what it leaves alone. -/

import RowStore.Proofs.Engine.Sweep
import RowStore.Proofs.Row.Record
import RowStore.Proofs.Run.WriteOutcome

set_option autoImplicit false
set_option relaxedAutoImplicit false

namespace RowStore

open RowStore.Row (Record RowFilter)
open RowStore.Schema (Layout RowField)

def Fate.write? : Fate → Option Run.Write
  | .kept => none
  | .replaced data => some (.replaced data)
  | .deleted => some .deleted

def Fate.fits (table : Layout) : Fate → Prop
  | .replaced data => data.length = table.recordSize
  | _ => True

namespace Change

/-- What is found of a row that was changed: its replacement, built from the bytes it had, or
nothing. -/
def Leaves (change : Change) (table : Layout) (fields : List RowField) (row : Record)
    (found : Option Record) : Prop :=
  match change with
  | .update targets => ∃ data, Target.replacement table targets fields row = .ok data ∧
      found = some ⟨row.id, data⟩
  | .delete => found = none

/-- Why a sweep stops at a row: the filter cannot be evaluated, or the filter accepts the row, but
its replacement cannot be built or somebody else has written it. -/
inductive Stops (change : Change) (table : Layout) (fields : List RowField) (filter : RowFilter)
    (row : Record) : Fault → Prop
  | unjudged {fault : Fault} (judged : filter.accepts row.data = .error fault) :
      Stops change table fields filter row fault
  | unbuilt {fault : Fault} (judged : filter.accepts row.data = .ok true)
      (built : change.outcome table fields row = .error fault) :
      Stops change table fields filter row fault
  | conflict {fate : Fate} (judged : filter.accepts row.data = .ok true)
      (built : change.outcome table fields row = .ok fate) :
      Stops change table fields filter row (.writeConflict row.id)

variable {change : Change} {table : Layout} {fields : List RowField} {row : Record} {fate : Fate}

theorem leaves_of_outcome (change : Change) (built : change.outcome table fields row = .ok fate) :
    ∃ write, fate.write? = some write ∧
      change.Leaves table fields row (write.left.map fun data => ⟨row.id, data⟩) := by
  cases change with
  | delete =>
    cases built
    exact ⟨.deleted, rfl, rfl⟩
  | update targets =>
    obtain ⟨data, replaced, rfl⟩ := exists_of_outcome_update built
    exact ⟨.replaced data, rfl, data, replaced, rfl⟩

theorem fits_of_outcome (change : Change) (sized : row.data.length = table.recordSize)
    (built : change.outcome table fields row = .ok fate) : fate.fits table := by
  cases change with
  | delete =>
    cases built
    trivial
  | update targets =>
    obtain ⟨data, replaced, rfl⟩ := exists_of_outcome_update built
    exact (Target.length_replacement replaced).trans sized

end Change

end RowStore

namespace RowStore.Run

open RowStore.Row (Record RowFilter RowId)
open RowStore.Schema (Layout RowField)
open RowStore.Table.Chain
open RowStore.Text (Bytes)
open RowStore.Transaction (Touch TxnId)

variable {engine after : Engine} {h : HandleId} {txn : TxnId} {table : Layout} {row : RowId}
  {fate : Fate} {change : Change} {fields : List RowField} {filter : RowFilter} {fault : Fault}
  {record : Record} {rows rest done : List Record} {result : Except Fault Nat}

/-- A row that a transaction shows can be written unless somebody else has written it. -/
theorem settle_fst (carries : (engine.handle h).txn = some txn) {data : Bytes}
    (found : (engine.chain ⟨table.id, row⟩).read engine.stamps (engine.registry.ownView txn) =
      some data) (fits : fate.fits table) :
    (engine.settle h table row fate).1 = .ok () ∨
      fate ≠ .kept ∧ (engine.settle h table row fate).1 = .error (.writeConflict row) := by
  have admitted := admits_of_read found row
  cases fate with
  | kept => exact Or.inl rfl
  | replaced data =>
    have outcome := replace_fst carries row fits
    rcases admitted with writable | refused
    · exact Or.inl (outcome.trans writable)
    · exact Or.inr ⟨by simp, outcome.trans refused⟩
  | deleted =>
    have outcome := delete_fst carries table row
    rcases admitted with writable | refused
    · exact Or.inl (outcome.trans writable)
    · exact Or.inr ⟨by simp, outcome.trans refused⟩

theorem settle_eq_ok (carries : (engine.handle h).txn = some txn) {write : Write}
    (asks : fate.write? = some write)
    (settled : (engine.settle h table row fate).1 = .ok ()) :
    Writable engine.registry txn (engine.chain ⟨table.id, row⟩) ∧
      (engine.settle h table row fate).2 = (engine.setChain ⟨table.id, row⟩
        (Write.record (engine.chain ⟨table.id, row⟩) (txn, write))).noteWrite h txn table row := by
  cases fate with
  | kept => cases asks
  | replaced data =>
    cases asks
    unfold Engine.settle Engine.replace at settled ⊢
    rw [Engine.ensureStarted_of_carries carries] at settled ⊢
    dsimp only at settled ⊢
    cases written : engine.replaceRow txn table row data with
    | error fault =>
      rw [written] at settled
      cases settled
    | ok engine' =>
      obtain ⟨-, chain, replaced, rfl⟩ := Engine.replaceRow_eq_ok written
      obtain ⟨writable, rfl⟩ := replace_eq_ok_iff.1 replaced
      exact ⟨writable, rfl⟩
  | deleted =>
    cases asks
    unfold Engine.settle Engine.delete at settled ⊢
    rw [Engine.ensureStarted_of_carries carries] at settled ⊢
    dsimp only at settled ⊢
    cases written : engine.deleteRow txn table row with
    | error fault =>
      rw [written] at settled
      cases settled
    | ok engine' =>
      obtain ⟨chain, deleted, rfl⟩ := Engine.deleteRow_eq_ok written
      obtain ⟨writable, rfl⟩ := delete_eq_ok_iff.1 deleted
      exact ⟨writable, rfl⟩

theorem read_settle (carries : (engine.handle h).txn = some txn) {write : Write}
    (asks : fate.write? = some write)
    (settled : (engine.settle h table row fate).1 = .ok ()) :
    ((engine.settle h table row fate).2.chain ⟨table.id, row⟩).read engine.stamps
      (engine.registry.ownView txn) = write.left := by
  obtain ⟨⟨front, newest, stored, seen, free⟩, eq⟩ := settle_eq_ok carries asks settled
  have notFirst : ∀ data, write ≠ .inserted data := by
    rintro data rfl
    cases fate <;> cases asks
  have changed : (engine.settle h table row fate).2.chain ⟨table.id, row⟩ =
      Write.record (engine.chain ⟨table.id, row⟩) (txn, write) := by
    rw [eq]
    exact (Engine.chain_setChain engine _ _ _).trans (if_pos rfl)
  rw [changed, stored]
  exact read_record_of_seen free notFirst seen (Transaction.View.sees_own rfl)

/-- The rows dealt with are the first ones, up to one that stops the sweep if there is one. Those
accepted are changed and counted, and no other row of any table is. -/
structure Swept (change : Change) (table : Layout) (fields : List RowField) (filter : RowFilter)
    (txn : TxnId) (rows done : List Record) (before after : Engine) (result : Except Fault Nat) :
    Prop where
  counted : ∀ n, result = .ok n → done = rows ∧
    n = rows.countP fun row => (filter.accepts row.data).toOption == some true
  stopped : ∀ fault, result = .error fault → ∃ stop later, rows = done ++ stop :: later ∧
    change.Stops table fields filter stop fault
  judged : ∀ row ∈ done, ∃ accepted, filter.accepts row.data = .ok accepted
  changed : ∀ row ∈ done, filter.accepts row.data = .ok true →
    change.Leaves table fields row ((after.heap table.id).read after.stamps
      (after.registry.ownView txn) row.id)
  chain : ∀ t, (∀ row ∈ done, filter.accepts row.data = .ok true → t ≠ ⟨table.id, row.id⟩) →
    after.chain t = before.chain t
  stamps : after.stamps = before.stamps
  view : after.registry.ownView txn = before.registry.ownView txn

namespace Swept

theorem nil (engine : Engine) :
    Swept change table fields filter txn [] [] engine engine (.ok 0) where
  counted n done := by
    cases done
    exact ⟨rfl, rfl⟩
  stopped fault failed := by cases failed
  judged row mem := by cases mem
  changed row mem := by cases mem
  chain t _ := rfl
  stamps := rfl
  view := rfl

theorem stop (rest : List Record) (engine : Engine)
    (stops : change.Stops table fields filter record fault) :
    Swept change table fields filter txn (record :: rest) [] engine engine (.error fault) where
  counted n done := by cases done
  stopped fault' failed := by
    cases failed
    exact ⟨record, rest, rfl, stops⟩
  judged row mem := by cases mem
  changed row mem := by cases mem
  chain t _ := rfl
  stamps := rfl
  view := rfl

theorem subset (swept : Swept change table fields filter txn rows done engine after result) :
    done ⊆ rows := by
  cases result with
  | ok n =>
    rw [(swept.counted n rfl).1]
    exact List.Subset.refl rows
  | error fault =>
    obtain ⟨stop, later, eq, -⟩ := swept.stopped fault rfl
    rw [eq]
    exact List.subset_append_left done _

theorem pass (refused : filter.accepts record.data = .ok false)
    (swept : Swept change table fields filter txn rest done engine after result) :
    Swept change table fields filter txn (record :: rest) (record :: done) engine after result where
  counted n finished := by
    obtain ⟨rfl, rfl⟩ := swept.counted n finished
    refine ⟨rfl, ?_⟩
    rw [List.countP_cons, refused]
    rfl
  stopped fault failed := by
    obtain ⟨stop, later, rfl, stops⟩ := swept.stopped fault failed
    exact ⟨stop, later, rfl, stops⟩
  judged := List.forall_mem_cons.2 ⟨⟨false, refused⟩, swept.judged⟩
  changed := by
    refine List.forall_mem_cons.2 ⟨fun accepted => ?_, swept.changed⟩
    rw [refused] at accepted
    cases accepted
  chain t apart := swept.chain t fun row mem => apart row (List.mem_cons_of_mem record mem)
  stamps := swept.stamps
  view := swept.view

theorem write (carries : (engine.handle h).txn = some txn)
    (accepted : filter.accepts record.data = .ok true)
    (built : change.outcome table fields record = .ok fate)
    (settled : (engine.settle h table record.id fate).1 = .ok ())
    (apart : ∀ row ∈ rest, record.id ≠ row.id)
    (swept : Swept change table fields filter txn rest done
      (engine.settle h table record.id fate).2 after result) :
    Swept change table fields filter txn (record :: rest) (record :: done) engine after
      (result.map (· + 1)) where
  counted n finished := by
    cases result with
    | error fault => cases finished
    | ok k =>
      cases finished
      obtain ⟨rfl, rfl⟩ := swept.counted k rfl
      refine ⟨rfl, ?_⟩
      rw [List.countP_cons, accepted]
      rfl
  stopped fault failed := by
    cases result with
    | error fault' =>
      cases failed
      obtain ⟨stop, later, rfl, stops⟩ := swept.stopped fault rfl
      exact ⟨stop, later, rfl, stops⟩
    | ok k => cases failed
  judged := List.forall_mem_cons.2 ⟨⟨true, accepted⟩, swept.judged⟩
  changed := by
    refine List.forall_mem_cons.2 ⟨fun _ => ?_, swept.changed⟩
    obtain ⟨write, asks, leaves⟩ := change.leaves_of_outcome built
    -- The rows behind have other ids, so this one stays as its write left it.
    have own : after.chain ⟨table.id, record.id⟩ =
        (engine.settle h table record.id fate).2.chain ⟨table.id, record.id⟩ := by
      apply swept.chain
      intro row mem _ same
      exact apart row (swept.subset mem) (congrArg Touch.row same)
    have reads := read_settle carries asks settled
    rw [← own, ← Engine.stamps_settle carries table record.id fate,
      ← Engine.ownView_settle carries table record.id fate, ← swept.stamps, ← swept.view] at reads
    have found : (after.heap table.id).read after.stamps (after.registry.ownView txn) record.id =
        write.left.map fun data => ⟨record.id, data⟩ := by
      rw [← reads]
      rfl
    rw [found]
    exact leaves
  chain t other := by
    have first : t ≠ ⟨table.id, record.id⟩ := other record List.mem_cons_self accepted
    rw [swept.chain t fun row mem => other row (List.mem_cons_of_mem record mem)]
    exact Engine.chain_settle carries fate first
  stamps := swept.stamps.trans (Engine.stamps_settle carries table record.id fate)
  view := swept.view.trans (Engine.ownView_settle carries table record.id fate)

end Swept

/-- A sweep over rows that its transaction shows. The rows still ahead are shown as before, however
many have been written. -/
theorem sweepRows_swept (change : Change) (fields : List RowField) (filter : RowFilter)
    (carries : (engine.handle h).txn = some txn)
    (apart : rows.Pairwise fun a b => a.id ≠ b.id)
    (shown : ∀ row ∈ rows, (engine.chain ⟨table.id, row.id⟩).read engine.stamps
      (engine.registry.ownView txn) = some row.data)
    (sized : ∀ row ∈ rows, row.data.length = table.recordSize) :
    Swept change table fields filter txn rows (change.passed table fields filter h rows engine)
      engine (change.sweepRows table fields filter h rows engine).2
      (change.sweepRows table fields filter h rows engine).1 := by
  -- On the rows ahead, over all stores: a write leaves what the transaction shows of the others.
  induction rows generalizing engine with
  | nil => exact Swept.nil engine
  | cons row rest ih =>
    obtain ⟨others, apart⟩ := List.pairwise_cons.1 apart
    obtain ⟨first, later⟩ := List.forall_mem_cons.1 shown
    obtain ⟨size, sizes⟩ := List.forall_mem_cons.1 sized
    have decided := change.fate_of_accepts table fields filter row
    cases accepts : filter.accepts row.data with
    | error fault =>
      rw [accepts] at decided
      obtain ⟨swept, passed⟩ := Change.sweepRows_failed (h := h) rest engine decided
      rw [swept, passed]
      exact Swept.stop rest engine (.unjudged accepts)
    | ok accepted =>
      rw [accepts] at decided
      cases accepted with
      | false =>
        obtain ⟨swept, passed⟩ := Change.sweepRows_kept (h := h) rest engine decided
        rw [swept, passed]
        exact Swept.pass accepts (ih carries apart later sizes)
      | true =>
        cases built : change.outcome table fields row with
        | error fault =>
          rw [built] at decided
          obtain ⟨swept, passed⟩ := Change.sweepRows_failed (h := h) rest engine decided
          rw [swept, passed]
          exact Swept.stop rest engine (.unbuilt accepts built)
        | ok fate =>
          rw [built] at decided
          have fits := change.fits_of_outcome size built
          rcases settle_fst carries first fits with settled | ⟨-, refused⟩
          · obtain ⟨swept, passed⟩ := Change.sweepRows_settled rest decided settled
            rw [swept, passed, if_neg (change.outcome_ne_kept built)]
            refine Swept.write carries accepts built settled others ?_
            refine ih (Engine.carries_settle carries table row.id fate) apart ?_ sizes
            intro other mem
            have elsewhere : (⟨table.id, other.id⟩ : Touch) ≠ ⟨table.id, row.id⟩ := fun same =>
              others other mem (congrArg Touch.row same).symm
            rw [Engine.chain_settle carries fate elsewhere,
              Engine.stamps_settle carries table row.id fate,
              Engine.ownView_settle carries table row.id fate]
            exact later other mem
          · obtain ⟨swept, passed⟩ := Change.sweepRows_refused rest decided refused
            rw [swept, passed, Engine.settle_eq_error carries refused]
            exact Swept.stop rest engine (.conflict accepts built)

end RowStore.Run
