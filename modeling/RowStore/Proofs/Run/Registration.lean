/- RowStore/Proofs/Run/Registration
   role: theorems
   digest: The snapshots in use are exactly those of open transactions and pinned views. -/

import RowStore.Proofs.Run.Account

set_option autoImplicit false
set_option relaxedAutoImplicit false

namespace RowStore.Run

open RowStore.Transaction (Registry Timestamp TxnId View)
open RowStore.Transaction.Registry (horizon_le_of_mem)
open Account (Balanced)

variable {config : Config} {commits : Nat} {state : State} {view : View} {txn : TxnId}

def History.hasEnded (history : History) (txn : TxnId) : Bool :=
  history.any fun event =>
    match event with
    | .wrote _ _ _ => false
    | .committed t _ => decide (t = txn)
    | .withdrawn t => decide (t = txn)

namespace State

def openTxns (state : State) : List TxnId :=
  (List.range state.engine.registry.txns.size).filter fun txn => !state.history.hasEnded txn

/-- The snapshots of the open transactions and of the pinned views, where copies of a view count
once. -/
def registrations (state : State) : List Timestamp :=
  state.openTxns.map state.engine.registry.snapshot ++
    ((state.viewsInUse.filter View.isPinned).dedup).map (·.snapshot)

end State

theorem History.hasEnded_iff {history : History} : history.hasEnded txn = true ↔
    .withdrawn txn ∈ history ∨ ∃ time, .committed txn time ∈ history := by
  unfold History.hasEnded
  rw [List.any_eq_true]
  constructor
  · rintro ⟨event, mem, ends⟩
    cases event with
    | wrote t row write => cases ends
    | committed t time => exact Or.inr ⟨time, of_decide_eq_true ends ▸ mem⟩
    | withdrawn t => exact Or.inl (of_decide_eq_true ends ▸ mem)
  · rintro (withdrawn | ⟨time, committed⟩)
    · exact ⟨_, withdrawn, decide_eq_true rfl⟩
    · exact ⟨_, committed, decide_eq_true rfl⟩

private theorem min?_of_perm {a b : List Timestamp} (same : a.Perm b) : a.min? = b.min? := by
  cases least : b.min? with
  | none =>
    rw [List.min?_eq_none_iff] at least ⊢
    exact List.perm_nil.1 (least ▸ same)
  | some m =>
    rw [List.min?_eq_some_iff] at least ⊢
    exact ⟨same.mem_iff.2 least.1, fun a ha => least.2 a (same.mem_iff.1 ha)⟩

namespace Account.Balanced

theorem unfinished_perm (balance : Balanced commits state.account) :
    state.unfinished.Perm state.openTxns := by
  have nodup : state.openTxns.Nodup := List.nodup_range.filter _
  refine (List.perm_ext_iff_of_nodup balance.timely.nodup nodup).2 ?_
  intro t
  rw [State.openTxns, List.mem_filter, List.mem_range, Bool.not_eq_true']
  constructor
  · intro runs
    refine ⟨(balance.timely.opened t runs).1, ?_⟩
    rw [Bool.eq_false_iff]
    intro ended
    rcases History.hasEnded_iff.1 ended with withdrawn | ⟨time, committed⟩
    · exact (balance.dated.withdrawn t withdrawn).2.1 runs
    · exact (balance.dated.committed t time committed).2.1 runs
  · rintro ⟨known, going⟩
    rcases balance.dated.known t known with runs | ended
    · exact runs
    · have ended' : state.history.hasEnded t = true := History.hasEnded_iff.2 ended
      rw [ended'] at going
      cases going

/-- The snapshots in use are exactly the registrations. -/
theorem active_perm (balance : Balanced commits state.account) :
    state.engine.registry.active.Perm state.registrations := by
  have txns := balance.unfinished_perm.map state.engine.registry.snapshot
  exact balance.covers.active.trans (txns.append balance.covers.held)

theorem horizon_eq (balance : Balanced commits state.account) :
    state.engine.registry.horizon =
      state.registrations.min?.getD state.engine.registry.clock := by
  unfold Registry.horizon
  rw [min?_of_perm balance.active_perm]

theorem horizon_le_registered (balance : Balanced commits state.account)
    (registered : state.isRegistered view) : state.engine.registry.horizon ≤ view.snapshot := by
  apply horizon_le_of_mem
  rcases registered with ⟨used, pinned⟩ | ⟨txn, runs, rfl⟩
  · exact balance.covers.snapshot_mem_of_pinned used pinned
  · exact balance.covers.snapshot_mem_of_running runs

theorem active_eq_nil (balance : Balanced commits state.account)
    (idle : ∀ handle ∈ state.engine.handles.toList, handle.txn = none)
    (dropped : ∀ view ∈ state.viewsInUse, view.isPinned = false) :
    state.engine.registry.active = [] := by
  have finished : state.unfinished = [] := List.filterMap_eq_nil_iff.2 idle
  have covers : state.engine.registry.Covers state.unfinished state.viewsInUse := balance.covers
  rw [finished] at covers
  exact covers.active_eq_nil dropped

end Account.Balanced

/-- In every run whose commits do not use up the clock, the snapshots in use are those of the
transactions not ended, once each, and those of the pinned views, once until the last copy is given
up. So the horizon is the least of them, or the time of the clock if there are none. It never moves
back, and it lies at or before the snapshot of every view that is registered now or later. Once no
handle carries a transaction and no pinned view is left, no snapshot is in use. -/
theorem registrations_exact (config : Config) {past : List Call} {state : State}
    (few : past.countP Call.isCommit < 0x7fffffffffffffff)
    (reached : (initial config).run past = state) :
    state.engine.registry.active.Perm state.registrations ∧
    state.engine.registry.horizon =
      state.registrations.min?.getD state.engine.registry.clock ∧
    (∀ calls, (past ++ calls).countP Call.isCommit < 0x7fffffffffffffff →
      state.engine.registry.horizon ≤ (state.run calls).engine.registry.horizon ∧
      ∀ view, (state.run calls).isRegistered view →
        state.engine.registry.horizon ≤ view.snapshot) ∧
    ((∀ handle ∈ state.engine.handles.toList, handle.txn = none) →
      (∀ view ∈ state.viewsInUse, view.isPinned = false) → state.engine.registry.active = []) := by
  subst reached
  obtain ⟨commits, -, balance⟩ := balanced_run config few
  refine ⟨balance.active_perm, balance.horizon_eq, ?_, balance.active_eq_nil⟩
  intro calls few'
  have onward := (extends_run config few').horizon
  obtain ⟨commits', -, balance'⟩ := balanced_run config few'
  rw [← run_append]
  refine ⟨onward, ?_⟩
  intro view registered
  exact Nat.le_trans onward (balance'.horizon_le_registered registered)

/-- A transaction begins, and a view is pinned at the same time, copied and given up once. -/
def sharedPin : List Call := [.newHandle, .start 0, .viewNow, .copyView 0, .dropView 0]

def sharedPinOver : List Call := [.commit 0, .dropView 1]

theorem registrations_exact_shared :
    ((initial {}).run sharedPin).engine.registry.active.Perm [1, 1] ∧
    ((initial {}).run sharedPin).engine.registry.horizon ≤
      (((initial {}).run sharedPin).run sharedPinOver).engine.registry.horizon ∧
    ((initial {}).run (sharedPin ++ sharedPinOver)).engine.registry.active = [] := by
  have twice : ((initial {}).run sharedPin).registrations = [1, 1] := by decide
  obtain ⟨active, -, onward, -⟩ := @registrations_exact {} sharedPin _ (by decide) rfl
  obtain ⟨-, -, -, empty⟩ :=
    @registrations_exact {} (sharedPin ++ sharedPinOver) _ (by decide) rfl
  rw [twice] at active
  exact ⟨active, (onward sharedPinOver (by decide)).1, empty (by decide) (by decide)⟩

end RowStore.Run
