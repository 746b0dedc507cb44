/- RowStore/Proofs/Run/SnapshotIsolation
   role: theorems
   digest: A registered view reads what the history shows it, whatever others do meanwhile. -/

import RowStore.Proofs.Run.Events

/-!
A view is registered as long as it is pinned or its transaction runs. Then its snapshot is in use, no
purge goes beyond it, and what it reads of the stored chains is the replay of the history. No call
but a write of its own transaction changes this replay: commits come with later times, and rolled
back transactions were never part of it.
-/

set_option autoImplicit false
set_option relaxedAutoImplicit false

namespace RowStore.Run

open RowStore.Row (RowId)
open RowStore.Transaction (Registry Timestamp Touch TxnId View)
open RowStore.Transaction.Registry (horizon_le_of_mem)

variable {config : Config} {commits : Nat} {inserts : Nat → Nat} {state : State} {view : View}
  {history : History} {txn : TxnId} {t : Touch} {write : Write} {time : Timestamp}

namespace Sound

theorem of_isRegistered (s : Sound config commits inserts state)
    (registered : state.isRegistered view) :
    Current state.engine.registry state.unfinished view ∧
      view.snapshot ∈ state.engine.registry.active := by
  rcases registered with ⟨used, pinned⟩ | ⟨txn, runs, rfl⟩
  · have snapshot := s.covers.snapshot_mem_of_pinned used pinned
    obtain ⟨i, named⟩ := Option.isSome_iff_exists.1 pinned
    obtain ⟨foreign, -⟩ := s.covers.pinned view used i named
    have current : Current state.engine.registry state.unfinished view := by
      constructor
      · intro t own
        rw [foreign] at own
        cases own
      · intro t own
        rw [foreign] at own
        cases own
    exact ⟨current, snapshot⟩
  · have current : Current state.engine.registry state.unfinished
        (state.engine.registry.ownView txn) := by
      constructor
      · exact grounded_ownView _ txn
      · intro t own
        cases own
        exact runs
    exact ⟨current, s.covers.snapshot_mem_of_running runs⟩

/-- A registered view reads of the stored versions what the history shows it. -/
theorem chain_read (s : Sound config commits inserts state)
    (registered : state.isRegistered view) (t : Touch) :
    (state.engine.chain t).read state.engine.stamps view = state.history.read t view := by
  obtain ⟨current, used⟩ := s.of_isRegistered registered
  have keeps := s.keeps t
  rw [s.dated.read_eq s.timely current keeps.orderly]
  exact keeps.read s.timely.forward current.grounded (horizon_le_of_mem used)

theorem heap_read (s : Sound config commits inserts state)
    (registered : state.isRegistered view) (table : Nat) (row : RowId) :
    (state.engine.heap table).read state.engine.stamps view row =
      (state.history.read ⟨table, row⟩ view).map fun data => ⟨row, data⟩ := by
  rw [← s.chain_read registered]
  rfl

end Sound

namespace History

theorem read_append_withdrawn (txn : TxnId) :
    History.read (history ++ [.withdrawn txn]) t view = history.read t view := by
  have writes : History.writes (history ++ [.withdrawn txn]) t = history.writes t := by
    funext s
    simp [History.writes, Event.writeOf?]
  have settled : History.settledBefore (history ++ [.withdrawn txn]) view.snapshot =
      history.settledBefore view.snapshot := by
    unfold History.settledBefore
    rw [List.filterMap_append, show [Event.withdrawn txn].filterMap Event.commit? = [] from rfl,
      List.append_nil]
  unfold History.read
  rw [writes, settled]

theorem read_append_committed (late : view.snapshot ≤ time) :
    History.read (history ++ [.committed txn time]) t view = history.read t view := by
  have writes : History.writes (history ++ [.committed txn time]) t = history.writes t := by
    funext s
    simp [History.writes, Event.writeOf?]
  have settled : History.settledBefore (history ++ [.committed txn time]) view.snapshot =
      history.settledBefore view.snapshot := by
    simp [History.settledBefore, Event.commit?, Nat.not_lt_of_le late]
  unfold History.read
  rw [writes, settled]

theorem read_append_wrote {written : Touch}
    (unseen : written = t → txn ∉ history.settledBefore view.snapshot ++ view.own.toList) :
    History.read (history ++ [.wrote txn written write]) t view = history.read t view := by
  have settled : History.settledBefore (history ++ [.wrote txn written write]) view.snapshot =
      history.settledBefore view.snapshot := by
    unfold History.settledBefore
    rw [List.filterMap_append,
      show [Event.wrote txn written write].filterMap Event.commit? = [] from rfl, List.append_nil]
  unfold History.read
  rw [settled]
  congr 1
  apply List.flatMap_congr
  intro s hs
  have other : ¬ (txn = s ∧ written = t) := by
    rintro ⟨rfl, same⟩
    exact unseen same hs
  simp [History.writes, Event.writeOf?, other]

end History

namespace Sound

theorem not_committed (s : Sound config commits inserts state) {h : HandleId} :
    Event.committed (state.engine.ensureStarted h).1 time ∉ state.history := by
  intro committed
  obtain ⟨known, stopped, -⟩ := s.dated.committed _ _ committed
  cases carried : (state.engine.handle h).txn with
  | some txn =>
    rw [Engine.ensureStarted_of_carries carried] at stopped
    exact stopped (Engine.mem_running_of_carries carried)
  | none =>
    rw [Engine.ensureStarted_of_idle carried] at known
    omega

theorem history_read_row_step (s : Sound config commits inserts state)
    (registered : state.isRegistered view) (call : Call) (t : Touch)
    (apart : ∀ txn write, view.own = some txn →
      (state.step call).history ≠ state.history ++ [.wrote txn t write]) :
    (state.step call).history.read t view = state.history.read t view := by
  obtain ⟨current, used⟩ := s.of_isRegistered registered
  obtain ⟨added, eq, adds⟩ := exists_adds state call
  rw [eq] at apart ⊢
  cases adds with
  | nothing => rw [List.append_nil]
  | committed h txn carries => exact History.read_append_committed (s.timely.active _ used)
  | withdrawn h txn carries => exact History.read_append_withdrawn txn
  | wrote h t' write writer known _ _ _ _ =>
    apply History.read_append_wrote
    rintro rfl seen
    rcases List.mem_append.1 seen with settled | own
    · obtain ⟨time, committed, -⟩ := s.dated.mem_settledBefore.1 settled
      exact s.not_committed committed
    · exact apart _ write (Option.mem_toList.1 own) rfl

/-- What the history shows a registered view changes only with writes of the view's own
transaction. -/
theorem history_read_step (s : Sound config commits inserts state)
    (registered : state.isRegistered view) (call : Call)
    (foreign : ∀ h, call.writer? = some h → ∀ txn, view.own = some txn →
      (state.engine.handle h).txn ≠ some txn) (t : Touch) :
    (state.step call).history.read t view = state.history.read t view := by
  obtain ⟨current, -⟩ := s.of_isRegistered registered
  apply s.history_read_row_step registered
  intro txn write own wrote
  obtain ⟨added, eq, adds⟩ := exists_adds state call
  rw [eq] at wrote
  have event := List.append_cancel_left wrote
  cases adds with
  | nothing => cases event
  | committed h t carries => cases event
  | withdrawn h t carries => cases event
  | wrote h t' write' writer known _ _ _ _ =>
    have maker : (state.engine.ensureStarted h).1 = txn := by
      injection event with head
      injection head
    cases carried : (state.engine.handle h).txn with
    | some txn' =>
      rw [Engine.ensureStarted_of_carries carried] at maker
      exact foreign h writer txn own (maker ▸ carried)
    | none =>
      -- A transaction begun only now cannot be the view's own.
      rw [Engine.ensureStarted_of_idle carried] at maker
      exact absurd (s.known (current.runs txn own)) (maker ▸ Nat.lt_irrefl _)

end Sound

/-- In every reachable state a registered view reads of every row the bytes that remain when the
writes of the transactions committed before its snapshot are replayed in the order of the commits,
and then those of its own transaction. As long as it stays registered, no call changes what it
reads, other than a write of its own transaction. -/
theorem snapshot_isolation (reach : Reachable config state)
    (registered : state.isRegistered view) :
    (∀ table row, (state.engine.heap table).read state.engine.stamps view row =
      (state.history.read ⟨table, row⟩ view).map fun data => ⟨row, data⟩) ∧
    ∀ call, Reachable config (state.step call) → (state.step call).isRegistered view →
      (∀ h, call.writer? = some h → ∀ txn, view.own = some txn →
        (state.engine.handle h).txn ≠ some txn) →
      ∀ table row,
        ((state.step call).engine.heap table).read (state.step call).engine.stamps view row =
          (state.engine.heap table).read state.engine.stamps view row := by
  obtain ⟨commits, inserts, s⟩ := reach.sound
  constructor
  · exact s.heap_read registered
  · intro call reach' registered' foreign table row
    obtain ⟨commits', inserts', s'⟩ := reach'.sound
    rw [s'.heap_read registered', s.heap_read registered,
      s.history_read_step registered call foreign]

def pinnedBefore : List Call :=
  [.createTable ⟨"t", [⟨"a", .int, 4⟩]⟩, .newHandle, .newHandle, .insert 0 1 [1, 0, 0, 0], .commit 0,
    .viewNow, .replace 1 1 ⟨0, 0⟩ [2, 0, 0, 0]]

theorem snapshot_isolation_pinned :
    ((initial {}).run pinnedBefore).isRegistered { snapshot := 2, pin := some 0 } ∧
    ((((initial {}).run pinnedBefore).history.read ⟨1, ⟨0, 0⟩⟩ { snapshot := 2, pin := some 0 }).map
      fun data => (⟨⟨0, 0⟩, data⟩ : Row.Record)) = some ⟨⟨0, 0⟩, [1, 0, 0, 0]⟩ ∧
    ((((initial {}).run pinnedBefore).step (.commit 1)).engine.heap 1).read
      (((initial {}).run pinnedBefore).step (.commit 1)).engine.stamps
      { snapshot := 2, pin := some 0 } ⟨0, 0⟩ = some ⟨⟨0, 0⟩, [1, 0, 0, 0]⟩ := by
  have reach : Reachable {} ((initial {}).run pinnedBefore) :=
    ⟨pinnedBefore, fits_of_length (by decide), by decide, rfl⟩
  have reach' : Reachable {} (((initial {}).run pinnedBefore).step (.commit 1)) :=
    ⟨pinnedBefore ++ [Call.commit 1], fits_of_length (by decide), by decide,
      run_append_singleton (initial {}) pinnedBefore (.commit 1)⟩
  have registered : ((initial {}).run pinnedBefore).isRegistered { snapshot := 2, pin := some 0 } :=
    Or.inl ⟨by decide, rfl⟩
  have registered' : (((initial {}).run pinnedBefore).step (.commit 1)).isRegistered
      { snapshot := 2, pin := some 0 } := Or.inl ⟨by decide, rfl⟩
  have isolated := snapshot_isolation reach registered
  have reads : (((initial {}).run pinnedBefore).engine.heap 1).read
      ((initial {}).run pinnedBefore).engine.stamps { snapshot := 2, pin := some 0 } ⟨0, 0⟩ =
        some ⟨⟨0, 0⟩, [1, 0, 0, 0]⟩ := by decide
  refine ⟨registered, ?_, ?_⟩
  · rw [← isolated.1 1 ⟨0, 0⟩]
    exact reads
  · rw [isolated.2 (.commit 1) reach' registered' (by simp [Call.writer?]) 1 ⟨0, 0⟩]
    exact reads

end RowStore.Run
