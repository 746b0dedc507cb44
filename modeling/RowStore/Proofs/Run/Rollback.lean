/- RowStore/Proofs/Run/Rollback
   role: theorems
   digest: A rollback leaves nothing of its transaction and everything of all others. -/

import RowStore.Proofs.Run.SnapshotIsolation
import RowStore.Proofs.Run.WriteOutcome
import RowStore.Proofs.Table.Rows

set_option autoImplicit false
set_option relaxedAutoImplicit false

namespace RowStore.Run

open RowStore.Row (RowId)
open RowStore.Schema (Layout)
open RowStore.Table (Chain Version Rows)
open RowStore.Table.Chain
open RowStore.Text (Bytes)
open RowStore.Transaction (Registry Timestamp Touch TxnId View openBit)

variable {config : Config} {commits : Nat} {inserts : Nat → Nat} {state : State} {h : HandleId}
  {registry : Registry} {txn : TxnId} {t : Touch} {view : View} {chain : Chain} {row : RowId}

theorem step_rollback (carries : (state.engine.handle h).txn = some txn) :
    state.step (.rollback h) =
      { state with
        engine := Engine.withdrawAll
          { state.engine.resetHandle h with registry := (state.engine.registry.rollback txn).2 }
          txn (state.engine.registry.touched txn)
        history := state.history ++ [.withdrawn txn] } := by
  simp only [State.step, Engine.rollback]
  rw [carries]
  rfl

theorem registry_rollback (carries : (state.engine.handle h).txn = some txn) :
    (state.step (.rollback h)).engine.registry = (state.engine.registry.rollback txn).2 := by
  rw [step_rollback carries]
  exact (Engine.sameBesides_withdrawAll _ _ _).registry

theorem handles_rollback (carries : (state.engine.handle h).txn = some txn) :
    (state.step (.rollback h)).engine.handles = (state.engine.resetHandle h).handles := by
  rw [step_rollback carries]
  exact (Engine.sameBesides_withdrawAll _ _ _).handles

theorem unfinished_rollback (carries : (state.engine.handle h).txn = some txn) :
    state.unfinished.Perm (txn :: (state.step (.rollback h)).unfinished) := by
  have running : (state.step (.rollback h)).unfinished = (state.engine.resetHandle h).running := by
    unfold State.unfinished Engine.running
    rw [handles_rollback carries]
  rw [running]
  exact Engine.running_resetHandle carries

theorem isRegistered_rollback (carries : (state.engine.handle h).txn = some txn)
    (registered : state.isRegistered view) (foreign : view.own ≠ some txn) :
    (state.step (.rollback h)).isRegistered view := by
  rcases registered with ⟨used, pinned⟩ | ⟨other, runs, rfl⟩
  · left
    refine ⟨?_, pinned⟩
    rw [step_rollback carries]
    exact used
  · right
    have apart : other ≠ txn := fun same => foreign (same ▸ rfl)
    have still := (unfinished_rollback carries).mem_iff.1 runs
    refine ⟨other, (List.mem_cons.1 still).resolve_left apart, ?_⟩
    unfold Registry.ownView
    rw [registry_rollback carries, Registry.snapshot_rollback]

namespace Sound

/-- A rollback withdraws its transaction from every chain, as it noted all rows that it wrote. -/
theorem chain_rollback (s : Sound config commits inserts state)
    (carries : (state.engine.handle h).txn = some txn) (t : Touch) :
    (state.step (.rollback h)).engine.chain t = (state.engine.chain t).withdraw txn := by
  rw [step_rollback carries, Engine.chain_withdrawAll]
  split
  case isTrue => rfl
  case isFalse untouched =>
    refine (withdraw_of_absent ((s.keeps t).absent ?_)).symm
    rintro made hm rfl
    exact untouched (s.noted _ (Engine.mem_running_of_carries carries) t made.2
      (History.mem_standing.1 hm).1)

theorem chain_rollback_inserted (s : Sound config commits inserts state)
    (carries : (state.engine.handle h).txn = some txn) {data : Bytes}
    (inserted : .wrote txn t (.inserted data) ∈ state.history) :
    (state.step (.rollback h)).engine.chain t = [] := by
  have runs : txn ∈ state.unfinished := Engine.mem_running_of_carries carries
  have opened := s.timely.openBit_lt_stamp runs
  have keeps := (s.keeps t).withdraw opened
  have mem : (txn, Write.inserted data) ∈ state.history.standing t :=
    History.mem_standing.2 ⟨inserted, s.stands runs⟩
  have none : (state.history.standing t).filter (fun made => made.1 != txn) = [] := by
    cases standing : state.history.standing t with
    | nil => rfl
    | cons first rest =>
      have orderly := (s.keeps t).orderly
      rw [standing] at mem orderly
      -- Nothing but a first write is an insertion.
      have own : first.1 = txn := by
        rcases List.mem_cons.1 mem with rfl | later
        · rfl
        · exact absurd rfl ((List.rel_of_pairwise_cons orderly.later later).notFirst data)
      exact orderly.alone_of_first own opened
  rw [none] at keeps
  rw [s.chain_rollback carries]
  exact keeps.eq_nil

theorem chain_rollback_written (s : Sound config commits inserts state)
    (carries : (state.engine.handle h).txn = some txn) {write : Write}
    (wrote : .wrote txn t write ∈ state.history)
    (notInserted : ∀ data, .wrote txn t (.inserted data) ∉ state.history) :
    ∃ front newest, (state.step (.rollback h)).engine.chain t = front ++ [newest] ∧
      newest.deleter = none := by
  have runs : txn ∈ state.unfinished := Engine.mem_running_of_carries carries
  have opened := s.timely.openBit_lt_stamp runs
  have keeps := (s.keeps t).withdraw opened
  have orderly := (s.keeps t).orderly
  have mem : (txn, write) ∈ state.history.standing t :=
    History.mem_standing.2 ⟨wrote, s.stands runs⟩
  rw [s.chain_rollback carries]
  cases last : ((state.history.standing t).filter fun made => made.1 != txn).getLast? with
  | none =>
    -- The first write is an insertion by another transaction, so it is left.
    have none := List.getLast?_eq_none_iff.1 last
    cases standing : state.history.standing t with
    | nil =>
      rw [standing] at mem
      cases mem
    | cons first rest =>
      rw [standing] at none orderly
      have own : first.1 = txn := by
        simpa using List.filter_eq_nil_iff.1 none first List.mem_cons_self
      obtain ⟨data, inserted⟩ := orderly.first first rfl
      have event := (History.mem_standing.1 (standing ▸ List.mem_cons_self : first ∈ _)).1
      rw [own, inserted] at event
      exact absurd event (notInserted data)
  | some made =>
    obtain ⟨maker, final⟩ := made
    obtain ⟨kept, other⟩ := List.mem_filter.1 (List.mem_of_getLast? last)
    have apart : maker ≠ txn := by simpa using other
    -- The write of the transaction follows the last one of others.
    have present : final ≠ .deleted := by
      have distinct : (maker, final) ≠ (txn, write) := by simp [apart]
      rcases orderly.follows_or_follows kept mem distinct with before | after
      · exact before.present
      · exact absurd (after.own_of_open opened).symm apart
    obtain ⟨front, newest, eq, -, free⟩ := keeps.exists_newest_of_present last present
    exact ⟨front, newest, eq, free⟩

theorem read_rollback (s : Sound config commits inserts state)
    (carries : (state.engine.handle h).txn = some txn) (registered : state.isRegistered view)
    (foreign : view.own ≠ some txn) (t : Touch) :
    ((state.step (.rollback h)).engine.chain t).read (state.step (.rollback h)).engine.stamps view =
      (state.engine.chain t).read state.engine.stamps view := by
  have s' := s.rollback h
  have silent : ∀ h', (Call.rollback h).writer? = some h' → ∀ txn, view.own = some txn →
      (state.engine.handle h').txn ≠ some txn := by simp [Call.writer?]
  rw [s'.chain_read (isRegistered_rollback carries registered foreign), s.chain_read registered,
    s.history_read_step registered (.rollback h) silent]

end Sound

theorem writes_of_free {engine : Engine} {front : Chain} {newest : Version} {layout : Layout}
    (known : h < engine.handles.size) (stored : engine.chain ⟨layout.id, row⟩ = front ++ [newest])
    (free : newest.deleter = none)
    (seen : ((engine.ensureStarted h).2.registry.ownView (engine.ensureStarted h).1).sees
      (engine.ensureStarted h).2.stamps newest.creator = true) :
    (engine.delete h layout row).1 = .ok () ∧
      ∀ data, data.length = layout.recordSize → (engine.replace h layout row data).1 = .ok () := by
  have carries := Engine.carries_ensureStarted known
  have again := Engine.ensureStarted_of_carries carries
  have admitted : ((engine.ensureStarted h).2.chain ⟨layout.id, row⟩).admits
      (engine.ensureStarted h).2.stamps
      ((engine.ensureStarted h).2.registry.ownView (engine.ensureStarted h).1) row = .ok () := by
    unfold Chain.admits
    rw [Engine.chain_ensureStarted, stored, List.getLast?_concat]
    dsimp only
    rw [checkWritable_eq_ok.2 ⟨seen, free, rfl⟩]
    rfl
  have deletes : engine.delete h layout row = (engine.ensureStarted h).2.delete h layout row := by
    unfold Engine.delete
    rw [again]
  refine ⟨?_, fun data fits => ?_⟩
  · rw [deletes, delete_fst carries, admitted]
  · have replaces : engine.replace h layout row data =
        (engine.ensureStarted h).2.replace h layout row data := by
      unfold Engine.replace
      rw [again]
    rw [replaces, replace_fst carries row fits, admitted]

/-- The call neither ends a transaction nor begins or writes one, unless it is that of the given
handle. -/
def Call.isOf (h : HandleId) : Call → Bool
  | .start h' => decide (h' = h)
  | .insert h' _ _ => decide (h' = h)
  | .replace h' _ _ _ => decide (h' = h)
  | .delete h' _ _ => decide (h' = h)
  | .openScan h' _ .readWrite => decide (h' = h)
  | .commit _ => false
  | .rollback _ => false
  | _ => true

/-- The handle goes on with the same transaction, and without this transaction the chains are what
they were. -/
structure GoesOn (h : HandleId) (old new : Engine) : Prop where
  txn : (new.ensureStarted h).1 = (old.ensureStarted h).1
  chain : ∀ t, (new.chain t).withdraw (old.ensureStarted h).1 =
    (old.chain t).withdraw (old.ensureStarted h).1

namespace GoesOn

theorem trans {first second third : Engine} (a : GoesOn h first second)
    (b : GoesOn h second third) : GoesOn h first third where
  txn := b.txn.trans a.txn
  chain t := by
    rw [← a.chain, ← a.txn]
    exact b.chain t

theorem of_quiet {new : State} (q : Quiet state new) : GoesOn h state.engine new.engine where
  txn := by
    unfold Engine.ensureStarted
    rw [q.carried]
    split
    · rfl
    · exact congrArg Array.size q.txns
  chain t := by rw [q.chain]

theorem ensureStarted {engine : Engine} (known : h < engine.handles.size) :
    GoesOn h engine (engine.ensureStarted h).2 where
  txn := by rw [Engine.ensureStarted_of_carries (Engine.carries_ensureStarted known)]
  chain t := by rw [Engine.chain_ensureStarted]

theorem of_same {old new : Engine} (handles : new.handles = old.handles)
    (registry : new.registry = old.registry) (chain : ∀ t, new.chain t = old.chain t) :
    GoesOn h old new where
  txn := by
    unfold Engine.ensureStarted Engine.handle
    rw [handles]
    split
    · rfl
    · exact congrArg (·.txns.size) registry
  chain t := by rw [chain]

theorem noteWrite {old new : Engine} {layout : Layout}
    (carries : (old.handle h).txn = some txn) (handles : new.handles = old.handles)
    (chain : ∀ t, (new.chain t).withdraw txn = (old.chain t).withdraw txn) :
    GoesOn h old (new.noteWrite h txn layout row) := by
  have still : ((new.noteWrite h txn layout row).handle h).txn = some txn := by
    refine (Engine.carried_modifyHandle _ h h (by intro _; rfl)).trans ?_
    refine Eq.trans ?_ carries
    unfold Engine.handle
    rw [← handles]
  constructor
  · rw [Engine.ensureStarted_of_carries still, Engine.ensureStarted_of_carries carries]
  · rw [Engine.ensureStarted_of_carries carries]
    exact chain

theorem recorded {engine : Engine} {layout : Layout} {write : Write}
    (carries : (engine.handle h).txn = some txn)
    (writable : Writable engine.registry txn (engine.chain ⟨layout.id, row⟩))
    (notFirst : ∀ data, write ≠ .inserted data) :
    GoesOn h engine ((engine.setChain ⟨layout.id, row⟩
      (Write.record (engine.chain ⟨layout.id, row⟩) (txn, write))).noteWrite h txn layout row) := by
  refine noteWrite carries rfl ?_
  intro t
  rw [Engine.chain_setChain]
  split
  case isTrue same =>
    obtain ⟨front, newest, eq, -, free⟩ := writable
    rw [same, eq, withdraw_record free notFirst]
  case isFalse => rfl

end GoesOn

theorem replace_goesOn {layout : Layout} {row : RowId} {data : Bytes}
    (known : h < state.engine.handles.size) :
    GoesOn h state.engine (state.engine.replace h layout row data).2 := by
  refine (GoesOn.ensureStarted known).trans ?_
  simp only [Engine.replace]
  cases result : (state.engine.ensureStarted h).2.replaceRow (state.engine.ensureStarted h).1 layout
      row data with
  | error fault => exact GoesOn.of_same rfl rfl fun _ => rfl
  | ok engine =>
    obtain ⟨-, chain, replaced, rfl⟩ := Engine.replaceRow_eq_ok result
    obtain ⟨writable, rfl⟩ := replace_eq_ok_iff.1 replaced
    exact GoesOn.recorded (Engine.carries_ensureStarted known) writable (by simp)

theorem delete_goesOn {layout : Layout} {row : RowId} (known : h < state.engine.handles.size) :
    GoesOn h state.engine (state.engine.delete h layout row).2 := by
  refine (GoesOn.ensureStarted known).trans ?_
  simp only [Engine.delete]
  cases result : (state.engine.ensureStarted h).2.deleteRow (state.engine.ensureStarted h).1 layout
      row with
  | error fault => exact GoesOn.of_same rfl rfl fun _ => rfl
  | ok engine =>
    obtain ⟨chain, deleted, rfl⟩ := Engine.deleteRow_eq_ok result
    obtain ⟨writable, rfl⟩ := delete_eq_ok_iff.1 deleted
    exact GoesOn.recorded (Engine.carries_ensureStarted known) writable (by simp)

namespace Sound

theorem insert_goesOn {layout : Layout} {data : Bytes} (s : Sound config commits inserts state)
    (known : h < state.engine.handles.size) :
    GoesOn h state.engine (state.engine.insert h layout data).2 := by
  have begun := s.ensureStarted known
  refine (GoesOn.ensureStarted known).trans ?_
  simp only [Engine.insert]
  cases result : (state.engine.ensureStarted h).2.insertRow (state.engine.ensureStarted h).1 layout
      data with
  | mk outcome engine =>
    cases outcome with
    | error fault =>
      rcases Engine.insertRow_eq_error result with ⟨-, rfl⟩ | ⟨-, -, rfl⟩
      · exact GoesOn.of_same rfl rfl fun _ => rfl
      · exact GoesOn.of_same rfl rfl (Engine.chain_renumbered _ _ _)
    | ok row =>
      have changed := Engine.chain_insertRow result
      obtain ⟨-, place, rfl⟩ := Engine.insertRow_eq_ok result
      rw [begun.limits] at place
      refine GoesOn.noteWrite (Engine.carries_ensureStarted known) rfl ?_
      intro t
      rw [changed]
      split
      case isTrue same =>
        rw [same, begun.chain_fresh place, withdraw_own_singleton]
        rfl
      case isFalse => rfl

/-- Calls of one handle alone leave the chains the same without its transaction. -/
theorem step_goesOn (s : Sound config commits inserts state) (call : Call)
    (alone : call.isOf h = true) : GoesOn h state.engine (state.step call).engine := by
  have idle : GoesOn h state.engine state.engine := GoesOn.of_same rfl rfl fun _ => rfl
  cases call with
  | createTable spec =>
    obtain ⟨chain, handles, registry⟩ := s.createTable_keeps spec
    exact GoesOn.of_same handles registry chain
  | newHandle => exact GoesOn.of_quiet s.newHandle.toQuiet
  | start h' =>
    cases of_decide_eq_true alone
    unfold State.step State.hasHandle
    dsimp only
    split
    case isTrue known => exact GoesOn.ensureStarted (by simpa using known)
    case isFalse => exact idle
  | insert h' table data =>
    cases of_decide_eq_true alone
    refine onTable_cases (P := fun new => GoesOn h state.engine new.engine) idle
      fun known layout _ _ => ?_
    rw [engine_attempt]
    exact s.insert_goesOn known
  | replace h' table row data =>
    cases of_decide_eq_true alone
    refine onTable_cases (P := fun new => GoesOn h state.engine new.engine) idle
      fun known layout _ _ => ?_
    rw [engine_attempt]
    exact replace_goesOn known
  | delete h' table row =>
    cases of_decide_eq_true alone
    refine onTable_cases (P := fun new => GoesOn h state.engine new.engine) idle
      fun known layout _ _ => ?_
    rw [engine_attempt]
    exact delete_goesOn known
  | commit h' => cases alone
  | rollback h' => cases alone
  | viewOf h' => exact GoesOn.of_quiet (s.viewOf h').toQuiet
  | viewNow => exact GoesOn.of_quiet s.viewNow.toQuiet
  | copyView i => exact GoesOn.of_quiet (s.copyView i).toQuiet
  | dropView i => exact GoesOn.of_quiet (s.giveUpView i).toQuiet
  | openScan h' table mode =>
    cases mode with
    | readOnly => exact GoesOn.of_quiet (s.openScan h' table).toQuiet
    | readWrite =>
      cases of_decide_eq_true alone
      refine onTable_cases (P := fun new => GoesOn h state.engine new.engine) idle
        fun known layout _ _ => ?_
      have begun := s.ensureStarted known
      obtain ⟨q, -⟩ := @Sound.readView _ _ _ _ state.views state.scans begun h
      exact (GoesOn.ensureStarted known).trans (GoesOn.of_quiet q)
  | advance i => exact GoesOn.of_quiet (s.advance i).toQuiet
  | closeScan i => exact GoesOn.of_quiet (s.closeScan i).toQuiet
  | checkLock h' page mode => exact GoesOn.of_quiet (s.checkLock h' page mode).toQuiet
  | recordLock h' page mode => exact GoesOn.of_quiet (s.recordLock h' page mode).toQuiet

end Sound

theorem run_goesOn (config : Config) {past own : List Call} (fits : Fits (past ++ own))
    (alone : ∀ call ∈ own, call.isOf h = true) :
    GoesOn h ((initial config).run past).engine ((initial config).run (past ++ own)).engine := by
  induction own using List.reverseRecOn with
  | nil =>
    rw [List.append_nil]
    exact GoesOn.of_same rfl rfl fun _ => rfl
  | append_singleton own call ih =>
    rw [← List.append_assoc] at fits ⊢
    rw [run_append_singleton]
    have before := Sound.run config (past ++ own) fits.of_append
    exact (ih fits.of_append fun c hc => alone c (List.mem_append_left _ hc)).trans
      (before.step_goesOn call (alone call (by simp)))

/-- When nobody else did anything since a transaction began, a rollback restores the rows of all
tables. -/
theorem rows_rollback {past own : List Call} (fits : Fits (past ++ own))
    (idle : (((initial config).run past).engine.handle h).txn = none)
    (alone : ∀ call ∈ own, call.isOf h = true)
    (carries : (((initial config).run (past ++ own)).engine.handle h).txn = some txn)
    (table : Nat) :
    ((((initial config).run (past ++ own)).step (.rollback h)).engine.heap table).rows =
      (((initial config).run past).engine.heap table).rows := by
  have s := Sound.run config (past ++ own) fits
  have earlier := Sound.run config past fits.of_append
  have goesOn := run_goesOn config fits alone
  have fresh : txn = ((initial config).run past).engine.registry.txns.size := by
    have same := goesOn.txn
    rwa [Engine.ensureStarted_of_carries carries, Engine.ensureStarted_of_idle idle] at same
  apply Rows.eq_of_chain_eq
  intro row
  have absent : Absent txn (((initial config).run past).engine.chain ⟨table, row⟩) := by
    refine (earlier.keeps ⟨table, row⟩).absent ?_
    intro made hm same
    have known := (earlier.keeps ⟨table, row⟩).orderly.known made hm
    rw [same, fresh] at known
    exact Nat.lt_irrefl _ known
  have unchanged := goesOn.chain ⟨table, row⟩
  rw [Engine.ensureStarted_of_idle idle, ← fresh] at unchanged
  exact (s.chain_rollback carries ⟨table, row⟩).trans (unchanged.trans (withdraw_of_absent absent))

/-- Nothing is left of a transaction that a handle carried, and everything of all others. -/
structure Undone (h : HandleId) (txn : TxnId) (before after : State) : Prop where
  absent : ∀ t, Absent txn (after.engine.chain t)
  /-- All other versions stay in their places, and lose no marks but those of the transaction. -/
  kept : ∀ t (i : Nat), (after.engine.chain t)[i]? =
    ((before.engine.chain t)[i]?.filter fun v => v.creator != txn).map (unmark txn)
  inserted : ∀ t data, .wrote txn t (.inserted data) ∈ before.history → after.engine.chain t = []
  /-- A row of another transaction that it wrote over is free again. -/
  written : ∀ t write, .wrote txn t write ∈ before.history →
    (∀ data, .wrote txn t (.inserted data) ∉ before.history) →
    ∃ front newest, after.engine.chain t = front ++ [newest] ∧ newest.deleter = none ∧
      ∀ other layout, other < after.engine.handles.size → layout.id = t.table →
        ((after.engine.ensureStarted other).2.registry.ownView
          (after.engine.ensureStarted other).1).sees (after.engine.ensureStarted other).2.stamps
            newest.creator = true →
        (after.engine.delete other layout t.row).1 = .ok () ∧
          ∀ data, data.length = layout.recordSize →
            (after.engine.replace other layout t.row data).1 = .ok ()
  views : ∀ view, before.isRegistered view → view.own ≠ some txn →
    after.isRegistered view ∧ ∀ table row,
      (after.engine.heap table).read after.engine.stamps view row =
        (before.engine.heap table).read before.engine.stamps view row
  clock : after.engine.registry.clock = before.engine.registry.clock
  active : before.engine.registry.active.Perm
    (before.engine.registry.snapshot txn :: after.engine.registry.active)
  ended : txn ∉ after.unfinished
  forgotten : after.engine.registry.touched txn = []
  handle : ∀ other, after.engine.handle other = if other = h then {} else before.engine.handle other

/-- In every reachable state the rollback of a handle, which is also what happens when the handle is
given up, undoes its transaction. If only this handle wrote since its transaction began, the rows of
all tables are those from before. -/
theorem rollback_exact (reach : Reachable config state)
    (carries : (state.engine.handle h).txn = some txn) :
    (state.step (.rollback h)).engine = state.engine.dropHandle h ∧
    Undone h txn state (state.step (.rollback h)) ∧
    ∀ past own, Fits (past ++ own) → (initial config).run (past ++ own) = state →
      (((initial config).run past).engine.handle h).txn = none →
      (∀ call ∈ own, call.isOf h = true) →
      ∀ table, ((state.step (.rollback h)).engine.heap table).rows =
        (((initial config).run past).engine.heap table).rows := by
  obtain ⟨commits, inserts, s⟩ := reach.sound
  have runs : txn ∈ state.unfinished := Engine.mem_running_of_carries carries
  refine ⟨rfl, ?_, ?_⟩
  · constructor
    case absent =>
      intro t
      rw [s.chain_rollback carries]
      exact absent_withdraw txn _
    case kept =>
      intro t i
      rw [s.chain_rollback carries]
      exact getElem?_withdraw ((s.keeps t).newest_of_open (s.timely.openBit_lt_stamp runs)) i
    case inserted =>
      intro t data wrote
      exact s.chain_rollback_inserted carries wrote
    case written =>
      intro t write wrote notInserted
      obtain ⟨front, newest, stored, free⟩ := s.chain_rollback_written carries wrote notInserted
      refine ⟨front, newest, stored, free, fun other layout known id seen => ?_⟩
      have stored' : (state.step (.rollback h)).engine.chain ⟨layout.id, t.row⟩ =
          front ++ [newest] := by rwa [id]
      exact writes_of_free known stored' free seen
    case views =>
      intro view registered foreign
      refine ⟨isRegistered_rollback carries registered foreign, fun table row => ?_⟩
      have same := s.read_rollback carries registered foreign ⟨table, row⟩
      exact congrArg (Option.map _) same
    case clock =>
      rw [registry_rollback carries]
      rfl
    case active =>
      rw [registry_rollback carries]
      exact List.perm_cons_erase (s.covers.snapshot_mem_of_running runs)
    case ended =>
      have nodup := (unfinished_rollback carries).nodup_iff.1 s.timely.nodup
      exact (List.nodup_cons.1 nodup).1
    case forgotten =>
      rw [registry_rollback carries]
      exact Registry.touched_rollback_self _ txn
    case handle =>
      intro other
      rw [Engine.handle_eq, handles_rollback carries, ← Engine.handle_eq]
      exact Engine.handle_modifyHandle _ (Engine.known_of_carries carries) _ _
  · rintro past own fits rfl idle alone table
    exact rows_rollback fits idle alone carries table

def changedBefore : List Call :=
  [.createTable ⟨"t", [⟨"a", .int, 4⟩]⟩, .newHandle, .newHandle, .insert 0 1 [1, 0, 0, 0], .commit 0]

def changes : List Call :=
  [.replace 1 1 ⟨0, 0⟩ [2, 0, 0, 0], .replace 1 1 ⟨0, 0⟩ [3, 0, 0, 0], .delete 1 1 ⟨0, 0⟩,
    .insert 1 1 [4, 0, 0, 0]]

theorem rollback_exact_changes :
    ((((initial {}).run (changedBefore ++ changes)).engine.handle 1).txn = some 1) ∧
    Undone 1 1 ((initial {}).run (changedBefore ++ changes))
      (((initial {}).run (changedBefore ++ changes)).step (.rollback 1)) ∧
    ((((initial {}).run (changedBefore ++ changes)).step (.rollback 1)).engine.heap 1).rows.entries =
      [(⟨0, 0⟩, [{ data := [1, 0, 0, 0], creator := 0 }])] := by
  have fits : Fits (changedBefore ++ changes) := fits_of_length (by decide)
  have reach : Reachable {} ((initial {}).run (changedBefore ++ changes)) :=
    ⟨changedBefore ++ changes, fits, by decide, rfl⟩
  have carries : (((initial {}).run (changedBefore ++ changes)).engine.handle 1).txn = some 1 := by
    decide
  have idle : (((initial {}).run changedBefore).engine.handle 1).txn = none := by decide
  obtain ⟨-, undone, restored⟩ := rollback_exact reach carries
  refine ⟨carries, undone, ?_⟩
  rw [restored changedBefore changes fits rfl idle (by decide) 1]
  decide

end RowStore.Run
