/- RowStore/Proofs/Run/Invariant
   role: theorems
   digest: What holds in every state of a run, and how one transaction's actions keep it. -/

import RowStore.Proofs.Engine.Chains
import RowStore.Proofs.Engine.Handles
import RowStore.Proofs.Row.Id
import RowStore.Proofs.Run.Ledger
import RowStore.Run.Call

set_option autoImplicit false
set_option relaxedAutoImplicit false

namespace RowStore.Run

open RowStore.Row (RowId)
open RowStore.Schema (Layout)
open RowStore.Table (Chain)
open RowStore.Table.Chain
open RowStore.Text (Bytes)
open RowStore.Transaction (LockMode Registry Timestamp Touch TxnId View openBit tick tick_of_lt)
open RowStore.Transaction.Registry (Covers Timely)

variable {config : Config} {commits : Nat} {inserts : Nat → Nat} {state : State} {h : HandleId}
  {txn : TxnId} {t : Touch} {write : Write}

/-- What holds in every state of a run with at most so many commits and insertions. -/
structure Sound (config : Config) (commits : Nat) (inserts : Nat → Nat) (state : State) : Prop where
  limits : state.engine.config = config
  covers : state.engine.registry.Covers state.unfinished state.viewsInUse
  timely : state.engine.registry.Timely state.unfinished
  dated : Dated state.engine.registry state.unfinished state.history
  keeps : ∀ t, Keeps state.engine.registry (state.history.standing t) (state.engine.chain t)
  noted : ∀ txn ∈ state.unfinished, ∀ t write,
    .wrote txn t write ∈ state.history → t ∈ state.engine.registry.touched txn
  placed : ∀ txn t write, .wrote txn t write ∈ state.history →
    ∃ sequence < state.engine.nextSequence t.table,
      RowId.ofSequence sequence config.rowsPerPage = some t.row
  numbered : state.engine.catalog.layouts.map (·.id) = List.range' 1 state.engine.catalog.lastId
  unused : ∀ table, state.engine.catalog.layouts.length < table →
    state.engine.nextSequence table = 0
  clock : state.engine.registry.clock ≤ commits + 1
  sequence : ∀ table, state.engine.nextSequence table ≤ inserts table

/-- Neither the history nor any transaction, chain or table changes. The snapshots newly in use are
those of the clock. -/
structure Quiet (old new : State) : Prop where
  history : new.history = old.history
  unfinished : new.unfinished = old.unfinished
  carried : ∀ h, (new.engine.handle h).txn = (old.engine.handle h).txn
  limits : new.engine.config = old.engine.config
  catalog : new.engine.catalog = old.engine.catalog
  chain : ∀ t, new.engine.chain t = old.engine.chain t
  sequence : ∀ table, new.engine.nextSequence table = old.engine.nextSequence table
  clock : new.engine.registry.clock = old.engine.registry.clock
  txns : new.engine.registry.txns = old.engine.registry.txns
  active : ∀ a ∈ new.engine.registry.active,
    a ∈ old.engine.registry.active ∨ a = old.engine.registry.clock

/-- What happens is quiet, and all views in use are still covered. -/
structure Calm (old new : State) : Prop extends Quiet old new where
  covers : new.engine.registry.Covers new.unfinished new.viewsInUse

namespace Sound

theorem mono {commits' : Nat} {inserts' : Nat → Nat} (s : Sound config commits inserts state)
    (le : commits ≤ commits') (le' : ∀ table, inserts table ≤ inserts' table) :
    Sound config commits' inserts' state :=
  { s with
    clock := Nat.le_trans s.clock (Nat.succ_le_succ le)
    sequence := fun table => Nat.le_trans (s.sequence table) (le' table) }

theorem known (s : Sound config commits inserts state) (runs : txn ∈ state.unfinished) :
    txn < state.engine.registry.txns.size :=
  (s.timely.opened txn runs).1

theorem stands (s : Sound config commits inserts state) (runs : txn ∈ state.unfinished) :
    Event.withdrawn txn ∉ state.history := fun withdrawn =>
  (s.dated.withdrawn txn withdrawn).2.1 runs

/-- What changes views and locks alone keeps a state sound if the views are still covered. -/
theorem calm {new : State} (s : Sound config commits inserts state) (q : Calm state new) :
    Sound config commits inserts new where
  limits := q.limits.trans s.limits
  covers := q.covers
  timely := by
    rw [q.unfinished]
    exact s.timely.congr q.clock (by rw [q.txns]) (Registry.snapshot_congr q.txns)
      (Registry.stamp_congr q.txns) q.active
  dated := by
    rw [q.unfinished, q.history]
    exact s.dated.congr q.clock (by rw [q.txns]) (Registry.stamp_congr q.txns)
  keeps t := by
    rw [q.history, q.chain]
    exact (s.keeps t).extend (s.timely.congr_extends q.clock (by rw [q.txns])
      (Registry.snapshot_congr q.txns) (Registry.stamp_congr q.txns) q.active)
  noted txn runs t write wrote := by
    rw [Registry.touched_congr q.txns]
    exact s.noted txn (q.unfinished ▸ runs) t write (q.history ▸ wrote)
  placed txn t write wrote := by
    rw [q.sequence]
    exact s.placed txn t write (q.history ▸ wrote)
  numbered := q.catalog ▸ s.numbered
  unused table beyond := by
    rw [q.sequence]
    exact s.unused table (q.catalog ▸ beyond)
  clock := by
    rw [q.clock]
    exact s.clock
  sequence table := by
    rw [q.sequence]
    exact s.sequence table

private theorem begin (s : Sound config commits inserts state)
    (known : h < state.engine.handles.size) (idle : (state.engine.handle h).txn = none) :
    Sound config commits inserts { state with engine := (state.engine.ensureStarted h).2 } := by
  rw [Engine.ensureStarted_of_idle idle]
  have running := (Engine.running_begin known idle state.engine.registry.txns.size).symm
  have extends' := s.timely.start_extends
  exact
    { limits := s.limits
      covers := (s.covers.start fun _ => s.known).perm running (List.Perm.refl _)
      timely := s.timely.start.perm running
      dated := s.dated.start.perm running
      keeps := fun t => (s.keeps t).extend extends'
      noted := fun txn runs t write wrote => by
        have begun := s.dated.wrote txn t write wrote
        change t ∈ state.engine.registry.start.2.touched txn
        rw [Registry.touched_start, if_neg (Nat.ne_of_lt begun)]
        rcases List.mem_cons.1 (running.mem_iff.2 runs) with rfl | runs
        · omega
        · exact s.noted txn runs t write wrote
      placed := s.placed
      numbered := s.numbered
      unused := s.unused
      clock := s.clock
      sequence := s.sequence }

theorem ensureStarted (s : Sound config commits inserts state)
    (known : h < state.engine.handles.size) :
    Sound config commits inserts { state with engine := (state.engine.ensureStarted h).2 } := by
  cases carried : (state.engine.handle h).txn with
  | none => exact s.begin known carried
  | some txn =>
    rw [Engine.ensureStarted_of_carries carried]
    exact s

/-- A row written and noted by a running transaction, when its new chain keeps the standing writes
with the new one. -/
theorem wrote {engine : Engine} {chain : Chain} {inserts' : Nat → Nat}
    (s : Sound config commits inserts state) (runs : txn ∈ state.unfinished)
    (limits : engine.config = state.engine.config)
    (catalog : engine.catalog = state.engine.catalog)
    (registry : engine.registry = state.engine.registry)
    (handles : engine.handles = state.engine.handles)
    (changed : ∀ u, engine.chain u = if u = t then chain else state.engine.chain u)
    (keeps : Keeps state.engine.registry (state.history.standing t ++ [(txn, write)]) chain)
    (grows : ∀ table, state.engine.nextSequence table ≤ engine.nextSequence table)
    (bound : ∀ table, engine.nextSequence table ≤ inserts' table)
    (unused : ∀ table, state.engine.catalog.layouts.length < table →
      engine.nextSequence table = 0)
    (place : ∃ sequence < engine.nextSequence t.table,
      RowId.ofSequence sequence config.rowsPerPage = some t.row) (layout : Layout)
    (named : t.table = layout.id) :
    Sound config commits inserts'
      { state with
        engine := engine.noteWrite h txn layout t.row
        history := state.history ++ [.wrote txn t write] } := by
  have known := s.known runs
  have registry' : (engine.noteWrite h txn layout t.row).registry =
      state.engine.registry.touch txn t := by
    unfold Engine.noteWrite
    rw [registry, ← named]
    rfl
  have unfinished : (engine.noteWrite h txn layout t.row).running = state.unfinished :=
    (Engine.running_recordLock _ h t.row.page .readWrite).trans (Engine.running_congr handles)
  have extends' := s.timely.touch_extends txn t
  constructor
  case limits => exact limits.trans s.limits
  case covers =>
    change Registry.Covers (engine.noteWrite h txn layout t.row).registry
      (engine.noteWrite h txn layout t.row).running state.viewsInUse
    rw [registry', unfinished]
    exact s.covers.congr rfl rfl fun u _ => Registry.snapshot_touch _ txn u t
  case timely =>
    change Registry.Timely (engine.noteWrite h txn layout t.row).registry
      (engine.noteWrite h txn layout t.row).running
    rw [registry', unfinished]
    exact s.timely.touch t
  case dated =>
    change Dated (engine.noteWrite h txn layout t.row).registry
      (engine.noteWrite h txn layout t.row).running _
    rw [registry', unfinished]
    exact (s.dated.append_wrote t write known).congr rfl (Registry.size_touch _ txn t) fun u =>
      Registry.stamp_touch _ txn u t
  case keeps =>
    intro u
    dsimp only
    rw [registry', History.standing_append_wrote write t (s.stands runs)]
    change Keeps _ _ (engine.chain u)
    rw [changed]
    by_cases same : u = t
    · subst same
      rw [if_pos rfl, if_pos rfl]
      exact keeps.extend extends'
    · rw [if_neg same, if_neg (Ne.symm same)]
      exact (s.keeps u).extend extends'
  case noted =>
    intro other runs' u write' wrote
    dsimp only at wrote ⊢
    change other ∈ (engine.noteWrite h txn layout t.row).running at runs'
    rw [unfinished] at runs'
    rw [registry', Registry.touched_touch _ _ _ known]
    rcases List.mem_append.1 wrote with old | new
    · have mem := s.noted other runs' u write' old
      split
      case isTrue same => exact List.mem_append_left _ (same ▸ mem)
      case isFalse => exact mem
    · cases List.mem_singleton.1 new
      rw [if_pos rfl]
      exact List.mem_append_right _ List.mem_cons_self
  case placed =>
    intro other u write' wrote
    rcases List.mem_append.1 wrote with old | new
    · obtain ⟨sequence, lt, placed⟩ := s.placed other u write' old
      exact ⟨sequence, Nat.lt_of_lt_of_le lt (grows u.table), placed⟩
    · cases List.mem_singleton.1 new
      exact place
  case numbered =>
    change engine.catalog.layouts.map (·.id) = List.range' 1 engine.catalog.lastId
    rw [catalog]
    exact s.numbered
  case unused =>
    intro table beyond
    change engine.catalog.layouts.length < table at beyond
    rw [catalog] at beyond
    exact unused table beyond
  case clock =>
    dsimp only
    rw [registry', Registry.clock_touch]
    exact s.clock
  case sequence => exact bound

theorem recorded (s : Sound config commits inserts state) (runs : txn ∈ state.unfinished)
    (writable : Writable state.engine.registry txn (state.engine.chain t))
    (notFirst : ∀ data, write ≠ .inserted data) (layout : Layout) (named : t.table = layout.id) :
    Sound config commits inserts
      { state with
        engine := (state.engine.setChain t
          (Write.record (state.engine.chain t) (txn, write))).noteWrite h txn layout t.row
        history := state.history ++ [.wrote txn t write] } := by
  have same := Engine.sameBesides_setChain state.engine t
    (Write.record (state.engine.chain t) (txn, write))
  have keeps := (s.keeps t).recorded s.timely.forward writable notFirst (s.known runs)
  -- The row was written before, so it has its place already.
  have place : ∃ sequence < state.engine.nextSequence t.table,
      RowId.ofSequence sequence config.rowsPerPage = some t.row := by
    obtain ⟨front, newest, eq, -, free⟩ := writable
    have stored := s.keeps t
    rw [eq] at stored
    obtain ⟨before, last, -⟩ := stored.last_of_free free
    have wrote := (History.mem_standing.1 (List.mem_of_getLast? last)).1
    exact s.placed newest.creator t before wrote
  refine s.wrote runs same.config same.catalog same.registry same.handles
    (fun u => Engine.chain_setChain _ t u _) keeps ?_ ?_ ?_ ?_ layout named
  · intro table
    exact Nat.le_of_eq (same.sequence table).symm
  · intro table
    rw [same.sequence]
    exact s.sequence table
  · intro table beyond
    rw [same.sequence]
    exact s.unused table beyond
  · rw [same.sequence]
    exact place

private theorem standing_fresh (s : Sound config commits inserts state) {table : Nat}
    {row : RowId} (place : RowId.ofSequence (state.engine.nextSequence table) config.rowsPerPage =
      some row) : state.history.standing ⟨table, row⟩ = [] := by
  apply List.eq_nil_iff_forall_not_mem.2
  intro made hm
  obtain ⟨sequence, lt, placed⟩ := s.placed _ _ _ (History.mem_standing.1 hm).1
  rw [RowId.ofSequence_injective placed place] at lt
  exact Nat.lt_irrefl _ lt

theorem chain_fresh (s : Sound config commits inserts state) {table : Nat} {row : RowId}
    (place : RowId.ofSequence (state.engine.nextSequence table) config.rowsPerPage = some row) :
    state.engine.chain ⟨table, row⟩ = [] :=
  (s.standing_fresh place ▸ s.keeps ⟨table, row⟩).eq_nil

private theorem next_number (s : Sound config commits inserts state) {table : Nat}
    (room : inserts table + 1 < 0x10000000000000000) :
    (state.engine.nextSequence table + 1) % 0x10000000000000000 =
      state.engine.nextSequence table + 1 :=
  Nat.mod_eq_of_lt (Nat.lt_of_le_of_lt (Nat.succ_le_succ (s.sequence table)) room)

def oneMore (inserts : Nat → Nat) (table : Nat) : Nat → Nat := fun other =>
  if other = table then inserts other + 1 else inserts other

theorem le_oneMore (inserts : Nat → Nat) (table other : Nat) :
    inserts other ≤ oneMore inserts table other := by
  simp only [oneMore]
  split
  · omega
  · omega

private theorem sequence_grows (engine : Engine) (table other : Nat) (rows : Table.Rows) :
    engine.nextSequence other ≤ (engine.setHeap table
      { nextSequence := engine.nextSequence table + 1, rows }).nextSequence other := by
  rw [Engine.nextSequence_setHeap]
  split
  case isTrue same =>
    rw [same]
    exact Nat.le_succ _
  case isFalse => omega

private theorem sequence_oneMore (s : Sound config commits inserts state) (table other : Nat)
    (rows : Table.Rows) :
    (state.engine.setHeap table
      { nextSequence := state.engine.nextSequence table + 1, rows }).nextSequence other ≤
        oneMore inserts table other := by
  have bound := s.sequence other
  rw [Engine.nextSequence_setHeap]
  simp only [oneMore]
  split
  case isTrue same =>
    rw [same] at bound ⊢
    omega
  case isFalse => exact bound

theorem inserted {layout : Layout} {row : RowId} {data : Bytes} {engine : Engine}
    (s : Sound config commits inserts state) (runs : txn ∈ state.unfinished)
    (listed : layout.id ≤ state.engine.catalog.layouts.length)
    (room : inserts layout.id + 1 < 0x10000000000000000)
    (done : state.engine.insertRow txn layout data = (.ok row, engine)) :
    Sound config commits (oneMore inserts layout.id)
      { state with
        engine := engine.noteWrite h txn layout row
        history := state.history ++ [.wrote txn ⟨layout.id, row⟩ (.inserted data)] } := by
  have changed := Engine.chain_insertRow done
  obtain ⟨-, place, rfl⟩ := Engine.insertRow_eq_ok done
  rw [s.next_number room] at changed ⊢
  rw [s.limits] at place
  have keeps : Keeps state.engine.registry
      (state.history.standing ⟨layout.id, row⟩ ++ [(txn, .inserted data)])
      [{ data := data, creator := txn }] := by
    rw [s.standing_fresh place, List.nil_append]
    exact Keeps.inserted data (s.known runs)
  refine s.wrote runs (by rfl) (by rfl) (by rfl) (by rfl) changed keeps ?_ ?_ ?_ ?_ layout rfl
  · intro table
    exact sequence_grows state.engine layout.id table _
  · intro table
    exact s.sequence_oneMore layout.id table _
  · intro table beyond
    have other : ¬ table = layout.id := by omega
    rw [Engine.nextSequence_setHeap, if_neg other]
    exact s.unused table beyond
  · refine ⟨state.engine.nextSequence layout.id, ?_, place⟩
    rw [Engine.nextSequence_setHeap, if_pos rfl]
    exact Nat.lt_succ_self _

theorem skipped {layout : Layout} {data : Bytes} {engine : Engine} {fault : Fault}
    (s : Sound config commits inserts state)
    (listed : layout.id ≤ state.engine.catalog.layouts.length)
    (room : inserts layout.id + 1 < 0x10000000000000000)
    (failed : state.engine.insertRow txn layout data = (.error fault, engine)) :
    Sound config commits (oneMore inserts layout.id) { state with engine } := by
  rcases Engine.insertRow_eq_error failed with ⟨-, rfl⟩ | ⟨-, -, rfl⟩
  · exact s.mono (Nat.le_refl _) (le_oneMore inserts layout.id)
  · rw [s.next_number room]
    exact
      { limits := s.limits
        covers := s.covers
        timely := s.timely
        dated := s.dated
        keeps := fun t => (Engine.chain_renumbered _ _ _ t).symm ▸ s.keeps t
        noted := s.noted
        placed := fun txn t write wrote => by
          obtain ⟨sequence, lt, placed⟩ := s.placed txn t write wrote
          have grows := sequence_grows state.engine layout.id t.table
            (state.engine.heap layout.id).rows
          exact ⟨sequence, Nat.lt_of_lt_of_le lt grows, placed⟩
        numbered := s.numbered
        unused := fun table beyond => by
          have other : ¬ table = layout.id := by
            dsimp only [Engine.setHeap] at beyond
            omega
          rw [Engine.nextSequence_setHeap, if_neg other]
          exact s.unused table beyond
        clock := s.clock
        sequence := fun table => s.sequence_oneMore layout.id table _ }

private theorem ended {engine : Engine} {registry : Registry} {event : Event} {commits' : Nat}
    (s : Sound config commits inserts state) (carries : (state.engine.handle h).txn = some txn)
    (ending : ∀ other t write, event ≠ .wrote other t write)
    (same : Engine.SameBesides { state.engine.resetHandle h with registry := registry } engine)
    (covers : registry.Covers (state.engine.resetHandle h).running state.viewsInUse)
    (timely : registry.Timely (state.engine.resetHandle h).running)
    (dated : Dated registry (state.engine.resetHandle h).running (state.history ++ [event]))
    (keeps : ∀ t, Keeps registry (History.standing (state.history ++ [event]) t) (engine.chain t))
    (noted : ∀ other, other ≠ txn → registry.touched other = state.engine.registry.touched other)
    (clock : registry.clock ≤ commits' + 1) :
    Sound config commits' inserts
      { state with engine, history := state.history ++ [event] } := by
  have apart : txn ∉ (state.engine.resetHandle h).running :=
    (List.nodup_cons.1 (s.timely.perm (Engine.running_resetHandle carries)).nodup).1
  have runs {other : TxnId} (still : other ∈ (state.engine.resetHandle h).running) :
      other ∈ state.unfinished :=
    (Engine.running_resetHandle carries).mem_iff.2 (List.mem_cons_of_mem txn still)
  have wrote {other : TxnId} {t : Touch} {write : Write}
      (mem : Event.wrote other t write ∈ state.history ++ [event]) :
      Event.wrote other t write ∈ state.history :=
    History.mem_of_ne_last mem (Ne.symm (ending other t write))
  have unfinished : engine.running = (state.engine.resetHandle h).running :=
    Engine.running_congr same.handles
  have number (table : Nat) : engine.nextSequence table = state.engine.nextSequence table :=
    same.sequence table
  have registry' : engine.registry = registry := same.registry
  have catalog : engine.catalog = state.engine.catalog := same.catalog
  constructor
  case limits => exact same.config.trans s.limits
  case covers =>
    change engine.registry.Covers engine.running state.viewsInUse
    rw [registry', unfinished]
    exact covers
  case timely =>
    change engine.registry.Timely engine.running
    rw [registry', unfinished]
    exact timely
  case dated =>
    change Dated engine.registry engine.running _
    rw [registry', unfinished]
    exact dated
  case keeps =>
    intro t
    rw [registry']
    exact keeps t
  case noted =>
    intro other still t write mem
    change other ∈ engine.running at still
    rw [unfinished] at still
    dsimp only
    rw [registry', noted other fun own => apart (own ▸ still)]
    exact s.noted other (runs still) t write (wrote mem)
  case placed =>
    intro other t write mem
    obtain ⟨sequence, lt, placed⟩ := s.placed other t write (wrote mem)
    exact ⟨sequence, by rwa [← number] at lt, placed⟩
  case numbered =>
    dsimp only
    rw [catalog]
    exact s.numbered
  case unused =>
    intro table beyond
    dsimp only at beyond ⊢
    rw [number]
    exact s.unused table (catalog ▸ beyond)
  case clock =>
    rw [registry']
    exact clock
  case sequence =>
    intro table
    dsimp only
    rw [number]
    exact s.sequence table

theorem committed (s : Sound config commits inserts state)
    (carries : (state.engine.handle h).txn = some txn) (room : commits + 2 < openBit) :
    Sound config (commits + 1) inserts
      { state with
        engine := ((state.engine.resetHandle h).commitTxn txn).2
        history := state.history ++ [.committed txn state.engine.registry.clock] } := by
  have running := Engine.running_resetHandle carries
  have timely := s.timely.perm running
  have later : tick state.engine.registry.clock = state.engine.registry.clock + 1 :=
    tick_of_lt s.timely.clock_lt
  have clock : state.engine.registry.clock + 1 ≤ commits + 2 := Nat.succ_le_succ s.clock
  rw [Engine.commitTxn_eq]
  refine s.ended carries (by simp) (Engine.sameBesides_purgeAll _ _ _)
    (s.covers.perm running (List.Perm.refl _)).commit
    (timely.commit (Nat.lt_of_le_of_lt clock room)) ((s.dated.perm running).commit timely)
    ?_ ?_ ?_
  · intro t
    rw [History.standing_append_committed]
    exact Engine.purgeAll_induction (fun chain keeps => keeps.purge) _
      ((s.keeps t).extend timely.commit_extends)
  · intro other apart
    exact Registry.touched_commit_of_ne _ apart
  · change tick state.engine.registry.clock ≤ commits + 2
    rw [later]
    exact clock

theorem rolledBack (s : Sound config commits inserts state)
    (carries : (state.engine.handle h).txn = some txn) :
    Sound config commits inserts
      { state with
        engine := (state.engine.resetHandle h).rollbackTxn txn
        history := state.history ++ [.withdrawn txn] } := by
  have running := Engine.running_resetHandle carries
  have timely := s.timely.perm running
  have runs : txn ∈ state.unfinished := Engine.mem_running_of_carries carries
  rw [Engine.rollbackTxn_eq]
  refine s.ended carries (by simp) (Engine.sameBesides_withdrawAll _ _ _)
    (s.covers.perm running (List.Perm.refl _)).rollback timely.rollback
    ((s.dated.perm running).rollback timely) ?_ ?_ s.clock
  · intro t
    rw [Engine.chain_withdrawAll, History.standing_append_withdrawn]
    have keeps := (s.keeps t).extend (s.timely.rollback_extends txn)
    have opened : openBit < (state.engine.registry.rollback txn).2.stamp txn := by
      rw [Registry.stamp_rollback]
      exact s.timely.openBit_lt_stamp runs
    split
    case isTrue => exact keeps.withdraw opened
    case isFalse untouched =>
      -- The transaction has not written a row that it has not noted.
      have others : ∀ made ∈ state.history.standing t, made.1 ≠ txn := by
        rintro made hm rfl
        exact untouched (s.noted _ runs t made.2 (History.mem_standing.1 hm).1)
      rw [List.filter_eq_self.2 fun made hm => by simpa using others made hm]
      exact keeps
  · intro other apart
    exact Registry.touched_rollback_of_ne _ apart

end Sound

end RowStore.Run
